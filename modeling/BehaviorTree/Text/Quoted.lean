import BehaviorTree.Text.Glyph

namespace BehaviorTree.Text

def hex (n : Nat) : List Char := Nat.toDigits 16 n

/-- A character inside quotes: four controls have a letter, and what has no glyph is shown as its
number. -/
def quoteChar : Char → List Char
  | '"' => ['\\', '"']
  | '\\' => ['\\', '\\']
  | '\n' => ['\\', 'n']
  | '\r' => ['\\', 'r']
  | '\t' => ['\\', 't']
  | '\x00' => ['\\', '0']
  | c => if hasGlyph c then [c] else ['\\', 'u', '\x7b'] ++ hex c.toNat ++ ['\x7d']

def quoteChars (cs : List Char) : List Char := '"' :: cs.flatMap quoteChar ++ ['"']

def quoted (s : String) : String := String.ofList (quoteChars s.toList)

end BehaviorTree.Text
