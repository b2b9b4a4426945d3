/-!
Stands for the parser combinators of a library, on whole texts. A parser answers what it read and the
rest of the text, or nothing. An alternative starts again where the first one started.
-/

namespace BehaviorTree.Text

abbrev Parser := StateT (List Char) Option

namespace Parser

variable {α : Type}

def satisfy (p : Char → Bool) : Parser Char
  | [] => none
  | c :: cs => if p c then some (c, cs) else none

def char (c : Char) : Parser Char := satisfy (· = c)

def word : List Char → Parser Unit
  | [] => pure ()
  | c :: cs => do
    let _ ← char c
    word cs

/-- The longest row of characters of a class, perhaps none. -/
def takeWhile (p : Char → Bool) : Parser (List Char) := fun cs =>
  some (cs.takeWhile p, cs.dropWhile p)

def takeWhile1 (p : Char → Bool) : Parser (List Char) := do
  let c ← satisfy p
  let cs ← takeWhile p
  return c :: cs

/-- Repeats a parser at most `fuel` times, until it reads nothing. -/
def manyUpTo (p : Parser α) : (fuel : Nat) → Parser (List α)
  | 0 => pure []
  | fuel + 1 => fun cs =>
    match p cs with
    | none => some ([], cs)
    | some (a, rest) =>
      match manyUpTo p fuel rest with
      | none => none
      | some (as, rest) => some (a :: as, rest)

/-- Repeats a parser as long as it reads something. Where each round takes a character, there are no
more rounds than characters. -/
def many (p : Parser α) : Parser (List α) := fun cs => manyUpTo p cs.length cs

def many1 (p : Parser α) : Parser (List α) := do
  let a ← p
  let as ← many p
  return a :: as

def between (before : Parser Unit) (p : Parser α) (after : Parser Unit) : Parser α := do
  before
  let a ← p
  after
  return a

end Parser

end BehaviorTree.Text
