import BehaviorTree.Source.Basic
import BehaviorTree.Text.Parser

/-!
    tree name = Type (arg <- value, arg <- "literal") {
        Type    # a comment
    }

Arguments and children may be left out, and a line break or a space parts one child from the next.
-/

namespace BehaviorTree.Source

open BehaviorTree.Text

def isSpace (c : Char) : Bool := c = ' ' || c = '\t'

def isLineBreak (c : Char) : Bool := c = '\r' || c = '\n'

def isBlank (c : Char) : Bool := isSpace c || isLineBreak c

def isLetter (c : Char) : Bool := c.isAlpha || c = '_'

def isWordChar (c : Char) : Bool := c.isAlphanum || c = '_'

def isBareChar (c : Char) : Bool := !isBlank c && !",(){}\"#".toList.contains c

def skip (p : Char → Bool) : Parser Unit := do
  let _ ← Parser.takeWhile p

def spaces : Parser Unit := skip isSpace

def blanks : Parser Unit := skip isBlank

def spaced {α : Type} (p : Parser α) : Parser α := Parser.between spaces p spaces

def identifier : Parser String := do
  let c ← Parser.satisfy isLetter
  let cs ← Parser.takeWhile isWordChar
  return String.ofList (c :: cs)

def lineBreaks : Parser Unit := spaced do
  let _ ← Parser.takeWhile1 isLineBreak

def comment : Parser Unit := do
  spaces
  let _ ← Parser.char '#'
  skip fun c => !isLineBreak c

def replacePairs (first second new : Char) : List Char → List Char
  | c :: d :: cs =>
    if c = first ∧ d = second then new :: replacePairs first second new cs
    else c :: replacePairs first second new (d :: cs)
  | cs => cs

/-- A literal's own text: first each doubled backslash becomes one, then each backslash before an `n`
a line feed. -/
def unescape (cs : List Char) : List Char :=
  replacePairs '\\' 'n' '\n' (replacePairs '\\' '\\' '\\' cs)

def literal : Parser ArgValue := do
  blanks
  let _ ← Parser.char '"'
  let cs ← Parser.takeWhile fun c => c ≠ '"'
  let _ ← Parser.char '"'
  blanks
  return .literal (String.ofList (unescape cs))

def bare : Parser ArgValue := do
  let cs ← Parser.takeWhile1 isBareChar
  return .bare (String.ofList cs)

def arg : Parser Arg := do
  let name ← spaced identifier
  spaced (Parser.word ['<', '-'])
  let value ← spaced (literal <|> bare)
  return ⟨name, value⟩

def comma : Parser Unit := do
  blanks
  let _ ← Parser.char ','

/-- Arguments, with any number of commas after each. -/
def args : Parser (List Arg) :=
  Parser.many (Parser.between blanks arg do let _ ← Parser.many comma)

def argList : Parser (List Arg) := do
  let _ ← spaced (Parser.char '(')
  let args ← args
  blanks
  let _ ← Parser.char ')'
  spaces
  return args

def children (child : Parser SourceNode) : Parser (List SourceNode) := do
  let _ ← Parser.many lineBreaks
  let items ← Parser.many <| Parser.between spaces
    ((do comment; return none) <|> some <$> child)
    (do let _ ← Parser.many lineBreaks)
  return items.filterMap id

def childList (child : Parser SourceNode) : Parser (List SourceNode) :=
  Parser.between (do let _ ← spaced (Parser.char '{')) (children child)
    (do let _ ← spaced (Parser.char '}'))

/-- A node that holds others at most `depth` deep. -/
def nodeUpTo : (depth : Nat) → Parser SourceNode
  | 0 => failure
  | depth + 1 => do
    let type ← spaced identifier
    let args ← optional argList
    let children ← optional (childList (nodeUpTo depth))
    let _ ← optional comment
    return .mk type (args.getD []) (children.getD [])

/-- A node takes a letter and an opening brace before the nodes in it, so none is deeper than the text
is long. -/
def node : Parser SourceNode := fun cs => nodeUpTo (cs.length + 1) cs

def definition : Parser Definition := do
  blanks
  Parser.word "tree".toList
  spaces
  let name ← spaced identifier
  let _ ← spaced (Parser.char '=')
  let root ← node
  return ⟨name, root⟩

def commentBlock : Parser Unit := Parser.between blanks comment blanks

def definitionList : Parser (List Definition) := do
  let items ← Parser.many ((do commentBlock; return none) <|> some <$> definition)
  blanks
  return items.filterMap id

/-- The definitions at the front of a text, and what follows them. -/
def readFront (cs : List Char) : Source × List Char :=
  match definitionList cs with
  | some (definitions, rest) => (⟨definitions⟩, rest)
  | none => (⟨[]⟩, cs)

/-- Where a text stops being a tree source: the number of the line, from 1, and what stands there. -/
structure SyntaxError where
  line : Nat
  snippet : String
  deriving Repr, DecidableEq

/-- The front of a text up to a line feed, and without a carriage return before that. -/
def firstLine (cs : List Char) : List Char :=
  let line := cs.takeWhile (· ≠ '\n')
  if line.length < cs.length ∧ line.getLast? = some '\r' then line.dropLast else line

def snippetLength : Nat := 40

/-- The error at the point where `rest` is left of `text`. -/
def syntaxError (text rest : List Char) : SyntaxError where
  line := (text.take (text.length - rest.length)).count '\n' + 1
  snippet := String.ofList ((firstLine rest).take snippetLength)

def parse (text : String) : Except SyntaxError Source :=
  match readFront text.toList with
  | (source, []) => .ok source
  | (_, rest) => .error (syntaxError text.toList rest)

theorem parse_of_readFront {text : String} {source : Source}
    (h : readFront text.toList = (source, [])) : parse text = .ok source := by
  rw [parse, h]

theorem parse_of_rest {text : String} {source : Source} {c : Char} {rest : List Char}
    (h : readFront text.toList = (source, c :: rest)) :
    parse text = .error (syntaxError text.toList (c :: rest)) := by
  rw [parse, h]

end BehaviorTree.Source
