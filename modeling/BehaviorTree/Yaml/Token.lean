import BehaviorTree.Yaml.Scalar

/-!
Block collections have no brackets. They are opened where a line is indented more than the one that
opened the collection around it, and closed where a line is indented less. A key is known as one only
at the colon behind it; its token is then put in front of what was read since the key began.
-/

namespace BehaviorTree.Yaml

inductive Token where
  | scalar (scalar : Scalar)
  | flowSequence
  | flowSequenceEnd
  | flowMapping
  | flowMappingEnd
  | comma
  | blockSequence
  | blockMapping
  | blockEnd
  | dash
  | key
  | value
  | documentStart
  | documentEnd
  deriving Repr, DecidableEq

/-- A place where a key may have begun. -/
structure KeyPlace where
  token : Nat
  start : Placed
  required : Bool
  deriving Repr

def longestKey : Nat := 1024

def deepestFlow : Nat := 255

namespace KeyPlace

def isStale (key : KeyPlace) (p : Placed) : Bool :=
  key.start.line < p.line || key.start.index + longestKey < p.index

end KeyPlace

/-- What was read, and what the marks ahead mean. -/
structure Lexer where
  tokens : List Token := []
  columns : List Nat := []
  keyAllowed : Bool := true
  blockKey : Option KeyPlace := none
  flowKeys : List (Option KeyPlace) := []
  /-- Behind the latest quoted scalar, where a colon needs no blank after it. -/
  quotedEnd : Option Nat := none
  deriving Repr

namespace Lexer

open Placed

def inFlow (lexer : Lexer) : Bool := !lexer.flowKeys.isEmpty

/-- How far a line must be indented to belong to the innermost block collection. -/
def indent (lexer : Lexer) : Nat := (lexer.columns.head?.map (· + 1)).getD 0

def context (lexer : Lexer) : Scalar.Context := ⟨lexer.inFlow, lexer.indent⟩

def push (lexer : Lexer) (token : Token) : Lexer :=
  { lexer with tokens := lexer.tokens ++ [token] }

def allowKey (lexer : Lexer) (keyAllowed : Bool) : Lexer := { lexer with keyAllowed }

def closeBlocks (lexer : Lexer) (indent : Nat) : Lexer :=
  if lexer.inFlow then lexer
  else
    let closed := lexer.columns.takeWhile (indent ≤ ·)
    { lexer with
      columns := lexer.columns.drop closed.length
      tokens := lexer.tokens ++ closed.map fun _ => .blockEnd }

/-- Opens a block collection at a column, unless one is open there. Its token comes after `position`
others. -/
def openBlock (lexer : Lexer) (column position : Nat) (token : Token) : Lexer :=
  if lexer.inFlow || column < lexer.indent then lexer
  else { lexer with
    columns := column :: lexer.columns
    tokens := lexer.tokens.insertIdx position token }

def key (lexer : Lexer) : Option KeyPlace := lexer.flowKeys.head?.getD lexer.blockKey

def setKey (lexer : Lexer) (key : Option KeyPlace) : Lexer :=
  match lexer.flowKeys with
  | [] => { lexer with blockKey := key }
  | _ :: keys => { lexer with flowKeys := key :: keys }

def dropKey? (lexer : Lexer) : Option Lexer :=
  if lexer.key.any (·.required) then none else some (lexer.setKey none)

/-- A key may begin at `p`, if one is allowed here. -/
def saveKey? (lexer : Lexer) (p : Placed) : Option Lexer :=
  if !lexer.keyAllowed then some lexer
  else do
    let required := lexer.inFlow && p.column + 1 = lexer.indent
    return (← lexer.dropKey?).setKey (some ⟨lexer.tokens.length, p, required⟩)

def dropStaleKeys? (lexer : Lexer) (p : Placed) : Option Lexer :=
  let isStale (key : KeyPlace) : Bool := key.isStale p
  if (lexer.blockKey :: lexer.flowKeys).any fun key => key.any fun k => isStale k && k.required then none
  else some { lexer with
    blockKey := lexer.blockKey.filter (!isStale ·)
    flowKeys := lexer.flowKeys.map (·.filter (!isStale ·)) }

def openFlow? (lexer : Lexer) (p : Placed) (token : Token) : Option Lexer := do
  let lexer ← lexer.saveKey? p
  if lexer.flowKeys.length = deepestFlow then none
  else return ({ lexer with flowKeys := none :: lexer.flowKeys }.allowKey true).push token

def closeFlow? (lexer : Lexer) (token : Token) : Option Lexer := do
  let lexer ← lexer.dropKey?
  return ({ lexer with flowKeys := lexer.flowKeys.drop 1 }.allowKey false).push token

def comma? (lexer : Lexer) : Option Lexer := do
  return ((← lexer.dropKey?).allowKey true).push .comma

def dash? (lexer : Lexer) (p : Placed) : Option Lexer :=
  if lexer.inFlow || !lexer.keyAllowed then none
  else do
    let lexer ← (lexer.openBlock p.column lexer.tokens.length .blockSequence).dropKey?
    return (lexer.allowKey true).push .dash

def announcedKey? (lexer : Lexer) (p : Placed) : Option Lexer :=
  if !lexer.inFlow && !lexer.keyAllowed then none
  else do
    let lexer ← (lexer.openBlock p.column lexer.tokens.length .blockMapping).dropKey?
    return (lexer.allowKey !lexer.inFlow).push .key

/-- The colon at `p` makes a key of what began last, if that may be one. -/
def value? (lexer : Lexer) (p : Placed) : Option Lexer :=
  match lexer.key with
  | some key =>
    let lexer := { lexer with tokens := lexer.tokens.insertIdx key.token .key }
    let lexer := (lexer.openBlock key.start.column key.token .blockMapping).setKey none
    some ((lexer.allowKey false).push .value)
  | none =>
    if !lexer.inFlow && !lexer.keyAllowed then none
    else
      let lexer := lexer.openBlock p.column lexer.tokens.length .blockMapping
      some ((lexer.allowKey !lexer.inFlow).push .value)

def marker? (lexer : Lexer) (token : Token) : Option Lexer := do
  return ((← (lexer.closeBlocks 0).dropKey?).allowKey false).push token

def plain? (lexer : Lexer) (p : Placed) (ps : List Placed) : Option (Lexer × List Placed) := do
  let lexer ← lexer.saveKey? p
  let (scalar, brokeLine, rest) ← Scalar.plain? lexer.context (p :: ps)
  return ((lexer.allowKey brokeLine).push (.scalar scalar), rest)

def quoted? (lexer : Lexer) (p : Placed) (ps : List Placed) : Option (Lexer × List Placed) := do
  let lexer ← lexer.saveKey? p
  let (scalar, rest) ← Scalar.quoted? p.char ps
  let quotedEnd := rest.head?.map (·.index)
  return (({ lexer with quotedEnd }.allowKey false).push (.scalar scalar), rest)

def block? (lexer : Lexer) (p : Placed) (ps : List Placed) : Option (Lexer × List Placed) := do
  let lexer ← lexer.saveKey? p
  let (scalar, rest) ← Scalar.block? lexer.context (p.char = '>') ps
  return ((lexer.allowKey true).push (.scalar scalar), rest)

/-- Skips blanks, breaks and comments. After a line break outside of flow collections a key may begin;
a tab may not stand where one may. -/
def skipGap (inFlow comment keyAllowed : Bool) : List Placed → Bool × List Placed
  | [] => (keyAllowed, [])
  | p :: ps =>
    if p.isBreak then skipGap inFlow false (keyAllowed || !inFlow) ps
    else if comment || p.char = '#' then skipGap inFlow true keyAllowed ps
    else if p.char = ' ' || p.char = '\t' && (inFlow || !keyAllowed) then
      skipGap inFlow false keyAllowed ps
    else (keyAllowed, p :: ps)

def isColon (lexer : Lexer) (p : Placed) (ps : List Placed) : Bool :=
  gapAhead ps || lexer.inFlow && (flowIndicatorAhead ps || lexer.quotedEnd = some p.index)

def readAt? (lexer : Lexer) (p : Placed) (ps : List Placed) : Option (Lexer × List Placed) :=
  let mark (lexer? : Option Lexer) := lexer?.map (·, ps)
  if p.column = 0 && p.char = '%' then none
  else if tripleAhead '-' (p :: ps) then (lexer.marker? .documentStart).map (·, ps.drop 2)
  else if tripleAhead '.' (p :: ps) then (lexer.marker? .documentEnd).map (·, ps.drop 2)
  else match p.char with
    | '[' => mark (lexer.openFlow? p .flowSequence)
    | '\x7b' => mark (lexer.openFlow? p .flowMapping)
    | ']' => mark (lexer.closeFlow? .flowSequenceEnd)
    | '\x7d' => mark (lexer.closeFlow? .flowMappingEnd)
    | ',' => mark lexer.comma?
    | '-' => if gapAhead ps then mark (lexer.dash? p) else lexer.plain? p ps
    | '?' => if gapAhead ps then mark (lexer.announcedKey? p) else lexer.plain? p ps
    | ':' => if lexer.isColon p ps then mark (lexer.value? p) else lexer.plain? p ps
    | '|' | '>' => if lexer.inFlow then lexer.plain? p ps else lexer.block? p ps
    | '\'' | '"' => lexer.quoted? p ps
    | '*' | '&' | '!' | '%' | '@' | '\x60' => none
    | _ => lexer.plain? p ps

def readUpTo : (fuel : Nat) → Lexer → List Placed → Option (List Token)
  | 0, _, _ => none
  | fuel + 1, lexer, ps =>
    match skipGap lexer.inFlow false lexer.keyAllowed ps with
    | (_, []) => some (lexer.closeBlocks 0).tokens
    | (keyAllowed, p :: ps) => do
      let lexer ← (lexer.allowKey keyAllowed).dropStaleKeys? p
      let (lexer, rest) ← (lexer.closeBlocks (p.column + 1)).readAt? p ps
      readUpTo fuel lexer rest

end Lexer

/-- The tokens of a text. Each step takes at least one character. -/
def tokens? (s : String) : Option (List Token) :=
  let ps := Placed.ofString s
  Lexer.readUpTo (ps.length + 1) {} ps

end BehaviorTree.Yaml
