import BehaviorTree.Yaml.Placed

/-!
Each reader starts behind the first character of its form, or at it where the form has no mark, and
answers the text and what follows it. Where a text goes over several lines, a single break stands for
a space, and of several breaks the first one is dropped.
-/

namespace BehaviorTree.Yaml

structure Scalar where
  text : String
  /-- Whether it was written with no quotes, so that it may mean something else than its text. -/
  plain : Bool
  deriving Repr, DecidableEq

open Placed

def foldBreaks : Nat → List Char
  | 0 => []
  | 1 => [' ']
  | n + 2 => List.replicate (n + 1) '\n'

structure Gap where
  blanks : List Char := []
  breaks : Nat := 0
  /-- Whether the first line break was escaped, so that it stands for nothing. -/
  escaped : Bool := false

namespace Gap

def isEmpty (gap : Gap) : Bool := gap.blanks.isEmpty && gap.breaks = 0

def addBlank (gap : Gap) (c : Char) : Gap :=
  if gap.breaks = 0 then { gap with blanks := gap.blanks ++ [c] } else gap

def addBreak (gap : Gap) : Gap := { gap with breaks := gap.breaks + 1 }

def text (gap : Gap) : List Char :=
  if gap.breaks = 0 then gap.blanks
  else if gap.escaped then List.replicate (gap.breaks - 1) '\n'
  else foldBreaks gap.breaks

end Gap

namespace Scalar

/-- Where a scalar stands: within a flow collection or not, and how far the lines of the block around
it are indented. -/
structure Context where
  inFlow : Bool
  indent : Nat

def endsPlain (context : Context) (p : Placed) (ps : List Placed) : Bool :=
  (p.char = ':' && (gapAhead ps || context.inFlow && flowIndicatorAhead ps)) ||
    context.inFlow && p.isFlowIndicator

def endsPlainAfterGap (context : Context) (p : Placed) (ps : List Placed) : Bool :=
  !context.inFlow && p.column < context.indent || p.char = '#' || markerAhead (p :: ps)

/-- Reads on, given the text so far and the gap since. Answers also whether the scalar ended on a later
line than its last character. A tab may not stand where a line is indented. -/
def plainFrom (context : Context) (text : List Char) (gap : Gap) :
    List Placed → Option (Scalar × Bool × List Placed)
  | [] => some (⟨String.ofList text, true⟩, gap.breaks ≠ 0, [])
  | p :: ps =>
    if p.isBreak then plainFrom context text gap.addBreak ps
    else if p.isBlank then
      if gap.breaks ≠ 0 && p.column < context.indent && p.char = '\t' then none
      else plainFrom context text (gap.addBlank p.char) ps
    else if !gap.isEmpty && endsPlainAfterGap context p ps || endsPlain context p ps then
      some (⟨String.ofList text, true⟩, gap.breaks ≠ 0, p :: ps)
    else plainFrom context (text ++ gap.text ++ [p.char]) {} ps

def plain? (context : Context) (ps : List Placed) : Option (Scalar × Bool × List Placed) :=
  plainFrom context [] {} ps

def escapes : List (Char × Char) :=
  [('0', '\x00'), ('a', '\x07'), ('b', '\x08'), ('t', '\t'), ('\t', '\t'), ('n', '\n'), ('v', '\x0b'),
    ('f', '\x0c'), ('r', '\r'), ('e', '\x1b'), (' ', ' '), ('"', '"'), ('\'', '\''), ('\\', '\\'),
    ('N', '\u0085'), ('_', '\u00a0'), ('L', '\u2028'), ('P', '\u2029')]

def codeLengths : List (Char × Nat) := [('x', 2), ('u', 4), ('U', 8)]

def hexValue? (c : Char) : Option Nat :=
  if c.isDigit then some (c.toNat - '0'.toNat)
  else if 'a' ≤ c && c ≤ 'f' then some (c.toNat - 'a'.toNat + 10)
  else if 'A' ≤ c && c ≤ 'F' then some (c.toNat - 'A'.toNat + 10)
  else none

def charOfCode? (digits : List Char) : Option Char := do
  let values ← digits.mapM hexValue?
  let code := values.foldl (fun n d => 16 * n + d) 0
  if code.isValidChar then some (Char.ofNat code) else none

def escape? (c : Char) (ps : List Placed) : Option (Char × Nat) :=
  match escapes.lookup c with
  | some d => some (d, 0)
  | none => do
    let length ← codeLengths.lookup c
    let digits := (ps.take length).map char
    if digits.length < length then none
    else return (← charOfCode? digits, length)

/-- Reads on to the closing mark. In single quotes the mark itself is written twice; in double quotes a
backslash escapes. -/
def quotedFrom (mark : Char) (text : List Char) (gap : Gap) (ps : List Placed) :
    Option (Scalar × List Placed) :=
  match ps with
  | [] => none
  | p :: ps =>
    if p.isBreak then quotedFrom mark text gap.addBreak ps
    else if p.isBlank then quotedFrom mark text (gap.addBlank p.char) ps
    else if !gap.isEmpty && markerAhead (p :: ps) then none
    else
      let text := text ++ gap.text
      if p.char = mark then
        if mark = '\'' && ps.head?.any (·.char = mark) then
          quotedFrom mark (text ++ [mark]) {} (ps.drop 1)
        else some (⟨String.ofList text, false⟩, ps)
      else if p.char = '\\' && mark = '"' then
        match ps with
        | [] => none
        | q :: ps =>
          if q.isBreak then quotedFrom mark text { breaks := 1, escaped := true } ps
          else
            match escape? q.char ps with
            | none => none
            | some (c, length) => quotedFrom mark (text ++ [c]) {} (ps.drop length)
      else quotedFrom mark (text ++ [p.char]) {} ps
termination_by ps.length

def quoted? (mark : Char) (ps : List Placed) : Option (Scalar × List Placed) :=
  quotedFrom mark [] {} ps

inductive Chomping where
  | strip
  | clip
  | keep
  deriving Repr, DecidableEq

structure BlockHeader where
  chomping : Chomping := .clip
  increment : Option Nat := none
  deriving Repr

namespace BlockHeader

def chomping? (c : Char) : Option Chomping :=
  if c = '-' then some .strip else if c = '+' then some .keep else none

def ofIndicators : List Placed → BlockHeader × List Placed
  | [] => ({}, [])
  | p :: ps =>
    match chomping? p.char with
    | some chomping =>
      match ps with
      | [] => ({ chomping }, [])
      | q :: rest =>
        if q.char.isDigit then ({ chomping, increment := some (q.char.toNat - '0'.toNat) }, rest)
        else ({ chomping }, q :: rest)
    | none =>
      if p.char.isDigit then
        let increment := some (p.char.toNat - '0'.toNat)
        match ps with
        | [] => ({ increment }, [])
        | q :: rest =>
          match chomping? q.char with
          | some chomping => ({ chomping, increment }, rest)
          | none => ({ increment }, q :: rest)
      else ({}, p :: ps)

def read? (ps : List Placed) : Option (BlockHeader × List Placed) :=
  let (header, rest) := ofIndicators ps
  let rest := rest.dropWhile isBlank
  let rest := if rest.head?.any (·.char = '#') then rest.dropWhile (!·.isBreak) else rest
  if header.increment = some 0 || !rest.head?.all isBreak then none
  else some (header, rest.drop 1)

end BlockHeader

structure BlockLine where
  text : List Char
  breaks : Nat

def isIndentation (indent : Option Nat) (p : Placed) : Bool :=
  p.isBreak || p.char = ' ' && indent.all (p.column < ·)

/-- Skips to the next line; answers the number of breaks. A tab may not stand where the line is
indented. -/
def skipIndentation (indent : Option Nat) (ps : List Placed) : Option (Nat × List Placed) :=
  let rest := ps.dropWhile (isIndentation indent)
  if rest.head?.any fun p => p.char = '\t' && indent.all (p.column < ·) then none
  else some (((ps.takeWhile (isIndentation indent)).filter isBreak).length, rest)

/-- The deepest column at which a line ends or has its first other character than a space, up to the
first line that is not blank. -/
def leadingIndent (ps : List Placed) : Nat :=
  let breaks := (ps.takeWhile (isIndentation none)).filter isBreak
  let first := (ps.dropWhile (isIndentation none)).take 1
  ((breaks ++ first).map (·.column)).foldl max 0

def blockLinesUpTo (indent : Nat) : (fuel : Nat) → List Placed → Option (List BlockLine × List Placed)
  | 0, ps => some ([], ps)
  | fuel + 1, ps =>
    if !ps.head?.any (·.column = indent) then some ([], ps)
    else
      let text := (ps.takeWhile (!·.isBreak)).map char
      match ps.dropWhile (!·.isBreak) with
      | [] => some ([⟨text, 0⟩], [])
      | _ :: rest => do
        let (breaks, rest) ← skipIndentation (some indent) rest
        let (lines, rest) ← blockLinesUpTo indent fuel rest
        return (⟨text, breaks + 1⟩ :: lines, rest)

def chomp (chomping : Chomping) (breaks : Nat) : Nat :=
  match chomping with
  | .strip => 0
  | .clip => min breaks 1
  | .keep => breaks

def beginsBlank (line : List Char) : Bool := line.head?.any fun c => c = ' ' || c = '\t'

/-- What the breaks between two lines stand for. They are folded only between lines of the same
indentation. -/
def joint (folded : Bool) (line next : BlockLine) : List Char :=
  if folded && !beginsBlank line.text && !beginsBlank next.text then foldBreaks line.breaks
  else List.replicate line.breaks '\n'

def joinLines (folded : Bool) (chomping : Chomping) : List BlockLine → List Char
  | [] => []
  | [line] => line.text ++ List.replicate (chomp chomping line.breaks) '\n'
  | line :: next :: lines =>
    line.text ++ joint folded line next ++ joinLines folded chomping (next :: lines)

def blockText (folded : Bool) (chomping : Chomping) (leading : Nat) (lines : List BlockLine) :
    List Char :=
  if lines.isEmpty then List.replicate (if chomping = .keep then leading else 0) '\n'
  else List.replicate leading '\n' ++ joinLines folded chomping lines

/-- Reads a block scalar in a block whose lines are indented by `context.indent` or, for its entries, by
one less. -/
def block? (context : Context) (folded : Bool) (ps : List Placed) : Option (Scalar × List Placed) := do
  let (header, rest) ← BlockHeader.read? ps
  let given := header.increment.map (context.indent - 1 + ·)
  let (leading, lines) ← skipIndentation given rest
  let indent := given.getD (max (leadingIndent rest) (max context.indent 1))
  let (lines, rest) ← blockLinesUpTo indent lines.length lines
  return (⟨String.ofList (blockText folded header.chomping leading lines), false⟩, rest)

end Scalar

end BehaviorTree.Yaml
