/-!
The modules of `Yaml` stand for the library of the document format in which configurations are written.
They read what a configuration needs: all forms of scalars, sequences and mappings, and the markers of
documents. Anchors, tags and directives are not read.
-/

namespace BehaviorTree.Yaml

structure Placed where
  char : Char
  index : Nat
  line : Nat
  column : Nat
  deriving Repr, DecidableEq

namespace Placed

/-- Gives each character its place, given that of the first one. A document ends at a null character.
A carriage return is a break, which begins a new line only with a line feed after it. -/
def placeFrom (index line column : Nat) : List Char → List Placed
  | [] => []
  | '\r' :: '\n' :: cs =>
    ⟨'\n', index, line, column⟩ :: placeFrom (index + 2) (line + 1) 0 cs
  | c :: cs =>
    if c = '\x00' then []
    else if c = '\n' then ⟨c, index, line, column⟩ :: placeFrom (index + 1) (line + 1) 0 cs
    else
      ⟨if c = '\r' then '\n' else c, index, line, column⟩ :: placeFrom (index + 1) line (column + 1) cs

def ofString (s : String) : List Placed := placeFrom 0 1 0 s.toList

def isBlank (p : Placed) : Bool := p.char = ' ' || p.char = '\t'

def isBreak (p : Placed) : Bool := p.char = '\n'

def isFlowIndicator (p : Placed) : Bool := p.char ∈ [',', '[', ']', '\x7b', '\x7d']

def gapAhead (ps : List Placed) : Bool := ps.head?.all fun p => p.isBlank || p.isBreak

def flowIndicatorAhead (ps : List Placed) : Bool := ps.head?.any isFlowIndicator

def tripleAhead (mark : Char) (ps : List Placed) : Bool :=
  ps.head?.any (·.column = 0) && (ps.take 3).map char == List.replicate 3 mark &&
    gapAhead (ps.drop 3)

def markerAhead (ps : List Placed) : Bool := tripleAhead '-' ps || tripleAhead '.' ps

end Placed

end BehaviorTree.Yaml
