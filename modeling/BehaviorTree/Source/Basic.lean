namespace BehaviorTree

inductive ArgValue where
  /-- Between quotes. -/
  | literal (text : String)
  | bare (text : String)
  deriving Repr, DecidableEq

def ArgValue.text : ArgValue → String
  | .literal s => s
  | .bare s => s

structure Arg where
  name : String
  value : ArgValue
  deriving Repr, DecidableEq

inductive SourceNode where
  | mk (type : String) (args : List Arg) (children : List SourceNode)
  deriving Repr

namespace SourceNode

def type : SourceNode → String
  | .mk type _ _ => type

def args : SourceNode → List Arg
  | .mk _ args _ => args

def children : SourceNode → List SourceNode
  | .mk _ _ children => children

mutual

def decEq : (node other : SourceNode) → Decidable (node = other)
  | .mk type args children, .mk type' args' children' =>
    have := decEqList children children'
    decidable_of_iff (type = type' ∧ args = args' ∧ children = children') (by rw [mk.injEq])

def decEqList : (nodes others : List SourceNode) → Decidable (nodes = others)
  | [], [] => .isTrue rfl
  | [], _ :: _ => .isFalse nofun
  | _ :: _, [] => .isFalse nofun
  | node :: nodes, other :: others =>
    have := decEq node other
    have := decEqList nodes others
    decidable_of_iff (node = other ∧ nodes = others) (by rw [List.cons.injEq])

end

instance : DecidableEq SourceNode := decEq

end SourceNode

/-- A tree with the name under which others refer to it. -/
structure Definition where
  name : String
  root : SourceNode
  deriving Repr, DecidableEq

structure Source where
  definitions : List Definition
  deriving Repr, DecidableEq

/-- The first definition of a name. -/
def Source.find? (source : Source) (name : String) : Option Definition :=
  source.definitions.find? (·.name = name)

end BehaviorTree
