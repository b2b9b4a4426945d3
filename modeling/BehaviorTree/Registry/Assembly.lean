import BehaviorTree.Registry.Basic

namespace BehaviorTree

variable {A : Type}

namespace Registry

mutual

/-- Builds a node, given what to do with a node that is not of a registered type. -/
def assemble (registry : Registry A) (refer : SourceNode → Except LoadError (Tree A)) :
    SourceNode → Except LoadError (Tree A)
  | .mk type args children =>
    if registry.contains type then do
      let built ← assembleList registry refer children
      registry.build (.ofNode (.mk type args children)) built
    else refer (.mk type args children)

def assembleList (registry : Registry A) (refer : SourceNode → Except LoadError (Tree A)) :
    List SourceNode → Except LoadError (List (Tree A))
  | [] => .ok []
  | node :: nodes => do
    let tree ← assemble registry refer node
    let trees ← assembleList registry refer nodes
    return tree :: trees

end

/-- Finds the definition that a node refers to, unless it is among those being expanded. -/
def referred (source : Source) (expanding : List String) (node : SourceNode) :
    Except LoadError Definition :=
  match source.find? node.type with
  | none => .error (.missingNode node.type)
  | some definition =>
    if !node.args.isEmpty || !node.children.isEmpty then .error (.subtreeWithChildren node.type)
    else if node.type ∈ expanding then .error (.infiniteRecursion node.type)
    else .ok definition

/-- Expands a node whose references are at most `depth` deep. The names of the definitions being
expanded differ, so a reference deeper than there are definitions would recur. -/
def expand (registry : Registry A) (source : Source) :
    (depth : Nat) → List String → SourceNode → Except LoadError (Tree A)
  | 0, _, node => .error (.infiniteRecursion node.type)
  | depth + 1, expanding, node =>
    registry.assemble (fun node => do
      let definition ← referred source expanding node
      registry.expand source depth (node.type :: expanding) definition.root) node

def load (registry : Registry A) (source : Source) (name : String) : Except LoadError (Tree A) :=
  match source.find? name with
  | none => .error (.missingTree name)
  | some definition =>
    registry.expand source source.definitions.length [name] definition.root

end Registry

end BehaviorTree
