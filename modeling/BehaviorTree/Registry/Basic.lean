import BehaviorTree.Source.Arguments

namespace BehaviorTree

variable {A : Type}

/-- Builds a node of one type from its arguments and its children, given the services by name. -/
abbrev Constructor (A : Type) :=
  Arguments → List (Tree A) → (String → Option (Routine A)) → Except LoadError (Tree A)

structure NodeType (A : Type) where
  accepted : List String
  build : Constructor A

/-- What was registered last counts, and stands first. -/
structure Registry (A : Type) where
  types : List (String × NodeType A)
  services : List (String × Routine A)

namespace Registry

def empty : Registry A := ⟨[], []⟩

def register (registry : Registry A) (type : String) (accepted : List String)
    (build : Constructor A) : Registry A :=
  { registry with types := (type, ⟨accepted, build⟩) :: registry.types }

def registerService (registry : Registry A) (name : String) (callback : Routine A) : Registry A :=
  { registry with services := (name, callback) :: registry.services }

def type? (registry : Registry A) (type : String) : Option (NodeType A) :=
  registry.types.lookup type

def service? (registry : Registry A) (name : String) : Option (Routine A) :=
  registry.services.lookup name

def contains (registry : Registry A) (type : String) : Bool := (registry.type? type).isSome

/-- Builds a node of a registered type. Arguments with unknown names are refused first. -/
def build (registry : Registry A) (args : Arguments) (children : List (Tree A)) :
    Except LoadError (Tree A) :=
  match registry.type? args.node with
  | none => .error (.missingNode args.node)
  | some type => do
    args.checkAccepted type.accepted
    type.build args children registry.service?

end Registry

def noChildren (args : Arguments) (children : List (Tree A)) : Except LoadError Unit :=
  if children.isEmpty then .ok () else .error (.addChild .tooManyNodes args.node)

def singleChild (args : Arguments) : List (Tree A) → Except LoadError (Tree A)
  | [] => .error (.build (.missingChild args.node))
  | [child] => .ok child
  | _ => .error (.addChild .tooManyNodes args.node)

def Registry.registerAction (registry : Registry A) (type : String) (accepted : List String)
    (make : Arguments → Except LoadError (Command A)) : Registry A :=
  registry.register type accepted fun args children _ => do
    noChildren args children
    return .action args.node (← make args)

end BehaviorTree
