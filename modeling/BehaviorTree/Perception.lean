import BehaviorTree.Routine

namespace BehaviorTree

/-- A point as the agent sees it: `x` to its right, `y` up and `z` ahead. -/
structure LocalPoint where
  x : Float
  y : Float
  z : Float
  deriving Repr, Inhabited

namespace LocalPoint

def magnitude (p : LocalPoint) : Float := (p.x * p.x + p.y * p.y + p.z * p.z).sqrt

def normalized (p : LocalPoint) : LocalPoint :=
  let length := p.magnitude
  if length == 0 then ⟨0, 0, 0⟩ else ⟨p.x / length, p.y / length, p.z / length⟩

end LocalPoint

class Tank (A : Type) where
  moveBy : Float32 → A → A
  turn : Float32 → A → A
  fire : Float32 → A → A
  target? : A → Option LocalPoint

namespace Perception

def targetDistance : String := "targetDistance"

def targetInFront : String := "targetInFront"

def targetOnRight : String := "targetOnRight"

/-- How far from straight ahead or behind the target is, from zero to one. -/
def targetOffCentre : String := "targetOffCentre"

def observe {A : Type} (p : LocalPoint) : Routine A :=
  let heading := p.normalized
  Routine.sequence [
    .put targetDistance (.number p.magnitude),
    .put targetInFront (.bool (0 < heading.z)),
    .put targetOnRight (.bool (0 < heading.x)),
    .put targetOffCentre (.number heading.x.abs)]

/-- Refreshes the keys. Without a target they keep what was seen last. -/
def refresh {A : Type} [Tank A] : Routine A := .look fun agent => ((Tank.target? agent).map observe).getD .done

end Perception

end BehaviorTree
