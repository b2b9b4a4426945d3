import BehaviorTree.Config.Basic
import BehaviorTree.Yaml.Meaning
import BehaviorTree.Yaml.Node

/-!
A record is written as a mapping from the names of its fields, or as a sequence of their values. The
first fault in the order of the document counts.
-/

namespace BehaviorTree.Config

open Yaml

structure Field (R : Type) where
  name : String
  read : Node → R → Except ConfigError R

namespace Field

variable {R α : Type}

def of (name : String) (read : Node → Except ConfigError α) (put : R → α → R) : Field R :=
  ⟨name, fun node record => (read node).map (put record)⟩

end Field

/-- Where only a text may stand, each scalar is taken as it is written. -/
def readText : Node → Except ConfigError String
  | .scalar scalar => .ok scalar.text
  | _ => .error .malformed

/-- Reads an optional value; a plain null stands for none. -/
def readOption {α : Type} (read : Node → Except ConfigError α) :
    Node → Except ConfigError (Option α)
  | .scalar scalar => if scalar.isNull then .ok none else some <$> read (.scalar scalar)
  | node => some <$> read node

variable {R : Type}

/-- Reads entries into a record. Unknown names are passed over; a known one may occur once. -/
def readEntries (fields : List (Field R)) (seen : List String) :
    R → List (Node × Node) → Except ConfigError R
  | record, [] => .ok record
  | record, (key, value) :: entries => do
    let name ← readText key
    match fields.find? (·.name = name) with
    | none => readEntries fields seen record entries
    | some field =>
      if name ∈ seen then .error .malformed
      else readEntries fields (name :: seen) (← field.read value record) entries

def readItems : List (Field R) → R → List Node → Except ConfigError R
  | _, record, [] => .ok record
  | [], _, _ :: _ => .error .malformed
  | field :: fields, record, item :: items => do readItems fields (← field.read item record) items

def readRecord (fields : List (Field R)) (defaults : R) : Node → Except ConfigError R
  | .mapping entries => readEntries fields [] defaults entries
  | .sequence items => readItems fields defaults items
  | .scalar _ => .error .malformed

end BehaviorTree.Config
