import BehaviorTree.Config.Field

namespace BehaviorTree.Config

open Yaml

def readMeaning : Node → Except ConfigError Meaning
  | .scalar scalar => .ok scalar.meaning
  | _ => .error .malformed

def readFloat (node : Node) : Except ConfigError Float := do
  match ← readMeaning node with
  | .int n => return Float.ofInt n
  | .float x => return x
  | _ => .error .malformed

/-- Integers are rounded once, other numbers twice: they are read in the wider format first. -/
def readFloat32 (node : Node) : Except ConfigError Float32 := do
  match ← readMeaning node with
  | .int n => return Float32.ofInt n
  | .float x => return x.toFloat32
  | _ => .error .malformed

def readSeconds (node : Node) : Except ConfigError Duration := do
  match Duration.ofFloatSeconds (← readFloat node) with
  | .exact duration => return duration
  | .invalid => .error .malformed
  | .tooLong => .error .overflow

def readSeed (node : Node) : Except ConfigError UInt64 := do
  match ← readMeaning node with
  | .int n => if 0 ≤ n then return n.toNat.toUInt64 else .error .malformed
  | _ => .error .malformed

def readChoice (node : Node) : Except ConfigError Recipe.Choice := do
  match ← readMeaning node with
  | .int n => if Meaning.isInt64 n then return .numbered n else .error .malformed
  | .text s => return .named s
  | _ => .error .malformed

def readValue (node : Node) : Except ConfigError Value := do
  match ← readMeaning node with
  | .bool b => return .bool b
  | .int n => return .number (Float.ofInt n)
  | .float x => return .number x
  | .text s => return .text s
  | _ => .error .malformed

/-- Of two values for one key the later one counts. -/
def readValues : Node → Except ConfigError Values
  | .mapping entries =>
    Values.ofList <$> entries.mapM fun (key, value) => do return (← readText key, ← readValue value)
  | _ => .error .malformed

def operatorOfSymbol (symbol : String) : Except ConfigError Operator :=
  match Operator.ofSymbol? symbol with
  | some operator => .ok operator
  | none => .error .malformed

/-- An operator is written as its symbol, or as a mapping from its symbol to null. -/
def readOperator : Node → Except ConfigError Operator
  | .scalar scalar => operatorOfSymbol scalar.text
  | .mapping [] => .error .emptyOperator
  | .mapping [(key, .scalar scalar)] => do
    if scalar.isNull then operatorOfSymbol (← readText key) else .error .malformed
  | _ => .error .malformed

structure GuardDraft where
  key : Option String := none
  operator : Option Operator := none
  threshold : Option Value := none

namespace GuardDraft

def fields : List (Field GuardDraft) :=
  [.of "key" readText fun draft key => { draft with key := some key },
    .of "op" readOperator fun draft operator => { draft with operator := some operator },
    .of "value" readValue fun draft value => { draft with threshold := some value }]

def guard? (draft : GuardDraft) : Option Guard :=
  return ⟨← draft.key, ← draft.operator, ← draft.threshold⟩

end GuardDraft

def readGuard (node : Node) : Except ConfigError Guard := do
  match (← readRecord GuardDraft.fields {} node).guard? with
  | some guard => return guard
  | none => .error .malformed

def paramFields : List (Field RecipeParams) :=
  [.of "perception_interval" readSeconds ({ · with perceptionInterval := · }),
    .of "aim" readGuard ({ · with aim := · }),
    .of "turn_rate" readFloat32 ({ · with turnRate := · }),
    .of "track_wait" readSeconds ({ · with trackWait := · }),
    .of "unpredictable_wait" readSeconds ({ · with unpredictableWait := · }),
    .of "spin_turn" readFloat32 ({ · with spinTurn := · }),
    .of "spin_fire" readFloat32 ({ · with spinFire := · }),
    .of "fun_move" readFloat32 ({ · with funMove := · }),
    .of "fun_turn" readFloat32 ({ · with funTurn := · }),
    .of "fun_fire" readFloat32 ({ · with funFire := · }),
    .of "deadly_move" readFloat32 ({ · with deadlyMove := · }),
    .of "deadly_turn" readFloat32 ({ · with deadlyTurn := · }),
    .of "deadly_fire" readFloat32 ({ · with deadlyFire := · }),
    .of "frightened_turn" readFloat32 ({ · with frightenedTurn := · }),
    .of "frightened_move" readFloat32 ({ · with frightenedMove := · }),
    .of "move_only" readFloat32 ({ · with moveOnly := · }),
    .of "fire_only" readFloat32 ({ · with fireOnly := · }),
    .of "idle_turn" readFloat32 ({ · with idleTurn := · })]

def fields : List (Field Config) :=
  [.of "behaviour" readChoice ({ · with behaviour := · }),
    .of "seed" (readOption readSeed) ({ · with seed := · }),
    .of "params" (readRecord paramFields {}) ({ · with params := · }),
    .of "blackboard" readValues ({ · with blackboard := · }),
    .of "trees" (readOption readText) ({ · with trees := · }),
    .of "tree" (readOption readText) ({ · with tree := · })]

/-- Reads a configuration from a text that holds exactly one document. -/
def parse (text : String) : Except ConfigError Config := do
  match documents? text with
  | none | some [] => .error .malformed
  | some (document :: others) =>
    let config ← readRecord fields {} document
    if others.isEmpty then return config else .error .malformed

end BehaviorTree.Config
