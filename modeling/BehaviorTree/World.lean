import BehaviorTree.Clock
import BehaviorTree.Guard

namespace BehaviorTree

inductive Event where
  | keyWarning (warning : KeyWarning)
  | unownedTimer (timer : TimerId)
  | leftBehind (timers observers : Nat)
  | refreshed (timer : TimerId) (instant : Duration)
  | acted (label : String)
  | preempted (winner loser : Nat) (preemption : Preemption)
  /-- The condition with this observer found its guard to hold or not: when it began, when it was asked
  to take over, or when it gave up. -/
  | judged (observer : ObserverId) (holds : Bool)
  /-- The flag of the condition with this observer was taken down without a look at the value. -/
  | dismissed (observer : ObserverId)
  deriving Repr, DecidableEq

/-- What the host is warned of. The other entries are for nobody but the reader of a journal. -/
def Event.message? : Event → Option String
  | .keyWarning warning => some warning.message
  | .unownedTimer _ => some "timer has no active owner, cancelling"
  | .leftBehind _ _ => some "tree left timers or observers behind"
  | .refreshed _ _ | .acted _ | .preempted _ _ _ | .judged _ _ | .dismissed _ => none

structure World (A : Type) where
  agent : A
  board : Board := {}
  clock : Clock := {}
  /-- What the agent makes of being told of a change. -/
  react : Notice → A → A := fun _ agent => agent
  /-- The latest entry comes first. -/
  journal : List Event := []

namespace World

variable {A : Type}

def record (world : World A) (event : Event) : World A :=
  { world with journal := event :: world.journal }

def withReport (world : World A) (board : Board) (report : Option KeyWarning) : World A :=
  let world := { world with board }
  match report with
  | none => world
  | some warning => world.record (.keyWarning warning)

/-- Takes over a board and tells the agent of what changed on it. -/
def withNotices (world : World A) (board : Board) (notices : List Notice) : World A :=
  { world with
    board
    agent := notices.foldl (fun agent notice => world.react notice agent) world.agent }

def mapAgent (world : World A) (f : A → A) : World A := { world with agent := f world.agent }

def get? (world : World A) (key : String) : Option Value := world.board.get? key

def getNumber (world : World A) (key : String) : Float × World A :=
  let (x, board, report) := world.board.getNumber key
  (x, world.withReport board report)

def getBool (world : World A) (key : String) : Bool × World A :=
  let (b, board, report) := world.board.getBool key
  (b, world.withReport board report)

def evaluate (world : World A) (guard : Guard) : Bool × World A :=
  let (holds, board, report) := guard.evaluate world.board
  (holds, world.withReport board report)

def judge (world : World A) (guard : Guard) (observer : ObserverId) : Bool × World A :=
  let (holds, world) := world.evaluate guard
  (holds, world.record (.judged observer holds))

def set (world : World A) (key : String) (value : Value) : Bool × World A :=
  let (changed, board, notices) := world.board.set key value
  (changed, world.withNotices board notices)

def remove (world : World A) (key : String) : Option Value × World A :=
  let (old, board, notices) := world.board.remove key
  (old, world.withNotices board notices)

def subscribe (world : World A) (key : String) : ObserverId × World A :=
  let (id, board) := world.board.subscribe key
  (id, { world with board })

def unsubscribe (world : World A) (id : ObserverId) : Bool × World A :=
  let (removed, board) := world.board.unsubscribe id
  (removed, { world with board })

def acknowledge (world : World A) (id : ObserverId) : World A :=
  { world with board := world.board.acknowledge id }

/-- Takes down the flag of a condition that does not look at what changed. -/
def dismiss (world : World A) (id : ObserverId) : World A :=
  if world.board.isPending id then (world.acknowledge id).record (.dismissed id) else world

def addTimer (world : World A) (interval : Duration) : TimerId × World A :=
  let (id, clock) := world.clock.addTimer interval
  (id, { world with clock })

def cancel (world : World A) (id : TimerId) : Bool × World A :=
  let (removed, clock) := world.clock.cancel id
  (removed, { world with clock })

def now (world : World A) : Duration := world.clock.now

/-- Notes that a time beyond the longest duration was asked for. -/
def overflow (world : World A) : World A :=
  { world with clock := { world.clock with overflowed := true } }

/-- Offers a fired timer to `fire`, which answers whether it has an owner. One without is cancelled. -/
def dispatch (fire : TimerId → World A → Bool × World A) (id : TimerId) (world : World A) : World A :=
  let (owned, world) := fire id world
  if owned then world else (world.record (.unownedTimer id)).cancel id |>.2

/-- Fires the timers due by `limit`, at most `fuel` of them. -/
def fireDue (fire : TimerId → World A → Bool × World A) (limit : Duration) :
    Nat → World A → World A
  | 0, world => world
  | fuel + 1, world =>
    match world.clock.popDue? limit with
    | none => world
    | some (id, clock) =>
      let world := { world with clock }
      if clock.overflowed then world else fireDue fire limit fuel (world.dispatch fire id)

def advance (fire : TimerId → World A → Bool × World A) (dt : Duration) (world : World A) : World A :=
  let limit := world.now + dt
  if Duration.longest < limit then world.overflow
  else
    let world := fireDue fire limit (world.clock.firings limit) world
    { world with clock := world.clock.moveTo limit }

/-- Puts the board back to the given values after a tree was stopped. What the tree left behind is
reported and cancelled. -/
def reset (world : World A) (values : Values) : World A :=
  let timers := world.clock.timers.length
  let observers := world.board.observers.length
  let world :=
    if timers = 0 ∧ observers = 0 then world
    else { world.record (.leftBehind timers observers) with clock := world.clock.clearTimers }
  { world with board := { world.board.clear with values } }

end World

end BehaviorTree
