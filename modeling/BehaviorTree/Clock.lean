import BehaviorTree.Duration

namespace BehaviorTree

structure TimerId where
  index : Nat
  deriving Repr, DecidableEq

structure Timer where
  id : TimerId
  due : Duration
  interval : Duration
  deriving Repr, DecidableEq

def Timer.before (a b : Timer) : Bool :=
  a.due < b.due || (a.due == b.due && a.id.index < b.id.index)

/-- How often a timer fires by `limit`. -/
def Timer.firings (timer : Timer) (limit : Duration) : Nat :=
  if timer.due ≤ limit then (limit - timer.due) / timer.interval + 1 else 0

structure Clock where
  now : Duration := 0
  timers : List Timer := []
  nextTimer : Nat := 0
  /-- Whether a time beyond the longest duration was ever asked for. What a clock does after that
  has no meaning. -/
  overflowed : Bool := false
  deriving Repr, DecidableEq

namespace Clock

/-- Adds a timer that fires every `interval`, first one interval from now. A timer that fires without
end at one instant is none, so the shortest interval is a nanosecond. -/
def addTimer (clock : Clock) (interval : Duration) : TimerId × Clock :=
  let id : TimerId := ⟨clock.nextTimer⟩
  let interval := max interval 1
  let due := clock.now + interval
  (id, { clock with
    timers := clock.timers ++ [⟨id, due, interval⟩]
    nextTimer := clock.nextTimer + 1
    overflowed := clock.overflowed || Duration.longest < due })

def isScheduled (clock : Clock) (id : TimerId) : Bool := clock.timers.any (·.id = id)

def cancel (clock : Clock) (id : TimerId) : Bool × Clock :=
  (clock.isScheduled id, { clock with timers := clock.timers.filter (·.id ≠ id) })

def clearTimers (clock : Clock) : Clock := { clock with timers := [] }

def moveTo (clock : Clock) (instant : Duration) : Clock :=
  { clock with now := max clock.now instant }

def earliest? : List Timer → Option Timer
  | [] => none
  | timer :: timers =>
    match earliest? timers with
    | none => some timer
    | some other => if other.before timer then some other else some timer

def next? (clock : Clock) (limit : Duration) : Option Timer :=
  earliest? (clock.timers.filter (·.due ≤ limit))

def reschedule (timers : List Timer) (id : TimerId) : List Timer :=
  timers.map fun timer => if timer.id = id then { timer with due := timer.due + timer.interval } else timer

/-- Fires the next timer due by `limit`: the clock moves to its due time, and the timer to its next. -/
def popDue? (clock : Clock) (limit : Duration) : Option (TimerId × Clock) :=
  (clock.next? limit).map fun timer =>
    (timer.id, { clock.moveTo timer.due with
      timers := reschedule clock.timers timer.id
      overflowed := clock.overflowed || Duration.longest < timer.due + timer.interval })

/-- How many firings of the timers are left by `limit`. -/
def firingsOf (limit : Duration) : List Timer → Nat
  | [] => 0
  | timer :: timers => timer.firings limit + firingsOf limit timers

def firings (clock : Clock) (limit : Duration) : Nat := firingsOf limit clock.timers

end Clock

end BehaviorTree
