import BehaviorTree.Proofs.Lifecycle.Stopping

namespace BehaviorTree

/-- How far one world is ahead of another. -/
structure Shift where
  time : Duration
  timers : Nat
  observers : Nat
  /-- What was in the journal before. -/
  past : List Event

namespace Shift

variable (shift : Shift)

def timer (id : TimerId) : TimerId := ⟨id.index + shift.timers⟩

def observer (id : ObserverId) : ObserverId := ⟨id.index + shift.observers⟩

def subscription (subscription : Subscription) : Subscription :=
  { subscription with id := shift.observer subscription.id }

def notice (notice : Notice) : Notice := { notice with observer := shift.observer notice.observer }

def scheduled (timer : Timer) : Timer :=
  { timer with id := shift.timer timer.id, due := timer.due + shift.time }

def event : Event → Event
  | .refreshed id instant => .refreshed (shift.timer id) (instant + shift.time)
  | .unownedTimer id => .unownedTimer (shift.timer id)
  | .judged id holds => .judged (shift.observer id) holds
  | .dismissed id => .dismissed (shift.observer id)
  | event => event

@[simp] theorem timer_inj {a b : TimerId} : shift.timer a = shift.timer b ↔ a = b := by
  cases a
  cases b
  simp [timer]

@[simp] theorem observer_inj {a b : ObserverId} : shift.observer a = shift.observer b ↔ a = b := by
  cases a
  cases b
  simp [observer]

end Shift

variable {shift : Shift}

structure Board.Alike (shift : Shift) (early late : Board) : Prop where
  values_eq : late.values = early.values
  warned_eq : late.warned = early.warned
  observers_eq : late.observers = early.observers.map shift.subscription
  nextObserver_eq : late.nextObserver = early.nextObserver + shift.observers
  pending_eq : ∀ i, late.pending.isRaised (i + shift.observers) = early.pending.isRaised i

namespace Board.Alike

variable {early late : Board}

theorem get?_eq (h : early.Alike shift late) (key : String) : late.get? key = early.get? key := by
  rw [get?, get?, h.values_eq]

theorem observersOf_eq (h : early.Alike shift late) (key : String) :
    late.observersOf key = (early.observersOf key).map shift.observer := by
  rw [observersOf, observersOf, h.observers_eq, List.filter_map, List.map_map, List.map_map]
  rfl

theorem raiseAll_eq {flags other : Flags} (ids : List ObserverId)
    (h : ∀ i, other.isRaised (i + shift.observers) = flags.isRaised i) (i : Nat) :
    (raiseAll other (ids.map shift.observer)).isRaised (i + shift.observers) =
      (raiseAll flags ids).isRaised i := by
  induction ids generalizing flags other with
  | nil => exact h i
  | cons id ids ih =>
    apply ih
    intro j
    rw [Flags.isRaised_raise, Flags.isRaised_raise, h j]
    simp [Shift.observer]

theorem replace (h : early.Alike shift late) (key : String) (new : Option Value) :
    (early.replace key new).1.Alike shift (late.replace key new).1 ∧
      (late.replace key new).2 = (early.replace key new).2.map shift.notice := by
  have htold := h.observersOf_eq key
  refine ⟨⟨?_, h.warned_eq, h.observers_eq, h.nextObserver_eq, ?_⟩, ?_⟩
  · simp only [Board.replace, h.values_eq]
  · intro i
    simp only [Board.replace, htold]
    exact raiseAll_eq _ h.pending_eq i
  · simp only [Board.replace, htold, h.get?_eq, List.map_map]
    rfl

theorem set (h : early.Alike shift late) (key : String) (value : Value) :
    (late.set key value).1 = (early.set key value).1 ∧
      (early.set key value).2.1.Alike shift (late.set key value).2.1 ∧
      (late.set key value).2.2 = (early.set key value).2.2.map shift.notice := by
  unfold Board.set
  rw [h.get?_eq]
  split
  · exact ⟨rfl, h, rfl⟩
  · exact ⟨rfl, h.replace key _⟩

theorem remove (h : early.Alike shift late) (key : String) :
    (late.remove key).1 = (early.remove key).1 ∧
      (early.remove key).2.1.Alike shift (late.remove key).2.1 ∧
      (late.remove key).2.2 = (early.remove key).2.2.map shift.notice := by
  unfold Board.remove
  rw [h.get?_eq]
  split
  · exact ⟨rfl, h, rfl⟩
  · exact ⟨rfl, h.replace key _⟩

theorem noteMissing (h : early.Alike shift late) (key : String) (expected : Kind) :
    (early.noteMissing key expected).1.Alike shift (late.noteMissing key expected).1 ∧
      (late.noteMissing key expected).2 = (early.noteMissing key expected).2 := by
  unfold Board.noteMissing
  rw [h.get?_eq, h.warned_eq]
  split
  · exact ⟨h, rfl⟩
  · exact ⟨⟨h.values_eq, rfl, h.observers_eq, h.nextObserver_eq, h.pending_eq⟩, rfl⟩

theorem readOr {α : Type} (h : early.Alike shift late) (read : Value → Option α) (expected : Kind)
    (default : α) (key : String) :
    (late.readOr read expected default key).1 = (early.readOr read expected default key).1 ∧
      (early.readOr read expected default key).2.1.Alike shift
        (late.readOr read expected default key).2.1 ∧
      (late.readOr read expected default key).2.2 =
        (early.readOr read expected default key).2.2 := by
  unfold Board.readOr
  rw [h.get?_eq]
  split
  · exact ⟨rfl, h, rfl⟩
  · exact ⟨rfl, h.noteMissing key expected⟩

theorem evaluate (h : early.Alike shift late) (guard : Guard) :
    (guard.evaluate late).1 = (guard.evaluate early).1 ∧
      (guard.evaluate early).2.1.Alike shift (guard.evaluate late).2.1 ∧
      (guard.evaluate late).2.2 = (guard.evaluate early).2.2 := by
  unfold Guard.evaluate
  rw [h.get?_eq]
  split
  · exact ⟨rfl, h, rfl⟩
  · exact ⟨rfl, h, rfl⟩
  · exact ⟨rfl, h.noteMissing _ _⟩
  · split
    · exact ⟨rfl, h, rfl⟩
    · exact ⟨rfl, h.noteMissing _ _⟩

theorem subscribe (h : early.Alike shift late) (key : String) :
    (late.subscribe key).1 = shift.observer (early.subscribe key).1 ∧
      (early.subscribe key).2.Alike shift (late.subscribe key).2 := by
  have hid : (late.subscribe key).1 = shift.observer (early.subscribe key).1 :=
    congrArg ObserverId.mk h.nextObserver_eq
  refine ⟨hid, h.values_eq, h.warned_eq, ?_, ?_, h.pending_eq⟩
  · simp only [Board.subscribe] at hid ⊢
    rw [h.observers_eq, List.map_append, hid]
    rfl
  · simp only [Board.subscribe, h.nextObserver_eq]
    omega

theorem unsubscribe (h : early.Alike shift late) (id : ObserverId) :
    (early.unsubscribe id).2.Alike shift (late.unsubscribe (shift.observer id)).2 := by
  refine ⟨h.values_eq, h.warned_eq, ?_, h.nextObserver_eq, h.pending_eq⟩
  simp only [Board.unsubscribe, h.observers_eq, List.filter_map]
  congr 1
  apply List.filter_congr
  intro subscription _
  simp [Shift.subscription]

theorem isPending_eq (h : early.Alike shift late) (id : ObserverId) :
    late.isPending (shift.observer id) = early.isPending id :=
  h.pending_eq id.index

theorem acknowledge (h : early.Alike shift late) (id : ObserverId) :
    (early.acknowledge id).Alike shift (late.acknowledge (shift.observer id)) := by
  refine ⟨h.values_eq, h.warned_eq, h.observers_eq, h.nextObserver_eq, fun i => ?_⟩
  simp only [Board.acknowledge, Flags.isRaised_lower, h.pending_eq]
  simp [Shift.observer]

theorem clear (h : early.Alike shift late) : early.clear.Alike shift late.clear :=
  ⟨rfl, rfl, rfl, h.nextObserver_eq, h.pending_eq⟩

end Board.Alike

/-- The later clock is the first to come to the longest duration. -/
structure Clock.Alike (shift : Shift) (early late : Clock) : Prop where
  now_eq : late.now = early.now + shift.time
  timers_eq : late.timers = early.timers.map shift.scheduled
  nextTimer_eq : late.nextTimer = early.nextTimer + shift.timers
  overflowed : early.overflowed = true → late.overflowed = true

namespace Clock.Alike

variable {early late : Clock}

theorem addTimer (h : early.Alike shift late) (interval : Duration) :
    (late.addTimer interval).1 = shift.timer (early.addTimer interval).1 ∧
      (early.addTimer interval).2.Alike shift (late.addTimer interval).2 := by
  have hid : (late.addTimer interval).1 = shift.timer (early.addTimer interval).1 :=
    congrArg TimerId.mk h.nextTimer_eq
  have hdue : late.now + max interval 1 = early.now + max interval 1 + shift.time := by
    rw [h.now_eq]
    exact Nat.add_right_comm _ _ _
  refine ⟨hid, h.now_eq, ?_, ?_, ?_⟩
  · simp only [Clock.addTimer] at hid ⊢
    rw [h.timers_eq, List.map_append, hid, hdue]
    rfl
  · simp only [Clock.addTimer, h.nextTimer_eq]
    omega
  · simp only [Clock.addTimer, hdue, Bool.or_eq_true, decide_eq_true_eq]
    rintro (hover | hlong)
    · exact .inl (h.overflowed hover)
    · exact .inr (Nat.lt_add_right _ hlong)

theorem cancel (h : early.Alike shift late) (id : TimerId) :
    (early.cancel id).2.Alike shift (late.cancel (shift.timer id)).2 := by
  refine ⟨h.now_eq, ?_, h.nextTimer_eq, h.overflowed⟩
  simp only [Clock.cancel, h.timers_eq, List.filter_map]
  congr 1
  apply List.filter_congr
  intro timer _
  simp [Shift.scheduled]

theorem clearTimers (h : early.Alike shift late) : early.clearTimers.Alike shift late.clearTimers :=
  ⟨h.now_eq, rfl, h.nextTimer_eq, h.overflowed⟩

theorem moveTo (h : early.Alike shift late) (instant : Duration) :
    (early.moveTo instant).Alike shift (late.moveTo (instant + shift.time)) := by
  refine ⟨?_, h.timers_eq, h.nextTimer_eq, h.overflowed⟩
  simp only [Clock.moveTo, h.now_eq]
  exact Nat.add_max_add_right _ _ _

theorem before_scheduled (a b : Timer) :
    (shift.scheduled a).before (shift.scheduled b) = a.before b := by
  simp [Timer.before, Shift.scheduled, Shift.timer, beq_eq_decide]

theorem earliest?_map (timers : List Timer) :
    earliest? (timers.map shift.scheduled) = (earliest? timers).map shift.scheduled := by
  induction timers with
  | nil => rfl
  | cons timer timers ih =>
    rw [List.map_cons, earliest?, earliest?, ih]
    cases earliest? timers with
    | none => rfl
    | some other =>
      simp only [Option.map_some, before_scheduled]
      split <;> rfl

theorem next?_eq (h : early.Alike shift late) (limit : Duration) :
    late.next? (limit + shift.time) = (early.next? limit).map shift.scheduled := by
  have hdue : late.timers.filter (·.due ≤ limit + shift.time) =
      (early.timers.filter (·.due ≤ limit)).map shift.scheduled := by
    rw [h.timers_eq, List.filter_map]
    congr 1
    apply List.filter_congr
    intro timer _
    simp [Shift.scheduled]
  rw [next?, hdue, earliest?_map, next?]

theorem reschedule_map (timers : List Timer) (id : TimerId) :
    reschedule (timers.map shift.scheduled) (shift.timer id) =
      (reschedule timers id).map shift.scheduled := by
  rw [reschedule, reschedule, List.map_map, List.map_map]
  apply List.map_congr_left
  intro timer _
  by_cases hid : timer.id = id
  · simp [Shift.scheduled, hid]
    exact Nat.add_right_comm _ _ _
  · simp [Shift.scheduled, hid]

theorem popDue? (h : early.Alike shift late) (limit : Duration) :
    (early.popDue? limit = none ∧ late.popDue? (limit + shift.time) = none) ∨
    ∃ id popped popped', early.popDue? limit = some (id, popped) ∧
      late.popDue? (limit + shift.time) = some (shift.timer id, popped') ∧
      popped.Alike shift popped' := by
  unfold Clock.popDue?
  rw [h.next?_eq]
  cases early.next? limit with
  | none => exact .inl ⟨rfl, rfl⟩
  | some timer =>
    have hmoved := h.moveTo timer.due
    refine .inr ⟨timer.id, _, _, rfl, rfl, hmoved.now_eq, ?_, h.nextTimer_eq, ?_⟩
    · simp only [h.timers_eq]
      exact reschedule_map early.timers timer.id
    · simp only [Shift.scheduled, Bool.or_eq_true, decide_eq_true_eq]
      rintro (hover | hlong)
      · exact .inl (h.overflowed hover)
      · have hle : timer.due + timer.interval ≤ timer.due + shift.time + timer.interval :=
          Nat.add_le_add_right (Nat.le_add_right _ _) _
        exact .inr (decide_eq_true (Nat.lt_of_lt_of_le hlong hle))

theorem firings_eq (h : early.Alike shift late) (limit : Duration) :
    late.firings (limit + shift.time) = early.firings limit := by
  rw [Clock.firings, Clock.firings, h.timers_eq]
  induction early.timers with
  | nil => rfl
  | cons timer timers ih =>
    rw [List.map_cons, firingsOf, firingsOf, ih]
    simp [Timer.firings, Shift.scheduled, Nat.add_sub_add_right]

end Clock.Alike

/-- The later world goes on as the earlier one does, but for the shift. -/
structure World.Alike {A : Type} (shift : Shift) (early late : World A) : Prop where
  agent_eq : late.agent = early.agent
  board : early.board.Alike shift late.board
  clock : early.clock.Alike shift late.clock
  journal_eq : late.journal = early.journal.map shift.event ++ shift.past
  silent : ∀ notice agent, early.react notice agent = agent
  silent_late : ∀ notice agent, late.react (shift.notice notice) agent = agent

namespace World.Alike

variable {A : Type} {early late : World A}

theorem now_eq (h : early.Alike shift late) : late.now = early.now + shift.time := h.clock.now_eq

theorem withBoard (h : early.Alike shift late) {board other : Board}
    (hboard : board.Alike shift other) :
    World.Alike shift { early with board } { late with board := other } :=
  ⟨h.agent_eq, hboard, h.clock, h.journal_eq, h.silent, h.silent_late⟩

theorem withClock (h : early.Alike shift late) {clock other : Clock}
    (hclock : clock.Alike shift other) :
    World.Alike shift { early with clock } { late with clock := other } :=
  ⟨h.agent_eq, h.board, hclock, h.journal_eq, h.silent, h.silent_late⟩

theorem record (h : early.Alike shift late) (event : Event) :
    (early.record event).Alike shift (late.record (shift.event event)) :=
  ⟨h.agent_eq, h.board, h.clock, congrArg (shift.event event :: ·) h.journal_eq, h.silent,
    h.silent_late⟩

theorem mapAgent (h : early.Alike shift late) (f : A → A) :
    (early.mapAgent f).Alike shift (late.mapAgent f) :=
  ⟨congrArg f h.agent_eq, h.board, h.clock, h.journal_eq, h.silent, h.silent_late⟩

theorem withReport (h : early.Alike shift late) {board other : Board}
    (hboard : board.Alike shift other) {report again : Option KeyWarning} (hreport : again = report) :
    (early.withReport board report).Alike shift (late.withReport other again) := by
  subst hreport
  cases again with
  | none => exact h.withBoard hboard
  | some warning => exact (h.withBoard hboard).record (.keyWarning warning)

/-- No agent reacts to what the observers of a tree are told. -/
theorem withNotices (h : early.Alike shift late) {board other : Board}
    (hboard : board.Alike shift other) {notices told : List Notice}
    (htold : told = notices.map shift.notice) :
    (early.withNotices board notices).Alike shift (late.withNotices other told) := by
  subst htold
  have hearly : ∀ agent, notices.foldl (fun agent notice => early.react notice agent) agent =
      agent := by
    induction notices with
    | nil => exact fun _ => rfl
    | cons notice notices ih =>
      intro agent
      rw [List.foldl_cons, h.silent, ih]
  have hlate : ∀ agent, (notices.map shift.notice).foldl
      (fun agent notice => late.react notice agent) agent = agent := by
    clear hearly
    induction notices with
    | nil => exact fun _ => rfl
    | cons notice notices ih =>
      intro agent
      rw [List.map_cons, List.foldl_cons, h.silent_late, ih]
  refine ⟨?_, hboard, h.clock, h.journal_eq, h.silent, h.silent_late⟩
  exact (hlate _).trans (h.agent_eq.trans (hearly _).symm)

theorem get?_eq (h : early.Alike shift late) (key : String) : late.get? key = early.get? key :=
  h.board.get?_eq key

theorem getNumber (h : early.Alike shift late) (key : String) :
    (late.getNumber key).1 = (early.getNumber key).1 ∧
      (early.getNumber key).2.Alike shift (late.getNumber key).2 := by
  obtain ⟨hanswer, hboard, hreport⟩ := h.board.readOr Value.number? .number (0 : Float) key
  exact ⟨hanswer, h.withReport hboard hreport⟩

theorem getBool (h : early.Alike shift late) (key : String) :
    (late.getBool key).1 = (early.getBool key).1 ∧
      (early.getBool key).2.Alike shift (late.getBool key).2 := by
  obtain ⟨hanswer, hboard, hreport⟩ := h.board.readOr Value.bool? .bool false key
  exact ⟨hanswer, h.withReport hboard hreport⟩

theorem evaluate (h : early.Alike shift late) (guard : Guard) :
    (late.evaluate guard).1 = (early.evaluate guard).1 ∧
      (early.evaluate guard).2.Alike shift (late.evaluate guard).2 := by
  obtain ⟨hanswer, hboard, hreport⟩ := h.board.evaluate guard
  exact ⟨hanswer, h.withReport hboard hreport⟩

theorem set (h : early.Alike shift late) (key : String) (value : Value) :
    (late.set key value).1 = (early.set key value).1 ∧
      (early.set key value).2.Alike shift (late.set key value).2 := by
  obtain ⟨hanswer, hboard, hnotices⟩ := h.board.set key value
  exact ⟨hanswer, h.withNotices hboard hnotices⟩

theorem remove (h : early.Alike shift late) (key : String) :
    (late.remove key).1 = (early.remove key).1 ∧
      (early.remove key).2.Alike shift (late.remove key).2 := by
  obtain ⟨hanswer, hboard, hnotices⟩ := h.board.remove key
  exact ⟨hanswer, h.withNotices hboard hnotices⟩

theorem subscribe (h : early.Alike shift late) (key : String) :
    (late.subscribe key).1 = shift.observer (early.subscribe key).1 ∧
      (early.subscribe key).2.Alike shift (late.subscribe key).2 := by
  obtain ⟨hid, hboard⟩ := h.board.subscribe key
  exact ⟨hid, h.withBoard hboard⟩

theorem acknowledge (h : early.Alike shift late) (id : ObserverId) :
    (early.acknowledge id).Alike shift (late.acknowledge (shift.observer id)) :=
  h.withBoard (h.board.acknowledge id)

theorem addTimer (h : early.Alike shift late) (interval : Duration) :
    (late.addTimer interval).1 = shift.timer (early.addTimer interval).1 ∧
      (early.addTimer interval).2.Alike shift (late.addTimer interval).2 := by
  obtain ⟨hid, hclock⟩ := h.clock.addTimer interval
  exact ⟨hid, h.withClock hclock⟩

theorem cancel (h : early.Alike shift late) (id : TimerId) :
    (early.cancel id).2.Alike shift (late.cancel (shift.timer id)).2 :=
  h.withClock (h.clock.cancel id)

theorem clear (h : early.Alike shift late) : early.clear.Alike shift late.clear :=
  h.withBoard h.board.clear

theorem reset (h : early.Alike shift late) (values : Values) :
    (early.reset values).Alike shift (late.reset values) := by
  have htimers : late.clock.timers.length = early.clock.timers.length := by
    rw [h.clock.timers_eq, List.length_map]
  have hobservers : late.board.observers.length = early.board.observers.length := by
    rw [h.board.observers_eq, List.length_map]
  have hcleared {board other : Board} (hboard : board.Alike shift other) :
      Board.Alike shift { board.clear with values } { other.clear with values } :=
    ⟨rfl, rfl, rfl, hboard.nextObserver_eq, hboard.pending_eq⟩
  unfold World.reset
  dsimp only
  rw [htimers, hobservers]
  split
  · exact h.withBoard (hcleared h.board)
  · have hlost := h.record (.leftBehind early.clock.timers.length early.board.observers.length)
    exact (hlost.withClock h.clock.clearTimers).withBoard (hcleared h.board)

theorem dismiss (h : early.Alike shift late) (id : ObserverId) :
    (early.dismiss id).Alike shift (late.dismiss (shift.observer id)) := by
  simp only [World.dismiss, h.board.isPending_eq]
  split
  · exact (h.acknowledge id).record (.dismissed id)
  · exact h

theorem judge (h : early.Alike shift late) (guard : Guard) (observer : ObserverId) :
    (late.judge guard (shift.observer observer)).1 = (early.judge guard observer).1 ∧
      (early.judge guard observer).2.Alike shift (late.judge guard (shift.observer observer)).2 := by
  obtain ⟨hholds, hevaluated⟩ := h.evaluate guard
  refine ⟨hholds, ?_⟩
  unfold World.judge
  dsimp only
  rw [hholds]
  exact hevaluated.record (.judged observer _)

theorem breaks (h : early.Alike shift late) (guard : Guard) (observer : ObserverId) :
    (late.breaks guard (shift.observer observer)).1 = (early.breaks guard observer).1 ∧
      (early.breaks guard observer).2.Alike shift (late.breaks guard (shift.observer observer)).2 := by
  obtain ⟨hholds, hevaluated⟩ := h.evaluate guard
  unfold World.breaks
  dsimp only
  rw [hholds]
  split
  · exact ⟨rfl, hevaluated⟩
  · exact ⟨rfl, hevaluated.record (.judged observer false)⟩

theorem stoppedHolding (h : early.Alike shift late) (guard : Guard) (observer : Option ObserverId) :
    (late.stoppedHolding guard (observer.map shift.observer)).1 =
        (early.stoppedHolding guard observer).1 ∧
      (early.stoppedHolding guard observer).2.Alike shift
        (late.stoppedHolding guard (observer.map shift.observer)).2 := by
  cases observer with
  | none => exact ⟨rfl, h⟩
  | some id =>
    simp only [World.stoppedHolding, Option.map_some, h.board.isPending_eq]
    split
    · exact (h.acknowledge id).breaks guard id
    · exact ⟨rfl, h⟩

theorem startedHolding (h : early.Alike shift late) (guard : Guard) (observer : Option ObserverId) :
    (late.startedHolding guard (observer.map shift.observer)).1 =
        (early.startedHolding guard observer).1 ∧
      (early.startedHolding guard observer).2.Alike shift
        (late.startedHolding guard (observer.map shift.observer)).2 := by
  cases observer with
  | none => exact ⟨rfl, h⟩
  | some id =>
    simp only [World.startedHolding, Option.map_some, h.board.isPending_eq]
    split
    · exact (h.acknowledge id).judge guard id
    · exact ⟨rfl, h⟩

/-- A condition looks for a change that aborts it if its policy says so. -/
theorem abortCheck (h : early.Alike shift late) (guard : Guard) (policy : RestartPolicy)
    (observer : Option ObserverId) :
    (if policy.abortsSelf then late.stoppedHolding guard (observer.map shift.observer)
      else (false, late)).1 =
        (if policy.abortsSelf then early.stoppedHolding guard observer else (false, early)).1 ∧
      (if policy.abortsSelf then early.stoppedHolding guard observer else (false, early)).2.Alike shift
        (if policy.abortsSelf then late.stoppedHolding guard (observer.map shift.observer)
          else (false, late)).2 := by
  split
  · exact h.stoppedHolding guard observer
  · exact ⟨rfl, h⟩

theorem observe (h : early.Alike shift late) (observer : Option ObserverId) (key : String) :
    (late.observe (observer.map shift.observer) key).1 =
        shift.observer (early.observe observer key).1 ∧
      (early.observe observer key).2.Alike shift
        (late.observe (observer.map shift.observer) key).2 := by
  cases observer with
  | none =>
    obtain ⟨hid, hsubscribed⟩ := h.subscribe key
    refine ⟨hid, ?_⟩
    have hseen := hsubscribed.acknowledge (early.subscribe key).1
    rw [← hid] at hseen
    exact hseen
  | some id => exact ⟨rfl, h.acknowledge id⟩

theorem dismiss? (h : early.Alike shift late) (observer : Option ObserverId) :
    (early.dismiss? observer).Alike shift
      (late.dismiss? (observer.map shift.observer)) := by
  cases observer with
  | none => exact h
  | some id => exact h.dismiss id

theorem unsubscribe? (h : early.Alike shift late) (observer : Option ObserverId) :
    (early.unsubscribe? observer).Alike shift
      (late.unsubscribe? (observer.map shift.observer)) := by
  cases observer with
  | none => exact h
  | some id => exact h.withBoard (h.board.unsubscribe id)

theorem cancel? (h : early.Alike shift late) (timer : Option TimerId) :
    (early.cancel? timer).Alike shift (late.cancel? (timer.map shift.timer)) := by
  cases timer with
  | none => exact h
  | some id => exact h.cancel id

theorem run (h : early.Alike shift late) (routine : Routine A) :
    (routine.run early).Alike shift (routine.run late) := by
  induction routine generalizing early late with
  | done => exact h
  | act effect next ih => exact ih (h.mapAgent effect)
  | look next ih =>
    rw [Routine.run, Routine.run, h.agent_eq]
    exact ih _ h
  | get key next ih =>
    rw [Routine.run, Routine.run, h.get?_eq]
    exact ih _ h
  | getNumber key next ih =>
    obtain ⟨hanswer, hread⟩ := h.getNumber key
    rw [Routine.run, Routine.run]
    dsimp only
    rw [hanswer]
    exact ih _ hread
  | getBool key next ih =>
    obtain ⟨hanswer, hread⟩ := h.getBool key
    rw [Routine.run, Routine.run]
    dsimp only
    rw [hanswer]
    exact ih _ hread
  | set key value next ih =>
    obtain ⟨hanswer, hset⟩ := h.set key value
    rw [Routine.run, Routine.run]
    dsimp only
    rw [hanswer]
    exact ih _ hset
  | remove key next ih =>
    obtain ⟨hanswer, hremoved⟩ := h.remove key
    rw [Routine.run, Routine.run]
    dsimp only
    rw [hanswer]
    exact ih _ hremoved

theorem refresh (h : early.Alike shift late) (timer : TimerId) (callback : Routine A) :
    (early.refresh timer callback).Alike shift (late.refresh (shift.timer timer) callback) := by
  have hnoted := h.record (.refreshed timer early.now)
  rw [Shift.event, ← h.now_eq] at hnoted
  exact hnoted.run callback

end World.Alike

end BehaviorTree
