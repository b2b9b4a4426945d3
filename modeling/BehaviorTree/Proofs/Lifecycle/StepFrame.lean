import BehaviorTree.Proofs.Lifecycle.KeeperSteps

namespace BehaviorTree

/-- The second board has the observers of the first. Those whose value has changed have their flags
up. -/
structure Board.Tells (before after : Board) : Prop where
  observers_eq : after.observers = before.observers
  told : ∀ subscription ∈ before.observers, after.isPending subscription.id = false →
    before.isPending subscription.id = false ∧
      after.get? subscription.key = before.get? subscription.key

namespace Board

variable {before middle after : Board}

theorem Tells.refl (board : Board) : board.Tells board := ⟨rfl, fun _ _ h => ⟨h, rfl⟩⟩

theorem Tells.trans (h : before.Tells middle) (k : middle.Tells after) : before.Tells after := by
  refine ⟨k.observers_eq.trans h.observers_eq, fun subscription hmem hdown => ?_⟩
  obtain ⟨hmiddle, hlater⟩ := k.told subscription (h.observers_eq ▸ hmem) hdown
  obtain ⟨hbefore, hearlier⟩ := h.told subscription hmem hmiddle
  exact ⟨hbefore, hlater.trans hearlier⟩

theorem tells_replace (board : Board) (key : String) (new : Option Value) :
    board.Tells (board.replace key new).1 := by
  refine ⟨rfl, fun subscription hmem hdown => ?_⟩
  have hquiet : ¬(board.pending.isRaised subscription.id.index = true ∨
      ∃ id ∈ board.observersOf key, id.index = subscription.id.index) := fun hraised =>
    Bool.false_ne_true (hdown.symm.trans ((isRaised_raiseAll _ _ _).mpr hraised))
  obtain ⟨hbefore, htold⟩ := not_or.mp hquiet
  have hother : subscription.key ≠ key := by
    rintro rfl
    exact htold ⟨subscription.id, List.mem_map_of_mem (List.mem_filter.mpr ⟨hmem, by simp⟩), rfl⟩
  refine ⟨by simpa [isPending] using hbefore, ?_⟩
  cases new with
  | none => simp [replace, get?, hother]
  | some value => simp [replace, get?, hother]

theorem tells_set (board : Board) (key : String) (value : Value) :
    board.Tells (board.set key value).2.1 := by
  unfold set
  split
  · exact .refl board
  · exact tells_replace board key _

theorem tells_remove (board : Board) (key : String) : board.Tells (board.remove key).2.1 := by
  unfold remove
  split
  · exact .refl board
  · exact tells_replace board key _

theorem tells_noteMissing (board : Board) (key : String) (expected : Kind) :
    board.Tells (board.noteMissing key expected).1 := by
  unfold noteMissing
  split
  · exact .refl board
  · exact ⟨rfl, fun _ _ h => ⟨h, rfl⟩⟩

theorem tells_readOr {α : Type} (board : Board) (read : Value → Option α) (expected : Kind)
    (default : α) (key : String) : board.Tells (board.readOr read expected default key).2.1 := by
  unfold readOr
  split
  · exact .refl board
  · exact tells_noteMissing board key expected

theorem isPending_acknowledge (board : Board) (id other : ObserverId) :
    (board.acknowledge id).isPending other = (board.isPending other && decide (other ≠ id)) := by
  have hindex : (other.index ≠ id.index) ↔ other ≠ id := by
    cases other
    cases id
    simp
  simp only [acknowledge, isPending, Flags.isRaised_lower, hindex]

theorem acknowledge_of_not_pending {board : Board} {id : ObserverId}
    (h : board.isPending id = false) : board.acknowledge id = board := by
  rw [acknowledge, Flags.lower, if_neg (by simpa [isPending] using h)]

end Board

/-- What the entry tells of the condition with this observer: whether its guard held when it looked at
the value, or none where its flag was taken down without a look. -/
def Event.look? (id : ObserverId) : Event → Option (Option Bool)
  | .judged observer holds => if observer = id then some (some holds) else none
  | .dismissed observer => if observer = id then some none else none
  | _ => none

def Event.refresh? (id : TimerId) : Event → Option Duration
  | .refreshed timer instant => if timer = id then some instant else none
  | _ => none

def Clock.Runs (clock : Clock) (id : TimerId) (interval : Duration) : Prop :=
  ∃ timer ∈ clock.timers, timer.id = id ∧ timer.interval = interval

namespace World

variable {A : Type} {world before middle after : World A} {handle : Handle} {id : ObserverId}

/-- What the journal tells of the condition with this observer; the latest comes first. -/
def looks (world : World A) (id : ObserverId) : List (Option Bool) :=
  world.journal.filterMap (Event.look? id)

/-- Whether the guard held when the condition with this observer evaluated it last. -/
def lastVerdict (world : World A) (id : ObserverId) : Option Bool := (world.looks id).reduceOption.head?

/-- Whether the flag was taken down without a look after the guard was evaluated last. -/
def Dismissed (world : World A) (id : ObserverId) : Prop := (world.looks id).head? = some none

instance (world : World A) (id : ObserverId) : Decidable (world.Dismissed id) :=
  inferInstanceAs (Decidable ((world.looks id).head? = some none))

/-- When the callback of the service with this timer ran, in the order of time. -/
def refreshes (world : World A) (id : TimerId) : List Duration :=
  (world.journal.filterMap (Event.refresh? id)).reverse

theorem looks_record (world : World A) (event : Event) (id : ObserverId) :
    (world.record event).looks id = (event.look? id).toList ++ world.looks id := by
  cases h : event.look? id <;> simp [looks, record, h]

theorem refreshes_record (world : World A) (event : Event) (id : TimerId) :
    (world.record event).refreshes id = world.refreshes id ++ (event.refresh? id).toList := by
  cases h : event.refresh? id <;> simp [refreshes, record, h]

/-- Between the two worlds values were written and read, and nothing else happened that the tree could
keep. -/
structure Writes (before after : World A) : Prop where
  clock_eq : after.clock = before.clock
  tells : before.board.Tells after.board
  looks_eq : ∀ id, after.looks id = before.looks id
  refreshes_eq : ∀ id, after.refreshes id = before.refreshes id

theorem Writes.refl (world : World A) : world.Writes world := ⟨rfl, .refl _, fun _ => rfl, fun _ => rfl⟩

theorem Writes.trans (h : before.Writes middle) (k : middle.Writes after) : before.Writes after :=
  ⟨k.clock_eq.trans h.clock_eq, h.tells.trans k.tells, fun id => (k.looks_eq id).trans (h.looks_eq id),
    fun id => (k.refreshes_eq id).trans (h.refreshes_eq id)⟩

theorem writes_mapAgent (world : World A) (f : A → A) : world.Writes (world.mapAgent f) :=
  ⟨rfl, .refl _, fun _ => rfl, fun _ => rfl⟩

theorem writes_withReport (world : World A) {board : Board} (h : world.board.Tells board)
    (report : Option KeyWarning) : world.Writes (world.withReport board report) := by
  cases report with
  | none => exact ⟨rfl, h, fun _ => rfl, fun _ => rfl⟩
  | some warning => exact ⟨rfl, h, fun _ => rfl, fun _ => rfl⟩

theorem writes_getNumber (world : World A) (key : String) : world.Writes (world.getNumber key).2 :=
  writes_withReport world (Board.tells_readOr world.board _ _ _ key) _

theorem writes_getBool (world : World A) (key : String) : world.Writes (world.getBool key).2 :=
  writes_withReport world (Board.tells_readOr world.board _ _ _ key) _

theorem writes_set (world : World A) (key : String) (value : Value) :
    world.Writes (world.set key value).2 :=
  ⟨rfl, Board.tells_set world.board key value, fun _ => rfl, fun _ => rfl⟩

theorem writes_remove (world : World A) (key : String) : world.Writes (world.remove key).2 :=
  ⟨rfl, Board.tells_remove world.board key, fun _ => rfl, fun _ => rfl⟩

theorem writes_run (routine : Routine A) (world : World A) : world.Writes (routine.run world) := by
  induction routine generalizing world with
  | done => exact .refl world
  | act effect next ih => exact (writes_mapAgent world effect).trans (ih _)
  | look next ih => exact ih _ _
  | get key next ih => exact ih _ _
  | getNumber key next ih => exact (writes_getNumber world key).trans (ih _ _)
  | getBool key next ih => exact (writes_getBool world key).trans (ih _ _)
  | set key value next ih => exact (writes_set world key value).trans (ih _ _)
  | remove key next ih => exact (writes_remove world key).trans (ih _ _)

end World

namespace Guard

theorem holds_congr (guard : Guard) {before after : Board}
    (h : after.get? guard.key = before.get? guard.key) : guard.holds after = guard.holds before := by
  rw [holds, holds, h]

theorem evaluate_board (guard : Guard) (board : Board) :
    (guard.evaluate board).2.1.values = board.values ∧
      (guard.evaluate board).2.1.pending = board.pending ∧
      (guard.evaluate board).2.1.observers = board.observers ∧
      (guard.holds board = true → (guard.evaluate board).2 = (board, none)) := by
  have hnoted (key : String) (expected : Kind) :
      (board.noteMissing key expected).1.values = board.values ∧
      (board.noteMissing key expected).1.pending = board.pending ∧
      (board.noteMissing key expected).1.observers = board.observers := by
    unfold Board.noteMissing
    split <;> exact ⟨rfl, rfl, rfl⟩
  obtain ⟨hvalues, hpending, hobservers⟩ := hnoted guard.key guard.threshold.kind
  rw [← Guard.evaluate_fst]
  unfold Guard.evaluate
  split
  · exact ⟨rfl, rfl, rfl, fun _ => rfl⟩
  · exact ⟨rfl, rfl, rfl, fun _ => rfl⟩
  · exact ⟨hvalues, hpending, hobservers, nofun⟩
  · split
    · exact ⟨rfl, rfl, rfl, fun _ => rfl⟩
    · exact ⟨hvalues, hpending, hobservers, nofun⟩

theorem tells_evaluate (guard : Guard) (board : Board) : board.Tells (guard.evaluate board).2.1 := by
  obtain ⟨hvalues, hpending, hobservers, -⟩ := guard.evaluate_board board
  refine ⟨hobservers, fun subscription _ hdown => ?_⟩
  rw [Board.isPending, hpending] at hdown
  exact ⟨hdown, congrArg (·.get? subscription.key) hvalues⟩

end Guard

namespace World

variable {A : Type}

theorem evaluate_fst (world : World A) (guard : Guard) :
    (world.evaluate guard).1 = guard.holds world.board := guard.evaluate_fst world.board

theorem evaluate_of_holds {world : World A} {guard : Guard} (h : guard.holds world.board = true) :
    world.evaluate guard = (true, world) := by
  have hguard : guard.evaluate world.board = (true, world.board, none) :=
    Prod.ext ((guard.evaluate_fst _).trans h) ((guard.evaluate_board world.board).2.2.2 h)
  rw [evaluate, hguard]
  rfl

theorem writes_evaluate (world : World A) (guard : Guard) : world.Writes (world.evaluate guard).2 :=
  writes_withReport world (guard.tells_evaluate world.board) _

theorem board_withReport (world : World A) (board : Board) (report : Option KeyWarning) :
    (world.withReport board report).board = board := by
  cases report <;> rfl

theorem holds_evaluate (world : World A) (guard : Guard) :
    guard.holds (world.evaluate guard).2.board = guard.holds world.board := by
  apply guard.holds_congr
  rw [evaluate, board_withReport]
  exact congrArg (·.get? guard.key) (guard.evaluate_board world.board).1

theorem isPending_evaluate (world : World A) (guard : Guard) (id : ObserverId) :
    (world.evaluate guard).2.board.isPending id = world.board.isPending id := by
  rw [evaluate, board_withReport, Board.isPending, (guard.evaluate_board world.board).2.1]
  rfl

end World

namespace World

variable {A : Type} {world before middle after : World A} {handle : Handle}

/-- What belongs to the handle is in the second world as it was in the first. A value that an observer
watches may have changed, but then the observer's flag is up. -/
def Untouched (before after : World A) : Handle → Prop
  | .timer id => ∀ interval, before.clock.Runs id interval → after.clock.Runs id interval
  | .observer id => after.looks id = before.looks id ∧
    ∀ key, ⟨id, key⟩ ∈ before.board.observers → ⟨id, key⟩ ∈ after.board.observers ∧
      (after.board.isPending id = false →
        before.board.isPending id = false ∧ after.get? key = before.get? key)

theorem Untouched.refl (world : World A) (handle : Handle) : world.Untouched world handle := by
  cases handle with
  | timer id => exact fun _ h => h
  | observer id => exact ⟨rfl, fun _ h => ⟨h, fun hdown => ⟨hdown, rfl⟩⟩⟩

theorem Untouched.trans (h : before.Untouched middle handle) (k : middle.Untouched after handle) :
    before.Untouched after handle := by
  cases handle with
  | timer id => exact fun interval hruns => k interval (h interval hruns)
  | observer id =>
    refine ⟨k.1.trans h.1, fun key hmem => ?_⟩
    obtain ⟨hmiddle, hearlier⟩ := h.2 key hmem
    obtain ⟨hafter, hlater⟩ := k.2 key hmiddle
    refine ⟨hafter, fun hdown => ?_⟩
    obtain ⟨hdown, hvalue⟩ := hlater hdown
    exact ⟨(hearlier hdown).1, hvalue.trans (hearlier hdown).2⟩

theorem Writes.untouched (h : before.Writes after) (handle : Handle) :
    before.Untouched after handle := by
  cases handle with
  | timer id => exact fun interval hruns => h.clock_eq ▸ hruns
  | observer id =>
    refine ⟨h.looks_eq id, fun key hmem => ⟨h.tells.observers_eq ▸ hmem, fun hdown => ?_⟩⟩
    exact h.tells.told _ hmem hdown

theorem untouched_record (world : World A) (event : Event)
    (h : ∀ id, handle = .observer id → event.look? id = none) :
    world.Untouched (world.record event) handle := by
  cases handle with
  | timer id => exact fun _ hruns => hruns
  | observer id =>
    refine ⟨?_, fun _ hmem => ⟨hmem, fun hdown => ⟨hdown, rfl⟩⟩⟩
    rw [looks_record, h id rfl]
    rfl

theorem untouched_entry (world : World A) {event : Event} {id : ObserverId}
    (hevent : ∀ other, id ≠ other → event.look? other = none) (h : handle ≠ .observer id) :
    world.Untouched (world.record event) handle := by
  refine untouched_record world event ?_
  rintro other rfl
  exact hevent other fun heq => h (congrArg _ heq.symm)

theorem untouched_acknowledge (world : World A) {id : ObserverId} (h : handle ≠ .observer id) :
    world.Untouched (world.acknowledge id) handle := by
  cases handle with
  | timer _ => exact fun _ hruns => hruns
  | observer other =>
    have hother : other ≠ id := fun heq => h (congrArg _ heq)
    refine ⟨rfl, fun _ hmem => ⟨hmem, fun hdown => ⟨?_, rfl⟩⟩⟩
    simpa [acknowledge, Board.isPending_acknowledge, hother] using hdown

theorem acknowledge_of_not_pending {id : ObserverId} (h : world.board.isPending id = false) :
    world.acknowledge id = world := by
  rw [acknowledge, Board.acknowledge_of_not_pending h]

theorem untouched_dismiss (world : World A) {id : ObserverId} (h : handle ≠ .observer id) :
    world.Untouched (world.dismiss id) handle := by
  unfold dismiss
  split
  · exact (untouched_acknowledge world h).trans (untouched_entry _ (fun _ hne => if_neg hne) h)
  · exact .refl world handle

theorem untouched_dismiss? (world : World A) {observer : Option ObserverId}
    (h : handle ∉ Handle.observers observer) : world.Untouched (world.dismiss? observer) handle := by
  cases observer with
  | none => exact .refl world handle
  | some id => exact untouched_dismiss world (mt Multiset.mem_singleton.mpr h)

theorem untouched_judge (world : World A) (guard : Guard) {id : ObserverId}
    (h : handle ≠ .observer id) : world.Untouched (world.judge guard id).2 handle :=
  ((writes_evaluate world guard).untouched handle).trans (untouched_entry _ (fun _ hne => if_neg hne) h)

theorem untouched_breaks (world : World A) (guard : Guard) {id : ObserverId}
    (h : handle ≠ .observer id) : world.Untouched (world.breaks guard id).2 handle := by
  have hevaluated := (writes_evaluate world guard).untouched handle
  unfold breaks
  dsimp only
  split
  · exact hevaluated
  · exact hevaluated.trans (untouched_entry _ (fun _ hne => if_neg hne) h)

theorem untouched_stoppedHolding (world : World A) (guard : Guard) {observer : Option ObserverId}
    (h : handle ∉ Handle.observers observer) :
    world.Untouched (world.stoppedHolding guard observer).2 handle := by
  cases observer with
  | none => exact .refl world handle
  | some id =>
    have hne : handle ≠ .observer id := mt Multiset.mem_singleton.mpr h
    unfold stoppedHolding
    dsimp only
    split
    · exact (untouched_acknowledge world hne).trans (untouched_breaks _ guard hne)
    · exact .refl world handle

theorem untouched_startedHolding (world : World A) (guard : Guard) {observer : Option ObserverId}
    (h : handle ∉ Handle.observers observer) :
    world.Untouched (world.startedHolding guard observer).2 handle := by
  cases observer with
  | none => exact .refl world handle
  | some id =>
    have hne : handle ≠ .observer id := mt Multiset.mem_singleton.mpr h
    unfold startedHolding
    dsimp only
    split
    · exact (untouched_acknowledge world hne).trans (untouched_judge _ guard hne)
    · exact .refl world handle

theorem untouched_subscribe (world : World A) (key : String) (handle : Handle) :
    world.Untouched (world.subscribe key).2 handle := by
  cases handle with
  | timer _ => exact fun _ hruns => hruns
  | observer id =>
    exact ⟨rfl, fun _ hmem => ⟨List.mem_append_left _ hmem, fun hdown => ⟨hdown, rfl⟩⟩⟩

theorem untouched_observe (world : World A) {observer : Option ObserverId} (key : String)
    (hissued : world.Issued handle) (h : handle ∉ Handle.observers observer) :
    world.Untouched (world.observe observer key).2 handle ∧
      handle ≠ .observer (world.observe observer key).1 := by
  cases observer with
  | none =>
    have hne : handle ≠ .observer (world.subscribe key).1 := by
      rintro rfl
      exact Nat.lt_irrefl _ hissued
    exact ⟨(untouched_subscribe world key handle).trans (untouched_acknowledge _ hne), hne⟩
  | some id =>
    have hne : handle ≠ .observer id := mt Multiset.mem_singleton.mpr h
    exact ⟨untouched_acknowledge world hne, hne⟩

theorem untouched_unsubscribe (world : World A) {id : ObserverId} (h : handle ≠ .observer id) :
    world.Untouched (world.unsubscribe id).2 handle := by
  cases handle with
  | timer _ => exact fun _ hruns => hruns
  | observer other =>
    have hother : other ≠ id := fun heq => h (congrArg _ heq)
    refine ⟨rfl, fun key hmem => ⟨List.mem_filter.mpr ⟨hmem, by simpa using hother⟩, ?_⟩⟩
    exact fun hdown => ⟨hdown, rfl⟩

theorem untouched_unsubscribe? (world : World A) {observer : Option ObserverId}
    (h : handle ∉ Handle.observers observer) :
    world.Untouched (world.unsubscribe? observer) handle := by
  cases observer with
  | none => exact .refl world handle
  | some id => exact untouched_unsubscribe world (mt Multiset.mem_singleton.mpr h)

theorem untouched_refresh (world : World A) (timer : TimerId) (callback : Routine A)
    (handle : Handle) : world.Untouched (world.refresh timer callback) handle :=
  (untouched_record world _ fun _ _ => rfl).trans ((writes_run callback _).untouched handle)

theorem untouched_addTimer (world : World A) (interval : Duration) (handle : Handle) :
    world.Untouched (world.addTimer interval).2 handle := by
  cases handle with
  | timer id =>
    rintro other ⟨timer, hmem, hruns⟩
    exact ⟨timer, List.mem_append_left _ hmem, hruns⟩
  | observer id => exact ⟨rfl, fun _ hmem => ⟨hmem, fun hdown => ⟨hdown, rfl⟩⟩⟩

theorem untouched_cancel? (world : World A) {timer : Option TimerId}
    (h : handle ∉ Handle.timers timer) : world.Untouched (world.cancel? timer) handle := by
  cases timer with
  | none => exact .refl world handle
  | some id =>
    have hne : handle ≠ .timer id := mt Multiset.mem_singleton.mpr h
    cases handle with
    | timer other =>
      rintro interval ⟨timer, hmem, rfl, hinterval⟩
      have hother : timer.id ≠ id := fun heq => hne (congrArg _ heq)
      exact ⟨timer, List.mem_filter.mpr ⟨hmem, by simpa using hother⟩, rfl, hinterval⟩
    | observer other => exact ⟨rfl, fun _ hmem => ⟨hmem, fun hdown => ⟨hdown, rfl⟩⟩⟩

theorem Acts.untouched (h : before.Acts after) (handle : Handle) : before.Untouched after handle := by
  cases h with
  | acted label => exact untouched_record _ _ fun _ _ => rfl
  | preempted winner loser preemption => exact untouched_record _ _ fun _ _ => rfl
  | mapAgent f => exact (writes_mapAgent _ f).untouched handle
  | overflow =>
    cases handle with
    | timer _ => exact fun _ hruns => hruns
    | observer _ => exact ⟨rfl, fun _ hmem => ⟨hmem, fun hdown => ⟨hdown, rfl⟩⟩⟩

end World

theorem Keeper.Step.untouched {A : Type} {before after : World A} {keeper next : Keeper}
    {handle : Handle} (h : Keeper.Step before after keeper next) (hissued : before.Issued handle)
    (hother : handle ∉ keeper.handles) : before.Untouched after handle := by
  cases h with
  | @begin _ _ guard observer id _ policy hobserve hjudge =>
    have hobserved := before.untouched_observe guard.key hissued hother
    rw [hobserve] at hobserved
    have hjudged := hobserved.1.trans (World.untouched_judge _ guard hobserved.2)
    rwa [hjudge] at hjudged
  | @beginBare _ guard observer id policy hobserve =>
    have hobserved := before.untouched_observe guard.key hissued hother
    rw [hobserve] at hobserved
    exact hobserved.1.trans (World.untouched_entry _ (fun _ hne => if_neg hne) hobserved.2)
  | @check _ guard policy observer broken _ hcheck =>
    have hchecked := before.untouched_stoppedHolding guard hother
    rwa [hcheck] at hchecked
  | finish | serve => exact .refl _ _
  | stop guard policy status observer => exact before.untouched_dismiss? hother
  | unwatch guard policy observer => exact before.untouched_unsubscribe? hother
  | @ask _ guard observer holds policy hask =>
    have hasked := before.untouched_startedHolding guard hother
    rwa [hask] at hasked
  | schedule interval callback =>
    exact (before.untouched_refresh _ callback handle).trans (World.untouched_addTimer _ interval _)
  | cancel interval status timer => exact before.untouched_cancel? hother

namespace World

variable {A : Type} {before after : World A} {given taken : Multiset Keeper}

theorem Deals.untouched (h : before.Deals after given taken) {others : Multiset Handle}
    (hhold : before.Holds (Handle.ofKeepers given + others)) :
    ∀ handle ∈ others, before.Untouched after handle := by
  induction h generalizing others with
  | refl world keepers => exact fun handle _ => .refl world handle
  | trans hfirst _ ih ih' =>
    intro handle hmem
    exact (ih hhold handle hmem).trans (ih' (hfirst.trades.holds others hhold) handle hmem)
  | frame _ more ih =>
    intro handle hmem
    rw [Handle.ofKeepers_add, add_assoc] at hhold
    exact ih hhold handle (Multiset.mem_add.mpr (.inr hmem))
  | step hstep =>
    intro handle hmem
    rw [Handle.ofKeepers_singleton] at hhold
    have hapart := (Multiset.nodup_add.mp hhold.nodup).2.2
    exact hstep.untouched (hhold.issued handle (Multiset.mem_add.mpr (.inr hmem)))
      fun hown => Multiset.disjoint_left.mp hapart hown hmem
  | acts hacts => exact fun handle _ => hacts.untouched handle

end World

/-- The rule can be read off the keeper and what belongs to it, each step of the keeper keeps it, and
it holds of keepers that have not begun. -/
structure Keeper.Lasts {A : Type} (rule : World A → Keeper → Prop) : Prop where
  step {before after : World A} {keeper next : Keeper} :
    Keeper.Step before after keeper next → rule before keeper → rule after next
  frame {before after : World A} {keeper : Keeper} :
    (∀ handle ∈ keeper.handles, before.Untouched after handle) → rule before keeper →
    rule after keeper
  condition (world : World A) (guard : Guard) (policy : RestartPolicy) :
    rule world (.condition guard policy .inactive none)
  service (world : World A) (interval : Duration) : rule world (.service interval .inactive none)

theorem Handle.mem_ofKeepers {keepers : Multiset Keeper} {keeper : Keeper} {handle : Handle}
    (hkeeper : keeper ∈ keepers) (hhandle : handle ∈ keeper.handles) :
    handle ∈ Handle.ofKeepers keepers :=
  Multiset.mem_bind.mpr ⟨keeper, hkeeper, hhandle⟩

/-- What each step keeps, a row of steps keeps. -/
theorem World.Deals.lasts {A : Type} {before after : World A} {given taken : Multiset Keeper}
    {rule : World A → Keeper → Prop} (hrule : Keeper.Lasts rule)
    (h : before.Deals after given taken) {others : Multiset Handle}
    (hhold : before.Holds (Handle.ofKeepers given + others))
    (hgiven : ∀ keeper ∈ given, rule before keeper) : ∀ keeper ∈ taken, rule after keeper := by
  induction h generalizing others with
  | refl => exact hgiven
  | trans hfirst _ ih ih' => exact ih' (hfirst.trades.holds others hhold) (ih hhold hgiven)
  | frame hdeals more ih =>
    rw [Handle.ofKeepers_add, add_assoc] at hhold
    have huntouched := hdeals.untouched hhold
    intro keeper hmem
    obtain hmem | hmem := Multiset.mem_add.mp hmem
    · exact ih hhold (fun keeper hmem => hgiven keeper (Multiset.mem_add.mpr (.inl hmem))) keeper hmem
    · refine hrule.frame (fun handle hhandle => ?_) (hgiven keeper (Multiset.mem_add.mpr (.inr hmem)))
      exact huntouched handle (Multiset.mem_add.mpr (.inl (Handle.mem_ofKeepers hmem hhandle)))
  | step hstep =>
    intro keeper hmem
    rw [Multiset.mem_singleton.mp hmem]
    exact hrule.step hstep (hgiven _ (Multiset.mem_singleton_self _))
  | acts _ => exact fun keeper hmem => absurd hmem (Multiset.notMem_zero keeper)

end BehaviorTree
