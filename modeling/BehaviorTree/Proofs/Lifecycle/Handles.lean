import BehaviorTree.Proofs.Board.Soundness
import Mathlib.Data.Multiset.OrderedMonoid

/-!
`World.Holds` says that the world knows of no timer and no observer but the given ones. Each step of a
tree trades what a node held before for what it holds after, `World.Trades`, and leaves the handles of
all others alone.
-/

namespace BehaviorTree

/-- What a node keeps to be found again by the clock or the board. -/
inductive Handle where
  | timer (id : TimerId)
  | observer (id : ObserverId)
  deriving DecidableEq

/-- Whether an entry tells of a timer or an observer that the tree has lost. -/
def Event.isLoss : Event → Bool
  | .unownedTimer _ | .leftBehind _ _ => true
  | _ => false

namespace Clock

theorem isScheduled_iff (clock : Clock) (id : TimerId) :
    clock.isScheduled id = true ↔ id ∈ clock.timers.map (·.id) := by
  simp [isScheduled]

theorem isScheduled_addTimer (clock : Clock) (interval : Duration) (id : TimerId) :
    (clock.addTimer interval).2.isScheduled id = true ↔
      clock.isScheduled id = true ∨ id = (clock.addTimer interval).1 := by
  simp [isScheduled, addTimer, eq_comm (a := id)]

theorem isScheduled_cancel (clock : Clock) (id other : TimerId) :
    (clock.cancel id).2.isScheduled other = true ↔ clock.isScheduled other = true ∧ other ≠ id := by
  simp only [isScheduled_iff, cancel, List.mem_map, List.mem_filter, ne_eq, decide_not,
    Bool.not_eq_true', decide_eq_false_iff_not]
  constructor
  · rintro ⟨timer, ⟨hmem, hne⟩, rfl⟩
    exact ⟨⟨timer, hmem, rfl⟩, hne⟩
  · rintro ⟨⟨timer, hmem, rfl⟩, hne⟩
    exact ⟨timer, ⟨hmem, hne⟩, rfl⟩

theorem map_id_reschedule (timers : List Timer) (id : TimerId) :
    (reschedule timers id).map (·.id) = timers.map (·.id) := by
  rw [reschedule, List.map_map]
  apply List.map_congr_left
  intro timer _
  by_cases h : timer.id = id <;> simp [h]

end Clock

def Handle.timers : Option TimerId → Multiset Handle
  | none => 0
  | some id => {.timer id}

def Handle.observers : Option ObserverId → Multiset Handle
  | none => 0
  | some id => {.observer id}

namespace World

variable {A : Type} {world before middle after : World A}
variable {handles given kept taken more : Multiset Handle}

/-- Whether the world has given the handle out. -/
def Issued (world : World A) : Handle → Prop
  | .timer id => id.index < world.clock.nextTimer
  | .observer id => id.index < world.board.nextObserver

/-- The handles are distinct, all timers of the clock are among them and no other ones, and all
observers of the board are among them. An observer may be gone from the board: a host that clears the
board does not ask the nodes. -/
structure Holds (world : World A) (handles : Multiset Handle) : Prop where
  sound : world.board.Sound
  nodup : handles.Nodup
  distinct : (world.clock.timers.map (·.id)).Nodup
  scheduled : ∀ id, world.clock.isScheduled id = true ↔ Handle.timer id ∈ handles
  subscribed : ∀ id, world.board.isSubscribed id = true → Handle.observer id ∈ handles
  issued : ∀ handle ∈ handles, world.Issued handle

/-- The journal grew, by entries that tell of no loss. -/
def Logs (before after : World A) : Prop :=
  ∃ entries, after.journal = entries ++ before.journal ∧ ∀ event ∈ entries, event.isLoss = false

theorem Logs.of_eq (h : after.journal = before.journal) : before.Logs after := ⟨[], h, by simp⟩

theorem Logs.trans (h : before.Logs middle) (k : middle.Logs after) : before.Logs after := by
  obtain ⟨first, hfirst, hloss⟩ := h
  obtain ⟨second, hsecond, kloss⟩ := k
  refine ⟨second ++ first, by rw [hsecond, hfirst, List.append_assoc], fun event hmem => ?_⟩
  obtain hmem | hmem := List.mem_append.mp hmem
  · exact kloss event hmem
  · exact hloss event hmem

/-- What no step undoes: an overflow stays, and the journal grows. -/
structure Follows (before after : World A) : Prop where
  react_eq : after.react = before.react
  overflowed : before.clock.overflowed = true → after.clock.overflowed = true
  logs : before.Logs after

theorem Follows.refl (world : World A) : world.Follows world := ⟨rfl, id, .of_eq rfl⟩

theorem Follows.trans (h : before.Follows middle) (k : middle.Follows after) :
    before.Follows after :=
  ⟨k.react_eq.trans h.react_eq, k.overflowed ∘ h.overflowed, h.logs.trans k.logs⟩

/-- Between the two worlds a node gave the first handles away and took the second ones. Whatever
handles others hold besides, they still hold. -/
structure Trades (before after : World A) (given taken : Multiset Handle) : Prop where
  follows : before.Follows after
  holds : ∀ rest, before.Holds (given + rest) → after.Holds (taken + rest)

theorem Trades.refl (world : World A) (handles : Multiset Handle) :
    world.Trades world handles handles :=
  ⟨.refl world, fun _ h => h⟩

theorem Trades.trans (h : before.Trades middle given kept) (k : middle.Trades after kept taken) :
    before.Trades after given taken :=
  ⟨h.follows.trans k.follows, fun rest hold => k.holds rest (h.holds rest hold)⟩

theorem Trades.frame (h : before.Trades after given taken) (more : Multiset Handle) :
    before.Trades after (given + more) (taken + more) := by
  refine ⟨h.follows, fun rest hold => ?_⟩
  rw [add_assoc] at hold ⊢
  exact h.holds _ hold

theorem Trades.of_keeps (h : before.Follows after) (htimers : after.clock.timers = before.clock.timers)
    (hnext : after.clock.nextTimer = before.clock.nextTimer)
    (hboard : before.board.Keeps after.board) : before.Trades after handles handles := by
  refine ⟨h, fun rest hold => ⟨hboard.sound hold.sound, hold.nodup, ?_, ?_, ?_, ?_⟩⟩
  · rw [htimers]
    exact hold.distinct
  · intro id
    rw [← hold.scheduled id, Clock.isScheduled, Clock.isScheduled, htimers]
  · intro id hid
    rw [Board.isSubscribed, hboard.observers_eq] at hid
    exact hold.subscribed id hid
  · intro handle hmem
    have hissued := hold.issued handle hmem
    cases handle with
    | timer id =>
      rw [Issued, hnext]
      exact hissued
    | observer id =>
      rw [Issued, hboard.nextObserver_eq]
      exact hissued

theorem Trades.of_silent (hclock : after.clock = before.clock) (hreact : after.react = before.react)
    (hjournal : after.journal = before.journal) (hboard : before.board.Keeps after.board) :
    before.Trades after handles handles := by
  have hover : before.clock.overflowed = true → after.clock.overflowed = true := by
    rw [hclock]
    exact id
  exact .of_keeps ⟨hreact, hover, .of_eq hjournal⟩ (congrArg Clock.timers hclock)
    (congrArg Clock.nextTimer hclock) hboard

theorem trades_record (world : World A) (event : Event) (hevent : event.isLoss = false) :
    world.Trades (world.record event) handles handles := by
  have hlog : world.Logs (world.record event) := ⟨[event], rfl, by simpa using hevent⟩
  exact .of_keeps ⟨rfl, id, hlog⟩ rfl rfl (.refl _)

theorem trades_mapAgent (world : World A) (f : A → A) :
    world.Trades (world.mapAgent f) handles handles :=
  .of_silent rfl rfl rfl (.refl _)

theorem trades_overflow (world : World A) : world.Trades world.overflow handles handles := by
  exact .of_keeps ⟨rfl, fun _ => rfl, .of_eq rfl⟩ rfl rfl (.refl _)

theorem trades_withReport (world : World A) {board : Board} (hboard : world.board.Keeps board)
    (report : Option KeyWarning) : world.Trades (world.withReport board report) handles handles := by
  have hkeep : world.Trades { world with board } handles handles := .of_silent rfl rfl rfl hboard
  cases report with
  | none => exact hkeep
  | some warning => exact hkeep.trans (trades_record _ _ rfl)

theorem trades_withNotices (world : World A) {board : Board} (hboard : world.board.Keeps board)
    (notices : List Notice) : world.Trades (world.withNotices board notices) handles handles :=
  .of_silent rfl rfl rfl hboard

theorem trades_evaluate (world : World A) (guard : Guard) :
    world.Trades (world.evaluate guard).2 handles handles :=
  trades_withReport world (Board.keeps_evaluate world.board guard) _

theorem trades_getNumber (world : World A) (key : String) :
    world.Trades (world.getNumber key).2 handles handles :=
  trades_withReport world (Board.keeps_readOr world.board _ _ _ key) _

theorem trades_getBool (world : World A) (key : String) :
    world.Trades (world.getBool key).2 handles handles :=
  trades_withReport world (Board.keeps_readOr world.board _ _ _ key) _

theorem trades_set (world : World A) (key : String) (value : Value) :
    world.Trades (world.set key value).2 handles handles :=
  trades_withNotices world (Board.keeps_set world.board key value) _

theorem trades_remove (world : World A) (key : String) :
    world.Trades (world.remove key).2 handles handles :=
  trades_withNotices world (Board.keeps_remove world.board key) _

theorem trades_acknowledge (world : World A) (id : ObserverId) :
    world.Trades (world.acknowledge id) handles handles :=
  .of_silent rfl rfl rfl (Board.keeps_acknowledge world.board id)

theorem trades_dismiss (world : World A) (id : ObserverId) :
    world.Trades (world.dismiss id) handles handles := by
  unfold dismiss
  split
  · exact (trades_acknowledge world id).trans (trades_record _ _ rfl)
  · exact .refl world _

theorem trades_dismiss? (world : World A) (observer : Option ObserverId) :
    world.Trades (world.dismiss? observer) handles handles := by
  cases observer with
  | none => exact .refl world _
  | some id => exact trades_dismiss world id

theorem trades_run (routine : Routine A) (world : World A) :
    world.Trades (routine.run world) handles handles := by
  induction routine generalizing world with
  | done => exact .refl world _
  | act effect next ih => exact (trades_mapAgent world effect).trans (ih _)
  | look next ih => exact ih _ _
  | get key next ih => exact ih _ _
  | getNumber key next ih => exact (trades_getNumber world key).trans (ih _ _)
  | getBool key next ih => exact (trades_getBool world key).trans (ih _ _)
  | set key value next ih => exact (trades_set world key value).trans (ih _ _)
  | remove key next ih => exact (trades_remove world key).trans (ih _ _)

theorem trades_refresh (world : World A) (timer : TimerId) (callback : Routine A) :
    world.Trades (world.refresh timer callback) handles handles :=
  (trades_record world (.refreshed timer world.now) rfl).trans (trades_run callback _)

theorem trades_judge (world : World A) (guard : Guard) (observer : ObserverId) :
    world.Trades (world.judge guard observer).2 handles handles :=
  (trades_evaluate world guard).trans (trades_record _ _ rfl)

theorem trades_breaks (world : World A) (guard : Guard) (observer : ObserverId) :
    world.Trades (world.breaks guard observer).2 handles handles := by
  unfold breaks
  dsimp only
  split
  · exact trades_evaluate world guard
  · exact (trades_evaluate world guard).trans (trades_record _ _ rfl)

theorem trades_stoppedHolding (world : World A) (guard : Guard) (observer : Option ObserverId) :
    world.Trades (world.stoppedHolding guard observer).2 handles handles := by
  cases observer with
  | none => exact .refl world _
  | some id =>
    unfold stoppedHolding
    dsimp only
    split
    · exact (trades_acknowledge world id).trans (trades_breaks _ guard id)
    · exact .refl world _

theorem trades_startedHolding (world : World A) (guard : Guard) (observer : Option ObserverId) :
    world.Trades (world.startedHolding guard observer).2 handles handles := by
  cases observer with
  | none => exact .refl world _
  | some id =>
    unfold startedHolding
    dsimp only
    split
    · exact (trades_acknowledge world id).trans (trades_judge _ guard id)
    · exact .refl world _

theorem trades_addTimer (world : World A) (interval : Duration) :
    world.Trades (world.addTimer interval).2 0 {.timer (world.addTimer interval).1} := by
  have hover : world.clock.overflowed = true → (world.addTimer interval).2.clock.overflowed = true :=
    fun h => by simp [addTimer, Clock.addTimer, h]
  refine ⟨⟨rfl, hover, .of_eq rfl⟩, fun rest hold => ?_⟩
  rw [zero_add] at hold
  have hfresh : Handle.timer (world.addTimer interval).1 ∉ rest := fun hmem =>
    Nat.lt_irrefl _ (hold.issued _ hmem)
  refine ⟨hold.sound, ?_, ?_, ?_, ?_, ?_⟩
  · rw [Multiset.singleton_add]
    exact Multiset.nodup_cons.mpr ⟨hfresh, hold.nodup⟩
  · have hnew : (world.addTimer interval).1 ∉ world.clock.timers.map (·.id) := fun hmem =>
      hfresh ((hold.scheduled _).mp ((Clock.isScheduled_iff _ _).mpr hmem))
    have happend : (world.addTimer interval).2.clock.timers.map (·.id) =
        world.clock.timers.map (·.id) ++ [(world.addTimer interval).1] := by
      simp [addTimer, Clock.addTimer]
    rw [happend, ← List.concat_eq_append]
    exact hold.distinct.concat hnew
  · intro id
    rw [Multiset.singleton_add, Multiset.mem_cons, ← hold.scheduled id, Handle.timer.injEq, or_comm]
    exact Clock.isScheduled_addTimer world.clock interval id
  · intro id hid
    exact Multiset.mem_add.mpr (.inr (hold.subscribed id hid))
  · intro handle hmem
    rw [Multiset.singleton_add, Multiset.mem_cons] at hmem
    obtain rfl | hmem := hmem
    · exact Nat.lt_succ_self _
    · have hissued := hold.issued handle hmem
      cases handle with
      | timer id => exact Nat.lt_succ_of_lt hissued
      | observer id => exact hissued

theorem trades_cancel (world : World A) (id : TimerId) :
    world.Trades (world.cancel id).2 {.timer id} 0 := by
  refine ⟨⟨rfl, fun h => h, .of_eq rfl⟩, fun rest hold => ?_⟩
  rw [zero_add]
  have hgone := Multiset.nodup_cons.mp (Multiset.singleton_add _ rest ▸ hold.nodup)
  have hmem : ∀ handle ∈ rest, handle ∈ {Handle.timer id} + rest := fun handle h =>
    Multiset.mem_add.mpr (.inr h)
  refine ⟨hold.sound, hgone.2, ?_, ?_, ?_, fun handle h => hold.issued handle (hmem handle h)⟩
  · exact hold.distinct.sublist (List.filter_sublist.map _)
  · intro other
    have hcancel := Clock.isScheduled_cancel world.clock id other
    rw [hold.scheduled other, Multiset.singleton_add, Multiset.mem_cons, Handle.timer.injEq] at hcancel
    refine hcancel.trans ⟨fun h => h.1.resolve_left h.2, fun h => ⟨.inr h, ?_⟩⟩
    rintro rfl
    exact hgone.1 h
  · intro other hother
    have h := hold.subscribed other hother
    rw [Multiset.singleton_add, Multiset.mem_cons] at h
    exact h.resolve_left (by simp)

theorem trades_cancel? (world : World A) (timer : Option TimerId) :
    world.Trades (world.cancel? timer) (Handle.timers timer) 0 := by
  cases timer with
  | none => exact .refl world 0
  | some id => exact trades_cancel world id

theorem trades_subscribe (world : World A) (key : String) :
    world.Trades (world.subscribe key).2 0 {.observer (world.subscribe key).1} := by
  refine ⟨⟨rfl, fun h => h, .of_eq rfl⟩, fun rest hold => ?_⟩
  rw [zero_add] at hold
  have hfresh : Handle.observer (world.subscribe key).1 ∉ rest := fun hmem =>
    Nat.lt_irrefl _ (hold.issued _ hmem)
  refine ⟨hold.sound.subscribe key, ?_, hold.distinct, ?_, ?_, ?_⟩
  · rw [Multiset.singleton_add]
    exact Multiset.nodup_cons.mpr ⟨hfresh, hold.nodup⟩
  · intro id
    rw [Multiset.singleton_add, Multiset.mem_cons, ← hold.scheduled id]
    exact ⟨.inr, fun h => h.resolve_left (by simp)⟩
  · intro id hid
    rw [Multiset.singleton_add, Multiset.mem_cons, Handle.observer.injEq, or_comm]
    exact ((Board.isSubscribed_subscribe world.board key id).mp hid).imp_left (hold.subscribed id)
  · intro handle hmem
    rw [Multiset.singleton_add, Multiset.mem_cons] at hmem
    obtain rfl | hmem := hmem
    · exact Nat.lt_succ_self _
    · have hissued := hold.issued handle hmem
      cases handle with
      | timer id => exact hissued
      | observer id => exact Nat.lt_succ_of_lt hissued

theorem trades_unsubscribe (world : World A) (id : ObserverId) :
    world.Trades (world.unsubscribe id).2 {.observer id} 0 := by
  refine ⟨⟨rfl, fun h => h, .of_eq rfl⟩, fun rest hold => ?_⟩
  rw [zero_add]
  have hgone := Multiset.nodup_cons.mp (Multiset.singleton_add _ rest ▸ hold.nodup)
  have hmem : ∀ handle ∈ rest, handle ∈ {Handle.observer id} + rest := fun handle h =>
    Multiset.mem_add.mpr (.inr h)
  refine ⟨hold.sound.unsubscribe id, hgone.2, hold.distinct, ?_, ?_,
    fun handle h => hold.issued handle (hmem handle h)⟩
  · intro other
    have h := hold.scheduled other
    rw [Multiset.singleton_add, Multiset.mem_cons] at h
    exact h.trans ⟨fun h => h.resolve_left (by simp), .inr⟩
  · intro other hother
    obtain ⟨hsub, hne⟩ := (Board.isSubscribed_unsubscribe world.board id other).mp hother
    have h := hold.subscribed other hsub
    rw [Multiset.singleton_add, Multiset.mem_cons, Handle.observer.injEq] at h
    exact h.resolve_left hne

theorem trades_unsubscribe? (world : World A) (observer : Option ObserverId) :
    world.Trades (world.unsubscribe? observer) (Handle.observers observer) 0 := by
  cases observer with
  | none => exact .refl world 0
  | some id => exact trades_unsubscribe world id

theorem trades_observe (world : World A) (observer : Option ObserverId) (key : String) :
    world.Trades (world.observe observer key).2 (Handle.observers observer)
      (Handle.observers (some (world.observe observer key).1)) := by
  cases observer with
  | none => exact (trades_subscribe world key).trans (trades_acknowledge _ _)
  | some id => exact trades_acknowledge world id

end World

end BehaviorTree
