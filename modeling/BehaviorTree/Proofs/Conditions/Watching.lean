import BehaviorTree.Proofs.Lifecycle.KeeperInvariants

namespace BehaviorTree

variable {A : Type}

structure World.Watches (world : World A) (guard : Guard) (status : Status) (id : ObserverId) :
    Prop where
  subscribed : ⟨id, guard.key⟩ ∈ world.board.observers
  /-- Where the condition runs, its guard held at the last look. -/
  standing : status = .running → (world.looks id).head? = some (some true)
  /-- While its flag is down, the guard is as it was at the last look. -/
  aware : ∀ holds, (world.looks id).head? = some (some holds) → world.board.isPending id = false →
    guard.holds world.board = holds

namespace World

variable {world before after : World A} {guard : Guard} {status later : Status} {id : ObserverId}

namespace Watches

theorem holds_of_running (h : world.Watches guard .running id)
    (hdown : world.board.isPending id = false) : guard.holds world.board = true :=
  h.aware true (h.standing rfl) hdown

theorem withStatus (h : world.Watches guard status id) (hrun : later = .running → status = .running) :
    world.Watches guard later id :=
  ⟨h.subscribed, fun hlater => h.standing (hrun hlater), h.aware⟩

theorem untouched (h : before.Watches guard status id)
    (huntouched : before.Untouched after (.observer id)) : after.Watches guard status id := by
  obtain ⟨hlooks, hkey⟩ := huntouched
  obtain ⟨hsubscribed, htold⟩ := hkey guard.key h.subscribed
  refine ⟨hsubscribed, ?_, fun holds hlook hdown => ?_⟩
  · rw [hlooks]
    exact h.standing
  · rw [hlooks] at hlook
    obtain ⟨hbefore, hvalue⟩ := htold hdown
    rw [guard.holds_congr hvalue]
    exact h.aware holds hlook hbefore

end Watches

theorem judge_eq (world : World A) (guard : Guard) (id : ObserverId) :
    world.judge guard id = (guard.holds world.board,
      (world.evaluate guard).2.record (.judged id (guard.holds world.board))) := by
  rw [← evaluate_fst]
  rfl

theorem breaks_of_holds (h : guard.holds world.board = true) :
    world.breaks guard id = (false, world) := by
  rw [breaks, evaluate_of_holds h]
  rfl

theorem breaks_of_not_holds (h : guard.holds world.board = false) :
    world.breaks guard id = (true, (world.judge guard id).2) := by
  have hholds := (evaluate_fst world guard).trans h
  rw [judge_eq, h, breaks]
  dsimp only
  rw [if_neg (by simp [hholds])]

theorem looks_judge (world : World A) (guard : Guard) (id : ObserverId) :
    (world.judge guard id).2.looks id = some (guard.holds world.board) :: world.looks id := by
  have hrecord := looks_record (world.evaluate guard).2 (.judged id (guard.holds world.board)) id
  rw [(writes_evaluate world guard).looks_eq, Event.look?, if_pos rfl] at hrecord
  rw [judge_eq]
  exact hrecord

theorem watches_judge (h : ⟨id, guard.key⟩ ∈ world.board.observers)
    (hrun : status = .running → guard.holds world.board = true) :
    (world.judge guard id).2.Watches guard status id := by
  have hobservers := (writes_evaluate world guard).tells.observers_eq
  refine ⟨?_, fun hstatus => ?_, fun holds hlook _ => ?_⟩
  · rw [← hobservers] at h
    exact h
  · rw [looks_judge, hrun hstatus, List.head?_cons]
  · rw [looks_judge, List.head?_cons, Option.some.injEq, Option.some.injEq] at hlook
    exact (holds_evaluate world guard).trans hlook

theorem watches_dismissed (h : ⟨id, guard.key⟩ ∈ world.board.observers) (hrun : status ≠ .running) :
    (world.record (.dismissed id)).Watches guard status id := by
  refine ⟨h, fun hstatus => absurd hstatus hrun, fun holds hlook => ?_⟩
  rw [looks_record, Event.look?, if_pos rfl] at hlook
  cases hlook

theorem observe_subscribed (world : World A) (observer : Option ObserverId) (key : String)
    (h : ∀ id, observer = some id → ⟨id, key⟩ ∈ world.board.observers) :
    ⟨(world.observe observer key).1, key⟩ ∈ (world.observe observer key).2.board.observers := by
  cases observer with
  | none => exact List.mem_append_right _ (List.mem_singleton_self _)
  | some id => exact h id rfl

theorem Watches.breaks (h : world.Watches guard .running id) :
    ((world.acknowledge id).breaks guard id).1 = !guard.holds world.board ∧
      ((world.acknowledge id).breaks guard id).2.Watches guard
        (if guard.holds world.board then .running else .failed) id := by
  have hsame : guard.holds (world.acknowledge id).board = guard.holds world.board :=
    guard.holds_congr rfl
  cases hguard : guard.holds world.board with
  | true =>
    rw [breaks_of_holds (hsame.trans hguard)]
    refine ⟨rfl, h.subscribed, h.standing, fun holds hlook _ => (hsame.trans hguard).trans ?_⟩
    exact Option.some.inj (Option.some.inj ((h.standing rfl).symm.trans hlook))
  | false =>
    rw [breaks_of_not_holds (hsame.trans hguard)]
    exact ⟨rfl, watches_judge h.subscribed nofun⟩

theorem Watches.stoppedHolding (h : world.Watches guard .running id) :
    (world.stoppedHolding guard (some id)).2.Watches guard
      (if (world.stoppedHolding guard (some id)).1 then .failed else .running) id := by
  unfold World.stoppedHolding
  dsimp only
  split
  · obtain ⟨hbroken, hwatches⟩ := h.breaks
    rw [hbroken]
    cases hholds : guard.holds world.board <;> rw [hholds] at hwatches <;> exact hwatches
  · exact h

theorem Watches.startedHolding (h : world.Watches guard .inactive id) :
    (world.startedHolding guard (some id)).2.Watches guard .inactive id := by
  unfold World.startedHolding
  dsimp only
  split
  · exact watches_judge h.subscribed nofun
  · exact h

theorem Watches.dismiss (h : world.Watches guard status id) :
    (world.dismiss id).Watches guard .inactive id := by
  unfold World.dismiss
  split
  · exact watches_dismissed h.subscribed nofun
  · exact h.withStatus nofun

end World

namespace Keeper

/-- A condition that is active watches its key, and one that watches knows what it saw last. -/
def Watchful (world : World A) : Keeper → Prop
  | .condition guard _ status observer => (status ≠ .inactive → observer ≠ none) ∧
    ∀ id, observer = some id → world.Watches guard status id
  | .service _ _ _ => True

theorem Step.watchful {before after : World A} {keeper next : Keeper}
    (h : Step before after keeper next) (hwatchful : keeper.Watchful before) :
    next.Watchful after := by
  cases h with
  | @begin _ _ guard observer id holds policy hobserve hjudge =>
    have hobserved := before.observe_subscribed observer guard.key
      fun id heq => (hwatchful.2 id heq).subscribed
    rw [hobserve] at hobserved
    refine ⟨fun _ => nofun, fun other heq => ?_⟩
    cases heq
    rw [World.judge_eq] at hjudge
    cases hjudge
    have hrun (holds : Bool) (h : (if holds then Status.running else .failed) = .running) :
        holds = true := by
      cases holds
      · cases h
      · rfl
    have hwatches := World.watches_judge hobserved (hrun _)
    rwa [World.judge_eq] at hwatches
  | @beginBare _ guard observer id policy hobserve =>
    have hobserved := before.observe_subscribed observer guard.key
      fun id heq => (hwatchful.2 id heq).subscribed
    rw [hobserve] at hobserved
    refine ⟨fun _ => nofun, fun other heq => ?_⟩
    cases heq
    exact World.watches_dismissed hobserved nofun
  | @check _ guard policy observer broken _ hcheck =>
    refine ⟨fun _ => hwatchful.1 nofun, ?_⟩
    rintro id rfl
    have hchecked := (hwatchful.2 id rfl).stoppedHolding
    rwa [hcheck] at hchecked
  | finish guard policy observer outcome =>
    exact ⟨fun _ => hwatchful.1 nofun, fun id heq => (hwatchful.2 id heq).withStatus fun _ => rfl⟩
  | stop guard policy status observer =>
    refine ⟨fun hne => absurd rfl hne, ?_⟩
    rintro id rfl
    exact (hwatchful.2 id rfl).dismiss
  | unwatch guard policy observer => exact ⟨fun hne => absurd rfl hne, nofun⟩
  | @ask _ guard observer holds policy hask =>
    refine ⟨fun hne => absurd rfl hne, ?_⟩
    rintro id rfl
    have hasked := (hwatchful.2 id rfl).startedHolding
    rwa [hask] at hasked
  | schedule | serve | cancel => exact trivial

theorem lasts_watchful : Lasts (A := A) Watchful := by
  refine ⟨Step.watchful, ?_, fun _ _ _ => ⟨fun hne => absurd rfl hne, nofun⟩, fun _ _ => trivial⟩
  intro before after keeper huntouched hwatchful
  cases keeper with
  | service => exact trivial
  | condition guard policy status observer =>
    refine ⟨hwatchful.1, ?_⟩
    rintro id rfl
    exact (hwatchful.2 id rfl).untouched (huntouched (.observer id) (Multiset.mem_singleton_self _))

end Keeper

end BehaviorTree
