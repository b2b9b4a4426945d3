import BehaviorTree.Proofs.Lifecycle.KeeperSteps

/-!
In a fit state the active nodes form one path downwards: a composite has no active child but the one
at its index, an inactive node has no active child at all, and exactly the active services keep a
timer. Nothing is known of a leaf that the host wrote, so a tree with such a leaf is never fit.
-/

namespace BehaviorTree.Tree

variable {A : Type}

mutual

/-- No node of the tree is active, and no service keeps a timer. -/
def Quiet : (tree : Tree A) → tree.State → Prop
  | .action _ _, state => state.status = .inactive
  | .wait _ _, state => state.status = .inactive
  | .leaf _, _ => False
  | .sequence children, state => state.status = .inactive ∧ QuietList children state.children
  | .selector children, state => state.status = .inactive ∧ QuietList children state.children
  | .condition _ _ child, state => state.status = .inactive ∧ QuietOption child state.child
  | .service _ _ _ child, state =>
    state.status = .inactive ∧ state.timer = none ∧ QuietOption child state.child

def QuietList : (trees : List (Tree A)) → StateList trees → Prop
  | [], _ => True
  | tree :: trees, (state, states) => tree.Quiet state ∧ QuietList trees states

def QuietOption : (tree : Option (Tree A)) → StateOption tree → Prop
  | none, _ => True
  | some tree, state => tree.Quiet state

end

mutual

/-- The active nodes form one path downwards, and the active services are those that keep a timer. -/
def Fit : (tree : Tree A) → tree.State → Prop
  | .action _ _, state => state.status ≠ .failed
  | .wait _ _, state => state.status ≠ .failed
  | .leaf _, _ => False
  | .sequence children, state =>
    (state.status = .running → FitAt children state.current state.children ∧
      (state.current < children.length ∨ children = [])) ∧
    (state.status ≠ .running → QuietList children state.children)
  | .selector children, state =>
    (state.status = .running → FitAt children state.current state.children ∧
      (state.current < children.length ∨ children = [])) ∧
    (state.status ≠ .running → QuietList children state.children)
  | .condition _ _ child, state =>
    FitOption child state.child ∧ (state.status = .inactive → QuietOption child state.child)
  | .service _ _ _ child, state =>
    FitOption child state.child ∧
    (state.status = .inactive → state.timer = none ∧ QuietOption child state.child) ∧
    (state.status ≠ .inactive → state.timer ≠ none)

/-- The tree at the index is fit, and all others are quiet. -/
def FitAt : (trees : List (Tree A)) → Nat → StateList trees → Prop
  | [], _, _ => True
  | tree :: trees, 0, (state, states) => tree.Fit state ∧ QuietList trees states
  | tree :: trees, i + 1, (state, states) => tree.Quiet state ∧ FitAt trees i states

def FitOption : (tree : Option (Tree A)) → StateOption tree → Prop
  | none, _ => True
  | some tree, state => tree.Fit state

end

mutual

def handles : (tree : Tree A) → tree.State → Multiset Handle
  | .action _ _, _ => 0
  | .wait _ _, _ => 0
  | .leaf _, _ => 0
  | .sequence children, state => handlesList children state.children
  | .selector children, state => handlesList children state.children
  | .condition _ _ child, state => Handle.observers state.observer + handlesOption child state.child
  | .service _ _ _ child, state => Handle.timers state.timer + handlesOption child state.child

def handlesList : (trees : List (Tree A)) → StateList trees → Multiset Handle
  | [], _ => 0
  | tree :: trees, (state, states) => tree.handles state + handlesList trees states

def handlesOption : (tree : Option (Tree A)) → StateOption tree → Multiset Handle
  | none, _ => 0
  | some tree, state => tree.handles state

end

mutual

def keepers : (tree : Tree A) → tree.State → Multiset Keeper
  | .action _ _, _ => 0
  | .wait _ _, _ => 0
  | .leaf _, _ => 0
  | .sequence children, state => keepersList children state.children
  | .selector children, state => keepersList children state.children
  | .condition guard policy child, state =>
    {.condition guard policy state.status state.observer} + keepersOption child state.child
  | .service _ interval _ child, state =>
    {.service interval state.status state.timer} + keepersOption child state.child

def keepersList : (trees : List (Tree A)) → StateList trees → Multiset Keeper
  | [], _ => 0
  | tree :: trees, (state, states) => tree.keepers state + keepersList trees states

def keepersOption : (tree : Option (Tree A)) → StateOption tree → Multiset Keeper
  | none, _ => 0
  | some tree, state => tree.keepers state

end

mutual

theorem ofKeepers_keepers : (tree : Tree A) → (state : tree.State) →
    Handle.ofKeepers (tree.keepers state) = tree.handles state
  | .action _ _, _ => Handle.ofKeepers_zero
  | .wait _ _, _ => Handle.ofKeepers_zero
  | .leaf _, _ => Handle.ofKeepers_zero
  | .sequence children, state => ofKeepers_keepersList children state.children
  | .selector children, state => ofKeepers_keepersList children state.children
  | .condition _ _ child, state => by
    rw [keepers, handles, Handle.ofKeepers_add, Handle.ofKeepers_singleton,
      ofKeepers_keepersOption child state.child]
    rfl
  | .service _ _ _ child, state => by
    rw [keepers, handles, Handle.ofKeepers_add, Handle.ofKeepers_singleton,
      ofKeepers_keepersOption child state.child]
    rfl

theorem ofKeepers_keepersList : (trees : List (Tree A)) → (states : StateList trees) →
    Handle.ofKeepers (keepersList trees states) = handlesList trees states
  | [], _ => Handle.ofKeepers_zero
  | tree :: trees, (state, states) => by
    rw [keepersList, handlesList, Handle.ofKeepers_add, ofKeepers_keepers tree state,
      ofKeepers_keepersList trees states]

theorem ofKeepers_keepersOption : (tree : Option (Tree A)) → (state : StateOption tree) →
    Handle.ofKeepers (keepersOption tree state) = handlesOption tree state
  | none, _ => Handle.ofKeepers_zero
  | some tree, state => ofKeepers_keepers tree state

end

theorem trades_of_deals {tree : Tree A} {state later : tree.State} {world after : World A}
    (h : world.Deals after (tree.keepers state) (tree.keepers later)) :
    world.Trades after (tree.handles state) (tree.handles later) := by
  have htrades := h.trades
  rwa [ofKeepers_keepers, ofKeepers_keepers] at htrades

mutual

theorem Quiet.fit : (tree : Tree A) → (state : tree.State) → tree.Quiet state → tree.Fit state
  | .action _ _, state, h => by
    rw [Quiet] at h
    simp [Fit, h]
  | .wait _ _, state, h => by
    rw [Quiet] at h
    simp [Fit, h]
  | .sequence _, state, h => by
    rw [Quiet] at h
    simp [Fit, h.1, h.2]
  | .selector _, state, h => by
    rw [Quiet] at h
    simp [Fit, h.1, h.2]
  | .condition _ _ child, state, h => by
    rw [Quiet] at h
    simp [Fit, h.1, h.2, QuietOption.fit child state.child h.2]
  | .service _ _ _ child, state, h => by
    rw [Quiet] at h
    simp [Fit, h.1, h.2.1, h.2.2, QuietOption.fit child state.child h.2.2]

theorem QuietOption.fit : (tree : Option (Tree A)) → (state : StateOption tree) →
    QuietOption tree state → FitOption tree state
  | none, _, _ => by simp [FitOption]
  | some tree, state, h => by
    rw [QuietOption] at h
    rw [FitOption]
    exact Quiet.fit tree state h

end

theorem QuietList.fitAt (trees : List (Tree A)) (i : Nat) (states : StateList trees)
    (h : QuietList trees states) : FitAt trees i states := by
  induction trees generalizing i with
  | nil => simp [FitAt]
  | cons tree trees ih =>
    obtain ⟨state, states⟩ := states
    rw [QuietList] at h
    cases i with
    | zero => exact ⟨h.1.fit, h.2⟩
    | succ i => exact ⟨h.1, ih i states h.2⟩

/-- What a fit sequence and a fit selector have in common. -/
structure FitComposite (children : List (Tree A)) (state : CompositeState (StateList children)) :
    Prop where
  current : state.status = .running → FitAt children state.current state.children
  bound : state.status = .running → state.current < children.length ∨ children = []
  idle : state.status ≠ .running → QuietList children state.children

theorem fit_sequence (children : List (Tree A)) (state : (Tree.sequence children).State) :
    (Tree.sequence children).Fit state ↔ FitComposite children state := by
  rw [Fit]
  exact ⟨fun h => ⟨fun hr => (h.1 hr).1, fun hr => (h.1 hr).2, h.2⟩,
    fun h => ⟨fun hr => ⟨h.current hr, h.bound hr⟩, h.idle⟩⟩

theorem fit_selector (children : List (Tree A)) (state : (Tree.selector children).State) :
    (Tree.selector children).Fit state ↔ FitComposite children state := by
  rw [Fit]
  exact ⟨fun h => ⟨fun hr => (h.1 hr).1, fun hr => (h.1 hr).2, h.2⟩,
    fun h => ⟨fun hr => ⟨h.current hr, h.bound hr⟩, h.idle⟩⟩

namespace FitComposite

variable {children : List (Tree A)} {state : CompositeState (StateList children)}

theorem fitAt (h : FitComposite children state) : FitAt children state.current state.children := by
  by_cases hrun : state.status = .running
  · exact h.current hrun
  · exact QuietList.fitAt _ _ _ (h.idle hrun)

theorem of_quiet (h : QuietList children state.children) (hrun : state.status ≠ .running) :
    FitComposite children state :=
  ⟨fun hr => absurd hr hrun, fun hr => absurd hr hrun, fun _ => h⟩

theorem begin (h : FitComposite children state) : FitComposite children state.begin := by
  unfold CompositeState.begin
  split
  · rename_i hidle
    have hquiet : QuietList children state.children := h.idle (by simp [hidle])
    refine ⟨fun _ => QuietList.fitAt _ _ _ hquiet, fun _ => ?_, fun hne => absurd rfl hne⟩
    cases children with
    | nil => exact .inr rfl
    | cons tree trees => exact .inl (Nat.succ_pos _)
  · exact h

end FitComposite

theorem start_condition (guard : Guard) (policy : RestartPolicy) (child : Option (Tree A))
    (state : (Tree.condition guard policy child).State) (world : World A)
    (hidle : state.status = .inactive) {observed checked : World A} {id : ObserverId} {holds : Bool}
    (hobserve : world.observe state.observer guard.key = (id, observed))
    (hcheck : observed.judge guard id = (holds, checked)) :
    (Tree.condition guard policy child).start state world =
      if child.isNone then (⟨.failed, some id, state.child⟩, observed.record (.dismissed id))
      else if holds then
        (⟨.running, some id, (startOption child state.child checked).1⟩,
          (startOption child state.child checked).2)
      else (⟨.failed, some id, state.child⟩, checked) := by
  rw [start, if_neg (by simp [hidle]), hobserve]
  dsimp only
  rw [hcheck]

theorem start_service (label : String) (interval : Duration) (callback : Routine A)
    (child : Option (Tree A)) (state : (Tree.service label interval callback child).State)
    (world : World A) (hidle : state.status = .inactive) {added : World A} {id : TimerId}
    (hadd : (world.refresh ⟨world.clock.nextTimer⟩ callback).addTimer interval = (id, added)) :
    (Tree.service label interval callback child).start state world =
      (⟨.running, some id, (startOption child state.child added).1⟩,
        (startOption child state.child added).2) := by
  rw [start, if_neg (by simp [hidle])]
  dsimp only
  rw [hadd]

mutual

theorem start_fit : (tree : Tree A) → (state : tree.State) → (world : World A) → tree.Fit state →
    tree.Fit (tree.start state world).1 ∧
      world.Deals (tree.start state world).2 (tree.keepers state)
        (tree.keepers (tree.start state world).1)
  | .action _ _, state, world, h => by
    rw [Fit] at h
    refine ⟨?_, .refl world _⟩
    rw [Fit, start]
    split
    · simp
    · exact h
  | .wait duration variance, state, world, h => by
    rw [Fit] at h
    rw [start]
    split
    · exact ⟨h, .refl world _⟩
    · split
      · exact ⟨by simp [Fit], .refl world _⟩
      · exact ⟨h, .of_acts (.overflow world) _⟩
  | .sequence children, state, world, h => by
    rw [fit_sequence] at h
    refine ⟨(fit_sequence _ _).mpr h.begin, ?_⟩
    rw [start, keepers, keepers]
    unfold CompositeState.begin
    split <;> exact .refl world _
  | .selector children, state, world, h => by
    rw [fit_selector] at h
    refine ⟨(fit_selector _ _).mpr h.begin, ?_⟩
    rw [start, keepers, keepers]
    unfold CompositeState.begin
    split <;> exact .refl world _
  | .condition guard policy child, state, world, h => by
    by_cases hidle : state.status = .inactive
    · rw [Fit] at h
      rcases hobserve : world.observe state.observer guard.key with ⟨id, observed⟩
      rcases hjudge : observed.judge guard id with ⟨holds, judged⟩
      have hbelow := startOption_fit child state.child judged h.1
      rw [start_condition guard policy child state world hidle hobserve hjudge, keepers, hidle]
      split
      · exact ⟨⟨h.1, by simp⟩, (World.Deals.step (.beginBare policy hobserve)).frame _⟩
      · have hbegun := (World.Deals.step (.begin policy hobserve hjudge)).frame
          (keepersOption child state.child)
        cases holds with
        | true => exact ⟨⟨hbelow.1, by simp⟩, hbegun.trans (hbelow.2.frame_left _)⟩
        | false => exact ⟨⟨h.1, by simp⟩, hbegun⟩
    · rw [start, if_pos hidle]
      exact ⟨h, .refl world _⟩
  | .service label interval callback child, state, world, h => by
    by_cases hidle : state.status = .inactive
    · rw [Fit] at h
      rcases hadd : (world.refresh ⟨world.clock.nextTimer⟩ callback).addTimer interval with ⟨id, added⟩
      have hscheduled := (World.Deals.step (.schedule world interval callback)).frame
        (keepersOption child state.child)
      have hid := World.addTimer_refresh world interval callback
      rw [hadd] at hscheduled hid
      have hbelow := startOption_fit child state.child added h.1
      rw [start_service label interval callback child state world hidle hadd, keepers, hidle,
        (h.2.1 hidle).1, show id = _ from hid]
      exact ⟨⟨hbelow.1, by simp, by simp⟩, hscheduled.trans (hbelow.2.frame_left _)⟩
    · rw [start, if_pos hidle]
      exact ⟨h, .refl world _⟩

theorem startOption_fit : (tree : Option (Tree A)) → (state : StateOption tree) →
    (world : World A) → FitOption tree state →
    FitOption tree (startOption tree state world).1 ∧
      world.Deals (startOption tree state world).2 (keepersOption tree state)
        (keepersOption tree (startOption tree state world).1)
  | none, state, world, h => ⟨by simp [FitOption], .refl world _⟩
  | some tree, state, world, h => by
    rw [FitOption] at h
    exact start_fit tree state world h

end

theorem stop_condition (guard : Guard) (policy : RestartPolicy) (child : Option (Tree A))
    (state : (Tree.condition guard policy child).State) (world : World A)
    {below : StateOption child} {stopped : World A}
    (hbelow : (if state.status = .inactive then (state.child, world)
      else stopOption child state.child world) = (below, stopped)) :
    (Tree.condition guard policy child).stop state world =
      if policy.preemption?.isNone then
        (⟨.inactive, none, below⟩, (stopped.dismiss? state.observer).unsubscribe? state.observer)
      else (⟨.inactive, state.observer, below⟩, stopped.dismiss? state.observer) := by
  rw [stop, hbelow]

theorem stop_service (label : String) (interval : Duration) (callback : Routine A)
    (child : Option (Tree A)) (state : (Tree.service label interval callback child).State)
    (world : World A) :
    (Tree.service label interval callback child).stop state world =
      if state.status = .inactive then ({ state with timer := none }, world.cancel? state.timer)
      else
        (⟨.inactive, none, (stopOption child state.child (world.cancel? state.timer)).1⟩,
          (stopOption child state.child (world.cancel? state.timer)).2) := by
  rw [stop]

theorem stop_selector (children : List (Tree A)) (state : (Tree.selector children).State)
    (world : World A) :
    (Tree.selector children).stop state world = (Tree.sequence children).stop state world := by
  rw [stop, stop]

theorem FitComposite.stop {children : List (Tree A)} {state : CompositeState (StateList children)}
    {world : World A} (h : FitComposite children state)
    (hbelow : QuietList children (stopAt children state.current state.children world).1 ∧
      world.Deals (stopAt children state.current state.children world).2
        (keepersList children state.children)
        (keepersList children (stopAt children state.current state.children world).1)) :
    (Tree.sequence children).Quiet ((Tree.sequence children).stop state world).1 ∧
      world.Deals ((Tree.sequence children).stop state world).2
        ((Tree.sequence children).keepers state)
        ((Tree.sequence children).keepers ((Tree.sequence children).stop state world).1) := by
  rw [Tree.stop]
  split
  · rename_i hidle
    exact ⟨⟨hidle, h.idle (by simp [hidle])⟩, .refl world _⟩
  · exact ⟨⟨rfl, hbelow.1⟩, hbelow.2⟩

mutual

theorem stop_quiet : (tree : Tree A) → (state : tree.State) → (world : World A) → tree.Fit state →
    tree.Quiet (tree.stop state world).1 ∧
      world.Deals (tree.stop state world).2 (tree.keepers state)
        (tree.keepers (tree.stop state world).1)
  | .action _ _, state, world, _ => by
    rw [stop]
    exact ⟨rfl, .refl world _⟩
  | .wait _ _, state, world, _ => by
    rw [stop]
    exact ⟨rfl, .refl world _⟩
  | .sequence children, state, world, h => by
    rw [fit_sequence] at h
    exact h.stop (stopAt_quiet children state.current state.children world h.fitAt)
  | .selector children, state, world, h => by
    rw [fit_selector] at h
    rw [stop_selector]
    exact h.stop (stopAt_quiet children state.current state.children world h.fitAt)
  | .condition guard policy child, state, world, h => by
    rw [Fit] at h
    rcases hbelow : (if state.status = .inactive then (state.child, world)
      else stopOption child state.child world) with ⟨below, stopped⟩
    have hquiet : QuietOption child below ∧ world.Deals stopped (keepersOption child state.child)
        (keepersOption child below) := by
      split at hbelow
      · rename_i hidle
        cases hbelow
        exact ⟨h.2 hidle, .refl world _⟩
      · simpa only [hbelow] using stopOption_quiet child state.child world h.1
    -- The observer outlives the stop where the policy may take over, and only there.
    have hstopped := (hquiet.2.frame_left {.condition guard policy state.status state.observer}).trans
      ((World.Deals.step (.stop stopped guard policy state.status state.observer)).frame _)
    rw [stop_condition guard policy child state world hbelow, keepers]
    split
    · exact ⟨⟨rfl, hquiet.1⟩,
        hstopped.trans ((World.Deals.step (.unwatch _ guard policy state.observer)).frame _)⟩
    · exact ⟨⟨rfl, hquiet.1⟩, hstopped⟩
  | .service label interval callback child, state, world, h => by
    rw [Fit] at h
    have hcancelled := (World.Deals.step (.cancel world interval state.status state.timer)).frame
      (keepersOption child state.child)
    have hbelow := stopOption_quiet child state.child (world.cancel? state.timer) h.1
    rw [stop_service, keepers]
    split
    · rename_i hidle
      rw [hidle] at hcancelled ⊢
      exact ⟨⟨rfl, rfl, (h.2.1 hidle).2⟩, hcancelled⟩
    · exact ⟨⟨rfl, rfl, hbelow.1⟩, hcancelled.trans (hbelow.2.frame_left _)⟩

theorem stopAt_quiet : (trees : List (Tree A)) → (i : Nat) → (states : StateList trees) →
    (world : World A) → FitAt trees i states →
    QuietList trees (stopAt trees i states world).1 ∧
      world.Deals (stopAt trees i states world).2 (keepersList trees states)
        (keepersList trees (stopAt trees i states world).1)
  | [], _, _, world, _ => ⟨by simp [QuietList], .refl world _⟩
  | tree :: trees, 0, (state, states), world, h => by
    rw [FitAt] at h
    have hstop := stop_quiet tree state world h.1
    rw [stopAt, keepersList]
    exact ⟨⟨hstop.1, h.2⟩, hstop.2.frame _⟩
  | tree :: trees, i + 1, (state, states), world, h => by
    rw [FitAt] at h
    have hrest := stopAt_quiet trees i states world h.2
    rw [stopAt, keepersList]
    exact ⟨⟨h.1, hrest.1⟩, hrest.2.frame_left _⟩

theorem stopOption_quiet : (tree : Option (Tree A)) → (state : StateOption tree) →
    (world : World A) → FitOption tree state →
    QuietOption tree (stopOption tree state world).1 ∧
      world.Deals (stopOption tree state world).2 (keepersOption tree state)
        (keepersOption tree (stopOption tree state world).1)
  | none, _, world, _ => ⟨by simp [QuietOption], .refl world _⟩
  | some tree, state, world, h => by
    rw [FitOption] at h
    exact stop_quiet tree state world h

end

theorem release_selector (children : List (Tree A)) (state : (Tree.selector children).State)
    (world : World A) :
    (Tree.selector children).release state world = (Tree.sequence children).release state world := by
  rw [release, release, stop_selector]

theorem release_composite {children : List (Tree A)} {state : CompositeState (StateList children)}
    {world : World A} (h : (Tree.sequence children).Fit state)
    (hbelow : ∀ states world, QuietList children states →
      QuietList children (releaseList children states world).1 ∧
        handlesList children (releaseList children states world).1 = 0 ∧
        world.Deals (releaseList children states world).2 (keepersList children states)
          (keepersList children (releaseList children states world).1)) :
    (Tree.sequence children).Quiet ((Tree.sequence children).release state world).1 ∧
      (Tree.sequence children).handles ((Tree.sequence children).release state world).1 = 0 ∧
      world.Deals ((Tree.sequence children).release state world).2
        ((Tree.sequence children).keepers state)
        ((Tree.sequence children).keepers ((Tree.sequence children).release state world).1) := by
  have hstop := stop_quiet (.sequence children) state world h
  obtain ⟨hquiet, hnone, hdeals⟩ := hbelow _ ((Tree.sequence children).stop state world).2 hstop.1.2
  rw [release]
  exact ⟨⟨hstop.1.1, hquiet⟩, hnone, hstop.2.trans hdeals⟩

mutual

theorem release_quiet : (tree : Tree A) → (state : tree.State) → (world : World A) →
    tree.Fit state →
    tree.Quiet (tree.release state world).1 ∧
      tree.handles (tree.release state world).1 = 0 ∧
      world.Deals (tree.release state world).2 (tree.keepers state)
        (tree.keepers (tree.release state world).1)
  | .action label command, state, world, h => by
    have hstop := stop_quiet (.action label command) state world h
    rw [release]
    exact ⟨hstop.1, rfl, hstop.2⟩
  | .wait duration variance, state, world, h => by
    have hstop := stop_quiet (.wait duration variance) state world h
    rw [release]
    exact ⟨hstop.1, rfl, hstop.2⟩
  | .sequence children, state, world, h => release_composite h (releaseList_quiet children)
  | .selector children, state, world, h => by
    rw [release_selector]
    exact release_composite h (releaseList_quiet children)
  | .condition guard policy child, state, world, h => by
    have hstop := stop_quiet (.condition guard policy child) state world h
    rw [release]
    have hbelow := releaseOption_quiet child _ ((Tree.condition guard policy child).stop state world).2
      hstop.1.2
    refine ⟨⟨hstop.1.1, hbelow.1⟩, ?_, ?_⟩
    · rw [handles, hbelow.2.1]
      rfl
    · have hleft := World.Deals.step (.unwatch
        (releaseOption child ((Tree.condition guard policy child).stop state world).1.child
          ((Tree.condition guard policy child).stop state world).2).2 guard policy
        ((Tree.condition guard policy child).stop state world).1.observer)
      rw [← hstop.1.1] at hleft
      exact (hstop.2.trans (hbelow.2.2.frame_left _)).trans (hleft.frame _)
  | .service label interval callback child, state, world, h => by
    have hstop := stop_quiet (.service label interval callback child) state world h
    rw [release]
    have hbelow := releaseOption_quiet child _
      ((Tree.service label interval callback child).stop state world).2 hstop.1.2.2
    refine ⟨⟨hstop.1.1, hstop.1.2.1, hbelow.1⟩, ?_, ?_⟩
    · rw [handles, hstop.1.2.1, hbelow.2.1]
      rfl
    · exact hstop.2.trans (hbelow.2.2.frame_left _)

theorem releaseList_quiet : (trees : List (Tree A)) → (states : StateList trees) →
    (world : World A) → QuietList trees states →
    QuietList trees (releaseList trees states world).1 ∧
      handlesList trees (releaseList trees states world).1 = 0 ∧
      world.Deals (releaseList trees states world).2 (keepersList trees states)
        (keepersList trees (releaseList trees states world).1)
  | [], _, world, _ => ⟨by simp [QuietList], rfl, .refl world _⟩
  | tree :: trees, (state, states), world, h => by
    rw [QuietList] at h
    have hfirst := release_quiet tree state world (Quiet.fit tree state h.1)
    have hrest := releaseList_quiet trees states (tree.release state world).2 h.2
    rw [releaseList, keepersList]
    refine ⟨⟨hfirst.1, hrest.1⟩, ?_, ?_⟩
    · rw [handlesList, hfirst.2.1, hrest.2.1, add_zero]
    · exact (hfirst.2.2.frame _).trans (hrest.2.2.frame_left _)

theorem releaseOption_quiet : (tree : Option (Tree A)) → (state : StateOption tree) →
    (world : World A) → QuietOption tree state →
    QuietOption tree (releaseOption tree state world).1 ∧
      handlesOption tree (releaseOption tree state world).1 = 0 ∧
      world.Deals (releaseOption tree state world).2 (keepersOption tree state)
        (keepersOption tree (releaseOption tree state world).1)
  | none, _, world, _ => ⟨by simp [QuietOption], rfl, .refl world _⟩
  | some tree, state, world, h => by
    rw [QuietOption] at h
    exact release_quiet tree state world (Quiet.fit tree state h)

end

end BehaviorTree.Tree
