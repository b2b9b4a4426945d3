import BehaviorTree.Proofs.Restart.ShiftedWorlds

/-!
Nodes keep more than they go by: an inactive composite still has an index, an inactive wait the time of
its last start. `Tree.Alike` leaves such residue out, and so every operation of a tree takes alike states
in alike worlds to alike states in alike worlds. Nothing is drawn here: actions have fixed effects, and
waits no variance.
-/

namespace BehaviorTree

variable {A : Type} {shift : Shift}

/-- The command does the same each time it runs. -/
def Command.Fixed : Command A → Prop
  | .always _ => True
  | .drawn _ _ _ => False

/-- The states of a composite go on alike. Where it is inactive, the index does not count. -/
structure CompositeState.Alike {S : Type} (children : S → S → Prop)
    (early late : CompositeState S) : Prop where
  status_eq : late.status = early.status
  current_eq : early.status ≠ .inactive → late.current = early.current
  children : children early.children late.children

namespace Tree

mutual

/-- What the tree does depends on the agent, the board and the clock alone. -/
def Deterministic : Tree A → Prop
  | .action _ command => command.Fixed
  | .wait _ variance => variance = 0
  | .leaf _ => False
  | .sequence children => DeterministicList children
  | .selector children => DeterministicList children
  | .condition _ _ child => DeterministicOption child
  | .service _ _ _ child => DeterministicOption child

def DeterministicList : List (Tree A) → Prop
  | [] => True
  | tree :: trees => tree.Deterministic ∧ DeterministicList trees

def DeterministicOption : Option (Tree A) → Prop
  | none => True
  | some tree => tree.Deterministic

end

mutual

/-- The two states of the tree go on alike, in worlds that do. -/
def Alike (shift : Shift) : (tree : Tree A) → tree.State → tree.State → Prop
  | .action _ command, early, late => command.Fixed ∧ late.status = early.status
  | .wait _ variance, early, late =>
    variance = 0 ∧ late.status = early.status ∧
    (early.status ≠ .inactive →
      late.startedAt = early.startedAt + shift.time ∧ late.target = early.target)
  | .leaf _, _, _ => False
  | .sequence children, early, late => CompositeState.Alike (AlikeList shift children) early late
  | .selector children, early, late => CompositeState.Alike (AlikeList shift children) early late
  | .condition _ _ child, early, late =>
    late.status = early.status ∧ late.observer = early.observer.map shift.observer ∧
    AlikeOption shift child early.child late.child
  | .service _ _ _ child, early, late =>
    late.status = early.status ∧ late.timer = early.timer.map shift.timer ∧
    AlikeOption shift child early.child late.child

def AlikeList (shift : Shift) : (trees : List (Tree A)) → StateList trees → StateList trees → Prop
  | [], _, _ => True
  | tree :: trees, (early, earlies), (late, lates) =>
    tree.Alike shift early late ∧ AlikeList shift trees earlies lates

def AlikeOption (shift : Shift) :
    (tree : Option (Tree A)) → StateOption tree → StateOption tree → Prop
  | none, _, _ => True
  | some tree, early, late => tree.Alike shift early late

end

mutual

theorem Deterministic.builtIn : (tree : Tree A) → tree.Deterministic → tree.BuiltIn
  | .action _ _, _ => trivial
  | .wait _ _, _ => trivial
  | .sequence children, h => DeterministicList.builtIn children h
  | .selector children, h => DeterministicList.builtIn children h
  | .condition _ _ child, h => DeterministicOption.builtIn child h
  | .service _ _ _ child, h => DeterministicOption.builtIn child h

theorem DeterministicList.builtIn : (trees : List (Tree A)) → DeterministicList trees →
    BuiltInList trees
  | [], _ => trivial
  | tree :: trees, h => ⟨Deterministic.builtIn tree h.1, DeterministicList.builtIn trees h.2⟩

theorem DeterministicOption.builtIn : (tree : Option (Tree A)) → DeterministicOption tree →
    BuiltInOption tree
  | none, _ => trivial
  | some tree, h => Deterministic.builtIn tree h

end

theorem observers_eq_zero {observer : Option ObserverId} (h : Handle.observers observer = 0) :
    observer = none := by
  cases observer with
  | none => rfl
  | some id => simp [Handle.observers] at h

mutual

/-- A tree that rests and holds nothing goes on like any other such tree, whatever it did before. -/
theorem alike_of_quiet : (tree : Tree A) → (early late : tree.State) → tree.Deterministic →
    tree.Quiet early → tree.handles early = 0 → tree.Quiet late → tree.handles late = 0 →
    tree.Alike shift early late
  | .action _ _, early, late, hfixed, hearly, _, hlate, _ => by
    rw [Quiet] at hearly hlate
    exact ⟨hfixed, hlate.trans hearly.symm⟩
  | .wait _ _, early, late, hzero, hearly, _, hlate, _ => by
    rw [Quiet] at hearly hlate
    exact ⟨hzero, hlate.trans hearly.symm, fun hactive => absurd hearly hactive⟩
  | .sequence children, early, late, htree, hearly, hnone, hlate, hnone' => by
    rw [Quiet] at hearly hlate
    have hbelow := alikeList_of_quiet children early.children late.children htree hearly.2 hnone
      hlate.2 hnone'
    exact ⟨hlate.1.trans hearly.1.symm, fun hactive => absurd hearly.1 hactive, hbelow⟩
  | .selector children, early, late, htree, hearly, hnone, hlate, hnone' => by
    rw [Quiet] at hearly hlate
    have hbelow := alikeList_of_quiet children early.children late.children htree hearly.2 hnone
      hlate.2 hnone'
    exact ⟨hlate.1.trans hearly.1.symm, fun hactive => absurd hearly.1 hactive, hbelow⟩
  | .condition _ _ child, early, late, htree, hearly, hnone, hlate, hnone' => by
    rw [Quiet] at hearly hlate
    rw [handles, add_eq_zero] at hnone hnone'
    have hbelow := alikeOption_of_quiet child early.child late.child htree hearly.2 hnone.2 hlate.2
      hnone'.2
    refine ⟨hlate.1.trans hearly.1.symm, ?_, hbelow⟩
    rw [observers_eq_zero hnone.1, observers_eq_zero hnone'.1]
    rfl
  | .service _ _ _ child, early, late, htree, hearly, hnone, hlate, hnone' => by
    rw [Quiet] at hearly hlate
    rw [handles, add_eq_zero] at hnone hnone'
    have hbelow := alikeOption_of_quiet child early.child late.child htree hearly.2.2 hnone.2
      hlate.2.2 hnone'.2
    refine ⟨hlate.1.trans hearly.1.symm, ?_, hbelow⟩
    rw [hearly.2.1, hlate.2.1]
    rfl

theorem alikeList_of_quiet : (trees : List (Tree A)) → (early late : StateList trees) →
    DeterministicList trees → QuietList trees early → handlesList trees early = 0 →
    QuietList trees late → handlesList trees late = 0 → AlikeList shift trees early late
  | [], _, _, _, _, _, _, _ => trivial
  | tree :: trees, (early, earlies), (late, lates), htree, hearly, hnone, hlate, hnone' => by
    rw [handlesList, add_eq_zero] at hnone hnone'
    exact ⟨alike_of_quiet tree early late htree.1 hearly.1 hnone.1 hlate.1 hnone'.1,
      alikeList_of_quiet trees earlies lates htree.2 hearly.2 hnone.2 hlate.2 hnone'.2⟩

theorem alikeOption_of_quiet : (tree : Option (Tree A)) → (early late : StateOption tree) →
    DeterministicOption tree → QuietOption tree early → handlesOption tree early = 0 →
    QuietOption tree late → handlesOption tree late = 0 → AlikeOption shift tree early late
  | none, _, _, _, _, _, _, _ => trivial
  | some tree, early, late, htree, hearly, hnone, hlate, hnone' =>
    alike_of_quiet tree early late htree hearly hnone hlate hnone'

end

theorem Alike.status_eq {tree : Tree A} {early late : tree.State} (h : tree.Alike shift early late) :
    tree.status late = tree.status early := by
  cases tree with
  | action _ _ => exact h.2
  | wait _ _ => exact h.2.1
  | leaf _ => exact h.elim
  | sequence _ | selector _ => exact CompositeState.Alike.status_eq h
  | condition _ _ _ | service _ _ _ _ => exact h.1

end Tree

/-- A state and its world, beside those with which they go on alike. -/
structure Alongside {S : Type} (shift : Shift) (alike : S → S → Prop) (early late : S × World A) :
    Prop where
  state : alike early.1 late.1
  world : early.2.Alike shift late.2

theorem CompositeState.Alike.begin {S : Type} {children : S → S → Prop} {early late : CompositeState S}
    (h : CompositeState.Alike children early late) :
    CompositeState.Alike children early.begin late.begin := by
  unfold CompositeState.begin
  rw [h.status_eq]
  split
  · exact ⟨rfl, fun _ => rfl, h.children⟩
  · exact h

namespace Tree

variable {world later : World A}

theorem start_wait (duration : Duration) (state : (Tree.wait (A := A) duration 0).State)
    (world : World A) (hidle : state.status = .inactive) :
    (Tree.wait duration 0).start state world =
      (⟨.running, world.now, duration, state.random⟩, world) := by
  rw [start, if_neg (by simp [hidle])]
  simp only [Random.waitingTime, if_true]

mutual

theorem start_alike : (tree : Tree A) → (early late : tree.State) → tree.Alike shift early late →
    ⦃world later : World A⦄ → world.Alike shift later →
    Alongside shift (tree.Alike shift) (tree.start early world) (tree.start late later)
  | .action label command, early, late, h => by
    intro world later hworld
    rw [Alike] at h
    rw [start, start, h.2]
    split
    · exact ⟨⟨h.1, rfl⟩, hworld⟩
    · exact ⟨h, hworld⟩
  | .wait duration variance, early, late, h => by
    intro world later hworld
    obtain ⟨rfl, hstatus, htimes⟩ := h
    by_cases hidle : early.status = .inactive
    · rw [start_wait duration early world hidle, start_wait duration late later (hstatus.trans hidle)]
      exact ⟨⟨rfl, rfl, fun _ => ⟨hworld.now_eq, rfl⟩⟩, hworld⟩
    · rw [start, start, if_pos hidle, if_pos (by rwa [hstatus])]
      exact ⟨⟨rfl, hstatus, htimes⟩, hworld⟩
  | .sequence children, early, late, h => by
    intro world later hworld
    rw [Alike] at h
    exact ⟨h.begin, hworld⟩
  | .selector children, early, late, h => by
    intro world later hworld
    rw [Alike] at h
    exact ⟨h.begin, hworld⟩
  | .condition guard policy child, early, late, h => by
    intro world later hworld
    obtain ⟨hstatus, hobserver, hchild⟩ := h
    by_cases hidle : early.status = .inactive
    · obtain ⟨hid, hobserved⟩ := hworld.observe early.observer guard.key
      rw [← hobserver] at hid hobserved
      obtain ⟨hholds, hchecked⟩ := hobserved.judge guard _
      rw [start_condition guard policy child early world hidle Prod.mk.eta.symm Prod.mk.eta.symm,
        start_condition guard policy child late later (hstatus.trans hidle) Prod.mk.eta.symm
          Prod.mk.eta.symm, hid, hholds]
      split
      · exact ⟨⟨rfl, rfl, hchild⟩, hobserved.record (.dismissed _)⟩
      · split
        · have hbelow := startOption_alike child early.child late.child hchild hchecked
          exact ⟨⟨rfl, rfl, hbelow.state⟩, hbelow.world⟩
        · exact ⟨⟨rfl, rfl, hchild⟩, hchecked⟩
    · rw [start, start, if_pos hidle, if_pos (by rwa [hstatus])]
      exact ⟨⟨hstatus, hobserver, hchild⟩, hworld⟩
  | .service label interval callback child, early, late, h => by
    intro world later hworld
    obtain ⟨hstatus, htimer, hchild⟩ := h
    by_cases hidle : early.status = .inactive
    · have hrefreshed := hworld.refresh ⟨world.clock.nextTimer⟩ callback
      have hnext : (⟨later.clock.nextTimer⟩ : TimerId) = shift.timer ⟨world.clock.nextTimer⟩ :=
        congrArg TimerId.mk hworld.clock.nextTimer_eq
      rw [← hnext] at hrefreshed
      obtain ⟨hid, hadded⟩ := hrefreshed.addTimer interval
      have hbelow := startOption_alike child early.child late.child hchild hadded
      rw [start_service label interval callback child early world hidle Prod.mk.eta.symm,
        start_service label interval callback child late later (hstatus.trans hidle)
          Prod.mk.eta.symm, hid]
      exact ⟨⟨rfl, rfl, hbelow.state⟩, hbelow.world⟩
    · rw [start, start, if_pos hidle, if_pos (by rwa [hstatus])]
      exact ⟨⟨hstatus, htimer, hchild⟩, hworld⟩

theorem startOption_alike : (tree : Option (Tree A)) → (early late : StateOption tree) →
    AlikeOption shift tree early late →
    ⦃world later : World A⦄ → world.Alike shift later →
    Alongside shift (AlikeOption shift tree) (startOption tree early world)
      (startOption tree late later)
  | none, _, _, h => fun _ _ hworld => ⟨h, hworld⟩
  | some tree, early, late, h => by
    intro _ _ hworld
    rw [AlikeOption] at h
    exact start_alike tree early late h hworld

end

theorem stop_composite_alike {children : List (Tree A)}
    {early late : CompositeState (StateList children)}
    (h : CompositeState.Alike (AlikeList shift children) early late) (hworld : world.Alike shift later)
    (hbelow : Alongside shift (AlikeList shift children)
      (stopAt children early.current early.children world)
      (stopAt children early.current late.children later)) :
    Alongside shift (CompositeState.Alike (AlikeList shift children))
      ((Tree.sequence children).stop early world) ((Tree.sequence children).stop late later) := by
  by_cases hidle : early.status = .inactive
  · rw [stop, stop, if_pos hidle, if_pos (h.status_eq.trans hidle)]
    exact ⟨h, hworld⟩
  · rw [stop, stop, if_neg hidle, if_neg (by rwa [h.status_eq]), h.current_eq hidle]
    exact ⟨⟨rfl, fun _ => rfl, hbelow.state⟩, hbelow.world⟩

mutual

theorem stop_alike : (tree : Tree A) → (early late : tree.State) → tree.Alike shift early late →
    ⦃world later : World A⦄ → world.Alike shift later →
    Alongside shift (tree.Alike shift) (tree.stop early world) (tree.stop late later)
  | .action _ _, early, late, h => by
    intro _ _ hworld
    rw [Alike] at h
    rw [stop, stop]
    exact ⟨⟨h.1, rfl⟩, hworld⟩
  | .wait _ _, early, late, h => by
    intro _ _ hworld
    rw [Alike] at h
    rw [stop, stop]
    exact ⟨⟨h.1, rfl, fun hactive => absurd rfl hactive⟩, hworld⟩
  | .sequence children, early, late, h => by
    intro world later hworld
    rw [Alike] at h
    exact stop_composite_alike h hworld
      (stopAt_alike children early.current early.children late.children h.children hworld)
  | .selector children, early, late, h => by
    intro world later hworld
    rw [Alike] at h
    rw [stop_selector, stop_selector]
    exact stop_composite_alike h hworld
      (stopAt_alike children early.current early.children late.children h.children hworld)
  | .condition guard policy child, early, late, h => by
    intro world later hworld
    obtain ⟨hstatus, hobserver, hchild⟩ := h
    have hbelow : Alongside shift (AlikeOption shift child)
        (if early.status = .inactive then (early.child, world)
          else stopOption child early.child world)
        (if late.status = .inactive then (late.child, later)
          else stopOption child late.child later) := by
      rw [hstatus]
      split
      · exact ⟨hchild, hworld⟩
      · exact stopOption_alike child early.child late.child hchild hworld
    have hseen := hbelow.world.dismiss? early.observer
    rw [stop_condition guard policy child early world Prod.mk.eta.symm,
      stop_condition guard policy child late later Prod.mk.eta.symm, hobserver]
    split
    · exact ⟨⟨rfl, rfl, hbelow.state⟩, hseen.unsubscribe? early.observer⟩
    · exact ⟨⟨rfl, rfl, hbelow.state⟩, hseen⟩
  | .service label interval callback child, early, late, h => by
    intro world later hworld
    obtain ⟨hstatus, htimer, hchild⟩ := h
    have hcancelled := hworld.cancel? early.timer
    have hbelow := stopOption_alike child early.child late.child hchild hcancelled
    rw [stop_service, stop_service, hstatus, htimer]
    split
    · exact ⟨⟨rfl, rfl, hchild⟩, hcancelled⟩
    · exact ⟨⟨rfl, rfl, hbelow.state⟩, hbelow.world⟩

theorem stopAt_alike : (trees : List (Tree A)) → (i : Nat) → (early late : StateList trees) →
    AlikeList shift trees early late →
    ⦃world later : World A⦄ → world.Alike shift later →
    Alongside shift (AlikeList shift trees) (stopAt trees i early world) (stopAt trees i late later)
  | [], _, _, _, h => fun _ _ hworld => ⟨h, hworld⟩
  | tree :: trees, 0, (early, earlies), (late, lates), h => by
    intro _ _ hworld
    rw [AlikeList] at h
    have hstop := stop_alike tree early late h.1 hworld
    exact ⟨⟨hstop.state, h.2⟩, hstop.world⟩
  | tree :: trees, i + 1, (early, earlies), (late, lates), h => by
    intro _ _ hworld
    rw [AlikeList] at h
    have hrest := stopAt_alike trees i earlies lates h.2 hworld
    exact ⟨⟨h.1, hrest.state⟩, hrest.world⟩

theorem stopOption_alike : (tree : Option (Tree A)) → (early late : StateOption tree) →
    AlikeOption shift tree early late →
    ⦃world later : World A⦄ → world.Alike shift later →
    Alongside shift (AlikeOption shift tree) (stopOption tree early world)
      (stopOption tree late later)
  | none, _, _, h => fun _ _ hworld => ⟨h, hworld⟩
  | some tree, early, late, h => by
    intro _ _ hworld
    rw [AlikeOption] at h
    exact stop_alike tree early late h hworld

end

theorem release_composite_alike {children : List (Tree A)}
    {early late : CompositeState (StateList children)}
    (hstop : Alongside shift (CompositeState.Alike (AlikeList shift children))
      ((Tree.sequence children).stop early world) ((Tree.sequence children).stop late later))
    (hbelow : ∀ earlies lates, AlikeList shift children earlies lates →
      ∀ ⦃world later : World A⦄, world.Alike shift later →
        Alongside shift (AlikeList shift children) (releaseList children earlies world)
          (releaseList children lates later)) :
    Alongside shift (CompositeState.Alike (AlikeList shift children))
      ((Tree.sequence children).release early world)
      ((Tree.sequence children).release late later) := by
  obtain ⟨hstate, hworld⟩ := hstop
  have hreleased := hbelow _ _ hstate.children hworld
  rw [release, release]
  exact ⟨⟨hstate.status_eq, hstate.current_eq, hreleased.state⟩, hreleased.world⟩

mutual

theorem release_alike : (tree : Tree A) → (early late : tree.State) → tree.Alike shift early late →
    ⦃world later : World A⦄ → world.Alike shift later →
    Alongside shift (tree.Alike shift) (tree.release early world) (tree.release late later)
  | .action label command, early, late, h => fun _ _ hworld =>
    stop_alike (.action label command) early late h hworld
  | .wait duration variance, early, late, h => fun _ _ hworld =>
    stop_alike (.wait duration variance) early late h hworld
  | .sequence children, early, late, h => by
    intro world later hworld
    exact release_composite_alike (stop_alike (.sequence children) early late h hworld)
      (releaseList_alike children)
  | .selector children, early, late, h => by
    intro world later hworld
    rw [release_selector, release_selector]
    exact release_composite_alike (stop_alike (.sequence children) early late h hworld)
      (releaseList_alike children)
  | .condition guard policy child, early, late, h => by
    intro world later hworld
    have hstop := stop_alike (.condition guard policy child) early late h hworld
    obtain ⟨hstatus, hobserver, hchild⟩ := hstop.state
    have hbelow := releaseOption_alike child _ _ hchild hstop.world
    have hfreed := hbelow.world.unsubscribe?
      ((Tree.condition guard policy child).stop early world).1.observer
    rw [← hobserver] at hfreed
    rw [release, release]
    exact ⟨⟨hstatus, rfl, hbelow.state⟩, hfreed⟩
  | .service label interval callback child, early, late, h => by
    intro world later hworld
    have hstop := stop_alike (.service label interval callback child) early late h hworld
    obtain ⟨hstatus, htimer, hchild⟩ := hstop.state
    have hbelow := releaseOption_alike child _ _ hchild hstop.world
    rw [release, release]
    exact ⟨⟨hstatus, htimer, hbelow.state⟩, hbelow.world⟩

theorem releaseList_alike : (trees : List (Tree A)) → (early late : StateList trees) →
    AlikeList shift trees early late →
    ⦃world later : World A⦄ → world.Alike shift later →
    Alongside shift (AlikeList shift trees) (releaseList trees early world)
      (releaseList trees late later)
  | [], _, _, h => fun _ _ hworld => ⟨h, hworld⟩
  | tree :: trees, (early, earlies), (late, lates), h => by
    intro _ _ hworld
    rw [AlikeList] at h
    have hfirst := release_alike tree early late h.1 hworld
    have hrest := releaseList_alike trees earlies lates h.2 hfirst.world
    exact ⟨⟨hfirst.state, hrest.state⟩, hrest.world⟩

theorem releaseOption_alike : (tree : Option (Tree A)) → (early late : StateOption tree) →
    AlikeOption shift tree early late →
    ⦃world later : World A⦄ → world.Alike shift later →
    Alongside shift (AlikeOption shift tree) (releaseOption tree early world)
      (releaseOption tree late later)
  | none, _, _, h => fun _ _ hworld => ⟨h, hworld⟩
  | some tree, early, late, h => by
    intro _ _ hworld
    rw [AlikeOption] at h
    exact release_alike tree early late h hworld

end

theorem start_wait_ne (duration : Duration) (state : (Tree.wait (A := A) duration 0).State)
    (world : World A) : ((Tree.wait duration 0).start state world).1.status ≠ .inactive := by
  by_cases hidle : state.status = .inactive
  · rw [start_wait duration state world hidle]
    simp
  · rw [start, if_pos hidle]
    exact hidle

mutual

theorem preempts_alike : (tree : Tree A) → (early late : tree.State) → tree.Alike shift early late →
    ⦃world later : World A⦄ → world.Alike shift later →
    (tree.preempts late later).1 = (tree.preempts early world).1 ∧
      (tree.preempts early world).2.Alike shift (tree.preempts late later).2
  | .action _ _, _, _, _ => fun _ _ hworld => ⟨rfl, hworld⟩
  | .wait _ _, _, _, _ => fun _ _ hworld => ⟨rfl, hworld⟩
  | .sequence _, _, _, _ => fun _ _ hworld => ⟨rfl, hworld⟩
  | .selector _, _, _, _ => fun _ _ hworld => ⟨rfl, hworld⟩
  | .condition guard policy child, early, late, h => by
    intro world later hworld
    obtain ⟨hstatus, hobserver, -⟩ := h
    obtain ⟨hholds, hasked⟩ := hworld.startedHolding guard early.observer
    rw [preempts, preempts, hstatus, hobserver]
    split
    · exact ⟨rfl, hworld⟩
    · split
      · exact ⟨rfl, hworld⟩
      · dsimp only
        rw [hholds]
        exact ⟨rfl, hasked⟩
  | .service _ _ _ child, early, late, h => by
    intro world later hworld
    rw [preempts, preempts]
    exact preemptsOption_alike child early.child late.child h.2.2 hworld

theorem preemptsOption_alike : (tree : Option (Tree A)) → (early late : StateOption tree) →
    AlikeOption shift tree early late →
    ⦃world later : World A⦄ → world.Alike shift later →
    (preemptsOption tree late later).1 = (preemptsOption tree early world).1 ∧
      (preemptsOption tree early world).2.Alike shift (preemptsOption tree late later).2
  | none, _, _, _ => fun _ _ hworld => ⟨rfl, hworld⟩
  | some tree, early, late, h => by
    intro _ _ hworld
    rw [AlikeOption] at h
    exact preempts_alike tree early late h hworld

end

theorem firstPreempting_alike (trees : List (Tree A)) (limit : Nat) (early late : StateList trees)
    (h : AlikeList shift trees early late) (hworld : world.Alike shift later) :
    (firstPreempting trees limit late later).1 = (firstPreempting trees limit early world).1 ∧
      (firstPreempting trees limit early world).2.Alike shift
        (firstPreempting trees limit late later).2 := by
  induction trees generalizing limit world later with
  | nil => exact ⟨rfl, hworld⟩
  | cons tree trees ih =>
    obtain ⟨early, earlies⟩ := early
    obtain ⟨late, lates⟩ := late
    cases limit with
    | zero => exact ⟨rfl, hworld⟩
    | succ limit =>
      rw [AlikeList] at h
      have hfirst := preempts_alike tree early late h.1 hworld
      rw [firstPreempting, firstPreempting]
      rcases hask : tree.preempts early world with ⟨found, asked⟩
      rcases hask' : tree.preempts late later with ⟨found', asked'⟩
      rw [hask, hask'] at hfirst
      obtain ⟨rfl, hasked⟩ := hfirst
      cases found' with
      | some preemption => exact ⟨rfl, hasked⟩
      | none =>
        obtain ⟨hfound, hrest⟩ := ih limit earlies lates h.2 hasked
        exact ⟨congrArg (Option.map _) hfound, hrest⟩

theorem settle_alike {trees : List (Tree A)} (outcome : Outcome) (current : Nat)
    {early late : StateList trees} (h : AlikeList shift trees early late)
    (hworld : world.Alike shift later) :
    (settle trees outcome current late later).1 = (settle trees outcome current early world).1 ∧
      Alongside shift (CompositeState.Alike (AlikeList shift trees))
        (settle trees outcome current early world).2
        (settle trees outcome current late later).2 := by
  by_cases hrun : outcome = .running
  · rw [settle, settle, if_pos hrun, if_pos hrun]
    exact ⟨rfl, ⟨rfl, fun _ => rfl, h⟩, hworld⟩
  · have hbelow := releaseList_alike trees early late h hworld
    rw [settle, settle, if_neg hrun, if_neg hrun]
    exact ⟨rfl, ⟨rfl, fun _ => rfl, hbelow.state⟩, hbelow.world⟩

theorem arbitrate_alike (children : List (Tree A)) {early late : CompositeState (StateList children)}
    (h : CompositeState.Alike (AlikeList shift children) early late)
    (hactive : early.status ≠ .inactive) (hworld : world.Alike shift later) :
    (arbitrate children late later).1 = (arbitrate children early world).1 ∧
      Alongside shift (AlikeList shift children) (arbitrate children early world).2
        (arbitrate children late later).2 := by
  have hasked := firstPreempting_alike children early.current early.children late.children h.children
    hworld
  unfold arbitrate
  rw [h.current_eq hactive]
  rcases hask : firstPreempting children early.current early.children world with ⟨found, asked⟩
  rcases hask' : firstPreempting children early.current late.children later with ⟨found', asked'⟩
  rw [hask, hask'] at hasked
  obtain ⟨rfl, hasked⟩ := hasked
  cases found' with
  | none => exact ⟨rfl, h.children, hasked⟩
  | some takeover =>
    obtain ⟨winner, preemption⟩ := takeover
    have hstop := stopAt_alike children early.current early.children late.children h.children
      (hasked.record (.preempted winner early.current preemption))
    exact ⟨rfl, hstop.state, hstop.world⟩

theorem tickRest_alike {goOn : Outcome} {trees : List (Tree A)} {current : Nat}
    {early late : StateList trees}
    (h : (tickFrom goOn trees current late later).1 = (tickFrom goOn trees current early world).1 ∧
      (tickFrom goOn trees current late later).2.1 = (tickFrom goOn trees current early world).2.1 ∧
      Alongside shift (AlikeList shift trees) (tickFrom goOn trees current early world).2.2
        (tickFrom goOn trees current late later).2.2) :
    (tickRest goOn trees current late later).1 = (tickRest goOn trees current early world).1 ∧
      Alongside shift (CompositeState.Alike (AlikeList shift trees))
        (tickRest goOn trees current early world).2
        (tickRest goOn trees current late later).2 := by
  unfold tickRest
  rcases htick : tickFrom goOn trees current early world with ⟨outcome, next, ticked, after⟩
  rcases htick' : tickFrom goOn trees current late later with ⟨outcome', next', ticked', after'⟩
  rw [htick, htick'] at h
  obtain ⟨rfl, rfl, hticked⟩ := h
  exact settle_alike outcome' next' hticked.state hticked.world

mutual

theorem tick_alike : (tree : Tree A) → (early late : tree.State) → tree.Alike shift early late →
    ⦃world later : World A⦄ → world.Alike shift later →
    (tree.tick late later).1 = (tree.tick early world).1 ∧
      Alongside shift (tree.Alike shift) (tree.tick early world).2 (tree.tick late later).2
  | .action label command, early, late, h => by
    intro world later hworld
    obtain ⟨hfixed, hstatus⟩ := h
    rw [tick, tick, hstatus]
    split
    · exact ⟨rfl, ⟨hfixed, hstatus⟩, hworld⟩
    · cases command with
      | always effect =>
        exact ⟨rfl, ⟨hfixed, rfl⟩, (hworld.record (.acted label)).mapAgent effect⟩
      | drawn _ _ _ => exact hfixed.elim
  | .wait duration variance, early, late, h => by
    intro world later hworld
    have hbegun := start_alike (.wait duration variance) early late h hworld
    have hzero : variance = 0 := h.1
    subst hzero
    have hactive := start_wait_ne duration early world
    rw [tick, tick]
    rcases hstart : (Tree.wait duration 0).start early world with ⟨started, begun⟩
    rcases hstart' : (Tree.wait duration 0).start late later with ⟨started', begun'⟩
    rw [hstart, hstart'] at hbegun
    rw [hstart] at hactive
    obtain ⟨⟨-, hstatus, htimes⟩, hbegun⟩ := hbegun
    obtain ⟨hsince, htarget⟩ := htimes hactive
    dsimp only at hstatus hsince htarget hbegun ⊢
    rw [hstatus, hsince, htarget, hbegun.now_eq, Nat.add_sub_add_right]
    split
    · exact ⟨rfl, ⟨rfl, hstatus, htimes⟩, hbegun⟩
    · split
      · exact ⟨rfl, ⟨rfl, hstatus, htimes⟩, hbegun⟩
      · exact ⟨rfl, ⟨rfl, rfl, fun _ => ⟨rfl, rfl⟩⟩, hbegun⟩
  | .sequence children, early, late, h => by
    intro world later hworld
    rw [Alike] at h
    have hbegin := h.begin
    rw [tick_sequence, tick_sequence, hbegin.status_eq]
    cases houtcome : early.begin.status.outcome? with
    | some outcome => exact ⟨rfl, hbegin, hworld⟩
    | none =>
      have hactive : early.begin.status ≠ .inactive := by simp [early.begin_running houtcome]
      rw [hbegin.current_eq hactive]
      exact tickRest_alike (tickFrom_alike .success children early.begin.current early.begin.children
        late.begin.children hbegin.children hworld)
  | .selector children, early, late, h => by
    intro world later hworld
    rw [Alike] at h
    have hbegin := h.begin
    rw [tick_selector, tick_selector, hbegin.status_eq]
    cases houtcome : early.begin.status.outcome? with
    | some outcome => exact ⟨rfl, hbegin, hworld⟩
    | none =>
      have hactive : early.begin.status ≠ .inactive := by simp [early.begin_running houtcome]
      have harb := arbitrate_alike children hbegin hactive hworld
      rcases hdecide : arbitrate children early.begin world with ⟨next, states, asked⟩
      rcases hdecide' : arbitrate children late.begin later with ⟨next', states', asked'⟩
      rw [hdecide, hdecide'] at harb
      obtain ⟨rfl, hgo⟩ := harb
      cases next' with
      | some current =>
        exact tickRest_alike (tickFrom_alike .fail children current states states' hgo.state hgo.world)
      | none =>
        dsimp only
        rw [hbegin.current_eq hactive]
        exact settle_alike .fail early.begin.current hgo.state hgo.world
  | .condition guard policy child, early, late, h => by
    intro world later hworld
    have hbegun := start_alike (.condition guard policy child) early late h hworld
    rcases hstart : (Tree.condition guard policy child).start early world with ⟨started, begun⟩
    rcases hstart' : (Tree.condition guard policy child).start late later with ⟨started', begun'⟩
    rw [hstart, hstart'] at hbegun
    obtain ⟨⟨hstatus, hobserver, hchild⟩, hbegun⟩ := hbegun
    dsimp only at hstatus hobserver hchild hbegun
    have hchecked := hbegun.abortCheck guard policy started.observer
    rw [← hobserver] at hchecked
    rcases hbroken : (if policy.abortsSelf then begun.stoppedHolding guard started.observer
      else (false, begun)) with ⟨broken, checked⟩
    rcases hbroken' : (if policy.abortsSelf then begun'.stoppedHolding guard started'.observer
      else (false, begun')) with ⟨broken', checked'⟩
    rw [hbroken, hbroken'] at hchecked
    obtain ⟨rfl, hchecked⟩ := hchecked
    rw [tick_condition guard policy child early world hstart hbroken,
      tick_condition guard policy child late later hstart' hbroken', hstatus]
    cases started.status.outcome? with
    | some outcome => exact ⟨rfl, ⟨hstatus, hobserver, hchild⟩, hbegun⟩
    | none =>
      dsimp only
      split
      · have hstop := stopOption_alike child started.child started'.child hchild hchecked
        exact ⟨rfl, ⟨rfl, hobserver, hstop.state⟩, hstop.world⟩
      · obtain ⟨houtcome, hticked⟩ :=
          tickOption_alike child started.child started'.child hchild hchecked
        exact ⟨houtcome, ⟨congrArg Outcome.status houtcome, hobserver, hticked.state⟩, hticked.world⟩
  | .service label interval callback child, early, late, h => by
    intro world later hworld
    have hbegun := start_alike (.service label interval callback child) early late h hworld
    rcases hstart : (Tree.service label interval callback child).start early world with
      ⟨started, begun⟩
    rcases hstart' : (Tree.service label interval callback child).start late later with
      ⟨started', begun'⟩
    rw [hstart, hstart'] at hbegun
    obtain ⟨⟨hstatus, htimer, hchild⟩, hbegun⟩ := hbegun
    dsimp only at hstatus htimer hchild hbegun
    rw [tick_service label interval callback child early world hstart,
      tick_service label interval callback child late later hstart', hstatus]
    cases started.status.outcome? with
    | some outcome => exact ⟨rfl, ⟨hstatus, htimer, hchild⟩, hbegun⟩
    | none =>
      obtain ⟨houtcome, hticked⟩ := tickOption_alike child started.child started'.child hchild hbegun
      exact ⟨houtcome, ⟨congrArg Outcome.status houtcome, htimer, hticked.state⟩, hticked.world⟩

theorem tickFrom_alike : (goOn : Outcome) → (trees : List (Tree A)) → (i : Nat) →
    (early late : StateList trees) → AlikeList shift trees early late →
    ⦃world later : World A⦄ → world.Alike shift later →
    (tickFrom goOn trees i late later).1 = (tickFrom goOn trees i early world).1 ∧
      (tickFrom goOn trees i late later).2.1 = (tickFrom goOn trees i early world).2.1 ∧
      Alongside shift (AlikeList shift trees) (tickFrom goOn trees i early world).2.2
        (tickFrom goOn trees i late later).2.2
  | goOn, [], _, _, _, h => fun _ _ hworld => ⟨rfl, rfl, h, hworld⟩
  | goOn, tree :: trees, 0, (early, earlies), (late, lates), h => by
    intro world later hworld
    rw [AlikeList] at h
    have hticked := tick_alike tree early late h.1 hworld
    rcases htick : tree.tick early world with ⟨outcome, ticked, after⟩
    rcases htick' : tree.tick late later with ⟨outcome', ticked', after'⟩
    rw [htick, htick'] at hticked
    obtain ⟨rfl, hticked⟩ := hticked
    have hstop := stop_alike tree ticked ticked' hticked.state hticked.world
    rw [tickFrom_zero goOn tree trees early earlies world htick,
      tickFrom_zero goOn tree trees late lates later htick']
    by_cases hrun : outcome' = .running
    · rw [if_pos hrun, if_pos hrun]
      exact ⟨rfl, rfl, ⟨hticked.state, h.2⟩, hticked.world⟩
    · rw [if_neg hrun, if_neg hrun]
      by_cases hgo : outcome' = goOn
      · rw [if_pos hgo, if_pos hgo]
        obtain ⟨houtcome, hcurrent, hrest⟩ :=
          tickFrom_alike goOn trees 0 earlies lates h.2 hstop.world
        exact ⟨houtcome, congrArg (· + 1) hcurrent, ⟨hstop.state, hrest.state⟩, hrest.world⟩
      · rw [if_neg hgo, if_neg hgo]
        exact ⟨rfl, rfl, ⟨hstop.state, h.2⟩, hstop.world⟩
  | goOn, tree :: trees, i + 1, (early, earlies), (late, lates), h => by
    intro world later hworld
    rw [AlikeList] at h
    obtain ⟨houtcome, hcurrent, hrest⟩ := tickFrom_alike goOn trees i earlies lates h.2 hworld
    exact ⟨houtcome, congrArg (· + 1) hcurrent, ⟨h.1, hrest.state⟩, hrest.world⟩

theorem tickOption_alike : (tree : Option (Tree A)) → (early late : StateOption tree) →
    AlikeOption shift tree early late →
    ⦃world later : World A⦄ → world.Alike shift later →
    (tickOption tree late later).1 = (tickOption tree early world).1 ∧
      Alongside shift (AlikeOption shift tree) (tickOption tree early world).2
        (tickOption tree late later).2
  | none, _, _, h => fun _ _ hworld => ⟨rfl, h, hworld⟩
  | some tree, early, late, h => by
    intro _ _ hworld
    rw [AlikeOption] at h
    exact tick_alike tree early late h hworld

end

theorem timer_iff {early late : Option TimerId} (h : late = early.map shift.timer) (id : TimerId) :
    late = some (shift.timer id) ↔ early = some id := by
  rw [h]
  cases early <;> simp

mutual

theorem fire_alike : (tree : Tree A) → (early late : tree.State) → (id : TimerId) →
    tree.Alike shift early late →
    ⦃world later : World A⦄ → world.Alike shift later →
    (tree.fire late (shift.timer id) later).1 = (tree.fire early id world).1 ∧
      (tree.fire early id world).2.Alike shift (tree.fire late (shift.timer id) later).2
  | .action _ _, _, _, _, _ => fun _ _ hworld => ⟨rfl, hworld⟩
  | .wait _ _, _, _, _, _ => fun _ _ hworld => ⟨rfl, hworld⟩
  | .sequence children, early, late, id, h => by
    intro world later hworld
    rw [Alike] at h
    rw [fire, fire, h.status_eq]
    split
    · rename_i hrun
      rw [h.current_eq (by simp [hrun])]
      exact fireAt_alike children early.current early.children late.children id h.children hworld
    · exact ⟨rfl, hworld⟩
  | .selector children, early, late, id, h => by
    intro world later hworld
    rw [Alike] at h
    rw [fire, fire, h.status_eq]
    split
    · rename_i hrun
      rw [h.current_eq (by simp [hrun])]
      exact fireAt_alike children early.current early.children late.children id h.children hworld
    · exact ⟨rfl, hworld⟩
  | .condition _ _ child, early, late, id, h => by
    intro world later hworld
    obtain ⟨hstatus, -, hchild⟩ := h
    rw [fire, fire, hstatus]
    split
    · exact ⟨rfl, hworld⟩
    · exact fireOption_alike child early.child late.child id hchild hworld
  | .service _ _ callback child, early, late, id, h => by
    intro world later hworld
    obtain ⟨hstatus, htimer, hchild⟩ := h
    rw [fire, fire, hstatus]
    simp only [timer_iff htimer]
    split
    · exact ⟨rfl, hworld⟩
    · split
      · exact ⟨rfl, hworld.refresh id callback⟩
      · exact fireOption_alike child early.child late.child id hchild hworld

theorem fireAt_alike : (trees : List (Tree A)) → (i : Nat) → (early late : StateList trees) →
    (id : TimerId) → AlikeList shift trees early late →
    ⦃world later : World A⦄ → world.Alike shift later →
    (fireAt trees i late (shift.timer id) later).1 = (fireAt trees i early id world).1 ∧
      (fireAt trees i early id world).2.Alike shift (fireAt trees i late (shift.timer id) later).2
  | [], _, _, _, _, _ => fun _ _ hworld => ⟨rfl, hworld⟩
  | tree :: trees, 0, (early, earlies), (late, lates), id, h => by
    intro _ _ hworld
    rw [AlikeList] at h
    exact fire_alike tree early late id h.1 hworld
  | tree :: trees, i + 1, (early, earlies), (late, lates), id, h => by
    intro _ _ hworld
    rw [AlikeList] at h
    exact fireAt_alike trees i earlies lates id h.2 hworld

theorem fireOption_alike : (tree : Option (Tree A)) → (early late : StateOption tree) →
    (id : TimerId) → AlikeOption shift tree early late →
    ⦃world later : World A⦄ → world.Alike shift later →
    (fireOption tree late (shift.timer id) later).1 = (fireOption tree early id world).1 ∧
      (fireOption tree early id world).2.Alike shift
        (fireOption tree late (shift.timer id) later).2
  | none, _, _, _, _ => fun _ _ hworld => ⟨rfl, hworld⟩
  | some tree, early, late, id, h => by
    intro _ _ hworld
    rw [AlikeOption] at h
    exact fire_alike tree early late id h hworld

end

end Tree

end BehaviorTree
