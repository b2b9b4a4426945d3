import BehaviorTree.Proofs.Equivalence.Likeness

namespace BehaviorTree

variable {A : Type} {bond : Bond}

/-- The program does nothing. -/
def Routine.Idle (callback : Routine A) : Prop := ∀ world : World A, callback.run world = world

theorem World.refresh_idle {callback : Routine A} (h : callback.Idle) (world : World A)
    (timer : TimerId) : world.refresh timer callback = world.record (.refreshed timer world.now) :=
  h _

theorem Link.timer_not_mem_observers (key : String) (left right : Option ObserverId)
    (a b : Option TimerId) : Link.timer a b ∉ Link.observers key left right := by
  cases left <;> cases right <;> simp [Link.observers]

namespace Tree

variable {tree other : Tree A} {world world' : World A} {links more : Multiset Link}

section Condition

variable (child : Likeness bond tree other) (guard : Guard) (policy : RestartPolicy)
variable {state : (Tree.condition guard policy (some tree)).State}
variable {state' : (Tree.condition guard policy (some other)).State}

/-- The observers of two conditions are in step. The children need not be, while the conditions are
inactive. -/
def ConditionClose : Tie (ConditionState tree.State) (ConditionState other.State) :=
  fun state state' links =>
    state.status = state'.status ∧ state.observer.isSome = state'.observer.isSome ∧
      ∃ below, links = Link.observers guard.key state.observer state'.observer + below ∧
        child.Near state.child state'.child below ∧
        (state.status = .inactive → Slumber tree.rest other.rest state.child state'.child below)

variable {child guard policy}

theorem ConditionClose.sleep (hidle : state.status = .inactive)
    (h : Beside bond (ConditionClose child guard) more (state, world) (state', world')) :
    Beside bond (Slumber (Tree.condition guard policy (some tree)).rest
      (Tree.condition guard policy (some other)).rest) more (state, world) (state', world') := by
  obtain ⟨_, ⟨hstatus, -, below, rfl, -, hslumber⟩, hlinked⟩ := h
  have hbelow := hslumber hidle
  rw [add_assoc] at hlinked
  have hloose := hlinked.unpair
  refine ⟨_, ⟨⟨hidle, hbelow.left⟩, ⟨hstatus ▸ hidle, hbelow.right⟩, hbelow.leaves_eq, rfl⟩, ?_⟩
  rw [hbelow.links_eq, ← add_assoc, ← add_assoc, add_add_add_comm] at hloose
  simpa only [rest, loose, looseOption, Link.swaps_add, Link.swaps_observers] using hloose

theorem ConditionClose.slumber
    (h : Beside bond (Slumber (Tree.condition guard policy (some tree)).rest
      (Tree.condition guard policy (some other)).rest) more (state, world) (state', world')) :
    state.status = .inactive ∧ state'.status = .inactive ∧
      ∃ below, Slumber tree.rest other.rest state.child state'.child below ∧
        World.Linked bond (Link.observers guard.key state.observer none +
          (Link.observers guard.key none state'.observer + (below + more))) world world' := by
  obtain ⟨_, hslumber, hlinked⟩ := h
  refine ⟨hslumber.left.1, hslumber.right.1, _,
    ⟨hslumber.left.2, hslumber.right.2, hslumber.leaves_eq, rfl⟩, ?_⟩
  rw [hslumber.links_eq] at hlinked
  simp only [rest, loose, looseOption, Link.swaps_add, Link.swaps_observers] at hlinked
  rwa [add_add_add_comm, add_assoc, add_assoc] at hlinked

variable (child guard policy)

def Resemblance.condition : Resemblance bond (.condition guard policy (some tree))
    (.condition guard policy (some other)) where
  Close := ConditionClose child guard
  fit := by
    rintro state state' links ⟨-, -, below, -, hnear, hslumber⟩
    exact ⟨hnear.fit, fun hidle => (hslumber hidle).left⟩
  calm := by
    rintro state state' links ⟨-, -, below, rfl, -, hslumber⟩ hquiet a b hmem
    obtain hmem | hmem := Multiset.mem_add.mp hmem
    · exact Link.timer_not_mem_observers _ _ _ a b hmem
    · exact (hslumber hquiet.1).timer_not_mem a b hmem
  sleep hquiet _ h := ConditionClose.sleep hquiet.1 h
  length_eq state state' := child.length_eq state.child state'.child
  fresh_eq random := child.fresh_eq random
  preempts := by
    rintro state state' world world' links more hquiet hquiet' ⟨-, hsome, below, rfl, -, -⟩ hlinked
    rw [add_assoc] at hlinked ⊢
    rw [Tree.preempts, Tree.preempts]
    split
    · exact ⟨rfl, hlinked⟩
    · rw [if_neg (not_not.mpr hquiet.1), if_neg (not_not.mpr hquiet'.1)]
      obtain ⟨hholds, hasked⟩ := hlinked.startedHolding hsome guard
      dsimp only
      rw [hholds]
      exact ⟨rfl, hasked⟩
  fire := by
    rintro state state' links more a b ⟨hstatus, -, below, rfl, hnear, hslumber⟩ hmem
    have hbelow := (Multiset.mem_add.mp hmem).resolve_left (Link.timer_not_mem_observers _ _ _ a b)
    have hactive : state.status ≠ .inactive := fun hidle =>
      (hslumber hidle).timer_not_mem a b hbelow
    have hfire : (Tree.condition guard policy (some tree)).fire state = tree.fire state.child := by
      funext id world
      rw [Tree.fire, if_neg hactive]
      rfl
    have hfire' : (Tree.condition guard policy (some other)).fire state' = other.fire state'.child := by
      funext id world
      rw [Tree.fire, if_neg (hstatus ▸ hactive)]
      rfl
    rw [hfire, hfire', add_comm (Link.observers _ _ _), add_assoc]
    exact hnear.fire hbelow

variable {child guard policy}

theorem condition_start
    (h : Beside bond (Resemblance.condition child guard policy).Near more (state, world)
      (state', world')) :
    Beside bond (ConditionClose child guard) more
      ((Tree.condition guard policy (some tree)).start state world)
      ((Tree.condition guard policy (some other)).start state' world') := by
  obtain ⟨links, hnear, hlinked⟩ := h
  by_cases hactive : state.status ≠ .inactive
  · obtain hclose | hslumber := hnear
    · have hactive' : state'.status ≠ .inactive := hclose.1 ▸ hactive
      rw [Tree.start, Tree.start, if_pos hactive, if_pos hactive']
      exact ⟨links, hclose, hlinked⟩
    · exact absurd hslumber.left.1 hactive
  · have hidle := not_not.mp hactive
    have hasleep : Beside bond (Slumber (Tree.condition guard policy (some tree)).rest
        (Tree.condition guard policy (some other)).rest) more (state, world) (state', world') := by
      obtain hclose | hslumber := hnear
      · exact ConditionClose.sleep hidle ⟨links, hclose, hlinked⟩
      · exact ⟨links, hslumber, hlinked⟩
    obtain ⟨-, hidle', below, hbelow, hloose⟩ := ConditionClose.slumber hasleep
    obtain ⟨hholds, hjudged⟩ := hloose.observe.judge guard (world.observe state.observer guard.key).1
      (world'.observe state'.observer guard.key).1
    rw [Tree.start_condition guard policy (some tree) state world hidle Prod.mk.eta.symm
        Prod.mk.eta.symm,
      Tree.start_condition guard policy (some other) state' world' hidle' Prod.mk.eta.symm
        Prod.mk.eta.symm, hholds]
    simp only [Option.isNone_some, Bool.false_eq_true, if_false]
    split
    · rw [add_left_comm] at hjudged
      obtain ⟨started, hclose, hstarted⟩ := child.start ⟨below, .inr hbelow, hjudged⟩
      refine ⟨_, ⟨rfl, rfl, started, rfl, .inl hclose, fun hidle => nomatch hidle⟩, ?_⟩
      rw [add_assoc, add_left_comm]
      exact hstarted
    · refine ⟨_, ⟨rfl, rfl, below, rfl, .inr hbelow, fun _ => hbelow⟩, ?_⟩
      rw [add_assoc]
      exact hjudged

theorem condition_tick
    (h : Beside bond (Resemblance.condition child guard policy).Near more (state, world)
      (state', world'))
    (hover : bond.Allows ((Tree.condition guard policy (some tree)).tick state world).2.2) :
    ((Tree.condition guard policy (some tree)).tick state world).1 =
        ((Tree.condition guard policy (some other)).tick state' world').1 ∧
      Beside bond (ConditionClose child guard) more
        ((Tree.condition guard policy (some tree)).tick state world).2
        ((Tree.condition guard policy (some other)).tick state' world').2 := by
  have hstart := condition_start h
  rcases hbegun : (Tree.condition guard policy (some tree)).start state world with ⟨started, begun⟩
  rcases hbegun' : (Tree.condition guard policy (some other)).start state' world' with
    ⟨started', begun'⟩
  rw [hbegun, hbegun'] at hstart
  obtain ⟨_, ⟨hstatus, hsome, below, rfl, hnear, hslumber⟩, hlinked⟩ := hstart
  dsimp only at hstatus hsome hnear hslumber hlinked
  have hchecked : (if policy.abortsSelf then begun.stoppedHolding guard started.observer
        else (false, begun)).1 = (if policy.abortsSelf then begun'.stoppedHolding guard started'.observer
        else (false, begun')).1 ∧
      World.Linked bond (Link.observers guard.key started.observer started'.observer + (below + more))
        (if policy.abortsSelf then begun.stoppedHolding guard started.observer else (false, begun)).2
        (if policy.abortsSelf then begun'.stoppedHolding guard started'.observer
          else (false, begun')).2 := by
    rw [add_assoc] at hlinked
    split
    · exact hlinked.stoppedHolding hsome guard
    · exact ⟨rfl, hlinked⟩
  rcases hbroken : (if policy.abortsSelf then begun.stoppedHolding guard started.observer
    else (false, begun)) with ⟨broken, checked⟩
  rcases hbroken' : (if policy.abortsSelf then begun'.stoppedHolding guard started'.observer
    else (false, begun')) with ⟨broken', checked'⟩
  rw [hbroken, hbroken'] at hchecked
  obtain ⟨rfl, hchecked⟩ := hchecked
  rw [tick_condition guard policy (some tree) state world hbegun hbroken] at hover ⊢
  rw [tick_condition guard policy (some other) state' world' hbegun' hbroken']
  rw [hstatus] at hover ⊢
  cases houtcome : started'.status.outcome? with
  | some outcome => exact ⟨rfl, _, ⟨hstatus, hsome, below, rfl, hnear, hslumber⟩, hlinked⟩
  | none =>
    rw [houtcome] at hover
    dsimp only at hover hchecked ⊢
    rw [add_left_comm] at hchecked
    by_cases hstop : broken = true
    · obtain ⟨below, hslumber, hstopped⟩ := child.substitute.stop_near ⟨_, hnear, hchecked⟩
      rw [if_pos hstop, if_pos hstop]
      refine ⟨rfl, _, ⟨rfl, hsome, below, rfl, .inr hslumber, fun _ => hslumber⟩, ?_⟩
      rw [add_assoc, add_left_comm]
      exact hstopped
    · rw [if_neg hstop] at hover
      obtain ⟨hsame, below, hclose, hticked⟩ := child.tick ⟨_, hnear, hchecked⟩ hover
      rw [if_neg hstop, if_neg hstop]
      refine ⟨hsame, _, ⟨congrArg Outcome.status hsame, hsome, below, rfl, .inl hclose,
        fun hidle => absurd hidle (Outcome.status_ne_inactive _)⟩, ?_⟩
      rw [add_assoc, add_left_comm]
      exact hticked

theorem condition_stop
    (h : Beside bond (ConditionClose child guard) more (state, world) (state', world')) :
    Beside bond (Resemblance.condition child guard policy).Idle more
      ((Tree.condition guard policy (some tree)).stop state world)
      ((Tree.condition guard policy (some other)).stop state' world') := by
  obtain ⟨_, ⟨hstatus, hsome, below, rfl, hnear, hslumber⟩, hlinked⟩ := h
  rw [add_comm (Link.observers _ _ _), add_assoc] at hlinked
  have hbelow : Beside bond (Slumber tree.rest other.rest)
      (Link.observers guard.key state.observer state'.observer + more)
      (if state.status = .inactive then (state.child, world) else tree.stop state.child world)
      (if state'.status = .inactive then (state'.child, world')
        else other.stop state'.child world') := by
    rw [← hstatus]
    split
    · rename_i hidle
      exact ⟨below, hslumber hidle, hlinked⟩
    · exact child.substitute.stop_near ⟨below, hnear, hlinked⟩
  obtain ⟨resting, hresting, hstopped⟩ := hbelow
  rw [add_left_comm] at hstopped
  have hdismissed := hstopped.dismiss?
  rw [Tree.stop_condition guard policy (some tree) state world Prod.mk.eta.symm,
    Tree.stop_condition guard policy (some other) state' world' Prod.mk.eta.symm]
  split
  · refine ⟨0 + resting, ⟨⟨rfl, rfl, resting, rfl, .inr hresting, fun _ => hresting⟩,
      ⟨rfl, hresting.left⟩, ⟨rfl, hresting.right⟩⟩, ?_⟩
    rw [zero_add]
    exact hdismissed.unsubscribe?
  · refine ⟨_, ⟨⟨rfl, hsome, resting, rfl, .inr hresting, fun _ => hresting⟩,
      ⟨rfl, hresting.left⟩, ⟨rfl, hresting.right⟩⟩, ?_⟩
    rw [add_assoc]
    exact hdismissed

variable (child guard policy)

def Likeness.condition : Likeness bond (.condition guard policy (some tree))
    (.condition guard policy (some other)) where
  toResemblance := Resemblance.condition child guard policy
  status_eq h := h.1
  start := condition_start
  tick := condition_tick
  stop := condition_stop

end Condition

section Service

variable (child : Likeness bond tree other) (label : String) (interval : Duration)
variable (callback : Routine A)
variable {state : (Tree.service label interval callback (some tree)).State}
variable {state' : (Tree.service label interval callback (some other)).State}

/-- Both services have a timer or neither, and the children are in step. -/
def ServiceClose : Tie (ServiceState tree.State) (ServiceState other.State) :=
  fun state state' links =>
    state.status = state'.status ∧
      (state.status = .inactive → state.timer = none ∧ state'.timer = none ∧
        tree.Quiet state.child ∧ other.Quiet state'.child) ∧
      (state.status ≠ .inactive → state.timer.isSome = true ∧ state'.timer.isSome = true) ∧
      ∃ below, links = Link.timers state.timer state'.timer + below ∧
        child.Close state.child state'.child below

variable {child}

theorem ServiceClose.isSome_eq {state : ServiceState tree.State} {state' : ServiceState other.State}
    (h : ServiceClose child state state' links) : state.timer.isSome = state'.timer.isSome := by
  obtain ⟨-, hidle, hactive, -⟩ := h
  by_cases hstatus : state.status = .inactive
  · rw [(hidle hstatus).1, (hidle hstatus).2.1]
  · rw [(hactive hstatus).1, (hactive hstatus).2]

theorem ServiceClose.of_active {state : ServiceState tree.State} {state' : ServiceState other.State}
    {below : Multiset Link} (hstatus : state.status = state'.status)
    (hactive : state.status ≠ .inactive)
    (htimers : state.timer.isSome = true ∧ state'.timer.isSome = true)
    (hbelow : child.Close state.child state'.child below) :
    ServiceClose child state state' (Link.timers state.timer state'.timer + below) :=
  ⟨hstatus, fun hidle => absurd hidle hactive, fun _ => htimers, below, rfl, hbelow⟩

theorem ServiceClose.below {state : ServiceState tree.State} {state' : ServiceState other.State}
    (h : ServiceClose child state state' links) (hidle : state.status = .inactive) :
    child.Idle state.child state'.child links := by
  obtain ⟨-, hresting, -, below, rfl, hclose⟩ := h
  obtain ⟨htimer, htimer', hquiet⟩ := hresting hidle
  rw [htimer, htimer', Link.timers_none, zero_add]
  exact ⟨hclose, hquiet⟩

theorem slumber_service (h : Slumber tree.rest other.rest state.child state'.child links)
    (hidle : state.status = .inactive ∧ state.timer = none)
    (hidle' : state'.status = .inactive ∧ state'.timer = none) :
    Slumber (Tree.service label interval callback (some tree)).rest
      (Tree.service label interval callback (some other)).rest state state' links :=
  ⟨⟨hidle.1, hidle.2, h.left⟩, ⟨hidle'.1, hidle'.2, h.right⟩, h.leaves_eq, h.links_eq⟩

theorem slumber_service_below (h : Slumber (Tree.service label interval callback (some tree)).rest
      (Tree.service label interval callback (some other)).rest state state' links) :
    Slumber tree.rest other.rest state.child state'.child links :=
  ⟨h.left.2.2, h.right.2.2, h.leaves_eq, h.links_eq⟩

theorem fire_service {timer : TimerId} (hactive : state.status ≠ .inactive)
    (htimer : state.timer ≠ some timer) (world : World A) :
    (Tree.service label interval callback (some tree)).fire state timer world =
      tree.fire state.child timer world := by
  rw [Tree.fire, if_neg hactive, if_neg htimer]
  rfl

theorem fire_service_own {timer : TimerId} (hactive : state.status ≠ .inactive)
    (htimer : state.timer = some timer) (world : World A) :
    (Tree.service label interval callback (some tree)).fire state timer world =
      (true, world.refresh timer callback) := by
  rw [Tree.fire, if_neg hactive, if_pos htimer]

variable (child)

def Resemblance.service : Resemblance bond (.service label interval callback (some tree))
    (.service label interval callback (some other)) where
  Close := ServiceClose child
  fit := by
    rintro state state' links ⟨-, hidle, hactive, below, -, hclose⟩
    exact ⟨child.fit hclose, fun h => ⟨(hidle h).1, (hidle h).2.2.1⟩,
      fun h => Option.isSome_iff_ne_none.mp (hactive h).1⟩
  calm h hquiet := child.calm (h.below hquiet.1).1 hquiet.2.2
  sleep := by
    rintro state state' world world' more hquiet hquiet' ⟨links, hclose, hlinked⟩
    have hbelow : Beside bond child.Idle more (state.child, world) (state'.child, world') :=
      ⟨links, hclose.below hquiet.1, hlinked⟩
    obtain ⟨resting, hslumber, hresting⟩ := Resemblance.Idle.slumber hbelow
    exact ⟨resting, slumber_service label interval callback hslumber ⟨hquiet.1, hquiet.2.1⟩
      ⟨hquiet'.1, hquiet'.2.1⟩, hresting⟩
  length_eq state state' := child.length_eq state.child state'.child
  fresh_eq random := child.fresh_eq random
  preempts hquiet hquiet' h hlinked :=
    child.preempts hquiet.2.2 hquiet'.2.2 (h.below hquiet.1).1 hlinked
  fire := by
    rintro state state' links more a b hclose hmem
    by_cases hidle : state.status = .inactive
    · have hbelow := hclose.below hidle
      exact absurd hmem (child.calm hbelow.1 hbelow.2.1 a b)
    · obtain ⟨hstatus, -, hactive, below, rfl, hbelow⟩ := hclose
      obtain ⟨id, hid⟩ := Option.isSome_iff_exists.mp (hactive hidle).1
      obtain ⟨id', hid'⟩ := Option.isSome_iff_exists.mp (hactive hidle).2
      have hidle' : state'.status ≠ .inactive := hstatus ▸ hidle
      rw [hid, hid'] at hmem ⊢
      obtain hown | hmem := Multiset.mem_add.mp hmem
      · cases Multiset.mem_singleton.mp hown
        refine ⟨id, rfl, fun left right hlinked => ?_⟩
        rw [fire_service_own label interval callback hidle hid]
        dsimp only
        rw [fire_service_own label interval callback hidle' hid']
        exact ⟨rfl, rfl, hlinked.refresh id id' callback⟩
      · have hanswers : World.Linked.Answers bond (below + (Link.timers (some id) (some id') + more))
            (tree.fire state.child) (other.fire state'.child) a b := child.fire hbelow hmem
        rw [add_left_comm, ← add_assoc] at hanswers
        obtain ⟨fired, rfl, hanswer⟩ := hanswers
        refine ⟨fired, rfl, fun left right hlinked => ?_⟩
        have hfired := hanswer left right hlinked
        rw [add_assoc] at hlinked
        have hmore : .timer (some fired) b ∈ below + more := Multiset.mem_add.mpr (.inl hmem)
        have hne : state.timer ≠ some fired := by
          rw [hid]
          exact fun heq => hlinked.timer_ne hmore (Option.some.inj heq)
        rw [fire_service label interval callback hidle hne]
        cases b with
        | none => exact hfired
        | some fired' =>
          have hne' : state'.timer ≠ some fired' := by
            rw [hid']
            exact fun heq => hlinked.timer_ne_right hmore (Option.some.inj heq)
          dsimp only
          rw [fire_service label interval callback hidle' hne']
          exact hfired

variable {child label interval callback}

theorem service_start
    (h : Beside bond (Resemblance.service child label interval callback).Near more (state, world)
      (state', world')) :
    Beside bond (ServiceClose child) more
      ((Tree.service label interval callback (some tree)).start state world)
      ((Tree.service label interval callback (some other)).start state' world') := by
  obtain ⟨links, hnear, hlinked⟩ := h
  by_cases hactive : state.status ≠ .inactive
  · obtain hclose | hslumber := hnear
    · have hactive' : state'.status ≠ .inactive := hclose.1 ▸ hactive
      rw [Tree.start, Tree.start, if_pos hactive, if_pos hactive']
      exact ⟨links, hclose, hlinked⟩
    · exact absurd hslumber.left.1 hactive
  · have hidle := not_not.mp hactive
    have hbelow : state'.status = .inactive ∧ child.Near state.child state'.child links := by
      obtain hclose | hslumber := hnear
      · exact ⟨hclose.1 ▸ hidle, .inl (hclose.below hidle).1⟩
      · exact ⟨hslumber.right.1, .inr (slumber_service_below label interval callback hslumber)⟩
    have hadded := (hlinked.refresh ⟨world.clock.nextTimer⟩ ⟨world'.clock.nextTimer⟩ callback).addTimer
      interval
    rw [add_left_comm] at hadded
    obtain ⟨started, hclose, hstarted⟩ := child.start ⟨links, hbelow.2, hadded⟩
    rw [Tree.start_service label interval callback (some tree) state world hidle Prod.mk.eta.symm,
      Tree.start_service label interval callback (some other) state' world' hbelow.1 Prod.mk.eta.symm]
    refine ⟨_, .of_active rfl (by simp) ⟨rfl, rfl⟩ hclose, ?_⟩
    rw [add_assoc, add_left_comm]
    exact hstarted

theorem service_tick
    (h : Beside bond (Resemblance.service child label interval callback).Near more (state, world)
      (state', world'))
    (hover : bond.Allows ((Tree.service label interval callback (some tree)).tick state
      world).2.2) :
    ((Tree.service label interval callback (some tree)).tick state world).1 =
        ((Tree.service label interval callback (some other)).tick state' world').1 ∧
      Beside bond (ServiceClose child) more
        ((Tree.service label interval callback (some tree)).tick state world).2
        ((Tree.service label interval callback (some other)).tick state' world').2 := by
  have hstart := service_start h
  rcases hbegun : (Tree.service label interval callback (some tree)).start state world with
    ⟨started, begun⟩
  rcases hbegun' : (Tree.service label interval callback (some other)).start state' world' with
    ⟨started', begun'⟩
  rw [hbegun, hbegun'] at hstart
  rw [tick_service label interval callback (some tree) state world hbegun] at hover ⊢
  rw [tick_service label interval callback (some other) state' world' hbegun']
  have hrunning := start_service_active label interval callback (some tree) state world
  rw [hbegun] at hrunning
  obtain ⟨links, hclose, hlinked⟩ := hstart
  have hstatus : started.status = started'.status := hclose.1
  rw [hstatus] at hover ⊢
  cases houtcome : started'.status.outcome? with
  | some outcome => exact ⟨rfl, links, hclose, hlinked⟩
  | none =>
    rw [houtcome] at hover
    obtain ⟨-, -, htimers, below, rfl, hclose⟩ := hclose
    dsimp only at hover hlinked htimers ⊢
    rw [add_assoc, add_left_comm] at hlinked
    obtain ⟨hsame, below, hclose, hticked⟩ := child.tick ⟨_, .inl hclose, hlinked⟩ hover
    refine ⟨hsame, _, .of_active (congrArg Outcome.status hsame) (Outcome.status_ne_inactive _)
      (htimers hrunning) hclose, ?_⟩
    rw [add_assoc, add_left_comm]
    exact hticked

theorem service_stop
    (h : Beside bond (ServiceClose child) more (state, world) (state', world')) :
    Beside bond (Resemblance.service child label interval callback).Idle more
      ((Tree.service label interval callback (some tree)).stop state world)
      ((Tree.service label interval callback (some other)).stop state' world') := by
  obtain ⟨links, hclose, hlinked⟩ := h
  have hsome := hclose.isSome_eq
  have hstatus : state.status = state'.status := hclose.1
  rw [Tree.stop_service, Tree.stop_service]
  by_cases hidle : state.status = .inactive
  · have hidle' : state'.status = .inactive := hstatus ▸ hidle
    obtain ⟨hbelow, hquiet, hquiet'⟩ := hclose.below hidle
    obtain ⟨htimer, htimer', -⟩ := hclose.2.1 hidle
    rw [if_pos hidle, if_pos hidle', htimer, htimer']
    refine ⟨links, ⟨⟨hstatus, fun _ => ⟨rfl, rfl, hquiet, hquiet'⟩, fun h => absurd hidle h, links,
      (zero_add links).symm, hbelow⟩, ⟨hidle, rfl, hquiet⟩, ⟨hidle', rfl, hquiet'⟩⟩, hlinked⟩
  · have hidle' : state'.status ≠ .inactive := hstatus ▸ hidle
    obtain ⟨-, -, -, below, rfl, hclose⟩ := hclose
    rw [add_assoc] at hlinked
    rw [if_neg hidle, if_neg hidle']
    obtain ⟨below, ⟨hclose, hquiet, hquiet'⟩, hstopped⟩ :=
      child.stop ⟨_, hclose, hlinked.cancel? hsome⟩
    exact ⟨below, ⟨⟨rfl, fun _ => ⟨rfl, rfl, hquiet, hquiet'⟩, fun h => absurd rfl h, below,
      (zero_add below).symm, hclose⟩, ⟨rfl, rfl, hquiet⟩, ⟨rfl, rfl, hquiet'⟩⟩, hstopped⟩

variable (child label interval callback)

def Likeness.service : Likeness bond (.service label interval callback (some tree))
    (.service label interval callback (some other)) where
  toResemblance := Resemblance.service child label interval callback
  status_eq h := h.1
  start := service_start
  tick := service_tick
  stop := service_stop

end Service

/-- A node that is started before it is ticked does the same, unless a time overflows on the way. -/
theorem tick_start (tree : Tree A) (state : tree.State) (world : World A) (h : tree.Fit state)
    (hover : (tree.start state world).2.clock.overflowed = false) :
    tree.tick (tree.start state world).1 (tree.start state world).2 = tree.tick state world := by
  cases tree with
  | action label command =>
    rw [start, tick, tick]
    by_cases hidle : state.status = .inactive
    · simp [hidle]
    · rw [if_neg hidle]
  | wait duration variance =>
    have hactive := start_wait_active duration variance state world hover
    rcases hstart : (Tree.wait duration variance).start state world with ⟨started, begun⟩
    rw [hstart] at hactive
    have hagain : (Tree.wait duration variance).start started begun = (started, begun) := by
      rw [start, if_pos hactive]
    rw [tick, tick, hagain, hstart]
  | leaf _ => exact h.elim
  | sequence children =>
    have hbegin := state.begin_status
    have hagain : state.begin.begin = state.begin := if_neg hbegin
    rw [start, tick_sequence, tick_sequence, hagain]
  | selector children =>
    have hbegin := state.begin_status
    have hagain : state.begin.begin = state.begin := if_neg hbegin
    rw [start, tick_selector, tick_selector, hagain]
  | condition guard policy child =>
    have hactive := start_condition_active guard policy child state world
    rcases hstart : (Tree.condition guard policy child).start state world with ⟨started, begun⟩
    rw [hstart] at hactive
    have hagain : (Tree.condition guard policy child).start started begun = (started, begun) := by
      rw [start, if_pos hactive]
    rw [tick, tick, hagain, hstart]
  | service label interval callback child =>
    have hactive := start_service_active label interval callback child state world
    rcases hstart : (Tree.service label interval callback child).start state world with
      ⟨started, begun⟩
    rw [hstart] at hactive
    have hagain : (Tree.service label interval callback child).start started begun =
        (started, begun) := by
      rw [start, if_pos hactive]
    rw [tick, tick, hagain, hstart]

section Unobtrusive

variable (child : Likeness bond tree other) (label : String) (interval : Duration)
variable {callback : Routine A} (hcallback : callback.Idle)
variable {state : (Tree.service label interval callback (some tree)).State} {state' : other.State}

/-- The service is inactive, and its child rests in step; or both run, and the timer is the service's own
affair. -/
def UnobtrusiveClose : Tie (ServiceState tree.State) other.State := fun state state' links =>
  (state.status = .inactive ∧ state.timer = none ∧ child.Idle state.child state' links) ∨
    (state.status = .running ∧ ∃ id below, state.timer = some id ∧
      links = {.timer (some id) none} + below ∧ child.Close state.child state' below)

variable {child}

theorem slumber_unobtrusive (h : Slumber tree.rest other.rest state.child state' links)
    (hidle : state.status = .inactive ∧ state.timer = none) :
    Slumber (Tree.service label interval callback (some tree)).rest other.rest state state' links :=
  ⟨⟨hidle.1, hidle.2, h.left⟩, h.right, h.leaves_eq, h.links_eq⟩

theorem slumber_unobtrusive_below
    (h : Slumber (Tree.service label interval callback (some tree)).rest other.rest state state' links) :
    Slumber tree.rest other.rest state.child state' links :=
  ⟨h.left.2.2, h.right, h.leaves_eq, h.links_eq⟩

variable (child)

def Resemblance.unobtrusive :
    Resemblance bond (.service label interval callback (some tree)) other where
  Close := UnobtrusiveClose child
  fit := by
    rintro state state' links (⟨hidle, htimer, hclose, hquiet, -⟩ | ⟨hrun, id, below, htimer, -, hclose⟩)
    · exact ⟨child.fit hclose, fun _ => ⟨htimer, hquiet⟩, fun hactive => absurd hidle hactive⟩
    · refine ⟨child.fit hclose, fun hidle => ?_, fun _ => ?_⟩
      · cases hidle.symm.trans hrun
      · rw [htimer]
        exact nofun
  calm := by
    rintro state state' links (⟨-, -, hclose, hquiet, -⟩ | ⟨hrun, -⟩) hresting
    · exact child.calm hclose hquiet
    · cases hresting.1.symm.trans hrun
  sleep := by
    rintro state state' world world' more hquiet hquiet' ⟨links, hclose, hlinked⟩
    obtain ⟨-, -, hidle⟩ | ⟨hrun, -⟩ := hclose
    · have hbelow : Beside bond child.Idle more (state.child, world) (state', world') :=
        ⟨links, hidle, hlinked⟩
      obtain ⟨resting, hslumber, hresting⟩ := Resemblance.Idle.slumber hbelow
      exact ⟨resting, slumber_unobtrusive label interval hslumber ⟨hquiet.1, hquiet.2.1⟩, hresting⟩
    · cases hquiet.1.symm.trans hrun
  length_eq state state' := child.length_eq state.child state'
  fresh_eq random := child.fresh_eq random
  preempts := by
    rintro state state' world world' links more hquiet hquiet' (⟨-, -, hidle⟩ | ⟨hrun, -⟩) hlinked
    · exact child.preempts hidle.2.1 hidle.2.2 hidle.1 hlinked
    · cases hquiet.1.symm.trans hrun
  fire := by
    rintro state state' links more a b (⟨-, -, hidle⟩ | ⟨hrun, id, below, hid, rfl, hbelow⟩) hmem
    · exact absurd hmem (child.calm hidle.1 hidle.2.1 a b)
    · have hactive : state.status ≠ .inactive := by simp [hrun]
      obtain hown | hmem := Multiset.mem_add.mp hmem
      · cases Multiset.mem_singleton.mp hown
        refine ⟨id, rfl, fun left right hlinked => ?_⟩
        rw [fire_service_own label interval callback hactive hid, World.refresh_idle hcallback]
        exact ⟨rfl, hlinked.record_left rfl rfl⟩
      · have hanswers : World.Linked.Answers bond (below + ({.timer (some id) none} + more))
            (tree.fire state.child) (other.fire state') a b := child.fire hbelow hmem
        rw [add_left_comm, ← add_assoc] at hanswers
        obtain ⟨fired, rfl, hanswer⟩ := hanswers
        refine ⟨fired, rfl, fun left right hlinked => ?_⟩
        have hfired := hanswer left right hlinked
        rw [add_assoc] at hlinked
        have hmore : .timer (some fired) b ∈ below + more := Multiset.mem_add.mpr (.inl hmem)
        have hne : state.timer ≠ some fired := by
          rw [hid]
          exact fun heq => hlinked.timer_ne hmore (Option.some.inj heq)
        rw [fire_service label interval callback hactive hne]
        exact hfired

variable {child label interval}

/-- What a tick of the service comes to is a tick of its child, in a world in which only the service's
timer is new. -/
theorem unobtrusive_tick (hloose : bond.strict = false)
    (h : Beside bond (Resemblance.unobtrusive child label interval hcallback).Near more (state, world)
      (state', world'))
    (hover : bond.Allows ((Tree.service label interval callback (some tree)).tick state
      world).2.2) :
    ∃ id inner before, bond.Allows (tree.tick inner before).2.2 ∧
      Beside bond child.Near ({.timer (some id) none} + more) (inner, before) (state', world') ∧
      (Tree.service label interval callback (some tree)).tick state world =
        ((tree.tick inner before).1,
          ⟨(tree.tick inner before).1.status, some id, (tree.tick inner before).2.1⟩,
          (tree.tick inner before).2.2) := by
  obtain ⟨links, hnear, hlinked⟩ := h
  by_cases hidle : state.status = .inactive
  · have hbelow : child.Near state.child state' links := by
      obtain (⟨-, -, hresting⟩ | ⟨hrun, -⟩) | hslumber := hnear
      · exact .inl hresting.1
      · cases hidle.symm.trans hrun
      · exact .inr (slumber_unobtrusive_below label interval hslumber)
    have hrefreshed : World.Linked bond (links + more)
        (world.refresh ⟨world.clock.nextTimer⟩ callback) world' := by
      rw [World.refresh_idle hcallback]
      exact hlinked.record_left rfl rfl
    have hadded := hrefreshed.addTimer_left hloose interval
    rcases hadd : (world.refresh ⟨world.clock.nextTimer⟩ callback).addTimer interval with ⟨id, added⟩
    rw [hadd, add_left_comm] at hadded
    have hstart := Tree.start_service label interval callback (some tree) state world hidle hadd
    have hticked := tick_service label interval callback (some tree) state world hstart
    have hstarted := start_fit tree state.child added hbelow.fit
    have hfine : bond.Allows (tree.start state.child added).2 := by
      rw [hticked] at hover
      exact (tick_follows tree _ _ hstarted.1).allows hover
    have hsame := tick_start tree state.child added hbelow.fit (hfine hloose)
    rw [startOption, tickOption, hsame] at hticked
    refine ⟨id, state.child, added, ?_, ⟨links, hbelow, hadded⟩, hticked⟩
    rw [hticked] at hover
    exact hover
  · obtain (⟨hresting, -⟩ | ⟨hrun, id, below, hid, rfl, hclose⟩) | hslumber := hnear
    · exact absurd hresting hidle
    · have hstart : (Tree.service label interval callback (some tree)).start state world =
          (state, world) := by
        rw [Tree.start, if_pos hidle]
      have hticked := tick_service label interval callback (some tree) state world hstart
      rw [hrun, hid] at hticked
      rw [add_assoc, add_left_comm] at hlinked
      refine ⟨id, state.child, world, ?_, ⟨below, .inl hclose, hlinked⟩, hticked⟩
      rw [hticked] at hover
      exact hover
    · exact absurd hslumber.left.1 hidle

theorem unobtrusive_turn (hloose : bond.strict = false)
    (h : Beside bond (Resemblance.unobtrusive child label interval hcallback).Near more (state, world)
      (state', world'))
    (hover : bond.Allows ((Tree.service label interval callback (some tree)).turn state
      world).2.2) :
    (Resemblance.unobtrusive child label interval hcallback).Turned more
      ((Tree.service label interval callback (some tree)).turn state world) (other.turn state' world') := by
  have hfit : (Tree.service label interval callback (some tree)).Fit state := by
    obtain ⟨_, hnear, _⟩ := h
    exact hnear.fit
  obtain ⟨id, inner, before, hfine, hbefore, hticked⟩ :=
    unobtrusive_tick hcallback hloose h ((turn_fit _ state world hfit).2.2.allows hover)
  obtain ⟨houtcome, below, hclose, hlinked⟩ := child.tick hbefore hfine
  rw [turn_eq _ state world hticked, turn_eq other state' world' Prod.mk.eta.symm, houtcome]
  by_cases hrun : (other.tick state' world').1 = .running
  · rw [if_pos hrun, if_pos hrun, hrun]
    refine ⟨rfl, fun _ => ⟨_, .inr ⟨rfl, id, below, rfl, rfl, hclose⟩, ?_⟩, fun hended => absurd rfl hended⟩
    rw [add_assoc, add_left_comm]
    exact hlinked
  · rw [if_neg hrun, if_neg hrun]
    rw [add_left_comm] at hlinked
    have hcancelled : Beside bond child.Close more
        ((tree.tick inner before).2.1, ((tree.tick inner before).2.2.cancel id).2)
        ((other.tick state' world').2.1, (other.tick state' world').2.2) :=
      ⟨below, hclose, hlinked.cancel_left⟩
    obtain ⟨resting, hidle, hstopped⟩ := child.stop hcancelled
    have hended : (other.tick state' world').1.status ≠ .inactive := Outcome.status_ne_inactive _
    rw [Tree.stop_service, if_neg hended]
    exact ⟨rfl, fun hr => absurd hr hrun, fun _ => ⟨resting, ⟨.inl ⟨rfl, rfl, hidle⟩,
      ⟨rfl, rfl, hidle.2.1⟩, hidle.2.2⟩, hstopped⟩⟩

theorem unobtrusive_stop
    (h : Beside bond (UnobtrusiveClose child) more (state, world) (state', world')) :
    Beside bond (Slumber (Tree.service label interval callback (some tree)).rest other.rest) more
      ((Tree.service label interval callback (some tree)).stop state world) (other.stop state' world') := by
  obtain ⟨links, ⟨hidle, htimer, hresting⟩ | ⟨hrun, id, below, htimer, rfl, hclose⟩, hlinked⟩ := h
  · -- The service keeps the stop to itself, so the other node stirs alone.
    have hbelow : Beside bond child.Idle more (state.child, world) (state', world') :=
      ⟨links, hresting, hlinked⟩
    have hslumber := Resemblance.Idle.slumber hbelow
    obtain ⟨resting, hasleep, hstopped⟩ := Slumber.stirs_right hslumber
      (stop_stirs other state' world' (Slumber.right_quiet hslumber))
    rw [Tree.stop_service, if_pos hidle, htimer]
    exact ⟨resting, slumber_unobtrusive label interval hasleep ⟨hidle, rfl⟩, hstopped⟩
  · have hactive : state.status ≠ .inactive := hrun.trans_ne (by simp)
    rw [add_assoc] at hlinked
    obtain ⟨resting, hslumber, hstopped⟩ := Resemblance.Idle.slumber
      (child.stop ⟨below, hclose, hlinked.cancel_left⟩)
    rw [Tree.stop_service, if_neg hactive, htimer]
    exact ⟨resting, slumber_unobtrusive label interval hslumber ⟨rfl, rfl⟩, hstopped⟩

variable (child label interval)

/-- Below a composite, a service that does nothing can stand for its child. -/
def Substitute.unobtrusive (hloose : bond.strict = false) :
    Substitute bond (.service label interval callback (some tree)) other where
  toResemblance := Resemblance.unobtrusive child label interval hcallback
  turn := unobtrusive_turn hcallback hloose
  stop := unobtrusive_stop

end Unobtrusive

end Tree

end BehaviorTree
