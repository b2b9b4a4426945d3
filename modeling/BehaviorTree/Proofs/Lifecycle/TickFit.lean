import BehaviorTree.Proofs.Lifecycle.Fit

namespace BehaviorTree

theorem Status.eq_of_outcome? {status : Status} {outcome : Outcome}
    (h : status.outcome? = some outcome) : status = outcome.status ∧ outcome ≠ .running := by
  cases status <;> cases h <;> exact ⟨rfl, by simp⟩

theorem Status.eq_running {status : Status} (h : status.outcome? = none) (hactive : status ≠ .inactive) :
    status = .running := by
  cases status <;> simp_all [Status.outcome?]

theorem Outcome.status_ne_inactive (outcome : Outcome) : outcome.status ≠ .inactive := by
  cases outcome <;> simp [Outcome.status]

theorem Outcome.eq_running_of_status {outcome : Outcome} (h : outcome.status = .running) :
    outcome = .running := by
  cases outcome <;> simp_all [Outcome.status]

theorem CompositeState.begin_status {S : Type} (state : CompositeState S) :
    state.begin.status ≠ .inactive := by
  unfold CompositeState.begin
  split
  · simp
  · assumption

theorem CompositeState.begin_children {S : Type} (state : CompositeState S) :
    state.begin.children = state.children := by
  unfold CompositeState.begin
  split <;> rfl

theorem CompositeState.begin_running {S : Type} (state : CompositeState S)
    (h : state.begin.status.outcome? = none) : state.begin.status = .running :=
  Status.eq_running h state.begin_status

namespace Tree

variable {A : Type}

mutual

/-- The tree runs, and so does what is active below it, down to a wait whose time has not passed. -/
def Waiting : (tree : Tree A) → tree.State → (now : Duration) → Prop
  | .action _ _, _, _ => False
  | .wait _ _, state, now => state.status = .running ∧ now - state.startedAt < state.target
  | .leaf _, _, _ => False
  | .sequence children, state, now =>
    state.status = .running ∧ WaitingAt children state.current state.children now
  | .selector children, state, now =>
    state.status = .running ∧ WaitingAt children state.current state.children now
  | .condition _ _ child, state, now =>
    state.status = .running ∧ WaitingOption child state.child now
  | .service _ _ _ child, state, now =>
    state.status = .running ∧ WaitingOption child state.child now

def WaitingAt : (trees : List (Tree A)) → Nat → StateList trees → (now : Duration) → Prop
  | [], _, _, _ => False
  | tree :: _, 0, (state, _), now => tree.Waiting state now
  | _ :: trees, i + 1, (_, states), now => WaitingAt trees i states now

def WaitingOption : (tree : Option (Tree A)) → StateOption tree → (now : Duration) → Prop
  | none, _, _ => False
  | some tree, state, now => tree.Waiting state now

end

mutual

theorem preempts_deals : (tree : Tree A) → (state : tree.State) → (world : World A) →
    world.Deals (tree.preempts state world).2 (tree.keepers state) (tree.keepers state)
  | .action _ _, _, world => .refl world _
  | .wait _ _, _, world => .refl world _
  | .leaf _, _, world => .refl world _
  | .sequence _, _, world => .refl world _
  | .selector _, _, world => .refl world _
  | .condition guard policy child, state, world => by
    rw [preempts]
    split
    · exact .refl world _
    · split
      · exact .refl world _
      · rename_i hidle
        have hasked := World.Deals.step (.ask policy
          (Prod.mk.eta (p := world.startedHolding guard state.observer)).symm)
        rw [keepers, not_not.mp hidle]
        exact hasked.frame _
  | .service _ _ _ child, state, world => by
    rw [preempts]
    exact (preemptsOption_deals child state.child world).frame_left _

theorem preemptsOption_deals : (tree : Option (Tree A)) → (state : StateOption tree) →
    (world : World A) →
    world.Deals (preemptsOption tree state world).2 (keepersOption tree state)
      (keepersOption tree state)
  | none, _, world => .refl world _
  | some tree, state, world => preempts_deals tree state world

end

theorem firstPreempting_deals (trees : List (Tree A)) (limit : Nat) (states : StateList trees)
    (world : World A) :
    world.Deals (firstPreempting trees limit states world).2 (keepersList trees states)
      (keepersList trees states) := by
  induction trees generalizing limit world with
  | nil => exact .refl world _
  | cons tree trees ih =>
    obtain ⟨state, states⟩ := states
    cases limit with
    | zero => exact .refl world _
    | succ limit =>
      have hasked := (preempts_deals tree state world).frame (keepersList trees states)
      rw [firstPreempting]
      split
      · rename_i heq
        rwa [heq] at hasked
      · rename_i heq
        rw [heq] at hasked
        exact hasked.trans ((ih limit states _).frame_left _)

theorem firstPreempting_lt (trees : List (Tree A)) (limit : Nat) (states : StateList trees)
    (world : World A) : ∀ found ∈ (firstPreempting trees limit states world).1, found.1 < limit := by
  induction trees generalizing limit world with
  | nil => exact nofun
  | cons tree trees ih =>
    obtain ⟨state, states⟩ := states
    cases limit with
    | zero => exact nofun
    | succ limit =>
      rw [firstPreempting]
      split
      · intro found hfound
        cases hfound
        exact Nat.succ_pos limit
      · intro found hfound
        obtain ⟨later, hlater, rfl⟩ := Option.map_eq_some_iff.mp hfound
        exact Nat.succ_lt_succ (ih limit states _ later hlater)

/-- What is left of a composite's tick once the child whose turn it is is known. -/
def tickRest (goOn : Outcome) (trees : List (Tree A)) (current : Nat) (states : StateList trees)
    (world : World A) : Outcome × CompositeState (StateList trees) × World A :=
  let (outcome, current, states, world) := tickFrom goOn trees current states world
  settle trees outcome current states world

theorem tick_sequence (children : List (Tree A)) (state : (Tree.sequence children).State)
    (world : World A) :
    (Tree.sequence children).tick state world =
      match state.begin.status.outcome? with
      | some outcome => (outcome, state.begin, world)
      | none => tickRest .success children state.begin.current state.begin.children world := by
  rw [tick]
  rfl

/-- Where a selector's tick goes on, and the states of the children and the world by then. None where
the selector gives up. -/
def arbitrate (children : List (Tree A)) (state : CompositeState (StateList children))
    (world : World A) : Option Nat × StateList children × World A :=
  match firstPreempting children state.current state.children world with
  | (none, world) => (some state.current, state.children, world)
  | (some (winner, preemption), world) =>
    let (states, world) := stopAt children state.current state.children
      (world.record (.preempted winner state.current preemption))
    (if preemption = .immediate then some winner else none, states, world)

theorem tick_selector (children : List (Tree A)) (state : (Tree.selector children).State)
    (world : World A) :
    (Tree.selector children).tick state world =
      match state.begin.status.outcome? with
      | some outcome => (outcome, state.begin, world)
      | none =>
        match arbitrate children state.begin world with
        | (some current, states, world) => tickRest .fail children current states world
        | (none, states, world) => settle children .fail state.begin.current states world := by
  rw [tick]
  dsimp only
  cases state.begin.status.outcome? with
  | some outcome => rfl
  | none =>
    dsimp only
    unfold arbitrate
    rcases firstPreempting children state.begin.current state.begin.children world with
      ⟨_ | ⟨winner, preemption⟩, asked⟩
    · rfl
    · cases preemption <;> rfl

theorem tick_condition (guard : Guard) (policy : RestartPolicy) (child : Option (Tree A))
    (state : (Tree.condition guard policy child).State) (world : World A)
    {started : (Tree.condition guard policy child).State} {begun checked : World A} {broken : Bool}
    (hstart : (Tree.condition guard policy child).start state world = (started, begun))
    (hbroken : (if policy.abortsSelf then begun.stoppedHolding guard started.observer
      else (false, begun)) = (broken, checked)) :
    (Tree.condition guard policy child).tick state world =
      match started.status.outcome? with
      | some outcome => (outcome, started, begun)
      | none =>
        if broken then
          (.fail, ⟨.failed, started.observer, (stopOption child started.child checked).1⟩,
            (stopOption child started.child checked).2)
        else
          ((tickOption child started.child checked).1,
            ⟨(tickOption child started.child checked).1.status, started.observer,
              (tickOption child started.child checked).2.1⟩,
            (tickOption child started.child checked).2.2) := by
  rw [tick, hstart]
  dsimp only
  rewrite [hbroken]
  rfl

theorem tick_service (label : String) (interval : Duration) (callback : Routine A)
    (child : Option (Tree A)) (state : (Tree.service label interval callback child).State)
    (world : World A) {started : (Tree.service label interval callback child).State}
    {begun : World A}
    (hstart : (Tree.service label interval callback child).start state world = (started, begun)) :
    (Tree.service label interval callback child).tick state world =
      match started.status.outcome? with
      | some outcome => (outcome, started, begun)
      | none =>
        ((tickOption child started.child begun).1,
          ⟨(tickOption child started.child begun).1.status, started.timer,
            (tickOption child started.child begun).2.1⟩,
          (tickOption child started.child begun).2.2) := by
  rewrite [tick, hstart]
  rfl

theorem tickFrom_zero (goOn : Outcome) (tree : Tree A) (trees : List (Tree A)) (state : tree.State)
    (states : StateList trees) (world : World A) {outcome : Outcome} {ticked : tree.State}
    {after : World A} (htick : tree.tick state world = (outcome, ticked, after)) :
    tickFrom goOn (tree :: trees) 0 (state, states) world =
      if outcome = .running then (.running, 0, (ticked, states), after)
      else if outcome = goOn then
        ((tickFrom goOn trees 0 states (tree.stop ticked after).2).1,
          (tickFrom goOn trees 0 states (tree.stop ticked after).2).2.1 + 1,
          ((tree.stop ticked after).1,
            (tickFrom goOn trees 0 states (tree.stop ticked after).2).2.2.1),
          (tickFrom goOn trees 0 states (tree.stop ticked after).2).2.2.2)
      else (outcome, 0, ((tree.stop ticked after).1, states), (tree.stop ticked after).2) := by
  rw [tickFrom, htick]

/-- What a tick makes of a fit state. -/
structure Ticked (tree : Tree A) (state : tree.State) (world : World A)
    (after : Outcome × tree.State × World A) : Prop where
  fit : tree.Fit after.2.1
  deals : world.Deals after.2.2 (tree.keepers state) (tree.keepers after.2.1)
  status : after.2.2.clock.overflowed = false → tree.status after.2.1 = after.1.status
  waiting : after.2.2.clock.overflowed = false → after.1 = .running →
    tree.Waiting after.2.1 after.2.2.now

structure TickedFrom (trees : List (Tree A)) (states : StateList trees) (world : World A)
    (after : Outcome × Nat × StateList trees × World A) : Prop where
  running : after.1 = .running → FitAt trees after.2.1 after.2.2.1 ∧ after.2.1 < trees.length
  ended : after.1 ≠ .running → QuietList trees after.2.2.1
  deals : world.Deals after.2.2.2 (keepersList trees states) (keepersList trees after.2.2.1)
  waiting : after.2.2.2.clock.overflowed = false → after.1 = .running →
    WaitingAt trees after.2.1 after.2.2.1 after.2.2.2.now

structure TickedComposite (trees : List (Tree A)) (states : StateList trees) (world : World A)
    (after : Outcome × CompositeState (StateList trees) × World A) : Prop where
  fit : FitComposite trees after.2.1
  deals : world.Deals after.2.2 (keepersList trees states) (keepersList trees after.2.1.children)
  status : after.2.1.status = after.1.status
  waiting : after.2.2.clock.overflowed = false → after.1 = .running →
    WaitingAt trees after.2.1.current after.2.1.children after.2.2.now

structure TickedOption (tree : Option (Tree A)) (state : StateOption tree) (world : World A)
    (after : Outcome × StateOption tree × World A) : Prop where
  fit : FitOption tree after.2.1
  deals : world.Deals after.2.2 (keepersOption tree state) (keepersOption tree after.2.1)
  waiting : after.2.2.clock.overflowed = false → after.1 = .running →
    WaitingOption tree after.2.1 after.2.2.now

theorem settle_quiet {trees : List (Tree A)} {outcome : Outcome} {states : StateList trees}
    (current : Nat) (world : World A) (hended : outcome ≠ .running)
    (h : QuietList trees states) :
    TickedComposite trees states world (settle trees outcome current states world) := by
  have hreleased := releaseList_quiet trees states world h
  rw [settle, if_neg hended]
  refine ⟨.of_quiet hreleased.1 ?_, hreleased.2.2, rfl, fun _ hr => absurd hr hended⟩
  cases outcome <;> simp_all [Outcome.status]

theorem TickedFrom.rest {goOn : Outcome} {trees : List (Tree A)} {current : Nat}
    {states : StateList trees} {world : World A}
    (h : TickedFrom trees states world (tickFrom goOn trees current states world)) :
    TickedComposite trees states world (tickRest goOn trees current states world) := by
  unfold tickRest
  rcases htick : tickFrom goOn trees current states world with ⟨outcome, next, ticked, after⟩
  rw [htick] at h
  dsimp only
  by_cases hrun : outcome = .running
  · have hfit := h.running hrun
    rw [settle, if_pos hrun]
    refine ⟨⟨fun _ => hfit.1, fun _ => .inl hfit.2, ?_⟩, h.deals, rfl, h.waiting⟩
    rw [hrun]
    exact fun hne => absurd rfl hne
  · have hsettled := settle_quiet next after hrun (h.ended hrun)
    exact ⟨hsettled.fit, h.deals.trans hsettled.deals, hsettled.status, hsettled.waiting⟩

/-- Before a selector goes on at another child, the one whose turn it was is stopped. -/
theorem arbitrate_fit (children : List (Tree A)) (state : CompositeState (StateList children))
    (world : World A) (h : FitAt children state.current state.children) :
    (∀ i, (arbitrate children state world).1 = some i →
        FitAt children i (arbitrate children state world).2.1) ∧
      ((arbitrate children state world).1 = none →
        QuietList children (arbitrate children state world).2.1) ∧
      world.Deals (arbitrate children state world).2.2 (keepersList children state.children)
        (keepersList children (arbitrate children state world).2.1) := by
  have hasked := firstPreempting_deals children state.current state.children world
  unfold arbitrate
  rcases hfirst : firstPreempting children state.current state.children world with
    ⟨_ | ⟨winner, preemption⟩, asked⟩ <;> rw [hfirst] at hasked
  · refine ⟨fun i hi => ?_, (nomatch ·), hasked⟩
    cases hi
    exact h
  · have hrecord := World.Deals.of_acts (.preempted asked winner state.current preemption)
      (keepersList children state.children)
    have hstop := stopAt_quiet children state.current state.children
      (asked.record (.preempted winner state.current preemption)) h
    exact ⟨fun i _ => QuietList.fitAt _ _ _ hstop.1, fun _ => hstop.1,
      (hasked.trans hrecord).trans hstop.2⟩

theorem start_service_active (label : String) (interval : Duration) (callback : Routine A)
    (child : Option (Tree A)) (state : (Tree.service label interval callback child).State)
    (world : World A) :
    ((Tree.service label interval callback child).start state world).1.status ≠ .inactive := by
  by_cases hidle : state.status = .inactive
  · rw [start_service label interval callback child state world hidle rfl]
    simp
  · rw [start, if_pos hidle]
    exact hidle

theorem start_wait_active (duration variance : Duration)
    (state : (Tree.wait (A := A) duration variance).State) (world : World A)
    (h : ((Tree.wait duration variance).start state world).2.clock.overflowed = false) :
    ((Tree.wait duration variance).start state world).1.status ≠ .inactive := by
  rw [start] at h ⊢
  split at h
  · rename_i hactive
    rwa [if_pos hactive]
  · rename_i hidle
    rw [if_neg hidle]
    split at h
    · simp
    · cases h

theorem start_condition_active (guard : Guard) (policy : RestartPolicy) (child : Option (Tree A))
    (state : (Tree.condition guard policy child).State) (world : World A) :
    ((Tree.condition guard policy child).start state world).1.status ≠ .inactive := by
  by_cases hidle : state.status = .inactive
  · rcases hobserve : world.observe state.observer guard.key with ⟨id, observed⟩
    rcases hjudge : observed.judge guard id with ⟨holds, judged⟩
    rw [start_condition guard policy child state world hidle hobserve hjudge]
    split
    · simp
    · cases holds <;> simp
  · rw [start, if_pos hidle]
    exact hidle

theorem World.deals_check {guard : Guard} {policy : RestartPolicy} {observer : Option ObserverId}
    {world checked : World A} {broken : Bool}
    (h : (if policy.abortsSelf then world.stoppedHolding guard observer else (false, world)) =
      (broken, checked)) :
    world.Deals checked {.condition guard policy .running observer}
      {.condition guard policy (if broken then .failed else .running) observer} := by
  split at h
  · rename_i haborts
    exact .step (.check haborts h)
  · cases h
    exact .refl world _

theorem run_deals (label : String) (command : Command A) (random : Random) (world : World A) :
    world.Deals (command.run random (world.record (.acted label))).2 0 0 := by
  have hacted := World.Deals.acts (.acted world label)
  cases command with
  | always effect => exact hacted.trans (.acts (.mapAgent _ effect))
  | drawn low high effect => exact hacted.trans (.acts (.mapAgent _ _))

mutual

theorem tick_fit : (tree : Tree A) → (state : tree.State) → (world : World A) → tree.Fit state →
    Ticked tree state world (tree.tick state world)
  | .action label command, state, world, h => by
    rw [tick]
    split
    · rename_i hdone
      exact ⟨h, .refl world _, fun _ => hdone, fun _ hr => nomatch hr⟩
    · exact ⟨by simp [Fit], run_deals label command state.random world, fun _ => rfl,
        fun _ hr => nomatch hr⟩
  | .wait duration variance, state, world, h => by
    have hstart := start_fit (.wait duration variance) state world h
    have hactive := start_wait_active duration variance state world
    rw [tick]
    rcases hbegun : (Tree.wait duration variance).start state world with ⟨started, begun⟩
    rw [hbegun] at hstart hactive
    dsimp only at hstart hactive ⊢
    split
    · rename_i hdone
      exact ⟨hstart.1, hstart.2, fun _ => hdone, fun _ hr => nomatch hr⟩
    · rename_i hgoing
      -- Only an overflow leaves a wait inactive when it is started.
      have hrunning : begun.clock.overflowed = false → started.status = .running := by
        intro hover
        have hfit := hstart.1
        rw [Fit] at hfit
        cases hs : started.status with
        | inactive => exact absurd hs (hactive hover)
        | running => rfl
        | succeeded => exact absurd hs hgoing
        | failed => exact absurd hs hfit
      split
      · rename_i hwait
        exact ⟨hstart.1, hstart.2, hrunning, fun hover _ => ⟨hrunning hover, hwait⟩⟩
      · exact ⟨by simp [Fit], hstart.2, fun _ => rfl, fun _ hr => nomatch hr⟩
  | .sequence children, state, world, h => by
    rw [fit_sequence] at h
    have hbegin := h.begin
    rw [tick_sequence]
    cases houtcome : state.begin.status.outcome? with
    | some outcome =>
      obtain ⟨hstatus, hended⟩ := Status.eq_of_outcome? houtcome
      refine ⟨(fit_sequence _ _).mpr hbegin, ?_, fun _ => hstatus, fun _ hr => absurd hr hended⟩
      rw [keepers, keepers, state.begin_children]
      exact .refl world _
    | none =>
      have hrun := state.begin_running houtcome
      have hrest := (tickFrom_fit .success (by simp) children state.begin.current
        state.begin.children world (hbegin.current hrun)).rest
      refine ⟨(fit_sequence _ _).mpr hrest.fit, ?_, fun _ => hrest.status, fun hover hr => ?_⟩
      · rw [keepers, keepers, ← state.begin_children]
        exact hrest.deals
      · exact ⟨by rw [hrest.status, hr]; rfl, hrest.waiting hover hr⟩
  | .selector children, state, world, h => by
    rw [fit_selector] at h
    have hbegin := h.begin
    rw [tick_selector]
    cases houtcome : state.begin.status.outcome? with
    | some outcome =>
      obtain ⟨hstatus, hended⟩ := Status.eq_of_outcome? houtcome
      refine ⟨(fit_selector _ _).mpr hbegin, ?_, fun _ => hstatus, fun _ hr => absurd hr hended⟩
      rw [keepers, keepers, state.begin_children]
      exact .refl world _
    | none =>
      have hrun := state.begin_running houtcome
      obtain ⟨hgo, hgiveUp, hdeals⟩ := arbitrate_fit children state.begin world (hbegin.current hrun)
      have hrest : TickedComposite children state.begin.children world
          (match arbitrate children state.begin world with
          | (some current, states, world) => tickRest .fail children current states world
          | (none, states, world) => settle children .fail state.begin.current states world) := by
        rcases harb : arbitrate children state.begin world with ⟨_ | current, states, asked⟩ <;>
          rw [harb] at hgo hgiveUp hdeals
        · have hfail : Outcome.fail ≠ .running := by simp
          have hsettled := settle_quiet state.begin.current asked hfail (hgiveUp rfl)
          exact ⟨hsettled.fit, hdeals.trans hsettled.deals, hsettled.status, hsettled.waiting⟩
        · have hticked := (tickFrom_fit .fail (by simp) children current states asked
            (hgo current rfl)).rest
          exact ⟨hticked.fit, hdeals.trans hticked.deals, hticked.status, hticked.waiting⟩
      refine ⟨(fit_selector _ _).mpr hrest.fit, ?_, fun _ => hrest.status, fun hover hr => ?_⟩
      · rw [keepers, keepers, ← state.begin_children]
        exact hrest.deals
      · exact ⟨by rw [hrest.status, hr]; rfl, hrest.waiting hover hr⟩
  | .condition guard policy child, state, world, h => by
    have hbegun := start_fit (.condition guard policy child) state world h
    have hactive := start_condition_active guard policy child state world
    rcases hstart : (Tree.condition guard policy child).start state world with ⟨started, begun⟩
    rcases hbroken : (if policy.abortsSelf then begun.stoppedHolding guard started.observer
      else (false, begun)) with ⟨broken, checked⟩
    rw [hstart] at hbegun hactive
    rw [tick_condition guard policy child state world hstart hbroken]
    cases houtcome : started.status.outcome? with
    | some outcome =>
      obtain ⟨hstatus, hended⟩ := Status.eq_of_outcome? houtcome
      exact ⟨hbegun.1, hbegun.2, fun _ => hstatus, fun _ hr => absurd hr hended⟩
    | none =>
      have hfit := hbegun.1
      rw [Fit] at hfit
      have hrun := Status.eq_running houtcome hactive
      have hkept := hbegun.2
      rw [keepers, keepers, hrun] at hkept
      have hkept := hkept.trans ((World.deals_check hbroken).frame _)
      have hstop := stopOption_quiet child started.child checked hfit.1
      have htick := tickOption_fit child started.child checked hfit.1
      cases broken with
      | true =>
        exact ⟨⟨hstop.1.fit, by simp⟩, hkept.trans (hstop.2.frame_left _), fun _ => rfl,
          fun _ hr => nomatch hr⟩
      | false =>
        have hended := World.Deals.step (.finish (tickOption child started.child checked).2.2 guard
          policy started.observer (tickOption child started.child checked).1)
        refine ⟨⟨htick.fit, ?_⟩, (hkept.trans (htick.deals.frame_left _)).trans (hended.frame _),
          fun _ => rfl, fun hover hr => ⟨?_, htick.waiting hover hr⟩⟩
        · exact fun hidle => absurd hidle (Outcome.status_ne_inactive _)
        · exact congrArg Outcome.status hr
  | .service label interval callback child, state, world, h => by
    have hbegun := start_fit (.service label interval callback child) state world h
    have hactive := start_service_active label interval callback child state world
    rcases hstart : (Tree.service label interval callback child).start state world with
      ⟨started, begun⟩
    rw [hstart] at hbegun hactive
    rw [tick_service label interval callback child state world hstart]
    cases houtcome : started.status.outcome? with
    | some outcome =>
      obtain ⟨hstatus, hended⟩ := Status.eq_of_outcome? houtcome
      exact ⟨hbegun.1, hbegun.2, fun _ => hstatus, fun _ hr => absurd hr hended⟩
    | none =>
      have hfit := hbegun.1
      rw [Fit] at hfit
      have hkept := hbegun.2
      rw [keepers, keepers, Status.eq_running houtcome hactive] at hkept
      have htick := tickOption_fit child started.child begun hfit.1
      have hended := World.Deals.step (.serve (tickOption child started.child begun).2.2 interval
        started.timer (tickOption child started.child begun).1)
      refine ⟨⟨htick.fit, ?_, fun _ => hfit.2.2 hactive⟩,
        (hkept.trans (htick.deals.frame_left _)).trans (hended.frame _), fun _ => rfl,
        fun hover hr => ⟨congrArg Outcome.status hr, htick.waiting hover hr⟩⟩
      exact fun hidle => absurd hidle (Outcome.status_ne_inactive _)

theorem tickFrom_fit : (goOn : Outcome) → goOn ≠ .running → (trees : List (Tree A)) → (i : Nat) →
    (states : StateList trees) → (world : World A) → FitAt trees i states →
    TickedFrom trees states world (tickFrom goOn trees i states world)
  | goOn, hgo, [], _, states, world, _ => by
    rw [tickFrom]
    exact ⟨fun hr => absurd hr hgo, fun _ => trivial, .refl world _, fun _ hr => absurd hr hgo⟩
  | goOn, hgo, tree :: trees, 0, (state, states), world, h => by
    rw [FitAt] at h
    have hticked := tick_fit tree state world h.1
    rcases htick : tree.tick state world with ⟨outcome, ticked, after⟩
    rw [htick] at hticked
    have hstop := stop_quiet tree ticked after hticked.fit
    have hended := (hticked.deals.trans hstop.2).frame (keepersList trees states)
    rw [tickFrom_zero goOn tree trees state states world htick]
    split
    · rename_i hrun
      exact ⟨fun _ => ⟨⟨hticked.fit, h.2⟩, Nat.succ_pos _⟩, fun hne => absurd rfl hne,
        hticked.deals.frame _, fun hover _ => hticked.waiting hover hrun⟩
    · split
      · have hrest := tickFrom_fit goOn hgo trees 0 states (tree.stop ticked after).2
          (QuietList.fitAt _ _ _ h.2)
        exact ⟨fun hr => ⟨⟨hstop.1, (hrest.running hr).1⟩, Nat.succ_lt_succ (hrest.running hr).2⟩,
          fun hr => ⟨hstop.1, hrest.ended hr⟩, hended.trans (hrest.deals.frame_left _),
          hrest.waiting⟩
      · rename_i hrun _
        exact ⟨fun hr => absurd hr hrun, fun _ => ⟨hstop.1, h.2⟩, hended,
          fun _ hr => absurd hr hrun⟩
  | goOn, hgo, tree :: trees, i + 1, (state, states), world, h => by
    rw [FitAt] at h
    have hrest := tickFrom_fit goOn hgo trees i states world h.2
    rw [tickFrom]
    exact ⟨fun hr => ⟨⟨h.1, (hrest.running hr).1⟩, Nat.succ_lt_succ (hrest.running hr).2⟩,
      fun hr => ⟨h.1, hrest.ended hr⟩, hrest.deals.frame_left _, hrest.waiting⟩

theorem tickOption_fit : (tree : Option (Tree A)) → (state : StateOption tree) →
    (world : World A) → FitOption tree state →
    TickedOption tree state world (tickOption tree state world)
  | none, _, world, _ => ⟨trivial, .refl world _, fun _ hr => nomatch hr⟩
  | some tree, state, world, h => by
    rw [FitOption] at h
    have htick := tick_fit tree state world h
    exact ⟨htick.fit, htick.deals, htick.waiting⟩

end

end Tree

end BehaviorTree
