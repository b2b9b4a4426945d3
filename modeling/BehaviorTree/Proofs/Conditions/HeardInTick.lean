import BehaviorTree.Proofs.Conditions.HeardChanges

namespace BehaviorTree

variable {A : Type}

theorem Outcome.status_going {outcome : Outcome} (h : outcome = .running) :
    outcome.status.outcome? = none := by
  rw [h]
  rfl

/-- The world has all that the keepers hold, and the conditions among them know what they saw last. -/
structure World.Supports (world : World A) (keepers : Multiset Keeper) : Prop where
  held : ∃ others, world.Holds (Handle.ofKeepers keepers + others)
  watchful : ∀ keeper ∈ keepers, keeper.Watchful world

namespace World.Supports

variable {world after : World A} {given taken more : Multiset Keeper}

theorem deals (h : world.Supports given) (hdeals : world.Deals after given taken) :
    after.Supports taken := by
  obtain ⟨others, hhold⟩ := h.held
  exact ⟨⟨others, hdeals.trades.holds others hhold⟩,
    hdeals.lasts Keeper.lasts_watchful hhold h.watchful⟩

theorem left (h : world.Supports (given + more)) : world.Supports given := by
  obtain ⟨others, hhold⟩ := h.held
  rw [Handle.ofKeepers_add, add_assoc] at hhold
  exact ⟨⟨_, hhold⟩, fun keeper hmem => h.watchful keeper (Multiset.mem_add.mpr (.inl hmem))⟩

theorem right (h : world.Supports (more + given)) : world.Supports given := by
  rw [add_comm] at h
  exact h.left

theorem untouched_right (h : world.Supports (given + more)) (hdeals : world.Deals after given taken) :
    ∀ handle ∈ Handle.ofKeepers more, world.Untouched after handle := by
  obtain ⟨others, hhold⟩ := h.held
  rw [Handle.ofKeepers_add, add_assoc] at hhold
  exact fun handle hmem => hdeals.untouched hhold handle (Multiset.mem_add.mpr (.inl hmem))

theorem untouched_left (h : world.Supports (more + given)) (hdeals : world.Deals after given taken) :
    ∀ handle ∈ Handle.ofKeepers more, world.Untouched after handle := by
  rw [add_comm] at h
  exact h.untouched_right hdeals

theorem looks_eq {guard : Guard} {policy : RestartPolicy} {status : Status} {id : ObserverId}
    (h : world.Supports ({.condition guard policy status (some id)} + given))
    (hdeals : world.Deals after given taken) : after.looks id = world.looks id := by
  refine (h.untouched_left hdeals (.observer id) ?_).1
  rw [Handle.ofKeepers_singleton]
  exact Multiset.mem_singleton_self _

end World.Supports

namespace Tree

theorem untouched_list {tree : Tree A} {trees : List (Tree A)} {state later : tree.State}
    {states : StateList trees} {world after : World A}
    (h : world.Supports (tree.keepers state + keepersList trees states))
    (hdeals : world.Deals after (tree.keepers state) (tree.keepers later)) :
    ∀ handle ∈ handlesList trees states, world.Untouched after handle := by
  rw [← ofKeepers_keepersList]
  exact h.untouched_right hdeals

theorem untouched_first {tree : Tree A} {trees : List (Tree A)} {state : tree.State}
    {states later : StateList trees} {world after : World A}
    (h : world.Supports (tree.keepers state + keepersList trees states))
    (hdeals : world.Deals after (keepersList trees states) (keepersList trees later)) :
    ∀ handle ∈ tree.handles state, world.Untouched after handle := by
  rw [← ofKeepers_keepers]
  exact h.untouched_left hdeals

mutual

/-- What is stopped before anything else happens is heard. -/
theorem stop_heard : (tree : Tree A) → (state : tree.State) → (world : World A) → tree.Fit state →
    world.Supports (tree.keepers state) → (∀ keeper ∈ tree.front state, keeper.Settled world) →
    tree.Heard (tree.stop state world).1 (tree.stop state world).2
  | .action _ _, _, _, _, _, _ => List.forall_mem_nil _
  | .wait _ _, _, _, _, _, _ => List.forall_mem_nil _
  | .sequence _, _, _, _, _, _ => List.forall_mem_nil _
  | .selector _, _, _, _, _, _ => List.forall_mem_nil _
  | .condition _ _ none, _, _, _, _, _ => List.forall_mem_nil _
  | .condition guard policy (some child), state, world, hfit, hsupports, hsettled => by
    rw [Fit] at hfit
    obtain ⟨id, hobserver, hsettled⟩ := List.forall_mem_singleton.mp hsettled
    rcases hbelow : (if state.status = .inactive then (state.child, world)
      else stopOption (some child) state.child world) with ⟨below, stopped⟩
    have hstopped : stopped.Settled id := by
      split at hbelow
      · cases hbelow
        exact hsettled
      · have hstill := stopOption_still (some child) state.child world hfit.1
        have hquiet := stopOption_quiet (some child) state.child world hfit.1
        rw [hbelow] at hstill hquiet
        rw [keepers, hobserver] at hsupports
        exact hsettled.still (hsupports.looks_eq hquiet.2) hstill
    rw [stop_condition guard policy (some child) state world hbelow, hobserver]
    split
    · rename_i hpolicy
      exact List.forall_mem_singleton.mpr fun hmay => absurd (Option.isNone_iff_eq_none.mp hpolicy) hmay
    · exact List.forall_mem_singleton.mpr fun _ => ⟨id, rfl, hstopped.dismiss⟩
  | .service label interval callback child, state, world, hfit, hsupports, hsettled => by
    rw [Fit] at hfit
    have hbelow := (List.forall_mem_cons.mp hsettled).2
    have hcancel := World.Deals.step (.cancel world interval state.status state.timer)
    have hcancelled : ∀ keeper ∈ frontOption child state.child,
        keeper.Settled (world.cancel? state.timer) := by
      intro keeper hmem
      have hbefore := hbelow keeper hmem
      cases keeper with
      | service => exact trivial
      | condition => cases state.timer <;> exact hbefore
    rw [stop_service]
    split
    · exact List.forall_mem_cons.mpr ⟨trivial, fun keeper hmem => (hcancelled keeper hmem).heard⟩
    · exact List.forall_mem_cons.mpr ⟨trivial, stopOption_heard child state.child _ hfit.1
        (hsupports.deals (hcancel.frame _)).right hcancelled⟩

theorem stopOption_heard : (tree : Option (Tree A)) → (state : StateOption tree) →
    (world : World A) → FitOption tree state → world.Supports (keepersOption tree state) →
    (∀ keeper ∈ frontOption tree state, keeper.Settled world) →
    ∀ keeper ∈ frontOption tree (stopOption tree state world).1,
      keeper.Heard (stopOption tree state world).2
  | none, _, _, _, _, _ => List.forall_mem_nil _
  | some tree, state, world, hfit, hsupports, hsettled =>
    stop_heard tree state world hfit hsupports hsettled

end

/-- The node has not ended, or there was no change since it ended. -/
def Poised (tree : Tree A) (state : tree.State) (world : World A) : Prop :=
  (∀ keeper ∈ tree.front state, keeper.Going) ∨ ∀ keeper ∈ tree.front state, keeper.Settled world

def PoisedOption (tree : Option (Tree A)) (state : StateOption tree) (world : World A) : Prop :=
  (∀ keeper ∈ frontOption tree state, keeper.Going) ∨
    ∀ keeper ∈ frontOption tree state, keeper.Settled world

mutual

theorem start_poised : (tree : Tree A) → (state : tree.State) → (world : World A) → tree.Fit state →
    tree.Poised state world → tree.Poised (tree.start state world).1 (tree.start state world).2
  | .action _ _, _, _, _, _ => .inl (List.forall_mem_nil _)
  | .wait _ _, _, _, _, _ => .inl (List.forall_mem_nil _)
  | .sequence _, _, _, _, _ => .inl (List.forall_mem_nil _)
  | .selector _, _, _, _, _ => .inl (List.forall_mem_nil _)
  | .condition _ _ none, _, _, _, _ => .inl (List.forall_mem_nil _)
  | .condition guard policy (some child), state, world, _, h => by
    by_cases hidle : state.status = .inactive
    · rcases hobserve : world.observe state.observer guard.key with ⟨id, observed⟩
      rcases hjudge : observed.judge guard id with ⟨holds, judged⟩
      have hdown := world.isPending_observe state.observer guard.key
      rw [hobserve] at hdown
      have hsettled := World.settled_judge guard hdown
      rw [hjudge] at hsettled
      rw [start_condition guard policy (some child) state world hidle hobserve hjudge,
        if_neg (by simp)]
      cases holds with
      | true => exact .inl (List.forall_mem_singleton.mpr rfl)
      | false => exact .inr (List.forall_mem_singleton.mpr ⟨id, rfl, hsettled⟩)
    · rw [start, if_pos hidle]
      exact h
  | .service label interval callback child, state, world, hfit, h => by
    by_cases hidle : state.status = .inactive
    · rw [Fit] at hfit
      rcases hadd : (world.refresh ⟨world.clock.nextTimer⟩ callback).addTimer interval with ⟨id, added⟩
      have hquiet := QuietOption.idle child (hfit.2.1 hidle).2
      have hbelow := startOption_poised child state.child added hfit.1
        (.inl fun keeper hmem => (hquiet keeper hmem).going)
      rw [start_service label interval callback child state world hidle hadd]
      exact hbelow.imp (fun hgoing => List.forall_mem_cons.mpr ⟨rfl, hgoing⟩)
        fun hsettled => List.forall_mem_cons.mpr ⟨trivial, hsettled⟩
    · rw [start, if_pos hidle]
      exact h

theorem startOption_poised : (tree : Option (Tree A)) → (state : StateOption tree) →
    (world : World A) → FitOption tree state → PoisedOption tree state world →
    PoisedOption tree (startOption tree state world).1 (startOption tree state world).2
  | none, _, _, _, _ => .inl (List.forall_mem_nil _)
  | some tree, state, world, hfit, h => start_poised tree state world hfit h

end

theorem begin_alert {children : List (Tree A)} {state : CompositeState (StateList children)}
    {world : World A} (hfit : FitComposite children state)
    (h : state.status = .running → AlertAt children state.current state.children world) :
    state.begin.status = .running →
      AlertAt children state.begin.current state.begin.children world := by
  unfold CompositeState.begin
  split
  · rename_i hidle
    exact fun _ => (hfit.idle (by simp [hidle])).alert world
  · exact h

mutual

theorem start_alert : (tree : Tree A) → (state : tree.State) → (world : World A) → tree.Fit state →
    tree.Alert state world → tree.Alert (tree.start state world).1 (tree.start state world).2
  | .action _ _, _, _, _, _ => trivial
  | .wait _ _, _, _, _, _ => trivial
  | .sequence children, state, _, hfit, h =>
    begin_alert ((fit_sequence children state).mp hfit) h
  | .selector children, state, _, hfit, h =>
    begin_alert ((fit_selector children state).mp hfit) h
  | .condition guard policy child, state, world, hfit, h => by
    by_cases hidle : state.status = .inactive
    · rw [Fit] at hfit
      have hquiet := hfit.2 hidle
      rcases hobserve : world.observe state.observer guard.key with ⟨id, observed⟩
      rcases hjudge : observed.judge guard id with ⟨holds, judged⟩
      rw [start_condition guard policy child state world hidle hobserve hjudge]
      split
      · exact QuietOption.alert child hquiet _
      · cases holds with
        | true =>
          exact startOption_alert child state.child judged hfit.1 (QuietOption.alert child hquiet _)
        | false => exact QuietOption.alert child hquiet _
    · rw [start, if_pos hidle]
      exact h
  | .service label interval callback child, state, world, hfit, h => by
    by_cases hidle : state.status = .inactive
    · rw [Fit] at hfit
      have hquiet := (hfit.2.1 hidle).2
      rcases hadd : (world.refresh ⟨world.clock.nextTimer⟩ callback).addTimer interval with ⟨id, added⟩
      rw [start_service label interval callback child state world hidle hadd]
      exact startOption_alert child state.child added hfit.1 (QuietOption.alert child hquiet _)
    · rw [start, if_pos hidle]
      exact h

theorem startOption_alert : (tree : Option (Tree A)) → (state : StateOption tree) →
    (world : World A) → FitOption tree state → AlertOption tree state world →
    AlertOption tree (startOption tree state world).1 (startOption tree state world).2
  | none, _, _, _, _ => trivial
  | some tree, state, world, hfit, h => start_alert tree state world hfit h

end

mutual

theorem preempts_heard : (tree : Tree A) → (state : tree.State) → (world : World A) →
    tree.Heard state world → tree.Heard state (tree.preempts state world).2
  | .action _ _, _, _, _ => List.forall_mem_nil _
  | .wait _ _, _, _, _ => List.forall_mem_nil _
  | .leaf _, _, _, _ => List.forall_mem_nil _
  | .sequence _, _, _, _ => List.forall_mem_nil _
  | .selector _, _, _, _ => List.forall_mem_nil _
  | .condition _ _ none, _, _, _ => List.forall_mem_nil _
  | .condition guard policy (some child), state, world, h => by
    rw [preempts]
    split
    · exact h
    · split
      · exact h
      · refine List.forall_mem_singleton.mpr fun hpolicy => ?_
        obtain ⟨id, hobserver, hattentive⟩ := List.forall_mem_singleton.mp h hpolicy
        rw [hobserver]
        exact ⟨id, rfl, hattentive.startedHolding⟩
  | .service _ _ _ child, state, world, h =>
    List.forall_mem_cons.mpr ⟨trivial,
      preemptsOption_heard child state.child world (List.forall_mem_cons.mp h).2⟩

theorem preemptsOption_heard : (tree : Option (Tree A)) → (state : StateOption tree) →
    (world : World A) → (∀ keeper ∈ frontOption tree state, keeper.Heard world) →
    ∀ keeper ∈ frontOption tree state, keeper.Heard (preemptsOption tree state world).2
  | none, _, _, _ => List.forall_mem_nil _
  | some tree, state, world, h => preempts_heard tree state world h

end

theorem firstPreempting_alert (trees : List (Tree A)) (limit : Nat) (states : StateList trees)
    (world : World A) (hsupports : world.Supports (keepersList trees states))
    (h : AlertAt trees limit states world) :
    AlertAt trees limit states (firstPreempting trees limit states world).2 := by
  induction trees generalizing limit world with
  | nil => exact h
  | cons tree trees ih =>
    obtain ⟨state, states⟩ := states
    cases limit with
    | zero => exact h
    | succ limit =>
      have hasked := preempts_deals tree state world
      have hheard := preempts_heard tree state world h.1
      have hrest := h.2.untouched trees (untouched_list hsupports hasked)
      have hsupported := hsupports.deals (hasked.frame _)
      rw [firstPreempting]
      split
      · rename_i heq
        rw [heq] at hheard hrest
        exact ⟨hheard, hrest⟩
      · rename_i later heq
        rw [heq] at hheard hrest hsupported
        have hfound := firstPreempting_deals trees limit states later
        exact ⟨hheard.untouched (untouched_first hsupported hfound),
          ih limit states later hsupported.right hrest⟩

theorem stopAt_alert (trees : List (Tree A)) (current : Nat) (states : StateList trees)
    (world : World A) (hfit : FitAt trees current states)
    (hsupports : world.Supports (keepersList trees states))
    (h : AlertAt trees current states world) {next : Nat} (hnext : next ≤ current) :
    AlertAt trees next (stopAt trees current states world).1 (stopAt trees current states world).2 := by
  induction trees generalizing current next with
  | nil => trivial
  | cons tree trees ih =>
    obtain ⟨state, states⟩ := states
    cases current with
    | zero =>
      obtain rfl := Nat.le_zero.mp hnext
      have hstop := stop_quiet tree state world hfit.1
      have hquiet : QuietList (tree :: trees) ((tree.stop state world).1, states) := ⟨hstop.1, hfit.2⟩
      exact hquiet.alert _
    | succ current =>
      have hstop := stopAt_quiet trees current states world hfit.2
      cases next with
      | zero =>
        have hquiet : QuietList (tree :: trees) (state, (stopAt trees current states world).1) :=
          ⟨hfit.1, hstop.1⟩
        exact hquiet.alert _
      | succ next =>
        exact ⟨h.1.untouched (untouched_first hsupports hstop.2),
          ih current states hfit.2 hsupports.right h.2 (Nat.le_of_succ_le_succ hnext)⟩

theorem arbitrate_alert {children : List (Tree A)} {state : CompositeState (StateList children)}
    {world : World A} (hfit : FitAt children state.current state.children)
    (hsupports : world.Supports (keepersList children state.children))
    (h : AlertAt children state.current state.children world) {current : Nat}
    {states : StateList children} {asked : World A}
    (harbitrate : arbitrate children state world = (some current, states, asked)) :
    FitAt children current states ∧ asked.Supports (keepersList children states) ∧
      AlertAt children current states asked := by
  obtain ⟨hgo, -, hdeals⟩ := arbitrate_fit children state world hfit
  rw [harbitrate] at hgo hdeals
  refine ⟨hgo current rfl, hsupports.deals hdeals, ?_⟩
  have halert := firstPreempting_alert children state.current state.children world hsupports h
  have hasked := firstPreempting_deals children state.current state.children world
  have hlt := firstPreempting_lt children state.current state.children world
  unfold arbitrate at harbitrate
  rcases hfirst : firstPreempting children state.current state.children world with
    ⟨_ | ⟨winner, preemption⟩, later⟩ <;> rw [hfirst] at harbitrate halert hasked hlt
  · cases harbitrate
    exact halert
  · have hacts := World.Acts.preempted later winner state.current preemption
    have hsupported := (hsupports.deals hasked).deals (.of_acts hacts _)
    have hbefore := halert.untouched children fun handle _ => hacts.untouched handle
    have hstopped := stopAt_alert children state.current state.children _ hfit hsupported hbefore
      (Nat.le_of_lt (hlt (winner, preemption) rfl))
    obtain ⟨hwinner, hrest⟩ := Prod.mk.inj harbitrate
    obtain ⟨rfl, rfl⟩ := Prod.mk.inj hrest
    split at hwinner
    · cases hwinner
      exact hstopped
    · cases hwinner

/-- What a tick makes of an alert tree. -/
structure TickedAlert (tree : Tree A) (state : tree.State) (world : World A)
    (after : Outcome × tree.State × World A) : Prop where
  alert : tree.Alert after.2.1 after.2.2
  going : after.1 = .running → ∀ keeper ∈ tree.front after.2.1, keeper.Going
  /-- Nothing happens between the last look at a guard and the end of the tick. -/
  settled : after.1 ≠ .running → tree.Poised state world →
    ∀ keeper ∈ tree.front after.2.1, keeper.Settled after.2.2

structure TickedAlertOption (tree : Option (Tree A)) (state : StateOption tree) (world : World A)
    (after : Outcome × StateOption tree × World A) : Prop where
  alert : AlertOption tree after.2.1 after.2.2
  going : after.1 = .running → ∀ keeper ∈ frontOption tree after.2.1, keeper.Going
  settled : after.1 ≠ .running → PoisedOption tree state world →
    ∀ keeper ∈ frontOption tree after.2.1, keeper.Settled after.2.2

theorem settle_alert (trees : List (Tree A)) (outcome : Outcome) (current : Nat)
    (states : StateList trees) (world : World A)
    (h : outcome = .running → AlertAt trees current states world) :
    (settle trees outcome current states world).2.1.status = .running →
      AlertAt trees (settle trees outcome current states world).2.1.current
        (settle trees outcome current states world).2.1.children
        (settle trees outcome current states world).2.2 := by
  intro hstatus
  have hrun : outcome = .running := Outcome.eq_running_of_status hstatus
  have hsettle : settle trees outcome current states world =
      (outcome, ⟨outcome.status, current, states⟩, world) := by
    rw [settle, if_pos hrun]
  rw [hsettle]
  exact h hrun

theorem enter_alert {guard : Guard} {policy : RestartPolicy} {child : Option (Tree A)}
    {state started : (Tree.condition guard policy child).State} {world begun checked : World A}
    {broken : Bool} (hfit : (Tree.condition guard policy child).Fit state)
    (hsupports : world.Supports ((Tree.condition guard policy child).keepers state))
    (h : (Tree.condition guard policy child).Alert state world)
    (hstart : (Tree.condition guard policy child).start state world = (started, begun))
    (hgoing : started.status.outcome? = none)
    (hbroken : (if policy.abortsSelf then begun.stoppedHolding guard started.observer
      else (false, begun)) = (broken, checked)) :
    FitOption child started.child ∧ AlertOption child started.child checked ∧
      ∃ id, started.observer = some id ∧
        checked.Supports ({.condition guard policy (if broken then .failed else .running) (some id)} +
          keepersOption child started.child) := by
  obtain ⟨hbelow, hdeals⟩ := start_fit (.condition guard policy child) state world hfit
  have hactive := start_condition_active guard policy child state world
  have halert := start_alert (.condition guard policy child) state world hfit h
  rw [hstart] at hbelow hdeals hactive halert
  have hsupported := hsupports.deals hdeals
  rw [keepers, Status.eq_running hgoing hactive] at hsupported
  have hcheck := World.deals_check hbroken
  have hown := hsupported.left.watchful _ (Multiset.mem_singleton_self _)
  obtain ⟨id, hobserver⟩ := Option.ne_none_iff_exists'.mp (hown.1 (by simp))
  have hchecked := hsupported.deals (hcheck.frame _)
  rw [hobserver] at hchecked
  refine ⟨hbelow.1, AlertOption.untouched child ?_ halert, id, hobserver, hchecked⟩
  rw [← ofKeepers_keepersOption]
  exact hsupported.untouched_right hcheck

mutual

theorem tick_alert : (tree : Tree A) → (state : tree.State) → (world : World A) → tree.Fit state →
    world.Supports (tree.keepers state) → tree.Alert state world →
    TickedAlert tree state world (tree.tick state world)
  | .action _ _, _, _, _, _, _ =>
    ⟨trivial, fun _ => List.forall_mem_nil _, fun _ _ => List.forall_mem_nil _⟩
  | .wait _ _, _, _, _, _, _ =>
    ⟨trivial, fun _ => List.forall_mem_nil _, fun _ _ => List.forall_mem_nil _⟩
  | .sequence children, state, world, hfit, hsupports, h => by
    rw [fit_sequence] at hfit
    have hbegin := begin_alert hfit h
    refine ⟨?_, fun _ => List.forall_mem_nil _, fun _ _ => List.forall_mem_nil _⟩
    rw [tick_sequence]
    cases houtcome : state.begin.status.outcome? with
    | some outcome => exact hbegin
    | none =>
      have hrun := state.begin_running houtcome
      rw [keepers, ← state.begin_children] at hsupports
      exact settle_alert _ _ _ _ _ (tickFrom_alert .success (by simp) children _ _ world
        (hfit.begin.current hrun) hsupports (hbegin hrun))
  | .selector children, state, world, hfit, hsupports, h => by
    rw [fit_selector] at hfit
    have hbegin := begin_alert hfit h
    refine ⟨?_, fun _ => List.forall_mem_nil _, fun _ _ => List.forall_mem_nil _⟩
    rw [tick_selector]
    cases houtcome : state.begin.status.outcome? with
    | some outcome => exact hbegin
    | none =>
      have hrun := state.begin_running houtcome
      rw [keepers, ← state.begin_children] at hsupports
      dsimp only
      rcases harbitrate : arbitrate children state.begin world with ⟨_ | current, states, asked⟩
      · exact settle_alert children .fail state.begin.current states asked nofun
      · obtain ⟨hgo, hsupported, halert⟩ :=
          arbitrate_alert (hfit.begin.current hrun) hsupports (hbegin hrun) harbitrate
        exact settle_alert _ _ _ _ _
          (tickFrom_alert .fail (by simp) children current states asked hgo hsupported halert)
  | .condition guard policy child, state, world, hfit, hsupports, h => by
    have halert := start_alert (.condition guard policy child) state world hfit h
    have hpoised := start_poised (.condition guard policy child) state world hfit
    rcases hstart : (Tree.condition guard policy child).start state world with ⟨started, begun⟩
    rcases hbroken : (if policy.abortsSelf then begun.stoppedHolding guard started.observer
      else (false, begun)) with ⟨broken, checked⟩
    rw [hstart] at halert hpoised
    rw [tick_condition guard policy child state world hstart hbroken]
    cases houtcome : started.status.outcome? with
    | some outcome =>
      obtain ⟨-, hended⟩ := Status.eq_of_outcome? houtcome
      refine ⟨halert, fun hr => absurd hr hended, fun _ hbefore => ?_⟩
      cases child with
      | none => exact List.forall_mem_nil _
      | some child =>
        refine (hpoised hbefore).resolve_left fun hgoing => ?_
        have hnone : started.status.outcome? = none := hgoing _ (List.mem_singleton_self _)
        exact absurd (hnone.symm.trans houtcome) (by simp)
    | none =>
      obtain ⟨hbelow, halert, id, hobserver, hchecked⟩ :=
        enter_alert hfit hsupports h hstart houtcome hbroken
      cases broken with
      | true =>
        have hstop := stopOption_quiet child started.child checked hbelow
        have hstill := stopOption_still child started.child checked hbelow
        refine ⟨QuietOption.alert child hstop.1 _, nofun, fun _ _ => ?_⟩
        cases child with
        | none => exact List.forall_mem_nil _
        | some child =>
          have hsettled : checked.Settled id := by
            rw [hobserver] at hbroken
            split at hbroken
            · have hlooked := World.settled_stoppedHolding (congrArg Prod.fst hbroken)
              rwa [hbroken] at hlooked
            · cases hbroken
          exact List.forall_mem_singleton.mpr
            ⟨id, hobserver, hsettled.still (hchecked.looks_eq hstop.2) hstill⟩
      | false =>
        have htick := tickOption_fit child started.child checked hbelow
        have hafter := hchecked.deals (htick.deals.frame_left _)
        refine ⟨(tickOption_alert child started.child checked hbelow hchecked.right halert).alert,
          fun hr => ?_, fun _ _ => ?_⟩
        · cases child with
          | none => exact List.forall_mem_nil _
          | some child => exact List.forall_mem_singleton.mpr (Outcome.status_going hr)
        · -- The guard held when the condition looked last, or it would have given up.
          have hstanding := hafter.left.watchful _ (Multiset.mem_singleton_self _)
          cases child with
          | none => exact List.forall_mem_nil _
          | some child =>
            exact List.forall_mem_singleton.mpr
              ⟨id, hobserver, World.settled_of_head ((hstanding.2 id rfl).standing rfl)⟩
  | .service label interval callback child, state, world, hfit, hsupports, h => by
    have hbegun := start_fit (.service label interval callback child) state world hfit
    have halert := start_alert (.service label interval callback child) state world hfit h
    have hpoised := start_poised (.service label interval callback child) state world hfit
    rcases hstart : (Tree.service label interval callback child).start state world with
      ⟨started, begun⟩
    rw [hstart] at hbegun halert hpoised
    have hsupported := hsupports.deals hbegun.2
    rw [tick_service label interval callback child state world hstart]
    cases houtcome : started.status.outcome? with
    | some outcome =>
      obtain ⟨-, hended⟩ := Status.eq_of_outcome? houtcome
      refine ⟨halert, fun hr => absurd hr hended, fun _ hbefore => ?_⟩
      refine (hpoised hbefore).resolve_left fun hgoing => ?_
      have hnone : started.status.outcome? = none := (List.forall_mem_cons.mp hgoing).1
      exact absurd (hnone.symm.trans houtcome) (by simp)
    | none =>
      have hbelow := hbegun.1
      rw [Fit] at hbelow
      have htick := tickOption_alert child started.child begun hbelow.1 hsupported.right halert
      refine ⟨htick.alert,
        fun hr => List.forall_mem_cons.mpr ⟨Outcome.status_going hr, htick.going hr⟩,
        fun hr hbefore => List.forall_mem_cons.mpr ⟨trivial, htick.settled hr ?_⟩⟩
      exact (hpoised hbefore).imp (fun hgoing => (List.forall_mem_cons.mp hgoing).2)
        fun hsettled => (List.forall_mem_cons.mp hsettled).2

theorem tickFrom_alert : (goOn : Outcome) → goOn ≠ .running → (trees : List (Tree A)) → (i : Nat) →
    (states : StateList trees) → (world : World A) → FitAt trees i states →
    world.Supports (keepersList trees states) → AlertAt trees i states world →
    (tickFrom goOn trees i states world).1 = .running →
      AlertAt trees (tickFrom goOn trees i states world).2.1
        (tickFrom goOn trees i states world).2.2.1 (tickFrom goOn trees i states world).2.2.2
  | _, _, [], _, _, _, _, _, _ => fun _ => trivial
  | goOn, hgo, tree :: trees, 0, (state, states), world, hfit, hsupports, h => by
    have hticked := tick_fit tree state world hfit.1
    have halert := tick_alert tree state world hfit.1 hsupports.left h.2
    rcases htick : tree.tick state world with ⟨outcome, ticked, after⟩
    rw [htick] at hticked halert
    have hsupported := hsupports.deals (hticked.deals.frame _)
    have hstop := stop_quiet tree ticked after hticked.fit
    have hstopped := hsupported.deals (hstop.2.frame _)
    rw [tickFrom_zero goOn tree trees state states world htick]
    split
    · rename_i hrun
      exact fun _ => ⟨halert.going hrun, halert.alert⟩
    · rename_i hended
      split
      · intro hrun
        have hheard := stop_heard tree ticked after hticked.fit hsupported.left
          (halert.settled hended (.inl h.1))
        have hrest := tickFrom_fit goOn hgo trees 0 states (tree.stop ticked after).2
          (QuietList.fitAt _ _ _ hfit.2)
        exact ⟨hheard.untouched (untouched_first hstopped hrest.deals),
          tickFrom_alert goOn hgo trees 0 states _ (QuietList.fitAt _ _ _ hfit.2) hstopped.right
            (QuietList.alert hfit.2 _) hrun⟩
      · exact fun hrun => absurd hrun hended
  | goOn, hgo, tree :: trees, i + 1, (state, states), world, hfit, hsupports, h => by
    have hrest := tickFrom_fit goOn hgo trees i states world hfit.2
    rw [tickFrom]
    exact fun hrun => ⟨h.1.untouched (untouched_first hsupports hrest.deals),
      tickFrom_alert goOn hgo trees i states world hfit.2 hsupports.right h.2 hrun⟩

theorem tickOption_alert : (tree : Option (Tree A)) → (state : StateOption tree) →
    (world : World A) → FitOption tree state → world.Supports (keepersOption tree state) →
    AlertOption tree state world →
    TickedAlertOption tree state world (tickOption tree state world)
  | none, _, _, _, _, _ => ⟨trivial, nofun, fun _ _ => List.forall_mem_nil _⟩
  | some tree, state, world, hfit, hsupports, h => by
    have htick := tick_alert tree state world hfit hsupports h
    exact ⟨htick.alert, htick.going, htick.settled⟩

end

mutual

theorem visits_alert : (tree : Tree A) → (state : tree.State) → (world : World A) → tree.Fit state →
    world.Supports (tree.keepers state) → tree.Alert state world →
    ∀ visit ∈ tree.visits state world, visit.node.tree.Alert visit.node.state visit.world
  | .action _ _, _, _, _, _, h => by
    rw [visits]
    exact List.forall_mem_singleton.mpr h
  | .wait _ _, _, _, _, _, h => by
    rw [visits]
    exact List.forall_mem_singleton.mpr h
  | .sequence children, state, world, hfit, hsupports, h => by
    rw [fit_sequence] at hfit
    have hbegin := begin_alert hfit h
    rw [visits]
    refine List.forall_mem_cons.mpr ⟨h, ?_⟩
    cases houtcome : state.begin.status.outcome? with
    | some outcome => exact List.forall_mem_nil _
    | none =>
      have hrun := state.begin_running houtcome
      rw [keepers, ← state.begin_children] at hsupports
      exact visitsFrom_alert .success children _ _ world (hfit.begin.current hrun) hsupports
        (hbegin hrun)
  | .selector children, state, world, hfit, hsupports, h => by
    rw [fit_selector] at hfit
    have hbegin := begin_alert hfit h
    rw [visits]
    refine List.forall_mem_cons.mpr ⟨h, ?_⟩
    cases houtcome : state.begin.status.outcome? with
    | some outcome => exact List.forall_mem_nil _
    | none =>
      have hrun := state.begin_running houtcome
      rw [keepers, ← state.begin_children] at hsupports
      dsimp only
      rcases harbitrate : arbitrate children state.begin world with ⟨_ | current, states, asked⟩
      · exact List.forall_mem_nil _
      · obtain ⟨hgo, hsupported, halert⟩ :=
          arbitrate_alert (hfit.begin.current hrun) hsupports (hbegin hrun) harbitrate
        exact visitsFrom_alert .fail children current states asked hgo hsupported halert
  | .condition guard policy child, state, world, hfit, hsupports, h => by
    rw [visits]
    refine List.forall_mem_cons.mpr ⟨h, ?_⟩
    rcases hstart : (Tree.condition guard policy child).start state world with ⟨started, begun⟩
    dsimp only
    cases houtcome : started.status.outcome? with
    | some outcome => exact List.forall_mem_nil _
    | none =>
      dsimp only
      rcases hbroken : (if policy.abortsSelf then begun.stoppedHolding guard started.observer
        else (false, begun)) with ⟨broken, checked⟩
      obtain ⟨hbelow, halert, id, -, hchecked⟩ :=
        enter_alert hfit hsupports h hstart houtcome hbroken
      cases broken with
      | true => exact List.forall_mem_nil _
      | false => exact visitsOption_alert child started.child checked hbelow hchecked.right halert
  | .service label interval callback child, state, world, hfit, hsupports, h => by
    have hbegun := start_fit (.service label interval callback child) state world hfit
    have halert := start_alert (.service label interval callback child) state world hfit h
    rw [visits]
    refine List.forall_mem_cons.mpr ⟨h, ?_⟩
    rcases hstart : (Tree.service label interval callback child).start state world with
      ⟨started, begun⟩
    rw [hstart] at hbegun halert
    have hsupported := hsupports.deals hbegun.2
    dsimp only
    cases started.status.outcome? with
    | some outcome => exact List.forall_mem_nil _
    | none =>
      have hbelow := hbegun.1
      rw [Fit] at hbelow
      exact visitsOption_alert child started.child begun hbelow.1 hsupported.right halert

theorem visitsFrom_alert : (goOn : Outcome) → (trees : List (Tree A)) → (i : Nat) →
    (states : StateList trees) → (world : World A) → FitAt trees i states →
    world.Supports (keepersList trees states) → AlertAt trees i states world →
    ∀ visit ∈ visitsFrom goOn trees i states world,
      visit.node.tree.Alert visit.node.state visit.world
  | _, [], _, _, _, _, _, _ => List.forall_mem_nil _
  | goOn, tree :: trees, 0, (state, states), world, hfit, hsupports, h => by
    have hticked := tick_fit tree state world hfit.1
    have hstop := stop_quiet tree _ (tree.tick state world).2.2 hticked.fit
    have hstopped := hsupports.deals ((hticked.deals.trans hstop.2).frame _)
    rw [visitsFrom]
    refine List.forall_mem_append.mpr ⟨visits_alert tree state world hfit.1 hsupports.left h.2, ?_⟩
    dsimp only
    split
    · exact visitsFrom_alert goOn trees 0 states _ (QuietList.fitAt _ _ _ hfit.2) hstopped.right
        (QuietList.alert hfit.2 _)
    · exact List.forall_mem_nil _
  | goOn, _ :: trees, i + 1, (_, states), world, hfit, hsupports, h => by
    rw [visitsFrom]
    exact visitsFrom_alert goOn trees i states world hfit.2 hsupports.right h.2

theorem visitsOption_alert : (tree : Option (Tree A)) → (state : StateOption tree) →
    (world : World A) → FitOption tree state → world.Supports (keepersOption tree state) →
    AlertOption tree state world →
    ∀ visit ∈ visitsOption tree state world, visit.node.tree.Alert visit.node.state visit.world
  | none, _, _, _, _, _ => List.forall_mem_nil _
  | some tree, state, world, hfit, hsupports, h => visits_alert tree state world hfit hsupports h

end

/-- The conditions of the tree know what they saw last, and those that wait to take over are heard. -/
structure Ready (tree : Tree A) (state : tree.State) (world : World A) : Prop where
  watchful : tree.Obeys Keeper.Watchful state world
  alert : tree.Alert state world

theorem Obeys.supports {tree : Tree A} {state : tree.State} {world : World A}
    {others : Multiset Handle} (h : tree.Obeys Keeper.Watchful state world)
    (hhold : world.Holds (tree.handles state + others)) : world.Supports (tree.keepers state) := by
  rw [← ofKeepers_keepers] at hhold
  exact ⟨⟨others, hhold⟩, h⟩

theorem persists_ready : Persists (A := A) Ready where
  untouched huntouched h :=
    ⟨(persists_obeys Keeper.lasts_watchful).untouched huntouched h.watchful,
      Alert.untouched _ huntouched h.alert⟩
  start hfit hhold h :=
    ⟨(persists_obeys Keeper.lasts_watchful).start hfit hhold h.watchful,
      start_alert _ _ _ hfit h.alert⟩
  tick hfit hhold h :=
    ⟨(persists_obeys Keeper.lasts_watchful).tick hfit hhold h.watchful,
      (tick_alert _ _ _ hfit (h.watchful.supports hhold) h.alert).alert⟩
  release hfit hhold h :=
    ⟨(persists_obeys Keeper.lasts_watchful).release hfit hhold h.watchful,
      Quiet.alert _ (release_quiet _ _ _ hfit).1 _⟩

end Tree

namespace Session

variable {tree : Tree A} {initial : Values} {session : Session A}

theorem Undisturbed.ready (htree : tree.BuiltIn) (h : Undisturbed tree initial session) :
    session.Satisfies Tree.Ready :=
  h.satisfies Tree.persists_ready htree fun random world =>
    ⟨Tree.fresh_obeys Keeper.lasts_watchful world tree random htree,
      Tree.Quiet.alert tree (Tree.fresh_quiet tree random htree).1 world⟩

theorem Undisturbed.ready_below (htree : tree.BuiltIn) (h : Undisturbed tree initial session)
    {position : List Nat} {lower : Subtree A}
    (hlower : session.root.node.at? position = some lower) :
    lower.Fit ∧ session.root.world.Supports lower.keepers ∧
      lower.tree.Alert lower.state session.root.world := by
  have hkept := h.reachable.kept htree
  have hready := h.ready htree
  obtain ⟨rest, hrest⟩ := Multiset.le_iff_exists_add.mp (Subtree.keepers_below hlower)
  have hsupports := hready.watchful.supports hkept.holds
  rw [show session.root.tree.keepers session.root.state = lower.keepers + rest from hrest]
    at hsupports
  exact ⟨hkept.fit.below hlower, hsupports.left, hkept.fit.alert_below hready.alert hlower⟩

theorem Undisturbed.ready_visits (htree : tree.BuiltIn) (h : Undisturbed tree initial session)
    {visit : Visit A} (hvisit : visit ∈ session.root.visits) :
    visit.node.Fit ∧ visit.world.Supports visit.node.keepers ∧
      visit.node.tree.Alert visit.node.state visit.world := by
  have hkept := h.reachable.kept htree
  have hready := hkept.satisfies_readied Tree.persists_ready (h.ready htree)
  have hsupports := hready.watchful.supports hkept.readied.holds
  unfold Root.visits at hvisit
  split at hvisit
  · obtain ⟨hfit, rest, hdeals⟩ := Tree.visits_deals _ _ _ hkept.readied.fit visit hvisit
    exact ⟨hfit, (hsupports.deals hdeals).left,
      Tree.visits_alert _ _ _ hkept.readied.fit hsupports hready.alert visit hvisit⟩
  · cases hvisit

end Session

end BehaviorTree
