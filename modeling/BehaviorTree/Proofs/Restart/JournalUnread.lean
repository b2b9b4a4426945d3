import BehaviorTree.Proofs.Lifecycle.Session

namespace BehaviorTree

variable {A : Type}

namespace World

/-- The same world with more entries at the old end of its journal. -/
def aged (world : World A) (old : List Event) : World A :=
  { world with journal := world.journal ++ old }

variable (world : World A) (old : List Event)

theorem aged_withReport (board : Board) (report : Option KeyWarning) :
    (world.aged old).withReport board report = (world.withReport board report).aged old := by
  cases report <;> rfl

theorem aged_evaluate (guard : Guard) :
    (world.aged old).evaluate guard = ((world.evaluate guard).1, (world.evaluate guard).2.aged old) :=
  congrArg (_, ·) (world.aged_withReport old _ _)

theorem aged_judge (guard : Guard) (observer : ObserverId) :
    (world.aged old).judge guard observer =
      ((world.judge guard observer).1, (world.judge guard observer).2.aged old) := by
  rw [judge, aged_evaluate]
  rfl

theorem aged_observe (observer : Option ObserverId) (key : String) :
    (world.aged old).observe observer key =
      ((world.observe observer key).1, (world.observe observer key).2.aged old) := by
  cases observer <;> rfl

theorem aged_dismiss? (observer : Option ObserverId) :
    (world.aged old).dismiss? observer = (world.dismiss? observer).aged old := by
  cases observer with
  | none => rfl
  | some id =>
    rw [dismiss?, dismiss?, dismiss, dismiss]
    split <;> rename_i hpending
    · exact (if_pos hpending).symm ▸ rfl
    · exact (if_neg hpending).symm ▸ rfl

theorem aged_unsubscribe? (observer : Option ObserverId) :
    (world.aged old).unsubscribe? observer = (world.unsubscribe? observer).aged old := by
  cases observer <;> rfl

theorem aged_cancel? (timer : Option TimerId) :
    (world.aged old).cancel? timer = (world.cancel? timer).aged old := by
  cases timer <;> rfl

theorem aged_breaks (guard : Guard) (observer : ObserverId) :
    (world.aged old).breaks guard observer =
      ((world.breaks guard observer).1, (world.breaks guard observer).2.aged old) := by
  rw [breaks, breaks, aged_evaluate]
  dsimp only
  split <;> rfl

theorem aged_stoppedHolding (guard : Guard) (observer : Option ObserverId) :
    (world.aged old).stoppedHolding guard observer =
      ((world.stoppedHolding guard observer).1, (world.stoppedHolding guard observer).2.aged old) := by
  cases observer with
  | none => rfl
  | some id =>
    have hbreaks := (world.acknowledge id).aged_breaks old guard id
    rw [stoppedHolding, stoppedHolding]
    by_cases hpending : world.board.isPending id = true
    · rw [if_pos hpending, ← hbreaks]
      exact if_pos hpending
    · rw [if_neg hpending]
      exact if_neg hpending

theorem aged_startedHolding (guard : Guard) (observer : Option ObserverId) :
    (world.aged old).startedHolding guard observer =
      ((world.startedHolding guard observer).1, (world.startedHolding guard observer).2.aged old) := by
  cases observer with
  | none => rfl
  | some id =>
    have hjudge := (world.acknowledge id).aged_judge old guard id
    rw [startedHolding, startedHolding]
    by_cases hpending : world.board.isPending id = true
    · rw [if_pos hpending, ← hjudge]
      exact if_pos hpending
    · rw [if_neg hpending]
      exact if_neg hpending

theorem aged_run (routine : Routine A) : routine.run (world.aged old) = (routine.run world).aged old := by
  induction routine generalizing world with
  | done => rfl
  | act effect next ih => exact ih (world.mapAgent effect)
  | look next ih => exact ih world.agent world
  | get key next ih => exact ih _ world
  | getNumber key next ih =>
    exact (congrArg _ (world.aged_withReport old _ _)).trans (ih _ _)
  | getBool key next ih =>
    exact (congrArg _ (world.aged_withReport old _ _)).trans (ih _ _)
  | set key value next ih => exact ih _ (world.set key value).2
  | remove key next ih => exact ih _ (world.remove key).2

theorem aged_refresh (timer : TimerId) (callback : Routine A) :
    (world.aged old).refresh timer callback = (world.refresh timer callback).aged old :=
  (world.record (.refreshed timer world.now)).aged_run old callback

theorem aged_command (command : Command A) (random : Random) :
    command.run random (world.aged old) =
      ((command.run random world).1, (command.run random world).2.aged old) := by
  cases command <;> rfl

/-- A change of the world that has nothing to do with its clock. -/
structure ClockBlind (change : World A → World A) : Prop where
  clock_eq : ∀ world, (change world).clock = world.clock
  withClock : ∀ world clock, change { world with clock } = { change world with clock }
  record : ∀ world event, change (world.record event) = (change world).record event

theorem clockBlind_aged : ClockBlind fun world : World A => world.aged old :=
  ⟨fun _ => rfl, fun _ _ => rfl, fun _ _ => rfl⟩

theorem clockBlind_acknowledge (id : ObserverId) : ClockBlind fun world : World A => world.acknowledge id :=
  ⟨fun _ => rfl, fun _ _ => rfl, fun _ _ => rfl⟩

namespace ClockBlind

variable {change : World A → World A} {fire : TimerId → World A → Bool × World A}

theorem cancel (h : ClockBlind change) (id : TimerId) :
    ((change world).cancel id).2 = change (world.cancel id).2 := by
  rw [World.cancel, World.cancel, h.clock_eq]
  exact (h.withClock world _).symm

theorem overflow (h : ClockBlind change) : (change world).overflow = change world.overflow := by
  rw [World.overflow, h.clock_eq]
  exact (h.withClock world _).symm

variable (hfire : ∀ id world, fire id (change world) = ((fire id world).1, change (fire id world).2))

include hfire

theorem dispatch (h : ClockBlind change) (id : TimerId) :
    (change world).dispatch fire id = change (world.dispatch fire id) := by
  rw [World.dispatch, World.dispatch, hfire]
  dsimp only
  split
  · rfl
  · rw [← h.record, h.cancel]

theorem fireDue (h : ClockBlind change) (limit : Duration) (fuel : Nat) :
    World.fireDue fire limit fuel (change world) = change (World.fireDue fire limit fuel world) := by
  induction fuel generalizing world with
  | zero => rfl
  | succ fuel ih =>
    rw [World.fireDue, World.fireDue, h.clock_eq]
    cases world.clock.popDue? limit with
    | none => rfl
    | some due =>
      dsimp only
      rw [← h.withClock, h.dispatch _ hfire, ih]
      split <;> rfl

/-- Time passes as it would without the change. -/
theorem advance (h : ClockBlind change) (dt : Duration) :
    (change world).advance fire dt = change (world.advance fire dt) := by
  rw [World.advance, World.advance, now, now, h.clock_eq, h.fireDue _ hfire]
  dsimp only
  split
  · exact h.overflow world
  · rw [h.clock_eq]
    exact (h.withClock _ _).symm

end ClockBlind

end World

namespace Tree

mutual

theorem start_aged : (tree : Tree A) → tree.BuiltIn → (state : tree.State) → (world : World A) →
    (old : List Event) → tree.start state (world.aged old) =
      ((tree.start state world).1, (tree.start state world).2.aged old)
  | .action _ _, _, _, _, _ => rfl
  | .wait duration variance, _, state, world, old => by
    rw [start, start]
    split
    · rfl
    · split <;> rfl
  | .sequence _, _, _, _, _ => rfl
  | .selector _, _, _, _, _ => rfl
  | .condition guard policy child, htree, state, world, old => by
    rw [BuiltIn] at htree
    by_cases hidle : state.status = .inactive
    · rcases hobserve : world.observe state.observer guard.key with ⟨id, observed⟩
      rcases hjudge : observed.judge guard id with ⟨holds, judged⟩
      have hobserve' := world.aged_observe old state.observer guard.key
      have hjudge' := observed.aged_judge old guard id
      rw [hobserve] at hobserve'
      rw [hjudge] at hjudge'
      rw [start_condition guard policy child state world hidle hobserve hjudge,
        start_condition guard policy child state (world.aged old) hidle hobserve' hjudge']
      split
      · rfl
      · split
        · rw [startOption_aged child htree state.child judged old]
        · rfl
    · rw [start, start, if_pos hidle, if_pos hidle]
  | .service label interval callback child, htree, state, world, old => by
    rw [BuiltIn] at htree
    by_cases hidle : state.status = .inactive
    · have hrefresh := world.aged_refresh old ⟨world.clock.nextTimer⟩ callback
      have hbelow := startOption_aged child htree state.child
        ((world.refresh ⟨world.clock.nextTimer⟩ callback).addTimer interval).2 old
      rw [start_service label interval callback child state world hidle rfl,
        start_service label interval callback child state (world.aged old) hidle
          (congrArg (World.addTimer · interval) hrefresh)]
      exact Prod.ext (congrArg (ServiceState.mk _ _ ·.1) hbelow) (congrArg (·.2) hbelow)
    · rw [start, start, if_pos hidle, if_pos hidle]

theorem startOption_aged : (tree : Option (Tree A)) → BuiltInOption tree → (state : StateOption tree) →
    (world : World A) → (old : List Event) → startOption tree state (world.aged old) =
      ((startOption tree state world).1, (startOption tree state world).2.aged old)
  | none, _, _, _, _ => rfl
  | some tree, htree, state, world, old => start_aged tree htree state world old

end

mutual

theorem stop_aged : (tree : Tree A) → tree.BuiltIn → (state : tree.State) → (world : World A) →
    (old : List Event) → tree.stop state (world.aged old) =
      ((tree.stop state world).1, (tree.stop state world).2.aged old)
  | .action _ _, _, _, _, _ => rfl
  | .wait _ _, _, _, _, _ => rfl
  | .sequence children, htree, state, world, old => by
    rw [BuiltIn] at htree
    rw [stop, stop, stopAt_aged children htree]
    split <;> rfl
  | .selector children, htree, state, world, old => by
    rw [BuiltIn] at htree
    rw [stop, stop, stopAt_aged children htree]
    split <;> rfl
  | .condition guard policy child, htree, state, world, old => by
    rw [BuiltIn] at htree
    rcases hbelow : (if state.status = .inactive then (state.child, world)
      else stopOption child state.child world) with ⟨below, stopped⟩
    have hbelow' : (if state.status = .inactive then (state.child, world.aged old)
        else stopOption child state.child (world.aged old)) = (below, stopped.aged old) := by
      rw [stopOption_aged child htree]
      split at hbelow <;> rename_i hidle
      · cases hbelow
        rw [if_pos hidle]
      · rw [if_neg hidle, hbelow]
    rw [stop_condition guard policy child state world hbelow,
      stop_condition guard policy child state (world.aged old) hbelow', World.aged_dismiss?,
      World.aged_unsubscribe?]
    split <;> rfl
  | .service label interval callback child, htree, state, world, old => by
    rw [BuiltIn] at htree
    rw [stop_service, stop_service, World.aged_cancel?, stopOption_aged child htree]
    split <;> rfl

theorem stopAt_aged : (trees : List (Tree A)) → BuiltInList trees → (i : Nat) →
    (states : StateList trees) → (world : World A) → (old : List Event) →
    stopAt trees i states (world.aged old) =
      ((stopAt trees i states world).1, (stopAt trees i states world).2.aged old)
  | [], _, _, _, _, _ => rfl
  | tree :: _, htrees, 0, (state, _), world, old => by
    rw [BuiltInList] at htrees
    rw [stopAt, stopAt, stop_aged tree htrees.1]
  | _ :: trees, htrees, i + 1, (_, states), world, old => by
    rw [BuiltInList] at htrees
    rw [stopAt, stopAt, stopAt_aged trees htrees.2]

theorem stopOption_aged : (tree : Option (Tree A)) → BuiltInOption tree → (state : StateOption tree) →
    (world : World A) → (old : List Event) → stopOption tree state (world.aged old) =
      ((stopOption tree state world).1, (stopOption tree state world).2.aged old)
  | none, _, _, _, _ => rfl
  | some tree, htree, state, world, old => stop_aged tree htree state world old

end

mutual

theorem release_aged : (tree : Tree A) → tree.BuiltIn → (state : tree.State) → (world : World A) →
    (old : List Event) → tree.release state (world.aged old) =
      ((tree.release state world).1, (tree.release state world).2.aged old)
  | .action _ _, _, _, _, _ => rfl
  | .wait _ _, _, _, _, _ => rfl
  | .sequence children, htree, state, world, old => by
    rw [release, release, stop_aged (.sequence children) htree]
    rw [BuiltIn] at htree
    dsimp only
    rw [releaseList_aged children htree]
  | .selector children, htree, state, world, old => by
    rw [release, release, stop_aged (.selector children) htree]
    rw [BuiltIn] at htree
    dsimp only
    rw [releaseList_aged children htree]
  | .condition guard policy child, htree, state, world, old => by
    rw [release, release, stop_aged (.condition guard policy child) htree]
    rw [BuiltIn] at htree
    dsimp only
    rw [releaseOption_aged child htree, World.aged_unsubscribe?]
  | .service label interval callback child, htree, state, world, old => by
    rw [release, release, stop_aged (.service label interval callback child) htree]
    rw [BuiltIn] at htree
    dsimp only
    rw [releaseOption_aged child htree]

theorem releaseList_aged : (trees : List (Tree A)) → BuiltInList trees → (states : StateList trees) →
    (world : World A) → (old : List Event) → releaseList trees states (world.aged old) =
      ((releaseList trees states world).1, (releaseList trees states world).2.aged old)
  | [], _, _, _, _ => rfl
  | tree :: trees, htrees, (state, states), world, old => by
    rw [BuiltInList] at htrees
    rw [releaseList, releaseList, release_aged tree htrees.1]
    dsimp only
    rw [releaseList_aged trees htrees.2]

theorem releaseOption_aged : (tree : Option (Tree A)) → BuiltInOption tree →
    (state : StateOption tree) → (world : World A) → (old : List Event) →
    releaseOption tree state (world.aged old) =
      ((releaseOption tree state world).1, (releaseOption tree state world).2.aged old)
  | none, _, _, _, _ => rfl
  | some tree, htree, state, world, old => release_aged tree htree state world old

end

mutual

theorem preempts_aged : (tree : Tree A) → (state : tree.State) → (world : World A) →
    (old : List Event) → tree.preempts state (world.aged old) =
      ((tree.preempts state world).1, (tree.preempts state world).2.aged old)
  | .action _ _, _, _, _ => rfl
  | .wait _ _, _, _, _ => rfl
  | .leaf _, _, _, _ => rfl
  | .sequence _, _, _, _ => rfl
  | .selector _, _, _, _ => rfl
  | .condition guard policy child, state, world, old => by
    rw [preempts, preempts, World.aged_startedHolding]
    split
    · rfl
    · split <;> rfl
  | .service _ _ _ child, state, world, old => preemptsOption_aged child state.child world old

theorem preemptsOption_aged : (tree : Option (Tree A)) → (state : StateOption tree) →
    (world : World A) → (old : List Event) → preemptsOption tree state (world.aged old) =
      ((preemptsOption tree state world).1, (preemptsOption tree state world).2.aged old)
  | none, _, _, _ => rfl
  | some tree, state, world, old => preempts_aged tree state world old

end

theorem firstPreempting_aged (trees : List (Tree A)) (limit : Nat) (states : StateList trees)
    (world : World A) (old : List Event) : firstPreempting trees limit states (world.aged old) =
      ((firstPreempting trees limit states world).1,
        (firstPreempting trees limit states world).2.aged old) := by
  induction trees generalizing limit world with
  | nil => rfl
  | cons tree trees ih =>
    obtain ⟨state, states⟩ := states
    cases limit with
    | zero => rfl
    | succ limit =>
      rw [firstPreempting, firstPreempting, preempts_aged]
      rcases tree.preempts state world with ⟨_ | preemption, asked⟩
      · dsimp only
        rw [ih]
      · rfl

mutual

theorem fire_aged : (tree : Tree A) → tree.BuiltIn → (state : tree.State) → (timer : TimerId) →
    (world : World A) → (old : List Event) → tree.fire state timer (world.aged old) =
      ((tree.fire state timer world).1, (tree.fire state timer world).2.aged old)
  | .action _ _, _, _, _, _, _ => rfl
  | .wait _ _, _, _, _, _, _ => rfl
  | .sequence children, htree, state, timer, world, old => by
    rw [BuiltIn] at htree
    rw [fire, fire, fireAt_aged children htree]
    split <;> rfl
  | .selector children, htree, state, timer, world, old => by
    rw [BuiltIn] at htree
    rw [fire, fire, fireAt_aged children htree]
    split <;> rfl
  | .condition _ _ child, htree, state, timer, world, old => by
    rw [BuiltIn] at htree
    rw [fire, fire, fireOption_aged child htree]
    split <;> rfl
  | .service _ _ callback child, htree, state, timer, world, old => by
    rw [BuiltIn] at htree
    rw [fire, fire, fireOption_aged child htree, World.aged_refresh]
    split
    · rfl
    · split <;> rfl

theorem fireAt_aged : (trees : List (Tree A)) → BuiltInList trees → (i : Nat) →
    (states : StateList trees) → (timer : TimerId) → (world : World A) → (old : List Event) →
    fireAt trees i states timer (world.aged old) =
      ((fireAt trees i states timer world).1, (fireAt trees i states timer world).2.aged old)
  | [], _, _, _, _, _, _ => rfl
  | tree :: _, htrees, 0, (state, _), timer, world, old => by
    rw [BuiltInList] at htrees
    exact fire_aged tree htrees.1 state timer world old
  | _ :: trees, htrees, i + 1, (_, states), timer, world, old => by
    rw [BuiltInList] at htrees
    exact fireAt_aged trees htrees.2 i states timer world old

theorem fireOption_aged : (tree : Option (Tree A)) → BuiltInOption tree → (state : StateOption tree) →
    (timer : TimerId) → (world : World A) → (old : List Event) →
    fireOption tree state timer (world.aged old) =
      ((fireOption tree state timer world).1, (fireOption tree state timer world).2.aged old)
  | none, _, _, _, _, _ => rfl
  | some tree, htree, state, timer, world, old => fire_aged tree htree state timer world old

end

theorem settle_aged (trees : List (Tree A)) (htrees : BuiltInList trees) (outcome : Outcome)
    (current : Nat) (states : StateList trees) (world : World A) (old : List Event) :
    settle trees outcome current states (world.aged old) =
      ((settle trees outcome current states world).1, (settle trees outcome current states world).2.1,
        (settle trees outcome current states world).2.2.aged old) := by
  rw [settle, settle, releaseList_aged trees htrees]
  by_cases hrun : outcome = .running
  · rw [if_pos hrun, if_pos hrun]
  · rw [if_neg hrun, if_neg hrun]

theorem arbitrate_aged (children : List (Tree A)) (htrees : BuiltInList children)
    (state : CompositeState (StateList children)) (world : World A) (old : List Event) :
    arbitrate children state (world.aged old) =
      ((arbitrate children state world).1, (arbitrate children state world).2.1,
        (arbitrate children state world).2.2.aged old) := by
  rw [arbitrate, arbitrate, firstPreempting_aged]
  rcases firstPreempting children state.current state.children world with
    ⟨_ | ⟨winner, preemption⟩, asked⟩
  · rfl
  · have hstop := stopAt_aged children htrees state.current state.children
      (asked.record (.preempted winner state.current preemption)) old
    exact congrArg (fun stopped : StateList children × World A =>
      (if preemption = .immediate then some winner else none, stopped.1, stopped.2)) hstop

mutual

theorem tick_aged : (tree : Tree A) → tree.BuiltIn → (state : tree.State) → (world : World A) →
    (old : List Event) → tree.tick state (world.aged old) =
      ((tree.tick state world).1, (tree.tick state world).2.1, (tree.tick state world).2.2.aged old)
  | .action label command, _, state, world, old => by
    have hrun := (world.record (.acted label)).aged_command old command state.random
    rw [tick, tick]
    split
    · rfl
    · exact congrArg (fun ran : Random × World A =>
        ((.success, ⟨.succeeded, ran.1⟩, ran.2) : Outcome × ActionState × World A)) hrun
  | .wait duration variance, htree, state, world, old => by
    rw [tick, tick, start_aged (.wait duration variance) htree]
    dsimp only
    split
    · rfl
    · rcases (Tree.wait duration variance).start state world with ⟨started, begun⟩
      have hnow : (begun.aged old).now = begun.now := rfl
      dsimp only
      rw [hnow]
      split <;> rfl
  | .sequence children, htree, state, world, old => by
    rw [BuiltIn] at htree
    rw [tick_sequence, tick_sequence]
    split
    · rfl
    · rw [tickRest, tickRest, tickFrom_aged .success children htree]
      dsimp only
      rw [settle_aged children htree]
  | .selector children, htree, state, world, old => by
    rw [BuiltIn] at htree
    rw [tick_selector, tick_selector, arbitrate_aged children htree]
    split
    · rfl
    · rcases arbitrate children state.begin world with ⟨_ | current, states, asked⟩
      · exact settle_aged children htree _ _ _ _ old
      · dsimp only
        rw [tickRest, tickRest, tickFrom_aged .fail children htree]
        dsimp only
        rw [settle_aged children htree]
  | .condition guard policy child, htree, state, world, old => by
    have hstart' := start_aged (.condition guard policy child) htree state world old
    rw [BuiltIn] at htree
    rcases hstart : (Tree.condition guard policy child).start state world with ⟨started, begun⟩
    rcases hbroken : (if policy.abortsSelf then begun.stoppedHolding guard started.observer
      else (false, begun)) with ⟨broken, checked⟩
    have hbroken' : (if policy.abortsSelf then (begun.aged old).stoppedHolding guard started.observer
        else (false, begun.aged old)) = (broken, checked.aged old) := by
      rw [World.aged_stoppedHolding]
      split at hbroken <;> rename_i haborts
      · rw [if_pos haborts, hbroken]
      · cases hbroken
        rw [if_neg haborts]
    rw [hstart] at hstart'
    dsimp only at hstart'
    rw [tick_condition guard policy child state world hstart hbroken,
      tick_condition guard policy child state (world.aged old) hstart' hbroken']
    rw [stopOption_aged child htree, tickOption_aged child htree]
    split
    · rfl
    · split <;> rfl
  | .service label interval callback child, htree, state, world, old => by
    have hstart' := start_aged (.service label interval callback child) htree state world old
    rw [BuiltIn] at htree
    rcases hstart : (Tree.service label interval callback child).start state world with
      ⟨started, begun⟩
    rw [hstart] at hstart'
    dsimp only at hstart'
    rw [tick_service label interval callback child state world hstart,
      tick_service label interval callback child state (world.aged old) hstart',
      tickOption_aged child htree]
    split <;> rfl

theorem tickFrom_aged : (goOn : Outcome) → (trees : List (Tree A)) → BuiltInList trees → (i : Nat) →
    (states : StateList trees) → (world : World A) → (old : List Event) →
    tickFrom goOn trees i states (world.aged old) =
      ((tickFrom goOn trees i states world).1, (tickFrom goOn trees i states world).2.1,
        (tickFrom goOn trees i states world).2.2.1, (tickFrom goOn trees i states world).2.2.2.aged old)
  | _, [], _, _, _, _, _ => rfl
  | goOn, tree :: trees, htrees, 0, (state, states), world, old => by
    rw [BuiltInList] at htrees
    have htick' := tick_aged tree htrees.1 state world old
    rcases htick : tree.tick state world with ⟨outcome, ticked, after⟩
    rw [htick] at htick'
    rw [tickFrom_zero goOn tree trees state states world htick,
      tickFrom_zero goOn tree trees state states (world.aged old) htick', stop_aged tree htrees.1]
    dsimp only
    rw [tickFrom_aged goOn trees htrees.2]
    split
    · rfl
    · split <;> rfl
  | goOn, _ :: trees, htrees, i + 1, (_, states), world, old => by
    rw [BuiltInList] at htrees
    rw [tickFrom, tickFrom, tickFrom_aged goOn trees htrees.2]

theorem tickOption_aged : (tree : Option (Tree A)) → BuiltInOption tree → (state : StateOption tree) →
    (world : World A) → (old : List Event) → tickOption tree state (world.aged old) =
      ((tickOption tree state world).1, (tickOption tree state world).2.1,
        (tickOption tree state world).2.2.aged old)
  | none, _, _, _, _ => rfl
  | some tree, htree, state, world, old => tick_aged tree htree state world old

end

end Tree

end BehaviorTree
