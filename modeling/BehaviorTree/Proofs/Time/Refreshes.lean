import BehaviorTree.Proofs.Lifecycle.Visits
import BehaviorTree.Proofs.Time.IdleSteps

/-!
`Root.refreshes` is an account of which callbacks run in a call, and in which worlds, that is made beside
the call. What a relation says of a run that begins a service and of the steps that run no callback, it says
of whole ticks: `Tree.tick_tallies`. So the journal tells of all runs, `Root.calls_journal`.
-/

namespace BehaviorTree

variable {A : Type}

/-- A run of the callback of a service that begins, or whose timer has fired. -/
structure Refresh (A : Type) where
  world : World A
  timer : TimerId
  interval : Duration
  callback : Routine A

def Refresh.after (run : Refresh A) : World A := run.world.refresh run.timer run.callback

def Refresh.instants (id : TimerId) (runs : List (Refresh A)) : List Duration :=
  (runs.filter (·.timer = id)).map (·.world.now)

theorem Refresh.instants_nil (id : TimerId) :
    Refresh.instants id ([] : List (Refresh A)) = [] := rfl

theorem Refresh.instants_append (id : TimerId) (runs more : List (Refresh A)) :
    Refresh.instants id (runs ++ more) = Refresh.instants id runs ++ Refresh.instants id more := by
  rw [instants, List.filter_append, List.map_append, instants, instants]

theorem Refresh.instants_singleton (id : TimerId) (run : Refresh A) :
    Refresh.instants id [run] = if run.timer = id then [run.world.now] else [] := by
  by_cases h : run.timer = id <;> simp [instants, h]

namespace Tree

mutual

def startRefreshes : (tree : Tree A) → tree.State → World A → List (Refresh A)
  | .condition guard _ child, state, world =>
    if state.status ≠ .inactive then []
    else
      let (id, world) := world.observe state.observer guard.key
      if child.isNone then []
      else
        let (holds, world) := world.judge guard id
        if holds then startOptionRefreshes child state.child world else []
  | .service _ interval callback child, state, world =>
    if state.status ≠ .inactive then []
    else
      let run : Refresh A := ⟨world, ⟨world.clock.nextTimer⟩, interval, callback⟩
      run :: startOptionRefreshes child state.child (run.after.addTimer interval).2
  | .action _ _, _, _ => []
  | .wait _ _, _, _ => []
  | .leaf _, _, _ => []
  | .sequence _, _, _ => []
  | .selector _, _, _ => []

def startOptionRefreshes : (tree : Option (Tree A)) → StateOption tree → World A → List (Refresh A)
  | none, _, _ => []
  | some tree, state, world => tree.startRefreshes state world

end

mutual

def fireRefreshes : (tree : Tree A) → tree.State → TimerId → World A → List (Refresh A)
  | .sequence children, state, timer, world =>
    if state.status = .running then fireAtRefreshes children state.current state.children timer world
    else []
  | .selector children, state, timer, world =>
    if state.status = .running then fireAtRefreshes children state.current state.children timer world
    else []
  | .condition _ _ child, state, timer, world =>
    if state.status = .inactive then [] else fireOptionRefreshes child state.child timer world
  | .service _ interval callback child, state, timer, world =>
    if state.status = .inactive then []
    else if state.timer = some timer then [⟨world, timer, interval, callback⟩]
    else fireOptionRefreshes child state.child timer world
  | .action _ _, _, _, _ => []
  | .wait _ _, _, _, _ => []
  | .leaf _, _, _, _ => []

def fireAtRefreshes : (trees : List (Tree A)) → Nat → StateList trees → TimerId → World A →
    List (Refresh A)
  | [], _, _, _, _ => []
  | tree :: _, 0, (state, _), timer, world => tree.fireRefreshes state timer world
  | _ :: trees, i + 1, (_, states), timer, world => fireAtRefreshes trees i states timer world

def fireOptionRefreshes : (tree : Option (Tree A)) → StateOption tree → TimerId → World A →
    List (Refresh A)
  | none, _, _, _ => []
  | some tree, state, timer, world => tree.fireRefreshes state timer world

end

end Tree

/-- A node that is ticked may begin, with the services right below it. -/
def Visit.refreshes (visit : Visit A) : List (Refresh A) :=
  visit.node.tree.startRefreshes visit.node.state visit.world

namespace Subtree

def fireDueRefreshes (node : Subtree A) (limit : Duration) : (fuel : Nat) → World A →
    List (Refresh A)
  | 0, _ => []
  | fuel + 1, world =>
    match world.clock.popDue? limit with
    | none => []
    | some (id, clock) =>
      let world := { world with clock }
      if clock.overflowed then []
      else
        node.tree.fireRefreshes node.state id world ++
          node.fireDueRefreshes limit fuel (world.dispatch node.fire id)

def advanceRefreshes (node : Subtree A) (world : World A) (dt : Duration) : List (Refresh A) :=
  let limit := world.now + dt
  if Duration.longest < limit then []
  else node.fireDueRefreshes limit (world.clock.firings limit) world

end Subtree

namespace Root

def startRefreshes (root : Root A) : List (Refresh A) :=
  if root.active then [] else root.tree.startRefreshes root.state root.world

def tickRefreshes (root : Root A) : List (Refresh A) := root.visits.flatMap Visit.refreshes

def refreshes (root : Root A) : Call A → List (Refresh A)
  | .start => root.startRefreshes
  | .tick => root.tickRefreshes
  | .advance dt => root.node.advanceRefreshes root.world dt
  | .update dt => root.node.advanceRefreshes root.world dt ++ (root.advance dt).tickRefreshes
  | .stop | .steer _ | .set _ _ | .remove _ | .getNumber _ | .getBool _ | .clear | .watch _ _
  | .unwatch _ => []

def allRefreshes (root : Root A) : List (Call A) → List (Refresh A)
  | [] => []
  | call :: calls => root.refreshes call ++ (root.call call).allRefreshes calls

end Root

namespace World

variable {before middle after : World A} {runs more : List (Refresh A)}

/-- A relation between two worlds and the runs of callbacks that led from the one to the other. It holds
where a service begins that has an interval of a kind, and between the steps that run none. The clock may
run out where a wait has a variance of a kind. -/
structure Tallying (variances intervals : Duration → Prop)
    (R : World A → World A → List (Refresh A) → Prop) : Prop where
  trans : ∀ {before middle after runs more}, R before middle runs → R middle after more →
    R before after (runs ++ more)
  idle : ∀ {before after}, before.Idles after → R before after []
  overflow : ∀ world {variance}, variances variance → variance ≠ 0 → R world world.overflow []
  begin : ∀ run : Refresh A, intervals run.interval →
    R run.world (run.after.addTimer run.interval).2 [run]

/-- The relation also holds where the callback of an active service runs, and where time passes. -/
structure Timekeeping (R : World A → World A → List (Refresh A) → Prop) : Prop where
  trans : ∀ {before middle after runs more}, R before middle runs → R middle after more →
    R before after (runs ++ more)
  idle : ∀ {before after}, before.Idles after → R before after []
  elapse : ∀ world clock, R world { world with clock } []
  run : ∀ run : Refresh A, R run.world run.after [run]

variable {variances intervals : Duration → Prop} {R : World A → World A → List (Refresh A) → Prop}

theorem Timekeeping.tallying (hR : Timekeeping R) :
    Tallying (fun _ => True) (fun _ => True) R where
  trans := hR.trans
  idle := hR.idle
  overflow world _ _ _ := hR.elapse world _
  begin run _ := hR.trans (hR.run run) (hR.elapse _ _)

namespace Tallying

theorem refl (hR : Tallying variances intervals R) (world : World A) : R world world [] :=
  hR.idle (.refl world)

theorem andIdle (hR : Tallying variances intervals R) (h : R before middle runs)
    (k : middle.Idles after) : R before after runs := by
  rw [← List.append_nil runs]
  exact hR.trans h (hR.idle k)

theorem afterIdle (hR : Tallying variances intervals R) (h : before.Idles middle)
    (k : R middle after runs) : R before after runs := hR.trans (hR.idle h) k

end Tallying

end World

namespace Tree

mutual

/-- The variances of the tree's waits are of one kind, the intervals of its services of another, and it
has no leaf that the host wrote. -/
def Measured (variances intervals : Duration → Prop) : Tree A → Prop
  | .action _ _ => True
  | .wait _ variance => variances variance
  | .leaf _ => False
  | .sequence children => MeasuredList variances intervals children
  | .selector children => MeasuredList variances intervals children
  | .condition _ _ child => MeasuredOption variances intervals child
  | .service _ interval _ child => intervals interval ∧ MeasuredOption variances intervals child

def MeasuredList (variances intervals : Duration → Prop) : List (Tree A) → Prop
  | [] => True
  | tree :: trees => tree.Measured variances intervals ∧ MeasuredList variances intervals trees

def MeasuredOption (variances intervals : Duration → Prop) : Option (Tree A) → Prop
  | none => True
  | some tree => tree.Measured variances intervals

end

section Measured

variable {variances intervals : Duration → Prop}

mutual

theorem Measured.builtIn : (tree : Tree A) → tree.Measured variances intervals → tree.BuiltIn
  | .action _ _, _ => trivial
  | .wait _ _, _ => trivial
  | .sequence children, h => MeasuredList.builtIn children h
  | .selector children, h => MeasuredList.builtIn children h
  | .condition _ _ child, h => MeasuredOption.builtIn child h
  | .service _ _ _ child, h => MeasuredOption.builtIn child h.2

theorem MeasuredList.builtIn : (trees : List (Tree A)) → MeasuredList variances intervals trees →
    BuiltInList trees
  | [], _ => trivial
  | tree :: trees, h => ⟨Measured.builtIn tree h.1, MeasuredList.builtIn trees h.2⟩

theorem MeasuredOption.builtIn : (tree : Option (Tree A)) → MeasuredOption variances intervals tree →
    BuiltInOption tree
  | none, _ => trivial
  | some tree, h => Measured.builtIn tree h

end

mutual

theorem BuiltIn.measured : (tree : Tree A) → tree.BuiltIn →
    tree.Measured (fun _ => True) fun _ => True
  | .action _ _, _ => trivial
  | .wait _ _, _ => trivial
  | .sequence children, h => BuiltInList.measured children h
  | .selector children, h => BuiltInList.measured children h
  | .condition _ _ child, h => BuiltInOption.measured child h
  | .service _ _ _ child, h => ⟨trivial, BuiltInOption.measured child h⟩

theorem BuiltInList.measured : (trees : List (Tree A)) → BuiltInList trees →
    MeasuredList (fun _ => True) (fun _ => True) trees
  | [], _ => trivial
  | tree :: trees, h => ⟨BuiltIn.measured tree h.1, BuiltInList.measured trees h.2⟩

theorem BuiltInOption.measured : (tree : Option (Tree A)) → BuiltInOption tree →
    MeasuredOption (fun _ => True) (fun _ => True) tree
  | none, _ => trivial
  | some tree, h => BuiltIn.measured tree h

end

end Measured

def refreshesOf (visits : List (Visit A)) : List (Refresh A) := visits.flatMap Visit.refreshes

theorem refreshesOf_cons (visit : Visit A) (visits : List (Visit A)) :
    refreshesOf (visit :: visits) = visit.refreshes ++ refreshesOf visits := List.flatMap_cons

theorem refreshesOf_append (visits more : List (Visit A)) :
    refreshesOf (visits ++ more) = refreshesOf visits ++ refreshesOf more := List.flatMap_append

section Tallies

variable {variances intervals : Duration → Prop} {R : World A → World A → List (Refresh A) → Prop}
variable (hR : World.Tallying variances intervals R)
include hR

mutual

theorem start_tallies : (tree : Tree A) → tree.Measured variances intervals → (state : tree.State) →
    (world : World A) → R world (tree.start state world).2 (tree.startRefreshes state world)
  | .action _ _, _, _, world => hR.refl world
  | .wait duration variance, h, state, world => by
    rw [start]
    split
    · exact hR.refl world
    · split
      · exact hR.refl world
      · rename_i hnone
        refine hR.overflow world h fun hzero => ?_
        rw [Random.waitingTime, if_pos hzero] at hnone
        cases hnone
  | .sequence _, _, _, world => hR.refl world
  | .selector _, _, _, world => hR.refl world
  | .condition guard policy child, h, state, world => by
    by_cases hidle : state.status = .inactive
    · have hobserved := world.idles_observe state.observer guard.key
      rcases hobserve : world.observe state.observer guard.key with ⟨id, observed⟩
      have hjudged := observed.idles_judge guard id
      rcases hjudge : observed.judge guard id with ⟨holds, judged⟩
      rw [hobserve] at hobserved
      rw [hjudge] at hjudged
      rw [start_condition guard policy child state world hidle hobserve hjudge, startRefreshes,
        if_neg (not_not.mpr hidle), hobserve]
      dsimp only
      rw [hjudge]
      split
      · exact hR.idle (hobserved.trans (observed.idles_record fun _ => rfl))
      · refine hR.afterIdle (hobserved.trans hjudged) ?_
        cases holds with
        | true => exact startOption_tallies child h state.child judged
        | false => exact hR.refl judged
    · rw [start, if_pos hidle, startRefreshes, if_pos hidle]
      exact hR.refl world
  | .service label interval callback child, h, state, world => by
    by_cases hidle : state.status = .inactive
    · rw [start_service label interval callback child state world hidle rfl, startRefreshes,
        if_neg (not_not.mpr hidle)]
      exact hR.trans (hR.begin ⟨world, ⟨world.clock.nextTimer⟩, interval, callback⟩ h.1)
        (startOption_tallies child h.2 state.child _)
    · rw [start, if_pos hidle, startRefreshes, if_pos hidle]
      exact hR.refl world

theorem startOption_tallies : (tree : Option (Tree A)) → MeasuredOption variances intervals tree →
    (state : StateOption tree) → (world : World A) →
    R world (startOption tree state world).2 (startOptionRefreshes tree state world)
  | none, _, _, world => hR.refl world
  | some tree, h, state, world => start_tallies tree h state world

end

theorem tickRest_tallies {goOn : Outcome} {trees : List (Tree A)} (h : BuiltInList trees)
    {current : Nat} {states : StateList trees} {world : World A} {runs : List (Refresh A)}
    (hticked : R world (tickFrom goOn trees current states world).2.2.2 runs) :
    R world (tickRest goOn trees current states world).2.2 runs :=
  hR.andIdle hticked (settle_idles trees h _ _ _ _)

mutual

theorem tick_tallies : (tree : Tree A) → tree.Measured variances intervals → (state : tree.State) →
    (world : World A) →
    R world (tree.tick state world).2.2 (refreshesOf (tree.visits state world))
  | .action label command, _, state, world => by
    have hrecord : world.Idles (world.record (.acted label)) := world.idles_record fun _ => rfl
    rw [tick, visits]
    split
    · exact hR.refl world
    · cases command with
      | always effect => exact hR.idle (hrecord.trans (World.idles_mapAgent _ effect))
      | drawn low high effect => exact hR.idle (hrecord.trans (World.idles_mapAgent _ _))
  | .wait duration variance, h, state, world => by
    have hbegun := start_tallies hR (.wait duration variance) h state world
    rw [tick, visits]
    dsimp only
    split
    · exact hbegun
    · split <;> exact hbegun
  | .sequence children, h, state, world => by
    rw [tick_sequence, visits, refreshesOf_cons]
    cases houtcome : state.begin.status.outcome? with
    | some outcome => exact hR.refl world
    | none =>
      exact tickRest_tallies hR (MeasuredList.builtIn _ h)
        (tickFrom_tallies .success (by simp) children h _ _ world)
  | .selector children, h, state, world => by
    have hbuilt := MeasuredList.builtIn _ h
    rw [tick_selector, visits, refreshesOf_cons]
    cases houtcome : state.begin.status.outcome? with
    | some outcome => exact hR.refl world
    | none =>
      have hasked := arbitrate_idles children hbuilt state.begin world
      dsimp only
      rcases harb : arbitrate children state.begin world with ⟨_ | current, states, asked⟩ <;>
        rw [harb] at hasked
      · exact hR.idle (hasked.trans (settle_idles children hbuilt _ _ states asked))
      · exact hR.afterIdle hasked (tickRest_tallies hR hbuilt
          (tickFrom_tallies .fail (by simp) children h current states asked))
  | .condition guard policy child, h, state, world => by
    have hbegun := start_tallies hR (.condition guard policy child) h state world
    rcases hstart : (Tree.condition guard policy child).start state world with ⟨started, begun⟩
    rcases hbroken : (if policy.abortsSelf then begun.stoppedHolding guard started.observer
      else (false, begun)) with ⟨broken, checked⟩
    rw [hstart] at hbegun
    rw [tick_condition guard policy child state world hstart hbroken, visits, refreshesOf_cons, hstart]
    dsimp only
    cases started.status.outcome? with
    | some outcome => exact hR.trans hbegun (hR.refl begun)
    | none =>
      have hchecked : begun.Idles checked := by
        split at hbroken
        · have hlooked := begun.idles_stoppedHolding guard started.observer
          rwa [hbroken] at hlooked
        · cases hbroken
          exact .refl begun
      dsimp only
      rw [hbroken]
      refine hR.trans hbegun (hR.afterIdle hchecked ?_)
      cases broken with
      | true =>
        exact hR.idle (stopOption_discards World.discarding_idles child
          (MeasuredOption.builtIn child h) started.child checked)
      | false => exact tickOption_tallies child h started.child checked
  | .service label interval callback child, h, state, world => by
    have hbegun := start_tallies hR (.service label interval callback child) h state world
    rcases hstart : (Tree.service label interval callback child).start state world with
      ⟨started, begun⟩
    rw [hstart] at hbegun
    rw [tick_service label interval callback child state world hstart, visits, refreshesOf_cons, hstart]
    dsimp only
    cases started.status.outcome? with
    | some outcome => exact hR.trans hbegun (hR.refl begun)
    | none => exact hR.trans hbegun (tickOption_tallies child h.2 started.child begun)

theorem tickFrom_tallies : (goOn : Outcome) → goOn ≠ .running → (trees : List (Tree A)) →
    MeasuredList variances intervals trees → (i : Nat) → (states : StateList trees) →
    (world : World A) → R world (tickFrom goOn trees i states world).2.2.2
      (refreshesOf (visitsFrom goOn trees i states world))
  | _, _, [], _, _, _, world => hR.refl world
  | goOn, hgo, tree :: trees, h, 0, (state, states), world => by
    have hticked := tick_tallies tree h.1 state world
    rcases htick : tree.tick state world with ⟨outcome, ticked, after⟩
    have hstopped := stop_discards World.discarding_idles tree (Measured.builtIn tree h.1) ticked after
    rw [htick] at hticked
    rw [tickFrom_zero goOn tree trees state states world htick, visitsFrom, htick, refreshesOf_append]
    dsimp only
    by_cases hrunning : outcome = .running
    · rw [if_pos hrunning, if_neg (hrunning ▸ Ne.symm hgo)]
      exact hR.trans hticked (hR.refl after)
    · have hended := hR.andIdle hticked hstopped
      rw [if_neg hrunning]
      split
      · exact hR.trans hended (tickFrom_tallies goOn hgo trees h.2 0 states _)
      · exact hR.trans hended (hR.refl _)
  | goOn, hgo, tree :: trees, h, i + 1, (state, states), world => by
    rw [tickFrom, visitsFrom]
    exact tickFrom_tallies goOn hgo trees h.2 i states world

theorem tickOption_tallies : (tree : Option (Tree A)) → MeasuredOption variances intervals tree →
    (state : StateOption tree) → (world : World A) →
    R world (tickOption tree state world).2.2 (refreshesOf (visitsOption tree state world))
  | none, _, _, world => hR.refl world
  | some tree, h, state, world => tick_tallies tree h state world

end

end Tallies

section Fires

variable {R : World A → World A → List (Refresh A) → Prop} (hR : World.Timekeeping R)
include hR

mutual

theorem fire_tallies : (tree : Tree A) → tree.BuiltIn → (state : tree.State) → (timer : TimerId) →
    (world : World A) → R world (tree.fire state timer world).2 (tree.fireRefreshes state timer world)
  | .action _ _, _, _, _, world => hR.idle (.refl world)
  | .wait _ _, _, _, _, world => hR.idle (.refl world)
  | .sequence children, h, state, timer, world => by
    rw [fire, fireRefreshes]
    split
    · exact fireAt_tallies children h state.current state.children timer world
    · exact hR.idle (.refl world)
  | .selector children, h, state, timer, world => by
    rw [fire, fireRefreshes]
    split
    · exact fireAt_tallies children h state.current state.children timer world
    · exact hR.idle (.refl world)
  | .condition _ _ child, h, state, timer, world => by
    rw [fire, fireRefreshes]
    split
    · exact hR.idle (.refl world)
    · exact fireOption_tallies child h state.child timer world
  | .service _ interval callback child, h, state, timer, world => by
    rw [fire, fireRefreshes]
    split
    · exact hR.idle (.refl world)
    · split
      · exact hR.run ⟨world, timer, interval, callback⟩
      · exact fireOption_tallies child h state.child timer world

theorem fireAt_tallies : (trees : List (Tree A)) → BuiltInList trees → (i : Nat) →
    (states : StateList trees) → (timer : TimerId) → (world : World A) →
    R world (fireAt trees i states timer world).2 (fireAtRefreshes trees i states timer world)
  | [], _, _, _, _, world => hR.idle (.refl world)
  | tree :: _, h, 0, (state, _), timer, world => fire_tallies tree h.1 state timer world
  | _ :: trees, h, i + 1, (_, states), timer, world => fireAt_tallies trees h.2 i states timer world

theorem fireOption_tallies : (tree : Option (Tree A)) → BuiltInOption tree →
    (state : StateOption tree) → (timer : TimerId) → (world : World A) →
    R world (fireOption tree state timer world).2 (fireOptionRefreshes tree state timer world)
  | none, _, _, _, world => hR.idle (.refl world)
  | some tree, h, state, timer, world => fire_tallies tree h state timer world

end

end Fires

end Tree

namespace Subtree

variable {node : Subtree A} {R : World A → World A → List (Refresh A) → Prop}
variable (hR : World.Timekeeping R)
include hR

theorem dispatch_tallies (h : node.tree.BuiltIn) (timer : TimerId) (world : World A) :
    R world (world.dispatch node.fire timer) (node.tree.fireRefreshes node.state timer world) := by
  have hfired := Tree.fire_tallies hR node.tree h node.state timer world
  rw [World.dispatch]
  dsimp only
  split
  · exact hfired
  · let fired := (node.tree.fire node.state timer world).2
    have hunowned : fired.Idles (fired.record (.unownedTimer timer)) :=
      fired.idles_record fun _ => rfl
    exact hR.tallying.andIdle hfired
      (hunowned.trans (World.discarding_idles.cancel? _ (some timer)))

theorem fireDue_tallies (h : node.tree.BuiltIn) (limit : Duration) (fuel : Nat) (world : World A) :
    R world (World.fireDue node.fire limit fuel world) (node.fireDueRefreshes limit fuel world) := by
  induction fuel generalizing world with
  | zero => exact hR.idle (.refl world)
  | succ fuel ih =>
    rw [World.fireDue, fireDueRefreshes]
    cases world.clock.popDue? limit with
    | none => exact hR.idle (.refl world)
    | some popped =>
      obtain ⟨id, clock⟩ := popped
      have hpopped := hR.elapse world clock
      dsimp only
      split
      · exact hpopped
      · have hlater := hR.trans (dispatch_tallies hR h id { world with clock }) (ih _)
        exact (hR.trans hpopped hlater :)

theorem advance_tallies (h : node.tree.BuiltIn) (world : World A) (dt : Duration) :
    R world (world.advance node.fire dt) (node.advanceRefreshes world dt) := by
  rw [World.advance, advanceRefreshes]
  dsimp only
  split
  · exact hR.elapse world _
  · have hfired := fireDue_tallies hR h (world.now + dt) (world.clock.firings (world.now + dt)) world
    rw [← List.append_nil (node.fireDueRefreshes _ _ _)]
    exact hR.trans hfired (hR.elapse _ _)

end Subtree

namespace Root

variable {root : Root A} {variances intervals : Duration → Prop}
variable {R : World A → World A → List (Refresh A) → Prop}

theorem start_tallies (hR : World.Tallying variances intervals R)
    (h : root.tree.Measured variances intervals) :
    R root.world root.start.world root.startRefreshes := by
  rw [start, startRefreshes]
  split
  · exact hR.refl root.world
  · exact Tree.start_tallies hR root.tree h root.state root.world

theorem tick_tallies (hR : World.Tallying variances intervals R)
    (h : root.tree.Measured variances intervals) :
    R root.world root.tick.world root.tickRefreshes := by
  rw [tickRefreshes, visits]
  by_cases hactive : root.active = true
  · have hready : root.readied.tree = root.tree ∧ root.world.Idles root.readied.world := by
      rw [readied]
      split
      · exact ⟨rfl, released_idles (Tree.Measured.builtIn _ h)⟩
      · exact ⟨rfl, .refl root.world⟩
    rw [if_pos hactive, root.tick_eq hactive]
    exact hR.afterIdle hready.2
      (Tree.tick_tallies hR root.readied.tree (hready.1 ▸ h) root.readied.state root.readied.world)
  · rw [if_neg hactive, tick, if_pos (by simpa using hactive)]
    exact hR.refl root.world

/-- What holds of the runs of callbacks and of the host's own writes holds of each call. -/
theorem call_tallies (hR : World.Timekeeping R) (h : root.tree.BuiltIn) (call : Call A)
    (hset : ∀ key value, call = .set key value → R root.world (root.world.set key value).2 [])
    (hremove : ∀ key, call = .remove key → R root.world (root.world.remove key).2 []) :
    R root.world (root.call call).world (root.refreshes call) := by
  have hnode : root.node.tree.BuiltIn := h
  have hadvance (dt : Duration) :
      R root.world (root.advance dt).world (root.node.advanceRefreshes root.world dt) :=
    Subtree.advance_tallies hR hnode root.world dt
  have hmeasured := Tree.BuiltIn.measured root.tree h
  cases call with
  | start => exact start_tallies hR.tallying hmeasured
  | tick => exact tick_tallies hR.tallying hmeasured
  | advance dt => exact hadvance dt
  | update dt =>
    have hticked := (root.advance dt).tick_tallies hR.tallying hmeasured
    exact hR.trans (hadvance dt) hticked
  | stop => exact hR.idle (stop_idles h)
  | steer f => exact hR.idle (World.idles_mapAgent _ f)
  | set key value => exact hset key value rfl
  | remove key => exact hremove key rfl
  | getNumber key => exact hR.idle (World.idles_getNumber _ key)
  | getBool key => exact hR.idle (World.idles_getBool _ key)
  | clear => exact hR.idle (World.idles_withBoard fun hsound _ => Board.hushed_forget hsound _ _)
  | watch key reaction =>
    have hsubscribed := root.world.idles_subscribe key
    exact hR.idle ⟨rfl, rfl, fun _ => rfl, hsubscribed.hushed⟩
  | unwatch id => exact hR.idle (root.world.idles_unsubscribe id)

theorem timekeeping_journal : World.Timekeeping fun before after : World A => fun runs =>
    ∀ id, after.refreshes id = before.refreshes id ++ Refresh.instants id runs where
  trans h k id := by
    rw [k id, h id, Refresh.instants_append, List.append_assoc]
  idle h id := by
    rw [h.refreshes_eq, Refresh.instants_nil, List.append_nil]
  elapse _ _ _ := (List.append_nil _).symm
  run run id := by
    rw [Refresh.after, World.refreshes_refresh, Refresh.instants_singleton]

/-- The journal tells of all runs of callbacks, in whatever calls they were, and of no others. -/
theorem calls_journal (h : root.tree.BuiltIn) (calls : List (Call A)) (id : TimerId) :
    (root.calls calls).world.refreshes id =
      root.world.refreshes id ++ Refresh.instants id (root.allRefreshes calls) := by
  induction calls generalizing root with
  | nil => exact (List.append_nil _).symm
  | cons call calls ih =>
    have hcall := root.call_tallies timekeeping_journal h call
      (fun key value _ id => ((World.writes_set root.world key value).refreshes_eq id).trans
        (List.append_nil _).symm)
      (fun key _ id => ((World.writes_remove root.world key).refreshes_eq id).trans
        (List.append_nil _).symm)
    have hplan : (root.call call).tree.BuiltIn := (root.call_plan call).1 ▸ h
    rw [allRefreshes, Refresh.instants_append, ← List.append_assoc, ← hcall id]
    exact ih hplan

end Root

end BehaviorTree
