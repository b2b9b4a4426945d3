import BehaviorTree.Proofs.Time.FiringOrder
import BehaviorTree.Proofs.Time.ServiceTimers

/-!
A service sets its timer before it starts its child, and no service starts anew unless all below it have
ended. So the timers on the way down are set one after the other, however often those further down are set
again: `Session.Reachable.ranked`.
-/

namespace BehaviorTree

variable {A : Type}

namespace World

variable {world after : World A} {given taken : Multiset Keeper}

theorem steady_nextTimer (n : Nat) : Steady fun world : World A => n ≤ world.clock.nextTimer := by
  refine ⟨fun htimeless h => ?_, fun world interval callback h => ?_, fun _ _ h => h⟩
  · rw [htimeless.nextTimer_eq]
    exact h
  · rw [addTimer, Clock.addTimer, clock_refresh]
    exact Nat.le_succ_of_le h

theorem Deals.nextTimer_le (h : world.Deals after given taken) :
    world.clock.nextTimer ≤ after.clock.nextTimer :=
  (steady_nextTimer _).deals h (Nat.le_refl _)

end World

namespace Tree

mutual

/-- The timers of the services are not older than `floor` and older than `ceiling`, and grow younger on the
way down. -/
def Ranked : (tree : Tree A) → tree.State → (floor ceiling : Nat) → Prop
  | .action _ _, _, _, _ => True
  | .wait _ _, _, _, _ => True
  | .leaf _, _, _, _ => True
  | .sequence children, state, floor, ceiling => RankedList children state.children floor ceiling
  | .selector children, state, floor, ceiling => RankedList children state.children floor ceiling
  | .condition _ _ child, state, floor, ceiling => RankedOption child state.child floor ceiling
  | .service _ _ _ child, state, floor, ceiling =>
    match state.timer with
    | none => RankedOption child state.child floor ceiling
    | some id => floor ≤ id.index ∧ id.index < ceiling ∧
      RankedOption child state.child (id.index + 1) ceiling

def RankedList : (trees : List (Tree A)) → StateList trees → (floor ceiling : Nat) → Prop
  | [], _, _, _ => True
  | tree :: trees, (state, states), floor, ceiling =>
    tree.Ranked state floor ceiling ∧ RankedList trees states floor ceiling

def RankedOption : (tree : Option (Tree A)) → StateOption tree → (floor ceiling : Nat) → Prop
  | none, _, _, _ => True
  | some tree, state, floor, ceiling => tree.Ranked state floor ceiling

end

mutual

theorem Ranked.mono {early late : Nat} (hle : early ≤ late) : (tree : Tree A) →
    (state : tree.State) → (floor : Nat) → tree.Ranked state floor early → tree.Ranked state floor late
  | .action _ _, _, _, _ => trivial
  | .wait _ _, _, _, _ => trivial
  | .leaf _, _, _, _ => trivial
  | .sequence children, state, floor, h => RankedList.mono hle children state.children floor h
  | .selector children, state, floor, h => RankedList.mono hle children state.children floor h
  | .condition _ _ child, state, floor, h => RankedOption.mono hle child state.child floor h
  | .service _ _ _ child, ⟨status, timer, below⟩, floor, h => by
    cases timer with
    | none => exact RankedOption.mono hle child below floor h
    | some id => exact ⟨h.1, Nat.lt_of_lt_of_le h.2.1 hle, RankedOption.mono hle child below _ h.2.2⟩

theorem RankedList.mono {early late : Nat} (hle : early ≤ late) : (trees : List (Tree A)) →
    (states : StateList trees) → (floor : Nat) → RankedList trees states floor early →
    RankedList trees states floor late
  | [], _, _, _ => trivial
  | tree :: trees, (state, states), floor, h =>
    ⟨Ranked.mono hle tree state floor h.1, RankedList.mono hle trees states floor h.2⟩

theorem RankedOption.mono {early late : Nat} (hle : early ≤ late) : (tree : Option (Tree A)) →
    (state : StateOption tree) → (floor : Nat) → RankedOption tree state floor early →
    RankedOption tree state floor late
  | none, _, _, _ => trivial
  | some tree, state, floor, h => Ranked.mono hle tree state floor h

end

mutual

theorem Quiet.ranked (floor ceiling : Nat) : (tree : Tree A) → (state : tree.State) →
    tree.Quiet state → tree.Ranked state floor ceiling
  | .action _ _, _, _ => trivial
  | .wait _ _, _, _ => trivial
  | .leaf _, _, _ => trivial
  | .sequence children, state, h => QuietList.ranked floor ceiling children state.children h.2
  | .selector children, state, h => QuietList.ranked floor ceiling children state.children h.2
  | .condition _ _ child, state, h => QuietOption.ranked floor ceiling child state.child h.2
  | .service _ _ _ child, ⟨status, timer, below⟩, h => by
    obtain ⟨-, rfl, hbelow⟩ := h
    exact QuietOption.ranked floor ceiling child below hbelow

theorem QuietList.ranked (floor ceiling : Nat) : (trees : List (Tree A)) →
    (states : StateList trees) → QuietList trees states → RankedList trees states floor ceiling
  | [], _, _ => trivial
  | tree :: trees, (state, states), h =>
    ⟨Quiet.ranked floor ceiling tree state h.1, QuietList.ranked floor ceiling trees states h.2⟩

theorem QuietOption.ranked (floor ceiling : Nat) : (tree : Option (Tree A)) →
    (state : StateOption tree) → QuietOption tree state → RankedOption tree state floor ceiling
  | none, _, _ => trivial
  | some tree, state, h => Quiet.ranked floor ceiling tree state h

end

mutual

/-- A service that begins has the youngest timer so far, and begins before those below it do. -/
theorem start_ranked : (tree : Tree A) → (state : tree.State) → (world : World A) → (floor : Nat) →
    tree.Fit state → floor ≤ world.clock.nextTimer →
    tree.Ranked state floor world.clock.nextTimer →
    tree.Ranked (tree.start state world).1 floor (tree.start state world).2.clock.nextTimer
  | .action _ _, _, _, _, _, _, _ => trivial
  | .wait _ _, _, _, _, _, _, _ => trivial
  | .leaf _, _, _, _, _, _, _ => trivial
  | .sequence children, state, world, floor, _, _, h => by
    rw [start, Ranked, state.begin_children]
    exact h
  | .selector children, state, world, floor, _, _, h => by
    rw [start, Ranked, state.begin_children]
    exact h
  | .condition guard policy child, state, world, floor, hfit, hfloor, h => by
    by_cases hidle : state.status = .inactive
    · rcases hobserve : world.observe state.observer guard.key with ⟨id, observed⟩
      rcases hjudge : observed.judge guard id with ⟨holds, judged⟩
      have hquiet := hfit.2 hidle
      have hnext : judged.clock.nextTimer = world.clock.nextTimer := by
        have hobserved := world.timeless_observe state.observer guard.key
        have hjudged := observed.timeless_judge guard id
        rw [hobserve] at hobserved
        rw [hjudge] at hjudged
        exact (hobserved.trans hjudged).nextTimer_eq
      rw [start_condition guard policy child state world hidle hobserve hjudge]
      split
      · exact QuietOption.ranked _ _ child state.child hquiet
      · split
        · exact startOption_ranked child state.child judged floor hquiet.fit (by rwa [hnext])
            (QuietOption.ranked _ _ child state.child hquiet)
        · exact QuietOption.ranked _ _ child state.child hquiet
    · rw [start, if_pos hidle]
      exact h
  | .service label interval callback child, state, world, floor, hfit, hfloor, h => by
    by_cases hidle : state.status = .inactive
    · rcases hadd : (world.refresh ⟨world.clock.nextTimer⟩ callback).addTimer interval with ⟨id, added⟩
      have hid := World.addTimer_refresh world interval callback
      have hadded : added.clock.nextTimer = world.clock.nextTimer + 1 := by
        have hnext := congrArg (·.2.clock.nextTimer) hadd
        rw [World.addTimer, Clock.addTimer, World.clock_refresh] at hnext
        exact hnext.symm
      rw [hadd] at hid
      obtain rfl : id = ⟨world.clock.nextTimer⟩ := hid
      have hquiet := (hfit.2.1 hidle).2
      have hbelow := startOption_ranked child state.child added (world.clock.nextTimer + 1) hquiet.fit
        (Nat.le_of_eq hadded.symm) (QuietOption.ranked _ _ child state.child hquiet)
      have hnext := (startOption_fit child state.child added hquiet.fit).2.nextTimer_le
      rw [hadded] at hnext
      rw [start_service label interval callback child state world hidle hadd]
      exact ⟨hfloor, hnext, hbelow⟩
    · rw [start, if_pos hidle]
      exact h

theorem startOption_ranked : (tree : Option (Tree A)) → (state : StateOption tree) →
    (world : World A) → (floor : Nat) → FitOption tree state → floor ≤ world.clock.nextTimer →
    RankedOption tree state floor world.clock.nextTimer →
    RankedOption tree (startOption tree state world).1 floor
      (startOption tree state world).2.clock.nextTimer
  | none, _, _, _, _, _, _ => trivial
  | some tree, state, world, floor, hfit, hfloor, h => start_ranked tree state world floor hfit hfloor h

end

/-- Before a selector goes on at another child, the one whose turn it was has ended. -/
theorem arbitrate_ranked (children : List (Tree A)) (state : CompositeState (StateList children))
    (world : World A) (floor : Nat) (hfit : FitAt children state.current state.children)
    (h : RankedList children state.children floor world.clock.nextTimer) :
    RankedList children (arbitrate children state world).2.1 floor
      (arbitrate children state world).2.2.clock.nextTimer := by
  have hasked := (firstPreempting_deals children state.current state.children world).nextTimer_le
  unfold arbitrate
  rcases hfirst : firstPreempting children state.current state.children world with
    ⟨_ | ⟨winner, preemption⟩, asked⟩ <;> rw [hfirst] at hasked
  · exact RankedList.mono hasked children state.children floor h
  · exact QuietList.ranked _ _ children _ (stopAt_quiet children state.current state.children _ hfit).1

theorem tickRest_ranked {goOn : Outcome} {trees : List (Tree A)} {current floor : Nat}
    {states : StateList trees} {world : World A} (hgo : goOn ≠ .running)
    (hfit : FitAt trees current states)
    (h : RankedList trees (tickFrom goOn trees current states world).2.2.1 floor
      (tickFrom goOn trees current states world).2.2.2.clock.nextTimer) :
    RankedList trees (tickRest goOn trees current states world).2.1.children floor
      (tickRest goOn trees current states world).2.2.clock.nextTimer := by
  have hticked := tickFrom_fit goOn hgo trees current states world hfit
  unfold tickRest
  rcases htick : tickFrom goOn trees current states world with ⟨outcome, next, ticked, after⟩
  rw [htick] at h hticked
  dsimp only
  by_cases hrun : outcome = .running
  · rw [settle, if_pos hrun]
    exact h
  · have hsettled := settle_quiet next after hrun (hticked.ended hrun)
    refine QuietList.ranked _ _ trees _ (hsettled.fit.idle ?_)
    rw [hsettled.status, settle, if_neg hrun]
    exact fun hstatus => hrun (Outcome.eq_running_of_status hstatus)

mutual

theorem tick_ranked : (tree : Tree A) → (state : tree.State) → (world : World A) → (floor : Nat) →
    tree.Fit state → floor ≤ world.clock.nextTimer →
    tree.Ranked state floor world.clock.nextTimer →
    tree.Ranked (tree.tick state world).2.1 floor (tree.tick state world).2.2.clock.nextTimer
  | .action _ _, _, _, _, _, _, _ => trivial
  | .wait _ _, _, _, _, _, _, _ => trivial
  | .leaf _, _, _, _, _, _, _ => trivial
  | .sequence children, state, world, floor, hfit, hfloor, h => by
    rw [fit_sequence] at hfit
    have hbegin := hfit.begin
    rw [Ranked, ← state.begin_children] at h
    rw [tick_sequence]
    cases houtcome : state.begin.status.outcome? with
    | some outcome => exact h
    | none =>
      have hcurrent := hbegin.current (state.begin_running houtcome)
      exact tickRest_ranked (by simp) hcurrent
        (tickFrom_ranked .success (by simp) children _ _ world floor hcurrent hfloor h)
  | .selector children, state, world, floor, hfit, hfloor, h => by
    rw [fit_selector] at hfit
    have hbegin := hfit.begin
    rw [Ranked, ← state.begin_children] at h
    rw [tick_selector]
    cases houtcome : state.begin.status.outcome? with
    | some outcome => exact h
    | none =>
      have hcurrent := hbegin.current (state.begin_running houtcome)
      obtain ⟨hgo, hgiveUp, hdeals⟩ := arbitrate_fit children state.begin world hcurrent
      have hasked := arbitrate_ranked children state.begin world floor hcurrent h
      have hnext := hfloor.trans hdeals.nextTimer_le
      rcases harb : arbitrate children state.begin world with ⟨_ | current, states, asked⟩ <;>
        rw [harb] at hgo hgiveUp hasked hnext
      · have hfail : Outcome.fail ≠ .running := by simp
        have hsettled := settle_quiet state.begin.current asked hfail (hgiveUp rfl)
        refine QuietList.ranked _ _ children _ (hsettled.fit.idle ?_)
        rw [hsettled.status]
        simp [settle, Outcome.status]
      · exact tickRest_ranked (by simp) (hgo current rfl)
          (tickFrom_ranked .fail (by simp) children current states asked floor (hgo current rfl) hnext
            hasked)
  | .condition guard policy child, state, world, floor, hfit, hfloor, h => by
    have hbegun := start_fit (.condition guard policy child) state world hfit
    have hranked := start_ranked (.condition guard policy child) state world floor hfit hfloor h
    have hnext := hfloor.trans hbegun.2.nextTimer_le
    rcases hstart : (Tree.condition guard policy child).start state world with ⟨started, begun⟩
    rcases hbroken : (if policy.abortsSelf then begun.stoppedHolding guard started.observer
      else (false, begun)) with ⟨broken, checked⟩
    rw [hstart] at hbegun hranked hnext
    rw [tick_condition guard policy child state world hstart hbroken]
    cases houtcome : started.status.outcome? with
    | some outcome => exact hranked
    | none =>
      have hsame : checked.clock.nextTimer = begun.clock.nextTimer := by
        have hlooked := begun.timeless_stoppedHolding guard started.observer
        split at hbroken
        · rw [hbroken] at hlooked
          exact hlooked.nextTimer_eq
        · cases hbroken
          rfl
      rw [← hsame] at hranked hnext
      cases broken with
      | true => exact QuietOption.ranked _ _ child _ (stopOption_quiet child _ checked hbegun.1.1).1
      | false => exact tickOption_ranked child started.child checked floor hbegun.1.1 hnext hranked
  | .service label interval callback child, state, world, floor, hfit, hfloor, h => by
    have hbegun := start_fit (.service label interval callback child) state world hfit
    have hranked := start_ranked (.service label interval callback child) state world floor hfit hfloor h
    have hactive := start_service_active label interval callback child state world
    rcases hstart : (Tree.service label interval callback child).start state world with
      ⟨⟨status, timer, below⟩, begun⟩
    rw [hstart] at hbegun hranked hactive
    rw [tick_service label interval callback child state world hstart]
    cases houtcome : status.outcome? with
    | some outcome => exact hranked
    | none =>
      obtain ⟨hbelow, -, hkeeps⟩ := hbegun.1
      obtain ⟨id, rfl⟩ := Option.ne_none_iff_exists'.mp (hkeeps hactive)
      obtain ⟨hold, hissued, hranked⟩ := hranked
      have hticked := (tickOption_fit child below begun hbelow).deals.nextTimer_le
      exact ⟨hold, Nat.lt_of_lt_of_le hissued hticked,
        tickOption_ranked child below begun _ hbelow hissued hranked⟩

theorem tickFrom_ranked : (goOn : Outcome) → goOn ≠ .running → (trees : List (Tree A)) → (i : Nat) →
    (states : StateList trees) → (world : World A) → (floor : Nat) → FitAt trees i states →
    floor ≤ world.clock.nextTimer → RankedList trees states floor world.clock.nextTimer →
    RankedList trees (tickFrom goOn trees i states world).2.2.1 floor
      (tickFrom goOn trees i states world).2.2.2.clock.nextTimer
  | _, _, [], _, _, _, _, _, _, _ => trivial
  | goOn, hgo, tree :: trees, 0, (state, states), world, floor, hfit, hfloor, h => by
    rw [FitAt] at hfit
    have hticked := tick_fit tree state world hfit.1
    have hranked := tick_ranked tree state world floor hfit.1 hfloor h.1
    rcases htick : tree.tick state world with ⟨outcome, ticked, after⟩
    rw [htick] at hticked hranked
    have hstop := stop_quiet tree ticked after hticked.fit
    have hlater := hticked.deals.nextTimer_le
    have hstopped := hlater.trans hstop.2.nextTimer_le
    rw [tickFrom_zero goOn tree trees state states world htick]
    split
    · exact ⟨hranked, RankedList.mono hlater trees states floor h.2⟩
    · split
      · exact ⟨Quiet.ranked _ _ tree _ hstop.1,
          tickFrom_ranked goOn hgo trees 0 states _ floor (QuietList.fitAt _ _ _ hfit.2)
            (hfloor.trans hstopped) (RankedList.mono hstopped trees states floor h.2)⟩
      · exact ⟨Quiet.ranked _ _ tree _ hstop.1, RankedList.mono hstopped trees states floor h.2⟩
  | goOn, hgo, tree :: trees, i + 1, (state, states), world, floor, hfit, hfloor, h => by
    rw [FitAt] at hfit
    have hticked := (tickFrom_fit goOn hgo trees i states world hfit.2).deals.nextTimer_le
    rw [tickFrom]
    exact ⟨Ranked.mono hticked tree state floor h.1,
      tickFrom_ranked goOn hgo trees i states world floor hfit.2 hfloor h.2⟩

theorem tickOption_ranked : (tree : Option (Tree A)) → (state : StateOption tree) →
    (world : World A) → (floor : Nat) → FitOption tree state → floor ≤ world.clock.nextTimer →
    RankedOption tree state floor world.clock.nextTimer →
    RankedOption tree (tickOption tree state world).2.1 floor
      (tickOption tree state world).2.2.clock.nextTimer
  | none, _, _, _, _, _, _ => trivial
  | some tree, state, world, floor, hfit, hfloor, h => tick_ranked tree state world floor hfit hfloor h

end

end Tree

namespace Subtree

variable {node child lower outer inner : Subtree A} {position path : List Nat} {id outerId innerId : TimerId}
variable {floor ceiling : Nat}

def Ranked (node : Subtree A) (floor ceiling : Nat) : Prop := node.tree.Ranked node.state floor ceiling

theorem ranked_ofList {trees : List (Tree A)} {states : Tree.StateList trees}
    (h : Tree.RankedList trees states floor ceiling) :
    ∀ child ∈ ofList trees states, child.Ranked floor ceiling := by
  induction trees with
  | nil => simp [ofList]
  | cons tree trees ih => exact List.forall_mem_cons.mpr ⟨h.1, ih h.2⟩

theorem ranked_ofOption {tree : Option (Tree A)} {state : Tree.StateOption tree}
    (h : Tree.RankedOption tree state floor ceiling) :
    ∀ child ∈ ofOption tree state, child.Ranked floor ceiling := by
  cases tree with
  | none => simp [ofOption]
  | some tree => exact List.forall_mem_singleton.mpr h

namespace Ranked

theorem timer (h : node.Ranked floor ceiling) (htimer : node.timer? = some id) :
    floor ≤ id.index ∧ id.index < ceiling := by
  obtain ⟨tree, state⟩ := node
  cases tree with
  | action _ _ | wait _ _ | leaf _ | sequence _ | selector _ | condition _ _ _ => cases htimer
  | service _ _ _ tree =>
    obtain ⟨status, timer, below⟩ := state
    obtain rfl : timer = some id := htimer
    exact ⟨h.1, h.2.1⟩

theorem children (h : node.Ranked floor ceiling) (hmem : child ∈ node.children) :
    ∃ floor', floor ≤ floor' ∧ (∀ id, node.timer? = some id → id.index < floor') ∧
      child.Ranked floor' ceiling := by
  obtain ⟨tree, state⟩ := node
  cases tree with
  | action _ _ | wait _ _ | leaf _ => simp [Subtree.children] at hmem
  | sequence _ | selector _ => exact ⟨floor, Nat.le_refl _, nofun, ranked_ofList h child hmem⟩
  | condition _ _ _ => exact ⟨floor, Nat.le_refl _, nofun, ranked_ofOption h child hmem⟩
  | service _ _ _ tree =>
    obtain ⟨status, timer, below⟩ := state
    cases timer with
    | none => exact ⟨floor, Nat.le_refl _, nofun, ranked_ofOption h child hmem⟩
    | some id =>
      refine ⟨id.index + 1, Nat.le_succ_of_le h.1, fun own hown => ?_, ranked_ofOption h.2.2 child hmem⟩
      obtain rfl : id = own := Option.some.inj hown
      exact Nat.lt_succ_self _

theorem below (h : node.Ranked floor ceiling) (hlower : node.at? position = some lower) :
    ∃ floor', floor ≤ floor' ∧ lower.Ranked floor' ceiling := by
  induction position generalizing node floor with
  | nil =>
    cases hlower
    exact ⟨floor, Nat.le_refl _, h⟩
  | cons i position ih =>
    obtain ⟨child, hchild, hlower⟩ := at?_cons_eq_some hlower
    obtain ⟨middle, hmiddle, -, hranked⟩ := h.children (List.mem_of_getElem? hchild)
    obtain ⟨floor', hfloor, hranked⟩ := ih hranked hlower
    exact ⟨floor', hmiddle.trans hfloor, hranked⟩

theorem older (h : node.Ranked floor ceiling) (houter : node.at? position = some outer)
    (hinner : outer.at? path = some inner) (hbelow : path ≠ []) (htimer : outer.timer? = some outerId)
    (htimer' : inner.timer? = some innerId) : outerId.index < innerId.index := by
  obtain ⟨i, path, rfl⟩ := List.exists_cons_of_ne_nil hbelow
  obtain ⟨child, hchild, hinner⟩ := at?_cons_eq_some hinner
  obtain ⟨_, -, hranked⟩ := h.below houter
  obtain ⟨_, -, hyounger, hranked⟩ := hranked.children (List.mem_of_getElem? hchild)
  obtain ⟨_, hfloor, hranked⟩ := hranked.below hinner
  exact Nat.lt_of_lt_of_le (hyounger outerId htimer) (hfloor.trans (hranked.timer htimer').1)

end Ranked

end Subtree

def Event.firing? : Event → Option Firing
  | .refreshed timer instant => some ⟨instant, timer⟩
  | _ => none

namespace World

variable {world : World A} {node : Subtree A} {others : Multiset Handle}

def firings (world : World A) : List Firing := (world.journal.filterMap Event.firing?).reverse

theorem firings_record (world : World A) (event : Event) :
    (world.record event).firings = world.firings ++ event.firing?.toList := by
  cases h : event.firing? <;> simp [firings, record, h]

theorem firings_withReport (world : World A) (board : Board) (report : Option KeyWarning) :
    (world.withReport board report).firings = world.firings := by
  cases report <;> rfl

theorem firings_run (routine : Routine A) (world : World A) :
    (routine.run world).firings = world.firings := by
  induction routine generalizing world with
  | done => rfl
  | act effect next ih => exact ih _
  | look next ih => exact ih _ _
  | get key next ih => exact ih _ _
  | getNumber key next ih => exact (ih _ _).trans (world.firings_withReport _ _)
  | getBool key next ih => exact (ih _ _).trans (world.firings_withReport _ _)
  | set key value next ih => exact ih _ _
  | remove key next ih => exact ih _ _

theorem firings_refresh (world : World A) (id : TimerId) (callback : Routine A) :
    (world.refresh id callback).firings = world.firings ++ [⟨world.now, id⟩] := by
  rw [refresh, firings_run, firings_record]
  rfl

/-- While time moves forward, timers fire and the callbacks of their services run, and nothing else
happens to the clock. -/
theorem Holds.fireDue_pops (h : world.Holds (node.handles + others)) (hfit : node.Fit)
    (hothers : ∀ id, Handle.timer id ∉ others) (limit : Duration) (fuel : Nat) :
    ∃ fired clock, Clock.Pops limit world.clock fired clock ∧
      (World.fireDue node.fire limit fuel world).firings = world.firings ++ fired ∧
      (World.fireDue node.fire limit fuel world).clock.nextTimer = world.clock.nextTimer ∧
      ((World.fireDue node.fire limit fuel world).clock.overflowed = false →
        (World.fireDue node.fire limit fuel world).clock = clock) := by
  induction fuel generalizing world with
  | zero => exact ⟨[], world.clock, .nil, (List.append_nil _).symm, rfl, fun _ => rfl⟩
  | succ fuel ih =>
    rw [World.fireDue]
    cases hpop : world.clock.popDue? limit with
    | none => exact ⟨[], world.clock, .nil, (List.append_nil _).symm, rfl, fun _ => rfl⟩
    | some popped =>
      obtain ⟨id, next⟩ := popped
      have hpopped := Clock.popped hpop
      dsimp only
      split
      · rename_i hover
        exact ⟨[], world.clock, .nil, (List.append_nil _).symm, hpopped.nextTimer_eq,
          fun hfine => absurd (hover.symm.trans hfine) (by simp)⟩
      · rename_i hfine
        obtain ⟨callback, heq⟩ := h.dispatch_eq hfit hothers hpop
        have htrades : World.Trades { world with clock := next }
            (World.refresh { world with clock := next } id callback) node.handles node.handles :=
          trades_refresh _ id callback
        have hclock := World.clock_refresh { world with clock := next } id callback
        have hran := World.firings_refresh { world with clock := next } id callback
        rw [heq]
        obtain ⟨fired, clock, hpops, hfirings, hnext, hlast⟩ := ih (htrades.holds _ (h.popped hpopped))
        rw [hclock] at hpops hnext
        rw [hran] at hfirings
        refine ⟨_, clock, .cons hpop (by simpa using hfine) hpops, ?_, ?_, hlast⟩
        · rw [hfirings, List.append_assoc]
          rfl
        · exact hnext.trans hpopped.nextTimer_eq

end World

namespace Session

variable {tree : Tree A} {initial : Values} {session : Session A}

/-- The timers of the services grow younger on the way down. -/
def Ranked (session : Session A) : Prop :=
  session.root.node.Ranked 0 session.root.world.clock.nextTimer

namespace Kept

theorem ranked_evaluated (h : session.Kept) (hranked : session.Ranked) :
    Ranked ⟨session.root.evaluated, session.own⟩ :=
  Tree.tick_ranked _ _ session.root.world 0 h.fit (Nat.zero_le _) hranked

theorem ranked_released (h : session.Kept) (ceiling : Nat) :
    session.root.released.node.Ranked 0 ceiling :=
  Tree.Quiet.ranked 0 ceiling _ _ h.released.2.1

theorem ranked_tick (h : session.Kept) (hranked : session.Ranked) :
    Ranked ⟨session.root.tick, session.own⟩ := by
  by_cases hactive : session.root.active = true
  · rw [session.root.tick_eq hactive]
    split
    · exact h.released.1.kept.ranked_evaluated (h.ranked_released _)
    · exact h.ranked_evaluated hranked
  · rw [Root.tick, if_pos (by simpa using hactive)]
    exact hranked

theorem ranked_start (h : session.Kept) (hranked : session.Ranked) :
    Ranked ⟨session.root.start, session.own⟩ := by
  unfold Root.start
  split
  · exact hranked
  · exact Tree.start_ranked _ _ session.root.world 0 h.fit (Nat.zero_le _) hranked

theorem ranked_stop (h : session.Kept) (hranked : session.Ranked) :
    Ranked ⟨session.root.stop, session.own⟩ := by
  by_cases hactive : session.root.active = true
  · rw [session.root.stop_eq hactive]
    exact h.ranked_released _
  · rw [Root.stop, if_pos (by simpa using hactive)]
    exact hranked

theorem nextTimer_advance (h : session.Kept) (dt : Duration) :
    (session.root.advance dt).world.clock.nextTimer = session.root.world.clock.nextTimer := by
  change (World.advance session.root.node.fire dt session.root.world).clock.nextTimer = _
  unfold World.advance
  dsimp only
  split
  · rfl
  · obtain ⟨-, -, -, -, hnext, -⟩ := h.holds.fireDue_pops h.fit session.timer_not_mem_handles _ _
    exact hnext

theorem ranked_advance (h : session.Kept) (hranked : session.Ranked) (dt : Duration) :
    Ranked ⟨session.root.advance dt, session.own⟩ := by
  rw [Ranked, h.nextTimer_advance]
  exact hranked

theorem ranked_call (h : session.Kept) (hranked : session.Ranked) (call : Call A) :
    (session.call call).Ranked := by
  have hwrites {world : World A} (hwrites : session.root.world.Writes world) :
      session.root.node.Ranked 0 world.clock.nextTimer := by
    rw [hwrites.clock_eq]
    exact hranked
  cases call with
  | start => exact h.ranked_start hranked
  | tick => exact h.ranked_tick hranked
  | advance dt => exact h.ranked_advance hranked dt
  | update dt => exact (h.advance dt).kept.ranked_tick (h.ranked_advance hranked dt)
  | stop => exact h.ranked_stop hranked
  | getNumber key => exact hwrites (World.writes_getNumber _ key)
  | getBool key => exact hwrites (World.writes_getBool _ key)
  | steer _ | set _ _ | remove _ | clear | watch _ _ | unwatch _ => exact hranked

theorem advance_pops (h : session.Kept) (hpunctual : session.Punctual) (dt : Duration) :
    ∃ fired clock, Clock.Pops (session.root.world.now + dt) session.root.world.clock fired clock ∧
      (session.root.advance dt).world.firings = session.root.world.firings ++ fired ∧
      ((session.root.advance dt).world.clock.overflowed = false →
        clock.popDue? (session.root.world.now + dt) = none) := by
  change ∃ fired clock, _ ∧ (World.advance session.root.node.fire dt session.root.world).firings = _ ∧
    ((World.advance session.root.node.fire dt session.root.world).clock.overflowed = false → _)
  unfold World.advance
  dsimp only
  split
  · exact ⟨[], session.root.world.clock, .nil, (List.append_nil _).symm, nofun⟩
  · obtain ⟨fired, clock, hpops, hfirings, -, hlast⟩ :=
      h.holds.fireDue_pops h.fit session.timer_not_mem_handles (session.root.world.now + dt)
        (session.root.world.clock.firings (session.root.world.now + dt))
    refine ⟨fired, clock, hpops, hfirings, fun hover => ?_⟩
    obtain ⟨-, -, -, hlater⟩ := (h.timely hpunctual).fireDue h.fit session.timer_not_mem_handles
      (Nat.le_add_right _ _) _ (Nat.le_refl _) hover
    rw [← hlast hover]
    exact Clock.popDue?_eq_none hlater

theorem ready (h : session.Kept) (hpunctual : session.Punctual) :
    session.root.world.clock.Ready := by
  refine ⟨h.holds.distinct, fun timer hmem => ?_, fun timer hmem => Nat.le_of_lt (hpunctual.2 timer hmem)⟩
  obtain ⟨_, _, hpaced⟩ := hpunctual.1.paced timer hmem
  exact hpaced.interval_pos

end Kept

namespace Reachable

theorem ranked (htree : tree.BuiltIn) (h : Reachable tree initial session) : session.Ranked := by
  induction h with
  | opened _ _ _ hroot =>
    obtain ⟨-, rfl⟩ := Root.withBoard_eq_ok.mp hroot
    exact Tree.Quiet.ranked _ _ _ _ (Tree.fresh_quiet tree _ htree).1
  | called call h ih => exact (h.kept htree).ranked_call ih call

/-- An active service keeps an older timer than any active service below it. While time moves forward,
the callbacks run in the order of time, and at one instant in that of age. So at an instant at which both
services fall due, the callback of the one below does not run unless that of the other has run before. And
unless a time overflows, both run at each such instant up to the one at which the step ends. -/
theorem outer_first (htree : tree.BuiltIn) (h : Reachable tree initial session)
    {outer inner : Subtree A} {position path : List Nat} {outerId innerId : TimerId}
    {outerCallback innerCallback : Routine A}
    (houter : session.root.node.Service outerId position outerCallback outer)
    (hinner : outer.Service innerId path innerCallback inner) (hbelow : path ≠ []) :
    outerId.index < innerId.index ∧
    (session.root.world.clock.overflowed = false → ∀ dt, ∃ fired,
      (session.root.advance dt).world.firings = session.root.world.firings ++ fired ∧
      fired.Pairwise Firing.Before ∧
      ∀ instant, session.root.world.clock.Schedules ⟨instant, outerId⟩ →
        session.root.world.clock.Schedules ⟨instant, innerId⟩ →
        (⟨instant, innerId⟩ ∈ fired → [⟨instant, outerId⟩, ⟨instant, innerId⟩].Sublist fired) ∧
        (instant ≤ session.root.world.now + dt →
          (session.root.advance dt).world.clock.overflowed = false →
            [⟨instant, outerId⟩, ⟨instant, innerId⟩].Sublist fired)) := by
  have hkept := h.kept htree
  have holder : outerId.index < innerId.index :=
    (h.ranked htree).older houter.found hinner.found hbelow houter.timer hinner.timer
  refine ⟨holder, fun hfine dt => ?_⟩
  have hpunctual := h.punctual htree hfine
  have hready := hkept.ready hpunctual
  obtain ⟨fired, clock, hpops, hfirings, hdone⟩ := hkept.advance_pops hpunctual dt
  have hsorted := (hpops.merges hready).2.1
  refine ⟨fired, hfirings, hsorted, fun instant hdue hdue' => ?_⟩
  have hbefore : Firing.Before ⟨instant, outerId⟩ ⟨instant, innerId⟩ := .inr ⟨rfl, holder⟩
  have hfirst (hmem : ⟨instant, innerId⟩ ∈ fired) :
      [⟨instant, outerId⟩, ⟨instant, innerId⟩].Sublist fired :=
    Firing.sublist_of_before hsorted (hpops.mem_of_before hready hmem hdue hbefore) hmem hbefore
  refine ⟨hfirst, fun hlimit hover => hfirst ?_⟩
  exact (hpops.mem_iff hready (hdone hover) _).mpr ⟨hlimit, hdue'⟩

end Reachable

def messenger : Tree Nat :=
  .service "look around" 2 (.act (10 * · + 1) .done) (some (.sequence [
    .service "hurry" 1 (.act (10 * · + 2) .done) (some (.wait 3 0)),
    .service "take care" 2 (.act (10 * · + 3) .done) (some (.wait 9 0))]))

/-- The messenger begins to take care at the instant 4. Both services fall due at 6 then. -/
theorem messenger_looks_first :
    let opened : Session Nat := ⟨Root.opened messenger {} 0 (fun _ agent => agent) (.ofSeed 0), []⟩
    let session := opened.calls [.start, .tick, .advance 4, .tick]
    session.Reachable messenger .empty ∧ (⟨0⟩ : TimerId).index < (⟨2⟩ : TimerId).index ∧
      ∃ fired, (session.root.advance 3).world.firings = session.root.world.firings ++ fired ∧
        [⟨6, ⟨0⟩⟩, ⟨6, ⟨2⟩⟩].Sublist fired := by
  intro opened session
  have hopened : opened.Reachable messenger .empty :=
    .opened (Board.sound_ofValues .empty) rfl (fun _ _ _ => rfl)
      (Root.withBoard_eq_ok.mpr ⟨⟨rfl, rfl⟩, rfl⟩)
  have h : session.Reachable messenger .empty := hopened.calls _
  have hbuilt : messenger.BuiltIn := ⟨trivial, trivial, trivial⟩
  obtain ⟨inner, hfound, hpair⟩ := Option.bind_eq_some_iff.mp (show
    (session.root.node.at? [0, 1]).bind (fun node => node.timer?.map (node.status, ·)) =
      some (.running, ⟨2⟩) by decide +kernel)
  obtain ⟨id, hkeeps, heq⟩ := Option.map_eq_some_iff.mp hpair
  obtain ⟨hstatus, rfl⟩ := Prod.mk.inj heq
  have htimer : session.root.node.timer? = some ⟨0⟩ := by decide +kernel
  obtain ⟨callback, hcallback⟩ := Subtree.exists_callback htimer
  obtain ⟨callback', hcallback'⟩ := Subtree.exists_callback hkeeps
  have houter : session.root.node.Service ⟨0⟩ [] callback session.root.node :=
    ⟨rfl, by decide +kernel, htimer, hcallback⟩
  have hinner : session.root.node.Service ⟨2⟩ [0, 1] callback' inner :=
    ⟨hfound, by simp [hstatus], hkeeps, hcallback'⟩
  obtain ⟨holder, hfirings⟩ := h.outer_first hbuilt houter hinner (by simp)
  obtain ⟨fired, heq, -, hfirst⟩ := hfirings (by decide +kernel) 3
  have htimers : session.root.world.clock.timers = [⟨⟨0⟩, 6, 2⟩, ⟨⟨2⟩, 6, 2⟩] := by decide +kernel
  refine ⟨h, holder, fired, heq, (hfirst 6 ?_ ?_).2 (by decide +kernel) (by decide +kernel)⟩
  · exact ⟨⟨⟨0⟩, 6, 2⟩, by simp [htimers], rfl, 0, rfl⟩
  · exact ⟨⟨⟨2⟩, 6, 2⟩, by simp [htimers], rfl, 0, rfl⟩

end Session

end BehaviorTree
