import BehaviorTree.Proofs.Leaves.CommandRuns
import BehaviorTree.Proofs.Lifecycle.Visits

/-!
Nothing in a leaf keeps its parent from ticking it again once it has ended. That no parent does so comes
from the state that each tick leaves behind: a composite has stopped every child that has ended, and a
decorator that has ended with its child asks the child no more. `Tree.Unspent` says so of a whole tree.
-/

namespace BehaviorTree

variable {A : Type}

theorem Status.isTerminated_of_outcome? {status : Status} (h : status.outcome? = none) :
    status.isTerminated = false := by
  cases status <;> first | rfl | cases h

theorem Outcome.isTerminated_status {outcome : Outcome} (h : outcome ≠ .running) :
    outcome.status.isTerminated = true := by
  cases outcome <;> first | rfl | exact absurd rfl h

namespace Tree

mutual

/-- No action and no wait has ended, save below a decorator that has ended itself. -/
def Unspent : (tree : Tree A) → tree.State → Prop
  | .action _ _, state => state.status.isTerminated = false
  | .wait _ _, state => state.status.isTerminated = false
  | .leaf _, _ => True
  | .sequence children, state => UnspentList children state.children
  | .selector children, state => UnspentList children state.children
  | .condition _ _ child, state => state.status.isTerminated = false → UnspentOption child state.child
  | .service _ _ _ child, state => state.status.isTerminated = false → UnspentOption child state.child

def UnspentList : (trees : List (Tree A)) → StateList trees → Prop
  | [], _ => True
  | tree :: trees, (state, states) => tree.Unspent state ∧ UnspentList trees states

def UnspentOption : (tree : Option (Tree A)) → StateOption tree → Prop
  | none, _ => True
  | some tree, state => tree.Unspent state

end

mutual

theorem Quiet.unspent : (tree : Tree A) → (state : tree.State) → tree.Quiet state → tree.Unspent state
  | .action _ _, state, h => by
    rw [Quiet] at h
    rw [Unspent, h]
    rfl
  | .wait _ _, state, h => by
    rw [Quiet] at h
    rw [Unspent, h]
    rfl
  | .sequence children, state, h => by
    rw [Quiet] at h
    exact QuietList.unspent children state.children h.2
  | .selector children, state, h => by
    rw [Quiet] at h
    exact QuietList.unspent children state.children h.2
  | .condition _ _ child, state, h => by
    rw [Quiet] at h
    exact fun _ => QuietOption.unspent child state.child h.2
  | .service _ _ _ child, state, h => by
    rw [Quiet] at h
    exact fun _ => QuietOption.unspent child state.child h.2.2

theorem QuietList.unspent : (trees : List (Tree A)) → (states : StateList trees) →
    QuietList trees states → UnspentList trees states
  | [], _, _ => trivial
  | tree :: trees, (state, states), h => by
    rw [QuietList] at h
    exact ⟨Quiet.unspent tree state h.1, QuietList.unspent trees states h.2⟩

theorem QuietOption.unspent : (tree : Option (Tree A)) → (state : StateOption tree) →
    QuietOption tree state → UnspentOption tree state
  | none, _, _ => trivial
  | some tree, state, h => Quiet.unspent tree state h

end

mutual

theorem start_unspent : (tree : Tree A) → (state : tree.State) → (world : World A) →
    tree.Unspent state → tree.Unspent (tree.start state world).1
  | .action _ _, state, world, h => by
    rw [Unspent] at h
    rw [Unspent, start]
    split
    · rfl
    · exact h
  | .wait duration variance, state, world, h => by
    rw [Unspent] at h
    rw [start]
    split
    · exact h
    · split
      · rfl
      · exact h
  | .leaf _, _, _, _ => trivial
  | .sequence children, state, world, h => by
    rw [Unspent] at h
    rw [start, Unspent, state.begin_children]
    exact h
  | .selector children, state, world, h => by
    rw [Unspent] at h
    rw [start, Unspent, state.begin_children]
    exact h
  | .condition guard policy child, state, world, h => by
    by_cases hidle : state.status = .inactive
    · rcases hobserve : world.observe state.observer guard.key with ⟨id, observed⟩
      rcases hjudge : observed.judge guard id with ⟨holds, judged⟩
      have hchild := h (congrArg Status.isTerminated hidle)
      rw [start_condition guard policy child state world hidle hobserve hjudge]
      split
      · exact fun hgoing => nomatch hgoing
      · cases holds with
        | true => exact fun _ => startOption_unspent child state.child judged hchild
        | false => exact fun hgoing => nomatch hgoing
    · rw [start, if_pos hidle]
      exact h
  | .service label interval callback child, state, world, h => by
    by_cases hidle : state.status = .inactive
    · have hchild := h (congrArg Status.isTerminated hidle)
      rw [start_service label interval callback child state world hidle rfl]
      exact fun _ => startOption_unspent child state.child _ hchild
    · rw [start, if_pos hidle]
      exact h

theorem startOption_unspent : (tree : Option (Tree A)) → (state : StateOption tree) →
    (world : World A) → UnspentOption tree state →
    UnspentOption tree (startOption tree state world).1
  | none, _, _, _ => trivial
  | some tree, state, world, h => start_unspent tree state world h

end

structure TickedUnspent (tree : Tree A) (state : tree.State) (world : World A)
    (after : Outcome × tree.State × World A) : Prop where
  runs : Mail.Runs (tree.mail .tick state world) world after.2.2
  running : after.1 = .running → tree.Unspent after.2.1
  ended : after.1 ≠ .running → (tree.status after.2.1).isTerminated = true

structure TickedUnspentFrom (trees : List (Tree A)) (delivery : Delivery A) (world : World A)
    (after : Outcome × Nat × StateList trees × World A) : Prop where
  runs : Delivery.Runs delivery world after.2.2.2
  unspent : UnspentList trees after.2.2.1

structure TickedUnspentComposite (trees : List (Tree A)) (delivery : Delivery A) (world : World A)
    (after : Outcome × CompositeState (StateList trees) × World A) : Prop where
  runs : Delivery.Runs delivery world after.2.2
  unspent : UnspentList trees after.2.1.children
  status : after.2.1.status = after.1.status

structure TickedUnspentOption (tree : Option (Tree A)) (delivery : Delivery A) (world : World A)
    (after : Outcome × StateOption tree × World A) : Prop where
  runs : Delivery.Runs delivery world after.2.2
  running : after.1 = .running → UnspentOption tree after.2.1

theorem acts_command (label : String) (command : Command A) (random : Random) (world : World A) :
    (command.run random (world.record (.acted label))).2.acts = label :: world.acts := by
  cases command with
  | always effect => rfl
  | drawn low high effect => rfl

theorem settle_unspent {trees : List (Tree A)} (htrees : BuiltInList trees) {outcome : Outcome}
    (current : Nat) {states : StateList trees} (world : World A)
    (hquiet : outcome ≠ .running → QuietList trees states) (h : UnspentList trees states) :
    TickedUnspentComposite trees (settles trees outcome states world) world
      (settle trees outcome current states world) := by
  by_cases hrun : outcome = .running
  · rw [settle, settles, if_pos hrun, if_pos hrun]
    exact ⟨.nil rfl, h, rfl⟩
  · have hreleased := releaseList_quiet trees states world (hquiet hrun)
    rw [settle, settles, if_neg hrun, if_neg hrun]
    exact ⟨releasesList_runs trees htrees states world, hreleased.1.unspent, rfl⟩

theorem TickedUnspentComposite.after {trees : List (Tree A)} {delivery more : Delivery A}
    {before world : World A} {after : Outcome × CompositeState (StateList trees) × World A}
    (h : TickedUnspentComposite trees more world after) (hruns : Delivery.Runs delivery before world) :
    TickedUnspentComposite trees (delivery ++ more) before after :=
  ⟨hruns.append h.runs, h.unspent, h.status⟩

theorem TickedUnspentFrom.rest {goOn : Outcome} {trees : List (Tree A)} (htrees : BuiltInList trees)
    {current : Nat} {states : StateList trees} {world : World A}
    (h : TickedUnspentFrom trees (ticksFrom goOn trees current states world) world
      (tickFrom goOn trees current states world))
    (hfit : TickedFrom trees states world (tickFrom goOn trees current states world)) :
    TickedUnspentComposite trees (ticksRest goOn trees current states world) world
      (tickRest goOn trees current states world) := by
  unfold tickRest ticksRest
  exact (settle_unspent htrees _ _ hfit.ended h.unspent).after h.runs

/-- Before a selector goes on at another child, it stops the one whose turn it was. -/
theorem arbitrate_unspent {children : List (Tree A)} (htrees : BuiltInList children)
    {state : CompositeState (StateList children)} (world : World A)
    (hfit : FitAt children state.current state.children) (h : UnspentList children state.children) :
    Delivery.Runs (handsOver children state world) world (arbitrate children state world).2.2 ∧
      UnspentList children (arbitrate children state world).2.1 := by
  have hasked := acts_firstPreempting children state.current state.children world
  unfold arbitrate handsOver
  rcases hfirst : firstPreempting children state.current state.children world with
    ⟨_ | ⟨winner, preemption⟩, asked⟩ <;> rw [hfirst] at hasked
  · exact ⟨.nil hasked, h⟩
  · have hstopped := stopAt_quiet children state.current state.children
      (asked.record (.preempted winner state.current preemption)) hfit
    have hruns := stopsAt_runs children htrees state.current state.children
      (asked.record (.preempted winner state.current preemption))
    exact ⟨hruns.after_silent ((World.acts_record_silent asked rfl).trans hasked), hstopped.1.unspent⟩

mutual

theorem tick_unspent : (tree : Tree A) → tree.BuiltIn → (state : tree.State) → (world : World A) →
    tree.Fit state → tree.Unspent state → TickedUnspent tree state world (tree.tick state world)
  | .action label command, _, state, world, _, h => by
    rw [Unspent] at h
    have hgoing : state.status ≠ .succeeded := fun hended => by simp [hended, Status.isTerminated] at h
    rw [tick, if_neg hgoing]
    refine ⟨⟨List.forall_mem_singleton.mpr fun _ _ => h, ?_⟩, nofun, fun _ => rfl⟩
    exact acts_command label command state.random world
  | .wait duration variance, htree, state, world, _, h => by
    have hstarted := start_unspent (.wait duration variance) state world h
    have hacts := (starts_runs (.wait duration variance) htree state world).acts
    rw [Unspent] at h
    rw [tick]
    rcases hbegun : (Tree.wait duration variance).start state world with ⟨started, begun⟩
    rw [hbegun] at hstarted hacts
    dsimp only
    have htimely : ∀ entry ∈ (Tree.wait duration variance).mail .tick state world, entry.2.Timely :=
      List.forall_mem_singleton.mpr fun _ _ => h
    split
    · rename_i hended
      exact ⟨⟨htimely, hacts⟩, nofun, fun _ => congrArg Status.isTerminated hended⟩
    · split
      · exact ⟨⟨htimely, hacts⟩, fun _ => hstarted, fun hended => absurd rfl hended⟩
      · exact ⟨⟨htimely, hacts⟩, nofun, fun _ => rfl⟩
  | .sequence children, htree, state, world, hfit, h => by
    rw [fit_sequence] at hfit
    rw [BuiltIn] at htree
    rw [Unspent, ← state.begin_children] at h
    suffices hcomposite : TickedUnspentComposite children ((Tree.sequence children).ticks state world)
        world ((Tree.sequence children).tick state world) from
      ⟨hcomposite.runs.message_of_not_task rfl, fun _ => hcomposite.unspent,
        fun hended => (congrArg Status.isTerminated hcomposite.status).trans
          (Outcome.isTerminated_status hended)⟩
    rw [ticks_sequence, tick_sequence]
    cases houtcome : state.begin.status.outcome? with
    | some outcome => exact ⟨.nil rfl, h, (Status.eq_of_outcome? houtcome).1⟩
    | none =>
      have hat := hfit.begin.current (state.begin_running houtcome)
      exact (tickFrom_unspent .success (by simp) children htree state.begin.current state.begin.children
        world hat h).rest htree (tickFrom_fit .success (by simp) children _ _ world hat)
  | .selector children, htree, state, world, hfit, h => by
    rw [fit_selector] at hfit
    rw [BuiltIn] at htree
    rw [Unspent, ← state.begin_children] at h
    suffices hcomposite : TickedUnspentComposite children ((Tree.selector children).ticks state world)
        world ((Tree.selector children).tick state world) from
      ⟨hcomposite.runs.message_of_not_task rfl, fun _ => hcomposite.unspent,
        fun hended => (congrArg Status.isTerminated hcomposite.status).trans
          (Outcome.isTerminated_status hended)⟩
    rw [ticks_selector, tick_selector]
    cases houtcome : state.begin.status.outcome? with
    | some outcome => exact ⟨.nil rfl, h, (Status.eq_of_outcome? houtcome).1⟩
    | none =>
      have hat := hfit.begin.current (state.begin_running houtcome)
      obtain ⟨hgo, hgiveUp, -⟩ := arbitrate_fit children state.begin world hat
      obtain ⟨hruns, hunspent⟩ := arbitrate_unspent htree world hat h
      rcases harb : arbitrate children state.begin world with ⟨_ | current, states, asked⟩ <;>
        rw [harb] at hgo hgiveUp hruns hunspent
      · exact (settle_unspent htree _ asked (fun _ => hgiveUp rfl) hunspent).after hruns
      · exact ((tickFrom_unspent .fail (by simp) children htree current states asked (hgo current rfl)
          hunspent).rest htree (tickFrom_fit .fail (by simp) children current states asked
            (hgo current rfl))).after hruns
  | .condition guard policy child, htree, state, world, hfit, h => by
    have hbegun := starts_runs (.condition guard policy child) htree state world
    have hstarted := start_unspent (.condition guard policy child) state world h
    have hfit := (start_fit (.condition guard policy child) state world hfit).1
    rw [BuiltIn] at htree
    rcases hstart : (Tree.condition guard policy child).start state world with ⟨started, begun⟩
    rcases hbroken : (if policy.abortsSelf then begun.stoppedHolding guard started.observer
      else (false, begun)) with ⟨broken, checked⟩
    have hchecked : checked.acts = begun.acts := by
      split at hbroken
      · exact (congrArg (·.2.acts) hbroken).symm.trans (begun.acts_stoppedHolding guard started.observer)
      · cases hbroken
        rfl
    rw [hstart] at hbegun hstarted hfit
    rw [Fit] at hfit
    suffices hchild : TickedUnspentOption child ((Tree.condition guard policy child).ticks state world) world
        (((Tree.condition guard policy child).tick state world).1,
          ((Tree.condition guard policy child).tick state world).2.1.child,
          ((Tree.condition guard policy child).tick state world).2.2) ∧
        ((Tree.condition guard policy child).tick state world).2.1.status =
          ((Tree.condition guard policy child).tick state world).1.status from
      ⟨hchild.1.runs.message_of_not_task rfl, fun hrun _ => hchild.1.running hrun,
        fun hended => (congrArg Status.isTerminated hchild.2).trans
          (Outcome.isTerminated_status hended)⟩
    rw [tick_condition guard policy child state world hstart hbroken,
      ticks_condition guard policy child state world hstart hbroken]
    cases houtcome : started.status.outcome? with
    | some outcome =>
      obtain ⟨hstatus, hended⟩ := Status.eq_of_outcome? houtcome
      exact ⟨⟨hbegun.append (.nil rfl), fun hrun => absurd hrun hended⟩, hstatus⟩
    | none =>
      cases broken with
      | true =>
        have hstopped := (stopsOption_runs child htree started.child checked).after_silent hchecked
        exact ⟨⟨hbegun.append hstopped, nofun⟩, rfl⟩
      | false =>
        have hticked := tickOption_unspent child htree started.child checked hfit.1
          (hstarted (Status.isTerminated_of_outcome? houtcome))
        exact ⟨⟨hbegun.append (hticked.runs.after_silent hchecked), hticked.running⟩, rfl⟩
  | .service label interval callback child, htree, state, world, hfit, h => by
    have hbegun := starts_runs (.service label interval callback child) htree state world
    have hstarted := start_unspent (.service label interval callback child) state world h
    have hfit := (start_fit (.service label interval callback child) state world hfit).1
    rw [BuiltIn] at htree
    rcases hstart : (Tree.service label interval callback child).start state world with
      ⟨started, begun⟩
    rw [hstart] at hbegun hstarted hfit
    rw [Fit] at hfit
    suffices hchild : TickedUnspentOption child
        ((Tree.service label interval callback child).ticks state world) world
        (((Tree.service label interval callback child).tick state world).1,
          ((Tree.service label interval callback child).tick state world).2.1.child,
          ((Tree.service label interval callback child).tick state world).2.2) ∧
        ((Tree.service label interval callback child).tick state world).2.1.status =
          ((Tree.service label interval callback child).tick state world).1.status from
      ⟨hchild.1.runs.message_of_not_task rfl, fun hrun _ => hchild.1.running hrun,
        fun hended => (congrArg Status.isTerminated hchild.2).trans
          (Outcome.isTerminated_status hended)⟩
    rw [tick_service label interval callback child state world hstart,
      ticks_service label interval callback child state world hstart]
    cases houtcome : started.status.outcome? with
    | some outcome =>
      obtain ⟨hstatus, hended⟩ := Status.eq_of_outcome? houtcome
      exact ⟨⟨hbegun.append (.nil rfl), fun hrun => absurd hrun hended⟩, hstatus⟩
    | none =>
      have hticked := tickOption_unspent child htree started.child begun hfit.1
        (hstarted (Status.isTerminated_of_outcome? houtcome))
      exact ⟨⟨hbegun.append hticked.runs, hticked.running⟩, rfl⟩

theorem tickFrom_unspent : (goOn : Outcome) → goOn ≠ .running → (trees : List (Tree A)) →
    BuiltInList trees → (i : Nat) → (states : StateList trees) → (world : World A) →
    FitAt trees i states → UnspentList trees states →
    TickedUnspentFrom trees (ticksFrom goOn trees i states world) world
      (tickFrom goOn trees i states world)
  | _, _, [], _, _, _, _, _, _ => ⟨.nil rfl, trivial⟩
  | goOn, hgo, tree :: trees, htrees, 0, (state, states), world, hfit, h => by
    rw [FitAt] at hfit
    rw [BuiltInList] at htrees
    rw [UnspentList] at h
    have hticked := tick_unspent tree htrees.1 state world hfit.1 h.1
    have hfitted := tick_fit tree state world hfit.1
    rcases htick : tree.tick state world with ⟨outcome, ticked, after⟩
    rw [htick] at hticked hfitted
    have hquiet := (stop_quiet tree ticked after hfitted.fit).1
    have hstopped : Mail.Runs (tree.mail .stop ticked after) after (tree.stop ticked after).2 :=
      (stops_runs tree htrees.1 ticked after).message_of_ne_tick (by simp)
    rw [tickFrom_zero goOn tree trees state states world htick,
      ticksFrom_zero goOn tree trees state states world htick]
    split
    · rename_i hrun
      exact ⟨hticked.runs.first.append (.nil rfl), ⟨hticked.running hrun, h.2⟩⟩
    · split
      · have hrest := tickFrom_unspent goOn hgo trees htrees.2 0 states (tree.stop ticked after).2
          (QuietList.fitAt _ _ _ hfit.2) h.2
        exact ⟨hticked.runs.first.append (hstopped.first.append hrest.runs.later),
          ⟨hquiet.unspent, hrest.unspent⟩⟩
      · exact ⟨hticked.runs.first.append (hstopped.first.append (.nil rfl)), ⟨hquiet.unspent, h.2⟩⟩
  | goOn, hgo, tree :: trees, htrees, i + 1, (state, states), world, hfit, h => by
    rw [FitAt] at hfit
    rw [BuiltInList] at htrees
    rw [UnspentList] at h
    have hrest := tickFrom_unspent goOn hgo trees htrees.2 i states world hfit.2 h.2
    rw [tickFrom, ticksFrom]
    exact ⟨hrest.runs.later, ⟨h.1, hrest.unspent⟩⟩

theorem tickOption_unspent : (tree : Option (Tree A)) → BuiltInOption tree →
    (state : StateOption tree) → (world : World A) → FitOption tree state → UnspentOption tree state →
    TickedUnspentOption tree (ticksOption tree state world) world (tickOption tree state world)
  | none, _, _, _, _, _ => ⟨.nil rfl, nofun⟩
  | some tree, htree, state, world, hfit, h => by
    rw [FitOption] at hfit
    have hticked := tick_unspent tree htree state world hfit h
    exact ⟨hticked.runs.first, hticked.running⟩

end

end Tree

namespace Root

def told (root : Root A) (signal : Signal) : Mail A := root.tree.mail signal root.state root.world

def tickMail (root : Root A) : Mail A :=
  if root.active then
    if root.status.isTerminated then root.told .release ++ root.released.told .tick
    else root.told .tick
  else []

def mail (root : Root A) : Call A → Mail A
  | .start => if root.active then [] else root.told .start
  | .tick => root.tickMail
  | .update dt => (root.advance dt).tickMail
  | .stop => if root.active then root.told .release else []
  | _ => []

def mails (root : Root A) : List (Call A) → Mail A
  | [] => []
  | call :: calls => root.mail call ++ (root.call call).mails calls

variable (root : Root A)

theorem start_of_active (hactive : root.active = true) : root.start = root := if_pos hactive

theorem start_of_inactive (hidle : root.active = false) :
    root.start =
      { root with
        state := (root.tree.start root.state root.world).1
        world := (root.tree.start root.state root.world).2
        active := true } := by
  unfold start
  rw [if_neg (by simp [hidle])]

theorem tick_of_inactive (hidle : root.active = false) : root.tick = root := by
  rw [tick, if_pos (by simp [hidle])]

theorem stop_of_inactive (hidle : root.active = false) : root.stop = root := by
  rw [stop, if_pos (by simp [hidle])]

theorem released_carries :
    Mail.Carries root.node root.released.node (root.told .release) :=
  root.tree.mail_carries .release root.state root.world

theorem evaluated_carries :
    Mail.Carries root.node root.evaluated.node (root.told .tick) :=
  root.tree.mail_carries .tick root.state root.world

theorem tick_carries : Mail.Carries root.node root.tick.node root.tickMail := by
  rw [tickMail]
  by_cases hactive : root.active = true
  · rw [root.tick_eq hactive, if_pos hactive]
    split
    · exact root.released_carries.append root.released.evaluated_carries
    · exact root.evaluated_carries
  · rw [root.tick_of_inactive (by simpa using hactive), if_neg hactive]
    exact .refl _

theorem mail_carries (call : Call A) :
    Mail.Carries root.node (root.call call).node (root.mail call) := by
  cases call with
  | start =>
    rw [mail, Root.call]
    by_cases hactive : root.active = true
    · rw [root.start_of_active hactive, if_pos hactive]
      exact .refl _
    · rw [root.start_of_inactive (by simpa using hactive), if_neg hactive]
      exact root.tree.mail_carries .start root.state root.world
  | tick => exact root.tick_carries
  | update dt => exact (root.advance dt).tick_carries
  | stop =>
    rw [mail, Root.call]
    by_cases hactive : root.active = true
    · rw [root.stop_eq hactive, if_pos hactive]
      exact root.released_carries
    · rw [root.stop_of_inactive (by simpa using hactive), if_neg hactive]
      exact .refl _
  | advance _ | steer _ | set _ _ | remove _ | getNumber _ | getBool _ | clear | watch _ _
  | unwatch _ => exact .refl _

theorem mails_carries (calls : List (Call A)) :
    Mail.Carries root.node (root.calls calls).node (root.mails calls) := by
  induction calls generalizing root with
  | nil => exact .refl _
  | cons call calls ih => exact (root.mail_carries call).append (ih (root.call call))

/-- Unless the tree has ended itself, none of its leaves will be run past its end. -/
def Unspent : Prop := root.status.isTerminated = false → root.tree.Unspent root.state

theorem advance_runs (htree : root.tree.BuiltIn) (dt : Duration) :
    (root.advance dt).world.acts = root.world.acts :=
  root.world.acts_advance (fun timer => root.tree.acts_fire htree root.state timer) dt

theorem released_runs (htree : root.tree.BuiltIn) :
    Mail.Runs (root.told .release) root.world root.released.world :=
  (root.tree.releases_runs htree root.state root.world).message_of_ne_tick (by simp)

theorem evaluated_runs (htree : root.tree.BuiltIn) (hfit : root.node.Fit)
    (h : root.tree.Unspent root.state) :
    Mail.Runs (root.told .tick) root.world root.evaluated.world ∧ root.evaluated.Unspent := by
  have hticked := root.tree.tick_unspent htree root.state root.world hfit h
  refine ⟨hticked.runs, fun hgoing => ?_⟩
  by_cases hrun : (root.tree.tick root.state root.world).1 = .running
  · exact hticked.running hrun
  · exact absurd ((hticked.ended hrun).symm.trans hgoing) (by decide)

end Root

namespace Session

variable {tree : Tree A} {initial : Values} {session : Session A}

namespace Kept

theorem released_unspent (h : session.Kept) :
    session.root.released.tree.Unspent session.root.released.state :=
  Tree.Quiet.unspent _ _ h.released.2.1

theorem tick_runs (h : session.Kept) (htree : session.root.tree.BuiltIn)
    (hunspent : session.root.Unspent) :
    Mail.Runs session.root.tickMail session.root.world session.root.tick.world ∧
      session.root.tick.Unspent := by
  rw [Root.tickMail]
  by_cases hactive : session.root.active = true
  · rw [session.root.tick_eq hactive, if_pos hactive]
    split <;> rename_i hended
    · have hreleased := h.released.1.kept.fit
      obtain ⟨hruns, hlater⟩ := session.root.released.evaluated_runs htree hreleased h.released_unspent
      exact ⟨(session.root.released_runs htree).append hruns, hlater⟩
    · exact session.root.evaluated_runs htree h.fit (hunspent (by simpa using hended))
  · rw [session.root.tick_of_inactive (by simpa using hactive), if_neg hactive]
    exact ⟨.nil rfl, hunspent⟩

theorem start_runs (h : session.Kept) (htree : session.root.tree.BuiltIn)
    (hunspent : session.root.Unspent) :
    Mail.Runs (session.root.mail .start) session.root.world session.root.start.world ∧
      session.root.start.Unspent := by
  rw [Root.mail]
  by_cases hactive : session.root.active = true
  · rw [session.root.start_of_active hactive, if_pos hactive]
    exact ⟨.nil rfl, hunspent⟩
  · have hquiet := (h.resting (by simpa using hactive)).1
    rw [session.root.start_of_inactive (by simpa using hactive), if_neg hactive]
    exact ⟨(Tree.starts_runs _ htree session.root.state session.root.world).message_of_ne_tick (by simp),
      fun _ => Tree.start_unspent _ _ _ (Tree.Quiet.unspent _ _ hquiet)⟩

theorem stop_runs (h : session.Kept) (htree : session.root.tree.BuiltIn)
    (hunspent : session.root.Unspent) :
    Mail.Runs (session.root.mail .stop) session.root.world session.root.stop.world ∧
      session.root.stop.Unspent := by
  rw [Root.mail]
  by_cases hactive : session.root.active = true
  · rw [session.root.stop_eq hactive, if_pos hactive]
    exact ⟨(session.root.released_runs htree).before_silent (World.acts_reset _ _),
      fun _ => h.released_unspent⟩
  · rw [session.root.stop_of_inactive (by simpa using hactive), if_neg hactive]
    exact ⟨.nil rfl, hunspent⟩

theorem call_runs (h : session.Kept) (htree : session.root.tree.BuiltIn)
    (hunspent : session.root.Unspent) (call : Call A) :
    Mail.Runs (session.root.mail call) session.root.world (session.root.call call).world ∧
      (session.root.call call).Unspent := by
  cases call with
  | start => exact h.start_runs htree hunspent
  | tick => exact h.tick_runs htree hunspent
  | update dt =>
    obtain ⟨hruns, hlater⟩ := (h.advance dt).kept.tick_runs htree hunspent
    exact ⟨hruns.after_silent (session.root.advance_runs htree dt), hlater⟩
  | stop => exact h.stop_runs htree hunspent
  | advance dt => exact ⟨.nil (session.root.advance_runs htree dt), hunspent⟩
  | getNumber key => exact ⟨.nil (World.acts_withReport _ _ _), hunspent⟩
  | getBool key => exact ⟨.nil (World.acts_withReport _ _ _), hunspent⟩
  | steer _ | set _ _ | remove _ | clear | watch _ _ | unwatch _ => exact ⟨.nil rfl, hunspent⟩

theorem calls_runs (h : session.Kept) (htree : session.root.tree.BuiltIn)
    (hunspent : session.root.Unspent) (calls : List (Call A)) :
    Mail.Runs (session.root.mails calls) session.root.world (session.root.calls calls).world ∧
      (session.root.calls calls).Unspent := by
  induction calls generalizing session with
  | nil => exact ⟨.nil rfl, hunspent⟩
  | cons call calls ih =>
    obtain ⟨hruns, hlater⟩ := h.call_runs htree hunspent call
    have htree : (session.root.call call).tree.BuiltIn := by rwa [(session.root.call_plan call).1]
    obtain ⟨hrest, hlast⟩ := ih (h.call call).kept htree hlater
    exact ⟨hruns.append hrest, hlast⟩

end Kept

theorem Reachable.unspent (htree : tree.BuiltIn) (h : Reachable tree initial session) :
    session.root.Unspent := by
  induction h with
  | opened _ _ _ hroot =>
    obtain ⟨-, rfl⟩ := Root.withBoard_eq_ok.mp hroot
    exact fun _ => Tree.Quiet.unspent _ _ (Tree.fresh_quiet tree _ htree).1
  | called call h ih =>
    have hbuilt : (_ : Root A).tree.BuiltIn := h.tree_eq ▸ htree
    exact ((h.kept htree).call_runs hbuilt ih call).2

end Session

theorem Chain.isAction_eq {first last : Subtree A} {messages : List (Message A)}
    (h : Chain first messages last) : last.isAction = first.isAction := by
  induction h with
  | nil node => rfl
  | cons _ ih => exact ih.trans (Message.isAction_done _)

theorem Message.isTerminated_start {message : Message A} (haction : message.node.isAction = true)
    (hstart : message.signal = .start) (h : message.node.status.isTerminated = true) :
    message.done.status.isTerminated = true := by
  obtain ⟨signal, ⟨tree, state⟩, world⟩ := message
  cases tree <;> cases haction
  cases hstart
  have hgoing : state.status ≠ .inactive := fun hidle => by
    simp [Subtree.status, Tree.status, hidle, Status.isTerminated] at h
  simpa only [done, Tree.signal, Tree.start, if_neg hgoing] using h

theorem Message.isTerminated_tick {message : Message A} (haction : message.node.isAction = true)
    (htick : message.signal = .tick) : message.done.status.isTerminated = true := by
  obtain ⟨signal, ⟨tree, state⟩, world⟩ := message
  cases tree <;> cases haction
  cases htick
  simp only [done, Tree.signal, Tree.tick]
  split
  · exact congrArg Status.isTerminated ‹_›
  · rfl

/-- An action that is neither stopped nor released is ticked at most once, and not at all if it has ended
before. -/
theorem Chain.countP_tick {first last : Subtree A} {messages : List (Message A)}
    (h : Chain first messages last) (haction : first.isAction = true)
    (htimely : ∀ message ∈ messages, message.Timely)
    (hkept : ∀ message ∈ messages, message.signal ≠ .stop ∧ message.signal ≠ .release) :
    messages.countP (·.signal = .tick) ≤ 1 ∧
      (first.status.isTerminated = true → messages.countP (·.signal = .tick) = 0) := by
  induction h with
  | nil node => exact ⟨Nat.zero_le 1, fun _ => rfl⟩
  | @cons message messages last _ ih =>
    obtain ⟨hfirst, hrest⟩ := List.forall_mem_cons.mp htimely
    obtain ⟨hsignal, hsignals⟩ := List.forall_mem_cons.mp hkept
    obtain ⟨honce, hnever⟩ := ih (message.isAction_done.trans haction) hrest hsignals
    cases hsent : message.signal with
    | start =>
      rw [List.countP_cons_of_neg (by simp [hsent])]
      exact ⟨honce, fun hended => hnever (Message.isTerminated_start haction hsent hended)⟩
    | tick =>
      have hgoing := hfirst hsent (Subtree.isTask_of_isAction haction)
      rw [List.countP_cons_of_pos (by simp [hsent]), hnever (Message.isTerminated_tick haction hsent)]
      exact ⟨le_rfl, fun hended => absurd (hgoing.symm.trans hended) (by decide)⟩
    | stop => exact absurd hsent hsignal.1
    | release => exact absurd hsent hsignal.2

theorem Mail.Carries.countP_tick {before after : Subtree A} {mail : Mail A}
    (h : Mail.Carries before after mail) (htimely : ∀ entry ∈ mail, entry.2.Timely)
    {position : List Nat} {node : Subtree A} (hnode : before.at? position = some node)
    (haction : node.isAction = true) {row : List (Message A)}
    (hrow : row <:+: Mail.addressed position mail)
    (hkept : ∀ message ∈ row, message.signal ≠ .stop ∧ message.signal ≠ .release) :
    row.countP (·.signal = .tick) ≤ 1 := by
  obtain ⟨later, -, hchain⟩ := h position node hnode
  have hall : ∀ message ∈ row, message.Timely := by
    intro message hmem
    obtain ⟨entry, hentry, hmessage⟩ := List.mem_filterMap.mp (hrow.subset hmem)
    by_cases hposition : entry.1 = position
    · rw [if_pos hposition] at hmessage
      exact Option.some.inj hmessage ▸ htimely entry hentry
    · rw [if_neg hposition] at hmessage
      cases hmessage
  obtain ⟨front, back, heq⟩ := hrow
  rw [← heq] at hchain
  obtain ⟨middle, hbefore, -⟩ := hchain.split
  obtain ⟨start, hfront, hmiddle⟩ := hbefore.split
  exact (hmiddle.countP_tick (hfront.isAction_eq.trans haction) hall hkept).1

/-- In every run that a host can drive, no action and no wait is ticked once it has ended. So each tick of
an action runs its command, and a command runs at most once between two stops of its action, and at no
other time. -/
theorem Session.Reachable.leaves_end_once {tree : Tree A} {initial : Values} {session : Session A}
    (htree : tree.BuiltIn) (h : session.Reachable tree initial) (calls : List (Call A)) :
    Mail.Carries session.root.node (session.root.calls calls).node (session.root.mails calls) ∧
    (∀ entry ∈ session.root.mails calls, entry.2.signal = .tick → entry.2.node.isTask = true →
      entry.2.node.status.isTerminated = false) ∧
    (∀ position label command state world,
      (position, ⟨.tick, ⟨.action label command, state⟩, world⟩) ∈ session.root.mails calls →
      (Tree.action label command).tick state world =
        (.success, ⟨.succeeded, (command.run state.random (world.record (.acted label))).1⟩,
          (command.run state.random (world.record (.acted label))).2)) ∧
    (∀ position node, session.root.node.at? position = some node → node.isAction = true →
      ∀ row, row <:+: Mail.addressed position (session.root.mails calls) →
      (∀ message ∈ row, message.signal ≠ .stop ∧ message.signal ≠ .release) →
      row.countP (·.signal = .tick) ≤ 1) ∧
    (session.root.calls calls).world.acts =
      ((session.root.mails calls).filterMap fun entry => entry.2.action?).reverse ++
        session.root.world.acts := by
  have hcarries := session.root.mails_carries calls
  have hbuilt : session.root.tree.BuiltIn := h.tree_eq ▸ htree
  have hruns := ((h.kept htree).calls_runs hbuilt (h.unspent htree) calls).1
  refine ⟨hcarries, hruns.timely, ?_, ?_, hruns.acts⟩
  · intro position label command state world hmem
    have hgoing := hruns.timely _ hmem rfl rfl
    have hnew : state.status ≠ .succeeded := fun hended => by
      simp [Subtree.status, Tree.status, hended, Status.isTerminated] at hgoing
    rw [Tree.tick, if_neg hnew]
  · intro position node hnode haction row hrow hkept
    exact hcarries.countP_tick hruns.timely hnode haction hrow hkept

def greeter : Tree Nat := .sequence [.action "greet" (.always (· + 1)), .wait 5 0]

/-- The greeter is ticked six times and comes to its end twice. It greets twice. -/
theorem greeter_greets_once_a_round :
    let session : Session Nat := ⟨Root.opened greeter {} 0 (fun _ agent => agent) (.ofSeed 0), []⟩
    let calls : List (Call Nat) := [.start, .tick, .update 3, .update 2, .tick, .update 4, .update 1]
    greeter.BuiltIn ∧ session.Reachable greeter .empty ∧
    (session.root.calls calls).world.agent = 2 ∧
    (session.root.calls calls).world.acts = ["greet", "greet"] ∧
    ((session.root.mails calls).filterMap fun entry => entry.2.action?) = ["greet", "greet"] ∧
    ∀ row, row <:+: Mail.addressed [0] (session.root.mails calls) →
      (∀ message ∈ row, message.signal ≠ .stop ∧ message.signal ≠ .release) →
      row.countP (·.signal = .tick) ≤ 1 := by
  intro session calls
  have hbuilt : greeter.BuiltIn := ⟨trivial, trivial, trivial⟩
  have hreachable : session.Reachable greeter .empty :=
    .opened (Board.sound_ofValues .empty) rfl (fun _ _ _ => rfl)
      (Root.withBoard_eq_ok.mpr ⟨⟨rfl, rfl⟩, rfl⟩)
  obtain ⟨-, -, -, hrows, hacts⟩ := hreachable.leaves_end_once hbuilt calls
  have hgreeted : (session.root.calls calls).world.acts = ["greet", "greet"] := by decide
  refine ⟨hbuilt, hreachable, by decide, hgreeted, ?_, hrows [0] _ rfl rfl⟩
  rw [← List.reverse_inj, ← List.append_nil (List.reverse _)]
  exact hacts.symm.trans hgreeted

end BehaviorTree
