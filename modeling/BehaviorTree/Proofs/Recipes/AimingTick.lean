import BehaviorTree.Proofs.Recipes.Orders
import BehaviorTree.Proofs.Conditions.SelfAbort

namespace BehaviorTree

variable {A : Type}

namespace Tree

/-- From a quiet state the tree succeeds in one tick, with one order. -/
structure Gives (tree : Tree (Recorded A)) (P : Order → Prop) : Prop where
  builtIn : tree.BuiltIn
  tick : ∀ (state : tree.State) (world : World (Recorded A)), tree.Quiet state →
    ∃ ticked after order, tree.tick state world = (.success, ticked, after) ∧ P order ∧
      world.Issues after [order]

structure GivesAll (trees : List (Tree (Recorded A))) (P : List Order → Prop) : Prop where
  builtIn : BuiltInList trees
  tick : ∀ (states : StateList trees) (world : World (Recorded A)), QuietList trees states →
    ∃ current ticked after orders, tickFrom .success trees 0 states world =
      (.success, current, ticked, after) ∧ P orders ∧ world.Issues after orders

variable {tree : Tree (Recorded A)} {trees : List (Tree (Recorded A))}

theorem tick_action (label : String) (command : Command (Recorded A)) {state : ActionState}
    (world : World (Recorded A)) (h : state.status ≠ .succeeded) :
    (Tree.action label command).tick state world =
      (.success, ⟨.succeeded, (command.run state.random (world.record (.acted label))).1⟩,
        (command.run state.random (world.record (.acted label))).2) := by
  rw [tick, if_neg h]

theorem gives_drawn {label : String} {low high : Float32} {effect : Float32 → Recorded A → Recorded A}
    {order : Float32 → Order}
    (heffect : ∀ amount tank, (effect amount tank).orders = order amount :: tank.orders) :
    (Tree.action label (.drawn low high effect)).Gives fun given => ∃ amount, given = order amount := by
  refine ⟨trivial, fun state world hquiet => ?_⟩
  have hidle : state.status ≠ .succeeded := by simp [show state.status = .inactive from hquiet]
  exact ⟨_, _, _, tick_action label _ world hidle, ⟨_, rfl⟩, heffect _ _, rfl, rfl⟩

theorem GivesAll.nil : GivesAll ([] : List (Tree (Recorded A))) (· = []) :=
  ⟨trivial, fun _ world _ => ⟨0, (), world, [], rfl, rfl, .refl world⟩⟩

theorem GivesAll.imp {P Q : List Order → Prop} (h : GivesAll trees P)
    (himp : ∀ orders, P orders → Q orders) : GivesAll trees Q := by
  refine ⟨h.builtIn, fun states world hquiet => ?_⟩
  obtain ⟨current, ticked, after, orders, htick, horders, hissues⟩ := h.tick states world hquiet
  exact ⟨current, ticked, after, orders, htick, himp orders horders, hissues⟩

def behind (state : tree.State) : Outcome × Nat × StateList trees × World (Recorded A) →
    Outcome × Nat × StateList (tree :: trees) × World (Recorded A)
  | (outcome, current, states, world) => (outcome, current + 1, (state, states), world)

theorem Gives.first {P : Order → Prop} (h : tree.Gives P) {state : tree.State}
    (trees : List (Tree (Recorded A))) (states : StateList trees) (world : World (Recorded A))
    (hquiet : tree.Quiet state) :
    ∃ stopped after order, P order ∧ world.Issues after [order] ∧ tree.Quiet stopped ∧
      tickFrom .success (tree :: trees) 0 (state, states) world =
        behind stopped (tickFrom .success trees 0 states after) := by
  obtain ⟨ticked, after, order, htick, horder, hissues⟩ := h.tick state world hquiet
  have hfit := (tick_fit tree state world hquiet.fit).fit
  rw [htick] at hfit
  refine ⟨(tree.stop ticked after).1, (tree.stop ticked after).2, order, horder,
    hissues.then_none (stop_issues tree ticked after h.builtIn), (stop_quiet tree ticked after hfit).1, ?_⟩
  rw [tickFrom_zero .success tree trees state states world htick, if_neg (by simp), if_pos rfl]
  rfl

theorem GivesAll.cons {P : Order → Prop} {Q : List Order → Prop} (h : tree.Gives P)
    (k : GivesAll trees Q) :
    GivesAll (tree :: trees) fun orders => ∃ first later, P first ∧ Q later ∧
      orders = later ++ [first] := by
  refine ⟨⟨h.builtIn, k.builtIn⟩, ?_⟩
  rintro ⟨state, states⟩ world ⟨hquiet, hquiets⟩
  obtain ⟨stopped, middle, order, horder, hfirst, -, htick⟩ := h.first trees states world hquiet
  obtain ⟨current, ticked, after, later, hlater, hQ, hissues⟩ := k.tick states middle hquiets
  rw [hlater] at htick
  exact ⟨_, _, after, later ++ [order], htick, ⟨order, later, horder, hQ, rfl⟩, hfirst.trans hissues⟩

theorem tick_condition_quiet (guard : Guard) (policy : RestartPolicy)
    {state : (Tree.condition guard policy (some tree)).State} {begun : tree.State}
    (world : World (Recorded A)) (hidle : state.status = .inactive) (hbuilt : tree.BuiltIn)
    (hbegin : ∀ world, tree.start state.child world = (begun, world)) :
    (∃ ticked after, (Tree.condition guard policy (some tree)).tick state world =
        (.fail, ticked, after) ∧ world.Issues after []) ∨
    guard.holds world.board = true ∧ ∃ observer checked, world.Issues checked [] ∧
      (Tree.condition guard policy (some tree)).tick state world =
        ((tree.tick begun checked).1,
          ⟨(tree.tick begun checked).1.status, observer, (tree.tick begun checked).2.1⟩,
          (tree.tick begun checked).2.2) := by
  have hobserve := World.issues_observe world state.observer guard.key
  have hvalues : (world.observe state.observer guard.key).2.board.values = world.board.values := by
    cases state.observer <;> rfl
  rcases hobserved : world.observe state.observer guard.key with ⟨id, observed⟩
  rw [hobserved] at hobserve hvalues
  have hjudge := hobserve.then_none (World.issues_judge observed guard id)
  have hholds := congrArg Prod.fst (World.judge_eq observed guard id)
  rcases hjudged : observed.judge guard id with ⟨holds, judged⟩
  rw [hjudged] at hjudge hholds
  obtain rfl : holds = guard.holds world.board :=
    hholds.trans (guard.holds_congr (congrArg (·.get? guard.key) hvalues))
  have hstart := start_condition guard policy (some tree) state world hidle hobserved hjudged
  rw [if_neg (by simp), startOption, hbegin] at hstart
  cases hholds : guard.holds world.board with
  | false =>
    rw [hholds, if_neg (by simp)] at hstart
    exact .inl ⟨_, judged, tick_condition _ _ _ state world hstart Prod.mk.eta.symm, hjudge⟩
  | true =>
    rw [hholds, if_pos rfl] at hstart
    have hcheck : judged.Issues (if policy.abortsSelf then judged.stoppedHolding guard (some id)
        else (false, judged)).2 [] := by
      split
      · exact World.issues_stoppedHolding judged guard (some id)
      · exact .refl judged
    rcases hchecked : (if policy.abortsSelf then judged.stoppedHolding guard (some id)
      else (false, judged)) with ⟨broken, checked⟩
    rw [hchecked] at hcheck
    have htick := tick_condition guard policy _ state world hstart hchecked
    -- The observer may be flagged already. Then the condition fails, and its child orders nothing.
    cases broken with
    | true => exact .inl ⟨_, _, htick, (hjudge.then_none hcheck).then_none (stop_issues _ _ _ hbuilt)⟩
    | false => exact .inr ⟨rfl, some id, checked, hjudge.then_none hcheck, htick⟩

structure Paused (pause since : Duration) (state : WaitState) : Prop where
  running : state.status = .running
  startedAt_eq : state.startedAt = since
  target_eq : state.target = pause
  pos : 0 < pause

theorem tick_pause {pause since : Duration} {state : WaitState} {world : World (Recorded A)}
    (h : state.status = .inactive ∧ since = world.now ∨ Paused pause since state) :
    ∃ later, Paused pause since later ∧ (Tree.wait pause 0).tick state world = (.running, later, world) ∨
      since + pause ≤ world.now ∧ (Tree.wait pause 0).tick state world = (.success, later, world) := by
  have hstart : ∃ begun : WaitState, (Tree.wait pause 0).start state world = (begun, world) ∧
      begun.status = .running ∧ begun.startedAt = since ∧ begun.target = pause ∧
      (since = world.now ∨ 0 < pause) := by
    rw [start]
    obtain ⟨hidle, rfl⟩ | hpaused := h
    · rw [if_neg (by simp [hidle])]
      exact ⟨_, rfl, rfl, rfl, rfl, .inl rfl⟩
    · rw [if_pos (by simp [hpaused.running])]
      exact ⟨state, rfl, hpaused.running, hpaused.startedAt_eq, hpaused.target_eq, .inr hpaused.pos⟩
  obtain ⟨begun, hbegun, hrunning, hstarted, htarget, htime⟩ := hstart
  rw [tick, hbegun]
  dsimp only
  rw [if_neg (by simp [hrunning]), hstarted, htarget]
  split
  · rename_i hwait
    exact ⟨begun, .inl ⟨⟨hrunning, hstarted, htarget, Nat.zero_lt_of_lt hwait⟩, rfl⟩⟩
  · rename_i hover
    have hpassed : pause ≤ world.now - since := Nat.le_of_not_lt hover
    have hsince : since ≤ world.now := by
      obtain rfl | hpos := htime
      · exact Nat.le_refl _
      · exact Nat.le_of_lt (Nat.lt_of_sub_pos (Nat.lt_of_lt_of_le hpos hpassed))
    exact ⟨_, .inr ⟨Nat.add_le_of_le_sub' hsince hpassed, rfl⟩⟩

theorem tickFrom_pause {P : List Order → Prop} (h : GivesAll trees P) {pause since : Duration}
    {state : WaitState} {states : StateList trees} {world : World (Recorded A)}
    (hpause : state.status = .inactive ∧ since = world.now ∨ Paused pause since state)
    (hquiet : QuietList trees states) :
    (∃ later, Paused pause since later ∧ tickFrom .success (.wait pause 0 :: trees) 0 (state, states) world =
      (.running, 0, (later, states), world)) ∨
    since + pause ≤ world.now ∧ ∃ current ticked after orders, P orders ∧ world.Issues after orders ∧
      tickFrom .success (.wait pause 0 :: trees) 0 (state, states) world =
        (.success, current, ticked, after) := by
  obtain ⟨later, ⟨hpaused, htick⟩ | ⟨hpassed, htick⟩⟩ := tick_pause hpause
  · refine .inl ⟨later, hpaused, ?_⟩
    rw [tickFrom_zero .success (.wait pause 0) trees state states world htick, if_pos rfl]
  · obtain ⟨current, ticked, after, orders, hticked, horders, hissues⟩ := h.tick states world hquiet
    have hrest := tickFrom_zero .success (.wait pause 0) trees state states world htick
    rw [if_neg (by simp), if_pos rfl, show ((Tree.wait pause 0).stop later world).2 = world from rfl,
      hticked] at hrest
    exact .inr ⟨hpassed, _, _, after, orders, horders, hissues, hrest⟩

end Tree

/-- What to do where a target is lined up: to stop turning, to wait, and then to act. -/
structure Vigil (A : Type) where
  /-- When the target is lined up. -/
  aim : Guard
  pause : Duration
  acts : List (Tree A)

namespace Vigil

section Trees

variable [Tank A]

@[reducible] def steps (vigil : Vigil A) : List (Tree A) :=
  Recipe.turn 0 :: .wait vigil.pause 0 :: vigil.acts

@[reducible] def branch (vigil : Vigil A) : Tree A :=
  .condition vigil.aim .immediateRestart (some (.sequence vigil.steps))

/-- Sees to the target all the time, and does something else where it is not lined up. -/
@[reducible] def tree (vigil : Vigil A) (label : String) (interval : Duration)
    (others : List (Tree A)) : Tree A :=
  .service label interval Perception.refresh (some (.selector (vigil.branch :: others)))

end Trees

/-- What comes of a tick of a tree whose pause goes on since a time: it waits, or the pause is over and it
acts. `first` are the orders by then. -/
inductive Goes {S : Type} (vigil : Vigil (Recorded A)) (volley : List Order → Prop) (since : Duration)
    (first : List Order) (waiting : S → Prop) (world : World (Recorded A)) :
    Outcome × S × World (Recorded A) → Prop where
  | waits {state : S} {after : World (Recorded A)} :
    waiting state → 0 < vigil.pause → world.Issues after first →
    Goes vigil volley since first waiting world (.running, state, after)
  | acts {state : S} {after : World (Recorded A)} {orders : List Order} :
    volley orders → since + vigil.pause ≤ world.now → world.Issues after (orders ++ first) →
    Goes vigil volley since first waiting world (.success, state, after)

variable {vigil : Vigil (Recorded A)} {volley : List Order → Prop} {since : Duration}
variable {first : List Order} {world before : World (Recorded A)}

variable [Tank A]

open BehaviorTree.Tree

/-- The pause goes on since a time. -/
def Waits (vigil : Vigil (Recorded A)) (since : Duration)
    (state : (Tree.sequence vigil.steps).State) : Prop :=
  ∃ opening pause acts, state = ⟨.running, 1, opening, pause, acts⟩ ∧
    (Recipe.turn (A := Recorded A) 0).Quiet opening ∧ Paused vigil.pause since pause ∧
    QuietList vigil.acts acts

theorem tick_turn (amount : Float32) {state : ActionState} (world : World (Recorded A))
    (h : state.status ≠ .succeeded) :
    ∃ ticked after, (Recipe.turn amount).tick state world = (.success, ticked, after) ∧
      world.Issues after [.turn amount] :=
  ⟨_, _, tick_action "Turn" _ world h, rfl, rfl, rfl⟩

theorem gives_turn (amount : Float32) :
    (Recipe.turn (A := Recorded A) amount).Gives (· = .turn amount) := by
  refine ⟨trivial, fun state world hquiet => ?_⟩
  have hidle : state.status ≠ .succeeded := by simp [show state.status = .inactive from hquiet]
  obtain ⟨ticked, after, htick, hissues⟩ := tick_turn amount world hidle
  exact ⟨ticked, after, _, htick, rfl, hissues⟩

theorem builtIn_steps (hacts : GivesAll vigil.acts volley) : (Tree.sequence vigil.steps).BuiltIn :=
  ⟨trivial, trivial, hacts.builtIn⟩

theorem settle_steps (hacts : GivesAll vigil.acts volley) {i : Nat} {states : StateList vigil.steps}
    {middle : World (Recorded A)} {opening : (Recipe.turn (A := Recorded A) 0).State}
    {pause : WaitState} {acts : StateList vigil.acts} (hissues : world.Issues middle first)
    (hopening : (Recipe.turn (A := Recorded A) 0).Quiet opening) (hquiet : QuietList vigil.acts acts)
    (hpause : pause.status = .inactive ∧ since = world.now ∨ Paused vigil.pause since pause)
    (hrest : tickFrom .success vigil.steps i states world =
      behind opening (tickFrom .success (.wait vigil.pause 0 :: vigil.acts) 0 (pause, acts) middle)) :
    vigil.Goes volley since first (vigil.Waits since) world
      (tickRest .success vigil.steps i states world) := by
  rw [← hissues.now_eq] at hpause
  unfold tickRest
  rw [hrest]
  obtain ⟨later, hpaused, hticked⟩ | ⟨hpassed, current, ticked, after, orders, hvolley, hgiven, hticked⟩ :=
    tickFrom_pause hacts hpause hquiet <;> rw [hticked]
  · exact .waits ⟨opening, later, acts, rfl, hopening, hpaused, hquiet⟩ hpaused.pos hissues
  · have hreleased := releaseList_issues vigil.steps (opening, ticked) after (builtIn_steps hacts)
    rw [hissues.now_eq] at hpassed
    exact .acts hvolley hpassed ((hissues.trans hgiven).then_none hreleased)

theorem tick_steps_begun (hacts : GivesAll vigil.acts volley)
    {state : (Tree.sequence vigil.steps).State} (h : (Tree.sequence vigil.steps).Quiet state) :
    vigil.Goes volley world.now [.turn 0] (vigil.Waits world.now) world
      ((Tree.sequence vigil.steps).tick state.begin world) := by
  obtain ⟨status, current, opening, pause, acts⟩ := state
  obtain ⟨hidle, hopening, hpause, hquiet⟩ := h
  obtain rfl : status = .inactive := hidle
  obtain ⟨stopped, middle, order, rfl, hissues, hstopped, hrest⟩ :=
    (gives_turn 0).first (.wait vigil.pause 0 :: vigil.acts) (pause, acts) world hopening
  rw [tick_sequence]
  exact settle_steps hacts hissues hstopped hquiet (.inl ⟨hpause, rfl⟩) hrest

theorem tick_steps_waits (hacts : GivesAll vigil.acts volley)
    {state : (Tree.sequence vigil.steps).State} (h : vigil.Waits since state) :
    vigil.Goes volley since [] (vigil.Waits since) world
      ((Tree.sequence vigil.steps).tick state world) := by
  obtain ⟨opening, pause, acts, rfl, hopening, hpaused, hquiet⟩ := h
  rw [tick_sequence]
  exact settle_steps hacts (.refl world) hopening hquiet (.inr hpaused) rfl

/-- The branch has been entered, and its pause goes on since a time. -/
def Aiming (vigil : Vigil (Recorded A)) (since : Duration) (state : vigil.branch.State) : Prop :=
  state.status = .running ∧ vigil.Waits since state.child

def Loses (vigil : Vigil (Recorded A)) (state : vigil.branch.State) (world : World (Recorded A)) :
    Prop :=
  ∃ ticked after, vigil.branch.tick state world = (.fail, ticked, after) ∧ world.Issues after []

theorem Goes.branch {inner : Outcome × CompositeState (StateList vigil.steps) × World (Recorded A)}
    (h : vigil.Goes volley since first (vigil.Waits since) before inner)
    (hbefore : world.Issues before []) (observer : Option ObserverId) :
    vigil.Goes volley since first (vigil.Aiming since) world
      (inner.1, ⟨inner.1.status, observer, inner.2.1⟩, inner.2.2) := by
  cases h with
  | waits hwaits hpause hissues => exact .waits ⟨rfl, hwaits⟩ hpause (hbefore.after_none hissues)
  | acts hvolley hpassed hissues =>
    rw [hbefore.now_eq] at hpassed
    exact .acts hvolley hpassed (hbefore.after_none hissues)

theorem tick_branch_quiet (hacts : GivesAll vigil.acts volley) {state : vigil.branch.State}
    (h : vigil.branch.Quiet state) :
    vigil.Loses state world ∨ vigil.aim.holds world.board = true ∧
      vigil.Goes volley world.now [.turn 0] (vigil.Aiming world.now) world
        (vigil.branch.tick state world) := by
  obtain ⟨hidle, hquiet⟩ := h
  obtain hlost | ⟨hholds, observer, checked, hchecked, htick⟩ :=
    tick_condition_quiet vigil.aim .immediateRestart world hidle (builtIn_steps hacts) fun _ => rfl
  · exact .inl hlost
  · have hgoes := (tick_steps_begun hacts hquiet).branch hchecked observer
    rw [hchecked.now_eq] at hgoes
    rw [htick]
    exact .inr ⟨hholds, hgoes⟩

theorem tick_branch_aiming (hacts : GivesAll vigil.acts volley) {state : vigil.branch.State}
    (h : vigil.Aiming since state)
    (hwatchful : Keeper.Watchful world
      (.condition vigil.aim .immediateRestart state.status state.observer)) :
    vigil.Loses state world ∨ vigil.aim.holds world.board = true ∧
      vigil.Goes volley since [] (vigil.Aiming since) world (vigil.branch.tick state world) := by
  have hunflagged : world.Issues (world.unflagged .immediateRestart state.observer) [] := by
    cases state.observer <;> exact ⟨rfl, rfl, rfl⟩
  have hsame : vigil.aim.holds (world.unflagged .immediateRestart state.observer).board =
      vigil.aim.holds world.board := by
    apply vigil.aim.holds_congr
    cases state.observer <;> rfl
  have hholds := World.evaluate_fst (world.unflagged .immediateRestart state.observer) vigil.aim
  have hevaluate := hunflagged.then_none (World.issues_evaluate _ vigil.aim)
  rcases hevaluated : (world.unflagged .immediateRestart state.observer).evaluate vigil.aim with
    ⟨holds, evaluated⟩
  rw [hevaluated] at hholds hevaluate
  obtain rfl : holds = vigil.aim.holds world.board := hholds.trans hsame
  have htick := tick_unflagged vigil.aim .immediateRestart _ state world h.1 hwatchful
  rw [tickUnflagged, show RestartPolicy.immediateRestart.abortsSelf = true from rfl, if_pos rfl,
    hevaluated] at htick
  dsimp only at htick
  unfold Loses
  rw [htick]
  cases hkept : vigil.aim.holds world.board with
  | false =>
    rw [if_neg (by simp)]
    have hjudged : evaluated.Issues (evaluated.judged state.observer false) [] := by
      cases state.observer <;> exact ⟨rfl, rfl, rfl⟩
    have hstopped := stop_issues _ state.child (evaluated.judged state.observer false)
      (builtIn_steps hacts)
    exact .inl ⟨_, _, rfl, (hevaluate.then_none hjudged).then_none hstopped⟩
  | true =>
    rw [if_pos rfl]
    exact .inr ⟨rfl, (tick_steps_waits hacts h.2).branch hevaluate state.observer⟩

structure Turns (trees : List (Tree (Recorded A))) : Prop where
  builtIn : BuiltInList trees
  tick : ∀ (states : StateList trees) (world : World (Recorded A)), QuietList trees states →
    ∃ current ticked after amount, tickFrom .fail trees 0 states world =
      (.success, current, ticked, after) ∧ world.Issues after [.turn amount]

theorem start_turn (amount : Float32) {state : ActionState} (world : World (Recorded A))
    (h : state.status = .inactive) :
    (Recipe.turn amount).start state world = (⟨.running, state.random⟩, world) :=
  congrArg (·, world) (if_pos h)

theorem turns_turn (amount : Float32) (trees : List (Tree (Recorded A))) (hbuilt : BuiltInList trees) :
    Turns (Recipe.turn amount :: trees) := by
  refine ⟨⟨trivial, hbuilt⟩, ?_⟩
  rintro ⟨state, states⟩ world ⟨hquiet, -⟩
  obtain ⟨ticked, after, order, htick, rfl, hissues⟩ := (gives_turn amount).tick state world hquiet
  have hticked := tickFrom_zero .fail (Recipe.turn amount) trees state states world htick
  rw [if_neg (by simp), if_neg (by simp)] at hticked
  exact ⟨_, _, _, amount, hticked, hissues⟩

theorem Turns.guarded {trees : List (Tree (Recorded A))} (h : Turns trees) (guard : Guard)
    (policy : RestartPolicy) (amount : Float32) :
    Turns (.condition guard policy (some (Recipe.turn amount)) :: trees) := by
  have hturn : (Recipe.turn (A := Recorded A) amount).BuiltIn := trivial
  refine ⟨⟨hturn, h.builtIn⟩, ?_⟩
  rintro ⟨state, states⟩ world ⟨⟨hidle, hquiet⟩, hquiets⟩
  obtain ⟨ticked, after, htick, hissues⟩ | ⟨-, observer, checked, hchecked, htick⟩ :=
    tick_condition_quiet guard policy world hidle hturn fun world => start_turn amount world hquiet
  · obtain ⟨current, later, last, turned, hlater, hturned⟩ :=
      h.tick states ((Tree.condition guard policy _).stop ticked after).2 hquiets
    have hstop := stop_issues (.condition guard policy (some (Recipe.turn amount))) ticked after hturn
    have hticked := tickFrom_zero .fail (.condition guard policy (some (Recipe.turn amount))) trees
      state states world htick
    rw [if_neg (by simp), if_pos rfl, hlater] at hticked
    exact ⟨_, _, last, turned, hticked, (hissues.then_none hstop).after_none hturned⟩
  · obtain ⟨turned, after, hturned, hissues⟩ :=
      tick_turn amount checked (by simp : (⟨.running, state.child.random⟩ : ActionState).status ≠ _)
    rw [hturned] at htick
    have hstop := stop_issues (.condition guard policy (some (Recipe.turn amount)))
      ⟨Status.succeeded, observer, turned⟩ after hturn
    have hticked := tickFrom_zero .fail (.condition guard policy (some (Recipe.turn amount))) trees
      state states world htick
    rw [if_neg (by simp), if_neg (by simp)] at hticked
    exact ⟨_, _, _, amount, hticked, (hchecked.after_none hissues).then_none hstop⟩

variable {label : String} {interval : Duration} {others : List (Tree (Recorded A))}

/-- The tree runs, and it is the turn of its branch. -/
def Posted (vigil : Vigil (Recorded A)) (below : vigil.branch.State → Prop)
    (state : (vigil.tree label interval others).State) : Prop :=
  ∃ timer branch rest, state = ⟨.running, timer, .running, 0, branch, rest⟩ ∧ below branch ∧
    QuietList others rest

/-- Nothing of the branch has been done, and the next tick comes to it. -/
def Poised (vigil : Vigil (Recorded A)) (state : (vigil.tree label interval others).State) : Prop :=
  (vigil.tree label interval others).Quiet state ∨ vigil.Posted vigil.branch.Quiet state

structure Comes (vigil : Vigil (Recorded A)) (state : (vigil.tree label interval others).State)
    (world : World (Recorded A)) (timer : Option TimerId) (branch : vigil.branch.State)
    (rest : StateList others) (begun : World (Recorded A)) : Prop where
  start_eq : (vigil.tree label interval others).start state world =
    (⟨.running, timer, .running, 0, branch, rest⟩, begun)
  issues : world.Issues begun []
  quiet : QuietList others rest

theorem start_quiet {state : (vigil.tree label interval others).State}
    (hquiet : (vigil.tree label interval others).Quiet state) (hsilent : world.Silent) :
    ∃ timer begun, vigil.Comes state world timer state.child.children.1 state.child.children.2 begun := by
  obtain ⟨hidle, -, hbelow, -, hothers⟩ := hquiet
  have hrefresh := World.issues_refresh hsilent ⟨world.clock.nextTimer⟩ Perception.refresh_passive
  rcases hadd : (world.refresh ⟨world.clock.nextTimer⟩ Perception.refresh).addTimer interval with
    ⟨id, added⟩
  have hadded := hrefresh.then_none (World.issues_addTimer _ interval)
  rw [hadd] at hadded
  refine ⟨some id, added, ?_, hadded, hothers⟩
  rw [start_service label interval Perception.refresh _ state world hidle hadd, startOption, start,
    CompositeState.begin, if_pos hbelow]

theorem Posted.comes {below : vigil.branch.State → Prop}
    {state : (vigil.tree label interval others).State} (h : vigil.Posted below state)
    (world : World (Recorded A)) :
    ∃ timer branch rest, vigil.Comes state world timer branch rest world ∧ below branch ∧
      state = ⟨.running, timer, .running, 0, branch, rest⟩ := by
  obtain ⟨timer, branch, rest, rfl, hbranch, hrest⟩ := h
  exact ⟨timer, branch, rest, ⟨rfl, .refl world, hrest⟩, hbranch, rfl⟩

theorem Poised.comes {state : (vigil.tree label interval others).State} (h : vigil.Poised state)
    (hsilent : world.Silent) :
    ∃ timer branch rest begun, vigil.Comes state world timer branch rest begun ∧
      vigil.branch.Quiet branch := by
  obtain hquiet | hposted := h
  · obtain ⟨timer, begun, hcomes⟩ := start_quiet hquiet hsilent
    exact ⟨timer, _, _, begun, hcomes, hquiet.2.2.2.1⟩
  · obtain ⟨timer, branch, rest, hcomes, hbranch, -⟩ := hposted.comes world
    exact ⟨timer, branch, rest, world, hcomes, hbranch⟩

section Comes

variable {state : (vigil.tree label interval others).State} {timer : Option TimerId}
variable {branch : vigil.branch.State} {rest : StateList others} {begun : World (Recorded A)}

theorem Comes.tick_eq (h : vigil.Comes state world timer branch rest begun) :
    (vigil.tree label interval others).tick state world =
      ((tickRest .fail (vigil.branch :: others) 0 (branch, rest) begun).1,
        ⟨(tickRest .fail (vigil.branch :: others) 0 (branch, rest) begun).1.status, timer,
          (tickRest .fail (vigil.branch :: others) 0 (branch, rest) begun).2.1⟩,
        (tickRest .fail (vigil.branch :: others) 0 (branch, rest) begun).2.2) := by
  rw [tick_service _ _ _ _ state world h.start_eq, tickOption, tick_selector]
  rfl

theorem Comes.loses (h : vigil.Comes state world timer branch rest begun)
    (hacts : GivesAll vigil.acts volley) (hturns : Turns others) (hloses : vigil.Loses branch begun) :
    ∃ ticked after amount, (vigil.tree label interval others).tick state world =
      (.success, ticked, after) ∧ world.Issues after [.turn amount] := by
  obtain ⟨ticked, lost, htick, hlost⟩ := hloses
  have hstop := stop_issues vigil.branch ticked lost (builtIn_steps hacts)
  obtain ⟨current, later, turned, amount, hlater, hturned⟩ :=
    hturns.tick rest (vigil.branch.stop ticked lost).2 h.quiet
  have hrest := tickFrom_zero .fail vigil.branch others branch rest begun htick
  rw [if_neg (by simp), if_pos rfl, hlater] at hrest
  have hbuilt : BuiltInList (vigil.branch :: others) := ⟨builtIn_steps hacts, hturns.builtIn⟩
  have hreleased := releaseList_issues _ ((vigil.branch.stop ticked lost).1, later) turned hbuilt
  have hbefore := h.issues.after_none (hlost.then_none hstop)
  rw [h.tick_eq, tickRest, hrest]
  exact ⟨_, _, amount, rfl, (hbefore.after_none hturned).then_none hreleased⟩

theorem Comes.goes (h : vigil.Comes state world timer branch rest begun)
    (hacts : GivesAll vigil.acts volley) (hturns : Turns others)
    (hgoes : vigil.Goes volley since first (vigil.Aiming since) begun
      (vigil.branch.tick branch begun)) :
    vigil.Goes volley since first (vigil.Posted (vigil.Aiming since)) world
      ((vigil.tree label interval others).tick state world) := by
  rcases htick : vigil.branch.tick branch begun with ⟨outcome, ticked, after⟩
  have hrest := tickFrom_zero .fail vigil.branch others branch rest begun htick
  rw [h.tick_eq, tickRest]
  rw [htick] at hgoes
  cases hgoes with
  | waits haiming hpause hissues =>
    rw [if_pos rfl] at hrest
    rw [hrest]
    exact .waits ⟨timer, ticked, rest, rfl, haiming, h.quiet⟩ hpause (h.issues.after_none hissues)
  | acts hvolley hpassed hissues =>
    rw [if_neg (by simp), if_neg (by simp)] at hrest
    have hstop := stop_issues vigil.branch ticked after (builtIn_steps hacts)
    have hbuilt : BuiltInList (vigil.branch :: others) := ⟨builtIn_steps hacts, hturns.builtIn⟩
    have hreleased := releaseList_issues _ ((vigil.branch.stop ticked after).1, rest)
      (vigil.branch.stop ticked after).2 hbuilt
    rw [h.issues.now_eq] at hpassed
    rw [hrest]
    exact .acts hvolley hpassed
      (h.issues.after_none ((hissues.then_none hstop).then_none hreleased))

theorem Comes.visits_eq (h : vigil.Comes state world timer branch rest begun) :
    (vigil.tree label interval others).visits state world =
      ⟨⟨vigil.tree label interval others, state⟩, world⟩ ::
      ⟨⟨.selector (vigil.branch :: others), ⟨.running, 0, branch, rest⟩⟩, begun⟩ ::
      (vigil.branch.visits branch begun ++
        if (vigil.branch.tick branch begun).1 = .fail then
          visitsFrom .fail others 0 rest (vigil.branch.stop (vigil.branch.tick branch begun).2.1
            (vigil.branch.tick branch begun).2.2).2
        else []) := by
  rw [visits_service _ _ _ _ state world h.start_eq rfl]
  rfl

end Comes

/-- The tick comes to the branch, and whenever it does it finds the target lined up. -/
def Aims (vigil : Vigil (Recorded A)) (visits : List (Visit (Recorded A))) : Prop :=
  (∃ visit ∈ visits, visit.node.tree = vigil.branch) ∧
    ∀ visit ∈ visits, visit.node.tree = vigil.branch → vigil.aim.holds visit.world.board = true

/-- The tick enters the branch. -/
def Enters (vigil : Vigil (Recorded A)) (visits : List (Visit (Recorded A))) : Prop :=
  ∃ visit ∈ visits, visit.node.tree = vigil.branch ∧ visit.node.status = .inactive

theorem mem_visits_branch (vigil : Vigil (Recorded A)) (branch : vigil.branch.State)
    (world : World (Recorded A)) :
    ⟨⟨vigil.branch, branch⟩, world⟩ ∈ vigil.branch.visits branch world := by
  rw [Tree.visits]
  exact List.mem_cons_self

theorem aims_branch {branch : vigil.branch.State} (h : vigil.aim.holds world.board = true) :
    vigil.Aims (vigil.branch.visits branch world) := by
  refine ⟨⟨_, mem_visits_branch vigil branch world, rfl⟩, fun visit hmem hbranch => ?_⟩
  obtain rfl | hsmaller := visits_smaller vigil.branch branch world visit hmem
  · exact h
  · rw [hbranch] at hsmaller
    exact absurd hsmaller (Nat.lt_irrefl _)

theorem Aims.cons {visits : List (Visit (Recorded A))} {visit : Visit (Recorded A)}
    (h : vigil.Aims visits) (hother : visit.node.tree ≠ vigil.branch) : vigil.Aims (visit :: visits) := by
  obtain ⟨⟨found, hfound, hbranch⟩, haims⟩ := h
  exact ⟨⟨found, List.mem_cons_of_mem _ hfound, hbranch⟩,
    List.forall_mem_cons.mpr ⟨fun heq => absurd heq hother, haims⟩⟩

/-- The tank turns, once. -/
def Strays {S : Type} (world : World (Recorded A)) (after : Outcome × S × World (Recorded A)) : Prop :=
  after.1 = .success ∧ ∃ amount, world.Issues after.2.2 [.turn amount]

/-- What comes of a tick of the whole tree whose pause goes on since a time: the tank turns, or the tick
finds the target lined up and waits or acts. -/
def Tracks (vigil : Vigil (Recorded A)) (volley : List Order → Prop) (since : Duration)
    (first : List Order) (state : (vigil.tree label interval others).State)
    (world : World (Recorded A)) : Prop :=
  Strays world ((vigil.tree label interval others).tick state world) ∨
    vigil.Aims ((vigil.tree label interval others).visits state world) ∧
    vigil.Goes volley since first (vigil.Posted (vigil.Aiming since)) world
      ((vigil.tree label interval others).tick state world)

theorem Comes.tracks {state : (vigil.tree label interval others).State} {timer : Option TimerId}
    {branch : vigil.branch.State} {rest : StateList others} {begun : World (Recorded A)}
    (h : vigil.Comes state world timer branch rest begun) (hacts : GivesAll vigil.acts volley)
    (hturns : Turns others)
    (hbranch : vigil.Loses branch begun ∨ vigil.aim.holds begun.board = true ∧
      vigil.Goes volley since first (vigil.Aiming since) begun (vigil.branch.tick branch begun)) :
    vigil.Tracks volley since first state world := by
  obtain hloses | ⟨hholds, hgoes⟩ := hbranch
  · obtain ⟨ticked, after, amount, htick, hissues⟩ := h.loses hacts hturns hloses
    refine .inl ?_
    rw [htick]
    exact ⟨rfl, amount, hissues⟩
  · refine .inr ⟨?_, h.goes hacts hturns hgoes⟩
    have hkept : (vigil.branch.tick branch begun).1 ≠ .fail := by
      rcases htick : vigil.branch.tick branch begun with ⟨outcome, ticked, after⟩
      rw [htick] at hgoes
      cases hgoes <;> simp
    rw [h.visits_eq, if_neg hkept, List.append_nil]
    exact ((aims_branch hholds).cons (by simp)).cons (by simp)

theorem Poised.tracks {state : (vigil.tree label interval others).State} (h : vigil.Poised state)
    (hacts : GivesAll vigil.acts volley) (hturns : Turns others) (hsilent : world.Silent) :
    vigil.Enters ((vigil.tree label interval others).visits state world) ∧
      vigil.Tracks volley world.now [.turn 0] state world := by
  obtain ⟨timer, branch, rest, begun, hcomes, hbranch⟩ := h.comes hsilent
  have htracks := hcomes.tracks hacts hturns (tick_branch_quiet hacts hbranch)
  rw [hcomes.issues.now_eq] at htracks
  refine ⟨⟨⟨⟨vigil.branch, branch⟩, begun⟩, ?_, rfl, hbranch.1⟩, htracks⟩
  rw [hcomes.visits_eq]
  exact List.mem_cons_of_mem _ (List.mem_cons_of_mem _
    (List.mem_append_left _ (mem_visits_branch vigil branch begun)))

theorem tracks_aiming {state : (vigil.tree label interval others).State}
    (h : vigil.Posted (vigil.Aiming since) state) (hacts : GivesAll vigil.acts volley)
    (hturns : Turns others)
    (hwatchful : (vigil.tree label interval others).Obeys Keeper.Watchful state world) :
    vigil.Tracks volley since [] state world := by
  obtain ⟨timer, branch, rest, hcomes, hbranch, rfl⟩ := h.comes world
  refine hcomes.tracks hacts hturns (tick_branch_aiming hacts hbranch (hwatchful _ ?_))
  exact Multiset.mem_add.mpr (.inr (Multiset.mem_add.mpr (.inl
    (Multiset.mem_add.mpr (.inl (Multiset.mem_singleton_self _))))))

end Vigil

end BehaviorTree
