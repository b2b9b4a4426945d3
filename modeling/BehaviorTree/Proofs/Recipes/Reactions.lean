import BehaviorTree.Proofs.Board.Unwritten
import BehaviorTree.Proofs.Equivalence.LinkedWorlds
import BehaviorTree.Proofs.Leaves.EndOnce
import BehaviorTree.Proofs.Recipes.AimedFire

namespace BehaviorTree

variable {A : Type}

theorem Routine.run_puts_congr {world other : World A} (entries : List (String × Value))
    (h : world.board.values = other.board.values) :
    ((Routine.sequence (entries.map fun entry => .put entry.1 entry.2)).run world).board.values =
      ((Routine.sequence (entries.map fun entry => .put entry.1 entry.2)).run other).board.values := by
  induction entries generalizing world other with
  | nil => exact h
  | cons entry entries ih =>
    refine ih ?_
    change (world.set entry.1 entry.2).2.board.values = (other.set entry.1 entry.2).2.board.values
    obtain ⟨hsame, hsame'⟩ | ⟨hset, hset'⟩ := Board.set_congr h entry.1 entry.2
    · rw [World.set, World.set, hsame, hsame']
      exact h
    · rw [World.set, World.set, hset, hset']
      exact congrArg (·.insert entry.1 entry.2) h

namespace Perception

variable [Tank A]

/-- The values once the agent has perceived its target. -/
def refreshed (agent : A) (values : Values) : Values :=
  ((refresh (A := A)).run { agent, board := .ofValues values }).board.values

def onRight (values : Values) : Bool :=
  match values.get? targetOnRight with
  | some (.bool right) => right
  | _ => false

theorem holds_onRight (values : Values) :
    (Guard.mk targetOnRight .equal (.bool true)).holds (.ofValues values) = onRight values := by
  rw [Guard.holds, onRight, Board.get?, show (Board.ofValues values).values = values from rfl]
  dsimp only
  cases values.get? targetOnRight with
  | none => rfl
  | some value =>
    cases value with
    | bool right => cases right <;> rfl
    | _ => rfl

/-- What is perceived depends on the agent and on what was seen before, and on nothing else. -/
theorem values_refresh (world : World A) :
    (refresh.run world).board.values = refreshed world.agent world.board.values := by
  change ((((Tank.target? world.agent).map observe).getD .done).run world).board.values =
    ((((Tank.target? world.agent).map observe).getD .done).run _).board.values
  cases Tank.target? world.agent with
  | none => rfl
  | some p =>
    exact Routine.run_puts_congr [(targetDistance, .number p.magnitude),
      (targetInFront, .bool (0 < p.normalized.z)), (targetOnRight, .bool (0 < p.normalized.x)),
      (targetOffCentre, .number p.normalized.x.abs)] rfl

end Perception

namespace Tree

/-- Once it is started, the tree succeeds in its next tick, with these orders. Its start does nothing to the
world, and no time passes in it. -/
structure Prompt (tree : Tree (Recorded A)) (orders : List Order) : Prop where
  builtIn : tree.BuiltIn
  fire : ∀ (state : tree.State) (id : TimerId) (world : World (Recorded A)),
    tree.fire state id world = (false, world)
  tick : ∀ quiet : tree.State, tree.Quiet quiet → ∃ begun : tree.State, ∀ world,
    tree.start quiet world = (begun, world) ∧ tree.tick quiet world = tree.tick begun world ∧
    ∃ ticked after, tree.tick begun world = (.success, ticked, after) ∧
      tree.status ticked = .succeeded ∧ world.Issues after orders.reverse

variable {tree : Tree (Recorded A)} {trees : List (Tree (Recorded A))} {order : Order}
variable {orders : List Order} {choice reaction : Values → List Order}

section Actions

variable {label : String} {effect : Recorded A → Recorded A}

theorem prompt_action (heffect : ∀ tank, (effect tank).orders = order :: tank.orders) :
    (Tree.action label (.always effect)).Prompt [order] := by
  refine ⟨trivial, fun _ _ _ => rfl, fun quiet hquiet => ?_⟩
  have hidle : quiet.status = .inactive := hquiet
  refine ⟨⟨.running, quiet.random⟩, fun world => ⟨congrArg (·, world) (if_pos hidle), ?_, ?_⟩⟩
  · rw [tick_action label _ world (by simp [hidle]), tick_action label _ world (by simp)]
  · exact ⟨_, _, tick_action label _ world (by simp), rfl, heffect _, rfl, rfl⟩

theorem Prompt.gives (h : tree.Prompt [order]) : tree.Gives (· = order) := by
  refine ⟨h.builtIn, fun quiet world hquiet => ?_⟩
  obtain ⟨begun, hbegun⟩ := h.tick quiet hquiet
  obtain ⟨-, hsame, ticked, after, htick, -, hissues⟩ := hbegun world
  exact ⟨ticked, after, order, hsame.trans htick, rfl, hissues⟩

end Actions

/-- Trees that all are done in one tick, one after the other. -/
structure PromptAll (trees : List (Tree (Recorded A))) (orders : List Order) : Prop where
  gives : GivesAll trees (· = orders.reverse)
  fire : ∀ (i : Nat) (states : StateList trees) (id : TimerId) (world : World (Recorded A)),
    fireAt trees i states id world = (false, world)

theorem PromptAll.nil : PromptAll ([] : List (Tree (Recorded A))) [] :=
  ⟨.nil, fun _ _ _ _ => rfl⟩

theorem PromptAll.cons (h : tree.Prompt [order]) (k : PromptAll trees orders) :
    PromptAll (tree :: trees) (order :: orders) := by
  refine ⟨(k.gives.cons h.gives).imp ?_, ?_⟩
  · rintro _ ⟨_, _, rfl, rfl, rfl⟩
    exact List.reverse_cons.symm
  · rintro (_ | i) ⟨state, states⟩ id world
    · exact h.fire state id world
    · exact k.fire i states id world

theorem PromptAll.sequence (h : PromptAll trees orders) : (Tree.sequence trees).Prompt orders := by
  refine ⟨h.gives.builtIn, fun state id world => ?_, fun quiet hquiet => ?_⟩
  · rw [Tree.fire]
    split
    · exact h.fire state.current state.children id world
    · rfl
  · have hagain : quiet.begin.begin = quiet.begin := if_neg quiet.begin_status
    refine ⟨quiet.begin, fun world => ⟨rfl, ?_, ?_⟩⟩
    · rw [tick_sequence, tick_sequence, hagain]
    · obtain ⟨current, ticked, after, given, htick, rfl, hissues⟩ :=
        h.gives.tick quiet.children world hquiet.2
      have hreleased := releaseList_issues trees ticked after h.gives.builtIn
      rw [tick_sequence, hagain, CompositeState.begin, if_pos hquiet.1, tickRest]
      dsimp only [Status.outcome?]
      rw [htick]
      exact ⟨_, _, rfl, rfl, hissues.then_none hreleased⟩

/-- In one tick the trees come to a success, with orders that the values on the board decide. -/
structure Chooses (trees : List (Tree (Recorded A))) (choice : Values → List Order) : Prop where
  builtIn : BuiltInList trees
  fire : ∀ (i : Nat) (states : StateList trees) (id : TimerId) (world : World (Recorded A)),
    fireAt trees i states id world = (false, world)
  tick : ∀ (states : StateList trees) (world : World (Recorded A)), QuietList trees states →
    ∃ current ticked after, tickFrom .fail trees 0 states world = (.success, current, ticked, after) ∧
      world.Issues after (choice world.board.values).reverse

theorem Prompt.last (h : tree.Prompt orders) : Chooses [tree] fun _ => orders := by
  refine ⟨⟨h.builtIn, trivial⟩, ?_, ?_⟩
  · rintro (_ | i) ⟨state, states⟩ id world
    · exact h.fire state id world
    · rfl
  · rintro ⟨state, states⟩ world ⟨hquiet, -⟩
    obtain ⟨begun, hbegun⟩ := h.tick state hquiet
    obtain ⟨-, hsame, ticked, after, htick, -, hissues⟩ := hbegun world
    have hrest := tickFrom_zero .fail tree [] state states world (hsame.trans htick)
    rw [if_neg (by simp), if_neg (by simp)] at hrest
    exact ⟨_, _, _, hrest, hissues.then_none (stop_issues tree ticked after h.builtIn)⟩

theorem Chooses.guarded (h : Chooses trees choice) (hfirst : tree.Prompt orders) (guard : Guard)
    (policy : RestartPolicy) :
    Chooses (.condition guard policy (some tree) :: trees) fun values =>
      if guard.holds (.ofValues values) then orders else choice values := by
  have hbuilt : (Tree.condition guard policy (some tree)).BuiltIn := hfirst.builtIn
  refine ⟨⟨hbuilt, h.builtIn⟩, ?_, ?_⟩
  · rintro (_ | i) ⟨state, states⟩ id world
    · rw [fireAt, Tree.fire]
      split
      · rfl
      · exact hfirst.fire state.child id world
    · exact h.fire i states id world
  · rintro ⟨state, states⟩ world ⟨⟨hidle, hquiet⟩, hquiets⟩
    rw [show guard.holds (.ofValues world.board.values) = guard.holds world.board from
      guard.holds_congr rfl]
    cases hholds : guard.holds world.board with
    | true =>
      obtain ⟨begun, hbegun⟩ := hfirst.tick state.child hquiet
      obtain ⟨observer, checked, hchecked, htick⟩ :=
        tick_condition_holds policy hidle hholds fun world => (hbegun world).1
      obtain ⟨-, -, ticked, after, hticked, -, hissues⟩ := hbegun checked
      rw [hticked] at htick
      have hrest := tickFrom_zero .fail (.condition guard policy (some tree)) trees state states world htick
      have hstop := stop_issues (.condition guard policy (some tree)) ⟨.succeeded, observer, ticked⟩ after
        hbuilt
      rw [if_neg (by simp), if_neg (by simp)] at hrest
      exact ⟨_, _, _, hrest, (hchecked.issues.after_none hissues).then_none hstop⟩
    | false =>
      obtain ⟨ticked, after, htick, hunwritten⟩ := tick_condition_fails policy hidle hholds
      have hstopped := hunwritten.trans (stop_unwritten _ hbuilt ticked after)
      obtain ⟨current, later, last, hlater, hissues⟩ :=
        h.tick states ((Tree.condition guard policy (some tree)).stop ticked after).2 hquiets
      have hrest := tickFrom_zero .fail (.condition guard policy (some tree)) trees state states world htick
      rw [if_neg (by simp), if_pos rfl, hlater] at hrest
      rw [hstopped.values_eq] at hissues
      exact ⟨_, _, last, hrest, hstopped.issues.after_none hissues⟩

variable [Tank A]

/-- Each tick of the tree is a reaction to the values on the board. The tree refreshes what is perceived of
the target when it is started, and with each of its timers. -/
structure Reacts (tree : Tree (Recorded A)) (reaction : Values → List Order) : Prop where
  builtIn : tree.BuiltIn
  fire : ∀ (state : tree.State) (id : TimerId) (world : World (Recorded A)),
    tree.fire state id world = (true, world.refresh id Perception.refresh) ∨
      tree.fire state id world = (false, world)
  start : ∀ (quiet : tree.State) (world : World (Recorded A)), tree.Quiet quiet → world.Silent →
    world.Issues (tree.start quiet world).2 [] ∧
      reaction (tree.start quiet world).2.board.values =
        reaction (Perception.refreshed world.agent world.board.values)
  /-- A tick starts the tree first, if need be. -/
  again : ∀ (quiet : tree.State) (world : World (Recorded A)), tree.Quiet quiet →
    tree.tick quiet world = tree.tick (tree.start quiet world).1 (tree.start quiet world).2
  tick : ∀ (quiet : tree.State) (world later : World (Recorded A)), tree.Quiet quiet →
    ∃ ticked after, tree.tick (tree.start quiet world).1 later = (.success, ticked, after) ∧
      tree.status ticked = .succeeded ∧ later.Issues after (reaction later.board.values).reverse

theorem Prompt.reacts (h : tree.Prompt orders) : tree.Reacts fun _ => orders := by
  refine ⟨h.builtIn, fun state id world => .inr (h.fire state id world), fun quiet world hquiet _ => ?_,
    fun quiet world hquiet => ?_, fun quiet world later hquiet => ?_⟩ <;>
    obtain ⟨begun, hbegun⟩ := h.tick quiet hquiet <;> rw [(hbegun world).1]
  · exact ⟨.refl world, rfl⟩
  · exact (hbegun world).2.1
  · exact (hbegun later).2.2

variable (label : String) (interval : Duration)

theorem Chooses.reacts (h : Chooses trees choice) :
    (Tree.service label interval Perception.refresh (some (.selector trees))).Reacts choice := by
  have hstart (quiet : (Tree.service label interval Perception.refresh (some (.selector trees))).State)
      (world : World (Recorded A)) (hquiet : (Tree.service label interval Perception.refresh
        (some (.selector trees))).Quiet quiet) :
      (Tree.service label interval Perception.refresh (some (.selector trees))).start quiet world =
        (⟨.running, some ⟨world.clock.nextTimer⟩, .running, 0, quiet.child.children⟩,
          ((world.refresh ⟨world.clock.nextTimer⟩ Perception.refresh).addTimer interval).2) := by
    obtain ⟨hidle, -, hbelow, -⟩ := hquiet
    rw [start_service label interval Perception.refresh _ quiet world hidle Prod.mk.eta.symm,
      World.addTimer_refresh, startOption, start, CompositeState.begin, if_pos hbelow]
  have hagain (timer : Option TimerId) (child : (Tree.selector trees).State) (world : World (Recorded A)) :
      (Tree.service label interval Perception.refresh (some (.selector trees))).start
        ⟨.running, timer, child⟩ world = (⟨.running, timer, child⟩, world) := by
    rw [start, if_pos (by simp)]
  refine ⟨h.builtIn, fun state id world => ?_, fun quiet world hquiet hsilent => ?_,
    fun quiet world hquiet => ?_, fun quiet world later hquiet => ?_⟩
  · rw [Tree.fire]
    split
    · exact .inr rfl
    · split
      · exact .inl rfl
      · refine .inr ?_
        rw [fireOption, Tree.fire]
        split
        · exact h.fire _ _ id world
        · rfl
  · have hrefresh := World.issues_refresh hsilent ⟨world.clock.nextTimer⟩ Perception.refresh_passive
    rw [hstart quiet world hquiet]
    refine ⟨hrefresh.then_none (World.issues_addTimer _ interval), ?_⟩
    exact congrArg choice (Perception.values_refresh _)
  · rw [hstart quiet world hquiet, tick_service _ _ _ _ quiet world (hstart quiet world hquiet)]
    exact (tick_service _ _ _ _ _ _ (hagain _ _ _)).symm
  · obtain ⟨current, ticked, after, htick, hissues⟩ := h.tick quiet.child.children later hquiet.2.2.2
    have hreleased := releaseList_issues trees ticked after h.builtIn
    rw [hstart quiet world hquiet, tick_service _ _ _ _ _ later (hagain _ _ _)]
    dsimp only [Status.outcome?]
    have hselector : (Tree.selector trees).tick ⟨.running, 0, quiet.child.children⟩ later =
        tickRest .fail trees 0 quiet.child.children later := by
      rw [tick_selector]
      cases trees <;> rfl
    rw [tickOption, hselector, tickRest, htick]
    exact ⟨_, _, rfl, rfl, hissues.then_none hreleased⟩

end Tree

namespace Root

/-- The root does not run, or its tree was just started, or has come to its end. -/
def Ready (root : Root A) : Prop :=
  root.active = true → root.status = .succeeded ∨
    ∃ quiet world, root.tree.Quiet quiet ∧ (root.tree.start quiet world).1 = root.state

theorem evaluated_eq {root : Root A} {outcome : Outcome} {ticked : root.tree.State} {after : World A}
    (h : root.tree.tick root.state root.world = (outcome, ticked, after)) :
    root.evaluated.status = root.tree.status ticked ∧ root.evaluated.world = after := by
  unfold evaluated status
  rw [h]
  exact ⟨rfl, rfl⟩

/-- The values that a tick of the root goes by. A tree that has come to its end is started anew in its next
tick, and perceives its target then. -/
def seen [Tank A] (root : Root A) : Values :=
  if root.status.isTerminated then Perception.refreshed root.world.agent root.world.board.values
  else root.world.board.values

end Root

/-- A host that watches nothing drives the root, which is ready for a tick. -/
structure Reacting (tree : Tree (Recorded A)) (initial : Values) (root : Root (Recorded A)) : Prop where
  reachable : Session.Reachable tree initial ⟨root, []⟩
  ready : root.Ready

namespace Reacting

variable {tree : Tree (Recorded A)} {initial : Values} {root : Root (Recorded A)}
variable {reaction : Values → List Order} {call : Call (Recorded A)}

theorem advance (h : Reacting tree initial root) (dt : Duration) :
    Reacting tree initial (root.advance dt) :=
  ⟨.called (.advance dt) h.reachable, h.ready⟩

variable [Tank A]

theorem kept (h : Reacting tree initial root) (hreacts : tree.Reacts reaction) :
    Session.Kept ⟨root, []⟩ := h.reachable.kept hreacts.builtIn

theorem silent (h : Reacting tree initial root) (hreacts : tree.Reacts reaction) : root.world.Silent :=
  fun notice agent => (h.kept hreacts).silent notice agent List.not_mem_nil

theorem tick (h : Reacting tree initial root) (hreacts : tree.Reacts reaction)
    (hactive : root.active = true) : root.tick.status = .succeeded ∧
      root.world.Issues root.tick.world (reaction root.seen).reverse := by
  have hsilent := h.silent hreacts
  have hquiet := (h.kept hreacts).released.2.1
  have hready := h.ready hactive
  obtain rfl : root.tree = tree := h.reachable.tree_eq
  rw [root.tick_eq hactive, Root.seen]
  by_cases hended : root.status.isTerminated = true
  · have hreleased := Tree.release_unwritten root.tree hreacts.builtIn root.state root.world
    have hready := hreleased.issues.silent hsilent
    obtain ⟨hstarted, hsees⟩ := hreacts.start root.released.state root.released.world hquiet hready
    obtain ⟨ticked, after, htick, hstatus, hissues⟩ := hreacts.tick root.released.state
      root.released.world (root.tree.start root.released.state root.released.world).2 hquiet
    have hagain := (hreacts.again root.released.state root.released.world hquiet).trans htick
    rw [hsees, show root.released.world.agent = _ from hreleased.agent_eq,
      show root.released.world.board.values = _ from hreleased.values_eq] at hissues
    obtain ⟨hsame, hafter⟩ : root.released.evaluated.status = root.tree.status ticked ∧
        root.released.evaluated.world = after := Root.evaluated_eq hagain
    rw [if_pos hended, if_pos hended, hsame, hafter]
    exact ⟨hstatus, (hreleased.issues.after_none hstarted).after_none hissues⟩
  · obtain hsucceeded | ⟨quiet, world, hquiet, hstart⟩ := hready
    · exact absurd (congrArg Status.isTerminated hsucceeded) hended
    · obtain ⟨ticked, after, htick, hstatus, hissues⟩ := hreacts.tick quiet world root.world hquiet
      rw [hstart] at htick
      obtain ⟨hsame, hafter⟩ := Root.evaluated_eq htick
      rw [if_neg hended, if_neg hended, hsame, hafter]
      exact ⟨hstatus, hissues⟩

theorem start (h : Reacting tree initial root) (hreacts : tree.Reacts reaction)
    (hrest : root.active = false) : root.start.Ready ∧ root.world.Issues root.start.world [] ∧
      reaction root.start.world.board.values =
        reaction (Perception.refreshed root.world.agent root.world.board.values) := by
  have hsilent := h.silent hreacts
  have hquiet := ((h.kept hreacts).resting hrest).1
  obtain rfl : root.tree = tree := h.reachable.tree_eq
  rw [root.start_of_inactive hrest]
  exact ⟨fun _ => .inr ⟨root.state, root.world, hquiet, rfl⟩,
    hreacts.start root.state root.world hquiet hsilent⟩

theorem orders_advance (h : Reacting tree initial root) (hreacts : tree.Reacts reaction) (dt : Duration) :
    (root.advance dt).orders = root.orders := by
  refine World.advance_orders (fun id world hsilent => ?_) (h.silent hreacts) dt
  obtain rfl : root.tree = tree := h.reachable.tree_eq
  obtain hfire | hfire := hreacts.fire root.state id world <;> rw [hfire]
  · exact World.issues_refresh hsilent id Perception.refresh_passive
  · exact .refl world

theorem ticking (h : Reacting tree initial root) (hreacts : tree.Reacts reaction)
    {ticked : Root (Recorded A)} (hticking : root.ticking? call = some ticked) :
    Reacting tree initial ticked ∧ ticked.orders = root.orders := by
  obtain ⟨-, -, rfl | ⟨dt, rfl⟩⟩ := Root.ticking?_eq_some hticking
  · exact ⟨h, rfl⟩
  · exact ⟨h.advance dt, h.orders_advance hreacts dt⟩

theorem ready_call (h : Reacting tree initial root) (hreacts : tree.Reacts reaction)
    (call : Call (Recorded A)) : (root.call call).Ready := by
  have hticked {root : Root (Recorded A)} (h : Reacting tree initial root) : root.tick.Ready := by
    by_cases hactive : root.active = true
    · exact fun _ => .inl (h.tick hreacts hactive).1
    · rw [Root.tick_eq_self hactive]
      exact h.ready
  cases call with
  | start =>
    by_cases hactive : root.active = true
    · rw [Root.call, root.start_of_active hactive]
      exact h.ready
    · exact (h.start hreacts (Bool.eq_false_iff.mpr hactive)).1
  | tick => exact hticked h
  | update dt => exact hticked (h.advance dt)
  | stop =>
    by_cases hactive : root.active = true
    · rw [Root.call, root.stop_eq hactive]
      exact fun hactive => absurd hactive Bool.false_ne_true
    · rw [Root.call, root.stop_of_inactive (Bool.eq_false_iff.mpr hactive)]
      exact h.ready
  | advance _ | steer _ | set _ _ | remove _ | getNumber _ | getBool _ | clear | watch _ _
  | unwatch _ => exact h.ready

theorem called (h : Reacting tree initial root) (hreacts : tree.Reacts reaction) (hfair : call.Fair) :
    Reacting tree initial (root.call call) := by
  refine ⟨?_, h.ready_call hreacts call⟩
  have hcalled := h.reachable.called call
  cases call with
  | clear | watch _ _ | unwatch _ => exact hfair.elim
  | _ => exact hcalled

theorem calls (h : Reacting tree initial root) (hreacts : tree.Reacts reaction)
    (calls : List (Call (Recorded A))) (hfair : ∀ call ∈ calls, call.Fair) :
    Reacting tree initial (root.calls calls) := by
  induction calls generalizing root with
  | nil => exact h
  | cons call calls ih =>
    obtain ⟨hcall, hcalls⟩ := List.forall_mem_cons.mp hfair
    exact ih (h.called hreacts hcall) hcalls

theorem still (h : Reacting tree initial root) (hreacts : tree.Reacts reaction) (hfair : call.Fair)
    (hstill : root.ticking? call = none) : (root.call call).orders = root.orders := by
  have hsilent := h.silent hreacts
  have hrest (hsome : root.active = true → root.ticking? call ≠ none) : root.active ≠ true :=
    fun hactive => hsome hactive hstill
  cases call with
  | start =>
    by_cases hactive : root.active = true
    · rw [Root.call, root.start_of_active hactive]
    · exact (h.start hreacts (Bool.eq_false_iff.mpr hactive)).2.1.orders_eq
  | tick =>
    rw [Root.call, Root.tick_eq_self (hrest fun hactive => by simp [Root.ticking?, hactive])]
  | update dt =>
    have hactive : (root.advance dt).active ≠ true :=
      hrest fun hactive => by simp [Root.ticking?, hactive]
    rw [Root.call, Root.update, Root.tick_eq_self hactive]
    exact h.orders_advance hreacts dt
  | stop =>
    by_cases hactive : root.active = true
    · obtain rfl : root.tree = tree := h.reachable.tree_eq
      have hreleased := Tree.release_issues root.tree root.state root.world hreacts.builtIn
      rw [Root.call, root.stop_eq hactive]
      exact (hreleased.then_none (World.issues_reset _ root.initial)).orders_eq
    · rw [Root.call, root.stop_of_inactive (Bool.eq_false_iff.mpr hactive)]
  | advance dt => exact h.orders_advance hreacts dt
  | steer f => exact hfair _
  | set key value => exact (World.issues_set hsilent key value).orders_eq
  | remove key => exact (World.issues_remove hsilent key).orders_eq
  | getNumber key => exact (World.issues_getNumber _ key).orders_eq
  | getBool key => exact (World.issues_getBool _ key).orders_eq
  | clear | watch _ _ | unwatch _ => exact hfair.elim

theorem fire (h : Reacting tree initial root) (hreacts : tree.Reacts reaction) {id : TimerId}
    (hid : root.world.clock.isScheduled id = true) (world : World (Recorded A)) :
    root.tree.fire root.state id world = (true, world.refresh id Perception.refresh) := by
  have hkept := h.kept hreacts
  obtain ⟨_, _, callback, -, -, -, -, -, hfire⟩ :=
    hkept.holds.owner hkept.fit (Session.timer_not_mem_handles _) hid
  obtain rfl : root.tree = tree := h.reachable.tree_eq
  obtain hrefresh | hnone := hreacts.fire root.state id world
  · exact hrefresh
  · cases (hfire world).symm.trans hnone

end Reacting

namespace Recipe

variable [Tank A] {recipe : Recipe} {params : RecipeParams} {reaction : Values → List Order}

/-- What a recipe with a target does: one thing where the target is lined up, and otherwise it turns to the
side on which the target is. -/
def facing (params : RecipeParams) (aimed : List Order) (values : Values) : List Order :=
  if params.aim.holds (.ofValues values) then aimed
  else if Perception.onRight values then [.turn params.turnRate]
  else [.turn (-params.turnRate)]

/-- The orders that a recipe gives in each tick, in their order, if it comes to its end in each. -/
def reaction? (params : RecipeParams) : Recipe → Option (Values → List Order)
  | .forFun => some fun _ => [.move params.funMove, .turn params.funTurn, .fire params.funFire]
  | .spin => some fun _ => [.turn params.spinTurn, .fire params.spinFire]
  | .moveOnly => some fun _ => [.move params.moveOnly]
  | .fireOnly => some fun _ => [.fire params.fireOnly]
  | .idle => some fun _ => [.turn params.idleTurn]
  | .deadly => some (facing params
      [.move params.deadlyMove, .turn params.deadlyTurn, .fire params.deadlyFire])
  | .frightened => some (facing params [.turn params.frightenedTurn, .move params.frightenedMove])
  | .unpredictable | .track => none

theorem reacts_tracking {aimed : Tree (Recorded A)} {orders : List Order} (h : aimed.Prompt orders) :
    (tracking params aimed).Reacts (facing params orders) := by
  have hturn (amount : Float32) : (turn (A := Recorded A) amount).Prompt [.turn amount] :=
    Tree.prompt_action fun _ => rfl
  have hturns := (hturn (-params.turnRate)).last.guarded (hturn params.turnRate)
    ⟨Perception.targetOnRight, .equal, .bool true⟩ .immediateRestart
  simp only [Perception.holds_onRight] at hturns
  exact (hturns.guarded h params.aim .immediateRestart).reacts _ _

theorem reacts (h : recipe.reaction? params = some reaction) :
    (recipe.tree (A := Recorded A) params).Reacts reaction := by
  have hmove (amount : Float32) : (moveBy (A := Recorded A) amount).Prompt [.move amount] :=
    Tree.prompt_action fun _ => rfl
  have hturn (amount : Float32) : (turn (A := Recorded A) amount).Prompt [.turn amount] :=
    Tree.prompt_action fun _ => rfl
  have hfire (amount : Float32) : (fire (A := Recorded A) amount).Prompt [.fire amount] :=
    Tree.prompt_action fun _ => rfl
  have hnil : Tree.PromptAll ([] : List (Tree (Recorded A))) [] := .nil
  cases recipe <;> cases h
  case forFun => exact (((hnil.cons (hfire _)).cons (hturn _)).cons (hmove _)).sequence.reacts
  case deadly =>
    exact reacts_tracking (((hnil.cons (hfire _)).cons (hturn _)).cons (hmove _)).sequence
  case frightened => exact reacts_tracking ((hnil.cons (hmove _)).cons (hturn _)).sequence
  case spin => exact ((hnil.cons (hfire _)).cons (hturn _)).sequence.reacts
  case moveOnly => exact (hnil.cons (hmove _)).sequence.reacts
  case fireOnly => exact (hnil.cons (hfire _)).sequence.reacts
  case idle => exact (hturn _).reacts

end Recipe

namespace Library

variable [Tank A] {library : Library} {recipe : Recipe} {agent : Recorded A}
variable {reaction : Values → List Order} {root : Root (Recorded A)}

theorem build_reacting (hroot : (library.build recipe agent).1 = .ok root) :
    Reacting (recipe.tree library.params) .empty root := by
  have hcreated : Root.withBoard (recipe.tree library.params) (.ofValues .empty) agent
      (fun _ agent => agent) library.nextRandom.1 = .ok root := hroot
  refine ⟨.opened (Board.sound_ofValues .empty) rfl (fun _ _ _ => rfl) hcreated, ?_⟩
  obtain ⟨-, rfl⟩ := Root.withBoard_eq_ok.mp hcreated
  exact fun hactive => absurd hactive Bool.false_ne_true

/-- Whatever a host calls, and wherever the target goes meanwhile, each tick of such a recipe succeeds, and
gives the orders that the recipe has for what is on the board by then. Nothing else gives orders. What a tick
finds was perceived when the tree was started, in this tick or before, or by one of its timers since. -/
theorem reacts_in_each_tick (hreaction : recipe.reaction? library.params = some reaction)
    (hroot : (library.build recipe agent).1 = .ok root) (calls : List (Call (Recorded A)))
    (call : Call (Recorded A)) (hfair : ∀ each ∈ calls ++ [call], each.Fair) :
    (∀ ticked, (root.calls calls).ticking? call = some ticked →
      (root.calls (calls ++ [call])).status = .succeeded ∧
      (root.calls (calls ++ [call])).orders =
        (reaction ticked.seen).reverse ++ (root.calls calls).orders) ∧
    ((root.calls calls).ticking? call = none →
      (root.calls (calls ++ [call])).orders = (root.calls calls).orders) ∧
    (call = .start → (root.calls calls).active = false →
      reaction (root.calls (calls ++ [call])).world.board.values =
        reaction (Perception.refreshed (root.calls calls).world.agent
          (root.calls calls).world.board.values)) ∧
    ∀ id, (root.calls calls).world.clock.isScheduled id = true → ∀ world,
      (root.calls calls).tree.fire (root.calls calls).state id world =
        (true, world.refresh id Perception.refresh) := by
  have hreacts := Recipe.reacts (A := A) hreaction
  obtain ⟨hcalls, hcall⟩ := List.forall_mem_append.mp hfair
  have hcall := List.forall_mem_singleton.mp hcall
  have hreacting := (build_reacting hroot).calls hreacts calls hcalls
  rw [Root.calls_append]
  refine ⟨fun ticked hticking => ?_, hreacting.still hreacts hcall, ?_,
    fun id hid => hreacting.fire hreacts hid⟩
  · obtain ⟨hsame, hactive, -⟩ := Root.ticking?_eq_some hticking
    obtain ⟨hready, horders⟩ := hreacting.ticking hreacts hticking
    obtain ⟨hstatus, hissues⟩ := hready.tick hreacts hactive
    rw [hsame]
    exact ⟨hstatus, hissues.orders_eq.trans (congrArg (_ ++ ·) horders)⟩
  · rintro rfl hrest
    exact (hreacting.start hreacts hrest).2.2

end Library

namespace Turret

def fugitive : Root (Recorded Turret) :=
  .opened (Recipe.frightened.tree library.params) (.ofValues .empty) ⟨⟨none⟩, []⟩ (fun _ agent => agent)
    library.nextRandom.1

def warnings : List (Call (Recorded Turret)) :=
  [.start, .set Perception.targetOnRight (.bool true), .tick, .set "clear" (.bool true)]

theorem turns_then_flees :
    (library.build .frightened ⟨⟨none⟩, []⟩).1 = .ok fugitive ∧
    (∀ each ∈ warnings ++ [.tick], each.Fair) ∧
    (fugitive.calls (warnings ++ [.tick])).status = .succeeded ∧
    (fugitive.calls (warnings ++ [.tick])).orders =
      [.move library.params.frightenedMove, .turn library.params.frightenedTurn,
        .turn library.params.turnRate] := by
  have hreaction : Recipe.frightened.reaction? library.params = some (Recipe.facing library.params
      [.turn library.params.frightenedTurn, .move library.params.frightenedMove]) := rfl
  have hroot : (library.build .frightened ⟨⟨none⟩, []⟩).1 = .ok fugitive := rfl
  have hfair : ∀ each ∈ warnings ++ [.tick], each.Fair := by simp [warnings, Call.Fair]
  obtain ⟨hticks, -⟩ := Library.reacts_in_each_tick hreaction hroot warnings .tick hfair
  obtain ⟨hstatus, horders⟩ := hticks _ rfl
  exact ⟨hroot, hfair, hstatus, horders⟩

end Turret

end BehaviorTree
