import BehaviorTree.Proofs.Lifecycle.Session
import BehaviorTree.Proofs.Lifecycle.StepFrame

namespace BehaviorTree

variable {A : Type}

namespace Subtree

variable {node child lower : Subtree A} {position : List Nat} {keeper : Keeper}

def keepers (node : Subtree A) : Multiset Keeper := node.tree.keepers node.state

/-- The node alone, if it is a condition or a service. -/
def keeper? : Subtree A → Option Keeper
  | ⟨.condition guard policy _, state⟩ => some (.condition guard policy state.status state.observer)
  | ⟨.service _ interval _ _, state⟩ => some (.service interval state.status state.timer)
  | _ => none

theorem ofKeepers_keepers (node : Subtree A) : Handle.ofKeepers node.keepers = node.handles :=
  Tree.ofKeepers_keepers node.tree node.state

theorem keeper?_mem (h : node.keeper? = some keeper) : keeper ∈ node.keepers := by
  obtain ⟨tree, state⟩ := node
  cases tree with
  | action _ _ | wait _ _ | leaf _ | sequence _ | selector _ => cases h
  | condition _ _ _ | service _ _ _ _ =>
    cases h
    exact Multiset.mem_add.mpr (.inl (Multiset.mem_singleton_self _))

theorem keepers_le_list {trees : List (Tree A)} {states : Tree.StateList trees}
    (hchild : child ∈ ofList trees states) : child.keepers ≤ Tree.keepersList trees states := by
  induction trees with
  | nil => simp [ofList] at hchild
  | cons tree trees ih =>
    obtain ⟨state, states⟩ := states
    obtain rfl | hchild := List.mem_cons.mp hchild
    · exact Multiset.le_add_right _ _
    · exact (ih hchild).trans (Multiset.le_add_left _ _)

theorem keepers_le_option {tree : Option (Tree A)} {state : Tree.StateOption tree}
    (hchild : child ∈ ofOption tree state) : child.keepers ≤ Tree.keepersOption tree state := by
  cases tree with
  | none => simp [ofOption] at hchild
  | some tree => exact (List.mem_singleton.mp hchild) ▸ le_rfl

theorem keepers_child (hchild : child ∈ node.children) : child.keepers ≤ node.keepers := by
  obtain ⟨tree, state⟩ := node
  cases tree with
  | action _ _ | wait _ _ | leaf _ => simp [children] at hchild
  | sequence _ | selector _ => exact keepers_le_list hchild
  | condition _ _ _ | service _ _ _ _ =>
    exact (keepers_le_option hchild).trans (Multiset.le_add_left _ _)

theorem keepers_below (hlower : node.at? position = some lower) : lower.keepers ≤ node.keepers := by
  induction position generalizing node with
  | nil =>
    cases hlower
    exact le_rfl
  | cons i position ih =>
    obtain ⟨child, hchild, hlower⟩ := at?_cons_eq_some hlower
    exact (ih hlower).trans (keepers_child (List.mem_of_getElem? hchild))

end Subtree

namespace Tree

mutual

theorem fresh_obeys {rule : World A → Keeper → Prop} (hrule : Keeper.Lasts rule) (world : World A) :
    (tree : Tree A) → (random : Random) → tree.BuiltIn →
    ∀ keeper ∈ tree.keepers (tree.fresh random).1, rule world keeper
  | .action _ _, _, _ => fun _ h => absurd h (Multiset.notMem_zero _)
  | .wait _ _, _, _ => fun _ h => absurd h (Multiset.notMem_zero _)
  | .sequence children, random, hbuilt => by
    rw [BuiltIn] at hbuilt
    exact freshList_obeys hrule world children random hbuilt
  | .selector children, random, hbuilt => by
    rw [BuiltIn] at hbuilt
    exact freshList_obeys hrule world children random hbuilt
  | .condition guard policy child, random, hbuilt => by
    rw [BuiltIn] at hbuilt
    intro keeper hmem
    obtain hmem | hmem := Multiset.mem_add.mp hmem
    · rw [Multiset.mem_singleton.mp hmem]
      exact hrule.condition world guard policy
    · exact freshOption_obeys hrule world child random hbuilt keeper hmem
  | .service _ interval _ child, random, hbuilt => by
    rw [BuiltIn] at hbuilt
    intro keeper hmem
    obtain hmem | hmem := Multiset.mem_add.mp hmem
    · rw [Multiset.mem_singleton.mp hmem]
      exact hrule.service world interval
    · exact freshOption_obeys hrule world child random hbuilt keeper hmem

theorem freshList_obeys {rule : World A → Keeper → Prop} (hrule : Keeper.Lasts rule)
    (world : World A) : (trees : List (Tree A)) → (random : Random) → BuiltInList trees →
    ∀ keeper ∈ keepersList trees (freshList trees random).1, rule world keeper
  | [], _, _ => fun _ h => absurd h (Multiset.notMem_zero _)
  | tree :: trees, random, hbuilt => by
    rw [BuiltInList] at hbuilt
    intro keeper hmem
    obtain hmem | hmem := Multiset.mem_add.mp hmem
    · exact fresh_obeys hrule world tree random hbuilt.1 keeper hmem
    · exact freshList_obeys hrule world trees (tree.fresh random).2 hbuilt.2 keeper hmem

theorem freshOption_obeys {rule : World A → Keeper → Prop} (hrule : Keeper.Lasts rule)
    (world : World A) : (tree : Option (Tree A)) → (random : Random) → BuiltInOption tree →
    ∀ keeper ∈ keepersOption tree (freshOption tree random).1, rule world keeper
  | none, _, _ => fun _ h => absurd h (Multiset.notMem_zero _)
  | some tree, random, hbuilt => by
    rw [BuiltInOption] at hbuilt
    exact fresh_obeys hrule world tree random hbuilt

end

end Tree

theorem Clock.runs_popDue? {clock after : Clock} {limit : Duration} {id : TimerId}
    (h : clock.popDue? limit = some (id, after)) {other : TimerId} {interval : Duration}
    (hruns : clock.Runs other interval) : after.Runs other interval := by
  obtain ⟨fired, -, heq⟩ := Option.map_eq_some_iff.mp h
  cases heq
  obtain ⟨timer, hmem, rfl, rfl⟩ := hruns
  refine ⟨_, List.mem_map_of_mem hmem, ?_⟩
  split <;> exact ⟨rfl, rfl⟩

namespace World

variable {world start : World A} {node : Subtree A} {others : Multiset Handle}

theorem untouched_popDue? {limit : Duration} {id : TimerId} {clock : Clock}
    (h : world.clock.popDue? limit = some (id, clock)) (handle : Handle) :
    world.Untouched { world with clock } handle := by
  cases handle with
  | timer _ => exact fun _ => Clock.runs_popDue? h
  | observer _ => exact ⟨rfl, fun _ hmem => ⟨hmem, fun hdown => ⟨hdown, rfl⟩⟩⟩

theorem Passes.untouched {limit : Duration} (hpass : Passes node.fire limit start world)
    (h : start.Holds (node.handles + others)) (hfit : node.Fit)
    (hothers : ∀ id, Handle.timer id ∉ others) (handle : Handle) : start.Untouched world handle := by
  induction hpass with
  | start => exact .refl start handle
  | @fired world id clock hpass hpop _ ih =>
    obtain ⟨hhold, -⟩ := h.passes hfit hothers hpass
    obtain ⟨callback, heq⟩ := hhold.dispatch_eq hfit hothers hpop
    rw [heq]
    exact (ih.trans (untouched_popDue? hpop handle)).trans (untouched_refresh _ id callback handle)

theorem Holds.untouched_advance (h : start.Holds (node.handles + others)) (hfit : node.Fit)
    (hothers : ∀ id, Handle.timer id ∉ others) (dt : Duration) (handle : Handle) :
    start.Untouched (start.advance node.fire dt) handle := by
  have hmoved (world : World A) (instant : Duration) :
      world.Untouched { world with clock := world.clock.moveTo instant } handle := by
    cases handle with
    | timer _ => exact fun _ hruns => hruns
    | observer _ => exact ⟨rfl, fun _ hmem => ⟨hmem, fun hdown => ⟨hdown, rfl⟩⟩⟩
  unfold World.advance
  dsimp only
  split
  · exact (Acts.overflow start).untouched handle
  · have hstart : Passes node.fire (start.now + dt) start start := .start
    refine Untouched.trans ?_ (hmoved _ _)
    obtain hpass | ⟨last, id, clock, hpass, hpop, -, heq⟩ :=
      hstart.fireDue (start.clock.firings (start.now + dt))
    · exact hpass.untouched h hfit hothers handle
    · rw [heq]
      exact (hpass.untouched h hfit hothers handle).trans (untouched_popDue? hpop handle)

end World

/-- A property of a tree that can be read off what belongs to it, and that the tree keeps as it runs. -/
structure Tree.Persists (P : (tree : Tree A) → tree.State → World A → Prop) : Prop where
  untouched {tree : Tree A} {state : tree.State} {before after : World A} :
    (∀ handle ∈ tree.handles state, before.Untouched after handle) → P tree state before →
    P tree state after
  start {tree : Tree A} {state : tree.State} {world : World A} {others : Multiset Handle} :
    tree.Fit state → world.Holds (tree.handles state + others) → P tree state world →
    P tree (tree.start state world).1 (tree.start state world).2
  tick {tree : Tree A} {state : tree.State} {world : World A} {others : Multiset Handle} :
    tree.Fit state → world.Holds (tree.handles state + others) → P tree state world →
    P tree (tree.tick state world).2.1 (tree.tick state world).2.2
  release {tree : Tree A} {state : tree.State} {world : World A} {others : Multiset Handle} :
    tree.Fit state → world.Holds (tree.handles state + others) → P tree state world →
    P tree (tree.release state world).1 (tree.release state world).2

namespace Tree

variable {rule : World A → Keeper → Prop}

/-- The rule holds of all conditions and services of the tree. -/
def Obeys (rule : World A → Keeper → Prop) (tree : Tree A) (state : tree.State) (world : World A) :
    Prop :=
  ∀ keeper ∈ tree.keepers state, rule world keeper

theorem Obeys.deals {tree : Tree A} {state later : tree.State} {world after : World A}
    {others : Multiset Handle} (h : tree.Obeys rule state world) (hrule : Keeper.Lasts rule)
    (hhold : world.Holds (tree.handles state + others))
    (hdeals : world.Deals after (tree.keepers state) (tree.keepers later)) :
    tree.Obeys rule later after := by
  rw [← ofKeepers_keepers] at hhold
  exact hdeals.lasts hrule hhold h

theorem persists_obeys (hrule : Keeper.Lasts rule) : Persists (Obeys rule) where
  untouched {tree state _ _} huntouched h keeper hmem := by
    refine hrule.frame (fun handle hhandle => huntouched handle ?_) (h keeper hmem)
    rw [← ofKeepers_keepers]
    exact Handle.mem_ofKeepers hmem hhandle
  start hfit hhold h := h.deals hrule hhold (start_fit _ _ _ hfit).2
  tick hfit hhold h := h.deals hrule hhold (tick_fit _ _ _ hfit).deals
  release hfit hhold h := h.deals hrule hhold (release_quiet _ _ _ hfit).2.2

end Tree

/-- Whether a host that made these subscriptions leaves all others on the board. -/
def Call.Spares (own : List ObserverId) : Call A → Prop
  | .clear => False
  | .unwatch id => id ∈ own
  | _ => True

namespace Session

variable {tree : Tree A} {initial : Values} {session : Session A} {root : Root A}
variable {rule : World A → Keeper → Prop}

/-- The sessions in which the host takes no observer off the board that is not its own. -/
inductive Undisturbed (tree : Tree A) (initial : Values) : Session A → Prop where
  | opened {board : Board} {agent : A} {react : Notice → A → A} {random : Random} {root : Root A} :
    board.Sound → board.values = initial →
    (∀ notice agent, board.isSubscribed notice.observer = false → react notice agent = agent) →
    Root.withBoard tree board agent react random = .ok root →
    Undisturbed tree initial ⟨root, board.observers.map (·.id)⟩
  | called {session : Session A} (call : Call A) :
    call.Spares session.own → Undisturbed tree initial session →
    Undisturbed tree initial (session.call call)

theorem Undisturbed.reachable (h : Undisturbed tree initial session) :
    Reachable tree initial session := by
  induction h with
  | opened hsound hvalues hsilent hroot => exact .opened hsound hvalues hsilent hroot
  | called call _ _ ih => exact .called call ih

def Satisfies (session : Session A) (P : (tree : Tree A) → tree.State → World A → Prop) : Prop :=
  P session.root.tree session.root.state session.root.world

def Obeys (session : Session A) (rule : World A → Keeper → Prop) : Prop :=
  session.Satisfies (Tree.Obeys rule)

namespace Kept

variable {P : (tree : Tree A) → tree.State → World A → Prop}

theorem satisfies_start (h : session.Kept) (hP : Tree.Persists P) (hsession : session.Satisfies P) :
    Satisfies ⟨session.root.start, session.own⟩ P := by
  unfold Root.start
  split
  · exact hsession
  · exact hP.start h.fit h.holds hsession

theorem satisfies_released (h : session.Kept) (hP : Tree.Persists P)
    (hsession : session.Satisfies P) : Satisfies ⟨session.root.released, session.own⟩ P :=
  hP.release h.fit h.holds hsession

theorem satisfies_evaluated (h : session.Kept) (hP : Tree.Persists P)
    (hsession : session.Satisfies P) : Satisfies ⟨session.root.evaluated, session.own⟩ P :=
  hP.tick h.fit h.holds hsession

theorem satisfies_tick (h : session.Kept) (hP : Tree.Persists P) (hsession : session.Satisfies P) :
    Satisfies ⟨session.root.tick, session.own⟩ P := by
  by_cases hactive : session.root.active = true
  · rw [session.root.tick_eq hactive]
    split
    · exact h.released.1.kept.satisfies_evaluated hP (h.satisfies_released hP hsession)
    · exact h.satisfies_evaluated hP hsession
  · rw [Root.tick, if_pos (by simpa using hactive)]
    exact hsession

theorem satisfies_advance (h : session.Kept) (hP : Tree.Persists P) (hsession : session.Satisfies P)
    (dt : Duration) : Satisfies ⟨session.root.advance dt, session.own⟩ P :=
  hP.untouched (fun handle _ =>
    h.holds.untouched_advance h.fit session.timer_not_mem_handles dt handle) hsession

/-- A stopped tree holds nothing, so a reset of the world can not concern it. -/
theorem satisfies_stop (h : session.Kept) (hP : Tree.Persists P) (hsession : session.Satisfies P) :
    Satisfies ⟨session.root.stop, session.own⟩ P := by
  by_cases hactive : session.root.active = true
  · obtain ⟨-, -, hnone⟩ := h.released
    rw [session.root.stop_eq hactive]
    refine hP.untouched (fun handle hmem => ?_) (h.satisfies_released hP hsession)
    exact absurd (hnone ▸ hmem) (Multiset.notMem_zero handle)
  · rw [Root.stop, if_pos (by simpa using hactive)]
    exact hsession

theorem satisfies_call (h : session.Kept) (hP : Tree.Persists P) (hsession : session.Satisfies P)
    (call : Call A) (hspares : call.Spares session.own) : (session.call call).Satisfies P := by
  cases call with
  | start => exact h.satisfies_start hP hsession
  | tick => exact h.satisfies_tick hP hsession
  | advance dt => exact h.satisfies_advance hP hsession dt
  | update dt => exact (h.advance dt).kept.satisfies_tick hP (h.satisfies_advance hP hsession dt)
  | stop => exact h.satisfies_stop hP hsession
  | steer f =>
    exact hP.untouched (fun handle _ => (World.writes_mapAgent _ f).untouched handle) hsession
  | set key value =>
    exact hP.untouched (fun handle _ => (World.writes_set _ key value).untouched handle) hsession
  | remove key =>
    exact hP.untouched (fun handle _ => (World.writes_remove _ key).untouched handle) hsession
  | getNumber key =>
    exact hP.untouched (fun handle _ => (World.writes_getNumber _ key).untouched handle) hsession
  | getBool key =>
    exact hP.untouched (fun handle _ => (World.writes_getBool _ key).untouched handle) hsession
  | clear => exact hspares.elim
  | watch key reaction =>
    exact hP.untouched (fun handle _ => World.untouched_subscribe _ key handle) hsession
  | unwatch id =>
    refine hP.untouched (fun handle hmem => World.untouched_unsubscribe _ ?_) hsession
    rintro rfl
    have hown : Handle.observer id ∈ session.handles :=
      Multiset.mem_coe.mpr (List.mem_map_of_mem hspares)
    exact Multiset.disjoint_left.mp (Multiset.nodup_add.mp h.holds.nodup).2.2 hmem hown

end Kept

theorem satisfies_opened {P : (tree : Tree A) → tree.State → World A → Prop} {board : Board}
    {agent : A} {react : Notice → A → A} {random : Random}
    (hfresh : ∀ random world, P tree (tree.fresh random).1 world)
    (hroot : Root.withBoard tree board agent react random = .ok root) (own : List ObserverId) :
    Satisfies ⟨root, own⟩ P := by
  obtain ⟨-, rfl⟩ := Root.withBoard_eq_ok.mp hroot
  exact hfresh _ _

theorem Undisturbed.satisfies {P : (tree : Tree A) → tree.State → World A → Prop}
    (hP : Tree.Persists P) (htree : tree.BuiltIn)
    (hfresh : ∀ random world, P tree (tree.fresh random).1 world)
    (h : Undisturbed tree initial session) : session.Satisfies P := by
  induction h with
  | opened _ _ _ hroot => exact satisfies_opened hfresh hroot _
  | called call hspares h ih => exact (h.reachable.kept htree).satisfies_call hP ih call hspares

/-- What each step of a keeper keeps holds of all keepers in every state that a host can come to that
does not disturb them. -/
theorem Undisturbed.obeys (hrule : Keeper.Lasts rule) (htree : tree.BuiltIn)
    (h : Undisturbed tree initial session) : session.Obeys rule :=
  h.satisfies (Tree.persists_obeys hrule) htree fun random world =>
    Tree.fresh_obeys hrule world tree random htree

theorem Undisturbed.calls (h : Undisturbed tree initial session) (calls : List (Call A))
    (hspares : ∀ call ∈ calls, call.Spares []) : Undisturbed tree initial (session.calls calls) := by
  induction calls generalizing session with
  | nil => exact h
  | cons call calls ih =>
    obtain ⟨hcall, hrest⟩ := List.forall_mem_cons.mp hspares
    refine ih (h.called call ?_) hrest
    cases call with
    | clear => exact hcall
    | unwatch id => exact absurd hcall List.not_mem_nil
    | start | tick | advance _ | update _ | stop | steer _ | set _ _ | remove _ | getNumber _
    | getBool _ | watch _ _ => exact trivial

end Session

theorem watchman.undisturbed : watchman.session.Undisturbed watchman .empty :=
  .opened (Board.sound_ofValues .empty) rfl (fun _ _ _ => rfl) watchman.withBoard_eq

end BehaviorTree
