import BehaviorTree.Proofs.Lifecycle.Positions

namespace BehaviorTree

theorem Multiset.mem_list_sum {α : Type} {a : α} {parts : List (Multiset α)} :
    a ∈ parts.sum ↔ ∃ part ∈ parts, a ∈ part := by
  induction parts with
  | nil => simp
  | cons part parts ih => simp [ih]

theorem Multiset.index_unique {α : Type} {a : α} {parts : List (Multiset α)} (h : parts.sum.Nodup)
    {i j : Nat} {left right : Multiset α} (hi : parts[i]? = some left) (hj : parts[j]? = some right)
    (hleft : a ∈ left) (hright : a ∈ right) : i = j := by
  induction parts generalizing i j with
  | nil => simp at hi
  | cons part parts ih =>
    rw [List.sum_cons, Multiset.nodup_add] at h
    have apart {k : Nat} {other : Multiset α} (hk : parts[k]? = some other) (hpart : a ∈ part)
        (hother : a ∈ other) : False :=
      Multiset.disjoint_left.mp h.2.2 hpart
        (Multiset.mem_list_sum.mpr ⟨other, List.mem_of_getElem? hk, hother⟩)
    cases i with
    | zero =>
      cases j with
      | zero => rfl
      | succ j =>
        cases hi
        exact (apart hj hleft hright).elim
    | succ i =>
      cases j with
      | zero =>
        cases hj
        exact (apart hi hright hleft).elim
      | succ j => exact congrArg Nat.succ (ih h.2.1 hi hj)

namespace Subtree

variable {A : Type} {node child lower other : Subtree A} {i : Nat} {position path : List Nat}
variable {id : TimerId} {callback : Routine A}

theorem mem_handles_of_mem_own {handle : Handle} (h : handle ∈ node.own) : handle ∈ node.handles := by
  rw [handles_eq]
  exact Multiset.mem_add.mpr (.inl h)

theorem mem_handles_of_mem_child {handle : Handle} (hchild : child ∈ node.children)
    (h : handle ∈ child.handles) : handle ∈ node.handles := by
  rw [handles_eq]
  exact Multiset.mem_add.mpr
    (.inr (Multiset.mem_list_sum.mpr ⟨child.handles, List.mem_map_of_mem hchild, h⟩))

theorem timer_mem_own : Handle.timer id ∈ node.own ↔ node.timer? = some id := by
  obtain ⟨tree, state⟩ := node
  cases tree with
  | action _ _ | wait _ _ | leaf _ | sequence _ | selector _ => simp [own, timer?]
  | condition _ _ _ =>
    simp only [own, timer?]
    cases state.observer <;> simp [Handle.observers]
  | service _ _ _ _ =>
    simp only [own, timer?]
    cases state.timer <;> simp [Handle.timers, eq_comm]

theorem timer_mem_handles (hlower : node.at? position = some lower) (htimer : lower.timer? = some id) :
    Handle.timer id ∈ node.handles := by
  induction position generalizing node with
  | nil =>
    cases hlower
    exact mem_handles_of_mem_own (timer_mem_own.mpr htimer)
  | cons i position ih =>
    obtain ⟨child, hchild, hlower⟩ := at?_cons_eq_some hlower
    exact mem_handles_of_mem_child (List.mem_of_getElem? hchild) (ih hlower)

theorem exists_of_timer_mem (node : Subtree A) : Handle.timer id ∈ node.handles →
    ∃ position lower, node.at? position = some lower ∧ lower.timer? = some id := by
  induction node using Subtree.induction with
  | step node ih =>
    intro h
    rw [handles_eq] at h
    obtain h | h := Multiset.mem_add.mp h
    · exact ⟨[], node, rfl, timer_mem_own.mp h⟩
    · obtain ⟨_, hmap, h⟩ := Multiset.mem_list_sum.mp h
      obtain ⟨child, hmem, rfl⟩ := List.mem_map.mp hmap
      obtain ⟨i, hchild⟩ := List.getElem?_of_mem hmem
      obtain ⟨position, lower, hlower, htimer⟩ := ih child hmem h
      exact ⟨i :: position, lower, by rw [at?_cons hchild, hlower], htimer⟩

theorem timer?_ne_of_below (h : node.handles.Nodup) (hchild : child ∈ node.children)
    (hlower : child.at? position = some lower) (htimer : lower.timer? = some id) :
    node.timer? ≠ some id := by
  intro hown
  rw [handles_eq, Multiset.nodup_add] at h
  exact Multiset.disjoint_left.mp h.2.2 (timer_mem_own.mpr hown) (Multiset.mem_list_sum.mpr
    ⟨child.handles, List.mem_map_of_mem hchild, timer_mem_handles hlower htimer⟩)

theorem nodup_child (h : node.handles.Nodup) (hchild : child ∈ node.children) :
    child.handles.Nodup := by
  rw [handles_eq, Multiset.nodup_add] at h
  have hmem : child.handles ∈ node.children.map handles := List.mem_map_of_mem hchild
  have hsum := h.2.1
  generalize node.children.map handles = parts at hmem hsum
  induction parts with
  | nil => simp at hmem
  | cons part parts ih =>
    rw [List.sum_cons, Multiset.nodup_add] at hsum
    obtain heq | hmem := List.mem_cons.mp hmem
    · exact heq ▸ hsum.1
    · exact ih hmem hsum.2.1

theorem timer_position_unique (h : node.handles.Nodup) (hlower : node.at? position = some lower)
    (hother : node.at? path = some other) (htimer : lower.timer? = some id)
    (hsame : other.timer? = some id) : position = path := by
  induction position generalizing node path with
  | nil =>
    cases hlower
    cases path with
    | nil => rfl
    | cons j path =>
      obtain ⟨child, hchild, hother⟩ := at?_cons_eq_some hother
      exact absurd htimer (timer?_ne_of_below h (List.mem_of_getElem? hchild) hother hsame)
  | cons i position ih =>
    obtain ⟨child, hchild, hdown⟩ := at?_cons_eq_some hlower
    cases path with
    | nil =>
      cases hother
      exact absurd hsame (timer?_ne_of_below h (List.mem_of_getElem? hchild) hdown htimer)
    | cons j path =>
      obtain ⟨child', hchild', hdown'⟩ := at?_cons_eq_some hother
      have hsum := (Multiset.nodup_add.mp (handles_eq node ▸ h)).2.1
      have hij : i = j := Multiset.index_unique hsum (i := i) (j := j)
        (by rw [List.getElem?_map, hchild, Option.map_some])
        (by rw [List.getElem?_map, hchild', Option.map_some])
        (timer_mem_handles hdown htimer) (timer_mem_handles hdown' hsame)
      subst hij
      rw [hchild] at hchild'
      cases hchild'
      rw [ih (nodup_child h (List.mem_of_getElem? hchild)) hdown hdown']

theorem fireAt_eq {trees : List (Tree A)} {states : Tree.StateList trees}
    (hchild : (ofList trees states)[i]? = some child) (world : World A) :
    Tree.fireAt trees i states id world = child.tree.fire child.state id world := by
  induction trees generalizing i with
  | nil => simp [ofList] at hchild
  | cons tree trees ih =>
    obtain ⟨state, states⟩ := states
    cases i with
    | zero =>
      cases hchild
      rfl
    | succ i => exact ih hchild

theorem fireOption_eq {tree : Option (Tree A)} {state : Tree.StateOption tree}
    (hchild : (ofOption tree state)[i]? = some child) (world : World A) :
    Tree.fireOption tree state id world = child.tree.fire child.state id world := by
  cases tree with
  | none => simp [ofOption] at hchild
  | some tree =>
    obtain rfl := getElem?_ofOption hchild
    cases hchild
    rfl

theorem Fit.fire_child (h : node.Fit) (hchild : node.children[i]? = some child)
    (hturn : ¬child.Quiet) (htimer : node.timer? ≠ some id) (world : World A) :
    node.tree.fire node.state id world = child.tree.fire child.state id world := by
  have hmem := List.mem_of_getElem? hchild
  -- What is not quiet lies on the active path, and firings go down that path.
  have hactive : node.status ≠ .inactive := fun hidle => hturn ((h.quiet hidle).children child hmem)
  have hbusy : child.status ≠ .inactive := fun hidle => hturn ((h.children child hmem).quiet hidle)
  obtain ⟨tree, state⟩ := node
  cases tree with
  | action _ _ | wait _ _ | leaf _ => simp [Subtree.children] at hchild
  | sequence trees | selector trees =>
    have hrun : state.status = .running := Decidable.byContradiction fun hne =>
      hturn (Fit.ended h (i := state.current) rfl hne child hmem)
    have hcurrent : i = state.current :=
      (Fit.running h (i := state.current) rfl hrun).1 i child hchild hbusy
    subst hcurrent
    exact (if_pos hrun).trans (fireAt_eq hchild world)
  | condition _ _ tree => exact (if_neg hactive).trans (fireOption_eq hchild world)
  | service _ _ _ tree =>
    exact (if_neg hactive).trans ((if_neg htimer).trans (fireOption_eq hchild world))

theorem Fit.fire_self (h : node.Fit) (htimer : node.timer? = some id)
    (hcallback : node.callback? = some callback) (world : World A) :
    node.tree.fire node.state id world = (true, world.refresh id callback) := by
  obtain ⟨tree, state⟩ := node
  cases tree with
  | action _ _ | wait _ _ | leaf _ | sequence _ | selector _ | condition _ _ _ => cases hcallback
  | service _ _ own _ =>
    cases hcallback
    have hactive : state.status ≠ .inactive := fun hidle => by
      have hnone := (h.2.1 hidle).1
      rw [show state.timer = some id from htimer] at hnone
      cases hnone
    exact (if_neg hactive).trans (if_pos htimer)

/-- A fired timer comes to the service that keeps it, wherever in the tree that is. -/
theorem Fit.fire_eq (h : node.Fit) (hnodup : node.handles.Nodup)
    (hlower : node.at? position = some lower) (htimer : lower.timer? = some id)
    (hcallback : lower.callback? = some callback) (world : World A) :
    node.tree.fire node.state id world = (true, world.refresh id callback) := by
  induction position generalizing node with
  | nil =>
    cases hlower
    exact h.fire_self htimer hcallback world
  | cons i position ih =>
    obtain ⟨child, hchild, hlower⟩ := at?_cons_eq_some hlower
    have hmem := List.mem_of_getElem? hchild
    have hturn : ¬child.Quiet := fun hquiet => by
      have hnone := (hquiet.below hlower).timer?_eq
      rw [htimer] at hnone
      cases hnone
    rw [h.fire_child hchild hturn (timer?_ne_of_below hnodup hmem hlower htimer) world]
    exact ih (h.children child hmem) (nodup_child hnodup hmem) hlower

theorem exists_callback (htimer : node.timer? = some id) :
    ∃ callback, node.callback? = some callback := by
  obtain ⟨tree, state⟩ := node
  cases tree with
  | action _ _ | wait _ _ | leaf _ | sequence _ | selector _ | condition _ _ _ => cases htimer
  | service _ _ callback _ => exact ⟨callback, rfl⟩

def fire (node : Subtree A) : TimerId → World A → Bool × World A := node.tree.fire node.state

end Subtree

namespace Clock

theorem earliest?_mem {timers : List Timer} {timer : Timer} (h : earliest? timers = some timer) :
    timer ∈ timers := by
  induction timers generalizing timer with
  | nil => cases h
  | cons first rest ih =>
    rw [earliest?] at h
    split at h
    · cases h
      exact List.mem_cons_self
    · rename_i other hother
      split at h <;> cases h
      · exact List.mem_cons_of_mem _ (ih hother)
      · exact List.mem_cons_self

structure Popped (before : Clock) (id : TimerId) (after : Clock) : Prop where
  scheduled : before.isScheduled id = true
  ids : after.timers.map (·.id) = before.timers.map (·.id)
  nextTimer_eq : after.nextTimer = before.nextTimer
  overflowed : before.overflowed = true → after.overflowed = true

theorem popped {clock after : Clock} {limit : Duration} {id : TimerId}
    (h : clock.popDue? limit = some (id, after)) : clock.Popped id after := by
  obtain ⟨timer, hnext, heq⟩ := Option.map_eq_some_iff.mp h
  cases heq
  have hmem := (List.mem_filter.mp (earliest?_mem hnext)).1
  refine ⟨?_, map_id_reschedule _ _, rfl, fun hover => ?_⟩
  · exact (isScheduled_iff _ _).mpr (List.mem_map_of_mem hmem)
  · simp [hover]

end Clock

namespace World

variable {A : Type} {world start : World A} {node : Subtree A} {others handles : Multiset Handle}
variable {fire : TimerId → World A → Bool × World A} {limit : Duration} {id : TimerId} {clock : Clock}

/-- The worlds on the way while what falls due by `limit` is fired. There are no others:
`Passes.fireDue`. -/
inductive Passes (fire : TimerId → World A → Bool × World A) (limit : Duration) (start : World A) :
    World A → Prop
  | start : Passes fire limit start start
  | fired {world : World A} {id : TimerId} {clock : Clock} : Passes fire limit start world →
      world.clock.popDue? limit = some (id, clock) → clock.overflowed = false →
      Passes fire limit start (dispatch fire id { world with clock })

/-- Firing ends on the way, or with an overflow right after the last pop. -/
theorem Passes.fireDue (h : Passes fire limit start world) (fuel : Nat) :
    Passes fire limit start (fireDue fire limit fuel world) ∨
      ∃ (last : World A) (id : TimerId) (clock : Clock), Passes fire limit start last ∧
        last.clock.popDue? limit = some (id, clock) ∧ clock.overflowed = true ∧
        World.fireDue fire limit fuel world = { last with clock } := by
  induction fuel generalizing world with
  | zero => exact .inl h
  | succ fuel ih =>
    rw [World.fireDue]
    split
    · exact .inl h
    · rename_i id clock hpop
      split
      · rename_i hover
        exact .inr ⟨world, id, clock, h, hpop, hover, rfl⟩
      · rename_i hover
        exact ih (h.fired hpop (by simpa using hover))

theorem Holds.popped (h : world.Holds handles) (hpop : world.clock.Popped id clock) :
    World.Holds { world with clock } handles := by
  refine ⟨h.sound, h.nodup, hpop.ids ▸ h.distinct, ?_, h.subscribed, ?_⟩
  · intro other
    rw [← h.scheduled other, Clock.isScheduled_iff, Clock.isScheduled_iff, hpop.ids]
  · intro handle hmem
    have hissued := h.issued handle hmem
    cases handle with
    | timer other =>
      rw [Issued, hpop.nextTimer_eq]
      exact hissued
    | observer other => exact hissued

theorem Holds.moveTo (h : world.Holds handles) (instant : Duration) :
    World.Holds { world with clock := world.clock.moveTo instant } handles :=
  ⟨h.sound, h.nodup, h.distinct, h.scheduled, h.subscribed, fun handle hmem => by
    have hissued := h.issued handle hmem
    cases handle with
    | timer _ | observer _ => exact hissued⟩

/-- A scheduled timer is kept by one service, which is active, and the firing comes to it. -/
theorem Holds.owner (h : world.Holds (node.handles + others)) (hfit : node.Fit)
    (hothers : ∀ id, Handle.timer id ∉ others) (hid : world.clock.isScheduled id = true) :
    ∃ position owner callback, node.at? position = some owner ∧ owner.status ≠ .inactive ∧
      owner.timer? = some id ∧ owner.callback? = some callback ∧
      (∀ path other, node.at? path = some other → other.timer? = some id → path = position) ∧
      ∀ world, node.fire id world = (true, world.refresh id callback) := by
  have hmem := (Multiset.mem_add.mp ((h.scheduled id).mp hid)).resolve_right (hothers id)
  have hnodup := (Multiset.nodup_add.mp h.nodup).1
  obtain ⟨position, owner, howner, htimer⟩ := node.exists_of_timer_mem hmem
  obtain ⟨callback, hcallback⟩ := Subtree.exists_callback htimer
  have hactive : owner.status ≠ .inactive :=
    ((hfit.below howner).timer?_ne_none (by simp [hcallback])).mp (by simp [htimer])
  exact ⟨position, owner, callback, howner, hactive, htimer, hcallback,
    fun path other hother hsame => Subtree.timer_position_unique hnodup hother howner hsame htimer,
    hfit.fire_eq hnodup howner htimer hcallback⟩

theorem Holds.dispatch_eq (h : world.Holds (node.handles + others)) (hfit : node.Fit)
    (hothers : ∀ id, Handle.timer id ∉ others) (hpop : world.clock.popDue? limit = some (id, clock)) :
    ∃ callback, dispatch node.fire id { world with clock } =
      World.refresh { world with clock } id callback := by
  obtain ⟨_, _, callback, _, _, _, _, _, hfire⟩ := h.owner hfit hothers (Clock.popped hpop).scheduled
  refine ⟨callback, ?_⟩
  rw [dispatch, hfire]
  rfl

/-- Firing takes no timer from its service, and finds a service for each. -/
theorem Holds.passes (h : start.Holds (node.handles + others)) (hfit : node.Fit)
    (hothers : ∀ id, Handle.timer id ∉ others) (hpass : Passes node.fire limit start world) :
    world.Holds (node.handles + others) ∧ start.Follows world := by
  induction hpass with
  | start => exact ⟨h, .refl start⟩
  | @fired world id clock _ hpop _ ih =>
    obtain ⟨hold, hfollows⟩ := ih
    obtain ⟨callback, heq⟩ := hold.dispatch_eq hfit hothers hpop
    have hpopped := Clock.popped hpop
    have hpops : world.Follows { world with clock } := ⟨rfl, hpopped.overflowed, .of_eq rfl⟩
    have hrefresh : World.Trades { world with clock } (World.refresh { world with clock } id callback)
        node.handles node.handles := trades_refresh _ id callback
    rw [heq]
    exact ⟨hrefresh.holds _ (hold.popped hpopped), (hfollows.trans hpops).trans hrefresh.follows⟩

theorem Holds.fireDue (h : start.Holds (node.handles + others)) (hfit : node.Fit)
    (hothers : ∀ id, Handle.timer id ∉ others) (limit : Duration) (fuel : Nat) :
    (World.fireDue node.fire limit fuel start).Holds (node.handles + others) ∧
      start.Follows (World.fireDue node.fire limit fuel start) := by
  have hstart : Passes node.fire limit start start := .start
  obtain hpass | ⟨last, id, clock, hpass, hpop, hover, heq⟩ := hstart.fireDue fuel
  · exact h.passes hfit hothers hpass
  · obtain ⟨hold, hfollows⟩ := h.passes hfit hothers hpass
    rw [heq]
    exact ⟨hold.popped (Clock.popped hpop), hfollows.trans ⟨rfl, fun _ => hover, .of_eq rfl⟩⟩

theorem Holds.advance (h : start.Holds (node.handles + others)) (hfit : node.Fit)
    (hothers : ∀ id, Handle.timer id ∉ others) (dt : Duration) :
    (World.advance node.fire dt start).Holds (node.handles + others) ∧
      start.Follows (World.advance node.fire dt start) := by
  unfold World.advance
  dsimp only
  split
  · have hover : start.Trades start.overflow node.handles node.handles := trades_overflow start
    exact ⟨hover.holds others h, hover.follows⟩
  · obtain ⟨hold, hfollows⟩ := h.fireDue hfit hothers (start.now + dt)
      (start.clock.firings (start.now + dt))
    exact ⟨hold.moveTo _, hfollows.trans ⟨rfl, id, .of_eq rfl⟩⟩

end World

end BehaviorTree
