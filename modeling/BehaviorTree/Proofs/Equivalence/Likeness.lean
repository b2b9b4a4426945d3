import BehaviorTree.Proofs.Equivalence.RestingTrees
import BehaviorTree.Proofs.Lifecycle.TickFit

/-!
A likeness of two trees says which of their states go together, and that each operation on both keeps
them together, whatever else goes on in their worlds. Below a composite less is asked of a child, since a
composite never starts a child without a tick, and stops each child that ends: `Tree.Substitute`.
-/

namespace BehaviorTree

variable {A : Type} {bond : Bond}

theorem World.Follows.allows {before after : World A} (h : before.Follows after)
    (hover : bond.Allows after) : bond.Allows before := fun hloose =>
  Bool.eq_false_iff.mpr fun hpast => Bool.false_ne_true ((hover hloose).symm.trans (h.overflowed hpast))

namespace Tree

/-- A tick as a composite gives it to a child: one that ends is stopped. -/
def turn (tree : Tree A) (state : tree.State) (world : World A) : Outcome × tree.State × World A :=
  let (outcome, state, world) := tree.tick state world
  if outcome = .running then (outcome, state, world)
  else
    let (state, world) := tree.stop state world
    (outcome, state, world)

theorem turn_eq (tree : Tree A) (state : tree.State) (world : World A) {outcome : Outcome}
    {ticked : tree.State} {after : World A} (htick : tree.tick state world = (outcome, ticked, after)) :
    tree.turn state world = if outcome = .running then (outcome, ticked, after)
      else (outcome, tree.stop ticked after) := by
  rw [turn, htick]

theorem tickFrom_turn (goOn : Outcome) (tree : Tree A) (trees : List (Tree A)) (state : tree.State)
    (states : StateList trees) (world : World A) {outcome : Outcome} {turned : tree.State}
    {after : World A} (hturn : tree.turn state world = (outcome, turned, after)) :
    tickFrom goOn (tree :: trees) 0 (state, states) world =
      if outcome = .running then (.running, 0, (turned, states), after)
      else if outcome = goOn then
        ((tickFrom goOn trees 0 states after).1, (tickFrom goOn trees 0 states after).2.1 + 1,
          (turned, (tickFrom goOn trees 0 states after).2.2.1),
          (tickFrom goOn trees 0 states after).2.2.2)
      else (outcome, 0, (turned, states), after) := by
  rcases htick : tree.tick state world with ⟨ticked, middle, between⟩
  rw [turn_eq tree state world htick] at hturn
  rw [tickFrom_zero goOn tree trees state states world htick]
  by_cases hrun : ticked = .running
  · rw [if_pos hrun] at hturn ⊢
    cases hturn
    rw [if_pos hrun]
  · rw [if_neg hrun] at hturn ⊢
    obtain ⟨rfl, hstop⟩ := Prod.mk.inj hturn
    rw [hstop, if_neg hrun]

theorem tick_follows (tree : Tree A) (state : tree.State) (world : World A) (h : tree.Fit state) :
    world.Follows (tree.tick state world).2.2 :=
  (tick_fit tree state world h).deals.trades.follows

theorem turn_fit (tree : Tree A) (state : tree.State) (world : World A) (h : tree.Fit state) :
    tree.Fit (tree.turn state world).2.1 ∧
      ((tree.turn state world).1 ≠ .running → tree.Quiet (tree.turn state world).2.1) ∧
      (tree.tick state world).2.2.Follows (tree.turn state world).2.2 := by
  rcases htick : tree.tick state world with ⟨outcome, ticked, after⟩
  have hfit := (tick_fit tree state world h).fit
  rw [htick] at hfit
  have hstop := stop_quiet tree ticked after hfit
  rw [turn_eq tree state world htick]
  split
  · rename_i hrun
    exact ⟨hfit, fun hended => absurd hrun hended, .refl _⟩
  · exact ⟨Quiet.fit _ _ hstop.1, fun _ => hstop.1, hstop.2.trades.follows⟩

theorem tickFrom_follows {goOn : Outcome} (hgo : goOn ≠ .running) (trees : List (Tree A)) (i : Nat)
    (states : StateList trees) (world : World A) (h : FitAt trees i states) :
    world.Follows (tickFrom goOn trees i states world).2.2.2 :=
  (tickFrom_fit goOn hgo trees i states world h).deals.trades.follows

/-- Which states of two trees go together while these are in step, and what keeps them together. -/
structure Resemblance (bond : Bond) (tree other : Tree A) where
  Close : Tie tree.State other.State
  fit {state : tree.State} {state' : other.State} {links : Multiset Link} :
    Close state state' links → tree.Fit state
  /-- What rests has no timer. -/
  calm {state : tree.State} {state' : other.State} {links : Multiset Link} :
    Close state state' links → tree.Quiet state → ∀ a b, Link.timer a b ∉ links
  sleep {state : tree.State} {state' : other.State} {world world' : World A} {more : Multiset Link} :
    tree.Quiet state → other.Quiet state' → Beside bond Close more (state, world) (state', world') →
      Beside bond (Slumber tree.rest other.rest) more (state, world) (state', world')
  length_eq (state : tree.State) (state' : other.State) :
    (tree.leaves state).length = (other.leaves state').length
  fresh_eq (random : Random) :
    tree.leaves (tree.fresh random).1 = other.leaves (other.fresh random).1 ∧
      (tree.fresh random).2 = (other.fresh random).2
  preempts {state : tree.State} {state' : other.State} {world world' : World A}
    {links more : Multiset Link} :
    tree.Quiet state → other.Quiet state' → Close state state' links →
      World.Linked bond (links + more) world world' →
        (tree.preempts state world).1 = (other.preempts state' world').1 ∧
          World.Linked bond (links + more) (tree.preempts state world).2
            (other.preempts state' world').2
  fire {state : tree.State} {state' : other.State} {links more : Multiset Link} {a b : Option TimerId} :
    Close state state' links → .timer a b ∈ links →
      World.Linked.Answers bond (links + more) (tree.fire state) (other.fire state') a b

namespace Resemblance

variable {tree other : Tree A} (resemblance : Resemblance bond tree other)

/-- The states are in step, or both rest. -/
def Near : Tie tree.State other.State := fun state state' links =>
  resemblance.Close state state' links ∨ Slumber tree.rest other.rest state state' links

def Idle : Tie tree.State other.State := fun state state' links =>
  resemblance.Close state state' links ∧ tree.Quiet state ∧ other.Quiet state'

variable {resemblance}
variable {state : tree.State} {state' : other.State} {links more : Multiset Link}
variable {here : tree.State × World A} {there : other.State × World A}

theorem Near.fit (h : resemblance.Near state state' links) : tree.Fit state :=
  h.elim resemblance.fit fun hslumber => Quiet.fit _ _ hslumber.left

theorem Idle.slumber (h : Beside bond resemblance.Idle more here there) :
    Beside bond (Slumber tree.rest other.rest) more here there := by
  obtain ⟨links, ⟨hclose, hquiet, hquiet'⟩, hlinked⟩ := h
  exact resemblance.sleep hquiet hquiet' ⟨links, hclose, hlinked⟩

theorem Near.fire (h : resemblance.Near state state' links) {a b : Option TimerId}
    (hmem : .timer a b ∈ links) :
    World.Linked.Answers bond (links + more) (tree.fire state) (other.fire state') a b := by
  obtain hclose | hslumber := h
  · exact resemblance.fire hclose hmem
  · exact absurd hmem (hslumber.timer_not_mem a b)

structure Turned (resemblance : Resemblance bond tree other) (more : Multiset Link)
    (here : Outcome × tree.State × World A) (there : Outcome × other.State × World A) : Prop where
  outcome_eq : here.1 = there.1
  running : here.1 = .running → Beside bond resemblance.Close more here.2 there.2
  ended : here.1 ≠ .running → Beside bond resemblance.Idle more here.2 there.2

end Resemblance

/-- The one tree does below a composite what the other does. -/
structure Substitute (bond : Bond) (tree other : Tree A) extends Resemblance bond tree other where
  turn {state : tree.State} {state' : other.State} {world world' : World A} {more : Multiset Link} :
    Beside bond toResemblance.Near more (state, world) (state', world') →
      bond.Allows (tree.turn state world).2.2 →
        toResemblance.Turned more (tree.turn state world) (other.turn state' world')
  stop {state : tree.State} {state' : other.State} {world world' : World A} {more : Multiset Link} :
    Beside bond Close more (state, world) (state', world') →
      Beside bond (Slumber tree.rest other.rest) more (tree.stop state world) (other.stop state' world')

/-- The one tree does what the other does. -/
structure Likeness (bond : Bond) (tree other : Tree A) extends Resemblance bond tree other where
  status_eq {state : tree.State} {state' : other.State} {links : Multiset Link} :
    Close state state' links → tree.status state = other.status state'
  start {state : tree.State} {state' : other.State} {world world' : World A} {more : Multiset Link} :
    Beside bond toResemblance.Near more (state, world) (state', world') →
      Beside bond Close more (tree.start state world) (other.start state' world')
  tick {state : tree.State} {state' : other.State} {world world' : World A} {more : Multiset Link} :
    Beside bond toResemblance.Near more (state, world) (state', world') →
      bond.Allows (tree.tick state world).2.2 →
        (tree.tick state world).1 = (other.tick state' world').1 ∧
          Beside bond Close more (tree.tick state world).2 (other.tick state' world').2
  stop {state : tree.State} {state' : other.State} {world world' : World A} {more : Multiset Link} :
    Beside bond Close more (state, world) (state', world') →
      Beside bond toResemblance.Idle more (tree.stop state world) (other.stop state' world')

variable {tree other : Tree A}
variable {state : tree.State} {state' : other.State} {world world' : World A} {more : Multiset Link}

theorem Substitute.stop_near (substitute : Substitute bond tree other)
    (h : Beside bond substitute.Near more (state, world) (state', world')) :
    Beside bond (Slumber tree.rest other.rest) more (tree.stop state world)
      (other.stop state' world') := by
  obtain ⟨links, hclose | hslumber, hlinked⟩ := h
  · exact substitute.stop ⟨links, hclose, hlinked⟩
  · exact Slumber.stop ⟨links, hslumber, hlinked⟩

namespace Likeness

theorem turned (likeness : Likeness bond tree other)
    (h : Beside bond likeness.Near more (state, world) (state', world'))
    (hover : bond.Allows (tree.turn state world).2.2) :
    likeness.Turned more (tree.turn state world) (other.turn state' world') := by
  have hfit : tree.Fit state := by
    obtain ⟨_, hnear, _⟩ := h
    exact hnear.fit
  obtain ⟨houtcome, hticked⟩ := likeness.tick h ((turn_fit tree state world hfit).2.2.allows hover)
  rcases htick : tree.tick state world with ⟨outcome, ticked, after⟩
  rcases htick' : other.tick state' world' with ⟨outcome', ticked', after'⟩
  rw [htick, htick'] at houtcome hticked
  obtain rfl : outcome = outcome' := houtcome
  rw [turn_eq tree state world htick, turn_eq other state' world' htick']
  by_cases hrun : outcome = .running
  · rw [if_pos hrun, if_pos hrun]
    exact ⟨rfl, fun _ => hticked, fun hended => absurd hrun hended⟩
  · rw [if_neg hrun, if_neg hrun]
    exact ⟨rfl, fun hr => absurd hr hrun, fun _ => likeness.stop hticked⟩

def substitute (likeness : Likeness bond tree other) : Substitute bond tree other where
  toResemblance := likeness.toResemblance
  turn := likeness.turned
  stop h := Resemblance.Idle.slumber (likeness.stop h)

theorem release (likeness : Likeness bond tree other)
    (h : Beside bond likeness.Near more (state, world) (state', world')) :
    Slumber tree.rest other.rest (tree.release state world).1 (other.release state' world').1 0 ∧
      World.Linked bond more (tree.release state world).2 (other.release state' world').2 := by
  have hstop := likeness.substitute.stop_near h
  rw [← release_stop tree state world (Slumber.left_quiet hstop),
    ← release_stop other state' world' (Slumber.right_quiet hstop)]
  exact Slumber.release hstop

end Likeness

def Same {S : Type} (status : S → Status) : Tie S S := fun state state' links =>
  state = state' ∧ status state ≠ .failed ∧ links = 0

theorem beside_same {S : Type} {status : S → Status} {state : S} (hstate : status state ≠ .failed)
    (h : World.Linked bond more world world') :
    Beside bond (Same status) more (state, world) (state, world') :=
  ⟨0, ⟨rfl, hstate, rfl⟩, (zero_add more).symm ▸ h⟩

theorem of_beside_same {S : Type} {status : S → Status} {state state' : S}
    (h : Beside bond (Same status) more (state, world) (state', world')) :
    state = state' ∧ status state ≠ .failed ∧ World.Linked bond more world world' := by
  obtain ⟨_, ⟨hsame, hstate, rfl⟩, hlinked⟩ := h
  rw [zero_add] at hlinked
  exact ⟨hsame, hstate, hlinked⟩

namespace Resemblance

def action (bond : Bond) (label : String) (command : Command A) :
    Resemblance bond (.action label command) (.action label command) where
  Close := Same ActionState.status
  fit h := h.2.1
  calm h _ _ _ hmem := Multiset.notMem_zero _ (h.2.2 ▸ hmem)
  sleep hquiet hquiet' h := h.mono fun _ hsame =>
    ⟨hquiet, hquiet', congrArg (fun state => [Sum.inl state]) hsame.1, hsame.2.2⟩
  length_eq _ _ := rfl
  fresh_eq _ := ⟨rfl, rfl⟩
  preempts _ _ _ h := ⟨rfl, h⟩
  fire h hmem := absurd (h.2.2 ▸ hmem) (Multiset.notMem_zero _)

theorem near_action {label : String} {command : Command A} {state state' : ActionState}
    {links : Multiset Link} (h : (action bond label command).Near state state' links) :
    Same ActionState.status state state' links := by
  obtain hsame | hslumber := h
  · exact hsame
  · have hstate : state.status = .inactive := hslumber.left
    have hleaves : [Sum.inl state] = [Sum.inl state'] := hslumber.leaves_eq
    refine ⟨Sum.inl.inj (List.singleton_inj.mp hleaves), by simp [hstate], hslumber.links_eq⟩

def wait (bond : Bond) (duration variance : Duration) :
    Resemblance bond (.wait (A := A) duration variance) (.wait duration variance) where
  Close := Same WaitState.status
  fit h := h.2.1
  calm h _ _ _ hmem := Multiset.notMem_zero _ (h.2.2 ▸ hmem)
  sleep hquiet hquiet' h := h.mono fun _ hsame =>
    ⟨hquiet, hquiet', congrArg (fun state => [Sum.inr state]) hsame.1, hsame.2.2⟩
  length_eq _ _ := rfl
  fresh_eq _ := ⟨rfl, rfl⟩
  preempts _ _ _ h := ⟨rfl, h⟩
  fire h hmem := absurd (h.2.2 ▸ hmem) (Multiset.notMem_zero _)

theorem near_wait {duration variance : Duration} {state state' : WaitState}
    {links : Multiset Link} (h : (wait (A := A) bond duration variance).Near state state' links) :
    Same WaitState.status state state' links := by
  obtain hsame | hslumber := h
  · exact hsame
  · have hstate : state.status = .inactive := hslumber.left
    have hleaves : [Sum.inr state] = [Sum.inr state'] := hslumber.leaves_eq
    refine ⟨Sum.inr.inj (List.singleton_inj.mp hleaves), by simp [hstate], hslumber.links_eq⟩

end Resemblance

namespace Likeness

def action (bond : Bond) (label : String) (command : Command A) :
    Likeness bond (.action label command) (.action label command) where
  toResemblance := Resemblance.action bond label command
  status_eq h := congrArg ActionState.status h.1
  start {state state' world world' more} h := by
    obtain ⟨rfl, hstate, hlinked⟩ := of_beside_same (h.mono fun _ => Resemblance.near_action)
    rw [Tree.start]
    refine beside_same ?_ hlinked
    split
    · simp
    · exact hstate
  tick {state state' world world' more} h _ := by
    obtain ⟨rfl, hstate, hlinked⟩ := of_beside_same (h.mono fun _ => Resemblance.near_action)
    obtain ⟨hrandom, hran⟩ := (hlinked.record (.acted label) rfl).command command state.random
    rw [Tree.tick, Tree.tick]
    split
    · exact ⟨rfl, beside_same hstate hlinked⟩
    · refine ⟨rfl, ?_⟩
      dsimp only
      rw [hrandom]
      exact beside_same (by simp) hran
  stop {state state' world world' more} h := by
    obtain ⟨rfl, -, hlinked⟩ := of_beside_same h
    rw [Tree.stop]
    exact ⟨0, ⟨⟨rfl, by simp, rfl⟩, rfl, rfl⟩, (zero_add more).symm ▸ hlinked⟩

theorem start_wait {duration variance : Duration} {state state' : WaitState}
    (h : Beside bond (Resemblance.wait (A := A) bond duration variance).Near more (state, world)
      (state', world')) :
    Beside bond (Same WaitState.status) more ((Tree.wait duration variance).start state world)
      ((Tree.wait duration variance).start state' world') := by
  obtain ⟨rfl, hstate, hlinked⟩ := of_beside_same (h.mono fun _ => Resemblance.near_wait)
  rw [Tree.start, Tree.start]
  split
  · exact beside_same hstate hlinked
  · rename_i hidle
    rcases state.random.waitingTime duration variance with ⟨_ | target, random⟩
    · exact beside_same (by simp [not_not.mp hidle]) hlinked.overflow
    · dsimp only
      rw [hlinked.now_eq]
      exact beside_same (by simp) hlinked

def wait (bond : Bond) (duration variance : Duration) :
    Likeness bond (.wait (A := A) duration variance) (.wait duration variance) where
  toResemblance := Resemblance.wait bond duration variance
  status_eq h := congrArg WaitState.status h.1
  start := start_wait
  tick {state state' world world' more} h _ := by
    have hstart := start_wait h
    rw [Tree.tick, Tree.tick]
    rcases hbegun : (Tree.wait duration variance).start state world with ⟨started, begun⟩
    rcases hbegun' : (Tree.wait duration variance).start state' world' with ⟨started', begun'⟩
    rw [hbegun, hbegun'] at hstart
    obtain ⟨rfl, hstate, hlinked⟩ := of_beside_same hstart
    dsimp only
    rw [hlinked.now_eq]
    split
    · exact ⟨rfl, beside_same hstate hlinked⟩
    · split
      · exact ⟨rfl, beside_same hstate hlinked⟩
      · exact ⟨rfl, beside_same (by simp) hlinked⟩
  stop {state state' world world' more} h := by
    obtain ⟨rfl, -, hlinked⟩ := of_beside_same h
    rw [Tree.stop]
    exact ⟨0, ⟨⟨rfl, by simp, rfl⟩, rfl, rfl⟩, (zero_add more).symm ▸ hlinked⟩

end Likeness

end Tree

end BehaviorTree
