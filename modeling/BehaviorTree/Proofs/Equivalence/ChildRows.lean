import BehaviorTree.Proofs.Equivalence.Likeness

namespace BehaviorTree.Tree

variable {A : Type} {bond : Bond} {goOn : Outcome}
variable {tree other : Tree A} {trees others : List (Tree A)}

namespace Resemblance

variable {resemblance : Resemblance bond tree other} {links more : Multiset Link}
variable {here : tree.State × World A} {there : other.State × World A}

/-- How two children go together whose turn is over. A selector may ask them again. -/
def Behind (resemblance : Resemblance bond tree other) (goOn : Outcome) : Tie tree.State other.State :=
  if goOn = .fail then resemblance.Idle else Slumber tree.rest other.rest

theorem Idle.behind (goOn : Outcome) (h : Beside bond resemblance.Idle more here there) :
    Beside bond (resemblance.Behind goOn) more here there := by
  rw [Behind]
  split
  · exact h
  · exact Idle.slumber h

theorem Behind.slumber (h : Beside bond (resemblance.Behind goOn) more here there) :
    Beside bond (Slumber tree.rest other.rest) more here there := by
  rw [Behind] at h
  split at h
  · exact Idle.slumber h
  · exact h

theorem Behind.timer_not_mem {state : tree.State} {state' : other.State}
    (h : resemblance.Behind goOn state state' links) (a b : Option TimerId) :
    .timer a b ∉ links := by
  rw [Behind] at h
  split at h
  · exact resemblance.calm h.1 h.2.1 a b
  · exact h.timer_not_mem a b

end Resemblance

structure TurnedRow (bond : Bond) (At : Nat → Nat → Tie (StateList trees) (StateList others))
    (more : Multiset Link) (here : Outcome × Nat × StateList trees × World A)
    (there : Outcome × Nat × StateList others × World A) : Prop where
  outcome_eq : here.1 = there.1
  running : here.1 = .running → Beside bond (At here.2.1 there.2.1) more here.2.2 there.2.2
  ended : here.1 ≠ .running →
    Beside bond (Slumber (restList trees) (restList others)) more here.2.2 there.2.2

/-- The children of the one composite do together what those of the other do. -/
structure Row (bond : Bond) (goOn : Outcome) (trees others : List (Tree A)) where
  At : Nat → Nat → Tie (StateList trees) (StateList others)
  length_eq (states : StateList trees) (states' : StateList others) :
    (leavesList trees states).length = (leavesList others states').length
  fresh_eq (random : Random) :
    leavesList trees (freshList trees random).1 = leavesList others (freshList others random).1 ∧
      (freshList trees random).2 = (freshList others random).2
  begin {states : StateList trees} {states' : StateList others} {links : Multiset Link} :
    Slumber (restList trees) (restList others) states states' links → At 0 0 states states' links
  turn {i j : Nat} {states : StateList trees} {states' : StateList others} {world world' : World A}
    {more : Multiset Link} :
    Beside bond (At i j) more (states, world) (states', world') → FitAt trees i states →
      bond.Allows (tickFrom goOn trees i states world).2.2.2 →
        TurnedRow bond At more (tickFrom goOn trees i states world)
          (tickFrom goOn others j states' world')
  stop {i j : Nat} {states : StateList trees} {states' : StateList others} {world world' : World A}
    {more : Multiset Link} :
    Beside bond (At i j) more (states, world) (states', world') →
      Beside bond (Slumber (restList trees) (restList others)) more (stopAt trees i states world)
        (stopAt others j states' world')
  fire {i j : Nat} {states : StateList trees} {states' : StateList others} {links more : Multiset Link}
    {a b : Option TimerId} :
    At i j states states' links → .timer a b ∈ links →
      World.Linked.Answers bond (links + more) (fireAt trees i states) (fireAt others j states') a b

/-- A row of the children of two selectors. -/
structure RankedRow (bond : Bond) (trees others : List (Tree A)) extends Row bond .fail trees others where
  current_eq {i j : Nat} {states : StateList trees} {states' : StateList others}
    {links : Multiset Link} : At i j states states' links → i = j
  ask {i j : Nat} {states : StateList trees} {states' : StateList others} {world world' : World A}
    {links more : Multiset Link} :
    At i j states states' links → World.Linked bond (links + more) world world' →
      (firstPreempting trees i states world).1 = (firstPreempting others j states' world').1 ∧
        World.Linked bond (links + more) (firstPreempting trees i states world).2
          (firstPreempting others j states' world').2
  takeOver {winner i j : Nat} {states : StateList trees} {states' : StateList others}
    {world world' : World A} {more : Multiset Link} :
    winner ≤ i → Beside bond (At i j) more (states, world) (states', world') →
      Beside bond (At winner winner) more (stopAt trees i states world)
        (stopAt others j states' world')

namespace Row

def nil (bond : Bond) (hgo : goOn ≠ .running) : Row (A := A) bond goOn [] [] where
  At i j _ _ links := i = j ∧ links = 0
  length_eq _ _ := rfl
  fresh_eq _ := ⟨rfl, rfl⟩
  begin h := ⟨rfl, h.links_eq⟩
  turn h _ _ := ⟨rfl, fun hrun => absurd hrun hgo, fun _ => h.mono fun _ hnone =>
    ⟨trivial, trivial, rfl, hnone.2⟩⟩
  stop h := h.mono fun _ hnone => ⟨trivial, trivial, rfl, hnone.2⟩
  fire h hmem := absurd (h.2 ▸ hmem) (Multiset.notMem_zero _)

section Cons

variable (child : Substitute bond tree other) (row : Row bond goOn trees others)

def ConsAt : Nat → Nat → Tie (StateList (tree :: trees)) (StateList (other :: others))
  | 0, 0 => Both child.Near (Slumber (restList trees) (restList others))
  | i + 1, j + 1 => Both (child.Behind goOn) (row.At i j)
  | _, _ => fun _ _ _ => False

variable {child row}
variable {i j : Nat} {state : tree.State} {state' : other.State} {states : StateList trees}
variable {states' : StateList others} {world world' : World A} {links more : Multiset Link}

theorem cons_asleep (child : Substitute bond tree other)
    (h : Beside bond (Both (Slumber tree.rest other.rest) (Slumber (restList trees) (restList others)))
      more ((state, states), world) ((state', states'), world')) :
    Beside bond (Slumber (restList (tree :: trees)) (restList (other :: others))) more
      ((state, states), world) ((state', states'), world') :=
  h.mono fun _ => (Slumber.prod_iff child.length_eq).mpr

theorem cons_turn (hgo : goOn ≠ .running)
    (h : Beside bond (Both child.Near (Slumber (restList trees) (restList others))) more
      ((state, states), world) ((state', states'), world'))
    (hfit : tree.Fit state ∧ QuietList trees states)
    (hover : bond.Allows (tickFrom goOn (tree :: trees) 0 (state, states) world).2.2.2) :
    TurnedRow bond (ConsAt child row) more (tickFrom goOn (tree :: trees) 0 (state, states) world)
      (tickFrom goOn (other :: others) 0 (state', states') world') := by
  obtain ⟨resting, hrest, hnear⟩ := h.first
  have hquiet := QuietList.fitAt trees 0 states hfit.2
  rcases hturn : tree.turn state world with ⟨outcome, turned, after⟩
  rcases hturn' : other.turn state' world' with ⟨outcome', turned', after'⟩
  have hturned (hfine : bond.Allows after) :
      child.Turned (resting + more) (outcome, turned, after) (outcome', turned', after') := by
    have h := child.turn hnear
    rw [hturn, hturn'] at h
    exact h hfine
  rw [tickFrom_turn goOn tree trees state states world hturn] at hover ⊢
  rw [tickFrom_turn goOn other others state' states' world' hturn']
  by_cases hrun : outcome = .running
  · rw [if_pos hrun] at hover ⊢
    have hboth := hturned hover
    obtain rfl : outcome = outcome' := hboth.outcome_eq
    rw [if_pos hrun]
    exact ⟨rfl, fun _ => .of_first hrest ((hboth.running hrun).mono fun _ => .inl),
      fun hended => absurd rfl hended⟩
  · rw [if_neg hrun] at hover ⊢
    by_cases hnext : outcome = goOn
    · rw [if_pos hnext] at hover ⊢
      have hboth := hturned ((tickFrom_follows hgo trees 0 states after hquiet).allows hover)
      obtain rfl : outcome = outcome' := hboth.outcome_eq
      rw [if_neg hrun, if_pos hnext]
      obtain ⟨first, hbehind, hslumber⟩ :=
        (Beside.of_first hrest (Resemblance.Idle.behind goOn (hboth.ended hrun))).second
      have hticked := row.turn (hslumber.mono fun _ => row.begin) hquiet hover
      refine ⟨hticked.outcome_eq, fun hr => .of_second hbehind (hticked.running hr), fun hr => ?_⟩
      obtain ⟨second, hasleep, hfirst⟩ := (Beside.of_second hbehind (hticked.ended hr)).first
      exact cons_asleep child (.of_first hasleep (Resemblance.Behind.slumber hfirst))
    · rw [if_neg hnext] at hover ⊢
      have hboth := hturned hover
      obtain rfl : outcome = outcome' := hboth.outcome_eq
      rw [if_neg hrun, if_neg hnext]
      exact ⟨rfl, fun hr => absurd hr hrun, fun _ => cons_asleep child
        (.of_first hrest (Resemblance.Idle.slumber (hboth.ended hrun)))⟩

theorem cons_later
    (h : Beside bond (Both (child.Behind goOn) (row.At i j)) more ((state, states), world)
      ((state', states'), world'))
    (hfit : FitAt trees i states)
    (hover : bond.Allows (tickFrom goOn trees i states world).2.2.2) :
    TurnedRow bond (ConsAt child row) more
      (tickFrom goOn (tree :: trees) (i + 1) (state, states) world)
      (tickFrom goOn (other :: others) (j + 1) (state', states') world') := by
  obtain ⟨first, hbehind, hrow⟩ := h.second
  have hticked := row.turn hrow hfit hover
  rw [tickFrom, tickFrom]
  refine ⟨hticked.outcome_eq, fun hr => .of_second hbehind (hticked.running hr), fun hr => ?_⟩
  obtain ⟨second, hasleep, hfirst⟩ := (Beside.of_second hbehind (hticked.ended hr)).first
  exact cons_asleep child (.of_first hasleep (Resemblance.Behind.slumber hfirst))

theorem cons_stop {states : StateList (tree :: trees)} {states' : StateList (other :: others)}
    (h : Beside bond (ConsAt child row i j) more (states, world) (states', world')) :
    Beside bond (Slumber (restList (tree :: trees)) (restList (other :: others))) more
      (stopAt (tree :: trees) i states world) (stopAt (other :: others) j states' world') := by
  obtain ⟨state, states⟩ := states
  obtain ⟨state', states'⟩ := states'
  match i, j, h with
  | 0, 0, h =>
    obtain ⟨resting, hrest, hnear⟩ := Beside.first h
    rw [stopAt, stopAt]
    exact cons_asleep child (.of_first hrest (child.stop_near hnear))
  | i + 1, j + 1, h =>
    obtain ⟨first, hbehind, hrow⟩ := Beside.second h
    obtain ⟨second, hasleep, hfirst⟩ := (Beside.of_second hbehind (row.stop hrow)).first
    rw [stopAt, stopAt]
    exact cons_asleep child (.of_first hasleep (Resemblance.Behind.slumber hfirst))
  | 0, _ + 1, h => exact absurd h (fun ⟨_, h, _⟩ => h)
  | _ + 1, 0, h => exact absurd h (fun ⟨_, h, _⟩ => h)

theorem cons_fire {states : StateList (tree :: trees)} {states' : StateList (other :: others)}
    {a b : Option TimerId} (h : ConsAt child row i j states states' links) (hmem : .timer a b ∈ links) :
    World.Linked.Answers bond (links + more) (fireAt (tree :: trees) i states)
      (fireAt (other :: others) j states') a b := by
  obtain ⟨state, states⟩ := states
  obtain ⟨state', states'⟩ := states'
  match i, j, h with
  | 0, 0, h =>
    obtain ⟨first, second, rfl, hnear, hasleep⟩ := h
    have hfirst := (Multiset.mem_add.mp hmem).resolve_right (hasleep.timer_not_mem_list a b)
    rw [add_assoc]
    exact hnear.fire hfirst
  | i + 1, j + 1, h =>
    obtain ⟨first, second, rfl, hbehind, hrow⟩ := h
    have hsecond := (Multiset.mem_add.mp hmem).resolve_left (hbehind.timer_not_mem a b)
    rw [add_comm first, add_assoc]
    exact row.fire hrow hsecond

theorem cons_fresh (child : Substitute bond tree other) (row : Row bond goOn trees others)
    (random : Random) :
    leavesList (tree :: trees) (freshList (tree :: trees) random).1 =
        leavesList (other :: others) (freshList (other :: others) random).1 ∧
      (freshList (tree :: trees) random).2 = (freshList (other :: others) random).2 := by
  obtain ⟨hfirst, hrandom⟩ := child.fresh_eq random
  obtain ⟨hrest, hafter⟩ := row.fresh_eq (other.fresh random).2
  simp only [freshList, leavesList]
  rw [hrandom, hfirst]
  exact ⟨congrArg (_ ++ ·) hrest, hafter⟩

variable (child row)

def cons (hgo : goOn ≠ .running) : Row bond goOn (tree :: trees) (other :: others) where
  At := ConsAt child row
  length_eq states states' := by
    simp only [leavesList, List.length_append, child.length_eq states.1 states'.1,
      row.length_eq states.2 states'.2]
  fresh_eq := cons_fresh child row
  begin {states states' links} h := by
    rw [restList_cons, restList_cons] at h
    obtain ⟨first, second, rfl, hfirst, hsecond⟩ := (Slumber.prod_iff child.length_eq).mp h
    exact ⟨first, second, rfl, .inr hfirst, hsecond⟩
  turn {i j states states' world world' more} h hfit hover := by
    match i, j, h, hfit, hover with
    | 0, 0, h, hfit, hover => exact cons_turn hgo h hfit hover
    | i + 1, j + 1, h, hfit, hover => exact cons_later h hfit.2 hover
    | 0, _ + 1, h, _, _ => exact absurd h (fun ⟨_, h, _⟩ => h)
    | _ + 1, 0, h, _, _ => exact absurd h (fun ⟨_, h, _⟩ => h)
  stop := cons_stop
  fire := cons_fire

end Cons

end Row

namespace RankedRow

def nil (bond : Bond) : RankedRow (A := A) bond [] [] where
  toRow := Row.nil bond (by simp)
  current_eq h := h.1
  ask _ h := ⟨rfl, h⟩
  takeOver _ h := h.mono fun _ hnone => ⟨rfl, hnone.2⟩

section Cons

variable (child : Substitute bond tree other) (row : RankedRow bond trees others)
variable {winner i j : Nat} {states : StateList (tree :: trees)} {states' : StateList (other :: others)}
variable {world world' : World A} {links more : Multiset Link}

theorem cons_current (h : Row.ConsAt child row.toRow i j states states' links) : i = j :=
  match i, j, h with
  | 0, 0, _ => rfl
  | _ + 1, _ + 1, ⟨_, _, _, _, hrow⟩ => congrArg Nat.succ (row.current_eq hrow)

theorem cons_ask (h : Row.ConsAt child row.toRow i j states states' links)
    (hlinked : World.Linked bond (links + more) world world') :
    (firstPreempting (tree :: trees) i states world).1 =
        (firstPreempting (other :: others) j states' world').1 ∧
      World.Linked bond (links + more) (firstPreempting (tree :: trees) i states world).2
        (firstPreempting (other :: others) j states' world').2 := by
  obtain ⟨state, states⟩ := states
  obtain ⟨state', states'⟩ := states'
  match i, j, h with
  | 0, 0, _ => exact ⟨rfl, hlinked⟩
  | i + 1, j + 1, ⟨first, second, hsum, hbehind, hrow⟩ =>
    have hidle : child.Idle state state' first := hbehind
    subst hsum
    rw [add_assoc] at hlinked ⊢
    have hasked := child.preempts hidle.2.1 hidle.2.2 hidle.1 hlinked
    rw [firstPreempting, firstPreempting]
    rcases hfirst : tree.preempts state world with ⟨preemption, asked⟩
    rcases hfirst' : other.preempts state' world' with ⟨preemption', asked'⟩
    rw [hfirst, hfirst'] at hasked
    obtain ⟨rfl, hasked⟩ := hasked
    cases preemption with
    | some preemption => exact ⟨rfl, hasked⟩
    | none =>
      rw [add_left_comm] at hasked ⊢
      obtain ⟨hfound, hlast⟩ := row.ask hrow hasked
      exact ⟨congrArg (Option.map _) hfound, hlast⟩

theorem cons_takeOver (hwinner : winner ≤ i)
    (h : Beside bond (Row.ConsAt child row.toRow i j) more (states, world) (states', world')) :
    Beside bond (Row.ConsAt child row.toRow winner winner) more
      (stopAt (tree :: trees) i states world) (stopAt (other :: others) j states' world') := by
  match winner, i, j, h, hwinner with
  | 0, i, j, h, _ =>
    have hasleep := Row.cons_stop h
    refine hasleep.mono fun links hslumber => ?_
    exact (Row.cons child row.toRow (by simp)).begin hslumber
  | winner + 1, i + 1, j + 1, h, hwinner =>
    obtain ⟨state, states⟩ := states
    obtain ⟨state', states'⟩ := states'
    obtain ⟨first, hbehind, hrow⟩ := Beside.second h
    rw [stopAt, stopAt]
    exact .of_second hbehind (row.takeOver (Nat.le_of_succ_le_succ hwinner) hrow)
  | _ + 1, _ + 1, 0, h, _ => exact absurd h (fun ⟨_, h, _⟩ => h)

def cons : RankedRow bond (tree :: trees) (other :: others) where
  toRow := Row.cons child row.toRow (by simp)
  current_eq := cons_current child row
  ask := cons_ask child row
  takeOver := cons_takeOver child row

end Cons

end RankedRow

end BehaviorTree.Tree
