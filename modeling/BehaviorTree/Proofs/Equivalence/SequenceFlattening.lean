import BehaviorTree.Proofs.Equivalence.Rewriting
import BehaviorTree.Proofs.Equivalence.Roots

namespace BehaviorTree

variable {A : Type} {bond : Bond} {goOn : Outcome}

namespace Tree

section Join

variable (trees more : List (Tree A))

/-- The states of trees in front of those of others. -/
def joinStates : (trees : List (Tree A)) → (more : List (Tree A)) → StateList trees → StateList more →
    StateList (trees ++ more)
  | [], _, _, back => back
  | _ :: trees, more, (state, front), back => (state, joinStates trees more front back)

theorem exists_joinStates (states : StateList (trees ++ more)) :
    ∃ front back, states = joinStates trees more front back := by
  induction trees with
  | nil => exact ⟨(), states, rfl⟩
  | cons tree trees ih =>
    obtain ⟨state, states⟩ := states
    obtain ⟨front, back, rfl⟩ := ih states
    exact ⟨(state, front), back, rfl⟩

variable (front : StateList trees) (back : StateList more) (i : Nat) (world : World A)

theorem quietList_join : QuietList (trees ++ more) (joinStates trees more front back) ↔
    QuietList trees front ∧ QuietList more back := by
  induction trees with
  | nil => exact (iff_of_eq (true_and _)).symm
  | cons tree trees ih =>
    obtain ⟨state, front⟩ := front
    exact (and_congr_right fun _ => ih front).trans and_assoc.symm

theorem leavesList_join : leavesList (trees ++ more) (joinStates trees more front back) =
    leavesList trees front ++ leavesList more back := by
  induction trees with
  | nil => rfl
  | cons tree trees ih =>
    obtain ⟨state, front⟩ := front
    exact (congrArg (_ ++ ·) (ih front)).trans (List.append_assoc _ _ _).symm

theorem looseList_join : looseList (trees ++ more) (joinStates trees more front back) =
    looseList trees front + looseList more back := by
  induction trees with
  | nil => exact (zero_add _).symm
  | cons tree trees ih =>
    obtain ⟨state, front⟩ := front
    exact (congrArg (_ + ·) (ih front)).trans (add_assoc _ _ _).symm

theorem freshList_join (random : Random) :
    freshList (trees ++ more) random =
      (joinStates trees more (freshList trees random).1 (freshList more (freshList trees random).2).1,
        (freshList more (freshList trees random).2).2) := by
  induction trees generalizing random with
  | nil => rfl
  | cons tree trees ih =>
    show (((tree.fresh random).1, (freshList (trees ++ more) (tree.fresh random).2).1),
      (freshList (trees ++ more) (tree.fresh random).2).2) = _
    rw [ih]
    rfl

theorem stopAt_join (hlt : i < trees.length) :
    stopAt (trees ++ more) i (joinStates trees more front back) world =
      (joinStates trees more (stopAt trees i front world).1 back, (stopAt trees i front world).2) := by
  induction trees generalizing i with
  | nil => exact absurd hlt (Nat.not_lt_zero i)
  | cons tree trees ih =>
    obtain ⟨state, front⟩ := front
    cases i with
    | zero => rfl
    | succ i =>
      have hrest := ih front i (Nat.lt_of_succ_lt_succ hlt)
      simp only [List.cons_append, joinStates, stopAt, hrest]

theorem stopAt_join_back :
    stopAt (trees ++ more) (trees.length + i) (joinStates trees more front back) world =
      (joinStates trees more front (stopAt more i back world).1, (stopAt more i back world).2) := by
  induction trees with
  | nil =>
    rw [List.length_nil, Nat.zero_add]
    rfl
  | cons tree trees ih =>
    obtain ⟨state, front⟩ := front
    rw [List.length_cons, Nat.add_right_comm]
    simp only [List.cons_append, joinStates, stopAt, ih front]

theorem fireAt_join (hlt : i < trees.length) :
    fireAt (trees ++ more) i (joinStates trees more front back) = fireAt trees i front := by
  induction trees generalizing i with
  | nil => exact absurd hlt (Nat.not_lt_zero i)
  | cons tree trees ih =>
    obtain ⟨state, front⟩ := front
    cases i with
    | zero => rfl
    | succ i => exact ih front i (Nat.lt_of_succ_lt_succ hlt)

theorem fireAt_join_back :
    fireAt (trees ++ more) (trees.length + i) (joinStates trees more front back) =
      fireAt more i back := by
  induction trees with
  | nil =>
    rw [List.length_nil, Nat.zero_add]
    rfl
  | cons tree trees ih =>
    obtain ⟨state, front⟩ := front
    rw [List.length_cons, Nat.add_right_comm]
    exact ih front

theorem tickFrom_lt (hgo : goOn ≠ .running) (states : StateList trees)
    (hrun : (tickFrom goOn trees i states world).1 = .running) :
    (tickFrom goOn trees i states world).2.1 < trees.length := by
  induction trees generalizing i world with
  | nil => exact absurd hrun hgo
  | cons tree trees ih =>
    obtain ⟨state, states⟩ := states
    cases i with
    | zero =>
      rcases hturn : tree.turn state world with ⟨outcome, turned, after⟩
      rw [tickFrom_turn goOn tree trees state states world hturn] at hrun ⊢
      by_cases hgoing : outcome = .running
      · rw [if_pos hgoing]
        exact Nat.succ_pos _
      · rw [if_neg hgoing] at hrun ⊢
        by_cases hnext : outcome = goOn
        · rw [if_pos hnext] at hrun ⊢
          exact Nat.succ_lt_succ (ih _ _ states hrun)
        · rw [if_neg hnext] at hrun
          exact absurd hrun hgoing
    | succ i => exact Nat.succ_lt_succ (ih i world states hrun)

theorem tickFrom_join (hgo : goOn ≠ .running) (hle : i ≤ trees.length) {outcome : Outcome}
    {current : Nat} {ticked : StateList trees} {after : World A}
    (htick : tickFrom goOn trees i front world = (outcome, current, ticked, after)) :
    tickFrom goOn (trees ++ more) i (joinStates trees more front back) world =
      if outcome = goOn then
        ((tickFrom goOn more 0 back after).1, trees.length + (tickFrom goOn more 0 back after).2.1,
          joinStates trees more ticked (tickFrom goOn more 0 back after).2.2.1,
          (tickFrom goOn more 0 back after).2.2.2)
      else (outcome, current, joinStates trees more ticked back, after) := by
  induction trees generalizing i world outcome current after with
  | nil =>
    cases htick
    obtain rfl : i = 0 := Nat.le_zero.mp hle
    rw [if_pos rfl, List.length_nil, Nat.zero_add]
    rfl
  | cons tree trees ih =>
    obtain ⟨state, front⟩ := front
    cases i with
    | zero =>
      rcases hturn : tree.turn state world with ⟨first, turned, middle⟩
      rcases hrest : tickFrom goOn trees 0 front middle with ⟨last, next, rest, done⟩
      have hih := ih front 0 middle (Nat.zero_le _) hrest
      rw [tickFrom_turn goOn tree trees state front world hturn, hrest] at htick
      show tickFrom goOn (tree :: (trees ++ more)) 0 (state, joinStates trees more front back) world = _
      rw [tickFrom_turn goOn tree (trees ++ more) state _ world hturn, hih]
      by_cases hrun : first = .running
      · rw [if_pos hrun] at htick ⊢
        cases htick
        rw [if_neg hgo.symm]
        rfl
      · rw [if_neg hrun] at htick ⊢
        by_cases hnext : first = goOn
        · rw [if_pos hnext] at htick ⊢
          cases htick
          split
          · rw [List.length_cons, Nat.add_right_comm]
            rfl
          · rfl
        · rw [if_neg hnext] at htick ⊢
          cases htick
          rw [if_neg hnext]
          rfl
    | succ i =>
      rcases hrest : tickFrom goOn trees i front world with ⟨last, next, rest, done⟩
      have hih := ih front i world (Nat.le_of_succ_le_succ hle) hrest
      rw [tickFrom, hrest] at htick
      cases htick
      show tickFrom goOn (tree :: (trees ++ more)) (i + 1) (state, joinStates trees more front back)
        world = _
      rw [tickFrom, hih]
      by_cases hlast : outcome = goOn
      · rw [if_pos hlast, if_pos hlast, List.length_cons, Nat.add_right_comm]
        rfl
      · rw [if_neg hlast, if_neg hlast]
        rfl

theorem tickFrom_join_back :
    tickFrom goOn (trees ++ more) (trees.length + i) (joinStates trees more front back) world =
      ((tickFrom goOn more i back world).1, trees.length + (tickFrom goOn more i back world).2.1,
        joinStates trees more front (tickFrom goOn more i back world).2.2.1,
        (tickFrom goOn more i back world).2.2.2) := by
  induction trees with
  | nil =>
    rw [List.length_nil, Nat.zero_add, Nat.zero_add]
    rfl
  | cons tree trees ih =>
    obtain ⟨state, front⟩ := front
    rw [List.length_cons, Nat.add_right_comm _ 1 i,
      Nat.add_right_comm _ 1 (tickFrom goOn more i back world).2.1]
    show tickFrom goOn (tree :: (trees ++ more)) (trees.length + i + 1)
      (state, joinStates trees more front back) world = _
    rw [tickFrom, ih front]
    rfl

end Join

theorem slumber_join {S : Type} {rest : Rest S} {trees more : List (Tree A)} {state : S}
    {front : StateList trees} {back : StateList more} {links : Multiset Link} :
    Slumber rest (restList (trees ++ more)) state (joinStates trees more front back) links ↔
      Slumber rest ((restList trees).prod (restList more)) state (front, back) links := by
  have hleaves := leavesList_join trees more front back
  have hloose := looseList_join trees more front back
  constructor
  · intro h
    exact ⟨h.left, (quietList_join _ _ _ _).mp h.right, h.leaves_eq.trans hleaves,
      h.links_eq.trans (congrArg (_ + Link.swaps ·) hloose)⟩
  · intro h
    exact ⟨h.left, (quietList_join _ _ _ _).mpr h.right, h.leaves_eq.trans hleaves.symm,
      h.links_eq.trans (congrArg (_ + Link.swaps ·) hloose.symm)⟩

theorem slumber_sequence {S : Type} {rest : Rest S} {trees : List (Tree A)}
    {state : (Tree.sequence trees).State} {state' : S} {links : Multiset Link} :
    Slumber (Tree.sequence trees).rest rest state state' links ↔
      state.status = .inactive ∧ Slumber (restList trees) rest state.children state' links :=
  ⟨fun h => ⟨h.left.1, h.left.2, h.right, h.leaves_eq, h.links_eq⟩,
    fun h => ⟨⟨h.1, h.2.left⟩, h.2.right, h.2.leaves_eq, h.2.links_eq⟩⟩

/-- A sequence that ends releases its children, and is stopped then. -/
theorem sequence_turn (trees : List (Tree A)) (state : (Tree.sequence trees).State) (world : World A)
    (hrun : state.begin.status = .running) {outcome : Outcome} {current : Nat}
    {ticked : StateList trees} {after : World A}
    (htick : tickFrom .success trees state.begin.current state.begin.children world =
      (outcome, current, ticked, after)) :
    (Tree.sequence trees).turn state world =
      if outcome = .running then (.running, ⟨.running, current, ticked⟩, after)
      else
        (outcome,
          ⟨.inactive, current, (stopAt trees current (releaseList trees ticked after).1
            (releaseList trees ticked after).2).1⟩,
          (stopAt trees current (releaseList trees ticked after).1
            (releaseList trees ticked after).2).2) := by
  have hnone : state.begin.status.outcome? = none := by rw [hrun]; rfl
  have hticked : (Tree.sequence trees).tick state world = settle trees outcome current ticked after := by
    rw [tick_sequence, hnone]
    dsimp only
    rw [tickRest, htick]
  rw [settle] at hticked
  by_cases hended : outcome = .running
  · rw [if_pos hended] at hticked
    rw [turn_eq _ state world hticked, if_pos hended, if_pos hended, hended]
    rfl
  · rw [if_neg hended] at hticked
    rw [turn_eq _ state world hticked, if_neg hended, if_neg hended, stop,
      if_neg (Outcome.status_ne_inactive outcome)]

theorem released_stirs (trees : List (Tree A)) (current : Nat) (states : StateList trees)
    (world : World A) (h : QuietList trees states) :
    Stirs bond (restList trees) (states, world)
      (stopAt trees current (releaseList trees states world).1 (releaseList trees states world).2) :=
  have hreleased := (releaseList_stirs trees states world h).1
  hreleased.trans (stopAt_stirs trees current _ _ hreleased.quiet)

namespace Row

section Flatten

variable {ys ys' zs zs' : List (Tree A)}
variable (inner : Row bond .success ys ys') (outer : Row bond .success zs zs')

/-- The turn is within the inner sequence, at its start, or past it. -/
inductive FlattenAt : Nat → Nat → StateList (.sequence ys :: zs) → StateList (ys' ++ zs') →
    Multiset Link → Prop
  | within {current j : Nat} {children : StateList ys} {states : StateList zs} {front : StateList ys'}
    {back : StateList zs'} {first second : Multiset Link} (hlt : j < ys'.length)
    (hat : inner.At current j children front first)
    (hback : Slumber (restList zs) (restList zs') states back second) :
    FlattenAt 0 j (⟨.running, current, children⟩, states) (joinStates ys' zs' front back)
      (first + second)
  | asleep {state : (Tree.sequence ys).State} {states : StateList zs} {front : StateList ys'}
    {back : StateList zs'} {first second : Multiset Link}
    (hfront : Slumber (Tree.sequence ys).rest (restList ys') state front first)
    (hback : Slumber (restList zs) (restList zs') states back second) :
    FlattenAt 0 0 (state, states) (joinStates ys' zs' front back) (first + second)
  | past {i j : Nat} {state : (Tree.sequence ys).State} {states : StateList zs} {front : StateList ys'}
    {back : StateList zs'} {first second : Multiset Link}
    (hfront : Slumber (Tree.sequence ys).rest (restList ys') state front first)
    (hat : outer.At i j states back second) :
    FlattenAt (i + 1) (ys'.length + j) (state, states) (joinStates ys' zs' front back)
      (first + second)

variable {inner outer}
variable {i j : Nat} {state : (Tree.sequence ys).State} {states : StateList zs} {front : StateList ys'}
variable {back : StateList zs'} {world world' : World A} {second more : Multiset Link}

theorem flatten_length (inner : Row bond .success ys ys') (state : (Tree.sequence ys).State)
    (front : StateList ys') :
    ((Tree.sequence ys).rest.leaves state).length = ((restList ys').leaves front).length :=
  inner.length_eq state.children front

theorem flatten_asleep (inner : Row bond .success ys ys')
    (h : Beside bond (Both (Slumber (Tree.sequence ys).rest (restList ys'))
      (Slumber (restList zs) (restList zs'))) more ((state, states), world) ((front, back), world')) :
    Beside bond (Slumber (restList (.sequence ys :: zs)) (restList (ys' ++ zs'))) more
      ((state, states), world) (joinStates ys' zs' front back, world') := by
  obtain ⟨links, hboth, hlinked⟩ := h
  refine ⟨links, slumber_join.mpr ?_, hlinked⟩
  rw [restList_cons]
  exact (Slumber.prod_iff (flatten_length inner)).mpr hboth

theorem flatten_later (inner : Row bond .success ys ys')
    (hfront : Slumber (Tree.sequence ys).rest (restList ys') state front first)
    (h : Beside bond (outer.At i j) (first + more) (states, world) (back, world'))
    (hfit : FitAt zs i states)
    (hover : bond.Allows (tickFrom .success zs i states world).2.2.2) :
    TurnedRow bond (FlattenAt inner outer) more
      (tickFrom .success (.sequence ys :: zs) (i + 1) (state, states) world)
      (tickFrom .success (ys' ++ zs') (ys'.length + j) (joinStates ys' zs' front back) world') := by
  have hturned := outer.turn h hfit hover
  rw [tickFrom, tickFrom_join_back]
  refine ⟨hturned.outcome_eq, fun hrun => ?_, fun hended => ?_⟩
  · obtain ⟨_, ⟨_, _, rfl, hfront, hat⟩, hlinked⟩ := Beside.of_second hfront (hturned.running hrun)
    exact ⟨_, .past hfront hat, hlinked⟩
  · exact flatten_asleep inner (.of_second hfront (hturned.ended hended))

theorem flatten_turn (hrun : state.begin.status = .running) (hle : j ≤ ys'.length)
    (hat : Beside bond (inner.At state.begin.current j) (second + more)
      (state.begin.children, world) (front, world'))
    (hback : Slumber (restList zs) (restList zs') states back second)
    (hfit : (Tree.sequence ys).Fit state ∧ QuietList zs states)
    (hover : bond.Allows (tickFrom .success (.sequence ys :: zs) 0 (state, states)
      world).2.2.2) :
    TurnedRow bond (FlattenAt inner outer) more
      (tickFrom .success (.sequence ys :: zs) 0 (state, states) world)
      (tickFrom .success (ys' ++ zs') j (joinStates ys' zs' front back) world') := by
  have hquiet := QuietList.fitAt zs 0 states hfit.2
  have hgo : Outcome.success ≠ .running := by simp
  have hcurrent := ((fit_sequence ys state).mp hfit.1).begin.current hrun
  have hlt' := tickFrom_lt ys' j world' hgo front
  rcases htick : tickFrom .success ys state.begin.current state.begin.children world with
    ⟨outcome, current, ticked, after⟩
  rcases htick' : tickFrom .success ys' j front world' with ⟨outcome', current', ticked', after'⟩
  have hturned (hfine : bond.Allows after) :
      TurnedRow bond inner.At (second + more) (outcome, current, ticked, after)
        (outcome', current', ticked', after') := by
    have h := inner.turn hat hcurrent
    rw [htick, htick'] at h
    exact h hfine
  have hrest := tickFrom_fit .success hgo ys state.begin.current state.begin.children world hcurrent
  rw [htick'] at hlt'
  rw [htick] at hrest
  have hturn := sequence_turn ys state world hrun htick
  rw [tickFrom_join ys' zs' front back j world' hgo hle htick']
  by_cases hgoing : outcome = .running
  · rw [if_pos hgoing] at hturn
    rw [tickFrom_turn .success _ zs state states world hturn, if_pos rfl] at hover ⊢
    have hboth := hturned hover
    obtain rfl : outcome = outcome' := hboth.outcome_eq
    rw [if_neg (hgoing.trans_ne hgo.symm)]
    refine ⟨hgoing.symm, fun _ => ?_, fun hended => absurd rfl hended⟩
    obtain ⟨first, hat, hlinked⟩ := hboth.running hgoing
    rw [← add_assoc] at hlinked
    exact ⟨_, .within (hlt' hgoing) hat hback, hlinked⟩
  · rw [if_neg hgoing] at hturn
    have hstirs : Stirs bond (restList ys) (ticked, after) _ :=
      released_stirs ys current ticked after (hrest.ended hgoing)
    have hfollows : after.Follows (stopAt ys current (releaseList ys ticked after).1
        (releaseList ys ticked after).2).2 := by
      have hreleased := releaseList_quiet ys ticked after (hrest.ended hgoing)
      exact hreleased.2.2.trades.follows.trans
        (stopAt_quiet ys current _ _ (QuietList.fitAt ys current _ hreleased.1)).2.trades.follows
    have hasleep (hfine : bond.Allows (stopAt ys current (releaseList ys ticked after).1
          (releaseList ys ticked after).2).2) : outcome = outcome' ∧
        Beside bond (Slumber (Tree.sequence ys).rest (restList ys')) (second + more)
          (⟨.inactive, current, (stopAt ys current (releaseList ys ticked after).1
            (releaseList ys ticked after).2).1⟩, (stopAt ys current (releaseList ys ticked after).1
              (releaseList ys ticked after).2).2) (ticked', after') := by
      have hboth := hturned (hfollows.allows hfine)
      obtain ⟨links, hslumber, hlinked⟩ := Slumber.stirs (hboth.ended hgoing) hstirs
      exact ⟨hboth.outcome_eq, links, slumber_sequence.mpr ⟨rfl, hslumber⟩, hlinked⟩
    rw [tickFrom_turn .success _ zs state states world hturn, if_neg hgoing] at hover ⊢
    by_cases hnext : outcome = .success
    · rw [if_pos hnext] at hover ⊢
      obtain ⟨rfl, hfront⟩ := hasleep ((tickFrom_follows hgo zs 0 states _ hquiet).allows hover)
      rw [if_pos hnext]
      obtain ⟨first, hslumber, hbegun⟩ := (Beside.of_first hback hfront).second
      have hlater := flatten_later inner hslumber (hbegun.mono fun _ => outer.begin) hquiet hover
      rw [tickFrom, tickFrom_join_back] at hlater
      exact hlater
    · rw [if_neg hnext] at hover ⊢
      obtain ⟨rfl, hfront⟩ := hasleep hover
      rw [if_neg hnext]
      exact ⟨rfl, fun hr => absurd hr hgoing, fun _ => flatten_asleep inner (.of_first hback hfront)⟩

theorem flatten_stop {states : StateList (.sequence ys :: zs)} {states' : StateList (ys' ++ zs')}
    (h : Beside bond (FlattenAt inner outer i j) more (states, world) (states', world')) :
    Beside bond (Slumber (restList (.sequence ys :: zs)) (restList (ys' ++ zs'))) more
      (stopAt (.sequence ys :: zs) i states world) (stopAt (ys' ++ zs') j states' world') := by
  obtain ⟨links, hat, hlinked⟩ := h
  dsimp only at hat hlinked
  cases hat with
  | @within current j children states front back first second hlt hat hback =>
    rw [add_assoc] at hlinked
    obtain ⟨links, hslumber, hlinked⟩ := inner.stop ⟨first, hat, hlinked⟩
    rw [stopAt_join ys' zs' front back j world' hlt, stopAt, Tree.stop, if_neg (by simp)]
    exact flatten_asleep inner (.of_first hback ⟨links, slumber_sequence.mpr ⟨rfl, hslumber⟩, hlinked⟩)
  | asleep hfront hback =>
    -- Neither of the two stops anything but what rests.
    have hasleep := flatten_asleep inner ⟨_, ⟨_, _, rfl, hfront, hback⟩, hlinked⟩
    exact Slumber.stirs_right
      (Slumber.stirs hasleep (stopAt_stirs _ 0 _ world (Slumber.left_quiet hasleep)))
      (stopAt_stirs _ 0 _ world' (Slumber.right_quiet hasleep))
  | @past i j state states front back first second hfront hat =>
    rw [add_comm first, add_assoc] at hlinked
    rw [stopAt_join_back ys' zs' front back j world', stopAt]
    exact flatten_asleep inner (.of_second hfront (outer.stop ⟨second, hat, hlinked⟩))

theorem flatten_fire {states : StateList (.sequence ys :: zs)} {states' : StateList (ys' ++ zs')}
    {links : Multiset Link} {a b : Option TimerId} (h : FlattenAt inner outer i j states states' links)
    (hmem : .timer a b ∈ links) :
    World.Linked.Answers bond (links + more) (fireAt (.sequence ys :: zs) i states)
      (fireAt (ys' ++ zs') j states') a b := by
  cases h with
  | @within current j children states front back first second hlt hat hback =>
    have hfirst := (Multiset.mem_add.mp hmem).resolve_right (hback.timer_not_mem_list a b)
    have hfire : fireAt (.sequence ys :: zs) 0 (⟨.running, current, children⟩, states) =
        fireAt ys current children := by
      funext id world
      rw [fireAt, Tree.fire, if_pos rfl]
    rw [hfire, fireAt_join ys' zs' front back j hlt, add_assoc]
    exact inner.fire hat hfirst
  | asleep hfront hback =>
    have hquiet := (slumber_sequence.mp hfront).2
    exact absurd hmem (mt Multiset.mem_add.mp (not_or.mpr
      ⟨hquiet.timer_not_mem_list a b, hback.timer_not_mem_list a b⟩))
  | @past i j state states front back first second hfront hat =>
    have hquiet := (slumber_sequence.mp hfront).2
    have hsecond := (Multiset.mem_add.mp hmem).resolve_left (hquiet.timer_not_mem_list a b)
    rw [fireAt_join_back ys' zs' front back j, add_comm first, add_assoc]
    exact outer.fire hat hsecond

theorem flatten_fresh (inner : Row bond .success ys ys') (outer : Row bond .success zs zs')
    (random : Random) :
    leavesList (.sequence ys :: zs) (freshList (.sequence ys :: zs) random).1 =
        leavesList (ys' ++ zs') (freshList (ys' ++ zs') random).1 ∧
      (freshList (.sequence ys :: zs) random).2 = (freshList (ys' ++ zs') random).2 := by
  obtain ⟨hfront, hbetween⟩ := inner.fresh_eq random
  obtain ⟨hback, hafter⟩ := outer.fresh_eq (freshList ys' random).2
  rw [freshList_join, leavesList_join]
  simp only [freshList, fresh, leavesList, leaves, hfront, hbetween, hback, hafter, and_self]

variable (inner outer)

/-- The children of a sequence may stand among those of the sequence that it is a child of. -/
def flatten : Row bond .success (.sequence ys :: zs) (ys' ++ zs') where
  At := FlattenAt inner outer
  length_eq states states' := by
    obtain ⟨front, back, rfl⟩ := exists_joinStates ys' zs' states'
    rw [leavesList_join, List.length_append, ← outer.length_eq states.2 back,
      ← inner.length_eq states.1.children front]
    exact List.length_append
  fresh_eq := flatten_fresh inner outer
  begin {states states' links} h := by
    obtain ⟨front, back, rfl⟩ := exists_joinStates ys' zs' states'
    have hboth := slumber_join.mp h
    rw [restList_cons] at hboth
    obtain ⟨first, second, rfl, hfront, hback⟩ :=
      (Slumber.prod_iff (flatten_length inner)).mp hboth
    exact .asleep hfront hback
  turn {i j states states' world world' more} h hfit hover := by
    obtain ⟨links, hat, hlinked⟩ := h
    dsimp only at hat hlinked
    cases hat with
    | @within current j children states front back first second hlt hat hback =>
      rw [add_assoc] at hlinked
      exact flatten_turn rfl hlt.le ⟨first, hat, hlinked⟩ hback hfit hover
    | @asleep state states front back first second hfront hback =>
      obtain ⟨hidle, hslumber⟩ := slumber_sequence.mp hfront
      have hbegin : state.begin = ⟨.running, 0, state.children⟩ := if_pos hidle
      rw [add_assoc] at hlinked
      refine flatten_turn (congrArg CompositeState.status hbegin) (Nat.zero_le _) ?_ hback hfit hover
      rw [hbegin]
      exact ⟨first, inner.begin hslumber, hlinked⟩
    | @past i j state states front back first second hfront hat =>
      rw [add_comm first, add_assoc] at hlinked
      exact flatten_later inner hfront ⟨second, hat, hlinked⟩ hfit.2 hover
  stop := flatten_stop
  fire := flatten_fire

end Flatten

end Row

/-- The children of a sequence are put in its place among those of the sequence above. -/
inductive Flattens : Tree A → Tree A → Prop
  | intro (xs ys zs : List (Tree A)) :
    Flattens (.sequence (xs ++ [.sequence ys] ++ zs)) (.sequence (xs ++ ys ++ zs))

variable {tree flat : Tree A}

theorem Flattens.sound (h : Flattens tree flat) (hsound : tree.Sound) :
    flat.Sound ∧ flat.selectorOnlyPolicy = tree.selectorOnlyPolicy := by
  obtain ⟨xs, ys, zs⟩ := h
  rw [sound_sequence, List.forall_mem_append, List.forall_mem_append,
    List.forall_mem_singleton] at hsound
  obtain ⟨⟨hxs, -, hys⟩, hzs⟩ := hsound
  rw [sound_sequence, List.forall_mem_append, List.forall_mem_append]
  exact ⟨⟨⟨hxs, sound_sequence.mp hys⟩, hzs⟩, rfl⟩

theorem exists_flat_row {xs ys zs : List (Tree A)} (hxs : ∀ tree ∈ xs, tree.Sound)
    (hys : ∀ tree ∈ ys, tree.Sound) (hzs : ∀ tree ∈ zs, tree.Sound) :
    Nonempty (Row bond .success (xs ++ .sequence ys :: zs) (xs ++ (ys ++ zs))) := by
  have hgo : Outcome.success ≠ .running := by simp
  induction xs with
  | nil =>
    obtain ⟨inner⟩ := (Sound.substitutes ys hys).row hgo
    obtain ⟨outer⟩ := (Sound.substitutes zs hzs).row hgo
    exact ⟨inner.flatten outer⟩
  | cons tree xs ih =>
    rw [List.forall_mem_cons] at hxs
    obtain ⟨likeness⟩ := Sound.likeness tree hxs.1
    obtain ⟨row⟩ := ih hxs.2
    exact ⟨Row.cons likeness.substitute row hgo⟩

theorem Flattens.likeness (h : Flattens tree flat) (hsound : tree.Sound) :
    Nonempty (Likeness bond tree flat) := by
  obtain ⟨xs, ys, zs⟩ := h
  have hchildren := hsound.children_of_sequence
  rw [List.forall_mem_append, List.forall_mem_append, List.forall_mem_singleton] at hchildren
  obtain ⟨⟨hxs, hys⟩, hzs⟩ := hchildren
  obtain ⟨row⟩ := exists_flat_row hxs hys.children_of_sequence hzs
  rw [List.append_assoc, List.append_assoc, List.singleton_append]
  exact ⟨Likeness.sequence row⟩

end Tree

variable {tree flat : Tree A}

/-- With the children of some sequence put in its place among those of the sequence above, a tree is
still accepted, and shows the host the same, whatever it calls. Its timers are the same as well, and so
is the moment at which a time overflows. -/
theorem Root.flat_sameView (htree : tree.BuiltIn) (hflat : Tree.Rewrites Tree.Flattens tree flat)
    {board : Board} {agent : A} {react : Notice → A → A} {random : Random} {nested : Root A}
    (hsound : board.Sound)
    (hsilent : ∀ notice agent, board.isSubscribed notice.observer = false →
      react notice agent = agent)
    (hnested : Root.withBoard tree board agent react random = .ok nested) :
    ∃ flattened, Root.withBoard flat board agent react random = .ok flattened ∧
      ∀ calls : List (Call A), (∀ call ∈ calls, call.Plain) →
        Root.SameView (nested.calls calls) (flattened.calls calls) ∧
          (nested.calls calls).world.clock = (flattened.calls calls).world.clock := by
  obtain ⟨⟨hpolicy, hvalid⟩, rfl⟩ := Root.withBoard_eq_ok.mp hnested
  have hsoundTree : tree.Sound := ⟨htree, hvalid⟩
  obtain ⟨hflattened, hsame⟩ := hflat.sound Tree.Flattens.sound hsoundTree
  rw [Tree.checkOutsideSelector_eq_ok] at hpolicy
  have hopened : Root.withBoard flat board agent react random =
      .ok (Root.opened flat board agent react random) :=
    Root.withBoard_eq_ok.mpr
      ⟨⟨Tree.checkOutsideSelector_eq_ok.mpr (hsame.trans hpolicy), hflattened.valid⟩, rfl⟩
  let bond : Bond := ⟨true, board.observers.map (·.id)⟩
  obtain ⟨likeness⟩ : Nonempty (Tree.Likeness bond tree flat) :=
    hflat.likeness Tree.Flattens.likeness hsoundTree
  refine ⟨_, hopened, fun calls hcalls => ?_⟩
  have hbeside := Root.SideBySide.calls likeness htree hflattened.builtIn rfl hsound hsilent hnested
    hopened calls hcalls nofun
  exact ⟨hbeside.sameView, hbeside.clock_eq rfl⟩

/-- An errand with a stop on the way. -/
def errand : Tree Nat :=
  .selector [
    .sequence ([.wait 1 0] ++
      [.sequence [.action "pick up" (.always (· + 1)),
        .service "hurry" 1 (.act (· + 1) .done) (some (.wait 3 0))]] ++
      [.action "deliver" (.always (· * 10))])]

def plainErrand : Tree Nat :=
  .selector [
    .sequence ([.wait 1 0] ++
      [.action "pick up" (.always (· + 1)),
        .service "hurry" 1 (.act (· + 1) .done) (some (.wait 3 0))] ++
      [.action "deliver" (.always (· * 10))])]

theorem errand_flat :
    let calls := [.start, .tick, .update 1, .advance 2, .set "rain" (.bool true), .update 1]
    ∃ nested flattened, Root.withBoard errand {} 0 = .ok nested ∧
      Root.withBoard plainErrand {} 0 = .ok flattened ∧
      Root.SameView (nested.calls calls) (flattened.calls calls) ∧
      (nested.calls calls).world.clock = (flattened.calls calls).world.clock ∧
      (flattened.calls calls).world.agent = 50 := by
  intro calls
  have hflat : Tree.Rewrites Tree.Flattens errand plainErrand :=
    .selector [] [] (.here (.intro _ _ _))
  have hcalls : ∀ call ∈ calls, call.Plain := by simp [calls, Call.Plain]
  have hnested : Root.withBoard errand {} 0 =
      .ok (Root.opened errand {} 0 (fun _ agent => agent) (.ofSeed 0)) := rfl
  have hbuiltIn : errand.BuiltIn :=
    ⟨⟨trivial, ⟨trivial, trivial, trivial⟩, trivial, trivial⟩, trivial⟩
  obtain ⟨flattened, hflattened, hsame⟩ := Root.flat_sameView hbuiltIn hflat
    (Board.sound_ofValues .empty) (fun _ _ _ => rfl) hnested
  obtain ⟨hview, hclock⟩ := hsame calls hcalls
  refine ⟨_, flattened, hnested, hflattened, hview, hclock, ?_⟩
  obtain ⟨-, rfl⟩ := Root.withBoard_eq_ok.mp hflattened
  decide +kernel

end BehaviorTree
