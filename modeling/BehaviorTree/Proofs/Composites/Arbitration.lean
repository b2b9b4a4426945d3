import BehaviorTree.Proofs.Lifecycle.OneActiveChild

namespace BehaviorTree

open Subtree (Idle OnlyAt)

inductive Move where
  | ask (i : Nat) (answer : Option Preemption)
  | handOver (winner loser : Nat) (preemption : Preemption)
  | tick (i : Nat) (outcome : Outcome)
  | stop (i : Nat)
  | release (i : Nat)
  deriving Repr, DecidableEq

/-- The child that a move changes. -/
def Move.touches? : Move → Option Nat
  | .ask _ _ => none
  | .handOver _ _ _ => none
  | .tick i _ => some i
  | .stop i => some i
  | .release i => some i

/-- A row of children that are asked and do not take over. -/
def Move.refusals (first count : Nat) : List Move := (List.range' first count).map (.ask · none)

def Move.takeOver (j i : Nat) (preemption : Preemption) : List Move :=
  refusals 0 j ++ [.ask j (some preemption), .handOver j i preemption, .stop i]

def Move.letGo (count : Nat) (outcome : Outcome) : List Move :=
  if outcome = .running then [] else (List.range count).map .release

/-- Children are ticked in order from the index on, and each is stopped right after the tick in which it
ends. A child that comes to `goOn` makes way for the next one. The last number is the index of the last
child that was ticked, or the number of children if none is left. -/
inductive Tries (goOn : Outcome) (count : Nat) : Nat → List Move → Outcome → Nat → Prop where
  | adopt {i : Nat} : i < count → Tries goOn count i [.tick i .running] .running i
  | settle {i : Nat} {outcome : Outcome} : i < count → outcome ≠ .running → outcome ≠ goOn →
    Tries goOn count i [.tick i outcome, .stop i] outcome i
  | next {i last : Nat} {moves : List Move} {outcome : Outcome} : i < count →
    Tries goOn count (i + 1) moves outcome last →
    Tries goOn count i (.tick i goOn :: .stop i :: moves) outcome last
  | exhausted {i : Nat} : count ≤ i → Tries goOn count i [] goOn count

/-- The moves of a running selector with so many children that is at the child `i`. The last number is the
index that it is at afterwards. -/
inductive Arbitration (count i : Nat) : List Move → Outcome → Nat → Prop where
  /-- No child before the running one takes over. -/
  | keeps {moves : List Move} {outcome : Outcome} {last : Nat} :
    Tries .fail count i moves outcome last →
    Arbitration count i (Move.refusals 0 i ++ (moves ++ Move.letGo count outcome)) outcome last
  /-- The child `j` takes over at once. -/
  | immediate {j last : Nat} {moves : List Move} {outcome : Outcome} : j < i →
    Tries .fail count j moves outcome last →
    Arbitration count i (Move.takeOver j i .immediate ++ (moves ++ Move.letGo count outcome)) outcome last
  /-- The selector gives up on behalf of the child `j`. -/
  | deferred {j : Nat} : j < i →
    Arbitration count i (Move.takeOver j i .deferred ++ Move.letGo count .fail) .fail i

variable {A : Type}

/-- The children of a composite and the world, between two moves. -/
structure Moment (A : Type) where
  children : List (Subtree A)
  world : World A

/-- No two children are active. -/
def Moment.Single (moment : Moment A) : Prop :=
  ∀ (i j : Nat) (first second : Subtree A), moment.children[i]? = some first →
    moment.children[j]? = some second → first.status ≠ .inactive → second.status ≠ .inactive → i = j

/-- What a move does. -/
inductive Step : Moment A → Move → Moment A → Prop where
  | ask {children : List (Subtree A)} {world asked : World A} {i : Nat} {child : Subtree A}
      {answer : Option Preemption} :
    children[i]? = some child → child.tree.preempts child.state world = (answer, asked) →
    Step ⟨children, world⟩ (.ask i answer) ⟨children, asked⟩
  | handOver (children : List (Subtree A)) (world : World A) (winner loser : Nat)
      (preemption : Preemption) :
    Step ⟨children, world⟩ (.handOver winner loser preemption)
      ⟨children, world.record (.preempted winner loser preemption)⟩
  | tick {children : List (Subtree A)} {world after : World A} {i : Nat} {child : Subtree A}
      {outcome : Outcome} {ticked : child.tree.State} :
    children[i]? = some child → child.tree.tick child.state world = (outcome, ticked, after) →
    Step ⟨children, world⟩ (.tick i outcome) ⟨children.set i ⟨child.tree, ticked⟩, after⟩
  | stop {children : List (Subtree A)} {world after : World A} {i : Nat} {child : Subtree A}
      {stopped : child.tree.State} :
    children[i]? = some child → child.tree.stop child.state world = (stopped, after) →
    Step ⟨children, world⟩ (.stop i) ⟨children.set i ⟨child.tree, stopped⟩, after⟩
  | release {children : List (Subtree A)} {world after : World A} {i : Nat} {child : Subtree A}
      {released : child.tree.State} :
    children[i]? = some child → child.tree.release child.state world = (released, after) →
    Step ⟨children, world⟩ (.release i) ⟨children.set i ⟨child.tree, released⟩, after⟩

/-- What a row of moves does. No two children are active at any moment, and whenever a child changes no
other child is active. -/
inductive Steps : Moment A → List Move → Moment A → Prop where
  | done {moment : Moment A} : moment.Single → Steps moment [] moment
  | move {first next last : Moment A} {move : Move} {moves : List Move} : first.Single →
    (∀ i, move.touches? = some i → OnlyAt first.children i) → Step first move next →
    Steps next moves last → Steps first (move :: moves) last

variable {first middle last : Moment A} {moves more : List Move}
variable {front : List (Subtree A)} {child : Subtree A} {i : Nat}

theorem Moment.single_of_onlyAt (h : OnlyAt first.children i) : first.Single :=
  fun j k _ _ hj hk hactive hactive' => (h j _ hj hactive).trans (h k _ hk hactive').symm

namespace Steps

theorem first_single (h : Steps first moves last) : first.Single := by
  cases h with
  | done hsingle => exact hsingle
  | move hsingle => exact hsingle

theorem last_single (h : Steps first moves last) : last.Single := by
  induction h with
  | done hsingle => exact hsingle
  | move _ _ _ _ ih => exact ih

theorem append (h : Steps first moves middle) (hmore : Steps middle more last) :
    Steps first (moves ++ more) last := by
  induction h with
  | done => exact hmore
  | move hsingle halone hstep _ ih => exact .move hsingle halone hstep (ih hmore)

theorem split (h : Steps first (moves ++ more) last) :
    ∃ middle, Steps first moves middle ∧ Steps middle more last := by
  induction moves generalizing first with
  | nil => exact ⟨first, .done h.first_single, h⟩
  | cons move moves ih =>
    cases h with
    | move hsingle halone hstep hrest =>
      obtain ⟨middle, hmoves, hmore⟩ := ih hrest
      exact ⟨middle, .move hsingle halone hstep hmoves, hmore⟩

theorem next {move : Move} (h : Steps first (move :: moves) last) :
    ∃ middle, Step first move middle ∧ Steps middle moves last := by
  cases h with
  | move _ _ hstep hrest => exact ⟨_, hstep, hrest⟩

theorem touch {move : Move} (htouches : move.touches? = some i) (honly : OnlyAt first.children i)
    (hstep : Step first move middle) (hmore : Steps middle moves last) :
    Steps first (move :: moves) last := by
  refine .move (Moment.single_of_onlyAt honly) (fun j hj => ?_) hstep hmore
  cases htouches.symm.trans hj
  exact honly

theorem leave {move : Move} (hsingle : first.Single) (htouches : move.touches? = none)
    (hstep : Step first move middle) (hmore : Steps middle moves last) :
    Steps first (move :: moves) last :=
  .move hsingle (fun _ hi => nomatch htouches.symm.trans hi) hstep hmore

end Steps

theorem Step.deterministic {move : Move} {next other : Moment A} (h : Step first move next)
    (k : Step first move other) : next = other := by
  cases h with
  | ask hchild hask =>
    cases k with
    | ask hchild' hask' =>
      cases hchild.symm.trans hchild'
      cases hask.symm.trans hask'
      rfl
  | handOver => cases k with | handOver => rfl
  | tick hchild htick =>
    cases k with
    | tick hchild' htick' =>
      cases hchild.symm.trans hchild'
      cases htick.symm.trans htick'
      rfl
  | stop hchild hstop =>
    cases k with
    | stop hchild' hstop' =>
      cases hchild.symm.trans hchild'
      cases hstop.symm.trans hstop'
      rfl
  | release hchild hrelease =>
    cases k with
    | release hchild' hrelease' =>
      cases hchild.symm.trans hchild'
      cases hrelease.symm.trans hrelease'
      rfl

theorem Step.answer_unique {answer answer' : Option Preemption} {next other : Moment A}
    (h : Step first (.ask i answer) next) (k : Step first (.ask i answer') other) :
    answer = answer' := by
  cases h with
  | ask hchild hask =>
    cases k with
    | ask hchild' hask' =>
      cases hchild.symm.trans hchild'
      exact congrArg Prod.fst (hask.symm.trans hask')

theorem Step.outcome_unique {outcome outcome' : Outcome} {next other : Moment A}
    (h : Step first (.tick i outcome) next) (k : Step first (.tick i outcome') other) :
    outcome = outcome' := by
  cases h with
  | tick hchild htick =>
    cases k with
    | tick hchild' htick' =>
      cases hchild.symm.trans hchild'
      exact congrArg Prod.fst (htick.symm.trans htick')

theorem Steps.deterministic (h : Steps first moves middle) (k : Steps first moves last) :
    middle = last := by
  induction h with
  | done => cases k with | done => rfl
  | move _ _ hstep _ ih =>
    obtain ⟨_, hstep', hrest'⟩ := k.next
    cases hstep.deterministic hstep'
    exact ih hrest'

theorem Steps.after {rest rest' : List Move} (h : Steps first (moves ++ rest) middle)
    (k : Steps first (moves ++ rest') last) :
    ∃ shared, Steps shared rest middle ∧ Steps shared rest' last := by
  obtain ⟨shared, hmoves, hrest⟩ := h.split
  obtain ⟨shared', hmoves', hrest'⟩ := k.split
  cases hmoves.deterministic hmoves'
  exact ⟨shared, hrest, hrest'⟩

namespace Tries

variable {goOn outcome outcome' : Outcome} {count index index' : Nat} {moves' more' : List Move}

theorem unique (hgo : goOn ≠ .running) (h : Tries goOn count i moves outcome index)
    (k : Tries goOn count i moves' outcome' index') (hsteps : Steps first (moves ++ more) middle)
    (ksteps : Steps first (moves' ++ more') last) : moves = moves' ∧ outcome = outcome' := by
  induction h generalizing first moves' with
  | adopt hi =>
    obtain ⟨_, hstep, -⟩ := hsteps.next
    cases k with
    | adopt => exact ⟨rfl, rfl⟩
    | settle _ hended =>
      obtain ⟨_, hstep', -⟩ := ksteps.next
      exact absurd (hstep'.outcome_unique hstep) hended
    | next =>
      obtain ⟨_, hstep', -⟩ := ksteps.next
      exact absurd (hstep'.outcome_unique hstep) hgo
    | exhausted hle => exact absurd hi (Nat.not_lt.mpr hle)
  | settle hi hended hother =>
    obtain ⟨_, hstep, -⟩ := hsteps.next
    cases k with
    | adopt =>
      obtain ⟨_, hstep', -⟩ := ksteps.next
      exact absurd (hstep.outcome_unique hstep') hended
    | settle =>
      obtain ⟨_, hstep', -⟩ := ksteps.next
      cases hstep.outcome_unique hstep'
      exact ⟨rfl, rfl⟩
    | next =>
      obtain ⟨_, hstep', -⟩ := ksteps.next
      exact absurd (hstep.outcome_unique hstep') hother
    | exhausted hle => exact absurd hi (Nat.not_lt.mpr hle)
  | next hi _ ih =>
    obtain ⟨_, hstep, hrest⟩ := hsteps.next
    obtain ⟨_, hstop, hrest⟩ := hrest.next
    cases k with
    | adopt =>
      obtain ⟨_, hstep', -⟩ := ksteps.next
      exact absurd (hstep.outcome_unique hstep') hgo
    | settle _ _ hother =>
      obtain ⟨_, hstep', -⟩ := ksteps.next
      exact absurd (hstep'.outcome_unique hstep) hother
    | next _ htries =>
      obtain ⟨_, hstep', hrest'⟩ := ksteps.next
      cases hstep.deterministic hstep'
      obtain ⟨_, hstop', hrest'⟩ := hrest'.next
      cases hstop.deterministic hstop'
      obtain ⟨rfl, rfl⟩ := ih htries hrest hrest'
      exact ⟨rfl, rfl⟩
    | exhausted hle => exact absurd hi (Nat.not_lt.mpr hle)
  | exhausted hle =>
    cases k with
    | adopt hi | settle hi | next hi => exact absurd hi (Nat.not_lt.mpr hle)
    | exhausted => exact ⟨rfl, rfl⟩

end Tries

namespace Move

variable {j k count loser loser' : Nat} {preemption preemption' : Preemption} {rest rest' : List Move}

theorem not_refused (hj : j < count) (h : Steps first (refusals 0 count ++ rest) middle)
    (k : Steps first (takeOver j loser preemption ++ rest') last) : False := by
  obtain ⟨more, rfl⟩ := Nat.exists_eq_add_of_lt hj
  have hsplit : refusals 0 (j + more + 1) = refusals 0 j ++ .ask j none :: refusals (j + 1) more := by
    rw [refusals, Nat.add_assoc, ← List.range'_append_1, List.map_append, Nat.zero_add]
    rfl
  rw [hsplit, List.append_assoc] at h
  rw [takeOver, List.append_assoc] at k
  obtain ⟨shared, hasked, hasked'⟩ := h.after k
  obtain ⟨_, hstep, -⟩ := hasked.next
  obtain ⟨_, hstep', -⟩ := hasked'.next
  cases hstep.answer_unique hstep'

theorem winner_unique (h : Steps first (takeOver j loser preemption ++ rest) middle)
    (hk : Steps first (takeOver k loser' preemption' ++ rest') last) :
    j = k ∧ preemption = preemption' := by
  have hasked := h
  have hasked' := hk
  rw [takeOver, List.append_assoc] at hasked hasked'
  obtain hlt | rfl | hlt := Nat.lt_trichotomy j k
  · exact (not_refused hlt hasked' h).elim
  · obtain ⟨shared, hasked, hasked'⟩ := hasked.after hasked'
    obtain ⟨_, hstep, -⟩ := hasked.next
    obtain ⟨_, hstep', -⟩ := hasked'.next
    exact ⟨rfl, Option.some.inj (hstep.answer_unique hstep')⟩
  · exact (not_refused hlt hasked hk).elim

end Move

/-- From one moment there is no more than one arbitration. -/
theorem Arbitration.unique {count index index' : Nat} {moves' : List Move} {outcome outcome' : Outcome}
    (h : Arbitration count i moves outcome index) (k : Arbitration count i moves' outcome' index')
    (hsteps : Steps first moves middle) (ksteps : Steps first moves' last) : moves = moves' := by
  have hgo : Outcome.fail ≠ .running := by simp
  cases h with
  | keeps htries =>
    cases k with
    | keeps htries' =>
      obtain ⟨_, hrest, hrest'⟩ := hsteps.after ksteps
      obtain ⟨rfl, rfl⟩ := htries.unique hgo htries' hrest hrest'
      rfl
    | immediate hj => exact (Move.not_refused hj hsteps ksteps).elim
    | deferred hj => exact (Move.not_refused hj hsteps ksteps).elim
  | immediate hj htries =>
    cases k with
    | keeps => exact (Move.not_refused hj ksteps hsteps).elim
    | immediate _ htries' =>
      obtain ⟨rfl, -⟩ := Move.winner_unique hsteps ksteps
      obtain ⟨_, hrest, hrest'⟩ := hsteps.after ksteps
      obtain ⟨rfl, rfl⟩ := htries.unique hgo htries' hrest hrest'
      rfl
    | deferred => cases (Move.winner_unique hsteps ksteps).2
  | deferred hj =>
    cases k with
    | keeps => exact (Move.not_refused hj ksteps hsteps).elim
    | immediate => cases (Move.winner_unique hsteps ksteps).2
    | deferred =>
      obtain ⟨rfl, -⟩ := Move.winner_unique hsteps ksteps
      rfl

namespace Tree

open Subtree (ofList)

theorem getElem?_front (front : List (Subtree A)) (child : Subtree A) (rest : List (Subtree A)) :
    (front ++ child :: rest)[front.length]? = some child := by
  simp

theorem set_front (front : List (Subtree A)) (child next : Subtree A) (rest : List (Subtree A)) :
    (front ++ child :: rest).set front.length next = front ++ next :: rest := by
  simp

theorem firstPreempting_steps (trees : List (Tree A)) (limit : Nat) (states : StateList trees)
    (world : World A) (front : List (Subtree A)) (hlimit : limit ≤ trees.length)
    (hsingle : ∀ asked, Moment.Single ⟨front ++ ofList trees states, asked⟩) :
    match firstPreempting trees limit states world with
    | (none, asked) =>
      Steps ⟨front ++ ofList trees states, world⟩ (Move.refusals front.length limit)
        ⟨front ++ ofList trees states, asked⟩
    | (some (winner, preemption), asked) =>
      Steps ⟨front ++ ofList trees states, world⟩
        (Move.refusals front.length winner ++ [.ask (front.length + winner) (some preemption)])
        ⟨front ++ ofList trees states, asked⟩ := by
  induction trees generalizing limit world front with
  | nil =>
    obtain rfl : limit = 0 := Nat.le_zero.mp hlimit
    exact .done (hsingle world)
  | cons tree trees ih =>
    obtain ⟨state, states⟩ := states
    cases limit with
    | zero => exact .done (hsingle world)
    | succ limit =>
      have hfirst := getElem?_front front ⟨tree, state⟩ (ofList trees states)
      rw [firstPreempting]
      rcases hask : tree.preempts state world with ⟨_ | preemption, asked⟩
      · have hstep := Step.ask hfirst hask
        have hrest := ih limit states asked (front ++ [⟨tree, state⟩]) (Nat.le_of_succ_le_succ hlimit)
          (by simpa [ofList] using hsingle)
        dsimp only
        rcases hlater : firstPreempting trees limit states asked with
          ⟨_ | ⟨winner, preemption⟩, after⟩ <;> rw [hlater] at hrest <;>
          simp only [List.append_assoc, List.singleton_append, List.length_append,
            List.length_singleton] at hrest
        · exact .leave (hsingle world) rfl hstep hrest
        · rw [Nat.add_right_comm] at hrest
          exact .leave (hsingle world) rfl hstep hrest
      · exact .leave (hsingle world) rfl (Step.ask hfirst hask) (.done (hsingle asked))

theorem stopAt_step (trees : List (Tree A)) (i : Nat) (states : StateList trees) (world : World A)
    (front : List (Subtree A)) (hi : i < trees.length) :
    Step ⟨front ++ ofList trees states, world⟩ (.stop (front.length + i))
      ⟨front ++ ofList trees (stopAt trees i states world).1, (stopAt trees i states world).2⟩ := by
  induction trees generalizing i front with
  | nil => exact absurd hi (Nat.not_lt_zero i)
  | cons tree trees ih =>
    obtain ⟨state, states⟩ := states
    cases i with
    | zero =>
      have hstep := Step.stop (getElem?_front front ⟨tree, state⟩ (ofList trees states))
        (Prod.mk.eta (p := tree.stop state world)).symm
      rwa [set_front] at hstep
    | succ i =>
      have hstep := ih i states (front ++ [⟨tree, state⟩]) (Nat.lt_of_succ_lt_succ hi)
      simp only [List.append_assoc, List.singleton_append, List.length_append,
        List.length_singleton] at hstep
      rwa [Nat.add_right_comm] at hstep

theorem releaseList_steps (trees : List (Tree A)) (states : StateList trees) (world : World A)
    (front : List (Subtree A)) (htrees : ObedientList trees)
    (hidle : Idle (front ++ ofList trees states)) :
    Steps ⟨front ++ ofList trees states, world⟩
      ((List.range' front.length trees.length).map .release)
      ⟨front ++ ofList trees (releaseList trees states world).1,
        (releaseList trees states world).2⟩ := by
  induction trees generalizing world front with
  | nil => exact .done (Moment.single_of_onlyAt (hidle.onlyAt 0))
  | cons tree trees ih =>
    obtain ⟨state, states⟩ := states
    have hstatus := release_status tree state world htrees.1
    rcases hrelease : tree.release state world with ⟨released, after⟩
    rw [hrelease] at hstatus
    have hstep := Step.release (getElem?_front front ⟨tree, state⟩ (ofList trees states)) hrelease
    rw [set_front] at hstep
    have hlater : Idle ((front ++ [⟨tree, released⟩]) ++ ofList trees states) := by
      obtain ⟨hfront, hrest⟩ := Subtree.idle_append.mp hidle
      rw [List.append_assoc]
      exact Subtree.idle_append.mpr
        ⟨hfront, Subtree.idle_cons.mpr ⟨hstatus, (Subtree.idle_cons.mp hrest).2⟩⟩
    have hrest := ih states after (front ++ [⟨tree, released⟩]) htrees.2 hlater
    simp only [List.append_assoc, List.singleton_append, List.length_append,
      List.length_singleton] at hrest
    rw [releaseList, hrelease]
    exact .touch rfl (hidle.onlyAt _) hstep hrest

theorem tickFrom_steps (goOn : Outcome) (trees : List (Tree A)) (i : Nat) (states : StateList trees)
    (world : World A) (front : List (Subtree A)) (htrees : ObedientList trees)
    (honly : OnlyAt (front ++ ofList trees states) (front.length + i)) :
    ∃ moves,
      Tries goOn (front.length + trees.length) (front.length + i) moves
        (tickFrom goOn trees i states world).1
        (front.length + (tickFrom goOn trees i states world).2.1) ∧
      Steps ⟨front ++ ofList trees states, world⟩ moves
        ⟨front ++ ofList trees (tickFrom goOn trees i states world).2.2.1,
          (tickFrom goOn trees i states world).2.2.2⟩ := by
  induction trees generalizing i world front with
  | nil =>
    rw [tickFrom]
    exact ⟨[], .exhausted (Nat.add_le_add_left (Nat.zero_le i) _),
      .done (Moment.single_of_onlyAt honly)⟩
  | cons tree trees ih =>
    obtain ⟨state, states⟩ := states
    obtain ⟨hfront, hturn⟩ := Subtree.onlyAt_append.mp honly
    have hcount : front.length < front.length + (tree :: trees).length :=
      Nat.lt_add_of_pos_right (Nat.succ_pos _)
    cases i with
    | succ i =>
      obtain ⟨hidle, hrest⟩ := Subtree.onlyAt_succ.mp hturn
      -- The child that is passed over joins the ones in front.
      obtain ⟨moves, htries, hsteps⟩ := ih i states world (front ++ [⟨tree, state⟩]) htrees.2
        (Subtree.onlyAt_append.mpr ⟨Subtree.idle_append.mpr
          ⟨hfront, Subtree.idle_cons.mpr ⟨hidle, List.forall_mem_nil _⟩⟩, hrest⟩)
      simp only [List.append_assoc, List.singleton_append, List.length_append,
        List.length_singleton] at htries hsteps
      rw [tickFrom]
      refine ⟨moves, ?_, hsteps⟩
      simpa only [List.length_cons, Nat.add_right_comm, Nat.add_assoc, Nat.add_comm 1] using htries
    | zero =>
      have hrest := Subtree.onlyAt_zero.mp hturn
      rcases htick : tree.tick state world with ⟨outcome, ticked, after⟩
      have hstatus := stop_status tree ticked after htrees.1
      rcases hstop : tree.stop ticked after with ⟨stopped, left⟩
      rw [hstop] at hstatus
      have hticked := Step.tick (getElem?_front front ⟨tree, state⟩ (ofList trees states)) htick
      have hstopped := Step.stop (getElem?_front front ⟨tree, ticked⟩ (ofList trees states)) hstop
      rw [set_front] at hticked hstopped
      have hbetween : OnlyAt (front ++ ⟨tree, ticked⟩ :: ofList trees states) front.length :=
        Subtree.onlyAt_append.mpr ⟨hfront, Subtree.onlyAt_zero.mpr hrest⟩
      have hidle : Idle (front ++ ⟨tree, stopped⟩ :: ofList trees states) :=
        Subtree.idle_append.mpr ⟨hfront, Subtree.idle_cons.mpr ⟨hstatus, hrest⟩⟩
      rw [tickFrom_zero goOn tree trees state states world htick, hstop]
      split
      · rename_i hrun
        subst hrun
        exact ⟨[.tick front.length .running], .adopt hcount,
          .touch rfl honly hticked (.done (Moment.single_of_onlyAt hbetween))⟩
      · rename_i hended
        split
        · rename_i hgo
          subst hgo
          obtain ⟨moves, htries, hsteps⟩ := ih 0 states left (front ++ [⟨tree, stopped⟩]) htrees.2
            (by simpa using hidle.onlyAt (front.length + 1))
          simp only [List.append_assoc, List.singleton_append, List.length_append,
            List.length_singleton] at htries hsteps
          refine ⟨.tick front.length outcome :: .stop front.length :: moves, .next hcount ?_,
            .touch rfl honly hticked (.touch rfl hbetween hstopped hsteps)⟩
          simpa only [List.length_cons, Nat.add_right_comm, Nat.add_assoc, Nat.add_comm 1] using htries
        · rename_i hother
          exact ⟨[.tick front.length outcome, .stop front.length], .settle hcount hended hother,
            .touch rfl honly hticked (.touch rfl hbetween hstopped
              (.done (Moment.single_of_onlyAt (hidle.onlyAt 0))))⟩

theorem tickRest_steps (goOn : Outcome) (hgo : goOn ≠ .running) {trees : List (Tree A)} {i : Nat}
    {states : StateList trees} (world : World A) (htrees : ObedientList trees)
    (hbelow : OrderlyList trees states) (honly : OnlyAt (ofList trees states) i) :
    ∃ moves,
      Tries goOn trees.length i moves (tickRest goOn trees i states world).1
        (tickRest goOn trees i states world).2.1.current ∧
      Steps ⟨ofList trees states, world⟩
        (moves ++ Move.letGo trees.length (tickRest goOn trees i states world).1)
        ⟨ofList trees (tickRest goOn trees i states world).2.1.children,
          (tickRest goOn trees i states world).2.2⟩ := by
  have hended := (tickFrom_orderly goOn hgo trees i states world htrees hbelow honly).ended
  obtain ⟨moves, htries, hsteps⟩ := tickFrom_steps goOn trees i states world [] htrees
    (by simpa using honly)
  unfold tickRest
  rcases htick : tickFrom goOn trees i states world with ⟨outcome, last, ticked, after⟩
  rw [htick] at hended htries hsteps
  simp only [List.length_nil, Nat.zero_add, List.nil_append] at htries hsteps
  refine ⟨moves, htries, hsteps.append ?_⟩
  dsimp only [settle]
  by_cases hrun : outcome = .running
  · rw [if_pos hrun, Move.letGo, if_pos hrun]
    exact .done hsteps.last_single
  · rw [if_neg hrun, Move.letGo, if_neg hrun, List.range_eq_range']
    exact releaseList_steps trees ticked after [] htrees (hended hrun)

/-- A running selector makes the moves of an arbitration, and there is no other that it might have made. -/
def Arbitrates (children : List (Tree A)) (state : (Tree.selector children).State) (world : World A) :
    Prop :=
  ∃ moves,
    Arbitration children.length state.current moves ((Tree.selector children).tick state world).1
      ((Tree.selector children).tick state world).2.1.current ∧
    Steps ⟨ofList children state.children, world⟩ moves
      ⟨ofList children ((Tree.selector children).tick state world).2.1.children,
        ((Tree.selector children).tick state world).2.2⟩ ∧
    ((Tree.selector children).tick state world).2.1.status =
      ((Tree.selector children).tick state world).1.status ∧
    ∀ others outcome last later, Arbitration children.length state.current others outcome last →
      Steps ⟨ofList children state.children, world⟩ others later → others = moves

theorem selector_steps {children : List (Tree A)} {state : (Tree.selector children).State}
    (world : World A) (htrees : ObedientList children) (h : InTurn children state)
    (hbelow : OrderlyList children state.children) (hrun : state.status = .running) :
    ∃ moves,
      Arbitration children.length state.current moves ((Tree.selector children).tick state world).1
        ((Tree.selector children).tick state world).2.1.current ∧
      Steps ⟨ofList children state.children, world⟩ moves
        ⟨ofList children ((Tree.selector children).tick state world).2.1.children,
          ((Tree.selector children).tick state world).2.2⟩ ∧
      ((Tree.selector children).tick state world).2.1.status =
        ((Tree.selector children).tick state world).1.status := by
  have hbegin : state.begin = state := by
    rw [CompositeState.begin, if_neg (by simp [hrun])]
  have hgoing : state.status.outcome? = none := by rw [hrun]; rfl
  have honly := h.running hrun
  have hlimit : state.current ≤ children.length := by
    obtain hzero | hlt := h.bound hrun
    · exact hzero ▸ Nat.zero_le _
    · exact Nat.le_of_lt hlt
  have hasked := firstPreempting_steps children state.current state.children world [] hlimit
    (fun asked => Moment.single_of_onlyAt (by simpa using honly))
  rw [tick_selector, hbegin, hgoing]
  dsimp only
  unfold arbitrate
  rcases hfirst : firstPreempting children state.current state.children world with
    ⟨_ | ⟨winner, preemption⟩, asked⟩ <;> rw [hfirst] at hasked <;>
    simp only [List.length_nil, Nat.zero_add, List.nil_append] at hasked
  · obtain ⟨moves, htries, hsteps⟩ := tickRest_steps .fail (by simp) asked htrees hbelow honly
    exact ⟨_, .keeps htries, hasked.append hsteps, rfl⟩
  · have hwinner : winner < state.current :=
      firstPreempting_lt children state.current state.children world (winner, preemption)
        (congrArg Prod.fst hfirst)
    -- The child that is stopped is there, since another one comes before it.
    have hloser : state.current < children.length :=
      (h.bound hrun).resolve_left (Nat.ne_of_gt (Nat.zero_lt_of_lt hwinner))
    have hidle := stopAt_idle children state.current state.children
      (asked.record (.preempted winner state.current preemption)) htrees honly
    have hstopped := stopAt_orderly children state.current state.children
      (asked.record (.preempted winner state.current preemption)) htrees hbelow
    have hstop := stopAt_step children state.current state.children
      (asked.record (.preempted winner state.current preemption)) [] hloser
    have hsingle : Moment.Single ⟨ofList children state.children, asked⟩ :=
      Moment.single_of_onlyAt honly
    have hnoted := Step.handOver (ofList children state.children) asked winner state.current preemption
    simp only [List.length_nil, Nat.zero_add, List.nil_append] at hstop
    cases preemption with
    | immediate =>
      obtain ⟨moves, htries, hsteps⟩ := tickRest_steps .fail (by simp) _ htrees hstopped
        (hidle.onlyAt winner)
      refine ⟨_, .immediate hwinner htries, ?_, rfl⟩
      rw [Move.takeOver, List.append_assoc, List.cons_append, List.append_cons]
      exact hasked.append (.leave hsingle rfl hnoted (.touch rfl honly hstop hsteps))
    | deferred =>
      have hreleased := releaseList_steps children _ (stopAt children state.current state.children
        (asked.record (.preempted winner state.current .deferred))).2 [] htrees hidle
      refine ⟨_, .deferred hwinner, ?_, rfl⟩
      rw [Move.takeOver, List.append_assoc, List.cons_append, List.append_cons, Move.letGo,
        if_neg (by simp), List.range_eq_range']
      exact hasked.append (.leave hsingle rfl hnoted (.touch rfl honly hstop hreleased))

end Tree

theorem Subtree.Orderly.arbitrates_at {children : List (Tree A)}
    {state : (Tree.selector children).State} (h : Subtree.Orderly ⟨.selector children, state⟩)
    (hrun : state.status = .running) (world : World A) : Tree.Arbitrates children state world := by
  obtain ⟨moves, harbitration, hsteps, hstatus⟩ :=
    Tree.selector_steps world h.obedient h.orderly.1 h.orderly.2 hrun
  exact ⟨moves, harbitration, hsteps, hstatus, fun _ _ _ _ hother hothers =>
    hother.unique harbitration hothers hsteps⟩

namespace Session

variable {tree : Tree A} {initial : Values} {session : Session A}

/-- In each state that a host can come to, each running selector is ready to make the moves of an
arbitration in any world; and it makes them whenever a tick of the root comes to it. -/
theorem Reachable.arbitrates (htree : tree.Obedient) (h : session.Reachable tree initial) :
    (∀ position children, ∀ state : (Tree.selector children).State, ∀ world,
      session.root.node.at? position = some ⟨.selector children, state⟩ → state.status = .running →
        Tree.Arbitrates children state world) ∧
    ∀ children, ∀ state : (Tree.selector children).State, ∀ world,
      ⟨⟨.selector children, state⟩, world⟩ ∈ session.root.visits → state.status = .running →
        Tree.Arbitrates children state world := by
  have hroot := h.orderly htree
  refine ⟨fun position children state world hposition hrun => ?_,
    fun children state world hvisit hrun => ?_⟩
  · exact (hroot.below hposition).arbitrates_at hrun world
  · unfold Root.visits at hvisit
    split at hvisit
    · exact (Tree.visits_orderly _ _ _ (Root.orderly_readied hroot) _ hvisit).arbitrates_at hrun world
    · cases hvisit

/-- The watchman rests when the alarm is set. His next tick is an arbitration, in which the first child
takes over. -/
theorem watchman_wakes_up :
    let session := watchman.session.calls [.start, .tick, .set "alarm" (.bool true)]
    ∃ children, ∃ state : (Tree.selector children).State,
      session.root.node.at? [] = some ⟨.selector children, state⟩ ∧
      ⟨⟨.selector children, state⟩, session.root.world⟩ ∈ session.root.visits ∧
      state.status = .running ∧ state.current = 1 ∧
      Tree.Arbitrates children state session.root.world ∧
      ((Tree.selector children).tick state session.root.world).2.1.current = 0 := by
  intro session
  have h : session.Reachable watchman .empty := watchman.reachable.calls _
  obtain ⟨-, hvisits⟩ := h.arbitrates (Tree.BuiltIn.obedient _ watchman.builtIn)
  have hvisit : ⟨session.root.node, session.root.world⟩ ∈ session.root.visits := .head _
  exact ⟨_, _, rfl, hvisit, rfl, rfl, hvisits _ _ _ hvisit rfl, by decide⟩

end Session

end BehaviorTree
