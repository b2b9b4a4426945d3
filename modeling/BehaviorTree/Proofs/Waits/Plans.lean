import BehaviorTree.Proofs.Waits.Agenda
import BehaviorTree.Proofs.Time.TimersOnTime
import BehaviorTree.Proofs.Leaves.EndOnce

namespace BehaviorTree

variable {A : Type}

theorem World.Deals.now_eq {world after : World A} {given taken : Multiset Keeper}
    (h : world.Deals after given taken) : after.now = world.now := by
  have hsteady : World.Steady fun later : World A => later.now = world.now := by
    refine ⟨fun htimeless hnow => htimeless.now_eq.trans hnow, fun later interval callback hnow => ?_,
      fun _ _ hnow => hnow⟩
    rw [← hnow, World.now, World.addTimer, Clock.addTimer, World.clock_refresh]
    rfl
  exact hsteady.deals h rfl

namespace Message

/-- What a leaf is told to do by a message. A wait begins when it is started or ticked. -/
def duty? : Message A → Option Duty
  | ⟨.tick, ⟨.action label _, _⟩, _⟩ => some (.act label)
  | ⟨.tick, ⟨.wait duration _, _⟩, _⟩ => some (.rest duration)
  | ⟨.start, ⟨.wait duration _, _⟩, _⟩ => some (.rest duration)
  | _ => none

/-- The turn that the leaf at the position has with a message. -/
def turn? (position : List Nat) (message : Message A) : Option Turn :=
  message.duty?.map fun duty => ⟨⟨position, duty⟩, message.world.now⟩

theorem turn?_move (f : List Nat → List Nat) (position : List Nat) (message : Message A) :
    message.turn? (f position) = (message.turn? position).map (·.move f) := by
  rw [turn?, turn?, Option.map_map]
  rfl

theorem action?_eq (position : List Nat) (message : Message A) :
    message.action? = (message.turn? position).bind fun turn => turn.task.label? := by
  obtain ⟨signal, ⟨tree, state⟩, world⟩ := message
  cases signal <;> cases tree <;> rfl

end Message

def inFirst (position : List Nat) : List Nat := 0 :: position

def inLater : List Nat → List Nat
  | [] => []
  | i :: position => (i + 1) :: position

theorem inFirst_injective : Function.Injective inFirst := List.cons_injective

theorem inLater_injective : Function.Injective inLater := by
  intro position other h
  cases position <;> cases other <;> simp_all [inLater]

theorem inLater_ne_inFirst {position other : List Nat} : inLater position ≠ inFirst other := by
  cases position <;> simp [inLater, inFirst]

def Mail.turns (mail : Mail A) : List Turn := mail.filterMap fun entry => entry.2.turn? entry.1

namespace Delivery

def turns (delivery : Delivery A) : List Turn :=
  delivery.filterMap fun entry => entry.2.2.turn? (entry.1 :: entry.2.1)

@[simp] theorem turns_append (delivery more : Delivery A) :
    turns (delivery ++ more) = turns delivery ++ turns more :=
  List.filterMap_append

@[simp] theorem turns_first (mail : Mail A) : turns (first mail) = mail.turns.map (·.move inFirst) := by
  rw [turns, first, Mail.turns, List.filterMap_map, List.map_filterMap]
  exact List.filterMap_congr fun entry _ => entry.2.turn?_move inFirst entry.1

@[simp] theorem turns_later (delivery : Delivery A) :
    turns (later delivery) = (turns delivery).map (·.move inLater) := by
  rw [turns, later, turns, List.filterMap_map, List.map_filterMap]
  exact List.filterMap_congr fun entry _ => entry.2.2.turn?_move inLater (entry.1 :: entry.2.1)

end Delivery

@[simp] theorem Mail.turns_append (mail more : Mail A) :
    Mail.turns (mail ++ more) = Mail.turns mail ++ Mail.turns more :=
  List.filterMap_append

@[simp] theorem Message.turns_mail (message : Message A) (delivery : Delivery A) :
    Mail.turns (message.mail delivery) = (message.turn? []).toList ++ Delivery.turns delivery := by
  rw [Mail.turns, Message.mail, List.filterMap_cons, List.filterMap_map]
  cases message.turn? [] <;> rfl

theorem Mail.filterMap_action? (mail : Mail A) :
    (mail.filterMap fun entry => entry.2.action?) = (Turn.acts mail.turns).filterMap Task.label? := by
  rw [Turn.filterMap_acts, turns, List.filterMap_filterMap]
  exact List.filterMap_congr fun entry _ => entry.2.action?_eq entry.1

theorem Status.outcome?_of_isTerminated {status : Status} (h : status.isTerminated = false) :
    status.outcome? = none := by
  cases status <;> first | rfl | cases h

theorem CompositeState.begin_outcome? {S : Type} (state : CompositeState S)
    (h : state.status.isTerminated = false) : state.begin.status.outcome? = none := by
  unfold CompositeState.begin
  split
  · rfl
  · exact Status.outcome?_of_isTerminated h

namespace Tree

mutual

/-- The tree is built from sequences, actions and waits without a variance. -/
def Linear : Tree A → Prop
  | .action _ _ => True
  | .wait _ variance => variance = 0
  | .leaf _ => False
  | .sequence children => LinearList children
  | .selector _ => False
  | .condition _ _ _ => False
  | .service _ _ _ _ => False

def LinearList : List (Tree A) → Prop
  | [] => True
  | tree :: trees => tree.Linear ∧ LinearList trees

end

mutual

/-- The leaves of the tree from left to right. -/
def plan : Tree A → List Task
  | .action label _ => [⟨[], .act label⟩]
  | .wait duration _ => [⟨[], .rest duration⟩]
  | .leaf _ => []
  | .sequence children => planList children
  | .selector children => planList children
  | .condition _ _ child => planOption child
  | .service _ _ _ child => planOption child

def planList : List (Tree A) → List Task
  | [] => []
  | tree :: trees => tree.plan.map (·.move inFirst) ++ (planList trees).map (·.move inLater)

def planOption : Option (Tree A) → List Task
  | none => []
  | some tree => tree.plan.map (·.move inFirst)

end

mutual

/-- What is left to do of a tree that has not ended. -/
def agenda : (tree : Tree A) → tree.State → List Entry
  | .action label _, _ => [.fresh ⟨[], .act label⟩]
  | .wait duration _, state =>
    [⟨⟨[], .rest duration⟩, if state.status = .inactive then none else some state.startedAt⟩]
  | .leaf _, _ => []
  | .sequence children, state => agendaAt children state.begin.current state.begin.children
  | .selector _, _ => []
  | .condition _ _ _, _ => []
  | .service _ _ _ _, _ => []

def agendaAt : (trees : List (Tree A)) → Nat → StateList trees → List Entry
  | [], _, _ => []
  | tree :: trees, 0, (state, states) =>
    (tree.agenda state).map (·.move inFirst) ++ (agendaAt trees 0 states).map (·.move inLater)
  | _ :: trees, i + 1, (_, states) => (agendaAt trees i states).map (·.move inLater)

end

mutual

/-- The tree has not ended, and no node whose turn it is has. -/
def Underway : (tree : Tree A) → tree.State → Prop
  | .action _ _, state => state.status.isTerminated = false
  | .wait duration _, state =>
    state.status.isTerminated = false ∧ (state.status = .running → state.target = duration)
  | .leaf _, _ => False
  | .sequence children, state =>
    state.status.isTerminated = false ∧
      UnderwayAt children state.begin.current state.begin.children
  | .selector _, _ => False
  | .condition _ _ _, _ => False
  | .service _ _ _ _, _ => False

def UnderwayAt : (trees : List (Tree A)) → Nat → StateList trees → Prop
  | [], _, _ => True
  | tree :: _, 0, (state, _) => tree.Underway state
  | _ :: trees, i + 1, (_, states) => UnderwayAt trees i states

end

mutual

theorem Linear.builtIn : (tree : Tree A) → tree.Linear → tree.BuiltIn
  | .action _ _, _ => trivial
  | .wait _ _, _ => trivial
  | .sequence children, h => LinearList.builtIn children h

theorem LinearList.builtIn : (trees : List (Tree A)) → LinearList trees → BuiltInList trees
  | [], _ => trivial
  | tree :: trees, h => ⟨Linear.builtIn tree h.1, LinearList.builtIn trees h.2⟩

end

theorem Underway.isTerminated (tree : Tree A) (state : tree.State) (h : tree.Underway state) :
    (tree.status state).isTerminated = false := by
  cases tree with
  | action _ _ => exact h
  | wait _ _ | sequence _ => exact h.1
  | leaf _ | selector _ | condition _ _ _ | service _ _ _ _ => exact h.elim

mutual

theorem Quiet.underway : (tree : Tree A) → tree.Linear → (state : tree.State) → tree.Quiet state →
    tree.Underway state ∧ tree.agenda state = tree.plan.map .fresh
  | .action _ _, _, state, h => ⟨congrArg Status.isTerminated h, rfl⟩
  | .wait _ _, _, state, h => by
    rw [Quiet] at h
    rw [agenda, if_pos h, Underway, h]
    exact ⟨⟨rfl, by simp⟩, rfl⟩
  | .sequence children, htree, state, h => by
    obtain ⟨hidle, hquiet⟩ := h
    have hbelow := QuietList.underway children htree state.children hquiet
    rw [Underway, agenda, CompositeState.begin, if_pos hidle, hidle]
    exact ⟨⟨rfl, hbelow.1⟩, hbelow.2⟩

theorem QuietList.underway : (trees : List (Tree A)) → LinearList trees → (states : StateList trees) →
    QuietList trees states →
    UnderwayAt trees 0 states ∧ agendaAt trees 0 states = (planList trees).map .fresh
  | [], _, _, _ => ⟨trivial, rfl⟩
  | tree :: trees, htrees, (state, states), h => by
    obtain ⟨hunderway, hagenda⟩ := Quiet.underway tree htrees.1 state h.1
    obtain ⟨-, hrest⟩ := QuietList.underway trees htrees.2 states h.2
    refine ⟨hunderway, ?_⟩
    rw [agendaAt, planList, hagenda, hrest, List.map_append, List.map_map, List.map_map, List.map_map,
      List.map_map]
    rfl

end

mutual

theorem stops_turns : (tree : Tree A) → tree.Linear → (state : tree.State) → (world : World A) →
    Delivery.turns (tree.stops state world) = []
  | .action _ _, _, _, _ => rfl
  | .wait _ _, _, _, _ => rfl
  | .sequence children, htree, state, world => by
    rw [stops]
    split
    · rfl
    · exact stopsAt_turns children htree state.current state.children world

theorem stopsAt_turns : (trees : List (Tree A)) → LinearList trees → (i : Nat) →
    (states : StateList trees) → (world : World A) → Delivery.turns (stopsAt trees i states world) = []
  | [], _, _, _, _ => rfl
  | tree :: _, htrees, 0, (state, _), world => by
    rw [stopsAt, Delivery.turns_first, Message.turns_mail, stops_turns tree htrees.1 state world]
    rfl
  | _ :: trees, htrees, i + 1, (_, states), world => by
    rw [stopsAt, Delivery.turns_later, stopsAt_turns trees htrees.2 i states world]
    rfl

end

mutual

theorem releases_turns : (tree : Tree A) → tree.Linear → (state : tree.State) → (world : World A) →
    Delivery.turns (tree.releases state world) = []
  | .action _ _, _, _, _ => rfl
  | .wait _ _, _, _, _ => rfl
  | .sequence children, htree, state, world => by
    rw [releases]
    dsimp only
    rw [Delivery.turns_append, stops_turns (.sequence children) htree state world,
      releasesList_turns children htree _ _]
    rfl

theorem releasesList_turns : (trees : List (Tree A)) → LinearList trees → (states : StateList trees) →
    (world : World A) → Delivery.turns (releasesList trees states world) = []
  | [], _, _, _ => rfl
  | tree :: trees, htrees, (state, states), world => by
    rw [releasesList, Delivery.turns_append, Delivery.turns_first, Delivery.turns_later,
      Message.turns_mail, releases_turns tree htrees.1 state world,
      releasesList_turns trees htrees.2 states _]
    rfl

end

/-- What a tick makes of a tree that is under way: it gives its agenda a turn. -/
structure Goes (tree : Tree A) (state : tree.State) (world : World A)
    (after : Outcome × tree.State × World A) : Prop where
  turns : (tree.mail .tick state world).turns = (Agenda.run world.now (tree.agenda state)).1
  status : tree.status after.2.1 = after.1.status
  ended : (Agenda.run world.now (tree.agenda state)).2 = [] → after.1 = .success
  left : (Agenda.run world.now (tree.agenda state)).2 ≠ [] →
    after.1 = .running ∧ tree.Underway after.2.1 ∧
      tree.agenda after.2.1 = (Agenda.run world.now (tree.agenda state)).2

structure GoesFrom (trees : List (Tree A)) (delivery : Delivery A) (agenda : List Entry) (now : Duration)
    (after : Outcome × Nat × StateList trees × World A) : Prop where
  turns : delivery.turns = (Agenda.run now agenda).1
  ended : (Agenda.run now agenda).2 = [] → after.1 = .success
  left : (Agenda.run now agenda).2 ≠ [] →
    after.1 = .running ∧ UnderwayAt trees after.2.1 after.2.2.1 ∧
      agendaAt trees after.2.1 after.2.2.1 = (Agenda.run now agenda).2

/-- A wait that is under way runs once it is started, since the instant at which it was begun. -/
theorem start_wait_underway {duration : Duration} (state : (Tree.wait (A := A) duration 0).State)
    (world : World A) (hfit : (Tree.wait (A := A) duration 0).Fit state)
    (h : (Tree.wait (A := A) duration 0).Underway state) :
    ∃ random, (Tree.wait duration 0).start state world = (⟨.running,
      (if state.status = .inactive then none else some state.startedAt).getD world.now, duration,
      random⟩, world) := by
  obtain ⟨status, startedAt, target, random⟩ := state
  refine ⟨random, ?_⟩
  cases status with
  | inactive => rfl
  | running =>
    obtain rfl : target = duration := h.2 rfl
    rfl
  | succeeded => cases h.1
  | failed => cases h.1

theorem settles_turns (trees : List (Tree A)) (htrees : LinearList trees) (outcome : Outcome)
    (states : StateList trees) (world : World A) :
    Delivery.turns (settles trees outcome states world) = [] := by
  unfold settles
  split
  · rfl
  · exact releasesList_turns trees htrees states world

theorem GoesFrom.rest {trees : List (Tree A)} (htrees : LinearList trees)
    {state : (Tree.sequence trees).State} {world : World A}
    (hrun : state.begin.status.outcome? = none)
    (h : GoesFrom trees (ticksFrom .success trees state.begin.current state.begin.children world)
      (agendaAt trees state.begin.current state.begin.children) world.now
      (tickFrom .success trees state.begin.current state.begin.children world)) :
    Goes (.sequence trees) state world ((Tree.sequence trees).tick state world) := by
  have hticks := ticks_sequence trees state world
  rw [hrun] at hticks
  rw [tick_sequence, hrun]
  dsimp only [tickRest, ticksRest] at hticks ⊢
  rcases hfrom : tickFrom .success trees state.begin.current state.begin.children world with
    ⟨outcome, current, states, after⟩
  rw [hfrom] at h hticks
  dsimp only at hticks ⊢
  refine ⟨?_, rfl, h.ended, fun hleft => ?_⟩
  · rw [mail, delivers, hticks, Message.turns_mail, Delivery.turns_append, h.turns,
      settles_turns trees htrees, List.append_nil]
    rfl
  · obtain ⟨hgoing, hunderway, hagenda⟩ := h.left hleft
    obtain rfl : outcome = .running := hgoing
    exact ⟨rfl, ⟨rfl, hunderway⟩, hagenda⟩

mutual

theorem tick_goes : (tree : Tree A) → tree.Linear → (state : tree.State) → (world : World A) →
    tree.Fit state → tree.Underway state → Goes tree state world (tree.tick state world)
  | .action label command, _, state, world, _, h => by
    rw [Underway] at h
    have hgoing : state.status ≠ .succeeded := fun hended => by simp [hended, Status.isTerminated] at h
    rw [tick, if_neg hgoing]
    exact ⟨rfl, rfl, fun _ => rfl, fun hleft => absurd rfl hleft⟩
  | .wait duration variance, htree, state, world, hfit, h => by
    obtain rfl : variance = 0 := htree
    obtain ⟨random, hstart⟩ := start_wait_underway state world hfit h
    rw [tick, hstart]
    dsimp only
    rw [if_neg (by simp)]
    by_cases hlong : world.now -
        (if state.status = .inactive then none else some state.startedAt).getD world.now < duration
    · have hrun : Agenda.run world.now ((Tree.wait duration 0).agenda state) = _ :=
        Agenda.run_singleton_of_lt hlong
      rw [if_pos hlong]
      refine ⟨?_, rfl, ?_, fun _ => ⟨rfl, ⟨rfl, fun _ => rfl⟩, ?_⟩⟩
      · rw [hrun]
        rfl
      · rw [hrun]
        exact nofun
      · rw [hrun]
        rfl
    · have hrun : Agenda.run world.now ((Tree.wait duration 0).agenda state) = _ :=
        Agenda.run_singleton_of_le (Nat.le_of_not_lt hlong)
      rw [if_neg hlong]
      refine ⟨?_, rfl, fun _ => rfl, fun hleft => ?_⟩
      · rw [hrun]
        rfl
      · rw [hrun] at hleft
        exact absurd rfl hleft
  | .sequence children, htree, state, world, hfit, h => by
    rw [fit_sequence] at hfit
    have hrun := state.begin_outcome? h.1
    have hcurrent := hfit.begin.current (state.begin_running hrun)
    exact (tickFrom_goes children htree _ _ world hcurrent h.2).rest htree hrun

theorem tickFrom_goes : (trees : List (Tree A)) → LinearList trees → (i : Nat) →
    (states : StateList trees) → (world : World A) → FitAt trees i states → UnderwayAt trees i states →
    GoesFrom trees (ticksFrom .success trees i states world) (agendaAt trees i states) world.now
      (tickFrom .success trees i states world)
  | [], _, _, _, _, _, _ => ⟨rfl, fun _ => rfl, fun hleft => absurd rfl hleft⟩
  | tree :: trees, htrees, 0, (state, states), world, hfit, h => by
    rw [FitAt] at hfit
    have hticked := tick_fit tree state world hfit.1
    have hgoes := tick_goes tree htrees.1 state world hfit.1 h
    have hmail := hgoes.turns
    rw [mail, delivers] at hmail
    have hrun := Agenda.run_append world.now ((tree.agenda state).map (·.move inFirst))
      ((agendaAt trees 0 states).map (·.move inLater))
    rw [Agenda.run_move, Agenda.run_move] at hrun
    change (_ → Agenda.run world.now (agendaAt (tree :: trees) 0 (state, states)) = _) ∧
      (_ → Agenda.run world.now (agendaAt (tree :: trees) 0 (state, states)) = _) at hrun
    rcases htick : tree.tick state world with ⟨outcome, ticked, after⟩
    rw [htick] at hticked hgoes
    have hstop := stop_quiet tree ticked after hticked.fit
    have hnow : (tree.stop ticked after).2.now = world.now :=
      hstop.2.now_eq.trans hticked.deals.now_eq
    have hrest := tickFrom_goes trees htrees.2 0 states (tree.stop ticked after).2
      (QuietList.fitAt _ _ _ hfit.2) (QuietList.underway trees htrees.2 states hfit.2).1
    rw [hnow] at hrest
    rw [ticksFrom_zero .success tree trees state states world htick,
      tickFrom_zero .success tree trees state states world htick]
    have hturns : (Message.mail ⟨.stop, ⟨tree, ticked⟩, after⟩ (tree.stops ticked after)).turns = [] := by
      rw [Message.turns_mail, stops_turns tree htrees.1 ticked after]
      rfl
    by_cases hdone : (Agenda.run world.now (tree.agenda state)).2 = []
    · have hrun := hrun.1 (List.map_eq_nil_iff.mpr hdone)
      have hended : ¬Outcome.success = .running := by simp
      obtain rfl : outcome = .success := hgoes.ended hdone
      rw [if_neg hended, if_neg hended, if_pos rfl, if_pos rfl]
      refine ⟨?_, ?_, ?_⟩ <;> rw [hrun]
      · rw [Delivery.turns_append, Delivery.turns_append, Delivery.turns_first, Delivery.turns_first,
          Delivery.turns_later, hturns, hmail, hrest.turns]
        rfl
      · exact fun hdone => hrest.ended (List.map_eq_nil_iff.mp hdone)
      · intro hleft
        obtain ⟨hgoing, hunderway, hagenda⟩ := hrest.left (mt List.map_eq_nil_iff.mpr hleft)
        refine ⟨hgoing, hunderway, ?_⟩
        rw [agendaAt, hagenda]
    · have hrun := hrun.2 (mt List.map_eq_nil_iff.mp hdone)
      obtain ⟨hgoing, hunderway, hagenda⟩ := hgoes.left hdone
      obtain rfl : outcome = .running := hgoing
      rw [if_pos rfl, if_pos rfl]
      refine ⟨?_, ?_, fun _ => ⟨rfl, hunderway, ?_⟩⟩ <;> rw [hrun]
      · rw [Delivery.turns_append, Delivery.turns_first, hmail]
        exact List.append_nil _
      · exact fun hended => absurd (List.map_eq_nil_iff.mp (List.append_eq_nil_iff.mp hended).1) hdone
      · rw [agendaAt, hagenda]
  | tree :: trees, htrees, i + 1, (state, states), world, hfit, h => by
    rw [FitAt] at hfit
    have hrest := tickFrom_goes trees htrees.2 i states world hfit.2 h
    rw [tickFrom, ticksFrom, agendaAt]
    refine ⟨?_, ?_, ?_⟩ <;> rw [Agenda.run_move]
    · rw [Delivery.turns_later, hrest.turns]
    · exact fun hended => hrest.ended (List.map_eq_nil_iff.mp hended)
    · intro hleft
      obtain ⟨hgoing, hunderway, hagenda⟩ := hrest.left (mt List.map_eq_nil_iff.mpr hleft)
      refine ⟨hgoing, hunderway, ?_⟩
      rw [agendaAt, hagenda]

end

theorem start_follows (tree : Tree A) (htree : tree.Linear) (state : tree.State) (world : World A)
    (h : tree.Quiet state) :
    tree.Underway (tree.start state world).1 ∧
      Agenda.Follows world.now tree.plan (tree.mail .start state world).turns
        (tree.agenda (tree.start state world).1) world.now := by
  have hnil : Agenda.Fulfils world.now [] [] world.now := .nil
  have hnow : world.now ≤ world.now := Nat.le_refl _
  cases tree with
  | action label command =>
    rw [Quiet] at h
    rw [start, if_pos h]
    exact ⟨rfl, .between hnil hnow⟩
  | wait duration variance =>
    obtain rfl : variance = 0 := htree
    obtain ⟨status, startedAt, target, random⟩ := state
    obtain rfl : status = .inactive := h
    have hmem := List.mem_singleton_self (⟨⟨[], .rest duration⟩, world.now⟩ : Turn)
    exact ⟨⟨rfl, fun _ => rfl⟩,
      .resting hnil rfl hnow hnow (List.forall_mem_singleton.mpr rfl) hmem⟩
  | sequence children =>
    obtain ⟨hunderway, hagenda⟩ := Quiet.underway (.sequence children) htree state h
    have hidle := h.1
    rw [Underway, CompositeState.begin, if_pos hidle] at hunderway
    rw [agenda, CompositeState.begin, if_pos hidle] at hagenda
    rw [start, CompositeState.begin, if_pos hidle]
    refine ⟨⟨rfl, hunderway.2⟩, ?_⟩
    change Agenda.Follows _ _ _ (agendaAt children 0 state.children) _
    rw [show agendaAt children 0 state.children = _ from hagenda]
    exact .between hnil hnow
  | leaf _ | selector _ | condition _ _ _ | service _ _ _ _ => exact htree.elim

mutual

theorem plan_nodup : (tree : Tree A) → tree.plan.Nodup
  | .action _ _ => List.nodup_singleton _
  | .wait _ _ => List.nodup_singleton _
  | .leaf _ => List.nodup_nil
  | .sequence children => planList_nodup children
  | .selector children => planList_nodup children
  | .condition _ _ child => planOption_nodup child
  | .service _ _ _ child => planOption_nodup child

theorem planList_nodup : (trees : List (Tree A)) → (planList trees).Nodup
  | [] => List.nodup_nil
  | tree :: trees => by
    have hfirst := (plan_nodup tree).map (Task.move_injective inFirst_injective)
    have hlater := (planList_nodup trees).map (Task.move_injective inLater_injective)
    refine hfirst.append hlater fun task hmem hmem' => ?_
    obtain ⟨first, -, rfl⟩ := List.mem_map.mp hmem
    obtain ⟨later, -, hsame⟩ := List.mem_map.mp hmem'
    exact inLater_ne_inFirst (congrArg Task.position hsame)

theorem planOption_nodup : (tree : Option (Tree A)) → (planOption tree).Nodup
  | none => List.nodup_nil
  | some tree => (plan_nodup tree).map (Task.move_injective inFirst_injective)

end

end Tree

end BehaviorTree
