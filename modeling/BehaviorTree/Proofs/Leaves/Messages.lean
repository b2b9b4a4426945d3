import BehaviorTree.Proofs.Lifecycle.Positions

/-!
A node is told to start, to tick, to stop or to release by its parent, or by the host. It carries out the
signal itself and passes signals on to its children: `Tree.mail` are all messages that one signal causes
in a tree, in order, each with the node that gets it and the world by then. Nothing but its messages
changes a node: `Tree.mail_carries`.
-/

namespace BehaviorTree

variable {A : Type}

inductive Signal where
  | start
  | tick
  | stop
  | release
  deriving Repr, DecidableEq

/-- Carries out a signal. Only a tick has an outcome. -/
def Tree.signal (tree : Tree A) (signal : Signal) (state : tree.State) (world : World A) :
    Option Outcome × tree.State × World A :=
  match signal with
  | .start => (none, tree.start state world)
  | .tick => (some (tree.tick state world).1, (tree.tick state world).2)
  | .stop => (none, tree.stop state world)
  | .release => (none, tree.release state world)

/-- A node that gets a signal, as it is by then, and the world by then. -/
structure Message (A : Type) where
  signal : Signal
  node : Subtree A
  world : World A

/-- The node once it has carried out the signal. -/
def Message.done (message : Message A) : Subtree A :=
  ⟨message.node.tree, (message.node.tree.signal message.signal message.node.state message.world).2.1⟩

/-- Messages to a node and to the nodes below it, each with the position of the node that gets it. -/
abbrev Mail (A : Type) := List (List Nat × Message A)

/-- Messages that a node passes on to its children, each with the index of the child first. -/
abbrev Delivery (A : Type) := List (Nat × (List Nat × Message A))

namespace Delivery

def addressed (i : Nat) (delivery : Delivery A) : Mail A :=
  delivery.filterMap fun entry => if entry.1 = i then some entry.2 else none

def first (mail : Mail A) : Delivery A := mail.map (0, ·)

def later (delivery : Delivery A) : Delivery A := delivery.map fun entry => (entry.1 + 1, entry.2)

end Delivery

namespace Mail

def addressed (position : List Nat) (mail : Mail A) : List (Message A) :=
  mail.filterMap fun entry => if entry.1 = position then some entry.2 else none

end Mail

/-- A message and what the node passes on for it. -/
def Message.mail (message : Message A) (delivery : Delivery A) : Mail A :=
  ([], message) :: delivery.map fun entry => (entry.1 :: entry.2.1, entry.2.2)

namespace Tree

mutual

def starts : (tree : Tree A) → tree.State → World A → Delivery A
  | .action _ _, _, _ => []
  | .wait _ _, _, _ => []
  | .leaf _, _, _ => []
  | .sequence _, _, _ => []
  | .selector _, _, _ => []
  | .condition guard _ child, state, world =>
    if state.status ≠ .inactive then []
    else
      let (id, observed) := world.observe state.observer guard.key
      let (holds, judged) := observed.judge guard id
      if holds then startsOption child state.child judged else []
  | .service _ interval callback child, state, world =>
    if state.status ≠ .inactive then []
    else
      let refreshed := world.refresh ⟨world.clock.nextTimer⟩ callback
      startsOption child state.child (refreshed.addTimer interval).2

def startsOption : (tree : Option (Tree A)) → StateOption tree → World A → Delivery A
  | none, _, _ => []
  | some tree, state, world =>
    Delivery.first (Message.mail ⟨.start, ⟨tree, state⟩, world⟩ (tree.starts state world))

end

mutual

def stops : (tree : Tree A) → tree.State → World A → Delivery A
  | .action _ _, _, _ => []
  | .wait _ _, _, _ => []
  | .leaf _, _, _ => []
  | .sequence children, state, world =>
    if state.status = .inactive then [] else stopsAt children state.current state.children world
  | .selector children, state, world =>
    if state.status = .inactive then [] else stopsAt children state.current state.children world
  | .condition _ _ child, state, world =>
    if state.status = .inactive then [] else stopsOption child state.child world
  | .service _ _ _ child, state, world =>
    if state.status = .inactive then []
    else stopsOption child state.child (world.cancel? state.timer)

def stopsAt : (trees : List (Tree A)) → Nat → StateList trees → World A → Delivery A
  | [], _, _, _ => []
  | tree :: _, 0, (state, _), world =>
    Delivery.first (Message.mail ⟨.stop, ⟨tree, state⟩, world⟩ (tree.stops state world))
  | _ :: trees, i + 1, (_, states), world => Delivery.later (stopsAt trees i states world)

def stopsOption : (tree : Option (Tree A)) → StateOption tree → World A → Delivery A
  | none, _, _ => []
  | some tree, state, world =>
    Delivery.first (Message.mail ⟨.stop, ⟨tree, state⟩, world⟩ (tree.stops state world))

end

mutual

def releases : (tree : Tree A) → tree.State → World A → Delivery A
  | .action _ _, _, _ => []
  | .wait _ _, _, _ => []
  | .leaf _, _, _ => []
  | .sequence children, state, world =>
    let (stopped, after) := (Tree.sequence children).stop state world
    (Tree.sequence children).stops state world ++ releasesList children stopped.children after
  | .selector children, state, world =>
    let (stopped, after) := (Tree.selector children).stop state world
    (Tree.selector children).stops state world ++ releasesList children stopped.children after
  | .condition guard policy child, state, world =>
    let (stopped, after) := (Tree.condition guard policy child).stop state world
    (Tree.condition guard policy child).stops state world ++ releasesOption child stopped.child after
  | .service label interval callback child, state, world =>
    let (stopped, after) := (Tree.service label interval callback child).stop state world
    (Tree.service label interval callback child).stops state world ++
      releasesOption child stopped.child after

def releasesList : (trees : List (Tree A)) → StateList trees → World A → Delivery A
  | [], _, _ => []
  | tree :: trees, (state, states), world =>
    Delivery.first (Message.mail ⟨.release, ⟨tree, state⟩, world⟩ (tree.releases state world)) ++
      Delivery.later (releasesList trees states (tree.release state world).2)

def releasesOption : (tree : Option (Tree A)) → StateOption tree → World A → Delivery A
  | none, _, _ => []
  | some tree, state, world =>
    Delivery.first (Message.mail ⟨.release, ⟨tree, state⟩, world⟩ (tree.releases state world))

end

def settles (trees : List (Tree A)) (outcome : Outcome) (states : StateList trees) (world : World A) :
    Delivery A :=
  if outcome = .running then [] else releasesList trees states world

def handsOver (children : List (Tree A)) (state : CompositeState (StateList children))
    (world : World A) : Delivery A :=
  match firstPreempting children state.current state.children world with
  | (none, _) => []
  | (some (winner, preemption), asked) =>
    stopsAt children state.current state.children
      (asked.record (.preempted winner state.current preemption))

mutual

def ticks : (tree : Tree A) → tree.State → World A → Delivery A
  | .action _ _, _, _ => []
  | .wait _ _, _, _ => []
  | .leaf _, _, _ => []
  | .sequence children, state, world =>
    match state.begin.status.outcome? with
    | some _ => []
    | none =>
      let (outcome, _, states, after) :=
        tickFrom .success children state.begin.current state.begin.children world
      ticksFrom .success children state.begin.current state.begin.children world ++
        settles children outcome states after
  | .selector children, state, world =>
    match state.begin.status.outcome? with
    | some _ => []
    | none =>
      handsOver children state.begin world ++
        match arbitrate children state.begin world with
        | (some current, states, asked) =>
          let (outcome, _, ticked, after) := tickFrom .fail children current states asked
          ticksFrom .fail children current states asked ++ settles children outcome ticked after
        | (none, states, asked) => settles children .fail states asked
  | .condition guard policy child, state, world =>
    let (started, begun) := (Tree.condition guard policy child).start state world
    (Tree.condition guard policy child).starts state world ++
      match started.status.outcome? with
      | some _ => []
      | none =>
        let (broken, checked) :=
          if policy.abortsSelf then begun.stoppedHolding guard started.observer else (false, begun)
        if broken then stopsOption child started.child checked
        else ticksOption child started.child checked
  | .service label interval callback child, state, world =>
    let (started, begun) := (Tree.service label interval callback child).start state world
    (Tree.service label interval callback child).starts state world ++
      match started.status.outcome? with
      | some _ => []
      | none => ticksOption child started.child begun

def ticksFrom (goOn : Outcome) :
    (trees : List (Tree A)) → Nat → StateList trees → World A → Delivery A
  | [], _, _, _ => []
  | tree :: trees, 0, (state, states), world =>
    let (outcome, ticked, after) := tree.tick state world
    Delivery.first (Message.mail ⟨.tick, ⟨tree, state⟩, world⟩ (tree.ticks state world)) ++
      if outcome = .running then []
      else
        Delivery.first (Message.mail ⟨.stop, ⟨tree, ticked⟩, after⟩ (tree.stops ticked after)) ++
          if outcome = goOn then Delivery.later (ticksFrom goOn trees 0 states (tree.stop ticked after).2)
          else []
  | _ :: trees, i + 1, (_, states), world => Delivery.later (ticksFrom goOn trees i states world)

def ticksOption : (tree : Option (Tree A)) → StateOption tree → World A → Delivery A
  | none, _, _ => []
  | some tree, state, world =>
    Delivery.first (Message.mail ⟨.tick, ⟨tree, state⟩, world⟩ (tree.ticks state world))

end

def ticksRest (goOn : Outcome) (trees : List (Tree A)) (current : Nat) (states : StateList trees)
    (world : World A) : Delivery A :=
  let (outcome, _, ticked, after) := tickFrom goOn trees current states world
  ticksFrom goOn trees current states world ++ settles trees outcome ticked after

/-- What a node passes on for a signal. -/
def delivers (tree : Tree A) : Signal → tree.State → World A → Delivery A
  | .start => tree.starts
  | .tick => tree.ticks
  | .stop => tree.stops
  | .release => tree.releases

def mail (tree : Tree A) (signal : Signal) (state : tree.State) (world : World A) : Mail A :=
  Message.mail ⟨signal, ⟨tree, state⟩, world⟩ (tree.delivers signal state world)

end Tree

section Addressed

variable {i : Nat} {position : List Nat}

@[simp] theorem Mail.addressed_append (mail more : Mail A) :
    Mail.addressed position (mail ++ more) =
      Mail.addressed position mail ++ Mail.addressed position more :=
  List.filterMap_append

@[simp] theorem Delivery.addressed_append (delivery more : Delivery A) :
    Delivery.addressed i (delivery ++ more) =
      Delivery.addressed i delivery ++ Delivery.addressed i more :=
  List.filterMap_append

@[simp] theorem Delivery.addressed_zero_first (mail : Mail A) :
    Delivery.addressed 0 (Delivery.first mail) = mail := by
  simp [addressed, first, List.filterMap_map]

@[simp] theorem Delivery.addressed_succ_first (mail : Mail A) :
    Delivery.addressed (i + 1) (Delivery.first mail) = [] := by
  simp [addressed, first, List.filterMap_map]

@[simp] theorem Delivery.addressed_zero_later (delivery : Delivery A) :
    Delivery.addressed 0 (Delivery.later delivery) = [] := by
  simp [addressed, later, List.filterMap_map]

@[simp] theorem Delivery.addressed_succ_later (delivery : Delivery A) :
    Delivery.addressed (i + 1) (Delivery.later delivery) = Delivery.addressed i delivery := by
  simp [addressed, later, List.filterMap_map]

@[simp] theorem Message.addressed_nil_mail (message : Message A) (delivery : Delivery A) :
    Mail.addressed [] (message.mail delivery) = [message] := by
  simp [Mail.addressed, mail, List.filterMap_map]

@[simp] theorem Message.addressed_cons_mail (message : Message A) (delivery : Delivery A) :
    Mail.addressed (i :: position) (message.mail delivery) =
      Mail.addressed position (Delivery.addressed i delivery) := by
  simp only [Mail.addressed, Delivery.addressed, mail, List.filterMap_cons, List.filterMap_map,
    List.filterMap_filterMap]
  refine List.filterMap_congr fun entry _ => ?_
  by_cases hi : entry.1 = i <;> simp [hi]

end Addressed

/-- The messages lead from the one state of a node to the other, one after the other. -/
inductive Chain : Subtree A → List (Message A) → Subtree A → Prop where
  | nil (node : Subtree A) : Chain node [] node
  | cons {message : Message A} {messages : List (Message A)} {last : Subtree A} :
    Chain message.done messages last → Chain message.node (message :: messages) last

/-- Each node becomes what its messages make of it. -/
def Mail.Carries (before after : Subtree A) (mail : Mail A) : Prop :=
  ∀ position node, before.at? position = some node →
    ∃ later, after.at? position = some later ∧ Chain node (Mail.addressed position mail) later

/-- Each node of a row becomes, with all below it, what its messages make of it. -/
def Delivery.Carries (before after : List (Subtree A)) (delivery : Delivery A) : Prop :=
  ∀ (i : Nat) (child : Subtree A), before[i]? = some child →
    ∃ later, after[i]? = some later ∧ Mail.Carries child later (Delivery.addressed i delivery)

theorem Chain.append {first middle last : Subtree A} {messages more : List (Message A)}
    (h : Chain first messages middle) (k : Chain middle more last) :
    Chain first (messages ++ more) last := by
  induction h with
  | nil node => exact k
  | cons _ ih => exact .cons (ih k)

theorem Chain.split {first last : Subtree A} {messages more : List (Message A)}
    (h : Chain first (messages ++ more) last) :
    ∃ middle, Chain first messages middle ∧ Chain middle more last := by
  induction messages generalizing first with
  | nil => exact ⟨first, .nil first, h⟩
  | cons message messages ih =>
    cases h with
    | cons h =>
      obtain ⟨middle, hbefore, hafter⟩ := ih h
      exact ⟨middle, .cons hbefore, hafter⟩

namespace Mail.Carries

variable {before middle after : Subtree A} {mail more : Mail A}

theorem refl (node : Subtree A) : Mail.Carries node node [] :=
  fun _ below hbelow => ⟨below, hbelow, .nil below⟩

theorem append (h : Mail.Carries before middle mail) (k : Mail.Carries middle after more) :
    Mail.Carries before after (mail ++ more) := by
  intro position node hnode
  obtain ⟨between, hbetween, hfirst⟩ := h position node hnode
  obtain ⟨later, hlater, hsecond⟩ := k position between hbetween
  refine ⟨later, hlater, ?_⟩
  rw [Mail.addressed_append]
  exact hfirst.append hsecond

/-- A node changes by its own message, and its children by what it passes on. -/
theorem of_message (message : Message A) {delivery : Delivery A}
    (h : Delivery.Carries message.node.children message.done.children delivery) :
    Mail.Carries message.node message.done (message.mail delivery) := by
  intro position node hnode
  cases position with
  | nil =>
    cases hnode
    rw [Message.addressed_nil_mail]
    exact ⟨message.done, rfl, .cons (.nil _)⟩
  | cons i position =>
    obtain ⟨child, hchild, hbelow⟩ := Subtree.at?_cons_eq_some hnode
    obtain ⟨carried, hcarried, hmail⟩ := h i child hchild
    obtain ⟨later, hlater, hchain⟩ := hmail position node hbelow
    rw [Message.addressed_cons_mail]
    exact ⟨later, by rw [Subtree.at?_cons hcarried, hlater], hchain⟩

end Mail.Carries

namespace Delivery.Carries

variable {before middle after : List (Subtree A)} {delivery more : Delivery A}
variable {node later : Subtree A} {mail : Mail A}

theorem refl (nodes : List (Subtree A)) : Delivery.Carries nodes nodes [] :=
  fun _ child hchild => ⟨child, hchild, .refl child⟩

theorem append (h : Delivery.Carries before middle delivery) (k : Delivery.Carries middle after more) :
    Delivery.Carries before after (delivery ++ more) := by
  intro i child hchild
  obtain ⟨between, hbetween, hfirst⟩ := h i child hchild
  obtain ⟨later, hlater, hsecond⟩ := k i between hbetween
  refine ⟨later, hlater, ?_⟩
  rw [Delivery.addressed_append]
  exact hfirst.append hsecond

theorem head (h : Mail.Carries node later mail) (nodes : List (Subtree A)) :
    Delivery.Carries (node :: nodes) (later :: nodes) (Delivery.first mail) := by
  intro i child hchild
  cases i with
  | zero =>
    cases hchild
    rw [Delivery.addressed_zero_first]
    exact ⟨later, rfl, h⟩
  | succ i =>
    rw [Delivery.addressed_succ_first]
    exact ⟨child, hchild, .refl child⟩

theorem tail (node : Subtree A) (h : Delivery.Carries before after delivery) :
    Delivery.Carries (node :: before) (node :: after) (Delivery.later delivery) := by
  intro i child hchild
  cases i with
  | zero =>
    rw [Delivery.addressed_zero_later]
    exact ⟨child, hchild, .refl child⟩
  | succ i =>
    rw [Delivery.addressed_succ_later]
    exact h i child hchild

end Delivery.Carries

namespace Tree

open Subtree (ofList ofOption)

theorem starts_condition (guard : Guard) (policy : RestartPolicy) (child : Option (Tree A))
    (state : (Tree.condition guard policy child).State) (world : World A)
    (hidle : state.status = .inactive) {observed judged : World A} {id : ObserverId} {holds : Bool}
    (hobserve : world.observe state.observer guard.key = (id, observed))
    (hjudge : observed.judge guard id = (holds, judged)) :
    (Tree.condition guard policy child).starts state world =
      if holds then startsOption child state.child judged else [] := by
  rw [starts, if_neg (by simp [hidle]), hobserve]
  dsimp only
  rw [hjudge]

mutual

theorem starts_carries : (tree : Tree A) → (state : tree.State) → (world : World A) →
    Delivery.Carries (Subtree.mk tree state).children
      (Subtree.mk tree (tree.start state world).1).children (tree.starts state world)
  | .action _ _, _, _ => .refl []
  | .wait _ _, _, _ => .refl []
  | .leaf _, _, _ => .refl []
  | .sequence children, state, _ => by
    rw [starts, start, Subtree.children, Subtree.children, state.begin_children]
    exact .refl _
  | .selector children, state, _ => by
    rw [starts, start, Subtree.children, Subtree.children, state.begin_children]
    exact .refl _
  | .condition guard policy child, state, world => by
    by_cases hidle : state.status = .inactive
    · rcases hobserve : world.observe state.observer guard.key with ⟨id, observed⟩
      rcases hjudge : observed.judge guard id with ⟨holds, judged⟩
      have hbelow := startsOption_carries child state.child judged
      rw [start_condition guard policy child state world hidle hobserve hjudge,
        starts_condition guard policy child state world hidle hobserve hjudge]
      cases child with
      | none =>
        rw [startsOption, ite_self]
        exact .refl _
      | some child =>
        cases holds with
        | true => exact hbelow
        | false => exact .refl _
    · rw [starts, start, if_pos hidle, if_pos hidle]
      exact .refl _
  | .service label interval callback child, state, world => by
    by_cases hidle : state.status = .inactive
    · rw [start_service label interval callback child state world hidle rfl, starts,
        if_neg (by simp [hidle])]
      exact startsOption_carries child state.child _
    · rw [starts, start, if_pos hidle, if_pos hidle]
      exact .refl _

theorem startsOption_carries : (tree : Option (Tree A)) → (state : StateOption tree) →
    (world : World A) →
    Delivery.Carries (ofOption tree state) (ofOption tree (startOption tree state world).1)
      (startsOption tree state world)
  | none, _, _ => .refl []
  | some tree, state, world => by
    rw [startsOption, startOption]
    exact .head (.of_message ⟨.start, ⟨tree, state⟩, world⟩
      (starts_carries tree state world)) []

end

mutual

theorem stops_carries : (tree : Tree A) → (state : tree.State) → (world : World A) →
    Delivery.Carries (Subtree.mk tree state).children
      (Subtree.mk tree (tree.stop state world).1).children (tree.stops state world)
  | .action _ _, _, _ => .refl []
  | .wait _ _, _, _ => .refl []
  | .leaf _, _, _ => .refl []
  | .sequence children, state, world => by
    rw [stops, stop]
    split
    · exact .refl _
    · exact stopsAt_carries children state.current state.children world
  | .selector children, state, world => by
    rw [stops, stop]
    split
    · exact .refl _
    · exact stopsAt_carries children state.current state.children world
  | .condition guard policy child, state, world => by
    rcases hbelow : (if state.status = .inactive then (state.child, world)
      else stopOption child state.child world) with ⟨below, stopped⟩
    have hcarries : Delivery.Carries (ofOption child state.child) (ofOption child below)
        ((Tree.condition guard policy child).stops state world) := by
      rw [stops]
      split at hbelow <;> rename_i hidle
      · cases hbelow
        rw [if_pos hidle]
        exact .refl _
      · rw [if_neg hidle]
        simpa only [hbelow] using stopsOption_carries child state.child world
    rw [stop_condition guard policy child state world hbelow]
    split <;> exact hcarries
  | .service label interval callback child, state, world => by
    rw [stops, stop_service]
    split
    · exact .refl _
    · exact stopsOption_carries child state.child _

theorem stopsAt_carries : (trees : List (Tree A)) → (i : Nat) → (states : StateList trees) →
    (world : World A) →
    Delivery.Carries (ofList trees states) (ofList trees (stopAt trees i states world).1)
      (stopsAt trees i states world)
  | [], _, _, _ => .refl []
  | tree :: trees, 0, (state, states), world => by
    rw [stopsAt, stopAt]
    exact .head (.of_message ⟨.stop, ⟨tree, state⟩, world⟩
      (stops_carries tree state world)) _
  | tree :: trees, i + 1, (state, states), world => by
    rw [stopsAt, stopAt]
    exact .tail _ (stopsAt_carries trees i states world)

theorem stopsOption_carries : (tree : Option (Tree A)) → (state : StateOption tree) →
    (world : World A) →
    Delivery.Carries (ofOption tree state) (ofOption tree (stopOption tree state world).1)
      (stopsOption tree state world)
  | none, _, _ => .refl []
  | some tree, state, world => by
    rw [stopsOption, stopOption]
    exact .head (.of_message ⟨.stop, ⟨tree, state⟩, world⟩
      (stops_carries tree state world)) []

end

mutual

theorem releases_carries : (tree : Tree A) → (state : tree.State) → (world : World A) →
    Delivery.Carries (Subtree.mk tree state).children
      (Subtree.mk tree (tree.release state world).1).children (tree.releases state world)
  | .action _ _, _, _ => .refl []
  | .wait _ _, _, _ => .refl []
  | .leaf _, _, _ => .refl []
  | .sequence children, state, world => by
    rw [releases, release]
    exact (stops_carries (.sequence children) state world).append (releasesList_carries children _ _)
  | .selector children, state, world => by
    rw [releases, release]
    exact (stops_carries (.selector children) state world).append (releasesList_carries children _ _)
  | .condition guard policy child, state, world => by
    rw [releases, release]
    exact (stops_carries (.condition guard policy child) state world).append
      (releasesOption_carries child _ _)
  | .service label interval callback child, state, world => by
    rw [releases, release]
    exact (stops_carries (.service label interval callback child) state world).append
      (releasesOption_carries child _ _)

theorem releasesList_carries : (trees : List (Tree A)) → (states : StateList trees) →
    (world : World A) →
    Delivery.Carries (ofList trees states) (ofList trees (releaseList trees states world).1)
      (releasesList trees states world)
  | [], _, _ => .refl []
  | tree :: trees, (state, states), world => by
    rw [releasesList, releaseList]
    have hfirst := Mail.Carries.of_message ⟨.release, ⟨tree, state⟩, world⟩
      (releases_carries tree state world)
    exact (Delivery.Carries.head hfirst (ofList trees states)).append
      (.tail _ (releasesList_carries trees states _))

theorem releasesOption_carries : (tree : Option (Tree A)) → (state : StateOption tree) →
    (world : World A) →
    Delivery.Carries (ofOption tree state) (ofOption tree (releaseOption tree state world).1)
      (releasesOption tree state world)
  | none, _, _ => .refl []
  | some tree, state, world => by
    rw [releasesOption, releaseOption]
    exact .head (.of_message ⟨.release, ⟨tree, state⟩, world⟩
      (releases_carries tree state world)) []

end

theorem stopAt_zero (tree : Tree A) (trees : List (Tree A)) (state : tree.State)
    (states : StateList trees) (world : World A) :
    stopAt (tree :: trees) 0 (state, states) world =
      (((tree.stop state world).1, states), (tree.stop state world).2) := by
  rw [stopAt]

theorem releaseList_cons (tree : Tree A) (trees : List (Tree A)) (state : tree.State)
    (states : StateList trees) (world : World A) :
    releaseList (tree :: trees) (state, states) world =
      (((tree.release state world).1, (releaseList trees states (tree.release state world).2).1),
        (releaseList trees states (tree.release state world).2).2) := by
  rw [releaseList]

theorem releasesList_cons (tree : Tree A) (trees : List (Tree A)) (state : tree.State)
    (states : StateList trees) (world : World A) :
    releasesList (tree :: trees) (state, states) world =
      Delivery.first (Message.mail ⟨.release, ⟨tree, state⟩, world⟩ (tree.releases state world)) ++
        Delivery.later (releasesList trees states (tree.release state world).2) := by
  rw [releasesList]

theorem settles_carries (trees : List (Tree A)) (outcome : Outcome) (current : Nat)
    (states : StateList trees) (world : World A) :
    Delivery.Carries (ofList trees states)
      (ofList trees (settle trees outcome current states world).2.1.children)
      (settles trees outcome states world) := by
  by_cases hrun : outcome = .running
  · rw [settle, settles, if_pos hrun, if_pos hrun]
    exact .refl _
  · rw [settle, settles, if_neg hrun, if_neg hrun]
    exact releasesList_carries trees states world

theorem handsOver_carries (children : List (Tree A)) (state : CompositeState (StateList children))
    (world : World A) :
    Delivery.Carries (ofList children state.children)
      (ofList children (arbitrate children state world).2.1) (handsOver children state world) := by
  unfold arbitrate handsOver
  rcases firstPreempting children state.current state.children world with
    ⟨_ | ⟨winner, preemption⟩, asked⟩
  · exact .refl _
  · exact stopsAt_carries children state.current state.children _

theorem ticksRest_carries {goOn : Outcome} {trees : List (Tree A)} {current : Nat}
    {states : StateList trees} {world : World A}
    (h : Delivery.Carries (ofList trees states)
      (ofList trees (tickFrom goOn trees current states world).2.2.1)
      (ticksFrom goOn trees current states world)) :
    Delivery.Carries (ofList trees states)
      (ofList trees (tickRest goOn trees current states world).2.1.children)
      (ticksRest goOn trees current states world) := by
  rw [ticksRest, tickRest]
  exact h.append (settles_carries trees _ _ _ _)

theorem ticks_sequence (children : List (Tree A)) (state : (Tree.sequence children).State)
    (world : World A) :
    (Tree.sequence children).ticks state world =
      match state.begin.status.outcome? with
      | some _ => []
      | none => ticksRest .success children state.begin.current state.begin.children world := by
  rw [ticks]
  rfl

theorem ticks_selector (children : List (Tree A)) (state : (Tree.selector children).State)
    (world : World A) :
    (Tree.selector children).ticks state world =
      match state.begin.status.outcome? with
      | some _ => []
      | none =>
        handsOver children state.begin world ++
          match arbitrate children state.begin world with
          | (some current, states, asked) => ticksRest .fail children current states asked
          | (none, states, asked) => settles children .fail states asked := by
  rw [ticks]
  rfl

theorem ticks_condition (guard : Guard) (policy : RestartPolicy) (child : Option (Tree A))
    (state : (Tree.condition guard policy child).State) (world : World A)
    {started : (Tree.condition guard policy child).State} {begun checked : World A} {broken : Bool}
    (hstart : (Tree.condition guard policy child).start state world = (started, begun))
    (hbroken : (if policy.abortsSelf then begun.stoppedHolding guard started.observer
      else (false, begun)) = (broken, checked)) :
    (Tree.condition guard policy child).ticks state world =
      (Tree.condition guard policy child).starts state world ++
        match started.status.outcome? with
        | some _ => []
        | none =>
          if broken then stopsOption child started.child checked
          else ticksOption child started.child checked := by
  rw [ticks, hstart]
  dsimp only
  rewrite [hbroken]
  rfl

theorem ticks_service (label : String) (interval : Duration) (callback : Routine A)
    (child : Option (Tree A)) (state : (Tree.service label interval callback child).State)
    (world : World A) {started : (Tree.service label interval callback child).State} {begun : World A}
    (hstart : (Tree.service label interval callback child).start state world = (started, begun)) :
    (Tree.service label interval callback child).ticks state world =
      (Tree.service label interval callback child).starts state world ++
        match started.status.outcome? with
        | some _ => []
        | none => ticksOption child started.child begun := by
  rewrite [ticks, hstart]
  rfl

theorem ticksFrom_zero (goOn : Outcome) (tree : Tree A) (trees : List (Tree A)) (state : tree.State)
    (states : StateList trees) (world : World A) {outcome : Outcome} {ticked : tree.State}
    {after : World A} (htick : tree.tick state world = (outcome, ticked, after)) :
    ticksFrom goOn (tree :: trees) 0 (state, states) world =
      Delivery.first (Message.mail ⟨.tick, ⟨tree, state⟩, world⟩ (tree.ticks state world)) ++
        if outcome = .running then []
        else
          Delivery.first (Message.mail ⟨.stop, ⟨tree, ticked⟩, after⟩ (tree.stops ticked after)) ++
            if outcome = goOn then
              Delivery.later (ticksFrom goOn trees 0 states (tree.stop ticked after).2)
            else [] := by
  rw [ticksFrom, htick]

mutual

theorem ticks_carries : (tree : Tree A) → (state : tree.State) → (world : World A) →
    Delivery.Carries (Subtree.mk tree state).children
      (Subtree.mk tree (tree.tick state world).2.1).children (tree.ticks state world)
  | .action _ _, _, _ => .refl []
  | .wait _ _, _, _ => .refl []
  | .leaf _, _, _ => .refl []
  | .sequence children, state, world => by
    have hrest := ticksRest_carries (ticksFrom_carries .success children state.begin.current
      state.begin.children world)
    rw [ticks_sequence, tick_sequence, Subtree.children, Subtree.children, ← state.begin_children]
    cases state.begin.status.outcome? with
    | some outcome => exact .refl _
    | none => exact hrest
  | .selector children, state, world => by
    have hasked := handsOver_carries children state.begin world
    rw [ticks_selector, tick_selector, Subtree.children, Subtree.children, ← state.begin_children]
    cases state.begin.status.outcome? with
    | some outcome => exact .refl _
    | none =>
      rcases harb : arbitrate children state.begin world with ⟨_ | current, states, asked⟩ <;>
        rw [harb] at hasked
      · exact hasked.append (settles_carries children .fail state.begin.current states asked)
      · exact hasked.append (ticksRest_carries
          (ticksFrom_carries .fail children current states asked))
  | .condition guard policy child, state, world => by
    have hbegun := starts_carries (.condition guard policy child) state world
    rcases hstart : (Tree.condition guard policy child).start state world with ⟨started, begun⟩
    rcases hbroken : (if policy.abortsSelf then begun.stoppedHolding guard started.observer
      else (false, begun)) with ⟨broken, checked⟩
    rw [hstart] at hbegun
    rw [tick_condition guard policy child state world hstart hbroken,
      ticks_condition guard policy child state world hstart hbroken]
    refine hbegun.append ?_
    cases started.status.outcome? with
    | some outcome => exact .refl _
    | none =>
      cases broken with
      | true => exact stopsOption_carries child started.child checked
      | false => exact ticksOption_carries child started.child checked
  | .service label interval callback child, state, world => by
    have hbegun := starts_carries (.service label interval callback child) state world
    rcases hstart : (Tree.service label interval callback child).start state world with
      ⟨started, begun⟩
    rw [hstart] at hbegun
    rw [tick_service label interval callback child state world hstart,
      ticks_service label interval callback child state world hstart]
    refine hbegun.append ?_
    cases started.status.outcome? with
    | some outcome => exact .refl _
    | none => exact ticksOption_carries child started.child begun

theorem ticksFrom_carries : (goOn : Outcome) → (trees : List (Tree A)) → (i : Nat) →
    (states : StateList trees) → (world : World A) →
    Delivery.Carries (ofList trees states) (ofList trees (tickFrom goOn trees i states world).2.2.1)
      (ticksFrom goOn trees i states world)
  | _, [], _, _, _ => .refl []
  | goOn, tree :: trees, 0, (state, states), world => by
    rcases htick : tree.tick state world with ⟨outcome, ticked, after⟩
    have hticked := Mail.Carries.of_message ⟨.tick, ⟨tree, state⟩, world⟩
      (ticks_carries tree state world)
    have hstopped := Mail.Carries.of_message ⟨.stop, ⟨tree, ticked⟩, after⟩
      (stops_carries tree ticked after)
    have hdone : (⟨.tick, ⟨tree, state⟩, world⟩ : Message A).done = ⟨tree, ticked⟩ := by
      rw [Message.done, Tree.signal, htick]
    rw [hdone] at hticked
    rw [tickFrom_zero goOn tree trees state states world htick,
      ticksFrom_zero goOn tree trees state states world htick]
    have hhead := Delivery.Carries.head hticked (ofList trees states)
    split
    · exact hhead.append (.refl _)
    · refine hhead.append ((Delivery.Carries.head hstopped (ofList trees states)).append ?_)
      split
      · exact .tail _ (ticksFrom_carries goOn trees 0 states _)
      · exact .refl _
  | goOn, tree :: trees, i + 1, (state, states), world => by
    rw [tickFrom, ticksFrom]
    exact .tail _ (ticksFrom_carries goOn trees i states world)

theorem ticksOption_carries : (tree : Option (Tree A)) → (state : StateOption tree) →
    (world : World A) →
    Delivery.Carries (ofOption tree state) (ofOption tree (tickOption tree state world).2.1)
      (ticksOption tree state world)
  | none, _, _ => .refl []
  | some tree, state, world => by
    rw [ticksOption, tickOption]
    exact .head (.of_message ⟨.tick, ⟨tree, state⟩, world⟩
      (ticks_carries tree state world)) []

end

/-- Nothing but its messages changes a node, whatever the signal. -/
theorem mail_carries (tree : Tree A) (signal : Signal) (state : tree.State) (world : World A) :
    Mail.Carries ⟨tree, state⟩ ⟨tree, (tree.signal signal state world).2.1⟩
      (tree.mail signal state world) := by
  refine Mail.Carries.of_message ⟨signal, ⟨tree, state⟩, world⟩ ?_
  cases signal with
  | start => exact starts_carries tree state world
  | tick => exact ticks_carries tree state world
  | stop => exact stops_carries tree state world
  | release => exact releases_carries tree state world

/-- Carries out signals one after the other. Each answer comes with the status after it. -/
def signals (tree : Tree A) :
    List Signal → tree.State → World A → List (Option Outcome × Status) × tree.State × World A
  | [], state, world => ([], state, world)
  | signal :: signals, state, world =>
    let (answer, next, after) := tree.signal signal state world
    let (answers, last, world) := tree.signals signals next after
    ((answer, tree.status next) :: answers, last, world)

def mails (tree : Tree A) : List Signal → tree.State → World A → Mail A
  | [], _, _ => []
  | signal :: signals, state, world =>
    let (_, next, after) := tree.signal signal state world
    tree.mail signal state world ++ tree.mails signals next after

theorem mails_carries (tree : Tree A) (signals : List Signal) (state : tree.State) (world : World A) :
    Mail.Carries ⟨tree, state⟩ ⟨tree, (tree.signals signals state world).2.1⟩
      (tree.mails signals state world) := by
  induction signals generalizing state world with
  | nil => exact .refl _
  | cons signal signals ih => exact (tree.mail_carries signal state world).append (ih _ _)

end Tree

end BehaviorTree
