import BehaviorTree.Proofs.Leaves.Messages
import BehaviorTree.Proofs.Lifecycle.Session

namespace BehaviorTree

variable {A : Type}

/-- The label of the action that ran its command. -/
def Event.label? : Event → Option String
  | .acted label => some label
  | _ => none

namespace World

variable (world : World A)

/-- The labels of the actions that ran their commands. The latest comes first. -/
def acts : List String := world.journal.filterMap Event.label?

theorem acts_record (event : Event) : (world.record event).acts = event.label?.toList ++ world.acts := by
  rw [acts, record, List.filterMap_cons]
  cases event.label? <;> rfl

@[simp] theorem acts_record_silent {event : Event} (h : event.label? = none) :
    (world.record event).acts = world.acts := by
  rw [acts_record, h]
  rfl

@[simp] theorem acts_withReport (board : Board) (report : Option KeyWarning) :
    (world.withReport board report).acts = world.acts := by
  cases report with
  | none => rfl
  | some warning => exact acts_record_silent _ rfl

@[simp] theorem acts_evaluate (guard : Guard) : (world.evaluate guard).2.acts = world.acts :=
  world.acts_withReport _ _

@[simp] theorem acts_judge (guard : Guard) (observer : ObserverId) :
    (world.judge guard observer).2.acts = world.acts :=
  (acts_record_silent _ rfl).trans (world.acts_evaluate guard)

@[simp] theorem acts_observe (observer : Option ObserverId) (key : String) :
    (world.observe observer key).2.acts = world.acts := by
  cases observer <;> rfl

@[simp] theorem acts_breaks (guard : Guard) (observer : ObserverId) :
    (world.breaks guard observer).2.acts = world.acts := by
  rw [breaks]
  dsimp only
  split
  · exact world.acts_evaluate guard
  · exact (acts_record_silent _ rfl).trans (world.acts_evaluate guard)

@[simp] theorem acts_stoppedHolding (guard : Guard) (observer : Option ObserverId) :
    (world.stoppedHolding guard observer).2.acts = world.acts := by
  cases observer with
  | none => rfl
  | some id =>
    rw [stoppedHolding]
    split
    · exact (world.acknowledge id).acts_breaks guard id
    · rfl

@[simp] theorem acts_startedHolding (guard : Guard) (observer : Option ObserverId) :
    (world.startedHolding guard observer).2.acts = world.acts := by
  cases observer with
  | none => rfl
  | some id =>
    rw [startedHolding]
    split
    · exact (world.acknowledge id).acts_judge guard id
    · rfl

@[simp] theorem acts_dismiss? (observer : Option ObserverId) :
    (world.dismiss? observer).acts = world.acts := by
  cases observer with
  | none => rfl
  | some id =>
    rw [dismiss?, dismiss]
    split
    · exact acts_record_silent _ rfl
    · rfl

@[simp] theorem acts_unsubscribe? (observer : Option ObserverId) :
    (world.unsubscribe? observer).acts = world.acts := by
  cases observer <;> rfl

@[simp] theorem acts_cancel? (timer : Option TimerId) : (world.cancel? timer).acts = world.acts := by
  cases timer <;> rfl

@[simp] theorem acts_run (callback : Routine A) : (callback.run world).acts = world.acts := by
  induction callback generalizing world with
  | done => rfl
  | act effect next ih => exact ih (world.mapAgent effect)
  | look next ih => exact ih _ world
  | get key next ih => exact ih _ world
  | getNumber key next ih => exact (ih _ _).trans (world.acts_withReport _ _)
  | getBool key next ih => exact (ih _ _).trans (world.acts_withReport _ _)
  | set key value next ih => exact ih _ _
  | remove key next ih => exact ih _ _

@[simp] theorem acts_refresh (timer : TimerId) (callback : Routine A) :
    (world.refresh timer callback).acts = world.acts :=
  (acts_run _ callback).trans (acts_record_silent _ rfl)

section Advance

variable {fire : TimerId → World A → Bool × World A}

theorem acts_dispatch (hfire : ∀ id world, (fire id world).2.acts = world.acts) (id : TimerId) :
    (world.dispatch fire id).acts = world.acts := by
  have hfired := hfire id world
  rw [dispatch]
  rcases hanswer : fire id world with ⟨owned, fired⟩
  rw [hanswer] at hfired
  cases owned with
  | true => exact hfired
  | false => exact (fired.acts_record_silent rfl).trans hfired

theorem acts_fireDue (hfire : ∀ id world, (fire id world).2.acts = world.acts) (limit : Duration)
    (fuel : Nat) : (fireDue fire limit fuel world).acts = world.acts := by
  induction fuel generalizing world with
  | zero => rfl
  | succ fuel ih =>
    rw [fireDue]
    cases world.clock.popDue? limit with
    | none => rfl
    | some due =>
      dsimp only
      split
      · rfl
      · exact (ih _).trans (acts_dispatch { world with clock := due.2 } hfire due.1)

theorem acts_advance (hfire : ∀ id world, (fire id world).2.acts = world.acts) (dt : Duration) :
    (world.advance fire dt).acts = world.acts := by
  rw [advance]
  dsimp only
  split
  · rfl
  · exact world.acts_fireDue hfire _ _

end Advance

@[simp] theorem acts_reset (values : Values) : (world.reset values).acts = world.acts := by
  rw [reset]
  dsimp only
  split
  · rfl
  · exact acts_record_silent _ rfl

end World

namespace Subtree

def isAction : Subtree A → Bool
  | ⟨.action _ _, _⟩ => true
  | _ => false

def isTask : Subtree A → Bool
  | ⟨.action _ _, _⟩ => true
  | ⟨.wait _ _, _⟩ => true
  | _ => false

theorem isTask_of_isAction {node : Subtree A} (h : node.isAction = true) :
    node.isTask = true := by
  obtain ⟨tree, state⟩ := node
  cases tree <;> first | rfl | cases h

end Subtree

namespace Message

/-- An action or a wait that is ticked has not ended. -/
def Timely (message : Message A) : Prop :=
  message.signal = .tick → message.node.isTask = true → message.node.status.isTerminated = false

def action? : Message A → Option String
  | ⟨.tick, ⟨.action label _, _⟩, _⟩ => some label
  | _ => none

variable {message : Message A}

theorem action?_of_ne_tick (h : message.signal ≠ .tick) : message.action? = none := by
  obtain ⟨signal, node, world⟩ := message
  cases signal with
  | tick => exact absurd rfl h
  | start | stop | release => rfl

theorem action?_of_not_task (h : message.node.isTask = false) : message.action? = none := by
  obtain ⟨signal, ⟨tree, state⟩, world⟩ := message
  cases tree with
  | action _ _ => cases h
  | wait _ _ | leaf _ | sequence _ | selector _ | condition _ _ _ | service _ _ _ _ =>
    cases signal <;> rfl

theorem isAction_done (message : Message A) : message.done.isAction = message.node.isAction := by
  obtain ⟨signal, ⟨tree, state⟩, world⟩ := message
  cases tree <;> rfl

end Message

/-- The messages in the entries are all timely, and the commands that ran meanwhile are those of the
actions that were ticked. -/
structure Runs {ι : Type} (message : ι → Message A) (entries : List ι) (before after : World A) :
    Prop where
  timely : ∀ entry ∈ entries, (message entry).Timely
  acts : after.acts = (entries.filterMap fun entry => (message entry).action?).reverse ++ before.acts

abbrev Mail.Runs (mail : Mail A) (before after : World A) : Prop :=
  BehaviorTree.Runs (fun entry => entry.2) mail before after

abbrev Delivery.Runs (delivery : Delivery A) (before after : World A) : Prop :=
  BehaviorTree.Runs (fun entry => entry.2.2) delivery before after

section Runs

variable {before middle after : World A}

namespace Runs

variable {ι : Type} {message : ι → Message A} {entries more : List ι}

theorem nil (h : after.acts = before.acts) : Runs message [] before after := ⟨List.forall_mem_nil _, h⟩

theorem append (h : Runs message entries before middle) (k : Runs message more middle after) :
    Runs message (entries ++ more) before after where
  timely := List.forall_mem_append.mpr ⟨h.timely, k.timely⟩
  acts := by rw [k.acts, h.acts, List.filterMap_append, List.reverse_append, List.append_assoc]

theorem after_silent (h : Runs message entries middle after) (hsilent : middle.acts = before.acts) :
    Runs message entries before after :=
  ⟨h.timely, by rw [h.acts, hsilent]⟩

theorem before_silent (h : Runs message entries before middle) (hsilent : after.acts = middle.acts) :
    Runs message entries before after :=
  ⟨h.timely, by rw [hsilent, h.acts]⟩

end Runs

theorem Mail.Runs.first {mail : Mail A} (h : Mail.Runs mail before after) :
    Delivery.Runs (Delivery.first mail) before after where
  timely := List.forall_mem_map.mpr h.timely
  acts := by
    rw [Delivery.first, List.filterMap_map]
    exact h.acts

namespace Delivery.Runs

variable {delivery : Delivery A}

theorem later (h : Delivery.Runs delivery before after) :
    Delivery.Runs (Delivery.later delivery) before after where
  timely := List.forall_mem_map.mpr h.timely
  acts := by
    rw [Delivery.later, List.filterMap_map]
    exact h.acts

variable {sent : Message A}

theorem message (h : Delivery.Runs delivery before after)
    (htimely : sent.Timely) (hnone : sent.action? = none) :
    Mail.Runs (sent.mail delivery) before after where
  timely := List.forall_mem_cons.mpr ⟨htimely, List.forall_mem_map.mpr h.timely⟩
  acts := by
    simp only [Message.mail, List.filterMap_cons, hnone, List.filterMap_map]
    exact h.acts

theorem message_of_ne_tick (h : Delivery.Runs delivery before after) (hsignal : sent.signal ≠ .tick) :
    Mail.Runs (sent.mail delivery) before after :=
  h.message (fun htick => absurd htick hsignal) (Message.action?_of_ne_tick hsignal)

theorem message_of_not_task (h : Delivery.Runs delivery before after)
    (hnode : sent.node.isTask = false) : Mail.Runs (sent.mail delivery) before after :=
  h.message (fun _ htask => by rw [hnode] at htask; cases htask)
    (Message.action?_of_not_task hnode)

end Delivery.Runs

end Runs

namespace Tree

mutual

theorem starts_runs : (tree : Tree A) → tree.BuiltIn → (state : tree.State) → (world : World A) →
    Delivery.Runs (tree.starts state world) world (tree.start state world).2
  | .action _ _, _, _, _ => .nil rfl
  | .wait duration variance, _, state, world => by
    rw [starts, start]
    split
    · exact .nil rfl
    · split <;> exact .nil rfl
  | .sequence _, _, _, _ => .nil rfl
  | .selector _, _, _, _ => .nil rfl
  | .condition guard policy child, htree, state, world => by
    rw [BuiltIn] at htree
    by_cases hidle : state.status = .inactive
    · have hobserved := world.acts_observe state.observer guard.key
      rcases hobserve : world.observe state.observer guard.key with ⟨id, observed⟩
      have hjudged := observed.acts_judge guard id
      rcases hjudge : observed.judge guard id with ⟨holds, judged⟩
      rw [hobserve] at hobserved
      rw [hjudge] at hjudged
      have hbelow := startsOption_runs child htree state.child judged
      rw [start_condition guard policy child state world hidle hobserve hjudge,
        starts_condition guard policy child state world hidle hobserve hjudge]
      cases child with
      | none =>
        rw [startsOption, ite_self]
        exact .nil hobserved
      | some child =>
        cases holds with
        | true => exact hbelow.after_silent (hjudged.trans hobserved)
        | false => exact .nil (hjudged.trans hobserved)
    · rw [starts, start, if_pos hidle, if_pos hidle]
      exact .nil rfl
  | .service label interval callback child, htree, state, world => by
    rw [BuiltIn] at htree
    by_cases hidle : state.status = .inactive
    · rw [start_service label interval callback child state world hidle rfl, starts,
        if_neg (by simp [hidle])]
      exact (startsOption_runs child htree state.child _).after_silent
        (world.acts_refresh ⟨world.clock.nextTimer⟩ callback)
    · rw [starts, start, if_pos hidle, if_pos hidle]
      exact .nil rfl

theorem startsOption_runs : (tree : Option (Tree A)) → BuiltInOption tree → (state : StateOption tree) →
    (world : World A) →
    Delivery.Runs (startsOption tree state world) world (startOption tree state world).2
  | none, _, _, _ => .nil rfl
  | some tree, htree, state, world =>
    Mail.Runs.first ((starts_runs tree htree state world).message_of_ne_tick (by simp))

end

mutual

theorem stops_runs : (tree : Tree A) → tree.BuiltIn → (state : tree.State) → (world : World A) →
    Delivery.Runs (tree.stops state world) world (tree.stop state world).2
  | .action _ _, _, _, _ => .nil rfl
  | .wait _ _, _, _, _ => .nil rfl
  | .sequence children, htree, state, world => by
    rw [BuiltIn] at htree
    rw [stops, stop]
    split
    · exact .nil rfl
    · exact stopsAt_runs children htree state.current state.children world
  | .selector children, htree, state, world => by
    rw [BuiltIn] at htree
    rw [stops, stop]
    split
    · exact .nil rfl
    · exact stopsAt_runs children htree state.current state.children world
  | .condition guard policy child, htree, state, world => by
    rw [BuiltIn] at htree
    rcases hbelow : (if state.status = .inactive then (state.child, world)
      else stopOption child state.child world) with ⟨below, stopped⟩
    have hruns : Delivery.Runs ((Tree.condition guard policy child).stops state world) world stopped := by
      rw [stops]
      split at hbelow <;> rename_i hidle
      · cases hbelow
        rw [if_pos hidle]
        exact .nil rfl
      · rw [if_neg hidle]
        simpa only [hbelow] using stopsOption_runs child htree state.child world
    have hdismissed := hruns.before_silent (stopped.acts_dismiss? state.observer)
    rw [stop_condition guard policy child state world hbelow]
    split
    · exact hdismissed.before_silent (World.acts_unsubscribe? _ state.observer)
    · exact hdismissed
  | .service label interval callback child, htree, state, world => by
    rw [BuiltIn] at htree
    rw [stops, stop_service]
    split
    · exact .nil (world.acts_cancel? state.timer)
    · exact (stopsOption_runs child htree state.child _).after_silent (world.acts_cancel? state.timer)

theorem stopsAt_runs : (trees : List (Tree A)) → BuiltInList trees → (i : Nat) →
    (states : StateList trees) → (world : World A) →
    Delivery.Runs (stopsAt trees i states world) world (stopAt trees i states world).2
  | [], _, _, _, _ => .nil rfl
  | tree :: _, htrees, 0, (state, _), world => by
    rw [BuiltInList] at htrees
    exact Mail.Runs.first ((stops_runs tree htrees.1 state world).message_of_ne_tick (by simp))
  | _ :: trees, htrees, i + 1, (_, states), world => by
    rw [BuiltInList] at htrees
    exact (stopsAt_runs trees htrees.2 i states world).later

theorem stopsOption_runs : (tree : Option (Tree A)) → BuiltInOption tree → (state : StateOption tree) →
    (world : World A) →
    Delivery.Runs (stopsOption tree state world) world (stopOption tree state world).2
  | none, _, _, _ => .nil rfl
  | some tree, htree, state, world =>
    Mail.Runs.first ((stops_runs tree htree state world).message_of_ne_tick (by simp))

end

mutual

theorem releases_runs : (tree : Tree A) → tree.BuiltIn → (state : tree.State) → (world : World A) →
    Delivery.Runs (tree.releases state world) world (tree.release state world).2
  | .action _ _, _, _, _ => .nil rfl
  | .wait _ _, _, _, _ => .nil rfl
  | .sequence children, htree, state, world => by
    have hstop := stops_runs (.sequence children) htree state world
    rw [BuiltIn] at htree
    rw [releases, release]
    exact hstop.append (releasesList_runs children htree _ _)
  | .selector children, htree, state, world => by
    have hstop := stops_runs (.selector children) htree state world
    rw [BuiltIn] at htree
    rw [releases, release]
    exact hstop.append (releasesList_runs children htree _ _)
  | .condition guard policy child, htree, state, world => by
    have hstop := stops_runs (.condition guard policy child) htree state world
    rw [BuiltIn] at htree
    rw [releases, release]
    exact (hstop.append (releasesOption_runs child htree _ _)).before_silent
      (World.acts_unsubscribe? _ _)
  | .service label interval callback child, htree, state, world => by
    have hstop := stops_runs (.service label interval callback child) htree state world
    rw [BuiltIn] at htree
    rw [releases, release]
    exact hstop.append (releasesOption_runs child htree _ _)

theorem releasesList_runs : (trees : List (Tree A)) → BuiltInList trees → (states : StateList trees) →
    (world : World A) →
    Delivery.Runs (releasesList trees states world) world (releaseList trees states world).2
  | [], _, _, _ => .nil rfl
  | tree :: trees, htrees, (state, states), world => by
    rw [BuiltInList] at htrees
    have hfirst : Mail.Runs (tree.mail .release state world) world (tree.release state world).2 :=
      (releases_runs tree htrees.1 state world).message_of_ne_tick (by simp)
    rw [releasesList, releaseList]
    exact hfirst.first.append (releasesList_runs trees htrees.2 states _).later

theorem releasesOption_runs : (tree : Option (Tree A)) → BuiltInOption tree →
    (state : StateOption tree) → (world : World A) →
    Delivery.Runs (releasesOption tree state world) world (releaseOption tree state world).2
  | none, _, _, _ => .nil rfl
  | some tree, htree, state, world =>
    Mail.Runs.first ((releases_runs tree htree state world).message_of_ne_tick (by simp))

end

mutual

theorem acts_preempts : (tree : Tree A) → (state : tree.State) → (world : World A) →
    (tree.preempts state world).2.acts = world.acts
  | .action _ _, _, _ => rfl
  | .wait _ _, _, _ => rfl
  | .leaf _, _, _ => rfl
  | .sequence _, _, _ => rfl
  | .selector _, _, _ => rfl
  | .condition guard policy child, state, world => by
    rw [preempts]
    split
    · rfl
    · split
      · rfl
      · exact world.acts_startedHolding guard state.observer
  | .service _ _ _ child, state, world => acts_preemptsOption child state.child world

theorem acts_preemptsOption : (tree : Option (Tree A)) → (state : StateOption tree) →
    (world : World A) → (preemptsOption tree state world).2.acts = world.acts
  | none, _, _ => rfl
  | some tree, state, world => acts_preempts tree state world

end

theorem acts_firstPreempting (trees : List (Tree A)) (limit : Nat) (states : StateList trees)
    (world : World A) : (firstPreempting trees limit states world).2.acts = world.acts := by
  induction trees generalizing limit world with
  | nil => rfl
  | cons tree trees ih =>
    obtain ⟨state, states⟩ := states
    cases limit with
    | zero => rfl
    | succ limit =>
      have hasked := acts_preempts tree state world
      rw [firstPreempting]
      split <;> rename_i heq <;> rw [heq] at hasked
      · exact hasked
      · exact (ih limit states _).trans hasked

mutual

theorem acts_fire : (tree : Tree A) → tree.BuiltIn → (state : tree.State) → (timer : TimerId) →
    (world : World A) → (tree.fire state timer world).2.acts = world.acts
  | .action _ _, _, _, _, _ => rfl
  | .wait _ _, _, _, _, _ => rfl
  | .sequence children, htree, state, timer, world => by
    rw [BuiltIn] at htree
    rw [fire]
    split
    · exact acts_fireAt children htree state.current state.children timer world
    · rfl
  | .selector children, htree, state, timer, world => by
    rw [BuiltIn] at htree
    rw [fire]
    split
    · exact acts_fireAt children htree state.current state.children timer world
    · rfl
  | .condition _ _ child, htree, state, timer, world => by
    rw [BuiltIn] at htree
    rw [fire]
    split
    · rfl
    · exact acts_fireOption child htree state.child timer world
  | .service _ _ callback child, htree, state, timer, world => by
    rw [BuiltIn] at htree
    rw [fire]
    split
    · rfl
    · split
      · exact world.acts_refresh timer callback
      · exact acts_fireOption child htree state.child timer world

theorem acts_fireAt : (trees : List (Tree A)) → BuiltInList trees → (i : Nat) →
    (states : StateList trees) → (timer : TimerId) → (world : World A) →
    (fireAt trees i states timer world).2.acts = world.acts
  | [], _, _, _, _, _ => rfl
  | tree :: _, htrees, 0, (state, _), timer, world => by
    rw [BuiltInList] at htrees
    exact acts_fire tree htrees.1 state timer world
  | _ :: trees, htrees, i + 1, (_, states), timer, world => by
    rw [BuiltInList] at htrees
    exact acts_fireAt trees htrees.2 i states timer world

theorem acts_fireOption : (tree : Option (Tree A)) → BuiltInOption tree → (state : StateOption tree) →
    (timer : TimerId) → (world : World A) → (fireOption tree state timer world).2.acts = world.acts
  | none, _, _, _, _ => rfl
  | some tree, htree, state, timer, world => acts_fire tree htree state timer world

end

end Tree

end BehaviorTree
