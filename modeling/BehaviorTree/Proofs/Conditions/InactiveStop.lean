import BehaviorTree.Proofs.Restart.JournalUnread
import BehaviorTree.Proofs.Equivalence.LinkedObservers
import BehaviorTree.Proofs.Leaves.Messages

namespace BehaviorTree

variable {A : Type}

/-- What a node can be told or asked, and what can happen around it. -/
inductive Request (A : Type) where
  | signal (signal : Signal)
  | ask
  | fire (timer : TimerId)
  | advance (dt : Duration)
  | wind (change : Clock → Clock)
  | set (key : String) (value : Value)
  | remove (key : String)

inductive Reply where
  | obeyed (outcome : Option Outcome) (status : Status)
  | takesOver (preemption : Option Preemption)
  | owned (owned : Bool)
  | changed (changed : Bool)
  | removed (old : Option Value)
  | done

/-- Whether a node is asked before it gets its next signal. -/
def Request.asked : List (Request A) → Bool
  | [] => false
  | .ask :: _ => true
  | .signal _ :: _ => false
  | _ :: requests => asked requests

def World.mapClock (change : Clock → Clock) (world : World A) : World A :=
  { world with clock := change world.clock }

namespace Tree

def respond (tree : Tree A) (request : Request A) (state : tree.State) (world : World A) :
    Reply × tree.State × World A :=
  match request with
  | .signal signal =>
    let (outcome, next, after) := tree.signal signal state world
    (.obeyed outcome (tree.status next), next, after)
  | .ask =>
    let (preemption, after) := tree.preempts state world
    (.takesOver preemption, state, after)
  | .fire timer =>
    let (owned, after) := tree.fire state timer world
    (.owned owned, state, after)
  | .advance dt => (.done, state, world.advance (tree.fire state) dt)
  | .wind change => (.done, state, world.mapClock change)
  | .set key value =>
    let (changed, after) := world.set key value
    (.changed changed, state, after)
  | .remove key =>
    let (old, after) := world.remove key
    (.removed old, state, after)

def respondAll (tree : Tree A) :
    List (Request A) → tree.State → World A → List Reply × tree.State × World A
  | [], state, world => ([], state, world)
  | request :: requests, state, world =>
    let (reply, next, between) := tree.respond request state world
    let (replies, last, after) := tree.respondAll requests next between
    (reply :: replies, last, after)

/-- The states that a node can come to, whatever the world is like from request to request. -/
inductive Reached (tree : Tree A) : tree.State → Prop where
  | fresh (random : Random) : Reached tree (tree.fresh random).1
  | responded {state : tree.State} (request : Request A) (world : World A) :
    Reached tree state → Reached tree (tree.respond request state world).2.1

/-- An inactive service keeps no timer, and an inactive condition keeps an observer only if it can take
over. -/
def Tidy : (tree : Tree A) → tree.State → Prop
  | .action _ _, _ => True
  | .wait _ _, _ => True
  | .leaf _, _ => True
  | .sequence _, _ => True
  | .selector _, _ => True
  | .condition _ policy _, state =>
    state.status = .inactive → policy.preemption?.isNone = true → state.observer = none
  | .service _ _ _ _, state => state.status = .inactive → state.timer = none

theorem fresh_tidy (tree : Tree A) (random : Random) : tree.Tidy (tree.fresh random).1 := by
  cases tree with
  | condition guard policy child => exact fun _ _ => rfl
  | service label interval callback child => exact fun _ => rfl
  | action _ _ | wait _ _ | leaf _ | sequence _ | selector _ => trivial

theorem tick_condition_active (guard : Guard) (policy : RestartPolicy) (child : Option (Tree A))
    (state : (Tree.condition guard policy child).State) (world : World A) :
    ((Tree.condition guard policy child).tick state world).2.1.status ≠ .inactive := by
  have hactive := start_condition_active guard policy child state world
  rcases hstart : (Tree.condition guard policy child).start state world with ⟨started, begun⟩
  rcases hbroken : (if policy.abortsSelf then begun.stoppedHolding guard started.observer
    else (false, begun)) with ⟨broken, checked⟩
  rw [hstart] at hactive
  rw [tick_condition guard policy child state world hstart hbroken]
  split
  · exact hactive
  · split
    · simp
    · exact Outcome.status_ne_inactive _

theorem tick_service_active (label : String) (interval : Duration) (callback : Routine A)
    (child : Option (Tree A)) (state : (Tree.service label interval callback child).State)
    (world : World A) :
    ((Tree.service label interval callback child).tick state world).2.1.status ≠ .inactive := by
  have hactive := start_service_active label interval callback child state world
  rcases hstart : (Tree.service label interval callback child).start state world with
    ⟨started, begun⟩
  rw [hstart] at hactive
  rw [tick_service label interval callback child state world hstart]
  split
  · exact hactive
  · exact Outcome.status_ne_inactive _

theorem stop_service_timer (label : String) (interval : Duration) (callback : Routine A)
    (child : Option (Tree A)) (state : (Tree.service label interval callback child).State)
    (world : World A) : ((Tree.service label interval callback child).stop state world).1.timer = none := by
  rw [stop_service]
  split <;> rfl

theorem signal_tidy (tree : Tree A) (signal : Signal) (state : tree.State) (world : World A) :
    tree.Tidy (tree.signal signal state world).2.1 := by
  cases tree with
  | condition guard policy child =>
    intro hidle hnone
    cases signal with
    | start => exact absurd hidle (start_condition_active guard policy child state world)
    | tick => exact absurd hidle (tick_condition_active guard policy child state world)
    | stop =>
      rw [signal, stop_condition guard policy child state world Prod.mk.eta.symm, if_pos hnone]
    | release => rfl
  | service label interval callback child =>
    intro hidle
    cases signal with
    | start => exact absurd hidle (start_service_active label interval callback child state world)
    | tick => exact absurd hidle (tick_service_active label interval callback child state world)
    | stop => exact stop_service_timer label interval callback child state world
    | release => exact stop_service_timer label interval callback child state world
  | action _ _ | wait _ _ | leaf _ | sequence _ | selector _ => trivial

theorem Reached.tidy {tree : Tree A} {state : tree.State} (h : tree.Reached state) : tree.Tidy state := by
  induction h with
  | fresh random => exact tree.fresh_tidy random
  | @responded state request world _ ih =>
    cases request with
    | signal signal => exact tree.signal_tidy signal state world
    | ask | fire _ | advance _ | wind _ | set _ _ | remove _ => exact ih

/-- The observer of a condition whose flag is up. -/
def flag? : (tree : Tree A) → tree.State → World A → Option ObserverId
  | .action _ _, _, _ => none
  | .wait _ _, _, _ => none
  | .leaf _, _, _ => none
  | .sequence _, _, _ => none
  | .selector _, _, _ => none
  | .condition _ _ _, state, world => state.observer.filter world.board.isPending
  | .service _ _ _ _, _, _ => none

theorem dismiss?_filter (world : World A) (observer : Option ObserverId) :
    world.dismiss? (observer.filter world.board.isPending) = world.dismiss? observer := by
  cases observer with
  | none => rfl
  | some id =>
    by_cases hpending : world.board.isPending id = true
    · rw [Option.filter_some_pos hpending]
    · rw [Option.filter_some_neg (by simpa using hpending), World.dismiss?, World.dismiss?, World.dismiss,
        if_neg hpending]

theorem stop_of_inactive (tree : Tree A) (htree : tree.BuiltIn) {state : tree.State} (h : tree.Tidy state)
    (hidle : tree.status state = .inactive) (world : World A) :
    tree.stop state world = (state, world.dismiss? (tree.flag? state world)) := by
  cases tree with
  | leaf _ => exact htree.elim
  | action label command =>
    obtain ⟨_, _⟩ := state
    cases hidle
    rfl
  | wait duration variance =>
    obtain ⟨_, _, _, _⟩ := state
    cases hidle
    rfl
  | sequence children =>
    change state.status = .inactive at hidle
    rw [stop, if_pos hidle, flag?, World.dismiss?]
  | selector children =>
    change state.status = .inactive at hidle
    rw [stop, if_pos hidle, flag?, World.dismiss?]
  | condition guard policy child =>
    rw [stop_condition guard policy child state world (if_pos hidle), flag?, dismiss?_filter]
    obtain ⟨_, observer, below⟩ := state
    cases hidle
    split <;> rename_i hnone
    · cases h rfl hnone
      rfl
    · rfl
  | service label interval callback child =>
    change state.status = .inactive at hidle
    have hnone := h hidle
    rw [stop_service, if_pos hidle, hnone]
    obtain ⟨_, _, _⟩ := state
    cases hnone
    rfl

end Tree

namespace Board

variable (board : Board) (id : ObserverId) (key : String)

theorem acknowledge_acknowledge : (board.acknowledge id).acknowledge id = board.acknowledge id := by
  have hlower : (board.pending.lower id.index).lower id.index = board.pending.lower id.index :=
    Flags.ext_isRaised fun i => by simp
  rw [acknowledge, acknowledge, hlower]

theorem replace_acknowledge (new : Option Value) :
    ((board.acknowledge id).replace key new).1.acknowledge id =
      (board.replace key new).1.acknowledge id := by
  have hflags : (raiseAll (board.pending.lower id.index) (board.observersOf key)).lower id.index =
      (raiseAll board.pending (board.observersOf key)).lower id.index := by
    refine Flags.ext_isRaised fun i => ?_
    rw [Bool.eq_iff_iff, Flags.isRaised_lower, Flags.isRaised_lower, Bool.and_eq_true, Bool.and_eq_true,
      isRaised_raiseAll, isRaised_raiseAll, Flags.isRaised_lower, Bool.and_eq_true]
    tauto
  exact congrArg (fun pending => { (board.replace key new).1 with pending }) hflags

theorem set_acknowledge (value : Value) :
    ((board.acknowledge id).set key value).1 = (board.set key value).1 ∧
      ((board.acknowledge id).set key value).2.1.acknowledge id =
        (board.set key value).2.1.acknowledge id ∧
      ((board.acknowledge id).set key value).2.2 = (board.set key value).2.2 := by
  have hvalues : (board.acknowledge id).values = board.values := rfl
  obtain ⟨hone, hother⟩ | ⟨hone, hother⟩ := set_congr hvalues key value
  · rw [hone, hother]
    exact ⟨rfl, board.acknowledge_acknowledge id, rfl⟩
  · rw [hone, hother]
    exact ⟨rfl, board.replace_acknowledge id key _, rfl⟩

theorem remove_acknowledge :
    ((board.acknowledge id).remove key).1 = (board.remove key).1 ∧
      ((board.acknowledge id).remove key).2.1.acknowledge id = (board.remove key).2.1.acknowledge id ∧
      ((board.acknowledge id).remove key).2.2 = (board.remove key).2.2 := by
  have hvalues : (board.acknowledge id).values = board.values := rfl
  obtain ⟨hone, hother⟩ | ⟨old, hone, hother⟩ := remove_congr hvalues key
  · rw [hone, hother]
    exact ⟨rfl, board.acknowledge_acknowledge id, rfl⟩
  · rw [hone, hother]
    exact ⟨rfl, board.replace_acknowledge id key none, rfl⟩

end Board

/-- Whether the entry is on a flag that was taken down unseen. -/
def Event.isDismissal : Event → Bool
  | .dismissed _ => true
  | _ => false

def Event.undismissed (journal : List Event) : List Event := journal.filter (!·.isDismissal)

namespace World

variable {world other : World A} {id : ObserverId}

def undismissed (world : World A) : World A :=
  { world with journal := Event.undismissed world.journal }

/-- The worlds have all in common but such entries. -/
def Same (world other : World A) : Prop := world.undismissed = other.undismissed

/-- The worlds have all in common but such entries and the flag of the observer. -/
def Apart (id : ObserverId) (world other : World A) : Prop :=
  (world.acknowledge id).Same (other.acknowledge id)

/-- The worlds have all in common but such entries and the flag of one observer, if any. -/
structure Resembles (flag : Option ObserverId) (world other : World A) : Prop where
  agent_eq : other.agent = world.agent
  clock_eq : other.clock = world.clock
  react_eq : other.react = world.react
  values_eq : other.board.values = world.board.values
  observers_eq : other.board.observers = world.board.observers
  nextObserver_eq : other.board.nextObserver = world.board.nextObserver
  warned_eq : other.board.warned = world.board.warned
  isPending_eq : ∀ id, flag ≠ some id → other.board.isPending id = world.board.isPending id
  journal_eq : Event.undismissed other.journal = Event.undismissed world.journal

theorem Same.symm (h : world.Same other) : other.Same world := Eq.symm h

theorem Same.trans {middle : World A} (h : world.Same middle) (k : middle.Same other) : world.Same other :=
  Eq.trans h k

theorem Same.exists_aged (h : world.Same other) :
    ∃ (base : World A) (past past' : List Event), world = base.aged past ∧ other = base.aged past' ∧
      Event.undismissed past = Event.undismissed past' := by
  refine ⟨{ world with journal := [] }, world.journal, other.journal, rfl, ?_,
    congrArg (·.journal) h⟩
  obtain ⟨_, _, _, _, _⟩ := world
  obtain ⟨_, _, _, _, _⟩ := other
  obtain ⟨rfl, rfl, rfl, rfl, -⟩ := World.mk.inj h
  rfl

theorem same_aged (base : World A) {past past' : List Event}
    (h : Event.undismissed past = Event.undismissed past') : (base.aged past).Same (base.aged past') := by
  have hjournal : Event.undismissed (base.journal ++ past) = Event.undismissed (base.journal ++ past') := by
    rw [Event.undismissed, Event.undismissed, List.filter_append, List.filter_append]
    exact congrArg _ h
  exact congrArg (fun journal => ({ base with journal } : World A)) hjournal

theorem Same.acknowledge (h : world.Same other) (id : ObserverId) : world.Apart id other :=
  congrArg (fun world : World A => world.acknowledge id) h

theorem Apart.resembles (h : world.Apart id other) : Resembles (some id) world other where
  agent_eq := (congrArg (·.agent) h).symm
  clock_eq := (congrArg (·.clock) h).symm
  react_eq := (congrArg (·.react) h).symm
  values_eq := (congrArg (·.board.values) h).symm
  observers_eq := (congrArg (·.board.observers) h).symm
  nextObserver_eq := (congrArg (·.board.nextObserver) h).symm
  warned_eq := (congrArg (·.board.warned) h).symm
  isPending_eq i hi := by
    have hother : i.index ≠ id.index := fun hindex => hi (by cases i; cases id; cases hindex; rfl)
    have hpending := congrArg (·.board.pending.isRaised i.index) h.symm
    rw [Board.isPending, Board.isPending]
    simpa [undismissed, World.acknowledge, Board.acknowledge, hother] using hpending
  journal_eq := (congrArg (·.journal) h).symm

theorem Resembles.refl (flag : Option ObserverId) (world : World A) : Resembles flag world world :=
  ⟨rfl, rfl, rfl, rfl, rfl, rfl, rfl, fun _ _ => rfl, rfl⟩

theorem acknowledge_acknowledge (world : World A) (id : ObserverId) :
    (world.acknowledge id).acknowledge id = world.acknowledge id :=
  congrArg (fun board => { world with board }) (world.board.acknowledge_acknowledge id)

theorem same_dismiss (world : World A) (id : ObserverId) :
    (world.acknowledge id).Same (world.dismiss id) := by
  rw [dismiss]
  split <;> rename_i hpending
  · rfl
  · have hdown : world.board.pending.isRaised id.index = false := Bool.eq_false_iff.mpr hpending
    rw [acknowledge, Board.acknowledge, Flags.lower, hdown]
    rfl

theorem apart_dismiss (world : World A) (id : ObserverId) : world.Apart id (world.dismiss id) := by
  have hapart := (world.same_dismiss id).acknowledge id
  rwa [Apart, acknowledge_acknowledge] at hapart

theorem startedHolding_dismiss (world : World A) (guard : Guard) (id : ObserverId) :
    (world.dismiss id).startedHolding guard (some id) = (false, world.dismiss id) := by
  rw [startedHolding, if_neg (by simp [Linked.isPending_dismiss_self])]

theorem same_dismiss_acknowledge (world : World A) (id : ObserverId) :
    ((world.acknowledge id).dismiss id).Same (world.dismiss id) := by
  have hagain := ((world.acknowledge id).same_dismiss id).symm
  rw [acknowledge_acknowledge] at hagain
  exact hagain.trans (world.same_dismiss id)

theorem withNotices_acknowledge (world : World A) (id : ObserverId) {board after : Board}
    {notices told : List Notice} (hboard : after.acknowledge id = board.acknowledge id)
    (htold : told = notices) :
    ((world.acknowledge id).withNotices after told).acknowledge id =
      (world.withNotices board notices).acknowledge id := by
  subst htold
  exact congrArg (fun board => world.withNotices board told) hboard

theorem set_acknowledge (world : World A) (id : ObserverId) (key : String) (value : Value) :
    ((world.acknowledge id).set key value).1 = (world.set key value).1 ∧
      ((world.acknowledge id).set key value).2.acknowledge id =
        (world.set key value).2.acknowledge id := by
  obtain ⟨hchanged, hboard, htold⟩ := world.board.set_acknowledge id key value
  exact ⟨hchanged, withNotices_acknowledge world id hboard htold⟩

theorem remove_acknowledge (world : World A) (id : ObserverId) (key : String) :
    ((world.acknowledge id).remove key).1 = (world.remove key).1 ∧
      ((world.acknowledge id).remove key).2.acknowledge id = (world.remove key).2.acknowledge id := by
  obtain ⟨hold, hboard, htold⟩ := world.board.remove_acknowledge id key
  exact ⟨hold, withNotices_acknowledge world id hboard htold⟩

namespace Apart

variable (h : world.Apart id other)

include h

theorem mapClock (change : Clock → Clock) : (world.mapClock change).Apart id (other.mapClock change) := by
  have hsame : (world.acknowledge id).undismissed = (other.acknowledge id).undismissed := h
  exact congrArg (World.mapClock change) hsame

theorem set (key : String) (value : Value) : (other.set key value).1 = (world.set key value).1 ∧
    (world.set key value).2.Apart id (other.set key value).2 := by
  obtain ⟨hchanged, hafter⟩ := world.set_acknowledge id key value
  obtain ⟨hchanged', hafter'⟩ := other.set_acknowledge id key value
  obtain ⟨base, past, past', hone, hother, hpast⟩ := h.exists_aged
  rw [hone] at hchanged hafter
  rw [hother] at hchanged' hafter'
  refine ⟨hchanged'.symm.trans hchanged, ?_⟩
  rw [Apart, ← hafter, ← hafter']
  exact (same_aged (base.set key value).2 hpast).acknowledge id

theorem remove (key : String) : (other.remove key).1 = (world.remove key).1 ∧
    (world.remove key).2.Apart id (other.remove key).2 := by
  obtain ⟨hold, hafter⟩ := world.remove_acknowledge id key
  obtain ⟨hold', hafter'⟩ := other.remove_acknowledge id key
  obtain ⟨base, past, past', hone, hother, hpast⟩ := h.exists_aged
  rw [hone] at hold hafter
  rw [hother] at hold' hafter'
  refine ⟨hold'.symm.trans hold, ?_⟩
  rw [Apart, ← hafter, ← hafter']
  exact (same_aged (base.remove key).2 hpast).acknowledge id

theorem advance {fire : TimerId → World A → Bool × World A}
    (hfire : ∀ timer world, fire timer world = (false, world)) (dt : Duration) :
    (world.advance fire dt).Apart id (other.advance fire dt) := by
  have hacknowledged (world : World A) :
      (world.acknowledge id).advance fire dt = (world.advance fire dt).acknowledge id :=
    (clockBlind_acknowledge id).advance world (fun timer world => by rw [hfire, hfire]) dt
  have haged (base : World A) (past : List Event) :
      (base.aged past).advance fire dt = (base.advance fire dt).aged past :=
    (clockBlind_aged past).advance base (fun timer world => by rw [hfire, hfire]) dt
  obtain ⟨base, past, past', hone, hother, hpast⟩ := h.exists_aged
  rw [Apart, ← hacknowledged, ← hacknowledged, hone, hother, haged, haged]
  exact same_aged _ hpast

end Apart

end World

namespace Tree

/-- Two answers to the same requests are the same, and lead to the same state. The worlds by then are
related. -/
structure Answers {R S : Type} (relation : World A → World A → Prop) (one other : R × S × World A) :
    Prop where
  reply_eq : other.1 = one.1
  state_eq : other.2.1 = one.2.1
  world : relation one.2.2 other.2.2

namespace Answers

variable {R S : Type} {relation stronger : World A → World A → Prop} {one other third : R × S × World A}

theorem symm (h : Answers World.Same one other) : Answers World.Same other one :=
  ⟨h.reply_eq.symm, h.state_eq.symm, h.world.symm⟩

theorem trans (h : Answers World.Same one other) (k : Answers World.Same other third) :
    Answers World.Same one third :=
  ⟨k.reply_eq.trans h.reply_eq, k.state_eq.trans h.state_eq, h.world.trans k.world⟩

theorem imp (h : Answers stronger one other)
    (himp : ∀ {world other}, stronger world other → relation world other) :
    Answers relation one other :=
  ⟨h.reply_eq, h.state_eq, himp h.world⟩

theorem cons {tree : Tree A} {request : Request A} {requests : List (Request A)} {state : tree.State}
    {world other : World A}
    (hfirst : Answers stronger (tree.respond request state world) (tree.respond request state other))
    (hrest : ∀ {world' other'}, stronger world' other' →
      Answers relation (tree.respondAll requests (tree.respond request state world).2.1 world')
        (tree.respondAll requests (tree.respond request state world).2.1 other')) :
    Answers relation (tree.respondAll (request :: requests) state world)
      (tree.respondAll (request :: requests) state other) := by
  obtain ⟨hreply, hstate, hworld⟩ := hfirst
  have hlater := hrest hworld
  rw [respondAll, respondAll]
  rcases hother : tree.respond request state other with ⟨reply, next, between⟩
  rw [hother] at hreply hstate hlater
  dsimp only at hreply hstate hlater ⊢
  subst hreply hstate
  exact ⟨congrArg (_ :: ·) hlater.reply_eq, hlater.state_eq, hlater.world⟩

end Answers

variable {world other : World A} {id : ObserverId}

theorem respond_aged (tree : Tree A) (htree : tree.BuiltIn) (request : Request A) (state : tree.State)
    (world : World A) (old : List Event) : tree.respond request state (world.aged old) =
      ((tree.respond request state world).1, (tree.respond request state world).2.1,
        (tree.respond request state world).2.2.aged old) := by
  cases request with
  | signal signal =>
    cases signal with
    | start => rw [respond, respond, Tree.signal, Tree.signal, start_aged tree htree]
    | tick => rw [respond, respond, Tree.signal, Tree.signal, tick_aged tree htree]
    | stop => rw [respond, respond, Tree.signal, Tree.signal, stop_aged tree htree]
    | release => rw [respond, respond, Tree.signal, Tree.signal, release_aged tree htree]
  | ask => rw [respond, respond, preempts_aged]
  | fire timer => rw [respond, respond, fire_aged tree htree]
  | advance dt =>
    have hadvance := (World.clockBlind_aged old).advance world
      (fun timer world => fire_aged tree htree state timer world old) dt
    exact congrArg (Reply.done, state, ·) hadvance
  | wind change => rfl
  | set key value => rfl
  | remove key => rfl

theorem respondAll_aged (tree : Tree A) (htree : tree.BuiltIn) (requests : List (Request A))
    (state : tree.State) (world : World A) (old : List Event) :
    tree.respondAll requests state (world.aged old) =
      ((tree.respondAll requests state world).1, (tree.respondAll requests state world).2.1,
        (tree.respondAll requests state world).2.2.aged old) := by
  induction requests generalizing state world with
  | nil => rfl
  | cons request requests ih =>
    rw [respondAll, respondAll, respond_aged tree htree]
    dsimp only
    rw [ih]

theorem respond_same (tree : Tree A) (htree : tree.BuiltIn) (request : Request A) (state : tree.State)
    (h : world.Same other) :
    Answers World.Same (tree.respond request state world) (tree.respond request state other) := by
  obtain ⟨base, past, past', rfl, rfl, hpast⟩ := h.exists_aged
  rw [respond_aged tree htree, respond_aged tree htree]
  exact ⟨rfl, rfl, World.same_aged _ hpast⟩

theorem respondAll_same (tree : Tree A) (htree : tree.BuiltIn) (requests : List (Request A))
    (state : tree.State) (h : world.Same other) :
    Answers World.Same (tree.respondAll requests state world) (tree.respondAll requests state other) := by
  obtain ⟨base, past, past', rfl, rfl, hpast⟩ := h.exists_aged
  rw [respondAll_aged tree htree, respondAll_aged tree htree]
  exact ⟨rfl, rfl, World.same_aged _ hpast⟩

theorem fire_of_inactive {guard : Guard} {policy : RestartPolicy} {child : Option (Tree A)}
    {state : (Tree.condition guard policy child).State} (hidle : state.status = .inactive)
    (timer : TimerId) (world : World A) :
    (Tree.condition guard policy child).fire state timer world = (false, world) := by
  rw [fire, if_pos hidle]

/-- What happens around an inactive condition does not tell of its flag. -/
theorem respond_apart {guard : Guard} {policy : RestartPolicy} {child : Option (Tree A)}
    {state : (Tree.condition guard policy child).State} (hidle : state.status = .inactive)
    (h : world.Apart id other) (request : Request A) (hask : request ≠ .ask)
    (hsignal : ∀ signal, request ≠ .signal signal) :
    Answers (World.Apart id) ((Tree.condition guard policy child).respond request state world)
      ((Tree.condition guard policy child).respond request state other) := by
  cases request with
  | signal signal => exact absurd rfl (hsignal signal)
  | ask => exact absurd rfl hask
  | fire timer =>
    rw [respond, respond, fire_of_inactive hidle, fire_of_inactive hidle]
    exact ⟨rfl, rfl, h⟩
  | advance dt => exact ⟨rfl, rfl, h.advance (fire_of_inactive hidle) dt⟩
  | wind change => exact ⟨rfl, rfl, h.mapClock change⟩
  | set key value =>
    obtain ⟨hchanged, hafter⟩ := h.set key value
    exact ⟨congrArg Reply.changed hchanged, rfl, hafter⟩
  | remove key =>
    obtain ⟨hold, hafter⟩ := h.remove key
    exact ⟨congrArg Reply.removed hold, rfl, hafter⟩

section Condition

variable {guard : Guard} {policy : RestartPolicy} {child : Option (Tree A)}
  {state : (Tree.condition guard policy child).State} (hidle : state.status = .inactive)
  (hobserver : state.observer = some id)

include hidle hobserver

theorem start_acknowledge (world : World A) :
    (Tree.condition guard policy child).start state (world.acknowledge id) =
      (Tree.condition guard policy child).start state world := by
  have hobserve : (world.acknowledge id).observe (some id) guard.key =
      world.observe (some id) guard.key :=
    congrArg (id, ·) (world.acknowledge_acknowledge id)
  have hgoing : ¬state.status ≠ .inactive := not_not.mpr hidle
  rw [start, start, if_neg hgoing, if_neg hgoing, hobserver, hobserve]

theorem tick_acknowledge (world : World A) :
    (Tree.condition guard policy child).tick state (world.acknowledge id) =
      (Tree.condition guard policy child).tick state world := by
  rw [tick, tick, start_acknowledge hidle hobserver]

variable (htree : (Tree.condition guard policy child).BuiltIn)
  (htidy : (Tree.condition guard policy child).Tidy state)

include htree htidy

theorem stop_dismiss (world : World A) :
    (Tree.condition guard policy child).stop state world = (state, world.dismiss id) := by
  rw [stop_of_inactive _ htree htidy hidle, flag?, dismiss?_filter, hobserver]
  rfl

theorem signal_acknowledge (signal : Signal) (world : World A) :
    Answers World.Same
      ((Tree.condition guard policy child).respond (.signal signal) state (world.acknowledge id))
      ((Tree.condition guard policy child).respond (.signal signal) state world) := by
  have hdismissed := world.same_dismiss_acknowledge id
  cases signal with
  | start =>
    rw [respond, respond, Tree.signal, Tree.signal, start_acknowledge hidle hobserver]
    exact ⟨rfl, rfl, rfl⟩
  | tick =>
    rw [respond, respond, Tree.signal, Tree.signal, tick_acknowledge hidle hobserver]
    exact ⟨rfl, rfl, rfl⟩
  | stop =>
    rw [respond, respond, Tree.signal, Tree.signal, stop_dismiss hidle hobserver htree htidy,
      stop_dismiss hidle hobserver htree htidy]
    exact ⟨rfl, rfl, hdismissed⟩
  | release =>
    obtain ⟨base, past, past', hone, hother, hpast⟩ := hdismissed.exists_aged
    rw [respond, respond, Tree.signal, Tree.signal, release, release,
      stop_dismiss hidle hobserver htree htidy, stop_dismiss hidle hobserver htree htidy, hone, hother]
    rw [BuiltIn] at htree
    dsimp only
    rw [releaseOption_aged child htree, releaseOption_aged child htree, World.aged_unsubscribe?,
      World.aged_unsubscribe?]
    exact ⟨rfl, rfl, World.same_aged _ hpast⟩

/-- At its next signal, a condition makes up for its flag. -/
theorem respond_signal_apart (h : world.Apart id other) (signal : Signal) :
    Answers World.Same ((Tree.condition guard policy child).respond (.signal signal) state world)
      ((Tree.condition guard policy child).respond (.signal signal) state other) :=
  ((signal_acknowledge hidle hobserver htree htidy signal world).symm.trans
    (respond_same _ htree (.signal signal) state h)).trans
    (signal_acknowledge hidle hobserver htree htidy signal other)

/-- As long as it is not asked, nothing tells whether the flag of a condition was taken down. -/
theorem respondAll_apart (requests : List (Request A)) (h : world.Apart id other)
    (hunasked : Request.asked requests = false) :
    Answers (World.Apart id) ((Tree.condition guard policy child).respondAll requests state world)
      ((Tree.condition guard policy child).respondAll requests state other) := by
  induction requests generalizing world other with
  | nil => exact ⟨rfl, rfl, h⟩
  | cons request requests ih =>
    cases request with
    | ask => cases hunasked
    | signal signal =>
      refine (respond_signal_apart hidle hobserver htree htidy h signal).cons fun hsame => ?_
      exact (respondAll_same _ htree requests _ hsame).imp fun hlast => hlast.acknowledge id
    | fire _ | advance _ | wind _ | set _ _ | remove _ =>
      refine .cons (respond_apart hidle h _ ?_ ?_) fun hnext => ih hnext hunasked
      · exact nofun
      · exact nofun

end Condition

/-- To stop an inactive node leaves the node, the clock, the values and the observers as they are, and if
no flag of the node is up, all else as well. Whatever is asked of the node from then on, and whatever
happens around it, goes as it would without the stop, unless a flag was up and the node is asked whether
it takes over before it gets its next signal. Then the flag is missed: the node does not take over. -/
theorem Reached.stop_inactive {tree : Tree A} (htree : tree.BuiltIn) {state : tree.State}
    (h : tree.Reached state) (hidle : tree.status state = .inactive) (world : World A) :
    (tree.stop state world).1 = state ∧
    World.Resembles (tree.flag? state world) world (tree.stop state world).2 ∧
    (tree.flag? state world = none → (tree.stop state world).2 = world) ∧
    (tree.flag? state world ≠ none →
      (tree.preempts (tree.stop state world).1 (tree.stop state world).2).1 = none) ∧
    ∀ later, (tree.flag? state world ≠ none → Request.asked later = false) →
      Answers (World.Resembles (tree.flag? state world)) (tree.respondAll later state world)
        (tree.respondAll later (tree.stop state world).1 (tree.stop state world).2) := by
  have htidy := h.tidy
  rw [tree.stop_of_inactive htree htidy hidle world]
  cases hflag : tree.flag? state world with
  | none =>
    exact ⟨rfl, .refl none world, fun _ => rfl, fun hup => absurd rfl hup,
      fun later _ => ⟨rfl, rfl, .refl none _⟩⟩
  | some id =>
    cases tree with
    | condition guard policy child =>
      change state.status = .inactive at hidle
      obtain ⟨hobserver, -⟩ := Option.filter_eq_some_iff.mp hflag
      have hapart := world.apart_dismiss id
      refine ⟨rfl, hapart.resembles, nofun, fun _ => ?_, fun later hlater => ?_⟩
      · rw [preempts, hobserver, World.dismiss?, World.startedHolding_dismiss]
        split
        · rfl
        · rw [if_neg (not_not.mpr hidle)]
          rfl
      · exact (respondAll_apart hidle hobserver htree htidy later hapart (hlater nofun)).imp
          World.Apart.resembles
    | action _ _ | wait _ _ | leaf _ | sequence _ | selector _ | service _ _ _ _ => cases hflag

end Tree

def sentry : Tree Nat :=
  .condition ⟨"lit", .isSet, .bool true⟩ .immediateRestart (some (.action "greet" (.always (· + 1))))

/-- The sentry is stopped while the light is still off, and stopped again when it has gone on. He would
have taken over, but does not now. -/
theorem sentry_misses_light :
    let before := sentry.respondAll [.signal .start, .signal .stop, .set "lit" (.bool true)]
      (sentry.fresh (.ofSeed 0)).1 { agent := 0 }
    let stopped := sentry.stop before.2.1 before.2.2
    sentry.Reached before.2.1 ∧ sentry.status before.2.1 = .inactive ∧
      (sentry.preempts before.2.1 before.2.2).1 = some .immediate ∧
      (sentry.preempts stopped.1 stopped.2).1 = none := by
  intro before stopped
  have hstarted : sentry.Reached _ :=
    (Tree.Reached.fresh (.ofSeed 0)).responded (.signal .start) { agent := 0 }
  exact ⟨hstarted.responded (.signal .stop) { agent := 0 }, by decide, by decide, by decide⟩

/-- When he is told to, he takes up his post all the same. -/
theorem sentry_greets :
    let before := sentry.respondAll [.signal .start, .signal .stop, .set "lit" (.bool true)]
      (sentry.fresh (.ofSeed 0)).1 { agent := 0 }
    let stopped := sentry.stop before.2.1 before.2.2
    let later : List (Request Nat) := [.advance 5, .set "lit" (.bool false), .signal .tick, .ask]
    sentry.BuiltIn ∧ sentry.Reached before.2.1 ∧ sentry.status before.2.1 = .inactive ∧
      sentry.flag? before.2.1 before.2.2 = some ⟨0⟩ ∧ Request.asked later = false ∧
      (sentry.respondAll later stopped.1 stopped.2).2.2.agent = 1 ∧
      Tree.Answers (World.Resembles (some ⟨0⟩)) (sentry.respondAll later before.2.1 before.2.2)
        (sentry.respondAll later stopped.1 stopped.2) := by
  intro before stopped later
  have hstarted : sentry.Reached _ :=
    (Tree.Reached.fresh (.ofSeed 0)).responded (.signal .start) { agent := 0 }
  have hstopped : sentry.Reached before.2.1 := hstarted.responded (.signal .stop) { agent := 0 }
  have hbuilt : sentry.BuiltIn := trivial
  have hflag : sentry.flag? before.2.1 before.2.2 = some ⟨0⟩ := by decide
  obtain ⟨-, -, -, -, hlater⟩ := hstopped.stop_inactive hbuilt (by decide) before.2.2
  rw [hflag] at hlater
  exact ⟨hbuilt, hstopped, by decide, hflag, by decide, by decide, hlater later fun _ => by decide⟩

end BehaviorTree
