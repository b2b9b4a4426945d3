import BehaviorTree.Proofs.Composites.SequenceScripts

namespace BehaviorTree

variable {A : Type}

namespace Outcome

def mirror : Outcome → Outcome
  | .success => .fail
  | .fail => .success
  | .running => .running

@[simp] theorem mirror_mirror (outcome : Outcome) : outcome.mirror.mirror = outcome := by
  cases outcome <;> rfl

@[simp] theorem mirror_eq_running {outcome : Outcome} : outcome.mirror = .running ↔ outcome = .running := by
  cases outcome <;> simp [mirror]

end Outcome

namespace Status

def mirror : Status → Status
  | .succeeded => .failed
  | .failed => .succeeded
  | .inactive => .inactive
  | .running => .running

@[simp] theorem mirror_mirror (status : Status) : status.mirror.mirror = status := by
  cases status <;> rfl

@[simp] theorem mirror_eq_inactive {status : Status} : status.mirror = .inactive ↔ status = .inactive := by
  cases status <;> simp [mirror]

@[simp] theorem outcome?_mirror (status : Status) :
    status.mirror.outcome? = status.outcome?.map Outcome.mirror := by
  cases status <;> rfl

end Status

@[simp] theorem Outcome.status_mirror (outcome : Outcome) :
    outcome.mirror.status = outcome.status.mirror := by
  cases outcome <;> rfl

def LeafState.mirror (state : LeafState) : LeafState := { state with status := state.status.mirror }

@[simp] theorem LeafState.mirror_mirror (state : LeafState) : state.mirror.mirror = state := by
  simp [mirror]

@[simp] theorem LeafState.mirror_idle {state : LeafState} :
    state.mirror.status = .inactive ↔ state.status = .inactive :=
  Status.mirror_eq_inactive

namespace Leaf

/-- The leaf that comes to a success where this one fails, and the other way around. -/
def mirror (leaf : Leaf A) : Leaf A where
  name := leaf.name
  start state world := ((leaf.start state.mirror world).1.mirror, (leaf.start state.mirror world).2)
  tick state world :=
    ((leaf.tick state.mirror world).1.mirror, (leaf.tick state.mirror world).2.1.mirror,
      (leaf.tick state.mirror world).2.2)
  stop state world := ((leaf.stop state.mirror world).1.mirror, (leaf.stop state.mirror world).2)
  fire state := leaf.fire state.mirror

theorem mirror_stop (leaf : Leaf A) (state : LeafState) (world : World A) :
    leaf.mirror.stop state.mirror world =
      ((leaf.stop state world).1.mirror, (leaf.stop state world).2) := by
  simp only [mirror, LeafState.mirror_mirror]

theorem mirror_tick (leaf : Leaf A) (state : LeafState) (world : World A) :
    leaf.mirror.tick state.mirror world =
      ((leaf.tick state world).1.mirror, (leaf.tick state world).2.1.mirror,
        (leaf.tick state world).2.2) := by
  simp only [mirror, LeafState.mirror_mirror]

theorem mirror_scripted (heed : World A → Deed → World A) (i : Nat) (script : Script) :
    (scripted heed i script).mirror = scripted heed i (Outcome.mirror ∘ script) := by
  unfold scripted mirror
  congr 1
  · funext state world
    by_cases hidle : state.status = .inactive
    · simp [hidle, LeafState.mirror, Status.mirror]
    · simp [hidle]
  · funext state world
    simp [LeafState.mirror]
  · funext state world
    by_cases hidle : state.status = .inactive
    · simp [hidle]
    · have hactive : state.mirror.status ≠ .inactive := mt LeafState.mirror_idle.mp hidle
      simp only [if_neg hidle, if_neg hactive]
      rfl

theorem mirror_troupe (heed : World A → Deed → World A) (i : Nat) (scripts : List Script) :
    (troupe heed i scripts).map mirror = troupe heed i (scripts.map (Outcome.mirror ∘ ·)) := by
  induction scripts generalizing i with
  | nil => rfl
  | cons script scripts ih =>
    exact congrArg₂ List.cons (mirror_scripted heed i script) (ih (i + 1))

end Leaf

def Mail.calls (mail : Mail A) : List (List Nat × Signal) :=
  mail.map fun entry => (entry.1, entry.2.signal)

namespace Delivery

def calls (delivery : Delivery A) : List (Nat × (List Nat × Signal)) :=
  delivery.map fun entry => (entry.1, entry.2.1, entry.2.2.signal)

@[simp] theorem calls_append (delivery more : Delivery A) :
    calls (delivery ++ more) = calls delivery ++ calls more :=
  List.map_append

@[simp] theorem calls_later (delivery : Delivery A) :
    calls (later delivery) = (calls delivery).map fun entry => (entry.1 + 1, entry.2) := by
  simp [calls, later]

theorem calls_later_congr {delivery other : Delivery A} (h : calls delivery = calls other) :
    calls (later delivery) = calls (later other) := by
  rw [calls_later, calls_later, h]

end Delivery

@[simp] theorem Message.calls_mail (message : Message A) (delivery : Delivery A) :
    Mail.calls (message.mail delivery) =
      ([], message.signal) ::
        (Delivery.calls delivery).map fun entry => (entry.1 :: entry.2.1, entry.2.2) := by
  simp [Mail.calls, Delivery.calls, mail]

theorem Tree.calls_mail_congr {tree other : Tree A} {signal : Signal} {state : tree.State}
    {state' : other.State} {world world' : World A}
    (h : Delivery.calls (tree.delivers signal state world) =
      Delivery.calls (other.delivers signal state' world')) :
    Mail.calls (tree.mail signal state world) = Mail.calls (other.mail signal state' world') := by
  rw [Tree.mail, Tree.mail, Message.calls_mail, Message.calls_mail, h]

@[simp] theorem Mail.calls_append (mail more : Mail A) : calls (mail ++ more) = calls mail ++ calls more :=
  List.map_append

namespace Leaf

def mirrorList : (leaves : List (Leaf A)) → Tree.StateList (leaves.map .leaf) →
    Tree.StateList ((leaves.map mirror).map .leaf)
  | [], _ => ()
  | _ :: leaves, (state, states) => (state.mirror, mirrorList leaves states)

theorem firstPreempting_leaves (leaves : List (Leaf A)) (limit : Nat)
    (states : Tree.StateList (leaves.map .leaf)) (world : World A) :
    Tree.firstPreempting (leaves.map .leaf) limit states world = (none, world) := by
  induction leaves generalizing limit with
  | nil => rfl
  | cons leaf leaves ih =>
    obtain ⟨state, states⟩ := states
    cases limit with
    | zero => rfl
    | succ limit => exact congrArg (fun found => (Option.map _ found.1, found.2)) (ih limit states)

def mirrorTurn (leaves : List (Leaf A))
    (turn : Outcome × Nat × Tree.StateList (leaves.map .leaf) × World A) :
    Outcome × Nat × Tree.StateList ((leaves.map mirror).map .leaf) × World A :=
  (turn.1.mirror, turn.2.1, mirrorList leaves turn.2.2.1, turn.2.2.2)

theorem stopAt_mirror (leaves : List (Leaf A)) (i : Nat) (states : Tree.StateList (leaves.map .leaf))
    (world : World A) :
    Tree.stopAt ((leaves.map mirror).map .leaf) i (mirrorList leaves states) world =
        (mirrorList leaves (Tree.stopAt (leaves.map .leaf) i states world).1,
          (Tree.stopAt (leaves.map .leaf) i states world).2) ∧
      Delivery.calls (Tree.stopsAt ((leaves.map mirror).map .leaf) i (mirrorList leaves states) world) =
        Delivery.calls (Tree.stopsAt (leaves.map .leaf) i states world) := by
  induction leaves generalizing i with
  | nil => exact ⟨rfl, rfl⟩
  | cons leaf leaves ih =>
    obtain ⟨state, states⟩ := states
    cases i with
    | zero =>
      refine ⟨?_, rfl⟩
      exact congrArg (fun stopped => ((stopped.1, mirrorList leaves states), stopped.2))
        (leaf.mirror_stop state world)
    | succ i =>
      obtain ⟨hstop, hcalls⟩ := ih i states
      refine ⟨?_, Delivery.calls_later_congr hcalls⟩
      exact congrArg (fun stopped : Tree.StateList ((leaves.map mirror).map .leaf) × World A =>
        ((state.mirror, stopped.1), stopped.2)) hstop

theorem releaseList_mirror (leaves : List (Leaf A)) (states : Tree.StateList (leaves.map .leaf))
    (world : World A) :
    Tree.releaseList ((leaves.map mirror).map .leaf) (mirrorList leaves states) world =
        (mirrorList leaves (Tree.releaseList (leaves.map .leaf) states world).1,
          (Tree.releaseList (leaves.map .leaf) states world).2) ∧
      Delivery.calls (Tree.releasesList ((leaves.map mirror).map .leaf) (mirrorList leaves states) world) =
        Delivery.calls (Tree.releasesList (leaves.map .leaf) states world) := by
  induction leaves generalizing world with
  | nil => exact ⟨rfl, rfl⟩
  | cons leaf leaves ih =>
    obtain ⟨state, states⟩ := states
    have hfirst : (Tree.leaf leaf.mirror).release state.mirror world =
        (((Tree.leaf leaf).release state world).1.mirror, ((Tree.leaf leaf).release state world).2) :=
      leaf.mirror_stop state world
    obtain ⟨hrelease, hcalls⟩ := ih states ((Tree.leaf leaf).release state world).2
    constructor
    · refine (Tree.releaseList_cons (.leaf leaf.mirror) _ state.mirror (mirrorList leaves states)
        world).trans ?_
      rw [hfirst]
      dsimp only
      rw [hrelease]
      rfl
    · refine (congrArg Delivery.calls (Tree.releasesList_cons (.leaf leaf.mirror) _ state.mirror
        (mirrorList leaves states) world)).trans (.trans ?_ (congrArg Delivery.calls
        (Tree.releasesList_cons (.leaf leaf) (leaves.map .leaf) state states world)).symm)
      rw [hfirst, Delivery.calls_append, Delivery.calls_append, Delivery.calls_later_congr hcalls]
      rfl

theorem tickFrom_mirror (leaves : List (Leaf A)) (i : Nat) (states : Tree.StateList (leaves.map .leaf))
    (world : World A) :
    Tree.tickFrom .success ((leaves.map mirror).map .leaf) i (mirrorList leaves states) world =
        mirrorTurn leaves (Tree.tickFrom .fail (leaves.map .leaf) i states world) ∧
      Delivery.calls
          (Tree.ticksFrom .success ((leaves.map mirror).map .leaf) i (mirrorList leaves states) world) =
        Delivery.calls (Tree.ticksFrom .fail (leaves.map .leaf) i states world) := by
  induction leaves generalizing i world with
  | nil => exact ⟨rfl, rfl⟩
  | cons leaf leaves ih =>
    obtain ⟨state, states⟩ := states
    cases i with
    | succ i =>
      obtain ⟨htick, hcalls⟩ := ih i states world
      refine ⟨?_, Delivery.calls_later_congr hcalls⟩
      exact congrArg
        (fun turn : Outcome × Nat × Tree.StateList ((leaves.map mirror).map .leaf) × World A =>
          (turn.1, turn.2.1 + 1, (state.mirror, turn.2.2.1), turn.2.2.2)) htick
    | zero =>
      rcases htick : (Tree.leaf leaf).tick state world with ⟨outcome, ticked, after⟩
      have hmirror : (Tree.leaf leaf.mirror).tick state.mirror world =
          (outcome.mirror, ticked.mirror, after) :=
        (leaf.mirror_tick state world).trans (congrArg (fun turn : Outcome × LeafState × World A =>
          (turn.1.mirror, turn.2.1.mirror, turn.2.2)) htick)
      have hstop : (Tree.leaf leaf.mirror).stop ticked.mirror after =
          (((Tree.leaf leaf).stop ticked after).1.mirror, ((Tree.leaf leaf).stop ticked after).2) :=
        leaf.mirror_stop ticked after
      obtain ⟨hrest, hcalls⟩ := ih 0 states ((Tree.leaf leaf).stop ticked after).2
      have hlater := Delivery.calls_later_congr hcalls
      constructor
      · refine (Tree.tickFrom_zero .success (.leaf leaf.mirror) _ _ (mirrorList leaves states) world
          hmirror).trans (.trans ?_ (congrArg (mirrorTurn (leaf :: leaves)) (Tree.tickFrom_zero .fail
            (.leaf leaf) (leaves.map .leaf) state states world htick)).symm)
        rw [hstop]
        dsimp only
        rw [hrest]
        cases outcome <;> rfl
      · refine (congrArg Delivery.calls (Tree.ticksFrom_zero .success (.leaf leaf.mirror) _ _
          (mirrorList leaves states) world hmirror)).trans (.trans ?_ (congrArg Delivery.calls
            (Tree.ticksFrom_zero .fail (.leaf leaf) (leaves.map .leaf) state states world htick)).symm)
        rw [hstop]
        cases outcome with
        | running => rfl
        | success => rfl
        | fail => exact congrArg ([(0, [], .tick), (0, [], .stop)] ++ ·) hlater

/-- The state of the sequence that goes with the state of the selector. -/
def mirrorComposite (leaves : List (Leaf A))
    (state : CompositeState (Tree.StateList (leaves.map .leaf))) :
    CompositeState (Tree.StateList ((leaves.map mirror).map .leaf)) :=
  ⟨state.status.mirror, state.current, mirrorList leaves state.children⟩

variable (leaves : List (Leaf A)) (state : CompositeState (Tree.StateList (leaves.map .leaf)))

theorem mirrorComposite_idle :
    (mirrorComposite leaves state).status = .inactive ↔ state.status = .inactive :=
  Status.mirror_eq_inactive

theorem mirrorComposite_begin :
    (mirrorComposite leaves state).begin = mirrorComposite leaves state.begin := by
  unfold CompositeState.begin
  by_cases hidle : state.status = .inactive
  · rw [if_pos hidle, if_pos ((mirrorComposite_idle leaves state).mpr hidle)]
    rfl
  · rw [if_neg hidle, if_neg (mt (mirrorComposite_idle leaves state).mp hidle)]

/-- What a signal makes of the sequence, given what it makes of the selector. -/
def mirrorAnswer {α : Type} (f : α → α)
    (answer : α × CompositeState (Tree.StateList (leaves.map .leaf)) × World A) :
    α × CompositeState (Tree.StateList ((leaves.map mirror).map .leaf)) × World A :=
  (f answer.1, mirrorComposite leaves answer.2.1, answer.2.2)

theorem stop_mirror (world : World A) :
    (Tree.sequence ((leaves.map mirror).map .leaf)).stop (mirrorComposite leaves state) world =
        (mirrorComposite leaves ((Tree.selector (leaves.map .leaf)).stop state world).1,
          ((Tree.selector (leaves.map .leaf)).stop state world).2) ∧
      Delivery.calls
          ((Tree.sequence ((leaves.map mirror).map .leaf)).stops (mirrorComposite leaves state) world) =
        Delivery.calls ((Tree.selector (leaves.map .leaf)).stops state world) := by
  rw [Tree.stop, Tree.stop, Tree.stops, Tree.stops]
  by_cases hidle : state.status = .inactive
  · have hmirror := (mirrorComposite_idle leaves state).mpr hidle
    simp only [if_pos hidle, if_pos hmirror]
    exact ⟨trivial, trivial⟩
  · have hmirror := mt (mirrorComposite_idle leaves state).mp hidle
    obtain ⟨hstop, hcalls⟩ := stopAt_mirror leaves state.current state.children world
    simp only [if_neg hidle, if_neg hmirror]
    refine ⟨?_, hcalls⟩
    exact congrArg (fun stopped : Tree.StateList ((leaves.map mirror).map .leaf) × World A =>
      ((⟨.inactive, state.current, stopped.1⟩ : CompositeState _), stopped.2)) hstop

theorem settle_mirror (outcome : Outcome) (current : Nat) (states : Tree.StateList (leaves.map .leaf))
    (world : World A) :
    Tree.settle ((leaves.map mirror).map .leaf) outcome.mirror current (mirrorList leaves states) world =
        mirrorAnswer leaves Outcome.mirror
          (Tree.settle (leaves.map .leaf) outcome current states world) ∧
      Delivery.calls (Tree.settles ((leaves.map mirror).map .leaf) outcome.mirror
          (mirrorList leaves states) world) =
        Delivery.calls (Tree.settles (leaves.map .leaf) outcome states world) := by
  obtain ⟨hrelease, hcalls⟩ := releaseList_mirror leaves states world
  by_cases hrun : outcome = .running
  · subst hrun
    exact ⟨rfl, rfl⟩
  · have hmirror : outcome.mirror ≠ .running := mt Outcome.mirror_eq_running.mp hrun
    rw [Tree.settle, Tree.settle, Tree.settles, Tree.settles, if_neg hrun, if_neg hmirror, if_neg hrun,
      if_neg hmirror]
    refine ⟨?_, hcalls⟩
    rw [hrelease, outcome.status_mirror]
    rfl

theorem tickRest_mirror (current : Nat) (states : Tree.StateList (leaves.map .leaf)) (world : World A) :
    Tree.tickRest .success ((leaves.map mirror).map .leaf) current (mirrorList leaves states) world =
        mirrorAnswer leaves Outcome.mirror
          (Tree.tickRest .fail (leaves.map .leaf) current states world) ∧
      Delivery.calls (Tree.ticksRest .success ((leaves.map mirror).map .leaf) current
          (mirrorList leaves states) world) =
        Delivery.calls (Tree.ticksRest .fail (leaves.map .leaf) current states world) := by
  obtain ⟨htick, hticks⟩ := tickFrom_mirror leaves current states world
  unfold Tree.tickRest Tree.ticksRest
  rw [htick]
  rcases Tree.tickFrom .fail (leaves.map .leaf) current states world with ⟨outcome, next, ticked, after⟩
  obtain ⟨hsettle, hsettles⟩ := settle_mirror leaves outcome next ticked after
  refine ⟨hsettle, ?_⟩
  rw [Delivery.calls_append, Delivery.calls_append, hticks]
  exact congrArg (_ ++ ·) hsettles

theorem tick_mirror (world : World A) :
    (Tree.sequence ((leaves.map mirror).map .leaf)).tick (mirrorComposite leaves state) world =
        mirrorAnswer leaves Outcome.mirror ((Tree.selector (leaves.map .leaf)).tick state world) ∧
      Delivery.calls
          ((Tree.sequence ((leaves.map mirror).map .leaf)).ticks (mirrorComposite leaves state) world) =
        Delivery.calls ((Tree.selector (leaves.map .leaf)).ticks state world) := by
  have hasked := firstPreempting_leaves leaves state.begin.current state.begin.children world
  have hgo : Tree.arbitrate (leaves.map .leaf) state.begin world =
      (some state.begin.current, state.begin.children, world) := by
    unfold Tree.arbitrate
    rw [hasked]
  have hnone : Tree.handsOver (leaves.map .leaf) state.begin world = [] := by
    unfold Tree.handsOver
    rw [hasked]
  rw [Tree.tick_sequence, Tree.ticks_sequence, Tree.tick_selector, Tree.ticks_selector,
    mirrorComposite_begin, hgo, hnone]
  have houtcome : (mirrorComposite leaves state.begin).status.outcome? =
      state.begin.status.outcome?.map Outcome.mirror := Status.outcome?_mirror _
  rw [houtcome]
  cases state.begin.status.outcome? with
  | some outcome => exact ⟨rfl, rfl⟩
  | none =>
    exact tickRest_mirror leaves state.begin.current state.begin.children world

theorem release_mirror (world : World A) :
    (Tree.sequence ((leaves.map mirror).map .leaf)).release (mirrorComposite leaves state) world =
        (mirrorComposite leaves ((Tree.selector (leaves.map .leaf)).release state world).1,
          ((Tree.selector (leaves.map .leaf)).release state world).2) ∧
      Delivery.calls
          ((Tree.sequence ((leaves.map mirror).map .leaf)).releases (mirrorComposite leaves state) world) =
        Delivery.calls ((Tree.selector (leaves.map .leaf)).releases state world) := by
  obtain ⟨hstop, hstops⟩ := stop_mirror leaves state world
  rw [Tree.release, Tree.release, Tree.releases, Tree.releases, hstop]
  rcases (Tree.selector (leaves.map .leaf)).stop state world with ⟨stopped, after⟩
  obtain ⟨hrelease, hreleases⟩ := releaseList_mirror leaves stopped.children after
  constructor
  · exact congrArg (fun released : Tree.StateList ((leaves.map mirror).map .leaf) × World A =>
      ((⟨stopped.status.mirror, stopped.current, released.1⟩ : CompositeState _), released.2)) hrelease
  · dsimp only
    rw [Delivery.calls_append, Delivery.calls_append, hstops]
    exact congrArg (_ ++ ·) hreleases

theorem signal_mirror (signal : Signal) (world : World A) :
    (Tree.sequence ((leaves.map mirror).map .leaf)).signal signal (mirrorComposite leaves state) world =
        mirrorAnswer leaves (Option.map Outcome.mirror)
          ((Tree.selector (leaves.map .leaf)).signal signal state world) ∧
      Delivery.calls ((Tree.sequence ((leaves.map mirror).map .leaf)).delivers signal
          (mirrorComposite leaves state) world) =
        Delivery.calls ((Tree.selector (leaves.map .leaf)).delivers signal state world) := by
  cases signal with
  | start =>
    exact ⟨congrArg (fun state => (none, state, world)) (mirrorComposite_begin leaves state), rfl⟩
  | tick =>
    obtain ⟨htick, hcalls⟩ := tick_mirror leaves state world
    refine ⟨?_, hcalls⟩
    rw [Tree.signal, htick]
    rfl
  | stop =>
    obtain ⟨hstop, hcalls⟩ := stop_mirror leaves state world
    refine ⟨?_, hcalls⟩
    rw [Tree.signal, hstop]
    rfl
  | release =>
    obtain ⟨hrelease, hcalls⟩ := release_mirror leaves state world
    refine ⟨?_, hcalls⟩
    rw [Tree.signal, hrelease]
    rfl

theorem signals_mirror (signals : List Signal) (world : World A) :
    let sequence := Tree.sequence ((leaves.map mirror).map .leaf)
    let selector := Tree.selector (leaves.map .leaf)
    let there := sequence.signals signals (mirrorComposite leaves state) world
    let here := selector.signals signals state world
    there = (here.1.map fun answer => (answer.1.map Outcome.mirror, answer.2.mirror),
        mirrorComposite leaves here.2.1, here.2.2) ∧
      Mail.calls (sequence.mails signals (mirrorComposite leaves state) world) =
        Mail.calls (selector.mails signals state world) := by
  induction signals generalizing state world with
  | nil => exact ⟨rfl, rfl⟩
  | cons signal signals ih =>
    obtain ⟨hsignal, hcalls⟩ := signal_mirror leaves state signal world
    have hmail := Tree.calls_mail_congr hcalls
    dsimp only [Tree.signals, Tree.mails]
    rw [hsignal]
    rcases (Tree.selector (leaves.map .leaf)).signal signal state world with ⟨answer, next, after⟩
    obtain ⟨hsignals, hmails⟩ := ih next after
    dsimp only at hsignals hmails ⊢
    rw [mirrorAnswer, hsignals, Mail.calls_append, Mail.calls_append, hmail, hmails]
    exact ⟨rfl, rfl⟩

theorem freshList_mirror (leaves : List (Leaf A)) (random : Random) :
    (Tree.freshList ((leaves.map mirror).map .leaf) random).1 =
      mirrorList leaves (Tree.freshList (leaves.map .leaf) random).1 := by
  induction leaves generalizing random with
  | nil => rfl
  | cons leaf leaves ih => exact congrArg (Prod.mk ({} : LeafState)) (ih random)

end Leaf

/-- A selector of leaves tells its children what a sequence of the mirrored leaves tells them, signal for
signal, and its outcomes and statuses are the mirror images of those of the sequence. -/
theorem Tree.selector_mirrors (leaves : List (Leaf A)) (signals : List Signal) (random : Random)
    (world : World A) :
    let selector := Tree.selector (leaves.map .leaf)
    let sequence := Tree.sequence ((leaves.map Leaf.mirror).map .leaf)
    let here := selector.signals signals (selector.fresh random).1 world
    let there := sequence.signals signals (sequence.fresh random).1 world
    Mail.calls (sequence.mails signals (sequence.fresh random).1 world) =
        Mail.calls (selector.mails signals (selector.fresh random).1 world) ∧
      there.1 = here.1.map (fun answer => (answer.1.map Outcome.mirror, answer.2.mirror)) ∧
      there.2.2 = here.2.2 := by
  intro selector sequence here there
  have hfresh : (sequence.fresh random).1 = Leaf.mirrorComposite leaves (selector.fresh random).1 :=
    congrArg (CompositeState.mk .inactive 0) (Leaf.freshList_mirror leaves random)
  obtain ⟨hsignals, hmails⟩ := Leaf.signals_mirror leaves (selector.fresh random).1 signals world
  have hthere : there = _ := congrArg (sequence.signals signals · world) hfresh |>.trans hsignals
  rw [hthere, hfresh]
  exact ⟨hmails, rfl, rfl⟩

/-- A selector of leaves that follow scripts and a sequence of the same leaves with success and failure
exchanged in each script tell their children the same, signal for signal, and do the same to the world.
Their outcomes and statuses are each other's mirror images. -/
theorem Tree.selector_mirrors_sequence (heed : World A → Deed → World A) (scripts : List Script)
    (signals : List Signal) (random : Random) (world : World A) :
    let selector := Tree.selector ((Leaf.troupe heed 0 scripts).map .leaf)
    let sequence := Tree.sequence ((Leaf.troupe heed 0 (scripts.map (Outcome.mirror ∘ ·))).map .leaf)
    let here := selector.signals signals (selector.fresh random).1 world
    let there := sequence.signals signals (sequence.fresh random).1 world
    Mail.calls (sequence.mails signals (sequence.fresh random).1 world) =
        Mail.calls (selector.mails signals (selector.fresh random).1 world) ∧
      there.1 = here.1.map (fun answer => (answer.1.map Outcome.mirror, answer.2.mirror)) ∧
      there.2.2 = here.2.2 := by
  rw [← Leaf.mirror_troupe]
  exact Tree.selector_mirrors (Leaf.troupe heed 0 scripts) signals random world

end BehaviorTree
