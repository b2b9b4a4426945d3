import BehaviorTree.Proofs.Warnings.Reads
import BehaviorTree.Proofs.Board.Unwritten
import BehaviorTree.Proofs.Time.Cadence

namespace BehaviorTree

namespace Read

/-- The reads of which there is a warning, where warnings have named some keys before. -/
def reported (warned : List String) : List Read → List Read
  | [] => []
  | read :: reads =>
    if read.InVain ∧ read.key ∉ warned then read :: reported (read.key :: warned) reads
    else reported warned reads

/-- The keys that warnings have named after these reads. -/
def named (warned : List String) (reads : List Read) : List String :=
  ((reported warned reads).map key).reverse ++ warned

variable {warned : List String} {read : Read} {reads : List Read}

@[simp] theorem named_nil (warned : List String) : named warned [] = warned := rfl

theorem reported_cons_of_pos (h : read.InVain ∧ read.key ∉ warned) (reads : List Read) :
    reported warned (read :: reads) = read :: reported (read.key :: warned) reads := if_pos h

theorem reported_cons_of_neg (h : ¬(read.InVain ∧ read.key ∉ warned)) (reads : List Read) :
    reported warned (read :: reads) = reported warned reads := if_neg h

theorem named_cons_of_pos (h : read.InVain ∧ read.key ∉ warned) (reads : List Read) :
    named warned (read :: reads) = named (read.key :: warned) reads := by
  rw [named, named, reported_cons_of_pos h, List.map_cons, List.reverse_cons, List.append_assoc]
  rfl

theorem named_cons_of_neg (h : ¬(read.InVain ∧ read.key ∉ warned)) (reads : List Read) :
    named warned (read :: reads) = named warned reads := by
  rw [named, named, reported_cons_of_neg h]

theorem reported_append (warned : List String) (reads more : List Read) :
    reported warned (reads ++ more) = reported warned reads ++ reported (named warned reads) more := by
  induction reads generalizing warned with
  | nil => rfl
  | cons read reads ih =>
    rw [List.cons_append]
    by_cases h : read.InVain ∧ read.key ∉ warned
    · rw [reported_cons_of_pos h, reported_cons_of_pos h, named_cons_of_pos h, ih, List.cons_append]
    · rw [reported_cons_of_neg h, reported_cons_of_neg h, named_cons_of_neg h, ih]

theorem named_append (warned : List String) (reads more : List Read) :
    named warned (reads ++ more) = named (named warned reads) more := by
  rw [named, reported_append, List.map_append, List.reverse_append, List.append_assoc, named, named]

theorem mem_named {key : String} :
    key ∈ named warned reads ↔ key ∈ warned ∨ ∃ read ∈ reads, read.InVain ∧ read.key = key := by
  induction reads generalizing warned with
  | nil => simp
  | cons read reads ih =>
    rw [List.exists_mem_cons_iff]
    by_cases h : read.InVain ∧ read.key ∉ warned
    · rw [named_cons_of_pos h, ih, List.mem_cons]
      simp only [h.1, true_and, eq_comm, or_assoc, or_left_comm]
    · rw [named_cons_of_neg h, ih]
      have hknown : read.InVain ∧ read.key = key → key ∈ warned := by
        rintro ⟨hvain, rfl⟩
        exact not_not.mp (not_and.mp h hvain)
      tauto

theorem reported_sublist (warned : List String) (reads : List Read) :
    (reported warned reads).Sublist reads := by
  induction reads generalizing warned with
  | nil => exact .refl []
  | cons read reads ih =>
    rw [reported]
    split
    · exact (ih _).cons_cons read
    · exact (ih _).cons read

/-- Only the first read in vain of a key that no warning has named is reported. -/
theorem reported_first (h : read ∈ reported warned reads) : read.InVain ∧ read.key ∉ warned ∧
    ∃ before after, reads = before ++ read :: after ∧
      ∀ earlier ∈ before, earlier.InVain → earlier.key ≠ read.key := by
  induction reads generalizing warned with
  | nil => cases h
  | cons first reads ih =>
    rw [reported] at h
    split at h
    · next hfirst =>
      obtain rfl | h := List.mem_cons.mp h
      · exact ⟨hfirst.1, hfirst.2, [], reads, rfl, by simp⟩
      · obtain ⟨hvain, hnew, before, after, rfl, hbefore⟩ := ih h
        obtain ⟨hne, hnew⟩ := not_or.mp (mt List.mem_cons.mpr hnew)
        exact ⟨hvain, hnew, first :: before, after, rfl,
          List.forall_mem_cons.mpr ⟨fun _ => Ne.symm hne, hbefore⟩⟩
    · next hfirst =>
      obtain ⟨hvain, hnew, before, after, rfl, hbefore⟩ := ih h
      refine ⟨hvain, hnew, first :: before, after, rfl,
        List.forall_mem_cons.mpr ⟨fun hvain heq => hfirst ⟨hvain, heq ▸ hnew⟩, hbefore⟩⟩

theorem reported_nodup (warned : List String) (reads : List Read) :
    ((reported warned reads).map key).Nodup := by
  induction reads generalizing warned with
  | nil => exact List.nodup_nil
  | cons read reads ih =>
    rw [reported]
    split
    · refine List.nodup_cons.mpr ⟨fun hmem => ?_, ih _⟩
      obtain ⟨later, hlater, heq⟩ := List.mem_map.mp hmem
      exact (reported_first hlater).2.1 (heq ▸ List.mem_cons_self)
    · exact ih _

end Read

def Event.keyWarning? : Event → Option KeyWarning
  | .keyWarning warning => some warning
  | _ => none

variable {A : Type} {P : Guard → Prop}

namespace World

open Read

def warnings (world : World A) : List KeyWarning :=
  (world.journal.filterMap Event.keyWarning?).reverse

/-- These reads led from the one world to the other, and the warnings on the way report just them. The
guards that were evaluated are among those of a class. -/
structure Warns (P : Guard → Prop) (before after : World A) (reads : List Read) : Prop where
  warnings_eq : after.warnings =
    before.warnings ++ (reported before.board.warned reads).map Read.warning
  warned_eq : after.board.warned = named before.board.warned reads
  guards : ∀ read ∈ reads, ∀ guard, read.query = .holds guard → P guard

variable {before middle after world : World A} {reads more : List Read}

theorem Warns.silent (hwarnings : after.warnings = before.warnings)
    (hwarned : after.board.warned = before.board.warned) : Warns P before after [] :=
  ⟨hwarnings.trans (List.append_nil _).symm, hwarned, by simp⟩

theorem Warns.refl (world : World A) : Warns P world world [] := .silent rfl rfl

theorem Warns.trans (h : Warns P before middle reads) (k : Warns P middle after more) :
    Warns P before after (reads ++ more) where
  warnings_eq := by
    rw [k.warnings_eq, h.warnings_eq, h.warned_eq, reported_append, List.map_append, List.append_assoc]
  warned_eq := by rw [k.warned_eq, h.warned_eq, named_append]
  guards read hmem := by
    obtain hmem | hmem := List.mem_append.mp hmem
    · exact h.guards read hmem
    · exact k.guards read hmem

theorem Warns.andSilent (h : Warns P before middle reads) (k : Warns P middle after []) :
    Warns P before after reads := by
  simpa only [List.append_nil] using h.trans k

theorem Warns.afterSilent (h : Warns P before middle []) (k : Warns P middle after reads) :
    Warns P before after reads := h.trans k

theorem warns_record {event : Event} (h : event.keyWarning? = none) :
    Warns P world (world.record event) [] :=
  .silent (by simp [warnings, record, h]) rfl

/-- A read in vain adds a warning, unless one has named its key. -/
theorem warns_read (query : Query) (hP : ∀ guard, query = .holds guard → P guard)
    {answer : Board × Option KeyWarning}
    (h : answer = if query.isAnswered (world.get? query.key) then (world.board, none)
      else world.board.noteMissing query.key query.expected) :
    Warns P world (world.withReport answer.1 answer.2) [world.read query] := by
  have hguards : ∀ read ∈ [world.read query], ∀ guard, read.query = .holds guard → P guard :=
    List.forall_mem_singleton.mpr hP
  by_cases hanswered : query.isAnswered (world.get? query.key) = true
  · have hpositive : ¬((world.read query).InVain ∧ (world.read query).key ∉ world.board.warned) := by
      simp [InVain, read, hanswered]
    rw [if_pos hanswered] at h
    subst h
    exact ⟨by rw [reported_cons_of_neg hpositive]; exact (List.append_nil _).symm,
      by rw [named_cons_of_neg hpositive]; rfl, hguards⟩
  · rw [if_neg hanswered, Board.noteMissing] at h
    by_cases hknown : query.key ∈ world.board.warned
    · have hsecond : ¬((world.read query).InVain ∧ (world.read query).key ∉ world.board.warned) :=
        fun hfirst => hfirst.2 hknown
      rw [if_pos hknown] at h
      subst h
      exact ⟨by rw [reported_cons_of_neg hsecond]; exact (List.append_nil _).symm,
        by rw [named_cons_of_neg hsecond]; rfl, hguards⟩
    · have hfirst : (world.read query).InVain ∧ (world.read query).key ∉ world.board.warned :=
        ⟨by simpa [InVain, read] using hanswered, hknown⟩
      rw [if_neg hknown] at h
      subst h
      refine ⟨?_, by rw [named_cons_of_pos hfirst]; rfl, hguards⟩
      rw [reported_cons_of_pos hfirst]
      exact List.reverse_cons

end World

theorem Guard.evaluate_report (guard : Guard) (board : Board) : (guard.evaluate board).2 =
    if (Query.holds guard).isAnswered (board.get? guard.key) then (board, none)
    else board.noteMissing guard.key guard.threshold.kind := by
  obtain ⟨key, operator, threshold⟩ := guard
  cases hfound : board.get? key with
  | none => cases operator <;> simp [Guard.evaluate, Query.isAnswered, hfound]
  | some value =>
    simp only [Guard.evaluate, Query.isAnswered, hfound, Option.bind_some]
    cases hcompare : operator.compare? value threshold with
    | none => cases operator <;> simp [hcompare]
    | some holds => cases operator <;> simp [hcompare]

theorem Board.readOr_report {α : Type} (board : Board) (read : Value → Option α) (expected : Kind)
    (default : α) (key : String) : (board.readOr read expected default key).2 =
      if ((board.get? key).bind read).isSome then (board, none) else board.noteMissing key expected := by
  rw [readOr]
  cases (board.get? key).bind read <;> rfl

namespace World

theorem warns_evaluate (world : World A) {guard : Guard} (hP : P guard) :
    Warns P world (world.evaluate guard).2 [world.read (.holds guard)] :=
  warns_read (.holds guard) (fun _ heq => Query.holds.inj heq ▸ hP) (guard.evaluate_report world.board)

theorem warns_judge (world : World A) {guard : Guard} (hP : P guard) (id : ObserverId) :
    Warns P world (world.judge guard id).2 [world.read (.holds guard)] :=
  (world.warns_evaluate hP).andSilent (warns_record rfl)

theorem warns_getNumber (world : World A) (key : String) :
    Warns P world (world.getNumber key).2 [world.read (.number key)] :=
  warns_read (.number key) nofun (world.board.readOr_report Value.number? .number 0 key)

theorem warns_getBool (world : World A) (key : String) :
    Warns P world (world.getBool key).2 [world.read (.bool key)] :=
  warns_read (.bool key) nofun (world.board.readOr_report Value.bool? .bool false key)

theorem warns_set (world : World A) (key : String) (value : Value) :
    Warns P world (world.set key value).2 [] := by
  refine .silent rfl ?_
  change (world.board.set key value).2.1.warned = world.board.warned
  rw [Board.set]
  split <;> rfl

theorem warns_remove (world : World A) (key : String) :
    Warns P world (world.remove key).2 [] := by
  refine .silent rfl ?_
  change (world.board.remove key).2.1.warned = world.board.warned
  rw [Board.remove]
  split <;> rfl

theorem warns_acknowledge (world : World A) (id : ObserverId) :
    Warns P world (world.acknowledge id) [] := .silent rfl rfl

theorem warns_mapAgent (world : World A) (f : A → A) : Warns P world (world.mapAgent f) [] :=
  .silent rfl rfl

theorem warns_observe (world : World A) (observer : Option ObserverId) (key : String) :
    Warns P world (world.observe observer key).2 [] := by
  cases observer <;> exact .silent rfl rfl

theorem warns_dismiss? (world : World A) (observer : Option ObserverId) :
    Warns P world (world.dismiss? observer) [] := by
  cases observer with
  | none => exact .refl world
  | some id =>
    unfold dismiss? dismiss
    dsimp only
    split
    · exact .silent rfl rfl
    · exact .refl world

theorem discarding_silent : Discarding fun before after : World A => Warns P before after [] where
  refl := .refl
  trans := .andSilent
  dismiss? := warns_dismiss?
  unsubscribe? world observer := by cases observer <;> exact .silent rfl rfl
  cancel? world timer := by cases timer <;> exact .silent rfl rfl

theorem warns_startedHolding (world : World A) {guard : Guard} (hP : P guard)
    (observer : Option ObserverId) :
    Warns P world (world.startedHolding guard observer).2 (world.noticeReads guard observer) := by
  cases observer with
  | none => exact .refl world
  | some id =>
    rw [startedHolding, noticeReads]
    split
    · exact (world.warns_acknowledge id).afterSilent ((world.acknowledge id).warns_judge hP id)
    · exact .refl world

theorem warns_stoppedHolding (world : World A) {guard : Guard} (hP : P guard)
    (observer : Option ObserverId) :
    Warns P world (world.stoppedHolding guard observer).2 (world.noticeReads guard observer) := by
  cases observer with
  | none => exact .refl world
  | some id =>
    rw [stoppedHolding, noticeReads]
    split
    · refine (world.warns_acknowledge id).afterSilent
        (((world.acknowledge id).warns_evaluate hP).andSilent ?_)
      rw [breaks]
      dsimp only
      split
      · exact .refl _
      · exact warns_record rfl
    · exact .refl world

end World

theorem Routine.run_warns (routine : Routine A) (world : World A) :
    World.Warns P world (routine.run world) (routine.reads world) := by
  induction routine generalizing world with
  | done => exact .refl world
  | act effect next ih => exact (world.warns_mapAgent effect).afterSilent (ih _)
  | look next ih | get key next ih => exact ih _ world
  | getNumber key next ih => exact (world.warns_getNumber key).trans (ih _ _)
  | getBool key next ih => exact (world.warns_getBool key).trans (ih _ _)
  | set key value next ih => exact (world.warns_set key value).afterSilent (ih _ _)
  | remove key next ih => exact (world.warns_remove key).afterSilent (ih _ _)

theorem World.warns_refresh (world : World A) (timer : TimerId) (callback : Routine A) :
    World.Warns P world (world.refresh timer callback) (world.refreshReads timer callback) :=
  (warns_record rfl).afterSilent (callback.run_warns _)

namespace Tree

mutual

/-- The tree has no leaf that the host wrote, and all guards of its conditions are of a class. -/
def Guarded (P : Guard → Prop) : Tree A → Prop
  | .action _ _ => True
  | .wait _ _ => True
  | .leaf _ => False
  | .sequence children => GuardedList P children
  | .selector children => GuardedList P children
  | .condition guard _ child => P guard ∧ GuardedOption P child
  | .service _ _ _ child => GuardedOption P child

def GuardedList (P : Guard → Prop) : List (Tree A) → Prop
  | [] => True
  | tree :: trees => tree.Guarded P ∧ GuardedList P trees

def GuardedOption (P : Guard → Prop) : Option (Tree A) → Prop
  | none => True
  | some tree => tree.Guarded P

end

mutual

theorem Guarded.builtIn : (tree : Tree A) → tree.Guarded P → tree.BuiltIn
  | .action _ _, _ => trivial
  | .wait _ _, _ => trivial
  | .sequence children, h => GuardedList.builtIn children h
  | .selector children, h => GuardedList.builtIn children h
  | .condition _ _ child, h => GuardedOption.builtIn child h.2
  | .service _ _ _ child, h => GuardedOption.builtIn child h

theorem GuardedList.builtIn : (trees : List (Tree A)) → GuardedList P trees → BuiltInList trees
  | [], _ => trivial
  | tree :: trees, h => ⟨Guarded.builtIn tree h.1, GuardedList.builtIn trees h.2⟩

theorem GuardedOption.builtIn : (tree : Option (Tree A)) → GuardedOption P tree → BuiltInOption tree
  | none, _ => trivial
  | some tree, h => Guarded.builtIn tree h

end

mutual

/-- The guards of a tree that is found fit to run have been checked. -/
theorem guarded_of_validate : (tree : Tree A) → tree.BuiltIn → tree.validate = .ok () →
    tree.Guarded (checkGuard · = .ok ())
  | .action _ _, _, _ => trivial
  | .wait _ _, _, _ => trivial
  | .sequence children, h, hvalid => guardedList_of_validate children h (validateList_of_outside hvalid)
  | .selector children, h, hvalid => guardedList_of_validate children h hvalid
  | .condition guard _ none, _, hvalid => by
    rw [validate, andThen_eq_ok] at hvalid
    exact ⟨hvalid.1, trivial⟩
  | .condition guard _ (some child), h, hvalid => by
    rw [validate, andThen_eq_ok, andThen_eq_ok] at hvalid
    exact ⟨hvalid.1, guarded_of_validate child h hvalid.2.2⟩
  | .service _ _ _ none, _, _ => trivial
  | .service _ interval _ (some child), h, hvalid => by
    rw [validate] at hvalid
    split at hvalid
    · cases hvalid
    · exact guarded_of_validate child h hvalid

theorem guardedList_of_validate : (trees : List (Tree A)) → BuiltInList trees →
    validateList trees = .ok () → GuardedList (checkGuard · = .ok ()) trees
  | [], _, _ => trivial
  | tree :: trees, h, hvalid => by
    rw [validateList, andThen_eq_ok] at hvalid
    exact ⟨guarded_of_validate tree h.1 hvalid.1, guardedList_of_validate trees h.2 hvalid.2⟩

end

mutual

theorem start_warns : (tree : Tree A) → tree.Guarded P → (state : tree.State) → (world : World A) →
    World.Warns P world (tree.start state world).2 (tree.startReads state world)
  | .action _ _, _, _, world => .refl world
  | .wait duration variance, _, state, world => by
    rw [start, startReads]
    split
    · exact .refl world
    · split <;> exact .silent rfl rfl
  | .sequence _, _, _, world => .refl world
  | .selector _, _, _, world => .refl world
  | .condition guard policy child, h, state, world => by
    by_cases hidle : state.status = .inactive
    · have hobserved := world.warns_observe (P := P) state.observer guard.key
      rcases hobserve : world.observe state.observer guard.key with ⟨id, observed⟩
      have hjudged := observed.warns_judge h.1 id
      rcases hjudge : observed.judge guard id with ⟨holds, judged⟩
      rw [hobserve] at hobserved
      rw [hjudge] at hjudged
      rw [start_condition guard policy child state world hidle hobserve hjudge, startReads,
        if_neg (not_not.mpr hidle), hobserve]
      dsimp only
      rw [hjudge]
      split
      · exact hobserved.andSilent (World.warns_record rfl)
      · refine hobserved.afterSilent (hjudged.trans ?_)
        cases holds with
        | true => exact startOption_warns child h.2 state.child judged
        | false => exact .refl judged
    · rw [start, if_pos hidle, startReads, if_pos hidle]
      exact .refl world
  | .service label interval callback child, h, state, world => by
    by_cases hidle : state.status = .inactive
    · have hrefreshed := world.warns_refresh (P := P) ⟨world.clock.nextTimer⟩ callback
      rcases hadd : (world.refresh ⟨world.clock.nextTimer⟩ callback).addTimer interval with ⟨id, added⟩
      have hadded : World.Warns P (world.refresh ⟨world.clock.nextTimer⟩ callback) added [] := by
        rw [← show ((world.refresh ⟨world.clock.nextTimer⟩ callback).addTimer interval).2 = added
          from congrArg Prod.snd hadd]
        exact .silent rfl rfl
      rw [start_service label interval callback child state world hidle hadd, startReads,
        if_neg (not_not.mpr hidle)]
      dsimp only
      rw [hadd]
      exact (hrefreshed.andSilent hadded).trans (startOption_warns child h state.child added)
    · rw [start, if_pos hidle, startReads, if_pos hidle]
      exact .refl world

theorem startOption_warns : (tree : Option (Tree A)) → GuardedOption P tree →
    (state : StateOption tree) → (world : World A) →
    World.Warns P world (startOption tree state world).2 (startOptionReads tree state world)
  | none, _, _, world => .refl world
  | some tree, h, state, world => start_warns tree h state world

end

mutual

theorem preempts_warns : (tree : Tree A) → tree.Guarded P → (state : tree.State) →
    (world : World A) →
    World.Warns P world (tree.preempts state world).2 (tree.preemptsReads state world)
  | .action _ _, _, _, world => .refl world
  | .wait _ _, _, _, world => .refl world
  | .sequence _, _, _, world => .refl world
  | .selector _, _, _, world => .refl world
  | .condition guard policy child, h, state, world => by
    rw [preempts, preemptsReads]
    cases policy.preemption? with
    | none => exact .refl world
    | some preemption =>
      dsimp only
      split
      · exact .refl world
      · exact world.warns_startedHolding h.1 state.observer
  | .service _ _ _ child, h, state, world => by
    rw [preempts, preemptsReads]
    exact preemptsOption_warns child h state.child world

theorem preemptsOption_warns : (tree : Option (Tree A)) → GuardedOption P tree →
    (state : StateOption tree) → (world : World A) →
    World.Warns P world (preemptsOption tree state world).2 (preemptsOptionReads tree state world)
  | none, _, _, world => .refl world
  | some tree, h, state, world => preempts_warns tree h state world

end

theorem firstPreempting_warns (trees : List (Tree A)) (h : GuardedList P trees) (limit : Nat)
    (states : StateList trees) (world : World A) :
    World.Warns P world (firstPreempting trees limit states world).2
      (firstPreemptingReads trees limit states world) := by
  induction trees generalizing limit world with
  | nil => exact .refl world
  | cons tree trees ih =>
    obtain ⟨state, states⟩ := states
    cases limit with
    | zero => exact .refl world
    | succ limit =>
      have hasked := preempts_warns tree h.1 state world
      rw [firstPreempting, firstPreemptingReads]
      rcases hpreempts : tree.preempts state world with ⟨_ | preemption, asked⟩ <;> rw [hpreempts] at hasked
      · exact hasked.trans (ih h.2 limit states asked)
      · exact hasked.trans (.refl asked)

theorem arbitrate_warns (children : List (Tree A)) (h : GuardedList P children)
    (state : CompositeState (StateList children)) (world : World A) :
    World.Warns P world (arbitrate children state world).2.2
      (firstPreemptingReads children state.current state.children world) := by
  have hasked := firstPreempting_warns children h state.current state.children world
  rw [arbitrate]
  rcases hfirst : firstPreempting children state.current state.children world with
    ⟨_ | ⟨winner, preemption⟩, asked⟩ <;> rw [hfirst] at hasked
  · exact hasked
  · have hstopped := stopAt_discards (World.discarding_silent (P := P)) children (GuardedList.builtIn _ h)
      state.current state.children (asked.record (.preempted winner state.current preemption))
    exact (hasked.andSilent (World.warns_record rfl)).andSilent hstopped

theorem settle_silent (trees : List (Tree A)) (h : GuardedList P trees) (outcome : Outcome)
    (current : Nat) (states : StateList trees) (world : World A) :
    World.Warns P world (settle trees outcome current states world).2.2 [] := by
  rw [settle]
  dsimp only
  split
  · exact .refl world
  · exact releaseList_discards World.discarding_silent trees (GuardedList.builtIn _ h) states world

def readsOf (visits : List (Visit A)) : List Read := visits.flatMap Visit.reads

theorem readsOf_cons (visit : Visit A) (visits : List (Visit A)) :
    readsOf (visit :: visits) = visit.reads ++ readsOf visits :=
  List.flatMap_cons

theorem readsOf_append (visits more : List (Visit A)) :
    readsOf (visits ++ more) = readsOf visits ++ readsOf more :=
  List.flatMap_append

theorem tickRest_warns {goOn : Outcome} {trees : List (Tree A)} (h : GuardedList P trees)
    {current : Nat} {states : StateList trees} {world : World A} {reads : List Read}
    (hticked : World.Warns P world (tickFrom goOn trees current states world).2.2.2 reads) :
    World.Warns P world (tickRest goOn trees current states world).2.2 reads :=
  hticked.andSilent (settle_silent trees h _ _ _ _)

mutual

theorem tick_warns : (tree : Tree A) → tree.Guarded P → (state : tree.State) → (world : World A) →
    World.Warns P world (tree.tick state world).2.2 (readsOf (tree.visits state world))
  | .action label command, _, state, world => by
    have hrecord : World.Warns P world (world.record (.acted label)) [] := World.warns_record rfl
    rw [tick, visits]
    split
    · exact .refl world
    · cases command with
      | always effect => exact hrecord.andSilent (World.warns_mapAgent _ effect)
      | drawn low high effect => exact hrecord.andSilent (World.warns_mapAgent _ _)
  | .wait duration variance, _, state, world => by
    have hbegun := start_warns (.wait duration variance) (P := P) trivial state world
    rw [tick, visits]
    dsimp only
    split
    · exact hbegun
    · split <;> exact hbegun
  | .sequence children, h, state, world => by
    rw [tick_sequence, visits, readsOf_cons]
    cases houtcome : state.begin.status.outcome? with
    | some outcome => exact .refl world
    | none => exact tickRest_warns h (tickFrom_warns .success (by simp) children h _ _ world)
  | .selector children, h, state, world => by
    rw [tick_selector, visits, readsOf_cons, Visit.reads, ownReads]
    cases houtcome : state.begin.status.outcome? with
    | some outcome => exact .refl world
    | none =>
      have hasked := arbitrate_warns children h state.begin world
      dsimp only
      rcases harb : arbitrate children state.begin world with ⟨_ | current, states, asked⟩ <;>
        rw [harb] at hasked
      · exact hasked.trans (settle_silent children h _ _ states asked)
      · exact hasked.trans (tickRest_warns h (tickFrom_warns .fail (by simp) children h current states
          asked))
  | .condition guard policy child, h, state, world => by
    have hbegun := start_warns (.condition guard policy child) h state world
    rcases hstart : (Tree.condition guard policy child).start state world with ⟨started, begun⟩
    rcases hbroken : (if policy.abortsSelf then begun.stoppedHolding guard started.observer
      else (false, begun)) with ⟨broken, checked⟩
    rw [hstart] at hbegun
    rw [tick_condition guard policy child state world hstart hbroken, visits, readsOf_cons, Visit.reads,
      ownReads, hstart]
    dsimp only
    cases started.status.outcome? with
    | some outcome => exact (hbegun.trans (.refl begun)).trans (.refl begun)
    | none =>
      have hchecked : World.Warns P begun checked
          (if policy.abortsSelf then begun.noticeReads guard started.observer else []) := by
        by_cases haborts : policy.abortsSelf = true
        · rw [if_pos haborts] at hbroken ⊢
          have hnoticed := begun.warns_stoppedHolding h.1 started.observer
          rwa [hbroken] at hnoticed
        · rw [if_neg haborts] at hbroken ⊢
          cases hbroken
          exact .refl begun
      dsimp only
      rw [hbroken]
      refine (hbegun.trans hchecked).trans ?_
      cases broken with
      | true => exact stopOption_discards World.discarding_silent child (GuardedOption.builtIn child h.2) _ _
      | false => exact tickOption_warns child h.2 started.child checked
  | .service label interval callback child, h, state, world => by
    have hbegun := start_warns (.service label interval callback child) h state world
    rcases hstart : (Tree.service label interval callback child).start state world with
      ⟨started, begun⟩
    rw [hstart] at hbegun
    rw [tick_service label interval callback child state world hstart, visits, readsOf_cons, hstart]
    dsimp only
    cases started.status.outcome? with
    | some outcome => exact hbegun.trans (.refl begun)
    | none => exact hbegun.trans (tickOption_warns child h started.child begun)

theorem tickFrom_warns : (goOn : Outcome) → goOn ≠ .running → (trees : List (Tree A)) → GuardedList P trees →
    (i : Nat) → (states : StateList trees) → (world : World A) →
    World.Warns P world (tickFrom goOn trees i states world).2.2.2
      (readsOf (visitsFrom goOn trees i states world))
  | _, _, [], _, _, _, world => .refl world
  | goOn, hgo, tree :: trees, h, 0, (state, states), world => by
    have hticked := tick_warns tree h.1 state world
    rcases htick : tree.tick state world with ⟨outcome, ticked, after⟩
    have hstopped := stop_discards (World.discarding_silent (P := P)) tree (Guarded.builtIn tree h.1)
      ticked after
    rw [htick] at hticked
    rw [tickFrom_zero goOn tree trees state states world htick, visitsFrom, htick, readsOf_append]
    dsimp only
    by_cases hrunning : outcome = .running
    · rw [if_pos hrunning, if_neg (hrunning ▸ Ne.symm hgo)]
      exact hticked.trans (.refl after)
    · have hended := hticked.andSilent hstopped
      rw [if_neg hrunning]
      split
      · exact hended.trans (tickFrom_warns goOn hgo trees h.2 0 states _)
      · exact hended.trans (.refl _)
  | goOn, hgo, tree :: trees, h, i + 1, (state, states), world => by
    rw [tickFrom, visitsFrom]
    exact tickFrom_warns goOn hgo trees h.2 i states world

theorem tickOption_warns : (tree : Option (Tree A)) → GuardedOption P tree →
    (state : StateOption tree) → (world : World A) →
    World.Warns P world (tickOption tree state world).2.2 (readsOf (visitsOption tree state world))
  | none, _, _, world => .refl world
  | some tree, h, state, world => tick_warns tree h state world

end

mutual

theorem fire_warns : (tree : Tree A) → tree.Guarded P → (state : tree.State) → (timer : TimerId) →
    (world : World A) →
    World.Warns P world (tree.fire state timer world).2 (tree.fireReads state timer world)
  | .action _ _, _, _, _, world => .refl world
  | .wait _ _, _, _, _, world => .refl world
  | .sequence children, h, state, timer, world => by
    rw [fire, fireReads]
    split
    · exact fireAt_warns children h state.current state.children timer world
    · exact .refl world
  | .selector children, h, state, timer, world => by
    rw [fire, fireReads]
    split
    · exact fireAt_warns children h state.current state.children timer world
    · exact .refl world
  | .condition _ _ child, h, state, timer, world => by
    rw [fire, fireReads]
    split
    · exact .refl world
    · exact fireOption_warns child h.2 state.child timer world
  | .service _ _ callback child, h, state, timer, world => by
    rw [fire, fireReads]
    split
    · exact .refl world
    · split
      · exact world.warns_refresh timer callback
      · exact fireOption_warns child h state.child timer world

theorem fireAt_warns : (trees : List (Tree A)) → GuardedList P trees → (i : Nat) →
    (states : StateList trees) → (timer : TimerId) → (world : World A) →
    World.Warns P world (fireAt trees i states timer world).2 (fireAtReads trees i states timer world)
  | [], _, _, _, _, world => .refl world
  | tree :: _, h, 0, (state, _), timer, world => fire_warns tree h.1 state timer world
  | _ :: trees, h, i + 1, (_, states), timer, world => fireAt_warns trees h.2 i states timer world

theorem fireOption_warns : (tree : Option (Tree A)) → GuardedOption P tree →
    (state : StateOption tree) → (timer : TimerId) → (world : World A) →
    World.Warns P world (fireOption tree state timer world).2
      (fireOptionReads tree state timer world)
  | none, _, _, _, world => .refl world
  | some tree, h, state, timer, world => fire_warns tree h state timer world

end

end Tree

namespace Subtree

variable {node : Subtree A}

theorem dispatch_warns (h : node.tree.Guarded P) (timer : TimerId) (world : World A) :
    World.Warns P world (world.dispatch node.fire timer)
      (node.tree.fireReads node.state timer world) := by
  have hfired := Tree.fire_warns node.tree h node.state timer world
  rw [World.dispatch]
  dsimp only
  split
  · exact hfired
  · exact hfired.andSilent (.silent rfl rfl)

theorem fireDue_warns (h : node.tree.Guarded P) (limit : Duration) (fuel : Nat) (world : World A) :
    World.Warns P world (World.fireDue node.fire limit fuel world)
      (node.fireDueReads limit fuel world) := by
  induction fuel generalizing world with
  | zero => exact .refl world
  | succ fuel ih =>
    rw [World.fireDue, fireDueReads]
    cases world.clock.popDue? limit with
    | none => exact .refl world
    | some popped =>
      obtain ⟨id, clock⟩ := popped
      have hpopped : World.Warns P world { world with clock } [] := .silent rfl rfl
      dsimp only
      split
      · exact hpopped
      · exact hpopped.afterSilent ((dispatch_warns h id _).trans (ih _))

theorem advance_warns (h : node.tree.Guarded P) (world : World A) (dt : Duration) :
    World.Warns P world (world.advance node.fire dt) (node.advanceReads world dt) := by
  rw [World.advance, advanceReads]
  dsimp only
  split
  · exact .silent rfl rfl
  · exact (fireDue_warns h _ _ world).andSilent (.silent rfl rfl)

end Subtree

end BehaviorTree
