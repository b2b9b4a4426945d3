import BehaviorTree.Proofs.Warnings.Reported
import BehaviorTree.Proofs.Loading.Seconds

namespace BehaviorTree

variable {A : Type} {P : Guard → Prop}

namespace Root

/-- The call forgets which keys warnings have named. -/
def clears (root : Root A) : Call A → Bool
  | .clear => true
  | .stop => root.active
  | _ => false

def Uncleared (root : Root A) : List (Call A) → Prop
  | [] => True
  | call :: calls => root.clears call = false ∧ (root.call call).Uncleared calls

variable {root : Root A}

theorem released_warns (h : root.tree.Guarded P) :
    World.Warns P root.world root.released.world [] :=
  Tree.release_discards World.discarding_silent root.tree (Tree.Guarded.builtIn _ h) root.state root.world

theorem readied_warns (h : root.tree.Guarded P) :
    World.Warns P root.world root.readied.world [] := by
  rw [readied]
  split
  · exact released_warns h
  · exact .refl root.world

theorem tick_warns (h : root.tree.Guarded P) :
    World.Warns P root.world root.tick.world root.tickReads := by
  rw [tickReads, visits]
  by_cases hactive : root.active = true
  · have hplan : root.readied.tree = root.tree := by
      rw [readied]
      split <;> rfl
    rw [if_pos hactive, root.tick_eq hactive]
    exact (readied_warns h).afterSilent
      (Tree.tick_warns root.readied.tree (hplan ▸ h) root.readied.state root.readied.world)
  · rw [if_neg hactive, tick, if_pos (by simpa using hactive)]
    exact .refl root.world

theorem advance_warns (h : root.tree.Guarded P) (dt : Duration) :
    World.Warns P root.world (root.advance dt).world (root.node.advanceReads root.world dt) :=
  @Subtree.advance_warns A P root.node h root.world dt

theorem call_warns (h : root.tree.Guarded P) {call : Call A} (hclears : root.clears call = false) :
    World.Warns P root.world (root.call call).world (root.reads call) := by
  cases call with
  | start =>
    rw [Root.call, start, reads]
    split
    · exact .refl root.world
    · exact Tree.start_warns root.tree h root.state root.world
  | tick => exact tick_warns h
  | advance dt => exact advance_warns h dt
  | update dt =>
    have hadvanced : (root.advance dt).tree.Guarded P := h
    exact (advance_warns h dt).trans (tick_warns hadvanced)
  | stop =>
    rw [Root.call, stop, if_pos (by simpa [clears] using hclears)]
    exact .refl root.world
  | steer f => exact root.world.warns_mapAgent f
  | set key value => exact root.world.warns_set key value
  | remove key => exact root.world.warns_remove key
  | getNumber key => exact root.world.warns_getNumber key
  | getBool key => exact root.world.warns_getBool key
  | clear => cases hclears
  | watch key reaction => exact .silent rfl rfl
  | unwatch id => exact .silent rfl rfl

theorem warnings_reset (world : World A) (values : Values) :
    (world.reset values).warnings = world.warnings := by
  unfold World.reset
  dsimp only
  split
  · rfl
  · exact congrArg List.reverse rfl

theorem call_cleared (h : root.tree.Guarded P) {call : Call A} (hclears : root.clears call = true) :
    (root.call call).world.warnings = root.world.warnings ∧ (root.call call).world.board.warned = [] := by
  cases call with
  | clear => exact ⟨rfl, rfl⟩
  | stop =>
    rw [Root.call, root.stop_eq hclears]
    refine ⟨(warnings_reset _ _).trans ?_, rfl⟩
    exact (released_warns h).warnings_eq.trans (List.append_nil _)
  | start | tick | advance _ | update _ | steer _ | set _ _ | remove _ | getNumber _ | getBool _
  | watch _ _ | unwatch _ => cases hclears

theorem calls_warns (h : root.tree.Guarded P) {calls : List (Call A)} (hcalls : root.Uncleared calls) :
    World.Warns P root.world (root.calls calls).world (root.allReads calls) := by
  induction calls generalizing root with
  | nil => exact .refl root.world
  | cons call calls ih =>
    refine (call_warns h hcalls.1).trans (ih ?_ hcalls.2)
    rwa [(root.call_plan call).1]

end Root

section Compare

open Float.Model (UnpackedFloat)

theorem compare_swap (x y : UnpackedFloat) : y.compare x = (x.compare y).map Ordering.swap := by
  cases x with
  | notANumber => cases y <;> rfl
  | infinity s =>
    cases y with
    | infinity t => cases s <;> cases t <;> rfl
    | _ => cases s <;> rfl
  | zero s =>
    cases y with
    | finite t _ _ _ | infinity t => cases t <;> rfl
    | _ => rfl
  | finite s m e _ =>
    cases y with
    | finite t m' e' _ =>
      have hswap : (compare e' e).then (compare m' m) = ((compare e e').then (compare m m')).swap := by
        rw [Ordering.swap_then, Int.compare_swap, Nat.compare_swap]
      cases s with
      | positive =>
        cases t with
        | positive => exact congrArg some hswap
        | negative => rfl
      | negative =>
        cases t with
        | positive => rfl
        | negative => exact congrArg (fun order => some order.swap) hswap
    | infinity t => cases t <;> rfl
    | zero t => cases s <;> rfl
    | notANumber => rfl

theorem compare_eq_none {x y : UnpackedFloat} (h : x.compare y = none) : x.isNaN = true ∨ y.isNaN = true := by
  cases x with
  | notANumber => exact .inl rfl
  | infinity s =>
    cases y with
    | notANumber => exact .inr rfl
    | _ => cases s <;> cases h
  | zero s =>
    cases y with
    | notANumber => exact .inr rfl
    | finite t _ _ _ | infinity t => cases t <;> cases h
    | zero t => cases h
  | finite s _ _ _ =>
    cases y with
    | notANumber => exact .inr rfl
    | finite t _ _ _ | infinity t => cases s <;> cases t <;> cases h
    | zero t => cases s <;> cases h

theorem Operator.compareNumbers?_eq_none {operator : Operator} {x y : Float}
    (h : operator.compareNumbers? x y = none) : x.isNaN = true ∨ y.isNaN = true := by
  suffices hnone : x.toModel.unpack.compare y.toModel.unpack = none from compare_eq_none hnone
  rw [compareNumbers?] at h
  by_cases hless : x < y
  · rw [if_pos hless] at h
    cases h
  by_cases hgreater : y < x
  · rw [if_neg hless, if_pos hgreater] at h
    cases h
  by_cases hequal : (x == y) = true
  · rw [if_neg hless, if_neg hgreater, if_pos hequal] at h
    cases h
  rw [Duration.lt_iff, UnpackedFloat.lt] at hless hgreater
  rw [compare_swap] at hgreater
  change ¬(x.toModel.unpack.compare y.toModel.unpack == some .eq) = true at hequal
  cases hcompare : x.toModel.unpack.compare y.toModel.unpack with
  | none => rfl
  | some order =>
    rw [hcompare] at hless hgreater hequal
    cases order
    · exact (hless rfl).elim
    · exact (hequal rfl).elim
    · exact (hgreater rfl).elim

end Compare

namespace Read

/-- A number is compared with another one by order, and one of them is not a number. -/
def Unordered (read : Read) : Prop :=
  ∃ guard x y, read.query = .holds guard ∧ guard.operator.isOrdering = true ∧
    read.found = some (.number x) ∧ guard.threshold = .number y ∧ (x.isNaN = true ∨ y.isNaN = true)

theorem compare?_eq_none {operator : Operator} {value threshold : Value}
    (hcheck : operator.isOrdering = true → threshold.kind = .number)
    (h : operator.compare? value threshold = none) : value.kind ≠ threshold.kind ∨
      operator.isOrdering = true ∧ ∃ x y, value = .number x ∧ threshold = .number y ∧
        (x.isNaN = true ∨ y.isNaN = true) := by
  by_cases hkind : value.kind = threshold.kind
  · refine .inr ?_
    have hordering : operator.isOrdering = true := by
      cases operator with
      | equal | notEqual | isSet | isNotSet => simp [Operator.compare?, hkind] at h
      | less | lessOrEqual | greater | greaterOrEqual => rfl
    obtain ⟨y, rfl⟩ : ∃ y, threshold = .number y := by
      cases threshold with
      | number y => exact ⟨y, rfl⟩
      | bool _ | text _ => cases hcheck hordering
    obtain ⟨x, rfl⟩ : ∃ x, value = .number x := by
      cases value with
      | number x => exact ⟨x, rfl⟩
      | bool _ | text _ => cases hkind
    refine ⟨hordering, x, y, rfl, rfl, ?_⟩
    have hcompare : operator.compare? (.number x) (.number y) = operator.compareNumbers? x y := by
      cases operator with
      | equal | notEqual | isSet | isNotSet => cases hordering
      | less | lessOrEqual | greater | greaterOrEqual => rfl
    exact Operator.compareNumbers?_eq_none (hcompare.symm.trans h)
  · exact .inl hkind

theorem kind_of_checkGuard {guard : Guard} (h : Tree.checkGuard guard = .ok ())
    (hordering : guard.operator.isOrdering = true) : guard.threshold.kind = .number := by
  rw [Tree.checkGuard] at h
  split at h
  · cases h
  · split at h
    · cases h
    · next hkind => simpa [hordering] using hkind

theorem InVain.mismatch {read : Read} {value : Value} (h : read.InVain) (hfound : read.found = some value)
    (hcheck : ∀ guard, read.query = .holds guard → Tree.checkGuard guard = .ok ()) :
    value.kind ≠ read.query.expected ∨ read.Unordered := by
  obtain ⟨query, found⟩ := read
  obtain rfl : found = some value := hfound
  cases query with
  | number key =>
    refine .inl ?_
    cases value with
    | number x => cases h
    | bool _ | text _ => exact nofun
  | bool key =>
    refine .inl ?_
    cases value with
    | bool b => cases h
    | number _ | text _ => exact nofun
  | holds guard =>
    have hcompare : guard.operator.compare? value guard.threshold = none := by
      have hunanswered : (Query.holds guard).isAnswered (some value) = false := h
      simp only [Query.isAnswered, Option.bind_some, Bool.or_eq_false_iff] at hunanswered
      exact Option.isNone_iff_eq_none.mp (by simpa using hunanswered.2)
    refine (compare?_eq_none (kind_of_checkGuard (hcheck guard rfl)) hcompare).imp_right ?_
    · rintro ⟨hordering, x, y, rfl, hthreshold, hnan⟩
      exact ⟨guard, x, y, rfl, hordering, rfl, hthreshold, hnan⟩

end Read

/-- Of each key that no warning has named, and that was read in vain, the first such read. -/
structure Read.FirstsInVain (warned : List String) (reads firsts : List Read) : Prop where
  sublist : firsts.Sublist reads
  distinct : (firsts.map Read.key).Nodup
  first : ∀ read ∈ firsts, read.InVain ∧ ∃ before after, reads = before ++ read :: after ∧
    ∀ earlier ∈ before, earlier.InVain → earlier.key ≠ read.key
  exactly : ∀ key, key ∈ firsts.map Read.key ↔
    key ∉ warned ∧ ∃ read ∈ reads, read.InVain ∧ read.key = key

theorem Read.firstsInVain_reported (warned : List String) (reads : List Read) :
    FirstsInVain warned reads (reported warned reads) where
  sublist := reported_sublist warned reads
  distinct := reported_nodup warned reads
  first read hmem := ⟨(reported_first hmem).1, (reported_first hmem).2.2⟩
  exactly key := by
    constructor
    · intro hmem
      obtain ⟨read, hread, rfl⟩ := List.mem_map.mp hmem
      obtain ⟨hvain, hnew, -⟩ := reported_first hread
      exact ⟨hnew, read, (reported_sublist warned reads).subset hread, hvain, rfl⟩
    · rintro ⟨hnew, hread⟩
      obtain hmem | hmem := List.mem_append.mp (mem_named.mpr (.inr hread) : key ∈ named warned reads)
      · exact List.mem_reverse.mp hmem
      · exact (hnew hmem).elim

namespace Session

variable {tree : Tree A} {initial : Values} {session : Session A}

theorem Reachable.guarded (htree : tree.BuiltIn) (h : Reachable tree initial session) :
    session.root.tree.Guarded (Tree.checkGuard · = .ok ()) :=
  Tree.guarded_of_validate _ (h.tree_eq.symm ▸ htree) h.validate

/-- Between two clearings of the board, warnings name each key that was read in vain, once and at the first
such read. A clearing itself warns of nothing, and lets each key be named anew. -/
theorem Reachable.one_warning_per_key (htree : tree.BuiltIn) (h : Reachable tree initial session) :
    (∀ calls, session.root.Uncleared calls → ∃ firsts,
      Read.FirstsInVain session.root.world.board.warned (session.root.allReads calls) firsts ∧
      (session.calls calls).root.world.warnings =
        session.root.world.warnings ++ firsts.map Read.warning) ∧
    ∀ clearing calls, session.root.clears clearing = true →
      (session.call clearing).root.Uncleared calls → ∃ firsts,
        Read.FirstsInVain [] ((session.call clearing).root.allReads calls) firsts ∧
        ((session.call clearing).calls calls).root.world.warnings =
          session.root.world.warnings ++ firsts.map Read.warning := by
  have hperiod {session : Session A} (h : Reachable tree initial session) (calls : List (Call A))
      (hcalls : session.root.Uncleared calls) : ∃ firsts,
      Read.FirstsInVain session.root.world.board.warned (session.root.allReads calls) firsts ∧
      (session.calls calls).root.world.warnings =
        session.root.world.warnings ++ firsts.map Read.warning := by
    refine ⟨_, Read.firstsInVain_reported _ _, ?_⟩
    rw [session.calls_root]
    exact (Root.calls_warns (h.guarded htree) hcalls).warnings_eq
  refine ⟨hperiod h, fun clearing calls hclears hcalls => ?_⟩
  obtain ⟨hwarnings, hwarned⟩ := Root.call_cleared (h.guarded htree) hclears
  obtain ⟨firsts, hfirsts, hreported⟩ := hperiod (h.called clearing) calls hcalls
  exact ⟨firsts, by rwa [show (session.call clearing).root.world.board.warned = [] from hwarned] at hfirsts,
    hreported.trans (congrArg (· ++ _) hwarnings)⟩

/-- What a warning of a wrong kind says was so when the key was read: a value of the kind it found stood
there, and that is not the kind it expected, unless a number was compared with what is not a number. -/
theorem Reachable.wrongKind_or_unordered (htree : tree.BuiltIn) (h : Reachable tree initial session)
    (call : Call A) : ∃ warnings,
      (session.call call).root.world.warnings = session.root.world.warnings ++ warnings ∧
      ∀ key expected found, KeyWarning.wrongKind key expected found ∈ warnings →
        ∃ read ∈ session.root.reads call, ∃ value, read.key = key ∧ read.query.expected = expected ∧
          read.found = some value ∧ value.kind = found ∧ (found ≠ expected ∨ read.Unordered) := by
  cases hclears : session.root.clears call with
  | true =>
    refine ⟨[], ?_, nofun⟩
    rw [List.append_nil]
    exact (Root.call_cleared (h.guarded htree) hclears).1
  | false =>
    have hwarns := Root.call_warns (h.guarded htree) hclears
    refine ⟨_, hwarns.warnings_eq, fun key expected found hmem => ?_⟩
    obtain ⟨read, hread, hwarning⟩ := List.mem_map.mp hmem
    have hreads := (Read.reported_sublist _ _).subset hread
    rw [Read.warning] at hwarning
    split at hwarning
    · cases hwarning
    · next value hfound =>
      cases hwarning
      have hmismatch := (Read.reported_first hread).1.mismatch hfound (hwarns.guards read hreads)
      exact ⟨read, hreads, value, rfl, rfl, hfound, rfl, hmismatch⟩

end Session

def thermostat : Tree Nat := .condition ⟨"heat", .less, .number 5⟩ .none (some (.wait 10 0))

namespace thermostat

def session : Session Nat :=
  ⟨⟨thermostat, (thermostat.fresh (.ofSeed 0)).1, { agent := 0 }, .empty, false⟩, []⟩

theorem builtIn : thermostat.BuiltIn := trivial

theorem reachable : session.Reachable thermostat .empty :=
  .opened (Board.sound_ofValues .empty) rfl (fun _ _ _ => rfl)
    (show Root.withBoard thermostat {} 0 = .ok session.root from rfl)

def broken : Session Nat := session.call (.set "heat" (.number (0 / 0)))

end thermostat

open thermostat

theorem Session.thermostat_misreports :
    broken.Reachable thermostat .empty ∧
      (∃ x, broken.root.world.get? "heat" = some (.number x)) ∧
      (broken.call .start).root.world.warnings =
        broken.root.world.warnings ++ [.wrongKind "heat" .number .number] :=
  ⟨reachable.called _, ⟨_, rfl⟩, by decide +kernel⟩

theorem Session.thermostat_unordered :
    thermostat.BuiltIn ∧ broken.Reachable thermostat .empty ∧ ∃ warnings,
      (broken.call .start).root.world.warnings = broken.root.world.warnings ++ warnings ∧
      ∀ key expected found, KeyWarning.wrongKind key expected found ∈ warnings →
        ∃ read ∈ broken.root.reads .start, ∃ value, read.key = key ∧ read.query.expected = expected ∧
          read.found = some value ∧ value.kind = found ∧ (found ≠ expected ∨ read.Unordered) :=
  ⟨builtIn, reachable.called _, (reachable.called _).wrongKind_or_unordered builtIn .start⟩

/-- The host asks for the heat, writes a text in its place, starts the tree and asks for the light. -/
def thermostat.evening : Session Nat :=
  session.calls [.getNumber "heat", .set "heat" (.text "hot"), .start, .getBool "light"]

theorem Session.thermostat_warns_again :
    thermostat.BuiltIn ∧ evening.Reachable thermostat .empty ∧ evening.root.clears .stop = true ∧
      (evening.call .stop).root.Uncleared [.getNumber "heat"] ∧
      ((evening.call .stop).calls [.getNumber "heat"]).root.world.warnings =
        [.neverWritten "heat" .number, .neverWritten "light" .bool, .neverWritten "heat" .number] ∧
      ∃ firsts,
        Read.FirstsInVain [] ((evening.call .stop).root.allReads [.getNumber "heat"]) firsts ∧
        ((evening.call .stop).calls [.getNumber "heat"]).root.world.warnings =
          evening.root.world.warnings ++ firsts.map Read.warning :=
  have hreachable := reachable.calls _
  ⟨builtIn, hreachable, rfl, ⟨rfl, trivial⟩, by decide +kernel,
    (hreachable.one_warning_per_key builtIn).2 .stop _ rfl ⟨rfl, trivial⟩⟩

end BehaviorTree
