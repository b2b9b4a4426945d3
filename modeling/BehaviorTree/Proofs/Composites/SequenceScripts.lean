import Mathlib.Algebra.GroupWithZero.Nat
import BehaviorTree.Proofs.Leaves.Messages

namespace BehaviorTree

variable {A : Type}

inductive Deed where
  | start (i : Nat)
  | tick (i : Nat)
  | stop (i : Nat)
  deriving Repr, DecidableEq

/-- What the ticks of a leaf come to, one after the other. -/
abbrev Script := Nat → Outcome

def Script.drop (script : Script) (count : Nat) : Script := fun k => script (count + k)

/-- How many results are running before the first that is not, among so many. -/
def Script.pauses (script : Script) (limit : Nat) : Nat :=
  ((List.range limit).takeWhile fun k => script k = .running).length

variable (heed : World A → Deed → World A)

namespace Leaf

/-- A leaf that follows a script. Its memory is the number of results it has used, and `heed` is what
becomes of the world when something takes effect on the leaf. -/
def scripted (i : Nat) (script : Script) : Leaf A where
  name := toString i
  start state world :=
    if state.status = .inactive then ({ state with status := .running }, heed world (.start i))
    else (state, world)
  tick state world :=
    let result := script state.memory
    let world := if state.status = .inactive then heed world (.start i) else world
    (result, { state with status := result.status, memory := state.memory + 1 }, heed world (.tick i))
  stop state world :=
    if state.status = .inactive then (state, world)
    else ({ state with status := .inactive }, heed world (.stop i))
  fire _ _ world := (false, world)

def troupe : Nat → List Script → List (Leaf A)
  | _, [] => []
  | i, script :: scripts => scripted heed i script :: troupe (i + 1) scripts

end Leaf

/-- What the ticks of one activation have come to. -/
structure Course where
  deeds : List Deed
  outcome : Outcome
  active : Option Nat
  scripts : List Script

/-- An activation of the children from a number on: the tick in which the first of them begins, and so
many more. A child is ticked once in each as long as it goes on. It is stopped in the tick in which it
ends, and if it succeeds, the next child begins in the same tick. -/
def course : Nat → List Script → Nat → Course
  | _, [], _ => ⟨[], .success, none, []⟩
  | i, script :: scripts, more =>
    let pauses := script.pauses (more + 1)
    if pauses = more + 1 then
      ⟨.start i :: List.replicate pauses (.tick i), .running, some i, script.drop pauses :: scripts⟩
    else
      let life := .start i :: List.replicate (pauses + 1) (.tick i) ++ [.stop i]
      let left := script.drop (pauses + 1)
      if script pauses = .success then
        let rest := course (i + 1) scripts (more - pauses)
        ⟨life ++ rest.deeds, rest.outcome, rest.active, left :: rest.scripts⟩
      else ⟨life, .fail, none, left :: scripts⟩

/-- An activation with so many ticks. -/
def activation (scripts : List Script) : Nat → Course
  | 0 => ⟨[], .running, none, scripts⟩
  | more + 1 => course 0 scripts more

/-- Where a row of signals has led. -/
structure Rehearsal where
  past : List Deed := []
  /-- The scripts as the present activation found them. -/
  scripts : List Script
  ticks : Option Nat := none

namespace Rehearsal

def now (rehearsal : Rehearsal) : Course := activation rehearsal.scripts (rehearsal.ticks.getD 0)

def deeds (rehearsal : Rehearsal) : List Deed := rehearsal.past ++ rehearsal.now.deeds

def status (rehearsal : Rehearsal) : Status :=
  if rehearsal.ticks.isNone then .inactive else rehearsal.now.outcome.status

/-- A stop ends the activation, and with it the child that goes on. -/
def signal (rehearsal : Rehearsal) : Signal → Rehearsal
  | .start => { rehearsal with ticks := some (rehearsal.ticks.getD 0) }
  | .tick => { rehearsal with ticks := some (rehearsal.ticks.getD 0 + 1) }
  | .stop | .release =>
    { past := rehearsal.deeds ++ (rehearsal.now.active.map Deed.stop).toList
      scripts := rehearsal.now.scripts }

/-- What is answered to a signal that has led here, and the status. -/
def answer (rehearsal : Rehearsal) (signal : Signal) : Option Outcome × Status :=
  (if signal = .tick then some rehearsal.now.outcome else none, rehearsal.status)

def signals (rehearsal : Rehearsal) : List Signal → List (Option Outcome × Status) × Rehearsal
  | [] => ([], rehearsal)
  | signal :: rest =>
    let next := rehearsal.signal signal
    let (answers, last) := next.signals rest
    (next.answer signal :: answers, last)

end Rehearsal

namespace Script

variable (script : Script)

@[simp] theorem drop_apply (count k : Nat) : script.drop count k = script (count + k) := rfl

@[simp] theorem drop_drop (count more : Nat) :
    (script.drop count).drop more = script.drop (count + more) :=
  funext fun _ => congrArg script (Nat.add_assoc _ _ _).symm

@[simp] theorem drop_zero : script.drop 0 = script := funext fun k => congrArg script (Nat.zero_add k)

@[simp] theorem pauses_zero : script.pauses 0 = 0 := rfl

theorem pauses_succ (limit : Nat) :
    script.pauses (limit + 1) =
      if script.pauses limit = limit ∧ script limit = .running then limit + 1
      else script.pauses limit := by
  simp only [pauses, List.range_succ, List.takeWhile_append, List.length_range]
  by_cases hall : ((List.range limit).takeWhile fun k => script k = .running).length = limit
  · by_cases hrun : script limit = .running <;> simp [hall, hrun]
  · simp [hall]

theorem pauses_le (limit : Nat) : script.pauses limit ≤ limit := by
  induction limit with
  | zero => exact Nat.le_refl 0
  | succ limit ih =>
    rw [pauses_succ]
    split <;> omega

theorem pauses_ends {limit : Nat} (h : script.pauses limit < limit) :
    script (script.pauses limit) ≠ .running := by
  induction limit with
  | zero => exact absurd h (Nat.not_lt_zero _)
  | succ limit ih =>
    rw [pauses_succ] at h ⊢
    split at h
    · omega
    · rename_i hends
      rw [if_neg hends]
      by_cases hall : script.pauses limit = limit
      · rw [hall]
        exact fun hrun => hends ⟨hall, hrun⟩
      · exact ih (Nat.lt_of_le_of_ne (script.pauses_le limit) hall)

theorem running_of_lt_pauses {k limit : Nat} (h : k < script.pauses limit) : script k = .running := by
  induction limit with
  | zero => exact absurd h (Nat.not_lt_zero k)
  | succ limit ih =>
    rw [pauses_succ] at h
    split at h
    · rename_i hall
      rcases Nat.lt_succ_iff_lt_or_eq.mp h with hlt | rfl
      · exact ih (hall.1.symm ▸ hlt)
      · exact hall.2
    · exact ih h

/-- The script comes to a success after so many pauses. -/
def Succeeds (script : Script) (pauses : Nat) : Prop :=
  (∀ k < pauses, script k = .running) ∧ script pauses = .success

variable {script}

theorem Succeeds.pauses_eq {pauses limit : Nat} (h : script.Succeeds pauses) (hlimit : pauses < limit) :
    script.pauses limit = pauses := by
  have hle : script.pauses limit ≤ pauses := by
    refine Nat.not_lt.mp fun hlt => ?_
    have hrun := script.running_of_lt_pauses hlt
    simp [h.2] at hrun
  refine Nat.le_antisymm hle (Nat.not_lt.mp fun hlt => ?_)
  exact script.pauses_ends (hle.trans_lt hlimit) (h.1 _ hlt)

end Script

section Course

variable {i j more : Nat} {script : Script} {scripts : List Script}

theorem course_running (h : script.pauses (more + 1) = more + 1) :
    course i (script :: scripts) more =
      ⟨.start i :: List.replicate (more + 1) (.tick i), .running, some i,
        script.drop (more + 1) :: scripts⟩ := by
  rw [course, h]
  dsimp only
  rw [if_pos rfl]

def life (i pauses : Nat) : List Deed :=
  .start i :: List.replicate (pauses + 1) (.tick i) ++ [.stop i]

theorem course_success {pauses : Nat} (h : script.pauses (more + 1) = pauses)
    (hlt : pauses < more + 1) (hend : script pauses = .success) :
    course i (script :: scripts) more =
      ⟨life i pauses ++ (course (i + 1) scripts (more - pauses)).deeds,
        (course (i + 1) scripts (more - pauses)).outcome,
        (course (i + 1) scripts (more - pauses)).active,
        script.drop (pauses + 1) :: (course (i + 1) scripts (more - pauses)).scripts⟩ := by
  rw [course, h]
  dsimp only
  rw [if_neg (Nat.ne_of_lt hlt), if_pos hend]
  rfl

theorem course_fail {pauses : Nat} (h : script.pauses (more + 1) = pauses) (hlt : pauses < more + 1)
    (hend : script pauses = .fail) :
    course i (script :: scripts) more =
      ⟨life i pauses, .fail, none, script.drop (pauses + 1) :: scripts⟩ := by
  rw [course, h]
  dsimp only
  rw [if_neg (Nat.ne_of_lt hlt), if_neg (by simp [hend])]
  rfl

theorem course_cases (script : Script) (more : Nat) :
    script.pauses (more + 1) = more + 1 ∨
      script.pauses (more + 1) < more + 1 ∧ script (script.pauses (more + 1)) = .fail ∨
      script.pauses (more + 1) < more + 1 ∧ script (script.pauses (more + 1)) = .success := by
  rcases Nat.lt_or_eq_of_le (script.pauses_le (more + 1)) with hlt | heq
  · have hends := script.pauses_ends hlt
    cases hend : script (script.pauses (more + 1)) with
    | success => exact .inr (.inr ⟨hlt, rfl⟩)
    | fail => exact .inr (.inl ⟨hlt, rfl⟩)
    | running => exact absurd hend hends
  · exact .inl heq

theorem course_active (i : Nat) (scripts : List Script) (more : Nat) :
    (course i scripts more).outcome = .running ↔ (course i scripts more).active ≠ none := by
  induction scripts generalizing i more with
  | nil => simp [course]
  | cons script scripts ih =>
    rcases course_cases script more with hrun | ⟨hlt, hend⟩ | ⟨hlt, hend⟩
    · simp [course_running hrun]
    · simp [course_fail rfl hlt hend]
    · rw [course_success rfl hlt hend]
      exact ih (i + 1) _

/-- A sequence succeeds just when every child has succeeded, with so many pauses in all that the ticks are
enough for them. -/
theorem course_success_iff (i : Nat) (scripts : List Script) (more : Nat) :
    (course i scripts more).outcome = .success ↔
      ∃ pauses, List.Forall₂ Script.Succeeds scripts pauses ∧ pauses.sum ≤ more := by
  induction scripts generalizing i more with
  | nil => simp only [course, List.forall₂_nil_left_iff, exists_eq_left, List.sum_nil, Nat.zero_le]
  | cons script scripts ih =>
    constructor
    · intro h
      rcases course_cases script more with hrun | ⟨hlt, hend⟩ | ⟨hlt, hend⟩
      · rw [course_running hrun] at h
        cases h
      · rw [course_fail rfl hlt hend] at h
        cases h
      · rw [course_success rfl hlt hend] at h
        obtain ⟨pauses, hsucceed, hsum⟩ := (ih (i + 1) _).mp h
        refine ⟨script.pauses (more + 1) :: pauses,
          .cons ⟨fun k => script.running_of_lt_pauses, hend⟩ hsucceed, ?_⟩
        rw [List.sum_cons]
        omega
    · rintro ⟨_, hsucceed, hsum⟩
      obtain ⟨first, pauses, hfirst, hrest, rfl⟩ := List.forall₂_cons_left_iff.mp hsucceed
      rw [List.sum_cons] at hsum
      have hlt : first < more + 1 := by omega
      rw [course_success (hfirst.pauses_eq hlt) hlt hfirst.2]
      exact (ih (i + 1) _).mpr ⟨pauses, hrest, by omega⟩

theorem length_course (i : Nat) (scripts : List Script) (more : Nat) :
    (course i scripts more).scripts.length = scripts.length := by
  induction scripts generalizing i more with
  | nil => rfl
  | cons script scripts ih =>
    rcases course_cases script more with hrun | ⟨hlt, hend⟩ | ⟨hlt, hend⟩
    · rw [course_running hrun]
      rfl
    · rw [course_fail rfl hlt hend]
      rfl
    · rw [course_success rfl hlt hend]
      exact congrArg Nat.succ (ih (i + 1) _)

theorem course_active_range (h : (course i scripts more).active = some j) :
    i ≤ j ∧ j < i + scripts.length := by
  induction scripts generalizing i more with
  | nil => cases h
  | cons script scripts ih =>
    rw [List.length_cons]
    rcases course_cases script more with hrun | ⟨hlt, hend⟩ | ⟨hlt, hend⟩
    · rw [course_running hrun] at h
      cases h
      exact ⟨Nat.le_refl _, by omega⟩
    · rw [course_fail rfl hlt hend] at h
      cases h
    · rw [course_success rfl hlt hend] at h
      have hrange := ih h
      omega

theorem activation_active_lt (h : (activation scripts more).active = some j) :
    j < (activation scripts more).scripts.length := by
  cases more with
  | zero => cases h
  | succ more =>
    have hrange := course_active_range h
    have hlength := length_course 0 scripts more
    rw [activation]
    omega

theorem course_ended (h : (course i scripts more).outcome ≠ .running) :
    course i scripts (more + 1) = course i scripts more := by
  induction scripts generalizing i more with
  | nil => rfl
  | cons script scripts ih =>
    have hsame (hlt : script.pauses (more + 1) < more + 1) :
        script.pauses (more + 1 + 1) = script.pauses (more + 1) := by
      rw [script.pauses_succ (more + 1), if_neg fun hall => absurd hall.1 (Nat.ne_of_lt hlt)]
    rcases course_cases script more with hrun | ⟨hlt, hend⟩ | ⟨hlt, hend⟩
    · rw [course_running hrun] at h
      exact absurd rfl h
    · rw [course_fail (hsame hlt) (by omega) hend, course_fail rfl hlt hend]
    · rw [course_success rfl hlt hend] at h
      have hcount : more + 1 - script.pauses (more + 1) = more - script.pauses (more + 1) + 1 := by
        omega
      rw [course_success (hsame hlt) (by omega) hend, course_success rfl hlt hend, hcount, ih h]

end Course

namespace Leaf

/-- The states of the children while the active one goes on, and these scripts are left. -/
def Stands (active : Option Nat) : (i : Nat) → (scripts : List Script) →
    Tree.StateList ((troupe heed i scripts).map .leaf) → List Script → Prop
  | _, [], _, left => left = []
  | i, script :: scripts, (state, states), left =>
    state.status = (if active = some i then .running else .inactive) ∧
      ∃ rest, left = script.drop state.memory :: rest ∧ Stands active (i + 1) scripts states rest

/-- What a tick of the children has come to, which was to lead along the course by these deeds. -/
structure Played (i : Nat) (scripts : List Script) (next : Course)
    (deeds : List Deed) (world : World A)
    (after : Outcome × Nat × Tree.StateList ((troupe heed i scripts).map .leaf) × World A) : Prop where
  outcome : after.1 = next.outcome
  stands : Stands heed next.active i scripts after.2.2.1 next.scripts
  current : ∀ j, next.active = some j → j = i + after.2.1
  world : after.2.2.2 = deeds.foldl heed world

variable {heed} {active : Option Nat} {i j : Nat} {scripts left : List Script} {world : World A}

theorem stands_behind {states : Tree.StateList ((troupe heed i scripts).map .leaf)} (hj : j < i) :
    Stands heed (some j) i scripts states left ↔ Stands heed none i scripts states left := by
  induction scripts generalizing i left with
  | nil => rfl
  | cons script scripts ih =>
    obtain ⟨state, states⟩ := states
    have hstatus : (if some j = some i then Status.running else .inactive) = .inactive :=
      if_neg (by simp [Nat.ne_of_lt hj])
    simp only [Stands, hstatus, if_neg (Option.some_ne_none i).symm, ih (Nat.lt_succ_of_lt hj)]

theorem scripted_tick (heed : World A → Deed → World A) (i : Nat) (script : Script) (state : LeafState)
    (world : World A) :
    (Tree.leaf (scripted heed i script)).tick state world =
      (script state.memory, ⟨(script state.memory).status, state.timer, state.memory + 1⟩,
        heed (if state.status = .inactive then heed world (.start i) else world) (.tick i)) :=
  rfl

theorem tickFrom_scripted (script : Script) (state : LeafState)
    (states : Tree.StateList ((troupe heed (i + 1) scripts).map .leaf)) {began : World A}
    (hbegan : (if state.status = .inactive then heed world (.start i) else world) = began) :
    Tree.tickFrom .success ((troupe heed i (script :: scripts)).map .leaf) 0 (state, states) world =
      match script state.memory with
      | .running =>
        (.running, 0, (⟨.running, state.timer, state.memory + 1⟩, states), heed began (.tick i))
      | .fail =>
        (.fail, 0, (⟨.inactive, state.timer, state.memory + 1⟩, states),
          heed (heed began (.tick i)) (.stop i))
      | .success =>
        let rest := Tree.tickFrom .success ((troupe heed (i + 1) scripts).map .leaf) 0 states
          (heed (heed began (.tick i)) (.stop i))
        (rest.1, rest.2.1 + 1, (⟨.inactive, state.timer, state.memory + 1⟩, rest.2.2.1),
          rest.2.2.2) := by
  have hticked := scripted_tick heed i script state world
  rw [hbegan] at hticked
  refine (Tree.tickFrom_zero .success (.leaf (scripted heed i script)) _ state states world hticked).trans ?_
  cases script state.memory <;> rfl

theorem drop_eq {script left : Script} {memory count : Nat}
    (h : script.drop memory = left.drop count) : script memory = left count :=
  congrFun h 0

theorem drop_succ {script left : Script} {memory count : Nat}
    (h : script.drop memory = left.drop count) :
    script.drop (memory + 1) = left.drop (count + 1) := by
  rw [← script.drop_drop, h, left.drop_drop]

theorem Played.cons {next : Course} {deeds before all : List Deed} {middle : World A}
    {after : Outcome × Nat × Tree.StateList ((troupe heed (i + 1) scripts).map .leaf) × World A}
    (script : Script) (state : LeafState) (h : Played heed (i + 1) scripts next deeds middle after)
    (hnext : ∀ j, next.active = some j → i + 1 ≤ j) (hidle : state.status = .inactive)
    (hbefore : before.foldl heed world = middle) :
    Played heed i (script :: scripts)
      ⟨all, next.outcome, next.active, script.drop state.memory :: next.scripts⟩ (before ++ deeds) world
      (after.1, after.2.1 + 1, (state, after.2.2.1), after.2.2.2) where
  outcome := h.outcome
  stands := by
    refine ⟨?_, next.scripts, rfl, h.stands⟩
    rw [if_neg fun hi => absurd (hnext i hi) (Nat.not_succ_le_self i)]
    exact hidle
  current j hj := by
    rw [h.current j hj]
    exact Nat.succ_add_eq_add_succ i after.2.1
  world := by rw [List.foldl_append, hbefore, h.world]

theorem tickFrom_begins {states : Tree.StateList ((troupe heed i scripts).map .leaf)}
    (h : Stands heed none i scripts states left) (world : World A) :
    Played heed i scripts (course i left 0) (course i left 0).deeds world
      (Tree.tickFrom .success ((troupe heed i scripts).map .leaf) 0 states world) := by
  induction scripts generalizing i left world with
  | nil =>
    cases h
    exact ⟨rfl, rfl, nofun, rfl⟩
  | cons script scripts ih =>
    obtain ⟨state, states⟩ := states
    obtain ⟨hstatus, rest, rfl, hrest⟩ := h
    have hidle : state.status = .inactive := hstatus
    have hfirst : script.drop state.memory 0 = script state.memory := rfl
    rw [tickFrom_scripted script state states (if_pos hidle)]
    cases hresult : script state.memory with
    | running =>
      have hpauses : (script.drop state.memory).pauses (0 + 1) = 0 + 1 := by
        rw [Script.pauses_succ, if_pos ⟨rfl, hfirst.trans hresult⟩]
      rw [course_running hpauses, Script.drop_drop]
      refine ⟨rfl, ⟨by simp, rest, rfl, (stands_behind (Nat.lt_succ_self i)).mpr hrest⟩, ?_, rfl⟩
      intro j hj
      cases hj
      rfl
    | fail =>
      have hpauses : (script.drop state.memory).pauses (0 + 1) = 0 := by
        rw [Script.pauses_succ, if_neg fun hall => by simp [hresult] at hall, Script.pauses_zero]
      rw [course_fail hpauses Nat.one_pos (hfirst.trans hresult), Script.drop_drop]
      exact ⟨rfl, ⟨rfl, rest, rfl, hrest⟩, nofun, rfl⟩
    | success =>
      have hpauses : (script.drop state.memory).pauses (0 + 1) = 0 := by
        rw [Script.pauses_succ, if_neg fun hall => by simp [hresult] at hall, Script.pauses_zero]
      rw [course_success hpauses Nat.one_pos (hfirst.trans hresult), Script.drop_drop]
      exact .cons script ⟨.inactive, state.timer, state.memory + 1⟩ (ih hrest _)
        (fun j hj => (course_active_range hj).1) rfl rfl

/-- A later tick, in which it is the turn of the child that went on. The induction is on the children: the
one that goes on may be the first, or else the first one has succeeded before. -/
theorem tickFrom_resumes {more k : Nat} {states : Tree.StateList ((troupe heed i scripts).map .leaf)}
    (h : Stands heed (course i left more).active i scripts states (course i left more).scripts)
    (hactive : (course i left more).active = some (i + k)) (world : World A) :
    ∃ deeds, (course i left (more + 1)).deeds = (course i left more).deeds ++ deeds ∧
      Played heed i scripts (course i left (more + 1)) deeds world
        (Tree.tickFrom .success ((troupe heed i scripts).map .leaf) k states world) := by
  induction scripts generalizing i left more k world with
  | nil =>
    have hnone : (course i left more).scripts = [] := h
    have hlength := length_course i left more
    rw [hnone] at hlength
    obtain rfl := List.eq_nil_of_length_eq_zero hlength.symm
    cases hactive
  | cons script scripts ih =>
    obtain ⟨state, states⟩ := states
    cases left with
    | nil => cases hactive
    | cons first left =>
      have hnext := first.pauses_succ (more + 1)
      rcases course_cases first more with hrun | ⟨hlt, hend⟩ | ⟨hlt, hend⟩
      · rw [course_running hrun] at h hactive ⊢
        obtain ⟨hstatus, rest, hleft, hrest⟩ := h
        obtain ⟨hdrop, rfl⟩ := List.cons.inj hleft
        have hk : k = 0 := by
          have hi := Option.some.inj hactive
          omega
        subst hk
        have hrunning : state.status ≠ .inactive := by
          rw [hstatus, if_pos rfl]
          simp
        have hafter : first.drop (more + 1 + 1) = script.drop (state.memory + 1) := drop_succ hdrop
        have htick : List.replicate (more + 1 + 1) (Deed.tick i) =
            List.replicate (more + 1) (.tick i) ++ [.tick i] := List.replicate_succ'
        rw [tickFrom_scripted script state states (if_neg hrunning), drop_eq hdrop.symm]
        cases hresult : first (more + 1) with
        | running =>
          rw [if_pos ⟨hrun, hresult⟩] at hnext
          rw [course_running hnext, htick, hafter]
          exact ⟨[.tick i], rfl, rfl, ⟨by simp, left, rfl, hrest⟩, fun j hj => by cases hj; rfl, rfl⟩
        | fail =>
          rw [if_neg (by simp [hresult]), hrun] at hnext
          rw [course_fail hnext (Nat.lt_succ_self _) hresult, life, htick, hafter]
          exact ⟨[.tick i, .stop i], by simp, rfl,
            ⟨rfl, left, rfl, (stands_behind (Nat.lt_succ_self i)).mp hrest⟩, nofun, rfl⟩
        | success =>
          rw [if_neg (by simp [hresult]), hrun] at hnext
          rw [course_success hnext (Nat.lt_succ_self _) hresult, Nat.sub_self, life, htick, hafter]
          have hbegun := tickFrom_begins ((stands_behind (Nat.lt_succ_self i)).mp hrest)
            ([.tick i, .stop i].foldl heed world)
          exact ⟨[.tick i, .stop i] ++ (course (i + 1) left 0).deeds, by simp,
            .cons script ⟨.inactive, state.timer, state.memory + 1⟩ hbegun
              (fun j hj => (course_active_range hj).1) rfl rfl⟩
      · rw [course_fail rfl hlt hend] at hactive
        cases hactive
      · rw [if_neg fun hall => absurd hall.1 (Nat.ne_of_lt hlt)] at hnext
        have hcount : more + 1 - first.pauses (more + 1) = more - first.pauses (more + 1) + 1 := by
          omega
        rw [course_success rfl hlt hend] at h hactive ⊢
        rw [course_success hnext (Nat.lt_succ_of_lt hlt) hend, hcount]
        obtain ⟨hstatus, rest, hleft, hrest⟩ := h
        obtain ⟨hdrop, rfl⟩ := List.cons.inj hleft
        have hle := (course_active_range hactive).1
        rw [hactive, if_neg (by simp; omega)] at hstatus
        obtain ⟨k, rfl⟩ : ∃ rest, k = rest + 1 := ⟨k - 1, by omega⟩
        have hsame : i + (k + 1) = i + 1 + k := by omega
        obtain ⟨deeds, hdeeds, hplayed⟩ := ih hrest (hactive.trans (congrArg some hsame)) world
        have hnone : ([] : List Deed).foldl heed world = world := rfl
        rw [hdeeds, hdrop]
        exact ⟨deeds, (List.append_assoc ..).symm,
          .cons script state hplayed (fun j hj => (course_active_range hj).1) hstatus hnone⟩

end Leaf

namespace Leaf

variable {heed} {active : Option Nat} {i j : Nat} {scripts left : List Script} {world : World A}

theorem stopAt_idle {states : Tree.StateList ((troupe heed i scripts).map .leaf)}
    (h : Stands heed none i scripts states left) (k : Nat) (world : World A) :
    Tree.stopAt ((troupe heed i scripts).map .leaf) k states world = (states, world) := by
  induction scripts generalizing i left k with
  | nil => rfl
  | cons script scripts ih =>
    obtain ⟨state, states⟩ := states
    obtain ⟨hidle, rest, -, hrest⟩ := h
    cases k with
    | zero =>
      have hstop : (Tree.leaf (scripted heed i script)).stop state world = (state, world) := if_pos hidle
      refine (Tree.stopAt_zero (.leaf (scripted heed i script)) _ state states world).trans ?_
      rw [hstop]
      rfl
    | succ k => exact congrArg (fun stopped => ((state, stopped.1), stopped.2)) (ih hrest k)

theorem releaseList_idle {states : Tree.StateList ((troupe heed i scripts).map .leaf)}
    (h : Stands heed none i scripts states left) (world : World A) :
    Tree.releaseList ((troupe heed i scripts).map .leaf) states world = (states, world) := by
  induction scripts generalizing i left with
  | nil => rfl
  | cons script scripts ih =>
    obtain ⟨state, states⟩ := states
    obtain ⟨hidle, rest, -, hrest⟩ := h
    have hrelease : (Tree.leaf (scripted heed i script)).release state world = (state, world) :=
      if_pos hidle
    refine (Tree.releaseList_cons (.leaf (scripted heed i script)) _ state states world).trans ?_
    rw [hrelease, ih hrest]
    rfl

theorem stopAt_active {k : Nat} {states : Tree.StateList ((troupe heed i scripts).map .leaf)}
    (h : Stands heed (some (i + k)) i scripts states left) (hk : k < scripts.length) (world : World A) :
    Stands heed none i scripts (Tree.stopAt ((troupe heed i scripts).map .leaf) k states world).1 left ∧
      (Tree.stopAt ((troupe heed i scripts).map .leaf) k states world).2 =
        heed world (.stop (i + k)) := by
  induction scripts generalizing i left k with
  | nil => exact absurd hk (Nat.not_lt_zero k)
  | cons script scripts ih =>
    obtain ⟨state, states⟩ := states
    obtain ⟨hstatus, rest, hleft, hrest⟩ := h
    cases k with
    | zero =>
      have hactive : state.status ≠ .inactive := by simp [hstatus]
      have hstop : (Tree.leaf (scripted heed i script)).stop state world =
          ({ state with status := .inactive }, heed world (.stop i)) := if_neg hactive
      have hstopped : Tree.stopAt ((troupe heed i (script :: scripts)).map .leaf) 0 (state, states) world =
          (({ state with status := .inactive }, states), heed world (.stop i)) := by
        refine (Tree.stopAt_zero (.leaf (scripted heed i script)) _ state states world).trans ?_
        rw [hstop]
      rw [hstopped]
      exact ⟨⟨rfl, rest, hleft, (stands_behind (Nat.lt_succ_self i)).mp hrest⟩, rfl⟩
    | succ k =>
      have hsame : i + (k + 1) = i + 1 + k := by omega
      rw [if_neg (by simp)] at hstatus
      rw [hsame] at hrest ⊢
      obtain ⟨hstands, hworld⟩ := ih hrest (Nat.lt_of_succ_lt_succ hk)
      exact ⟨⟨hstatus, rest, hleft, hstands⟩, hworld⟩

/-- The sequence stands where the signals have led. -/
structure Follows (heed : World A → Deed → World A) (scripts : List Script)
    (state : CompositeState (Tree.StateList ((troupe heed 0 scripts).map .leaf)))
    (rehearsal : Rehearsal) : Prop where
  status : state.status = rehearsal.status
  stands : Stands heed rehearsal.now.active 0 scripts state.children rehearsal.now.scripts
  current : ∀ j, rehearsal.now.active = some j → state.current = j
  first : rehearsal.ticks = some 0 → state.current = 0

/-- A signal does these deeds, and is answered as in the rehearsal. -/
structure Obeys (heed : World A → Deed → World A) (scripts : List Script) (rehearsal : Rehearsal)
    (signal : Signal) (world : World A) (deeds : List Deed)
    (after : Option Outcome × CompositeState (Tree.StateList ((troupe heed 0 scripts).map .leaf)) ×
      World A) : Prop where
  done : (rehearsal.signal signal).deeds = rehearsal.deeds ++ deeds
  answer : (after.1, after.2.1.status) = (rehearsal.signal signal).answer signal
  world : after.2.2 = deeds.foldl heed world
  follows : Follows heed scripts after.2.1 (rehearsal.signal signal)

variable {rehearsal : Rehearsal} {state : CompositeState (Tree.StateList ((troupe heed 0 scripts).map .leaf))}

theorem Follows.begin (h : Follows heed scripts state rehearsal) :
    Follows heed scripts state.begin (rehearsal.signal .start) := by
  obtain ⟨past, left, ticks⟩ := rehearsal
  cases ticks with
  | none =>
    have hidle : state.status = .inactive := h.status
    rw [CompositeState.begin, if_pos hidle]
    exact ⟨rfl, h.stands, nofun, fun _ => rfl⟩
  | some ticks =>
    have hactive : state.status ≠ .inactive := by
      rw [h.status]
      exact Outcome.status_ne_inactive _
    rw [CompositeState.begin, if_neg hactive]
    exact h

theorem Follows.plays {ticks : Nat} (h : Follows heed scripts state rehearsal)
    (hticks : rehearsal.ticks = some ticks) (hrun : rehearsal.now.outcome = .running) (world : World A) :
    ∃ deeds, (activation rehearsal.scripts (ticks + 1)).deeds = rehearsal.now.deeds ++ deeds ∧
      Played heed 0 scripts (activation rehearsal.scripts (ticks + 1)) deeds world
        (Tree.tickFrom .success ((troupe heed 0 scripts).map .leaf) state.current state.children
          world) := by
  obtain ⟨past, left, _⟩ := rehearsal
  cases hticks
  cases ticks with
  | zero =>
    rw [h.first rfl]
    exact ⟨_, rfl, tickFrom_begins h.stands world⟩
  | succ more =>
    obtain ⟨j, hj⟩ := Option.ne_none_iff_exists'.mp ((course_active 0 left more).mp hrun)
    rw [h.current j hj]
    exact tickFrom_resumes h.stands (hj.trans (congrArg some (Nat.zero_add j).symm)) world

theorem Played.rest {more : Nat} {deeds : List Deed}
    {states : Tree.StateList ((troupe heed 0 scripts).map .leaf)} {current : Nat}
    (h : Played heed 0 scripts (course 0 left more) deeds world
      (Tree.tickFrom .success ((troupe heed 0 scripts).map .leaf) current states world)) :
    ∃ ticked next, Tree.tickRest .success ((troupe heed 0 scripts).map .leaf) current states world =
        ((course 0 left more).outcome, ⟨(course 0 left more).outcome.status, next, ticked⟩,
          deeds.foldl heed world) ∧
      Stands heed (course 0 left more).active 0 scripts ticked (course 0 left more).scripts ∧
      ∀ j, (course 0 left more).active = some j → next = j := by
  unfold Tree.tickRest
  rcases htick : Tree.tickFrom .success ((troupe heed 0 scripts).map .leaf) current states world with
    ⟨outcome, next, ticked, after⟩
  rw [htick] at h
  obtain ⟨houtcome, hstands, hcurrent, hworld⟩ := h
  dsimp only at houtcome hstands hcurrent hworld ⊢
  subst houtcome hworld
  refine ⟨ticked, next, ?_, hstands, fun j hj => ?_⟩
  · by_cases hrun : (course 0 left more).outcome = .running
    · rw [Tree.settle, if_pos hrun]
    · have hnone := not_not.mp (hrun ∘ (course_active 0 left more).mpr)
      rw [hnone] at hstands
      rw [Tree.settle, if_neg hrun, releaseList_idle hstands]
  · rw [hcurrent j hj, Nat.zero_add]

theorem Follows.start (h : Follows heed scripts state rehearsal) (world : World A) :
    Obeys heed scripts rehearsal .start world []
      ((Tree.sequence ((troupe heed 0 scripts).map .leaf)).signal .start state world) where
  done := (List.append_nil _).symm
  answer := congrArg (Prod.mk none) h.begin.status
  world := rfl
  follows := h.begin

theorem Follows.tick (h : Follows heed scripts state rehearsal) (world : World A) :
    ∃ deeds, Obeys heed scripts rehearsal .tick world deeds
      ((Tree.sequence ((troupe heed 0 scripts).map .leaf)).signal .tick state world) := by
  have hbegun := h.begin
  obtain ⟨past, left, ticks⟩ := rehearsal
  have hstatus : state.begin.status = (activation left (ticks.getD 0)).outcome.status := hbegun.status
  rw [Tree.signal, Tree.tick_sequence]
  by_cases hrun : (activation left (ticks.getD 0)).outcome = .running
  · obtain ⟨deeds, hdeeds, hplayed⟩ := hbegun.plays rfl hrun world
    obtain ⟨ticked, next, hrest, hstands, hcurrent⟩ := hplayed.rest
    have hgoing : state.begin.status.outcome? = none := by rw [hstatus, hrun]; rfl
    rw [hgoing, hrest]
    refine ⟨deeds, ?_, rfl, rfl, rfl, hstands, hcurrent, nofun⟩
    exact (congrArg (past ++ ·) hdeeds).trans (List.append_assoc ..).symm
  · -- The activation is over, so this is not its first tick, and it changes nothing.
    obtain ⟨more, hmore⟩ : ∃ more, ticks.getD 0 = more + 1 := by
      cases hticks : ticks.getD 0 with
      | zero => exact absurd (congrArg (fun n => (activation left n).outcome) hticks) hrun
      | succ more => exact ⟨more, rfl⟩
    have hsame : activation left (ticks.getD 0 + 1) = activation left (ticks.getD 0) := by
      rw [hmore] at hrun ⊢
      exact course_ended hrun
    have hended : state.begin.status.outcome? = some (activation left (ticks.getD 0)).outcome := by
      rw [hstatus, Outcome.outcome?_status, if_neg hrun]
    rw [hended]
    refine ⟨[], ?_, ?_, rfl, ?_, ?_, ?_, nofun⟩
    · exact (congrArg (fun course => past ++ course.deeds) hsame).trans (List.append_nil _).symm
    · exact congrArg₂ Prod.mk (congrArg (fun course => some course.outcome) hsame.symm)
        (hstatus.trans (congrArg (fun course => course.outcome.status) hsame.symm))
    · exact hstatus.trans (congrArg (fun course => course.outcome.status) hsame.symm)
    · change Stands heed (activation left (ticks.getD 0 + 1)).active 0 scripts state.begin.children
        (activation left (ticks.getD 0 + 1)).scripts
      rw [hsame]
      exact hbegun.stands
    · intro j hj
      exact hbegun.current j ((congrArg Course.active hsame).symm.trans hj)

theorem length_stands {states : Tree.StateList ((troupe heed i scripts).map .leaf)}
    (h : Stands heed active i scripts states left) : left.length = scripts.length := by
  induction scripts generalizing i left with
  | nil => exact congrArg List.length h
  | cons script scripts ih =>
    obtain ⟨-, rest, rfl, hrest⟩ := h
    exact congrArg Nat.succ (ih hrest)

theorem Follows.stopAt (h : Follows heed scripts state rehearsal) (world : World A) :
    Stands heed none 0 scripts
        (Tree.stopAt ((troupe heed 0 scripts).map .leaf) state.current state.children world).1
        rehearsal.now.scripts ∧
      (Tree.stopAt ((troupe heed 0 scripts).map .leaf) state.current state.children world).2 =
        (rehearsal.now.active.map Deed.stop).toList.foldl heed world := by
  have hstands := h.stands
  cases hactive : rehearsal.now.active with
  | none =>
    rw [hactive] at hstands
    rw [stopAt_idle hstands]
    exact ⟨hstands, rfl⟩
  | some j =>
    have hj : j < scripts.length := (length_stands hstands) ▸ activation_active_lt hactive
    rw [hactive, ← Nat.zero_add j] at hstands
    rw [h.current j hactive]
    have hstopped := stopAt_active hstands hj world
    rwa [Nat.zero_add] at hstopped

theorem Follows.stop (h : Follows heed scripts state rehearsal) (world : World A) :
    ∃ deeds, Obeys heed scripts rehearsal .stop world deeds
      ((Tree.sequence ((troupe heed 0 scripts).map .leaf)).signal .stop state world) := by
  refine ⟨(rehearsal.now.active.map Deed.stop).toList, ?_⟩
  have hdone : (rehearsal.signal .stop).deeds =
      rehearsal.deeds ++ (rehearsal.now.active.map Deed.stop).toList := List.append_nil _
  rw [Tree.signal, Tree.stop]
  split
  · rename_i hidle
    have hstatus := h.status.symm.trans hidle
    obtain ⟨past, left, _ | ticks⟩ := rehearsal
    · exact ⟨hdone, congrArg (Prod.mk none) hidle, rfl, hidle, h.stands, nofun, nofun⟩
    · exact absurd hstatus (Outcome.status_ne_inactive _)
  · obtain ⟨hstands, hworld⟩ := h.stopAt world
    exact ⟨hdone, rfl, hworld, rfl, hstands, nofun, nofun⟩

theorem Follows.release (h : Follows heed scripts state rehearsal) (world : World A) :
    ∃ deeds, Obeys heed scripts rehearsal .release world deeds
      ((Tree.sequence ((troupe heed 0 scripts).map .leaf)).signal .release state world) := by
  obtain ⟨deeds, hstopped⟩ := h.stop world
  have hsame : (Tree.sequence ((troupe heed 0 scripts).map .leaf)).release state world =
      (Tree.sequence ((troupe heed 0 scripts).map .leaf)).stop state world := by
    have hidle := releaseList_idle hstopped.follows.stands
      ((Tree.sequence ((troupe heed 0 scripts).map .leaf)).stop state world).2
    rw [Tree.signal] at hidle
    rw [Tree.release]
    dsimp only
    rw [hidle]
  rw [Tree.signal, hsame]
  exact ⟨deeds, hstopped.done, hstopped.answer, hstopped.world, hstopped.follows⟩

theorem Follows.signal (h : Follows heed scripts state rehearsal) (signal : Signal) (world : World A) :
    ∃ deeds, Obeys heed scripts rehearsal signal world deeds
      ((Tree.sequence ((troupe heed 0 scripts).map .leaf)).signal signal state world) := by
  cases signal with
  | start => exact ⟨[], h.start world⟩
  | tick => exact h.tick world
  | stop => exact h.stop world
  | release => exact h.release world

theorem Follows.signals (h : Follows heed scripts state rehearsal) (signals : List Signal)
    (world : World A) :
    ∃ deeds, (rehearsal.signals signals).2.deeds = rehearsal.deeds ++ deeds ∧
      ((Tree.sequence ((troupe heed 0 scripts).map .leaf)).signals signals state world).1 =
        (rehearsal.signals signals).1 ∧
      ((Tree.sequence ((troupe heed 0 scripts).map .leaf)).signals signals state world).2.2 =
        deeds.foldl heed world ∧
      Follows heed scripts
        ((Tree.sequence ((troupe heed 0 scripts).map .leaf)).signals signals state world).2.1
        (rehearsal.signals signals).2 := by
  induction signals generalizing state rehearsal world with
  | nil => exact ⟨[], (List.append_nil _).symm, rfl, rfl, h⟩
  | cons signal signals ih =>
    obtain ⟨deeds, hobeys⟩ := h.signal signal world
    obtain ⟨more, hdone, hanswers, hworld, hfollows⟩ := ih hobeys.follows _
    refine ⟨deeds ++ more, ?_, ?_, ?_, hfollows⟩
    · exact hdone.trans ((congrArg (· ++ more) hobeys.done).trans (List.append_assoc ..))
    · exact congrArg₂ List.cons hobeys.answer hanswers
    · rw [List.foldl_append, ← hobeys.world]
      exact hworld

theorem Follows.succeeded_iff (h : Follows heed scripts state rehearsal) :
    state.status = .succeeded ↔
      ∃ more pauses, rehearsal.ticks = some (more + 1) ∧
        List.Forall₂ Script.Succeeds rehearsal.scripts pauses ∧ pauses.sum ≤ more := by
  rw [h.status]
  obtain ⟨past, left, ticks⟩ := rehearsal
  rcases ticks with _ | _ | more
  · simp [Rehearsal.status]
  · simp [Rehearsal.status, Rehearsal.now, activation, Outcome.status]
  · have hstatus : Rehearsal.status ⟨past, left, some (more + 1)⟩ =
        (course 0 left more).outcome.status := rfl
    have hsuccess : (course 0 left more).outcome.status = .succeeded ↔
        (course 0 left more).outcome = .success := by
      cases (course 0 left more).outcome <;> simp [Outcome.status]
    rw [hstatus, hsuccess, course_success_iff]
    simp

theorem stands_fresh (heed : World A → Deed → World A) (i : Nat) (scripts : List Script)
    (random : Random) :
    Stands heed none i scripts
      (Tree.freshList ((troupe heed i scripts).map .leaf) random).1 scripts := by
  induction scripts generalizing i random with
  | nil => rfl
  | cons script scripts ih =>
    exact ⟨rfl, scripts, congrArg (· :: scripts) script.drop_zero.symm, ih (i + 1) random⟩

theorem follows_fresh (heed : World A → Deed → World A) (scripts : List Script) (random : Random) :
    Follows heed scripts ((Tree.sequence ((troupe heed 0 scripts).map .leaf)).fresh random).1
      { scripts } :=
  ⟨rfl, stands_fresh heed 0 scripts random, nofun, nofun⟩

end Leaf

/-- A sequence of scripted leaves does what its rehearsal says, whatever signals it gets: the deeds on its
children that take effect are the same, in the same order, and so are its outcomes and statuses. It has
succeeded just when the scripts of all children come to a success within the ticks of its activation, and
once it has ended, a tick repeats the outcome and reaches no child. -/
theorem Tree.sequence_rehearsed (heed : World A → Deed → World A) (scripts : List Script)
    (signals : List Signal) (random : Random) (world : World A) :
    let sequence := Tree.sequence ((Leaf.troupe heed 0 scripts).map .leaf)
    let run := sequence.signals signals (sequence.fresh random).1 world
    let rehearsal := ({ scripts } : Rehearsal).signals signals
    run.1 = rehearsal.1 ∧ run.2.2 = rehearsal.2.deeds.foldl heed world ∧
      (run.2.1.status = .succeeded ↔
        ∃ more pauses, rehearsal.2.ticks = some (more + 1) ∧
          List.Forall₂ Script.Succeeds rehearsal.2.scripts pauses ∧ pauses.sum ≤ more) ∧
      ∀ outcome, run.2.1.status.outcome? = some outcome →
        sequence.tick run.2.1 run.2.2 = (outcome, run.2.1, run.2.2) := by
  intro sequence run rehearsal
  obtain ⟨deeds, hdone, hanswers, hworld, hfollows⟩ :=
    (Leaf.follows_fresh heed scripts random).signals signals world
  have hdeeds : rehearsal.2.deeds = deeds := hdone
  refine ⟨hanswers, ?_, hfollows.succeeded_iff, fun outcome hended => ?_⟩
  · rw [hdeeds]
    exact hworld
  · have hactive : run.2.1.status ≠ .inactive := by
      intro hidle
      rw [hidle] at hended
      cases hended
    have hbegun : run.2.1.begin = run.2.1 := if_neg hactive
    rw [Tree.tick_sequence, hbegun, hended]

/-- The second of two goes on for a tick, and fails in the next one. A third tick reaches none of them. -/
theorem Tree.duet_fails :
    let heed (world : World (List Deed)) deed := { world with agent := world.agent ++ [deed] }
    let scripts : List Script := [fun _ => .success, fun k => if k = 0 then .running else .fail]
    let sequence := Tree.sequence ((Leaf.troupe heed 0 scripts).map .leaf)
    let run := sequence.signals [.tick, .tick] (sequence.fresh (.ofSeed 0)).1 { agent := [] }
    run.1 = [(some .running, .running), (some .fail, .failed)] ∧
      run.2.2.agent =
        [.start 0, .tick 0, .stop 0, .start 1, .tick 1, .tick 1, .stop 1] ∧
      sequence.tick run.2.1 run.2.2 = (.fail, run.2.1, run.2.2) := by
  intro heed scripts sequence run
  obtain ⟨hanswers, hworld, -, hended⟩ :=
    Tree.sequence_rehearsed heed scripts [.tick, .tick] (.ofSeed 0) { agent := [] }
  exact ⟨hanswers.trans (by decide), (congrArg World.agent hworld).trans (by decide),
    hended .fail (by decide)⟩

end BehaviorTree
