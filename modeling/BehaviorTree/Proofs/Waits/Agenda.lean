import BehaviorTree.Duration
import Mathlib.Data.List.Basic

/-!
A plan is a row of tasks, each of which runs a command or lets a time pass. An agenda is what is left of a
plan. Whenever it gets a turn, it goes on as far as it can: `Agenda.run`. However the turns are spread over
time, the tasks are done in their order, and none that lets a time pass is cut short: `Agenda.Follows.run`.
-/

namespace BehaviorTree

/-- What there is to do: to run a command, or to let a time pass. -/
inductive Duty where
  | act (label : String)
  | rest (duration : Duration)
  deriving Repr, DecidableEq

/-- What the leaf at a position has to do. -/
structure Task where
  position : List Nat
  duty : Duty
  deriving Repr, DecidableEq

namespace Task

def length (task : Task) : Duration :=
  match task.duty with
  | .act _ => 0
  | .rest duration => duration

def label? (task : Task) : Option String :=
  match task.duty with
  | .act label => some label
  | .rest _ => none

def isAct (task : Task) : Bool :=
  match task.duty with
  | .act _ => true
  | .rest _ => false

theorem length_of_isAct {task : Task} (h : task.isAct = true) : task.length = 0 := by
  obtain ⟨position, duty⟩ := task
  cases duty with
  | act _ => rfl
  | rest _ => cases h

/-- The time that the tasks take at least, one after the other. -/
def total : List Task → Duration
  | [] => 0
  | task :: tasks => task.length + total tasks

theorem total_concat (tasks : List Task) (task : Task) :
    total (tasks ++ [task]) = total tasks + task.length := by
  induction tasks with
  | nil => exact Nat.add_comm _ _
  | cons first tasks ih =>
    rw [List.cons_append, total, ih, total]
    exact (Nat.add_assoc _ _ _).symm

def move (f : List Nat → List Nat) (task : Task) : Task := ⟨f task.position, task.duty⟩

theorem move_injective {f : List Nat → List Nat} (hf : Function.Injective f) :
    Function.Injective (move f) := by
  rintro ⟨position, duty⟩ ⟨other, duty'⟩ h
  obtain ⟨hposition, hduty⟩ := Task.mk.inj h
  exact congrArg₂ Task.mk (hf hposition) hduty

end Task

/-- A task that gets its turn at an instant. -/
structure Turn where
  task : Task
  instant : Duration
  deriving Repr, DecidableEq

namespace Turn

def move (f : List Nat → List Nat) (turn : Turn) : Turn := ⟨turn.task.move f, turn.instant⟩

def acts (turns : List Turn) : List Task := (turns.map (·.task)).filter (·.isAct)

@[simp] theorem acts_append (turns more : List Turn) : acts (turns ++ more) = acts turns ++ acts more := by
  simp [acts]

theorem filterMap_acts (turns : List Turn) :
    (acts turns).filterMap Task.label? = turns.filterMap fun turn => turn.task.label? := by
  rw [acts, List.filterMap_filter, List.filterMap_map]
  refine List.filterMap_congr fun turn _ => ?_
  obtain ⟨⟨position, duty⟩, instant⟩ := turn
  cases duty <;> rfl

/-- The task had a turn, and one when its time had passed since. -/
def Lasted (turns : List Turn) (task : Task) : Prop :=
  ∃ first last, ⟨task, first⟩ ∈ turns ∧ ⟨task, last⟩ ∈ turns ∧ first + task.length ≤ last

theorem Lasted.mono {turns more : List Turn} {task : Task} (h : Lasted turns task)
    (hsub : ∀ turn ∈ turns, turn ∈ more) : Lasted more task := by
  obtain ⟨first, last, hfirst, hlast, hlong⟩ := h
  exact ⟨first, last, hsub _ hfirst, hsub _ hlast, hlong⟩

end Turn

/-- A task that is still to do, with the instant at which it was begun if it was. -/
structure Entry where
  task : Task
  since : Option Duration := none
  deriving Repr, DecidableEq

namespace Entry

def move (f : List Nat → List Nat) (entry : Entry) : Entry := ⟨entry.task.move f, entry.since⟩

def fresh (task : Task) : Entry := ⟨task, none⟩

/-- What is left of the task when it gets its turn. -/
def left? (now : Duration) (entry : Entry) : Option Entry :=
  if now - entry.since.getD now < entry.task.length then
    some ⟨entry.task, some (entry.since.getD now)⟩
  else none

theorem left?_move (f : List Nat → List Nat) (now : Duration) (entry : Entry) :
    (entry.move f).left? now = (entry.left? now).map (move f) := by
  change (if now - entry.since.getD now < entry.task.length then _ else none) =
    Option.map (move f) (if now - entry.since.getD now < entry.task.length then _ else none)
  split <;> rfl

end Entry

namespace Agenda

variable {now later begun ended : Duration} {tasks plan rest : List Task} {turns : List Turn}
variable {agenda more : List Entry}

/-- Gives the tasks their turns, up to the first that needs more time. The answers are the turns and what
is left. -/
def run (now : Duration) : List Entry → List Turn × List Entry
  | [] => ([], [])
  | entry :: agenda =>
    match entry.left? now with
    | some left => ([⟨entry.task, now⟩], left :: agenda)
    | none => (⟨entry.task, now⟩ :: (run now agenda).1, (run now agenda).2)

theorem run_singleton_of_lt {task : Task} {since : Option Duration}
    (h : now - since.getD now < task.length) :
    run now [⟨task, since⟩] = ([⟨task, now⟩], [⟨task, some (since.getD now)⟩]) := by
  rw [run, show (⟨task, since⟩ : Entry).left? now = some ⟨task, some (since.getD now)⟩ from if_pos h]

theorem run_singleton_of_le {task : Task} {since : Option Duration}
    (h : task.length ≤ now - since.getD now) : run now [⟨task, since⟩] = ([⟨task, now⟩], []) := by
  rw [run, show (⟨task, since⟩ : Entry).left? now = none from if_neg (Nat.not_lt.mpr h)]
  rfl

theorem run_append (now : Duration) (agenda more : List Entry) :
    ((run now agenda).2 = [] →
      run now (agenda ++ more) = ((run now agenda).1 ++ (run now more).1, (run now more).2)) ∧
    ((run now agenda).2 ≠ [] →
      run now (agenda ++ more) = ((run now agenda).1, (run now agenda).2 ++ more)) := by
  induction agenda with
  | nil => exact ⟨fun _ => rfl, fun hleft => absurd rfl hleft⟩
  | cons entry agenda ih =>
    rw [List.cons_append, run, run]
    cases entry.left? now with
    | some left => exact ⟨nofun, fun _ => rfl⟩
    | none =>
      refine ⟨fun hdone => ?_, fun hleft => ?_⟩
      · dsimp only
        rw [ih.1 hdone, List.cons_append]
      · dsimp only
        rw [ih.2 hleft]

theorem run_move (f : List Nat → List Nat) (now : Duration) (agenda : List Entry) :
    run now (agenda.map (·.move f)) =
      ((run now agenda).1.map (·.move f), (run now agenda).2.map (·.move f)) := by
  induction agenda with
  | nil => rfl
  | cons entry agenda ih =>
    rw [List.map_cons, run, run, entry.left?_move]
    cases entry.left? now with
    | some left => rfl
    | none =>
      rw [Option.map_none]
      dsimp only
      rw [ih]
      rfl

/-- The turns do the tasks, one after the other, from one instant to another. -/
inductive Fulfils (begun : Duration) : List Task → List Turn → Duration → Prop where
  | nil : Fulfils begun [] [] begun
  | act {tasks : List Task} {turns : List Turn} {ended now : Duration} {task : Task} :
    Fulfils begun tasks turns ended → task.isAct = true → ended ≤ now →
    Fulfils begun (tasks ++ [task]) (turns ++ [⟨task, now⟩]) now
  | rest {tasks : List Task} {turns row : List Turn} {ended first last : Duration} {task : Task} :
    Fulfils begun tasks turns ended → task.isAct = false → ended ≤ first →
    (∀ turn ∈ row, turn.task = task) → ⟨task, first⟩ ∈ row → ⟨task, last⟩ ∈ row →
    first + task.length ≤ last → Fulfils begun (tasks ++ [task]) (turns ++ row) last

/-- The turns do the first tasks of the plan, and the agenda is what is left of it at an instant. -/
inductive Follows (begun : Duration) : List Task → List Turn → List Entry → Duration → Prop where
  | between {tasks rest : List Task} {turns : List Turn} {ended now : Duration} :
    Fulfils begun tasks turns ended → ended ≤ now →
    Follows begun (tasks ++ rest) turns (rest.map .fresh) now
  | resting {tasks rest : List Task} {turns row : List Turn} {ended first now : Duration} {task : Task} :
    Fulfils begun tasks turns ended → task.isAct = false → ended ≤ first → first ≤ now →
    (∀ turn ∈ row, turn.task = task) → ⟨task, first⟩ ∈ row →
    Follows begun (tasks ++ task :: rest) (turns ++ row) (⟨task, some first⟩ :: rest.map .fresh) now

theorem acts_of_rest {task : Task} (hrest : task.isAct = false) (hrow : ∀ turn ∈ turns, turn.task = task) :
    Turn.acts turns = [] := by
  refine List.filter_eq_nil_iff.mpr fun other hmem => ?_
  obtain ⟨turn, hturn, rfl⟩ := List.mem_map.mp hmem
  simp [hrow turn hturn, hrest]

theorem cases_of_append {row front back : List Turn} {turn : Turn}
    (h : turns ++ row = front ++ turn :: back) :
    (∃ back, turns = front ++ turn :: back) ∨
      ∃ middle, front = turns ++ middle ∧ row = middle ++ turn :: back := by
  obtain ⟨middle, hfront, hrow⟩ | ⟨middle, hturns, hback⟩ := List.append_eq_append_iff.mp h
  · exact .inr ⟨middle, hfront, hrow⟩
  · cases middle with
    | nil =>
      refine .inr ⟨[], ?_, hback.symm⟩
      rw [hturns, List.append_nil, List.append_nil]
    | cons first middle =>
      cases hback
      exact .inl ⟨middle, hturns⟩

namespace Fulfils

theorem total_le (h : Fulfils begun tasks turns ended) : begun + Task.total tasks ≤ ended := by
  induction h with
  | nil => exact Nat.le_refl _
  | act _ hact hnow ih =>
    rw [Task.total_concat, Task.length_of_isAct hact]
    exact Nat.le_trans ih hnow
  | rest _ _ hfirst _ _ _ hlong ih =>
    rw [Task.total_concat, ← Nat.add_assoc]
    exact Nat.le_trans (Nat.add_le_add_right (Nat.le_trans ih hfirst) _) hlong

theorem acts_eq (h : Fulfils begun tasks turns ended) : Turn.acts turns = tasks.filter (·.isAct) := by
  induction h with
  | nil => rfl
  | act _ hact _ ih =>
    rw [Turn.acts_append, ih, List.filter_append]
    simp [Turn.acts, hact]
  | rest _ hrest _ hrow _ _ _ ih =>
    rw [Turn.acts_append, acts_of_rest hrest hrow, ih, List.filter_append]
    simp [hrest]

theorem lasted (h : Fulfils begun tasks turns ended) :
    ∀ task ∈ tasks, task.isAct = false → Turn.Lasted turns task := by
  induction h with
  | nil => exact nofun
  | act _ hact _ ih =>
    intro task hmem hrest
    obtain hmem | hmem := List.mem_append.mp hmem
    · exact (ih task hmem hrest).mono fun turn => List.mem_append_left _
    · rw [List.mem_singleton.mp hmem, hact] at hrest
      cases hrest
  | rest _ _ _ _ hfirst hlast hlong ih =>
    intro task hmem hrest
    obtain hmem | hmem := List.mem_append.mp hmem
    · exact (ih task hmem hrest).mono fun turn => List.mem_append_left _
    · rw [List.mem_singleton.mp hmem]
      exact ⟨_, _, List.mem_append_right _ hfirst, List.mem_append_right _ hlast, hlong⟩

theorem split (h : Fulfils begun tasks turns ended) {front back : List Turn} {turn : Turn}
    (heq : turns = front ++ turn :: back) (hact : turn.task.isAct = true) :
    ∃ earlier others ended, tasks = earlier ++ turn.task :: others ∧
      Fulfils begun earlier front ended ∧ ended ≤ turn.instant := by
  induction h generalizing back with
  | nil => simp at heq
  | @act tasks turns ended now task hbefore _ hnow ih =>
    obtain ⟨back, heq⟩ | ⟨middle, rfl, hlast⟩ := cases_of_append heq
    · obtain ⟨earlier, others, ended, rfl, hearlier⟩ := ih heq
      exact ⟨earlier, others ++ [task], ended, List.append_assoc _ _ _, hearlier⟩
    · cases middle with
      | nil =>
        cases hlast
        exact ⟨tasks, [], ended, rfl, by rwa [List.append_nil], hnow⟩
      | cons first middle => simp at hlast
  | @rest tasks turns row ended first last task _ hrest _ hrow _ _ _ ih =>
    obtain ⟨back, heq⟩ | ⟨front, -, rfl⟩ := cases_of_append heq
    · obtain ⟨earlier, others, ended, rfl, hearlier⟩ := ih heq
      exact ⟨earlier, others ++ [task], ended, List.append_assoc _ _ _, hearlier⟩
    · -- No command runs while a time passes.
      have hsame := hrow turn (List.mem_append_right _ List.mem_cons_self)
      rw [hsame, hrest] at hact
      cases hact

end Fulfils

/-- When a command runs, it is the next command of the plan, and every time before it has passed. -/
def Ordered (plan : List Task) (turns : List Turn) : Prop :=
  ∀ front turn back, turns = front ++ turn :: back → turn.task.isAct = true →
    ∃ earlier others, plan = earlier ++ turn.task :: others ∧
      Turn.acts front = earlier.filter (·.isAct) ∧
      ∀ task ∈ earlier, task.isAct = false → Turn.Lasted front task

theorem isAct_of_lt {task : Task} {time : Duration} (h : time < task.length) : task.isAct = false :=
  Bool.eq_false_iff.mpr fun hact =>
    Nat.not_lt_zero time (Nat.lt_of_lt_of_eq h (Task.length_of_isAct hact))

theorem Fulfils.once (h : Fulfils begun tasks turns ended) {task : Task} (hnow : ended ≤ now)
    (hshort : task.length = 0) : Fulfils begun (tasks ++ [task]) (turns ++ [⟨task, now⟩]) now := by
  cases hact : task.isAct with
  | true => exact .act h hact hnow
  | false =>
    have hmem := List.mem_singleton_self (⟨task, now⟩ : Turn)
    refine .rest h hact hnow (List.forall_mem_singleton.mpr rfl) hmem hmem ?_
    rw [hshort]
    exact Nat.le_refl now

theorem Fulfils.run (h : Fulfils begun tasks turns ended) (hnow : ended ≤ now) (rest : List Task) :
    Follows begun (tasks ++ rest) (turns ++ (run now (rest.map .fresh)).1)
      (run now (rest.map .fresh)).2 now := by
  induction rest generalizing tasks turns ended with
  | nil =>
    change Follows begun (tasks ++ []) (turns ++ []) (List.map Entry.fresh []) now
    rw [List.append_nil turns]
    exact .between h hnow
  | cons task rest ih =>
    rw [List.map_cons, Agenda.run]
    by_cases hlong : now - now < task.length
    · rw [show (Entry.fresh task).left? now = some ⟨task, some now⟩ from if_pos hlong]
      exact .resting h (isAct_of_lt hlong) hnow (Nat.le_refl _) (List.forall_mem_singleton.mpr rfl)
        (List.mem_singleton_self _)
    · rw [show (Entry.fresh task).left? now = none from if_neg hlong]
      have hshort : task.length = 0 := by
        rw [Nat.sub_self] at hlong
        exact Nat.eq_zero_of_not_pos hlong
      have hrest := ih (h.once hnow hshort) (Nat.le_refl now)
      rwa [List.append_assoc, List.append_assoc] at hrest

namespace Follows

theorem mono (h : Follows begun plan turns agenda now) (hlater : now ≤ later) :
    Follows begun plan turns agenda later := by
  cases h with
  | between hdone hended => exact .between hdone (Nat.le_trans hended hlater)
  | resting hdone hrest hended hfirst hrow hmem =>
    exact .resting hdone hrest hended (Nat.le_trans hfirst hlater) hrow hmem

theorem run (h : Follows begun plan turns agenda now) :
    Follows begun plan (turns ++ (Agenda.run now agenda).1) (Agenda.run now agenda).2 now := by
  cases h with
  | between hdone hended => exact hdone.run hended _
  | @resting tasks rest turns row ended first _ task hdone hrest hended hfirst hrow hmem =>
    have hrow : ∀ turn ∈ row ++ [⟨task, now⟩], turn.task = task :=
      List.forall_mem_append.mpr ⟨hrow, List.forall_mem_singleton.mpr rfl⟩
    have hmem := List.mem_append_left [⟨task, now⟩] hmem
    have hlast : ⟨task, now⟩ ∈ row ++ [⟨task, now⟩] := List.mem_append_right row (List.mem_singleton_self _)
    rw [Agenda.run]
    by_cases hlong : now - first < task.length
    · rw [show (⟨task, some first⟩ : Entry).left? now = some ⟨task, some first⟩ from if_pos hlong]
      rw [List.append_assoc]
      exact .resting hdone hrest hended hfirst hrow hmem
    · rw [show (⟨task, some first⟩ : Entry).left? now = none from if_neg hlong]
      have hpassed : first + task.length ≤ now :=
        Nat.add_le_of_le_sub' hfirst (Nat.le_of_not_lt hlong)
      have hrest := (Fulfils.rest hdone hrest hended hrow hmem hlast hpassed).run (Nat.le_refl now) rest
      simp only [List.append_assoc, List.singleton_append] at hrest ⊢
      exact hrest

theorem acts_prefix (h : Follows begun plan turns agenda now) :
    Turn.acts turns <+: plan.filter (·.isAct) := by
  cases h with
  | between hdone _ =>
    rw [hdone.acts_eq, List.filter_append]
    exact List.prefix_append _ _
  | resting hdone hrest _ _ hrow _ =>
    rw [Turn.acts_append, acts_of_rest hrest hrow, hdone.acts_eq, List.append_nil, List.filter_append]
    exact List.prefix_append _ _

theorem ordered (h : Follows begun plan turns agenda now) : Ordered plan turns := by
  intro front turn back heq hact
  cases h with
  | between hdone _ =>
    obtain ⟨earlier, others, ended, rfl, hearlier, -⟩ := hdone.split heq hact
    exact ⟨earlier, _, List.append_assoc _ _ _, hearlier.acts_eq, hearlier.lasted⟩
  | resting hdone hrest _ _ hrow _ =>
    obtain ⟨back, heq⟩ | ⟨middle, -, rfl⟩ := cases_of_append heq
    · obtain ⟨earlier, others, ended, rfl, hearlier, -⟩ := hdone.split heq hact
      exact ⟨earlier, _, List.append_assoc _ _ _, hearlier.acts_eq, hearlier.lasted⟩
    · have hsame := hrow turn (List.mem_append_right _ List.mem_cons_self)
      rw [hsame, hrest] at hact
      cases hact

theorem finished (h : Follows begun plan turns [] now) :
    Turn.acts turns = plan.filter (·.isAct) ∧ begun + Task.total plan ≤ now := by
  generalize hnone : ([] : List Entry) = agenda at h
  cases h with
  | between hdone hended =>
    obtain rfl := List.map_eq_nil_iff.mp hnone.symm
    rw [List.append_nil]
    exact ⟨hdone.acts_eq, Nat.le_trans hdone.total_le hended⟩
  | resting => cases hnone

end Follows

end Agenda

end BehaviorTree
