import BehaviorTree.Proofs.Lifecycle.Handles
import Mathlib.Data.Multiset.Bind

/-!
Conditions and services keep something of the world, so each step of a tree is a step of one of these
keepers, `Keeper.Step`, or touches nothing that is kept. `World.Deals` is a row of such steps. What one
step keeps, starting, ticking, stopping and releasing a tree keep as well.
-/

namespace BehaviorTree

/-- A condition or a service on its own, with what it keeps. -/
inductive Keeper where
  | condition (guard : Guard) (policy : RestartPolicy) (status : Status) (observer : Option ObserverId)
  | service (interval : Duration) (status : Status) (timer : Option TimerId)

namespace Keeper

variable {A : Type}

def handles : Keeper → Multiset Handle
  | .condition _ _ _ observer => Handle.observers observer
  | .service _ _ timer => Handle.timers timer

/-- A step of one keeper, and the worlds before and after it. -/
inductive Step : World A → World A → Keeper → Keeper → Prop where
  | begin {world observed judged : World A} {guard : Guard} {observer : Option ObserverId}
      {id : ObserverId} {holds : Bool} (policy : RestartPolicy) :
      world.observe observer guard.key = (id, observed) →
      observed.judge guard id = (holds, judged) →
      Step world judged (.condition guard policy .inactive observer)
        (.condition guard policy (if holds then .running else .failed) (some id))
  /-- A condition that has no child does not look. -/
  | beginBare {world observed : World A} {guard : Guard} {observer : Option ObserverId}
      {id : ObserverId} (policy : RestartPolicy) :
      world.observe observer guard.key = (id, observed) →
      Step world (observed.record (.dismissed id)) (.condition guard policy .inactive observer)
        (.condition guard policy .failed (some id))
  | check {world checked : World A} {guard : Guard} {policy : RestartPolicy}
      {observer : Option ObserverId} {broken : Bool} :
      policy.abortsSelf = true → world.stoppedHolding guard observer = (broken, checked) →
      Step world checked (.condition guard policy .running observer)
        (.condition guard policy (if broken then .failed else .running) observer)
  | finish (world : World A) (guard : Guard) (policy : RestartPolicy) (observer : Option ObserverId)
      (outcome : Outcome) :
      Step world world (.condition guard policy .running observer)
        (.condition guard policy outcome.status observer)
  /-- The flag of a stopped condition is down. It may go on watching. -/
  | stop (world : World A) (guard : Guard) (policy : RestartPolicy) (status : Status)
      (observer : Option ObserverId) :
      Step world (world.dismiss? observer) (.condition guard policy status observer)
        (.condition guard policy .inactive observer)
  | unwatch (world : World A) (guard : Guard) (policy : RestartPolicy)
      (observer : Option ObserverId) :
      Step world (world.unsubscribe? observer) (.condition guard policy .inactive observer)
        (.condition guard policy .inactive none)
  | ask {world asked : World A} {guard : Guard} {observer : Option ObserverId} {holds : Bool}
      (policy : RestartPolicy) :
      world.startedHolding guard observer = (holds, asked) →
      Step world asked (.condition guard policy .inactive observer)
        (.condition guard policy .inactive observer)
  | schedule (world : World A) (interval : Duration) (callback : Routine A) :
      Step world ((world.refresh ⟨world.clock.nextTimer⟩ callback).addTimer interval).2
        (.service interval .inactive none)
        (.service interval .running (some ⟨world.clock.nextTimer⟩))
  | serve (world : World A) (interval : Duration) (timer : Option TimerId) (outcome : Outcome) :
      Step world world (.service interval .running timer) (.service interval outcome.status timer)
  | cancel (world : World A) (interval : Duration) (status : Status) (timer : Option TimerId) :
      Step world (world.cancel? timer) (.service interval status timer)
        (.service interval .inactive none)

end Keeper

def Handle.ofKeepers (keepers : Multiset Keeper) : Multiset Handle := keepers.bind Keeper.handles

@[simp] theorem Handle.ofKeepers_zero : Handle.ofKeepers 0 = 0 := Multiset.zero_bind _

@[simp] theorem Handle.ofKeepers_add (left right : Multiset Keeper) :
    Handle.ofKeepers (left + right) = Handle.ofKeepers left + Handle.ofKeepers right :=
  Multiset.add_bind _ _ _

@[simp] theorem Handle.ofKeepers_singleton (keeper : Keeper) :
    Handle.ofKeepers {keeper} = keeper.handles := Multiset.singleton_bind _ _

namespace World

variable {A : Type} {world before middle after : World A}
variable {given kept taken more : Multiset Keeper} {keeper next : Keeper}

/-- A step of a tree that touches neither timers nor observers. -/
inductive Acts : World A → World A → Prop where
  | acted (world : World A) (label : String) : Acts world (world.record (.acted label))
  | preempted (world : World A) (winner loser : Nat) (preemption : Preemption) :
      Acts world (world.record (.preempted winner loser preemption))
  | mapAgent (world : World A) (f : A → A) : Acts world (world.mapAgent f)
  | overflow (world : World A) : Acts world world.overflow

/-- Between the two worlds the first keepers have become the second ones, step by step. -/
inductive Deals : World A → World A → Multiset Keeper → Multiset Keeper → Prop where
  | refl (world : World A) (keepers : Multiset Keeper) : Deals world world keepers keepers
  | trans {before middle after : World A} {given kept taken : Multiset Keeper} :
      Deals before middle given kept → Deals middle after kept taken → Deals before after given taken
  | frame {before after : World A} {given taken : Multiset Keeper} :
      Deals before after given taken → (more : Multiset Keeper) →
      Deals before after (given + more) (taken + more)
  | step {before after : World A} {keeper next : Keeper} :
      Keeper.Step before after keeper next → Deals before after {keeper} {next}
  | acts {before after : World A} : Acts before after → Deals before after 0 0

namespace Deals

theorem frame_left (h : before.Deals after given taken) (more : Multiset Keeper) :
    before.Deals after (more + given) (more + taken) := by
  rw [add_comm more given, add_comm more taken]
  exact h.frame more

theorem of_acts (h : before.Acts after) (keepers : Multiset Keeper) :
    before.Deals after keepers keepers := by
  have hdeals := (Deals.acts h).frame keepers
  rwa [zero_add] at hdeals

end Deals

end World

namespace World

variable {A : Type}

theorem clock_withReport (world : World A) (board : Board) (report : Option KeyWarning) :
    (world.withReport board report).clock = world.clock := by
  cases report <;> rfl

theorem clock_run (routine : Routine A) (world : World A) : (routine.run world).clock = world.clock := by
  induction routine generalizing world with
  | done => rfl
  | act _ _ ih => exact ih _
  | look _ ih | get _ _ ih | set _ _ _ ih | remove _ _ ih => exact ih _ _
  | getNumber _ _ ih | getBool _ _ ih => exact (ih _ _).trans (clock_withReport _ _ _)

theorem clock_refresh (world : World A) (timer : TimerId) (callback : Routine A) :
    (world.refresh timer callback).clock = world.clock :=
  clock_run callback _

theorem addTimer_refresh (world : World A) (interval : Duration) (callback : Routine A) :
    ((world.refresh ⟨world.clock.nextTimer⟩ callback).addTimer interval).1 =
      ⟨world.clock.nextTimer⟩ := by
  rw [addTimer, Clock.addTimer, clock_refresh]

end World

theorem Keeper.Step.trades {A : Type} {before after : World A} {keeper next : Keeper}
    (h : Keeper.Step before after keeper next) :
    before.Trades after keeper.handles next.handles := by
  cases h with
  | @begin _ _ guard observer id _ policy hobserve hjudge =>
    have hobserved := World.trades_observe before observer guard.key
    rw [hobserve] at hobserved
    have hjudged := hobserved.trans (World.trades_judge _ guard id)
    rwa [hjudge] at hjudged
  | @beginBare _ guard observer id policy hobserve =>
    have hobserved := World.trades_observe before observer guard.key
    rw [hobserve] at hobserved
    exact hobserved.trans (World.trades_record _ _ rfl)
  | @check _ guard policy observer broken _ hcheck =>
    have hchecked : before.Trades (before.stoppedHolding guard observer).2
        (Handle.observers observer) (Handle.observers observer) :=
      World.trades_stoppedHolding before guard observer
    rwa [hcheck] at hchecked
  | finish | serve => exact .refl _ _
  | stop guard policy status observer => exact World.trades_dismiss? before observer
  | unwatch guard policy observer => exact World.trades_unsubscribe? before observer
  | @ask _ guard observer holds policy hask =>
    have hasked : before.Trades (before.startedHolding guard observer).2
        (Handle.observers observer) (Handle.observers observer) :=
      World.trades_startedHolding before guard observer
    rwa [hask] at hasked
  | schedule interval callback =>
    have hadded := (World.trades_refresh before ⟨before.clock.nextTimer⟩ callback).trans
      (World.trades_addTimer _ interval)
    rwa [World.addTimer_refresh] at hadded
  | cancel interval status timer => exact World.trades_cancel? before timer

namespace World

variable {A : Type} {before after : World A} {given taken : Multiset Keeper}

theorem Acts.trades (h : before.Acts after) : before.Trades after 0 0 := by
  cases h with
  | acted label => exact trades_record _ _ rfl
  | preempted winner loser preemption => exact trades_record _ _ rfl
  | mapAgent f => exact trades_mapAgent _ f
  | overflow => exact trades_overflow _

theorem Deals.trades (h : before.Deals after given taken) :
    before.Trades after (Handle.ofKeepers given) (Handle.ofKeepers taken) := by
  induction h with
  | refl world keepers => exact .refl world _
  | trans _ _ ih ih' => exact ih.trans ih'
  | frame _ more ih =>
    rw [Handle.ofKeepers_add, Handle.ofKeepers_add]
    exact ih.frame _
  | step hstep =>
    rw [Handle.ofKeepers_singleton, Handle.ofKeepers_singleton]
    exact hstep.trades
  | acts hacts =>
    rw [Handle.ofKeepers_zero]
    exact hacts.trades

end World

end BehaviorTree
