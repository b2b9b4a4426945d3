import BehaviorTree.Proofs.Time.Cadence
import BehaviorTree.Proofs.Waits.Plans

namespace BehaviorTree

variable {A : Type}

theorem World.Holds.now_le_advance {start : World A} {node : Subtree A} {others : Multiset Handle}
    (h : start.Holds (node.handles + others)) (hfit : node.Fit)
    (hothers : ∀ id, Handle.timer id ∉ others) (dt : Duration) :
    start.now ≤ (World.advance node.fire dt start).now := by
  have hpopped {limit : Duration} {world : World A} {id : TimerId} {clock : Clock}
      (hpop : world.clock.popDue? limit = some (id, clock)) : world.now ≤ clock.now := by
    obtain ⟨timer, -, hfires⟩ := Clock.popDue?_fires hpop
    rw [hfires.now_eq]
    exact Nat.le_max_left _ _
  have hpasses {limit : Duration} {world : World A} (hpass : World.Passes node.fire limit start world) :
      start.now ≤ world.now := by
    induction hpass with
    | start => exact Nat.le_refl _
    | @fired world id clock hpass hpop _ ih =>
      obtain ⟨callback, heq⟩ := (h.passes hfit hothers hpass).1.dispatch_eq hfit hothers hpop
      rw [heq]
      refine Nat.le_trans (Nat.le_trans ih (hpopped hpop)) (Nat.le_of_eq ?_)
      exact (congrArg Clock.now (World.clock_refresh { world with clock } id callback)).symm
  unfold World.advance
  dsimp only
  split
  · exact Nat.le_refl _
  · refine Nat.le_trans ?_ (Nat.le_max_left _ _)
    have hstart : World.Passes node.fire (start.now + dt) start start := .start
    obtain hpass | ⟨last, id, clock, hpass, hpop, -, heq⟩ :=
      hstart.fireDue (start.clock.firings (start.now + dt))
    · exact hpasses hpass
    · rw [heq]
      exact Nat.le_trans (hpasses hpass) (hpopped hpop)

namespace Root

/-- The tree has come to its end, or is on its way there. -/
def Going (root : Root A) : Prop := root.status = .succeeded ∨ root.tree.Underway root.state

def agenda (root : Root A) : List Entry :=
  if root.status = .succeeded then [] else root.tree.agenda root.state

/-- With the turns since the instant at which it was begun, the root follows the plan of its tree. -/
structure Follows (root : Root A) (begun : Duration) (turns : List Turn) : Prop where
  active : root.active = true
  follows : Agenda.Follows begun root.tree.plan turns root.agenda root.world.now

variable {root : Root A} {begun : Duration} {turns : List Turn}

theorem Going.ne_failed (h : root.Going) : root.status ≠ .failed := by
  obtain hended | hunderway := h
  · rw [hended]
    exact nofun
  · intro hfailed
    have hgoing := hunderway.isTerminated
    rw [show root.tree.status root.state = .failed from hfailed] at hgoing
    cases hgoing

theorem Going.underway (h : root.Going) (hnew : root.status.isTerminated ≠ true) :
    root.tree.Underway root.state :=
  h.resolve_left fun hended => hnew (by rw [hended]; rfl)

theorem agenda_of_underway (h : root.tree.Underway root.state) :
    root.agenda = root.tree.agenda root.state :=
  if_neg fun hended => by
    have hgoing := h.isTerminated
    rw [show root.tree.status root.state = .succeeded from hended] at hgoing
    cases hgoing

theorem Follows.later (h : root.Follows begun turns) {world : World A} (hnow : root.world.now ≤ world.now) :
    ({ root with world } : Root A).Follows begun turns :=
  ⟨h.active, h.follows.mono hnow⟩

end Root

namespace Session

variable {tree : Tree A} {initial : Values} {session : Session A} {begun : Duration} {turns : List Turn}

namespace Kept

theorem goes (h : session.Kept) (htree : session.root.tree.Linear)
    (hunderway : session.root.tree.Underway session.root.state) :
    session.root.evaluated.Going ∧
      (session.root.told .tick).turns =
        (Agenda.run session.root.world.now (session.root.tree.agenda session.root.state)).1 ∧
      session.root.evaluated.agenda =
        (Agenda.run session.root.world.now (session.root.tree.agenda session.root.state)).2 := by
  have hgoes := Tree.tick_goes _ htree _ session.root.world h.fit hunderway
  by_cases hdone : (Agenda.run session.root.world.now (session.root.tree.agenda session.root.state)).2 = []
  · have hended : session.root.evaluated.status = .succeeded := by
      rw [Root.status]
      exact hgoes.status.trans (congrArg Outcome.status (hgoes.ended hdone))
    refine ⟨.inl hended, hgoes.turns, ?_⟩
    rw [hdone, Root.agenda, if_pos hended]
  · obtain ⟨-, hlater, hagenda⟩ := hgoes.left hdone
    exact ⟨.inr hlater, hgoes.turns, (Root.agenda_of_underway hlater).trans hagenda⟩

theorem going_released (h : session.Kept) (htree : session.root.tree.Linear) :
    session.root.released.tree.Underway session.root.released.state :=
  (Tree.Quiet.underway _ htree _ h.released.2.1).1

theorem going_tick (h : session.Kept) (htree : session.root.tree.Linear)
    (hgoing : session.root.Going) : session.root.tick.Going := by
  by_cases hactive : session.root.active = true
  · rw [session.root.tick_eq hactive]
    split <;> rename_i hended
    · exact (h.released.1.kept.goes htree (h.going_released htree)).1
    · exact (h.goes htree (hgoing.underway hended)).1
  · rw [session.root.tick_of_inactive (by simpa using hactive)]
    exact hgoing

theorem going_call (h : session.Kept) (htree : session.root.tree.Linear)
    (hgoing : session.root.Going) (call : Call A) : (session.call call).root.Going := by
  cases call with
  | start =>
    change session.root.start.Going
    by_cases hactive : session.root.active = true
    · rw [session.root.start_of_active hactive]
      exact hgoing
    · have hidle : session.root.active = false := by simpa using hactive
      rw [session.root.start_of_inactive hidle]
      exact .inr (Tree.start_follows _ htree _ session.root.world (h.resting hidle).1).1
  | tick => exact h.going_tick htree hgoing
  | update dt => exact (h.advance dt).kept.going_tick htree hgoing
  | stop =>
    change session.root.stop.Going
    by_cases hactive : session.root.active = true
    · rw [session.root.stop_eq hactive]
      exact .inr (h.going_released htree)
    · rw [session.root.stop_of_inactive (by simpa using hactive)]
      exact hgoing
  | advance _ | steer _ | set _ _ | remove _ | getNumber _ | getBool _ | clear | watch _ _
  | unwatch _ => exact hgoing

theorem follows_tick (h : session.Kept) (htree : session.root.tree.Linear) (hgoing : session.root.Going)
    (hnew : session.root.status ≠ .succeeded) (hfollows : session.root.Follows begun turns) :
    session.root.tick.Follows begun (turns ++ session.root.tickMail.turns) := by
  have hunderway := hgoing.resolve_left hnew
  have hended : session.root.status.isTerminated ≠ true := by
    rw [show session.root.status.isTerminated = false from hunderway.isTerminated]
    simp
  obtain ⟨-, hturns, hagenda⟩ := h.goes htree hunderway
  have hnow : session.root.evaluated.world.now = session.root.world.now :=
    (Tree.tick_fit _ _ session.root.world h.fit).deals.now_eq
  rw [session.root.tick_eq hfollows.active, if_neg hended, Root.tickMail, if_pos hfollows.active,
    if_neg hended, hturns]
  refine ⟨hfollows.active, ?_⟩
  rw [hagenda, hnow]
  have hrun := hfollows.follows.run
  rwa [Root.agenda_of_underway hunderway] at hrun

theorem follows_advance (h : session.Kept) (dt : Duration) (hfollows : session.root.Follows begun turns) :
    (session.root.advance dt).Follows begun turns :=
  hfollows.later (h.holds.now_le_advance h.fit session.timer_not_mem_handles dt)

theorem follows_call (h : session.Kept) (htree : session.root.tree.Linear) (hgoing : session.root.Going)
    (hnew : session.root.status ≠ .succeeded) (hfollows : session.root.Follows begun turns)
    (call : Call A) (hcall : call ≠ .stop) :
    (session.call call).root.Follows begun (turns ++ (session.root.mail call).turns) := by
  have hsilent {world : World A} (hnow : session.root.world.now ≤ world.now) :
      ({ session.root with world } : Root A).Follows begun (turns ++ []) := by
    rw [List.append_nil]
    exact hfollows.later hnow
  cases call with
  | start =>
    rw [Root.mail, if_pos hfollows.active]
    change session.root.start.Follows begun (turns ++ [])
    rw [session.root.start_of_active hfollows.active]
    exact hsilent (Nat.le_refl _)
  | tick => exact h.follows_tick htree hgoing hnew hfollows
  | advance dt =>
    exact hsilent (h.holds.now_le_advance h.fit session.timer_not_mem_handles dt)
  | update dt => exact (h.advance dt).kept.follows_tick htree hgoing hnew (h.follows_advance dt hfollows)
  | stop => exact absurd rfl hcall
  | getNumber key =>
    refine hsilent ?_
    rw [World.now, World.now, (World.writes_getNumber session.root.world key).clock_eq]
  | getBool key =>
    refine hsilent ?_
    rw [World.now, World.now, (World.writes_getBool session.root.world key).clock_eq]
  | steer _ | set _ _ | remove _ | clear | watch _ _ | unwatch _ => exact hsilent (Nat.le_refl _)

theorem follows_start (h : session.Kept) (htree : session.root.tree.Linear)
    (hidle : session.root.active = false) :
    session.root.start.Follows session.root.world.now (session.root.mail .start).turns := by
  obtain ⟨hunderway, hfollows⟩ :=
    Tree.start_follows _ htree _ session.root.world (h.resting hidle).1
  have hnow : (session.root.tree.start session.root.state session.root.world).2.now =
      session.root.world.now := (Tree.start_fit _ _ session.root.world h.fit).2.now_eq
  rw [session.root.start_of_inactive hidle, Root.mail, if_neg (by simp [hidle])]
  refine ⟨rfl, ?_⟩
  rw [Root.agenda_of_underway hunderway]
  dsimp only
  rw [hnow]
  exact hfollows

end Kept

namespace Reachable

theorem going (htree : tree.Linear) (h : Reachable tree initial session) : session.root.Going := by
  induction h with
  | opened _ _ _ hroot =>
    obtain ⟨-, rfl⟩ := Root.withBoard_eq_ok.mp hroot
    exact .inr (Tree.Quiet.underway tree htree _ (Tree.fresh_quiet tree _ htree.builtIn).1).1
  | called call h ih => exact (h.kept htree.builtIn).going_call (h.tree_eq ▸ htree) ih call

theorem follows_calls (htree : tree.Linear) (h : Reachable tree initial session)
    (hfollows : session.root.Follows begun turns) (calls : List (Call A))
    (hcalls : ∀ call ∈ calls, call ≠ .stop)
    (hnew : ∀ before after, calls = before ++ after → after ≠ [] →
      (session.root.calls before).status ≠ .succeeded) :
    (session.root.calls calls).Follows begun (turns ++ (session.root.mails calls).turns) := by
  induction calls generalizing session turns with
  | nil =>
    rw [Root.mails, show Mail.turns (A := A) [] = [] from rfl, List.append_nil]
    exact hfollows
  | cons call calls ih =>
    obtain ⟨hcall, hcalls⟩ := List.forall_mem_cons.mp hcalls
    have hnext := (h.kept htree.builtIn).follows_call (h.tree_eq ▸ htree) (h.going htree)
      (hnew [] _ rfl (by simp)) hfollows call hcall
    have hlast := ih (h.called call) hnext hcalls fun before after heq hafter =>
      hnew (call :: before) after (congrArg (call :: ·) heq) hafter
    rw [Root.mails, Mail.turns_append, ← List.append_assoc]
    exact hlast

/-- A tree of sequences, actions and waits without a variance never fails. Until it comes to its end for
the first time, it runs its actions in the order in which they stand, each at most once, and none before
each wait in front of it has lasted. When it does, all actions have run, and since its start at least the
time of all waits has passed. -/
theorem waits_add_up (htree : tree.Linear) (h : Reachable tree initial session)
    (hidle : session.root.active = false) (calls : List (Call A))
    (hcalls : ∀ call ∈ calls, call ≠ .stop) :
    (session.root.calls (.start :: calls)).status ≠ .failed ∧
    ((∀ before after, calls = before ++ after → after ≠ [] →
        (session.root.calls (.start :: before)).status ≠ .succeeded) →
      let turns := (session.root.mails (.start :: calls)).turns
      (session.root.calls (.start :: calls)).world.acts =
        ((Turn.acts turns).filterMap Task.label?).reverse ++ session.root.world.acts ∧
      (Turn.acts turns).Nodup ∧ Turn.acts turns <+: tree.plan.filter (·.isAct) ∧
      Agenda.Ordered tree.plan turns ∧
      ((session.root.calls (.start :: calls)).status = .succeeded →
        session.root.world.now + Task.total tree.plan ≤
          (session.root.calls (.start :: calls)).world.now ∧
        Turn.acts turns = tree.plan.filter (·.isAct))) := by
  have hkept := h.kept htree.builtIn
  have hlinear : session.root.tree.Linear := h.tree_eq ▸ htree
  have hplan : (session.root.calls (.start :: calls)).tree = tree :=
    session.calls_root (.start :: calls) ▸ (h.calls (.start :: calls)).tree_eq
  refine ⟨?_, fun hnew => ?_⟩
  · rw [← session.calls_root]
    exact ((h.calls _).going htree).ne_failed
  · have hfollows := (h.called .start).follows_calls htree (hkept.follows_start hlinear hidle) calls
      hcalls hnew
    have hruns := (hkept.calls_runs hlinear.builtIn (h.unspent htree.builtIn) (.start :: calls)).1.acts
    have hplanned : Agenda.Follows session.root.world.now tree.plan
        (session.root.mails (.start :: calls)).turns (session.root.calls (.start :: calls)).agenda
        (session.root.calls (.start :: calls)).world.now := by
      rw [Root.mails, Mail.turns_append, ← hplan]
      exact hfollows.follows
    refine ⟨?_, ?_, hplanned.acts_prefix, hplanned.ordered, fun hended => ?_⟩
    · rw [hruns, Mail.filterMap_action?]
    · exact (tree.plan_nodup.filter _).sublist hplanned.acts_prefix.sublist
    · rw [Root.agenda, if_pos hended] at hplanned
      exact hplanned.finished.symm

end Reachable

def caller : Tree Nat :=
  .sequence [.action "greet" (.always (· + 1)),
    .sequence [.action "knock" (.always (· + 1)), .wait 3 0, .action "knock" (.always (· + 1))],
    .wait 2 0, .action "leave" (.always (· + 1))]

/-- The caller is ticked late, and leaves eight instants after its start. -/
theorem caller_takes_its_time :
    let session : Session Nat := ⟨Root.opened caller {} 0 (fun _ agent => agent) (.ofSeed 0), []⟩
    let calls : List (Call Nat) := [.advance 1, .tick, .update 2, .update 2, .tick, .update 3]
    let turns := (session.root.mails (.start :: calls)).turns
    (session.root.calls (.start :: calls)).world.acts = ["leave", "knock", "knock", "greet"] ∧
    (Turn.acts turns).Nodup ∧ Task.total caller.plan = 5 ∧
    5 ≤ (session.root.calls (.start :: calls)).world.now := by
  intro session calls turns
  have hreachable : session.Reachable caller .empty :=
    .opened (Board.sound_ofValues .empty) rfl (fun _ _ _ => rfl)
      (Root.withBoard_eq_ok.mpr ⟨⟨rfl, rfl⟩, rfl⟩)
  have hlinear : caller.Linear := ⟨trivial, ⟨trivial, rfl, trivial, trivial⟩, rfl, trivial, trivial⟩
  have hnew : ∀ before after, calls = before ++ after → after ≠ [] →
      (session.root.calls (.start :: before)).status ≠ .succeeded := by
    have hgoing : ∀ n < 6, (session.root.calls (.start :: calls.take n)).status ≠ .succeeded := by decide
    intro before after heq hafter
    have hlength : 6 = before.length + after.length := by
      rw [← List.length_append, ← heq]
      rfl
    have hshort := hgoing before.length (by have := List.length_pos_iff.mpr hafter; omega)
    rwa [heq, List.take_left] at hshort
  obtain ⟨-, hrun⟩ := hreachable.waits_add_up hlinear rfl calls (by simp [calls])
  obtain ⟨hacts, hnodup, -, -, hended⟩ := hrun hnew
  obtain ⟨hlong, -⟩ := hended (by decide)
  exact ⟨by decide, hnodup, by decide, hlong⟩

end Session

end BehaviorTree
