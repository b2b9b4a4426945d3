import BehaviorTree.Proofs.Lifecycle.Session

namespace BehaviorTree

variable {A : Type} {tree : Tree A} {initial : Values} {session : Session A} {node : Subtree A}

namespace Subtree

/-- The active nodes are one path downwards, and each composite on it knows which child comes next. -/
structure OnePath (node : Subtree A) : Prop where
  path : (∀ position lower, node.at? position = some lower → lower.status = .inactive) ∨
    ∃ path, (node.at? path).isSome ∧ node.ActivePath path
  inactive : ∀ position lower, node.at? position = some lower → lower.status = .inactive →
    ∀ path below, lower.at? path = some below → below.status = .inactive
  running : ∀ position lower current, node.at? position = some lower →
    lower.current? = some current → lower.status = .running →
    (∀ i child, lower.children[i]? = some child → child.status ≠ .inactive → i = current) ∧
      (current < lower.children.length ∨ lower.children = [])
  ended : ∀ position lower current, node.at? position = some lower →
    lower.current? = some current → lower.status.isTerminated = true →
    ∀ child ∈ lower.children, child.status = .inactive

/-- All active nodes run, and the last one waits for a time that has not passed. -/
def RunsToWait (node : Subtree A) (now : Duration) : Prop :=
  ∃ path wait, node.at? path = some wait ∧ wait.Awaits now ∧ node.ActivePath path ∧
    ∀ position lower, node.at? position = some lower → lower.status ≠ .inactive →
      lower.status = .running

theorem Fit.onePath (h : node.Fit) : node.OnePath := by
  refine ⟨?_, ?_, ?_, ?_⟩
  · by_cases hidle : node.status = .inactive
    · exact .inl fun position lower hlower => ((h.quiet hidle).below hlower).status_eq
    · exact .inr (h.exists_path node hidle)
  · intro position lower hlower hidle path below hbelow
    exact (((h.below hlower).quiet hidle).below hbelow).status_eq
  · intro position lower current hlower hcurrent hrun
    exact (h.below hlower).running hcurrent hrun
  · intro position lower current hlower hcurrent hended child hchild
    have hrun : lower.status ≠ .running := fun hrun => by simp [hrun, Status.isTerminated] at hended
    exact ((h.below hlower).ended hcurrent hrun child hchild).status_eq

end Subtree

namespace Session

theorem Kept.runsToWait (h : session.Kept)
    (hover : session.root.evaluated.world.clock.overflowed = false)
    (hrun : session.root.evaluated.status = .running) :
    session.root.evaluated.node.RunsToWait session.root.evaluated.world.now := by
  have hticked := Tree.tick_fit _ _ session.root.world h.fit
  have houtcome : (session.root.tree.tick session.root.state session.root.world).1 = .running := by
    apply Outcome.eq_running_of_status
    exact (hticked.status hover).symm.trans hrun
  exact Subtree.Waiting.exists_path _ hticked.fit (hticked.waiting hover houtcome)

/-- In every reachable state the active nodes form one path downwards, which is empty where the root is
inactive. A tick that leaves the top node running leaves the whole path running, and at its end a wait
whose time has not passed. -/
theorem Reachable.one_active_path (htree : tree.BuiltIn) (h : Reachable tree initial session) :
    session.root.node.OnePath ∧
    (session.root.active = false → ∀ position lower,
      session.root.node.at? position = some lower → lower.status = .inactive) ∧
    (session.root.tick.world.clock.overflowed = false → session.root.tick.status = .running →
      session.root.tick.node.RunsToWait session.root.tick.world.now) := by
  have hkept := h.kept htree
  refine ⟨hkept.fit.onePath, fun hidle position lower hlower => ?_, fun hover hrun => ?_⟩
  · exact ((hkept.resting hidle).1.below hlower).status_eq
  · by_cases hactive : session.root.active = true
    · rw [session.root.tick_eq hactive] at hover hrun ⊢
      by_cases hended : session.root.status.isTerminated = true
      · rw [if_pos hended] at hover hrun ⊢
        exact hkept.released.1.kept.runsToWait hover hrun
      · rw [if_neg hended] at hover hrun ⊢
        exact hkept.runsToWait hover hrun
    · have hidle := (hkept.resting (by simpa using hactive)).1.status_eq
      rw [Root.tick, if_pos (by simpa using hactive)] at hrun
      exact absurd (hidle.symm.trans hrun) (by simp)

theorem watchman_rests :
    let session := watchman.session.calls [.start, .tick, .update 3]
    session.root.node.OnePath ∧ session.root.tick.status = .running ∧
      session.root.tick.node.RunsToWait session.root.tick.world.now := by
  intro session
  have h : session.Reachable watchman .empty := watchman.reachable.calls _
  obtain ⟨hpath, -, hwait⟩ := h.one_active_path watchman.builtIn
  have hrun : session.root.tick.status = .running := by decide
  exact ⟨hpath, hrun, hwait (by decide) hrun⟩

end Session

end BehaviorTree
