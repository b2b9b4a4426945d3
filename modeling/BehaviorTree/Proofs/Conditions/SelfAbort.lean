import BehaviorTree.Proofs.Lifecycle.Visits
import BehaviorTree.Proofs.Conditions.Watching

namespace BehaviorTree

variable {A : Type}

namespace World

def judged (world : World A) (observer : Option ObserverId) (holds : Bool) : World A :=
  match observer with
  | none => world
  | some id => world.record (.judged id holds)

/-- The world as a condition with this policy has it whose flag is down. -/
def unflagged (world : World A) (policy : RestartPolicy) (observer : Option ObserverId) : World A :=
  match observer with
  | none => world
  | some id => if policy.abortsSelf then world.acknowledge id else world

end World

namespace Tree

/-- One evaluation of a running condition that has no flag. Where its policy aborts, it evaluates its
guard each time, and gives up without ticking the child where the guard does not hold. Where it does not,
it just ticks the child. -/
def tickUnflagged (guard : Guard) (policy : RestartPolicy) (child : Option (Tree A))
    (state : (Tree.condition guard policy child).State) (world : World A) :
    Outcome × (Tree.condition guard policy child).State × World A :=
  let (goesOn, world) := if policy.abortsSelf then world.evaluate guard else (true, world)
  if goesOn then
    let (outcome, child, world) := tickOption child state.child world
    (outcome, { state with status := outcome.status, child }, world)
  else
    let (child, world) := stopOption child state.child (world.judged state.observer false)
    (.fail, { state with status := .failed, child }, world)

theorem stoppedHolding_eq_breaks {world : World A} {guard : Guard} {id : ObserverId}
    (h : world.Watches guard .running id) :
    world.stoppedHolding guard (some id) = (world.acknowledge id).breaks guard id := by
  unfold World.stoppedHolding
  dsimp only
  split
  · rfl
  · rename_i hup
    have hdown := Bool.eq_false_iff.mpr hup
    rw [World.acknowledge_of_not_pending hdown, World.breaks_of_holds (h.holds_of_running hdown)]

theorem tick_unflagged (guard : Guard) (policy : RestartPolicy) (child : Option (Tree A))
    (state : (Tree.condition guard policy child).State) (world : World A)
    (hrun : state.status = .running)
    (h : Keeper.Watchful world (.condition guard policy state.status state.observer)) :
    (Tree.condition guard policy child).tick state world =
      tickUnflagged guard policy child state (world.unflagged policy state.observer) := by
  obtain ⟨id, hobserver⟩ := Option.ne_none_iff_exists'.mp (h.1 (by simp [hrun]))
  have hwatches := h.2 id hobserver
  rw [hrun] at hwatches
  have hstart : (Tree.condition guard policy child).start state world = (state, world) := by
    rw [start, if_pos (by simp [hrun])]
  have hgoing : state.status.outcome? = none := by
    rw [hrun]
    rfl
  rw [tick_condition guard policy child state world hstart Prod.mk.eta.symm, hgoing, hobserver,
    stoppedHolding_eq_breaks hwatches, World.unflagged, tickUnflagged, hobserver]
  cases policy.abortsSelf with
  | false => rfl
  | true =>
    rw [if_pos rfl, if_pos rfl, if_pos rfl, World.breaks]
    rcases (world.acknowledge id).evaluate guard with ⟨holds, evaluated⟩
    cases holds <;> rfl

end Tree

namespace Session

variable {tree : Tree A} {initial : Values} {session : Session A}

/-- The flag of a running condition changes nothing but the number of looks at its guard: ticking the
condition has the outcome, and leaves the state and the world, that a condition without a flag would have
and leave. This holds in each state that a host can come to that does not take the observers off the
board, and for each running condition whose turn it is in a tick from there. -/
theorem Undisturbed.ticks_unflagged (htree : tree.BuiltIn) (h : Undisturbed tree initial session)
    (guard : Guard) (policy : RestartPolicy) (child : Option (Tree A))
    (state : (Tree.condition guard policy child).State) (hrun : state.status = .running) :
    (∀ position, session.root.node.at? position = some ⟨.condition guard policy child, state⟩ →
      (Tree.condition guard policy child).tick state session.root.world =
        Tree.tickUnflagged guard policy child state
          (session.root.world.unflagged policy state.observer)) ∧
    ∀ world, ⟨⟨.condition guard policy child, state⟩, world⟩ ∈ session.root.visits →
      (Tree.condition guard policy child).tick state world =
        Tree.tickUnflagged guard policy child state (world.unflagged policy state.observer) := by
  refine ⟨fun position hposition => ?_, fun world hvisit => ?_⟩
  · have hkeeper := Multiset.mem_of_le (Subtree.keepers_below hposition) (Subtree.keeper?_mem rfl)
    exact Tree.tick_unflagged guard policy child state session.root.world hrun
      (h.obeys Keeper.lasts_watchful htree _ hkeeper)
  · exact Tree.tick_unflagged guard policy child state world hrun
      (h.visits_obey Keeper.lasts_watchful htree hvisit _ (Subtree.keeper?_mem rfl))

theorem watchman_gives_up :
    let session := watchman.session.calls
      [.start, .set "alarm" (.bool true), .tick, .remove "alarm"]
    let guard : Guard := ⟨"alarm", .isSet, .bool true⟩
    let child : Tree Nat := .service "look around" 2 (.act (· + 1) .done) (some (.wait 10 0))
    ∃ state : (Tree.condition guard .immediateRestart (some child)).State,
      session.root.node.at? [0] = some ⟨.condition guard .immediateRestart (some child), state⟩ ∧
      state.status = .running ∧ session.root.world.board.isPending ⟨0⟩ = true ∧
      (Tree.condition guard .immediateRestart (some child)).tick state session.root.world =
        Tree.tickUnflagged guard .immediateRestart (some child) state
          (session.root.world.unflagged .immediateRestart state.observer) := by
  intro session guard child
  have h : session.Undisturbed watchman .empty :=
    watchman.undisturbed.calls _ (by simp [Call.Spares])
  exact ⟨_, rfl, rfl, by decide,
    (h.ticks_unflagged watchman.builtIn guard .immediateRestart (some child) _ rfl).1 [0] rfl⟩

end Session

end BehaviorTree
