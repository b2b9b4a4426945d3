import BehaviorTree.Proofs.Restart.AlikeStates

namespace BehaviorTree

variable {A : Type} {shift : Shift}

namespace World.Alike

variable {early late : World A} {fire fire' : TimerId → World A → Bool × World A}

theorem dispatch (h : early.Alike shift late)
    (hfire : ∀ id {world later : World A}, world.Alike shift later →
      (fire' (shift.timer id) later).1 = (fire id world).1 ∧
        (fire id world).2.Alike shift (fire' (shift.timer id) later).2) (id : TimerId) :
    (World.dispatch fire id early).Alike shift (World.dispatch fire' (shift.timer id) late) := by
  obtain ⟨howned, hfired⟩ := hfire id h
  unfold World.dispatch
  dsimp only
  rw [howned]
  split
  · exact hfired
  · exact (hfired.record (.unownedTimer id)).cancel id

theorem fireDue (h : early.Alike shift late)
    (hfire : ∀ id {world later : World A}, world.Alike shift later →
      (fire' (shift.timer id) later).1 = (fire id world).1 ∧
        (fire id world).2.Alike shift (fire' (shift.timer id) later).2) (limit : Duration) (fuel : Nat)
    (hover : (World.fireDue fire' (limit + shift.time) fuel late).clock.overflowed = false) :
    (World.fireDue fire limit fuel early).Alike shift
      (World.fireDue fire' (limit + shift.time) fuel late) := by
  induction fuel generalizing early late with
  | zero => exact h
  | succ fuel ih =>
    rw [World.fireDue] at hover
    rw [World.fireDue, World.fireDue]
    obtain ⟨hnone, hnone'⟩ | ⟨id, clock, clock', hpop, hpop', hclock⟩ := h.clock.popDue? limit
    · rw [hnone, hnone']
      exact h
    · rw [hpop'] at hover
      rw [hpop, hpop']
      dsimp only at hover ⊢
      by_cases hlate : clock'.overflowed = true
      · rw [if_pos hlate] at hover
        exact absurd hover (by simp [hlate])
      · -- The later clock overflows first, so here neither has.
        have hearly : ¬clock.overflowed = true := fun hlong => hlate (hclock.overflowed hlong)
        rw [if_neg hlate] at hover
        rw [if_neg hearly, if_neg hlate]
        exact ih ((h.withClock hclock).dispatch hfire id) hover

theorem advance (h : early.Alike shift late)
    (hfire : ∀ id {world later : World A}, world.Alike shift later →
      (fire' (shift.timer id) later).1 = (fire id world).1 ∧
        (fire id world).2.Alike shift (fire' (shift.timer id) later).2) (dt : Duration)
    (hover : (World.advance fire' dt late).clock.overflowed = false) :
    (World.advance fire dt early).Alike shift (World.advance fire' dt late) := by
  have hlimit : late.now + dt = early.now + dt + shift.time := by
    rw [h.now_eq]
    exact Nat.add_right_comm _ _ _
  unfold World.advance at hover ⊢
  dsimp only at hover ⊢
  rw [hlimit, h.clock.firings_eq] at hover ⊢
  by_cases hlate : Duration.longest < early.now + dt + shift.time
  · rw [if_pos hlate] at hover
    cases hover
  · have hearly : ¬Duration.longest < early.now + dt := fun hlong =>
      hlate (Nat.lt_of_lt_of_le hlong (Nat.le_add_right _ _))
    rw [if_neg hlate] at hover
    rw [if_neg hearly, if_neg hlate]
    have hfired := h.fireDue hfire (early.now + dt) _ hover
    exact hfired.withClock (hfired.clock.moveTo _)

end World.Alike

/-- Two roots with one tree that go on alike. -/
inductive Root.Alike (shift : Shift) : Root A → Root A → Prop where
  | intro {tree : Tree A} {early late : tree.State} {world later : World A} {initial : Values}
    {active : Bool} : tree.Alike shift early late → world.Alike shift later →
    Alike shift ⟨tree, early, world, initial, active⟩ ⟨tree, late, later, initial, active⟩

/-- Calls that leave it to the tree who watches the board. -/
def Call.Unwatching : Call A → Prop
  | .watch _ _ | .unwatch _ => False
  | _ => True

namespace Root.Alike

variable {early late : Root A}

theorem start (h : Root.Alike shift early late) : Root.Alike shift early.start late.start := by
  obtain ⟨hstate, hworld⟩ := h
  unfold Root.start
  dsimp only
  split
  · exact ⟨hstate, hworld⟩
  · have hstarted := Tree.start_alike _ _ _ hstate hworld
    exact ⟨hstarted.state, hstarted.world⟩

theorem released (h : Root.Alike shift early late) :
    Root.Alike shift early.released late.released := by
  obtain ⟨hstate, hworld⟩ := h
  have hreleased := Tree.release_alike _ _ _ hstate hworld
  exact ⟨hreleased.state, hreleased.world⟩

theorem evaluated (h : Root.Alike shift early late) :
    Root.Alike shift early.evaluated late.evaluated := by
  obtain ⟨hstate, hworld⟩ := h
  have hticked := (Tree.tick_alike _ _ _ hstate hworld).2
  exact ⟨hticked.state, hticked.world⟩

theorem status_eq (h : Root.Alike shift early late) : late.status = early.status := by
  obtain ⟨hstate, -⟩ := h
  exact hstate.status_eq

theorem active_eq (h : Root.Alike shift early late) : late.active = early.active := by
  obtain ⟨-, -⟩ := h
  rfl

theorem tick (h : Root.Alike shift early late) : Root.Alike shift early.tick late.tick := by
  by_cases hactive : early.active = true
  · rw [early.tick_eq hactive, late.tick_eq (h.active_eq.trans hactive), h.status_eq]
    split
    · exact h.released.evaluated
    · exact h.evaluated
  · rw [Root.tick, Root.tick, if_pos (by simpa using hactive),
      if_pos (by simpa [h.active_eq] using hactive)]
    exact h

theorem advance (h : Root.Alike shift early late) (dt : Duration)
    (hover : (late.advance dt).world.clock.overflowed = false) :
    Root.Alike shift (early.advance dt) (late.advance dt) := by
  obtain ⟨hstate, hworld⟩ := h
  exact ⟨hstate, hworld.advance (fun id _ _ hat => Tree.fire_alike _ _ _ id hstate hat) dt hover⟩

theorem stop (h : Root.Alike shift early late) : Root.Alike shift early.stop late.stop := by
  obtain ⟨hstate, hworld⟩ := h
  unfold Root.stop
  dsimp only
  split
  · exact ⟨hstate, hworld⟩
  · have hreleased := Tree.release_alike _ _ _ hstate hworld
    exact ⟨hreleased.state, hreleased.world.reset _⟩

theorem mapWorld (h : Root.Alike shift early late) {f g : World A → World A}
    (hmap : ∀ {world later : World A}, world.Alike shift later → (f world).Alike shift (g later)) :
    Root.Alike shift (early.mapWorld f) (late.mapWorld g) := by
  obtain ⟨hstate, hworld⟩ := h
  exact ⟨hstate, hmap hworld⟩

theorem call (h : Root.Alike shift early late) (call : Call A) (hcall : call.Unwatching)
    (hover : (late.call call).world.clock.overflowed = false)
    (hsticky : ∀ dt, (late.advance dt).world.clock.overflowed = true →
      (late.update dt).world.clock.overflowed = true) :
    Root.Alike shift (early.call call) (late.call call) := by
  cases call with
  | start => exact h.start
  | tick => exact h.tick
  | advance dt => exact h.advance dt hover
  | update dt =>
    refine (h.advance dt ?_).tick
    by_contra hlong
    exact Bool.false_ne_true (hover.symm.trans (hsticky dt (by simpa using hlong)))
  | stop => exact h.stop
  | steer f => exact h.mapWorld fun hworld => hworld.mapAgent f
  | set key value => exact h.mapWorld fun hworld => (hworld.set key value).2
  | remove key => exact h.mapWorld fun hworld => (hworld.remove key).2
  | getNumber key => exact h.mapWorld fun hworld => (hworld.getNumber key).2
  | getBool key => exact h.mapWorld fun hworld => (hworld.getBool key).2
  | clear => exact h.mapWorld fun hworld => hworld.clear
  | watch _ _ | unwatch _ => exact hcall.elim

end Root.Alike

namespace Subtree

def statusAt? (node : Subtree A) (position : List Nat) : Option Status :=
  (node.at? position).map status

inductive Alike (shift : Shift) : Subtree A → Subtree A → Prop where
  | intro {tree : Tree A} {early late : tree.State} : tree.Alike shift early late →
    Alike shift ⟨tree, early⟩ ⟨tree, late⟩

namespace Alike

variable {early late : Subtree A}

theorem status_eq (h : Subtree.Alike shift early late) : late.status = early.status := by
  obtain ⟨hstate⟩ := h
  exact hstate.status_eq

theorem ofList {trees : List (Tree A)} {early late : Tree.StateList trees}
    (h : Tree.AlikeList shift trees early late) (i : Nat) :
    Option.Rel (Subtree.Alike shift) (ofList trees early)[i]? (ofList trees late)[i]? := by
  induction trees generalizing i with
  | nil => exact .none
  | cons tree trees ih =>
    cases i with
    | zero => exact .some ⟨h.1⟩
    | succ i => exact ih h.2 i

theorem ofOption {tree : Option (Tree A)} {early late : Tree.StateOption tree}
    (h : Tree.AlikeOption shift tree early late) (i : Nat) :
    Option.Rel (Subtree.Alike shift) (ofOption tree early)[i]? (ofOption tree late)[i]? := by
  cases tree with
  | none => exact .none
  | some tree =>
    cases i with
    | zero => exact .some ⟨h⟩
    | succ i => exact .none

theorem children (h : Subtree.Alike shift early late) (i : Nat) :
    Option.Rel (Subtree.Alike shift) early.children[i]? late.children[i]? := by
  obtain @⟨tree, early, late, hstate⟩ := h
  cases tree with
  | action _ _ | wait _ _ | leaf _ => exact .none
  | sequence _ | selector _ => exact Alike.ofList (CompositeState.Alike.children hstate) i
  | condition _ _ _ | service _ _ _ _ => exact Alike.ofOption hstate.2.2 i

theorem statusAt?_eq (h : Subtree.Alike shift early late) (position : List Nat) :
    late.statusAt? position = early.statusAt? position := by
  induction position generalizing early late with
  | nil => exact congrArg some h.status_eq
  | cons i position ih =>
    have hchild := h.children i
    simp only [statusAt?, at?] at ih ⊢
    generalize early.children[i]? = first at hchild ⊢
    generalize late.children[i]? = second at hchild ⊢
    cases hchild with
    | none => rfl
    | some hchild => exact ih hchild

end Alike

end Subtree

/-- The later root shows its host the same as the earlier one, but for the shift. What the journal says
in addition is the same as well, the warnings and the callbacks among it. -/
structure Root.Repeats (shift : Shift) (early late : Root A) : Prop where
  agent_eq : late.world.agent = early.world.agent
  active_eq : late.active = early.active
  status_eq : ∀ position, late.node.statusAt? position = early.node.statusAt? position
  values_eq : late.world.board.values = early.world.board.values
  journal_eq : late.world.journal = early.world.journal.map shift.event ++ shift.past
  timers_eq : late.world.clock.timers.length = early.world.clock.timers.length
  observers_eq : late.world.board.observers.length = early.world.board.observers.length
  now_eq : late.world.now = early.world.now + shift.time

theorem Root.Alike.repeats {early late : Root A} (h : Root.Alike shift early late) :
    Root.Repeats shift early late := by
  obtain ⟨hstate, hworld⟩ := h
  refine ⟨hworld.agent_eq, rfl, (Subtree.Alike.intro hstate).statusAt?_eq, hworld.board.values_eq,
    hworld.journal_eq, ?_, ?_, hworld.now_eq⟩
  · rw [hworld.clock.timers_eq, List.length_map]
  · rw [hworld.board.observers_eq, List.length_map]

/-- How far a world is ahead of a new one. -/
def Shift.upTo (world : World A) : Shift :=
  ⟨world.now, world.clock.nextTimer, world.board.nextObserver, world.journal⟩

theorem World.alike_new {world : World A} (hsound : world.board.Sound)
    (hwarned : world.board.warned = []) (hobservers : world.board.observers = [])
    (htimers : world.clock.timers = [])
    (hsilent : ∀ notice agent, world.board.nextObserver ≤ notice.observer.index →
      world.react notice agent = agent) :
    World.Alike (.upTo world) { agent := world.agent, board := .ofValues world.board.values }
      world := by
  have hclock : Clock.Alike (.upTo world) {} world.clock :=
    ⟨(Nat.zero_add _).symm, htimers, (Nat.zero_add _).symm, nofun⟩
  refine ⟨rfl, ⟨rfl, hwarned, hobservers, (Nat.zero_add _).symm, fun i => ?_⟩, hclock, rfl,
    fun _ _ => rfl, fun notice agent => hsilent _ agent (Nat.le_add_left _ _)⟩
  have hbound := hsound.pending_lt (i + world.board.nextObserver)
  cases hraised : world.board.pending.isRaised (i + world.board.nextObserver) with
  | false => exact hraised.trans (Flags.isRaised_none i).symm
  | true => exact absurd (hbound hraised) (by omega)

namespace Session

variable {tree : Tree A} {initial : Values} {session : Session A}

theorem Kept.calls_alike (h : session.Kept) {early : Root A}
    (halike : Root.Alike shift early session.root) (calls : List (Call A))
    (hcalls : ∀ call ∈ calls, call.Unwatching)
    (hover : (session.calls calls).root.world.clock.overflowed = false) :
    Root.Alike shift (early.calls calls) (session.calls calls).root := by
  induction calls generalizing session early with
  | nil => exact halike
  | cons call calls ih =>
    obtain ⟨hcall, hrest⟩ := List.forall_mem_cons.mp hcalls
    have hled := h.call call
    -- An overflow on the way would still show at the end.
    have hfits : (session.call call).root.world.clock.overflowed = false := by
      by_contra hlong
      have hend := (hled.kept.calls calls).overflowed (by simpa using hlong)
      exact Bool.false_ne_true (hover.symm.trans hend)
    have hnext : Root.Alike shift (early.call call) (session.call call).root :=
      halike.call call hcall hfits fun dt => (h.advance dt).kept.tick.overflowed
    exact ih hled.kept hnext hrest hover

/-- A root that was stopped is like a new one with the same tree and the same values. -/
theorem Kept.stop_alike (h : session.Kept) (htree : session.root.tree.Deterministic)
    (hactive : session.root.active = true) (hown : session.Unwatched) (random : Random) :
    Root.Alike (.upTo session.root.stop.world)
      ⟨session.root.tree, (session.root.tree.fresh random).1,
        { agent := session.root.stop.world.agent, board := .ofValues session.root.initial },
        session.root.initial, false⟩
      session.root.stop := by
  have hkept := h.stop.kept
  have hsilent : ∀ notice agent,
      session.root.stop.world.board.nextObserver ≤ notice.observer.index →
        session.root.stop.world.react notice agent = agent := by
    intro notice agent hnew
    apply hkept.silent
    -- The host's observers were given out before, so they are not among the new ones.
    intro hmem
    have hold := hkept.holds.issued (.observer notice.observer)
      (Multiset.mem_add.mpr (.inr (Multiset.mem_coe.mpr (List.mem_map_of_mem hmem))))
    exact Nat.not_lt_of_le hnew hold
  have hsound := hkept.holds.sound
  obtain ⟨hquiet, hnone⟩ := hkept.resting (by rw [h.stop_eq hactive hown])
  obtain ⟨hfresh, hfresh'⟩ := Tree.fresh_quiet _ random (Tree.Deterministic.builtIn _ htree)
  dsimp only at hsound hquiet hnone
  rw [h.stop_eq hactive hown] at hsilent hsound hquiet hnone ⊢
  exact ⟨Tree.alike_of_quiet _ _ _ htree hfresh hfresh' hquiet hnone,
    World.alike_new hsound rfl rfl h.released_timers hsilent⟩

/-- From the moment it is stopped, a root shows its host what a new root with the same tree, the same
values and the same agent would show: whatever the host calls, as long as it puts no observers of its own
on the board and the clock does not come to the longest duration. -/
theorem Reachable.restart (htree : tree.Deterministic) (h : Reachable tree initial session)
    (hactive : session.root.active = true) (hown : session.Unwatched) (random : Random) :
    ∃ fresh, Root.create tree initial session.root.stop.world.agent (fun _ agent => agent) random =
        .ok fresh ∧
      ∀ calls, (∀ call ∈ calls, call.Unwatching) →
        (session.root.stop.calls calls).world.clock.overflowed = false →
        Root.Repeats (.upTo session.root.stop.world) (fresh.calls calls)
          (session.root.stop.calls calls) := by
  have hkept := h.kept (Tree.Deterministic.builtIn tree htree)
  obtain rfl := h.tree_eq
  obtain rfl := h.initial_eq
  refine ⟨_, h.create_eq _ _ random _, fun calls hcalls hover => ?_⟩
  have halike := hkept.stop_alike htree hactive hown random
  have hroot := calls_root ⟨session.root.stop, session.own⟩ calls
  rw [← hroot] at hover ⊢
  exact (hkept.stop.kept.calls_alike halike calls hcalls hover).repeats

theorem watchman_starts_over :
    let session := watchman.session.calls [.start, .set "alarm" (.bool true), .tick, .advance 3]
    let calls := [.start, .set "alarm" (.bool true), .tick, .advance 5]
    session.root.stop.world.now = 3 ∧ (session.root.stop.calls calls).world.agent = 5 ∧
      ∃ fresh, Root.create watchman .empty session.root.stop.world.agent = .ok fresh ∧
        Root.Repeats (.upTo session.root.stop.world) (fresh.calls calls)
          (session.root.stop.calls calls) := by
  intro session calls
  have h : session.Reachable watchman .empty := watchman.reachable.calls _
  have htree : watchman.Deterministic := ⟨rfl, rfl, trivial⟩
  have hactive : session.root.active = true := by decide
  have hown : session.Unwatched := fun id hid => by cases hid
  obtain ⟨fresh, hfresh, hrepeats⟩ := h.restart htree hactive hown (.ofSeed 0)
  have hcalls : ∀ call ∈ calls, call.Unwatching := by simp [calls, Call.Unwatching]
  have hover : (session.root.stop.calls calls).world.clock.overflowed = false := by decide +kernel
  exact ⟨by decide +kernel, by decide +kernel, fresh, hfresh, hrepeats calls hcalls hover⟩

end Session

end BehaviorTree
