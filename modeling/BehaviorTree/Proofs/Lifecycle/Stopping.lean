import BehaviorTree.Proofs.Lifecycle.Session

namespace BehaviorTree

variable {A : Type} {tree : Tree A} {initial : Values} {session : Session A} {root : Root A}

def Event.isCallback : Event → Bool
  | .refreshed _ _ | .acted _ => true
  | _ => false

namespace World

variable {world : World A} {handles : Multiset Handle}

def callbacks (world : World A) : List Event := world.journal.filter Event.isCallback

theorem withReport_idle (world : World A) (board : Board) (report : Option KeyWarning) :
    (world.withReport board report).clock = world.clock ∧
      (world.withReport board report).callbacks = world.callbacks := by
  cases report with
  | none => exact ⟨rfl, rfl⟩
  | some warning => exact ⟨rfl, rfl⟩

theorem Holds.observers_eq_nil (h : world.Holds handles)
    (hnone : ∀ id, Handle.observer id ∉ handles) : world.board.observers = [] := by
  apply List.eq_nil_iff_forall_not_mem.mpr
  intro subscription hmem
  have hid := (Board.isSubscribed_iff world.board subscription.id).mpr ⟨subscription, hmem, rfl⟩
  exact hnone subscription.id (h.subscribed subscription.id hid)

theorem fireDue_idle (fire : TimerId → World A → Bool × World A) (limit : Duration) (fuel : Nat)
    (h : world.clock.timers = []) : fireDue fire limit fuel world = world := by
  cases fuel with
  | zero => rfl
  | succ fuel =>
    have hnone : world.clock.popDue? limit = none := by
      simp [Clock.popDue?, Clock.next?, h, Clock.earliest?]
    rw [fireDue, hnone]

theorem advance_idle (fire : TimerId → World A → Bool × World A) (dt : Duration)
    (h : world.clock.timers = []) :
    (world.advance fire dt).clock.timers = [] ∧
      (world.advance fire dt).callbacks = world.callbacks := by
  unfold advance
  dsimp only
  split
  · exact ⟨h, rfl⟩
  · rw [fireDue_idle fire _ _ h]
    exact ⟨h, rfl⟩

end World

/-- Nothing will happen on its own. -/
structure Root.Asleep (root : Root A) : Prop where
  inactive : root.active = false
  timers : root.world.clock.timers = []

namespace Root.Asleep

theorem tick_eq (h : root.Asleep) : root.tick = root := by
  rw [tick, if_pos (by simp [h.inactive])]

theorem stop_eq (h : root.Asleep) : root.stop = root := by
  rw [stop, if_pos (by simp [h.inactive])]

theorem advance (h : root.Asleep) (dt : Duration) :
    (root.advance dt).Asleep ∧ (root.advance dt).world.callbacks = root.world.callbacks := by
  obtain ⟨htimers, hcallbacks⟩ := World.advance_idle (root.tree.fire root.state) dt h.timers
  exact ⟨⟨h.inactive, htimers⟩, hcallbacks⟩

theorem call (h : root.Asleep) (call : Call A) (hcall : call ≠ .start) :
    (root.call call).Asleep ∧ (root.call call).world.callbacks = root.world.callbacks := by
  cases call with
  | start => exact absurd rfl hcall
  | tick =>
    rw [Root.call, h.tick_eq]
    exact ⟨h, rfl⟩
  | stop =>
    rw [Root.call, h.stop_eq]
    exact ⟨h, rfl⟩
  | advance dt => exact h.advance dt
  | update dt =>
    obtain ⟨hasleep, hcallbacks⟩ := h.advance dt
    rw [Root.call, update, hasleep.tick_eq]
    exact ⟨hasleep, hcallbacks⟩
  | getNumber key | getBool key =>
    obtain ⟨hclock, hcallbacks⟩ := World.withReport_idle root.world _ _
    exact ⟨⟨h.inactive, (congrArg Clock.timers hclock).trans h.timers⟩, hcallbacks⟩
  | steer _ | set _ _ | remove _ | clear | watch _ _ | unwatch _ => exact ⟨⟨h.inactive, h.timers⟩, rfl⟩

theorem calls (h : root.Asleep) (calls : List (Call A)) (hcalls : Call.start ∉ calls) :
    (root.calls calls).Asleep ∧ (root.calls calls).world.callbacks = root.world.callbacks := by
  induction calls generalizing root with
  | nil => exact ⟨h, rfl⟩
  | cons call calls ih =>
    obtain ⟨hcall, hrest⟩ := not_or.mp (mt List.mem_cons.mpr hcalls)
    obtain ⟨hasleep, hcallbacks⟩ := h.call call (Ne.symm hcall)
    obtain ⟨hend, hsame⟩ := ih hasleep hrest
    exact ⟨hend, hsame.trans hcallbacks⟩

end Root.Asleep

namespace Session

theorem Kept.holds_node (h : session.Kept) (hown : session.Unwatched) :
    session.root.world.Holds session.root.node.handles := by
  have hhold := h.holds
  refine ⟨hhold.sound, (Multiset.nodup_add.mp hhold.nodup).1, hhold.distinct, fun id => ?_, ?_, ?_⟩
  · rw [hhold.scheduled, Multiset.mem_add]
    exact or_iff_left (session.timer_not_mem_handles id)
  · intro id hid
    refine (Multiset.mem_add.mp (hhold.subscribed id hid)).resolve_right fun hmem => ?_
    obtain ⟨own, hlisted, heq⟩ := List.mem_map.mp (Multiset.mem_coe.mp hmem)
    obtain rfl := Handle.observer.inj heq
    exact Bool.false_ne_true ((hown own hlisted).symm.trans hid)
  · exact fun handle hmem => hhold.issued handle (Multiset.mem_add.mpr (.inl hmem))

theorem Kept.stop_eq (h : session.Kept) (hactive : session.root.active = true)
    (hown : session.Unwatched) :
    session.root.stop = { session.root.released with
      world := { session.root.released.world with
        board := { session.root.released.world.board.clear with values := session.root.initial } }
      active := false } := by
  obtain ⟨-, hnone, hdeals⟩ := Tree.release_quiet _ _ session.root.world h.fit
  have htrades := Tree.trades_of_deals hdeals
  rw [hnone] at htrades
  -- Without the host's handles: those name observers that left the board, and might have come back.
  have hhold : session.root.released.world.Holds 0 := by
    have hnode := h.holds_node hown
    rw [← add_zero session.root.node.handles] at hnode
    exact htrades.holds 0 hnode
  have hobservers : session.root.released.world.board.observers = [] :=
    hhold.observers_eq_nil (by simp)
  rw [session.root.stop_eq hactive, World.reset_eq _ h.released_timers, if_pos hobservers]

/-- Stopping a root takes every timer and every observer of its tree back, without complaint, makes all
nodes inactive, and puts the board back. Afterwards no callback runs until the root is started anew. -/
theorem Reachable.stop_leaves_nothing (htree : tree.BuiltIn) (h : Reachable tree initial session)
    (hactive : session.root.active = true) (hown : session.Unwatched) :
    session.root.stop.world.clock.timers = [] ∧
    session.root.stop.world.board.observers = [] ∧
    session.root.world.Logs session.root.stop.world ∧
    (∀ position node, session.root.stop.node.at? position = some node → node.status = .inactive) ∧
    session.root.stop.world.board.values = initial ∧
    ∀ calls, Call.start ∉ calls →
      (session.root.stop.calls calls).world.callbacks = session.root.stop.world.callbacks := by
  have hkept := h.kept htree
  obtain ⟨-, hquiet, -⟩ := hkept.released
  obtain ⟨-, -, hdeals⟩ := Tree.release_quiet _ _ session.root.world hkept.fit
  have htimers := hkept.released_timers
  have hstop := hkept.stop_eq hactive hown
  have hasleep : session.root.stop.Asleep := by
    rw [hstop]
    exact ⟨rfl, htimers⟩
  refine ⟨hasleep.timers, ?_, ?_, ?_, ?_, fun calls hcalls => (hasleep.calls calls hcalls).2⟩
  · rw [hstop]
    rfl
  · rw [hstop]
    exact hdeals.trades.follows.logs
  · intro position node hnode
    rw [hstop] at hnode
    exact (hquiet.below hnode).status_eq
  · rw [hstop]
    exact h.initial_eq

theorem watchman_goes_home :
    let session := watchman.session.calls [.start, .tick, .set "alarm" (.bool true), .tick]
    session.root.world.clock.timers.length = 1 ∧ session.root.world.board.observers.length = 1 ∧
      session.root.stop.world.clock.timers = [] ∧
      session.root.stop.world.board.observers = [] ∧
      session.root.world.Logs session.root.stop.world ∧
      session.root.stop.world.board.values = .empty := by
  intro session
  have h : session.Reachable watchman .empty := watchman.reachable.calls _
  have hactive : session.root.active = true := by decide
  have hown : session.Unwatched := fun id hid => by cases hid
  obtain ⟨htimers, hobservers, hlogs, -, hvalues, -⟩ :=
    h.stop_leaves_nothing watchman.builtIn hactive hown
  exact ⟨by decide, by decide, htimers, hobservers, hlogs, hvalues⟩

end Session

end BehaviorTree
