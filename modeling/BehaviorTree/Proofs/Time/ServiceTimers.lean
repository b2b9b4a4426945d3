import BehaviorTree.Proofs.Lifecycle.Session

namespace BehaviorTree

variable {A : Type} {tree : Tree A} {initial : Values} {session : Session A}

/-- A service below the node, or the node itself, that is active and keeps the timer. -/
structure Subtree.Service (node : Subtree A) (id : TimerId) (position : List Nat)
    (callback : Routine A) (service : Subtree A) : Prop where
  found : node.at? position = some service
  active : service.status ≠ .inactive
  timer : service.timer? = some id
  callback : service.callback? = some callback

/-- The timers of a world are those of the active services of a tree. -/
structure World.TimersOf (world : World A) (node : Subtree A) : Prop where
  distinct : (world.clock.timers.map (·.id)).Nodup
  scheduled : ∀ id, world.clock.isScheduled id = true ↔
    ∃ position callback service, node.Service id position callback service
  kept : ∀ position service, node.at? position = some service → service.callback? ≠ none →
    (service.timer? ≠ none ↔ service.status ≠ .inactive)
  unique : ∀ position path left right id, node.at? position = some left →
    node.at? path = some right → left.timer? = some id → right.timer? = some id → position = path

theorem World.Holds.timersOf {world : World A} {node : Subtree A} {others : Multiset Handle}
    (h : world.Holds (node.handles + others)) (hfit : node.Fit)
    (hothers : ∀ id, Handle.timer id ∉ others) : world.TimersOf node := by
  refine ⟨h.distinct, fun id => ⟨fun hid => ?_, ?_⟩, ?_, ?_⟩
  · obtain ⟨position, service, callback, hfound, hactive, htimer, hcallback, -⟩ :=
      h.owner hfit hothers hid
    exact ⟨position, callback, service, hfound, hactive, htimer, hcallback⟩
  · rintro ⟨position, callback, service, hservice⟩
    apply (h.scheduled id).mpr
    exact Multiset.mem_add.mpr (.inl (Subtree.timer_mem_handles hservice.found hservice.timer))
  · intro position service hfound hcallback
    exact (hfit.below hfound).timer?_ne_none hcallback
  · intro position path left right id hleft hright htimer hsame
    have hnodup := (Multiset.nodup_add.mp h.nodup).1
    exact Subtree.timer_position_unique hnodup hleft hright htimer hsame

/-- Timers and active services correspond one to one, also on the way while time moves forward. Each
timer that falls due then is the one of an active service, which accepts it and runs its callback. So
no timer is ever found without an owner. -/
theorem Session.Reachable.timers_of_services (htree : tree.BuiltIn)
    (h : Session.Reachable tree initial session) :
    session.root.world.TimersOf session.root.node ∧
    (∀ limit world, World.Passes session.root.node.fire limit session.root.world world →
      world.TimersOf session.root.node ∧
      ∀ id clock, world.clock.popDue? limit = some (id, clock) →
        ∃ position callback service, session.root.node.Service id position callback service ∧
          session.root.node.fire id { world with clock } =
            (true, World.refresh { world with clock } id callback)) ∧
    ∀ id, Event.unownedTimer id ∉ session.root.world.journal := by
  have hkept := h.kept htree
  have hothers := session.timer_not_mem_handles
  refine ⟨hkept.holds.timersOf hkept.fit hothers, fun limit world hpass => ?_, hkept.owned⟩
  obtain ⟨hhold, -⟩ := hkept.holds.passes hkept.fit hothers hpass
  refine ⟨hhold.timersOf hkept.fit hothers, fun id clock hpop => ?_⟩
  obtain ⟨position, service, callback, hfound, hactive, htimer, hcallback, -, hfire⟩ :=
    hhold.owner hkept.fit hothers (Clock.popped hpop).scheduled
  exact ⟨position, callback, service, ⟨hfound, hactive, htimer, hcallback⟩, hfire _⟩

theorem watchman_timer :
    let session := watchman.session.calls [.start, .tick, .set "alarm" (.bool true), .tick]
    session.root.world.clock.timers.map (·.id) = [⟨0⟩] ∧
      session.root.world.TimersOf session.root.node ∧
      ∀ id, Event.unownedTimer id ∉ session.root.world.journal := by
  intro session
  have h : session.Reachable watchman .empty := watchman.reachable.calls _
  obtain ⟨htimers, -, howned⟩ := h.timers_of_services watchman.builtIn
  exact ⟨by decide, htimers, howned⟩

end BehaviorTree
