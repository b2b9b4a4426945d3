import BehaviorTree.Proofs.Time.Refreshes

namespace BehaviorTree

namespace Tree

variable {A : Type}

theorem andThen_eq_ok {E : Type} {first second : Except E Unit} :
    (do first; second) = .ok () ↔ first = .ok () ∧ second = .ok () := by
  cases first with
  | error fault => simp [bind, Except.bind]
  | ok done => simp [bind, Except.bind]

theorem validate_ofList {trees : List (Tree A)} {states : StateList trees}
    (h : validateList trees = .ok ()) :
    ∀ child ∈ Subtree.ofList trees states, child.tree.validate = .ok () := by
  induction trees with
  | nil => simp [Subtree.ofList]
  | cons tree trees ih =>
    rw [validateList, andThen_eq_ok] at h
    exact List.forall_mem_cons.mpr ⟨h.1, ih h.2⟩

theorem validateList_of_outside {trees : List (Tree A)} (h : validateOutside trees = .ok ()) :
    validateList trees = .ok () := by
  induction trees with
  | nil => rfl
  | cons tree trees ih =>
    rw [validateOutside, andThen_eq_ok, andThen_eq_ok] at h
    rw [validateList, andThen_eq_ok]
    exact ⟨h.2.1, ih h.2.2⟩

end Tree

namespace Subtree

variable {A : Type} {node lower : Subtree A} {position : List Nat} {interval : Duration}

def interval? : Subtree A → Option Duration
  | ⟨.service _ interval _ _, _⟩ => some interval
  | _ => none

theorem validate_child (h : node.tree.validate = .ok ()) :
    ∀ child ∈ node.children, child.tree.validate = .ok () := by
  obtain ⟨tree, state⟩ := node
  cases tree with
  | action _ _ | wait _ _ | leaf _ => simp [children]
  | sequence trees => exact Tree.validate_ofList (Tree.validateList_of_outside h)
  | selector trees => exact Tree.validate_ofList h
  | condition guard policy tree =>
    cases tree with
    | none => simp [children, ofOption]
    | some tree =>
      have hbelow := (Tree.andThen_eq_ok.mp h).2
      exact List.forall_mem_singleton.mpr (Tree.andThen_eq_ok.mp hbelow).2
  | service label interval callback tree =>
    cases tree with
    | none => simp [children, ofOption]
    | some tree =>
      have hbelow : (if interval = 0 then .error (.zeroInterval label) else tree.validate) =
          Except.ok () := h
      split at hbelow
      · cases hbelow
      · exact List.forall_mem_singleton.mpr hbelow

theorem keeper?_service {id : TimerId} (htimer : node.timer? = some id)
    (hinterval : node.interval? = some interval) :
    ∃ status, node.keeper? = some (.service interval status (some id)) := by
  obtain ⟨tree, state⟩ := node
  cases tree with
  | action _ _ | wait _ _ | leaf _ | sequence _ | selector _ | condition _ _ _ => cases htimer
  | service label own callback tree =>
    cases hinterval
    refine ⟨state.status, ?_⟩
    rw [keeper?, show state.timer = some id from htimer]

theorem exists_interval {id : TimerId} (htimer : node.timer? = some id) :
    ∃ interval, node.interval? = some interval := by
  obtain ⟨tree, state⟩ := node
  cases tree with
  | action _ _ | wait _ _ | leaf _ | sequence _ | selector _ | condition _ _ _ => cases htimer
  | service label interval callback tree => exact ⟨interval, rfl⟩

theorem interval_pos (h : node.tree.validate = .ok ()) (hlower : node.at? position = some lower)
    (hinterval : lower.interval? = some interval) : 0 < interval := by
  have hvalid : lower.tree.validate = .ok () :=
    hand_down (motive := fun node => node.tree.validate = .ok ()) (fun _ => validate_child) h hlower
  obtain ⟨tree, state⟩ := lower
  cases tree with
  | action _ _ | wait _ _ | leaf _ | sequence _ | selector _ | condition _ _ _ => cases hinterval
  | service label interval callback tree =>
    cases hinterval
    refine Nat.pos_of_ne_zero fun hzero => ?_
    rw [Tree.validate.eq_def] at hvalid
    dsimp only at hvalid
    rw [if_pos hzero] at hvalid
    cases hvalid

end Subtree

/-- The timer that a service keeps runs with the interval of the service. -/
def Keeper.Timed {A : Type} (world : World A) : Keeper → Prop
  | .condition _ _ _ _ => True
  | .service interval _ timer => ∀ id, timer = some id → world.clock.Runs id (max interval 1)

theorem Keeper.lasts_timed {A : Type} : Keeper.Lasts (A := A) Keeper.Timed := by
  refine ⟨fun hstep htimed => ?_, fun huntouched htimed => ?_, fun _ _ _ => trivial,
    fun _ _ _ h => nomatch h⟩
  · cases hstep with
    | begin | beginBare | check | finish | stop | unwatch | ask => exact trivial
    | serve => exact htimed
    | cancel => exact fun _ h => nomatch h
    | schedule interval callback =>
      rintro id heq
      cases heq
      refine ⟨_, List.mem_append_right _ (List.mem_singleton_self _), ?_, rfl⟩
      exact congrArg (TimerId.mk ·.nextTimer) (World.clock_refresh _ _ _)
  · rename_i keeper
    cases keeper with
    | condition => exact trivial
    | service interval status timer =>
      rintro id rfl
      exact huntouched (.timer id) (Multiset.mem_singleton_self _) _ (htimed id rfl)

theorem Call.time_cases {A : Type} (call : Call A) :
    (∃ dt, call = .advance dt) ∨ (∃ dt, call = .update dt) ∨
      ∀ dt, call ≠ .advance dt ∧ call ≠ .update dt := by
  cases call with
  | advance dt => exact .inl ⟨dt, rfl⟩
  | update dt => exact .inr (.inl ⟨dt, rfl⟩)
  | start | tick | stop | steer _ | set _ _ | remove _ | getNumber _ | getBool _ | clear | watch _ _
  | unwatch _ => exact .inr (.inr fun _ => ⟨nofun, nofun⟩)

namespace Session

variable {A : Type} {tree : Tree A} {initial : Values} {session : Session A} {P : World A → Prop}

/-- All timers have fired on time, and none is left behind. -/
def Punctual (session : Session A) : Prop := session.root.world.OnTime ∧ session.root.world.Ahead

namespace Kept

theorem released_steady (h : session.Kept) (hP : World.Steady P) (hsession : P session.root.world) :
    P session.root.released.world :=
  hP.deals (Tree.release_quiet _ _ session.root.world h.fit).2.2 hsession

theorem evaluated_steady (h : session.Kept) (hP : World.Steady P) (hsession : P session.root.world) :
    P session.root.evaluated.world :=
  hP.deals (Tree.tick_fit _ _ session.root.world h.fit).deals hsession

theorem start_steady (h : session.Kept) (hP : World.Steady P) (hsession : P session.root.world) :
    P session.root.start.world := by
  unfold Root.start
  split
  · exact hsession
  · exact hP.deals (Tree.start_fit _ _ session.root.world h.fit).2 hsession

theorem tick_steady (h : session.Kept) (hP : World.Steady P) (hsession : P session.root.world) :
    P session.root.tick.world := by
  by_cases hactive : session.root.active = true
  · rw [session.root.tick_eq hactive]
    split
    · exact h.released.1.kept.evaluated_steady hP (h.released_steady hP hsession)
    · exact h.evaluated_steady hP hsession
  · rw [Root.tick, if_pos (by simpa using hactive)]
    exact hsession

theorem stop_steady (h : session.Kept) (hP : World.Steady P) (hsession : P session.root.world) :
    P session.root.stop.world := by
  by_cases hactive : session.root.active = true
  · have hreleased := h.released_steady hP hsession
    rw [session.root.stop_eq hactive, World.reset_eq _ h.released_timers]
    split
    · exact hP.timeless (World.timeless_withBoard _ _) hreleased
    · have hlogged := World.timeless_record session.root.released.world
        (.leftBehind 0 session.root.released.world.board.observers.length) fun _ => rfl
      exact hP.timeless (hlogged.trans (World.timeless_withBoard _ _)) hreleased
  · rw [Root.stop, if_pos (by simpa using hactive)]
    exact hsession

/-- No call but those that move time forward does more to the timers than begin and end services. -/
theorem call_steady (h : session.Kept) (hP : World.Steady P) (hsession : P session.root.world)
    (call : Call A) (hcall : ∀ dt, call ≠ .advance dt ∧ call ≠ .update dt) :
    P (session.call call).root.world := by
  cases call with
  | start => exact h.start_steady hP hsession
  | tick => exact h.tick_steady hP hsession
  | advance dt => exact absurd rfl (hcall dt).1
  | update dt => exact absurd rfl (hcall dt).2
  | stop => exact h.stop_steady hP hsession
  | steer f => exact hP.timeless (World.writes_mapAgent _ f).timeless hsession
  | set key value => exact hP.timeless (World.writes_set _ key value).timeless hsession
  | remove key => exact hP.timeless (World.writes_remove _ key).timeless hsession
  | getNumber key => exact hP.timeless (World.writes_getNumber _ key).timeless hsession
  | getBool key => exact hP.timeless (World.writes_getBool _ key).timeless hsession
  | clear => exact hP.timeless (World.timeless_withBoard _ _) hsession
  | watch key reaction =>
    have hwatched : session.root.world.Timeless (session.root.world.watch key reaction) :=
      ⟨rfl, rfl, rfl, fun _ => rfl⟩
    exact hP.timeless hwatched hsession
  | unwatch id => exact hP.timeless (World.timeless_withBoard _ _) hsession

theorem advance_punctual (h : session.Kept) (hpunctual : session.Punctual) (dt : Duration)
    (hover : (session.root.advance dt).world.clock.overflowed = false) :
    Punctual ⟨session.root.advance dt, session.own⟩ ∧
      (session.root.advance dt).world.clock.nextTimer = session.root.world.clock.nextTimer := by
  obtain ⟨honTime, hahead, hnext⟩ := h.holds.advance_onTime h.fit session.timer_not_mem_handles
    hpunctual.1 hpunctual.2 dt hover
  exact ⟨⟨honTime, hahead⟩, hnext⟩

theorem advance_fine (h : session.Kept) (dt : Duration)
    (hover : (session.root.update dt).world.clock.overflowed = false) :
    (session.root.advance dt).world.clock.overflowed = false :=
  Bool.eq_false_iff.mpr fun hpast =>
    Bool.false_ne_true (hover.symm.trans ((h.advance dt).kept.tick.overflowed hpast))

theorem call_punctual (h : session.Kept) (hpunctual : session.Punctual) (call : Call A)
    (hover : (session.call call).root.world.clock.overflowed = false) :
    (session.call call).Punctual := by
  obtain ⟨dt, rfl⟩ | ⟨dt, rfl⟩ | hcall := call.time_cases
  · exact (h.advance_punctual hpunctual dt hover).1
  · have hadvanced := h.advance_punctual hpunctual dt (h.advance_fine dt hover)
    exact (h.advance dt).kept.tick_steady World.steady_onTime hadvanced.1
  · exact h.call_steady World.steady_onTime hpunctual call hcall

/-- A service that begins in a call begins at the time at which the call ends. -/
theorem call_begun (h : session.Kept) (hpunctual : session.Punctual) (call : Call A)
    (hover : (session.call call).root.world.clock.overflowed = false) {id : TimerId}
    (hnew : session.root.world.clock.nextTimer ≤ id.index) :
    ∀ run ∈ (session.call call).root.world.refreshes id,
      run = (session.call call).root.world.now := by
  have hnone {world : World A} (honTime : world.OnTime)
      (hnext : world.clock.nextTimer = session.root.world.clock.nextTimer) :
      world.now = world.now ∧ ∀ run ∈ world.refreshes id, run = world.now := by
    rw [honTime.unborn id (by rw [hnext]; exact hnew)]
    exact ⟨rfl, List.forall_mem_nil _⟩
  obtain ⟨dt, rfl⟩ | ⟨dt, rfl⟩ | hcall := call.time_cases
  · obtain ⟨hadvanced, hnext⟩ := h.advance_punctual hpunctual dt hover
    exact (hnone hadvanced.1 hnext).2
  · obtain ⟨hadvanced, hnext⟩ := h.advance_punctual hpunctual dt (h.advance_fine dt hover)
    obtain ⟨hnow, hruns⟩ := (h.advance dt).kept.tick_steady (World.steady_begun id _)
      (hnone hadvanced.1 hnext)
    exact fun run hmem => (hruns run hmem).trans hnow.symm
  · obtain ⟨hnow, hruns⟩ := h.call_steady (World.steady_begun id _) (hnone hpunctual.1 rfl) call hcall
    exact fun run hmem => (hruns run hmem).trans hnow.symm

theorem call_refreshes (h : session.Kept) (call : Call A) (id : TimerId) :
    session.root.world.refreshes id <+: (session.call call).root.world.refreshes id := by
  have hadvance (dt : Duration) : session.root.world.refreshes id <+:
      (session.root.advance dt).world.refreshes id :=
    (h.holds.advance h.fit session.timer_not_mem_handles dt).2.logs.refreshes id
  have hsteady := World.steady_refreshes (A := A) (session.root.world.refreshes id) id
  obtain ⟨dt, rfl⟩ | ⟨dt, rfl⟩ | hcall := call.time_cases
  · exact hadvance dt
  · exact (h.advance dt).kept.tick_steady hsteady (hadvance dt)
  · exact h.call_steady hsteady List.prefix_rfl call hcall

theorem calls_refreshes (h : session.Kept) (calls : List (Call A)) (id : TimerId) :
    session.root.world.refreshes id <+: (session.calls calls).root.world.refreshes id := by
  induction calls generalizing session with
  | nil => exact List.prefix_rfl
  | cons call calls ih => exact (h.call_refreshes call id).trans (ih (h.call call).kept)

end Kept

namespace Reachable

theorem punctual (htree : tree.BuiltIn) (h : Reachable tree initial session)
    (hover : session.root.world.clock.overflowed = false) : session.Punctual := by
  induction h with
  | opened _ _ _ hroot =>
    obtain ⟨-, rfl⟩ := Root.withBoard_eq_ok.mp hroot
    have hnone {timer : Timer} (h : timer ∈ ([] : List Timer)) : False := nomatch h
    exact ⟨⟨fun _ hmem => (hnone hmem).elim, fun _ hmem => (hnone hmem).elim, fun _ _ => rfl⟩,
      fun _ hmem => (hnone hmem).elim⟩
  | called call h ih =>
    have hkept := h.kept htree
    exact hkept.call_punctual (ih ((hkept.call call).fine hover)) call hover

theorem timed (htree : tree.BuiltIn) (h : Reachable tree initial session) :
    session.Obeys Keeper.Timed := by
  induction h with
  | opened _ _ _ hroot =>
    exact satisfies_opened (fun random world =>
      Tree.fresh_obeys Keeper.lasts_timed world tree random htree) hroot _
  | @called session call h ih =>
    have hboard (board : Board) : ∀ keeper ∈ session.root.node.keepers,
        Keeper.Timed { session.root.world with board } keeper := by
      intro keeper hmem
      have htimed := ih keeper hmem
      cases keeper with
      | condition | service => exact htimed
    have hspared := (h.kept htree).satisfies_call (Tree.persists_obeys Keeper.lasts_timed) ih call
    cases call with
    | clear | unwatch _ => exact hboard _
    | start | tick | advance _ | update _ | stop | steer _ | set _ _ | remove _ | getNumber _
    | getBool _ | watch _ _ => exact hspared trivial

theorem validate (h : Reachable tree initial session) : session.root.tree.validate = .ok () := by
  rw [h.tree_eq]
  induction h with
  | opened _ _ _ hroot => exact (Root.withBoard_eq_ok.mp hroot).1.2
  | called _ _ ih => exact ih

/-- The callback of an active service has run at all instants up to now that lie whole intervals after
the first run. -/
theorem paced (htree : tree.BuiltIn) (h : Reachable tree initial session)
    (hover : session.root.world.clock.overflowed = false) {position : List Nat} {service : Subtree A}
    {id : TimerId} {interval : Duration} (hservice : session.root.node.at? position = some service)
    (htimer : service.timer? = some id) (hinterval : service.interval? = some interval) :
    ∃ begun, session.root.world.refreshes id =
      (List.range ((session.root.world.now - begun) / interval + 1)).map
        fun k => begun + k * interval := by
  obtain ⟨status, hkeeper⟩ := Subtree.keeper?_service htimer hinterval
  have hbelow := Multiset.mem_of_le (Subtree.keepers_below hservice) (Subtree.keeper?_mem hkeeper)
  have htimed := h.timed htree _ hbelow id rfl
  have hvalid : session.root.node.tree.validate = .ok () := h.validate
  have hpos := Subtree.interval_pos hvalid hservice hinterval
  rw [Nat.max_eq_left hpos] at htimed
  obtain ⟨timer, hmem, rfl, rfl⟩ := htimed
  obtain ⟨honTime, hahead⟩ := h.punctual htree hover
  obtain ⟨begun, count, hpaced⟩ := honTime.paced timer hmem
  exact ⟨begun, hpaced.refreshes_of_ahead (hahead timer hmem)⟩

/-- While a service is active its callback runs when it begins, and then at each instant that lies a
whole number of intervals later, once each and in the order of time: whatever calls the host makes, and
however it splits the time among them. The journal tells of just these runs. The service begins in `call`,
which gives the timer out, and the `calls` may be any after which it still keeps it. -/
theorem cadence (htree : tree.BuiltIn) (h : Reachable tree initial session) (call : Call A)
    (calls : List (Call A)) {position : List Nat} {first last : Subtree A} {id : TimerId}
    {interval : Duration} (hnew : session.root.world.clock.nextTimer ≤ id.index)
    (hfirst : (session.call call).root.node.at? position = some first)
    (hbegun : first.timer? = some id)
    (hlast : ((session.call call).calls calls).root.node.at? position = some last)
    (hkeeps : last.timer? = some id) (hinterval : last.interval? = some interval)
    (hover : ((session.call call).calls calls).root.world.clock.overflowed = false) :
    ((session.call call).calls calls).root.world.refreshes id =
        Refresh.instants id (session.root.allRefreshes (call :: calls)) ∧
      Refresh.instants id (session.root.allRefreshes (call :: calls)) =
        (List.range ((((session.call call).calls calls).root.world.now -
          (session.call call).root.world.now) / interval + 1)).map
          fun k => (session.call call).root.world.now + k * interval := by
  have hcalled := h.called call
  have hfine : (session.call call).root.world.clock.overflowed = false :=
    Bool.eq_false_iff.mpr fun hpast => Bool.false_ne_true
      (hover.symm.trans (((hcalled.kept htree).calls calls).overflowed hpast))
  have hbefore : session.root.world.clock.overflowed = false :=
    Bool.eq_false_iff.mpr fun hpast => Bool.false_ne_true
      (hfine.symm.trans (((h.kept htree).call call).overflowed hpast))
  obtain ⟨begun, hruns⟩ := (hcalled.calls calls).paced htree hover hlast hkeeps hinterval
  -- The first run is known from the call in which the service began.
  obtain ⟨own, hown⟩ := Subtree.exists_interval hbegun
  obtain ⟨started, hstarted⟩ := hcalled.paced htree hfine hfirst hbegun hown
  have hpunctual := h.punctual htree hbefore
  have hnow := (h.kept htree).call_begun hpunctual call hfine hnew
  have hprefix := (hcalled.kept htree).calls_refreshes calls id
  have hhead : started = (session.call call).root.world.now := by
    apply hnow
    rw [hstarted]
    exact List.mem_map.mpr ⟨0, List.mem_range.mpr (Nat.succ_pos _), by simp⟩
  have hsame : begun = started := by
    obtain ⟨rest, hrest⟩ := hprefix
    have hfirstRun := congrArg List.head? hrest
    rw [hstarted, hruns] at hfirstRun
    simpa [List.range_succ_eq_map] using hfirstRun.symm
  -- The timer is new, so the journal told of no run before.
  have hjournal := session.root.calls_journal (h.tree_eq ▸ htree) (call :: calls) id
  rw [hpunctual.1.unborn id hnew, List.nil_append] at hjournal
  have hrefreshes : ((session.call call).calls calls).root.world.refreshes id =
      Refresh.instants id (session.root.allRefreshes (call :: calls)) := by
    rw [calls_root]
    exact hjournal
  exact ⟨hrefreshes, by rw [← hrefreshes, hruns, hsame, hhead]⟩

theorem watchman_keeps_time :
    let session := watchman.session.calls [.start, .advance 3, .set "alarm" (.bool true)]
    let later := (session.call .tick).calls [.advance 3, .tick, .update 1, .advance 1]
    (session.call .tick).root.world.now = 3 ∧ later.root.world.now = 8 ∧
      Refresh.instants ⟨0⟩ (session.root.allRefreshes
        [.tick, .advance 3, .tick, .update 1, .advance 1]) = [3, 5, 7] ∧
      later.root.world.refreshes ⟨0⟩ = [3, 5, 7] := by
  intro session later
  have h : session.Reachable watchman .empty := watchman.reachable.calls _
  obtain ⟨first, hfirst, hbegun⟩ := Option.bind_eq_some_iff.mp (show
    ((session.call .tick).root.node.at? [0, 0]).bind Subtree.timer? = some ⟨0⟩ by decide)
  obtain ⟨last, hlast, hservice⟩ := Option.bind_eq_some_iff.mp (show
    (later.root.node.at? [0, 0]).bind (fun service => service.timer?.bind fun id =>
      service.interval?.map (id, ·)) = some (⟨0⟩, 2) by decide)
  obtain ⟨id, hkeeps, hpair⟩ := Option.bind_eq_some_iff.mp hservice
  obtain ⟨interval, hinterval, heq⟩ := Option.map_eq_some_iff.mp hpair
  cases heq
  obtain ⟨hjournal, hruns⟩ := h.cadence watchman.builtIn .tick [.advance 3, .tick, .update 1, .advance 1]
    (by decide) hfirst hbegun hlast hkeeps hinterval (by decide)
  have hfrom : (session.call .tick).root.world.now = 3 := by decide
  have huntil : later.root.world.now = 8 := by decide
  rw [hfrom, show ((session.call .tick).calls _).root.world.now = 8 from huntil] at hruns
  have hinstants := hruns.trans (show _ = [3, 5, 7] by decide)
  exact ⟨hfrom, huntil, hinstants, hjournal.trans hinstants⟩

end Reachable

end Session

end BehaviorTree
