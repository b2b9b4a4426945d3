import BehaviorTree.Proofs.Time.Firing

namespace BehaviorTree

variable {A : Type}

namespace Tree

mutual

/-- The tree has no leaf that the host wrote. -/
def BuiltIn : Tree A → Prop
  | .action _ _ => True
  | .wait _ _ => True
  | .leaf _ => False
  | .sequence children => BuiltInList children
  | .selector children => BuiltInList children
  | .condition _ _ child => BuiltInOption child
  | .service _ _ _ child => BuiltInOption child

def BuiltInList : List (Tree A) → Prop
  | [] => True
  | tree :: trees => tree.BuiltIn ∧ BuiltInList trees

def BuiltInOption : Option (Tree A) → Prop
  | none => True
  | some tree => tree.BuiltIn

end

mutual

theorem fresh_quiet : (tree : Tree A) → (random : Random) → tree.BuiltIn →
    tree.Quiet (tree.fresh random).1 ∧ tree.handles (tree.fresh random).1 = 0
  | .action _ _, _, _ => ⟨rfl, rfl⟩
  | .wait _ _, _, _ => ⟨rfl, rfl⟩
  | .sequence children, random, h => by
    rw [BuiltIn] at h
    have hbelow := freshList_quiet children random h
    exact ⟨⟨rfl, hbelow.1⟩, hbelow.2⟩
  | .selector children, random, h => by
    rw [BuiltIn] at h
    have hbelow := freshList_quiet children random h
    exact ⟨⟨rfl, hbelow.1⟩, hbelow.2⟩
  | .condition _ _ child, random, h => by
    rw [BuiltIn] at h
    have hbelow := freshOption_quiet child random h
    exact ⟨⟨rfl, hbelow.1⟩, (zero_add _).trans hbelow.2⟩
  | .service _ _ _ child, random, h => by
    rw [BuiltIn] at h
    have hbelow := freshOption_quiet child random h
    exact ⟨⟨rfl, rfl, hbelow.1⟩, (zero_add _).trans hbelow.2⟩

theorem freshList_quiet : (trees : List (Tree A)) → (random : Random) → BuiltInList trees →
    QuietList trees (freshList trees random).1 ∧ handlesList trees (freshList trees random).1 = 0
  | [], _, _ => ⟨trivial, rfl⟩
  | tree :: trees, random, h => by
    rw [BuiltInList] at h
    have hfirst := fresh_quiet tree random h.1
    have hrest := freshList_quiet trees (tree.fresh random).2 h.2
    refine ⟨⟨hfirst.1, hrest.1⟩, ?_⟩
    exact (congrArg₂ (· + ·) hfirst.2 hrest.2).trans (add_zero 0)

theorem freshOption_quiet : (tree : Option (Tree A)) → (random : Random) → BuiltInOption tree →
    QuietOption tree (freshOption tree random).1 ∧ handlesOption tree (freshOption tree random).1 = 0
  | none, _, _ => ⟨trivial, rfl⟩
  | some tree, random, h => by
    rw [BuiltInOption] at h
    exact fresh_quiet tree random h

end

end Tree

namespace World

variable {world : World A} {handles : Multiset Handle}

def clear (world : World A) : World A := { world with board := world.board.clear }

/-- Subscribes an observer of the host. The agent reacts to what it is told. -/
def watch (world : World A) (key : String) (reaction : Notice → A → A) : World A :=
  let (id, world) := world.subscribe key
  { world with react := fun notice agent =>
      if notice.observer = id then reaction notice agent else world.react notice agent }

/-- The host may take observers off the board, but can neither give out nor take back an identity. -/
theorem Holds.withBoard (h : world.Holds handles) {board : Board}
    (hobservers : board.observers.Sublist world.board.observers)
    (hpending : board.pending = world.board.pending)
    (hnext : board.nextObserver = world.board.nextObserver) :
    World.Holds { world with board } handles := by
  refine ⟨⟨?_, ?_, ?_⟩, h.nodup, h.distinct, h.scheduled, ?_, ?_⟩
  · intro subscription hmem
    rw [hnext]
    exact h.sound.observers_lt subscription (hobservers.subset hmem)
  · intro i hi
    rw [hpending] at hi
    rw [hnext]
    exact h.sound.pending_lt i hi
  · exact h.sound.distinct.sublist (hobservers.map _)
  · intro id hid
    obtain ⟨subscription, hmem, heq⟩ := (Board.isSubscribed_iff board id).mp hid
    have hbefore := hobservers.subset hmem
    exact h.subscribed id ((Board.isSubscribed_iff _ id).mpr ⟨subscription, hbefore, heq⟩)
  · intro handle hmem
    have hissued := h.issued handle hmem
    cases handle with
    | timer id => exact hissued
    | observer id =>
      rw [Issued, hnext]
      exact hissued

theorem Holds.clear (h : world.Holds handles) : world.clear.Holds handles :=
  h.withBoard (List.nil_sublist _) rfl rfl

theorem Holds.unsubscribe (h : world.Holds handles) (id : ObserverId) :
    (world.unsubscribe id).2.Holds handles :=
  h.withBoard List.filter_sublist rfl rfl

theorem Holds.watch (h : world.Holds handles) (key : String) (reaction : Notice → A → A) :
    (world.watch key reaction).Holds ({.observer (world.subscribe key).1} + handles) := by
  have hold := (trades_subscribe world key).holds handles (by rwa [zero_add])
  exact ⟨hold.sound, hold.nodup, hold.distinct, hold.scheduled, hold.subscribed, hold.issued⟩

theorem holds_opened (agent : A) {board : Board} (react : Notice → A → A) (hsound : board.Sound) :
    World.Holds { agent, board, react }
      ((board.observers.map (·.id)).map Handle.observer : Multiset Handle) := by
  have hinjective : Function.Injective Handle.observer := fun _ _ h => Handle.observer.inj h
  refine ⟨hsound, ?_, List.nodup_nil, fun id => by simp [Clock.isScheduled], ?_, ?_⟩
  · exact Multiset.coe_nodup.mpr (hsound.distinct.map hinjective)
  · intro id hid
    obtain ⟨subscription, hmem, rfl⟩ := (Board.isSubscribed_iff board id).mp hid
    exact Multiset.mem_coe.mpr (List.mem_map_of_mem (List.mem_map_of_mem hmem))
  · intro handle hmem
    obtain ⟨id, hid, rfl⟩ := List.mem_map.mp (Multiset.mem_coe.mp hmem)
    obtain ⟨subscription, hsub, rfl⟩ := List.mem_map.mp hid
    exact hsound.observers_lt subscription hsub

theorem Holds.timers_eq_nil (h : world.Holds handles) (hnone : ∀ id, Handle.timer id ∉ handles) :
    world.clock.timers = [] := by
  apply List.eq_nil_iff_forall_not_mem.mpr
  intro timer hmem
  have hid := (Clock.isScheduled_iff _ _).mpr (List.mem_map_of_mem (f := (·.id)) hmem)
  exact hnone timer.id ((h.scheduled timer.id).mp hid)

/-- Without timers, a reset touches nothing but the board, and complains of observers only. -/
theorem reset_eq (values : Values) (htimers : world.clock.timers = []) :
    world.reset values =
      { (if world.board.observers = [] then world
          else world.record (.leftBehind 0 world.board.observers.length)) with
        board := { world.board.clear with values } } := by
  have hclear : world.clock.clearTimers = world.clock := by
    rw [Clock.clearTimers, ← htimers]
  unfold reset
  simp only [htimers, List.length_nil, true_and, List.length_eq_zero_iff, hclear]
  by_cases hnone : world.board.observers = []
  · rw [if_pos hnone, if_pos hnone]
  · rw [if_neg hnone, if_neg hnone]
    rfl

theorem Holds.reset (h : world.Holds handles) (hnone : ∀ id, Handle.timer id ∉ handles)
    (values : Values) : (world.reset values).Holds handles := by
  have hold : World.Holds { world with board := { world.board.clear with values } } handles :=
    h.withBoard (List.nil_sublist _) rfl rfl
  rw [reset_eq values (h.timers_eq_nil hnone)]
  split
  · exact hold
  · exact ⟨hold.sound, hold.nodup, hold.distinct, hold.scheduled, hold.subscribed, hold.issued⟩

end World

/-- What a host calls, on the root or on its board. -/
inductive Call (A : Type) where
  | start
  | tick
  | advance (dt : Duration)
  | update (dt : Duration)
  | stop
  | steer (f : A → A)
  | set (key : String) (value : Value)
  | remove (key : String)
  | getNumber (key : String)
  | getBool (key : String)
  | clear
  | watch (key : String) (reaction : Notice → A → A)
  | unwatch (id : ObserverId)

namespace Root

def call (root : Root A) : Call A → Root A
  | .start => root.start
  | .tick => root.tick
  | .advance dt => root.advance dt
  | .update dt => root.update dt
  | .stop => root.stop
  | .steer f => root.mapWorld (·.mapAgent f)
  | .set key value => root.mapWorld fun world => (world.set key value).2
  | .remove key => root.mapWorld fun world => (world.remove key).2
  | .getNumber key => root.mapWorld fun world => (world.getNumber key).2
  | .getBool key => root.mapWorld fun world => (world.getBool key).2
  | .clear => root.mapWorld World.clear
  | .watch key reaction => root.mapWorld fun world => world.watch key reaction
  | .unwatch id => root.mapWorld fun world => (world.unsubscribe id).2

def calls (root : Root A) (calls : List (Call A)) : Root A := calls.foldl call root

def node (root : Root A) : Subtree A := ⟨root.tree, root.state⟩

/-- The root that wraps a tree without faults. -/
def opened (tree : Tree A) (board : Board) (agent : A) (react : Notice → A → A) (random : Random) :
    Root A :=
  ⟨tree, (tree.fresh random).1, { agent, board, react }, board.values, false⟩

/-- Whether a tree is found fit to run does not depend on the board, nor on the agent. -/
theorem withBoard_eq_ok {tree : Tree A} {board : Board} {agent : A} {react : Notice → A → A}
    {random : Random} {root : Root A} :
    withBoard tree board agent react random = .ok root ↔
      (tree.checkOutsideSelector = .ok () ∧ tree.validate = .ok ()) ∧
        root = opened tree board agent react random := by
  unfold withBoard
  cases tree.checkOutsideSelector with
  | error fault => simp [bind, Except.bind]
  | ok _ =>
    cases tree.validate with
    | error fault => simp [bind, Except.bind]
    | ok _ => simp [bind, Except.bind, pure, Except.pure, opened, eq_comm]

theorem tick_plan (root : Root A) :
    root.tick.tree = root.tree ∧ root.tick.initial = root.initial := by
  unfold tick
  split <;> exact ⟨rfl, rfl⟩

theorem call_plan (root : Root A) (call : Call A) :
    (root.call call).tree = root.tree ∧ (root.call call).initial = root.initial := by
  cases call with
  | start =>
    simp only [Root.call, start]
    split <;> exact ⟨rfl, rfl⟩
  | stop =>
    simp only [Root.call, stop]
    split <;> exact ⟨rfl, rfl⟩
  | tick => exact root.tick_plan
  | update dt => exact (root.advance dt).tick_plan
  | advance _ | steer _ | set _ _ | remove _ | getNumber _ | getBool _ | clear | watch _ _
  | unwatch _ => exact ⟨rfl, rfl⟩

/-- The root once its tree has let go of all that it holds. -/
def released (root : Root A) : Root A :=
  { root with
    state := (root.tree.release root.state root.world).1
    world := (root.tree.release root.state root.world).2 }

def evaluated (root : Root A) : Root A :=
  { root with
    state := (root.tree.tick root.state root.world).2.1
    world := (root.tree.tick root.state root.world).2.2 }

theorem tick_eq (root : Root A) (hactive : root.active = true) :
    root.tick = (if root.status.isTerminated then root.released else root).evaluated := by
  unfold tick
  rw [if_neg (by simp [hactive])]
  by_cases hended : root.status.isTerminated = true
  · rw [if_pos hended, if_pos hended]
    rfl
  · rw [if_neg hended, if_neg hended]
    rfl

theorem stop_eq (root : Root A) (hactive : root.active = true) :
    root.stop =
      { root.released with world := root.released.world.reset root.initial, active := false } := by
  unfold stop
  rw [if_neg (by simp [hactive])]
  rfl

end Root

/-- A root, and the observers that its host has subscribed so far. -/
structure Session (A : Type) where
  root : Root A
  own : List ObserverId

namespace Session

def call (session : Session A) (call : Call A) : Session A :=
  ⟨session.root.call call, match call with
    | .watch key _ => (session.root.world.subscribe key).1 :: session.own
    | _ => session.own⟩

def calls (session : Session A) (calls : List (Call A)) : Session A := calls.foldl call session

theorem calls_root (session : Session A) (calls : List (Call A)) :
    (session.calls calls).root = session.root.calls calls := by
  induction calls generalizing session with
  | nil => rfl
  | cons call calls ih => exact ih (session.call call)

/-- The sessions that begin with a board of the host's making, which holds the given values, and a tree
that is found fit to run. -/
inductive Reachable (tree : Tree A) (initial : Values) : Session A → Prop where
  | opened {board : Board} {agent : A} {react : Notice → A → A} {random : Random} {root : Root A} :
    board.Sound → board.values = initial →
    (∀ notice agent, board.isSubscribed notice.observer = false → react notice agent = agent) →
    Root.withBoard tree board agent react random = .ok root →
    Reachable tree initial ⟨root, board.observers.map (·.id)⟩
  | called {session : Session A} (call : Call A) :
    Reachable tree initial session → Reachable tree initial (session.call call)

/-- None of the observers on the board is the host's own. -/
def Unwatched (session : Session A) : Prop :=
  ∀ id ∈ session.own, session.root.world.board.isSubscribed id = false

def handles (session : Session A) : Multiset Handle := session.own.map Handle.observer

/-- What every call keeps. -/
structure Kept (session : Session A) : Prop where
  fit : session.root.node.Fit
  holds : session.root.world.Holds (session.root.node.handles + session.handles)
  resting : session.root.active = false →
    session.root.node.Quiet ∧ session.root.node.handles = 0
  /-- The agent reacts to nothing but what observers of the host are told. -/
  silent : ∀ notice agent, notice.observer ∉ session.own →
    session.root.world.react notice agent = agent
  owned : ∀ id, Event.unownedTimer id ∉ session.root.world.journal

/-- A call may lead from the one session to the other. An overflow is never forgotten. -/
structure Leads (before after : Session A) : Prop where
  kept : after.Kept
  overflowed : before.root.world.clock.overflowed = true →
    after.root.world.clock.overflowed = true

variable {tree : Tree A} {initial : Values} {session before middle after : Session A} {root : Root A}

theorem timer_not_mem_handles (session : Session A) (id : TimerId) :
    Handle.timer id ∉ session.handles := by
  simp [handles]

theorem Leads.trans (h : before.Leads middle) (k : middle.Leads after) : before.Leads after :=
  ⟨k.kept, k.overflowed ∘ h.overflowed⟩

theorem Leads.fine (h : before.Leads after) (hfine : after.root.world.clock.overflowed = false) :
    before.root.world.clock.overflowed = false :=
  Bool.eq_false_iff.mpr fun hpast => Bool.false_ne_true (hfine.symm.trans (h.overflowed hpast))

namespace Kept

theorem leads (h : session.Kept) : session.Leads session := ⟨h, id⟩

theorem of_follows (h : session.Kept) (hfit : root.node.Fit)
    (hfollows : session.root.world.Follows root.world)
    (hholds : root.world.Holds (root.node.handles + session.handles))
    (hresting : root.active = false → root.node.Quiet ∧ root.node.handles = 0) :
    session.Leads ⟨root, session.own⟩ := by
  refine ⟨⟨hfit, hholds, hresting, ?_, ?_⟩, hfollows.overflowed⟩
  · intro notice agent hown
    rw [hfollows.react_eq]
    exact h.silent notice agent hown
  · intro id hmem
    obtain ⟨entries, hjournal, hloss⟩ := hfollows.logs
    rw [hjournal] at hmem
    obtain hmem | hmem := List.mem_append.mp hmem
    · cases hloss _ hmem
    · exact h.owned id hmem

theorem start (h : session.Kept) : session.Leads ⟨session.root.start, session.own⟩ := by
  unfold Root.start
  split
  · exact h.leads
  · obtain ⟨hfit, hdeals⟩ := Tree.start_fit _ _ session.root.world h.fit
    have htrades := Tree.trades_of_deals hdeals
    exact h.of_follows hfit htrades.follows (htrades.holds _ h.holds) (nomatch ·)

theorem released (h : session.Kept) : session.Leads ⟨session.root.released, session.own⟩ ∧
    session.root.released.node.Quiet ∧ session.root.released.node.handles = 0 := by
  obtain ⟨hquiet, hnone, hdeals⟩ := Tree.release_quiet _ _ session.root.world h.fit
  have htrades := Tree.trades_of_deals hdeals
  have hhold := htrades.holds _ h.holds
  exact ⟨h.of_follows hquiet.fit htrades.follows hhold fun _ => ⟨hquiet, hnone⟩, hquiet, hnone⟩

theorem evaluated (h : session.Kept) (hactive : session.root.active = true) :
    session.Leads ⟨session.root.evaluated, session.own⟩ := by
  obtain ⟨hfit, hdeals, -, -⟩ := Tree.tick_fit _ _ session.root.world h.fit
  have htrades := Tree.trades_of_deals hdeals
  exact h.of_follows hfit htrades.follows (htrades.holds _ h.holds)
    fun hidle => absurd (hactive.symm.trans hidle) (by simp)

theorem tick (h : session.Kept) : session.Leads ⟨session.root.tick, session.own⟩ := by
  by_cases hactive : session.root.active = true
  · rw [session.root.tick_eq hactive]
    split
    · have hreleased := h.released.1
      exact hreleased.trans (hreleased.kept.evaluated hactive)
    · exact h.evaluated hactive
  · rw [Root.tick, if_pos (by simpa using hactive)]
    exact h.leads

theorem advance (h : session.Kept) (dt : Duration) :
    session.Leads ⟨session.root.advance dt, session.own⟩ := by
  obtain ⟨hhold, hfollows⟩ := h.holds.advance h.fit session.timer_not_mem_handles dt
  exact h.of_follows h.fit hfollows hhold h.resting

theorem released_timers (h : session.Kept) : session.root.released.world.clock.timers = [] := by
  obtain ⟨hreleased, -, hnone⟩ := h.released
  apply hreleased.kept.holds.timers_eq_nil
  intro id hmem
  rw [hnone, zero_add] at hmem
  exact session.timer_not_mem_handles id hmem

theorem stop (h : session.Kept) : session.Leads ⟨session.root.stop, session.own⟩ := by
  by_cases hactive : session.root.active = true
  · obtain ⟨hreleased, hquiet, hnone⟩ := h.released
    have hhold : session.root.released.world.Holds session.handles := by
      have hall := hreleased.kept.holds
      rwa [hnone, zero_add] at hall
    have hreset : (session.root.released.world.reset session.root.initial).Holds
        (session.root.released.node.handles + session.handles) := by
      rw [hnone, zero_add]
      exact hhold.reset session.timer_not_mem_handles session.root.initial
    rw [session.root.stop_eq hactive]
    rw [World.reset_eq _ h.released_timers] at hreset ⊢
    -- A reset may complain of observers, but it loses no timer.
    refine hreleased.trans ⟨⟨hreleased.kept.fit, hreset, fun _ => ⟨hquiet, hnone⟩, ?_, ?_⟩, ?_⟩
    · split <;> exact hreleased.kept.silent
    · split
      · exact hreleased.kept.owned
      · intro id hmem
        obtain hmem | hmem := List.mem_cons.mp hmem
        · cases hmem
        · exact hreleased.kept.owned id hmem
    · split <;> exact id
  · rw [Root.stop, if_pos (by simpa using hactive)]
    exact h.leads

theorem of_trades (h : session.Kept) (f : World A → World A)
    (htrades : session.root.world.Trades (f session.root.world) session.root.node.handles
      session.root.node.handles) : session.Leads ⟨session.root.mapWorld f, session.own⟩ :=
  h.of_follows h.fit htrades.follows (htrades.holds _ h.holds) h.resting

theorem clear (h : session.Kept) : session.Leads ⟨session.root.mapWorld World.clear, session.own⟩ :=
  ⟨⟨h.fit, h.holds.clear, h.resting, h.silent, h.owned⟩, id⟩

theorem unwatch (h : session.Kept) (id : ObserverId) :
    session.Leads ⟨session.root.mapWorld fun world => (world.unsubscribe id).2, session.own⟩ :=
  ⟨⟨h.fit, h.holds.unsubscribe id, h.resting, h.silent, h.owned⟩, fun hover => hover⟩

theorem watch (h : session.Kept) (key : String) (reaction : Notice → A → A) :
    session.Leads ⟨session.root.mapWorld fun world => world.watch key reaction,
      (session.root.world.subscribe key).1 :: session.own⟩ := by
  refine ⟨⟨h.fit, ?_, h.resting, ?_, h.owned⟩, id⟩
  · have hhold := h.holds.watch key reaction
    rw [add_left_comm] at hhold
    exact hhold
  · intro notice agent hown
    obtain ⟨hnew, hold⟩ := not_or.mp (mt List.mem_cons.mpr hown)
    exact (if_neg hnew).trans (h.silent notice agent hold)

theorem call (h : session.Kept) (call : Call A) : session.Leads (session.call call) := by
  cases call with
  | start => exact h.start
  | tick => exact h.tick
  | advance dt => exact h.advance dt
  | update dt =>
    have hadvanced := h.advance dt
    exact hadvanced.trans hadvanced.kept.tick
  | stop => exact h.stop
  | steer f => exact h.of_trades (·.mapAgent f) (World.trades_mapAgent _ f)
  | set key value =>
    exact h.of_trades (fun world => (world.set key value).2) (World.trades_set _ key value)
  | remove key =>
    exact h.of_trades (fun world => (world.remove key).2) (World.trades_remove _ key)
  | getNumber key =>
    exact h.of_trades (fun world => (world.getNumber key).2) (World.trades_getNumber _ key)
  | getBool key =>
    exact h.of_trades (fun world => (world.getBool key).2) (World.trades_getBool _ key)
  | clear => exact h.clear
  | watch key reaction => exact h.watch key reaction
  | unwatch id => exact h.unwatch id

theorem calls (h : session.Kept) (calls : List (Call A)) : session.Leads (session.calls calls) := by
  induction calls generalizing session with
  | nil => exact h.leads
  | cons call calls ih =>
    have hcall := h.call call
    exact hcall.trans (ih hcall.kept)

end Kept

namespace Reachable

theorem kept (htree : tree.BuiltIn) (h : Reachable tree initial session) : session.Kept := by
  induction h with
  | called call _ ih => exact (ih.call call).kept
  | @opened board agent react random root hsound _ hsilent hroot =>
    obtain ⟨-, rfl⟩ := Root.withBoard_eq_ok.mp hroot
    obtain ⟨hquiet, hnone⟩ := Tree.fresh_quiet tree random htree
    refine ⟨hquiet.fit, ?_, fun _ => ⟨hquiet, hnone⟩, ?_, fun id => List.not_mem_nil⟩
    · have hhold := World.holds_opened agent react hsound
      rw [← zero_add (Multiset.ofList _), ← hnone] at hhold
      exact hhold
    · intro notice agent hown
      apply hsilent
      rw [← Bool.not_eq_true, Board.isSubscribed_iff]
      rintro ⟨subscription, hmem, heq⟩
      exact hown (List.mem_map.mpr ⟨subscription, hmem, heq⟩)

theorem tree_eq (h : Reachable tree initial session) : session.root.tree = tree := by
  induction h with
  | opened _ _ _ hroot =>
    obtain ⟨-, rfl⟩ := Root.withBoard_eq_ok.mp hroot
    rfl
  | called call _ ih => exact (Root.call_plan _ call).1.trans ih

theorem initial_eq (h : Reachable tree initial session) : session.root.initial = initial := by
  induction h with
  | opened _ hvalues _ hroot =>
    obtain ⟨-, rfl⟩ := Root.withBoard_eq_ok.mp hroot
    exact hvalues
  | called call _ ih => exact (Root.call_plan _ call).2.trans ih

theorem create_eq (h : Reachable tree initial session) (agent : A) (react : Notice → A → A)
    (random : Random) (values : Values) :
    Root.create tree values agent react random =
      .ok (Root.opened tree (.ofValues values) agent react random) := by
  induction h with
  | opened _ _ _ hroot =>
    obtain ⟨hfit, -⟩ := Root.withBoard_eq_ok.mp hroot
    exact Root.withBoard_eq_ok.mpr ⟨hfit, rfl⟩
  | called _ _ ih => exact ih

theorem calls (h : Reachable tree initial session) (calls : List (Call A)) :
    Reachable tree initial (session.calls calls) := by
  induction calls generalizing session with
  | nil => exact h
  | cons call calls ih => exact ih (h.called call)

end Reachable

end Session

/-- Looks around every two nanoseconds while the alarm is set, and else rests. -/
def watchman : Tree Nat :=
  .selector [
    .condition ⟨"alarm", .isSet, .bool true⟩ .immediateRestart
      (some (.service "look around" 2 (.act (· + 1) .done) (some (.wait 10 0)))),
    .wait 5 0]

namespace watchman

def session : Session Nat :=
  ⟨⟨watchman, (watchman.fresh (.ofSeed 0)).1, { agent := 0 }, .empty, false⟩, []⟩

theorem builtIn : watchman.BuiltIn := ⟨trivial, trivial, trivial⟩

theorem withBoard_eq : Root.withBoard watchman {} 0 = .ok session.root := rfl

theorem reachable : session.Reachable watchman .empty :=
  .opened (Board.sound_ofValues .empty) rfl (fun _ _ _ => rfl) withBoard_eq

end watchman

end BehaviorTree
