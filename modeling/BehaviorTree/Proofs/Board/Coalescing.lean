import BehaviorTree.Proofs.Lifecycle.Session

namespace BehaviorTree

variable {A : Type}

inductive Write where
  | set (key : String) (value : Value)
  | remove (key : String)

namespace Write

def key : Write → String
  | .set key _ | .remove key => key

def call : Write → Call A
  | .set key value => .set key value
  | .remove key => .remove key

end Write

namespace Board

/-- Writes to the board. The first answer is whether the stored value changed. -/
def write (board : Board) : Write → Bool × Board × List Notice
  | .set key value => board.set key value
  | .remove key => ((board.remove key).1.isSome, (board.remove key).2)

theorem write_eq (board : Board) (write : Write) :
    board.write write = (false, board, []) ∨
      ∃ new, board.write write = (true, board.replace write.key new) := by
  cases write with
  | set key value =>
    rw [Board.write, set]
    split
    · exact .inl rfl
    · exact .inr ⟨some value, rfl⟩
  | remove key =>
    rw [Board.write, remove]
    split
    · exact .inl rfl
    · exact .inr ⟨none, rfl⟩

end Board

/-- Between the two boards values were written, and changes were reported at the keys. Who watches such a
key has the flag up, and the boards agree on everything but flags and values. -/
structure Board.Wrote (before after : Board) (keys : List String) : Prop where
  observers_eq : after.observers = before.observers
  nextObserver_eq : after.nextObserver = before.nextObserver
  warned_eq : after.warned = before.warned
  pending : ∀ i, after.pending.isRaised i = true ↔ before.pending.isRaised i = true ∨
    ∃ subscription ∈ before.observers, subscription.key ∈ keys ∧ subscription.id.index = i

namespace Board

variable {before middle after left right : Board} {keys more : List String}

theorem Wrote.refl (board : Board) : board.Wrote board [] :=
  ⟨rfl, rfl, rfl, fun _ => ⟨.inl, fun h => h.resolve_right fun ⟨_, _, hkey, _⟩ => nomatch hkey⟩⟩

theorem Wrote.trans (h : before.Wrote middle keys) (k : middle.Wrote after more) :
    before.Wrote after (keys ++ more) := by
  refine ⟨k.observers_eq.trans h.observers_eq, k.nextObserver_eq.trans h.nextObserver_eq,
    k.warned_eq.trans h.warned_eq, fun i => ?_⟩
  rw [k.pending, h.pending, h.observers_eq, or_assoc]
  refine or_congr_right ⟨?_, ?_⟩
  · rintro (⟨subscription, hmem, hkey, hindex⟩ | ⟨subscription, hmem, hkey, hindex⟩)
    · exact ⟨subscription, hmem, List.mem_append_left _ hkey, hindex⟩
    · exact ⟨subscription, hmem, List.mem_append_right _ hkey, hindex⟩
  · rintro ⟨subscription, hmem, hkey, hindex⟩
    obtain hkey | hkey := List.mem_append.mp hkey
    · exact .inl ⟨subscription, hmem, hkey, hindex⟩
    · exact .inr ⟨subscription, hmem, hkey, hindex⟩

theorem wrote_replace (board : Board) (key : String) (new : Option Value) :
    board.Wrote (board.replace key new).1 [key] := by
  refine ⟨rfl, rfl, rfl, fun i => (isRaised_raiseAll _ _ i).trans (or_congr_right ⟨?_, ?_⟩)⟩
  · rintro ⟨id, hid, hindex⟩
    obtain ⟨subscription, hmem, rfl⟩ := List.mem_map.mp hid
    obtain ⟨hmem, hkey⟩ := List.mem_filter.mp hmem
    exact ⟨subscription, hmem, List.mem_singleton.mpr (of_decide_eq_true hkey), hindex⟩
  · rintro ⟨subscription, hmem, hkey, hindex⟩
    have htold : subscription ∈ board.observers.filter (·.key = key) :=
      List.mem_filter.mpr ⟨hmem, decide_eq_true (List.mem_singleton.mp hkey)⟩
    exact ⟨subscription.id, List.mem_map_of_mem htold, hindex⟩

theorem Wrote.unique (h : before.Wrote left keys) (k : before.Wrote right more)
    (hkeys : ∀ subscription ∈ before.observers, subscription.key ∈ keys ↔ subscription.key ∈ more)
    (hvalues : left.values = right.values) : left = right := by
  have hpending : left.pending = right.pending := by
    refine Flags.ext_isRaised fun i => Bool.eq_iff_iff.mpr ?_
    rw [h.pending, k.pending]
    refine or_congr_right (exists_congr fun subscription => and_congr_right fun hmem => ?_)
    rw [hkeys subscription hmem]
  have hobservers := h.observers_eq.trans k.observers_eq.symm
  have hnext := h.nextObserver_eq.trans k.nextObserver_eq.symm
  have hwarned := h.warned_eq.trans k.warned_eq.symm
  cases left
  cases right
  cases hvalues
  cases hobservers
  cases hpending
  cases hnext
  cases hwarned
  rfl

end Board

/-- No observer on the board matters to the agent. -/
def World.Unheeded (world : World A) : Prop :=
  ∀ notice agent, world.board.isSubscribed notice.observer = true → world.react notice agent = agent

theorem World.Unheeded.withNotices {world : World A} (h : world.Unheeded) (key : String)
    (new : Option Value) :
    world.withNotices (world.board.replace key new).1 (world.board.replace key new).2 =
      { world with board := (world.board.replace key new).1 } := by
  have hsilent : ∀ (ids : List ObserverId) (agent : A),
      (∀ id ∈ ids, world.board.isSubscribed id = true) →
      (ids.map fun id => (⟨id, key, world.board.get? key, new⟩ : Notice)).foldl
        (fun agent notice => world.react notice agent) agent = agent := by
    intro ids agent hids
    induction ids with
    | nil => rfl
    | cons id ids ih =>
      obtain ⟨hfirst, hrest⟩ := List.forall_mem_cons.mp hids
      rw [List.map_cons, List.foldl_cons, h _ _ hfirst, ih hrest]
  have htold : ∀ id ∈ world.board.observersOf key, world.board.isSubscribed id = true := by
    intro id hid
    obtain ⟨subscription, hmem, rfl⟩ := List.mem_map.mp hid
    exact (Board.isSubscribed_iff _ _).mpr ⟨subscription, (List.mem_filter.mp hmem).1, rfl⟩
  exact congrArg (fun agent => { world with board := (world.board.replace key new).1, agent })
    (hsilent _ world.agent htold)

namespace Session

variable {tree : Tree A} {initial : Values} {session : Session A}

def onBoard (session : Session A) (board : Board) : Session A :=
  { session with root := session.root.mapWorld fun world => { world with board } }

/-- The keys at which the host was told of a change while it wrote. -/
def changed (session : Session A) : List Write → List String
  | [] => []
  | write :: writes =>
    (if (session.root.world.board.write write).1 then [write.key] else []) ++
      (session.call write.call).changed writes

theorem call_write_eq (session : Session A) (write : Write) :
    session.call write.call = { session with
      root := session.root.mapWorld fun world =>
        world.withNotices (world.board.write write).2.1 (world.board.write write).2.2 } := by
  cases write <;> rfl

theorem call_write (h : session.root.world.Unheeded) (write : Write) :
    ∃ board, session.call write.call = session.onBoard board ∧
      session.root.world.board.Wrote board
        (if (session.root.world.board.write write).1 then [write.key] else []) := by
  rw [session.call_write_eq, Root.mapWorld]
  obtain hsame | ⟨new, hchange⟩ := session.root.world.board.write_eq write
  · rw [hsame]
    exact ⟨session.root.world.board, rfl, .refl _⟩
  · rw [hchange, h.withNotices]
    exact ⟨_, rfl, Board.wrote_replace _ _ _⟩

theorem calls_writes (h : session.root.world.Unheeded) (writes : List Write) :
    ∃ board, session.calls (writes.map Write.call) = session.onBoard board ∧
      session.root.world.board.Wrote board (session.changed writes) := by
  induction writes generalizing session with
  | nil => exact ⟨session.root.world.board, rfl, .refl _⟩
  | cons write writes ih =>
    obtain ⟨board, hcall, hwrote⟩ := session.call_write h write
    have hlater : (session.call write.call).root.world.Unheeded := by
      rw [hcall]
      intro notice agent hsubscribed
      refine h notice agent ?_
      rw [Board.isSubscribed, ← hwrote.observers_eq]
      exact hsubscribed
    obtain ⟨last, hcalls, hrest⟩ := ih hlater
    have hboard : (session.call write.call).root.world.board = board := by rw [hcall]; rfl
    refine ⟨last, ?_, hwrote.trans (hboard ▸ hrest)⟩
    rw [List.map_cons, calls, List.foldl_cons, ← calls, hcalls, hcall]
    rfl

theorem Kept.unheeded (h : session.Kept) (hunwatched : session.Unwatched) :
    session.root.world.Unheeded := by
  intro notice agent hsubscribed
  refine h.silent notice agent fun hown => ?_
  exact Bool.false_ne_true ((hunwatched _ hown).symm.trans hsubscribed)

/-- In each state that a host can come to: two rows of writes that end with the same values, and report
changes at the same of the keys that are watched, leave the same root behind. So it goes on in the same
way whatever the host calls after them, down to the last entry of the journal. -/
theorem Reachable.writes_coalesce (htree : tree.BuiltIn) (h : Reachable tree initial session)
    (hunwatched : session.Unwatched) (first second : List Write)
    (hvalues : (session.calls (first.map Write.call)).root.world.board.values =
      (session.calls (second.map Write.call)).root.world.board.values)
    (hkeys : ∀ key, session.root.world.board.observersOf key ≠ [] →
      (key ∈ session.changed first ↔ key ∈ session.changed second)) (later : List (Call A)) :
    session.calls (first.map Write.call ++ later) =
      session.calls (second.map Write.call ++ later) := by
  have hunheeded := (h.kept htree).unheeded hunwatched
  obtain ⟨left, hleft, hfirst⟩ := session.calls_writes hunheeded first
  obtain ⟨right, hright, hsecond⟩ := session.calls_writes hunheeded second
  rw [hleft, hright] at hvalues
  have hwatched : ∀ subscription ∈ session.root.world.board.observers,
      subscription.key ∈ session.changed first ↔ subscription.key ∈ session.changed second := by
    intro subscription hmem
    refine hkeys subscription.key (List.ne_nil_of_mem (a := subscription.id) ?_)
    exact List.mem_map_of_mem (List.mem_filter.mpr ⟨hmem, decide_eq_true rfl⟩)
  have hsame : left = right := hfirst.unique hsecond hwatched hvalues
  have hwritten : session.calls (first.map Write.call) = session.calls (second.map Write.call) := by
    rw [hleft, hright, hsame]
  rw [Session.calls, Session.calls, List.foldl_append, List.foldl_append]
  exact congrArg (Session.calls · later) hwritten

/-- While the watchman rests, the alarm is set and reset, once in three writes and once in two. He cannot
tell the one from the other. -/
theorem watchman_misses_detour :
    let session := watchman.session.calls [.start, .tick]
    let first : List Write := [.set "alarm" (.bool true), .set "alarm" (.text "x"), .remove "alarm"]
    let second : List Write := [.remove "alarm", .set "alarm" (.bool false), .remove "alarm"]
    session.Reachable watchman .empty ∧ session.Unwatched ∧
      session.changed first = ["alarm", "alarm", "alarm"] ∧
      session.changed second = ["alarm", "alarm"] ∧
      ∀ later, session.calls (first.map Write.call ++ later) =
        session.calls (second.map Write.call ++ later) := by
  intro session first second
  have h : session.Reachable watchman .empty := watchman.reachable.calls _
  have hfirst : session.changed first = ["alarm", "alarm", "alarm"] := by decide
  have hsecond : session.changed second = ["alarm", "alarm"] := by decide
  have hunwatched : session.Unwatched := fun _ hown => nomatch hown
  refine ⟨h, hunwatched, hfirst, hsecond, fun later => ?_⟩
  refine h.writes_coalesce watchman.builtIn hunwatched first second ?_ ?_ later
  · exact Values.ext_get? fun key => rfl
  · rw [hfirst, hsecond]
    simp

end Session

end BehaviorTree
