import BehaviorTree.Proofs.Lifecycle.StepFrame

/-!
Where two trees run side by side, a timer or an observer of the one may correspond to one of the other or
to none. The links say which, and `World.Linked` says that the worlds agree on all that is to be seen, and
on all that is linked. Each operation on both worlds, or on one of them alone, keeps them linked.
-/

namespace BehaviorTree

namespace Board

variable {board other : Board}

theorem get?_congr (hvalues : board.values = other.values) (key : String) :
    board.get? key = other.get? key := by
  rw [get?, get?, hvalues]

theorem noteMissing_congr (hvalues : board.values = other.values) (hwarned : board.warned = other.warned)
    (key : String) (expected : Kind) :
    ∃ warned report, board.noteMissing key expected = ({ board with warned }, report) ∧
      other.noteMissing key expected = ({ other with warned }, report) := by
  rw [noteMissing, noteMissing, hwarned, get?_congr hvalues]
  split
  · exact ⟨other.warned, none, by rw [← hwarned], rfl⟩
  · exact ⟨_, _, rfl, rfl⟩

theorem readOr_congr {α : Type} (hvalues : board.values = other.values)
    (hwarned : board.warned = other.warned) (read : Value → Option α) (expected : Kind) (default : α)
    (key : String) :
    ∃ answer warned report,
      board.readOr read expected default key = (answer, { board with warned }, report) ∧
        other.readOr read expected default key = (answer, { other with warned }, report) := by
  obtain ⟨warned, report, hboard, hother⟩ := noteMissing_congr hvalues hwarned key expected
  rw [readOr, readOr, get?_congr hvalues, hboard, hother]
  split
  · exact ⟨_, other.warned, none, by rw [← hwarned], rfl⟩
  · exact ⟨_, _, _, rfl, rfl⟩

theorem evaluate_congr (hvalues : board.values = other.values) (hwarned : board.warned = other.warned)
    (guard : Guard) :
    ∃ holds warned report, guard.evaluate board = (holds, { board with warned }, report) ∧
      guard.evaluate other = (holds, { other with warned }, report) := by
  obtain ⟨warned, report, hboard, hother⟩ :=
    noteMissing_congr hvalues hwarned guard.key guard.threshold.kind
  have hsame : board = { board with warned := other.warned } := by rw [← hwarned]
  rw [Guard.evaluate, Guard.evaluate, get?_congr hvalues]
  split
  · exact ⟨_, other.warned, none, congrArg (_, ·, none) hsame, rfl⟩
  · exact ⟨_, other.warned, none, congrArg (_, ·, none) hsame, rfl⟩
  · exact ⟨false, warned, report, congrArg (false, ·) hboard, congrArg (false, ·) hother⟩
  · split
    · exact ⟨_, other.warned, none, congrArg (_, ·, none) hsame, rfl⟩
    · exact ⟨false, warned, report, congrArg (false, ·) hboard, congrArg (false, ·) hother⟩

theorem set_congr (hvalues : board.values = other.values) (key : String) (value : Value) :
    (board.set key value = (false, board, []) ∧ other.set key value = (false, other, [])) ∨
      (board.set key value = (true, board.replace key (some value)) ∧
        other.set key value = (true, other.replace key (some value))) := by
  rw [set, set, get?_congr hvalues]
  split
  · exact .inl ⟨rfl, rfl⟩
  · exact .inr ⟨rfl, rfl⟩

theorem remove_congr (hvalues : board.values = other.values) (key : String) :
    (board.remove key = (none, board, []) ∧ other.remove key = (none, other, [])) ∨
      ∃ old, board.remove key = (some old, board.replace key none) ∧
        other.remove key = (some old, other.replace key none) := by
  rw [remove, remove, get?_congr hvalues]
  split
  · exact .inl ⟨rfl, rfl⟩
  · exact .inr ⟨_, rfl, rfl⟩

theorem isPending_replace_eq {id : ObserverId} {key : String} (hsound : board.Sound)
    (hmem : ⟨id, key⟩ ∈ board.observers) (written : String) (new : Option Value) :
    (board.replace written new).1.isPending id = (board.isPending id || decide (key = written)) := by
  have htold : (∃ told ∈ board.observersOf written, told.index = id.index) ↔ key = written := by
    constructor
    · rintro ⟨told, htold, hindex⟩
      obtain ⟨subscription, hfilter, rfl⟩ := List.mem_map.mp htold
      obtain ⟨hsubscribed, hkey⟩ := List.mem_filter.mp hfilter
      have hsame : subscription.id = id := by
        cases hid : subscription.id
        cases id
        rw [hid] at hindex
        exact congrArg ObserverId.mk hindex
      obtain rfl := List.inj_on_of_nodup_map hsound.distinct hsubscribed hmem hsame
      exact of_decide_eq_true hkey
    · rintro rfl
      exact ⟨id, List.mem_map.mpr ⟨_, List.mem_filter.mpr ⟨hmem, by simp⟩, rfl⟩, rfl⟩
  rw [Bool.eq_iff_iff, Bool.or_eq_true, decide_eq_true_eq, ← htold]
  exact isRaised_raiseAll _ _ _

end Board

/-- Whether an entry is a warning, or tells of an action that ran. -/
def Event.isPublic : Event → Bool
  | .keyWarning _ | .unownedTimer _ | .leftBehind _ _ | .acted _ => true
  | _ => false

/-- What two worlds that are linked have in common from the start. -/
structure Bond where
  /-- Whether they have the same clock. -/
  strict : Bool
  own : List ObserverId

def Bond.handles (bond : Bond) : Multiset Handle := bond.own.map Handle.observer

/-- Worlds with the same clock also overflow at the same time. Others are not followed further. -/
def Bond.Allows {A : Type} (bond : Bond) (world : World A) : Prop :=
  bond.strict = false → world.clock.overflowed = false

/-- A timer or an observer of one world, of another, or of both. -/
inductive Link where
  | timer (left right : Option TimerId)
  | observer (key : String) (left right : Option ObserverId)

namespace Link

def left : Link → Multiset Handle
  | .timer id _ => Handle.timers id
  | .observer _ id _ => Handle.observers id

def right : Link → Multiset Handle
  | .timer _ id => Handle.timers id
  | .observer _ _ id => Handle.observers id

def swap : Link → Link
  | .timer left right => .timer right left
  | .observer key left right => .observer key right left

@[simp] theorem swap_swap (link : Link) : link.swap.swap = link := by cases link <;> rfl

@[simp] theorem left_swap (link : Link) : link.swap.left = link.right := by cases link <;> rfl

@[simp] theorem right_swap (link : Link) : link.swap.right = link.left := by cases link <;> rfl

def lefts (links : Multiset Link) : Multiset Handle := links.bind left

def rights (links : Multiset Link) : Multiset Handle := links.bind right

def swaps (links : Multiset Link) : Multiset Link := links.map swap

@[simp] theorem lefts_add (links more : Multiset Link) : lefts (links + more) = lefts links + lefts more :=
  Multiset.add_bind _ _ _

@[simp] theorem lefts_singleton (link : Link) : lefts {link} = link.left := Multiset.singleton_bind _ _

@[simp] theorem rights_add (links more : Multiset Link) :
    rights (links + more) = rights links + rights more :=
  Multiset.add_bind _ _ _

@[simp] theorem rights_singleton (link : Link) : rights {link} = link.right := Multiset.singleton_bind _ _

@[simp] theorem swaps_zero : swaps 0 = 0 := rfl

@[simp] theorem swaps_add (links more : Multiset Link) : swaps (links + more) = swaps links + swaps more :=
  Multiset.map_add _ _ _

@[simp] theorem swaps_singleton (link : Link) : swaps {link} = {link.swap} := rfl

@[simp] theorem swaps_swaps (links : Multiset Link) : swaps (swaps links) = links := by
  simp [swaps]

@[simp] theorem lefts_swaps (links : Multiset Link) : lefts (swaps links) = rights links := by
  simp [swaps, lefts, rights, Multiset.bind_map]

@[simp] theorem rights_swaps (links : Multiset Link) : rights (swaps links) = lefts links := by
  simp [swaps, lefts, rights, Multiset.bind_map]

/-- The link of the timers of two nodes, of which each keeps one or none. -/
def timers : Option TimerId → Option TimerId → Multiset Link
  | none, none => 0
  | left, right => {.timer left right}

/-- The link of the observers of two conditions, of which each keeps one or none. -/
def observers (key : String) : Option ObserverId → Option ObserverId → Multiset Link
  | none, none => 0
  | left, right => {.observer key left right}

@[simp] theorem timers_none : timers none none = 0 := rfl

@[simp] theorem observers_none (key : String) : observers key none none = 0 := rfl

theorem swaps_observers (key : String) (left right : Option ObserverId) :
    swaps (observers key left right) = observers key right left := by
  cases left <;> cases right <;> rfl

theorem mem_swaps {link : Link} {links : Multiset Link} : link ∈ swaps links ↔ link.swap ∈ links := by
  rw [swaps, Multiset.mem_map]
  exact ⟨fun ⟨_, hmem, heq⟩ => heq ▸ (swap_swap _).symm ▸ hmem, fun h => ⟨_, h, swap_swap link⟩⟩

theorem mem_lefts {link : Link} {links : Multiset Link} {handle : Handle} (hmem : link ∈ links)
    (h : handle ∈ link.left) : handle ∈ lefts links :=
  Multiset.mem_bind.mpr ⟨link, hmem, h⟩

variable {A : Type}

/-- A linked timer falls due in both worlds at once and again and again. A linked observer watches the
key, and if it is one of both worlds, its flag is the same in both. -/
def Agrees (left right : World A) : Link → Prop
  | .timer a b => ∀ id id', a = some id → b = some id' → ∃ due interval,
    ⟨id, due, interval⟩ ∈ left.clock.timers ∧ ⟨id', due, interval⟩ ∈ right.clock.timers
  | .observer key a b =>
    (∀ id, a = some id → ⟨id, key⟩ ∈ left.board.observers) ∧
    (∀ id, b = some id → ⟨id, key⟩ ∈ right.board.observers) ∧
    ∀ id id', a = some id → b = some id' → left.board.isPending id = right.board.isPending id'

theorem agrees_left {key : String} {a : Option ObserverId} {left : World A} (right : World A)
    (h : ∀ id, a = some id → ⟨id, key⟩ ∈ left.board.observers) :
    (Link.observer key a none).Agrees left right :=
  ⟨h, by simp, by simp⟩

theorem agrees_right {key : String} {b : Option ObserverId} (left : World A) {right : World A}
    (h : ∀ id, b = some id → ⟨id, key⟩ ∈ right.board.observers) :
    (Link.observer key none b).Agrees left right :=
  ⟨by simp, h, by simp⟩

theorem Agrees.swap {left right : World A} {link : Link} (h : link.Agrees left right) :
    link.swap.Agrees right left := by
  cases link with
  | timer a b =>
    intro id id' hid hid'
    obtain ⟨due, interval, hleft, hright⟩ := h id' id hid' hid
    exact ⟨due, interval, hright, hleft⟩
  | observer key a b => exact ⟨h.2.1, h.1, fun id id' hid hid' => (h.2.2 id' id hid' hid).symm⟩

end Link

namespace World

variable {A : Type}

/-- The warnings, and the actions that ran between them. -/
def reports (world : World A) : List Event := world.journal.filter Event.isPublic

theorem reports_record {world : World A} {event : Event} (h : event.isPublic = false) :
    (world.record event).reports = world.reports := by
  simp [reports, record, h]

/-- The two worlds look the same, hold nothing but what is linked and what the host holds of both, and
agree on these. -/
structure Linked (bond : Bond) (links : Multiset Link) (left right : World A) : Prop where
  left_holds : left.Holds (Link.lefts links + bond.handles)
  right_holds : right.Holds (Link.rights links + bond.handles)
  agent_eq : left.agent = right.agent
  values_eq : left.board.values = right.board.values
  warned_eq : left.board.warned = right.board.warned
  now_eq : left.now = right.now
  reports_eq : left.reports = right.reports
  react_eq : left.react = right.react
  /-- The agent reacts to nothing but what the observers of the host are told. -/
  silent : ∀ notice agent, notice.observer ∉ bond.own → left.react notice agent = agent
  own_eq : left.board.observers.filter (·.id ∈ bond.own) = right.board.observers.filter (·.id ∈ bond.own)
  agrees : ∀ link ∈ links, link.Agrees left right
  /-- Timers that correspond have the same order of age. -/
  ordered : ∀ a a' b b', .timer (some a) (some a') ∈ links → .timer (some b) (some b') ∈ links →
    (a.index < b.index ↔ a'.index < b'.index)
  clock_eq : bond.strict = true → left.clock = right.clock ∧ ∀ a b, .timer a b ∈ links → a = b

namespace Linked

variable {bond : Bond} {links more kept : Multiset Link} {left right after after' : World A}

theorem swap (h : Linked bond links left right) : Linked bond (Link.swaps links) right left where
  left_holds := by rw [Link.lefts_swaps]; exact h.right_holds
  right_holds := by rw [Link.rights_swaps]; exact h.left_holds
  agent_eq := h.agent_eq.symm
  values_eq := h.values_eq.symm
  warned_eq := h.warned_eq.symm
  now_eq := h.now_eq.symm
  reports_eq := h.reports_eq.symm
  react_eq := h.react_eq.symm
  silent := h.react_eq ▸ h.silent
  own_eq := h.own_eq.symm
  agrees link hlink := by
    have hagrees := (h.agrees link.swap (Link.mem_swaps.mp hlink)).swap
    rwa [Link.swap_swap] at hagrees
  ordered a a' b b' ha hb :=
    (h.ordered a' a b' b (Link.mem_swaps.mp ha) (Link.mem_swaps.mp hb)).symm
  clock_eq hstrict := by
    obtain ⟨hclock, hsame⟩ := h.clock_eq hstrict
    exact ⟨hclock.symm, fun a b hmem => (hsame b a (Link.mem_swaps.mp hmem)).symm⟩

theorem of_swap (h : Linked bond (Link.swaps links) right left) : Linked bond links left right := by
  have hswap := h.swap
  rwa [Link.swaps_swaps] at hswap

theorem relink (h : Linked bond links left right) (hleft : Link.lefts kept = Link.lefts links)
    (hright : Link.rights kept = Link.rights links) (hagrees : ∀ link ∈ kept, link.Agrees left right)
    (htimers : ∀ a b, .timer a b ∈ kept → .timer a b ∈ links) : Linked bond kept left right where
  left_holds := hleft ▸ h.left_holds
  right_holds := hright ▸ h.right_holds
  agent_eq := h.agent_eq
  values_eq := h.values_eq
  warned_eq := h.warned_eq
  now_eq := h.now_eq
  reports_eq := h.reports_eq
  react_eq := h.react_eq
  silent := h.silent
  own_eq := h.own_eq
  agrees := hagrees
  ordered a a' b b' ha hb := h.ordered a a' b b' (htimers _ _ ha) (htimers _ _ hb)
  clock_eq hstrict :=
    ⟨(h.clock_eq hstrict).1, fun a b hmem => (h.clock_eq hstrict).2 a b (htimers a b hmem)⟩

/-- A step of the first world that nobody sees and that leaves the clock alone. What the links hold of
the world may change with it, but no link of both worlds. -/
theorem step_left (h : Linked bond (links + more) left right)
    (htrades : left.Trades after (Link.lefts links) (Link.lefts kept))
    (hright : Link.rights kept = Link.rights links)
    (hagent : after.agent = left.agent) (hvalues : after.board.values = left.board.values)
    (hwarned : after.board.warned = left.board.warned) (hclock : after.clock = left.clock)
    (hreports : after.reports = left.reports)
    (hown : after.board.observers.filter (·.id ∈ bond.own) =
      left.board.observers.filter (·.id ∈ bond.own))
    (hkept : ∀ link ∈ kept, link.Agrees after right)
    (hmore : ∀ link ∈ more, link.Agrees after right)
    (htimers : ∀ a b, .timer a b ∉ kept) : Linked bond (kept + more) after right := by
  have hold : ∀ a b, .timer a b ∈ kept + more → .timer a b ∈ links + more := fun a b hmem =>
    (Multiset.mem_add.mp hmem).elim (fun hnew => absurd hnew (htimers a b))
      fun hmem => Multiset.mem_add.mpr (.inr hmem)
  refine ⟨?_, ?_, hagent.trans h.agent_eq, hvalues.trans h.values_eq, hwarned.trans h.warned_eq, ?_,
    hreports.trans h.reports_eq, htrades.follows.react_eq.trans h.react_eq, ?_,
    hown.trans h.own_eq, ?_, ?_, fun hstrict => ?_⟩
  · have hholds := h.left_holds
    rw [Link.lefts_add, add_assoc] at hholds ⊢
    exact htrades.holds _ hholds
  · have hholds := h.right_holds
    rw [Link.rights_add] at hholds ⊢
    rwa [hright]
  · exact (congrArg Clock.now hclock).trans h.now_eq
  · rw [htrades.follows.react_eq]
    exact h.silent
  · intro link hlink
    exact (Multiset.mem_add.mp hlink).elim (hkept link) (hmore link)
  · exact fun a a' b b' ha hb => h.ordered a a' b b' (hold _ _ ha) (hold _ _ hb)
  · obtain ⟨hsame, hequal⟩ := h.clock_eq hstrict
    exact ⟨hclock.trans hsame, fun a b hmem => hequal a b (hold a b hmem)⟩

/-- A step of both worlds that looks the same in both and leaves the clocks and the observers alone. -/
theorem steps (h : Linked bond links left right)
    (hleft : left.Trades after (Link.lefts links) (Link.lefts links))
    (hright : right.Trades after' (Link.rights links) (Link.rights links))
    (hagent : after.agent = after'.agent) (hvalues : after.board.values = after'.board.values)
    (hwarned : after.board.warned = after'.board.warned) (hreports : after.reports = after'.reports)
    (hclock : after.clock = left.clock) (hclock' : after'.clock = right.clock)
    (hobservers : after.board.observers = left.board.observers)
    (hobservers' : after'.board.observers = right.board.observers)
    (hagrees : ∀ link ∈ links, link.Agrees left right → link.Agrees after after') :
    Linked bond links after after' where
  left_holds := hleft.holds _ h.left_holds
  right_holds := hright.holds _ h.right_holds
  agent_eq := hagent
  values_eq := hvalues
  warned_eq := hwarned
  now_eq := by
    rw [World.now, World.now, hclock, hclock']
    exact h.now_eq
  reports_eq := hreports
  react_eq := (hleft.follows.react_eq.trans h.react_eq).trans hright.follows.react_eq.symm
  silent := by
    rw [hleft.follows.react_eq]
    exact h.silent
  own_eq := by
    rw [hobservers, hobservers']
    exact h.own_eq
  agrees link hlink := hagrees link hlink (h.agrees link hlink)
  ordered := h.ordered
  clock_eq hstrict := by
    rw [hclock, hclock']
    exact h.clock_eq hstrict

theorem record_left (h : Linked bond links left right) {event : Event} (hloss : event.isLoss = false)
    (hpublic : event.isPublic = false) : Linked bond links (left.record event) right :=
  h.steps (trades_record left event hloss) (.refl _ _) h.agent_eq h.values_eq h.warned_eq
    ((reports_record hpublic).trans h.reports_eq) rfl rfl rfl rfl fun _ _ hagrees => hagrees

theorem record_right (h : Linked bond links left right) {event : Event} (hloss : event.isLoss = false)
    (hpublic : event.isPublic = false) : Linked bond links left (right.record event) :=
  (h.swap.record_left hloss hpublic).of_swap

theorem record (h : Linked bond links left right) (event : Event) (hloss : event.isLoss = false) :
    Linked bond links (left.record event) (right.record event) := by
  refine h.steps (trades_record left event hloss) (trades_record right event hloss) h.agent_eq
    h.values_eq h.warned_eq ?_ rfl rfl rfl rfl fun _ _ hagrees => hagrees
  have hsame : left.journal.filter Event.isPublic = right.journal.filter Event.isPublic := h.reports_eq
  simp only [reports, World.record, List.filter_cons, hsame]

theorem mapAgent (h : Linked bond links left right) (f : A → A) :
    Linked bond links (left.mapAgent f) (right.mapAgent f) :=
  h.steps (trades_mapAgent left f) (trades_mapAgent right f) (congrArg f h.agent_eq) h.values_eq
    h.warned_eq h.reports_eq rfl rfl rfl rfl fun _ _ hagrees => hagrees

theorem withReport (h : Linked bond links left right) (warned : List String)
    (report : Option KeyWarning) :
    Linked bond links (left.withReport { left.board with warned } report)
      (right.withReport { right.board with warned } report) := by
  have hkeeps : ∀ board : Board, board.Keeps { board with warned } := fun _ => ⟨rfl, rfl, fun _ => .inl⟩
  have hleft : left.Trades _ (Link.lefts links) (Link.lefts links) :=
    trades_withReport left (hkeeps left.board) report
  have hright : right.Trades _ (Link.rights links) (Link.rights links) :=
    trades_withReport right (hkeeps right.board) report
  cases report with
  | none =>
    exact h.steps hleft hright h.agent_eq h.values_eq rfl h.reports_eq rfl rfl rfl rfl
      fun _ _ hagrees => hagrees
  | some warning =>
    refine h.steps hleft hright h.agent_eq h.values_eq rfl ?_ rfl rfl rfl rfl fun _ _ hagrees => hagrees
    exact congrArg (Event.keyWarning warning :: ·) h.reports_eq

theorem evaluate (h : Linked bond links left right) (guard : Guard) :
    (left.evaluate guard).1 = (right.evaluate guard).1 ∧
      Linked bond links (left.evaluate guard).2 (right.evaluate guard).2 := by
  obtain ⟨holds, warned, report, hleft, hright⟩ :=
    Board.evaluate_congr h.values_eq h.warned_eq guard
  rw [World.evaluate, World.evaluate, hleft, hright]
  exact ⟨rfl, h.withReport warned report⟩

theorem getNumber (h : Linked bond links left right) (key : String) :
    (left.getNumber key).1 = (right.getNumber key).1 ∧
      Linked bond links (left.getNumber key).2 (right.getNumber key).2 := by
  obtain ⟨answer, warned, report, hleft, hright⟩ :=
    Board.readOr_congr h.values_eq h.warned_eq Value.number? .number (0 : Float) key
  rw [World.getNumber, World.getNumber, Board.getNumber, Board.getNumber, hleft, hright]
  exact ⟨rfl, h.withReport warned report⟩

theorem getBool (h : Linked bond links left right) (key : String) :
    (left.getBool key).1 = (right.getBool key).1 ∧
      Linked bond links (left.getBool key).2 (right.getBool key).2 := by
  obtain ⟨answer, warned, report, hleft, hright⟩ :=
    Board.readOr_congr h.values_eq h.warned_eq Value.bool? .bool false key
  rw [World.getBool, World.getBool, Board.getBool, Board.getBool, hleft, hright]
  exact ⟨rfl, h.withReport warned report⟩

/-- Where only the host's own observers matter to the agent, the others may as well not be told. -/
theorem foldl_notices {react : Notice → A → A} {own : List ObserverId}
    (hsilent : ∀ notice agent, notice.observer ∉ own → react notice agent = agent)
    (subscriptions : List Subscription) (notice : Subscription → Notice)
    (hid : ∀ subscription, (notice subscription).observer = subscription.id) (agent : A) :
    (subscriptions.map notice).foldl (fun agent notice => react notice agent) agent =
      ((subscriptions.filter (·.id ∈ own)).map notice).foldl (fun agent notice => react notice agent)
        agent := by
  induction subscriptions generalizing agent with
  | nil => rfl
  | cons first rest ih =>
    rw [List.map_cons, List.foldl_cons, ih]
    by_cases hown : first.id ∈ own
    · rw [List.filter_cons_of_pos (by simpa using hown), List.map_cons, List.foldl_cons]
    · rw [List.filter_cons_of_neg (by simpa using hown),
        hsilent _ _ (by rwa [hid])]

theorem replace (h : Linked bond links left right) (key : String) (new : Option Value) :
    Linked bond links
      (left.withNotices (left.board.replace key new).1 (left.board.replace key new).2)
      (right.withNotices (right.board.replace key new).1 (right.board.replace key new).2) := by
  have hcommute : ∀ board : Board,
      (board.observers.filter (·.key = key)).filter (·.id ∈ bond.own) =
        (board.observers.filter (·.id ∈ bond.own)).filter (·.key = key) := fun board =>
    List.filter_comm _ _ _
  refine h.steps (trades_withNotices left (Board.keeps_replace _ _ _) _)
    (trades_withNotices right (Board.keeps_replace _ _ _) _) ?_ ?_ h.warned_eq h.reports_eq rfl rfl
    rfl rfl fun link _ hagrees => ?_
  · simp only [World.withNotices, Board.replace, Board.observersOf, List.map_map, ← h.react_eq,
      Board.get?_congr h.values_eq, h.agent_eq]
    rw [foldl_notices h.silent _ _ (fun _ => rfl), hcommute, h.own_eq, ← hcommute,
      ← foldl_notices h.silent _ _ (fun _ => rfl)]
  · simp only [World.withNotices, Board.replace, h.values_eq]
  · cases link with
    | timer a b => exact hagrees
    | observer watched a b =>
      obtain ⟨hleft, hright, hflags⟩ := hagrees
      refine ⟨hleft, hright, fun id id' hid hid' => ?_⟩
      exact (Board.isPending_replace_eq h.left_holds.sound (hleft id hid) key new).trans
        ((congrArg (· || _) (hflags id id' hid hid')).trans
          (Board.isPending_replace_eq h.right_holds.sound (hright id' hid') key new).symm)

theorem set (h : Linked bond links left right) (key : String) (value : Value) :
    (left.set key value).1 = (right.set key value).1 ∧
      Linked bond links (left.set key value).2 (right.set key value).2 := by
  rw [World.set, World.set]
  obtain ⟨hleft, hright⟩ | ⟨hleft, hright⟩ := Board.set_congr h.values_eq key value
  · rw [hleft, hright]
    exact ⟨rfl, h⟩
  · rw [hleft, hright]
    exact ⟨rfl, h.replace key (some value)⟩

theorem remove (h : Linked bond links left right) (key : String) :
    (left.remove key).1 = (right.remove key).1 ∧
      Linked bond links (left.remove key).2 (right.remove key).2 := by
  rw [World.remove, World.remove]
  obtain ⟨hleft, hright⟩ | ⟨old, hleft, hright⟩ := Board.remove_congr h.values_eq key
  · rw [hleft, hright]
    exact ⟨rfl, h⟩
  · rw [hleft, hright]
    exact ⟨rfl, h.replace key none⟩

theorem run (h : Linked bond links left right) (routine : Routine A) :
    Linked bond links (routine.run left) (routine.run right) := by
  induction routine generalizing left right with
  | done => exact h
  | act effect next ih => exact ih (h.mapAgent effect)
  | look next ih =>
    rw [Routine.run, Routine.run, h.agent_eq]
    exact ih _ h
  | get key next ih =>
    rw [Routine.run, Routine.run, World.get?, World.get?, Board.get?_congr h.values_eq]
    exact ih _ h
  | getNumber key next ih =>
    obtain ⟨hanswer, hread⟩ := h.getNumber key
    rw [Routine.run, Routine.run]
    dsimp only
    rw [hanswer]
    exact ih _ hread
  | getBool key next ih =>
    obtain ⟨hanswer, hread⟩ := h.getBool key
    rw [Routine.run, Routine.run]
    dsimp only
    rw [hanswer]
    exact ih _ hread
  | set key value next ih =>
    obtain ⟨hanswer, hset⟩ := h.set key value
    rw [Routine.run, Routine.run]
    dsimp only
    rw [hanswer]
    exact ih _ hset
  | remove key next ih =>
    obtain ⟨hanswer, hremoved⟩ := h.remove key
    rw [Routine.run, Routine.run]
    dsimp only
    rw [hanswer]
    exact ih _ hremoved

theorem command (h : Linked bond links left right) (command : Command A) (random : Random) :
    (command.run random left).1 = (command.run random right).1 ∧
      Linked bond links (command.run random left).2 (command.run random right).2 := by
  cases command with
  | always effect => exact ⟨rfl, h.mapAgent effect⟩
  | drawn low high effect => exact ⟨rfl, h.mapAgent _⟩

theorem refresh (h : Linked bond links left right) (timer timer' : TimerId) (callback : Routine A) :
    Linked bond links (left.refresh timer callback) (right.refresh timer' callback) :=
  ((h.record_left rfl rfl).record_right rfl rfl).run callback

theorem not_mem_lefts {link : Link} {handle : Handle} (h : Linked bond ({link} + more) left right)
    (hmem : handle ∈ link.left) : handle ∉ Link.lefts more + bond.handles := by
  have hnodup := h.left_holds.nodup
  rw [Link.lefts_add, Link.lefts_singleton, add_assoc] at hnodup
  exact Multiset.disjoint_left.mp (Multiset.nodup_add.mp hnodup).2.2 hmem

/-- What the first world holds belongs to one link only. -/
theorem link_unique {link other : Link} {handle : Handle} (h : Linked bond links left right)
    (hlink : link ∈ links) (hother : other ∈ links) (hmem : handle ∈ link.left)
    (hmem' : handle ∈ other.left) : link = other := by
  obtain ⟨more, rfl⟩ := Multiset.exists_cons_of_mem hlink
  rw [← Multiset.singleton_add] at h
  obtain rfl | hmore := Multiset.mem_cons.mp hother
  · rfl
  · exact absurd (Multiset.mem_add.mpr (.inl (Link.mem_lefts hmore hmem'))) (h.not_mem_lefts hmem)

end Linked

end World

end BehaviorTree
