import BehaviorTree.Proofs.Board.Soundness
import Mathlib.Data.List.Induction
import Mathlib.Data.List.Nodup
import Mathlib.Order.Nat

namespace BehaviorTree

inductive Board.Use where
  | set (key : String) (value : Value)
  | remove (key : String)
  | subscribe (key : String)
  | unsubscribe (id : ObserverId)
  | getNumber (key : String)
  | getBool (key : String)
  | acknowledge (id : ObserverId)
  | clear

def Board.Use.written? : Board.Use → Option String
  | .set key _ | .remove key => some key
  | _ => none

/-- Each notice takes up the value that the one before it has left. -/
def Notice.Lead : Option Value → List Notice → Option Value → Prop
  | first, [], last => first = last
  | first, notice :: notices, last => notice.old = first ∧ Lead notice.new notices last

def Notice.to (id : ObserverId) (notices : List Notice) : List Notice :=
  notices.filter (·.observer = id)

/-- An observer who was told this knows how the value at its key went from the first to the last. -/
structure Subscription.Replays (subscription : Subscription) (first : Option Value)
    (notices : List Notice) (last : Option Value) : Prop where
  keys : ∀ notice ∈ notices, notice.key = subscription.key
  lead : Notice.Lead first notices last

namespace Subscription.Replays

variable {subscription : Subscription} {first middle last : Option Value} {told later : List Notice}

theorem nil (subscription : Subscription) (value : Option Value) :
    subscription.Replays value [] value :=
  ⟨fun _ hmem => absurd hmem List.not_mem_nil, rfl⟩

theorem lead_append (h : Notice.Lead first told middle) (k : Notice.Lead middle later last) :
    Notice.Lead first (told ++ later) last := by
  induction told generalizing first with
  | nil =>
    have hfirst : first = middle := h
    rwa [hfirst]
  | cons notice told ih => exact ⟨h.1, ih h.2⟩

theorem append (h : subscription.Replays first told middle)
    (k : subscription.Replays middle later last) :
    subscription.Replays first (told ++ later) last := by
  refine ⟨fun notice hmem => ?_, lead_append h.lead k.lead⟩
  obtain hmem | hmem := List.mem_append.mp hmem
  · exact h.keys notice hmem
  · exact k.keys notice hmem

end Subscription.Replays

namespace Board

variable {board : Board} {subscription : Subscription} {id : ObserverId}

/-- The second answer is what observers are told. -/
def use (board : Board) : Use → Board × List Notice
  | .set key value => (board.set key value).2
  | .remove key => (board.remove key).2
  | .subscribe key => ((board.subscribe key).2, [])
  | .unsubscribe id => ((board.unsubscribe id).2, [])
  | .getNumber key => ((board.getNumber key).2.1, [])
  | .getBool key => ((board.getBool key).2.1, [])
  | .acknowledge id => (board.acknowledge id, [])
  | .clear => (board.clear, [])

def uses (board : Board) : List Use → Board × List Notice
  | [] => (board, [])
  | use :: uses =>
    let (used, told) := board.use use
    let (after, later) := used.uses uses
    (after, told ++ later)

theorem uses_append (board : Board) (earlier later : List Use) :
    board.uses (earlier ++ later) =
      (((board.uses earlier).1.uses later).1,
        (board.uses earlier).2 ++ ((board.uses earlier).1.uses later).2) := by
  induction earlier generalizing board with
  | nil => rfl
  | cons use earlier ih =>
    have hrest := ih (board.use use).1
    simp only [List.cons_append, uses, hrest, List.append_assoc]

/-- Observers stand in the order of their numbers, which are given out one after the other. -/
structure Numbered (board : Board) : Prop where
  increasing : board.observers.Pairwise (·.id.index < ·.id.index)
  below : ∀ subscription ∈ board.observers, subscription.id.index < board.nextObserver

theorem numbered_empty : ({} : Board).Numbered :=
  ⟨List.Pairwise.nil, fun _ hmem => absurd hmem List.not_mem_nil⟩

theorem Numbered.keeps (h : board.Numbered) {after : Board} (hkeeps : board.Keeps after) :
    after.Numbered := by
  refine ⟨?_, ?_⟩
  · rw [hkeeps.observers_eq]
    exact h.increasing
  · rw [hkeeps.observers_eq, hkeeps.nextObserver_eq]
    exact h.below

theorem Numbered.sublist (h : board.Numbered) {after : Board}
    (hobservers : after.observers.Sublist board.observers)
    (hnext : after.nextObserver = board.nextObserver) : after.Numbered := by
  refine ⟨h.increasing.sublist hobservers, fun subscription hmem => ?_⟩
  rw [hnext]
  exact h.below subscription (hobservers.subset hmem)

theorem Numbered.subscribe (h : board.Numbered) (key : String) :
    (board.subscribe key).2.Numbered := by
  refine ⟨List.pairwise_append.mpr ⟨h.increasing, List.pairwise_singleton _ _, ?_⟩, ?_⟩
  · intro older hmem newer hnew
    rw [List.mem_singleton.mp hnew]
    exact h.below older hmem
  · intro subscription hmem
    obtain hmem | hmem := List.mem_append.mp hmem
    · exact Nat.lt_succ_of_lt (h.below subscription hmem)
    · rw [List.mem_singleton.mp hmem]
      exact Nat.lt_succ_self _

theorem Numbered.use (h : board.Numbered) (use : Use) : (board.use use).1.Numbered := by
  cases use with
  | set key value => exact h.keeps (keeps_set board key value)
  | remove key => exact h.keeps (keeps_remove board key)
  | subscribe key => exact h.subscribe key
  | unsubscribe id => exact h.sublist List.filter_sublist rfl
  | getNumber key => exact h.keeps (keeps_readOr board _ _ _ key)
  | getBool key => exact h.keeps (keeps_readOr board _ _ _ key)
  | acknowledge id => exact h.keeps (keeps_acknowledge board id)
  | clear => exact h.sublist (List.nil_sublist _) rfl

theorem Numbered.uses (h : board.Numbered) (uses : List Use) : (board.uses uses).1.Numbered := by
  induction uses generalizing board with
  | nil => exact h
  | cons use uses ih => exact ih (h.use use)

theorem Numbered.distinct (h : board.Numbered) : (board.observers.map (·.id)).Nodup :=
  h.increasing.map _ fun _ _ hlt heq => Nat.ne_of_lt hlt (congrArg (·.index) heq)

theorem nextObserver_le_use (board : Board) (use : Use) :
    board.nextObserver ≤ (board.use use).1.nextObserver := by
  cases use with
  | set key value => exact (keeps_set board key value).nextObserver_eq.ge
  | remove key => exact (keeps_remove board key).nextObserver_eq.ge
  | subscribe key => exact Nat.le_succ _
  | unsubscribe _ | acknowledge _ | clear => exact le_rfl
  | getNumber key | getBool key => exact (keeps_readOr board _ _ _ key).nextObserver_eq.ge

theorem nextObserver_le_uses (board : Board) (uses : List Use) :
    board.nextObserver ≤ (board.uses uses).1.nextObserver := by
  induction uses generalizing board with
  | nil => exact le_rfl
  | cons use uses ih => exact (nextObserver_le_use board use).trans (ih _)

theorem mem_observers_use {use : Use} (h : subscription ∈ (board.use use).1.observers) :
    subscription ∈ board.observers ∨
      use = .subscribe subscription.key ∧ (board.subscribe subscription.key).1 = subscription.id := by
  cases use with
  | set key value => exact .inl ((keeps_set board key value).observers_eq ▸ h)
  | remove key => exact .inl ((keeps_remove board key).observers_eq ▸ h)
  | subscribe key =>
    obtain h | h := List.mem_append.mp h
    · exact .inl h
    · rw [List.mem_singleton.mp h]
      exact .inr ⟨rfl, rfl⟩
  | unsubscribe id => exact .inl (List.mem_filter.mp h).1
  | getNumber key | getBool key => exact .inl ((keeps_readOr board _ _ _ key).observers_eq ▸ h)
  | acknowledge id => exact .inl h
  | clear => exact absurd h List.not_mem_nil

theorem mem_observers_of_uses {uses : List Use} (hid : subscription.id.index < board.nextObserver)
    (h : subscription ∈ (board.uses uses).1.observers) : subscription ∈ board.observers := by
  induction uses generalizing board with
  | nil => exact h
  | cons use uses ih =>
    have hused := ih (hid.trans_le (nextObserver_le_use board use)) h
    obtain hmem | ⟨-, hnew⟩ := mem_observers_use hused
    · exact hmem
    · rw [← hnew] at hid
      exact absurd hid (Nat.lt_irrefl _)

theorem get?_readOr {α : Type} (board : Board) (read : Value → Option α) (expected : Kind)
    (default : α) (key other : String) :
    (board.readOr read expected default key).2.1.get? other = board.get? other := by
  unfold readOr
  split
  · rfl
  · unfold noteMissing
    split <;> rfl

theorem get?_replace (board : Board) (key other : String) (new : Option Value) :
    (board.replace key new).1.get? other = if other = key then new else board.get? other := by
  cases new with
  | some value => exact Values.get?_insert board.values key other value
  | none => exact Values.get?_erase board.values key other

theorem mem_observersOf {key : String} : id ∈ board.observersOf key ↔ ⟨id, key⟩ ∈ board.observers := by
  simp only [observersOf, List.mem_map, List.mem_filter, decide_eq_true_eq]
  constructor
  · rintro ⟨subscription, ⟨hmem, rfl⟩, rfl⟩
    exact hmem
  · exact fun hmem => ⟨⟨id, key⟩, ⟨hmem, rfl⟩, rfl⟩

theorem Numbered.observersOf_increasing (h : board.Numbered) (key : String) :
    (board.observersOf key).Pairwise (·.index < ·.index) :=
  (h.increasing.filter _).map _ fun _ _ hlt => hlt

theorem use_write (board : Board) {use : Use} {key : String} (h : use.written? = some key) :
    board.use use = (board, []) ∨ ∃ new, board.use use = board.replace key new := by
  cases use with
  | set other value =>
    cases h
    rw [Board.use, Board.set]
    split
    · exact .inl rfl
    · exact .inr ⟨some value, rfl⟩
  | remove other =>
    cases h
    rw [Board.use, Board.remove]
    split
    · exact .inl rfl
    · exact .inr ⟨none, rfl⟩
  | _ => cases h

theorem replace_snd (board : Board) (key : String) (new : Option Value) :
    (board.replace key new).2 = (board.observersOf key).map (⟨·, key, board.get? key, new⟩) := rfl

theorem Numbered.replace_to (h : board.Numbered) (hmem : subscription ∈ board.observers)
    (new : Option Value) :
    Notice.to subscription.id (board.replace subscription.key new).2 =
      [⟨subscription.id, subscription.key, board.get? subscription.key, new⟩] := by
  have hnodup : (board.observersOf subscription.key).Nodup :=
    (h.observersOf_increasing subscription.key).imp fun hlt heq => by
      rw [heq] at hlt
      exact Nat.lt_irrefl _ hlt
  have hwatches : subscription.id ∈ board.observersOf subscription.key := mem_observersOf.mpr hmem
  have hfilter : (board.observersOf subscription.key).filter (· = subscription.id) =
      [subscription.id] := by
    rw [List.filter_eq, List.count_eq_one_of_mem hnodup hwatches, List.replicate_one]
  rw [Notice.to, replace_snd, List.filter_map, Function.comp_def, hfilter]
  rfl

theorem Numbered.replace_to_of_ne (h : board.Numbered) (hmem : subscription ∈ board.observers)
    {key : String} (hkey : subscription.key ≠ key) (new : Option Value) :
    Notice.to subscription.id (board.replace key new).2 = [] := by
  rw [Notice.to, List.filter_eq_nil_iff]
  intro notice hnotice
  obtain ⟨id, hid, rfl⟩ := List.mem_map.mp hnotice
  rw [decide_eq_true_eq]
  rintro rfl
  have hsame := List.inj_on_of_nodup_map h.distinct hmem (mem_observersOf.mp hid) rfl
  exact hkey (congrArg (·.key) hsame)

theorem Numbered.replays_replace (h : board.Numbered) (hmem : subscription ∈ board.observers)
    (key : String) (new : Option Value) :
    subscription.Replays (board.get? subscription.key)
      (Notice.to subscription.id (board.replace key new).2)
      ((board.replace key new).1.get? subscription.key) := by
  rw [get?_replace]
  by_cases hkey : subscription.key = key
  · subst hkey
    rw [h.replace_to hmem, if_pos rfl]
    exact ⟨List.forall_mem_singleton.mpr rfl, rfl, rfl⟩
  · rw [h.replace_to_of_ne hmem hkey, if_neg hkey]
    exact .nil _ _

theorem told_use (board : Board) (use : Use) :
    ∀ notice ∈ (board.use use).2, ⟨notice.observer, notice.key⟩ ∈ board.observers := by
  intro notice hmem
  cases hwritten : use.written? with
  | none =>
    cases use with
    | set _ _ | remove _ => cases hwritten
    | _ => exact absurd hmem List.not_mem_nil
  | some key =>
    obtain hsame | ⟨new, heq⟩ := use_write board hwritten
    · rw [hsame] at hmem
      exact absurd hmem List.not_mem_nil
    · rw [heq] at hmem
      obtain ⟨id, hid, rfl⟩ := List.mem_map.mp hmem
      exact mem_observersOf.mp hid

theorem Numbered.replays_write (h : board.Numbered) (hmem : subscription ∈ board.observers)
    {use : Use} {key : String} (hwritten : use.written? = some key) :
    subscription.Replays (board.get? subscription.key)
      (Notice.to subscription.id (board.use use).2) ((board.use use).1.get? subscription.key) := by
  obtain hsame | ⟨new, heq⟩ := use_write board hwritten
  · rw [hsame]
    exact .nil _ _
  · rw [heq]
    exact h.replays_replace hmem key new

theorem Numbered.replays_use (h : board.Numbered) (hmem : subscription ∈ board.observers) (use : Use)
    (hstays : subscription ∈ (board.use use).1.observers) :
    subscription.Replays (board.get? subscription.key)
      (Notice.to subscription.id (board.use use).2) ((board.use use).1.get? subscription.key) := by
  cases use with
  | set _ _ | remove _ => exact h.replays_write hmem rfl
  | subscribe _ | unsubscribe _ | acknowledge _ => exact .nil _ _
  | getNumber key =>
    rw [Board.use, getNumber, get?_readOr]
    exact .nil _ _
  | getBool key =>
    rw [Board.use, getBool, get?_readOr]
    exact .nil _ _
  | clear => exact absurd hstays List.not_mem_nil

theorem Numbered.replays_uses (h : board.Numbered) (hmem : subscription ∈ board.observers)
    (uses : List Use) (hstays : subscription ∈ (board.uses uses).1.observers) :
    subscription.Replays (board.get? subscription.key)
      (Notice.to subscription.id (board.uses uses).2) ((board.uses uses).1.get? subscription.key) := by
  induction uses generalizing board with
  | nil => exact .nil _ _
  | cons use uses ih =>
    have hbelow := (h.below subscription hmem).trans_le (nextObserver_le_use board use)
    have hused := mem_observers_of_uses hbelow hstays
    have hlater := ih (h.use use) hused hstays
    rw [Board.uses, Notice.to, List.filter_append]
    exact (h.replays_use hmem use hused).append hlater

theorem Numbered.told_below (h : board.Numbered) (uses : List Use) :
    ∀ notice ∈ (board.uses uses).2,
      notice.observer.index < (board.uses uses).1.nextObserver := by
  induction uses generalizing board with
  | nil => exact fun _ hmem => absurd hmem List.not_mem_nil
  | cons use uses ih =>
    intro notice hmem
    obtain hmem | hmem := List.mem_append.mp hmem
    · have hbelow := h.below _ (told_use board use notice hmem)
      exact hbelow.trans_le (nextObserver_le_uses board (use :: uses))
    · exact ih (h.use use) notice hmem

/-- From its subscription on, an observer is told of every change. -/
theorem Numbered.replays_subscribed (h : board.Numbered) (earlier later : List Use)
    (hsubscribed : ((board.uses earlier).1.subscribe subscription.key).1 = subscription.id)
    (hstays : subscription ∈
      (board.uses (earlier ++ .subscribe subscription.key :: later)).1.observers) :
    subscription.Replays ((board.uses earlier).1.get? subscription.key)
      (Notice.to subscription.id (board.uses (earlier ++ .subscribe subscription.key :: later)).2)
      ((board.uses (earlier ++ .subscribe subscription.key :: later)).1.get? subscription.key) := by
  have hbefore : Notice.to subscription.id (board.uses earlier).2 = [] := by
    refine List.filter_eq_nil_iff.mpr fun notice hmem => ?_
    have hbelow := h.told_below earlier notice hmem
    rw [decide_eq_true_eq]
    rintro heq
    rw [heq, ← hsubscribed] at hbelow
    exact Nat.lt_irrefl _ hbelow
  have hnew : subscription ∈ ((board.uses earlier).1.subscribe subscription.key).2.observers := by
    have heq : subscription =
        ⟨((board.uses earlier).1.subscribe subscription.key).1, subscription.key⟩ := by
      rw [hsubscribed]
    exact List.mem_append_right _ (List.mem_singleton.mpr heq)
  rw [uses_append] at hstays ⊢
  have hreplays := ((h.uses earlier).subscribe subscription.key).replays_uses hnew later hstays
  rw [Notice.to, List.filter_append, ← Notice.to, hbefore]
  exact hreplays

theorem exists_subscribe (uses : List Use)
    (h : subscription ∈ (({} : Board).uses uses).1.observers) :
    ∃ earlier later, uses = earlier ++ .subscribe subscription.key :: later ∧
      ((({} : Board).uses earlier).1.subscribe subscription.key).1 = subscription.id := by
  induction uses using List.reverseRecOn with
  | nil => exact absurd h List.not_mem_nil
  | append_singleton uses use ih =>
    rw [uses_append] at h
    obtain hmem | ⟨rfl, hid⟩ := mem_observers_use h
    · obtain ⟨earlier, later, heq, hid⟩ := ih hmem
      exact ⟨earlier, later ++ [use], by rw [heq, List.append_assoc, List.cons_append], hid⟩
    · exact ⟨uses, [], rfl, hid⟩

/-- Whatever is done with a new board: each observer who is still on it was subscribed at some point, and
all that it was told from the beginning leads from the value that was at its key by then to the value that
is there now. A write that changes the board tells all who watch the key, each of them once and the oldest
first, and nothing else tells anybody. -/
theorem observers_replay (uses : List Use) :
    let board := (({} : Board).uses uses).1
    let told := (({} : Board).uses uses).2
    (∀ subscription ∈ board.observers,
      (∃ earlier later, uses = earlier ++ .subscribe subscription.key :: later ∧
        ((({} : Board).uses earlier).1.subscribe subscription.key).1 = subscription.id) ∧
      ∀ earlier later, uses = earlier ++ .subscribe subscription.key :: later →
        ((({} : Board).uses earlier).1.subscribe subscription.key).1 = subscription.id →
        subscription.Replays ((({} : Board).uses earlier).1.get? subscription.key)
          (Notice.to subscription.id told) (board.get? subscription.key)) ∧
    ∀ use, (use.written? = none → (board.use use).2 = []) ∧
      ∀ key, use.written? = some key →
        (board.observersOf key).Pairwise (·.index < ·.index) ∧
        (∀ id, id ∈ board.observersOf key ↔ ⟨id, key⟩ ∈ board.observers) ∧
        (board.use use = (board, []) ∨
          (board.use use).2.map (·.observer) = board.observersOf key) := by
  intro board told
  have hnumbered := numbered_empty.uses uses
  refine ⟨fun subscription hstays => ⟨exists_subscribe uses hstays, ?_⟩, fun use => ⟨?_, ?_⟩⟩
  · rintro earlier later rfl hid
    exact numbered_empty.replays_subscribed earlier later hid hstays
  · intro hnone
    cases use with
    | set _ _ | remove _ => cases hnone
    | _ => rfl
  · intro key hwritten
    refine ⟨hnumbered.observersOf_increasing key, fun _ => mem_observersOf, ?_⟩
    obtain hsame | ⟨new, heq⟩ := use_write _ hwritten
    · exact .inl hsame
    · refine .inr ?_
      rw [heq, replace_snd, List.map_map]
      exact List.map_id _

/-- The second zero is the same number as the first one and is not stored. -/
theorem zeros_replayed :
    let uses : List Use := [.set "heading" (.number 0), .subscribe "heading",
      .set "heading" (.number (-0.0)), .set "heading" (.bool true), .remove "heading"]
    let subscription : Subscription := ⟨⟨0⟩, "heading"⟩
    subscription ∈ (({} : Board).uses uses).1.observers ∧
      Notice.to ⟨0⟩ (({} : Board).uses uses).2 =
        [⟨⟨0⟩, "heading", some (.number 0), some (.bool true)⟩,
          ⟨⟨0⟩, "heading", some (.bool true), none⟩] ∧
      subscription.Replays (some (.number 0)) (Notice.to ⟨0⟩ (({} : Board).uses uses).2) none :=
  ⟨List.mem_singleton_self _, rfl,
    ((observers_replay _).1 ⟨⟨0⟩, "heading"⟩ (List.mem_singleton_self _)).2
      [.set "heading" (.number 0)] _ rfl rfl⟩

end Board

end BehaviorTree
