import BehaviorTree.Proofs.Conditions.NoLostWakeUp
import BehaviorTree.Proofs.Time.Refreshes

namespace BehaviorTree

variable {A : Type}

namespace World

variable {world : World A} {guard : Guard} {observer : Option ObserverId}

theorem startedHolding_eq_true (h : (world.startedHolding guard observer).1 = true) :
    ∃ id, observer = some id ∧ world.board.isPending id = true ∧ guard.holds world.board = true := by
  cases observer with
  | none => cases h
  | some id =>
    cases hpending : world.board.isPending id with
    | false =>
      rw [startedHolding, if_neg (by simp [hpending])] at h
      cases h
    | true => exact ⟨id, rfl, hpending, (startedHolding_of_pending hpending).symm.trans h⟩

end World

namespace Tree

/-- One of the conditions may take over in this way: it is inactive, its guard holds, and its flag is
up. -/
def Justifies (world : World A) (kind : Preemption) (keepers : Multiset Keeper) : Prop :=
  ∃ guard policy id, .condition guard policy .inactive (some id) ∈ keepers ∧
    policy.preemption? = some kind ∧ guard.holds world.board = true ∧ world.board.isPending id = true

theorem Justifies.mono {world : World A} {kind : Preemption} {keepers more : Multiset Keeper}
    (h : Justifies world kind keepers) (hle : keepers ≤ more) : Justifies world kind more := by
  obtain ⟨guard, policy, id, hmem, hrest⟩ := h
  exact ⟨guard, policy, id, Multiset.mem_of_le hle hmem, hrest⟩

mutual

theorem preempts_justified : (tree : Tree A) → (state : tree.State) → (world : World A) →
    ∀ kind, (tree.preempts state world).1 = some kind → Justifies world kind (tree.keepers state)
  | .action _ _, _, _ => nofun
  | .wait _ _, _, _ => nofun
  | .leaf _, _, _ => nofun
  | .sequence _, _, _ => nofun
  | .selector _, _, _ => nofun
  | .condition guard policy child, state, world => by
    intro kind h
    rw [preempts] at h
    split at h
    · cases h
    · rename_i hpolicy
      split at h
      · cases h
      · rename_i hidle
        dsimp only at h
        split at h
        · rename_i hholds
          cases h
          obtain ⟨id, hobserver, hpending, hholds⟩ := World.startedHolding_eq_true hholds
          refine ⟨guard, policy, id, ?_, hpolicy, hholds, hpending⟩
          rw [keepers, not_not.mp hidle, hobserver]
          exact Multiset.mem_add.mpr (.inl (Multiset.mem_singleton_self _))
        · cases h
  | .service _ _ _ child, state, world => fun kind h =>
    (preemptsOption_justified child state.child world kind h).mono (Multiset.le_add_left _ _)

theorem preemptsOption_justified : (tree : Option (Tree A)) → (state : StateOption tree) →
    (world : World A) → ∀ kind, (preemptsOption tree state world).1 = some kind →
    Justifies world kind (keepersOption tree state)
  | none, _, _ => nofun
  | some tree, state, world => preempts_justified tree state world

end

theorem firstPreempting_justified (trees : List (Tree A)) (limit : Nat) (states : StateList trees)
    (world : World A) {winner : Nat} {kind : Preemption}
    (h : (firstPreempting trees limit states world).1 = some (winner, kind)) :
    ∃ child, (Subtree.ofList trees states)[winner]? = some child ∧
      Justifies world kind child.keepers := by
  induction trees generalizing limit world winner with
  | nil => cases h
  | cons tree trees ih =>
    obtain ⟨state, states⟩ := states
    cases limit with
    | zero => cases h
    | succ limit =>
      have hjustified := preempts_justified tree state world
      obtain ⟨hvalues, hstill⟩ := preempts_still tree state world
      rw [firstPreempting] at h
      split at h
      · rename_i heq
        cases h
        exact ⟨⟨tree, state⟩, rfl, hjustified kind (by rw [heq])⟩
      · rename_i asked heq
        rw [heq] at hvalues hstill
        obtain ⟨⟨later, kind⟩, hfound, hpair⟩ := Option.map_eq_some_iff.mp h
        cases hpair
        obtain ⟨child, hchild, guard, policy, id, hmem, hpolicy, hholds, hpending⟩ :=
          ih limit states asked hfound
        -- What the first child was asked changed neither the value nor the flag.
        have hsame : guard.holds asked.board = guard.holds world.board :=
          guard.holds_congr (congrArg (·.get? guard.key) hvalues)
        refine ⟨child, hchild, guard, policy, id, hmem, hpolicy, hsame.symm.trans hholds, ?_⟩
        by_contra hdown
        exact absurd ((hstill id (by simpa using hdown)).symm.trans hpending) (by simp)

theorem preempts_of_not_pending (guard : Guard) (policy : RestartPolicy) (child : Option (Tree A))
    (state : (Tree.condition guard policy child).State) (world : World A) {id : ObserverId}
    (hobserver : state.observer = some id) (hdown : world.board.isPending id = false) :
    ((Tree.condition guard policy child).preempts state world).1 = none := by
  rw [preempts, hobserver, World.startedHolding, if_neg (by simp [hdown])]
  cases policy.preemption? with
  | none => rfl
  | some kind =>
    dsimp only
    split <;> rfl

end Tree

namespace Board

variable {board : Board} {key other : String}

theorem hushed_replace (hsound : board.Sound) (hother : other ≠ key) (new : Option Value) :
    board.Hushed key (board.replace other new).1 := by
  refine (keeps_replace board other new).hushed hsound fun id hmem hup => ?_
  obtain hbefore | ⟨told, htold, hindex⟩ := (isRaised_raiseAll _ _ _).mp hup
  · exact hbefore
  · obtain ⟨subscription, hfilter, hid⟩ := List.mem_map.mp htold
    obtain ⟨hsubscribed, hkey⟩ := List.mem_filter.mp hfilter
    have hsame : subscription.id = id := by
      rw [hid]
      cases told
      exact congrArg ObserverId.mk hindex
    have heq : subscription = ⟨id, key⟩ :=
      List.inj_on_of_nodup_map hsound.distinct hsubscribed hmem hsame
    rw [heq] at hkey
    exact absurd (of_decide_eq_true hkey).symm hother

theorem hushed_set (hsound : board.Sound) (value : Value)
    (hsame : other = key → (board.set other value).1 = false) :
    board.Hushed key (board.set other value).2.1 := by
  unfold set at hsame ⊢
  split
  · exact .refl hsound
  · rename_i hchange
    rw [if_neg hchange] at hsame
    exact hushed_replace hsound (fun heq => absurd (hsame heq) (by simp)) _

theorem hushed_remove (hsound : board.Sound) (hsame : other = key → (board.remove other).1 = none) :
    board.Hushed key (board.remove other).2.1 := by
  unfold remove at hsame ⊢
  split
  · exact .refl hsound
  · rename_i old hold
    rw [hold] at hsame
    exact hushed_replace hsound (fun heq => absurd (hsame heq) (by simp)) _

end Board

/-- Whatever the routine writes to the key stands there already. -/
def Routine.Rewrites (key : String) : Routine A → World A → Prop
  | .done, _ => True
  | .act effect next, world => next.Rewrites key (world.mapAgent effect)
  | .look next, world => (next world.agent).Rewrites key world
  | .get other next, world => (next (world.get? other)).Rewrites key world
  | .getNumber other next, world =>
    (next (world.getNumber other).1).Rewrites key (world.getNumber other).2
  | .getBool other next, world => (next (world.getBool other).1).Rewrites key (world.getBool other).2
  | .set other value next, world => (other = key → (world.set other value).1 = false) ∧
    (next (world.set other value).1).Rewrites key (world.set other value).2
  | .remove other next, world => (other = key → (world.remove other).1 = none) ∧
    (next (world.remove other).1).Rewrites key (world.remove other).2

instance Routine.decidableRewrites (key : String) : (routine : Routine A) → (world : World A) →
    Decidable (routine.Rewrites key world)
  | .done, _ => .isTrue trivial
  | .act effect next, world => next.decidableRewrites key (world.mapAgent effect)
  | .look next, world => (next world.agent).decidableRewrites key world
  | .get other next, world => (next (world.get? other)).decidableRewrites key world
  | .getNumber other next, world =>
    (next (world.getNumber other).1).decidableRewrites key (world.getNumber other).2
  | .getBool other next, world =>
    (next (world.getBool other).1).decidableRewrites key (world.getBool other).2
  | .set other value next, world =>
    have := (next (world.set other value).1).decidableRewrites key (world.set other value).2
    inferInstanceAs (Decidable (_ ∧ _))
  | .remove other next, world =>
    have := (next (world.remove other).1).decidableRewrites key (world.remove other).2
    inferInstanceAs (Decidable (_ ∧ _))

theorem Routine.run_hushed {key : String} (routine : Routine A) (world : World A)
    (h : routine.Rewrites key world) (hsound : world.board.Sound) :
    world.board.Hushed key (routine.run world).board := by
  induction routine generalizing world with
  | done => exact .refl hsound
  | act effect next ih => exact ih _ h hsound
  | look next ih | get other next ih => exact ih _ world h hsound
  | getNumber other next ih =>
    have hread := (world.idles_getNumber other).hushed hsound key
    exact hread.trans (ih _ _ h hread.sound)
  | getBool other next ih =>
    have hread := (world.idles_getBool other).hushed hsound key
    exact hread.trans (ih _ _ h hread.sound)
  | set other value next ih =>
    have hset := Board.hushed_set hsound value h.1
    exact hset.trans (ih _ _ h.2 hset.sound)
  | remove other next ih =>
    have hremoved := Board.hushed_remove hsound h.1
    exact hremoved.trans (ih _ _ h.2 hremoved.sound)

def Refresh.Rewrites (key : String) (run : Refresh A) : Prop :=
  run.callback.Rewrites key (run.world.record (.refreshed run.timer run.world.now))

instance (key : String) (run : Refresh A) : Decidable (run.Rewrites key) :=
  inferInstanceAs (Decidable (Routine.Rewrites _ _ _))

theorem World.timekeeping_hushed (key : String) : Timekeeping fun before after : World A => fun runs =>
    before.board.Sound → (∀ run ∈ runs, run.Rewrites key) → before.board.Hushed key after.board where
  trans h k hsound hruns := by
    obtain ⟨hfirst, hlater⟩ := List.forall_mem_append.mp hruns
    have hmiddle := h hsound hfirst
    exact hmiddle.trans (k hmiddle.sound hlater)
  idle h hsound _ := h.hushed hsound key
  elapse _ _ hsound _ := .refl hsound
  run run hsound hruns := run.callback.run_hushed _ (hruns run (List.mem_singleton_self run)) hsound

/-- In the call, whatever the host or a service writes to the key stands there already. -/
def Root.Rewrites (key : String) (root : Root A) : Call A → Prop
  | .set other value => other = key → (root.world.set other value).1 = false
  | .remove other => other = key → (root.world.remove other).1 = none
  | call => ∀ run ∈ root.refreshes call, run.Rewrites key

instance Root.decidableRewrites (key : String) (root : Root A) :
    (call : Call A) → Decidable (root.Rewrites key call)
  | .set other value => inferInstanceAs (Decidable (other = key → (root.world.set other value).1 = false))
  | .remove other => inferInstanceAs (Decidable (other = key → (root.world.remove other).1 = none))
  | .start | .tick | .advance _ | .update _ | .stop | .steer _ | .getNumber _ | .getBool _ | .clear
  | .watch _ _ | .unwatch _ => inferInstanceAs (Decidable (∀ run ∈ root.refreshes _, run.Rewrites key))

theorem Root.call_hushed {root : Root A} {key : String} {call : Call A} (htree : root.tree.BuiltIn)
    (h : root.Rewrites key call) (hsound : root.world.board.Sound) :
    root.world.board.Hushed key (root.call call).world.board := by
  refine root.call_tallies (World.timekeeping_hushed key) htree call ?_ ?_ hsound ?_
  · rintro other value rfl hsound -
    exact Board.hushed_set hsound value h
  · rintro other rfl hsound -
    exact Board.hushed_remove hsound h
  · cases call with
    | set other value | remove other => exact nofun
    | start | tick | advance _ | update _ | stop | steer _ | getNumber _ | getBool _ | clear | watch _ _
    | unwatch _ => exact h

namespace Session

variable {tree : Tree A} {initial : Values} {session : Session A} {key : String}

/-- The host takes no observer off the board that is not its own, and whatever is written to the key, by
the host or by a service, stands there already. -/
def Rewrites (key : String) (session : Session A) : List (Call A) → Prop
  | [] => True
  | call :: calls => call.Spares session.own ∧ session.root.Rewrites key call ∧
    (session.call call).Rewrites key calls

theorem Undisturbed.rewritten (htree : tree.BuiltIn) (h : Undisturbed tree initial session)
    {calls : List (Call A)} (hcalls : session.Rewrites key calls) :
    Undisturbed tree initial (session.calls calls) ∧
      session.root.world.board.Hushed key (session.calls calls).root.world.board := by
  have hsound := (h.reachable.kept htree).holds.sound
  induction calls generalizing session with
  | nil => exact ⟨h, .refl hsound⟩
  | cons call calls ih =>
    obtain ⟨hspares, hcall, hcalls⟩ := hcalls
    have hown : session.root.tree.BuiltIn := h.reachable.tree_eq ▸ htree
    have hhushed := Root.call_hushed hown hcall hsound
    obtain ⟨hlater, hrest⟩ := ih (h.called call hspares) hcalls hhushed.sound
    exact ⟨hlater, hhushed.trans hrest⟩

/-- In each state that a host can come to that does not take the observers off the board: a condition does
not ask to take over if the flag of its observer was down before some calls in which no write, of the host
or of a service, changes the value at its key. And whenever a selector's tick hands over the turn, it is on
behalf of a condition that may take over in this way, whose guard holds and whose flag is up. -/
theorem Undisturbed.asks_on_change (htree : tree.BuiltIn) (h : Undisturbed tree initial session) :
    (∀ calls position guard policy child, ∀ state : (Tree.condition guard policy child).State, ∀ id,
      session.Rewrites guard.key calls →
      (session.calls calls).root.node.at? position = some ⟨.condition guard policy child, state⟩ →
      state.observer = some id → session.root.world.board.isPending id = false →
      ((Tree.condition guard policy child).preempts state (session.calls calls).root.world).1 = none) ∧
    ∀ children : List (Tree A), ∀ state world winner, Tree.TakesOver children state world winner →
      ∃ child kind, (Subtree.ofList children state.children)[winner]? = some child ∧
        Tree.Justifies world kind child.keepers := by
  refine ⟨?_, ?_⟩
  · intro calls position guard policy child state id hcalls hposition hobserver hdown
    obtain ⟨hlater, hhushed⟩ := h.rewritten htree hcalls
    obtain ⟨-, hsupports, -⟩ := hlater.ready_below htree hposition
    have hwatches := (hsupports.watchful _ (Subtree.keeper?_mem rfl)).2 id hobserver
    refine Tree.preempts_of_not_pending guard policy child state _ hobserver
      (Bool.eq_false_iff.mpr fun hup => ?_)
    exact Bool.false_ne_true (hdown.symm.trans (hhushed.untold id hwatches.subscribed hup))
  · rintro children state world winner ⟨kind, asked, hfound, -⟩
    obtain ⟨child, hchild, hjustified⟩ := Tree.firstPreempting_justified children state.current
      state.children world (congrArg Prod.fst hfound)
    exact ⟨child, kind, hchild, hjustified⟩

def diarist : List (Tree Nat) :=
  [.condition ⟨"alarm", .isSet, .bool true⟩ .immediateRestart (some (.wait 1 0)),
    .service "write" 2 (.put "diary" (.text "all quiet")) (some (.wait 10 0))]

theorem diarist_stays_calm :
    let session := Session.calls
      ⟨Root.opened (.selector diarist) {} 0 (fun _ agent => agent) (.ofSeed 0), []⟩ [.start, .tick]
    let later := session.calls [.set "note" (.text "milk"), .advance 5]
    let guard : Guard := ⟨"alarm", .isSet, .bool true⟩
    let child : Tree Nat := .wait 1 0
    later.root.world.refreshes ⟨0⟩ = [0, 2, 4] ∧
    ∃ state : (Tree.condition guard .immediateRestart (some child)).State,
      later.root.node.at? [0] = some ⟨.condition guard .immediateRestart (some child), state⟩ ∧
      state.observer = some ⟨0⟩ ∧
      ((Tree.condition guard .immediateRestart (some child)).preempts state later.root.world).1 =
        none := by
  intro session later guard child
  have hopened : Undisturbed (.selector diarist) .empty
      ⟨Root.opened (.selector diarist) {} 0 (fun _ agent => agent) (.ofSeed 0), []⟩ :=
    .opened (Board.sound_ofValues .empty) rfl (fun _ _ _ => rfl)
      (Root.withBoard_eq_ok.mpr ⟨⟨rfl, rfl⟩, rfl⟩)
  have h : session.Undisturbed (.selector diarist) .empty := hopened.calls _ (by simp [Call.Spares])
  have hcalls : session.Rewrites guard.key [.set "note" (.text "milk"), .advance 5] :=
    ⟨trivial, by decide, trivial, by decide, trivial⟩
  have hbuilt : (Tree.selector diarist).BuiltIn := ⟨trivial, trivial, trivial⟩
  obtain ⟨hquiet, -⟩ := h.asks_on_change hbuilt
  exact ⟨by decide, _, rfl, rfl, hquiet _ [0] guard .immediateRestart (some child) _ ⟨0⟩ hcalls rfl rfl
    (by decide)⟩

def scales : List (Tree Nat) :=
  [.condition ⟨"load", .isSet, .bool true⟩ .immediateRestart (some (.selector [])), .wait 5 0]

/-- There is a load on the scales all the time, and the guard held at the last evaluation. Still it
takes over once the load changes, and the rest begins anew. -/
theorem weighing_starts_over :
    let guard : Guard := ⟨"load", .isSet, .bool true⟩
    let session := Session.calls
      ⟨Root.opened (.selector scales) {} 0 (fun _ agent => agent) (.ofSeed 0), []⟩
      [.set "load" (.bool true), .start, .tick, .advance 3]
    let later := session.call (.set "load" (.bool false))
    later.Undisturbed (.selector scales) .empty ∧
    guard.holds session.root.world.board = true ∧ guard.holds later.root.world.board = true ∧
    (∃ state : (Tree.condition guard .immediateRestart (some (.selector (A := Nat) []))).State,
      later.root.node.at? [0] = some ⟨.condition guard .immediateRestart (some (.selector [])), state⟩ ∧
      state.status = .inactive ∧ state.observer = some ⟨0⟩ ∧
      ⟨⟨0⟩, "load"⟩ ∈ later.root.world.board.observers ∧
      later.root.world.lastVerdict ⟨0⟩ = some true ∧ ¬later.root.world.Dismissed ⟨0⟩ ∧
      ((Tree.condition guard .immediateRestart (some (.selector []))).preempts state
        later.root.world).1 = some .immediate) ∧
    .preempted 0 1 .immediate ∈ (later.call .tick).root.world.journal ∧
    (session.calls [.tick, .advance 2, .tick]).root.status = .succeeded ∧
    (later.calls [.tick, .advance 2, .tick]).root.status = .running := by
  intro guard session later
  have hopened : Undisturbed (.selector scales) .empty
      ⟨Root.opened (.selector scales) {} 0 (fun _ agent => agent) (.ofSeed 0), []⟩ :=
    .opened (Board.sound_ofValues .empty) rfl (fun _ _ _ => rfl)
      (Root.withBoard_eq_ok.mpr ⟨⟨rfl, rfl⟩, rfl⟩)
  have h : session.Undisturbed (.selector scales) .empty := hopened.calls _ (by simp [Call.Spares])
  exact ⟨.called _ trivial h, by decide, by decide, ⟨_, rfl, rfl, rfl, by decide, by decide, by decide,
    by decide⟩, by decide, by decide, by decide⟩

end Session

end BehaviorTree
