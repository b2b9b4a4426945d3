import BehaviorTree.Proofs.Time.Advance
import BehaviorTree.Proofs.Equivalence.Likeness

namespace BehaviorTree

variable {A : Type} {bond : Bond} {tree other : Tree A}

namespace Tree

mutual

theorem fresh_loose : (tree : Tree A) → (random : Random) → tree.loose (tree.fresh random).1 = 0
  | .action _ _, _ => rfl
  | .wait _ _, _ => rfl
  | .leaf _, _ => rfl
  | .sequence children, random => freshList_loose children random
  | .selector children, random => freshList_loose children random
  | .condition _ _ child, random => (zero_add _).trans (freshOption_loose child random)
  | .service _ _ _ child, random => freshOption_loose child random

theorem freshList_loose : (trees : List (Tree A)) → (random : Random) →
    looseList trees (freshList trees random).1 = 0
  | [], _ => rfl
  | tree :: trees, random => (congrArg₂ (· + ·) (fresh_loose tree random)
    (freshList_loose trees (tree.fresh random).2)).trans (add_zero 0)

theorem freshOption_loose : (tree : Option (Tree A)) → (random : Random) →
    looseOption tree (freshOption tree random).1 = 0
  | none, _ => rfl
  | some tree, random => fresh_loose tree random

end

end Tree

/-- A call on the root, or a read or write of one value on its board. To clear the board is no write. It
tells no observer, and drops those that conditions keep while they wait, which need not be the same ones
in trees that do the same. -/
def Call.Plain : Call A → Prop
  | .clear | .watch _ _ | .unwatch _ => False
  | _ => True

namespace Root

/-- The host sees the same of both roots: the agent, the status, the blackboard, the warnings and the
actions that ran. -/
structure SameView (left right : Root A) : Prop where
  agent_eq : left.world.agent = right.world.agent
  active_eq : left.active = right.active
  status_eq : left.status = right.status
  values_eq : left.world.board.values = right.world.board.values
  reports_eq : left.world.reports = right.world.reports
  now_eq : left.world.now = right.world.now

/-- The trees of the two roots are in step, or both rest and hold nothing. -/
inductive SideBySide (likeness : Tree.Likeness bond tree other) : Root A → Root A → Prop
  | active {state : tree.State} {state' : other.State} {world world' : World A}
    {links : Multiset Link} {initial : Values} : likeness.Close state state' links →
    World.Linked bond links world world' →
    SideBySide likeness ⟨tree, state, world, initial, true⟩ ⟨other, state', world', initial, true⟩
  | resting {state : tree.State} {state' : other.State} {world world' : World A} {initial : Values} :
    Slumber tree.rest other.rest state state' 0 → World.Linked bond 0 world world' →
    SideBySide likeness ⟨tree, state, world, initial, false⟩ ⟨other, state', world', initial, false⟩

namespace SideBySide

variable {likeness : Tree.Likeness bond tree other} {left right : Root A}

/-- Whatever happens to the worlds, as long as they stay linked, the roots stay side by side. -/
theorem linked (h : SideBySide likeness left right) :
    ∃ links, World.Linked bond links left.world right.world ∧
      (∀ a b, .timer a b ∈ links → World.Linked.Answers bond links (left.tree.fire left.state)
        (right.tree.fire right.state) a b) ∧
      ∀ {world world' : World A}, World.Linked bond links world world' →
        SideBySide likeness { left with world } { right with world := world' } := by
  cases h with
  | @active state state' _ _ links _ hclose hlinked =>
    refine ⟨links, hlinked, fun a b hmem => ?_, fun hlater => .active hclose hlater⟩
    have hanswers : World.Linked.Answers bond (links + 0) (tree.fire state) (other.fire state') a b :=
      likeness.fire hclose hmem
    rwa [add_zero] at hanswers
  | resting hslumber hlinked =>
    exact ⟨0, hlinked, fun _ _ hmem => absurd hmem (Multiset.notMem_zero _),
      fun hlater => .resting hslumber hlater⟩

theorem status_eq (h : SideBySide likeness left right) : left.status = right.status := by
  cases h with
  | active hclose _ => exact likeness.status_eq hclose
  | @resting state state' _ _ _ hslumber _ =>
    have hleft : Subtree.Quiet ⟨tree, state⟩ := hslumber.left
    have hright : Subtree.Quiet ⟨other, state'⟩ := hslumber.right
    exact hleft.status_eq.trans hright.status_eq.symm

theorem active_eq (h : SideBySide likeness left right) : left.active = right.active := by
  cases h <;> rfl

theorem sameView (h : SideBySide likeness left right) : SameView left right := by
  obtain ⟨links, hlinked, -⟩ := h.linked
  exact ⟨hlinked.agent_eq, h.active_eq, h.status_eq, hlinked.values_eq, hlinked.reports_eq,
    hlinked.now_eq⟩

theorem clock_eq (h : SideBySide likeness left right) (hstrict : bond.strict = true) :
    left.world.clock = right.world.clock := by
  obtain ⟨links, hlinked, -⟩ := h.linked
  exact (hlinked.clock_eq hstrict).1

theorem opened (likeness : Tree.Likeness bond tree other) (htree : tree.BuiltIn)
    (hother : other.BuiltIn) {board : Board} (agent : A) {react : Notice → A → A} (random : Random)
    (hown : bond.own = board.observers.map (·.id)) (hsound : board.Sound)
    (hsilent : ∀ notice agent, board.isSubscribed notice.observer = false →
      react notice agent = agent) :
    SideBySide likeness (Root.opened tree board agent react random)
      (Root.opened other board agent react random) := by
  have hslumber : Slumber tree.rest other.rest (tree.fresh random).1 (other.fresh random).1 0 := by
    refine ⟨(Tree.fresh_quiet tree random htree).1, (Tree.fresh_quiet other random hother).1,
      (likeness.fresh_eq random).1, ?_⟩
    simp only [Tree.rest, Tree.fresh_loose, Link.swaps_zero, add_zero]
  have hholds : World.Holds { agent, board, react } (0 + bond.handles) := by
    rw [zero_add, Bond.handles, hown]
    exact World.holds_opened agent react hsound
  have hquiet : ∀ notice agent, notice.observer ∉ bond.own → react notice agent = agent := by
    intro notice agent hnot
    apply hsilent
    rw [← Bool.not_eq_true, Board.isSubscribed_iff]
    rintro ⟨subscription, hmem, heq⟩
    rw [hown] at hnot
    exact hnot (List.mem_map.mpr ⟨subscription, hmem, heq⟩)
  exact .resting hslumber ⟨hholds, hholds, rfl, rfl, rfl, rfl, rfl, rfl, hquiet, rfl, nofun,
    fun _ _ _ _ => nofun, fun _ => ⟨rfl, fun _ _ => nofun⟩⟩

theorem mapWorld (h : SideBySide likeness left right) {f : World A → World A}
    (hmap : ∀ {links : Multiset Link} {world world' : World A}, World.Linked bond links world world' →
      World.Linked bond links (f world) (f world')) :
    SideBySide likeness (left.mapWorld f) (right.mapWorld f) := by
  obtain ⟨links, hlinked, -, hnext⟩ := h.linked
  exact hnext (hmap hlinked)

theorem start (h : SideBySide likeness left right) : SideBySide likeness left.start right.start := by
  cases h with
  | active hclose hlinked => exact .active hclose hlinked
  | resting hslumber hlinked =>
    obtain ⟨links, hclose, hstarted⟩ :=
      likeness.start ⟨0, .inr hslumber, by rw [zero_add]; exact hlinked⟩
    rw [add_zero] at hstarted
    exact .active hclose hstarted

theorem stop (h : SideBySide likeness left right) : SideBySide likeness left.stop right.stop := by
  cases h with
  | resting hslumber hlinked => exact .resting hslumber hlinked
  | active hclose hlinked =>
    obtain ⟨hslumber, hreleased⟩ :=
      likeness.release ⟨_, .inl hclose, by rw [add_zero]; exact hlinked⟩
    rw [stop_eq _ rfl, stop_eq _ rfl]
    exact .resting hslumber (hreleased.reset _)

theorem evaluated {state : tree.State} {state' : other.State} {world world' : World A}
    {links : Multiset Link} (initial : Values) (hnear : likeness.Near state state' links)
    (hlinked : World.Linked bond links world world')
    (hover : bond.Allows (tree.tick state world).2.2) :
    SideBySide likeness (evaluated ⟨tree, state, world, initial, true⟩)
      (evaluated ⟨other, state', world', initial, true⟩) := by
  rw [← add_zero links] at hlinked
  obtain ⟨-, later, hclose, hticked⟩ := likeness.tick ⟨links, hnear, hlinked⟩ hover
  rw [add_zero] at hticked
  exact .active hclose hticked

theorem tick (h : SideBySide likeness left right) (hover : bond.Allows left.tick.world) :
    SideBySide likeness left.tick right.tick := by
  have hstatus := h.status_eq
  cases h with
  | resting hslumber hlinked => exact .resting hslumber hlinked
  | active hclose hlinked =>
    rw [tick_eq _ rfl] at hover ⊢
    rw [tick_eq _ rfl, ← hstatus]
    split
    · rename_i hended
      rw [if_pos hended] at hover
      obtain ⟨hslumber, hreleased⟩ :=
        likeness.release ⟨_, .inl hclose, by rw [add_zero]; exact hlinked⟩
      exact evaluated _ (.inr hslumber) hreleased hover
    · rename_i hgoing
      rw [if_neg hgoing] at hover
      exact evaluated _ (.inl hclose) hlinked hover

theorem advance_strict (h : SideBySide likeness left right) (hstrict : bond.strict = true)
    (dt : Duration) : SideBySide likeness (left.advance dt) (right.advance dt) := by
  obtain ⟨links, hlinked, hanswers, hnext⟩ := h.linked
  exact hnext (hlinked.advance hstrict hanswers dt)

theorem elapses (h : SideBySide likeness left right) {dt : Duration} {after after' : World A}
    (hleft : World.Elapses (left.tree.fire left.state) (left.world.now + dt) left.world after)
    (hright : World.Elapses (right.tree.fire right.state) (right.world.now + dt) right.world after') :
    SideBySide likeness { left with world := after } { right with world := after' } := by
  obtain ⟨links, hlinked, hanswers, hnext⟩ := h.linked
  rw [← hlinked.now_eq] at hright
  obtain ⟨hdrains⟩ := hleft
  exact hnext (World.Linked.elapses hanswers hlinked hdrains hright)

theorem call (h : SideBySide likeness left right) (call : Call A) (hcall : call.Plain)
    (hover : bond.Allows (left.call call).world)
    (hadvance : ∀ dt, call = .advance dt ∨ call = .update dt →
      SideBySide likeness (left.advance dt) (right.advance dt)) :
    SideBySide likeness (left.call call) (right.call call) := by
  cases call with
  | start => exact h.start
  | tick => exact h.tick hover
  | advance dt => exact hadvance dt (.inl rfl)
  | update dt => exact (hadvance dt (.inr rfl)).tick hover
  | stop => exact h.stop
  | steer f => exact h.mapWorld fun hlinked => hlinked.mapAgent f
  | set key value => exact h.mapWorld fun hlinked => (hlinked.set key value).2
  | remove key => exact h.mapWorld fun hlinked => (hlinked.remove key).2
  | getNumber key => exact h.mapWorld fun hlinked => (hlinked.getNumber key).2
  | getBool key => exact h.mapWorld fun hlinked => (hlinked.getBool key).2
  | clear | watch _ _ | unwatch _ => exact hcall.elim

end SideBySide

end Root

namespace Session

variable {likeness : Tree.Likeness bond tree other} {initial initial' : Values}
variable {left right : Session A}

theorem Reachable.advance_beside (htree : tree.BuiltIn) (hother : other.BuiltIn)
    (h : Reachable tree initial left) (h' : Reachable other initial' right)
    (hbeside : Root.SideBySide likeness left.root right.root) (dt : Duration)
    (hover : bond.strict = false → (left.root.advance dt).world.clock.overflowed = false ∧
      (right.root.advance dt).world.clock.overflowed = false) :
    Root.SideBySide likeness (left.root.advance dt) (right.root.advance dt) := by
  cases hstrict : bond.strict with
  | true => exact hbeside.advance_strict hstrict dt
  | false =>
    obtain ⟨hfine, hfine'⟩ := hover hstrict
    have hkept := h.kept htree
    have hkept' := h'.kept hother
    have hpunctual := h.punctual htree ((hkept.advance dt).fine hfine)
    have hpunctual' := h'.punctual hother ((hkept'.advance dt).fine hfine')
    exact hbeside.elapses (hkept.advance_elapses hpunctual hfine).2.2
      (hkept'.advance_elapses hpunctual' hfine').2.2

theorem Reachable.call_beside (htree : tree.BuiltIn) (hother : other.BuiltIn)
    (h : Reachable tree initial left) (h' : Reachable other initial' right)
    (hbeside : Root.SideBySide likeness left.root right.root) {call : Call A} (hcall : call.Plain)
    (hover : bond.strict = false → (left.call call).root.world.clock.overflowed = false ∧
      (right.call call).root.world.clock.overflowed = false) :
    Root.SideBySide likeness (left.call call).root (right.call call).root := by
  refine hbeside.call call hcall (fun hloose => (hover hloose).1) fun dt hdt => ?_
  refine h.advance_beside htree hother h' hbeside dt fun hloose => ?_
  obtain ⟨hfine, hfine'⟩ := hover hloose
  obtain rfl | rfl := hdt
  · exact ⟨hfine, hfine'⟩
  · exact ⟨(h.kept htree).advance_fine dt hfine, (h'.kept hother).advance_fine dt hfine'⟩

theorem Reachable.calls_beside (htree : tree.BuiltIn) (hother : other.BuiltIn)
    (h : Reachable tree initial left) (h' : Reachable other initial' right)
    (hbeside : Root.SideBySide likeness left.root right.root) (calls : List (Call A))
    (hcalls : ∀ call ∈ calls, call.Plain)
    (hover : bond.strict = false → (left.calls calls).root.world.clock.overflowed = false ∧
      (right.calls calls).root.world.clock.overflowed = false) :
    Root.SideBySide likeness (left.calls calls).root (right.calls calls).root := by
  induction calls generalizing left right with
  | nil => exact hbeside
  | cons call calls ih =>
    obtain ⟨hcall, hrest⟩ := List.forall_mem_cons.mp hcalls
    have hnext := h.called call
    have hnext' := h'.called call
    refine ih hnext hnext' ?_ hrest hover
    -- An overflow on the way would still show at the end.
    exact h.call_beside htree hother h' hbeside hcall fun hloose =>
      ⟨((hnext.kept htree).calls calls).fine (hover hloose).1,
        ((hnext'.kept hother).calls calls).fine (hover hloose).2⟩

end Session

namespace Root

theorem SideBySide.calls (likeness : Tree.Likeness bond tree other) (htree : tree.BuiltIn)
    (hother : other.BuiltIn) {board : Board} {agent : A} {react : Notice → A → A} {random : Random}
    {left right : Root A} (hown : bond.own = board.observers.map (·.id)) (hsound : board.Sound)
    (hsilent : ∀ notice agent, board.isSubscribed notice.observer = false →
      react notice agent = agent)
    (hleft : withBoard tree board agent react random = .ok left)
    (hright : withBoard other board agent react random = .ok right) (calls : List (Call A))
    (hcalls : ∀ call ∈ calls, call.Plain)
    (hover : bond.strict = false → (left.calls calls).world.clock.overflowed = false ∧
      (right.calls calls).world.clock.overflowed = false) :
    SideBySide likeness (left.calls calls) (right.calls calls) := by
  have h : Session.Reachable tree board.values ⟨left, board.observers.map (·.id)⟩ :=
    .opened hsound rfl hsilent hleft
  have h' : Session.Reachable other board.values ⟨right, board.observers.map (·.id)⟩ :=
    .opened hsound rfl hsilent hright
  have hbeside : SideBySide likeness left right := by
    obtain ⟨-, rfl⟩ := withBoard_eq_ok.mp hleft
    obtain ⟨-, rfl⟩ := withBoard_eq_ok.mp hright
    exact .opened likeness htree hother agent random hown hsound hsilent
  have hroot := Session.calls_root ⟨left, board.observers.map (·.id)⟩ calls
  have hroot' := Session.calls_root ⟨right, board.observers.map (·.id)⟩ calls
  rw [← hroot, ← hroot'] at hover ⊢
  exact h.calls_beside htree hother h' hbeside calls hcalls hover

end Root

end BehaviorTree
