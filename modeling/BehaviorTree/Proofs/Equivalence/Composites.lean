import BehaviorTree.Proofs.Equivalence.ChildRows

namespace BehaviorTree.Tree

variable {A : Type} {bond : Bond} {goOn : Outcome} {trees others : List (Tree A)}

/-- Both composites run, with the turn at children that go together, or the children of both rest. -/
structure CompositeClose (row : Row bond goOn trees others) (state : CompositeState (StateList trees))
    (state' : CompositeState (StateList others)) (links : Multiset Link) : Prop where
  fit : FitComposite trees state
  status_eq : state.status = state'.status
  running : state.status = .running →
    row.At state.current state'.current state.children state'.children links
  asleep : state.status ≠ .running →
    Slumber (restList trees) (restList others) state.children state'.children links

structure CompositeIdle (row : Row bond goOn trees others) (state : CompositeState (StateList trees))
    (state' : CompositeState (StateList others)) (links : Multiset Link) : Prop where
  close : CompositeClose row state state' links
  left : state.status = .inactive ∧ QuietList trees state.children
  right : state'.status = .inactive ∧ QuietList others state'.children

variable {row : Row bond goOn trees others}
variable {state : CompositeState (StateList trees)} {state' : CompositeState (StateList others)}
variable {states : StateList trees} {states' : StateList others} {i j : Nat}
variable {world world' : World A} {links more : Multiset Link}

namespace CompositeClose

theorem of_slumber (hidle : state.status ≠ .running) (hstatus : state.status = state'.status)
    (h : Slumber (restList trees) (restList others) state.children state'.children links) :
    CompositeClose row state state' links :=
  ⟨.of_quiet h.left hidle, hstatus, fun hrun => absurd hrun hidle, fun _ => h⟩

theorem begin (h : CompositeClose row state state' links) :
    CompositeClose row state.begin state'.begin links := by
  have hfit := h.fit.begin
  by_cases hidle : state.status = .inactive
  · have hidle' : state'.status = .inactive := h.status_eq ▸ hidle
    have hasleep := h.asleep (by simp [hidle])
    rw [CompositeState.begin, if_pos hidle] at hfit ⊢
    rw [CompositeState.begin, if_pos hidle']
    exact ⟨hfit, rfl, fun _ => row.begin hasleep, fun hne => absurd rfl hne⟩
  · have hidle' : state'.status ≠ .inactive := h.status_eq ▸ hidle
    rw [CompositeState.begin, CompositeState.begin, if_neg hidle, if_neg hidle']
    exact h

theorem running_of_timer (h : CompositeClose row state state' links) {a b : Option TimerId}
    (hmem : .timer a b ∈ links) : state.status = .running :=
  by_contra fun hidle => (h.asleep hidle).timer_not_mem_list a b hmem

theorem stop
    (h : Beside bond (CompositeClose row) more (state, world) (state', world')) :
    Beside bond (CompositeIdle row) more ((Tree.sequence trees).stop state world)
      ((Tree.sequence others).stop state' world') := by
  obtain ⟨links, hclose, hlinked⟩ := h
  have hstatus : state.status = state'.status := hclose.status_eq
  rw [Tree.stop, Tree.stop]
  by_cases hidle : state.status = .inactive
  · have hasleep := hclose.asleep (show state.status ≠ .running by simp [hidle])
    rw [if_pos hidle, if_pos (hstatus ▸ hidle)]
    exact ⟨links, ⟨hclose, ⟨hidle, hasleep.left⟩, ⟨hstatus ▸ hidle, hasleep.right⟩⟩, hlinked⟩
  · have hstopped : Beside bond (Slumber (restList trees) (restList others)) more
        (stopAt trees state.current state.children world)
        (stopAt others state'.current state'.children world') := by
      by_cases hrun : state.status = .running
      · exact row.stop ⟨links, hclose.running hrun, hlinked⟩
      · have hasleep := hclose.asleep hrun
        have hbeside : Beside bond (Slumber (restList trees) (restList others)) more
            (state.children, world) (state'.children, world') := ⟨links, hasleep, hlinked⟩
        exact Slumber.stirs_right
          (Slumber.stirs hbeside (stopAt_stirs trees state.current state.children world hasleep.left))
          (stopAt_stirs others state'.current state'.children world' hasleep.right)
    obtain ⟨resting, hslumber, hlinked⟩ := hstopped
    rw [if_neg hidle, if_neg (hstatus ▸ hidle)]
    exact ⟨resting, ⟨.of_slumber (by simp) rfl hslumber, ⟨rfl, hslumber.left⟩, ⟨rfl, hslumber.right⟩⟩,
      hlinked⟩

theorem settle {outcome : Outcome} (hended : outcome ≠ .running)
    (h : Beside bond (Slumber (restList trees) (restList others)) more (states, world)
      (states', world')) :
    Beside bond (CompositeClose row) more (settle trees outcome i states world).2
      (settle others outcome j states' world').2 := by
  obtain ⟨resting, hslumber, hlinked⟩ := Slumber.releaseList h
  rw [Tree.settle, Tree.settle, if_neg hended, if_neg hended]
  exact ⟨resting, .of_slumber (mt Outcome.eq_running_of_status hended) rfl hslumber, hlinked⟩

theorem tickRest (hgo : goOn ≠ .running)
    (h : Beside bond (row.At i j) more (states, world) (states', world')) (hfit : FitAt trees i states)
    (hover : bond.Allows (tickRest goOn trees i states world).2.2) :
    (tickRest goOn trees i states world).1 = (tickRest goOn others j states' world').1 ∧
      Beside bond (CompositeClose row) more (tickRest goOn trees i states world).2
        (tickRest goOn others j states' world').2 := by
  have hticked := tickFrom_fit goOn hgo trees i states world hfit
  have hrested := hticked.rest.fit
  have hturned := row.turn h hfit
  rw [Tree.tickRest] at hover hrested ⊢
  rw [Tree.tickRest]
  rcases htick : tickFrom goOn trees i states world with ⟨outcome, next, ticked, after⟩
  rcases htick' : tickFrom goOn others j states' world' with ⟨outcome', next', ticked', after'⟩
  rw [htick] at hticked hover hrested hturned
  rw [htick'] at hturned
  dsimp only at hover hrested ⊢
  by_cases hrun : outcome = .running
  · rw [Tree.settle, if_pos hrun] at hover hrested ⊢
    have hboth := hturned hover
    obtain rfl : outcome = outcome' := hboth.outcome_eq
    rw [Tree.settle, if_pos hrun]
    obtain ⟨links, hat, hlinked⟩ := hboth.running hrun
    exact ⟨rfl, links, ⟨hrested, rfl, fun _ => hat,
      fun hne => absurd (congrArg Outcome.status hrun) hne⟩, hlinked⟩
  · have hreleased := (settle_quiet next after hrun (hticked.ended hrun)).deals.trades.follows
    have hboth := hturned (hreleased.allows hover)
    obtain rfl : outcome = outcome' := hboth.outcome_eq
    exact ⟨rfl, settle hrun (hboth.ended hrun)⟩

end CompositeClose

section Sequence

variable (row : Row bond .success trees others)

def Resemblance.sequence : Resemblance bond (.sequence trees) (.sequence others) where
  Close := CompositeClose row
  fit h := (fit_sequence _ _).mpr h.fit
  calm h hquiet := (h.asleep (by simp [hquiet.1])).timer_not_mem_list
  sleep hquiet hquiet' h := h.mono fun _ hclose =>
    have hasleep := hclose.asleep (hquiet.1.trans_ne (by simp))
    ⟨hquiet, hquiet', hasleep.leaves_eq, hasleep.links_eq⟩
  length_eq state state' := row.length_eq state.children state'.children
  fresh_eq random := row.fresh_eq random
  preempts _ _ _ h := ⟨rfl, h⟩
  fire {state state' links more a b} h hmem := by
    have hrun := h.running_of_timer hmem
    have hfire : (Tree.sequence trees).fire state = fireAt trees state.current state.children := by
      funext id world
      rw [Tree.fire, if_pos hrun]
    have hfire' : (Tree.sequence others).fire state' = fireAt others state'.current state'.children := by
      funext id world
      rw [Tree.fire, if_pos (h.status_eq ▸ hrun)]
    rw [hfire, hfire']
    exact row.fire (h.running hrun) hmem

variable {row}

theorem sequence_near (h : (Resemblance.sequence row).Near state state' links) :
    CompositeClose row state state' links := by
  obtain hclose | hslumber := h
  · exact hclose
  · exact .of_slumber (by simp [hslumber.left.1]) (hslumber.left.1.trans hslumber.right.1.symm)
      ⟨hslumber.left.2, hslumber.right.2, hslumber.leaves_eq, hslumber.links_eq⟩

theorem sequence_tick
    (h : Beside bond (Resemblance.sequence row).Near more (state, world) (state', world'))
    (hover : bond.Allows ((Tree.sequence trees).tick state world).2.2) :
    ((Tree.sequence trees).tick state world).1 = ((Tree.sequence others).tick state' world').1 ∧
      Beside bond (CompositeClose row) more ((Tree.sequence trees).tick state world).2
        ((Tree.sequence others).tick state' world').2 := by
  obtain ⟨links, hnear, hlinked⟩ := h
  have hbegun := (sequence_near hnear).begin
  rw [tick_sequence] at hover ⊢
  rw [tick_sequence, ← hbegun.status_eq]
  cases houtcome : state.begin.status.outcome? with
  | some outcome => exact ⟨rfl, links, hbegun, hlinked⟩
  | none =>
    rw [houtcome] at hover
    have hrun := state.begin_running houtcome
    exact CompositeClose.tickRest (by simp) ⟨links, hbegun.running hrun, hlinked⟩
      (hbegun.fit.current hrun) hover

variable (row)

def Likeness.sequence : Likeness bond (.sequence trees) (.sequence others) where
  toResemblance := Resemblance.sequence row
  status_eq h := h.status_eq
  start h := by
    obtain ⟨links, hnear, hlinked⟩ := h
    exact ⟨links, (sequence_near hnear).begin, hlinked⟩
  tick := sequence_tick
  stop h := (CompositeClose.stop h).mono fun _ hidle => ⟨hidle.close, hidle.left, hidle.right⟩

end Sequence

section Selector

variable (row : RankedRow bond trees others)

def Resemblance.selector : Resemblance bond (.selector trees) (.selector others) where
  Close := CompositeClose row.toRow
  fit h := (fit_selector _ _).mpr h.fit
  calm h hquiet := (h.asleep (by simp [hquiet.1])).timer_not_mem_list
  sleep hquiet hquiet' h := h.mono fun _ hclose =>
    have hasleep := hclose.asleep (hquiet.1.trans_ne (by simp))
    ⟨hquiet, hquiet', hasleep.leaves_eq, hasleep.links_eq⟩
  length_eq state state' := row.length_eq state.children state'.children
  fresh_eq random := row.fresh_eq random
  preempts _ _ _ h := ⟨rfl, h⟩
  fire {state state' links more a b} h hmem := by
    have hrun := h.running_of_timer hmem
    have hfire : (Tree.selector trees).fire state = fireAt trees state.current state.children := by
      funext id world
      rw [Tree.fire, if_pos hrun]
    have hfire' : (Tree.selector others).fire state' = fireAt others state'.current state'.children := by
      funext id world
      rw [Tree.fire, if_pos (h.status_eq ▸ hrun)]
    rw [hfire, hfire']
    exact row.fire (h.running hrun) hmem

variable {row}

theorem selector_near (h : (Resemblance.selector row).Near state state' links) :
    CompositeClose row.toRow state state' links := by
  obtain hclose | hslumber := h
  · exact hclose
  · exact .of_slumber (by simp [hslumber.left.1]) (hslumber.left.1.trans hslumber.right.1.symm)
      ⟨hslumber.left.2, hslumber.right.2, hslumber.leaves_eq, hslumber.links_eq⟩

/-- Both selectors go on at the same child, or both give up. -/
theorem arbitrate_close (hat : row.At state.current state'.current state.children state'.children links)
    (hlinked : World.Linked bond (links + more) world world') :
    (arbitrate trees state world).1 = (arbitrate others state' world').1 ∧
      (∀ i, (arbitrate trees state world).1 = some i →
        Beside bond (row.At i i) more (arbitrate trees state world).2
          (arbitrate others state' world').2) ∧
      ((arbitrate trees state world).1 = none →
        Beside bond (Slumber (restList trees) (restList others)) more (arbitrate trees state world).2
          (arbitrate others state' world').2) := by
  have hcurrent := row.current_eq hat
  obtain ⟨hfound, hasked⟩ := row.ask hat hlinked
  have hlt := firstPreempting_lt trees state.current state.children world
  rw [arbitrate, arbitrate]
  rcases hfirst : firstPreempting trees state.current state.children world with ⟨found, asked⟩
  rcases hfirst' : firstPreempting others state'.current state'.children world' with ⟨found', asked'⟩
  rw [hfirst] at hfound hasked hlt
  rw [hfirst'] at hfound hasked
  obtain rfl : found = found' := hfound
  cases found with
  | none =>
    refine ⟨congrArg some hcurrent, fun i hi => ?_, fun hi => ?_⟩
    · cases hi
      rw [← hcurrent] at hat
      exact ⟨links, hat, hasked⟩
    · cases hi
  | some found =>
    obtain ⟨winner, preemption⟩ := found
    have hrecorded := hasked.record (.preempted winner state.current preemption) rfl
    rw [hcurrent] at hat hrecorded hlt ⊢
    refine ⟨rfl, fun i hi => ?_, fun _ => row.stop ⟨links, hat, hrecorded⟩⟩
    cases preemption with
    | immediate =>
      cases hi
      exact row.takeOver (hlt _ rfl).le ⟨links, hat, hrecorded⟩
    | deferred => cases hi

theorem selector_tick
    (h : Beside bond (Resemblance.selector row).Near more (state, world) (state', world'))
    (hover : bond.Allows ((Tree.selector trees).tick state world).2.2) :
    ((Tree.selector trees).tick state world).1 = ((Tree.selector others).tick state' world').1 ∧
      Beside bond (CompositeClose row.toRow) more ((Tree.selector trees).tick state world).2
        ((Tree.selector others).tick state' world').2 := by
  obtain ⟨links, hnear, hlinked⟩ := h
  have hbegun := (selector_near hnear).begin
  rw [tick_selector] at hover ⊢
  rw [tick_selector, ← hbegun.status_eq]
  cases houtcome : state.begin.status.outcome? with
  | some outcome => exact ⟨rfl, links, hbegun, hlinked⟩
  | none =>
    rw [houtcome] at hover
    have hrun := state.begin_running houtcome
    have hfit := (arbitrate_fit trees state.begin world (hbegun.fit.current hrun)).1
    obtain ⟨hsame, hgo, hgiveUp⟩ := arbitrate_close (hbegun.running hrun) hlinked
    rcases harb : arbitrate trees state.begin world with ⟨next, states, asked⟩
    rcases harb' : arbitrate others state'.begin world' with ⟨next', states', asked'⟩
    rw [harb] at hfit hsame hgo hgiveUp hover
    rw [harb'] at hsame hgo hgiveUp
    obtain rfl : next = next' := hsame
    cases next with
    | some next => exact CompositeClose.tickRest (by simp) (hgo next rfl) (hfit next rfl) hover
    | none => exact ⟨rfl, CompositeClose.settle (by simp) (hgiveUp rfl)⟩

variable (row)

def Likeness.selector : Likeness bond (.selector trees) (.selector others) where
  toResemblance := Resemblance.selector row
  status_eq h := h.status_eq
  start h := by
    obtain ⟨links, hnear, hlinked⟩ := h
    exact ⟨links, (selector_near hnear).begin, hlinked⟩
  tick := selector_tick
  stop h := by
    rw [stop_selector, stop_selector]
    exact (CompositeClose.stop h).mono fun _ hidle => ⟨hidle.close, hidle.left, hidle.right⟩

end Selector

end BehaviorTree.Tree
