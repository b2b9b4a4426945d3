import BehaviorTree.Proofs.Lifecycle.TickFit

namespace BehaviorTree

/-- A tree with a state of it. -/
structure Subtree (A : Type) where
  tree : Tree A
  state : tree.State

namespace Subtree

variable {A : Type}

def ofList : (trees : List (Tree A)) → Tree.StateList trees → List (Subtree A)
  | [], _ => []
  | tree :: trees, (state, states) => ⟨tree, state⟩ :: ofList trees states

def ofOption : (tree : Option (Tree A)) → Tree.StateOption tree → List (Subtree A)
  | none, _ => []
  | some tree, state => [⟨tree, state⟩]

def children : Subtree A → List (Subtree A)
  | ⟨.sequence children, state⟩ => ofList children state.children
  | ⟨.selector children, state⟩ => ofList children state.children
  | ⟨.condition _ _ child, state⟩ => ofOption child state.child
  | ⟨.service _ _ _ child, state⟩ => ofOption child state.child
  | ⟨.action _ _, _⟩ => []
  | ⟨.wait _ _, _⟩ => []
  | ⟨.leaf _, _⟩ => []

/-- The node at a position below this one. -/
def at? : Subtree A → List Nat → Option (Subtree A)
  | node, [] => some node
  | node, i :: position => node.children[i]?.bind fun child => child.at? position

def status (node : Subtree A) : Status := node.tree.status node.state

/-- The index of the child whose turn it is, in a sequence or a selector. -/
def current? : Subtree A → Option Nat
  | ⟨.sequence _, state⟩ => some state.current
  | ⟨.selector _, state⟩ => some state.current
  | _ => none

def timer? : Subtree A → Option TimerId
  | ⟨.service _ _ _ _, state⟩ => state.timer
  | _ => none

/-- What a service runs. Other nodes run nothing when a timer fires. -/
def callback? : Subtree A → Option (Routine A)
  | ⟨.service _ _ callback _, _⟩ => some callback
  | _ => none

/-- Whether the node is a wait whose time has not passed. -/
def Awaits (now : Duration) : Subtree A → Prop
  | ⟨.wait _ _, state⟩ => now - state.startedAt < state.target
  | _ => False

def handles (node : Subtree A) : Multiset Handle := node.tree.handles node.state

/-- What the node alone holds. -/
def own : Subtree A → Multiset Handle
  | ⟨.condition _ _ _, state⟩ => Handle.observers state.observer
  | ⟨.service _ _ _ _, state⟩ => Handle.timers state.timer
  | _ => 0

def Quiet (node : Subtree A) : Prop := node.tree.Quiet node.state

def Fit (node : Subtree A) : Prop := node.tree.Fit node.state

variable {node child lower : Subtree A} {i j : Nat} {position : List Nat}

theorem handles_ofList (trees : List (Tree A)) (states : Tree.StateList trees) :
    ((ofList trees states).map handles).sum = Tree.handlesList trees states := by
  induction trees with
  | nil => rfl
  | cons tree trees ih => exact congrArg (tree.handles states.1 + ·) (ih states.2)

theorem handles_ofOption (tree : Option (Tree A)) (state : Tree.StateOption tree) :
    ((ofOption tree state).map handles).sum = Tree.handlesOption tree state := by
  cases tree with
  | none => rfl
  | some tree => exact add_zero _

theorem handles_eq (node : Subtree A) :
    node.handles = node.own + (node.children.map handles).sum := by
  obtain ⟨tree, state⟩ := node
  cases tree with
  | action _ _ | wait _ _ | leaf _ => rfl
  | sequence trees | selector trees =>
    exact (handles_ofList trees state.children).symm.trans (zero_add _).symm
  | condition guard policy tree =>
    exact congrArg (Handle.observers state.observer + ·) (handles_ofOption tree state.child).symm
  | service label interval callback tree =>
    exact congrArg (Handle.timers state.timer + ·) (handles_ofOption tree state.child).symm

mutual

theorem induction_tree {motive : Subtree A → Prop}
    (step : ∀ node : Subtree A, (∀ child ∈ node.children, motive child) → motive node) :
    (tree : Tree A) → (state : tree.State) → motive ⟨tree, state⟩
  | .action _ _, _ => step _ (by simp [children])
  | .wait _ _, _ => step _ (by simp [children])
  | .leaf _, _ => step _ (by simp [children])
  | .sequence trees, state => step _ (induction_list step trees state.children)
  | .selector trees, state => step _ (induction_list step trees state.children)
  | .condition _ _ tree, state => step _ (induction_option step tree state.child)
  | .service _ _ _ tree, state => step _ (induction_option step tree state.child)

theorem induction_list {motive : Subtree A → Prop}
    (step : ∀ node : Subtree A, (∀ child ∈ node.children, motive child) → motive node) :
    (trees : List (Tree A)) → (states : Tree.StateList trees) →
    ∀ node ∈ ofList trees states, motive node
  | [], _, _, h => by simp [ofList] at h
  | tree :: trees, (state, states), node, h => by
    obtain rfl | h := List.mem_cons.mp h
    · exact induction_tree step tree state
    · exact induction_list step trees states node h

theorem induction_option {motive : Subtree A → Prop}
    (step : ∀ node : Subtree A, (∀ child ∈ node.children, motive child) → motive node) :
    (tree : Option (Tree A)) → (state : Tree.StateOption tree) →
    ∀ node ∈ ofOption tree state, motive node
  | none, _, _, h => by simp [ofOption] at h
  | some tree, state, node, h => by
    rw [List.mem_singleton.mp h]
    exact induction_tree step tree state

end

/-- What holds of a node whenever it holds of all children of the node holds of all nodes. -/
theorem induction {motive : Subtree A → Prop}
    (step : ∀ node : Subtree A, (∀ child ∈ node.children, motive child) → motive node)
    (node : Subtree A) : motive node :=
  induction_tree step node.tree node.state

theorem at?_cons_eq_some (h : node.at? (i :: position) = some lower) :
    ∃ child, node.children[i]? = some child ∧ child.at? position = some lower :=
  Option.bind_eq_some_iff.mp h

theorem at?_cons (hchild : node.children[i]? = some child) :
    node.at? (i :: position) = child.at? position := by
  rw [at?, hchild, Option.bind_some]

/-- What a node hands down to its children it hands down to all nodes below it. -/
theorem hand_down {motive : Subtree A → Prop}
    (step : ∀ node : Subtree A, motive node → ∀ child ∈ node.children, motive child)
    (h : motive node) (hbelow : node.at? position = some lower) : motive lower := by
  induction position generalizing node with
  | nil =>
    cases hbelow
    exact h
  | cons i position ih =>
    obtain ⟨child, hchild, hbelow⟩ := at?_cons_eq_some hbelow
    exact ih (step node h child (List.mem_of_getElem? hchild)) hbelow

theorem quiet_ofList {trees : List (Tree A)} {states : Tree.StateList trees}
    (h : Tree.QuietList trees states) : ∀ child ∈ ofList trees states, child.Quiet := by
  induction trees with
  | nil => simp [ofList]
  | cons tree trees ih =>
    obtain ⟨state, states⟩ := states
    exact List.forall_mem_cons.mpr ⟨h.1, ih h.2⟩

theorem quiet_ofOption {tree : Option (Tree A)} {state : Tree.StateOption tree}
    (h : Tree.QuietOption tree state) : ∀ child ∈ ofOption tree state, child.Quiet := by
  cases tree with
  | none => simp [ofOption]
  | some tree => exact List.forall_mem_singleton.mpr h

namespace Quiet

theorem fit (h : node.Quiet) : node.Fit := Tree.Quiet.fit node.tree node.state h

theorem status_eq (h : node.Quiet) : node.status = .inactive := by
  obtain ⟨tree, state⟩ := node
  cases tree with
  | action _ _ | wait _ _ => exact h
  | leaf _ => exact h.elim
  | sequence _ | selector _ | condition _ _ _ | service _ _ _ _ => exact h.1

theorem timer?_eq (h : node.Quiet) : node.timer? = none := by
  obtain ⟨tree, state⟩ := node
  cases tree with
  | action _ _ | wait _ _ | leaf _ | sequence _ | selector _ | condition _ _ _ => rfl
  | service _ _ _ _ => exact h.2.1

theorem children (h : node.Quiet) : ∀ child ∈ node.children, child.Quiet := by
  obtain ⟨tree, state⟩ := node
  cases tree with
  | action _ _ | wait _ _ | leaf _ => simp [Subtree.children]
  | sequence _ | selector _ => exact quiet_ofList h.2
  | condition _ _ _ => exact quiet_ofOption h.2
  | service _ _ _ _ => exact quiet_ofOption h.2.2

theorem below (h : node.Quiet) (hbelow : node.at? position = some lower) : lower.Quiet :=
  hand_down (fun _ => Quiet.children) h hbelow

end Quiet

theorem length_ofList (trees : List (Tree A)) (states : Tree.StateList trees) :
    (ofList trees states).length = trees.length := by
  induction trees with
  | nil => rfl
  | cons tree trees ih => exact congrArg Nat.succ (ih states.2)

theorem ofList_eq_nil {trees : List (Tree A)} {states : Tree.StateList trees} :
    ofList trees states = [] ↔ trees = [] := by
  rw [← List.length_eq_zero_iff, length_ofList, List.length_eq_zero_iff]

theorem fit_ofList {trees : List (Tree A)} {states : Tree.StateList trees} {current : Nat}
    (h : Tree.FitAt trees current states) (hchild : (ofList trees states)[i]? = some child) :
    child.Fit ∧ (i ≠ current → child.Quiet) := by
  induction trees generalizing current i with
  | nil => simp [ofList] at hchild
  | cons tree trees ih =>
    obtain ⟨state, states⟩ := states
    cases current with
    | zero =>
      cases i with
      | zero =>
        cases hchild
        exact ⟨h.1, fun hne => absurd rfl hne⟩
      | succ i =>
        have hquiet := quiet_ofList h.2 child (List.mem_of_getElem? hchild)
        exact ⟨hquiet.fit, fun _ => hquiet⟩
    | succ current =>
      cases i with
      | zero =>
        cases hchild
        exact ⟨Tree.Quiet.fit _ _ h.1, fun _ => h.1⟩
      | succ i =>
        have hrest := ih h.2 hchild
        exact ⟨hrest.1, fun hne => hrest.2 fun heq => hne (congrArg Nat.succ heq)⟩

theorem fit_ofOption {tree : Option (Tree A)} {state : Tree.StateOption tree}
    (h : Tree.FitOption tree state) : ∀ child ∈ ofOption tree state, child.Fit := by
  cases tree with
  | none => simp [ofOption]
  | some tree => exact List.forall_mem_singleton.mpr h

theorem getElem?_ofOption {tree : Option (Tree A)} {state : Tree.StateOption tree}
    (hchild : (ofOption tree state)[i]? = some child) : i = 0 := by
  cases tree with
  | none => simp [ofOption] at hchild
  | some tree =>
    cases i with
    | zero => rfl
    | succ i => simp [ofOption] at hchild

namespace Fit

theorem children (h : node.Fit) : ∀ child ∈ node.children, child.Fit := by
  obtain ⟨tree, state⟩ := node
  intro child hmem
  cases tree with
  | action _ _ | wait _ _ | leaf _ => simp [Subtree.children] at hmem
  | sequence trees | selector trees =>
    have hfit : Tree.FitComposite trees state :=
      ⟨fun hr => (h.1 hr).1, fun hr => (h.1 hr).2, h.2⟩
    obtain ⟨i, hchild⟩ := List.getElem?_of_mem hmem
    exact (fit_ofList hfit.fitAt hchild).1
  | condition _ _ _ | service _ _ _ _ => exact fit_ofOption h.1 child hmem

theorem below (h : node.Fit) (hbelow : node.at? position = some lower) : lower.Fit :=
  hand_down (fun _ => Fit.children) h hbelow

theorem quiet (h : node.Fit) (hidle : node.status = .inactive) : node.Quiet := by
  obtain ⟨tree, state⟩ := node
  have hne : Status.inactive ≠ .running := by simp
  cases tree with
  | action _ _ | wait _ _ => exact hidle
  | leaf _ => exact h.elim
  | sequence _ | selector _ => exact ⟨hidle, h.2 fun hrun => hne (hidle.symm.trans hrun)⟩
  | condition _ _ _ => exact ⟨hidle, h.2 hidle⟩
  | service _ _ _ _ => exact ⟨hidle, h.2.1 hidle⟩

theorem child_unique (h : node.Fit) (hi : node.children[i]? = some child)
    (hj : node.children[j]? = some lower) (hchild : child.status ≠ .inactive)
    (hlower : lower.status ≠ .inactive) : i = j := by
  obtain ⟨tree, state⟩ := node
  cases tree with
  | action _ _ | wait _ _ | leaf _ => simp [Subtree.children] at hi
  | sequence trees | selector trees =>
    have hfit : Tree.FitComposite trees state :=
      ⟨fun hr => (h.1 hr).1, fun hr => (h.1 hr).2, h.2⟩
    have only {k : Nat} {other : Subtree A} (hk : (ofList trees state.children)[k]? = some other)
        (hother : other.status ≠ .inactive) : k = state.current :=
      Decidable.byContradiction fun hne => hother ((fit_ofList hfit.fitAt hk).2 hne).status_eq
    exact (only hi hchild).trans (only hj hlower).symm
  | condition _ _ _ | service _ _ _ _ =>
    exact (getElem?_ofOption hi).trans (getElem?_ofOption hj).symm

/-- Of a running composite only the child whose turn it is may be active, and the index is in range. -/
theorem running (h : node.Fit) (hi : node.current? = some i) (hrun : node.status = .running) :
    (∀ j child, node.children[j]? = some child → child.status ≠ .inactive → j = i) ∧
      (i < node.children.length ∨ node.children = []) := by
  obtain ⟨tree, state⟩ := node
  cases tree with
  | action _ _ | wait _ _ | leaf _ | condition _ _ _ | service _ _ _ _ => cases hi
  | sequence trees | selector trees =>
    have hfit : Tree.FitComposite trees state :=
      ⟨fun hr => (h.1 hr).1, fun hr => (h.1 hr).2, h.2⟩
    cases hi
    refine ⟨fun j child hj hactive => ?_, ?_⟩
    · exact Decidable.byContradiction fun hne =>
        hactive ((fit_ofList hfit.fitAt hj).2 hne).status_eq
    · have hbound := hfit.bound hrun
      have hnil : ofList trees state.children = [] ↔ trees = [] := ofList_eq_nil
      rwa [← length_ofList trees state.children, ← hnil] at hbound

theorem ended (h : node.Fit) (hi : node.current? = some i) (hrun : node.status ≠ .running) :
    ∀ child ∈ node.children, child.Quiet := by
  obtain ⟨tree, state⟩ := node
  cases tree with
  | action _ _ | wait _ _ | leaf _ | condition _ _ _ | service _ _ _ _ => cases hi
  | sequence trees | selector trees => exact quiet_ofList (h.2 hrun)

theorem timer?_ne_none (h : node.Fit) (hcallback : node.callback? ≠ none) :
    node.timer? ≠ none ↔ node.status ≠ .inactive := by
  obtain ⟨tree, state⟩ := node
  cases tree with
  | action _ _ | wait _ _ | leaf _ | sequence _ | selector _ | condition _ _ _ =>
    exact absurd rfl hcallback
  | service _ _ _ _ =>
    exact ⟨fun htimer hidle => htimer (h.2.1 hidle).1, h.2.2⟩

end Fit

/-- The active nodes are those that one meets on the way down to the position `path`. -/
def ActivePath (node : Subtree A) (path : List Nat) : Prop :=
  ∀ position lower, node.at? position = some lower →
    (lower.status ≠ .inactive ↔ position <+: path)

/-- The node runs for the sake of a wait below it whose time has not passed. -/
def Waiting (node : Subtree A) (now : Duration) : Prop := node.tree.Waiting node.state now

variable {path : List Nat} {now : Duration}

namespace Fit

theorem activePath_nil (h : node.Fit) (hactive : node.status ≠ .inactive)
    (hchildren : ∀ child ∈ node.children, child.status = .inactive) : node.ActivePath [] := by
  intro position lower hlower
  cases position with
  | nil =>
    cases hlower
    simp [hactive]
  | cons i position =>
    obtain ⟨child, hchild, hlower⟩ := at?_cons_eq_some hlower
    have hmem := List.mem_of_getElem? hchild
    have hquiet := (h.children child hmem).quiet (hchildren child hmem)
    simp [(hquiet.below hlower).status_eq]

theorem activePath_cons (h : node.Fit) (hactive : node.status ≠ .inactive)
    (hchild : node.children[i]? = some child) (hturn : child.status ≠ .inactive)
    (hpath : child.ActivePath path) : node.ActivePath (i :: path) := by
  intro position lower hlower
  cases position with
  | nil =>
    cases hlower
    simp [hactive]
  | cons j position =>
    obtain ⟨other, hother, hlower⟩ := at?_cons_eq_some hlower
    by_cases hij : i = j
    · subst hij
      rw [hchild] at hother
      cases hother
      simpa using hpath position lower hlower
    · have hidle : other.status = .inactive := Decidable.byContradiction fun hne =>
        hij (h.child_unique hchild hother hturn hne)
      have hquiet := (h.children other (List.mem_of_getElem? hother)).quiet hidle
      simp [(hquiet.below hlower).status_eq, Ne.symm hij]

theorem exists_path (node : Subtree A) : node.Fit → node.status ≠ .inactive →
    ∃ path, (node.at? path).isSome ∧ node.ActivePath path := by
  induction node using Subtree.induction with
  | step node ih =>
    intro h hactive
    by_cases hchildren : ∀ child ∈ node.children, child.status = .inactive
    · exact ⟨[], rfl, h.activePath_nil hactive hchildren⟩
    · push Not at hchildren
      obtain ⟨child, hmem, hturn⟩ := hchildren
      obtain ⟨path, hend, hpath⟩ := ih child hmem (h.children child hmem) hturn
      obtain ⟨i, hchild⟩ := List.getElem?_of_mem hmem
      exact ⟨i :: path, by rwa [at?_cons hchild], h.activePath_cons hactive hchild hturn hpath⟩

end Fit

namespace Waiting

theorem ofList {trees : List (Tree A)} {current : Nat} {states : Tree.StateList trees}
    (h : Tree.WaitingAt trees current states now) :
    ∃ child : Subtree A, (Subtree.ofList trees states)[current]? = some child ∧ child.Waiting now := by
  induction trees generalizing current with
  | nil => exact h.elim
  | cons tree trees ih =>
    obtain ⟨state, states⟩ := states
    cases current with
    | zero => exact ⟨⟨tree, state⟩, rfl, h⟩
    | succ current => exact ih h

theorem status_eq (h : node.Waiting now) : node.status = .running := by
  obtain ⟨tree, state⟩ := node
  cases tree with
  | action _ _ | leaf _ => exact h.elim
  | wait _ _ | sequence _ | selector _ | condition _ _ _ | service _ _ _ _ => exact h.1

theorem next (h : node.Waiting now) : node.Awaits now ∧ node.children = [] ∨
    ∃ (i : Nat) (child : Subtree A), node.children[i]? = some child ∧ child.Waiting now := by
  obtain ⟨tree, state⟩ := node
  cases tree with
  | action _ _ | leaf _ => exact h.elim
  | wait _ _ => exact .inl ⟨h.2, rfl⟩
  | sequence trees | selector trees => exact .inr ⟨state.current, Waiting.ofList h.2⟩
  | condition _ _ tree | service _ _ _ tree =>
    cases tree with
    | none => exact h.2.elim
    | some tree => exact .inr ⟨0, ⟨tree, state.child⟩, rfl, h.2⟩

theorem exists_path (node : Subtree A) : node.Fit → node.Waiting now →
    ∃ path wait, node.at? path = some wait ∧ wait.Awaits now ∧ node.ActivePath path ∧
      ∀ position lower, node.at? position = some lower → lower.status ≠ .inactive →
        lower.status = .running := by
  induction node using Subtree.induction with
  | step node ih =>
    intro h hwait
    have hactive : node.status ≠ .inactive := by simp [hwait.status_eq]
    obtain ⟨hawaits, hnone⟩ | ⟨i, child, hchild, hturn⟩ := hwait.next
    · refine ⟨[], node, rfl, hawaits, h.activePath_nil hactive (by simp [hnone]), ?_⟩
      intro position lower hlower _
      cases position with
      | nil =>
        cases hlower
        exact hwait.status_eq
      | cons j position =>
        obtain ⟨other, hother, _⟩ := at?_cons_eq_some hlower
        simp [hnone] at hother
    · have hmem := List.mem_of_getElem? hchild
      have hrun : child.status ≠ .inactive := by simp [hturn.status_eq]
      obtain ⟨path, wait, hend, hawaits, hpath, hrunning⟩ :=
        ih child hmem (h.children child hmem) hturn
      have hwhole := h.activePath_cons hactive hchild hrun hpath
      refine ⟨i :: path, wait, by rw [at?_cons hchild, hend], hawaits, hwhole, ?_⟩
      intro position lower hlower hne
      cases position with
      | nil =>
        cases hlower
        exact hwait.status_eq
      | cons j position =>
        have hij : j = i := by
          have hprefix := (hwhole _ _ hlower).mp hne
          exact (List.cons_prefix_cons.mp hprefix).1
        subst hij
        rw [at?_cons hchild] at hlower
        exact hrunning position lower hlower hne

end Waiting

end Subtree

end BehaviorTree
