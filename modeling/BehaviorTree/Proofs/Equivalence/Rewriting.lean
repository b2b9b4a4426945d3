import BehaviorTree.Proofs.Equivalence.Composites
import BehaviorTree.Proofs.Equivalence.Decorators
import BehaviorTree.Proofs.Lifecycle.Validation

namespace BehaviorTree.Tree

variable {A : Type} {bond : Bond} {tree other : Tree A} {trees others before after : List (Tree A)}

structure Sound (tree : Tree A) : Prop where
  builtIn : tree.BuiltIn
  valid : tree.validate = .ok ()

theorem builtInList_iff : BuiltInList trees ↔ ∀ tree ∈ trees, tree.BuiltIn := by
  induction trees with
  | nil => simp [BuiltInList]
  | cons tree trees ih => rw [BuiltInList, ih, List.forall_mem_cons]

theorem validateList_eq_ok : validateList trees = .ok () ↔ ∀ tree ∈ trees, tree.validate = .ok () := by
  induction trees with
  | nil => simp [validateList]
  | cons tree trees ih => rw [validateList, andThen_eq_ok, ih, List.forall_mem_cons]

theorem validateOutside_eq_ok : validateOutside trees = .ok () ↔
    ∀ tree ∈ trees, tree.selectorOnlyPolicy = none ∧ tree.validate = .ok () := by
  induction trees with
  | nil => simp [validateOutside]
  | cons tree trees ih =>
    rw [validateOutside, andThen_eq_ok, andThen_eq_ok, checkOutsideSelector_eq_ok, ih,
      List.forall_mem_cons, and_assoc]

theorem sound_sequence :
    (Tree.sequence trees).Sound ↔ ∀ tree ∈ trees, tree.selectorOnlyPolicy = none ∧ tree.Sound := by
  constructor
  · rintro ⟨hbuiltIn, hvalid⟩ tree hmem
    rw [BuiltIn, builtInList_iff] at hbuiltIn
    rw [validate, validateOutside_eq_ok] at hvalid
    exact ⟨(hvalid tree hmem).1, hbuiltIn tree hmem, (hvalid tree hmem).2⟩
  · intro h
    refine ⟨?_, ?_⟩
    · rw [BuiltIn, builtInList_iff]
      exact fun tree hmem => (h tree hmem).2.builtIn
    · rw [validate, validateOutside_eq_ok]
      exact fun tree hmem => ⟨(h tree hmem).1, (h tree hmem).2.valid⟩

theorem sound_selector : (Tree.selector trees).Sound ↔ ∀ tree ∈ trees, tree.Sound := by
  constructor
  · rintro ⟨hbuiltIn, hvalid⟩ tree hmem
    rw [BuiltIn, builtInList_iff] at hbuiltIn
    rw [validate, validateList_eq_ok] at hvalid
    exact ⟨hbuiltIn tree hmem, hvalid tree hmem⟩
  · intro h
    refine ⟨?_, ?_⟩
    · rw [BuiltIn, builtInList_iff]
      exact fun tree hmem => (h tree hmem).builtIn
    · rw [validate, validateList_eq_ok]
      exact fun tree hmem => (h tree hmem).valid

theorem sound_condition {guard : Guard} {policy : RestartPolicy} :
    (Tree.condition guard policy (some tree)).Sound ↔
      checkGuard guard = .ok () ∧ tree.selectorOnlyPolicy = none ∧ tree.Sound := by
  constructor
  · rintro ⟨hbuiltIn, hvalid⟩
    rw [validate, andThen_eq_ok, andThen_eq_ok, checkOutsideSelector_eq_ok] at hvalid
    exact ⟨hvalid.1, hvalid.2.1, hbuiltIn, hvalid.2.2⟩
  · rintro ⟨hguard, hpolicy, hbuiltIn, hvalid⟩
    refine ⟨hbuiltIn, ?_⟩
    rw [validate, andThen_eq_ok, andThen_eq_ok, checkOutsideSelector_eq_ok]
    exact ⟨hguard, hpolicy, hvalid⟩

theorem sound_service {label : String} {interval : Duration} {callback : Routine A} :
    (Tree.service label interval callback (some tree)).Sound ↔ interval ≠ 0 ∧ tree.Sound := by
  constructor
  · rintro ⟨hbuiltIn, hvalid⟩
    rw [validate] at hvalid
    split at hvalid
    · cases hvalid
    · rename_i hinterval
      exact ⟨hinterval, hbuiltIn, hvalid⟩
  · rintro ⟨hinterval, hbuiltIn, hvalid⟩
    refine ⟨hbuiltIn, ?_⟩
    rw [validate, if_neg hinterval]
    exact hvalid

theorem Sound.children_of_sequence (h : (Tree.sequence trees).Sound) : ∀ tree ∈ trees, tree.Sound :=
  fun tree hmem => (sound_sequence.mp h tree hmem).2

abbrev Substitutes (bond : Bond) (trees others : List (Tree A)) : Prop :=
  List.Forall₂ (fun tree other => Nonempty (Substitute bond tree other)) trees others

theorem Substitutes.row {goOn : Outcome} (hgo : goOn ≠ .running) (h : Substitutes bond trees others) :
    Nonempty (Row bond goOn trees others) := by
  induction h with
  | nil => exact ⟨Row.nil bond hgo⟩
  | cons hchild _ ih =>
    obtain ⟨child⟩ := hchild
    obtain ⟨row⟩ := ih
    exact ⟨Row.cons child row hgo⟩

theorem Substitutes.rankedRow (h : Substitutes bond trees others) :
    Nonempty (RankedRow bond trees others) := by
  induction h with
  | nil => exact ⟨RankedRow.nil bond⟩
  | cons hchild _ ih =>
    obtain ⟨child⟩ := hchild
    obtain ⟨row⟩ := ih
    exact ⟨RankedRow.cons child row⟩

theorem Substitutes.sequence (h : Substitutes bond trees others) :
    Nonempty (Likeness bond (.sequence trees) (.sequence others)) := by
  obtain ⟨row⟩ := h.row (show Outcome.success ≠ .running by simp)
  exact ⟨Likeness.sequence row⟩

theorem Substitutes.selector (h : Substitutes bond trees others) :
    Nonempty (Likeness bond (.selector trees) (.selector others)) := by
  obtain ⟨row⟩ := h.rankedRow
  exact ⟨Likeness.selector row⟩

mutual

theorem Sound.likeness : (tree : Tree A) → tree.Sound → Nonempty (Likeness bond tree tree)
  | .action label command, _ => ⟨Likeness.action bond label command⟩
  | .wait duration variance, _ => ⟨Likeness.wait bond duration variance⟩
  | .leaf _, h => h.builtIn.elim
  | .sequence children, h => (Sound.substitutes children h.children_of_sequence).sequence
  | .selector children, h => (Sound.substitutes children (sound_selector.mp h)).selector
  | .condition guard policy none, h => by
    have hvalid := h.valid
    rw [validate, andThen_eq_ok] at hvalid
    cases hvalid.2
  | .condition guard policy (some child), h => by
    obtain ⟨likeness⟩ := Sound.likeness child (sound_condition.mp h).2.2
    exact ⟨likeness.condition guard policy⟩
  | .service label interval callback none, h => by
    have hvalid := h.valid
    rw [validate] at hvalid
    split at hvalid <;> cases hvalid
  | .service label interval callback (some child), h => by
    obtain ⟨likeness⟩ := Sound.likeness child (sound_service.mp h).2
    exact ⟨likeness.service label interval callback⟩

theorem Sound.substitutes : (trees : List (Tree A)) → (∀ tree ∈ trees, tree.Sound) →
    Substitutes bond trees trees
  | [], _ => .nil
  | tree :: trees, h => by
    obtain ⟨likeness⟩ := Sound.likeness tree (h tree List.mem_cons_self)
    exact .cons ⟨likeness.substitute⟩
      (Sound.substitutes trees fun other hmem => h other (List.mem_cons_of_mem tree hmem))

end

/-- One child is replaced, and the others stay. -/
theorem Substitute.among (h : Nonempty (Substitute bond tree other))
    (hsound : ∀ child ∈ before ++ tree :: after, child.Sound) :
    Substitutes bond (before ++ tree :: after) (before ++ other :: after) := by
  rw [List.forall_mem_append, List.forall_mem_cons] at hsound
  exact List.rel_append (Sound.substitutes before hsound.1)
    (.cons h (Sound.substitutes after hsound.2.2))

/-- One node of the tree, here or somewhere below, is replaced as the rule says. -/
inductive Rewrites (rule : Tree A → Tree A → Prop) : Tree A → Tree A → Prop
  | here {tree other : Tree A} : rule tree other → Rewrites rule tree other
  | sequence (before after : List (Tree A)) {tree other : Tree A} : Rewrites rule tree other →
    Rewrites rule (.sequence (before ++ tree :: after)) (.sequence (before ++ other :: after))
  | selector (before after : List (Tree A)) {tree other : Tree A} : Rewrites rule tree other →
    Rewrites rule (.selector (before ++ tree :: after)) (.selector (before ++ other :: after))
  | condition (guard : Guard) (policy : RestartPolicy) {tree other : Tree A} : Rewrites rule tree other →
    Rewrites rule (.condition guard policy (some tree)) (.condition guard policy (some other))
  | service (label : String) (interval : Duration) (callback : Routine A) {tree other : Tree A} :
    Rewrites rule tree other → Rewrites rule (.service label interval callback (some tree))
      (.service label interval callback (some other))

namespace Rewrites

variable {rule : Tree A → Tree A → Prop}

theorem flip (h : Rewrites rule tree other) : Rewrites (flip rule) other tree := by
  induction h with
  | here hrule => exact .here hrule
  | sequence before after _ ih => exact .sequence before after ih
  | selector before after _ ih => exact .selector before after ih
  | condition guard policy _ ih => exact .condition guard policy ih
  | service label interval callback _ ih => exact .service label interval callback ih

/-- What replaces a sound node demands of the node above it what was demanded before. -/
theorem sound (hrule : ∀ {tree other : Tree A}, rule tree other → tree.Sound →
      other.Sound ∧ other.selectorOnlyPolicy = tree.selectorOnlyPolicy)
    (h : Rewrites rule tree other) (hsound : tree.Sound) :
    other.Sound ∧ other.selectorOnlyPolicy = tree.selectorOnlyPolicy := by
  induction h with
  | here hnode => exact hrule hnode hsound
  | sequence before after _ ih =>
    rw [sound_sequence, List.forall_mem_append, List.forall_mem_cons] at hsound ⊢
    obtain ⟨hbefore, ⟨hpolicy, hchild⟩, hafter⟩ := hsound
    obtain ⟨hother, hsame⟩ := ih hchild
    exact ⟨⟨hbefore, ⟨hsame.trans hpolicy, hother⟩, hafter⟩, rfl⟩
  | selector before after _ ih =>
    rw [sound_selector, List.forall_mem_append, List.forall_mem_cons] at hsound ⊢
    obtain ⟨hbefore, hchild, hafter⟩ := hsound
    exact ⟨⟨hbefore, (ih hchild).1, hafter⟩, rfl⟩
  | condition guard policy _ ih =>
    obtain ⟨hguard, hpolicy, hchild⟩ := sound_condition.mp hsound
    obtain ⟨hother, hsame⟩ := ih hchild
    exact ⟨sound_condition.mpr ⟨hguard, hsame.trans hpolicy, hother⟩, rfl⟩
  | service label interval callback _ ih =>
    obtain ⟨hinterval, hchild⟩ := sound_service.mp hsound
    obtain ⟨hother, hsame⟩ := ih hchild
    exact ⟨sound_service.mpr ⟨hinterval, hother⟩, hsame⟩

/-- A tree does what it did before if the node that is replaced does. -/
theorem likeness (hrule : ∀ {tree other : Tree A}, rule tree other → tree.Sound →
      Nonempty (Likeness bond tree other))
    (h : Rewrites rule tree other) (hsound : tree.Sound) : Nonempty (Likeness bond tree other) := by
  induction h with
  | here hnode => exact hrule hnode hsound
  | sequence before after _ ih =>
    have hchildren := hsound.children_of_sequence
    obtain ⟨child⟩ := ih (List.forall_mem_cons.mp (List.forall_mem_append.mp hchildren).2).1
    exact (Substitute.among ⟨child.substitute⟩ hchildren).sequence
  | selector before after _ ih =>
    have hchildren := sound_selector.mp hsound
    obtain ⟨child⟩ := ih (List.forall_mem_cons.mp (List.forall_mem_append.mp hchildren).2).1
    exact (Substitute.among ⟨child.substitute⟩ hchildren).selector
  | condition guard policy _ ih =>
    obtain ⟨child⟩ := ih (sound_condition.mp hsound).2.2
    exact ⟨child.condition guard policy⟩
  | service label interval callback _ ih =>
    obtain ⟨child⟩ := ih (sound_service.mp hsound).2
    exact ⟨child.service label interval callback⟩

end Rewrites

end BehaviorTree.Tree
