import BehaviorTree.Value

namespace BehaviorTree

namespace Entries

abbrev Ordered (entries : List (String × Value)) : Prop := entries.Pairwise (·.1 < ·.1)

def get? (key : String) : List (String × Value) → Option Value
  | [] => none
  | e :: es => if e.1 = key then some e.2 else get? key es

def insert (key : String) (value : Value) : List (String × Value) → List (String × Value)
  | [] => [(key, value)]
  | e :: es =>
    if key < e.1 then (key, value) :: e :: es
    else if key = e.1 then (key, value) :: es
    else e :: insert key value es

def erase (key : String) (entries : List (String × Value)) : List (String × Value) :=
  entries.filter (·.1 ≠ key)

variable {key other : String} {value : Value} {entries : List (String × Value)}

theorem key_of_mem_insert {e : String × Value} (h : e ∈ insert key value entries) :
    e.1 = key ∨ e ∈ entries := by
  induction entries with
  | nil => simp_all [insert]
  | cons d ds ih => grind [insert]

theorem ordered_insert (h : Ordered entries) : Ordered (insert key value entries) := by
  induction entries with
  | nil => simp [insert, Ordered]
  | cons d ds ih =>
    have hd : ∀ e ∈ ds, d.1 < e.1 := (List.pairwise_cons.mp h).1
    have hds : Ordered ds := (List.pairwise_cons.mp h).2
    simp only [insert]
    split
    · rename_i hlt
      refine List.pairwise_cons.mpr ⟨fun e he => ?_, h⟩
      rcases List.mem_cons.mp he with rfl | he
      · exact hlt
      · exact String.lt_trans hlt (hd e he)
    · split
      · rename_i heq
        exact List.pairwise_cons.mpr ⟨fun e he => heq ▸ hd e he, hds⟩
      · rename_i hge hne
        refine List.pairwise_cons.mpr ⟨fun e he => ?_, ih hds⟩
        rcases key_of_mem_insert he with rfl | he
        · have hle : d.1 ≤ e.1 := String.not_lt.mp hge
          exact String.not_le.mp fun hback => hne (String.le_antisymm hback hle)
        · exact hd e he

theorem ordered_erase (h : Ordered entries) : Ordered (erase key entries) :=
  h.filter _

theorem get?_insert :
    get? other (insert key value entries) = if other = key then some value else get? other entries := by
  induction entries with
  | nil => simp [insert, get?, eq_comm]
  | cons d ds ih => grind [insert, get?]

theorem get?_erase :
    get? other (erase key entries) = if other = key then none else get? other entries := by
  induction entries with
  | nil => simp [erase, get?]
  | cons d ds ih =>
    by_cases hd : d.1 = key <;> grind [erase, get?]

theorem get?_eq_none_of_forall_lt (h : ∀ e ∈ entries, key < e.1) : get? key entries = none := by
  induction entries with
  | nil => rfl
  | cons d ds ih =>
    have hd : key < d.1 := h d List.mem_cons_self
    have hne : d.1 ≠ key := fun he => String.lt_irrefl key (he ▸ hd)
    simpa [get?, hne] using ih fun e he => h e (List.mem_cons_of_mem _ he)

theorem ext_get? {left right : List (String × Value)} (hl : Ordered left) (hr : Ordered right)
    (h : ∀ key, get? key left = get? key right) : left = right := by
  induction left generalizing right with
  | nil =>
    cases right with
    | nil => rfl
    | cons e es => simpa [get?] using h e.1
  | cons d ds ih =>
    cases right with
    | nil => simpa [get?] using h d.1
    | cons e es =>
      have hd := List.pairwise_cons.mp hl
      have he := List.pairwise_cons.mp hr
      have below {a b : String} {es : List (String × Value)} (hes : ∀ e ∈ es, b < e.1)
          (hab : a < b) : get? a es = none :=
        get?_eq_none_of_forall_lt fun e he => String.lt_trans hab (hes e he)
      have hkey : d.1 = e.1 := by
        refine String.le_antisymm (String.not_lt.mp fun hlt => ?_) (String.not_lt.mp fun hlt => ?_)
        · have hne : d.1 ≠ e.1 := fun heq => String.lt_irrefl e.1 (heq ▸ hlt)
          simpa [get?, hne, below hd.1 hlt] using h e.1
        · have hne : e.1 ≠ d.1 := fun heq => String.lt_irrefl d.1 (heq ▸ hlt)
          simpa [get?, hne, below he.1 hlt] using h d.1
      have hvalue : d.2 = e.2 := by simpa [get?, hkey] using h d.1
      have htail : ds = es := ih hd.2 he.2 fun key => by
        by_cases hk : d.1 = key
        · rw [get?_eq_none_of_forall_lt (hk ▸ hd.1),
            get?_eq_none_of_forall_lt (hk ▸ hkey ▸ he.1)]
        · simpa [get?, hk, hkey ▸ hk] using h key
      rw [htail, Prod.ext hkey hvalue]

end Entries

structure Values where
  entries : List (String × Value)
  ordered : Entries.Ordered entries

namespace Values

def empty : Values := ⟨[], List.Pairwise.nil⟩

instance : Inhabited Values := ⟨empty⟩

instance : BEq Values := ⟨fun a b => a.entries == b.entries⟩

instance : Repr Values := ⟨fun values n => reprPrec values.entries n⟩

def get? (values : Values) (key : String) : Option Value := Entries.get? key values.entries

def contains (values : Values) (key : String) : Bool := (values.get? key).isSome

def insert (values : Values) (key : String) (value : Value) : Values :=
  ⟨Entries.insert key value values.entries, Entries.ordered_insert values.ordered⟩

def erase (values : Values) (key : String) : Values :=
  ⟨Entries.erase key values.entries, Entries.ordered_erase values.ordered⟩

def size (values : Values) : Nat := values.entries.length

/-- Of two entries with one key the later one counts. -/
def ofList (entries : List (String × Value)) : Values :=
  entries.foldl (fun values e => values.insert e.1 e.2) empty

@[simp] theorem get?_empty (key : String) : empty.get? key = none := rfl

@[simp] theorem get?_insert (values : Values) (key other : String) (value : Value) :
    (values.insert key value).get? other = if other = key then some value else values.get? other :=
  Entries.get?_insert

@[simp] theorem get?_erase (values : Values) (key other : String) :
    (values.erase key).get? other = if other = key then none else values.get? other :=
  Entries.get?_erase

/-- Nothing but the value at each key is kept. -/
theorem ext_get? {left right : Values} (h : ∀ key, left.get? key = right.get? key) :
    left = right := by
  have hentries : left.entries = right.entries :=
    Entries.ext_get? left.ordered right.ordered h
  cases left
  cases right
  cases hentries
  rfl

end Values

end BehaviorTree
