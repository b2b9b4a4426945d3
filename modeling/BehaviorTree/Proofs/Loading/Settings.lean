import BehaviorTree.Config.Read
import BehaviorTree.Proofs.Loading.Seconds

namespace BehaviorTree

section Results

variable {ε ε' α β : Type} {x : Except ε α} {error : ε}

theorem error_of_bind {f : α → Except ε β} (h : (x >>= f) = .error error) :
    x = .error error ∨ ∃ a, x = .ok a ∧ f a = .error error := by
  cases x with
  | error other =>
    cases h
    exact .inl rfl
  | ok a => exact .inr ⟨a, rfl, h⟩

theorem ok_of_bind {f : α → Except ε β} {b : β} (h : (x >>= f) = .ok b) :
    ∃ a, x = .ok a ∧ f a = .ok b := by
  cases x with
  | error other => cases h
  | ok a => exact ⟨a, rfl, h⟩

theorem error_of_map {f : α → β} (h : x.map f = .error error) : x = .error error := by
  cases x with
  | error other =>
    cases h
    rfl
  | ok a => cases h

end Results

namespace Config

open Yaml

section Records

variable {R : Type} {fields : List (Field R)} {error : ConfigError}

/-- A document gives a value to a field of a record: by the name of the field, or in its place. -/
def Gives (fields : List (Field R)) (field : Field R) (value : Node) : Node → Prop
  | .scalar _ => False
  | .sequence items => (field, value) ∈ fields.zip items
  | .mapping entries => field ∈ fields ∧ ∃ key, readText key = .ok field.name ∧ (key, value) ∈ entries

/-- The record has its error from reading one of these values. -/
def Faulty (given : Field R → Node → Prop) (error : ConfigError) : Prop :=
  error = .malformed ∨
    ∃ field value record, given field value ∧ field.read value record = .error error

theorem Faulty.imp {given given' : Field R → Node → Prop} (h : Faulty given error)
    (himp : ∀ field value, given field value → given' field value) : Faulty given' error := by
  obtain h | ⟨field, value, record, hgiven, hread⟩ := h
  · exact .inl h
  · exact .inr ⟨field, value, record, himp field value hgiven, hread⟩

theorem readText_eq_error {node : Node} (h : readText node = .error error) : error = .malformed := by
  cases node with
  | scalar scalar => cases h
  | sequence items | mapping entries =>
    cases h
    rfl

theorem readEntries_eq_error {seen : List String} {record : R} {entries : List (Node × Node)}
    (h : readEntries fields seen record entries = .error error) :
    Faulty (fun field value => Gives fields field value (.mapping entries)) error := by
  induction entries generalizing seen record with
  | nil => cases h
  | cons entry entries ih =>
    obtain ⟨key, value⟩ := entry
    have hlater {seen : List String} {record : R}
        (h : readEntries fields seen record entries = .error error) :
        Faulty (fun field other => Gives fields field other (.mapping ((key, value) :: entries)))
          error :=
      (ih h).imp fun field other ⟨hfield, key, hkey, hmem⟩ =>
        ⟨hfield, key, hkey, List.mem_cons_of_mem _ hmem⟩
    obtain h | ⟨name, hname, h⟩ := error_of_bind h
    · exact .inl (readText_eq_error h)
    split at h
    · exact hlater h
    · next field hfield =>
      split at h
      · cases h
        exact .inl rfl
      obtain h | ⟨_, _, h⟩ := error_of_bind h
      · have hfieldName : field.name = name := by simpa using List.find?_some hfield
        exact .inr ⟨field, value, record, ⟨List.mem_of_find?_eq_some hfield, key,
          hfieldName ▸ hname, List.mem_cons_self⟩, h⟩
      · exact hlater h

theorem readItems_eq_error {record : R} {items : List Node}
    (h : readItems fields record items = .error error) :
    Faulty (fun field value => Gives fields field value (.sequence items)) error := by
  induction items generalizing fields record with
  | nil =>
    rw [readItems.eq_def] at h
    cases h
  | cons item items ih =>
    cases fields with
    | nil =>
      cases h
      exact .inl rfl
    | cons field fields =>
      obtain h | ⟨_, _, h⟩ := error_of_bind h
      · exact .inr ⟨field, item, record, List.mem_cons_self, h⟩
      · exact (ih h).imp fun _ _ hmem => List.mem_cons_of_mem _ hmem

theorem readRecord_eq_error {defaults : R} {node : Node}
    (h : readRecord fields defaults node = .error error) :
    Faulty (fun field value => Gives fields field value node) error := by
  cases node with
  | scalar scalar =>
    cases h
    exact .inl rfl
  | sequence items => exact readItems_eq_error h
  | mapping entries => exact readEntries_eq_error h

theorem Gives.mem {field : Field R} {value node : Node} (h : Gives fields field value node) :
    field ∈ fields := by
  cases node with
  | scalar scalar => exact h.elim
  | sequence items => exact (List.of_mem_zip h).1
  | mapping entries => exact h.1

end Records

variable {node : Node} {error : ConfigError}

theorem readMeaning_eq_error (h : readMeaning node = .error error) : error = .malformed := by
  cases node with
  | scalar scalar => cases h
  | sequence items | mapping entries =>
    cases h
    rfl

theorem readMeaning_bind_eq_error {α : Type} {take : Meaning → Except ConfigError α}
    (htake : ∀ meaning, take meaning = .error error → error = .malformed)
    (h : (readMeaning node >>= take) = .error error) : error = .malformed := by
  obtain h | ⟨meaning, _, h⟩ := error_of_bind h
  · exact readMeaning_eq_error h
  · exact htake meaning h

theorem readFloat_eq_error (h : readFloat node = .error error) : error = .malformed := by
  refine readMeaning_bind_eq_error (fun meaning h => ?_) h
  cases meaning <;> cases h <;> rfl

theorem readFloat32_eq_error (h : readFloat32 node = .error error) : error = .malformed := by
  refine readMeaning_bind_eq_error (fun meaning h => ?_) h
  cases meaning <;> cases h <;> rfl

theorem readValue_eq_error (h : readValue node = .error error) : error = .malformed := by
  refine readMeaning_bind_eq_error (fun meaning h => ?_) h
  cases meaning <;> cases h <;> rfl

theorem operatorOfSymbol_ne_overflow {symbol : String} :
    operatorOfSymbol symbol ≠ .error .overflow := by
  rw [operatorOfSymbol]
  split <;> nofun

theorem readOperator_ne_overflow : readOperator node ≠ .error .overflow := by
  intro h
  rw [readOperator.eq_def] at h
  split at h
  · exact operatorOfSymbol_ne_overflow h
  · cases h
  · split at h
    · obtain h | ⟨symbol, _, h⟩ := error_of_bind h
      · cases readText_eq_error h
      · exact operatorOfSymbol_ne_overflow h
    · cases h
  · cases h

theorem readGuard_ne_overflow : readGuard node ≠ .error .overflow := by
  intro h
  obtain h | ⟨draft, _, h⟩ := error_of_bind h
  · obtain h | ⟨field, value, draft, hgives, h⟩ := readRecord_eq_error h
    · cases h
    · have hmem := hgives.mem
      simp only [GuardDraft.fields, List.mem_cons, List.not_mem_nil, or_false] at hmem
      obtain rfl | rfl | rfl := hmem
      · cases readText_eq_error (error_of_map h)
      · exact readOperator_ne_overflow (error_of_map h)
      · cases readValue_eq_error (error_of_map h)
  · split at h <;> cases h

/-- The node is a number of seconds that is more than any duration. -/
def NumberBeyond (node : Node) : Prop := ∃ x, readFloat node = .ok x ∧ Duration.Beyond x

theorem readSeconds_spec (node : Node) :
    (NumberBeyond node → readSeconds node = .error .overflow) ∧
      (¬NumberBeyond node →
        (∃ duration, duration ≤ Duration.longest ∧ readSeconds node = .ok duration) ∨
          readSeconds node = .error .malformed) := by
  rw [readSeconds, NumberBeyond]
  cases hread : readFloat node with
  | error error =>
    obtain rfl := readFloat_eq_error hread
    refine ⟨?_, fun _ => .inr rfl⟩
    rintro ⟨_, hx, _⟩
    cases hx
  | ok x =>
    have hbeyond : (∃ y, Except.ok x = (.ok y : Except ConfigError Float) ∧ Duration.Beyond y) ↔
        Duration.Beyond x := by simp
    rw [hbeyond]
    exact Duration.settles_of_ofFloatSeconds rfl

def secondsFields : List String := ["perception_interval", "track_wait", "unpredictable_wait"]

theorem paramFields_overflow : ∀ field ∈ paramFields, ∀ value params,
    field.read value params = .error .overflow → field.name ∈ secondsFields ∧ NumberBeyond value := by
  have hseconds {name : String} {put : RecipeParams → Duration → RecipeParams}
      (hname : name ∈ secondsFields) (value : Node) (params : RecipeParams)
      (h : (Field.of name readSeconds put).read value params = .error .overflow) :
      name ∈ secondsFields ∧ NumberBeyond value := by
    refine ⟨hname, Classical.byContradiction fun hnot => ?_⟩
    obtain ⟨_, _, hok⟩ | hbad := (readSeconds_spec value).2 hnot
    · cases (error_of_map h).symm.trans hok
    · cases (error_of_map h).symm.trans hbad
  have hamount {name : String} {put : RecipeParams → Float32 → RecipeParams} (value : Node)
      (params : RecipeParams)
      (h : (Field.of name readFloat32 put).read value params = .error .overflow) :
      name ∈ secondsFields ∧ NumberBeyond value := by
    cases readFloat32_eq_error (error_of_map h)
  have haim {name : String} {put : RecipeParams → Guard → RecipeParams} (value : Node)
      (params : RecipeParams)
      (h : (Field.of name readGuard put).read value params = .error .overflow) :
      name ∈ secondsFields ∧ NumberBeyond value :=
    (readGuard_ne_overflow (error_of_map h)).elim
  simp only [paramFields, List.forall_mem_cons]
  exact ⟨hseconds (by decide), haim, hamount, hseconds (by decide), hseconds (by decide), hamount,
    hamount, hamount, hamount, hamount, hamount, hamount, hamount, hamount, hamount, hamount, hamount,
    hamount, nofun⟩

/-- Reading the numbers of the recipes breaks off only over a number of seconds. -/
theorem readParams_overflow {document : Node} {defaults : RecipeParams}
    (h : readRecord paramFields defaults document = .error .overflow) :
    ∃ field value, Gives paramFields field value document ∧ field.name ∈ secondsFields ∧
      NumberBeyond value := by
  obtain h | ⟨field, value, params, hgives, h⟩ := readRecord_eq_error h
  · cases h
  · exact ⟨field, value, hgives, paramFields_overflow field hgives.mem value params h⟩

end Config

end BehaviorTree
