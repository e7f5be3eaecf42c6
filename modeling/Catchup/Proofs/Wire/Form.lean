import Catchup.Wire.Value
import Mathlib.Data.List.Forall2

/-! Forms of values.

A form says which values stand for something, and gives for each of them the plain value that stands
for the same. It is put together as what it describes is: from bounded numbers, lists, and records
of named fields. Only records leave a choice. A record may have its fields in any order and others
beside them, or be a bare list of its fields; the plain one has exactly its fields, in their own
order. -/

set_option autoImplicit false

namespace Catchup.Wire

/-! ## The fields of a structure -/

theorem mapM_eq_some_iff {α β : Type} {read : α → Option β} {items : List α} {results : List β} :
    items.mapM read = some results ↔
      List.Forall₂ (fun item result => read item = some result) items results := by
  induction items generalizing results with
  | nil => cases results <;> simp
  | cons item items ih =>
    simp only [List.mapM_cons, List.forall₂_cons_left_iff, ← ih]
    cases read item <;> cases items.mapM read <;> simp [eq_comm]

namespace Value

/-- `value` belongs to `name`: no later field has the same name. -/
def Last (fields : List (String × Value)) (name : String) (value : Value) : Prop :=
  ∃ before after, fields = before ++ (name, value) :: after ∧ ∀ field ∈ after, field.1 ≠ name

/-- Named fields can be found in a value: in a record, wherever they stand in it, or in a list of
nothing else. -/
inductive Offers (names : List String) : Value → List Value → Prop where
  | record {fields : List (String × Value)} {members : List Value} :
      List.Forall₂ (Last fields) names members → Offers names (.record fields) members
  | list {members : List Value} :
      members.length = names.length → Offers names (.list members) members

theorem field?_eq_some_iff {fields : List (String × Value)} {name : String} {value : Value} :
    field? name fields = some value ↔ Last fields name value := by
  rw [field?, List.lookup_eq_some_iff]
  constructor
  · rintro ⟨after, before, reversed, later⟩
    refine ⟨before.reverse, after.reverse, ?_, fun field member named => ?_⟩
    · rw [← List.reverse_reverse fields, reversed]
      simp
    · simpa [named] using later field (List.mem_reverse.mp member)
  · rintro ⟨before, after, rfl, later⟩
    refine ⟨after.reverse, before.reverse, by simp, fun field member => ?_⟩
    exact bne_iff_ne.mpr (later field (List.mem_reverse.mp member)).symm

theorem members?_eq_some_iff {names : List String} {value : Value} {members : List Value} :
    value.members? names = some members ↔ Offers names value members := by
  cases value with
  | record fields =>
    simp only [members?, mapM_eq_some_iff, field?_eq_some_iff]
    constructor
    · exact .record
    · intro offers
      cases offers with
      | record found => exact found
  | list items =>
    simp only [members?, Option.ite_none_right_eq_some, Option.some.injEq]
    constructor
    · rintro ⟨same, rfl⟩
      exact .list same
    · intro offers
      cases offers with
      | list same => exact ⟨same, rfl⟩
  | null | boolean | natural | numeral | text =>
    constructor <;> intro found <;> cases found

/-- A record of different names has its fields where they are put. -/
theorem offers_record_zip {names : List String} {members : List Value} (distinct : names.Nodup)
    (same : names.length = members.length) :
    Offers names (.record (names.zip members)) members := by
  refine .record (List.forall₂_iff_zip.mpr ⟨same, fun {name value} member => ?_⟩)
  obtain ⟨before, after, split⟩ := List.append_of_mem member
  refine ⟨before, after, split, fun field later named => ?_⟩
  -- The name would occur twice among the names.
  rw [← List.map_fst_zip (Nat.le_of_eq same), split, List.map_append, List.map_cons] at distinct
  exact (List.nodup_cons.mp (List.nodup_append.mp distinct).2.1).1
    (List.mem_map.mpr ⟨field, later, named⟩)

end Value

/-! ## Forms -/

/-- `form value plain`: the value stands for something, and plainly written that is `plain`. -/
abbrev Form := Value → Value → Prop

namespace Form

inductive Natural (bound : Nat) : Form where
  | below {number : Nat} : number < bound → Natural bound (.natural number) (.natural number)

inductive Nothing : Form where
  | null : Nothing .null .null

/-- A list of items, and of so many where a number is given. -/
inductive Listed (item : Form) (count : Option Nat) : Form where
  | each {items plains : List Value} : (∀ exact ∈ count, items.length = exact) →
      List.Forall₂ item items plains → Listed item count (.list items) (.list plains)

/-- The members are one by one of the given forms. -/
inductive Each : List Form → List Value → List Value → Prop where
  | nil : Each [] [] []
  | cons {form : Form} {forms : List Form} {value plain : Value} {values plains : List Value} :
      form value plain → Each forms values plains →
      Each (form :: forms) (value :: values) (plain :: plains)

inductive Record (fields : List (String × Form)) : Form where
  | of {value : Value} {members plains : List Value} :
      value.Offers (fields.map Prod.fst) members → Each (fields.map Prod.snd) members plains →
      Record fields value (.record ((fields.map Prod.fst).zip plains))

theorem record_map_iff {ι : Type*} {fields : List ι} {name : ι → String} {form : ι → Form}
    {value plain : Value} :
    Record (fields.map fun field => (name field, form field)) value plain ↔
      ∃ members plains, value.Offers (fields.map name) members ∧
        Each (fields.map form) members plains ∧ plain = .record ((fields.map name).zip plains) := by
  have names : (fields.map fun field => (name field, form field)).map Prod.fst =
      fields.map name := List.map_map
  have forms : (fields.map fun field => (name field, form field)).map Prod.snd =
      fields.map form := List.map_map
  constructor
  · rintro ⟨offers, each⟩
    exact ⟨_, _, names ▸ offers, forms ▸ each, by rw [names]⟩
  · rintro ⟨members, plains, offers, each, rfl⟩
    rw [← names] at offers ⊢
    exact .of offers (forms ▸ each)

end Form

end Catchup.Wire
