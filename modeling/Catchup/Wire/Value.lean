/-! Values as they travel between nodes: numbers, text, lists and records of named fields. -/

set_option autoImplicit false

namespace Catchup.Wire

inductive Value where
  | null
  | boolean (truth : Bool)
  | natural (number : Nat)
  /-- Any numeral that does not denote a natural number by digits alone. -/
  | numeral (digits : String)
  | text (characters : String)
  | list (items : List Value)
  | record (fields : List (String × Value))
  deriving Repr, Inhabited

namespace Value

/-- The field of that name; where a name occurs twice, its last occurrence counts. -/
def field? (name : String) (fields : List (String × Value)) : Option Value :=
  fields.reverse.lookup name

/-- The fields of a structure, in the order of `names`. They are read from a record that has all of
them, in any order and among others, or from a list of exactly as many items. -/
def members? (names : List String) : Value → Option (List Value)
  | .list items => if items.length = names.length then some items else none
  | .record fields => names.mapM fun name => field? name fields
  | _ => none

/-- A natural number below the bound. -/
def below? (bound : Nat) : Value → Option Nat
  | .natural number => if number < bound then some number else none
  | _ => none

theorem below?_eq_some_iff {bound : Nat} {value : Value} {number : Nat} :
    value.below? bound = some number ↔ value = .natural number ∧ number < bound := by
  cases value with
  | natural other => simp only [below?, Option.ite_none_right_eq_some, Option.some.injEq,
      Value.natural.injEq]; grind
  | _ => simp [below?]

end Value

end Catchup.Wire
