import ChatIntake.Decimal.Binary64
import ChatIntake.Keyed

/-!
# JSON values

Objects are keyed lists of fields, so the order of keys is part of a value: two
values are equal only if they agree in that order too.
-/

namespace ChatIntake

/-- A JSON number: a whole number, or a finite floating-point number. -/
inductive Number where
  | int (value : Int)
  | float (value : Decimal.Binary64)
deriving DecidableEq

/-- A JSON value. -/
inductive Json where
  | null
  | bool (value : Bool)
  | number (value : Number)
  | string (value : String)
  | array (elements : List Json)
  | object (fields : List (String × Json))

namespace Json

mutual

/-- Whether two values are the same, the order of keys included. -/
def same : Json → Json → Bool
  | null, null => true
  | bool a, bool b => a == b
  | number a, number b => a == b
  | string a, string b => a == b
  | array as, array bs => sameElements as bs
  | object as, object bs => sameFields as bs
  | _, _ => false

/-- Whether two lists hold the same elements. -/
def sameElements : List Json → List Json → Bool
  | [], [] => true
  | a :: as, b :: bs => same a b && sameElements as bs
  | _, _ => false

/-- Whether two lists hold the same fields. -/
def sameFields : List (String × Json) → List (String × Json) → Bool
  | [], [] => true
  | (k, a) :: as, (l, b) :: bs => k == l && same a b && sameFields as bs
  | _, _ => false

end

mutual

theorem same_iff (a b : Json) : same a b = true ↔ a = b := by
  cases a with
  | array as => cases b <;> simp [same, sameElements_iff as]
  | object as => cases b <;> simp [same, sameFields_iff as]
  | null => cases b <;> simp [same]
  | bool _ => cases b <;> simp [same]
  | number _ => cases b <;> simp [same]
  | string _ => cases b <;> simp [same]

theorem sameElements_iff (as bs : List Json) : sameElements as bs = true ↔ as = bs := by
  cases as with
  | nil => cases bs <;> simp [sameElements]
  | cons a as =>
    cases bs with
    | nil => simp [sameElements]
    | cons b bs => simp [sameElements, same_iff a b, sameElements_iff as bs]

theorem sameFields_iff (as bs : List (String × Json)) : sameFields as bs = true ↔ as = bs := by
  cases as with
  | nil => cases bs <;> simp [sameFields]
  | cons a as =>
    obtain ⟨k, a⟩ := a
    cases bs with
    | nil => simp [sameFields]
    | cons b bs =>
      obtain ⟨l, b⟩ := b
      simp [sameFields, same_iff a b, sameFields_iff as bs]

end

instance : DecidableEq Json := fun a b => decidable_of_iff _ (same_iff a b)

/-- The fields of an object, in order. -/
abbrev Fields := Keyed Json

/-- The text of a string value. -/
def text? : Json → Option String
  | string s => some s
  | _ => none

/-- The fields of an object value. -/
def fields? : Json → Option Fields
  | object fields => some fields
  | _ => none

@[simp] theorem text?_eq_some_iff {value : Json} {s : String} :
    value.text? = some s ↔ value = .string s := by
  cases value <;> simp [text?]

@[simp] theorem fields?_eq_some_iff {value : Json} {fields : Fields} :
    value.fields? = some fields ↔ value = .object fields := by
  cases value <;> simp [fields?]

theorem fields?_eq_none_iff {value : Json} :
    value.fields? = none ↔ ∀ fields, value ≠ .object fields := by
  simp only [Option.eq_none_iff_forall_ne_some, ne_eq, fields?_eq_some_iff]

theorem bind_fields?_eq_some_iff {value? : Option Json} {fields : Fields} :
    value?.bind fields? = some fields ↔ value? = some (.object fields) := by
  simp [Option.bind_eq_some_iff]

theorem bind_fields?_eq_none_iff {value? : Option Json} :
    value?.bind fields? = none ↔ ∀ fields, value? ≠ some (.object fields) := by
  simp only [Option.eq_none_iff_forall_ne_some, ne_eq, bind_fields?_eq_some_iff]

namespace Fields

/-- The text under a key, if the value there is a string. -/
def text? (fields : Fields) (key : String) : Option String :=
  (fields.get? key).bind Json.text?

/-- The text under a key, if the value there is a string other than the empty one. -/
def fullText? (fields : Fields) (key : String) : Option String :=
  (text? fields key).filter fun text => !text.isEmpty

theorem text?_eq_some_iff {fields : Fields} {key s : String} :
    fields.text? key = some s ↔ fields.get? key = some (.string s) := by
  simp [text?, Option.bind_eq_some_iff]

theorem text?_eq_none_iff {fields : Fields} {key : String} :
    fields.text? key = none ↔ ∀ s, fields.get? key ≠ some (.string s) := by
  simp only [Option.eq_none_iff_forall_ne_some, ne_eq, text?_eq_some_iff]

theorem fullText?_eq_some_iff {fields : Fields} {key s : String} :
    fields.fullText? key = some s ↔ fields.get? key = some (.string s) ∧ s ≠ "" := by
  simp [fullText?, Option.filter_eq_some_iff, text?_eq_some_iff]

/-- Whether the value under a key is a string other than the empty one. -/
def HoldsFullText (fields : Fields) (key : String) : Prop :=
  ∃ s, fields.get? key = some (.string s) ∧ s ≠ ""

theorem fullText?_eq_none_iff {fields : Fields} {key : String} :
    fields.fullText? key = none ↔ ¬ fields.HoldsFullText key := by
  simp only [HoldsFullText, ← fullText?_eq_some_iff]
  exact Option.eq_none_iff_forall_ne_some.trans not_exists.symm

/-- The first text under keys in their order, where values that are no text and empty
texts are passed over. -/
inductive FirstFullText (fields : Fields) : List String → String → Prop
  | here {key : String} {keys : List String} {s : String}
      (htext : fields.get? key = some (.string s)) (hfull : s ≠ "") :
      FirstFullText fields (key :: keys) s
  | later {key : String} {keys : List String} {s : String} (hkey : ¬ fields.HoldsFullText key)
      (hlater : FirstFullText fields keys s) : FirstFullText fields (key :: keys) s

theorem findSome?_fullText?_eq_some_iff {fields : Fields} {keys : List String} {s : String} :
    keys.findSome? fields.fullText? = some s ↔ FirstFullText fields keys s := by
  induction keys with
  | nil =>
    constructor <;> intro h <;> cases h
  | cons key keys ih =>
    rw [List.findSome?_cons]
    constructor
    · intro h
      split at h
      · next text htext =>
        cases h
        obtain ⟨htext, hfull⟩ := fullText?_eq_some_iff.mp htext
        exact .here htext hfull
      · next hnone => exact .later (fullText?_eq_none_iff.mp hnone) (ih.mp h)
    · intro h
      cases h with
      | here htext hfull => rw [fullText?_eq_some_iff.mpr ⟨htext, hfull⟩]
      | later hkey hlater => rw [fullText?_eq_none_iff.mpr hkey, ih.mpr hlater]

theorem FirstFullText.ne_empty {fields : Fields} {keys : List String} {s : String}
    (h : fields.FirstFullText keys s) : s ≠ "" := by
  induction h with
  | here _ hfull => exact hfull
  | later _ _ ih => exact ih

end Fields

end Json

end ChatIntake
