import E2Term.Lib.Xer

/-!
# Types of XML texts

ASN.1 types as far as their XML texts go. A value of a type stays one when the spaces in its
character strings are taken out.
-/

namespace Xer

/-! ## Types -/

/-- An element of a type. `optional` is for the elements of a SEQUENCE, `key` for the rows of a
table of objects. -/
structure Field where
  name : Name
  optional : Bool := false
  key : Int := 0

mutual

/-- A type; an INTEGER is one that fits a `long`. An `object` is a SEQUENCE of a number, a
criticality and an open value that the number selects from the rows. -/
inductive Typ where
  | integer
  | enumerated (ids : List Name)
  | octetString
  | bitString
  | printableString
  | sequence (fields : Fields)
  | choice (alternatives : Fields)
  | sequenceOf (name : Name) (element : Typ)
  | object (key criticality value : Name) (ids : List Name) (rows : Fields)

inductive Fields where
  | nil
  | cons (field : Field) (type : Typ) (rest : Fields)

end

/-- The elements in a list. -/
def Elements.toList : Elements → List (Name × Value)
  | .nil => []
  | .cons name content rest => (name, content) :: rest.toList

mutual

/-- The value is of the type. -/
def Typ.has : Typ → Value → Bool
  | .integer, .integer n => -9223372036854775808 ≤ n && n ≤ 9223372036854775807
  | .enumerated ids, .enumerated id => ids.contains id
  | .octetString, .octetString _ => true
  | .bitString, .bitString _ => true
  | .printableString, .printableString _ => true
  | .sequence fields, .elements es => fields.has es
  | .choice alternatives, .elements (.cons name content .nil) => alternatives.hasOne name content
  | .sequenceOf name element, .elements es =>
    es.toList.all fun e => e.1 = name && element.has e.2
  | .object key criticality value ids rows,
      .elements (.cons k (.integer n) (.cons c (.enumerated id) (.cons v
        (.elements (.cons name content .nil)) .nil))) =>
    k = key && c = criticality && v = value && ids.contains id && rows.hasRow n name content
  | _, _ => false

/-- The elements are those of the fields, but for optional ones. -/
def Fields.has : Fields → Elements → Bool
  | .nil, .nil => true
  | .nil, .cons _ _ _ => false
  | .cons f _ rest, .nil => f.optional && rest.has .nil
  | .cons f t rest, .cons name content es =>
    if name = f.name then t.has content && rest.has es
    else f.optional && rest.has (.cons name content es)

/-- The element is one of the fields. -/
def Fields.hasOne : Fields → Name → Value → Bool
  | .nil, _, _ => false
  | .cons f t rest, name, content =>
    if name = f.name then t.has content else rest.hasOne name content

/-- The element is the field with the key `n`. -/
def Fields.hasRow : Fields → Int → Name → Value → Bool
  | .nil, _, _, _ => false
  | .cons f t rest, n, name, content =>
    if n = f.key then name = f.name && t.has content else rest.hasRow n name content

end

/-! ## Values of a type -/

theorem has_choice {alternatives : Fields} {v : Value}
    (hv : (Typ.choice alternatives).has v = true) :
    ∃ name content, v = .elements (.cons name content .nil) ∧
      alternatives.hasOne name content = true := by
  unfold Typ.has at hv
  split at hv
  all_goals try contradiction
  rename_i h
  cases h
  exact ⟨_, _, rfl, hv⟩

theorem has_object {key criticality value : Name} {ids : List Name} {rows : Fields} {v : Value}
    (hv : (Typ.object key criticality value ids rows).has v = true) :
    ∃ n id name content, v = .elements (.cons key (.integer n) (.cons criticality (.enumerated id)
        (.cons value (.elements (.cons name content .nil)) .nil))) ∧
      id ∈ ids ∧ rows.hasRow n name content = true := by
  unfold Typ.has at hv
  split at hv
  all_goals try contradiction
  rename_i h
  cases h
  simp only [Bool.and_eq_true, decide_eq_true_iff] at hv
  obtain ⟨⟨⟨⟨rfl, rfl⟩, rfl⟩, hid⟩, hrow⟩ := hv
  exact ⟨_, _, _, _, rfl, List.contains_iff_mem.mp hid, hrow⟩

theorem toList_unlaid (es : Elements) :
    es.unlaid.toList = es.toList.map fun e => (e.1, e.2.unlaid) := by
  cases es with
  | nil => rfl
  | cons name content rest => exact congrArg ((name, content.unlaid) :: ·) (toList_unlaid rest)

mutual

/-- A value without the spaces in its character strings is of the same type. -/
theorem Typ.has_unlaid : ∀ (T : Typ) {v : Value}, T.has v = true → T.has v.unlaid = true
  | .integer, v, hv | .enumerated ids, v, hv | .octetString, v, hv | .bitString, v, hv => by
    cases v with
    | printableString s => cases hv
    | elements es => cases hv
    | _ => exact hv
  | .printableString, v, hv => by
    cases v with
    | printableString s => rfl
    | _ => cases hv
  | .sequence fields, v, hv => by
    cases v with
    | elements es => exact Fields.has_unlaid fields hv
    | _ => cases hv
  | .choice alternatives, v, hv => by
    obtain ⟨name, content, rfl, hone⟩ := has_choice hv
    exact Fields.hasOne_unlaid alternatives hone
  | .sequenceOf name element, v, hv => by
    cases v with
    | elements es =>
      show (es.unlaid.toList.all fun e => e.1 = name && element.has e.2) = true
      rw [toList_unlaid, List.all_map, List.all_eq_true]
      intro e he
      have hmem := List.all_eq_true.mp hv e he
      rw [Bool.and_eq_true] at hmem
      exact Bool.and_eq_true _ _ ▸ ⟨hmem.1, Typ.has_unlaid element hmem.2⟩
    | _ => cases hv
  | .object key criticality value ids rows, v, hv => by
    obtain ⟨n, id, name, content, rfl, hid, hrow⟩ := has_object hv
    have hrow' := Fields.hasRow_unlaid rows hrow
    simp [Value.unlaid, Elements.unlaid, Typ.has, hid, hrow']

theorem Fields.has_unlaid : ∀ (fields : Fields) {es : Elements}, fields.has es = true →
    fields.has es.unlaid = true
  | .nil, es, hes => by
    cases es with
    | nil => rfl
    | cons _ _ _ => cases hes
  | .cons f type rest, es, hes => by
    cases es with
    | nil => exact hes
    | cons name content es =>
      unfold Elements.unlaid
      unfold Fields.has at hes ⊢
      by_cases hname : name = f.name
      · simp only [if_pos hname, Bool.and_eq_true] at hes ⊢
        exact ⟨Typ.has_unlaid type hes.1, Fields.has_unlaid rest hes.2⟩
      · simp only [if_neg hname, Bool.and_eq_true] at hes ⊢
        exact ⟨hes.1, Fields.has_unlaid rest hes.2⟩

theorem Fields.hasOne_unlaid : ∀ (fields : Fields) {name : Name} {content : Value},
    fields.hasOne name content = true → fields.hasOne name content.unlaid = true
  | .nil, _, _, hone => by cases hone
  | .cons f type rest, name, content, hone => by
    unfold Fields.hasOne at hone ⊢
    by_cases hname : name = f.name
    · rw [if_pos hname] at hone ⊢
      exact Typ.has_unlaid type hone
    · rw [if_neg hname] at hone ⊢
      exact Fields.hasOne_unlaid rest hone

theorem Fields.hasRow_unlaid : ∀ (fields : Fields) {n : Int} {name : Name} {content : Value},
    fields.hasRow n name content = true → fields.hasRow n name content.unlaid = true
  | .nil, _, _, _, hrow => by cases hrow
  | .cons f type rest, n, name, content, hrow => by
    unfold Fields.hasRow at hrow ⊢
    by_cases hkey : n = f.key
    · rw [if_pos hkey, Bool.and_eq_true] at hrow ⊢
      exact ⟨hrow.1, Typ.has_unlaid type hrow.2⟩
    · rw [if_neg hkey] at hrow ⊢
      exact Fields.hasRow_unlaid rest hrow

end

end Xer
