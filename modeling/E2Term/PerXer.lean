import E2Term.PerTypes
import E2Term.PerValues

/-!
# From octets to XML

A type as far as its XML texts go, and a decoded value as the XML encoder walks it. The names of the
elements come from the type: a value only has positions.
-/

namespace E2Term

namespace Per

open AsnPer (criticalityIds criticalityName valueName)

/-! ## Types -/

/-- The rows of a table of objects, with the elements that they select. -/
def xerRows (rows : List (Int × Nat)) (alternatives : List (Xer.Field × Xer.Typ)) :
    List (Xer.Field × Xer.Typ) :=
  rows.filterMap fun r => alternatives[r.2]?.map fun a => ({ a.1 with key := r.1 }, a.2)

mutual

/-- The type without its constraints. -/
def Typ.erase : Typ → Xer.Typ
  | .integer _ => .integer
  | .enumerated _ _ ids => .enumerated ids
  | .octetString _ => .octetString
  | .bitString _ => .bitString
  | .printableString _ => .printableString
  | .sequence _ fields => .sequence (AsnDef.fields fields.erase)
  | .choice _ _ alternatives => .choice (AsnDef.fields alternatives.erase)
  | .sequenceOf _ name element => .sequenceOf name element.erase
  | .object key _ rows alternatives =>
    .object key criticalityName valueName criticalityIds
      (AsnDef.fields (xerRows rows alternatives.erase))

def Fields.erase : Fields → List (Xer.Field × Xer.Typ)
  | .nil => []
  | .cons name optional type rest => (⟨name, optional, 0⟩, type.erase) :: rest.erase

end

/-- The messages that go on as XML have the types that `AsnDef` gives them. -/
theorem erase_messages :
    AsnPer.E2setupRequest.erase = AsnDef.E2setupRequest ∧
      AsnPer.RICserviceUpdate.erase = AsnDef.RICserviceUpdate ∧
      AsnPer.E2nodeConfigurationUpdate.erase = AsnDef.E2nodeConfigurationUpdate ∧
      AsnPer.ErrorIndication.erase = AsnDef.ErrorIndication :=
  ⟨rfl, rfl, rfl, rfl⟩

/-! ## Values -/

/-- A PrintableString of these characters, if there is one. -/
def toPrintable (buf : List UInt8) : Option Xer.PrintableString :=
  if h : ∀ b ∈ buf, Xer.isPrintable b = true then some ⟨buf, h⟩ else none

/-- Elements of one name. -/
def sameElements (name : Xer.Name) (contents : List Xer.Value) : Xer.Elements :=
  contents.foldr (.cons name) .nil

mutual

/-- The value with the names of its elements; `none` for a character string that is not printable,
of which the encoder would print some characters as tags. -/
def Typ.toXer : Typ → Value → Option Xer.Value
  | .integer _, .integer n => some (.integer n)
  | .enumerated _ _ ids, .enumerated value => ids[value]?.map .enumerated
  | .octetString _, .octets buf => some (.octetString buf)
  | .bitString _, .bits bits => some (.bitString bits)
  | .printableString _, .octets buf => (toPrintable buf).map .printableString
  | .sequence _ fields, .sequence members => (fields.toXerMembers members).map .elements
  | .choice _ _ alternatives, .choice present value =>
    (alternatives.toXerAlternative present value).map fun e => .elements (.cons e.1 e.2 .nil)
  | .sequenceOf _ name element, .sequenceOf elements =>
    (elements.mapM fun value => element.toXer value).map fun contents =>
      .elements (sameElements name contents)
  | .object key _ _ alternatives, .object n crit present value => do
    let id ← criticalityIds[crit]?
    let e ← alternatives.toXerAlternative present value
    return .elements (.cons key (.integer n) (.cons criticalityName (.enumerated id)
      (.cons valueName (.elements (.cons e.1 e.2 .nil)) .nil)))
  | _, _ => none

def Fields.toXerMembers : Fields → List (Option Value) → Option Xer.Elements
  | .cons name _ type rest, some value :: members => do
    let content ← type.toXer value
    let es ← rest.toXerMembers members
    return .cons name content es
  | .cons _ _ _ rest, none :: members => rest.toXerMembers members
  | _, _ => some .nil

def Fields.toXerAlternative : Fields → Nat → Value → Option (Xer.Name × Xer.Value)
  | .nil, _, _ => none
  | .cons name _ type _, 0, value => (type.toXer value).map (name, ·)
  | .cons _ _ _ rest, present + 1, value => rest.toXerAlternative present value

end

/-! ## Values of a type -/

/-- The names of the elements. -/
def Fields.names : Fields → List Xer.Name
  | .nil => []
  | .cons name _ _ rest => name :: rest.names

mutual

/-- No two elements of a SEQUENCE, or alternatives of a CHOICE, have one name. -/
def Typ.distinct : Typ → Bool
  | .sequence _ fields => fields.names.Nodup && fields.distinct
  | .choice _ _ alternatives => alternatives.names.Nodup && alternatives.distinct
  | .sequenceOf _ _ element => element.distinct
  | .object _ _ _ alternatives => alternatives.distinct
  | _ => true

def Fields.distinct : Fields → Bool
  | .nil => true
  | .cons _ _ type rest => type.distinct && rest.distinct

end

theorem name_toXerMembers : ∀ (fields : Fields) {members : List (Option Value)} {n : Xer.Name}
    {content : Xer.Value} {es : Xer.Elements},
    fields.toXerMembers members = some (.cons n content es) → n ∈ fields.names
  | .nil, _, _, _, _, h => by cases h
  | .cons _ _ _ _, [], _, _, _, h => by cases h
  | .cons name _ type rest, some value :: members, n, content, es, h => by
    obtain ⟨_, _, h⟩ := Option.bind_eq_some_iff.mp h
    obtain ⟨_, _, h⟩ := Option.bind_eq_some_iff.mp h
    cases h
    exact List.mem_cons_self
  | .cons _ _ _ rest, none :: members, _, _, _, h =>
    List.mem_cons_of_mem _ (name_toXerMembers rest h)

theorem name_toXerAlternative : ∀ (fields : Fields) {present : Nat} {value : Value}
    {e : Xer.Name × Xer.Value}, fields.toXerAlternative present value = some e → e.1 ∈ fields.names
  | .nil, _, _, _, h => by cases h
  | .cons name _ type _, 0, value, e, h => by
    obtain ⟨_, _, rfl⟩ := Option.map_eq_some_iff.mp h
    exact List.mem_cons_self
  | .cons _ _ _ rest, _ + 1, _, _, h => List.mem_cons_of_mem _ (name_toXerAlternative rest h)

theorem toList_sameElements (name : Xer.Name) (contents : List Xer.Value) :
    (sameElements name contents).toList = contents.map (name, ·) := by
  induction contents with
  | nil => rfl
  | cons content rest ih => exact congrArg ((name, content) :: ·) ih

theorem exists_of_mem_mapM {α β : Type} {f : α → Option β} : ∀ {l : List α} {l' : List β},
    l.mapM f = some l' → ∀ b ∈ l', ∃ a ∈ l, f a = some b
  | [], _, h, b, hb => by
    cases h
    cases hb
  | a :: l, _, h, b, hb => by
    rw [List.mapM_cons] at h
    obtain ⟨b', hb', h⟩ := Option.bind_eq_some_iff.mp h
    obtain ⟨l'', hl'', h⟩ := Option.bind_eq_some_iff.mp h
    cases h
    rcases List.mem_cons.mp hb with rfl | hb
    · exact ⟨a, List.mem_cons_self, hb'⟩
    · obtain ⟨a', ha', hfa⟩ := exists_of_mem_mapM hl'' b hb
      exact ⟨a', List.mem_cons_of_mem _ ha', hfa⟩

/-- The row of the key is the first one that has it. -/
theorem hasRow_xerRows {alternatives : List (Xer.Field × Xer.Typ)} {n : Int} {present : Nat}
    {f : Xer.Field} {T : Xer.Typ} {content : Xer.Value}
    (halt : alternatives[present]? = some (f, T))
    (hcontent : T.has content = true) : ∀ {rows : List (Int × Nat)},
    rows.lookup n = some present →
      (AsnDef.fields (xerRows rows alternatives)).hasRow n f.name content = true
  | [], h => by cases h
  | (key, i) :: rows, h => by
    rw [List.lookup_cons] at h
    by_cases hkey : n = key
    · subst hkey
      simp only [beq_self_eq_true] at h
      cases h
      unfold xerRows
      simp [halt, AsnDef.fields, Xer.Fields.hasRow, hcontent]
    · rw [beq_false_of_ne hkey] at h
      have hrest := hasRow_xerRows halt hcontent h
      unfold xerRows at hrest ⊢
      cases hi : alternatives[i]? with
      | none => simpa [hi] using hrest
      | some a =>
        simpa [hi, AsnDef.fields, Xer.Fields.hasRow, hkey] using hrest

mutual

/-- What the XML encoder walks is of the type. -/
theorem Typ.has_toXer : ∀ (T : Typ) {v : Value} {x : Xer.Value}, T.distinct = true →
    T.has v = true → T.toXer v = some x → T.erase.has x = true
  | .integer ct, v, x, _, hv, hx => by
    cases v with
    | integer n =>
      cases hx
      have hlong := (Bool.and_eq_true _ _ ▸ hv : _ ∧ _).1
      simp only [fitsLong, Bool.and_eq_true, decide_eq_true_eq] at hlong
      simp only [Typ.erase, Xer.Typ.has, Bool.and_eq_true, decide_eq_true_eq]
      omega
    | _ => cases hx
  | .enumerated _ _ ids, v, x, _, _, hx => by
    cases v with
    | enumerated value =>
      obtain ⟨id, hid, rfl⟩ := Option.map_eq_some_iff.mp hx
      exact List.contains_iff_mem.mpr (List.mem_of_getElem? hid)
    | _ => cases hx
  | .octetString _, v, x, _, _, hx | .bitString _, v, x, _, _, hx => by
    cases v with
    | octets _ | bits _ =>
      cases hx <;> rfl
    | _ => cases hx
  | .printableString _, v, x, _, _, hx => by
    cases v with
    | octets buf =>
      obtain ⟨s, _, rfl⟩ := Option.map_eq_some_iff.mp hx
      rfl
    | _ => cases hx
  | .sequence _ fields, v, x, hd, hv, hx => by
    cases v with
    | sequence members =>
      obtain ⟨es, hes, rfl⟩ := Option.map_eq_some_iff.mp hx
      obtain ⟨hnodup, hd⟩ := Bool.and_eq_true _ _ ▸ hd
      exact Fields.has_toXerMembers fields (of_decide_eq_true hnodup) hd hv hes
    | _ => cases hx
  | .choice _ _ alternatives, v, x, hd, hv, hx => by
    cases v with
    | choice present value =>
      obtain ⟨e, he, rfl⟩ := Option.map_eq_some_iff.mp hx
      obtain ⟨hnodup, hd⟩ := Bool.and_eq_true _ _ ▸ hd
      exact Fields.hasOne_toXer alternatives (of_decide_eq_true hnodup) hd hv he
    | _ => cases hx
  | .sequenceOf _ name element, v, x, hd, hv, hx => by
    cases v with
    | sequenceOf elements =>
      obtain ⟨contents, hcontents, rfl⟩ := Option.map_eq_some_iff.mp hx
      show ((sameElements name contents).toList.all fun e =>
        e.1 = name && element.erase.has e.2) = true
      rw [toList_sameElements, List.all_map, List.all_eq_true]
      intro content hcontent
      obtain ⟨value, hvalue, hx⟩ := exists_of_mem_mapM hcontents content hcontent
      have hcontent := Typ.has_toXer element hd (List.all_eq_true.mp hv value hvalue) hx
      simp [hcontent]
    | _ => cases hx
  | .object key _ rows alternatives, v, x, hd, hv, hx => by
    cases v with
    | object n crit present value =>
      obtain ⟨id, hid, hx⟩ := Option.bind_eq_some_iff.mp hx
      obtain ⟨e, he, hx⟩ := Option.bind_eq_some_iff.mp hx
      cases hx
      simp only [Typ.has, Bool.and_eq_true, decide_eq_true_eq] at hv
      obtain ⟨f, T, halt, hname, hcontent⟩ := Fields.getElem_toXer alternatives hd hv.2 he
      have hrow := hasRow_xerRows halt hcontent hv.1.2
      rw [hname] at hrow
      simp [Typ.erase, Xer.Typ.has, List.mem_of_getElem? hid, hrow]
    | _ => cases hx

theorem Fields.has_toXerMembers : ∀ (fields : Fields) {members : List (Option Value)}
    {es : Xer.Elements}, fields.names.Nodup → fields.distinct = true →
    fields.hasMembers members = true → fields.toXerMembers members = some es →
      (AsnDef.fields fields.erase).has es = true
  | .nil, members, es, _, _, _, hx => by
    cases hx
    rfl
  | .cons _ _ _ _, [], _, _, _, hv, _ => by cases hv
  | .cons name optional type rest, some value :: members, es, hnodup, hd, hv, hx => by
    obtain ⟨content, hcontent, hx⟩ := Option.bind_eq_some_iff.mp hx
    obtain ⟨es, hes, hx⟩ := Option.bind_eq_some_iff.mp hx
    cases hx
    obtain ⟨hd, hd'⟩ := Bool.and_eq_true _ _ ▸ hd
    obtain ⟨hv, hv'⟩ := Bool.and_eq_true _ _ ▸ hv
    have hrest := Fields.has_toXerMembers rest (List.nodup_cons.mp hnodup).2 hd' hv' hes
    have htype := Typ.has_toXer type hd hv hcontent
    show (if name = name then _ else _) = true
    rw [if_pos rfl, htype]
    exact hrest
  | .cons name optional type rest, none :: members, es, hnodup, hd, hv, hx => by
    obtain ⟨hnotin, hnodup⟩ := List.nodup_cons.mp hnodup
    obtain ⟨hopt, hv⟩ := Bool.and_eq_true _ _ ▸ hv
    have hrest := Fields.has_toXerMembers rest hnodup (Bool.and_eq_true _ _ ▸ hd).2 hv hx
    cases es with
    | nil => exact Bool.and_eq_true _ _ ▸ ⟨hopt, hrest⟩
    | cons n content es =>
      have hne : n ≠ name := by
        rintro rfl
        exact hnotin (name_toXerMembers rest hx)
      show (if n = name then _ else _) = true
      rw [if_neg hne]
      exact Bool.and_eq_true _ _ ▸ ⟨hopt, hrest⟩

theorem Fields.hasOne_toXer : ∀ (fields : Fields) {present : Nat} {value : Value}
    {e : Xer.Name × Xer.Value}, fields.names.Nodup → fields.distinct = true →
    fields.hasAlternative present value = true → fields.toXerAlternative present value = some e →
      (AsnDef.fields fields.erase).hasOne e.1 e.2 = true
  | .nil, _, _, _, _, _, hv, _ => by cases hv
  | .cons name _ type _, 0, value, e, _, hd, hv, hx => by
    obtain ⟨content, hcontent, rfl⟩ := Option.map_eq_some_iff.mp hx
    show (if name = name then _ else _) = true
    rw [if_pos rfl]
    exact Typ.has_toXer type (Bool.and_eq_true _ _ ▸ hd).1 hv hcontent
  | .cons name _ type rest, present + 1, value, e, hnodup, hd, hv, hx => by
    obtain ⟨hnotin, hnodup⟩ := List.nodup_cons.mp hnodup
    have hne : e.1 ≠ name := by
      rintro rfl
      exact hnotin (name_toXerAlternative rest hx)
    show (if e.1 = name then _ else _) = true
    rw [if_neg hne]
    exact Fields.hasOne_toXer rest hnodup (Bool.and_eq_true _ _ ▸ hd).2 hv hx

theorem Fields.getElem_toXer : ∀ (fields : Fields) {present : Nat} {value : Value}
    {e : Xer.Name × Xer.Value}, fields.distinct = true →
    fields.hasAlternative present value = true → fields.toXerAlternative present value = some e →
      ∃ f T, fields.erase[present]? = some (f, T) ∧ f.name = e.1 ∧ T.has e.2 = true
  | .nil, _, _, _, _, hv, _ => by cases hv
  | .cons name optional type _, 0, value, e, hd, hv, hx => by
    obtain ⟨content, hcontent, rfl⟩ := Option.map_eq_some_iff.mp hx
    exact ⟨⟨name, optional, 0⟩, type.erase, rfl, rfl,
      Typ.has_toXer type (Bool.and_eq_true _ _ ▸ hd).1 hv hcontent⟩
  | .cons _ _ _ rest, present + 1, value, e, hd, hv, hx =>
    Fields.getElem_toXer rest (Bool.and_eq_true _ _ ▸ hd).2 hv hx

end

end Per

end E2Term
