import E2Term.Lib.Digits

/-!
# XML texts of ASN.1 values

Values as the XML encoding rules walk them, and the texts of a value: one value has many, which
differ in the layout between elements and inside octet and bit strings. The characters of a
character string stand in its text as they are, so layout there is content.

Taking all layout out of a text of a value leaves a text of another value: the one that lost the
spaces in its character strings (`Elements.Text.unlaid`).
-/

namespace Xer

open Digits

abbrev Text := List UInt8

/-! ## Layout -/

/-- Newline, tab and space. -/
def isLayout (b : UInt8) : Bool := b = 10 || b = 9 || b = 32

/-- A text without its layout. -/
def unlaid (s : Text) : Text := s.filter fun b => !isLayout b

theorem unlaid_append (s t : Text) : unlaid (s ++ t) = unlaid s ++ unlaid t :=
  List.filter_append s t

theorem unlaid_of_layout {s : Text} (h : ∀ b ∈ s, isLayout b = true) : unlaid s = [] :=
  List.filter_eq_nil_iff.mpr fun b hb => by simp [h b hb]

theorem unlaid_eq_self_iff (s : Text) : unlaid s = s ↔ ∀ b ∈ s, isLayout b = false := by
  unfold unlaid
  rw [List.filter_eq_self]
  simp

theorem unlaid_unlaid (s : Text) : unlaid (unlaid s) = unlaid s := by
  unfold unlaid
  rw [List.filter_filter]
  simp

/-! ## Tags -/

/-- Letters, digits, hyphens and underscores. -/
def isNameChar (b : UInt8) : Bool :=
  (48 ≤ b && b ≤ 57) || (65 ≤ b && b ≤ 90) || (97 ≤ b && b ≤ 122) || b = 45 || b = 95

/-- The name of an element or of an enumerated value. -/
structure Name where
  chars : Text
  ne_nil : chars ≠ []
  plain : ∀ b ∈ chars, isNameChar b = true
  deriving DecidableEq, Repr

def Name.openTag (n : Name) : Text := 60 :: (n.chars ++ [62])

def Name.closeTag (n : Name) : Text := 60 :: 47 :: (n.chars ++ [62])

def Name.emptyTag (n : Name) : Text := 60 :: (n.chars ++ [47, 62])

theorem isLayout_of_isNameChar {b : UInt8} (h : isNameChar b = true) : isLayout b = false := by
  unfold isLayout
  by_contra hl
  simp only [Bool.not_eq_false, Bool.or_eq_true, decide_eq_true_eq] at hl
  rcases hl with (rfl | rfl) | rfl <;> exact absurd h (by decide)

theorem Name.unlaid_chars (n : Name) : unlaid n.chars = n.chars :=
  (unlaid_eq_self_iff _).mpr fun b hb => isLayout_of_isNameChar (n.plain b hb)

theorem Name.unlaid_openTag (n : Name) : unlaid n.openTag = n.openTag := by
  show unlaid ([60] ++ (n.chars ++ [62])) = _
  rw [unlaid_append, unlaid_append, n.unlaid_chars]
  rfl

theorem Name.unlaid_closeTag (n : Name) : unlaid n.closeTag = n.closeTag := by
  show unlaid ([60, 47] ++ (n.chars ++ [62])) = _
  rw [unlaid_append, unlaid_append, n.unlaid_chars]
  rfl

theorem Name.unlaid_emptyTag (n : Name) : unlaid n.emptyTag = n.emptyTag := by
  show unlaid ([60] ++ (n.chars ++ [47, 62])) = _
  rw [unlaid_append, unlaid_append, n.unlaid_chars]
  rfl

/-! ## Values -/

/-- The characters of a PrintableString. -/
def isPrintable (b : UInt8) : Bool :=
  b = 32 || (39 ≤ b && b ≤ 41) || (43 ≤ b && b ≤ 58) || b = 61 || b = 63 ||
    (65 ≤ b && b ≤ 90) || (97 ≤ b && b ≤ 122)

structure PrintableString where
  chars : Text
  printable : ∀ b ∈ chars, isPrintable b = true
  deriving DecidableEq, Repr

/-- The string without its spaces. -/
def PrintableString.unlaid (s : PrintableString) : PrintableString where
  chars := Xer.unlaid s.chars
  printable := fun b hb => s.printable b (List.mem_filter.mp hb).1

/-- The one character of a PrintableString that is layout is the space. -/
theorem isLayout_iff_of_isPrintable {b : UInt8} (h : isPrintable b = true) :
    isLayout b = true ↔ b = 32 := by
  constructor
  · intro hl
    simp only [isLayout, Bool.or_eq_true, decide_eq_true_eq] at hl
    rcases hl with (rfl | rfl) | rfl
    · cases h
    · cases h
    · rfl
  · rintro rfl
    rfl

theorem PrintableString.unlaid_eq_self_iff (s : PrintableString) :
    s.unlaid = s ↔ 32 ∉ s.chars := by
  have hchars : s.unlaid = s ↔ Xer.unlaid s.chars = s.chars := by
    refine ⟨congrArg PrintableString.chars, fun h => ?_⟩
    unfold PrintableString.unlaid
    congr
  rw [hchars, Xer.unlaid_eq_self_iff]
  constructor
  · intro h hmem
    cases h 32 hmem
  · intro h b hb
    rw [Bool.eq_false_iff, ne_eq, isLayout_iff_of_isPrintable (s.printable b hb)]
    rintro rfl
    exact h hb

mutual

/-- A value; a SEQUENCE, a CHOICE, an open type and a SEQUENCE OF are the elements they have. -/
inductive Value where
  | integer (n : Int)
  | enumerated (id : Name)
  | octetString (octets : List UInt8)
  | bitString (bits : List Bool)
  | printableString (s : PrintableString)
  | elements (es : Elements)

inductive Elements where
  | nil
  | cons (name : Name) (content : Value) (rest : Elements)

end

/-- The digits of an INTEGER. -/
def integerText (n : Int) : Text :=
  if n < 0 then 45 :: digitBytes 10 n.natAbs else digitBytes 10 n.natAbs

def upperHexDigit (d : Nat) : UInt8 := if d < 10 then (48 + d).toUInt8 else (55 + d).toUInt8

/-- The digits of an OCTET STRING. -/
def octetText (octets : List UInt8) : Text :=
  octets.flatMap fun o => [upperHexDigit (o.toNat / 16), upperHexDigit (o.toNat % 16)]

/-- The digits of a BIT STRING. -/
def bitText (bits : List Bool) : Text := bits.map fun b => if b then 49 else 48

mutual

/-- The texts of a value. -/
def Value.Text : Value → Text → Prop
  | .integer n, s => s = integerText n
  | .enumerated id, s => s = id.emptyTag
  | .octetString octets, s => unlaid s = octetText octets
  | .bitString bits, s => unlaid s = bitText bits
  | .printableString p, s => s = p.chars
  | .elements es, s => es.Text s

/-- The texts of elements, with layout in front of each one and behind the last one. -/
def Elements.Text : Elements → Text → Prop
  | .nil, s => ∀ b ∈ s, isLayout b = true
  | .cons name content rest, s => ∃ lay t u, s = lay ++ name.openTag ++ t ++ name.closeTag ++ u ∧
      (∀ b ∈ lay, isLayout b = true) ∧ content.Text t ∧ rest.Text u

end

/-! ## Taking the layout out -/

mutual

/-- The value without the spaces in its character strings. -/
def Value.unlaid : Value → Value
  | .printableString s => .printableString s.unlaid
  | .elements es => .elements es.unlaid
  | v => v

def Elements.unlaid : Elements → Elements
  | .nil => .nil
  | .cons name content rest => .cons name content.unlaid rest.unlaid

end

mutual

/-- The character strings in a value. -/
def Value.strings : Value → List PrintableString
  | .printableString s => [s]
  | .elements es => es.strings
  | _ => []

def Elements.strings : Elements → List PrintableString
  | .nil => []
  | .cons _ content rest => content.strings ++ rest.strings

end

theorem integerText_not_layout (n : Int) : ∀ b ∈ integerText n, isLayout b = false := by
  have hdigits : ∀ b ∈ digitBytes 10 n.natAbs, isLayout b = false := fun b hb => by
    obtain ⟨d, hd, rfl⟩ := mem_digitBytes (by decide) hb
    have key : ∀ d < 10, isLayout (digitByte d) = false := by decide
    exact key d hd
  unfold integerText
  split
  · exact List.forall_mem_cons.mpr ⟨by decide, hdigits⟩
  · exact hdigits

mutual

theorem Value.Text.unlaid : ∀ (v : Value) {s : Xer.Text}, v.Text s →
    v.unlaid.Text (Xer.unlaid s)
  | .integer n, s, h => by
    unfold Value.Text at h
    subst h
    exact (unlaid_eq_self_iff _).mpr (integerText_not_layout n)
  | .enumerated id, s, h => by
    unfold Value.Text at h
    subst h
    exact id.unlaid_emptyTag
  | .octetString octets, s, h => (unlaid_unlaid s).trans h
  | .bitString bits, s, h => (unlaid_unlaid s).trans h
  | .printableString p, s, h => congrArg Xer.unlaid h
  | .elements es, s, h => Elements.Text.unlaid es h

theorem Elements.Text.unlaid : ∀ (es : Elements) {s : Xer.Text}, es.Text s →
    es.unlaid.Text (Xer.unlaid s)
  | .nil, s, h => by
    rw [unlaid_of_layout h]
    exact fun b hb => absurd hb List.not_mem_nil
  | .cons name content rest, s, h => by
    obtain ⟨lay, t, u, rfl, hlay, ht, hu⟩ := h
    refine ⟨[], Xer.unlaid t, Xer.unlaid u, ?_, fun b hb => absurd hb List.not_mem_nil,
      Value.Text.unlaid content ht, Elements.Text.unlaid rest hu⟩
    rw [unlaid_append, unlaid_append, unlaid_append, unlaid_append, unlaid_of_layout hlay,
      name.unlaid_openTag, name.unlaid_closeTag]

end

mutual

theorem Value.unlaid_eq_self_iff : ∀ v : Value,
    v.unlaid = v ↔ ∀ s ∈ v.strings, 32 ∉ s.chars
  | .integer _ | .enumerated _ | .octetString _ | .bitString _ => by
    simp [Value.unlaid, Value.strings]
  | .printableString s => by
    rw [Value.unlaid, Value.strings, List.forall_mem_singleton, Value.printableString.injEq,
      s.unlaid_eq_self_iff]
  | .elements es => by
    rw [Value.unlaid, Value.strings, Value.elements.injEq, Elements.unlaid_eq_self_iff es]

theorem Elements.unlaid_eq_self_iff : ∀ es : Elements,
    es.unlaid = es ↔ ∀ s ∈ es.strings, 32 ∉ s.chars
  | .nil => by simp [Elements.unlaid, Elements.strings]
  | .cons name content rest => by
    rw [Elements.unlaid, Elements.strings, List.forall_mem_append, Elements.cons.injEq,
      Value.unlaid_eq_self_iff content, Elements.unlaid_eq_self_iff rest]
    exact and_iff_right rfl

end

/-! ## Texts are C strings -/

theorem Name.chars_ne_zero (n : Name) : ∀ b ∈ n.chars, b ≠ 0 := by
  rintro b hb rfl
  exact absurd (n.plain 0 hb) (by decide)

theorem Name.emptyTag_ne_zero (n : Name) : ∀ b ∈ n.emptyTag, b ≠ 0 := by
  refine List.forall_mem_cons.mpr ⟨by decide, List.forall_mem_append.mpr ⟨n.chars_ne_zero, ?_⟩⟩
  decide

theorem Name.openTag_ne_zero (n : Name) : ∀ b ∈ n.openTag, b ≠ 0 := by
  refine List.forall_mem_cons.mpr ⟨by decide, List.forall_mem_append.mpr ⟨n.chars_ne_zero, ?_⟩⟩
  decide

theorem Name.closeTag_ne_zero (n : Name) : ∀ b ∈ n.closeTag, b ≠ 0 := by
  refine List.forall_mem_cons.mpr ⟨by decide, List.forall_mem_cons.mpr ⟨by decide, ?_⟩⟩
  refine List.forall_mem_append.mpr ⟨n.chars_ne_zero, ?_⟩
  decide

theorem ne_zero_of_layout {s : Text} (h : ∀ b ∈ s, isLayout b = true) : ∀ b ∈ s, b ≠ 0 := by
  rintro b hb rfl
  exact absurd (h 0 hb) (by decide)

/-- A NUL would not count as layout. -/
theorem ne_zero_of_unlaid {s : Text} (h : ∀ b ∈ unlaid s, b ≠ 0) : ∀ b ∈ s, b ≠ 0 := by
  rintro b hb rfl
  exact h 0 (List.mem_filter.mpr ⟨hb, by decide⟩) rfl

theorem integerText_ne_zero (n : Int) : ∀ b ∈ integerText n, b ≠ 0 := by
  have hdigits : ∀ b ∈ digitBytes 10 n.natAbs, b ≠ 0 := fun b hb => by
    obtain ⟨d, hd, rfl⟩ := mem_digitBytes (by decide) hb
    exact (digitByte_ne (by omega)).1
  unfold integerText
  split
  · exact List.forall_mem_cons.mpr ⟨by decide, hdigits⟩
  · exact hdigits

theorem octetText_ne_zero (octets : List UInt8) : ∀ b ∈ octetText octets, b ≠ 0 := by
  have key : ∀ d < 16, upperHexDigit d ≠ 0 := by decide
  intro b hb
  obtain ⟨o, -, hb⟩ := List.mem_flatMap.mp hb
  have ho := o.toNat_lt
  rw [List.mem_cons, List.mem_singleton] at hb
  rcases hb with rfl | rfl
  · exact key _ (by omega)
  · exact key _ (by omega)

theorem bitText_ne_zero (bits : List Bool) : ∀ b ∈ bitText bits, b ≠ 0 := by
  intro b hb
  obtain ⟨bit, -, rfl⟩ := List.mem_map.mp hb
  cases bit <;> decide

mutual

theorem Value.Text.ne_zero : ∀ (v : Value) {s : Xer.Text}, v.Text s → ∀ b ∈ s, b ≠ 0
  | .integer n, s, h => by
    unfold Value.Text at h
    rw [h]
    exact integerText_ne_zero n
  | .enumerated id, s, h => by
    unfold Value.Text at h
    rw [h]
    exact id.emptyTag_ne_zero
  | .octetString octets, s, h => by
    unfold Value.Text at h
    exact ne_zero_of_unlaid (h ▸ octetText_ne_zero octets)
  | .bitString bits, s, h => by
    unfold Value.Text at h
    exact ne_zero_of_unlaid (h ▸ bitText_ne_zero bits)
  | .printableString p, s, h => by
    unfold Value.Text at h
    rw [h]
    rintro b hb rfl
    exact absurd (p.printable 0 hb) (by decide)
  | .elements es, s, h => Elements.Text.ne_zero es h

theorem Elements.Text.ne_zero : ∀ (es : Elements) {s : Xer.Text}, es.Text s → ∀ b ∈ s, b ≠ 0
  | .nil, _, h => ne_zero_of_layout h
  | .cons name content rest, _, h => by
    obtain ⟨lay, t, u, rfl, hlay, ht, hu⟩ := h
    simp only [List.forall_mem_append]
    exact ⟨⟨⟨⟨ne_zero_of_layout hlay, name.openTag_ne_zero⟩, Value.Text.ne_zero content ht⟩,
      name.closeTag_ne_zero⟩, Elements.Text.ne_zero rest hu⟩

end

end Xer
