import Mathlib.Tactic.Common

/-!
# Base64

Three octets as four sextets, each a character of an alphabet; one or two octets that are left over
fill their group of four with padding. The alphabet is a parameter.
-/

namespace Base64

/-! ## Octets and sextets -/

/-- The first octet of a group, from its sextets. -/
def octet₀ (s₀ s₁ : Nat) : UInt8 := (s₀ * 4 + s₁ / 16).toUInt8

/-- The second one. -/
def octet₁ (s₁ s₂ : Nat) : UInt8 := (s₁ * 16 + s₂ / 4).toUInt8

/-- The third one. -/
def octet₂ (s₂ s₃ : Nat) : UInt8 := (s₂ * 64 + s₃).toUInt8

theorem octet₀_sextets (a : UInt8) {k : Nat} (hk : k < 16) :
    octet₀ (a.toNat / 4) (a.toNat % 4 * 16 + k) = a := by
  have ha := a.toNat_lt
  apply UInt8.toNat_inj.mp
  simp [octet₀]
  omega

theorem octet₁_sextets (a b : UInt8) {k : Nat} (hk : k < 4) :
    octet₁ (a.toNat % 4 * 16 + b.toNat / 16) (b.toNat % 16 * 4 + k) = b := by
  have hb := b.toNat_lt
  apply UInt8.toNat_inj.mp
  simp [octet₁]
  omega

theorem octet₂_sextets (b c : UInt8) :
    octet₂ (b.toNat % 16 * 4 + c.toNat / 64) (c.toNat % 64) = c := by
  have hc := c.toNat_lt
  apply UInt8.toNat_inj.mp
  simp [octet₂]
  omega

/-! ## Alphabets -/

/-- The characters of the sextets, and one for padding. -/
structure Alphabet (χ : Type) where
  char : Nat → χ
  pad : χ
  char_inj : ∀ i < 64, ∀ j < 64, char i = char j → i = j
  char_ne_pad : ∀ i < 64, char i ≠ pad

variable {χ : Type} (A : Alphabet χ)

/-- A character of the text of something. -/
def Alphabet.Has (c : χ) : Prop := (∃ i < 64, A.char i = c) ∨ c = A.pad

/-- The text of some octets. -/
def encode : List UInt8 → List χ
  | [] => []
  | [a] => [A.char (a.toNat / 4), A.char (a.toNat % 4 * 16), A.pad, A.pad]
  | [a, b] =>
    [A.char (a.toNat / 4), A.char (a.toNat % 4 * 16 + b.toNat / 16), A.char (b.toNat % 16 * 4),
      A.pad]
  | a :: b :: c :: rest =>
    A.char (a.toNat / 4) :: A.char (a.toNat % 4 * 16 + b.toNat / 16) ::
      A.char (b.toNat % 16 * 4 + c.toNat / 64) :: A.char (c.toNat % 64) :: encode rest

theorem length_encode (s : List UInt8) : (encode A s).length = 4 * ((s.length + 2) / 3) := by
  induction s using encode.induct with
  | case1 => simp [encode]
  | case2 a => simp [encode]
  | case3 a b => simp [encode]
  | case4 a b c rest ih =>
    simp only [encode, List.length_cons, ih]
    omega

theorem has_char {i : Nat} (hi : i < 64) : A.Has (A.char i) := .inl ⟨i, hi, rfl⟩

/-- The text has no other characters. -/
theorem has_of_mem_encode (s : List UInt8) : ∀ x ∈ encode A s, A.Has x := by
  induction s using encode.induct with
  | case1 => exact fun x hx => absurd hx List.not_mem_nil
  | case2 a =>
    have ha := a.toNat_lt
    simp only [encode, List.forall_mem_cons]
    exact ⟨has_char A (by omega), has_char A (by omega), .inr rfl, .inr rfl, by simp⟩
  | case3 a b =>
    have ha := a.toNat_lt
    have hb := b.toNat_lt
    simp only [encode, List.forall_mem_cons]
    exact ⟨has_char A (by omega), has_char A (by omega), has_char A (by omega), .inr rfl, by simp⟩
  | case4 a b c rest ih =>
    have ha := a.toNat_lt
    have hb := b.toNat_lt
    have hc := c.toNat_lt
    simp only [encode, List.forall_mem_cons]
    exact ⟨has_char A (by omega), has_char A (by omega), has_char A (by omega),
      has_char A (by omega), ih⟩

/-! ## Decoding -/

section Decode

variable [DecidableEq χ]

/-- The sextet of a character. -/
def Alphabet.value (c : χ) : Option Nat := (List.range 64).find? fun i => A.char i = c

theorem value_char {i : Nat} (hi : i < 64) : A.value (A.char i) = some i := by
  unfold Alphabet.value
  cases hf : (List.range 64).find? fun j => A.char j = A.char i with
  | none =>
    rw [List.find?_eq_none] at hf
    exact absurd (decide_eq_true rfl) (hf i (List.mem_range.mpr hi))
  | some j =>
    have hj : j < 64 := List.mem_range.mp (List.mem_of_find?_eq_some hf)
    have heq : A.char j = A.char i := by simpa using List.find?_some hf
    rw [A.char_inj j hj i hi heq]

/-- The octets of a text: groups of four characters, of which the last may be padded. -/
def decode : List χ → Option (List UInt8)
  | [] => some []
  | c₀ :: c₁ :: c₂ :: c₃ :: rest =>
    if rest = [] ∧ c₃ = A.pad then
      if c₂ = A.pad then do
        return [octet₀ (← A.value c₀) (← A.value c₁)]
      else do
        let s₁ ← A.value c₁
        return [octet₀ (← A.value c₀) s₁, octet₁ s₁ (← A.value c₂)]
    else do
      let s₁ ← A.value c₁
      let s₂ ← A.value c₂
      let o₀ := octet₀ (← A.value c₀) s₁
      let o₂ := octet₂ s₂ (← A.value c₃)
      return o₀ :: octet₁ s₁ s₂ :: o₂ :: (← decode rest)
  | _ => none

/-- What was encoded is decoded again. -/
theorem decode_encode (s : List UInt8) : decode A (encode A s) = some s := by
  induction s using encode.induct with
  | case1 => rfl
  | case2 a =>
    have ha := a.toNat_lt
    have h₀ := value_char A (show a.toNat / 4 < 64 by omega)
    have h₁ := value_char A (show a.toNat % 4 * 16 < 64 by omega)
    have ho := octet₀_sextets a (show 0 < 16 by decide)
    rw [Nat.add_zero] at ho
    simp [encode, decode, h₀, h₁, ho]
  | case3 a b =>
    have ha := a.toNat_lt
    have hb := b.toNat_lt
    have h₀ := value_char A (show a.toNat / 4 < 64 by omega)
    have h₁ := value_char A (show a.toNat % 4 * 16 + b.toNat / 16 < 64 by omega)
    have h₂ := value_char A (show b.toNat % 16 * 4 < 64 by omega)
    have hne := A.char_ne_pad (b.toNat % 16 * 4) (by omega)
    have ho₀ := octet₀_sextets a (show b.toNat / 16 < 16 by omega)
    have ho₁ := octet₁_sextets a b (show 0 < 4 by decide)
    rw [Nat.add_zero] at ho₁
    simp [encode, decode, h₀, h₁, h₂, hne, ho₀, ho₁]
  | case4 a b c rest ih =>
    have ha := a.toNat_lt
    have hb := b.toNat_lt
    have hc := c.toNat_lt
    have h₀ := value_char A (show a.toNat / 4 < 64 by omega)
    have h₁ := value_char A (show a.toNat % 4 * 16 + b.toNat / 16 < 64 by omega)
    have h₂ := value_char A (show b.toNat % 16 * 4 + c.toNat / 64 < 64 by omega)
    have h₃ := value_char A (show c.toNat % 64 < 64 by omega)
    have hne := A.char_ne_pad (c.toNat % 64) (by omega)
    have ho₀ := octet₀_sextets a (show b.toNat / 16 < 16 by omega)
    have ho₁ := octet₁_sextets a b (show c.toNat / 64 < 4 by omega)
    have ho₂ := octet₂_sextets b c
    simp [encode, decode, h₀, h₁, h₂, h₃, hne, ho₀, ho₁, ho₂, ih]

/-- Four characters stand for up to three octets. -/
theorem length_of_decode : ∀ {s : List χ} {t : List UInt8}, decode A s = some t →
    s.length = 4 * ((t.length + 2) / 3)
  | [], t, h => by
    cases h
    rfl
  | c₀ :: c₁ :: c₂ :: c₃ :: rest, t, h => by
    unfold decode at h
    split at h
    · rename_i hlast
      rw [hlast.1]
      split at h
      · simp only [Option.bind_eq_bind, Option.bind_eq_some_iff] at h
        obtain ⟨v₀, -, v₁, -, h⟩ := h
        cases h
        simp
      · simp only [Option.bind_eq_bind, Option.bind_eq_some_iff] at h
        obtain ⟨v₁, -, v₀, -, v₂, -, h⟩ := h
        cases h
        simp
    · simp only [Option.bind_eq_bind, Option.bind_eq_some_iff] at h
      obtain ⟨v₁, -, v₂, -, v₀, -, v₃, -, t', ht', h⟩ := h
      cases h
      have hrest := length_of_decode ht'
      simp only [List.length_cons]
      omega

end Decode

end Base64
