import E2Term.Lib.CString
import Mathlib.Algebra.Ring.Int.Defs
import Mathlib.Data.Int.Order.Basic

/-!
# Numerals and `strtol`

`strtol` reads the numeral that a text starts with and ignores what is behind it, so it gives a
number for every text. Only for a text that is a numeral as a whole is it the number of that text.
-/

namespace Numerals

open CString (isspace)

variable {s digits : List UInt8} {n m : Int}

/-- `0` to `9`. -/
def isDigit (b : UInt8) : Bool := 48 ≤ b ∧ b ≤ 57

/-- The number that digits spell. -/
def value (digits : List UInt8) : Nat := digits.foldl (fun n b => 10 * n + (b.toNat - 48)) 0

/-- What `strtol` returns for a number out of the range of `long`. -/
def clampLong (n : Int) : Int := max (-2 ^ 63) (min n (2 ^ 63 - 1))

/-- `strtol` behind the white space: a sign or none, then digits. -/
def strtolSigned (s : List UInt8) : Int :=
  if s.head? = some 45 then clampLong (-value (s.tail.takeWhile isDigit))
  else if s.head? = some 43 then clampLong (value (s.tail.takeWhile isDigit))
  else clampLong (value (s.takeWhile isDigit))

/-- `strtol(s, &end, 10)`. -/
def strtol (s : List UInt8) : Int := strtolSigned (s.dropWhile isspace)

/-- The text is a numeral of the integer: at least one digit, and a sign in front or none. -/
def Numeral (s : List UInt8) (n : Int) : Prop :=
  ∃ digits, digits ≠ [] ∧ (∀ b ∈ digits, isDigit b = true) ∧
    ((s = digits ∧ n = value digits) ∨ (s = 43 :: digits ∧ n = value digits) ∨
      (s = 45 :: digits ∧ n = -value digits))

theorem takeWhile_digits (h : ∀ b ∈ digits, isDigit b = true) :
    digits.takeWhile isDigit = digits := List.takeWhile_eq_self_iff.mpr h

theorem strtol_digits (hne : digits ≠ []) (h : ∀ b ∈ digits, isDigit b = true) :
    strtol digits = clampLong (value digits) := by
  obtain ⟨d, rest, rfl⟩ := List.exists_cons_of_ne_nil hne
  have hd : (48 : UInt8) ≤ d ∧ d ≤ 57 := of_decide_eq_true (h d List.mem_cons_self)
  have hne : ∀ x : UInt8, x < 48 → d ≠ x := fun x hx hdx => absurd (hdx ▸ hd.1) (by simpa using hx)
  have hspace : isspace d = false := by
    simp [isspace, hne]
  have hminus : d ≠ 45 := hne 45 (by decide)
  have hplus : d ≠ 43 := hne 43 (by decide)
  unfold strtol
  rw [List.dropWhile_cons_of_neg (by simp [hspace]), strtolSigned, List.head?_cons,
    if_neg (by simpa using hminus), if_neg (by simpa using hplus), takeWhile_digits h]

/-- `strtol` of a numeral. -/
theorem Numeral.strtol_eq (h : Numeral s n) : strtol s = clampLong n := by
  obtain ⟨digits, hne, hdigits, ⟨rfl, rfl⟩ | ⟨rfl, rfl⟩ | ⟨rfl, rfl⟩⟩ := h
  · exact strtol_digits hne hdigits
  · exact congrArg (fun t => clampLong (value t)) (takeWhile_digits hdigits)
  · exact congrArg (fun t => clampLong (-value t)) (takeWhile_digits hdigits)

theorem clampLong_of_le (hlo : -2 ^ 63 ≤ n) (hhi : n < 2 ^ 63) : clampLong n = n := by
  unfold clampLong
  omega

/-- No NUL is part of a numeral. -/
theorem Numeral.ne_zero (h : Numeral s n) : ∀ b ∈ s, b ≠ 0 := by
  obtain ⟨digits, -, hdigits, hs⟩ := h
  have hne : ∀ b ∈ digits, b ≠ 0 := by
    rintro b hb rfl
    exact Bool.false_ne_true (hdigits 0 hb)
  obtain ⟨rfl, -⟩ | ⟨rfl, -⟩ | ⟨rfl, -⟩ := hs
  · exact hne
  · exact List.forall_mem_cons.mpr ⟨by decide, hne⟩
  · exact List.forall_mem_cons.mpr ⟨by decide, hne⟩

end Numerals
