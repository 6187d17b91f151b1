import E2Term.Lib.Digits

/-!
# Bit strings

Numbers of a given width and strings of octets as lists of bits, the most significant bit first.
A bit string goes into octets with zeros behind its last bit.
-/

namespace Bits

open Digits

/-- The low `width` bits of a number. -/
def ofNat : (width n : Nat) → List Bool
  | 0, _ => []
  | width + 1, n => n.testBit width :: ofNat width n

/-- The number that bits spell. -/
def toNat : List Bool → Nat
  | [] => 0
  | b :: rest => b.toNat * 2 ^ rest.length + toNat rest

/-- The bits of octets. -/
def ofOctets (octets : List UInt8) : List Bool := octets.flatMap fun o => ofNat 8 o.toNat

/-- The `k` low octets of a number. -/
def octetsOfNat : (k n : Nat) → List UInt8
  | 0, _ => []
  | k + 1, n => (n / 256 ^ k).toUInt8 :: octetsOfNat k n

/-- How many bits are missing behind `n` bits to fill the last octet. -/
def padding (n : Nat) : Nat := (8 - n % 8) % 8

/-- The octets that hold bits, the last one filled up with zeros. -/
def toOctets (bits : List Bool) : List UInt8 :=
  octetsOfNat ((bits.length + 7) / 8) (toNat bits * 2 ^ padding bits.length)

/-! ## Numbers -/

section Numbers

variable {v w n : Nat}

@[simp] theorem length_ofNat (w n : Nat) : (ofNat w n).length = w := by
  induction w with
  | zero => rfl
  | succ w ih => exact congrArg (· + 1) ih

theorem ofNat_append (v w n : Nat) : ofNat (v + w) n = ofNat v (n / 2 ^ w) ++ ofNat w n := by
  induction v with
  | zero => simp [ofNat]
  | succ v ih =>
    have hbit : n.testBit (v + w) = (n / 2 ^ w).testBit v := by
      rw [← Nat.shiftRight_eq_div_pow, Nat.testBit_shiftRight, Nat.add_comm]
    rw [Nat.add_right_comm, ofNat, ofNat, ih, hbit, List.cons_append]

theorem ofNat_congr {n m : Nat} (h : n % 2 ^ w = m % 2 ^ w) : ofNat w n = ofNat w m := by
  induction w with
  | zero => rfl
  | succ w ih =>
    have hbit : n.testBit w = m.testBit w := by
      have hmod := congrArg (·.testBit w) h
      simpa [Nat.testBit_mod_two_pow] using hmod
    have hlow : n % 2 ^ w = m % 2 ^ w := by
      have hdvd : 2 ^ w ∣ 2 ^ (w + 1) := Nat.pow_dvd_pow 2 (Nat.le_succ w)
      rw [← Nat.mod_mod_of_dvd n hdvd, h, Nat.mod_mod_of_dvd m hdvd]
    rw [ofNat, ofNat, hbit, ih hlow]

theorem ofNat_mod (w n : Nat) : ofNat w (n % 2 ^ w) = ofNat w n := ofNat_congr (Nat.mod_mod _ _)

/-- A number below `2 ^ w` behind another one. -/
theorem ofNat_mul_add {b : Nat} (hb : b < 2 ^ w) (a : Nat) :
    ofNat (v + w) (a * 2 ^ w + b) = ofNat v a ++ ofNat w b := by
  have hdiv : (a * 2 ^ w + b) / 2 ^ w = a := by
    rw [Nat.add_comm, Nat.add_mul_div_right _ _ (Nat.two_pow_pos w), Nat.div_eq_of_lt hb,
      Nat.zero_add]
  have hmod : (a * 2 ^ w + b) % 2 ^ w = b % 2 ^ w := by
    rw [Nat.add_comm, Nat.add_mul_mod_self_right]
  rw [ofNat_append, hdiv, ofNat_congr hmod]

theorem take_ofNat (h : v ≤ w) (n : Nat) : (ofNat w n).take v = ofNat v (n / 2 ^ (w - v)) := by
  have hsplit := ofNat_append v (w - v) n
  rw [Nat.add_sub_cancel' h] at hsplit
  rw [hsplit, List.take_left' (length_ofNat _ _)]

theorem ofNat_zero (w : Nat) : ofNat w 0 = List.replicate w false := by
  induction w with
  | zero => rfl
  | succ w ih => rw [ofNat, ih, Nat.zero_testBit, List.replicate_succ]

theorem toNat_append (s t : List Bool) : toNat (s ++ t) = toNat s * 2 ^ t.length + toNat t := by
  induction s with
  | nil => simp [toNat]
  | cons b s ih =>
    rw [List.cons_append, toNat, toNat, ih, List.length_append, Nat.pow_add]
    ring

theorem toNat_lt (s : List Bool) : toNat s < 2 ^ s.length := by
  induction s with
  | nil => exact Nat.one_pos
  | cons b s ih =>
    have hb : b.toNat * 2 ^ s.length ≤ 2 ^ s.length := by
      simpa using Nat.mul_le_mul_right (2 ^ s.length) b.toNat_le
    rw [toNat, List.length_cons, Nat.pow_succ]
    omega

theorem toNat_append_div (s t : List Bool) : toNat (s ++ t) / 2 ^ t.length = toNat s := by
  rw [toNat_append, Nat.add_comm, Nat.add_mul_div_right _ _ (Nat.two_pow_pos _),
    Nat.div_eq_of_lt (toNat_lt t), Nat.zero_add]

theorem toNat_append_mod (s t : List Bool) : toNat (s ++ t) % 2 ^ t.length = toNat t := by
  rw [toNat_append, Nat.add_comm, Nat.add_mul_mod_self_right, Nat.mod_eq_of_lt (toNat_lt t)]

theorem ofNat_toNat (s : List Bool) : ofNat s.length (toNat s) = s := by
  induction s with
  | nil => rfl
  | cons b s ih =>
    have hb : ofNat 1 b.toNat = [b] := by cases b <;> rfl
    rw [toNat, List.length_cons, Nat.add_comm, ofNat_mul_add (toNat_lt s), ih, hb]
    rfl

theorem toNat_ofNat (w n : Nat) : toNat (ofNat w n) = n % 2 ^ w := by
  induction w with
  | zero => simp [ofNat, toNat, Nat.mod_one]
  | succ w ih =>
    rw [ofNat, toNat, ih, length_ofNat, Nat.mod_pow_succ, Nat.toNat_testBit, Nat.add_comm,
      Nat.mul_comm]

theorem toNat_ofNat_of_lt (h : n < 2 ^ w) : toNat (ofNat w n) = n := by
  rw [toNat_ofNat, Nat.mod_eq_of_lt h]

theorem toNat_replicate_false (k : Nat) : toNat (List.replicate k false) = 0 := by
  rw [← ofNat_zero, toNat_ofNat, Nat.zero_mod]

theorem toNat_inj {s t : List Bool} (hlen : s.length = t.length) :
    toNat s = toNat t ↔ s = t := by
  refine ⟨fun h => ?_, congrArg toNat⟩
  rw [← ofNat_toNat s, h, hlen, ofNat_toNat]

end Numbers

/-- The bits under a mask of `w` ones above `v` zeros. -/
theorem and_mask_shiftLeft {v w n : Nat} (hn : n < 2 ^ (v + w)) :
    n &&& ((2 ^ w - 1) <<< v) = n / 2 ^ v * 2 ^ v := by
  rw [← Nat.shiftRight_eq_div_pow, ← Nat.shiftLeft_eq]
  refine Nat.eq_of_testBit_eq fun i => ?_
  rw [Nat.testBit_and, Nat.testBit_shiftLeft, Nat.testBit_shiftLeft, Nat.testBit_two_pow_sub_one,
    Nat.testBit_shiftRight]
  by_cases hvi : v ≤ i
  · have hi : v + (i - v) = i := by omega
    rw [hi]
    by_cases hiw : i - v < w
    · simp [hvi, hiw]
    · have hbit : n.testBit i = false := Nat.testBit_lt_two_pow
        (hn.trans_le (Nat.pow_le_pow_right Nat.two_pos (by omega : v + w ≤ i)))
      rw [hbit, Bool.false_and, Bool.and_false]
  · simp [hvi]

/-! ## Octets -/

@[simp] theorem ofOctets_nil : ofOctets [] = [] := rfl

theorem ofOctets_cons (o : UInt8) (rest : List UInt8) :
    ofOctets (o :: rest) = ofNat 8 o.toNat ++ ofOctets rest := rfl

theorem ofOctets_append (s t : List UInt8) : ofOctets (s ++ t) = ofOctets s ++ ofOctets t :=
  List.flatMap_append

@[simp] theorem length_ofOctets (s : List UInt8) : (ofOctets s).length = 8 * s.length := by
  induction s with
  | nil => rfl
  | cons o rest ih =>
    rw [ofOctets_cons, List.length_append, length_ofNat, ih, List.length_cons]
    omega

theorem ofOctets_injective : Function.Injective ofOctets := by
  intro s
  induction s with
  | nil =>
    intro t h
    have hlen := congrArg List.length h
    rw [length_ofOctets, length_ofOctets, List.length_nil] at hlen
    exact (List.length_eq_zero_iff.mp (by omega)).symm
  | cons o rest ih =>
    intro t h
    cases t with
    | nil => exact absurd (congrArg List.length h) (by simp)
    | cons o' rest' =>
      rw [ofOctets_cons, ofOctets_cons] at h
      obtain ⟨hhead, htail⟩ := List.append_inj h (by simp)
      have hnat := congrArg toNat hhead
      rw [toNat_ofNat_of_lt o.toNat_lt, toNat_ofNat_of_lt o'.toNat_lt] at hnat
      rw [UInt8.toNat_inj.mp hnat, ih htail]

theorem drop_ofOctets (s : List UInt8) (k : Nat) :
    (ofOctets s).drop (8 * k) = ofOctets (s.drop k) := by
  induction k generalizing s with
  | zero => rfl
  | succ k ih =>
    cases s with
    | nil => simp
    | cons o rest =>
      have hcut : ((ofNat 8 o.toNat) ++ ofOctets rest).drop (8 * k + 8) =
          (ofOctets rest).drop (8 * k) := by
        rw [Nat.add_comm, ← List.drop_drop, List.drop_left' (length_ofNat 8 o.toNat)]
      rw [Nat.mul_succ, ofOctets_cons, hcut, ih, List.drop_succ_cons]

theorem take_ofOctets (s : List UInt8) (k : Nat) :
    (ofOctets s).take (8 * k) = ofOctets (s.take k) := by
  have hsplit : ofOctets s = ofOctets (s.take k) ++ ofOctets (s.drop k) := by
    rw [← ofOctets_append, List.take_append_drop]
  rcases Nat.le_total k s.length with hk | hk
  · have hlen : (ofOctets (s.take k)).length = 8 * k := by
      rw [length_ofOctets, List.length_take, Nat.min_eq_left hk]
    rw [hsplit, List.take_left' hlen]
  · rw [List.take_of_length_le (by rw [length_ofOctets]; omega), List.take_of_length_le hk]

theorem octetsValue_cons (o : UInt8) (rest : List UInt8) :
    octetsValue (o :: rest) = o.toNat * 256 ^ rest.length + octetsValue rest := by
  unfold octetsValue
  rw [List.map_cons, Nat.ofDigits_reverse_cons, List.length_map, Nat.add_comm, Nat.mul_comm]

/-- The octets spell in bits what they spell in octets. -/
theorem toNat_ofOctets (s : List UInt8) : toNat (ofOctets s) = octetsValue s := by
  induction s with
  | nil => rfl
  | cons o rest ih =>
    have hpow : 2 ^ (8 * rest.length) = 256 ^ rest.length := Nat.pow_mul 2 8 rest.length
    rw [ofOctets_cons, toNat_append, toNat_ofNat_of_lt o.toNat_lt, ih, length_ofOctets, hpow,
      octetsValue_cons]

@[simp] theorem length_octetsOfNat (k n : Nat) : (octetsOfNat k n).length = k := by
  induction k with
  | zero => rfl
  | succ k ih => exact congrArg (· + 1) ih

theorem ofOctets_octetsOfNat (k n : Nat) : ofOctets (octetsOfNat k n) = ofNat (8 * k) n := by
  induction k with
  | zero => rfl
  | succ k ih =>
    have hpow : 256 ^ k = 2 ^ (8 * k) := (Nat.pow_mul 2 8 k).symm
    have hhead : ofNat 8 ((n / 256 ^ k).toUInt8).toNat = ofNat 8 (n / 256 ^ k) :=
      ofNat_congr (Nat.mod_mod _ _)
    rw [octetsOfNat, ofOctets_cons, ih, hhead, hpow, Nat.mul_succ, Nat.add_comm, ofNat_append]

theorem octetsValue_octetsOfNat {k n : Nat} (h : n < 256 ^ k) :
    octetsValue (octetsOfNat k n) = n := by
  rw [← toNat_ofOctets, ofOctets_octetsOfNat, toNat_ofNat_of_lt (by rwa [Nat.pow_mul])]

theorem padding_lt (n : Nat) : padding n < 8 := Nat.mod_lt _ (by decide)

theorem add_padding (n : Nat) : n + padding n = 8 * ((n + 7) / 8) := by
  unfold padding
  omega

@[simp] theorem length_toOctets (bits : List Bool) :
    (toOctets bits).length = (bits.length + 7) / 8 := length_octetsOfNat _ _

theorem ofOctets_toOctets (bits : List Bool) :
    ofOctets (toOctets bits) = bits ++ List.replicate (padding bits.length) false := by
  unfold toOctets
  rw [ofOctets_octetsOfNat, ← add_padding, ← Nat.add_zero (toNat bits * _),
    ofNat_mul_add (Nat.two_pow_pos _), ofNat_toNat, ofNat_zero]

theorem toOctets_ofOctets (s : List UInt8) : toOctets (ofOctets s) = s := by
  refine ofOctets_injective ?_
  have hpad : padding (ofOctets s).length = 0 := by
    rw [length_ofOctets]
    unfold padding
    omega
  rw [ofOctets_toOctets, hpad, List.replicate_zero, List.append_nil]

theorem toOctets_append {s : List Bool} (hs : s.length % 8 = 0) (t : List Bool) :
    toOctets (s ++ t) = toOctets s ++ toOctets t := by
  have hpad : padding (s ++ t).length = padding t.length := by
    rw [List.length_append]
    unfold padding
    omega
  have hnone : padding s.length = 0 := by
    unfold padding
    omega
  refine ofOctets_injective ?_
  rw [ofOctets_append, ofOctets_toOctets, ofOctets_toOctets, ofOctets_toOctets, hpad, hnone,
    List.replicate_zero, List.append_nil, List.append_assoc]

theorem octetsOfNat_toNat (s : List UInt8) : octetsOfNat s.length (toNat (ofOctets s)) = s := by
  refine ofOctets_injective ?_
  rw [ofOctets_octetsOfNat, ← length_ofOctets, ofNat_toNat]

theorem take_ofOctets_toOctets (bits : List Bool) :
    (ofOctets (toOctets bits)).take bits.length = bits := by
  rw [ofOctets_toOctets, List.take_left' rfl]

end Bits
