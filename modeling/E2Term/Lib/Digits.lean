import Mathlib.Data.Nat.Digits.Defs
import Mathlib.Tactic.Common
import Mathlib.Tactic.Ring

/-!
# Printed digits

Numbers in a base up to 16 as the characters `printf` prints for them, and strings of octets as
big-endian numbers. A bit string that ends inside its last octet is printed octet by octet, each
with the bits that the one before it had left over; `alignOctets` is the list of the octets that
come out, and its value is the value of the bits.
-/

namespace Digits

/-- A test of all characters of a text goes through the text, not through all characters. -/
instance (priority := 2000) decidableForallMem (p : UInt8 → Prop) [DecidablePred p]
    (s : List UInt8) : Decidable (∀ x ∈ s, p x) := List.decidableBAll p s

/-- The character of a digit. -/
def digitByte (d : Nat) : UInt8 := d.digitChar.toNat.toUInt8

/-- The digits of a number, the most significant first. -/
def digitBytes (b n : Nat) : List UInt8 := (Nat.toDigits b n).map fun c => c.toNat.toUInt8

theorem digitByte_inj {d e : Nat} (hd : d < 16) (he : e < 16) :
    digitByte d = digitByte e ↔ d = e := by
  have key : ∀ d < 16, ∀ e < 16, digitByte d = digitByte e → d = e := by decide
  exact ⟨key d hd e he, congrArg digitByte⟩

/-- A digit is neither NUL nor the underscore. -/
theorem digitByte_ne {d : Nat} (hd : d < 16) : digitByte d ≠ 0 ∧ digitByte d ≠ 95 := by
  have key : ∀ d < 16, digitByte d ≠ 0 ∧ digitByte d ≠ 95 := by decide
  exact key d hd

section Base

variable {b n : Nat}

theorem digitBytes_of_lt (h : n < b) : digitBytes b n = [digitByte n] := by
  unfold digitBytes
  rw [Nat.toDigits_of_lt_base h]
  rfl

theorem digitBytes_of_le (hb : 1 < b) (h : b ≤ n) :
    digitBytes b n = digitBytes b (n / b) ++ [digitByte (n % b)] := by
  unfold digitBytes
  rw [Nat.toDigits_of_base_le hb h, List.map_append]
  rfl

theorem digitBytes_ne_nil : digitBytes b n ≠ [] := by
  simp [digitBytes]

theorem mem_digitBytes (hb : 1 < b) {x : UInt8} (hx : x ∈ digitBytes b n) :
    ∃ d < b, x = digitByte d := by
  induction n using Nat.strongRecOn with
  | ind n ih =>
    rcases Nat.lt_or_ge n b with hn | hn
    · rw [digitBytes_of_lt hn, List.mem_singleton] at hx
      exact ⟨n, hn, hx⟩
    · rw [digitBytes_of_le hb hn, List.mem_append, List.mem_singleton] at hx
      rcases hx with hx | rfl
      · exact ih (n / b) (Nat.div_lt_self (by omega) hb) hx
      · exact ⟨n % b, Nat.mod_lt _ (by omega), rfl⟩

theorem length_digitBytes_le (hb : 1 < b) {k : Nat} (hk : 0 < k) (h : n < b ^ k) :
    (digitBytes b n).length ≤ k := by
  unfold digitBytes
  rw [List.length_map]
  exact (Nat.length_toDigits_le_iff hb hk).mpr h

/-- Two numbers are printed alike only when they are the same. -/
theorem digitBytes_injective (hb : 1 < b) (hb' : b ≤ 16) : Function.Injective (digitBytes b) := by
  intro n
  induction n using Nat.strongRecOn with
  | ind n ih =>
    intro m h
    have hmod : ∀ k, k % b < 16 := fun k => (Nat.mod_lt k (by omega)).trans_le hb'
    rcases Nat.lt_or_ge n b with hn | hn
    · rcases Nat.lt_or_ge m b with hm | hm
      · rw [digitBytes_of_lt hn, digitBytes_of_lt hm, List.singleton_inj] at h
        exact (digitByte_inj (by omega) (by omega)).mp h
      · rw [digitBytes_of_lt hn, digitBytes_of_le hb hm] at h
        exact absurd (List.append_eq_singleton_iff.mp h.symm) (by simp [digitBytes_ne_nil])
    · rcases Nat.lt_or_ge m b with hm | hm
      · rw [digitBytes_of_le hb hn, digitBytes_of_lt hm] at h
        exact absurd (List.append_eq_singleton_iff.mp h) (by simp [digitBytes_ne_nil])
      · rw [digitBytes_of_le hb hn, digitBytes_of_le hb hm] at h
        obtain ⟨hdiv, hlast⟩ := List.append_inj' h rfl
        have hq : n / b = m / b := ih (n / b) (Nat.div_lt_self (by omega) hb) hdiv
        have hr : n % b = m % b :=
          (digitByte_inj (hmod n) (hmod m)).mp (List.singleton_inj.mp hlast)
        calc n = b * (n / b) + n % b := (Nat.div_add_mod n b).symm
          _ = b * (m / b) + m % b := by rw [hq, hr]
          _ = m := Nat.div_add_mod m b

end Base

/-! ## Octets -/

/-- The number that octets spell, the most significant first. -/
def octetsValue (octets : List UInt8) : Nat := Nat.ofDigits 256 (octets.map UInt8.toNat).reverse

/-- Each octet with its `unused` last bits left to the next one; `before` is the octet before
them. -/
def alignOctets (unused before : Nat) : List UInt8 → List Nat
  | [] => []
  | octet :: rest =>
    (before % 2 ^ unused * 2 ^ (8 - unused) + octet.toNat / 2 ^ unused) ::
      alignOctets unused octet.toNat rest

@[simp] theorem length_alignOctets (octets : List UInt8) :
    ∀ unused before : Nat, (alignOctets unused before octets).length = octets.length := by
  induction octets with
  | nil => exact fun _ _ => rfl
  | cons octet rest ih => exact fun unused _ => congrArg (· + 1) (ih unused octet.toNat)

theorem two_pow_unused {unused : Nat} (hu : unused ≤ 8) : 2 ^ unused * 2 ^ (8 - unused) = 256 := by
  rw [← Nat.pow_add, Nat.add_sub_cancel' hu]

theorem alignOctets_lt {unused : Nat} (hu : unused ≤ 8) (octets : List UInt8) :
    ∀ {before s : Nat}, s ∈ alignOctets unused before octets → s < 256 := by
  induction octets with
  | nil => exact fun hs => absurd hs List.not_mem_nil
  | cons octet rest ih =>
    intro before s hs
    rcases List.mem_cons.mp hs with rfl | hs
    · have hhigh : before % 2 ^ unused < 2 ^ unused := Nat.mod_lt _ (Nat.two_pow_pos unused)
      have hlow : octet.toNat / 2 ^ unused < 2 ^ (8 - unused) := by
        rw [Nat.div_lt_iff_lt_mul (Nat.two_pow_pos unused), Nat.mul_comm, two_pow_unused hu]
        exact octet.toNat_lt
      calc before % 2 ^ unused * 2 ^ (8 - unused) + octet.toNat / 2 ^ unused
          < before % 2 ^ unused * 2 ^ (8 - unused) + 2 ^ (8 - unused) := by omega
        _ = (before % 2 ^ unused + 1) * 2 ^ (8 - unused) := by ring
        _ ≤ 2 ^ unused * 2 ^ (8 - unused) := Nat.mul_le_mul_right _ hhigh
        _ = 256 := two_pow_unused hu
    · exact ih hs

/-- The aligned octets spell the bits: what the octets spell, without the last `unused` bits and
with those of the octet before them in front. -/
theorem ofDigits_alignOctets {unused : Nat} (hu : unused ≤ 8) (octets : List UInt8) :
    ∀ before : Nat, Nat.ofDigits 256 (alignOctets unused before octets).reverse =
      (octetsValue octets + 256 ^ octets.length * (before % 2 ^ unused)) / 2 ^ unused := by
  have hpos : 0 < 2 ^ unused := Nat.two_pow_pos unused
  induction octets with
  | nil =>
    intro before
    have hlt : before % 2 ^ unused / 2 ^ unused = 0 := Nat.div_eq_of_lt (Nat.mod_lt _ hpos)
    simp [alignOctets, octetsValue, hlt]
  | cons octet rest ih =>
    intro before
    have hvalue : octetsValue (octet :: rest) =
        octetsValue rest + 256 ^ rest.length * octet.toNat := by
      unfold octetsValue
      rw [List.map_cons, Nat.ofDigits_reverse_cons, List.length_map]
    -- the bits that the octet keeps for the next one come back there
    have hsplit : 2 ^ unused * (octet.toNat / 2 ^ unused) + octet.toNat % 2 ^ unused =
        octet.toNat := Nat.div_add_mod _ _
    unfold alignOctets
    rw [Nat.ofDigits_reverse_cons, ih, length_alignOctets, hvalue, List.length_cons,
      ← Nat.add_mul_div_left _ _ hpos]
    congr 1
    calc octetsValue rest + 256 ^ rest.length * (octet.toNat % 2 ^ unused) +
          2 ^ unused * (256 ^ rest.length *
            (before % 2 ^ unused * 2 ^ (8 - unused) + octet.toNat / 2 ^ unused))
        = octetsValue rest + 256 ^ rest.length *
            (2 ^ unused * (octet.toNat / 2 ^ unused) + octet.toNat % 2 ^ unused) +
          256 ^ rest.length * (2 ^ unused * 2 ^ (8 - unused)) * (before % 2 ^ unused) := by ring
      _ = octetsValue rest + 256 ^ rest.length * octet.toNat +
          256 ^ (rest.length + 1) * (before % 2 ^ unused) := by
        rw [hsplit, two_pow_unused hu, ← Nat.pow_succ]

/-- Octet strings of one length are aligned alike exactly when their bits spell one number. -/
theorem alignOctets_eq_iff {unused unused' : Nat} (hu : unused ≤ 8) (hu' : unused' ≤ 8)
    {octets octets' : List UInt8} (hlen : octets.length = octets'.length) :
    alignOctets unused 0 octets = alignOctets unused' 0 octets' ↔
      octetsValue octets / 2 ^ unused = octetsValue octets' / 2 ^ unused' := by
  have hval := ofDigits_alignOctets hu octets 0
  have hval' := ofDigits_alignOctets hu' octets' 0
  rw [Nat.zero_mod, Nat.mul_zero, Nat.add_zero] at hval hval'
  rw [← hval, ← hval']
  refine ⟨fun h => by rw [h], fun h => ?_⟩
  refine List.reverse_inj.mp (Nat.ofDigits_inj_of_len_eq (by decide : 1 < 256) ?_ ?_ ?_ h)
  · simpa using hlen
  · exact fun s hs => alignOctets_lt hu octets (List.mem_reverse.mp hs)
  · exact fun s hs => alignOctets_lt hu' octets' (List.mem_reverse.mp hs)

/-! ## Octets in hexadecimal -/

/-- Two hexadecimal digits an octet. -/
def hexOctets (octets : List Nat) : List UInt8 :=
  octets.flatMap fun s => [digitByte (s / 16), digitByte (s % 16)]

theorem length_hexOctets (octets : List Nat) : (hexOctets octets).length = 2 * octets.length := by
  induction octets with
  | nil => rfl
  | cons s rest ih =>
    show (hexOctets rest).length + 1 + 1 = 2 * (rest.length + 1)
    omega

theorem ne_of_mem_hexOctets {octets : List Nat} (ho : ∀ s ∈ octets, s < 256) {x : UInt8}
    (hx : x ∈ hexOctets octets) : x ≠ 0 ∧ x ≠ 95 := by
  obtain ⟨s, hs, hx⟩ := List.mem_flatMap.mp hx
  have hlt := ho s hs
  rw [List.mem_cons, List.mem_singleton] at hx
  rcases hx with rfl | rfl
  · exact digitByte_ne (by omega)
  · exact digitByte_ne (by omega)

theorem hexOctets_inj {octets octets' : List Nat} (ho : ∀ s ∈ octets, s < 256)
    (ho' : ∀ s ∈ octets', s < 256) : hexOctets octets = hexOctets octets' ↔ octets = octets' := by
  refine ⟨fun h => ?_, congrArg hexOctets⟩
  induction octets generalizing octets' with
  | nil =>
    have hlen := congrArg List.length h
    rw [length_hexOctets, length_hexOctets] at hlen
    exact (List.length_eq_zero_iff.mp (by simpa using hlen.symm)).symm
  | cons s rest ih =>
    cases octets' with
    | nil => cases h
    | cons s' rest' =>
      rw [List.forall_mem_cons] at ho ho'
      obtain ⟨hhigh, h⟩ := List.cons_eq_cons.mp (show _ :: _ = _ :: _ from h)
      obtain ⟨hlow, hrest⟩ := List.cons_eq_cons.mp (show _ :: _ = _ :: _ from h)
      have hdiv : s / 16 = s' / 16 := (digitByte_inj (by omega) (by omega)).mp hhigh
      have hmod : s % 16 = s' % 16 := (digitByte_inj (by omega) (by omega)).mp hlow
      rw [ih ho.2 ho'.2 hrest, show s = s' by omega]

/-- The hexadecimal digits of octets. -/
def nibbles (octets : List Nat) : List Nat := octets.flatMap fun s => [s / 16, s % 16]

theorem hexOctets_eq_map (octets : List Nat) :
    hexOctets octets = (nibbles octets).map digitByte := by
  unfold hexOctets nibbles
  rw [List.map_flatMap]
  rfl

theorem length_nibbles (octets : List Nat) : (nibbles octets).length = 2 * octets.length := by
  rw [← length_hexOctets, hexOctets_eq_map, List.length_map]

theorem nibbles_lt {octets : List Nat} (ho : ∀ s ∈ octets, s < 256) {d : Nat}
    (hd : d ∈ nibbles octets) : d < 16 := by
  obtain ⟨s, hs, hd⟩ := List.mem_flatMap.mp hd
  have hlt := ho s hs
  rw [List.mem_cons, List.mem_singleton] at hd
  rcases hd with rfl | rfl
  · omega
  · omega

/-- The digits spell what the octets spell. -/
theorem ofDigits_nibbles (octets : List Nat) :
    Nat.ofDigits 16 (nibbles octets).reverse = Nat.ofDigits 256 octets.reverse := by
  induction octets with
  | nil => rfl
  | cons s rest ih =>
    have hpow : 16 ^ (2 * rest.length) = 256 ^ rest.length := Nat.pow_mul 16 2 rest.length
    have hdigits : nibbles (s :: rest) = s / 16 :: s % 16 :: nibbles rest := rfl
    have hs : 16 * (s / 16) + s % 16 = s := Nat.div_add_mod s 16
    rw [hdigits, Nat.ofDigits_reverse_cons, Nat.ofDigits_reverse_cons, Nat.ofDigits_reverse_cons,
      ih, List.length_cons, length_nibbles, Nat.pow_succ, hpow, Nat.add_assoc]
    congr 1
    calc 256 ^ rest.length * (s % 16) + 256 ^ rest.length * 16 * (s / 16)
        = 256 ^ rest.length * (16 * (s / 16) + s % 16) := by ring
      _ = 256 ^ rest.length * s := by rw [hs]

/-! ## Octets as code shifts and masks them -/

theorem and_low (n : Nat) : n &&& 0x0F = n % 16 := Nat.and_two_pow_sub_one_eq_mod n 4

theorem and_high (n : Nat) : (n &&& 0xF0) >>> 4 = n / 16 % 16 := by
  rw [Nat.shiftRight_and_distrib, Nat.shiftRight_eq_div_pow]
  exact Nat.and_two_pow_sub_one_eq_mod _ 4

theorem shiftLeft_or (n : Nat) {m k : Nat} (hm : m < 2 ^ k) : n <<< k ||| m = n * 2 ^ k + m := by
  rw [← Nat.shiftLeft_add_eq_or_of_lt hm, Nat.shiftLeft_eq]

/-- The low octet of the bits that one octet leaves and those of the next. -/
theorem shift_or_mod {unused before octet : Nat} (hu : unused ≤ 8) (ho : octet < 256) :
    (before <<< (8 - unused) ||| octet >>> unused) % 256 =
      before % 2 ^ unused * 2 ^ (8 - unused) + octet / 2 ^ unused := by
  have hlow : octet / 2 ^ unused < 2 ^ (8 - unused) := by
    rw [Nat.div_lt_iff_lt_mul (Nat.two_pow_pos unused), Nat.mul_comm, two_pow_unused hu]
    exact ho
  rw [Nat.shiftRight_eq_div_pow, ← Nat.shiftLeft_add_eq_or_of_lt hlow, Nat.shiftLeft_eq,
    ← two_pow_unused hu, Nat.mul_comm (2 ^ unused) (2 ^ (8 - unused)), Nat.mod_mul]
  have hdiv : (before * 2 ^ (8 - unused) + octet / 2 ^ unused) / 2 ^ (8 - unused) = before := by
    rw [Nat.add_comm, Nat.add_mul_div_right _ _ (Nat.two_pow_pos _), Nat.div_eq_of_lt hlow,
      Nat.zero_add]
  have hmod : (before * 2 ^ (8 - unused) + octet / 2 ^ unused) % 2 ^ (8 - unused) =
      octet / 2 ^ unused := by
    rw [Nat.add_comm, Nat.add_mul_mod_self_right, Nat.mod_eq_of_lt hlow]
  rw [hdiv, hmod, Nat.add_comm, Nat.mul_comm]

end Digits
