import E2Term.BitData

/-!
# Lengths and small numbers

The aligned functions of `per_support.c`, and the loops over the fragments of what has no upper
bound. A number without sign is taken to be one, `none` is `-1`. A length that is a fragment makes
the readers ask for another one, while the writers put no more once everything is out.
-/

namespace E2Term

open Bits Digits BitCodec

/-! ## Alignment -/

/-- `aper_get_align`. -/
def aperGetAlign : StateT AsnBitData Option Nat := fun pd =>
  if pd.nboff % 8 ≠ 0 then perGetFewBits (8 - pd.nboff % 8) pd else some (0, pd)

/-- `aper_put_align`. -/
def aperPutAlign (po : AsnBitOutp) : Option AsnBitOutp :=
  if po.nboff % 8 ≠ 0 then perPutFewBits 0 (8 - po.nboff % 8) po else some po

theorem puts_aperPutAlign :
    Puts aperPutAlign fun off => List.replicate (padding off) false := by
  intro po
  have hlen := po.length_bits
  by_cases h0 : po.nboff % 8 = 0
  · refine ⟨po, if_neg (by omega), ?_⟩
    have hpad : padding (BitSink.bits po).length = 0 := by
      unfold padding
      omega
    beta_reduce
    rw [hpad, List.replicate_zero, List.append_nil]
  · obtain ⟨po', hpo', hbits⟩ := puts_perPutFewBits 0 (by omega : 8 - po.nboff % 8 ≤ 31) po
    refine ⟨po', (if_pos (by omega)).trans hpo', ?_⟩
    have hpad : padding (BitSink.bits po).length = 8 - po.nboff % 8 := by
      unfold padding
      omega
    beta_reduce at hbits ⊢
    rw [hbits, hpad, ofNat_zero]

theorem puts_aligned (bits : Nat) {obits : Nat} (h : obits ≤ 31) :
    Puts (fun po => aperPutAlign po >>= perPutFewBits bits obits)
      fun off => List.replicate (padding off) false ++ ofNat obits bits :=
  puts_aperPutAlign.bind (puts_perPutFewBits bits h)

/-- The bits up to the next octet are skipped, whatever they are. -/
theorem gets_aperGetAlign {off : Nat} {bs : List Bool} (h : bs.length = padding off) :
    Gets aperGetAlign off bs (toNat bs) := by
  intro pd behind rest hpd
  have hoff : pd.nboff % 8 = off % 8 := by
    rw [← hpd.off_eq]
    exact pd.moved_mod.symm
  unfold padding at h
  by_cases h0 : pd.nboff % 8 = 0
  · have hnil : bs = [] := List.length_eq_zero_iff.mp (by omega)
    subst hnil
    exact ⟨pd, if_neg (by omega), hpd⟩
  · have hlen : 8 - pd.nboff % 8 = bs.length := by omega
    obtain ⟨pd', hpd', hat⟩ := gets_perGetFewBits (by omega : bs.length ≤ 31) off pd
      behind rest hpd
    exact ⟨pd', (if_pos h0).trans (by rw [hlen]; exact hpd'), hat⟩

theorem gets_zeros (off : Nat) :
    Gets aperGetAlign off (List.replicate (padding off) false) 0 := by
  have hget := gets_aperGetAlign
    (List.length_replicate .. : (List.replicate (padding off) false).length = padding off)
  rwa [toNat_replicate_false] at hget

theorem gets_aligned {bits obits : Nat} (h : obits ≤ 31) (hlt : bits < 2 ^ obits) (off : Nat) :
    Gets (do let _ ← aperGetAlign; perGetFewBits obits) off
      (List.replicate (padding off) false ++ ofNat obits bits) bits :=
  (gets_zeros off).bind (k := fun _ => perGetFewBits obits) (gets_number h hlt _)

theorem roundTrips_few {bits obits : Nat} (h : obits ≤ 31) (hlt : bits < 2 ^ obits) :
    RoundTrips (perPutFewBits bits obits) (perGetFewBits obits) bits :=
  ⟨_, puts_perPutFewBits bits h, gets_number h hlt⟩

theorem roundTrips_aligned {bits obits : Nat} (h : obits ≤ 31) (hlt : bits < 2 ^ obits) :
    RoundTrips (fun po => aperPutAlign po >>= perPutFewBits bits obits)
      (do let _ ← aperGetAlign; perGetFewBits obits) bits :=
  ⟨_, puts_aligned bits h, gets_aligned h hlt⟩

/-! ## Small numbers -/

/-- The least `i` in `1..8` with `range <= 1 << i`. -/
def smallBits (range : Int) : Nat :=
  ((List.range' 1 8).find? fun i => range ≤ 2 ^ i).getD 9

/-- `aper_get_nsnnwn`. -/
def aperGetNsnnwn (range : Int) : StateT AsnBitData Option Nat :=
  if range ≤ 255 then
    if range < 0 then failure else perGetFewBits (smallBits range)
  else if range = 256 then do
    let _ ← aperGetAlign
    perGetFewBits 8
  else if range ≤ 65536 then do
    let _ ← aperGetAlign
    perGetFewBits 16
  else failure

/-- `aper_put_nsnnwn`. -/
def aperPutNsnnwn (range : Int) (number : Nat) (po : AsnBitOutp) : Option AsnBitOutp :=
  if range ≤ 255 then perPutFewBits number (smallBits range) po
  else if range = 256 then aperPutAlign po >>= perPutFewBits number 8
  else if range ≤ 65536 then aperPutAlign po >>= perPutFewBits number 16
  else if range ≤ 2 ^ 24 then aperPutAlign po >>= perPutFewBits number 24
  else none

/-- `uper_get_nsnnwn`. -/
def uperGetNsnnwn : StateT AsnBitData Option Nat := do
  let value ← perGetFewBits 7
  if value &&& 64 ≠ 0 then
    let low ← perGetFewBits 2
    let value := (value &&& 63) <<< 2 ||| low
    if value &&& 128 ≠ 0 then failure
    else if value = 0 then return 0
    else if value ≥ 3 then failure
    else perGetFewBits (8 * value)
  else return value

/-- `uper_put_nsnnwn`. -/
def uperPutNsnnwn (n : Nat) (po : AsnBitOutp) : Option AsnBitOutp :=
  if n ≤ 63 then perPutFewBits n 7 po
  else if n < 256 then perPutFewBits 1 8 po >>= perPutFewBits n 8
  else if n < 65536 then perPutFewBits 2 8 po >>= perPutFewBits n 16
  else if n < 256 * 65536 then perPutFewBits 3 8 po >>= perPutFewBits n 24
  else none

theorem smallBits_spec {range : Int} (h : range ≤ 255) :
    smallBits range ≤ 8 ∧ range ≤ 2 ^ smallBits range := by
  have hsome : ((List.range' 1 8).find? fun i => range ≤ 2 ^ i).isSome := by
    rw [List.find?_isSome]
    exact ⟨8, by decide, by simp only [decide_eq_true_eq]; omega⟩
  obtain ⟨i, hi⟩ := Option.isSome_iff_exists.mp hsome
  have hmem := List.mem_of_find?_eq_some hi
  have hle := List.find?_some hi
  rw [List.mem_range'_1] at hmem
  unfold smallBits
  rw [hi, Option.getD_some]
  exact ⟨by omega, of_decide_eq_true hle⟩

/-- Up to 255, the bits of a range have room for numbers of their own. -/
theorem roundTrips_nsnnwn_small {range : Int} {number : Nat} (hpos : 0 ≤ range)
    (hrange : range ≤ 255) (h : number < 2 ^ smallBits range) :
    RoundTrips (aperPutNsnnwn range number) (aperGetNsnnwn range) number := by
  obtain ⟨hbits, -⟩ := smallBits_spec hrange
  unfold aperPutNsnnwn aperGetNsnnwn
  simp only [if_pos hrange, if_neg (by omega : ¬ range < 0)]
  exact roundTrips_few (by omega) h

/-- A number below the range is read back. -/
theorem roundTrips_nsnnwn {range : Int} {number : Nat} (hrange : range ≤ 65536)
    (h : (number : Int) < range) :
    RoundTrips (aperPutNsnnwn range number) (aperGetNsnnwn range) number := by
  by_cases h255 : range ≤ 255
  · refine roundTrips_nsnnwn_small (by omega) h255 ?_
    have := h.trans_le (smallBits_spec h255).2
    exact_mod_cast this
  unfold aperPutNsnnwn aperGetNsnnwn
  by_cases h256 : range = 256
  · simp only [if_neg h255, if_pos h256]
    exact roundTrips_aligned (by decide) (by omega)
  · simp only [if_neg h255, if_neg h256, if_pos hrange]
    exact roundTrips_aligned (by decide) (by omega)

/-- A range from 256 on is put in whole octets, so that there is nothing to align behind it. -/
theorem roundTrips_nsnnwn_octets {range : Int} {number : Nat} (hlow : 256 ≤ range)
    (hrange : range ≤ 65536) (h : (number : Int) < range) :
    RoundTrips (fun po => aperPutNsnnwn range number po >>= aperPutAlign) (aperGetNsnnwn range)
      number := by
  have hround (k : Nat) (hk : 8 * k ≤ 31) (hlt : number < 2 ^ (8 * k)) :
      RoundTrips (fun po => (aperPutAlign po >>= perPutFewBits number (8 * k)) >>= aperPutAlign)
        (do let _ ← aperGetAlign; perGetFewBits (8 * k)) number := by
    refine ⟨_, (puts_aligned number hk).bind puts_aperPutAlign, fun off => ?_⟩
    have hnone : padding (off + (List.replicate (padding off) false ++
        ofNat (8 * k) number).length) = 0 := by
      have := add_padding off
      rw [List.length_append, List.length_replicate, length_ofNat]
      unfold padding at *
      omega
    rw [hnone, List.replicate_zero, List.append_nil]
    exact gets_aligned hk hlt off
  unfold aperPutNsnnwn aperGetNsnnwn
  by_cases h256 : range = 256
  · simp only [if_neg (by omega : ¬ range ≤ 255), if_pos h256]
    exact hround 1 (by decide) (by omega)
  · simp only [if_neg (by omega : ¬ range ≤ 255), if_neg h256, if_pos hrange]
    exact hround 2 (by decide) (by omega)

/-- Only numbers up to 63 are read back: the others are put as if after a bit that says so, and the
bit is not put. -/
theorem roundTrips_uperNsnnwn {n : Nat} (h : n ≤ 63) :
    RoundTrips (uperPutNsnnwn n) uperGetNsnnwn n := by
  refine ⟨fun _ => ofNat 7 n, ?_, fun off => ?_⟩
  · intro po
    obtain ⟨po', hpo', hbits⟩ := puts_perPutFewBits n (by decide : 7 ≤ 31) po
    exact ⟨po', (if_pos h).trans hpo', hbits⟩
  · have hget := gets_number (by decide : 7 ≤ 31) (by omega : n < 2 ^ 7) off
    have hsmall : ∀ n ≤ 63, n &&& 64 = 0 := by decide
    have hread := hget.bind (k := fun value =>
      if value &&& 64 ≠ 0 then
        (do
          let low ← perGetFewBits 2
          let value := (value &&& 63) <<< 2 ||| low
          if value &&& 128 ≠ 0 then failure
          else if value = 0 then return 0
          else if value ≥ 3 then failure
          else perGetFewBits (8 * value))
      else pure value) (by
        rw [if_neg (by rw [hsmall n h]; decide)]
        exact Gets.pure n _ : Gets _ _ [] n)
    rwa [List.append_nil] at hread

/-! ## Lengths -/

/-- The rest of `aper_get_length` behind the first octet of a length without bound. -/
def lengthFrom (value : Nat) : StateT AsnBitData Option (Nat × Bool) :=
  if value &&& 128 = 0 then return (value &&& 0x7f, false)
  else if value &&& 64 = 0 then do
    let low ← perGetFewBits 8
    return ((value &&& 63) <<< 8 ||| low, false)
  else if value &&& 63 < 1 ∨ value &&& 63 > 4 then failure
  else return (16384 * (value &&& 63), true)

/-- `aper_get_length`: the length, and `repeat`. -/
def aperGetLength (range ebits : Int) : StateT AsnBitData Option (Nat × Bool) :=
  if 0 ≤ ebits ∧ range ≤ 65536 ∧ 0 ≤ range then (·, false) <$> aperGetNsnnwn range
  else do
    let _ ← aperGetAlign
    if 0 ≤ ebits then (·, false) <$> perGetFewBits ebits.toNat
    else
      let value ← perGetFewBits 8
      lengthFrom value

/-- `aper_put_length`, with what it returns. -/
def aperPutLength (range : Int) (length : Nat) (po : AsnBitOutp) : Option (AsnBitOutp × Nat) :=
  if range ≤ 65536 ∧ 0 ≤ range then (·, 0) <$> aperPutNsnnwn range length po
  else do
    let po ← aperPutAlign po
    if length ≤ 127 then (·, length) <$> perPutFewBits length 8 po
    else if length < 16384 then (·, length) <$> perPutFewBits (length ||| 0x8000) 16 po
    else
      let m := min (length >>> 14) 4
      (·, m <<< 14) <$> perPutFewBits (0xc0 ||| m) 8 po

/-- How many units go with the length that `aper_put_length` puts. -/
def maySave (length : Nat) : Nat :=
  if length < 16384 then length else (min (length >>> 14) 4) <<< 14

/-- The number that stands for the length, or for the length of its first fragment, and how many
bits it takes. -/
def lengthDeterminant (length : Nat) : Nat × Nat :=
  if length ≤ 127 then (length, 8)
  else if length < 16384 then (length ||| 0x8000, 16)
  else (0xc0 ||| min (length >>> 14) 4, 8)

/-- The bits of a length that starts at the place `off`. -/
def lengthBits (length off : Nat) : List Bool :=
  List.replicate (padding off) false ++
    ofNat (lengthDeterminant length).2 (lengthDeterminant length).1

theorem aperPutLength_eq (length : Nat) (po : AsnBitOutp) :
    aperPutLength (-1) length po = (·, maySave length) <$> (aperPutAlign po >>=
      perPutFewBits (lengthDeterminant length).1 (lengthDeterminant length).2) := by
  unfold aperPutLength maySave lengthDeterminant
  rw [if_neg (by decide)]
  cases aperPutAlign po with
  | none => rfl
  | some po =>
    by_cases h127 : length ≤ 127
    · simp [if_pos h127, if_pos (by omega : length < 16384)]
    · by_cases h16384 : length < 16384
      · simp [h127, h16384]
      · simp [h127, h16384]

theorem lengthDeterminant_bits (length : Nat) :
    8 ≤ (lengthDeterminant length).2 ∧ (lengthDeterminant length).2 ≤ 31 := by
  unfold lengthDeterminant
  split_ifs <;> simp

theorem puts_length (length : Nat) :
    Puts (fun po => (·.1) <$> aperPutLength (-1) length po) (lengthBits length) := by
  intro po
  obtain ⟨po', hpo', hbits⟩ := puts_aligned (lengthDeterminant length).1
    (lengthDeterminant_bits length).2 po
  refine ⟨po', ?_, hbits⟩
  beta_reduce at hpo' ⊢
  rw [aperPutLength_eq, hpo']
  rfl

theorem lt_length_lengthBits (length off : Nat) : 7 < (lengthBits length off).length := by
  have := (lengthDeterminant_bits length).1
  rw [lengthBits, List.length_append, length_ofNat]
  omega

theorem lengthFrom_short : ∀ value ≤ 127, lengthFrom value = pure (value, false) := by
  have hbits : ∀ value ≤ 127, value &&& 128 = 0 ∧ value &&& 0x7f = value := by decide
  intro value h
  obtain ⟨h128, h127⟩ := hbits value h
  unfold lengthFrom
  rw [if_pos h128, h127]

theorem lengthFrom_long {high : Nat} (h : high < 64) :
    lengthFrom (128 + high) =
      (do let low ← perGetFewBits 8; return (high <<< 8 ||| low, false)) := by
  have hbits : ∀ high < 64, (128 + high) &&& 128 ≠ 0 ∧ (128 + high) &&& 64 = 0 ∧
      (128 + high) &&& 63 = high := by decide
  obtain ⟨h128, h64, h63⟩ := hbits high h
  unfold lengthFrom
  rw [if_neg h128, if_pos h64, h63]

theorem lengthFrom_fragment {m : Nat} (hpos : 1 ≤ m) (h : m ≤ 4) :
    lengthFrom (0xc0 ||| m) = pure (16384 * m, true) := by
  have hbits : ∀ m ≤ 4, (0xc0 ||| m) &&& 128 ≠ 0 ∧ (0xc0 ||| m) &&& 64 ≠ 0 ∧
      (0xc0 ||| m) &&& 63 = m := by decide
  obtain ⟨h128, h64, h63⟩ := hbits m h
  unfold lengthFrom
  rw [if_neg h128, if_neg h64, h63, if_neg (by omega)]

theorem aperGetLength_unbounded : aperGetLength (-1) (-1) =
    (do let _ ← aperGetAlign; let value ← perGetFewBits 8; lengthFrom value) := by
  unfold aperGetLength
  rw [if_neg (by decide)]
  rfl

/-- The reader gets the number of units that go with the length, and learns whether there will be
more. -/
theorem gets_length (length off : Nat) :
    Gets (aperGetLength (-1) (-1)) off (lengthBits length off)
      (maySave length, decide (16384 ≤ length)) := by
  rw [aperGetLength_unbounded]
  refine (gets_zeros off).bind (k := fun _ => do let value ← perGetFewBits 8; lengthFrom value) ?_
  generalize off + (List.replicate (padding off) false).length = place
  unfold lengthDeterminant maySave
  by_cases h127 : length ≤ 127
  · have hread := (gets_number (by decide : 8 ≤ 31) (by omega : length < 2 ^ 8) place).bind
      (k := lengthFrom) (by rw [lengthFrom_short _ h127]; exact Gets.pure _ _)
    rw [List.append_nil] at hread
    rw [if_pos h127, if_pos (by omega), decide_eq_false (by omega)]
    exact hread
  · by_cases h16384 : length < 16384
    · have hor : length ||| 0x8000 = (128 + length / 256) * 2 ^ 8 + length % 256 := by
        have := Nat.two_pow_add_eq_or_of_lt (i := 15) (b := length) (by omega) 1
        rw [Nat.or_comm, ← this]
        omega
      have hlow : (length / 256) <<< 8 ||| length % 256 = length := by
        rw [← Nat.shiftLeft_add_eq_or_of_lt (by omega : length % 256 < 2 ^ 8), Nat.shiftLeft_eq]
        omega
      have hbits : ofNat 16 (length ||| 0x8000) =
          ofNat 8 (128 + length / 256) ++ ofNat 8 (length % 256) := by
        rw [hor, ← ofNat_mul_add (by omega : length % 256 < 2 ^ 8)]
      have hread := (gets_number (by decide : 8 ≤ 31)
        (by omega : 128 + length / 256 < 2 ^ 8) place).bind (k := lengthFrom) (by
          rw [lengthFrom_long (by omega)]
          exact (gets_number (by decide : 8 ≤ 31) (by omega : length % 256 < 2 ^ 8) _).map
            fun low => ((length / 256) <<< 8 ||| low, false))
      rw [if_neg h127, if_pos h16384, if_pos h16384, decide_eq_false (by omega), hbits]
      rw [hlow] at hread
      exact hread
    · have hm : 1 ≤ min (length >>> 14) 4 ∧ min (length >>> 14) 4 ≤ 4 := by
        rw [Nat.shiftRight_eq_div_pow]
        omega
      have hlt : ∀ m ≤ 4, 0xc0 ||| m < 2 ^ 8 := by decide
      have hread := (gets_number (by decide : 8 ≤ 31) (hlt _ hm.2) place).bind (k := lengthFrom) (by
        rw [lengthFrom_fragment hm.1 hm.2]
        exact Gets.pure _ _)
      rw [List.append_nil, Nat.mul_comm, ← Nat.shiftLeft_eq _ 14] at hread
      rw [if_neg h127, if_neg h16384, if_neg h16384, decide_eq_true (by omega)]
      exact hread

theorem aperPutLength_bounded {range : Int} (hpos : 0 ≤ range) (hrange : range ≤ 65536)
    (length : Nat) (po : AsnBitOutp) :
    aperPutLength range length po = (·, 0) <$> aperPutNsnnwn range length po :=
  if_pos ⟨hrange, hpos⟩

theorem aperGetLength_bounded {range ebits : Int} (hebits : 0 ≤ ebits) (hpos : 0 ≤ range)
    (hrange : range ≤ 65536) :
    aperGetLength range ebits = (·, false) <$> aperGetNsnnwn range :=
  if_pos ⟨hebits, hrange, hpos⟩

/-- `aper_get_nslength`. -/
def aperGetNslength : StateT AsnBitData Option Nat := do
  if (← perGetFewBits 1) = 0 then
    let length ← perGetFewBits 6
    return length + 1
  else
    let (length, again) ← aperGetLength (-1) (-1)
    if again then failure else return length

/-! ## Fragments -/

/-- The loops that put a length and as many units as it counts, until none is left. Each round puts
one unit at least, so that `fuel` above the number of units is enough. -/
def putFragments {α : Type} (put : List α → AsnBitOutp → Option AsnBitOutp) :
    (fuel : Nat) → List α → AsnBitOutp → Option AsnBitOutp
  | 0, _, _ => none
  | fuel + 1, units, po =>
    if units.isEmpty then some po
    else do
      let (po, maySave) ← aperPutLength (-1) units.length po
      let po ← put (units.take maySave) po
      putFragments put fuel (units.drop maySave) po

/-- The same where a value without units has a length all the same. -/
def putUnits {α : Type} (put : List α → AsnBitOutp → Option AsnBitOutp) (units : List α)
    (po : AsnBitOutp) : Option AsnBitOutp :=
  if units.isEmpty then (·.1) <$> aperPutLength (-1) 0 po
  else putFragments put (units.length + 1) units po

/-- The loops that read a length and as many units as it counts, as long as it was a fragment. Each
round takes eight bits at least, so that `fuel` above the number of bits is enough. -/
def getFragments {α : Type} (get : Nat → StateT AsnBitData Option (List α)) :
    (fuel : Nat) → StateT AsnBitData Option (List α)
  | 0 => failure
  | fuel + 1 => do
    let (count, again) ← aperGetLength (-1) (-1)
    let units ← get count
    if again then (units ++ ·) <$> getFragments get fuel else return units

/-- `getFragments` with fuel for every bit that is left. -/
def getAllFragments {α : Type} (get : Nat → StateT AsnBitData Option (List α)) :
    StateT AsnBitData Option (List α) :=
  fun pd => getFragments get (pd.nbits - pd.nboff + 1) pd

section Fragments

variable {α : Type} {put : List α → AsnBitOutp → Option AsnBitOutp}
  {get : Nat → StateT AsnBitData Option (List α)} {units : List α}

theorem maySave_pos (h : units ≠ []) : 0 < maySave units.length := by
  have := List.length_pos_iff.mpr h
  unfold maySave
  rw [Nat.shiftRight_eq_div_pow, Nat.shiftLeft_eq]
  split <;> omega

theorem maySave_le (n : Nat) : maySave n ≤ n := by
  unfold maySave
  rw [Nat.shiftRight_eq_div_pow, Nat.shiftLeft_eq]
  split <;> omega

/-- Fragments are of whole 16K. -/
theorem maySave_mod {n : Nat} (h : 16384 ≤ n) : maySave n % 16384 = 0 := by
  unfold maySave
  rw [if_neg (by omega), Nat.shiftLeft_eq]
  exact Nat.mul_mod_left _ _

/-- One round of the writer. -/
theorem putFragments_round (fuel : Nat) (h : units ≠ []) (po : AsnBitOutp) :
    putFragments put (fuel + 1) units po =
      (((·.1) <$> aperPutLength (-1) units.length po) >>=
        put (units.take (maySave units.length)) >>=
        putFragments put fuel (units.drop (maySave units.length))) := by
  have hne : units.isEmpty = false := by simpa using h
  rw [putFragments, hne, aperPutLength_eq]
  cases aperPutAlign po >>= perPutFewBits _ _ with
  | none => rfl
  | some po => rfl

/-- One round of the reader: the units that go with the length, and those behind them. -/
theorem Gets.fragment {f off n : Nat} {cs ds : List Bool} {chunk rest : List α}
    (hchunk : Gets (get (maySave n)) (off + (lengthBits n off).length) cs chunk)
    (hrest : if 16384 ≤ n then
        Gets (getFragments get f) (off + (lengthBits n off).length + cs.length) ds rest
      else ds = [] ∧ rest = []) :
    Gets (getFragments get (f + 1)) off (lengthBits n off ++ (cs ++ ds)) (chunk ++ rest) := by
  refine (gets_length n off).bind (k := fun r => get r.1 >>= fun units =>
    if r.2 then (units ++ ·) <$> getFragments get f else pure units) (hchunk.bind ?_)
  by_cases h : 16384 ≤ n
  · rw [if_pos h] at hrest
    rw [if_pos (decide_eq_true h)]
    exact hrest.map (chunk ++ ·)
  · rw [if_neg h] at hrest
    rw [if_neg (by simpa using h), hrest.1, hrest.2, List.append_nil]
    exact Gets.pure _ _

/-- The writer puts, and the reader gets, the units of a number that is no multiple of 16K. -/
theorem fragments_run (hunits : ∀ chunk : List α, (∀ u ∈ chunk, u ∈ units) →
    RoundTrips (put chunk) (get chunk.length) chunk) {fuel : Nat} (hfuel : units.length < fuel)
    (h : ¬ 16384 ∣ units.length) :
    ∃ bs, Puts (putFragments put fuel units) bs ∧
      ∀ off fuel', (bs off).length < fuel' → Gets (getFragments get fuel') off (bs off) units := by
  induction fuel generalizing units with
  | zero => exact absurd hfuel (Nat.not_lt_zero _)
  | succ fuel ih =>
    have hne : units ≠ [] := by
      rintro rfl
      exact h (Nat.dvd_zero _)
    have hpos := maySave_pos hne
    have hle := maySave_le units.length
    have hchunk : (units.take (maySave units.length)).length = maySave units.length := by
      rw [List.length_take, Nat.min_eq_left hle]
    obtain ⟨cs, hputs, hgets⟩ := hunits (units.take (maySave units.length))
      fun u hu => List.mem_of_mem_take hu
    rw [hchunk] at hgets
    rw [funext (putFragments_round fuel hne)]
    by_cases h16384 : 16384 ≤ units.length
    · have hrest : (units.drop (maySave units.length)).length =
          units.length - maySave units.length := List.length_drop
      have hmod := maySave_mod h16384
      obtain ⟨ds, hputs', hgets'⟩ := ih
        (fun chunk (hc : ∀ u ∈ chunk, u ∈ units.drop (maySave units.length)) =>
          hunits chunk fun u hu => List.mem_of_mem_drop (hc u hu)) (by omega) (by omega)
      refine ⟨_, ((puts_length _).bind hputs).bind hputs', fun off fuel' hfuel' => ?_⟩
      beta_reduce at hfuel' ⊢
      have hpos := lt_length_lengthBits units.length off
      rw [List.length_append, List.length_append, ← Nat.add_assoc off] at hfuel'
      obtain ⟨fuel', rfl⟩ := Nat.exists_eq_add_one_of_ne_zero (by omega : fuel' ≠ 0)
      have hread := Gets.fragment (hgets _) (by
        rw [if_pos h16384]
        exact hgets' (off + (lengthBits units.length off).length +
          (cs (off + (lengthBits units.length off).length)).length) fuel' (by omega))
      rw [List.take_append_drop] at hread
      rwa [List.length_append, ← Nat.add_assoc off, List.append_assoc]
    · have hall : maySave units.length = units.length := if_pos (by omega)
      rw [hall, List.take_length] at hputs hgets
      rw [hall, List.take_length, List.drop_length]
      obtain ⟨fuel, rfl⟩ := Nat.exists_eq_add_one_of_ne_zero (by omega : fuel ≠ 0)
      refine ⟨_, ((puts_length _).bind hputs).bind (g := putFragments put (fuel + 1) [])
        Puts.nothing, fun off fuel' hfuel' => ?_⟩
      beta_reduce at hfuel' ⊢
      obtain ⟨fuel', rfl⟩ := Nat.exists_eq_add_one_of_ne_zero (by omega : fuel' ≠ 0)
      have hread : Gets (getFragments get (fuel' + 1)) off _ (units ++ []) := Gets.fragment
        (by rw [hall]; exact hgets (off + (lengthBits units.length off).length))
        (by rw [if_neg h16384]; exact ⟨rfl, rfl⟩)
      rw [List.append_nil, List.append_nil] at hread
      rwa [List.append_nil]

theorem aperGetLength_empty {pd : AsnBitData} (h : BitSource.rest pd = []) :
    aperGetLength (-1) (-1) pd = none := by
  rw [aperGetLength_unbounded]
  show (aperGetAlign pd).bind (fun r => (perGetFewBits 8 >>= lengthFrom) r.2) = none
  unfold aperGetAlign
  by_cases h0 : pd.nboff % 8 = 0
  · rw [if_neg (by omega), Option.bind_some]
    show (perGetFewBits 8 pd).bind _ = none
    rw [perGetFewBits_none (by rw [h]; decide)]
    rfl
  · rw [if_pos h0, perGetFewBits_none (by rw [h, List.length_nil]; omega)]
    rfl

/-- Behind whole fragments of 16K the reader asks for one more length. -/
theorem fragments_run_none (hunits : ∀ chunk : List α, (∀ u ∈ chunk, u ∈ units) →
    RoundTrips (put chunk) (get chunk.length) chunk) {fuel : Nat} (hfuel : units.length < fuel)
    (h : 16384 ∣ units.length) :
    ∃ bs, Puts (putFragments put fuel units) bs ∧
      ∀ off fuel' pd behind, At pd off behind (bs off) → getFragments get fuel' pd = none := by
  induction fuel generalizing units with
  | zero => exact absurd hfuel (Nat.not_lt_zero _)
  | succ fuel ih =>
    by_cases hne : units = []
    · subst hne
      refine ⟨_, Puts.nothing, fun off fuel' pd behind hpd => ?_⟩
      cases fuel' with
      | zero => rfl
      | succ fuel' =>
        show (aperGetLength (-1) (-1) pd).bind _ = none
        rw [aperGetLength_empty hpd.rest_eq]
        rfl
    have h16384 : 16384 ≤ units.length := Nat.le_of_dvd (List.length_pos_iff.mpr hne) h
    have hpos := maySave_pos hne
    have hle := maySave_le units.length
    have hmod := maySave_mod h16384
    have hrest : (units.drop (maySave units.length)).length =
        units.length - maySave units.length := List.length_drop
    have hchunk : (units.take (maySave units.length)).length = maySave units.length := by
      rw [List.length_take, Nat.min_eq_left hle]
    obtain ⟨cs, hputs, hgets⟩ := hunits (units.take (maySave units.length))
      fun u hu => List.mem_of_mem_take hu
    obtain ⟨ds, hputs', hnone⟩ := ih
      (fun chunk (hc : ∀ u ∈ chunk, u ∈ units.drop (maySave units.length)) =>
        hunits chunk fun u hu => List.mem_of_mem_drop (hc u hu)) (by omega) (by omega)
    rw [hchunk] at hgets
    rw [funext (putFragments_round fuel hne)]
    refine ⟨_, ((puts_length _).bind hputs).bind hputs', fun off fuel' pd behind hpd => ?_⟩
    beta_reduce at hpd
    cases fuel' with
    | zero => rfl
    | succ fuel' =>
      rw [List.length_append, ← Nat.add_assoc off, List.append_assoc] at hpd
      obtain ⟨pd₁, hpd₁, hat₁⟩ := gets_length units.length off pd behind _ hpd
      obtain ⟨pd₂, hpd₂, hat₂⟩ := hgets _ pd₁ behind _ hat₁
      have hlast := hnone _ fuel' pd₂ behind hat₂
      show (aperGetLength (-1) (-1) pd).bind (fun r => (get r.1.1 >>= fun units =>
        if r.1.2 then (units ++ ·) <$> getFragments get fuel' else pure units) r.2) = none
      rw [hpd₁, Option.bind_some]
      show (get (maySave units.length) pd₁).bind (fun r => (if decide (16384 ≤ units.length) then
        (r.1 ++ ·) <$> getFragments get fuel' else pure r.1) r.2) = none
      rw [hpd₂, Option.bind_some, if_pos (decide_eq_true h16384)]
      show (getFragments get fuel' pd₂).bind _ = none
      rw [hlast]
      rfl

/-- What a round trip through fragments comes down to. -/
theorem roundTrips_fragments_iff (hunits : ∀ chunk : List α, (∀ u ∈ chunk, u ∈ units) →
    RoundTrips (put chunk) (get chunk.length) chunk) {fuel : Nat} (hfuel : units.length < fuel) :
    RoundTrips (putFragments put fuel units) (getAllFragments get) units ↔
      ¬ 16384 ∣ units.length := by
  refine ⟨fun hround hdvd => ?_, fun h => ?_⟩
  · obtain ⟨bs, hputs, hnone⟩ := fragments_run_none hunits hfuel hdvd
    obtain ⟨pd, behind, hpd⟩ := AsnBitData.exists_at 0 (bs 0)
    have hread : getAllFragments get pd = none := hnone 0 _ pd behind hpd
    exact not_roundTrips hputs AsnBitOutp.empty hpd (by simp [hread]) hround
  · obtain ⟨bs, hputs, hgets⟩ := fragments_run hunits hfuel h
    refine ⟨bs, hputs, fun off pd behind rest hpd => ?_⟩
    have hlen : (bs off).length ≤ pd.nbits - pd.nboff := by
      rw [← AsnBitData.length_rest, hpd.rest_eq, List.length_append]
      exact Nat.le_add_right _ _
    exact hgets off (pd.nbits - pd.nboff + 1) (by omega) pd behind rest hpd

/-- With a length for nothing, too. -/
theorem roundTrips_putUnits (hget : get 0 = pure [])
    (hunits : ∀ chunk : List α, (∀ u ∈ chunk, u ∈ units) →
    RoundTrips (put chunk) (get chunk.length) chunk)
    (h : units = [] ∨ ¬ 16384 ∣ units.length) :
    RoundTrips (putUnits put units) (getAllFragments get) units := by
  by_cases hnil : units = []
  · subst hnil
    have hput : putUnits put ([] : List α) = fun po => (·.1) <$> aperPutLength (-1) 0 po := rfl
    rw [hput]
    refine ⟨_, puts_length 0, fun off pd behind rest hpd => ?_⟩
    have hempty : Gets (get (maySave 0)) (off + (lengthBits 0 off).length) [] [] := by
      show Gets (get 0) _ [] []
      rw [hget]
      exact Gets.pure [] _
    have hread := Gets.fragment (f := pd.nbits - pd.nboff) hempty (by
      rw [if_neg (by decide)]
      exact ⟨rfl, rfl⟩)
    rw [List.append_nil, List.append_nil] at hread
    exact hread pd behind rest hpd
  · have hput : putUnits put units = putFragments put (units.length + 1) units :=
      funext fun po => if_neg (by simpa using hnil)
    rw [hput]
    exact (roundTrips_fragments_iff hunits (Nat.lt_succ_self _)).mpr (h.resolve_left hnil)

end Fragments

end E2Term
