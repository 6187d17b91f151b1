import E2Term.PerOpenType

/-!
# Numbers

The aligned encoders and decoders of `INTEGER.c`, `NativeInteger.c` and `NativeEnumerated.c`, and
what comes back of a value that they put. The decoder of an INTEGER takes what the bits have room
for and looks at no upper bound.
-/

namespace E2Term

open Bits Digits BitCodec

/-- `asn_per_constraint_t` of a constrained value or size; the range has room in its bits. -/
structure AsnPerConstraint where
  extensible : Bool
  rangeBits : Int
  effectiveBits : Int
  lowerBound : Int
  upperBound : Int
  lower_le : lowerBound ≤ upperBound := by decide
  range_lt : 0 ≤ rangeBits → upperBound - lowerBound < 2 ^ rangeBits.toNat := by decide
  deriving DecidableEq, Repr

/-! ## Extension bits -/

/-- The bit that says whether a value is outside the root, which only an extensible type allows. -/
def putExtension (extensible inext : Bool) (po : AsnBitOutp) : Option AsnBitOutp :=
  if extensible then perPutFewBits inext.toNat 1 po
  else if inext then none
  else some po

/-- The bit, if there is one. -/
def getExtension (extensible : Bool) : StateT AsnBitData Option Bool :=
  if extensible then (fun inext => decide (inext ≠ 0)) <$> perGetFewBits 1 else pure false

def extensionBits (extensible inext : Bool) : List Bool := if extensible then [inext] else []

theorem puts_extension {extensible inext : Bool} (h : inext = true → extensible = true) :
    Puts (putExtension extensible inext) fun _ => extensionBits extensible inext := by
  unfold putExtension extensionBits
  cases extensible with
  | true =>
    have hbit : ofNat 1 inext.toNat = [inext] := by cases inext <;> rfl
    have hputs := puts_perPutFewBits inext.toNat (by decide : 1 ≤ 31)
    rw [hbit] at hputs
    exact hputs
  | false =>
    cases inext with
    | true => cases h rfl
    | false => exact Puts.nothing

theorem gets_extension {extensible inext : Bool} (h : inext = true → extensible = true)
    (off : Nat) :
    Gets (getExtension extensible) off (extensionBits extensible inext) inext := by
  unfold getExtension extensionBits
  cases extensible with
  | true =>
    have hget := (gets_perGetFewBits (by simp : [inext].length ≤ 31) off).map fun inext =>
      decide (inext ≠ 0)
    have hvalue : decide (toNat [inext] ≠ 0) = inext := by cases inext <;> rfl
    rw [hvalue] at hget
    exact hget
  | false =>
    cases inext with
    | true => cases h rfl
    | false => exact Gets.pure false off

theorem roundTrips_extension {extensible inext : Bool} (h : inext = true → extensible = true) :
    RoundTrips (putExtension extensible inext) (getExtension extensible) inext :=
  ⟨_, puts_extension h, gets_extension h⟩

theorem roundTrips_extension_root (extensible : Bool) :
    RoundTrips (putExtension extensible false) (getExtension extensible) false :=
  roundTrips_extension nofun

/-- An extension without an extension bit is not encoded. -/
theorem putExtension_none {extensible : Bool} (h : ¬ extensible = true) (po : AsnBitOutp) :
    putExtension extensible true po = none := by
  simp [putExtension, h]

/-! ## INTEGER -/

/-- A `long`. -/
def fitsLong (value : Int) : Bool := -2 ^ 63 ≤ value && value < 2 ^ 63

/-- `asn_imax2INTEGER`: as few octets as a number in two's complement needs. -/
def asnImax2INTEGER (value : Int) : List UInt8 :=
  let size := ((List.range' 1 7).find? fun k =>
    -2 ^ (8 * k - 1) ≤ value && value < 2 ^ (8 * k - 1)).getD 8
  octetsOfNat size (value % 2 ^ (8 * size)).toNat

/-- The number that octets are in two's complement. -/
def signedValue : List UInt8 → Int
  | [] => 0
  | o :: rest => octetsValue (o :: rest) - if 128 ≤ o then 256 ^ (rest.length + 1) else 0

/-- `asn_INTEGER2long`: leading octets that do not matter are skipped. -/
def asnINTEGER2long (octets : List UInt8) : Option Int :=
  if fitsLong (signedValue octets) then some (signedValue octets) else none

/-- The octets behind a length, as often as it is a fragment's. -/
def putOctets (buf : List UInt8) : AsnBitOutp → Option AsnBitOutp :=
  putFragments (fun chunk => perPutManyBits chunk (8 * chunk.length)) (buf.length + 1) buf

/-- `max_range_bytes`. -/
def AsnPerConstraint.maxRangeBytes (ct : AsnPerConstraint) : Int := (ct.rangeBits + 7) / 8

/-- The number of the highest octet of `v64` up to `j` that is not zero. -/
def topOctet (v64 : Nat) : (j : Nat) → Nat
  | 0 => 0
  | j + 1 => if v64 >>> (8 * (j + 1)) ≠ 0 then j + 1 else topOctet v64 j

/-- The branch of `INTEGER_encode_aper` for a range; `v` is the distance to the lower bound. -/
def putRange (ct : AsnPerConstraint) (v : Nat) (po : AsnBitOutp) : Option AsnBitOutp :=
  if ct.rangeBits < 8 then perPutFewBits v ct.rangeBits.toNat po
  else if ct.rangeBits = 8 then aperPutAlign po >>= perPutFewBits v 8
  else if ct.rangeBits ≤ 16 then aperPutAlign po >>= perPutFewBits v 16
  else do
    let po ← perPutFewBits (topOctet v 7) (smallBits ct.maxRangeBytes) po
    let po ← aperPutAlign po
    (octetsOfNat (topOctet v 7 + 1) v).foldlM (fun po octet => perPutFewBits octet.toNat 8 po) po

/-- `INTEGER_encode_aper`, and `NativeInteger_encode_aper` over it. -/
def integerEncodeAper (ct : AsnPerConstraint) (value : Int) (po : AsnBitOutp) :
    Option AsnBitOutp :=
  let inext := 0 ≤ ct.rangeBits && (value < ct.lowerBound || ct.upperBound < value)
  if !fitsLong value then none
  else putExtension ct.extensible inext po >>=
    if inext then putOctets (asnImax2INTEGER value)
    else if 0 ≤ ct.rangeBits then putRange ct (value - ct.lowerBound).toNat
    else if ct.lowerBound ≠ 0 then fun _ => none
    else putOctets (asnImax2INTEGER value)

/-- What the octets of a wide range add up to in a `long`. -/
def longOfOctets (octets : List Nat) : Int :=
  Int.bmod (octets.foldl (fun value buf => 256 * value + buf) 0 : Nat) (2 ^ 64)

/-- The branch of `INTEGER_decode_aper` for a range, without the lower bound. -/
def getRange (ct : AsnPerConstraint) : StateT AsnBitData Option Int :=
  if ct.rangeBits < 8 then Nat.cast <$> perGetFewBits ct.rangeBits.toNat
  else if ct.rangeBits ≤ 16 then Nat.cast <$> do
    let _ ← aperGetAlign
    perGetFewBits (if ct.rangeBits = 8 then 8 else 16)
  else do
    let length ← perGetFewBits (smallBits ct.maxRangeBytes)
    let padding ← aperGetAlign
    if padding ≠ 0 then failure
    else longOfOctets <$> repeatGet (perGetFewBits 8) (length + 1)

/-- `INTEGER_decode_aper`, and `NativeInteger_decode_aper` over it; an `INTEGER_t` of E2AP is not
extensible. -/
def integerDecodeAper (ct : AsnPerConstraint) : StateT AsnBitData Option Int := do
  let inext ← getExtension ct.extensible
  if inext then
    let octets ← openTypeOctets
    StateT.lift (asnINTEGER2long octets)
  else if 0 ≤ ct.rangeBits then
    (fun value => Int.bmod (value + ct.lowerBound) (2 ^ 64)) <$> getRange ct
  else failure

/-! ### What comes back -/

theorem topOctet_spec {v j : Nat} (h : v < 256 ^ (j + 1)) :
    topOctet v j ≤ j ∧ v < 256 ^ (topOctet v j + 1) ∧
      (topOctet v j = 0 ∨ 256 ^ topOctet v j ≤ v) := by
  induction j with
  | zero => exact ⟨Nat.le_refl _, h, Or.inl rfl⟩
  | succ j ih =>
    have hpow : 2 ^ (8 * (j + 1)) = 256 ^ (j + 1) := Nat.pow_mul 2 8 _
    rw [topOctet, Nat.shiftRight_eq_div_pow, hpow]
    by_cases h0 : v / 256 ^ (j + 1) = 0
    · have hlt : v < 256 ^ (j + 1) := by
        rcases Nat.div_eq_zero_iff.mp h0 with hzero | hlt
        · exact absurd hzero (Nat.pow_pos (by decide)).ne'
        · exact hlt
      obtain ⟨hle, hrest⟩ := ih hlt
      rw [if_neg (by simpa using h0)]
      exact ⟨by omega, hrest⟩
    · rw [if_pos h0]
      refine ⟨Nat.le_refl _, h, Or.inr ?_⟩
      by_contra hlt
      exact h0 (Nat.div_eq_of_lt (by omega))

theorem foldl_octets (octets : List UInt8) (acc : Nat) :
    (octets.map UInt8.toNat).foldl (fun value buf => 256 * value + buf) acc =
      acc * 256 ^ octets.length + octetsValue octets := by
  induction octets generalizing acc with
  | nil => exact (Nat.mul_one acc).symm
  | cons octet rest ih =>
    rw [List.map_cons, List.foldl_cons, ih, octetsValue_cons, List.length_cons, Nat.pow_succ]
    ring

theorem signedValue_octetsOfNat {k n : Nat} (h : n < 256 ^ (k + 1)) :
    signedValue (octetsOfNat (k + 1) n) =
      if 128 * 256 ^ k ≤ n then (n : Int) - 256 ^ (k + 1) else n := by
  have hdiv : n / 256 ^ k < 256 := by
    rw [Nat.pow_succ] at h
    exact Nat.div_lt_of_lt_mul h
  have hhead : 128 ≤ (n / 256 ^ k).toUInt8 ↔ 128 * 256 ^ k ≤ n := by
    have htoNat : ((n / 256 ^ k).toUInt8).toNat = n / 256 ^ k := Nat.mod_eq_of_lt hdiv
    rw [UInt8.le_iff_toNat_le, htoNat, Nat.le_div_iff_mul_le (Nat.pow_pos (by decide))]
    rfl
  have hvalue := octetsValue_octetsOfNat h
  rw [octetsOfNat] at hvalue ⊢
  rw [signedValue, hvalue, length_octetsOfNat]
  by_cases h128 : 128 * 256 ^ k ≤ n
  · rw [if_pos (hhead.mpr h128), if_pos h128]
  · rw [if_neg (mt hhead.mp h128), if_neg h128, sub_zero]

/-- What a number leaves in two's complement gives it back. -/
theorem signedValue_emod {k : Nat} {value : Int} (hlow : -2 ^ (8 * (k + 1) - 1) ≤ value)
    (hhigh : value < 2 ^ (8 * (k + 1) - 1)) :
    signedValue (octetsOfNat (k + 1) (value % 2 ^ (8 * (k + 1))).toNat) = value := by
  have hhalf : (2 : Int) ^ (8 * (k + 1) - 1) = 128 * 256 ^ k := by
    have hexp : 8 * (k + 1) - 1 = 7 + 8 * k := by omega
    rw [hexp, Int.pow_add, Int.pow_mul]
    rfl
  have hall : (2 : Int) ^ (8 * (k + 1)) = 256 * 256 ^ k := by
    rw [Nat.mul_succ, Nat.add_comm, Int.pow_add, Int.pow_mul]
    rfl
  have hpos : (0 : Int) < 256 ^ k := Int.pow_pos (by decide)
  have hall' : ((256 ^ (k + 1) : Nat) : Int) = 256 * 256 ^ k := by
    push_cast
    ring
  rw [hhalf] at hlow hhigh
  rw [hall]
  have hnonneg := Int.emod_nonneg value (by omega : 256 * (256 : Int) ^ k ≠ 0)
  have hlt := Int.emod_lt_of_pos value (by omega : 0 < 256 * (256 : Int) ^ k)
  have hn : (value % (256 * 256 ^ k)).toNat < 256 ^ (k + 1) := by omega
  have hcast : 128 * 256 ^ k ≤ (value % (256 * 256 ^ k)).toNat ↔ value < 0 := by
    have hnat : ((256 ^ k : Nat) : Int) = 256 ^ k := by push_cast; rfl
    rcases Int.lt_or_le value 0 with hneg | hneg
    · have hmod : value % (256 * 256 ^ k) = value + 256 * 256 ^ k := by
        rw [← Int.add_emod_right, Int.emod_eq_of_lt (by omega) (by omega)]
      omega
    · rw [Int.emod_eq_of_lt hneg (by omega)]
      omega
  rw [signedValue_octetsOfNat hn]
  rcases Int.lt_or_le value 0 with hneg | hneg
  · have hmod : value % (256 * 256 ^ k) = value + 256 * 256 ^ k := by
      rw [← Int.add_emod_right, Int.emod_eq_of_lt (by omega) (by omega)]
    rw [if_pos (hcast.mpr hneg), Int.toNat_of_nonneg hnonneg, hmod, ← hall']
    push_cast
    ring
  · rw [if_neg (by rw [hcast]; omega), Int.toNat_of_nonneg hnonneg,
      Int.emod_eq_of_lt hneg (by omega)]

/-- The octets of a `long` are one at least, and give it back. -/
theorem asnINTEGER2long_asnImax2INTEGER {value : Int} (h : fitsLong value = true) :
    asnINTEGER2long (asnImax2INTEGER value) = some value ∧
      0 < (asnImax2INTEGER value).length ∧ (asnImax2INTEGER value).length ≤ 8 := by
  have hsize : ∃ k ≤ 7, asnImax2INTEGER value =
      octetsOfNat (k + 1) (value % 2 ^ (8 * (k + 1))).toNat ∧
      -2 ^ (8 * (k + 1) - 1) ≤ value ∧ value < 2 ^ (8 * (k + 1) - 1) := by
    unfold asnImax2INTEGER
    cases hfind : (List.range' 1 7).find? fun k =>
        -2 ^ (8 * k - 1) ≤ value && value < 2 ^ (8 * k - 1) with
    | none =>
      simp only [fitsLong, Bool.and_eq_true, decide_eq_true_eq] at h
      exact ⟨7, Nat.le_refl _, rfl, h⟩
    | some k =>
      have hmem := List.mem_of_find?_eq_some hfind
      have hfits := List.find?_some hfind
      rw [List.mem_range'_1] at hmem
      simp only [Bool.and_eq_true, decide_eq_true_eq] at hfits
      obtain ⟨k, rfl⟩ := Nat.exists_eq_add_one_of_ne_zero (by omega : k ≠ 0)
      exact ⟨k, by omega, rfl, hfits⟩
  obtain ⟨k, hk, hoctets, hlow, hhigh⟩ := hsize
  have hvalue := signedValue_emod hlow hhigh
  rw [hoctets, length_octetsOfNat]
  refine ⟨?_, by omega, by omega⟩
  unfold asnINTEGER2long
  rw [hvalue, if_pos h]

theorem roundTrips_align : RoundTrips aperPutAlign aperGetAlign 0 :=
  ⟨_, puts_aperPutAlign, gets_zeros⟩

theorem roundTrips_putOctets {buf : List UInt8} (h : ¬ 16384 ∣ buf.length) :
    RoundTrips (putOctets buf) openTypeOctets buf :=
  (roundTrips_fragments_iff (fun chunk _ => roundTrips_octets chunk) (Nat.lt_succ_self _)).mpr h

/-- A distance within the bits of the range is read back. -/
theorem roundTrips_range {ct : AsnPerConstraint} {v : Nat} (hpos : 0 ≤ ct.rangeBits)
    (hbits : ct.rangeBits ≤ 63) (hv : v < 2 ^ ct.rangeBits.toNat) :
    RoundTrips (putRange ct v) (getRange ct) v := by
  unfold putRange getRange
  by_cases h8 : ct.rangeBits < 8
  · simp only [if_pos h8]
    exact (roundTrips_few (by omega) hv).map Nat.cast
  by_cases h8' : ct.rangeBits = 8
  · rw [h8'] at hv
    simp only [h8', if_neg (by decide : ¬ (8 : Int) < 8), if_pos]
    exact (roundTrips_aligned (by decide) hv).map Nat.cast
  by_cases h16 : ct.rangeBits ≤ 16
  · have hlt : v < 2 ^ 16 :=
      hv.trans_le (Nat.pow_le_pow_right Nat.two_pos (by omega : ct.rangeBits.toNat ≤ 16))
    simp only [if_neg h8, if_neg h8', if_pos h16]
    exact (roundTrips_aligned (by decide) hlt).map Nat.cast
  have hv63 : v < 2 ^ 63 :=
    hv.trans_le (Nat.pow_le_pow_right Nat.two_pos (by omega : ct.rangeBits.toNat ≤ 63))
  obtain ⟨htop, hlt, hge⟩ := topOctet_spec (v := v) (j := 7) (by omega)
  obtain ⟨hsmall, hroom⟩ := smallBits_spec (by
    unfold AsnPerConstraint.maxRangeBytes
    omega : ct.maxRangeBytes ≤ 255)
  have htopBytes : (topOctet v 7 : Int) < ct.maxRangeBytes := by
    unfold AsnPerConstraint.maxRangeBytes
    rcases hge with h0 | hge
    · omega
    · have hpow : 2 ^ (8 * topOctet v 7) < 2 ^ ct.rangeBits.toNat := by
        rw [Nat.pow_mul]
        exact hge.trans_lt hv
      have := (Nat.pow_lt_pow_iff_right (by decide)).mp hpow
      omega
  have htopLt : topOctet v 7 < 2 ^ smallBits ct.maxRangeBytes := by
    have := htopBytes.trans_le hroom
    exact_mod_cast this
  have hlist := RoundTrips.list (f := fun (n : Nat) => perPutFewBits n 8) (m := perGetFewBits 8)
    fun n (hn : n ∈ (octetsOfNat (topOctet v 7 + 1) v).map UInt8.toNat) => by
      obtain ⟨octet, -, rfl⟩ := List.mem_map.mp hn
      exact roundTrips_few (by decide) octet.toNat_lt
  have hvalue : longOfOctets ((octetsOfNat (topOctet v 7 + 1) v).map UInt8.toNat) = v := by
    unfold longOfOctets
    rw [foldl_octets, Nat.zero_mul, Nat.zero_add, octetsValue_octetsOfNat hlt]
    exact Int.bmod_eq_of_le (by omega) (by omega)
  simp only [List.length_map, length_octetsOfNat, List.foldlM_map] at hlist
  have hoctets := hlist.map longOfOctets
  rw [hvalue] at hoctets
  simp only [if_neg h8, if_neg h8', if_neg h16]
  exact (roundTrips_few (by omega) htopLt).bind (k := fun length => do
    let padding ← aperGetAlign
    if padding ≠ 0 then failure
    else longOfOctets <$> repeatGet (perGetFewBits 8) (length + 1))
    (roundTrips_align.bind (k := fun padding => if padding ≠ 0 then failure
      else longOfOctets <$> repeatGet (perGetFewBits 8) (topOctet v 7 + 1)) hoctets)

/-- The values that `integerEncodeAper` puts, of a range that a `long` has room for. -/
def integerFits (ct : AsnPerConstraint) (value : Int) : Bool :=
  fitsLong value && (ct.extensible || ct.lowerBound ≤ value && value ≤ ct.upperBound)

theorem bmod_of_fitsLong {value : Int} (h : fitsLong value = true) :
    Int.bmod value (2 ^ 64) = value := by
  simp only [fitsLong, Bool.and_eq_true, decide_eq_true_eq] at h
  exact Int.bmod_eq_of_le (by omega) (by omega)

/-- The value behind the extension bit. -/
theorem roundTrips_extended {value : Int} (h : fitsLong value = true) :
    RoundTrips (putOctets (asnImax2INTEGER value))
      (do let octets ← openTypeOctets; StateT.lift (asnINTEGER2long octets)) value := by
  obtain ⟨hvalue, hpos, hle⟩ := asnINTEGER2long_asnImax2INTEGER h
  refine (roundTrips_putOctets fun hdvd => ?_).check ?_
  · have := Nat.le_of_dvd hpos hdvd
    omega
  · rw [hvalue]
    rfl

/-- The value in the root. -/
theorem roundTrips_root {ct : AsnPerConstraint} (hpos : 0 ≤ ct.rangeBits)
    (hbits : ct.rangeBits ≤ 63) {value : Int} (hlong : fitsLong value = true)
    (hlow : ct.lowerBound ≤ value) (hhigh : value ≤ ct.upperBound) :
    RoundTrips (putRange ct (value - ct.lowerBound).toNat)
      ((fun value => Int.bmod (value + ct.lowerBound) (2 ^ 64)) <$> getRange ct) value := by
  have hrange := ct.range_lt hpos
  have hv : (value - ct.lowerBound).toNat < 2 ^ ct.rangeBits.toNat := by
    have hlt : ((value - ct.lowerBound).toNat : Int) < 2 ^ ct.rangeBits.toNat := by omega
    exact_mod_cast hlt
  have hback : Int.bmod (((value - ct.lowerBound).toNat : Int) + ct.lowerBound) (2 ^ 64) =
      value := by
    rw [Int.toNat_of_nonneg (by omega), Int.sub_add_cancel, bmod_of_fitsLong hlong]
  have hround := (roundTrips_range hpos hbits hv).map fun value =>
    Int.bmod (value + ct.lowerBound) (2 ^ 64)
  rwa [hback] at hround

/-- An INTEGER comes back if it is put at all. -/
theorem roundTrips_integer_iff {ct : AsnPerConstraint} (hpos : 0 ≤ ct.rangeBits)
    (hbits : ct.rangeBits ≤ 63) (value : Int) :
    RoundTrips (integerEncodeAper ct value) (integerDecodeAper ct) value ↔
      integerFits ct value = true := by
  unfold integerEncodeAper integerDecodeAper integerFits
  by_cases hlong : fitsLong value = true
  swap
  · simp only [Bool.not_eq_true] at hlong
    refine ⟨fun h => absurd (h.isSome AsnBitOutp.empty) (by simp [hlong]), fun h => ?_⟩
    rw [hlong] at h
    cases h
  simp only [hlong, Bool.not_true, Bool.false_eq_true, if_false, Bool.true_and,
    decide_eq_true hpos, if_pos hpos]
  by_cases hin : ct.lowerBound ≤ value ∧ value ≤ ct.upperBound
  · have hinext : (value < ct.lowerBound || ct.upperBound < value) = false := by
      simp only [Bool.or_eq_false_iff, decide_eq_false_iff_not]
      omega
    simp only [hinext, decide_eq_true hin.1, decide_eq_true hin.2, Bool.and_true, Bool.or_true,
      iff_true, Bool.false_eq_true, if_false]
    exact (roundTrips_extension (by simp)).bind (roundTrips_root hpos hbits hlong hin.1 hin.2)
  · have hinext : (value < ct.lowerBound || ct.upperBound < value) = true := by
      simp only [Bool.or_eq_true, decide_eq_true_eq]
      omega
    have hout : (decide (ct.lowerBound ≤ value) && decide (value ≤ ct.upperBound)) = false := by
      simpa only [Bool.and_eq_false_iff, decide_eq_false_iff_not, Classical.not_and_iff_not_or_not]
        using hin
    simp only [hinext, hout, Bool.or_false, if_true]
    refine ⟨fun h => ?_, fun hext => ?_⟩
    · by_contra hext
      have hnone := putExtension_none hext AsnBitOutp.empty
      have hsome := h.isSome AsnBitOutp.empty
      beta_reduce at hsome
      rw [hnone] at hsome
      cases hsome
    · exact (roundTrips_extension fun _ => hext).bind (roundTrips_extended hlong)

/-! ## ENUMERATED -/

/-- `asn_INTEGER_specifics_t` of an ENUMERATED whose values are numbered from zero: `map_count`, and
`extension`, zero if there is none. -/
structure AsnIntegerSpecifics where
  mapCount : Nat
  extension : Nat
  deriving DecidableEq, Repr

/-- How many values are in the root. -/
def AsnIntegerSpecifics.rootCount (specs : AsnIntegerSpecifics) : Nat :=
  if specs.extension ≠ 0 then specs.extension - 1 else specs.mapCount

/-- `NativeEnumerated_encode_aper`. -/
def enumeratedEncodeAper (ct : AsnPerConstraint) (specs : AsnIntegerSpecifics) (value : Nat)
    (po : AsnBitOutp) : Option AsnBitOutp :=
  let inext := 0 ≤ ct.rangeBits && specs.rootCount ≤ value
  if specs.mapCount ≤ value then none
  else putExtension ct.extensible inext po >>=
    if !inext && 0 ≤ ct.rangeBits then perPutFewBits value ct.rangeBits.toNat
    else if specs.extension = 0 then fun _ => none
    else uperPutNsnnwn (value - if inext then specs.extension - 1 else 0)

/-- The padding that `NativeEnumerated_decode_aper` skips for a large range, if it is there. -/
def skipPadding : StateT AsnBitData Option Unit := fun pd =>
  let padding := (8 - pd.moved % 8) % 8
  match if 0 < padding then perGetFewBits padding pd else none with
  | none => some ((), pd)
  | some (_, pd) => some ((), pd)

/-- `NativeEnumerated_decode_aper`. -/
def enumeratedDecodeAper (ct : AsnPerConstraint) (specs : AsnIntegerSpecifics) :
    StateT AsnBitData Option Nat := do
  let inext ← getExtension ct.extensible
  if !inext && 255 ≤ ct.upperBound then skipPadding
  if !inext && 0 ≤ ct.rangeBits then
    let value ← perGetFewBits ct.rangeBits.toNat
    if specs.rootCount ≤ value then failure else return value
  else if specs.extension = 0 then failure
  else
    let value ← uperGetNsnnwn
    if specs.mapCount ≤ value + (specs.extension - 1) then failure
    else return value + (specs.extension - 1)

/-- The padding of a value that comes back is that of a small enumeration, and its number is one
that goes into the root or is small. -/
def enumeratedFits (ct : AsnPerConstraint) (specs : AsnIntegerSpecifics) (value : Nat) : Bool :=
  value < specs.mapCount &&
    if value < specs.rootCount then ct.upperBound < 255
    else ct.extensible && specs.extension ≠ 0 && value ≤ specs.extension - 1 + 63

theorem roundTrips_enumerated {ct : AsnPerConstraint} {specs : AsnIntegerSpecifics} {value : Nat}
    (hpos : 0 ≤ ct.rangeBits) (hbits : ct.rangeBits ≤ 31)
    (hroot : specs.rootCount ≤ 2 ^ ct.rangeBits.toNat)
    (h : enumeratedFits ct specs value = true) :
    RoundTrips (enumeratedEncodeAper ct specs value) (enumeratedDecodeAper ct specs) value := by
  unfold enumeratedFits at h
  rw [Bool.and_eq_true, decide_eq_true_eq] at h
  unfold enumeratedEncodeAper enumeratedDecodeAper
  simp only [decide_eq_true hpos, Bool.true_and, Bool.and_true,
    if_neg (by omega : ¬ specs.mapCount ≤ value)]
  by_cases hin : value < specs.rootCount
  · rw [if_pos hin, decide_eq_true_eq] at h
    simp only [decide_eq_false (by omega : ¬ specs.rootCount ≤ value)]
    refine (roundTrips_extension (by simp)).bind ?_
    simp only [Bool.not_false, if_true, decide_eq_false (by omega : ¬ 255 ≤ ct.upperBound),
      Bool.and_false, Bool.false_eq_true, if_false]
    refine (roundTrips_few (by omega) (by omega)).check ?_
    rw [if_neg (by omega)]
  · rw [if_neg hin] at h
    simp only [Bool.and_eq_true, decide_eq_true_eq, ne_eq] at h
    obtain ⟨hmap, ⟨hext, hne⟩, hle⟩ := h
    have hcount : specs.rootCount = specs.extension - 1 := if_pos hne
    simp only [decide_eq_true (by omega : specs.rootCount ≤ value)]
    refine (roundTrips_extension fun _ => hext).bind ?_
    simp only [Bool.not_true, Bool.false_and, Bool.false_eq_true, if_false, if_true, if_neg hne]
    refine (roundTrips_uperNsnnwn (by omega)).check ?_
    have hback : value - (specs.extension - 1) + (specs.extension - 1) = value := by omega
    rw [hback, if_neg (by omega)]

end E2Term
