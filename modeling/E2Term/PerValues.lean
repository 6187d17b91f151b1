import E2Term.PerLocality

/-!
# What octets can say

The values that a decoder makes of octets that any peer may have sent. A number has room in its bits
and need not be within the bounds of its type; everything else of a value is as its type says.
-/

namespace E2Term

open Bits Digits BitCodec

/-! ## Numbers -/

/-- The bits that a number of a range is read from. -/
def AsnPerConstraint.room (ct : AsnPerConstraint) : Nat :=
  if ct.rangeBits ≤ 8 then ct.rangeBits.toNat
  else if ct.rangeBits ≤ 16 then 16
  else 8 * 2 ^ smallBits ct.maxRangeBytes

/-- The numbers that the decoder returns: any `long` for an extensible range, and else those that
the bits have room for, as unsigned ones. -/
def integerTaken (ct : AsnPerConstraint) (value : Int) : Bool :=
  fitsLong value && (ct.extensible || value % 2 ^ 64 < 2 ^ ct.room)

theorem returns_perGetFewBits (n : Nat) : Returns (perGetFewBits n) (· < 2 ^ n) := by
  intro pd value pd' hpd
  obtain ⟨hlen, -, rfl, -⟩ := perGetFewBits_some hpd
  have hlt := toNat_lt ((BitSource.rest pd).take n)
  rwa [hlen] at hlt

theorem fitsLong_bmod (value : Int) : fitsLong (Int.bmod value (2 ^ 64)) = true := by
  have hle := Int.le_bmod (x := value) (m := 2 ^ 64) (by decide)
  have hlt := Int.bmod_lt (x := value) (m := 2 ^ 64) (by decide)
  simp only [fitsLong, Bool.and_eq_true, decide_eq_true_eq]
  omega

theorem foldl_lt {octets : List Nat} (h : ∀ o ∈ octets, o < 2 ^ 8) (acc : Nat) :
    octets.foldl (fun value buf => 256 * value + buf) acc < (acc + 1) * 256 ^ octets.length := by
  induction octets generalizing acc with
  | nil => simp
  | cons o rest ih =>
    rw [List.forall_mem_cons] at h
    rw [List.foldl_cons, List.length_cons, Nat.pow_succ']
    calc rest.foldl (fun value buf => 256 * value + buf) (256 * acc + o)
        < (256 * acc + o + 1) * 256 ^ rest.length := ih h.2 _
      _ ≤ ((acc + 1) * 256) * 256 ^ rest.length := Nat.mul_le_mul_right _ (by omega)
      _ = (acc + 1) * (256 * 256 ^ rest.length) := Nat.mul_assoc _ _ _

theorem longOfOctets_spec {octets : List Nat} (h : ∀ o ∈ octets, o < 2 ^ 8) {k : Nat}
    (hk : octets.length ≤ k) :
    fitsLong (longOfOctets octets) = true ∧ longOfOctets octets % 2 ^ 64 < 2 ^ (8 * k) := by
  refine ⟨fitsLong_bmod _, ?_⟩
  have hlt := foldl_lt h 0
  have hle : 256 ^ octets.length ≤ 2 ^ (8 * k) := by
    rw [Nat.pow_mul]
    exact Nat.pow_le_pow_right (by decide) hk
  unfold longOfOctets
  generalize octets.foldl (fun value buf => 256 * value + buf) 0 = n at hlt ⊢
  have hmod : Int.bmod (n : Int) (2 ^ 64) % 2 ^ 64 = (n % 2 ^ 64 : Nat) := by
    rw [show ((2 : Int) ^ 64) = ((2 ^ 64 : Nat) : Int) from rfl, Int.bmod_emod]
    exact (Int.natCast_emod _ _).symm
  rw [hmod]
  have hsmall : n % 2 ^ 64 ≤ n := Nat.mod_le _ _
  have : n % 2 ^ 64 < 2 ^ (8 * k) := by omega
  exact_mod_cast this

theorem returns_getRange {ct : AsnPerConstraint} (hbits : ct.rangeBits ≤ 63) :
    Returns (getRange ct) fun value => fitsLong value = true ∧ value % 2 ^ 64 < 2 ^ ct.room := by
  have hcast {n m : Nat} (hn : n ≤ 16) (hm : m < 2 ^ n) :
      fitsLong (m : Int) = true ∧ (m : Int) % 2 ^ 64 < 2 ^ n := by
    have hlt : m < 2 ^ 16 := hm.trans_le (Nat.pow_le_pow_right (by decide) hn)
    have hmod : (m : Int) % 2 ^ 64 = m := Int.emod_eq_of_lt (by omega) (by omega)
    refine ⟨?_, by rw [hmod]; exact_mod_cast hm⟩
    simp only [fitsLong, Bool.and_eq_true, decide_eq_true_eq]
    omega
  unfold getRange AsnPerConstraint.room
  refine Returns.ite (fun h8 => ?_) fun h8 => Returns.ite (fun h16 => ?_) fun h16 => ?_
  · rw [if_pos (by omega)]
    exact (returns_perGetFewBits _).map fun m hm => hcast (by omega) hm
  · have hroom : (if ct.rangeBits ≤ 8 then ct.rangeBits.toNat else if ct.rangeBits ≤ 16 then 16
        else 8 * 2 ^ smallBits ct.maxRangeBytes) = if ct.rangeBits = 8 then 8 else 16 := by
      split_ifs <;> omega
    rw [hroom]
    refine ((Returns.trivial _).bind fun _ _ => returns_perGetFewBits _).map fun m hm => ?_
    exact hcast (by split <;> decide) hm
  · rw [if_neg (by omega), if_neg (by omega)]
    refine (returns_perGetFewBits _).bind fun length hlength => (Returns.trivial _).bind fun _ _ =>
      Returns.ite (fun _ => Returns.failure) fun _ => ?_
    exact ((returns_perGetFewBits 8).repeatGet _).map fun octets h =>
      longOfOctets_spec h.2 (by omega)

/-- The decoder returns numbers that have room. -/
theorem returns_integerDecodeAper {ct : AsnPerConstraint} (hbits : ct.rangeBits ≤ 63)
    (hlow : ct.lowerBound = 0) :
    Returns (integerDecodeAper ct) fun value => integerTaken ct value = true := by
  have hext : Returns (getExtension ct.extensible) fun inext => inext = true →
      ct.extensible = true := by
    unfold getExtension
    exact Returns.ite (fun h => (Returns.trivial _).mono fun _ _ _ => h)
      fun _ => Returns.pure (by simp)
  refine hext.bind fun inext hinext => Returns.ite (fun h => ?_) fun _ =>
    Returns.ite (fun _ => ?_) fun _ => Returns.failure
  · refine (Returns.trivial _).bind fun octets _ => Returns.lift fun value hvalue => ?_
    unfold asnINTEGER2long at hvalue
    split at hvalue
    · cases hvalue
      unfold integerTaken
      rw [hinext h, ‹fitsLong _ = true›]
      rfl
    · cases hvalue
  · refine (returns_getRange hbits).map fun value hvalue => ?_
    rw [hlow, Int.add_zero, bmod_of_fitsLong hvalue.1]
    unfold integerTaken
    rw [hvalue.1, decide_eq_true hvalue.2]
    simp

/-- Numbers that have room are in some octets. -/
theorem exists_getRange {ct : AsnPerConstraint} (hpos : 0 ≤ ct.rangeBits)
    (hbits : ct.rangeBits ≤ 63) {value : Int} (hlong : fitsLong value = true)
    (hroom : value % 2 ^ 64 < 2 ^ ct.room) : ∃ bs, Gets (getRange ct) 0 bs value := by
  have hbounds := hlong
  simp only [fitsLong, Bool.and_eq_true, decide_eq_true_eq] at hbounds
  have hsmall (n : Nat) (hn : n ≤ 32) (hlt : value % 2 ^ 64 < 2 ^ n) :
      value.toNat < 2 ^ n ∧ (value.toNat : Int) = value := by
    have hpow : (2 : Int) ^ n ≤ 2 ^ 32 := pow_le_pow_right₀ (by decide) hn
    have hcast : ((2 ^ n : Nat) : Int) = 2 ^ n := by push_cast; rfl
    omega
  unfold AsnPerConstraint.room at hroom
  unfold getRange
  by_cases h8 : ct.rangeBits < 8
  · rw [if_pos (by omega)] at hroom
    obtain ⟨hlt, hvalue⟩ := hsmall _ (by omega) hroom
    have hget := (gets_number (by omega) hlt 0).map (Nat.cast (R := Int))
    rw [hvalue] at hget
    exact ⟨_, by simpa only [if_pos h8] using hget⟩
  by_cases h16 : ct.rangeBits ≤ 16
  · have hn : value % 2 ^ 64 < 2 ^ (if ct.rangeBits = 8 then 8 else 16) := by
      by_cases heq : ct.rangeBits = 8
      · rw [if_pos (by omega), heq] at hroom
        rwa [if_pos heq]
      · rw [if_neg (by omega), if_pos h16] at hroom
        rwa [if_neg heq]
    obtain ⟨hlt, hvalue⟩ := hsmall _ (by split <;> decide) hn
    have hget := (gets_aligned (by split <;> decide) hlt 0).map (Nat.cast (R := Int))
    rw [hvalue] at hget
    exact ⟨_, by simpa only [if_neg h8, if_pos h16] using hget⟩
  · rw [if_neg (by omega), if_neg h16] at hroom
    obtain ⟨hsize, -⟩ := smallBits_spec (by
      unfold AsnPerConstraint.maxRangeBytes
      omega : ct.maxRangeBytes ≤ 255)
    generalize smallBits ct.maxRangeBytes = k at hsize hroom ⊢
    have hpow : 2 ^ k - 1 + 1 = 2 ^ k := Nat.sub_add_cancel (Nat.two_pow_pos k)
    have hv : (value % 2 ^ 64).toNat < 256 ^ (2 ^ k - 1 + 1) := by
      rw [hpow, show (256 : Nat) = 2 ^ 8 from rfl, ← Nat.pow_mul]
      have hcast : ((2 ^ (8 * 2 ^ k) : Nat) : Int) = 2 ^ (8 * 2 ^ k) := by push_cast; rfl
      omega
    have hlist := RoundTrips.list (σ := AsnBitOutp) (f := fun (n : Nat) => perPutFewBits n 8)
      (m := perGetFewBits 8)
      fun n (hn : n ∈ (octetsOfNat (2 ^ k - 1 + 1) (value % 2 ^ 64).toNat).map UInt8.toNat) => by
        obtain ⟨octet, -, rfl⟩ := List.mem_map.mp hn
        exact roundTrips_few (by decide) octet.toNat_lt
    have hvalue : longOfOctets ((octetsOfNat (2 ^ k - 1 + 1) (value % 2 ^ 64).toNat).map
        UInt8.toNat) = value := by
      unfold longOfOctets
      rw [foldl_octets, Nat.zero_mul, Nat.zero_add, octetsValue_octetsOfNat hv,
        Int.toNat_of_nonneg (by omega)]
      exact (Int.emod_bmod value (2 ^ 64)).trans (bmod_of_fitsLong hlong)
    simp only [List.length_map, length_octetsOfNat] at hlist
    have hoctets := hlist.map longOfOctets
    rw [hvalue] at hoctets
    obtain ⟨bs, -, hgets⟩ := (roundTrips_few (by omega) (by omega : 2 ^ k - 1 < 2 ^ k)).bind
      (k := fun length => do
        let padding ← aperGetAlign
        if padding ≠ 0 then failure
        else longOfOctets <$> repeatGet (perGetFewBits 8) (length + 1))
      (roundTrips_align.bind (k := fun padding => if padding ≠ 0 then failure
        else longOfOctets <$> repeatGet (perGetFewBits 8) (2 ^ k - 1 + 1)) hoctets)
    exact ⟨_, by simpa only [if_neg h8, if_neg h16] using hgets 0⟩

/-- What the decoder of an INTEGER takes for a number of it. -/
theorem integerDecodeAper_iff {ct : AsnPerConstraint} (hpos : 0 ≤ ct.rangeBits)
    (hbits : ct.rangeBits ≤ 63) (hlow : ct.lowerBound = 0) (value : Int) :
    (∃ pd pd', integerDecodeAper ct pd = some (value, pd')) ↔ integerTaken ct value = true := by
  refine ⟨fun ⟨pd, pd', hpd⟩ => returns_integerDecodeAper hbits hlow pd value pd' hpd,
    fun h => ?_⟩
  unfold integerTaken at h
  obtain ⟨hlong, hroom⟩ := Bool.and_eq_true _ _ ▸ h
  suffices hgets : ∃ bs, Gets (integerDecodeAper ct) 0 bs value by
    obtain ⟨bs, hgets⟩ := hgets
    obtain ⟨pd, behind, hpd⟩ := AsnBitData.exists_at 0 bs
    obtain ⟨pd', hpd', -⟩ := hgets pd behind [] (by rwa [List.append_nil])
    exact ⟨pd, pd', hpd'⟩
  unfold integerDecodeAper
  cases hext : ct.extensible with
  | true =>
    obtain ⟨bs, -, hgets⟩ := (roundTrips_extension (fun h => h : true = true →
      true = true)).bind (k := fun inext => if inext then (do
          let octets ← openTypeOctets
          StateT.lift (asnINTEGER2long octets))
        else if 0 ≤ ct.rangeBits then
          (fun value => Int.bmod (value + ct.lowerBound) (2 ^ 64)) <$> getRange ct
        else failure) (roundTrips_extended hlong)
    exact ⟨_, hgets 0⟩
  | false =>
    rw [hext, Bool.false_or, decide_eq_true_eq] at hroom
    obtain ⟨bs, hgets⟩ := exists_getRange hpos hbits hlong hroom
    have hvalue := hgets.map fun value => Int.bmod (value + ct.lowerBound) (2 ^ 64)
    rw [hlow, Int.add_zero, bmod_of_fitsLong hlong] at hvalue
    refine ⟨[] ++ bs, (gets_extension (nofun : false = true → false = true) 0).bind ?_⟩
    simp only [Bool.false_eq_true, if_false, if_pos hpos, hlow]
    exact hvalue

/-- The encoder of an INTEGER keeps to its range; the decoder takes whatever the bits have room for,
so that there are numbers which come from octets and go into none. -/
theorem integer_values_iff {ct : AsnPerConstraint} (hpos : 0 ≤ ct.rangeBits)
    (hbits : ct.rangeBits ≤ 63) (hlow : ct.lowerBound = 0) (value : Int) :
    (RoundTrips (integerEncodeAper ct value) (integerDecodeAper ct) value ↔
        fitsLong value = true ∧
          (ct.extensible = true ∨ 0 ≤ value ∧ value ≤ ct.upperBound)) ∧
      ((∃ pd pd', integerDecodeAper ct pd = some (value, pd')) ↔
        fitsLong value = true ∧ (ct.extensible = true ∨ value % 2 ^ 64 < 2 ^ ct.room)) := by
  rw [roundTrips_integer_iff hpos hbits, integerDecodeAper_iff hpos hbits hlow]
  simp [integerFits, integerTaken, hlow]

/-- A number of twelve bits, for which the octets have room for sixteen. -/
def sampleConstraint : AsnPerConstraint := ⟨false, 12, 12, 0, 4095, by decide, by decide⟩

theorem integer_values_iff_twelve :
    (RoundTrips (integerEncodeAper sampleConstraint 65535) (integerDecodeAper sampleConstraint)
        65535 ↔
        fitsLong 65535 = true ∧ (sampleConstraint.extensible = true ∨
          0 ≤ (65535 : Int) ∧ (65535 : Int) ≤ sampleConstraint.upperBound)) ∧
      ((∃ pd pd', integerDecodeAper sampleConstraint pd = some (65535, pd')) ↔
        fitsLong 65535 = true ∧ (sampleConstraint.extensible = true ∨
          (65535 : Int) % 2 ^ 64 < 2 ^ sampleConstraint.room)) :=
  integer_values_iff (by decide) (by decide) rfl 65535

/-! ## Strings -/

theorem returns_getTriples : ∀ n, Returns (getTriples n) fun dst => dst.length = 3 * n
  | 0 => Returns.pure rfl
  | n + 1 => (Returns.trivial _).bind fun _ _ => (returns_getTriples n).bind fun dst hdst =>
    Returns.pure (by rw [List.length_append, length_octetsOfNat, hdst]; omega)

theorem returns_perGetManyBits (nbits : Nat) :
    Returns (perGetManyBits nbits) fun dst => dst.length = (nbits + 7) / 8 :=
  (returns_getTriples _).bind fun dst hdst => (Returns.trivial _).bind fun _ _ =>
    Returns.pure (by rw [List.length_append, length_octetsOfNat, hdst]; omega)

theorem returns_charString (n : Nat) :
    Returns (charString.get n) fun units => units.length = n :=
  (returns_perGetManyBits _).mono fun _ h => by omega

theorem returns_bitString (n : Nat) : Returns (bitString.get n) fun units => units.length = n :=
  (returns_perGetManyBits n).map fun _ h => by
    rw [List.length_take, length_ofOctets]
    omega

/-- The bits that a size between bounds is read from. -/
def AsnPerConstraint.sizeRoom (csiz : AsnPerConstraint) : Nat :=
  if csiz.upperBound - csiz.lowerBound < 255 then smallBits (csiz.upperBound - csiz.lowerBound + 1)
  else if csiz.upperBound - csiz.lowerBound = 255 then 8 else 16

/-- The sizes that the decoder returns of a string that is not extensible: those that the bits of
the length have room for. -/
def sizeTaken (csiz : AsnPerConstraint) (n : Nat) : Bool :=
  csiz.extensible || csiz.effectiveBits < 0 ||
    if csiz.effectiveBits = 0 then n = csiz.upperBound
    else csiz.lowerBound ≤ n && n - csiz.lowerBound < 2 ^ csiz.sizeRoom

theorem returns_aperGetNsnnwn {csiz : AsnPerConstraint}
    (hrange : csiz.upperBound - csiz.lowerBound < 65536) :
    Returns (aperGetNsnnwn (csiz.upperBound - csiz.lowerBound + 1)) (· < 2 ^ csiz.sizeRoom) := by
  have hle := csiz.lower_le
  have haligned (n : Nat) : Returns (do let _ ← aperGetAlign; perGetFewBits n) (· < 2 ^ n) :=
    (Returns.trivial _).bind fun _ _ => returns_perGetFewBits n
  unfold aperGetNsnnwn AsnPerConstraint.sizeRoom
  refine Returns.ite (fun h255 => Returns.ite (fun _ => Returns.failure) fun _ => ?_) fun h255 =>
    Returns.ite (fun h256 => ?_) fun h256 => Returns.ite (fun _ => ?_) fun _ => Returns.failure
  · rw [if_pos (by omega)]
    exact returns_perGetFewBits _
  · rw [if_neg (by omega), if_pos (by omega)]
    exact haligned 8
  · rw [if_neg (by omega), if_neg (by omega)]
    exact haligned 16

theorem returns_stringDecodeAper {α : Type} {kind : StringKind α} {csiz : AsnPerConstraint}
    (hget : ∀ n, Returns (kind.get n) fun units => units.length = n)
    (hsize : csiz.isSize = true) :
    Returns (stringDecodeAper kind csiz) fun units => sizeTaken csiz units.length = true := by
  simp only [AsnPerConstraint.isSize, Bool.or_eq_true, Bool.and_eq_true, decide_eq_true_eq] at hsize
  rcases hsize with rfl | ⟨⟨⟨heff, hlow⟩, hrange⟩, hzero⟩
  · exact (Returns.trivial _).mono fun _ _ => rfl
  cases hext : csiz.extensible with
  | true =>
    refine (Returns.trivial _).mono fun units _ => ?_
    unfold sizeTaken
    rw [hext]
    rfl
  | false =>
    have hle := csiz.lower_le
    have haligned (n : Nat) (c : Prop) [Decidable c] : Returns (do
        if c then let _ ← aperGetAlign
        kind.get n) fun units => units.length = n :=
      Returns.ite (fun _ => (Returns.trivial _).bind fun _ _ => hget n) fun _ => hget n
    have hroot : Returns (getExtension false) fun inext => inext = false := Returns.pure rfl
    unfold stringDecodeAper
    rw [hext]
    refine hroot.bind fun inext hinext => ?_
    rw [hinext]
    simp only [Bool.false_eq_true, if_false]
    unfold getString sizeTaken
    refine Returns.ite (fun h0 => ?_) fun h0 => ?_
    · refine (haligned _ _).mono fun units hunits => ?_
      rw [if_pos h0, hunits]
      simp only [Int.toNat_of_nonneg (by omega : 0 ≤ csiz.upperBound), decide_true, Bool.or_true]
    · have hne := mt hzero.mpr h0
      simp only [if_neg (by omega : ¬ csiz.upperBound - csiz.lowerBound = 0)]
      rw [aperGetLength_bounded heff (by omega) (by omega)]
      refine ((returns_aperGetNsnnwn hrange).map (Q := fun r => r.1 < 2 ^ csiz.sizeRoom)
        fun _ h => h).bind fun r hr => (haligned _ _).mono fun units hunits => ?_
      have hcast : ((2 ^ csiz.sizeRoom : Nat) : Int) = 2 ^ csiz.sizeRoom := by push_cast; rfl
      rw [if_neg h0, hunits]
      simp only [Bool.or_eq_true, Bool.and_eq_true, decide_eq_true_eq]
      omega

/-! ## Values of a type -/

theorem returns_enumeratedDecodeAper {ct : AsnPerConstraint} {specs : AsnIntegerSpecifics}
    (hroot : specs.rootCount ≤ specs.mapCount) :
    Returns (enumeratedDecodeAper ct specs) fun value => value < specs.mapCount := by
  unfold enumeratedDecodeAper
  have htail (inext : Bool) : Returns (if !inext && 0 ≤ ct.rangeBits then (do
        let value ← perGetFewBits ct.rangeBits.toNat
        if specs.rootCount ≤ value then failure else return value)
      else if specs.extension = 0 then failure
      else (do
        let value ← uperGetNsnnwn
        if specs.mapCount ≤ value + (specs.extension - 1) then failure
        else return value + (specs.extension - 1))) fun value => value < specs.mapCount :=
    Returns.ite (fun _ => (Returns.trivial _).bind fun value _ =>
        Returns.ite (fun _ => Returns.failure) fun h => Returns.pure (by omega))
      fun _ => Returns.ite (fun _ => Returns.failure) fun _ =>
        (Returns.trivial _).bind fun value _ =>
        Returns.ite (fun _ => Returns.failure) fun h => Returns.pure (by omega)
  exact (Returns.trivial _).bind fun inext _ => Returns.ite
    (fun _ => (Returns.trivial _).bind fun _ _ => htail inext) fun _ => htail inext

theorem returns_aperOpenTypeGet {α : Type} {decode : StateT AsnBitData Option α} {P : α → Prop}
    (h : Returns decode P) : Returns (aperOpenTypeGet decode) P := by
  refine (Returns.trivial _).bind fun buf _ => ?_
  intro pd value pd' hpd
  obtain ⟨value', hvalue, heq⟩ := Option.map_eq_some_iff.mp hpd
  obtain ⟨rfl, rfl⟩ := Prod.mk.inj heq
  obtain ⟨⟨value'', spd⟩, hspd, hrest⟩ := Option.bind_eq_some_iff.mp hvalue
  have hsame : value'' = value' := by
    dsimp only at hrest
    split_ifs at hrest
    · exact Option.some.inj hrest
    · exact Option.some.inj hrest
  rw [← hsame]
  exact h _ _ _ hspd

theorem returns_getFragments {α : Type} {get : Nat → StateT AsnBitData Option (List α)}
    {P : α → Prop} (hget : ∀ n, Returns (get n) fun units => ∀ u ∈ units, P u) :
    ∀ fuel, Returns (getFragments get fuel) fun units => ∀ u ∈ units, P u
  | 0 => Returns.failure
  | fuel + 1 => (Returns.trivial _).bind fun r _ => (hget r.1).bind fun _ hunits =>
    Returns.ite (fun _ => (returns_getFragments hget fuel).map fun _ hrest u hu =>
      (List.mem_append.mp hu).elim (hunits u) (hrest u)) fun _ => Returns.pure hunits

namespace Per

mutual

/-- The value is one that octets can say. -/
def Typ.has : Typ → Value → Bool
  | .integer ct, .integer n => integerTaken ct n
  | .enumerated _ specs _, .enumerated value => value < specs.mapCount
  | .octetString csiz, .octets buf => sizeTaken csiz buf.length
  | .bitString csiz, .bits bits => sizeTaken csiz bits.length
  | .printableString csiz, .octets buf => sizeTaken csiz buf.length
  | .sequence _ fields, .sequence members => fields.hasMembers members
  | .choice _ _ alternatives, .choice present value => alternatives.hasAlternative present value
  | .sequenceOf _ _ element, .sequenceOf elements => elements.all fun value => element.has value
  | .object _ id rows alternatives, .object key crit present value =>
    integerTaken id key && crit < 3 && rows.lookup key = some present &&
      alternatives.hasAlternative present value
  | _, _ => false

def Fields.hasMembers : Fields → List (Option Value) → Bool
  | .nil, [] => true
  | .cons _ _ type rest, some value :: members => type.has value && rest.hasMembers members
  | .cons _ optional _ rest, none :: members => optional && rest.hasMembers members
  | _, _ => false

def Fields.hasAlternative : Fields → Nat → Value → Bool
  | .nil, _, _ => false
  | .cons _ _ type _, 0, value => type.has value
  | .cons _ _ _ rest, present + 1, value => rest.hasAlternative present value

end

theorem returns_choiceDecodeAper {ct : AsnPerConstraint} {extStart : Option Nat} {count : Nat}
    {get : Nat → StateT AsnBitData Option Value} {P : Nat → Value → Prop}
    (hget : ∀ present, Returns (get present) (P present)) :
    Returns (choiceDecodeAper ct extStart count get) fun v =>
      ∃ present value, v = .choice present value ∧ P present value := by
  refine (Returns.trivial _).bind fun _ _ => Returns.ite (fun _ => ?_) fun _ =>
    (Returns.trivial _).bind fun present _ => Returns.ite (fun _ => Returns.failure) fun _ =>
      (hget present).map fun value hvalue => ⟨present, value, rfl, hvalue⟩
  cases extStart with
  | none => exact Returns.failure
  | some start =>
    exact (Returns.trivial _).bind fun _ _ => Returns.ite (fun _ => Returns.failure) fun _ =>
      (returns_aperOpenTypeGet (hget _)).map fun value hvalue => ⟨_, value, rfl, hvalue⟩

theorem returns_sequenceOfDecodeAper {α : Type} {ct : AsnPerConstraint}
    {get : Nat → StateT AsnBitData Option (List α)} {P : α → Prop}
    (hget : ∀ n, Returns (get n) fun units => ∀ u ∈ units, P u) :
    Returns (sequenceOfDecodeAper ct get) fun units => ∀ u ∈ units, P u :=
  (Returns.trivial _).bind fun _ _ => Returns.ite
    (fun _ => (Returns.trivial _).bind fun _ _ => hget _)
    fun _ pd units pd' hpd => returns_getFragments hget _ pd units pd' hpd

mutual

/-- What a decoder returns is a value of its type. -/
theorem Typ.returns_has : ∀ T : Typ, T.wellFormed = true →
    Returns T.aperDecoder fun v => T.has v = true
  | .integer ct, hwf => by
    simp only [Typ.wellFormed, Bool.and_eq_true, decide_eq_true_eq] at hwf
    exact (returns_integerDecodeAper hwf.1.2 hwf.2).map fun _ h => h
  | .enumerated ct specs _, hwf => by
    simp only [Typ.wellFormed, Bool.and_eq_true, decide_eq_true_eq] at hwf
    exact (returns_enumeratedDecodeAper hwf.1.2).map fun _ h => decide_eq_true h
  | .octetString csiz, hwf => (returns_stringDecodeAper returns_charString hwf).map fun _ h => h
  | .bitString csiz, hwf => (returns_stringDecodeAper returns_bitString hwf).map fun _ h => h
  | .printableString csiz, hwf =>
    (returns_stringDecodeAper returns_charString hwf).map fun _ h => h
  | .sequence extensible fields, hwf =>
    (Returns.trivial _).bind fun extpresent _ => (Returns.trivial _).bind fun opmd _ =>
      (Fields.returns_hasMembers fields hwf opmd).bind fun members hmembers =>
        Returns.ite (fun _ => (Returns.trivial _).bind fun _ _ => Returns.pure hmembers)
          fun _ => Returns.pure hmembers
  | .choice ct extStart alternatives, hwf =>
    (returns_choiceDecodeAper
      (Fields.returns_hasAlternative alternatives (Bool.and_eq_true _ _ ▸ hwf).2)).mono
      fun v ⟨present, value, hv, hvalue⟩ => hv ▸ hvalue
  | .sequenceOf ct _ element, hwf =>
    (returns_sequenceOfDecodeAper fun n =>
      ((Typ.returns_has element (Bool.and_eq_true _ _ ▸ hwf).2).repeatGet n).mono
        fun _ h => h.2).map fun elements h => List.all_eq_true.mpr h
  | .object _ id rows alternatives, hwf => by
    simp only [Typ.wellFormed, Bool.and_eq_true, decide_eq_true_eq] at hwf
    refine (returns_integerDecodeAper hwf.1.1.2 hwf.1.2).bind fun key hkey =>
      (returns_enumeratedDecodeAper (by decide)).bind fun crit hcrit => ?_
    cases hrow : rows.lookup key with
    | none => exact Returns.failure
    | some present =>
      refine (returns_aperOpenTypeGet
        (Fields.returns_hasAlternative alternatives hwf.2 present)).map fun value hvalue => ?_
      have hlt : crit < 3 := hcrit
      simp only [Typ.has, hkey, hrow, hvalue, hlt, decide_true, Bool.and_self]

theorem Fields.returns_hasMembers : ∀ fields : Fields, fields.wellFormed = true → ∀ opmd,
    Returns (fields.decodeMembers opmd) fun members => fields.hasMembers members = true
  | .nil, _, _ => Returns.pure rfl
  | .cons _ true _ rest, hwf, false :: opmd =>
    (Fields.returns_hasMembers rest (Bool.and_eq_true _ _ ▸ hwf).2 opmd).map fun _ h => h
  | .cons _ true type rest, hwf, [] =>
    (Typ.returns_has type (Bool.and_eq_true _ _ ▸ hwf).1).bind fun _ hvalue =>
      (Fields.returns_hasMembers rest (Bool.and_eq_true _ _ ▸ hwf).2 _).map fun _ h =>
        Bool.and_eq_true _ _ ▸ ⟨hvalue, h⟩
  | .cons _ true type rest, hwf, true :: _ =>
    (Typ.returns_has type (Bool.and_eq_true _ _ ▸ hwf).1).bind fun _ hvalue =>
      (Fields.returns_hasMembers rest (Bool.and_eq_true _ _ ▸ hwf).2 _).map fun _ h =>
        Bool.and_eq_true _ _ ▸ ⟨hvalue, h⟩
  | .cons _ false type rest, hwf, _ =>
    (Typ.returns_has type (Bool.and_eq_true _ _ ▸ hwf).1).bind fun _ hvalue =>
      (Fields.returns_hasMembers rest (Bool.and_eq_true _ _ ▸ hwf).2 _).map fun _ h =>
        Bool.and_eq_true _ _ ▸ ⟨hvalue, h⟩

theorem Fields.returns_hasAlternative : ∀ fields : Fields, fields.wellFormed = true →
    ∀ present, Returns (fields.decodeAlternative present) fun v =>
      fields.hasAlternative present v = true
  | .nil, _, _ => Returns.failure
  | .cons _ _ type _, hwf, 0 => Typ.returns_has type (Bool.and_eq_true _ _ ▸ hwf).1
  | .cons _ _ _ rest, hwf, present + 1 =>
    Fields.returns_hasAlternative rest (Bool.and_eq_true _ _ ▸ hwf).2 present

end

end Per

end E2Term
