import E2Term.PerPrimitives

/-!
# Strings

The aligned encoder and decoder of `OCTET_STRING.c`, for octet, bit and character strings, and
which strings come back. The two sides differ in when they align, and the decoder reads one fragment
of a long string and looks at no alphabet.
-/

namespace E2Term

open Bits Digits BitCodec

/-- The size constraint of `asn_DEF_OCTET_STRING_constraints`. -/
def AsnPerConstraint.noSize : AsnPerConstraint := ⟨false, -1, -1, 0, 0, by decide, by decide⟩

/-- What tells the subvariants apart: how many octets a string of `n` units has (`st->size`), and
how units are put and got. What is put of a string are its bits, `unitBits` for each unit. -/
structure StringKind (α : Type) where
  octets : Nat → Nat
  put : List α → AsnBitOutp → Option AsnBitOutp
  get : Nat → StateT AsnBitData Option (List α)
  unitBits : Nat
  bitsOf : List α → List Bool
  length_bitsOf : ∀ units, (bitsOf units).length = unitBits * units.length
  puts : ∀ units, Puts (put units) fun _ => bitsOf units
  gets : ∀ units off, Gets (get units.length) off (bitsOf units) units
  surjective : ∀ (n : Nat) (bs : List Bool), bs.length = unitBits * n →
    ∃ units, units.length = n ∧ bitsOf units = bs

/-- `ASN_OSUBV_ANY` and `ASN_OSUBV_STR`: no character of a type with up to 256 is translated. -/
def charString : StringKind UInt8 where
  octets n := n
  put units := perPutManyBits units (8 * units.length)
  get n := perGetManyBits (8 * n)
  unitBits := 8
  bitsOf := ofOctets
  length_bitsOf := length_ofOctets
  puts := puts_octets
  gets := gets_octets
  surjective n bs h := by
    refine ⟨toOctets bs, ?_, ?_⟩
    · rw [length_toOctets, h]
      omega
    · have hnone : padding bs.length = 0 := by
        unfold padding
        omega
      rw [ofOctets_toOctets, hnone, List.replicate_zero, List.append_nil]

/-- `ASN_OSUBV_BIT`. -/
def bitString : StringKind Bool where
  octets n := (n + 7) / 8
  put units := perPutManyBits (toOctets units) units.length
  get n := (fun octets => (ofOctets octets).take n) <$> perGetManyBits n
  unitBits := 1
  bitsOf units := units
  length_bitsOf units := (Nat.one_mul _).symm
  puts units := by
    have hputs := puts_perPutManyBits (by
      rw [length_toOctets]
      omega : units.length ≤ 8 * (toOctets units).length)
    rwa [take_ofOctets_toOctets] at hputs
  gets units off := by
    have hget := (gets_perGetManyBits units off).map fun octets =>
      (ofOctets octets).take units.length
    rwa [take_ofOctets_toOctets] at hget
  surjective n bs h := ⟨bs, h.trans (Nat.one_mul n), rfl⟩

variable {α : Type}

/-- The branch of `OCTET_STRING_encode_aper` for a size within bounds. -/
def putSized (kind : StringKind α) (csiz : AsnPerConstraint) (units : List α) (po : AsnBitOutp) :
    Option AsnBitOutp := do
  let po ← if csiz.effectiveBits > 0 then
      (·.1) <$> (aperPutLength (csiz.upperBound - csiz.lowerBound + 1)
        (units.length - csiz.lowerBound.toNat) po).filter (·.2 = 0)
    else some po
  let po ← if kind.octets units.length > 2 ∨ csiz.lowerBound ≠ csiz.upperBound then
      aperPutAlign po
    else some po
  kind.put units po

/-- `OCTET_STRING_encode_aper`. -/
def stringEncodeAper (kind : StringKind α) (csiz : AsnPerConstraint) (units : List α)
    (po : AsnBitOutp) : Option AsnBitOutp :=
  let inext := 0 ≤ csiz.effectiveBits &&
    ((units.length : Int) < csiz.lowerBound || csiz.upperBound < units.length)
  putExtension csiz.extensible inext po >>=
    if !inext && 0 ≤ csiz.effectiveBits then putSized kind csiz units else putUnits kind.put units

/-- The part of `OCTET_STRING_decode_aper` behind the extension bit. Only one fragment is read. -/
def getString (kind : StringKind α) (csiz : AsnPerConstraint) :
    StateT AsnBitData Option (List α) := do
  if csiz.effectiveBits = 0 then
    if kind.octets csiz.upperBound.toNat > 2 then let _ ← aperGetAlign
    kind.get csiz.upperBound.toNat
  else
    let range := csiz.upperBound - csiz.lowerBound
    let (length, _) ← aperGetLength (if range = 0 then -1 else range + 1) csiz.effectiveBits
    let rawLen := length + csiz.lowerBound.toNat
    if rawLen > 2 then let _ ← aperGetAlign
    kind.get rawLen

/-- `OCTET_STRING_decode_aper`. -/
def stringDecodeAper (kind : StringKind α) (csiz : AsnPerConstraint) :
    StateT AsnBitData Option (List α) := do
  let inext ← getExtension csiz.extensible
  getString kind (if inext then .noSize else csiz)

/-! ## What comes back -/

section Strings

variable {kind : StringKind α} {csiz : AsnPerConstraint} {units : List α}

theorem roundTrips_units (kind : StringKind α) (units : List α) :
    RoundTrips (kind.put units) (kind.get units.length) units :=
  ⟨_, kind.puts units, kind.gets units⟩

/-- A size that the codec knows: none, or one between bounds that a length of 16 bits tells. -/
def AsnPerConstraint.isSize (csiz : AsnPerConstraint) : Bool :=
  csiz = .noSize || 0 ≤ csiz.effectiveBits && 0 ≤ csiz.lowerBound &&
    csiz.upperBound - csiz.lowerBound < 65536 &&
    (csiz.effectiveBits = 0 ↔ csiz.lowerBound = csiz.upperBound)

/-- The sizes that come back. Within bounds the writer aligns a string of any size and the reader
only one of more than two units, which does no harm behind a length of whole octets; otherwise
there is one fragment at most. -/
def sizeFits (csiz : AsnPerConstraint) (n : Nat) : Bool :=
  if csiz.effectiveBits < 0 then maySave n = n
  else if csiz.lowerBound ≤ n ∧ n ≤ csiz.upperBound then
    csiz.effectiveBits = 0 || 2 < n || 255 ≤ csiz.upperBound - csiz.lowerBound
  else csiz.extensible && maySave n = n

theorem getString_noSize : getString kind .noSize =
    (do
      let (length, _) ← aperGetLength (-1) (-1)
      if length > 2 then let _ ← aperGetAlign
      kind.get length) := rfl

/-- Behind a length the reader is at an octet. -/
theorem padding_lengthBits (length off : Nat) :
    padding (off + (lengthBits length off).length) = 0 := by
  have hpad := add_padding off
  have hbits : (lengthDeterminant length).2 % 8 = 0 := by
    unfold lengthDeterminant
    split_ifs <;> simp
  rw [lengthBits, List.length_append, List.length_replicate, length_ofNat]
  unfold padding at *
  omega

theorem gets_string_fragment {n : Nat} {chunk : List α} (h : chunk.length = maySave n)
    (off : Nat) :
    Gets (getString kind .noSize) off (lengthBits n off ++ kind.bitsOf chunk) chunk := by
  rw [getString_noSize]
  refine (gets_length n off).bind (k := fun r => do
    if r.1 > 2 then let _ ← aperGetAlign
    kind.get r.1) ?_
  have hunits := kind.gets chunk (off + (lengthBits n off).length)
  rw [h] at hunits
  by_cases h2 : maySave n > 2
  · have halign := gets_zeros (off + (lengthBits n off).length)
    rw [padding_lengthBits, List.replicate_zero] at halign
    simp only [if_pos h2]
    exact halign.bind (k := fun _ => kind.get (maySave n)) hunits
  · simp only [if_neg h2]
    exact hunits

theorem puts_string (kind : StringKind α) (units : List α) :
    ∃ ds : Nat → List Bool, (maySave units.length = units.length → ds = fun _ => []) ∧
      Puts (putUnits kind.put units) fun off =>
        lengthBits units.length off ++ kind.bitsOf (units.take (maySave units.length)) ++
          ds (off + (lengthBits units.length off ++
            kind.bitsOf (units.take (maySave units.length))).length) := by
  by_cases hnil : units = []
  · subst hnil
    refine ⟨fun _ => [], fun _ => rfl, ?_⟩
    have hput : putUnits kind.put [] = fun po => (·.1) <$> aperPutLength (-1) 0 po := rfl
    have hnone : kind.bitsOf ([] : List α) = [] :=
      List.length_eq_zero_iff.mp (by rw [kind.length_bitsOf, List.length_nil, Nat.mul_zero])
    simp only [List.take_nil, hnone, List.append_nil, hput]
    exact puts_length 0
  · have hpos := maySave_pos hnil
    have hle := maySave_le units.length
    have hput : putUnits kind.put units = putFragments kind.put (units.length + 1) units :=
      funext fun po => if_neg (by simpa using hnil)
    have hrest : ∃ ds, (maySave units.length = units.length → ds = fun _ => []) ∧
        Puts (putFragments kind.put units.length (units.drop (maySave units.length))) ds := by
      by_cases hall : maySave units.length = units.length
      · refine ⟨fun _ => [], fun _ => rfl, ?_⟩
        obtain ⟨fuel, hfuel⟩ := Nat.exists_eq_add_one_of_ne_zero (by omega : units.length ≠ 0)
        rw [hall, List.drop_length, hfuel]
        exact Puts.nothing
      · have hlen : (units.drop (maySave units.length)).length < units.length := by
          rw [List.length_drop]
          omega
        by_cases hdvd : 16384 ∣ (units.drop (maySave units.length)).length
        · obtain ⟨ds, hds, -⟩ := @fragments_run_none _ _ kind.get _
            (fun chunk _ => roundTrips_units kind chunk) _ hlen hdvd
          exact ⟨ds, fun h => absurd h hall, hds⟩
        · obtain ⟨ds, hds, -⟩ := @fragments_run _ _ kind.get _
            (fun chunk _ => roundTrips_units kind chunk) _ hlen hdvd
          exact ⟨ds, fun h => absurd h hall, hds⟩
    obtain ⟨ds, hds, hputs⟩ := hrest
    rw [hput, funext (putFragments_round units.length hnil)]
    exact ⟨ds, hds, ((puts_length _).bind (kind.puts _)).bind hputs⟩

/-- The bits of a string without bounds. -/
def unboundedBits (kind : StringKind α) (units : List α) (ds : Nat → List Bool) (off : Nat) :
    List Bool :=
  lengthBits units.length off ++ kind.bitsOf (units.take (maySave units.length)) ++
    ds (off + (lengthBits units.length off ++
      kind.bitsOf (units.take (maySave units.length))).length)

theorem getString_ne (h : maySave units.length ≠ units.length) {pd : AsnBitData}
    {off behind : Nat} {ds : Nat → List Bool}
    (hpd : At pd off behind (unboundedBits kind units ds off)) (pd' : AsnBitData) :
    getString kind .noSize pd ≠ some (units, pd') := by
  have hchunk : (units.take (maySave units.length)).length = maySave units.length := by
    rw [List.length_take, Nat.min_eq_left (maySave_le _)]
  obtain ⟨pd₁, hpd₁, -⟩ := gets_string_fragment hchunk off pd behind _ hpd
  rw [hpd₁]
  intro heq
  have hsame : units.take (maySave units.length) = units :=
    congrArg Prod.fst (Option.some.inj heq)
  exact absurd (hsame ▸ hchunk).symm h

/-- A string without bounds comes back if it goes into one fragment. -/
theorem roundTrips_unbounded (h : maySave units.length = units.length) :
    RoundTrips (putUnits kind.put units) (getString kind .noSize) units := by
  obtain ⟨ds, hds, hputs⟩ := puts_string kind units
  refine ⟨_, hputs, fun off => ?_⟩
  have hget : Gets (getString kind .noSize) off _ units :=
    gets_string_fragment (h.symm : units.length = maySave units.length) off
  rwa [hds h, List.append_nil, h, List.take_length]

theorem roundTrips_unbounded_iff {extensible inext : Bool} {k : Bool → StateT AsnBitData Option _}
    (h : inext = true → extensible = true) (hk : k inext = getString kind .noSize) :
    RoundTrips (fun po => putExtension extensible inext po >>= putUnits kind.put units)
      (getExtension extensible >>= k) units ↔ maySave units.length = units.length := by
  refine ⟨fun hround => ?_, fun hall =>
    (roundTrips_extension h).bind (hk ▸ roundTrips_unbounded hall)⟩
  by_contra hne
  obtain ⟨ds, -, hputs⟩ := puts_string kind units
  obtain ⟨pd, behind, hpd⟩ := AsnBitData.exists_at 0 (extensionBits extensible inext ++
    unboundedBits kind units ds (0 + (extensionBits extensible inext).length))
  exact not_roundTrips_bind (puts_extension h) (gets_extension h) hputs AsnBitOutp.empty hpd
    (fun pd₁ hpd₁ pd' hread => absurd (hk ▸ hread) (getString_ne hne hpd₁ pd')) hround

/-- A string of the one size that there is comes back. -/
theorem roundTrips_fixed (heff : csiz.effectiveBits = 0)
    (hlen : (units.length : Int) = csiz.upperBound) (hone : csiz.lowerBound = csiz.upperBound) :
    RoundTrips (putSized kind csiz units) (getString kind csiz) units := by
  have hn : csiz.upperBound.toNat = units.length := by omega
  have hunits := roundTrips_units kind units
  have hput : putSized kind csiz units = fun po =>
      (if kind.octets units.length > 2 then aperPutAlign po else some po) >>= kind.put units := by
    funext po
    unfold putSized
    simp only [heff, hone, gt_iff_lt, lt_irrefl, if_false, ne_eq, not_true_eq_false, or_false]
    split <;> rfl
  rw [hput]
  unfold getString
  rw [if_pos heff, hn]
  by_cases h2 : kind.octets units.length > 2
  · simp only [if_pos h2]
    exact roundTrips_align.bind (k := fun _ => kind.get units.length) hunits
  · simp only [if_neg h2]
    exact hunits

/-! A size between two bounds. -/

section Bounded

variable (heff : 0 < csiz.effectiveBits) (hrange : csiz.upperBound - csiz.lowerBound < 65536)
  (hne : csiz.lowerBound ≠ csiz.upperBound)
include heff hrange hne

theorem putSized_bounded (units : List α) : putSized kind csiz units = fun po =>
    (aperPutNsnnwn (csiz.upperBound - csiz.lowerBound + 1)
      (units.length - csiz.lowerBound.toNat) po >>= aperPutAlign) >>= kind.put units := by
  have hle := csiz.lower_le
  funext po
  unfold putSized
  rw [if_pos heff, aperPutLength_bounded (by omega) (by omega)]
  simp only [if_pos (Or.inr hne : kind.octets units.length > 2 ∨ _)]
  cases aperPutNsnnwn _ _ po with
  | none => rfl
  | some po => rfl

theorem getString_bounded : getString kind csiz =
    (do
      let length ← aperGetNsnnwn (csiz.upperBound - csiz.lowerBound + 1)
      if length + csiz.lowerBound.toNat > 2 then let _ ← aperGetAlign
      kind.get (length + csiz.lowerBound.toNat)) := by
  have hle := csiz.lower_le
  unfold getString
  rw [if_neg (by omega)]
  simp only [if_neg (by omega : ¬ csiz.upperBound - csiz.lowerBound = 0)]
  rw [aperGetLength_bounded (by omega) (by omega) (by omega)]
  simp

theorem roundTrips_bounded (hlow : 0 ≤ csiz.lowerBound)
    (hin : csiz.lowerBound ≤ units.length ∧ units.length ≤ csiz.upperBound)
    (h : 2 < units.length ∨ 255 ≤ csiz.upperBound - csiz.lowerBound) :
    RoundTrips (putSized kind csiz units) (getString kind csiz) units := by
  have hback : units.length - csiz.lowerBound.toNat + csiz.lowerBound.toNat = units.length := by
    omega
  have hnumber : ((units.length - csiz.lowerBound.toNat : Nat) : Int) <
      csiz.upperBound - csiz.lowerBound + 1 := by omega
  rw [putSized_bounded heff hrange hne, getString_bounded heff hrange hne]
  by_cases h2 : 2 < units.length
  · have halign := roundTrips_align.bind (k := fun _ => kind.get units.length)
      (roundTrips_units kind units)
    have hround := (roundTrips_nsnnwn (by omega) hnumber).bind (k := fun length => do
      if length + csiz.lowerBound.toNat > 2 then let _ ← aperGetAlign
      kind.get (length + csiz.lowerBound.toNat)) (by
        rw [hback]
        simp only [if_pos h2]
        exact halign)
    simpa only [bind_assoc] using hround
  · exact (roundTrips_nsnnwn_octets (by omega) (by omega) hnumber).bind (k := fun length => do
      if length + csiz.lowerBound.toNat > 2 then let _ ← aperGetAlign
      kind.get (length + csiz.lowerBound.toNat)) (by
        rw [hback]
        simp only [if_neg h2]
        exact roundTrips_units kind units)

/-- Up to two units behind a short length are put behind padding that the reader takes for
them. -/
theorem getString_bounded_rest {off behind number : Nat} {pd pd' : AsnBitData}
    (hsmall : csiz.upperBound - csiz.lowerBound < 255) (h2 : units.length ≤ 2)
    (hnumber : number + csiz.lowerBound.toNat = units.length)
    (hlt : number < 2 ^ smallBits (csiz.upperBound - csiz.lowerBound + 1))
    (hoff : padding (off + smallBits (csiz.upperBound - csiz.lowerBound + 1)) ≠ 0)
    (hpd : At pd off behind (ofNat (smallBits (csiz.upperBound - csiz.lowerBound + 1)) number ++
      (List.replicate (padding (off + smallBits (csiz.upperBound - csiz.lowerBound + 1))) false ++
        kind.bitsOf units)))
    (hread : getString kind csiz pd = some (units, pd')) : BitSource.rest pd' ≠ [] := by
  have hle := csiz.lower_le
  obtain ⟨hbits, -⟩ := smallBits_spec
    (by omega : csiz.upperBound - csiz.lowerBound + 1 ≤ 255)
  have hfew : aperGetNsnnwn (csiz.upperBound - csiz.lowerBound + 1) =
      perGetFewBits (smallBits (csiz.upperBound - csiz.lowerBound + 1)) := by
    unfold aperGetNsnnwn
    rw [if_pos (by omega), if_neg (by omega)]
  rw [getString_bounded heff hrange hne, hfew] at hread
  generalize hbs : List.replicate _ false ++ kind.bitsOf units = bs at hpd
  have hlen : bs.length = padding (off + smallBits (csiz.upperBound - csiz.lowerBound + 1)) +
      kind.unitBits * units.length := by
    rw [← hbs, List.length_append, List.length_replicate, kind.length_bitsOf]
  obtain ⟨taken, htaken, hfirst⟩ := kind.surjective units.length
    (bs.take (kind.unitBits * units.length)) (by rw [List.length_take]; omega)
  have hget := kind.gets taken (off + (ofNat (smallBits
    (csiz.upperBound - csiz.lowerBound + 1)) number).length)
  rw [htaken, hfirst] at hget
  have hall := (gets_number (by omega) hlt off).bind (k := fun length => do
    if length + csiz.lowerBound.toNat > 2 then let _ ← aperGetAlign
    kind.get (length + csiz.lowerBound.toNat)) (by
      rw [hnumber]
      simp only [if_neg (by omega : ¬ units.length > 2)]
      exact hget)
  rw [← List.take_append_drop (kind.unitBits * units.length) bs, ← List.append_assoc] at hpd
  obtain ⟨pd₁, hpd₁, hat⟩ := hall pd behind _ hpd
  have hsame : pd₁ = pd' := congrArg Prod.snd (Option.some.inj (hpd₁.symm.trans hread))
  have hleft := congrArg List.length hat.rest_eq
  rw [List.length_drop, hsame] at hleft
  intro hnil
  rw [hnil, List.length_nil] at hleft
  omega

theorem puts_sized_small (hsmall : csiz.upperBound - csiz.lowerBound < 255) (units : List α) :
    Puts (putSized kind csiz units) fun off =>
      ofNat (smallBits (csiz.upperBound - csiz.lowerBound + 1))
          (units.length - csiz.lowerBound.toNat) ++
        (List.replicate (padding (off + smallBits (csiz.upperBound - csiz.lowerBound + 1))) false ++
          kind.bitsOf units) := by
  obtain ⟨hbits, -⟩ := smallBits_spec
    (by omega : csiz.upperBound - csiz.lowerBound + 1 ≤ 255)
  have hfew (number : Nat) : aperPutNsnnwn (csiz.upperBound - csiz.lowerBound + 1) number =
      perPutFewBits number (smallBits (csiz.upperBound - csiz.lowerBound + 1)) := by
    funext po
    exact if_pos (by omega)
  have hputs := ((puts_perPutFewBits (units.length - csiz.lowerBound.toNat)
    (by omega : smallBits (csiz.upperBound - csiz.lowerBound + 1) ≤ 31)).bind
      puts_aperPutAlign).bind (kind.puts units)
  rw [putSized_bounded heff hrange hne, hfew]
  simpa only [length_ofNat, List.append_assoc] using hputs

end Bounded

/-- What a string comes back from, exactly. -/
theorem roundTrips_string_iff (hsize : csiz.isSize = true) :
    RoundTrips (stringEncodeAper kind csiz units) (stringDecodeAper kind csiz) units ↔
      sizeFits csiz units.length = true := by
  simp only [AsnPerConstraint.isSize, Bool.or_eq_true, Bool.and_eq_true, decide_eq_true_eq] at hsize
  unfold stringEncodeAper stringDecodeAper sizeFits
  rcases hsize with rfl | ⟨⟨⟨heff, hlow⟩, hrange⟩, hzero⟩
  · rw [if_pos (by decide : AsnPerConstraint.noSize.effectiveBits < 0), decide_eq_true_eq]
    exact roundTrips_unbounded_iff (nofun : false = true → false = true) rfl
  rw [if_neg (by omega)]
  simp only [decide_eq_true heff, Bool.true_and, Bool.and_true]
  by_cases hin : csiz.lowerBound ≤ units.length ∧ (units.length : Int) ≤ csiz.upperBound
  · have hinext : ((units.length : Int) < csiz.lowerBound || csiz.upperBound < units.length) =
        false := by
      simp only [Bool.or_eq_false_iff, decide_eq_false_iff_not]
      omega
    have hext := roundTrips_extension_root csiz.extensible
    rw [if_pos hin]
    simp only [hinext, Bool.not_false, if_true, Bool.or_eq_true, decide_eq_true_eq]
    by_cases h0 : csiz.effectiveBits = 0
    · have hone := hzero.mp h0
      exact ⟨fun _ => Or.inl (Or.inl h0),
        fun _ => hext.bind (roundTrips_fixed h0 (by omega) hone)⟩
    · have hne := mt hzero.mpr h0
      by_cases hmany : 2 < units.length ∨ 255 ≤ csiz.upperBound - csiz.lowerBound
      · exact ⟨fun _ => by tauto,
          fun _ => hext.bind (roundTrips_bounded (by omega) hrange hne hlow hin hmany)⟩
      · refine ⟨fun hround => absurd hround ?_, fun h => by tauto⟩
        have hsmall : csiz.upperBound - csiz.lowerBound < 255 := by omega
        obtain ⟨-, hroom⟩ := smallBits_spec
          (by omega : csiz.upperBound - csiz.lowerBound + 1 ≤ 255)
        have hlt : units.length - csiz.lowerBound.toNat <
            2 ^ smallBits (csiz.upperBound - csiz.lowerBound + 1) := by
          have hlt : ((units.length - csiz.lowerBound.toNat : Nat) : Int) <
              2 ^ smallBits (csiz.upperBound - csiz.lowerBound + 1) := by omega
          exact_mod_cast hlt
        -- one of two neighbouring places leaves the length inside an octet
        obtain ⟨off, hoff⟩ : ∃ off, padding (off + (extensionBits csiz.extensible false).length +
            smallBits (csiz.upperBound - csiz.lowerBound + 1)) ≠ 0 := by
          by_contra hall
          push Not at hall
          have hzero := hall 0
          have hone := hall 1
          unfold padding at hzero hone
          omega
        obtain ⟨po, hpo⟩ := AsnBitOutp.exists_bits off
        obtain ⟨pd, behind, hpd⟩ := AsnBitData.exists_at off
          (extensionBits csiz.extensible false ++ _)
        rw [← hpo] at hpd
        refine not_roundTrips_bind (puts_extension (by simp)) (gets_extension (by simp))
          (puts_sized_small (by omega) hrange hne hsmall units) po hpd fun pd₁ hpd₁ pd' hread => ?_
        rw [hpo] at hpd₁
        exact getString_bounded_rest (by omega) hrange hne hsmall (by omega) (by omega) hlt hoff
          hpd₁ hread
  · have hinext : ((units.length : Int) < csiz.lowerBound || csiz.upperBound < units.length) =
        true := by
      simp only [Bool.or_eq_true, decide_eq_true_eq]
      omega
    rw [if_neg hin]
    simp only [hinext, Bool.not_true, Bool.false_eq_true, if_false, Bool.and_eq_true,
      decide_eq_true_eq]
    by_cases hext : csiz.extensible = true
    · rw [roundTrips_unbounded_iff (fun _ => hext) (by rw [if_pos rfl])]
      exact ⟨fun h => ⟨hext, h⟩, fun h => h.2⟩
    · refine ⟨fun hround => ?_, fun h => absurd h.1 hext⟩
      have hnone := putExtension_none hext AsnBitOutp.empty
      have hsome := hround.isSome AsnBitOutp.empty
      beta_reduce at hsome
      rw [hnone] at hsome
      cases hsome

/-- Without a size constraint a string comes back if one fragment takes it. -/
theorem octetString_back_iff (buf : List UInt8) :
    RoundTrips (stringEncodeAper charString .noSize buf) (stringDecodeAper charString .noSize) buf ↔
      buf.length < 16384 ∨ buf.length % 16384 = 0 ∧ buf.length ≤ 65536 := by
  rw [roundTrips_string_iff (by decide)]
  unfold sizeFits maySave
  rw [if_pos (by decide), decide_eq_true_eq, Nat.shiftRight_eq_div_pow, Nat.shiftLeft_eq]
  split_ifs <;> omega

end Strings

end E2Term
