import E2Term.PerCodec

/-!
# Values that come back

Which values of a type the decoder returns from their encoding. `Typ.fits` is what a value has to
meet: its sizes and numbers are in range, and no open type in it is of a size that the fragments
lose.
-/

namespace E2Term

open Bits Digits BitCodec

namespace Per

/-! ## Conditions -/

/-- Sizes of a SEQUENCE OF that come back. -/
def countFits (ct : AsnPerConstraint) (n : Nat) : Bool :=
  if 0 ≤ ct.effectiveBits && ct.lowerBound ≤ n && n ≤ ct.upperBound then true
  else (ct.extensible || ct.effectiveBits < 0) && (n = 0 || n % 16384 ≠ 0)

/-- What is encoded as an open type has bits, and not so many octets that their fragments are all of
16K. -/
def openTypeFits (encode : AsnBitOutp → Option AsnBitOutp) : Bool :=
  (encode AsnBitOutp.empty).any fun po =>
    8 * (po.flushed.length + po.buffer) + po.nboff ≠ 0 && po.finish.length % 16384 ≠ 0

mutual

/-- The value is one of the type, and one that comes back. -/
def Typ.fits : Typ → Value → Bool
  | .integer ct, .integer n => integerFits ct n
  | .enumerated ct specs _, .enumerated value => enumeratedFits ct specs value
  | .octetString csiz, .octets buf => sizeFits csiz buf.length
  | .bitString csiz, .bits bits => sizeFits csiz bits.length
  | .printableString csiz, .octets buf => sizeFits csiz buf.length
  | .sequence _ fields, .sequence members => fields.fitMembers members
  | .choice ct extStart alternatives, .choice present value =>
    alternatives.fitsAlternative present value &&
      if (present : Int) ≤ ct.upperBound then true
      else ct.extensible && extStart.any fun start =>
        start ≤ present && present - start < 2 ^ smallBits ct.rangeBits &&
          openTypeFits (alternatives.encodeAlternative present value)
  | .sequenceOf ct _ element, .sequenceOf elements =>
    countFits ct elements.length && elements.all fun value => element.fits value
  | .object _ id rows alternatives, .object key crit present value =>
    integerFits id key && crit < 3 && rows.lookup key = some present &&
      alternatives.fitsAlternative present value &&
      openTypeFits (alternatives.encodeAlternative present value)
  | _, _ => false

def Fields.fitMembers : Fields → List (Option Value) → Bool
  | .nil, [] => true
  | .cons _ _ type rest, some value :: members => type.fits value && rest.fitMembers members
  | .cons _ optional _ rest, none :: members => optional && rest.fitMembers members
  | _, _ => false

def Fields.fitsAlternative : Fields → Nat → Value → Bool
  | .nil, _, _ => false
  | .cons _ _ type _, 0, value => type.fits value
  | .cons _ _ _ rest, present + 1, value => rest.fitsAlternative present value

end

/-! ## Open types, alternatives and elements -/

section Parts

variable {encode : AsnBitOutp → Option AsnBitOutp} {decode : StateT AsnBitData Option Value}
  {value : Value}

theorem roundTrips_openType (h : RoundTrips encode decode value)
    (hfits : openTypeFits encode = true) :
    RoundTrips (aperOpenTypePut encode) (aperOpenTypeGet decode) value := by
  obtain ⟨bs, hputs, hgets⟩ := h
  obtain ⟨po, hpo, hbits⟩ := hputs AsnBitOutp.empty
  have hstart : BitSink.bits po = bs 0 := hbits
  unfold openTypeFits at hfits
  rw [hpo, Option.any_some, ← AsnBitOutp.length_bits, AsnBitOutp.finish_eq, hstart,
    Bool.and_eq_true] at hfits
  simp only [ne_eq, decide_not, Bool.not_eq_true', decide_eq_false_iff_not] at hfits
  refine (roundTrips_openType_iff hputs (hgets 0) ?_).mpr fun hdvd => ?_
  · intro hnil
    exact hfits.1 (by rw [hnil, List.length_nil])
  · exact hfits.2 (Nat.mod_eq_zero_of_dvd hdvd)

theorem roundTrips_bitmap (bits : List Bool) :
    RoundTrips (fun po => bits.foldlM (fun po p => perPutFewBits p.toNat 1 po) po)
      (getBitmap bits.length) bits := by
  refine ⟨fun _ => bits, ?_, fun off => ?_⟩
  · induction bits with
    | nil => exact Puts.nothing
    | cons p bits ih =>
      have hbit : ofNat 1 p.toNat = [p] := by cases p <;> rfl
      have hput := (puts_perPutFewBits p.toNat (by decide : 1 ≤ 31)).bind ih
      rw [hbit] at hput
      exact hput
  · have hget := (gets_perGetManyBits bits off).map fun octets =>
      (ofOctets octets).take bits.length
    rwa [take_ofOctets_toOctets] at hget

theorem roundTrips_sequenceOf {α : Type} {ct : AsnPerConstraint}
    {put : List α → AsnBitOutp → Option AsnBitOutp}
    {get : Nat → StateT AsnBitData Option (List α)} {elements : List α} (hget : get 0 = pure [])
    (hunits : ∀ chunk : List α, (∀ u ∈ chunk, u ∈ elements) →
      RoundTrips (put chunk) (get chunk.length) chunk)
    (hct : ct.effectiveBits < 0 ∨ 0 ≤ ct.lowerBound ∧ ct.upperBound - ct.lowerBound < 65536)
    (h : countFits ct elements.length = true) :
    RoundTrips (sequenceOfEncodeAper ct put elements) (sequenceOfDecodeAper ct get) elements := by
  unfold sequenceOfEncodeAper sequenceOfDecodeAper
  unfold countFits at h
  by_cases hroot : 0 ≤ ct.effectiveBits ∧ ct.lowerBound ≤ elements.length ∧
      (elements.length : Int) ≤ ct.upperBound
  · obtain ⟨heff, hle, hge⟩ := hroot
    obtain ⟨hlow, hrange⟩ := hct.resolve_left (by omega)
    have hin : ((elements.length : Int) < ct.lowerBound || ct.upperBound < elements.length) =
        false := by
      simp only [Bool.or_eq_false_iff, decide_eq_false_iff_not]
      omega
    simp only [hin, Bool.false_and, decide_eq_true heff, Bool.not_false, Bool.true_and, if_true]
    refine (roundTrips_extension_root _).bind ?_
    have hbelow : ((elements.length - ct.lowerBound.toNat : Nat) : Int) <
        ct.upperBound - ct.lowerBound + 1 := by omega
    have hlength := roundTrips_nsnnwn (by omega) hbelow
    have hback : elements.length - ct.lowerBound.toNat + ct.lowerBound.toNat =
        elements.length := by omega
    have hround := hlength.bind (k := fun nelems => get (nelems + ct.lowerBound.toNat)) (by
      rw [hback]
      exact hunits elements fun u hu => hu)
    have hput : (fun po => aperPutLength (ct.upperBound - ct.lowerBound + 1)
          (elements.length - ct.lowerBound.toNat) po >>= fun p => put elements p.1) =
        fun po => aperPutNsnnwn (ct.upperBound - ct.lowerBound + 1)
          (elements.length - ct.lowerBound.toNat) po >>= put elements := by
      funext po
      rw [aperPutLength_bounded (by omega) (by omega)]
      cases aperPutNsnnwn _ _ po with
      | none => rfl
      | some po => rfl
    rw [← hput] at hround
    simp only [Bool.not_false, Bool.true_and, if_true]
    exact hround
  · rw [if_neg (by simpa [and_assoc] using hroot)] at h
    simp only [Bool.and_eq_true, Bool.or_eq_true, decide_eq_true_eq, ne_eq] at h
    have hone : elements = [] ∨ ¬ 16384 ∣ elements.length :=
      h.2.imp List.length_eq_zero_iff.mp fun hmod hdvd => hmod (Nat.mod_eq_zero_of_dvd hdvd)
    generalize hinext : (((elements.length : Int) < ct.lowerBound ||
      ct.upperBound < elements.length) && (ct.extensible || 0 ≤ ct.effectiveBits)) = inext
    have hext : inext = true → ct.extensible = true := by
      rintro rfl
      simp only [Bool.and_eq_true, Bool.or_eq_true, decide_eq_true_eq] at hinext
      exact h.1.elim id fun hneg => hinext.2.resolve_right (by omega)
    have hbranch : (!inext && decide (0 ≤ ct.effectiveBits)) = false := by
      rw [← hinext]
      by_cases heff : 0 ≤ ct.effectiveBits
      · have hout : ((elements.length : Int) < ct.lowerBound ||
            ct.upperBound < elements.length) = true := by
          simp only [Bool.or_eq_true, decide_eq_true_eq]
          omega
        simp [hout, h.1.resolve_right (by omega)]
      · simp [heff]
    simp only [hinext, hbranch, Bool.false_eq_true, if_false]
    refine (roundTrips_extension hext).bind ?_
    simp only [hbranch, Bool.false_eq_true, if_false]
    exact roundTrips_putUnits hget hunits hone

theorem roundTrips_choice {ct : AsnPerConstraint} {extStart : Option Nat} {count present : Nat}
    {get : Nat → StateT AsnBitData Option Value} (hpos : 0 ≤ ct.rangeBits)
    (hbits : ct.rangeBits ≤ 31) (hlow : ct.lowerBound = 0) (hcount : present < count)
    (hvalue : RoundTrips encode (get present) value)
    (h : (present : Int) ≤ ct.upperBound ∨ ct.extensible = true ∧ ∃ start, extStart = some start ∧
      start ≤ present ∧ present - start < 2 ^ smallBits ct.rangeBits ∧
      openTypeFits encode = true) :
    RoundTrips (choiceEncodeAper ct extStart present encode)
      (choiceDecodeAper ct extStart count get) (.choice present value) := by
  unfold choiceEncodeAper choiceDecodeAper
  by_cases hle : (present : Int) ≤ ct.upperBound
  · have hin : ((present : Int) < ct.lowerBound || ct.upperBound < present) = false := by
      simp only [Bool.or_eq_false_iff, decide_eq_false_iff_not]
      omega
    have hlt : present < 2 ^ ct.rangeBits.toNat := by
      have := ct.range_lt hpos
      have hlt : (present : Int) < 2 ^ ct.rangeBits.toNat := by omega
      exact_mod_cast hlt
    simp only [hin]
    refine (roundTrips_extension_root _).bind ?_
    refine (roundTrips_few (by omega) hlt).bind (k := fun value : Nat =>
      if ct.upperBound < value then failure else Value.choice value <$> get value) ?_
    rw [if_neg (by omega)]
    exact hvalue.map (Value.choice present)
  · obtain ⟨hext, start, rfl, hstart, hsmall, hfits⟩ := h.resolve_left hle
    have hin : ((present : Int) < ct.lowerBound || ct.upperBound < present) = true := by
      simp only [Bool.or_eq_true, decide_eq_true_eq]
      omega
    have hback : present - start + start = present := by omega
    simp only [hin]
    refine (roundTrips_extension fun _ => hext).bind ?_
    refine (roundTrips_nsnnwn_small hpos (by omega) hsmall).bind (k := fun value =>
      if count ≤ value + start then failure
      else Value.choice (value + start) <$> aperOpenTypeGet (get (value + start))) ?_
    rw [hback, if_neg (by omega)]
    exact (roundTrips_openType hvalue hfits).map (Value.choice present)

end Parts

theorem lt_count_of_fits : ∀ (fields : Fields) {present : Nat} {value : Value},
    fields.fitsAlternative present value = true → present < fields.count
  | .nil, _, _, h => by cases h
  | .cons _ _ _ _, 0, _, _ => Nat.succ_pos _
  | .cons _ _ _ rest, _ + 1, _, h => Nat.succ_lt_succ (lt_count_of_fits rest h)

theorem length_presence : ∀ (fields : Fields) {members : List (Option Value)},
    fields.fitMembers members = true → (fields.presence members).length = fields.romsCount
  | .nil, [], _ => rfl
  | .nil, _ :: _, h => by cases h
  | .cons _ _ _ _, [], h => by cases h
  | .cons _ optional _ rest, some _ :: members, h => by
    have hrest := length_presence rest (Bool.and_eq_true _ _ ▸ h).2
    cases optional
    · exact hrest.trans (Nat.zero_add _).symm
    · exact (congrArg (· + 1) hrest).trans (Nat.add_comm _ _)
  | .cons _ optional _ rest, none :: members, h => by
    cases optional
    · cases h
    · exact (congrArg (· + 1) (length_presence rest h)).trans (Nat.add_comm _ _)

mutual

/-- A value that fits comes back. -/
theorem Typ.roundTrips : ∀ (T : Typ) {v : Value}, T.wellFormed = true → T.fits v = true →
    RoundTrips (T.aperEncoder v) T.aperDecoder v
  | .integer ct, v, hwf, hv => by
    simp only [Typ.wellFormed, Bool.and_eq_true, decide_eq_true_eq] at hwf
    cases v with
    | integer n =>
      exact ((roundTrips_integer_iff hwf.1.1 hwf.1.2 n).mpr hv).map Value.integer
    | _ => cases hv
  | .enumerated ct specs _, v, hwf, hv => by
    simp only [Typ.wellFormed, Bool.and_eq_true, decide_eq_true_eq] at hwf
    cases v with
    | enumerated value =>
      exact (roundTrips_enumerated hwf.1.1.1.1 hwf.1.1.1.2 hwf.1.1.2 hv).map Value.enumerated
    | _ => cases hv
  | .octetString csiz, v, hwf, hv => by
    cases v with
    | octets buf => exact ((roundTrips_string_iff hwf).mpr hv).map Value.octets
    | _ => cases hv
  | .bitString csiz, v, hwf, hv => by
    cases v with
    | bits bits => exact ((roundTrips_string_iff hwf).mpr hv).map Value.bits
    | _ => cases hv
  | .printableString csiz, v, hwf, hv => by
    cases v with
    | octets buf => exact ((roundTrips_string_iff hwf).mpr hv).map Value.octets
    | _ => cases hv
  | .sequence extensible fields, v, hwf, hv => by
    cases v with
    | sequence members =>
      have hbitmap := roundTrips_bitmap (fields.presence members)
      rw [length_presence fields hv] at hbitmap
      have hmembers := Fields.roundTripsMembers fields hwf hv
      exact (roundTrips_extension_root _).bind
        (hbitmap.bind (hmembers.map Value.sequence))
    | _ => cases hv
  | .choice ct extStart alternatives, v, hwf, hv => by
    simp only [Typ.wellFormed, Bool.and_eq_true, decide_eq_true_eq] at hwf
    obtain ⟨⟨⟨hpos, hbits⟩, hlow⟩, hwf⟩ := hwf
    cases v with
    | choice present value =>
      simp only [Typ.fits, Bool.and_eq_true] at hv
      refine roundTrips_choice hpos hbits hlow (lt_count_of_fits alternatives hv.1)
        (Fields.roundTripsAlternative alternatives hwf hv.1) ?_
      by_cases hroot : (present : Int) ≤ ct.upperBound
      · exact Or.inl hroot
      · have hext := hv.2
        rw [if_neg hroot, Bool.and_eq_true] at hext
        cases extStart with
        | none => cases hext.2
        | some start =>
          simp only [Option.any_some, Bool.and_eq_true, decide_eq_true_eq] at hext
          exact Or.inr ⟨hext.1, start, rfl, hext.2.1.1, hext.2.1.2, hext.2.2⟩
    | _ => cases hv
  | .sequenceOf ct _ element, v, hwf, hv => by
    simp only [Typ.wellFormed, Bool.and_eq_true, Bool.or_eq_true, decide_eq_true_eq] at hwf
    cases v with
    | sequenceOf elements =>
      simp only [Typ.fits, Bool.and_eq_true, List.all_eq_true] at hv
      refine (roundTrips_sequenceOf rfl (fun chunk hchunk => RoundTrips.list fun value hvalue => ?_)
        hwf.1 hv.1).map Value.sequenceOf
      exact Typ.roundTrips element hwf.2 (hv.2 value (hchunk value hvalue))
    | _ => cases hv
  | .object _ id rows alternatives, v, hwf, hv => by
    simp only [Typ.wellFormed, Bool.and_eq_true, decide_eq_true_eq] at hwf
    cases v with
    | object key crit present value =>
      simp only [Typ.fits, Bool.and_eq_true, decide_eq_true_eq] at hv
      obtain ⟨⟨⟨⟨hkey, hcrit⟩, hrow⟩, hvalue⟩, hopen⟩ := hv
      have hround := roundTrips_openType
        (Fields.roundTripsAlternative alternatives hwf.2 hvalue) hopen
      have hcriticality : RoundTrips (enumeratedEncodeAper criticality.1 criticality.2 crit)
          (enumeratedDecodeAper criticality.1 criticality.2) crit :=
        roundTrips_enumerated (by decide) (by decide) (by decide)
          ((by decide : ∀ crit < 3, enumeratedFits criticality.1 criticality.2 crit = true)
            crit hcrit)
      refine ((roundTrips_integer_iff hwf.1.1.1 hwf.1.1.2 key).mpr hkey).bind
        (hcriticality.bind ?_)
      rw [hrow]
      exact hround.map (Value.object key crit present)
    | _ => cases hv

theorem Fields.roundTripsMembers : ∀ (fields : Fields) {members : List (Option Value)},
    fields.wellFormed = true → fields.fitMembers members = true →
      RoundTrips (fields.encodeMembers members)
        (fields.decodeMembers (fields.presence members)) members
  | .nil, [], _, _ => RoundTrips.pure []
  | .nil, _ :: _, _, hm => by cases hm
  | .cons _ _ _ _, [], _, hm => by cases hm
  | .cons _ optional type rest, some value :: members, hwf, hm => by
    obtain ⟨htype, hrest⟩ := Bool.and_eq_true _ _ ▸ hwf
    obtain ⟨hvalue, hmembers⟩ := Bool.and_eq_true _ _ ▸ hm
    have hround := (Typ.roundTrips type htype hvalue).bind
      (k := fun value => (some value :: ·) <$> rest.decodeMembers (rest.presence members))
      ((Fields.roundTripsMembers rest hrest hmembers).map (some value :: ·))
    cases optional <;> exact hround
  | .cons _ optional _ rest, none :: members, hwf, hm => by
    cases optional with
    | true =>
      exact (Fields.roundTripsMembers rest (Bool.and_eq_true _ _ ▸ hwf).2 hm).map (none :: ·)
    | false => cases hm

theorem Fields.roundTripsAlternative : ∀ (fields : Fields) {present : Nat} {value : Value},
    fields.wellFormed = true → fields.fitsAlternative present value = true →
      RoundTrips (fields.encodeAlternative present value)
        (fields.decodeAlternative present) value
  | .nil, _, _, _, hv => by cases hv
  | .cons _ _ type _, 0, value, hwf, hv =>
    Typ.roundTrips type (Bool.and_eq_true _ _ ▸ hwf).1 hv
  | .cons _ _ _ rest, _ + 1, value, hwf, hv =>
    Fields.roundTripsAlternative rest (Bool.and_eq_true _ _ ▸ hwf).2 hv

end

end Per

end E2Term
