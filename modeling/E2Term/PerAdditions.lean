import E2Term.PerRoundTrip

/-!
# Extension additions

`SEQUENCE_encode_aper` for the types of a later version, whose SEQUENCEs have extension additions,
and `SEQUENCE_decode_aper` for the types of this one, which knows none of them.
-/

namespace E2Term

open Bits Digits BitCodec

/-- `aper_put_nslength`. -/
def aperPutNslength (length : Nat) (po : AsnBitOutp) : Option AsnBitOutp :=
  if length ≤ 64 then
    if length = 0 then none else perPutFewBits (length - 1) 7 po
  else do
    let (po, saved) ← aperPutLength (-1) length po
    if saved = length then return po else none

theorem roundTrips_nslength {n : Nat} (hpos : 0 < n) (h : n ≤ 64) :
    RoundTrips (aperPutNslength n) aperGetNslength n := by
  have hput : aperPutNslength n = perPutFewBits (n - 1) 7 := by
    funext po
    unfold aperPutNslength
    rw [if_pos h, if_neg (by omega)]
  have hbits : ofNat 7 (n - 1) = ofNat 1 0 ++ ofNat 6 (n - 1) := by
    have key : ∀ m < 64, ofNat 7 m = ofNat 1 0 ++ ofNat 6 m := by decide
    exact key (n - 1) (by omega)
  rw [hput]
  refine ⟨_, puts_perPutFewBits (n - 1) (by decide), fun off => ?_⟩
  have hlength := (gets_number (by decide : 6 ≤ 31) (by omega : n - 1 < 2 ^ 6)
    (off + (ofNat 1 0).length)).map (· + 1)
  rw [Nat.sub_add_cancel hpos] at hlength
  show Gets _ off (ofNat 7 (n - 1)) n
  rw [hbits]
  unfold aperGetNslength
  exact (gets_number (by decide : 1 ≤ 31) (by decide : 0 < 2 ^ 1) off).bind hlength

/-! ## Open types that are skipped -/

section Skip

variable {encode : AsnBitOutp → Option AsnBitOutp}

theorem rest_suck (fuel : Nat) (pd : AsnBitData) (h : (BitSource.rest pd).length < fuel) :
    BitSource.rest (uperSotSuck.suck fuel pd) = [] := by
  induction fuel generalizing pd with
  | zero => exact absurd h (Nat.not_lt_zero _)
  | succ fuel ih =>
    unfold uperSotSuck.suck
    cases hget : perGetFewBits 1 pd with
    | none =>
      by_contra hne
      have hpos := List.length_pos_iff.mpr hne
      obtain ⟨next, htook, -⟩ := perGetFewBits_took (by decide : 1 ≤ 31) hpos
      rw [hget] at htook
      cases htook
    | some r =>
      by_cases hpos : 1 ≤ (BitSource.rest pd).length
      · obtain ⟨next, htook, -, hdrop, -⟩ := perGetFewBits_took (by decide : 1 ≤ 31) hpos
        obtain rfl : r = _ := Option.some.inj (hget.symm.trans htook)
        refine ih next ?_
        rw [hdrop, List.length_drop]
        omega
      · rw [perGetFewBits_none (by omega)] at hget
        cases hget

/-- Whatever is in an open type, `uper_sot_suck` takes all of it. -/
theorem openTypeContent_suck (buf : List UInt8) : openTypeContent uperSotSuck buf = some () := by
  have hrest := rest_suck _ (AsnBitData.ofBuffer buf)
    (by rw [AsnBitData.length_rest]; exact Nat.lt_succ_self _)
  have hleft := congrArg List.length hrest
  rw [AsnBitData.length_rest] at hleft
  unfold openTypeContent uperSotSuck
  simp only [Option.bind_eq_bind, Option.bind_some, hleft]
  split_ifs with h1 h2
  · rfl
  · exact absurd h2 (by decide)
  · rfl

theorem roundTrips_openTypeOctets (h : Per.openTypeFits encode = true) :
    ∃ buf, RoundTrips (aperOpenTypePut encode) openTypeOctets buf := by
  unfold Per.openTypeFits at h
  obtain ⟨po, hpo, hfits⟩ := (Option.any_eq_true _ _).mp h
  simp only [ne_eq, decide_not, Bool.and_eq_true, Bool.not_eq_true', decide_eq_false_iff_not]
    at hfits
  have hencode : aperEncode encode = some po.finish := by
    unfold aperEncode
    rw [hpo, Option.map_some, if_neg hfits.1]
  have hput : aperOpenTypePut encode = putFragments (fun chunk => perPutManyBits chunk
      (8 * chunk.length)) (po.finish.length + 1) po.finish := by
    funext po'
    unfold aperOpenTypePut
    rw [hencode]
    rfl
  rw [hput]
  refine ⟨po.finish, (@roundTrips_fragments_iff _ _
    (fun chunkBytes => perGetManyBits (8 * chunkBytes)) _ (fun chunk _ => roundTrips_octets chunk)
    _ (Nat.lt_succ_self _)).mpr fun hdvd => ?_⟩
  exact hfits.2 (Nat.mod_eq_zero_of_dvd hdvd)

theorem roundTrips_openTypeSkip (h : Per.openTypeFits encode = true) :
    RoundTrips (aperOpenTypePut encode) aperOpenTypeSkip () := by
  obtain ⟨buf, bs, hputs, hgets⟩ := roundTrips_openTypeOctets h
  refine ⟨bs, hputs, fun off pd behind rest hpd => ?_⟩
  obtain ⟨pd', hpd', hat⟩ := hgets off pd behind rest hpd
  refine ⟨pd', ?_, hat⟩
  show (openTypeOctets pd).bind
    (fun r => (openTypeContent uperSotSuck r.1).map (·, r.2)) = some ((), pd')
  rw [hpd', Option.bind_some, openTypeContent_suck]
  rfl

end Skip

/-! ## SEQUENCEs of a later version -/

namespace Per

/-- The extension additions of a SEQUENCE: their types, and the values that are there. -/
abbrev Additions := List (Typ × Option Value)

/-- `SEQUENCE_handle_extensions_aper` with `po1`: the bits that say which additions are there. -/
def Additions.putPresence (additions : Additions) (po : AsnBitOutp) : Option AsnBitOutp :=
  additions.foldlM (fun po a => perPutFewBits a.2.isSome.toNat 1 po) po

/-- The same with `po2`: the additions that are there, as open types. -/
def Additions.putValues : Additions → AsnBitOutp → Option AsnBitOutp
  | [], po => some po
  | (_, none) :: rest, po => putValues rest po
  | (type, some value) :: rest, po => aperOpenTypePut (type.aperEncoder value) po >>= putValues rest

/-- What it returns. -/
def Additions.present (additions : Additions) : Nat :=
  if additions.any fun a => a.2.isSome then additions.length else 0

/-- `SEQUENCE_encode_aper` of an extensible type with these additions behind its fields. -/
def sequenceEncodeAper (fields : Fields) (members : List (Option Value)) (additions : Additions)
    (po : AsnBitOutp) : Option AsnBitOutp := do
  let po ← putExtension true (additions.present ≠ 0) po
  let po ← (fields.presence members).foldlM (fun po p => perPutFewBits p.toNat 1 po) po
  let po ← fields.encodeMembers members po
  if additions.present = 0 then return po
  let po ← aperPutNslength additions.present po
  let po ← additions.putPresence po
  additions.putValues po

/-- Values that an open type does not lose. -/
def Additions.fit (additions : Additions) : Prop :=
  ∀ a ∈ additions, ∀ value, a.2 = some value → openTypeFits (a.1.aperEncoder value) = true

section Sequence

variable {fields : Fields} {members : List (Option Value)} {additions : Additions}

/-- How many of them are there. -/
def Additions.there (additions : Additions) : Nat := additions.countP fun a => a.2.isSome

theorem Additions.fit_tail {a : Typ × Option Value} {rest : Additions}
    (h : Additions.fit (a :: rest)) : rest.fit := fun b hb => h b (List.mem_cons_of_mem a hb)

theorem puts_openType {encode : AsnBitOutp → Option AsnBitOutp} (h : openTypeFits encode = true) :
    ∃ bs, Puts (aperOpenTypePut encode) bs ∧ ∀ off, bs off ≠ [] := by
  obtain ⟨buf, bs, hputs, hgets⟩ := roundTrips_openTypeOctets h
  refine ⟨bs, hputs, fun off hnil => ?_⟩
  obtain ⟨pd, behind, hpd⟩ := AsnBitData.exists_at off ([] : List Bool)
  obtain ⟨pd', hpd', -⟩ := hgets off pd behind [] (by rwa [hnil])
  have hnone : openTypeOctets pd = none := by
    show (aperGetLength (-1) (-1) pd).bind _ = none
    rw [aperGetLength_empty hpd.rest_eq]
    rfl
  rw [hnone] at hpd'
  cases hpd'

/-- Nothing is put where no addition is there. -/
theorem putValues_none : ∀ {additions : Additions}, additions.there = 0 →
    additions.putValues = some
  | [], _ => rfl
  | (_, none) :: rest, h => by
    funext po
    have hrest : Additions.there rest = 0 := by simpa [Additions.there] using h
    exact congrFun (putValues_none hrest) po
  | (_, some _) :: _, h => by simp [Additions.there] at h

/-- The first addition that is there, and those behind it. -/
theorem putValues_split : ∀ {additions : Additions}, additions.fit → additions.there ≠ 0 →
    ∃ encode, ∃ rest : Additions,
      additions.putValues = (fun po => aperOpenTypePut encode po >>= rest.putValues) ∧
      openTypeFits encode = true ∧ rest.fit ∧ additions.there = rest.there + 1
  | [], _, h => absurd rfl h
  | (type, none) :: tail, hfit, h => by
    have htail : Additions.there ((type, none) :: tail) = Additions.there tail := by
      simp [Additions.there]
    rw [htail] at h ⊢
    have hrest : Additions.fit tail := Additions.fit_tail hfit
    have hsplit := putValues_split hrest h
    exact hsplit
  | (type, some value) :: tail, hfit, _ =>
    ⟨type.aperEncoder value, tail, rfl, hfit _ List.mem_cons_self value rfl,
      Additions.fit_tail hfit, by simp [Additions.there]⟩

theorem exists_putValues : ∀ {additions : Additions}, additions.fit →
    ∃ bs, Puts additions.putValues bs
  | [], _ => ⟨_, Puts.nothing⟩
  | (_, none) :: tail, hfit => by
    have hrest : Additions.fit tail := Additions.fit_tail hfit
    have hputs := exists_putValues hrest
    exact hputs
  | (_, some value) :: _, hfit => by
    obtain ⟨bs, hbs, -⟩ := puts_openType (hfit _ List.mem_cons_self value rfl)
    obtain ⟨cs, hcs⟩ := exists_putValues (Additions.fit_tail hfit)
    exact ⟨_, hbs.bind hcs⟩

/-- Additions that are there take bits. -/
theorem puts_putValues (hfit : additions.fit) (h : additions.there ≠ 0) :
    ∃ bs, Puts additions.putValues bs ∧ ∀ off, bs off ≠ [] := by
  obtain ⟨encode, rest, hsplit, hencode, hrest, -⟩ := putValues_split hfit h
  obtain ⟨bs, hbs, hne⟩ := puts_openType hencode
  obtain ⟨cs, hcs⟩ := exists_putValues hrest
  rw [hsplit]
  exact ⟨_, hbs.bind hcs, fun off hnil => hne off (List.append_eq_nil_iff.mp hnil).1⟩

/-- Without additions there it is the encoder of the type without them. -/
theorem sequenceEncodeAper_absent (h : additions.present = 0) :
    sequenceEncodeAper fields members additions =
      (Typ.sequence true fields).aperEncoder (.sequence members) := by
  funext po
  unfold sequenceEncodeAper Typ.aperEncoder
  simp only [h, ne_eq, not_true_eq_false, decide_false, if_true]
  cases putExtension true false po with
  | none => rfl
  | some po =>
    simp only [Option.bind_eq_bind, Option.bind_some]
    cases (fields.presence members).foldlM (fun po p => perPutFewBits p.toNat 1 po) po with
    | none => rfl
    | some po =>
      simp only [Option.bind_some]
      exact Option.bind_fun_some _

/-- What the decoder takes: the root, the bits of presence and one open type. -/
theorem roundTrips_first {n : Nat} {bits : List Bool} {encode : AsnBitOutp → Option AsnBitOutp}
    {put : AsnBitOutp → Option AsnBitOutp}
    (hput : RoundTrips put (getBitmap n) bits) (hpos : 0 < n) (hn : n ≤ 64)
    (hbits : bits.contains true = true) (hencode : openTypeFits encode = true)
    (hwf : fields.wellFormed = true) (hfits : fields.fitMembers members = true) :
    RoundTrips (fun po => putExtension true true po >>= fun po =>
        (fields.presence members).foldlM (fun po p => perPutFewBits p.toNat 1 po) po >>= fun po =>
          fields.encodeMembers members po >>= fun po =>
            aperPutNslength n po >>= fun po => put po >>= aperOpenTypePut encode)
      (Typ.sequence true fields).aperDecoder (.sequence members) := by
  have hskip : RoundTrips (fun po => aperPutNslength n po >>= fun po => put po >>=
      aperOpenTypePut encode) skipExtensions () :=
    (roundTrips_nslength hpos hn).bind (hput.bind (by
      rw [if_pos hbits]
      exact roundTrips_openTypeSkip hencode))
  have hbitmap := roundTrips_bitmap (fields.presence members)
  rw [length_presence fields hfits] at hbitmap
  have hmembers := Fields.roundTripsMembers fields hwf hfits
  exact (roundTrips_extension fun _ => rfl).bind
    (hbitmap.bind (hmembers.bind (hskip.map fun _ => Value.sequence members)))

theorem roundTrips_presence (additions : Additions) :
    RoundTrips additions.putPresence (getBitmap additions.length)
      (additions.map fun a => a.2.isSome) := by
  have hround := roundTrips_bitmap (additions.map fun a => a.2.isSome)
  simp only [List.foldlM_map, List.length_map] at hround
  exact hround

/-- The decoder of the earlier version reads a SEQUENCE without its additions, if one of them at
most is there: it skips the first one and leaves the others to whatever reads on. -/
theorem sequence_additions_iff (hwf : fields.wellFormed = true)
    (hfits : fields.fitMembers members = true) (hfit : additions.fit)
    (hlength : additions.length ≤ 64) :
    RoundTrips (sequenceEncodeAper fields members additions)
      (Typ.sequence true fields).aperDecoder (.sequence members) ↔ additions.there ≤ 1 := by
  by_cases hnone : additions.there = 0
  · have habsent : additions.present = 0 := by
      unfold Additions.present
      unfold Additions.there at hnone
      rw [if_neg]
      rw [List.countP_eq_zero] at hnone
      simpa using hnone
    rw [sequenceEncodeAper_absent habsent]
    exact ⟨fun _ => by omega, fun _ => Typ.roundTrips _ hwf hfits⟩
  · obtain ⟨encode, rest, hsplit, hencode, hrest, hcount⟩ := putValues_split hfit hnone
    have hany : additions.any (fun a => a.2.isSome) = true := by
      obtain ⟨a, ha, hthere⟩ := List.countP_pos_iff.mp (Nat.pos_of_ne_zero hnone)
      exact List.any_eq_true.mpr ⟨a, ha, hthere⟩
    have hpresent : additions.present = additions.length := if_pos hany
    have hpos : 0 < additions.length := by
      have := List.countP_le_length (l := additions) (p := fun a => a.2.isSome)
      unfold Additions.there at hnone
      omega
    have hbits : (additions.map fun a => a.2.isSome).contains true = true := by
      obtain ⟨a, ha, hthere⟩ := List.any_eq_true.mp hany
      exact List.contains_iff_mem.mpr (List.mem_map.mpr ⟨a, ha, hthere⟩)
    have hfirst := roundTrips_first (roundTrips_presence additions) hpos hlength hbits hencode hwf
      hfits
    have hencoder : sequenceEncodeAper fields members additions = fun po =>
        (putExtension true true po >>= fun po =>
          (fields.presence members).foldlM (fun po p => perPutFewBits p.toNat 1 po) po >>=
            fun po => fields.encodeMembers members po >>= fun po =>
              aperPutNslength additions.length po >>= fun po => additions.putPresence po >>=
                aperOpenTypePut encode) >>= rest.putValues := by
      funext po
      unfold sequenceEncodeAper
      simp only [hpresent, hsplit, hpos.ne', ne_eq, not_false_eq_true, decide_true, if_false,
        Option.bind_eq_bind, Option.bind_assoc]
    rw [hencoder]
    refine ⟨fun hround => ?_, fun hone => ?_⟩
    · by_contra htwo
      obtain ⟨cs, hcs, hne⟩ := puts_putValues hrest (by omega)
      exact not_roundTrips_behind hfirst hcs hne (fun off bs => AsnBitData.exists_at off bs)
        AsnBitOutp.empty hround
    · rw [putValues_none (by omega : rest.there = 0)]
      simp only [Option.bind_eq_bind, Option.bind_fun_some]
      exact hfirst

/-- A mandatory string. -/
def sampleFields : Fields := .cons ⟨[0x61], by decide, by decide⟩ false (.octetString .noSize) .nil

/-- Two additions, of which the second is there. -/
theorem sequence_additions_iff_second :
    RoundTrips (sequenceEncodeAper sampleFields [some (.octets [7])]
        [(.octetString .noSize, none), (.octetString .noSize, some (.octets [1, 2, 3]))])
      (Typ.sequence true sampleFields).aperDecoder (.sequence [some (.octets [7])]) ↔
      Additions.there [(.octetString .noSize, none),
        (.octetString .noSize, some (.octets [1, 2, 3]))] ≤ 1 := by
  refine sequence_additions_iff (by decide) (by decide) ?_ (by decide)
  intro a ha value hvalue
  simp only [List.mem_cons, List.not_mem_nil, or_false] at ha
  obtain rfl | rfl := ha
  · cases hvalue
  · cases hvalue
    decide +kernel

end Sequence

end Per

end E2Term
