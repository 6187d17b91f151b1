import E2Term.PerSupport

/-!
# Complete encodings and open types

`per_encoder.c`, `per_decoder.c` and `per_opentype.c`: an encoding of its own goes into octets, and
an open type is such octets behind their length. What a type does is a parameter here.
-/

namespace E2Term

open Bits Digits BitCodec

/-- `aper_encode` followed by what its callers do: the octets of `aper_encode_to_new_buffer` and of
`asn_encode_internal`, one of zero for an encoding without bits. -/
def aperEncode (encode : AsnBitOutp → Option AsnBitOutp) : Option (List UInt8) :=
  (encode AsnBitOutp.empty).map fun po =>
    if 8 * (po.flushed.length + po.buffer) + po.nboff = 0 then [0] else po.finish

variable {α : Type}

/-- `aper_decode_complete`: the value and how many octets it took. An assertion says that the bits
consumed are those that `moved` counts. -/
def aperDecodeComplete (decode : StateT AsnBitData Option α) (buffer : List UInt8) :
    Option (α × Nat) := do
  let (value, pd) ← decode (AsnBitData.ofBuffer buffer)
  let consumed := pd.moved
  if consumed ≠ 0 then return (value, (consumed + 7) / 8)
  else if buffer.head? = some 0 then return (value, 1)
  else none

/-- `aper_open_type_put`. -/
def aperOpenTypePut (encode : AsnBitOutp → Option AsnBitOutp) (po : AsnBitOutp) :
    Option AsnBitOutp := do
  let buf ← aperEncode encode
  putFragments (fun chunk => perPutManyBits chunk (8 * chunk.length)) (buf.length + 1) buf po

/-- The octets that the loop of `aper_open_type_get_simple` gathers. -/
def openTypeOctets : StateT AsnBitData Option (List UInt8) :=
  getAllFragments fun chunkBytes => perGetManyBits (8 * chunkBytes)

/-- The end of `aper_open_type_get_simple`, from the octets gathered on: bits that are left over may
be any, if they are fewer than eight. -/
def openTypeContent (decode : StateT AsnBitData Option α) (buf : List UInt8) : Option α := do
  let (value, spd) ← decode (AsnBitData.ofBuffer buf)
  let padding := spd.nbits - spd.nboff
  if (0 < padding ∧ padding < 8 ∨
      spd.nboff = 0 ∧ spd.nbits = 8 ∧ spd.buffer.length = buf.length) ∧
      (perGetFewBits padding spd).map (·.1) = some 0 then return value
  else if padding ≥ 8 then none
  else return value

/-- `aper_open_type_get`. -/
def aperOpenTypeGet (decode : StateT AsnBitData Option α) : StateT AsnBitData Option α := do
  let buf ← openTypeOctets
  fun pd => (openTypeContent decode buf).map (·, pd)

/-- `uper_sot_suck`, with fuel for every bit. -/
def uperSotSuck : StateT AsnBitData Option Unit := fun pd =>
  let rec suck : Nat → AsnBitData → AsnBitData
    | 0, pd => pd
    | fuel + 1, pd =>
      match perGetFewBits 1 pd with
      | none => pd
      | some (_, pd) => suck fuel pd
  some ((), suck (pd.nbits - pd.nboff + 1) pd)

/-- `aper_open_type_skip`. -/
def aperOpenTypeSkip : StateT AsnBitData Option Unit := aperOpenTypeGet uperSotSuck

/-! ## Encodings -/

section Complete

variable {encode : AsnBitOutp → Option AsnBitOutp} {decode : StateT AsnBitData Option α}
  {bs : Nat → List Bool} {value : α}

theorem aperEncode_puts (hputs : Puts encode bs) (hne : bs 0 ≠ []) :
    aperEncode encode = some (toOctets (bs 0)) := by
  obtain ⟨po, hpo, hbits⟩ := hputs AsnBitOutp.empty
  have hstart : BitSink.bits AsnBitOutp.empty = [] := rfl
  rw [hstart, List.nil_append, List.length_nil] at hbits
  unfold aperEncode
  rw [hpo, Option.map_some, ← AsnBitOutp.length_bits, hbits,
    if_neg (by rwa [List.length_eq_zero_iff]), AsnBitOutp.finish_eq, hbits]

/-- The bits of an encoding, and those that fill up its last octet. -/
theorem at_toOctets (bits : List Bool) (rest : List UInt8) :
    At (AsnBitData.ofBuffer (toOctets bits ++ rest)) 0 0
      (bits ++ (List.replicate (padding bits.length) false ++ ofOctets rest)) := by
  have hat := AsnBitData.at_ofBuffer (toOctets bits ++ rest)
  rwa [ofOctets_append, ofOctets_toOctets, List.append_assoc] at hat

/-- An encoding decodes whatever comes behind it, and the octets that it takes are counted. -/
theorem aperDecodeComplete_encoding (hgets : Gets decode 0 (bs 0) value) (hne : bs 0 ≠ [])
    (trailing : List UInt8) :
    aperDecodeComplete decode (toOctets (bs 0) ++ trailing) =
      some (value, (toOctets (bs 0)).length) := by
  obtain ⟨pd, hpd, hat⟩ := hgets _ 0 _ (at_toOctets (bs 0) trailing)
  have hpos := List.length_pos_iff.mpr hne
  have hmoved : pd.moved = (bs 0).length := hat.off_eq.trans (Nat.zero_add _)
  unfold aperDecodeComplete
  rw [hpd, length_toOctets]
  simp only [Option.bind_eq_bind, Option.bind_some]
  rw [hmoved, if_pos (by omega)]
  rfl

/-- The content of an open type is its value, with the bits that fill up the last octet left. -/
theorem openTypeContent_encoding (hgets : Gets decode 0 (bs 0) value) :
    openTypeContent decode (toOctets (bs 0)) = some value := by
  have hstart := at_toOctets (bs 0) []
  rw [List.append_nil, ofOctets_nil, List.append_nil] at hstart
  obtain ⟨spd, hspd, hat⟩ := hgets _ 0 _ hstart
  have hleft : spd.nbits - spd.nboff = padding (bs 0).length := by
    rw [← AsnBitData.length_rest, hat.rest_eq, List.length_replicate]
  have hlt := padding_lt (bs 0).length
  unfold openTypeContent
  rw [hspd]
  simp only [Option.bind_eq_bind, Option.bind_some, hleft]
  split_ifs with hzero hmany
  · rfl
  · exact absurd hmany (by omega)
  · rfl

theorem puts_octets (chunk : List UInt8) :
    Puts (perPutManyBits chunk (8 * chunk.length)) fun _ => ofOctets chunk := by
  have hputs := puts_perPutManyBits (Nat.le_refl (8 * chunk.length))
  rwa [List.take_of_length_le (by rw [length_ofOctets])] at hputs

theorem gets_octets (chunk : List UInt8) (off : Nat) :
    Gets (perGetManyBits (8 * chunk.length)) off (ofOctets chunk) chunk := by
  have hget := gets_perGetManyBits (ofOctets chunk) off
  rwa [length_ofOctets, toOctets_ofOctets] at hget

/-- The octets of an open type go into fragments and come back. -/
theorem roundTrips_octets (chunk : List UInt8) :
    RoundTrips (perPutManyBits chunk (8 * chunk.length)) (perGetManyBits (8 * chunk.length))
      chunk :=
  ⟨_, puts_octets chunk, gets_octets chunk⟩

/-- What the round trip of an open type comes down to: the number of its octets. -/
theorem roundTrips_openType_iff (hputs : Puts encode bs) (hgets : Gets decode 0 (bs 0) value)
    (hne : bs 0 ≠ []) :
    RoundTrips (aperOpenTypePut encode) (aperOpenTypeGet decode) value ↔
      ¬ 16384 ∣ (toOctets (bs 0)).length := by
  have hencode := aperEncode_puts hputs hne
  have hput : aperOpenTypePut encode = putFragments (fun chunk => perPutManyBits chunk
      (8 * chunk.length)) ((toOctets (bs 0)).length + 1) (toOctets (bs 0)) := by
    funext po
    unfold aperOpenTypePut
    rw [hencode]
    rfl
  rw [hput]
  refine ⟨fun hround hdvd => ?_, fun h => ?_⟩
  · obtain ⟨cs, hcs, hnone⟩ := @fragments_run_none _ _
      (fun chunkBytes => perGetManyBits (8 * chunkBytes)) _ (fun chunk _ => roundTrips_octets chunk)
      _ (Nat.lt_succ_self _) hdvd
    obtain ⟨pd, behind, hpd⟩ := AsnBitData.exists_at 0 (cs 0)
    have hoctets : openTypeOctets pd = none := hnone 0 _ pd behind hpd
    have hget : aperOpenTypeGet decode pd = none := by
      show (openTypeOctets pd).bind _ = none
      rw [hoctets]
      rfl
    exact not_roundTrips hcs AsnBitOutp.empty hpd (by simp [hget]) hround
  · obtain ⟨cs, hcs, hread⟩ := (@roundTrips_fragments_iff _ _
      (fun chunkBytes => perGetManyBits (8 * chunkBytes)) _ (fun chunk _ => roundTrips_octets chunk)
      _ (Nat.lt_succ_self _)).mpr h
    refine ⟨cs, hcs, fun off pd behind rest hpd => ?_⟩
    obtain ⟨pd', hpd', hat⟩ := hread off pd behind rest hpd
    refine ⟨pd', ?_, hat⟩
    show (openTypeOctets pd).bind
      (fun r => (openTypeContent decode r.1).map (·, r.2)) = some (value, pd')
    have hoctets : openTypeOctets pd = some (toOctets (bs 0), pd') := hpd'
    rw [hoctets, Option.bind_some, openTypeContent_encoding hgets]
    rfl

end Complete

end E2Term
