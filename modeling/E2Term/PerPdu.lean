import E2Term.PerTypes
import E2Term.PerLocality
import E2Term.PerRoundTrip
import E2Term.PerValues

/-!
# PDUs as octets

`asn_encode` and `asn_decode` of an E2AP PDU in aligned PER.
-/

namespace E2Term

open Bits Digits BitCodec Per

/-! ## Complete encodings -/

section Complete

variable {α : Type} {encode : AsnBitOutp → Option AsnBitOutp} {decode : StateT AsnBitData Option α}
  {value : α}

/-- What comes back does so from octets of its own, in front of any others. An encoding without bits
is the octet zero. -/
theorem aperDecodeComplete_aperEncode (h : RoundTrips encode decode value) :
    ∃ buffer, aperEncode encode = some buffer ∧
      ∀ trailing, aperDecodeComplete decode (buffer ++ trailing) = some (value, buffer.length) := by
  obtain ⟨bs, hputs, hgets⟩ := h
  by_cases hne : bs 0 = []
  · obtain ⟨po, hpo, hbits⟩ := hputs AsnBitOutp.empty
    have hstart : BitSink.bits AsnBitOutp.empty = [] := rfl
    rw [hstart, List.length_nil, hne, List.nil_append] at hbits
    refine ⟨[0], ?_, fun trailing => ?_⟩
    · unfold aperEncode
      rw [hpo, Option.map_some, ← AsnBitOutp.length_bits, hbits, List.length_nil, if_pos rfl]
    · have hget := hgets 0
      rw [hne] at hget
      exact aperDecodeComplete_gets hget (List.nil_append _).symm
  · exact ⟨_, aperEncode_puts hputs hne, aperDecodeComplete_encoding (hgets 0) hne⟩

end Complete

/-! ## E2AP -/

/-- `asn_encode` of a PDU. -/
def asnEncode (pdu : Per.Value) : Option (List UInt8) :=
  aperEncode (AsnPer.E2APPDU.aperEncoder pdu)

/-- `asn_decode` of a PDU, with the octets that it counts as consumed. -/
def asnDecode (buffer : List UInt8) : Option (Per.Value × Nat) :=
  aperDecodeComplete AsnPer.E2APPDU.aperDecoder buffer

theorem wellFormed_E2APPDU : AsnPer.E2APPDU.wellFormed = true := by decide +kernel

section Pdu

variable {pdu pdu' : Per.Value} {buffer buffer' : List UInt8} {n : Nat}

/-- A PDU that fits has an encoding, which no other octets behind it change. -/
theorem asnDecode_asnEncode (h : AsnPer.E2APPDU.fits pdu = true) :
    ∃ buffer, asnEncode pdu = some buffer ∧
      ∀ trailing, asnDecode (buffer ++ trailing) = some (pdu, buffer.length) :=
  aperDecodeComplete_aperEncode (Typ.roundTrips _ wellFormed_E2APPDU h)

/-- A decoded PDU is one of the type. -/
theorem asnDecode_has (h : asnDecode buffer = some (pdu, n)) : AsnPer.E2APPDU.has pdu = true := by
  obtain ⟨⟨value, pd⟩, hpd, hrest⟩ := Option.bind_eq_some_iff.mp h
  have hvalue := Typ.returns_has _ wellFormed_E2APPDU _ _ _ hpd
  have hsame : value = pdu := by
    dsimp only at hrest
    split_ifs at hrest
    all_goals exact congrArg Prod.fst (Option.some.inj hrest)
  exact hsame ▸ hvalue

/-- The octets that are counted are needed, and they are enough. -/
theorem asnDecode_counted (h : asnDecode buffer = some (pdu, n)) :
    n ≤ buffer.length ∧
      (∀ trailing, asnDecode (buffer.take n ++ trailing) = some (pdu, n)) ∧
      ∀ m < n, asnDecode (buffer.take m) = none :=
  aperDecodeComplete_counted (Typ.isLocal _ wellFormed_E2APPDU) h

/-- The encoding of a PDU is not the beginning of that of another one. -/
theorem asnEncode_prefix_free (h : AsnPer.E2APPDU.fits pdu = true)
    (h' : AsnPer.E2APPDU.fits pdu' = true) (hne : pdu ≠ pdu')
    (hbuffer : asnEncode pdu = some buffer)
    (hbuffer' : asnEncode pdu' = some buffer') : ¬ buffer <+: buffer' := by
  rintro ⟨trailing, rfl⟩
  obtain ⟨b, hb, hdecode⟩ := asnDecode_asnEncode h
  obtain ⟨b', hb', hdecode'⟩ := asnDecode_asnEncode h'
  obtain rfl : b = buffer := Option.some.inj (hb.symm.trans hbuffer)
  obtain rfl : b' = b ++ trailing := Option.some.inj (hb'.symm.trans hbuffer')
  have hown := hdecode' []
  rw [List.append_nil, hdecode trailing] at hown
  exact hne (Prod.mk.inj (Option.some.inj hown)).1

/-- The setup request of a gNB with this transaction id. -/
def sampleSetupValue (transaction : Int) : Per.Value :=
  .choice 0 (.object 1 0 4 (.sequence [some (.sequenceOf
    [.object 49 0 0 (.integer transaction),
      .object 3 0 1 (.choice 0 (.sequence [some (.sequence [some (.octets [0x13, 0x40, 0x11]),
        some (.choice 0 (.bits (List.replicate 22 true)))]), none, none, none]))])]))

theorem sampleSetupValue_fits : AsnPer.E2APPDU.fits (sampleSetupValue 1) = true := by decide +kernel

theorem asnEncode_prefix_free_setup :
    ∃ buffer buffer', asnEncode (sampleSetupValue 1) = some buffer ∧
      asnEncode (sampleSetupValue 2) = some buffer' ∧ ¬ buffer <+: buffer' := by
  have h' : AsnPer.E2APPDU.fits (sampleSetupValue 2) = true := by decide +kernel
  obtain ⟨buffer, hbuffer, -⟩ := asnDecode_asnEncode sampleSetupValue_fits
  obtain ⟨buffer', hbuffer', -⟩ := asnDecode_asnEncode h'
  exact ⟨buffer, buffer', hbuffer, hbuffer',
    asnEncode_prefix_free sampleSetupValue_fits h' (by simp [sampleSetupValue]) hbuffer hbuffer'⟩

end Pdu

end E2Term
