import E2Term.ForwardedTypes
import E2Term.Lib.XerReader
import E2Term.Machine
import E2Term.XerEncoder

/-!
# What the forwarded XML says

`buildAndSendSetupRequest` takes newlines, tabs and blanks out of the XML text of a PDU. Between
elements and inside octet and bit strings they are layout, so what goes out still is a text of a
PDU: of the one that is received, but for the blanks in its PrintableStrings.
-/

namespace E2Term

open Effect Xer

/-- The element of a PDU. -/
def pduTag : Xer.Name := AsnDef.name "E2AP-PDU"

/-- `text` is an XML text of the PDU. -/
def PduText (pdu : Value) (text : Xer.Text) : Prop := (Elements.cons pduTag pdu .nil).Text text

/-- What is assumed of the decoder: it undoes the encoder on the forwarded PDUs, and of the texts
of such a PDU, which differ in layout only, it reads all alike. -/
structure DecodesXer (decode : Xer.Text → Option Value) : Prop where
  undoes : ∀ pdu, AsnDef.ForwardedPDU.has pdu = true → decode (xerEncode pduTag pdu) = some pdu
  ignoresLayout : ∀ pdu text text', AsnDef.ForwardedPDU.has pdu = true → PduText pdu text →
    PduText pdu text' → decode text = decode text'

/-- A decoder as it is assumed to be. -/
theorem decodesXer_readDocument : DecodesXer (readDocument pduTag AsnDef.ForwardedPDU) where
  undoes pdu hpdu := readDocument_of hpdu (xerEncode_text pduTag pdu)
  ignoresLayout _ _ _ hpdu htext htext' :=
    (readDocument_of hpdu htext).trans (readDocument_of hpdu htext').symm

section Decoder

variable {decode : Xer.Text → Option Value} {pdu : Value}

theorem stripLayout_eq_unlaid (res : List UInt8) : stripLayout res = Xer.unlaid res := by
  unfold stripLayout Xer.unlaid
  refine List.filter_congr fun b _ => ?_
  simp [isLayout, Bool.and_assoc]

/-- Without its layout, the text of a PDU is read as the PDU without the blanks in its
PrintableStrings. -/
theorem decode_stripLayout (hdecode : DecodesXer decode)
    (hpdu : AsnDef.ForwardedPDU.has pdu = true) :
    decode (stripLayout (xerEncode pduTag pdu)) = some pdu.unlaid := by
  have hpdu' : AsnDef.ForwardedPDU.has pdu.unlaid = true := Typ.has_unlaid _ hpdu
  have htext : PduText pdu.unlaid (stripLayout (xerEncode pduTag pdu)) := by
    rw [stripLayout_eq_unlaid]
    exact Elements.Text.unlaid _ (xerEncode_text pduTag pdu)
  calc decode (stripLayout (xerEncode pduTag pdu))
      = decode (xerEncode pduTag pdu.unlaid) :=
        hdecode.ignoresLayout pdu.unlaid _ _ hpdu' htext (xerEncode_text pduTag pdu.unlaid)
    _ = some pdu.unlaid := hdecode.undoes pdu.unlaid hpdu'

end Decoder

/-! ## A setup request with an AMF -/

/-- A name of the schema. -/
def schemaName (s : String) : Xer.Name :=
  if h : AsnDef.Plain s then AsnDef.name s h else AsnDef.name "unnamed"

def elementsOf (l : List (String × Value)) : Value :=
  .elements (l.foldr (fun e rest => .cons (schemaName e.1) e.2 rest) .nil)

/-- An information element with the number `id`. -/
def sampleIE (id : Int) (type : String) (content : Value) : Value :=
  elementsOf [("id", .integer id), ("criticality", .enumerated (schemaName "reject")),
    ("value", elementsOf [(type, content)])]

/-- A gNB. -/
def sampleGlobalGNB : Value :=
  elementsOf [("gNB", elementsOf [("global-gNB-ID", elementsOf
    [("plmn-id", .octetString [0x13, 0x40, 0x11]),
      ("gnb-id", elementsOf [("gnb-ID", .bitString (List.replicate 22 true))])])])]

def sampleOID : PrintableString := ⟨text "1.3.6.1.4.1", by decide +kernel⟩

def sampleAmf : PrintableString := ⟨text "amf-1", by decide +kernel⟩

/-- An AMF with a blank in its name, and the same name without it. -/
def blankAmf : PrintableString := ⟨text "amf 1", by decide +kernel⟩

def blanklessAmf : PrintableString := ⟨text "amf1", by decide +kernel⟩

def sampleFunction : Value :=
  elementsOf [("ranFunctionID", .integer 1),
    ("ranFunctionDefinition", .octetString (List.replicate 20 0x30)),
    ("ranFunctionRevision", .integer 1),
    ("ranFunctionOID", .printableString sampleOID)]

/-- The configuration of the interface to an AMF. -/
def sampleInterface (amf : PrintableString) : Value :=
  elementsOf [("e2nodeComponentInterfaceType", .enumerated (schemaName "ng")),
    ("e2nodeComponentID", elementsOf
      [("e2nodeComponentInterfaceTypeNG", elementsOf [("amf-name", .printableString amf)])]),
    ("e2nodeComponentConfiguration", elementsOf
      [("e2nodeComponentRequestPart", .octetString [0x72]),
        ("e2nodeComponentResponsePart", .octetString [0x73])])]

/-- The PDU of an E2 setup request of a gNB at the AMF. -/
def sampleSetupPDU (amf : PrintableString) : Value :=
  let ies : List Value :=
    [sampleIE 49 "TransactionID" (.integer 1),
      sampleIE 3 "GlobalE2node-ID" sampleGlobalGNB,
      sampleIE 10 "RANfunctions-List" (elementsOf
        [("ProtocolIE-SingleContainer", sampleIE 8 "RANfunction-Item" sampleFunction)]),
      sampleIE 50 "E2nodeComponentConfigAddition-List" (elementsOf
        [("ProtocolIE-SingleContainer",
          sampleIE 51 "E2nodeComponentConfigAddition-Item" (sampleInterface amf))])]
  elementsOf [("initiatingMessage", elementsOf
    [("procedureCode", .integer 1),
      ("criticality", .enumerated (schemaName "reject")),
      ("value", elementsOf [("E2setupRequest", elementsOf
        [("protocolIEs", elementsOf (ies.map fun ie => ("E2setupRequestIEs", ie)))])])])]

def sampleMessage : ReportingMessages := ⟨CString.Buf.zeros maxEnodbNameSize, 0, 0⟩

end E2Term
