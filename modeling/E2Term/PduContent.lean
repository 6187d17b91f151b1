import E2Term.E2AP
import E2Term.PerPdu

/-!
# What handlers read of a decoded PDU

The handlers read the structures that the decoder fills. A value of the type `AsnPer.E2APPDU` is
such a structure, and what they look at in it is the PDU of their model.
-/

namespace E2Term

open Bits

namespace Per

/-! ## Identities of nodes -/

/-- `OCTET_STRING_t` of a PLMN identity. -/
def Value.toPlmnId : Value → Option PlmnId
  | .octets [octet0, octet1, octet2] => some ⟨octet0, octet1, octet2⟩
  | _ => none

/-- `BIT_STRING_t`: the bits that fill up its last octet are zero. -/
def Value.toBitString : Value → Option BitString
  | .bits bs => some ⟨toOctets bs, padding bs.length⟩
  | _ => none

/-- `long`, or what `asn_INTEGER2long` reads. -/
def Value.toLong : Value → Option Int
  | .integer n => some n
  | _ => none

/-- `GlobalE2node_gNB_ID_t`. -/
def Value.toGNB : Value → Option GlobalE2nodeGNBID
  | .sequence [some (.sequence [some plmnId, some (.choice _ gnbId)]), _, cuup, du] => do
    return {
      plmnId := ← plmnId.toPlmnId
      gnbId := some (← gnbId.toBitString)
      gNBCUUPID := cuup.bind Value.toLong
      gNBDUID := du.bind Value.toLong }
  | _ => none

/-- `GlobalE2node_en_gNB_ID_t`. -/
def Value.toEnGNB : Value → Option GlobalE2nodeEnGNBID
  | .sequence (some (.sequence [some plmnIdentity, some (.choice _ gNBID)]) :: _) => do
    return ⟨← plmnIdentity.toPlmnId, some (← gNBID.toBitString)⟩
  | _ => none

/-- `ENB_ID_Choice_t`. -/
def toENBIDChoice (present : Nat) (b : BitString) : ENBIDChoice :=
  match present with
  | 0 => ENBIDChoice.enbIDmacro b
  | 1 => ENBIDChoice.enbIDshortmacro b
  | _ => ENBIDChoice.enbIDlongmacro b

/-- `GlobalE2node_ng_eNB_ID_t`. -/
def Value.toNgENB : Value → Option GlobalE2nodeNgENBID
  | .sequence (some (.sequence [some plmnId, some (.choice present enbId)]) :: _) => do
    return ⟨← plmnId.toPlmnId, toENBIDChoice present (← enbId.toBitString)⟩
  | _ => none

/-- `ENB_ID_t`. -/
def toENBID (present : Nat) (b : BitString) : ENBID :=
  match present with
  | 0 => .macroENBID b
  | 1 => .homeENBID b
  | 2 => .shortMacroENBID b
  | _ => .longMacroENBID b

/-- `GlobalE2node_eNB_ID_t`. -/
def Value.toENB : Value → Option GlobalE2nodeENBID
  | .sequence (some (.sequence [some plmnIdentity, some (.choice present eNBID)]) :: _) => do
    return ⟨← plmnIdentity.toPlmnId, toENBID present (← eNBID.toBitString)⟩
  | _ => none

/-- `GlobalE2node_ID_t`. -/
def Value.toGlobalE2nodeID : Value → Option GlobalE2nodeID
  | .choice 0 gNB => gNB.toGNB.map GlobalE2nodeID.gNB
  | .choice 1 enGNB => enGNB.toEnGNB.map GlobalE2nodeID.enGNB
  | .choice 2 ngENB => ngENB.toNgENB.map GlobalE2nodeID.ngENB
  | .choice 3 eNB => eNB.toENB.map GlobalE2nodeID.eNB
  | _ => none

/-! ## Information elements -/

/-- The list of a `ProtocolIE-Container`; `content` reads the alternative of a value. -/
def Value.toIEs {V : Type} (content : Nat → Value → Option V) :
    Value → Option (List (ProtocolIE V))
  | .sequence [some (.sequenceOf ies)] => ies.mapM fun ie =>
    match ie with
    | .object id _ present value => (content present value).map fun v => ⟨id.toNat, v⟩
    | _ => none
  | _ => none

/-- `E2setupRequestIEs__value`. -/
def setupContent (present : Nat) (value : Value) : Option E2setupRequestIEs :=
  match present with
  | 0 => value.toLong.map .transactionID
  | 1 => value.toGlobalE2nodeID.map .globalE2nodeID
  | _ => some .other

/-- `RICserviceUpdate_IEs__value`. -/
def updateContent (present : Nat) (value : Value) : Option RICserviceUpdateIEs :=
  match present with
  | 0 => value.toLong.map .transactionID
  | _ => some .other

/-- `RICrequestID_t`. -/
def Value.toRICrequestID : Value → Option RICrequestID
  | .sequence [some ricRequestorID, some ricInstanceID] => do
    return ⟨← ricRequestorID.toLong, ← ricInstanceID.toLong⟩
  | _ => none

/-- `ErrorIndication_IEs__value`. -/
def errorContent (present : Nat) (value : Value) : Option ErrorIndicationIEs :=
  match present, value with
  | 0, value => value.toLong.map .transactionID
  | 1, value => value.toRICrequestID.map .ricRequestID
  | 3, _ => some .cause
  | 4, .sequence (procedureCode :: _) =>
    some (.criticalityDiagnostics (procedureCode.bind Value.toLong))
  | _, _ => some .other

/-- The values of the messages whose request identity is sent on. -/
def requestContent (present : Nat) (value : Value) : Option RequestIEs :=
  match present with
  | 0 => value.toRICrequestID.map .ricRequestID
  | _ => some .other

/-! ## PDUs -/

/-- The procedure that an initiating message is of. -/
def toInitiatingMessage (procedureCode : Int) (value : Value) : Option InitiatingMessage :=
  if procedureCode = ProcedureCode.e2setup.toInt then (value.toIEs setupContent).map .e2setup
  else if procedureCode = ProcedureCode.ricServiceUpdate.toInt then
    (value.toIEs updateContent).map .ricServiceUpdate
  else if procedureCode = ProcedureCode.e2nodeConfigurationUpdate.toInt then
    some .e2nodeConfigurationUpdate
  else if procedureCode = ProcedureCode.errorIndication.toInt then
    (value.toIEs errorContent).map .errorIndication
  else if procedureCode = ProcedureCode.reset.toInt then some .reset
  else if procedureCode = ProcedureCode.ricIndication.toInt then
    (value.toIEs requestContent).map .ricIndication
  else if procedureCode = ProcedureCode.ricSubscriptionDeleteRequired.toInt then
    some .ricSubscriptionDeleteRequired
  else some (.other procedureCode)

/-- The procedure that a successful outcome is of. -/
def toSuccessfulOutcome (procedureCode : Int) (value : Value) : Option SuccessfulOutcome :=
  if procedureCode = ProcedureCode.reset.toInt then some .reset
  else if procedureCode = ProcedureCode.ricControl.toInt then
    (value.toIEs requestContent).map .ricControl
  else if procedureCode = ProcedureCode.ricSubscription.toInt then some .ricSubscription
  else if procedureCode = ProcedureCode.ricSubscriptionDelete.toInt then
    some .ricSubscriptionDelete
  else if procedureCode = ProcedureCode.e2connectionUpdate.toInt then some .e2connectionUpdate
  else some (.other procedureCode)

/-- The procedure that an unsuccessful outcome is of. -/
def toUnsuccessfulOutcome (procedureCode : Int) (value : Value) : Option UnsuccessfulOutcome :=
  if procedureCode = ProcedureCode.ricControl.toInt then
    (value.toIEs requestContent).map .ricControl
  else if procedureCode = ProcedureCode.ricSubscription.toInt then some .ricSubscription
  else if procedureCode = ProcedureCode.ricSubscriptionDelete.toInt then
    some .ricSubscriptionDelete
  else if procedureCode = ProcedureCode.e2connectionUpdate.toInt then some .e2connectionUpdate
  else some (.other procedureCode)

/-- `E2AP_PDU_t`. -/
def Value.toE2APPDU : Value → Option E2APPDU
  | .choice 0 (.object procedureCode _ _ value) =>
    (toInitiatingMessage procedureCode value).map .initiatingMessage
  | .choice 1 (.object procedureCode _ _ value) =>
    (toSuccessfulOutcome procedureCode value).map .successfulOutcome
  | .choice 2 (.object procedureCode _ _ value) =>
    (toUnsuccessfulOutcome procedureCode value).map .unsuccessfulOutcome
  | _ => none

end Per

end E2Term
