import Mathlib.Tactic.Common

/-!
# E2AP messages and RMR message types

What the asn1c decoder hands to the terminator, cut down to the parts its handlers look at, and
the RMR message types they send and receive. An information element keeps its `id` apart from the
alternative its value holds: the handlers test both.
-/

namespace E2Term

/-! ## Procedure codes and procedure states -/

inductive ProcedureCode where
  | e2setup
  | errorIndication
  | reset
  | ricControl
  | ricIndication
  | ricServiceQuery
  | ricServiceUpdate
  | ricSubscription
  | ricSubscriptionDelete
  | e2nodeConfigurationUpdate
  | e2connectionUpdate
  | ricSubscriptionDeleteRequired
  deriving DecidableEq, Repr

/-- The `ProcedureCode_id_*` constants. -/
def ProcedureCode.toInt : ProcedureCode → Int
  | e2setup => 1
  | errorIndication => 2
  | reset => 3
  | ricControl => 4
  | ricIndication => 5
  | ricServiceQuery => 6
  | ricServiceUpdate => 7
  | ricSubscription => 8
  | ricSubscriptionDelete => 9
  | e2nodeConfigurationUpdate => 10
  | e2connectionUpdate => 11
  | ricSubscriptionDeleteRequired => 12

/-- `E2T_Procedure_States`. -/
inductive E2TProcedureStates where
  | e2SetupProcedureNotInitiated
  | e2SetupProcedureOngoing
  | e2SetupProcedureCompleted
  | ricServiceUpdateProcedureOngoing
  | ricServiceUpdateProcedureCompleted
  | ricSubsProcedureOngoing
  | ricSubsProcedureCompleted
  | ricIndicationProcedureOngoing
  | ricIndicationProcedureCompleted
  | ricSubsDelProcedureOngoing
  | ricSubsDelProcedureCompleted
  | controlProcedureOngoing
  | controlProcedureCompleted
  | e2NodeConfUpdateProcedureOngoing
  | e2NodeConfUpdateProcedureCompleted
  | resetProcedureOngoing
  | resetProcedureCompleted
  deriving DecidableEq, Repr

/-- `E2NodeConnectionHandling`, the value of `connectionHandlingPerE2NodeMap`. -/
structure E2NodeConnectionHandling where
  e2tProcedureOngoingStatus : E2TProcedureStates
  e2SetupProcedureTransactionId : Int
  deriving DecidableEq, Repr

/-! ## RMR message types -/

inductive MsgType where
  | ricE2SetupReq
  | ricE2SetupResp
  | ricE2SetupFailure
  | ricE2NodeConfigUpdate
  | ricE2NodeConfigUpdateAck
  | ricE2NodeConfigUpdateFailure
  | ricErrorIndication
  | ricE2RanErrorIndication
  | ricE2RicErrorIndication
  | ricSubReq
  | ricSubResp
  | ricSubFailure
  | ricSubDelReq
  | ricSubDelResp
  | ricSubDelRequired
  | ricControlReq
  | ricControlAck
  | ricControlFailure
  | ricIndication
  | ricServiceQuery
  | ricServiceUpdate
  | ricServiceUpdateAck
  | ricServiceUpdateFailure
  | ricE2ResetReq
  | ricE2ResetResp
  | ricSctpConnectionFailure
  | ricSctpClearAll
  | e2TermKeepAliveReq
  | e2TermKeepAliveResp
  | ricHealthCheckReq
  | ricHealthCheckResp
  | other (n : Int)
  deriving DecidableEq, Repr

/-! ## Identities of E2 nodes -/

/-- A PLMN identity, an `OCTET STRING (SIZE (3))`. -/
structure PlmnId where
  octet0 : UInt8
  octet1 : UInt8
  octet2 : UInt8
  deriving DecidableEq, Repr

/-- `BIT_STRING_t`. -/
structure BitString where
  buf : List UInt8
  bitsUnused : Nat
  deriving DecidableEq, Repr

/-- `GlobalE2node_gNB_ID_t`. `gnbId` is `none` when the choice is not `gnb_ID`; the two optional
identities are the values `asn_INTEGER2long` reads. -/
structure GlobalE2nodeGNBID where
  plmnId : PlmnId
  gnbId : Option BitString
  gNBCUUPID : Option Int
  gNBDUID : Option Int
  deriving DecidableEq, Repr

/-- `GlobalE2node_en_gNB_ID_t`. -/
structure GlobalE2nodeEnGNBID where
  plmnIdentity : PlmnId
  gNBID : Option BitString
  deriving DecidableEq, Repr

/-- `ENB_ID_Choice_t`. -/
inductive ENBIDChoice where
  | nothing
  | enbIDmacro (b : BitString)
  | enbIDshortmacro (b : BitString)
  | enbIDlongmacro (b : BitString)
  deriving DecidableEq, Repr

/-- `GlobalE2node_ng_eNB_ID_t`. -/
structure GlobalE2nodeNgENBID where
  plmnId : PlmnId
  enbId : ENBIDChoice
  deriving DecidableEq, Repr

/-- `ENB_ID_t`. -/
inductive ENBID where
  | nothing
  | macroENBID (b : BitString)
  | homeENBID (b : BitString)
  | shortMacroENBID (b : BitString)
  | longMacroENBID (b : BitString)
  deriving DecidableEq, Repr

/-- `GlobalE2node_eNB_ID_t`. -/
structure GlobalE2nodeENBID where
  plmnIdentity : PlmnId
  eNBID : ENBID
  deriving DecidableEq, Repr

/-- `GlobalE2node_ID_t`. -/
inductive GlobalE2nodeID where
  | nothing
  | gNB (id : GlobalE2nodeGNBID)
  | enGNB (id : GlobalE2nodeEnGNBID)
  | ngENB (id : GlobalE2nodeNgENBID)
  | eNB (id : GlobalE2nodeENBID)
  deriving DecidableEq, Repr

/-! ## Information elements -/

/-- A `ProtocolIE-Field`. -/
structure ProtocolIE (V : Type) where
  id : Nat
  value : V
  deriving DecidableEq, Repr

/-! The `ProtocolIE_ID_id_*` constants the handlers test. -/

def idCause : Nat := 1
def idCriticalityDiagnostics : Nat := 2
def idGlobalE2nodeID : Nat := 3
def idRICrequestID : Nat := 29
def idTransactionID : Nat := 49

/-- `RICrequestID_t`. Both numbers are constrained to `0..65535`, so the casts to `int` keep
them. -/
structure RICrequestID where
  ricRequestorID : Int
  ricInstanceID : Int
  deriving DecidableEq, Repr

inductive E2setupRequestIEs where
  | globalE2nodeID (g : GlobalE2nodeID)
  | transactionID (t : Int)
  | other
  deriving DecidableEq, Repr

/-- The values of `RICserviceUpdate_IEs`. The handler sends the PDU on without reading them. -/
inductive RICserviceUpdateIEs where
  | transactionID (t : Int)
  | other
  deriving DecidableEq, Repr

inductive ErrorIndicationIEs where
  | transactionID (t : Int)
  | ricRequestID (r : RICrequestID)
  | cause
  | criticalityDiagnostics (procedureCode : Option Int)
  | other
  deriving DecidableEq, Repr

/-- The values of `RICindication_IEs`, `RICcontrolAcknowledge_IEs` and `RICcontrolFailure_IEs`, of
which the handlers read the same alternative. -/
inductive RequestIEs where
  | ricRequestID (r : RICrequestID)
  | other
  deriving DecidableEq, Repr

/-! ## PDUs -/

/-- An initiating message, by the procedure code `asnInitiatingRequest` switches on. -/
inductive InitiatingMessage where
  | e2setup (ies : List (ProtocolIE E2setupRequestIEs))
  | ricServiceUpdate (ies : List (ProtocolIE RICserviceUpdateIEs))
  | e2nodeConfigurationUpdate
  | errorIndication (ies : List (ProtocolIE ErrorIndicationIEs))
  | reset
  | ricIndication (ies : List (ProtocolIE RequestIEs))
  | ricSubscriptionDeleteRequired
  | other (procedureCode : Int)
  deriving DecidableEq, Repr

/-- A successful outcome, by the procedure code `asnSuccessfulMsg` switches on. -/
inductive SuccessfulOutcome where
  | reset
  | ricControl (ies : List (ProtocolIE RequestIEs))
  | ricSubscription
  | ricSubscriptionDelete
  | e2connectionUpdate
  | other (procedureCode : Int)
  deriving DecidableEq, Repr

/-- An unsuccessful outcome, by the procedure code `asnUnSuccsesfulMsg` switches on. -/
inductive UnsuccessfulOutcome where
  | ricControl (ies : List (ProtocolIE RequestIEs))
  | ricSubscription
  | ricSubscriptionDelete
  | e2connectionUpdate
  | other (procedureCode : Int)
  deriving DecidableEq, Repr

/-- `E2AP_PDU_t`. -/
inductive E2APPDU where
  | nothing
  | initiatingMessage (m : InitiatingMessage)
  | successfulOutcome (m : SuccessfulOutcome)
  | unsuccessfulOutcome (m : UnsuccessfulOutcome)
  deriving DecidableEq, Repr

end E2Term
