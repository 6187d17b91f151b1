import E2Term.ForwardedTypes
import E2Term.PerCodec

/-!
# Types of E2AP

The type descriptors that `asn1c` generated for the information elements and the messages of E2AP,
with their PER constraints, the positions of the values of an enumeration, and the names that the
XML encoding prints. A constraint of a member stands in place of the one of its type.
-/

namespace E2Term

namespace AsnPer

open Per

/-! ## Descriptors -/

/-- The characters of an identifier. -/
def Identifier (s : String) : Prop := AsnDef.Plain s

instance (s : String) : Decidable (Identifier s) :=
  inferInstanceAs (Decidable (AsnDef.Plain s))

def name (s : String) (h : Identifier s := by decide +kernel) : Xer.Name := AsnDef.name s h

/-- The bounds of a constraint, of which the range has the bits that it names. -/
def Bounds (rangeBits lowerBound upperBound : Int) : Prop :=
  lowerBound ≤ upperBound ∧ (0 ≤ rangeBits → upperBound - lowerBound < 2 ^ rangeBits.toNat)

instance (rangeBits lowerBound upperBound : Int) :
    Decidable (Bounds rangeBits lowerBound upperBound) :=
  inferInstanceAs (Decidable (_ ∧ _))

/-- `{ APC_CONSTRAINED, range_bits, effective_bits, lower_bound, upper_bound }`. -/
def apcConstrained (rangeBits effectiveBits lowerBound upperBound : Int)
    (h : Bounds rangeBits lowerBound upperBound := by decide) : AsnPerConstraint :=
  ⟨false, rangeBits, effectiveBits, lowerBound, upperBound, h.1, h.2⟩

/-- The same with `APC_EXTENSIBLE`. -/
def apcExtensible (rangeBits effectiveBits lowerBound upperBound : Int)
    (h : Bounds rangeBits lowerBound upperBound := by decide) : AsnPerConstraint :=
  ⟨true, rangeBits, effectiveBits, lowerBound, upperBound, h.1, h.2⟩

/-- A member of a SEQUENCE, or an alternative of a CHOICE or of an open type. -/
structure Member where
  name : Xer.Name
  optional : Bool
  type : Typ

/-- A mandatory member, or an alternative. -/
def req (s : String) (t : Typ) (h : Identifier s := by decide +kernel) : Member :=
  ⟨name s h, false, t⟩

/-- An optional member. -/
def opt (s : String) (t : Typ) (h : Identifier s := by decide +kernel) : Member :=
  ⟨name s h, true, t⟩

/-- The alternative that `key` selects. -/
def row (key : Int) (s : String) (t : Typ) (h : Identifier s := by decide +kernel) : Int × Member :=
  (key, req s t h)

def fields (l : List Member) : Fields :=
  l.foldr (fun m rest => .cons m.name m.optional m.type rest) .nil

def sequence (l : List Member) : Typ := .sequence true (fields l)

def choice (ct : AsnPerConstraint) (extStart : Nat) (l : List Member) : Typ :=
  .choice ct (some extStart) (fields l)

/-- An enumeration, with its extension position, and all its values in the root. -/
def enumerated (ct : AsnPerConstraint) (extension : Nat) (ids : List Xer.Name) : Typ :=
  .enumerated ct ⟨ids.length, extension⟩ ids

/-- An information element with the rows of its object set: the number, and the position of the
alternative that it selects. -/
def ieObjectOf (rows : List (Int × Nat)) (l : List Member) : Typ :=
  .object (name "id") (apcConstrained 16 16 0 65535) rows (fields l)

/-- An information element where each number selects an alternative of its own. -/
def ieObject (l : List (Int × Member)) : Typ := ieObjectOf (l.map (·.1)).zipIdx (l.map (·.2))

/-- A list of `ProtocolIE-SingleContainer`s. -/
def singleContainers (ct : AsnPerConstraint) (key : Int) (s : String) (t : Typ)
    (h : Identifier s := by decide +kernel) : Typ :=
  .sequenceOf ct (name "ProtocolIE-SingleContainer") (ieObject [row key s t h])

/-- A message with its `ProtocolIE-Container`. -/
def protocolIEs (s : String) (t : Typ) (h : Identifier s := by decide +kernel) : Typ :=
  sequence [req "protocolIEs" (.sequenceOf (apcConstrained 16 16 0 65535) (name s h) t)]

def procedureCodeName : Xer.Name := name "procedureCode"

/-- A PDU with the rows of `E2AP-ELEMENTARY-PROCEDURES` that have a message of its kind. -/
def elementaryProcedure (l : List (Int × Member)) : Typ :=
  .object procedureCodeName (apcConstrained 8 8 0 255) (l.map (·.1)).zipIdx
    (fields (l.map (·.2)))

/-- The names of the values of a criticality. -/
def criticalityIds : List Xer.Name := [name "reject", name "ignore", name "notify"]

/-- The names of the other two elements of such an object. -/
def criticalityName : Xer.Name := name "criticality"

def valueName : Xer.Name := name "value"

/-! ## Identities of nodes -/

def PLMNIdentity : Typ := .octetString (apcConstrained 0 0 3 3)

def GNBIDChoice : Typ :=
  choice (apcExtensible 0 0 0 0) 1 [req "gnb-ID" (.bitString (apcConstrained 4 4 22 32))]

def GlobalgNBID : Typ := sequence [req "plmn-id" PLMNIdentity, req "gnb-id" GNBIDChoice]

def ENGNBID : Typ :=
  choice (apcExtensible 0 0 0 0) 1 [req "gNB-ID" (.bitString (apcConstrained 4 4 22 32))]

def GlobalenGNBID : Typ := sequence [req "pLMN-Identity" PLMNIdentity, req "gNB-ID" ENGNBID]

def GNBCUUPID : Typ := .integer (apcConstrained 36 (-1) 0 68719476735)

def GNBDUID : Typ := .integer (apcConstrained 36 (-1) 0 68719476735)

def NGENBDUID : Typ := .integer (apcConstrained 36 (-1) 0 68719476735)

def ENBIDChoice : Typ :=
  choice (apcExtensible 2 2 0 2) 3
    [req "enb-ID-macro" (.bitString (apcConstrained 0 0 20 20)),
      req "enb-ID-shortmacro" (.bitString (apcConstrained 0 0 18 18)),
      req "enb-ID-longmacro" (.bitString (apcConstrained 0 0 21 21))]

def GlobalngeNBID : Typ := sequence [req "plmn-id" PLMNIdentity, req "enb-id" ENBIDChoice]

def ENBID : Typ :=
  choice (apcExtensible 1 1 0 1) 2
    [req "macro-eNB-ID" (.bitString (apcConstrained 0 0 20 20)),
      req "home-eNB-ID" (.bitString (apcConstrained 0 0 28 28)),
      req "short-Macro-eNB-ID" (.bitString (apcConstrained 0 0 18 18)),
      req "long-Macro-eNB-ID" (.bitString (apcConstrained 0 0 21 21))]

def GlobalENBID : Typ := sequence [req "pLMN-Identity" PLMNIdentity, req "eNB-ID" ENBID]

def GlobalE2nodegNBID : Typ :=
  sequence
    [req "global-gNB-ID" GlobalgNBID, opt "global-en-gNB-ID" GlobalenGNBID,
      opt "gNB-CU-UP-ID" GNBCUUPID, opt "gNB-DU-ID" GNBDUID]

def GlobalE2nodeengNBID : Typ :=
  sequence
    [req "global-en-gNB-ID" GlobalenGNBID, opt "en-gNB-CU-UP-ID" GNBCUUPID,
      opt "en-gNB-DU-ID" GNBDUID]

def GlobalE2nodengeNBID : Typ :=
  sequence
    [req "global-ng-eNB-ID" GlobalngeNBID, opt "global-eNB-ID" GlobalENBID,
      opt "ngENB-DU-ID" NGENBDUID]

def GlobalE2nodeeNBID : Typ := sequence [req "global-eNB-ID" GlobalENBID]

def GlobalE2nodeID : Typ :=
  choice (apcExtensible 2 2 0 3) 4
    [req "gNB" GlobalE2nodegNBID, req "en-gNB" GlobalE2nodeengNBID,
      req "ng-eNB" GlobalE2nodengeNBID, req "eNB" GlobalE2nodeeNBID]

def GlobalNGRANNodeID : Typ :=
  choice (apcExtensible 1 1 0 1) 2 [req "gNB" GlobalgNBID, req "ng-eNB" GlobalngeNBID]

def GlobalRICID : Typ :=
  sequence [req "pLMN-Identity" PLMNIdentity, req "ric-ID" (.bitString (apcConstrained 0 0 20 20))]

/-! ## Causes and diagnostics -/

def RICrequestID : Typ :=
  sequence
    [req "ricRequestorID" (.integer (apcConstrained 16 16 0 65535)),
      req "ricInstanceID" (.integer (apcConstrained 16 16 0 65535))]

def CauseRICrequest : Typ :=
  enumerated (apcExtensible 4 4 0 13) 15
    [name "ran-function-id-invalid", name "action-not-supported", name "excessive-actions",
      name "duplicate-action", name "duplicate-event-trigger", name "function-resource-limit",
      name "request-id-unknown", name "inconsistent-action-subsequent-action-sequence",
      name "control-message-invalid", name "ric-call-process-id-invalid",
      name "control-timer-expired", name "control-failed-to-execute", name "system-not-ready",
      name "unspecified"]

def CauseRICservice : Typ :=
  enumerated (apcExtensible 2 2 0 2) 4
    [name "ran-function-not-supported", name "excessive-functions", name "ric-resource-limit"]

def CauseE2node : Typ := enumerated (apcExtensible 0 0 0 0) 2 [name "e2node-component-unknown"]

def CauseTransport : Typ :=
  enumerated (apcExtensible 1 1 0 1) 3 [name "unspecified", name "transport-resource-unavailable"]

def CauseProtocol : Typ :=
  enumerated (apcExtensible 3 3 0 6) 8
    [name "transfer-syntax-error", name "abstract-syntax-error-reject",
      name "abstract-syntax-error-ignore-and-notify",
      name "message-not-compatible-with-receiver-state", name "semantic-error",
      name "abstract-syntax-error-falsely-constructed-message", name "unspecified"]

def CauseMisc : Typ :=
  enumerated (apcExtensible 2 2 0 3) 5
    [name "control-processing-overload", name "hardware-failure", name "om-intervention",
      name "unspecified"]

def Cause : Typ :=
  choice (apcExtensible 3 3 0 5) 6
    [req "ricRequest" CauseRICrequest, req "ricService" CauseRICservice, req "e2Node" CauseE2node,
      req "transport" CauseTransport, req "protocol" CauseProtocol, req "misc" CauseMisc]

def ProcedureCode : Typ := .integer (apcConstrained 8 8 0 255)

def TriggeringMessage : Typ :=
  enumerated (apcConstrained 2 2 0 2) 0
    [name "initiating-message", name "successful-outcome", name "unsuccessfull-outcome"]

def Criticality : Typ := enumerated (apcConstrained 2 2 0 2) 0 criticalityIds

def ProtocolIEID : Typ := .integer (apcConstrained 16 16 0 65535)

def TypeOfError : Typ :=
  enumerated (apcExtensible 1 1 0 1) 3 [name "not-understood", name "missing"]

def CriticalityDiagnosticsIEItem : Typ :=
  sequence
    [req "iECriticality" Criticality, req "iE-ID" ProtocolIEID, req "typeOfError" TypeOfError]

def CriticalityDiagnosticsIEList : Typ :=
  .sequenceOf (apcConstrained 8 8 1 256) (name "CriticalityDiagnostics-IE-Item")
    CriticalityDiagnosticsIEItem

def CriticalityDiagnostics : Typ :=
  sequence
    [opt "procedureCode" ProcedureCode, opt "triggeringMessage" TriggeringMessage,
      opt "procedureCriticality" Criticality, opt "ricRequestorID" RICrequestID,
      opt "iEsCriticalityDiagnostics" CriticalityDiagnosticsIEList]

def TimeToWait : Typ :=
  enumerated (apcExtensible 3 3 0 5) 7
    [name "v1s", name "v2s", name "v5s", name "v10s", name "v20s", name "v60s"]

def TransactionID : Typ := .integer (apcExtensible 8 8 0 255)

/-! ## Functions -/

def RANfunctionID : Typ := .integer (apcConstrained 12 12 0 4095)

def RANfunctionDefinition : Typ := .octetString .noSize

def RANfunctionRevision : Typ := .integer (apcConstrained 12 12 0 4095)

def RANfunctionOID : Typ := .printableString (apcExtensible 10 10 1 1000)

def RANfunctionItem : Typ :=
  sequence
    [req "ranFunctionID" RANfunctionID, req "ranFunctionDefinition" RANfunctionDefinition,
      req "ranFunctionRevision" RANfunctionRevision, req "ranFunctionOID" RANfunctionOID]

def RANfunctionsList : Typ :=
  singleContainers (apcConstrained 8 8 1 256) 8 "RANfunction-Item" RANfunctionItem

def RANfunctionIDItem : Typ :=
  sequence [req "ranFunctionID" RANfunctionID, req "ranFunctionRevision" RANfunctionRevision]

def RANfunctionsIDList : Typ :=
  singleContainers (apcConstrained 8 8 1 256) 6 "RANfunctionID-Item" RANfunctionIDItem

def RANfunctionIDcauseItem : Typ := sequence [req "ranFunctionID" RANfunctionID, req "cause" Cause]

def RANfunctionsIDcauseList : Typ :=
  singleContainers (apcConstrained 8 8 1 256) 7 "RANfunctionIDcause-Item" RANfunctionIDcauseItem

/-! ## Component configurations -/

def E2nodeComponentInterfaceType : Typ :=
  enumerated (apcExtensible 3 3 0 6) 8
    [name "ng", name "xn", name "e1", name "f1", name "w1", name "s1", name "x2"]

def AMFName : Typ := .printableString (apcExtensible 8 8 1 150)

def E2nodeComponentInterfaceNG : Typ := sequence [req "amf-name" AMFName]

def E2nodeComponentInterfaceXn : Typ := sequence [req "global-NG-RAN-Node-ID" GlobalNGRANNodeID]

def E2nodeComponentInterfaceE1 : Typ := sequence [req "gNB-CU-CP-ID" GNBCUUPID]

def E2nodeComponentInterfaceF1 : Typ := sequence [req "gNB-DU-ID" GNBDUID]

def E2nodeComponentInterfaceW1 : Typ := sequence [req "ng-eNB-DU-ID" NGENBDUID]

def MMEname : Typ := .printableString (apcExtensible 8 8 1 150)

def E2nodeComponentInterfaceS1 : Typ := sequence [req "mme-name" MMEname]

def E2nodeComponentInterfaceX2 : Typ :=
  sequence [opt "global-eNB-ID" GlobalENBID, opt "global-en-gNB-ID" GlobalenGNBID]

def E2nodeComponentID : Typ :=
  choice (apcExtensible 3 3 0 6) 7
    [req "e2nodeComponentInterfaceTypeNG" E2nodeComponentInterfaceNG,
      req "e2nodeComponentInterfaceTypeXn" E2nodeComponentInterfaceXn,
      req "e2nodeComponentInterfaceTypeE1" E2nodeComponentInterfaceE1,
      req "e2nodeComponentInterfaceTypeF1" E2nodeComponentInterfaceF1,
      req "e2nodeComponentInterfaceTypeW1" E2nodeComponentInterfaceW1,
      req "e2nodeComponentInterfaceTypeS1" E2nodeComponentInterfaceS1,
      req "e2nodeComponentInterfaceTypeX2" E2nodeComponentInterfaceX2]

def E2nodeComponentConfiguration : Typ :=
  sequence
    [req "e2nodeComponentRequestPart" (.octetString .noSize),
      req "e2nodeComponentResponsePart" (.octetString .noSize)]

def E2nodeComponentConfigAdditionItem : Typ :=
  sequence
    [req "e2nodeComponentInterfaceType" E2nodeComponentInterfaceType,
      req "e2nodeComponentID" E2nodeComponentID,
      req "e2nodeComponentConfiguration" E2nodeComponentConfiguration]

def E2nodeComponentConfigAdditionList : Typ :=
  singleContainers (apcConstrained 10 10 1 1024) 51 "E2nodeComponentConfigAddition-Item"
    E2nodeComponentConfigAdditionItem

def E2nodeComponentConfigUpdateItem : Typ :=
  sequence
    [req "e2nodeComponentInterfaceType" E2nodeComponentInterfaceType,
      req "e2nodeComponentID" E2nodeComponentID,
      req "e2nodeComponentConfiguration" E2nodeComponentConfiguration]

def E2nodeComponentConfigUpdateList : Typ :=
  singleContainers (apcConstrained 10 10 1 1024) 34 "E2nodeComponentConfigUpdate-Item"
    E2nodeComponentConfigUpdateItem

def E2nodeComponentConfigRemovalItem : Typ :=
  sequence
    [req "e2nodeComponentInterfaceType" E2nodeComponentInterfaceType,
      req "e2nodeComponentID" E2nodeComponentID]

def E2nodeComponentConfigRemovalList : Typ :=
  singleContainers (apcConstrained 10 10 1 1024) 55 "E2nodeComponentConfigRemoval-Item"
    E2nodeComponentConfigRemovalItem

def UpdateOutcome : Typ := enumerated (apcExtensible 1 1 0 1) 3 [name "success", name "failure"]

def E2nodeComponentConfigurationAck : Typ :=
  sequence [req "updateOutcome" UpdateOutcome, opt "failureCause" Cause]

def E2nodeComponentConfigAdditionAckItem : Typ :=
  sequence
    [req "e2nodeComponentInterfaceType" E2nodeComponentInterfaceType,
      req "e2nodeComponentID" E2nodeComponentID,
      req "e2nodeComponentConfigurationAck" E2nodeComponentConfigurationAck]

def E2nodeComponentConfigAdditionAckList : Typ :=
  singleContainers (apcConstrained 10 10 1 1024) 53 "E2nodeComponentConfigAdditionAck-Item"
    E2nodeComponentConfigAdditionAckItem

def E2nodeComponentConfigUpdateAckItem : Typ :=
  sequence
    [req "e2nodeComponentInterfaceType" E2nodeComponentInterfaceType,
      req "e2nodeComponentID" E2nodeComponentID,
      req "e2nodeComponentConfigurationAck" E2nodeComponentConfigurationAck]

def E2nodeComponentConfigUpdateAckList : Typ :=
  singleContainers (apcConstrained 10 10 1 1024) 36 "E2nodeComponentConfigUpdateAck-Item"
    E2nodeComponentConfigUpdateAckItem

def E2nodeComponentConfigRemovalAckItem : Typ :=
  sequence
    [req "e2nodeComponentInterfaceType" E2nodeComponentInterfaceType,
      req "e2nodeComponentID" E2nodeComponentID,
      req "e2nodeComponentConfigurationAck" E2nodeComponentConfigurationAck]

def E2nodeComponentConfigRemovalAckList : Typ :=
  singleContainers (apcConstrained 10 10 1 1024) 57 "E2nodeComponentConfigRemovalAck-Item"
    E2nodeComponentConfigRemovalAckItem

/-! ## Associations -/

def TNLinformation : Typ :=
  sequence
    [req "tnlAddress" (.bitString (apcExtensible 8 8 1 160)),
      opt "tnlPort" (.bitString (apcConstrained 0 0 16 16))]

def TNLusage : Typ :=
  enumerated (apcExtensible 2 2 0 2) 4 [name "ric-service", name "support-function", name "both"]

def E2nodeTNLassociationRemovalItem : Typ :=
  sequence [req "tnlInformation" TNLinformation, req "tnlInformationRIC" TNLinformation]

def E2nodeTNLassociationRemovalList : Typ :=
  singleContainers (apcConstrained 5 5 1 32) 59 "E2nodeTNLassociationRemoval-Item"
    E2nodeTNLassociationRemovalItem

def E2connectionUpdateItem : Typ :=
  sequence [req "tnlInformation" TNLinformation, req "tnlUsage" TNLusage]

def E2connectionUpdateList : Typ :=
  singleContainers (apcConstrained 5 5 1 32) 43 "E2connectionUpdate-Item" E2connectionUpdateItem

def E2connectionUpdateRemoveItem : Typ := sequence [req "tnlInformation" TNLinformation]

def E2connectionUpdateRemoveList : Typ :=
  singleContainers (apcConstrained 5 5 1 32) 47 "E2connectionUpdateRemove-Item"
    E2connectionUpdateRemoveItem

def E2connectionSetupFailedItem : Typ :=
  sequence [req "tnlInformation" TNLinformation, req "cause" Cause]

def E2connectionSetupFailedList : Typ :=
  singleContainers (apcConstrained 5 5 1 32) 41 "E2connectionSetupFailed-Item"
    E2connectionSetupFailedItem

/-! ## Subscriptions -/

def RICeventTriggerDefinition : Typ := .octetString .noSize

def RICactionID : Typ := .integer (apcConstrained 8 8 0 255)

def RICactionType : Typ :=
  enumerated (apcExtensible 2 2 0 2) 4 [name "report", name "insert", name "policy"]

def RICactionDefinition : Typ := .octetString .noSize

def RICsubsequentActionType : Typ :=
  enumerated (apcExtensible 1 1 0 1) 3 [name "continue", name "wait"]

def RICtimeToWait : Typ :=
  enumerated (apcExtensible 5 5 0 16) 18
    [name "w1ms", name "w2ms", name "w5ms", name "w10ms", name "w20ms", name "w30ms", name "w40ms",
      name "w50ms", name "w100ms", name "w200ms", name "w500ms", name "w1s", name "w2s", name "w5s",
      name "w10s", name "w20s", name "w60s"]

def RICsubsequentAction : Typ :=
  sequence
    [req "ricSubsequentActionType" RICsubsequentActionType, req "ricTimeToWait" RICtimeToWait]

def RICactionToBeSetupItem : Typ :=
  sequence
    [req "ricActionID" RICactionID, req "ricActionType" RICactionType,
      opt "ricActionDefinition" RICactionDefinition, opt "ricSubsequentAction" RICsubsequentAction]

def RICactionsToBeSetupList : Typ :=
  singleContainers (apcConstrained 4 4 1 16) 19 "RICaction-ToBeSetup-Item" RICactionToBeSetupItem

def RICsubscriptionDetails : Typ :=
  sequence
    [req "ricEventTriggerDefinition" RICeventTriggerDefinition,
      req "ricAction-ToBeSetup-List" RICactionsToBeSetupList]

def RICsubscriptionwithCauseItem : Typ :=
  sequence [req "ricRequestID" RICrequestID, req "ranFunctionID" RANfunctionID, req "cause" Cause]

def RICsubscriptionListwithCause : Typ :=
  singleContainers (apcConstrained 32 (-1) 1 4294967295) 61 "RICsubscription-withCause-Item"
    RICsubscriptionwithCauseItem

def RICactionAdmittedItem : Typ := sequence [req "ricActionID" RICactionID]

def RICactionAdmittedList : Typ :=
  singleContainers (apcConstrained 4 4 1 16) 14 "RICaction-Admitted-Item" RICactionAdmittedItem

def RICactionNotAdmittedItem : Typ := sequence [req "ricActionID" RICactionID, req "cause" Cause]

def RICactionNotAdmittedList : Typ :=
  singleContainers (apcConstrained 5 5 0 16) 16 "RICaction-NotAdmitted-Item"
    RICactionNotAdmittedItem

/-! ## Indications and control -/

def RICcallProcessID : Typ := .octetString .noSize

def RICcontrolHeader : Typ := .octetString .noSize

def RICcontrolMessage : Typ := .octetString .noSize

def RICcontrolAckRequest : Typ := enumerated (apcExtensible 1 1 0 1) 3 [name "noAck", name "ack"]

def RICindicationSN : Typ := .integer (apcConstrained 16 16 0 65535)

def RICindicationType : Typ := enumerated (apcExtensible 1 1 0 1) 3 [name "report", name "insert"]

def RICindicationHeader : Typ := .octetString .noSize

def RICindicationMessage : Typ := .octetString .noSize

def RICcontrolOutcome : Typ := .octetString .noSize

/-! ## Messages -/

def RICsubscriptionRequestIEs : Typ :=
  ieObject
    [row 29 "RICrequestID" RICrequestID, row 5 "RANfunctionID" RANfunctionID,
      row 30 "RICsubscriptionDetails" RICsubscriptionDetails]

def RICsubscriptionRequest : Typ :=
  protocolIEs "RICsubscriptionRequest-IEs" RICsubscriptionRequestIEs

def RICsubscriptionDeleteRequestIEs : Typ :=
  ieObject [row 29 "RICrequestID" RICrequestID, row 5 "RANfunctionID" RANfunctionID]

def RICsubscriptionDeleteRequest : Typ :=
  protocolIEs "RICsubscriptionDeleteRequest-IEs" RICsubscriptionDeleteRequestIEs

def RICserviceUpdateIEs : Typ :=
  ieObjectOf [(49, 0), (10, 1), (12, 1), (11, 2)]
    [req "TransactionID" TransactionID, req "RANfunctions-List" RANfunctionsList,
      req "RANfunctionsID-List" RANfunctionsIDList]

def RICserviceUpdate : Typ := protocolIEs "RICserviceUpdate-IEs" RICserviceUpdateIEs

def RICcontrolRequestIEs : Typ :=
  ieObject
    [row 29 "RICrequestID" RICrequestID, row 5 "RANfunctionID" RANfunctionID,
      row 20 "RICcallProcessID" RICcallProcessID, row 22 "RICcontrolHeader" RICcontrolHeader,
      row 23 "RICcontrolMessage" RICcontrolMessage,
      row 21 "RICcontrolAckRequest" RICcontrolAckRequest]

def RICcontrolRequest : Typ := protocolIEs "RICcontrolRequest-IEs" RICcontrolRequestIEs

def E2setupRequestIEs : Typ :=
  ieObject
    [row 49 "TransactionID" TransactionID, row 3 "GlobalE2node-ID" GlobalE2nodeID,
      row 10 "RANfunctions-List" RANfunctionsList,
      row 50 "E2nodeComponentConfigAddition-List" E2nodeComponentConfigAdditionList]

def E2setupRequest : Typ := protocolIEs "E2setupRequestIEs" E2setupRequestIEs

def E2nodeConfigurationUpdateIEs : Typ :=
  ieObject
    [row 49 "TransactionID" TransactionID, row 3 "GlobalE2node-ID" GlobalE2nodeID,
      row 50 "E2nodeComponentConfigAddition-List" E2nodeComponentConfigAdditionList,
      row 33 "E2nodeComponentConfigUpdate-List" E2nodeComponentConfigUpdateList,
      row 54 "E2nodeComponentConfigRemoval-List" E2nodeComponentConfigRemovalList,
      row 58 "E2nodeTNLassociationRemoval-List" E2nodeTNLassociationRemovalList]

def E2nodeConfigurationUpdate : Typ :=
  protocolIEs "E2nodeConfigurationUpdate-IEs" E2nodeConfigurationUpdateIEs

def E2connectionUpdateIEs : Typ :=
  ieObjectOf [(49, 0), (44, 1), (46, 2), (45, 1)]
    [req "TransactionID" TransactionID, req "E2connectionUpdate-List" E2connectionUpdateList,
      req "E2connectionUpdateRemove-List" E2connectionUpdateRemoveList]

def E2connectionUpdate : Typ := protocolIEs "E2connectionUpdate-IEs" E2connectionUpdateIEs

def ResetRequestIEs : Typ := ieObject [row 49 "TransactionID" TransactionID, row 1 "Cause" Cause]

def ResetRequest : Typ := protocolIEs "ResetRequestIEs" ResetRequestIEs

def RICindicationIEs : Typ :=
  ieObject
    [row 29 "RICrequestID" RICrequestID, row 5 "RANfunctionID" RANfunctionID,
      row 15 "RICactionID" RICactionID, row 27 "RICindicationSN" RICindicationSN,
      row 28 "RICindicationType" RICindicationType,
      row 25 "RICindicationHeader" RICindicationHeader,
      row 26 "RICindicationMessage" RICindicationMessage,
      row 20 "RICcallProcessID" RICcallProcessID]

def RICindication : Typ := protocolIEs "RICindication-IEs" RICindicationIEs

def RICserviceQueryIEs : Typ :=
  ieObject [row 49 "TransactionID" TransactionID, row 9 "RANfunctionsID-List" RANfunctionsIDList]

def RICserviceQuery : Typ := protocolIEs "RICserviceQuery-IEs" RICserviceQueryIEs

def ErrorIndicationIEs : Typ :=
  ieObject
    [row 49 "TransactionID" TransactionID, row 29 "RICrequestID" RICrequestID,
      row 5 "RANfunctionID" RANfunctionID, row 1 "Cause" Cause,
      row 2 "CriticalityDiagnostics" CriticalityDiagnostics]

def ErrorIndication : Typ := protocolIEs "ErrorIndication-IEs" ErrorIndicationIEs

def RICsubscriptionDeleteRequiredIEs : Typ :=
  ieObject [row 60 "RICsubscription-List-withCause" RICsubscriptionListwithCause]

def RICsubscriptionDeleteRequired : Typ :=
  protocolIEs "RICsubscriptionDeleteRequired-IEs" RICsubscriptionDeleteRequiredIEs

def InitiatingMessage : Typ :=
  elementaryProcedure
    [row 8 "RICsubscriptionRequest" RICsubscriptionRequest,
      row 9 "RICsubscriptionDeleteRequest" RICsubscriptionDeleteRequest,
      row 7 "RICserviceUpdate" RICserviceUpdate, row 4 "RICcontrolRequest" RICcontrolRequest,
      row 1 "E2setupRequest" E2setupRequest,
      row 10 "E2nodeConfigurationUpdate" E2nodeConfigurationUpdate,
      row 11 "E2connectionUpdate" E2connectionUpdate, row 3 "ResetRequest" ResetRequest,
      row 5 "RICindication" RICindication, row 6 "RICserviceQuery" RICserviceQuery,
      row 2 "ErrorIndication" ErrorIndication,
      row 12 "RICsubscriptionDeleteRequired" RICsubscriptionDeleteRequired]

def RICsubscriptionResponseIEs : Typ :=
  ieObject
    [row 29 "RICrequestID" RICrequestID, row 5 "RANfunctionID" RANfunctionID,
      row 17 "RICaction-Admitted-List" RICactionAdmittedList,
      row 18 "RICaction-NotAdmitted-List" RICactionNotAdmittedList]

def RICsubscriptionResponse : Typ :=
  protocolIEs "RICsubscriptionResponse-IEs" RICsubscriptionResponseIEs

def RICsubscriptionDeleteResponseIEs : Typ :=
  ieObject [row 29 "RICrequestID" RICrequestID, row 5 "RANfunctionID" RANfunctionID]

def RICsubscriptionDeleteResponse : Typ :=
  protocolIEs "RICsubscriptionDeleteResponse-IEs" RICsubscriptionDeleteResponseIEs

def RICserviceUpdateAcknowledgeIEs : Typ :=
  ieObject
    [row 49 "TransactionID" TransactionID, row 9 "RANfunctionsID-List" RANfunctionsIDList,
      row 13 "RANfunctionsIDcause-List" RANfunctionsIDcauseList]

def RICserviceUpdateAcknowledge : Typ :=
  protocolIEs "RICserviceUpdateAcknowledge-IEs" RICserviceUpdateAcknowledgeIEs

def RICcontrolAcknowledgeIEs : Typ :=
  ieObject
    [row 29 "RICrequestID" RICrequestID, row 5 "RANfunctionID" RANfunctionID,
      row 20 "RICcallProcessID" RICcallProcessID, row 32 "RICcontrolOutcome" RICcontrolOutcome]

def RICcontrolAcknowledge : Typ := protocolIEs "RICcontrolAcknowledge-IEs" RICcontrolAcknowledgeIEs

def E2setupResponseIEs : Typ :=
  ieObject
    [row 49 "TransactionID" TransactionID, row 4 "GlobalRIC-ID" GlobalRICID,
      row 9 "RANfunctionsID-List" RANfunctionsIDList,
      row 13 "RANfunctionsIDcause-List" RANfunctionsIDcauseList,
      row 52 "E2nodeComponentConfigAdditionAck-List" E2nodeComponentConfigAdditionAckList]

def E2setupResponse : Typ := protocolIEs "E2setupResponseIEs" E2setupResponseIEs

def E2nodeConfigurationUpdateAcknowledgeIEs : Typ :=
  ieObject
    [row 49 "TransactionID" TransactionID,
      row 52 "E2nodeComponentConfigAdditionAck-List" E2nodeComponentConfigAdditionAckList,
      row 35 "E2nodeComponentConfigUpdateAck-List" E2nodeComponentConfigUpdateAckList,
      row 56 "E2nodeComponentConfigRemovalAck-List" E2nodeComponentConfigRemovalAckList]

def E2nodeConfigurationUpdateAcknowledge : Typ :=
  protocolIEs "E2nodeConfigurationUpdateAcknowledge-IEs" E2nodeConfigurationUpdateAcknowledgeIEs

def E2connectionUpdateAckIEs : Typ :=
  ieObject
    [row 49 "TransactionID" TransactionID, row 39 "E2connectionUpdate-List" E2connectionUpdateList,
      row 40 "E2connectionSetupFailed-List" E2connectionSetupFailedList]

def E2connectionUpdateAcknowledge : Typ :=
  protocolIEs "E2connectionUpdateAck-IEs" E2connectionUpdateAckIEs

def ResetResponseIEs : Typ :=
  ieObject
    [row 49 "TransactionID" TransactionID, row 2 "CriticalityDiagnostics" CriticalityDiagnostics]

def ResetResponse : Typ := protocolIEs "ResetResponseIEs" ResetResponseIEs

def SuccessfulOutcome : Typ :=
  elementaryProcedure
    [row 8 "RICsubscriptionResponse" RICsubscriptionResponse,
      row 9 "RICsubscriptionDeleteResponse" RICsubscriptionDeleteResponse,
      row 7 "RICserviceUpdateAcknowledge" RICserviceUpdateAcknowledge,
      row 4 "RICcontrolAcknowledge" RICcontrolAcknowledge, row 1 "E2setupResponse" E2setupResponse,
      row 10 "E2nodeConfigurationUpdateAcknowledge" E2nodeConfigurationUpdateAcknowledge,
      row 11 "E2connectionUpdateAcknowledge" E2connectionUpdateAcknowledge,
      row 3 "ResetResponse" ResetResponse]

def RICsubscriptionFailureIEs : Typ :=
  ieObject
    [row 29 "RICrequestID" RICrequestID, row 5 "RANfunctionID" RANfunctionID, row 1 "Cause" Cause,
      row 2 "CriticalityDiagnostics" CriticalityDiagnostics]

def RICsubscriptionFailure : Typ :=
  protocolIEs "RICsubscriptionFailure-IEs" RICsubscriptionFailureIEs

def RICsubscriptionDeleteFailureIEs : Typ :=
  ieObject
    [row 29 "RICrequestID" RICrequestID, row 5 "RANfunctionID" RANfunctionID, row 1 "Cause" Cause,
      row 2 "CriticalityDiagnostics" CriticalityDiagnostics]

def RICsubscriptionDeleteFailure : Typ :=
  protocolIEs "RICsubscriptionDeleteFailure-IEs" RICsubscriptionDeleteFailureIEs

def RICserviceUpdateFailureIEs : Typ :=
  ieObject
    [row 49 "TransactionID" TransactionID, row 1 "Cause" Cause, row 31 "TimeToWait" TimeToWait,
      row 2 "CriticalityDiagnostics" CriticalityDiagnostics]

def RICserviceUpdateFailure : Typ :=
  protocolIEs "RICserviceUpdateFailure-IEs" RICserviceUpdateFailureIEs

def RICcontrolFailureIEs : Typ :=
  ieObject
    [row 29 "RICrequestID" RICrequestID, row 5 "RANfunctionID" RANfunctionID,
      row 20 "RICcallProcessID" RICcallProcessID, row 1 "Cause" Cause,
      row 32 "RICcontrolOutcome" RICcontrolOutcome]

def RICcontrolFailure : Typ := protocolIEs "RICcontrolFailure-IEs" RICcontrolFailureIEs

def E2setupFailureIEs : Typ :=
  ieObject
    [row 49 "TransactionID" TransactionID, row 1 "Cause" Cause, row 31 "TimeToWait" TimeToWait,
      row 2 "CriticalityDiagnostics" CriticalityDiagnostics, row 48 "TNLinformation" TNLinformation]

def E2setupFailure : Typ := protocolIEs "E2setupFailureIEs" E2setupFailureIEs

def E2nodeConfigurationUpdateFailureIEs : Typ :=
  ieObject
    [row 49 "TransactionID" TransactionID, row 1 "Cause" Cause, row 31 "TimeToWait" TimeToWait,
      row 2 "CriticalityDiagnostics" CriticalityDiagnostics]

def E2nodeConfigurationUpdateFailure : Typ :=
  protocolIEs "E2nodeConfigurationUpdateFailure-IEs" E2nodeConfigurationUpdateFailureIEs

def E2connectionUpdateFailureIEs : Typ :=
  ieObject
    [row 49 "TransactionID" TransactionID, row 1 "Cause" Cause, row 31 "TimeToWait" TimeToWait,
      row 2 "CriticalityDiagnostics" CriticalityDiagnostics]

def E2connectionUpdateFailure : Typ :=
  protocolIEs "E2connectionUpdateFailure-IEs" E2connectionUpdateFailureIEs

def UnsuccessfulOutcome : Typ :=
  elementaryProcedure
    [row 8 "RICsubscriptionFailure" RICsubscriptionFailure,
      row 9 "RICsubscriptionDeleteFailure" RICsubscriptionDeleteFailure,
      row 7 "RICserviceUpdateFailure" RICserviceUpdateFailure,
      row 4 "RICcontrolFailure" RICcontrolFailure, row 1 "E2setupFailure" E2setupFailure,
      row 10 "E2nodeConfigurationUpdateFailure" E2nodeConfigurationUpdateFailure,
      row 11 "E2connectionUpdateFailure" E2connectionUpdateFailure]

def E2APPDU : Typ :=
  choice (apcExtensible 2 2 0 2) 3
    [req "initiatingMessage" InitiatingMessage, req "successfulOutcome" SuccessfulOutcome,
      req "unsuccessfulOutcome" UnsuccessfulOutcome]

end AsnPer

end E2Term
