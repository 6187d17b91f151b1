import E2Term.Lib.XerTypes
import E2Term.RanName

/-!
# Types of the forwarded messages

The type descriptors that `asn1c` generated for the four messages that go on as XML, as far as the
text goes: the names of the elements, which ones may be missing, and what the numbers of the
information elements select. Sizes and ranges are left out.
-/

namespace E2Term

namespace AsnDef

open Xer

/-! ## Elements -/

/-- The characters of an identifier. -/
abbrev Plain (s : String) : Prop := text s ≠ [] ∧ ∀ b ∈ text s, isNameChar b = true

def name (s : String) (h : Plain s := by decide +kernel) : Xer.Name := ⟨text s, h.1, h.2⟩

/-- A mandatory element of a SEQUENCE, or an alternative of a CHOICE. -/
def req (s : String) (t : Typ) (h : Plain s := by decide +kernel) : Field × Typ :=
  (⟨name s h, false, 0⟩, t)

/-- An optional element of a SEQUENCE. -/
def opt (s : String) (t : Typ) (h : Plain s := by decide +kernel) : Field × Typ :=
  (⟨name s h, true, 0⟩, t)

/-- What the number `key` selects. -/
def row (key : Int) (s : String) (t : Typ) (h : Plain s := by decide +kernel) : Field × Typ :=
  (⟨name s h, false, key⟩, t)

def fields (l : List (Field × Typ)) : Fields :=
  l.foldr (fun f rest => .cons f.1 f.2 rest) .nil

def sequence (l : List (Field × Typ)) : Typ := .sequence (fields l)

def choice (l : List (Field × Typ)) : Typ := .choice (fields l)

/-- A SEQUENCE whose number selects its value, of the class that `key` names. -/
def object (key : Xer.Name) (rows : List (Field × Typ)) : Typ :=
  .object key (name "criticality") (name "value") [name "reject", name "ignore", name "notify"]
    (fields rows)

/-- An information element: one of `ProtocolIE-Field.c`. -/
def ieObject (rows : List (Field × Typ)) : Typ := object (name "id") rows

/-- A list of `ProtocolIE-SingleContainer`s. -/
def singleContainers (key : Int) (s : String) (t : Typ) (h : Plain s := by decide +kernel) : Typ :=
  .sequenceOf (name "ProtocolIE-SingleContainer") (ieObject [row key s t h])

/-- A message with its `ProtocolIE-Container`. -/
def protocolIEs (s : String) (t : Typ) (h : Plain s := by decide +kernel) : Typ :=
  sequence [req "protocolIEs" (.sequenceOf (name s h) t)]

/-! ## Identities of nodes -/

def PLMNIdentity : Typ := .octetString

def GNBIDChoice : Typ := choice [req "gnb-ID" .bitString]

def GlobalgNBID : Typ := sequence [req "plmn-id" PLMNIdentity, req "gnb-id" GNBIDChoice]

def ENGNBID : Typ := choice [req "gNB-ID" .bitString]

def GlobalenGNBID : Typ := sequence [req "pLMN-Identity" PLMNIdentity, req "gNB-ID" ENGNBID]

def GNBCUUPID : Typ := .integer

def GNBDUID : Typ := .integer

def NGENBDUID : Typ := .integer

def ENBIDChoice : Typ :=
  choice
    [req "enb-ID-macro" .bitString, req "enb-ID-shortmacro" .bitString,
      req "enb-ID-longmacro" .bitString]

def GlobalngeNBID : Typ := sequence [req "plmn-id" PLMNIdentity, req "enb-id" ENBIDChoice]

def ENBID : Typ :=
  choice
    [req "macro-eNB-ID" .bitString, req "home-eNB-ID" .bitString,
      req "short-Macro-eNB-ID" .bitString, req "long-Macro-eNB-ID" .bitString]

def GlobalENBID : Typ := sequence [req "pLMN-Identity" PLMNIdentity, req "eNB-ID" ENBID]

def GlobalE2nodegNBID : Typ :=
  sequence
    [req "global-gNB-ID" GlobalgNBID, opt "global-en-gNB-ID" GlobalenGNBID,
      opt "gNB-CU-UP-ID" GNBCUUPID, opt "gNB-DU-ID" GNBDUID]

def GlobalE2nodeengNBID : Typ :=
  sequence
    [req "global-en-gNB-ID" GlobalenGNBID, opt "en-gNB-CU-UP-ID" GNBCUUPID,
      opt "en-gNB-DU-ID" GNBDUID]

def GlobalE2nodengeNBID : Typ :=
  sequence
    [req "global-ng-eNB-ID" GlobalngeNBID, opt "global-eNB-ID" GlobalENBID,
      opt "ngENB-DU-ID" NGENBDUID]

def GlobalE2nodeeNBID : Typ := sequence [req "global-eNB-ID" GlobalENBID]

def GlobalE2nodeID : Typ :=
  choice
    [req "gNB" GlobalE2nodegNBID, req "en-gNB" GlobalE2nodeengNBID,
      req "ng-eNB" GlobalE2nodengeNBID, req "eNB" GlobalE2nodeeNBID]

def GlobalNGRANNodeID : Typ := choice [req "gNB" GlobalgNBID, req "ng-eNB" GlobalngeNBID]

/-! ## Functions -/

def RANfunctionID : Typ := .integer

def RANfunctionDefinition : Typ := .octetString

def RANfunctionRevision : Typ := .integer

def RANfunctionOID : Typ := .printableString

def RANfunctionItem : Typ :=
  sequence
    [req "ranFunctionID" RANfunctionID, req "ranFunctionDefinition" RANfunctionDefinition,
      req "ranFunctionRevision" RANfunctionRevision, req "ranFunctionOID" RANfunctionOID]

def RANfunctionsList : Typ := singleContainers 8 "RANfunction-Item" RANfunctionItem

def RANfunctionIDItem : Typ :=
  sequence
    [req "ranFunctionID" RANfunctionID, req "ranFunctionRevision" RANfunctionRevision]

def RANfunctionsIDList : Typ := singleContainers 6 "RANfunctionID-Item" RANfunctionIDItem

/-! ## Component configurations -/

def E2nodeComponentInterfaceType : Typ :=
  .enumerated [name "ng", name "xn", name "e1", name "f1", name "w1", name "s1", name "x2"]

def AMFName : Typ := .printableString

def MMEname : Typ := .printableString

def E2nodeComponentInterfaceNG : Typ := sequence [req "amf-name" AMFName]

def E2nodeComponentInterfaceXn : Typ := sequence [req "global-NG-RAN-Node-ID" GlobalNGRANNodeID]

def E2nodeComponentInterfaceE1 : Typ := sequence [req "gNB-CU-CP-ID" GNBCUUPID]

def E2nodeComponentInterfaceF1 : Typ := sequence [req "gNB-DU-ID" GNBDUID]

def E2nodeComponentInterfaceW1 : Typ := sequence [req "ng-eNB-DU-ID" NGENBDUID]

def E2nodeComponentInterfaceS1 : Typ := sequence [req "mme-name" MMEname]

def E2nodeComponentInterfaceX2 : Typ :=
  sequence [opt "global-eNB-ID" GlobalENBID, opt "global-en-gNB-ID" GlobalenGNBID]

def E2nodeComponentID : Typ :=
  choice
    [req "e2nodeComponentInterfaceTypeNG" E2nodeComponentInterfaceNG,
      req "e2nodeComponentInterfaceTypeXn" E2nodeComponentInterfaceXn,
      req "e2nodeComponentInterfaceTypeE1" E2nodeComponentInterfaceE1,
      req "e2nodeComponentInterfaceTypeF1" E2nodeComponentInterfaceF1,
      req "e2nodeComponentInterfaceTypeW1" E2nodeComponentInterfaceW1,
      req "e2nodeComponentInterfaceTypeS1" E2nodeComponentInterfaceS1,
      req "e2nodeComponentInterfaceTypeX2" E2nodeComponentInterfaceX2]

def E2nodeComponentConfiguration : Typ :=
  sequence
    [req "e2nodeComponentRequestPart" .octetString, req "e2nodeComponentResponsePart" .octetString]

def E2nodeComponentConfigAdditionItem : Typ :=
  sequence
    [req "e2nodeComponentInterfaceType" E2nodeComponentInterfaceType,
      req "e2nodeComponentID" E2nodeComponentID,
      req "e2nodeComponentConfiguration" E2nodeComponentConfiguration]

def E2nodeComponentConfigAdditionList : Typ :=
  singleContainers 51 "E2nodeComponentConfigAddition-Item" E2nodeComponentConfigAdditionItem

def E2nodeComponentConfigUpdateItem : Typ :=
  sequence
    [req "e2nodeComponentInterfaceType" E2nodeComponentInterfaceType,
      req "e2nodeComponentID" E2nodeComponentID,
      req "e2nodeComponentConfiguration" E2nodeComponentConfiguration]

def E2nodeComponentConfigUpdateList : Typ :=
  singleContainers 34 "E2nodeComponentConfigUpdate-Item" E2nodeComponentConfigUpdateItem

def E2nodeComponentConfigRemovalItem : Typ :=
  sequence
    [req "e2nodeComponentInterfaceType" E2nodeComponentInterfaceType,
      req "e2nodeComponentID" E2nodeComponentID]

def E2nodeComponentConfigRemovalList : Typ :=
  singleContainers 55 "E2nodeComponentConfigRemoval-Item" E2nodeComponentConfigRemovalItem

def TNLinformation : Typ := sequence [req "tnlAddress" .bitString, opt "tnlPort" .bitString]

def E2nodeTNLassociationRemovalItem : Typ :=
  sequence [req "tnlInformation" TNLinformation, req "tnlInformationRIC" TNLinformation]

def E2nodeTNLassociationRemovalList : Typ :=
  singleContainers 59 "E2nodeTNLassociationRemoval-Item" E2nodeTNLassociationRemovalItem

/-! ## Causes and diagnostics -/

def RICrequestID : Typ := sequence [req "ricRequestorID" .integer, req "ricInstanceID" .integer]

def CauseRICrequest : Typ :=
  .enumerated
    [name "ran-function-id-invalid", name "action-not-supported", name "excessive-actions",
      name "duplicate-action", name "duplicate-event-trigger", name "function-resource-limit",
      name "request-id-unknown", name "inconsistent-action-subsequent-action-sequence",
      name "control-message-invalid", name "ric-call-process-id-invalid",
      name "control-timer-expired", name "control-failed-to-execute", name "system-not-ready",
      name "unspecified"]

def CauseRICservice : Typ :=
  .enumerated
    [name "ran-function-not-supported", name "excessive-functions", name "ric-resource-limit"]

def CauseE2node : Typ := .enumerated [name "e2node-component-unknown"]

def CauseTransport : Typ := .enumerated [name "unspecified", name "transport-resource-unavailable"]

def CauseProtocol : Typ :=
  .enumerated
    [name "transfer-syntax-error", name "abstract-syntax-error-reject",
      name "abstract-syntax-error-ignore-and-notify",
      name "message-not-compatible-with-receiver-state", name "semantic-error",
      name "abstract-syntax-error-falsely-constructed-message", name "unspecified"]

def CauseMisc : Typ :=
  .enumerated
    [name "control-processing-overload", name "hardware-failure", name "om-intervention",
      name "unspecified"]

def Cause : Typ :=
  choice
    [req "ricRequest" CauseRICrequest, req "ricService" CauseRICservice, req "e2Node" CauseE2node,
      req "transport" CauseTransport, req "protocol" CauseProtocol, req "misc" CauseMisc]

def ProcedureCode : Typ := .integer

def TriggeringMessage : Typ :=
  .enumerated [name "initiating-message", name "successful-outcome", name "unsuccessfull-outcome"]

def Criticality : Typ := .enumerated [name "reject", name "ignore", name "notify"]

def ProtocolIEID : Typ := .integer

def TypeOfError : Typ := .enumerated [name "not-understood", name "missing"]

def CriticalityDiagnosticsIEItem : Typ :=
  sequence
    [req "iECriticality" Criticality, req "iE-ID" ProtocolIEID, req "typeOfError" TypeOfError]

def CriticalityDiagnosticsIEList : Typ :=
  .sequenceOf (name "CriticalityDiagnostics-IE-Item") CriticalityDiagnosticsIEItem

def CriticalityDiagnostics : Typ :=
  sequence
    [opt "procedureCode" ProcedureCode, opt "triggeringMessage" TriggeringMessage,
      opt "procedureCriticality" Criticality, opt "ricRequestorID" RICrequestID,
      opt "iEsCriticalityDiagnostics" CriticalityDiagnosticsIEList]

/-! ## Messages -/

def TransactionID : Typ := .integer

def E2setupRequestIEs : Typ :=
  ieObject
    [row 49 "TransactionID" TransactionID, row 3 "GlobalE2node-ID" GlobalE2nodeID,
      row 10 "RANfunctions-List" RANfunctionsList,
      row 50 "E2nodeComponentConfigAddition-List" E2nodeComponentConfigAdditionList]

def E2setupRequest : Typ := protocolIEs "E2setupRequestIEs" E2setupRequestIEs

def RICserviceUpdateIEs : Typ :=
  ieObject
    [row 49 "TransactionID" TransactionID, row 10 "RANfunctions-List" RANfunctionsList,
      row 12 "RANfunctions-List" RANfunctionsList, row 11 "RANfunctionsID-List" RANfunctionsIDList]

def RICserviceUpdate : Typ := protocolIEs "RICserviceUpdate-IEs" RICserviceUpdateIEs

def E2nodeConfigurationUpdateIEs : Typ :=
  ieObject
    [row 49 "TransactionID" TransactionID, row 3 "GlobalE2node-ID" GlobalE2nodeID,
      row 50 "E2nodeComponentConfigAddition-List" E2nodeComponentConfigAdditionList,
      row 33 "E2nodeComponentConfigUpdate-List" E2nodeComponentConfigUpdateList,
      row 54 "E2nodeComponentConfigRemoval-List" E2nodeComponentConfigRemovalList,
      row 58 "E2nodeTNLassociationRemoval-List" E2nodeTNLassociationRemovalList]

def E2nodeConfigurationUpdate : Typ :=
  protocolIEs "E2nodeConfigurationUpdate-IEs" E2nodeConfigurationUpdateIEs

def ErrorIndicationIEs : Typ :=
  ieObject
    [row 49 "TransactionID" TransactionID, row 29 "RICrequestID" RICrequestID,
      row 5 "RANfunctionID" RANfunctionID, row 1 "Cause" Cause,
      row 2 "CriticalityDiagnostics" CriticalityDiagnostics]

def ErrorIndication : Typ := protocolIEs "ErrorIndication-IEs" ErrorIndicationIEs

def InitiatingMessage : Typ :=
  object (name "procedureCode")
    [row 7 "RICserviceUpdate" RICserviceUpdate, row 1 "E2setupRequest" E2setupRequest,
      row 10 "E2nodeConfigurationUpdate" E2nodeConfigurationUpdate,
      row 2 "ErrorIndication" ErrorIndication]

/-- The PDUs that `buildAndSendSetupRequest` forwards. -/
def ForwardedPDU : Typ := choice [req "initiatingMessage" InitiatingMessage]

end AsnDef

end E2Term
