import E2Term.Transport

/-!
# PDUs from a node

`asnInitiatingRequest`, `asnSuccessfulMsg`, `asnUnSuccsesfulMsg` and what they call. Every case
but the E2 setup starts by asking the procedure map for the name the connection has.
-/

namespace E2Term

open CString

/-- A received SCTP message with what the codec makes of it: `pdu` is the decoded PDU, `xer` its
XML encoding. `instrms` and `outstrms` are the association's stream numbers at the time, `answers`
what the calls of the handler return. -/
structure SctpMsg where
  payload : List UInt8
  streamId : Nat
  pdu : Option E2APPDU
  xer : Option (List UInt8)
  instrms : Nat
  outstrms : Nat
  answers : Answers

/-! ## E2 setup -/

/-- The loop of `collectSetupRequestData` over the information elements, with the transaction id
and the name in `message` found so far. -/
def collectSetupIEs (peerInfo : ConnId) (transactionId : Int) (enodbName : NameBuf) :
    List (ProtocolIE E2setupRequestIEs) → M (Int × NameBuf)
  | [] => return (transactionId, enodbName)
  | ie :: rest => do
    match ie.value with
    | .globalE2nodeID g =>
      if ie.id = idGlobalE2nodeID then
        match buildRanName (← deref peerInfo).enodbName g with
        | none => throw .nameOverflow
        | some (rc, ranName) =>
          update peerInfo fun cu => { cu with enodbName := ranName }
          if rc < 0 then
            -- no message will be sent
            return (-1, enodbName)
          let enodbName := enodbName.copyStr ranName
          setkey enodbName.str peerInfo
          collectSetupIEs peerInfo transactionId enodbName rest
      else collectSetupIEs peerInfo transactionId enodbName rest
    | .transactionID t =>
      if ie.id = idTransactionID then collectSetupIEs peerInfo t enodbName rest
      else collectSetupIEs peerInfo transactionId enodbName rest
    | .other => collectSetupIEs peerInfo transactionId enodbName rest

/-- `collectSetupRequestData`: the transaction id and the name left in `message`. -/
def collectSetupRequestData (message : ReportingMessages)
    (ies : List (ProtocolIE E2setupRequestIEs)) : M (Int × NameBuf) := do
  update message.peerInfo fun cu => { cu with enodbName := Buf.zeros maxEnodbNameSize }
  collectSetupIEs message.peerInfo (-1) message.enodbName ies

/-- `buildPrometheusList` and `buildInternalCounterPrometheusList` on the connection. -/
def buildCounters (peerInfo : ConnId) : M Unit :=
  update peerInfo fun cu => { cu with
    counters := buildPrometheusList cu.enodbName.str cu.counters
    e2tInternalCounters := buildInternalCounterPrometheusList cu.enodbName.str }

/-- `handleE2SetupReq`. -/
def handleE2SetupReq (message : ReportingMessages) (m : SctpMsg) (transactionID : Int) :
    M Unit := do
  buildCounters message.peerInfo
  if m.outstrms = 1 ∨ m.instrms = 1 then
    update message.peerInfo fun cu =>
      { cu with isSingleStream := true, singleStreamId := m.streamId }
  let cu ← deref message.peerInfo
  incrementIfSet (cu.counters .inIniti .msgCounter .e2setup) 1
  incrementIfSet (cu.counters .inIniti .bytesCounter .e2setup) message.asnLength
  buildAndSendSetupRequest message .ricE2SetupReq m.xer
  insertE2SetupProcedureOngoing message.enodbName.str transactionID

/-- The case `ProcedureCode_id_E2setup`. -/
def e2setup (message : ReportingMessages) (m : SctpMsg)
    (ies : List (ProtocolIE E2setupRequestIEs)) : M Unit := do
  let (transactionID, enodbName) ← collectSetupRequestData message ies
  if transactionID < 0 then return
  handleE2SetupReq { message with enodbName := enodbName } m transactionID

/-! ## The other procedures -/

/-- The test at the head of every other case: the name has an entry in the procedure map. -/
def ifE2SetupRequestReceived (enodbName : Name) (k : E2NodeConnectionHandling → M Unit) :
    M Unit := do
  match E2NodeMap.getE2tProcedureOngoingStatus (← get).connectionHandlingPerE2NodeMap enodbName with
  | some e2NodeConnectionHandling => k e2NodeConnectionHandling
  | none => return

/-- The loop over the information elements of an indication or a control outcome: the first
`RICrequestID` is sent on as a message of type `mtype`, then `messageSent` runs and the loop
ends. -/
def forwardRequestID (message : ReportingMessages) (mtype : MsgType) (count : M Unit)
    (messageSent : M Unit) : List (ProtocolIE RequestIEs) → M Unit
  | [] => return
  | ie :: rest => do
    match ie.value with
    | .ricRequestID r =>
      if ie.id = idRICrequestID then
        let tx ← nextTransaction
        writeSendMessage fun b => { b with
          mtype := mtype, xact := tx, meid := message.enodbName.str, state := .ok,
          subId := r.ricInstanceID }
        count
        let _ ← sendRmrMessage
        messageSent
      else forwardRequestID message mtype count messageSent rest
    | .other => forwardRequestID message mtype count messageSent rest

/-- `isRequiredIesPresent` of an error indication. -/
structure RequiredIes where
  transactionId : Bool
  ricRequestId : Bool
  cause : Bool
  deriving DecidableEq, Repr

/-- One information element of an error indication, from a node whose setup had the transaction id
`tid`: the bits set and the procedure code so far. -/
def scanErrorIndicationIE (tid : Int) (acc : RequiredIes × Int)
    (ie : ProtocolIE ErrorIndicationIEs) : RequiredIes × Int :=
  match ie.value with
  | .transactionID t =>
    if ie.id = idTransactionID ∧ tid = t then ({ acc.1 with transactionId := true }, acc.2)
    else acc
  | .ricRequestID _ =>
    if ie.id = idRICrequestID then ({ acc.1 with ricRequestId := true }, acc.2) else acc
  | .cause => if ie.id = idCause then ({ acc.1 with cause := true }, acc.2) else acc
  | .criticalityDiagnostics (some procedureCode) =>
    if ie.id = idCriticalityDiagnostics then (acc.1, procedureCode) else acc
  | .criticalityDiagnostics none => acc
  | .other => acc

/-- The loop over the information elements of an error indication. -/
def scanErrorIndication (tid : Int) (ies : List (ProtocolIE ErrorIndicationIEs)) :
    RequiredIes × Int :=
  ies.foldl (scanErrorIndicationIE tid) (⟨false, false, false⟩, 0)

/-- `sendMsgTo` of an error indication: to the E2 manager, to the subscription manager. -/
structure SendMsgTo where
  e2m : Bool
  subMgr : Bool
  deriving DecidableEq, Repr

/-- `getSendMsgBitSetValue`, given the node's recorded status. -/
def getSendMsgBitSetValue (procedureCode : Int) (ies : RequiredIes)
    (currentProcedureOngoing : E2TProcedureStates) : SendMsgTo :=
  if procedureCode = 0 then
    if (currentProcedureOngoing = .e2SetupProcedureCompleted ∨
        currentProcedureOngoing = .ricServiceUpdateProcedureOngoing) ∧ ies.transactionId then
      ⟨true, false⟩
    else if currentProcedureOngoing = .ricSubsProcedureOngoing ∧ ies.ricRequestId ∧ ies.cause then
      ⟨false, true⟩
    else ⟨false, false⟩
  else if procedureCode = ProcedureCode.e2setup.toInt ∨
      procedureCode = ProcedureCode.ricServiceUpdate.toInt then
    if ies.transactionId then ⟨true, false⟩ else ⟨false, false⟩
  else if procedureCode = ProcedureCode.ricSubscription.toInt then
    if ies.ricRequestId ∧ ies.cause then ⟨false, true⟩ else ⟨false, false⟩
  else ⟨false, false⟩

/-- The case `ProcedureCode_id_ErrorIndication`. -/
def errorIndication (message : ReportingMessages) (m : SctpMsg)
    (ies : List (ProtocolIE ErrorIndicationIEs)) : M Unit :=
  ifE2SetupRequestReceived message.enodbName.str fun handling => do
    let scanned := scanErrorIndication handling.e2SetupProcedureTransactionId ies
    let status := E2NodeMap.currentE2tProcedureOngoingStatus
      (← get).connectionHandlingPerE2NodeMap message.enodbName.str
    let sendMsgTo := getSendMsgBitSetValue scanned.2 scanned.1 status
    if sendMsgTo.e2m then
      buildAndSendSetupRequest message .ricE2RicErrorIndication m.xer
    else if sendMsgTo.subMgr then
      let _ ← sendRequestToXapp message.enodbName.str .ricE2RanErrorIndication
    countMessage message.peerInfo .inIniti .inIniti .errorIndication message.asnLength
    -- Not to break below functionality which is used to send to Xapp
    let _ ← sendRequestToXapp message.enodbName.str .ricErrorIndication

/-- `if (peerInfo->e2tInternalCounters[i]) …->Increment()`. -/
def countInternal (peerInfo : ConnId) (i : E2TInternalCounters) : M Unit := do
  incrementIfSet ((← deref peerInfo).e2tInternalCounters i) 1

/-- `asnInitiatingRequest`. -/
def asnInitiatingRequest (message : ReportingMessages) (m : SctpMsg) : InitiatingMessage → M Unit
  | .e2setup ies => e2setup message m ies
  | .ricServiceUpdate _ => ifE2SetupRequestReceived message.enodbName.str fun _ => do
      setE2ProcedureOngoingStatus message.enodbName.str .e2SetupProcedureCompleted
      countMessage message.peerInfo .inIniti .inIniti .ricServiceUpdate message.asnLength
      buildAndSendSetupRequest message .ricServiceUpdate m.xer
      setE2ProcedureOngoingStatus message.enodbName.str .ricServiceUpdateProcedureOngoing
  | .e2nodeConfigurationUpdate => ifE2SetupRequestReceived message.enodbName.str fun _ => do
      countMessage message.peerInfo .inIniti .inIniti .e2nodeConfigurationUpdate message.asnLength
      buildAndSendSetupRequest message .ricE2NodeConfigUpdate m.xer
  | .errorIndication ies => errorIndication message m ies
  | .reset => ifE2SetupRequestReceived message.enodbName.str fun _ => do
      countMessage message.peerInfo .inIniti .inIniti .reset message.asnLength
      if (← xmlFromPER m.xer) < 0 then return
      let _ ← sendRequestToXapp message.enodbName.str .ricE2ResetReq
  | .ricIndication ies => ifE2SetupRequestReceived message.enodbName.str fun _ => do
      setE2ProcedureOngoingStatus message.enodbName.str .ricIndicationProcedureOngoing
      forwardRequestID message .ricIndication
        (countMessage message.peerInfo .inIniti .inIniti .ricIndication message.asnLength)
        (setE2ProcedureOngoingStatus message.enodbName.str .ricIndicationProcedureCompleted) ies
  | .ricSubscriptionDeleteRequired => ifE2SetupRequestReceived message.enodbName.str fun _ => do
      countMessage message.peerInfo .inIniti .inIniti .ricSubscriptionDeleteRequired
        message.asnLength
      let _ ← sendRequestToXapp message.enodbName.str .ricSubDelRequired
  | .other _ => ifE2SetupRequestReceived message.enodbName.str fun _ =>
      countInternal message.peerInfo .invalidMessageReceived

/-- `asnSuccessfulMsg`. -/
def asnSuccessfulMsg (message : ReportingMessages) (m : SctpMsg) : SuccessfulOutcome → M Unit
  | .reset => ifE2SetupRequestReceived message.enodbName.str fun _ => do
      countMessageIfSet message.peerInfo .inSucc .reset message.asnLength
      if (← xmlFromPER m.xer) < 0 then return
      let _ ← sendRequestToXapp message.enodbName.str .ricE2ResetResp
  | .ricControl ies => ifE2SetupRequestReceived message.enodbName.str fun _ =>
      forwardRequestID message .ricControlAck
        (countMessageIfSet message.peerInfo .inSucc .ricControl message.asnLength)
        (setE2ProcedureOngoingStatus message.enodbName.str .controlProcedureCompleted) ies
  | .ricSubscription => ifE2SetupRequestReceived message.enodbName.str fun _ => do
      countMessageIfSet message.peerInfo .inSucc .ricSubscription message.asnLength
      let _ ← sendRequestToXapp message.enodbName.str .ricSubResp
      setE2ProcedureOngoingStatus message.enodbName.str .ricIndicationProcedureOngoing
  | .ricSubscriptionDelete => ifE2SetupRequestReceived message.enodbName.str fun _ => do
      setE2ProcedureOngoingStatus message.enodbName.str .ricSubsDelProcedureCompleted
      countMessageIfSet message.peerInfo .inSucc .ricSubscriptionDelete message.asnLength
      let _ ← sendRequestToXapp message.enodbName.str .ricSubDelResp
      setE2ProcedureOngoingStatus message.enodbName.str .ricIndicationProcedureOngoing
  | .e2connectionUpdate => ifE2SetupRequestReceived message.enodbName.str fun _ => do
      increment ((← deref message.peerInfo).counters .inSucc .msgCounter .e2connectionUpdate) 1
  | .other _ => ifE2SetupRequestReceived message.enodbName.str fun _ =>
      countInternal message.peerInfo .invalidMessageReceived

/-- `asnUnSuccsesfulMsg`. -/
def asnUnSuccsesfulMsg (message : ReportingMessages) : UnsuccessfulOutcome → M Unit
  | .ricControl ies => ifE2SetupRequestReceived message.enodbName.str fun _ =>
      forwardRequestID message .ricControlFailure
        (countMessage message.peerInfo .inUnSucc .inUnSucc .ricControl message.asnLength)
        (pure ()) ies
  | .ricSubscription => ifE2SetupRequestReceived message.enodbName.str fun _ => do
      countMessage message.peerInfo .inUnSucc .inUnSucc .ricSubscription message.asnLength
      let _ ← sendRequestToXapp message.enodbName.str .ricSubFailure
  | .ricSubscriptionDelete => ifE2SetupRequestReceived message.enodbName.str fun _ => do
      countMessage message.peerInfo .inUnSucc .inUnSucc .ricSubscriptionDelete message.asnLength
      -- the source sends the type of a failed subscription here
      let _ ← sendRequestToXapp message.enodbName.str .ricSubFailure
  | .e2connectionUpdate => ifE2SetupRequestReceived message.enodbName.str fun _ => do
      increment ((← deref message.peerInfo).counters .inUnSucc .msgCounter .e2connectionUpdate) 1
  | .other _ => ifE2SetupRequestReceived message.enodbName.str fun _ =>
      countInternal message.peerInfo .invalidMessageReceived

/-- The switch of `receiveDataFromSctp` on the decoded PDU. -/
def dispatch (message : ReportingMessages) (m : SctpMsg) : E2APPDU → M Unit
  | .initiatingMessage i => asnInitiatingRequest message m i
  | .successfulOutcome o => asnSuccessfulMsg message m o
  | .unsuccessfulOutcome o => asnUnSuccsesfulMsg message o
  | .nothing => return

end E2Term
