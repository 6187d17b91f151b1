import E2Term.Machine
import E2Term.Trace

/-!
# The handlers with tracing on

The handlers again, with what they report of themselves: where `asndata` and `asnLength` are set,
and where a record is written. Everything else is a part of the untraced handler, so without its
records a traced action does what the action does.
-/

namespace E2Term

open CString Effect Instrument

/-- Where `asndata` points to once RMR has taken the message in the send buffer. -/
def AsnData.taken : AsnData → AsnData
  | .sendMessage => .released
  | asndata => asndata

namespace Traced

/-! ## Sending -/

/-- A record is written for the message in the send buffer. Unless RMR gives the message back, which
the send tells that follows, `asndata` then points to what RMR has. -/
def handOver (record : TraceRecord) : TM Unit :=
  note fun w t => ((), { t with
    trace := t.trace ++ [⟨record, w.sendMessage.payload⟩]
    asndata := if refused w.answers.rmr then t.asndata else t.asndata.taken })

/-- `sendRmrMessage`. -/
def sendRmrMessage : TM Int := do
  let record ← buildJsonMessage
  handOver record
  lift E2Term.sendRmrMessage

/-- `sendRequestToXapp`. -/
def sendRequestToXapp (enodbName : Name) (requestId : MsgType) : TM Int := do
  lift (writeSendMessage fun m => { m with meid := enodbName, mtype := requestId, state := .ok })
  let tx ← lift nextTransaction
  lift (writeSendMessage fun m => { m with xact := tx })
  sendRmrMessage

/-- `buildAndSendSetupRequest`. The record shows the PDU and not the message, which is one of its
own. -/
def buildAndSendSetupRequest (message : ReportingMessages) (messageType : MsgType)
    (xer : Option (List UInt8)) : TM Unit := do
  lift (E2Term.buildAndSendSetupRequest message messageType xer)
  match xer with
  | none => return
  | some _ =>
    let _ ← buildJsonMessage

/-- `sendSctpMsg`. A record is written for a message that was sent. -/
def sendSctpMsg (peerInfo : ConnId) (enodbName : Name) (messageType : MsgType)
    (asndata : List UInt8) : TM Int := do
  let rc ← lift (E2Term.sendSctpMsg peerInfo enodbName messageType asndata)
  if rc = 0 then
    let record ← buildJsonMessage
    addEntry record asndata
    return rc
  else return rc

/-! ## PDUs from a node -/

/-- `handleE2SetupReq`. -/
def handleE2SetupReq (message : ReportingMessages) (m : SctpMsg) (transactionID : Int) :
    TM Unit := do
  lift (buildCounters message.peerInfo)
  if m.outstrms = 1 ∨ m.instrms = 1 then
    lift (update message.peerInfo fun cu =>
      { cu with isSingleStream := true, singleStreamId := m.streamId })
  let cu ← lift (deref message.peerInfo)
  lift (incrementIfSet (cu.counters .inIniti .msgCounter .e2setup) 1)
  lift (incrementIfSet (cu.counters .inIniti .bytesCounter .e2setup) message.asnLength)
  buildAndSendSetupRequest message .ricE2SetupReq m.xer
  lift (insertE2SetupProcedureOngoing message.enodbName.str transactionID)

/-- The case `ProcedureCode_id_E2setup`. -/
def e2setup (message : ReportingMessages) (m : SctpMsg)
    (ies : List (ProtocolIE E2setupRequestIEs)) : TM Unit := do
  let (transactionID, enodbName) ← lift (collectSetupRequestData message ies)
  if transactionID < 0 then return
  handleE2SetupReq { message with enodbName := enodbName } m transactionID

/-- The test at the head of every other case. -/
def ifE2SetupRequestReceived (enodbName : Name) (k : E2NodeConnectionHandling → TM Unit) :
    TM Unit := do
  match E2NodeMap.getE2tProcedureOngoingStatus
      (← lift (get : M World)).connectionHandlingPerE2NodeMap enodbName with
  | some e2NodeConnectionHandling => k e2NodeConnectionHandling
  | none => return

/-- The loop over the information elements of an indication or a control outcome. -/
def forwardRequestID (message : ReportingMessages) (mtype : MsgType) (count : M Unit)
    (messageSent : M Unit) : List (ProtocolIE RequestIEs) → TM Unit
  | [] => return
  | ie :: rest => do
    match ie.value with
    | .ricRequestID r =>
      if ie.id = idRICrequestID then
        let tx ← lift nextTransaction
        lift (writeSendMessage fun b => { b with
          mtype := mtype, xact := tx, meid := message.enodbName.str, state := .ok,
          subId := r.ricInstanceID })
        lift count
        let _ ← sendRmrMessage
        lift messageSent
      else forwardRequestID message mtype count messageSent rest
    | .other => forwardRequestID message mtype count messageSent rest

/-- The case `ProcedureCode_id_ErrorIndication`. -/
def errorIndication (message : ReportingMessages) (m : SctpMsg)
    (ies : List (ProtocolIE ErrorIndicationIEs)) : TM Unit :=
  ifE2SetupRequestReceived message.enodbName.str fun handling => do
    let scanned := scanErrorIndication handling.e2SetupProcedureTransactionId ies
    let status := E2NodeMap.currentE2tProcedureOngoingStatus
      (← lift (get : M World)).connectionHandlingPerE2NodeMap message.enodbName.str
    let sendMsgTo := getSendMsgBitSetValue scanned.2 scanned.1 status
    if sendMsgTo.e2m then
      buildAndSendSetupRequest message .ricE2RicErrorIndication m.xer
    else if sendMsgTo.subMgr then
      let _ ← sendRequestToXapp message.enodbName.str .ricE2RanErrorIndication
    lift (countMessage message.peerInfo .inIniti .inIniti .errorIndication message.asnLength)
    let _ ← sendRequestToXapp message.enodbName.str .ricErrorIndication

/-- A PDU that is not sent on is counted and logged. -/
def logged (count : M Unit) : TM Unit := do
  lift count
  let _ ← buildJsonMessage

/-- `asnInitiatingRequest`. -/
def asnInitiatingRequest (message : ReportingMessages) (m : SctpMsg) : InitiatingMessage → TM Unit
  | .e2setup ies => e2setup message m ies
  | .ricServiceUpdate _ => ifE2SetupRequestReceived message.enodbName.str fun _ => do
      lift (setE2ProcedureOngoingStatus message.enodbName.str .e2SetupProcedureCompleted)
      lift (countMessage message.peerInfo .inIniti .inIniti .ricServiceUpdate message.asnLength)
      buildAndSendSetupRequest message .ricServiceUpdate m.xer
      lift (setE2ProcedureOngoingStatus message.enodbName.str .ricServiceUpdateProcedureOngoing)
  | .e2nodeConfigurationUpdate => ifE2SetupRequestReceived message.enodbName.str fun _ => do
      lift (countMessage message.peerInfo .inIniti .inIniti .e2nodeConfigurationUpdate
        message.asnLength)
      buildAndSendSetupRequest message .ricE2NodeConfigUpdate m.xer
  | .errorIndication ies => errorIndication message m ies
  | .reset => ifE2SetupRequestReceived message.enodbName.str fun _ => do
      lift (countMessage message.peerInfo .inIniti .inIniti .reset message.asnLength)
      if (← lift (xmlFromPER m.xer)) < 0 then return
      let _ ← sendRequestToXapp message.enodbName.str .ricE2ResetReq
  | .ricIndication ies => ifE2SetupRequestReceived message.enodbName.str fun _ => do
      lift (setE2ProcedureOngoingStatus message.enodbName.str .ricIndicationProcedureOngoing)
      forwardRequestID message .ricIndication
        (countMessage message.peerInfo .inIniti .inIniti .ricIndication message.asnLength)
        (setE2ProcedureOngoingStatus message.enodbName.str .ricIndicationProcedureCompleted) ies
  | .ricSubscriptionDeleteRequired => ifE2SetupRequestReceived message.enodbName.str fun _ => do
      lift (countMessage message.peerInfo .inIniti .inIniti .ricSubscriptionDeleteRequired
        message.asnLength)
      let _ ← sendRequestToXapp message.enodbName.str .ricSubDelRequired
  | .other _ => ifE2SetupRequestReceived message.enodbName.str fun _ =>
      logged (countInternal message.peerInfo .invalidMessageReceived)

/-- `asnSuccessfulMsg`. -/
def asnSuccessfulMsg (message : ReportingMessages) (m : SctpMsg) : SuccessfulOutcome → TM Unit
  | .reset => ifE2SetupRequestReceived message.enodbName.str fun _ => do
      lift (countMessageIfSet message.peerInfo .inSucc .reset message.asnLength)
      if (← lift (xmlFromPER m.xer)) < 0 then return
      let _ ← sendRequestToXapp message.enodbName.str .ricE2ResetResp
  | .ricControl ies => ifE2SetupRequestReceived message.enodbName.str fun _ =>
      forwardRequestID message .ricControlAck
        (countMessageIfSet message.peerInfo .inSucc .ricControl message.asnLength)
        (setE2ProcedureOngoingStatus message.enodbName.str .controlProcedureCompleted) ies
  | .ricSubscription => ifE2SetupRequestReceived message.enodbName.str fun _ => do
      lift (countMessageIfSet message.peerInfo .inSucc .ricSubscription message.asnLength)
      let _ ← sendRequestToXapp message.enodbName.str .ricSubResp
      lift (setE2ProcedureOngoingStatus message.enodbName.str .ricIndicationProcedureOngoing)
  | .ricSubscriptionDelete => ifE2SetupRequestReceived message.enodbName.str fun _ => do
      lift (setE2ProcedureOngoingStatus message.enodbName.str .ricSubsDelProcedureCompleted)
      lift (countMessageIfSet message.peerInfo .inSucc .ricSubscriptionDelete message.asnLength)
      let _ ← sendRequestToXapp message.enodbName.str .ricSubDelResp
      lift (setE2ProcedureOngoingStatus message.enodbName.str .ricIndicationProcedureOngoing)
  | .e2connectionUpdate => ifE2SetupRequestReceived message.enodbName.str fun _ => logged do
      increment ((← deref message.peerInfo).counters .inSucc .msgCounter .e2connectionUpdate) 1
  | .other _ => ifE2SetupRequestReceived message.enodbName.str fun _ =>
      logged (countInternal message.peerInfo .invalidMessageReceived)

/-- `asnUnSuccsesfulMsg`. -/
def asnUnSuccsesfulMsg (message : ReportingMessages) : UnsuccessfulOutcome → TM Unit
  | .ricControl ies => ifE2SetupRequestReceived message.enodbName.str fun _ =>
      forwardRequestID message .ricControlFailure
        (countMessage message.peerInfo .inUnSucc .inUnSucc .ricControl message.asnLength)
        (pure ()) ies
  | .ricSubscription => ifE2SetupRequestReceived message.enodbName.str fun _ => do
      lift (countMessage message.peerInfo .inUnSucc .inUnSucc .ricSubscription message.asnLength)
      let _ ← sendRequestToXapp message.enodbName.str .ricSubFailure
  | .ricSubscriptionDelete => ifE2SetupRequestReceived message.enodbName.str fun _ => do
      lift (countMessage message.peerInfo .inUnSucc .inUnSucc .ricSubscriptionDelete
        message.asnLength)
      let _ ← sendRequestToXapp message.enodbName.str .ricSubFailure
  | .e2connectionUpdate => ifE2SetupRequestReceived message.enodbName.str fun _ => logged do
      increment ((← deref message.peerInfo).counters .inUnSucc .msgCounter .e2connectionUpdate) 1
  | .other _ => ifE2SetupRequestReceived message.enodbName.str fun _ =>
      logged (countInternal message.peerInfo .invalidMessageReceived)

/-- The switch of `receiveDataFromSctp` on the decoded PDU. -/
def dispatch (message : ReportingMessages) (m : SctpMsg) : E2APPDU → TM Unit
  | .initiatingMessage i => asnInitiatingRequest message m i
  | .successfulOutcome o => asnSuccessfulMsg message m o
  | .unsuccessfulOutcome o => asnUnSuccsesfulMsg message o
  | .nothing => return

/-! ## Reading and closing -/

/-- What `sctp_recvmsg` returns. -/
def recvLength : Option ReadResult → Int
  | some (.msg m) => m.payload.length
  | some (.eof _) => 0
  | some .eintr | some (.error _) | none => -1

/-- One pass of the loop of `receiveDataFromSctp`, which reads into the send buffer. -/
def readPass (peerInfo : ConnId) (read : Option ReadResult) : TM PassExit := do
  let enodbName := (← lift (deref peerInfo)).enodbName
  lift (recvmsg read)
  setAsn .sendMessage (recvLength read)
  match read with
  | none => return .eagain
  | some .eintr => return .interrupted
  | some (.error answers) => return .done answers
  | some (.eof answers) => return .done answers
  | some (.msg m) =>
    lift (modify fun w => { w with answers := m.answers })
    match m.pdu with
    | none => return .undecodable
    | some pdu =>
      dispatch ⟨enodbName, peerInfo, m.payload.length⟩ m pdu
      return .dispatched m

/-- The report of a lost connection to the E2 manager, with the suffix of its text. -/
def reportFailure (peerInfo : ConnId) (what : String) : TM Unit := do
  let cu ← lift (deref peerInfo)
  let payload := cu.enodbName.str ++ text what
  lift (writeSendMessage fun m => { m with payload := payload, len := payload.length })
  setAsn .sendMessage payload.length
  lift (countInternal peerInfo .sctpAbortInitiatedByE2Node)
  let _ ← sendRequestToXapp cu.enodbName.str .ricSctpConnectionFailure

/-- The block `if (done)` of `receiveDataFromSctp`. -/
def closeConnection (peerInfo : ConnId) (answers : Answers) : TM Unit := do
  lift (modify fun w => { w with answers := answers })
  reportFailure peerInfo "|CU disconnected unexpectedly"
  lift do
    removeE2ConnectionEntryFromMap (← deref peerInfo).enodbName.str
    if ((← get).fds peerInfo).isSome then
      closeFd peerInfo
      cleanHashEntry peerInfo

/-- The branch of `handlepoll_error` for a connection. -/
def closeOnError (peerInfo : ConnId) (answers : Answers) : TM Unit := do
  lift (modify fun w => { w with answers := answers })
  reportFailure peerInfo "|Failed SCTP Connection"
  lift do
    closeFd peerInfo
    removeE2ConnectionEntryFromMap (← deref peerInfo).enodbName.str
    cleanHashEntry peerInfo

/-! ## Messages from the RIC -/

/-- `sendDirectionalSctpMsg`: `getRequestMetaData` takes the payload of the received message. -/
def sendDirectionalSctpMsg (peerInfo : ConnId) (rcvMessage : RmrMsg) (asndata : List UInt8) :
    TM Int := do
  setAsn (.rcvMessage asndata) asndata.length
  sendSctpMsg peerInfo rcvMessage.meid rcvMessage.mtype asndata

/-- A case of `receiveXappMessages` for a node, in terms of what is listed for it. -/
def handle (k : NodeCase) (c : ConnId) (m : RmrMsg) : TM Int := do
  lift (record m.meid k.before)
  match k.data m with
  | none => return 0
  | some data =>
    lift (k.count c data.length)
    if (← sendDirectionalSctpMsg c m data) ≠ 0 then return -6
    lift (record m.meid k.after)
    return 0

/-- The switch of `receiveXappMessages`. A message of another type is only logged. -/
def sendToNode (peerInfo : ConnId) (rcvMessage : RmrMsg) : TM Int :=
  match nodeCase rcvMessage.mtype with
  | some k => handle k peerInfo rcvMessage
  | none => do
    setAsn (.rcvMessage rcvMessage.payload) rcvMessage.payload.length
    let record ← buildJsonMessage
    addEntry record rcvMessage.payload
    return -7

/-- Close what `sctpMap` holds under a node's key. -/
def clearPeer (key : Name) : TM Unit := do
  match (← lift (get : M World)).sctpMap.lookup key with
  | none => return
  | some peerInfo =>
    let cu ← lift (deref peerInfo)
    lift (closeFd peerInfo)
    let payload := cu.enodbName.str ++ text "|RIC_SCTP_CLEAR_ALL"
    lift (writeSendMessage fun m => { m with payload := payload, len := payload.length })
    setAsn .sendMessage payload.length
    let _ ← sendRequestToXapp cu.enodbName.str .ricSctpConnectionFailure
    lift (freePeer peerInfo)

/-- The loop of `RIC_SCTP_CLEAR_ALL`. -/
def clearPeers : List Name → TM Unit
  | [] => return
  | key :: v => do
    if !isInternalKey key then clearPeer key
    clearPeers v

/-- The case `RIC_SCTP_CLEAR_ALL`. -/
def clearAll (rcvMessage : RmrMsg) : TM Unit := do
  clearPeers (getKeys rcvMessage.keys (← lift (get : M World)).sctpMap)
  lift (modify fun w => { w with sctpMap := ∅ })

/-- `receiveXappMessages`. The answers to a keep-alive and a health check are not traced. -/
def receiveXappMessages : Option RmrMsg → TM Int
  | none => return -2
  | some rcvMessage => do
    lift (modify fun w => { w with answers := rcvMessage.answers })
    if rcvMessage.state ≠ .ok then return -1
    match rcvMessage.mtype with
    | .ricSctpClearAll =>
      clearAll rcvMessage
      return 0
    | .e2TermKeepAliveReq =>
      lift keepAlive
      return 0
    | .ricHealthCheckReq =>
      lift healthCheck
      return 0
    | _ =>
      match (← lift (get : M World)).sctpMap.lookup rcvMessage.meid with
      | none => return -1
      | some peerInfo => sendToNode peerInfo rcvMessage

/-! ## Actions -/

def finishPass (c : ConnId) : PassExit → TM Unit
  | .done answers => closeConnection c answers
  | _ => return

def readAction (c : ConnId) (result : Option ReadResult) : TM Unit := do
  finishPass c (← readPass c result)

def run : Action → TM Unit
  | .accept request => lift (Action.run (.accept request))
  | .read c result => readAction c result
  | .pollError c answers => closeOnError c answers
  | .rmr rcvMessage => do let _ ← receiveXappMessages rcvMessage

end Traced

/-! ## Without the records -/

section Erasure

variable {message : ReportingMessages} {m : SctpMsg} {n : Name}

theorem erases_buildJsonMessage {α : Type} {k : TraceRecord → TM α} {x : M α}
    (hk : ∀ record, Erases (k record) x) : Erases (buildJsonMessage >>= k) x :=
  Erases.note_bind hk

theorem erases_setAsn {α : Type} {asndata : AsnData} {asnLength : Int} {k : Unit → TM α} {x : M α}
    (hk : Erases (k ()) x) : Erases (setAsn asndata asnLength >>= k) x :=
  Erases.note_bind fun _ => hk

theorem erases_sendRmrMessage : Erases Traced.sendRmrMessage sendRmrMessage :=
  erases_buildJsonMessage fun _ => .note_bind fun _ => .lift _

theorem erases_sendRequestToXapp (n : Name) (requestId : MsgType) :
    Erases (Traced.sendRequestToXapp n requestId) (sendRequestToXapp n requestId) :=
  (Erases.lift _).bind fun _ => (Erases.lift _).bind fun _ => (Erases.lift _).bind fun _ =>
    erases_sendRmrMessage

theorem erases_buildAndSendSetupRequest (messageType : MsgType) (xer : Option (List UInt8)) :
    Erases (Traced.buildAndSendSetupRequest message messageType xer)
      (buildAndSendSetupRequest message messageType xer) := by
  intro w t
  have hsend := Erases.lift (τ := Reporting) (buildAndSendSetupRequest message messageType xer) w t
  unfold Traced.buildAndSendSetupRequest
  cases hrun : lift (buildAndSendSetupRequest message messageType xer) (w, t) with
  | error e s =>
    rw [bind_of_error hrun, ← hsend, hrun]
  | ok u s =>
    rw [bind_of_ok hrun, ← hsend, hrun]
    cases xer <;> rfl

theorem erases_sendSctpMsg (c : ConnId) (mtype : MsgType) (data : List UInt8) :
    Erases (Traced.sendSctpMsg c n mtype data) (sendSctpMsg c n mtype data) := by
  have hret (rc : Int) : Erases (do
      if rc = 0 then
        let record ← buildJsonMessage
        addEntry record data
        return rc
      else return rc : TM Int) (pure rc) := by
    split
    · exact erases_buildJsonMessage fun _ => .note_bind fun _ => .pure rc
    · exact .pure rc
  have hbind := (Erases.lift (sendSctpMsg c n mtype data)).bind hret
  rwa [bind_pure] at hbind

theorem erases_gate {k' : E2NodeConnectionHandling → TM Unit}
    {k : E2NodeConnectionHandling → M Unit} (hk : ∀ handling, Erases (k' handling) (k handling)) :
    Erases (Traced.ifE2SetupRequestReceived n k') (ifE2SetupRequestReceived n k) := by
  refine (Erases.lift _).bind fun w => ?_
  cases E2NodeMap.getE2tProcedureOngoingStatus w.connectionHandlingPerE2NodeMap n with
  | some handling => exact hk handling
  | none => exact .pure ()

theorem erases_forwardRequestID (mtype : MsgType) (count messageSent : M Unit)
    (ies : List (ProtocolIE RequestIEs)) :
    Erases (Traced.forwardRequestID message mtype count messageSent ies)
      (forwardRequestID message mtype count messageSent ies) := by
  induction ies with
  | nil => exact .pure ()
  | cons ie rest ih =>
    unfold Traced.forwardRequestID forwardRequestID
    cases ie.value with
    | other => exact ih
    | ricRequestID r =>
      dsimp only
      split
      · exact (Erases.lift _).bind fun _ => (Erases.lift _).bind fun _ => (Erases.lift _).bind
          fun _ => erases_sendRmrMessage.bind fun _ => .lift _
      · exact ih

theorem erases_handleE2SetupReq (transactionID : Int) :
    Erases (Traced.handleE2SetupReq message m transactionID)
      (handleE2SetupReq message m transactionID) := by
  have hrest : Erases (do
      let cu ← lift (deref message.peerInfo)
      lift (incrementIfSet (cu.counters .inIniti .msgCounter .e2setup) 1)
      lift (incrementIfSet (cu.counters .inIniti .bytesCounter .e2setup) message.asnLength)
      Traced.buildAndSendSetupRequest message .ricE2SetupReq m.xer
      lift (insertE2SetupProcedureOngoing message.enodbName.str transactionID) : TM Unit) (do
      let cu ← deref message.peerInfo
      incrementIfSet (cu.counters .inIniti .msgCounter .e2setup) 1
      incrementIfSet (cu.counters .inIniti .bytesCounter .e2setup) message.asnLength
      buildAndSendSetupRequest message .ricE2SetupReq m.xer
      insertE2SetupProcedureOngoing message.enodbName.str transactionID) :=
    (Erases.lift _).bind fun _ => (Erases.lift _).bind fun _ => (Erases.lift _).bind fun _ =>
      (erases_buildAndSendSetupRequest _ _).bind fun _ => .lift _
  refine (Erases.lift _).bind fun _ => ?_
  dsimp only
  split
  · exact (Erases.lift _).bind fun _ => hrest
  · exact hrest

theorem erases_e2setup (ies : List (ProtocolIE E2setupRequestIEs)) :
    Erases (Traced.e2setup message m ies) (e2setup message m ies) := by
  refine (Erases.lift _).bind fun p => ?_
  dsimp only
  split
  · exact .pure ()
  · exact erases_handleE2SetupReq _

theorem erases_errorIndication (ies : List (ProtocolIE ErrorIndicationIEs)) :
    Erases (Traced.errorIndication message m ies) (errorIndication message m ies) := by
  refine erases_gate fun handling => (Erases.lift _).bind fun w => ?_
  have hrest : Erases (do
      lift (countMessage message.peerInfo .inIniti .inIniti .errorIndication message.asnLength)
      let _ ← Traced.sendRequestToXapp message.enodbName.str .ricErrorIndication : TM Unit) (do
      countMessage message.peerInfo .inIniti .inIniti .errorIndication message.asnLength
      let _ ← sendRequestToXapp message.enodbName.str .ricErrorIndication) :=
    (Erases.lift _).bind fun _ => (erases_sendRequestToXapp _ _).bind fun _ => .pure _
  dsimp only
  split
  · exact (erases_buildAndSendSetupRequest _ _).bind fun _ => hrest
  · split
    · exact (erases_sendRequestToXapp _ _).bind fun _ => hrest
    · exact hrest

/-- A case that sends a converted PDU on. -/
theorem erases_reset (count : M Unit) (requestId : MsgType) (xer : Option (List UInt8)) :
    Erases (do
      lift count
      if (← lift (xmlFromPER xer)) < 0 then return
      let _ ← Traced.sendRequestToXapp n requestId : TM Unit) (do
      count
      if (← xmlFromPER xer) < 0 then return
      let _ ← sendRequestToXapp n requestId) := by
  refine (Erases.lift _).bind fun _ => (Erases.lift _).bind fun rc => ?_
  split
  · exact .pure ()
  · exact (erases_sendRequestToXapp _ _).bind fun _ => .pure _

theorem erases_logged (count : M Unit) : Erases (Traced.logged count) count := by
  have hbind := (Erases.lift count).bind fun _ => erases_buildJsonMessage fun _ => Erases.pure ()
  rwa [bind_pure_unit] at hbind

theorem erases_asnInitiatingRequest (i : InitiatingMessage) :
    Erases (Traced.asnInitiatingRequest message m i) (asnInitiatingRequest message m i) := by
  cases i with
  | e2setup ies => exact erases_e2setup ies
  | errorIndication ies => exact erases_errorIndication ies
  | ricServiceUpdate ies =>
    exact erases_gate fun _ => (Erases.lift _).bind fun _ => (Erases.lift _).bind fun _ =>
      (erases_buildAndSendSetupRequest _ _).bind fun _ => .lift _
  | e2nodeConfigurationUpdate =>
    exact erases_gate fun _ => (Erases.lift _).bind fun _ => erases_buildAndSendSetupRequest _ _
  | reset => exact erases_gate fun _ => erases_reset _ _ _
  | ricIndication ies =>
    exact erases_gate fun _ => (Erases.lift _).bind fun _ => erases_forwardRequestID _ _ _ _
  | ricSubscriptionDeleteRequired =>
    exact erases_gate fun _ => (Erases.lift _).bind fun _ =>
      (erases_sendRequestToXapp _ _).bind fun _ => .pure _
  | other _ => exact erases_gate fun _ => erases_logged _

theorem erases_asnSuccessfulMsg (o : SuccessfulOutcome) :
    Erases (Traced.asnSuccessfulMsg message m o) (asnSuccessfulMsg message m o) := by
  cases o with
  | reset => exact erases_gate fun _ => erases_reset _ _ _
  | ricControl ies => exact erases_gate fun _ => erases_forwardRequestID _ _ _ _
  | ricSubscription =>
    exact erases_gate fun _ => (Erases.lift _).bind fun _ =>
      (erases_sendRequestToXapp _ _).bind fun _ => .lift _
  | ricSubscriptionDelete =>
    exact erases_gate fun _ => (Erases.lift _).bind fun _ => (Erases.lift _).bind fun _ =>
      (erases_sendRequestToXapp _ _).bind fun _ => .lift _
  | e2connectionUpdate => exact erases_gate fun _ => erases_logged _
  | other _ => exact erases_gate fun _ => erases_logged _

theorem erases_asnUnSuccsesfulMsg (o : UnsuccessfulOutcome) :
    Erases (Traced.asnUnSuccsesfulMsg message o) (asnUnSuccsesfulMsg message o) := by
  cases o with
  | ricControl ies => exact erases_gate fun _ => erases_forwardRequestID _ _ _ _
  | ricSubscription | ricSubscriptionDelete =>
    exact erases_gate fun _ => (Erases.lift _).bind fun _ =>
      (erases_sendRequestToXapp _ _).bind fun _ => .pure _
  | e2connectionUpdate => exact erases_gate fun _ => erases_logged _
  | other _ => exact erases_gate fun _ => erases_logged _

theorem erases_dispatch (pdu : E2APPDU) :
    Erases (Traced.dispatch message m pdu) (dispatch message m pdu) := by
  cases pdu with
  | initiatingMessage i => exact erases_asnInitiatingRequest i
  | successfulOutcome o => exact erases_asnSuccessfulMsg o
  | unsuccessfulOutcome o => exact erases_asnUnSuccsesfulMsg o
  | nothing => exact .pure ()

theorem erases_reportFailure (c : ConnId) (what : String) :
    Erases (Traced.reportFailure c what) (reportFailure c what) :=
  (Erases.lift _).bind fun _ => (Erases.lift _).bind fun _ => erases_setAsn <|
    (Erases.lift _).bind fun _ => (erases_sendRequestToXapp _ _).bind fun _ => .pure _

theorem erases_closeConnection (c : ConnId) (answers : Answers) :
    Erases (Traced.closeConnection c answers) (closeConnection c answers) :=
  (Erases.lift _).bind fun _ => (erases_reportFailure c _).bind fun _ => .lift _

theorem erases_closeOnError (c : ConnId) (answers : Answers) :
    Erases (Traced.closeOnError c answers) (closeOnError c answers) :=
  (Erases.lift _).bind fun _ => (erases_reportFailure c _).bind fun _ => .lift _

theorem erases_readAction (c : ConnId) (result : Option ReadResult) :
    Erases (Traced.readAction c result) (readAction c result) := by
  have hpass : Erases (Traced.readPass c result) (readPass c result) := by
    refine (Erases.lift _).bind fun cu => (Erases.lift _).bind fun _ => erases_setAsn ?_
    rcases result with _ | (m | _ | answers | answers)
    · exact .pure _
    · refine (Erases.lift _).bind fun _ => ?_
      cases m.pdu with
      | none => exact .pure _
      | some pdu => exact (erases_dispatch pdu).bind fun _ => .pure _
    · exact .pure _
    · exact .pure _
    · exact .pure _
  refine hpass.bind fun exit => ?_
  cases exit with
  | done answers => exact erases_closeConnection c answers
  | dispatched | interrupted | undecodable | eagain => exact .pure ()

theorem erases_handle (k : NodeCase) (c : ConnId) (m : RmrMsg) :
    Erases (Traced.handle k c m) (k.handle c m) := by
  refine (Erases.lift _).bind fun _ => ?_
  cases k.data m with
  | none => exact .pure 0
  | some data =>
    refine (Erases.lift _).bind fun _ =>
      (erases_setAsn (erases_sendSctpMsg c m.mtype data)).bind fun rc => ?_
    split
    · exact .pure _
    · exact (Erases.lift _).bind fun _ => .pure _

theorem erases_sendToNode (c : ConnId) (m : RmrMsg) :
    Erases (Traced.sendToNode c m) (sendToNode c m) := by
  unfold Traced.sendToNode
  cases hk : nodeCase m.mtype with
  | some k =>
    rw [sendToNode_eq hk]
    exact erases_handle k c m
  | none =>
    rw [sendToNode_unlisted hk]
    exact erases_setAsn <| erases_buildJsonMessage fun _ => .note_bind fun _ => .pure _

theorem erases_clearPeer (key : Name) : Erases (Traced.clearPeer key) (clearPeer key) := by
  refine (Erases.lift _).bind fun w => ?_
  cases w.sctpMap.lookup key with
  | none => exact .pure ()
  | some c =>
    exact (Erases.lift _).bind fun cu => (Erases.lift _).bind fun _ => (Erases.lift _).bind
      fun _ => erases_setAsn <| (erases_sendRequestToXapp _ _).bind fun _ => .lift _

theorem erases_clearPeers (keys : List Name) :
    Erases (Traced.clearPeers keys) (clearPeers keys) := by
  induction keys with
  | nil => exact .pure ()
  | cons key v ih =>
    unfold Traced.clearPeers clearPeers
    dsimp only
    split
    · exact (erases_clearPeer key).bind fun _ => ih
    · exact ih

theorem erases_receiveXappMessages (rcvMessage : Option RmrMsg) :
    Erases (Traced.receiveXappMessages rcvMessage) (receiveXappMessages rcvMessage) := by
  cases rcvMessage with
  | none => exact .pure _
  | some m =>
    have hnode : Erases (do
        match (← lift (get : M World)).sctpMap.lookup m.meid with
        | none => return -1
        | some peerInfo => Traced.sendToNode peerInfo m : TM Int) (deliver m) := by
      refine (Erases.lift _).bind fun w => ?_
      cases w.sctpMap.lookup m.meid with
      | none => exact .pure _
      | some c => exact erases_sendToNode c m
    refine (Erases.lift _).bind fun _ => ?_
    split
    · exact .pure _
    · cases m.mtype with
      | ricSctpClearAll =>
        refine Erases.bind ?_ fun _ => .pure _
        exact (Erases.lift _).bind fun w => (erases_clearPeers _).bind fun _ => .lift _
      | e2TermKeepAliveReq => exact (Erases.lift _).bind fun _ => .pure _
      | ricHealthCheckReq => exact (Erases.lift _).bind fun _ => .pure _
      | _ => exact hnode

/-- A traced action does what the action does. -/
theorem erases_run (a : Action) : Erases (Traced.run a) a.run := by
  cases a with
  | accept request => exact .lift _
  | read c result => exact erases_readAction c result
  | pollError c answers => exact erases_closeOnError c answers
  | rmr rcvMessage => exact (erases_receiveXappMessages rcvMessage).bind fun _ => .pure _

end Erasure

end E2Term
