import E2Term.Transport

/-!
# Messages from the RIC

`receiveXappMessages`. A message for a node is addressed by its MEID, which is looked up in
`sctpMap`; three message types are for the terminator itself. A handler that leaves by `break`
returns 0.
-/

namespace E2Term

open CString

/-- A received RMR message. `per` is what decoding its XML and encoding the PDU make of the payload,
`keys` the order in which `sctpMap` lists its keys, `answers` what the calls of the handler
return. -/
structure RmrMsg where
  state : RmrState
  mtype : MsgType
  meid : Name
  payload : List UInt8
  per : Option (List UInt8)
  keys : List Name
  answers : Answers

/-- `RECEIVE_XAPP_BUFFER_SIZE`. -/
def receiveXappBufferSize : Nat := receiveSctpBufferSize

/-- `PER_FromXML`: the payload for the node. -/
def perFromXML (rcvMessage : RmrMsg) : Option (List UInt8) :=
  rcvMessage.per.filter fun encoded => encoded.length ≤ receiveXappBufferSize

/-- `sendDirectionalSctpMsg`, with `getRequestMetaData` and `sendMessagetoCu`. -/
def sendDirectionalSctpMsg (peerInfo : ConnId) (rcvMessage : RmrMsg) (asndata : List UInt8) :
    M Int :=
  sendSctpMsg peerInfo rcvMessage.meid rcvMessage.mtype asndata

/-- The common part of the cases for a node: the message is counted and sent, and `sent` runs when
that succeeded. -/
def countAndSend (peerInfo : ConnId) (rcvMessage : RmrMsg) (count : Nat → M Unit)
    (sent : M Unit) (asndata : List UInt8) : M Int := do
  count asndata.length
  if (← sendDirectionalSctpMsg peerInfo rcvMessage asndata) ≠ 0 then return -6
  sent
  return 0

/-- The cases whose payload is XML. -/
def convertAndSend (peerInfo : ConnId) (rcvMessage : RmrMsg) (count : Nat → M Unit)
    (sent : M Unit) : M Int :=
  match perFromXML rcvMessage with
  | none => return 0
  | some asndata => countAndSend peerInfo rcvMessage count sent asndata

/-- The cases of a request whose answer the node owes: `started` is its ongoing status. -/
def startProcedure (peerInfo : ConnId) (rcvMessage : RmrMsg) (procedure : ProcedureCode)
    (started : E2TProcedureStates) : M Int := do
  setE2ProcedureOngoingStatus rcvMessage.meid .e2SetupProcedureCompleted
  countAndSend peerInfo rcvMessage (countMessage peerInfo .outIniti .outIniti procedure)
    (setE2ProcedureOngoingStatus rcvMessage.meid started) rcvMessage.payload

/-- The four guarded increments of a setup outcome. -/
def countSetupOutcome (c : ConnId) (direction : Direction) (len : Nat) : M Unit := do
  incrementIfSet ((← deref c).counters direction .msgCounter .e2setup) 1
  incrementIfSet ((← deref c).counters direction .bytesCounter .e2setup) len
  incrementIfSet (e2tCounters direction .msgCounter .e2setup) 1
  incrementIfSet (e2tCounters direction .bytesCounter .e2setup) len

/-- The cases of `receiveXappMessages` for a node. -/
def sendToNode (peerInfo : ConnId) (rcvMessage : RmrMsg) : M Int :=
  let count := countMessage peerInfo
  match rcvMessage.mtype with
  | .ricE2SetupResp =>
    convertAndSend peerInfo rcvMessage (countSetupOutcome peerInfo .outSucc)
      (setE2ProcedureOngoingStatus rcvMessage.meid .e2SetupProcedureCompleted)
  | .ricE2SetupFailure =>
    convertAndSend peerInfo rcvMessage (countSetupOutcome peerInfo .outUnSucc)
      (setE2ProcedureOngoingStatus rcvMessage.meid .e2SetupProcedureCompleted)
  | .ricE2NodeConfigUpdateAck =>
    convertAndSend peerInfo rcvMessage (count .outSucc .outSucc .e2nodeConfigurationUpdate)
      (pure ())
  | .ricE2NodeConfigUpdateFailure =>
    convertAndSend peerInfo rcvMessage (count .outUnSucc .outUnSucc .e2nodeConfigurationUpdate)
      (pure ())
  | .ricErrorIndication =>
    countAndSend peerInfo rcvMessage (count .outIniti .inIniti .errorIndication) (pure ())
      rcvMessage.payload
  | .ricSubReq => startProcedure peerInfo rcvMessage .ricSubscription .ricSubsProcedureOngoing
  | .ricSubDelReq =>
    startProcedure peerInfo rcvMessage .ricSubscriptionDelete .ricSubsDelProcedureOngoing
  | .ricControlReq => startProcedure peerInfo rcvMessage .ricControl .controlProcedureOngoing
  | .ricServiceQuery =>
    convertAndSend peerInfo rcvMessage (count .outIniti .outIniti .ricServiceQuery)
      (setE2ProcedureOngoingStatus rcvMessage.meid .ricServiceUpdateProcedureOngoing)
  | .ricServiceUpdateAck =>
    convertAndSend peerInfo rcvMessage (count .outSucc .outSucc .ricServiceUpdate) (pure ())
  | .ricServiceUpdateFailure =>
    convertAndSend peerInfo rcvMessage (count .outUnSucc .outUnSucc .ricServiceUpdate) (pure ())
  | .ricE2ResetReq =>
    convertAndSend peerInfo rcvMessage (count .outIniti .inIniti .reset) (pure ())
  | .ricE2ResetResp =>
    convertAndSend peerInfo rcvMessage (count .outSucc .outSucc .reset) (pure ())
  | _ => return -7

/-! ## The bulk clear -/

/-- `mapWrapper::getKeys`: the keys in the order the hash map has them. -/
def getKeys (order : List Name) (m : SctpMap) : List Name :=
  if order.isPerm m.keys then order else m.keys

/-- `boost::starts_with(iter, "host:") || boost::starts_with(iter, "msg:")`. -/
def isInternalKey (key : Name) : Bool :=
  (text "host:").isPrefixOf key || (text "msg:").isPrefixOf key

/-- Close what `sctpMap` holds under a node's key: the E2 manager is told, the entry stays. -/
def clearPeer (key : Name) : M Unit := do
  match (← get).sctpMap.lookup key with
  | none => return
  | some peerInfo =>
    let cu ← deref peerInfo
    closeFd peerInfo
    let payload := cu.enodbName.str ++ text "|RIC_SCTP_CLEAR_ALL"
    writeSendMessage fun m => { m with payload := payload, len := payload.length }
    let _ ← sendRequestToXapp cu.enodbName.str .ricSctpConnectionFailure
    freePeer peerInfo

/-- The loop of `RIC_SCTP_CLEAR_ALL`. -/
def clearPeers : List Name → M Unit
  | [] => return
  | key :: v => do
    if !isInternalKey key then clearPeer key
    clearPeers v

/-- The case `RIC_SCTP_CLEAR_ALL`. The procedure map stays as it is. -/
def clearAll (rcvMessage : RmrMsg) : M Unit := do
  clearPeers (getKeys rcvMessage.keys (← get).sctpMap)
  modify fun w => { w with sctpMap := ∅ }

/-! ## Requests to the terminator -/

/-- The case `E2_TERM_KEEP_ALIVE_REQ`. The MEID of the buffer is not set. -/
def keepAlive : M Unit := do
  let params := (← get).params
  writeSendMessage fun m => { m with
    payload := params.kaMessage, len := params.kaMessage.length,
    mtype := .e2TermKeepAliveResp, state := .ok }
  let tx ← nextTransaction
  writeSendMessage fun m => { m with xact := tx }
  let msg := (← get).sendMessage
  let returned ← rmrSendMsg msg
  emit (.rmr msg (wasSent returned))
  writeSendMessage fun _ => returned.getD .fresh

/-- The case `RIC_HEALTH_CHECK_REQ`. -/
def healthCheck : M Unit := do
  let _ ← nextTransaction
  emit (.rts .ricHealthCheckResp (text "OK"))

/-- `receiveXappMessages`. The argument is what `rmr_rcv_msg` returns. -/
def receiveXappMessages : Option RmrMsg → M Int
  | none => return -2
  | some rcvMessage => do
    modify fun w => { w with answers := rcvMessage.answers }
    if rcvMessage.state ≠ .ok then return -1
    match rcvMessage.mtype with
    | .ricSctpClearAll =>
      clearAll rcvMessage
      return 0
    | .e2TermKeepAliveReq =>
      keepAlive
      return 0
    | .ricHealthCheckReq =>
      healthCheck
      return 0
    | _ =>
      match (← get).sctpMap.lookup rcvMessage.meid with
      | none => return -1
      | some peerInfo => sendToNode peerInfo rcvMessage

end E2Term
