import E2Term.World

/-!
# Sending

Messages to RMR go through the one buffer `rmrMessageBuffer.sendMessage`, which a failed send
leaves in place and a successful one replaces; forwarded setup messages use a buffer of their own.
Messages to a node go out on its association.
-/

namespace E2Term

open CString

/-- `ReportingMessages_t`, as far as handlers read it. -/
structure ReportingMessages where
  enodbName : NameBuf
  peerInfo : ConnId
  asnLength : Nat

/-- `RECEIVE_SCTP_BUFFER_SIZE` and `RECEIVE_XAPP_BUFFER_SIZE`. -/
def receiveSctpBufferSize : Nat := 128 * 1024

def emit (o : Output) : M Unit := modify fun w => { w with outbox := w.outbox ++ [o] }

/-- Write to `rmrMessageBuffer.sendMessage`. -/
def writeSendMessage (f : RmrMbuf → RmrMbuf) : M Unit :=
  modify fun w => { w with sendMessage := f w.sendMessage }

/-- `transactionCounter++`. -/
def nextTransaction : M Nat :=
  modifyGet fun w =>
    (w.transactionCounter, { w with transactionCounter := w.transactionCounter + 1 })

/-! ## RMR -/

/-- The next answer of `rmr_send_msg`. -/
def nextRmrAnswer : M RmrSendResult :=
  modifyGet fun w =>
    match w.answers.rmr with
    | [] => (.sent, w)
    | r :: rs => (r, { w with answers := { w.answers with rmr := rs } })

/-- `rmr_send_msg`: the buffer it returns, `none` for a null pointer. -/
def rmrSendMsg (msg : RmrMbuf) : M (Option RmrMbuf) := do
  match ← nextRmrAnswer with
  | .sent => return some .fresh
  | .retry => return some { msg with state := .errRetry }
  | .failed n => return some { msg with state := .err n }
  | .null => return none

/-- A send, repeated once when RMR asks for a retry. -/
def rmrSendWithRetry (msg : RmrMbuf) : M (Option RmrMbuf) := do
  match ← rmrSendMsg msg with
  | none => return none
  | some m =>
    if m.state = .errRetry then rmrSendMsg { m with state := .ok } else return some m

/-- Whether RMR took a message, from the buffer it returned. -/
def wasSent : Option RmrMbuf → Bool
  | some m => m.state = .ok
  | none => false

/-- `sendRmrMessage`. -/
def sendRmrMessage : M Int := do
  let msg := (← get).sendMessage
  let returned ← rmrSendWithRetry msg
  emit (.rmr msg (wasSent returned))
  match returned with
  | none =>
    writeSendMessage fun _ => .fresh
    return -1
  | some m =>
    writeSendMessage fun _ => m
    match m.state with
    | .ok => return 0
    | .errRetry => return 10
    | .err n => return n

/-- `sendRequestToXapp`. -/
def sendRequestToXapp (enodbName : Name) (requestId : MsgType) : M Int := do
  writeSendMessage fun m => { m with meid := enodbName, mtype := requestId, state := .ok }
  let tx ← nextTransaction
  writeSendMessage fun m => { m with xact := tx }
  sendRmrMessage

/-- `res.erase(remove(...))` for newline, tab and space. -/
def stripLayout (res : List UInt8) : List UInt8 :=
  res.filter fun b => b ≠ 10 ∧ b ≠ 9 ∧ b ≠ 32

/-- What a forwarded PDU starts with: the address of this terminator. -/
def SctpParams.address (params : SctpParams) : List UInt8 :=
  params.myIP ++ text ":" ++ dec params.rmrPort ++ text "|"

/-- The characters that `snprintf(payload, res.length() + 256, "%s:%d|%s", ...)` leaves. -/
def setupPayload (params : SctpParams) (res : List UInt8) : List UInt8 :=
  (params.address ++ res).take (res.length + 255)

/-- The address has room in front of the text. -/
def SctpParams.AddressFits (params : SctpParams) : Prop := params.address.length ≤ 255

instance (params : SctpParams) : Decidable params.AddressFits :=
  inferInstanceAs (Decidable (_ ≤ _))

/-- The text is whole where the address has its room, and only there. -/
theorem setupPayload_eq_iff (params : SctpParams) (res : List UInt8) :
    setupPayload params res = params.address ++ res ↔ params.AddressFits := by
  unfold setupPayload SctpParams.AddressFits
  rw [List.take_eq_self_iff, List.length_append]
  omega

theorem setupPayload_of_fits {params : SctpParams} (h : params.AddressFits) (res : List UInt8) :
    setupPayload params res = params.address ++ res := (setupPayload_eq_iff params res).mpr h

/-- `buildAndSendSetupRequest`: the PDU as XML, in a message of its own, whose length is the one
that `snprintf` would have written. `xer` is what the encoder makes of the PDU. -/
def buildAndSendSetupRequest (message : ReportingMessages) (messageType : MsgType)
    (xer : Option (List UInt8)) : M Unit := do
  match xer with
  | none => return
  | some buffer =>
    let params := (← get).params
    let tx ← nextTransaction
    let res := stripLayout buffer
    let rmrMsg : RmrMbuf :=
      { RmrMbuf.fresh with
        mtype := messageType, meid := message.enodbName.str, xact := tx,
        payload := setupPayload params res, len := (params.address ++ res).length }
    let returned ← rmrSendWithRetry rmrMsg
    emit (.rmr rmrMsg (wasSent returned))

/-- `XML_From_PER`: the received PDU in the send buffer becomes XML. `xer` is what decoding and
encoding make of it. -/
def xmlFromPER (xer : Option (List UInt8)) : M Int := do
  match xer with
  | none => return -1
  | some encoded =>
    if encoded.length > receiveSctpBufferSize then return -1
    writeSendMessage fun m => { m with payload := encoded, len := encoded.length }
    return 0

/-! ## SCTP -/

/-- `fetchStreamId`. -/
def fetchStreamId (peerInfo : ConnectedCU) (messageType : MsgType) : Int :=
  if peerInfo.isSingleStream then peerInfo.singleStreamId
  else
    match messageType with
    | .ricSubReq | .ricSubDelReq | .ricControlReq => 1
    | _ => 0

/-- `sctp_sendmsg`, repeated while it is interrupted. -/
def sctpAnswer : List SctpSendResult → Bool × List SctpSendResult
  | [] => (true, [])
  | .eintr :: rest => sctpAnswer rest
  | .sent :: rest => (true, rest)
  | .failed :: rest => (false, rest)

def sctpSendmsg : M Bool :=
  modifyGet fun w =>
    let (sent, rest) := sctpAnswer w.answers.sctp
    (sent, { w with answers := { w.answers with sctp := rest } })

/-- `free` of what `sctpMap` holds under a key, and the erasure of the key. -/
def eraseMsgKey (key : Name) : M Unit := do
  match (← get).sctpMap.lookup key with
  | some tmp => freePeer tmp
  | none => pure ()
  eraseKey key

/-- `sendSctpMsg`. -/
def sendSctpMsg (peerInfo : ConnId) (enodbName : Name) (messageType : MsgType)
    (asndata : List UInt8) : M Int := do
  let cu ← deref peerInfo
  let streamId := fetchStreamId cu messageType
  if ← sctpSendmsg then
    emit (.sctp peerInfo streamId asndata messageType enodbName)
    return 0
  else if !cu.isConnected then
    return -1
  else
    removeE2ConnectionEntryFromMap cu.enodbName.str
    cleanHashEntry peerInfo
    closeFd peerInfo
    eraseMsgKey (msgKey (← get).params enodbName messageType)
    return -1

end E2Term
