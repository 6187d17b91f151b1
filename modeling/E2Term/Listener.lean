import E2Term.Uplink
import E2Term.Downlink

/-!
# The listener

The loop of `listener` over a batch of events, with the accept loop, `receiveDataFromSctp`,
`handlepoll_error` and `handleEinprogressMessages`. What the kernel has pending on a descriptor
when its event is handled comes with the event.
-/

namespace E2Term

open CString

/-! ## Accepting -/

/-- How the calls of the accept loop go for a pending connection request: the first that fails,
if any. -/
inductive AcceptOutcome where
  | callocFailed
  | acceptFailed
  | setSocketNoBlockingFailed
  | getnameinfoFailed
  | addToEpollFailed
  | registered
  deriving DecidableEq, Repr

/-- A connection request in the backlog of the listening socket. -/
structure ConnectionRequest where
  hostName : List UInt8
  portNumber : List UInt8
  outcome : AcceptOutcome
  deriving DecidableEq, Repr

/-- A connection after `calloc` and `getnameinfo`. -/
def ConnectedCU.new (hostName portNumber : List UInt8) : ConnectedCU where
  hostName := hostName
  portNumber := portNumber
  enodbName := Buf.zeros maxEnodbNameSize
  asnData := []
  mtype := .other 0
  isConnected := false
  counters := fun _ _ _ => none
  isSingleStream := false
  singleStreamId := 0
  e2tInternalCounters := fun _ => none

/-- `addToEpoll(epoll_fd, peerInfo, EPOLLIN | EPOLLET, …)` of a new connection. -/
def addConnection (hostName portNumber : List UInt8) : M Unit :=
  modify fun w =>
    { w with
      heap := w.heap.alloc (.new hostName portNumber)
      fds := fun c => if c = w.heap.next then some ⟨true, false, false, false⟩ else w.fds c }

/-- What the accept loop leaves behind: the requests still in the backlog, how many it registered,
and whether an error other than `EAGAIN` ended it. -/
structure AcceptExit where
  backlog : List ConnectionRequest
  registered : Nat
  error : Bool
  deriving DecidableEq, Repr

/-- The `while (true)` of the accept loop. Every path through its body ends in a `break`, so it is
one pass. A call that fails frees what was allocated and closes what was accepted. -/
def acceptLoop : List ConnectionRequest → M AcceptExit
  | [] => return ⟨[], 0, false⟩
  | request :: backlog =>
    match request.outcome with
    | .callocFailed => return ⟨request :: backlog, 0, true⟩
    | .acceptFailed => return ⟨request :: backlog, 0, true⟩
    | .setSocketNoBlockingFailed => return ⟨backlog, 0, true⟩
    | .getnameinfoFailed => return ⟨backlog, 0, true⟩
    | .addToEpollFailed => return ⟨backlog, 0, true⟩
    | .registered => do
      addConnection request.hostName request.portNumber
      return ⟨backlog, 1, false⟩

/-! ## Reading -/

/-- What a read of a connection returns when something is pending on it. An error and the end of the
stream come with the answers to the calls of the block that closes the connection. -/
inductive ReadResult where
  | msg (m : SctpMsg)
  | eintr
  | error (answers : Answers)
  | eof (answers : Answers)

/-- How a pass of the read loop ends: it starts over, having dispatched a message or not, or
leaves the loop by one of its exits. -/
inductive PassExit where
  | dispatched (m : SctpMsg)
  | interrupted
  | undecodable
  | eagain
  | done (answers : Answers)

/-- The length `sctp_recvmsg` returns, with the data it leaves in the buffer. -/
def recvmsg (read : Option ReadResult) : M Unit :=
  match read with
  | some (.msg m) =>
    writeSendMessage fun b => { b with payload := m.payload, len := m.payload.length }
  | some (.eof _) => writeSendMessage fun b => { b with len := 0 }
  | some .eintr | some (.error _) | none => writeSendMessage fun b => { b with len := -1 }

/-- One pass of the loop of `receiveDataFromSctp`; `none` is a read that reports `EAGAIN`. -/
def readPass (peerInfo : ConnId) (read : Option ReadResult) : M PassExit := do
  let enodbName := (← deref peerInfo).enodbName
  recvmsg read
  match read with
  | none => return .eagain
  | some .eintr => return .interrupted
  | some (.error answers) => return .done answers
  | some (.eof answers) => return .done answers
  | some (.msg m) =>
    modify fun w => { w with answers := m.answers }
    match m.pdu with
    | none => return .undecodable
    | some pdu =>
      dispatch ⟨enodbName, peerInfo, m.payload.length⟩ m pdu
      return .dispatched m

/-- The report of a lost connection to the E2 manager, with the suffix of its text. -/
def reportFailure (peerInfo : ConnId) (what : String) : M Unit := do
  let cu ← deref peerInfo
  let payload := cu.enodbName.str ++ text what
  writeSendMessage fun m => { m with payload := payload, len := payload.length }
  countInternal peerInfo .sctpAbortInitiatedByE2Node
  let _ ← sendRequestToXapp cu.enodbName.str .ricSctpConnectionFailure

/-- The block `if (done)` of `receiveDataFromSctp`. -/
def closeConnection (peerInfo : ConnId) (answers : Answers) : M Unit := do
  modify fun w => { w with answers := answers }
  reportFailure peerInfo "|CU disconnected unexpectedly"
  removeE2ConnectionEntryFromMap (← deref peerInfo).enodbName.str
  if ((← get).fds peerInfo).isSome then
    closeFd peerInfo
    cleanHashEntry peerInfo

/-- What the read loop leaves behind: the reads it did not make, the messages it dispatched, in
order, and the exit it took. -/
structure LoopExit where
  unread : List ReadResult
  dispatched : List SctpMsg
  exit : PassExit

/-- The loop of `receiveDataFromSctp` over what is pending on the descriptor. -/
def readLoop (peerInfo : ConnId) : List ReadResult → List SctpMsg → M LoopExit
  | [], dispatched => do return ⟨[], dispatched, ← readPass peerInfo none⟩
  | read :: pending, dispatched => do
    match ← readPass peerInfo (some read) with
    | .dispatched m => readLoop peerInfo pending (dispatched ++ [m])
    | .interrupted => readLoop peerInfo pending dispatched
    | exit => return ⟨pending, dispatched, exit⟩

/-- `receiveDataFromSctp`. -/
def receiveDataFromSctp (peerInfo : ConnId) (pending : List ReadResult) : M LoopExit := do
  let loopExit ← readLoop peerInfo pending []
  match loopExit.exit with
  | .done answers =>
    closeConnection peerInfo answers
    return loopExit
  | _ => return loopExit

/-! ## Errors and delayed connections -/

/-- The branch of `handlepoll_error` for a connection. -/
def closeOnError (peerInfo : ConnId) (answers : Answers) : M Unit := do
  modify fun w => { w with answers := answers }
  reportFailure peerInfo "|Failed SCTP Connection"
  closeFd peerInfo
  removeE2ConnectionEntryFromMap (← deref peerInfo).enodbName.str
  cleanHashEntry peerInfo

/-- `modifyToEpoll`. -/
def modifyToEpoll (peerInfo : ConnId) (events : EpollFlags) (enodbName : Name)
    (msgType : MsgType) (epollCtl : Bool) : M Int := do
  if epollCtl then
    modify fun w => { w with fds := fun c => if c = peerInfo then some events else w.fds c }
    return 0
  else
    closeFd peerInfo
    removeE2ConnectionEntryFromMap enodbName
    cleanHashEntry peerInfo
    eraseMsgKey (msgKey (← get).params enodbName msgType)
    return -1

/-- What `handleEinprogressMessages` asks the kernel: whether `getsockopt` failed (with the text of
the error), or the error it reports; and whether `epoll_ctl` succeeds. -/
structure SocketAnswers where
  getsockopt : Except (List UInt8) Bool
  epollCtl : Bool

/-- `memset(peerInfo->asnData, 0, …)` and the two assignments after it. -/
def clearDelayed (peerInfo : ConnId) : M Unit :=
  update peerInfo fun cu => { cu with asnData := [], mtype := .other 0 }

/-- The failure branch of `handleEinprogressMessages`. -/
def delayedFailed (peerInfo : ConnId) (what : List UInt8) : M Unit := do
  let cu ← deref peerInfo
  let payload := cu.enodbName.str ++ what
  writeSendMessage fun m => { m with payload := payload, len := payload.length }
  countInternal peerInfo .sctpAbortInitiatedByE2Node
  let _ ← sendRequestToXapp cu.enodbName.str .ricSctpConnectionFailure
  clearDelayed peerInfo

/-- `handleEinprogressMessages`. -/
def handleEinprogressMessages (peerInfo : ConnId) (socket : SocketAnswers) : M Unit := do
  let cu ← deref peerInfo
  match socket.getsockopt with
  | .error strerror =>
    delayedFailed peerInfo
      (text "|Failed SCTP Connection, after EINPROGRESS the getsockopt" ++ strerror)
  | .ok true => delayedFailed peerInfo (text "|Failed SCTP Connection after EINPROGRESS, SO_ERROR")
  | .ok false =>
    update peerInfo fun cu => { cu with isConnected := true }
    if (← modifyToEpoll peerInfo ⟨true, false, false, false⟩ cu.enodbName.str cu.mtype
        socket.epollCtl) ≠ 0 then return
    if (← sendSctpMsg peerInfo cu.enodbName.str cu.mtype cu.asnData) ≠ 0 then return
    clearDelayed peerInfo

/-! ## Events -/

/-- `epoll_event.data`: a descriptor number for the three descriptors of the listener, else a
`ConnectedCU_t *`. -/
inductive EpollData where
  | listenFD
  | rmrListenFd
  | inotifyFD
  | ptr (c : ConnId)
  deriving DecidableEq, Repr

/-- An event of `epoll_wait`, with what its handler finds: the backlog of the listening socket,
the RMR message, what is pending on the connection, and the answers of its calls. -/
structure EpollEvent where
  events : EpollFlags
  data : EpollData
  backlog : List ConnectionRequest
  rcvMessage : Option RmrMsg
  pending : List ReadResult
  socket : SocketAnswers
  answers : Answers

/-- `handlepoll_error`. The number of another descriptor is taken for a pointer. -/
def handlepollError (event : EpollEvent) : M Unit :=
  match event.data with
  | .rmrListenFd => return
  | .ptr peerInfo => closeOnError peerInfo event.answers
  | .listenFD | .inotifyFD => throw .wildPointer

/-- The body of the loop of `listener` over a batch. A change of the configuration file touches
the log level and the trace flag only. -/
def handleEvent (event : EpollEvent) : M Unit := do
  if event.events.epollerr ∨ event.events.epollhup then
    handlepollError event
  else if event.events.epollout then
    match event.data with
    | .ptr peerInfo =>
      modify fun w => { w with answers := event.answers }
      handleEinprogressMessages peerInfo event.socket
    | .listenFD | .rmrListenFd | .inotifyFD => throw .wildPointer
  else
    match event.data with
    | .listenFD => do
      let _ ← acceptLoop event.backlog
    | .rmrListenFd => do
      let _ ← receiveXappMessages event.rcvMessage
    | .inotifyFD => return
    | .ptr peerInfo => do
      let _ ← receiveDataFromSctp peerInfo event.pending

/-- The loop of `listener` over the events of one `epoll_wait`. -/
def handleBatch : List EpollEvent → M Unit
  | [] => return
  | event :: events => do
    handleEvent event
    handleBatch events

end E2Term
