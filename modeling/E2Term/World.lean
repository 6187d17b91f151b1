import Mathlib.Data.List.AList
import E2Term.Lib.Effect
import E2Term.Lib.Heap
import E2Term.Metrics

/-!
# The state of the listener

The listener thread owns all state below, so one event is handled after another. A handler is a
computation in `M`: it may stop with a `Fault`, which stands for undefined behaviour of the C++
code (the process does not survive it), and then leaves the state of that moment behind. What
the operating system and RMR answer while a handler runs is part of its input, `answers`.
-/

namespace E2Term

open CString Effect

/-- Undefined behaviour. -/
inductive Fault where
  | useAfterFree
  | nullCounter
  | nameOverflow
  | wildPointer
  deriving DecidableEq, Repr

/-- A `ConnectedCU_t *`. Its descriptor carries the same number. -/
abbrev ConnId := Nat

/-- `ConnectedCU_t`. -/
structure ConnectedCU where
  hostName : List UInt8
  portNumber : List UInt8
  enodbName : NameBuf
  asnData : List UInt8
  mtype : MsgType
  isConnected : Bool
  counters : CounterSlots
  isSingleStream : Bool
  singleStreamId : Nat
  e2tInternalCounters : E2TInternalCounters → Option Label

/-- Flags of `struct epoll_event`. -/
structure EpollFlags where
  epollin : Bool
  epollout : Bool
  epollerr : Bool
  epollhup : Bool
  deriving DecidableEq, Repr

/-- The state field of an RMR message. -/
inductive RmrState where
  | ok
  | errRetry
  | err (n : Int)
  deriving DecidableEq, Repr

/-- `rmr_mbuf_t`. -/
structure RmrMbuf where
  state : RmrState
  mtype : MsgType
  subId : Int
  meid : Name
  xact : Nat
  payload : List UInt8
  len : Int
  deriving DecidableEq, Repr

/-- A buffer as `rmr_alloc_msg` returns it, and `rmr_send_msg` after it sent one: the type and
the subscription id are unset, the payload is empty. -/
def RmrMbuf.fresh : RmrMbuf := ⟨.ok, .other (-1), -1, [], 0, [], 0⟩

/-- An answer of `rmr_send_msg`. -/
inductive RmrSendResult where
  | sent
  | retry
  | failed (n : Int)
  | null
  deriving DecidableEq, Repr

/-- An answer of `sctp_sendmsg`. -/
inductive SctpSendResult where
  | sent
  | eintr
  | failed
  deriving DecidableEq, Repr

/-- The answers of the calls a handler makes, in order; when they run out, calls succeed. -/
structure Answers where
  rmr : List RmrSendResult
  sctp : List SctpSendResult
  deriving DecidableEq, Repr

/-- Every call succeeds. -/
def Answers.good : Answers := ⟨[], []⟩

/-- What leaves the terminator: a message handed to RMR (repeated once on a retry answer) with
whether RMR took it, an RMR reply, and a message on an SCTP association. -/
inductive Output where
  | rmr (msg : RmrMbuf) (sent : Bool)
  | rts (mtype : MsgType) (payload : List UInt8)
  | sctp (peer : ConnId) (streamId : Int) (payload : List UInt8) (mtype : MsgType)
      (enodbName : Name)
  deriving DecidableEq, Repr

/-- `Sctp_Map_t`. -/
abbrev SctpMap := AList fun _ : Name => ConnId

/-- The type of `connectionHandlingPerE2NodeMap`. -/
abbrev E2NodeMap := AList fun _ : Name => E2NodeConnectionHandling

/-- The parts of `sctp_params_t` that messages are built from. `mtypeText` is `%d` of a message
type, whose numbers stand in RMR's header. -/
structure SctpParams where
  myIP : List UInt8
  rmrPort : Nat
  kaMessage : List UInt8
  mtypeText : MsgType → List UInt8

/-- The state of the listener. `fds` holds the open descriptors of connections with the events
epoll watches on them; `outbox` is everything sent so far. -/
structure World where
  params : SctpParams
  heap : CellHeap ConnectedCU
  fds : ConnId → Option EpollFlags
  sctpMap : SctpMap
  connectionHandlingPerE2NodeMap : E2NodeMap
  registry : Label → Nat
  sendMessage : RmrMbuf
  transactionCounter : Nat
  answers : Answers
  outbox : List Output

/-- The state before the first event. -/
def World.init (params : SctpParams) : World where
  params := params
  heap := .empty
  fds := fun _ => none
  sctpMap := ∅
  connectionHandlingPerE2NodeMap := ∅
  registry := fun _ => 0
  sendMessage := .fresh
  transactionCounter := 0
  answers := .good
  outbox := []

/-- A handler. -/
abbrev M := EStateM Fault World

namespace World

variable (w : World)

/-- The C string in the name of a live connection. -/
def nameOf (c : ConnId) : Option Name := (w.heap.get c).map fun cu => cu.enodbName.str

/-- The recorded status of a node. -/
def statusOf (n : Name) : Option E2TProcedureStates :=
  (w.connectionHandlingPerE2NodeMap.lookup n).map (·.e2tProcedureOngoingStatus)

end World

theorem nameOf_of_get {w : World} {c : ConnId} {cu : ConnectedCU} (hc : w.heap.get c = some cu) :
    w.nameOf c = some cu.enodbName.str := by
  unfold World.nameOf
  rw [hc]
  rfl

/-! ## Connections -/

/-- Follow a `ConnectedCU_t *`. -/
def deref (c : ConnId) : M ConnectedCU := do
  match (← get).heap.get c with
  | some cu => return cu
  | none => throw .useAfterFree

/-- Write to a connection. -/
def update (c : ConnId) (f : ConnectedCU → ConnectedCU) : M Unit := do
  let cu ← deref c
  modify fun w => { w with heap := w.heap.set c (f cu) }

/-- `free` of a connection. -/
def freePeer (c : ConnId) : M Unit := do
  let _ ← deref c
  modify fun w => { w with heap := w.heap.free c }

/-- `close` of a connection's descriptor, which epoll then forgets. -/
def closeFd (c : ConnId) : M Unit :=
  modify fun w => { w with fds := fun i => if i = c then none else w.fds i }

/-! ## Counters -/

/-- `slot->Increment(n)`. -/
def increment (slot : Option Label) (n : Nat) : M Unit :=
  match slot with
  | some l => modify fun w =>
      { w with registry := fun k => if k = l then w.registry k + n else w.registry k }
  | none => throw .nullCounter

/-- `if (slot) slot->Increment(n)`. -/
def incrementIfSet (slot : Option Label) (n : Nat) : M Unit :=
  if slot.isSome then increment slot n else pure ()

/-- The four increments of a counted message: messages and bytes, of the connection and of the
instance. -/
def countMessage (c : ConnId) (direction e2tDirection : Direction) (procedure : ProcedureCode)
    (len : Nat) : M Unit := do
  increment ((← deref c).counters direction .msgCounter procedure) 1
  increment ((← deref c).counters direction .bytesCounter procedure) len
  increment (e2tCounters e2tDirection .msgCounter procedure) 1
  increment (e2tCounters e2tDirection .bytesCounter procedure) len

/-- `if (e2tCounters[...]) { ... }` around the four increments. -/
def countMessageIfSet (c : ConnId) (direction : Direction) (procedure : ProcedureCode)
    (len : Nat) : M Unit :=
  if (e2tCounters direction .msgCounter procedure).isSome then
    countMessage c direction direction procedure len
  else pure ()

/-! ## The procedure map -/

namespace E2NodeMap

/-- `getE2tProcedureOngoingStatus`. -/
def getE2tProcedureOngoingStatus (m : E2NodeMap) (enbName : Name) :
    Option E2NodeConnectionHandling :=
  if enbName = [] then none else m.lookup enbName

/-- `setE2ProcedureOngoingStatus`. -/
def setE2ProcedureOngoingStatus (m : E2NodeMap) (enbName : Name) (state : E2TProcedureStates) :
    E2NodeMap :=
  match m.lookup enbName with
  | some h => m.insert enbName { h with e2tProcedureOngoingStatus := state }
  | none => m

/-- `insertE2SetupProcedureOngoing`. -/
def insertE2SetupProcedureOngoing (m : E2NodeMap) (enbName : Name) (transactionID : Int) :
    E2NodeMap :=
  match m.lookup enbName with
  | some _ => setE2ProcedureOngoingStatus m enbName .e2SetupProcedureOngoing
  | none => m.insert enbName ⟨.e2SetupProcedureOngoing, transactionID⟩

/-- `removeE2ConnectionEntryFromMap`. -/
def removeE2ConnectionEntryFromMap (m : E2NodeMap) (enbName : Name) : E2NodeMap := m.erase enbName

theorem lookup_setE2ProcedureOngoingStatus (m : E2NodeMap) (n : Name) (s : E2TProcedureStates)
    (k : Name) :
    (m.setE2ProcedureOngoingStatus n s).lookup k =
      if k = n then (m.lookup n).map fun h => { h with e2tProcedureOngoingStatus := s }
      else m.lookup k := by
  unfold setE2ProcedureOngoingStatus
  by_cases hk : k = n
  · subst hk
    rw [if_pos rfl]
    cases hl : m.lookup k with
    | none => simpa using hl
    | some h => simp [AList.lookup_insert]
  · rw [if_neg hk]
    cases m.lookup n with
    | none => rfl
    | some h => simp [AList.lookup_insert_ne hk]

/-- A setup request leaves an entry for its node, with the transaction id of the first request. -/
theorem lookup_insertE2SetupProcedureOngoing (m : E2NodeMap) (n : Name) (tid : Int) (k : Name) :
    (m.insertE2SetupProcedureOngoing n tid).lookup k =
      if k = n then
        some ⟨.e2SetupProcedureOngoing,
          ((m.lookup n).map (·.e2SetupProcedureTransactionId)).getD tid⟩
      else m.lookup k := by
  unfold insertE2SetupProcedureOngoing
  cases hl : m.lookup n with
  | none =>
    by_cases hk : k = n
    · subst hk
      simp [AList.lookup_insert]
    · simp [hk, AList.lookup_insert_ne hk]
  | some h =>
    rw [lookup_setE2ProcedureOngoingStatus, hl]
    rfl

theorem lookup_removeE2ConnectionEntryFromMap (m : E2NodeMap) (n k : Name) :
    (m.removeE2ConnectionEntryFromMap n).lookup k = if k = n then none else m.lookup k := by
  unfold removeE2ConnectionEntryFromMap
  by_cases hk : k = n
  · subst hk
    simp [AList.lookup_erase]
  · simp [hk, AList.lookup_erase_ne hk]

/-- `currentE2tProcedureOngoingStatus`. -/
def currentE2tProcedureOngoingStatus (m : E2NodeMap) (enbName : Name) : E2TProcedureStates :=
  match m.lookup enbName with
  | some h => h.e2tProcedureOngoingStatus
  | none => .e2SetupProcedureNotInitiated

end E2NodeMap

def setE2ProcedureOngoingStatus (enbName : Name) (state : E2TProcedureStates) : M Unit :=
  modify fun w => { w with
    connectionHandlingPerE2NodeMap :=
      E2NodeMap.setE2ProcedureOngoingStatus w.connectionHandlingPerE2NodeMap enbName state }

def insertE2SetupProcedureOngoing (enbName : Name) (transactionID : Int) : M Unit :=
  modify fun w => { w with
    connectionHandlingPerE2NodeMap :=
      E2NodeMap.insertE2SetupProcedureOngoing w.connectionHandlingPerE2NodeMap enbName
        transactionID }

def removeE2ConnectionEntryFromMap (enbName : Name) : M Unit :=
  modify fun w => { w with
    connectionHandlingPerE2NodeMap :=
      E2NodeMap.removeE2ConnectionEntryFromMap w.connectionHandlingPerE2NodeMap enbName }

/-! ## The connection map -/

/-- `mapWrapper::setkey`. -/
def setkey (key : Name) (c : ConnId) : M Unit :=
  modify fun w => { w with sctpMap := w.sctpMap.insert key c }

/-- `mapWrapper::erase`. -/
def eraseKey (key : Name) : M Unit :=
  modify fun w => { w with sctpMap := w.sctpMap.erase key }

/-- `strtol(s, …, 10)` of a numeric port. -/
def strtol (s : List UInt8) : Nat :=
  (s.takeWhile fun b => 48 ≤ b ∧ b ≤ 57).foldl (fun n b => 10 * n + (b.toNat - 48)) 0

/-- The key `host:<hostName>:<port>`. -/
def hostKey (cu : ConnectedCU) : Name :=
  text "host:" ++ cu.hostName ++ text ":" ++ dec (strtol cu.portNumber % 65536)

/-- The key `msg:<enodbName>|<messageType>`. -/
def msgKey (params : SctpParams) (enodbName : Name) (messageType : MsgType) : Name :=
  text "msg:" ++ enodbName ++ text "|" ++ params.mtypeText messageType

/-- `if (m->find(key)) m->erase(key)`. -/
def eraseFound (key : Name) : M Unit := do
  if ((← get).sctpMap.lookup key).isSome then
    eraseKey key

/-- `cleanHashEntry`. -/
def cleanHashEntry (val : ConnId) : M Unit := do
  let cu ← deref val
  eraseFound (hostKey cu)
  eraseFound cu.enodbName.str
  freePeer val

end E2Term
