import E2Term.Names
import E2Term.DownlinkFrame
import E2Term.Teardown
import E2Term.Lib.Runs

/-!
# The listener as a machine

The listener handles its events one after another, so a run is a sequence of actions: a connection
request is accepted, a read of a connection returns, an error event closes a connection, an RMR
message is received. `Does` says once what an action that returns can do; every invariant is
derived from it.
-/

namespace E2Term

open CString Effect Runs

/-- What the listener does in one piece. -/
inductive Action where
  | accept (request : ConnectionRequest)
  | read (c : ConnId) (result : Option ReadResult)
  | pollError (c : ConnId) (answers : Answers)
  | rmr (rcvMessage : Option RmrMsg)

/-- What follows a pass of the read loop: the block that closes the connection, where the pass leads
to it. -/
def finishPass (c : ConnId) : PassExit → M Unit
  | .done answers => closeConnection c answers
  | _ => return

/-- A pass of the read loop with what follows it. -/
def readAction (c : ConnId) (result : Option ReadResult) : M Unit := do
  finishPass c (← readPass c result)

def Action.run : Action → M Unit
  | .accept request => do let _ ← acceptLoop [request]
  | .read c result => readAction c result
  | .pollError c answers => closeOnError c answers
  | .rmr rcvMessage => do let _ ← receiveXappMessages rcvMessage

/-- The runs of the listener. -/
abbrev ListenerRun (params : SctpParams) : List (Step World Action) → World → Prop :=
  Run Action.run (World.init params)

/-! ## What an action does -/

/-- The state after a connection is accepted. -/
def World.add (w : World) (request : ConnectionRequest) : World :=
  { w with
    heap := w.heap.alloc (.new request.hostName request.portNumber)
    fds := fun c =>
      if c = w.heap.next then some ⟨true, false, false, false⟩ else w.fds c }

/-- A read that brings no PDU and does not close the connection. -/
def idleRead : Option ReadResult → Prop
  | none | some .eintr => True
  | some (.msg m) => m.pdu = none
  | some (.error _) | some (.eof _) => False

/-- A read that closes the connection. -/
def closingRead : Option ReadResult → Prop
  | some (.error _) | some (.eof _) => True
  | _ => False

/-- What an action that returns does. -/
inductive Does (w : World) : Action → World → Prop where
  | accepted {request : ConnectionRequest} :
      request.outcome = .registered → Does w (.accept request) (w.add request)
  | refused {request : ConnectionRequest} :
      request.outcome ≠ .registered → Does w (.accept request) w
  | setup {c : ConnId} {m : SctpMsg} {pdu : E2APPDU} {ies : List (ProtocolIE E2setupRequestIEs)}
      {cu : ConnectedCU} {s : SetupScan} {w' : World} :
      m.pdu = some pdu → pdu.setupIEs = some ies → w.heap.get c = some cu →
      scanSetup cu.enodbName ies = some s → SetUp c cu s w w' →
      Does w (.read c (some (.msg m))) w'
  | served {c : ConnId} {m : SctpMsg} {pdu : E2APPDU} {cu : ConnectedCU} {w' : World} :
      m.pdu = some pdu → pdu.setupIEs = none → w.heap.get c = some cu →
      Touches cu.enodbName.str (uplinkWrites pdu) (uplinkSends cu.enodbName.str) w w' →
      Does w (.read c (some (.msg m))) w'
  | idle {c : ConnId} {result : Option ReadResult} {w' : World} :
      idleRead result → (w.heap.get c).isSome → Touches [] noStatus noOutput w w' →
      Does w (.read c result) w'
  | closed {c : ConnId} {result : Option ReadResult} {cu : ConnectedCU} {w' : World} :
      closingRead result → w.heap.get c = some cu → Closed c cu w w' → Does w (.read c result) w'
  | failed {c : ConnId} {answers : Answers} {cu : ConnectedCU} {w' : World} :
      w.heap.get c = some cu → Closed c cu w w' → Does w (.pollError c answers) w'
  | nothing : Does w (.rmr none) w
  | delivered {m : RmrMsg} {w' : World} :
      ¬ m.clears → Touches m.meid (downlinkWrites m.mtype) (downlinkSends m) w w' →
      Does w (.rmr (some m)) w'
  | cleared {m : RmrMsg} {w' : World} :
      m.clears → Cleared w w' → Does w (.rmr (some m)) w'

/-! ## Reading -/

section Read

variable {w w' : World} {c : ConnId} {cu : ConnectedCU}

/-- The buffer after a read. -/
theorem recvmsg_ok (result : Option ReadResult) (w : World) :
    ∃ w', recvmsg result w = .ok () w' ∧ Touches [] noStatus noOutput w w' := by
  have hk : Keeps (fun _ => False) (Touches [] noStatus noOutput w) (recvmsg result) := by
    unfold recvmsg
    rcases result with _ | (m | _ | answers | answers) <;> exact keeps_writeSendMessage _
  obtain ⟨_, w', hrun, ht⟩ := hk.returns (.refl w)
  exact ⟨w', hrun, ht⟩

/-- A read of a freed connection. -/
theorem readAction_freed (hc : w.heap.get c = none) (result : Option ReadResult) :
    readAction c result w = .error .useAfterFree w := by
  unfold readAction readPass
  rw [bind_of_error (bind_of_error (deref_of_freed hc))]

/-- How a pass of the read loop goes on a live connection, from the state `w₁` after the read. -/
theorem readPass_of_get {w₁ : World} (hc : w.heap.get c = some cu) (result : Option ReadResult)
    (hrecv : recvmsg result w = .ok () w₁) :
    readPass c result w = (match result with
      | none => return .eagain
      | some .eintr => return .interrupted
      | some (.error answers) => return .done answers
      | some (.eof answers) => return .done answers
      | some (.msg m) => do
        modify fun w => { w with answers := m.answers }
        match m.pdu with
        | none => return .undecodable
        | some pdu => do
          dispatch ⟨cu.enodbName, c, m.payload.length⟩ m pdu
          return .dispatched m : M PassExit) w₁ := by
  unfold readPass
  rw [bind_of_ok (deref_of_get hc), bind_of_ok hrecv]
  rcases result with _ | (m | _ | answers | answers) <;> rfl

/-- A pass that brings no PDU leaves everything but the buffer. -/
theorem readAction_idle (hc : w.heap.get c = some cu) {result : Option ReadResult}
    (hidle : idleRead result) :
    ∃ w', readAction c result w = .ok () w' ∧ Touches [] noStatus noOutput w w' := by
  obtain ⟨w₁, hrecv, ht⟩ := recvmsg_ok result w
  have hpass := readPass_of_get hc result hrecv
  unfold readAction
  rcases result with _ | (m | _ | answers | answers)
  · rw [bind_of_ok hpass]
    exact ⟨w₁, rfl, ht⟩
  · have hm : m.pdu = none := hidle
    simp only [hm] at hpass
    rw [bind_of_ok hpass]
    exact ⟨_, rfl, ht.trans (.setAnswers w₁ m.answers)⟩
  · rw [bind_of_ok hpass]
    exact ⟨w₁, rfl, ht⟩
  · exact hidle.elim
  · exact hidle.elim

/-- A pass that closes the connection. -/
theorem readAction_closing (hc : w.heap.get c = some cu) (hfd : (w.fds c).isSome)
    {result : Option ReadResult} (hclosing : closingRead result) :
    ∃ w', readAction c result w = .ok () w' ∧ Closed c cu w w' ∧
      ∃ o, w'.outbox = w.outbox ++ [o] := by
  obtain ⟨w₁, hrecv, ht⟩ := recvmsg_ok result w
  have hpass := readPass_of_get hc result hrecv
  have hc₁ : w₁.heap.get c = some cu := by rw [ht.heap, hc]
  have hfd₁ : (w₁.fds c).isSome := by rw [ht.fds, hfd]
  unfold readAction
  rcases result with _ | (m | _ | answers | answers)
  · exact hclosing.elim
  · exact hclosing.elim
  · exact hclosing.elim
  · obtain ⟨w', hclose, hcl, hone⟩ := closeConnection_ok hc₁ hfd₁ answers
    rw [ht.outbox_eq] at hone
    rw [bind_of_ok hpass]
    exact ⟨w', hclose, hcl.of_touches ht, hone⟩
  · obtain ⟨w', hclose, hcl, hone⟩ := closeConnection_ok hc₁ hfd₁ answers
    rw [ht.outbox_eq] at hone
    rw [bind_of_ok hpass]
    exact ⟨w', hclose, hcl.of_touches ht, hone⟩

/-- The state in which the handler of a PDU begins. -/
def World.received (w : World) (m : SctpMsg) : World :=
  { w with
    sendMessage := { w.sendMessage with payload := m.payload, len := m.payload.length }
    answers := m.answers }

/-- A pass that brings octets that do not decode. -/
theorem readAction_undecodable (hc : w.heap.get c = some cu) {m : SctpMsg} (hpdu : m.pdu = none) :
    readAction c (some (.msg m)) w = .ok () (w.received m) := by
  have hpass := readPass_of_get hc (some (.msg m)) (rfl : recvmsg _ w = .ok () _)
  unfold readAction
  simp only [hpdu] at hpass
  rw [bind_of_ok hpass]
  rfl

/-- A pass that brings a PDU runs its handler. -/
theorem readAction_eq (hc : w.heap.get c = some cu) {m : SctpMsg} {pdu : E2APPDU}
    (hpdu : m.pdu = some pdu) :
    readAction c (some (.msg m)) w =
      dispatch ⟨cu.enodbName, c, m.payload.length⟩ m pdu (w.received m) := by
  have hpass := readPass_of_get hc (some (.msg m)) (rfl : recvmsg _ w = .ok () _)
  unfold readAction
  simp only [hpdu] at hpass
  rw [bind_of_ok (rfl : (modify _ : M Unit) _ = .ok () (w.received m))] at hpass
  cases hd : dispatch ⟨cu.enodbName, c, m.payload.length⟩ m pdu (w.received m) with
  | error e w' =>
    rw [bind_of_error hd] at hpass
    rw [bind_of_error hpass]
  | ok u w' =>
    rw [bind_of_ok hd] at hpass
    rw [bind_of_ok hpass]
    rfl

/-- It begins in a state that differs from `w` in buffers. -/
theorem readAction_pdu (hc : w.heap.get c = some cu) {m : SctpMsg} {pdu : E2APPDU}
    (hpdu : m.pdu = some pdu) :
    ∃ w₁, Touches [] noStatus noOutput w w₁ ∧
      readAction c (some (.msg m)) w = dispatch ⟨cu.enodbName, c, m.payload.length⟩ m pdu w₁ :=
  ⟨w.received m, .of_eq rfl rfl rfl rfl rfl rfl, readAction_eq hc hpdu⟩

theorem SetUp.of_touches {n : Name} {s : SetupScan} {w₁ : World}
    (ht : Touches n noStatus noOutput w w₁) (h : SetUp c cu s w₁ w') : SetUp c cu s w w' where
  params := h.params.trans ht.params
  next := by rw [h.next, ht.heap]
  others i hi := by rw [h.others i hi, ht.heap]
  peer := h.peer
  fds := by rw [h.fds, ht.fds]
  sctpMap := by rw [h.sctpMap, ht.sctpMap]
  procedures k := by
    rw [h.procedures]
    simp only [E2NodeMap.lookup_insertE2SetupProcedureOngoing, ht.lookup_eq]
  sent := by
    rw [← ht.outbox_eq]
    exact h.sent

end Read

/-! ## All actions -/

/-- What is served for a node, where it began after a change of buffers. -/
theorem Touches.of_buffers {n : Name} {writes : E2TProcedureStates → Prop}
    {sends : Output → Prop} {w w₁ : World} (h : Touches [] noStatus noOutput w w₁) :
    Touches n writes sends w w₁ where
  params := h.params
  heap := h.heap
  fds := h.fds
  sctpMap := h.sctpMap
  entries k := by rw [h.lookup_eq]
  others k _ := h.lookup_eq k
  status := .inl (by unfold World.statusOf; rw [h.lookup_eq])
  sent := ⟨[], by rw [h.outbox_eq, List.append_nil], by simp⟩

theorem dispatch_setup {message : ReportingMessages} {m : SctpMsg} {pdu : E2APPDU}
    {ies : List (ProtocolIE E2setupRequestIEs)} (h : pdu.setupIEs = some ies) :
    dispatch message m pdu = e2setup message m ies := by
  rcases pdu with _ | i | o | o
  · cases h
  · cases i <;> cases h
    rfl
  · cases h
  · cases h

/-- An error event on a freed connection. -/
theorem closeOnError_freed {w : World} {c : ConnId} (hc : w.heap.get c = none) (answers : Answers) :
    closeOnError c answers w = .error .useAfterFree { w with answers := answers } := by
  let w₁ : World := { w with answers := answers }
  have hderef : deref c w₁ = .error .useAfterFree w₁ := deref_of_freed hc
  have hreport : reportFailure c "|Failed SCTP Connection" w₁ = .error .useAfterFree w₁ := by
    unfold reportFailure
    rw [bind_of_error hderef]
  unfold closeOnError
  rw [bind_of_ok (rfl : (modify _ : M Unit) w = .ok () w₁), bind_of_error hreport]

/-- A bulk clear clears. -/
theorem receiveXappMessages_clears {w w' : World} {m : RmrMsg} {rc : Int} (hm : m.clears)
    (h : receiveXappMessages (some m) w = .ok rc w') : Cleared w w' := by
  rw [receiveXappMessages, bind_of_ok (rfl : (modify _ : M Unit) w = .ok () _),
    if_neg (not_not.mpr hm.1)] at h
  simp only [hm.2] at h
  obtain ⟨_, w₁, hrun, h⟩ := bind_eq_ok.mp h
  cases h
  obtain ⟨h₁, h₂, h₃, h₄, h₅, h₆, h₇⟩ := clearAll_cleared hrun
  exact ⟨h₁, h₂, h₃, h₄, h₅, h₆, h₇⟩

/-- A live connection has an open descriptor. -/
def LiveOpen (w : World) : Prop := ∀ c, (w.heap.get c).isSome → (w.fds c).isSome

theorem accept_run {request : ConnectionRequest} (h : request.outcome = .registered) (w : World) :
    (Action.accept request).run w = .ok () (w.add request) := by
  simp only [Action.run, acceptLoop, h]
  rfl

/-- Reading a PDU sets a connection up, or serves it. -/
theorem readPdu_does {w w' : World} {c : ConnId} {cu : ConnectedCU} {m : SctpMsg} {pdu : E2APPDU}
    (hc : w.heap.get c = some cu) (hpdu : m.pdu = some pdu)
    (h : readAction c (some (.msg m)) w = .ok () w') : Does w (.read c (some (.msg m))) w' := by
  obtain ⟨w₁, ht, hrun⟩ := readAction_pdu hc hpdu
  rw [hrun] at h
  have hc₁ : w₁.heap.get c = some cu := by rw [ht.heap, hc]
  cases hies : pdu.setupIEs with
  | none =>
    refine .served hpdu hies hc ?_
    have hk := keeps_dispatch ⟨cu.enodbName, c, m.payload.length⟩ hc m hies w₁ ht.of_buffers
    rw [h] at hk
    exact hk.state
  | some ies =>
    have hsetup : dispatch ⟨cu.enodbName, c, m.payload.length⟩ m pdu =
        e2setup ⟨cu.enodbName, c, m.payload.length⟩ m ies := dispatch_setup hies
    rw [hsetup] at h
    cases hs : scanSetup cu.enodbName ies with
    | none =>
      obtain ⟨w'', hrun, _⟩ := e2setup_overflow ⟨cu.enodbName, c, m.payload.length⟩ hc₁ m hs
      rw [hrun] at h
      cases h
    | some s =>
      obtain ⟨w'', hrun, hset, -⟩ := e2setup_ok ⟨cu.enodbName, c, m.payload.length⟩ hc₁ m hs
      rw [hrun] at h
      cases h
      exact .setup hpdu hies hc hs (hset.of_touches ht)

theorem readAction_does {w w' : World} {c : ConnId} {result : Option ReadResult}
    (hopen : LiveOpen w)
    (h : readAction c result w = .ok () w') : Does w (.read c result) w' := by
  cases hc : w.heap.get c with
  | none =>
    rw [readAction_freed hc] at h
    cases h
  | some cu =>
    have hlive : (w.heap.get c).isSome := by rw [hc]; rfl
    have hidle (hi : idleRead result) : Does w (.read c result) w' := by
      obtain ⟨w'', hrun, ht⟩ := readAction_idle hc hi
      rw [hrun] at h
      cases h
      exact .idle hi hlive ht
    have hclosing (hcl : closingRead result) : Does w (.read c result) w' := by
      obtain ⟨w'', hrun, hcd, -⟩ := readAction_closing hc (hopen c hlive) hcl
      rw [hrun] at h
      cases h
      exact .closed hcl hc hcd
    rcases result with _ | (m | _ | answers | answers)
    · exact hidle trivial
    · cases hpdu : m.pdu with
      | none => exact hidle hpdu
      | some pdu => exact readPdu_does hc hpdu h
    · exact hidle trivial
    · exact hclosing trivial
    · exact hclosing trivial

/-- An action that returns does one of the things it can do. -/
theorem Action.does {w w' : World} {a : Action} (hnc : NeverConnected w) (hopen : LiveOpen w)
    (h : a.run w = .ok () w') : Does w a w' := by
  cases a with
  | accept request =>
    cases hout : request.outcome with
    | registered =>
      rw [accept_run hout] at h
      cases h
      exact .accepted hout
    | _ =>
      simp only [Action.run, acceptLoop, hout] at h
      cases h
      exact .refused (by rw [hout]; simp)
  | read c result => exact readAction_does hopen h
  | pollError c answers =>
    cases hc : w.heap.get c with
    | none =>
      rw [Action.run, closeOnError_freed hc] at h
      cases h
    | some cu =>
      obtain ⟨w'', hrun, hcl, -⟩ := closeOnError_ok hc answers
      rw [Action.run, hrun] at h
      cases h
      exact .failed hc hcl
  | rmr rcvMessage =>
    obtain ⟨rc, w'', hrun, h⟩ := bind_eq_ok.mp h
    cases h
    cases rcvMessage with
    | none =>
      cases hrun
      exact .nothing
    | some m =>
      by_cases hm : m.clears
      · exact .cleared hm (receiveXappMessages_clears hm hrun)
      · have hk := receiveXappMessages_ends hnc hm
        rw [hrun] at hk
        exact .delivered hm hk.state

/-! ## The setup requests and the closings among the actions -/

/-- The setup request an action handles: its connection, and the scan. -/
def setupOf (w : World) : Action → Option (ConnId × ConnectedCU × SetupScan)
  | .read c (some (.msg m)) => do
    let pdu ← m.pdu
    let ies ← pdu.setupIEs
    let cu ← w.heap.get c
    let s ← scanSetup cu.enodbName ies
    return (c, cu, s)
  | _ => none

/-- The RAN names that the setup request of an action builds. -/
def ranNamesOf : Action → List NameBuf
  | .read _ (some (.msg m)) =>
    match m.pdu.bind E2APPDU.setupIEs with
    | some ies => ranNames (Buf.zeros maxEnodbNameSize) ies
    | none => []
  | _ => []

/-- The last of them: the RAN name of the request. -/
def ranNameOf (a : Action) : Name :=
  ((ranNamesOf a).getLastD (Buf.zeros maxEnodbNameSize)).str

/-- The connection an action closes. -/
def closes : Action → Option ConnId
  | .read c (some (.error _)) | .read c (some (.eof _)) | .pollError c _ => some c
  | _ => none

section Kinds

variable {w w' : World} {a : Action} {c : ConnId} {cu : ConnectedCU} {s : SetupScan}

theorem setupOf_eq_some {p : ConnId × ConnectedCU × SetupScan} (h : setupOf w a = some p) :
    ∃ m pdu ies, a = .read p.1 (some (.msg m)) ∧ m.pdu = some pdu ∧ pdu.setupIEs = some ies ∧
      w.heap.get p.1 = some p.2.1 ∧ scanSetup p.2.1.enodbName ies = some p.2.2 := by
  unfold setupOf at h
  split at h
  · simp only [Option.bind_eq_bind, Option.bind_eq_some_iff] at h
    obtain ⟨pdu, hpdu, ies, hies, cu, hc, s, hs, h⟩ := h
    cases h
    exact ⟨_, pdu, ies, rfl, hpdu, hies, hc, hs⟩
  · cases h

theorem setupOf_setup {m : SctpMsg} {pdu : E2APPDU} {ies : List (ProtocolIE E2setupRequestIEs)}
    (hpdu : m.pdu = some pdu) (hies : pdu.setupIEs = some ies) (hc : w.heap.get c = some cu)
    (hs : scanSetup cu.enodbName ies = some s) :
    setupOf w (.read c (some (.msg m))) = some (c, cu, s) := by
  simp [setupOf, hpdu, hies, hc, hs]

theorem setupOf_from (h : setupOf w a = some (c, cu, s)) :
    s.From cu.enodbName (Buf.zeros maxEnodbNameSize) (ranNamesOf a) := by
  obtain ⟨m, pdu, ies, rfl, hpdu, hies, -, hscan⟩ := setupOf_eq_some h
  have hnames :
      ranNamesOf (.read c (some (.msg m))) = ranNames (Buf.zeros maxEnodbNameSize) ies := by
    simp [ranNamesOf, hpdu, hies]
  rw [hnames]
  exact scanSetupIEs_from ies hscan

/-- The connection gets the RAN name of the request. -/
theorem setupOf_peer (h : setupOf w a = some (c, cu, s)) : s.peer.str = ranNameOf a := by
  rw [(setupOf_from h).peer]
  rfl

theorem setupOf_served {m : SctpMsg} {pdu : E2APPDU} (hpdu : m.pdu = some pdu)
    (hies : pdu.setupIEs = none) : setupOf w (.read c (some (.msg m))) = none := by
  simp [setupOf, hpdu, hies]

theorem setupOf_idle {result : Option ReadResult} (h : idleRead result) :
    setupOf w (.read c result) = none := by
  rcases result with _ | (m | _ | answers | answers)
  · rfl
  · have hnone : m.pdu = none := h
    simp [setupOf, hnone]
  · rfl
  · exact h.elim
  · exact h.elim

theorem setupOf_closing {result : Option ReadResult} (h : closingRead result) :
    setupOf w (.read c result) = none := by
  rcases result with _ | (m | _ | answers | answers)
  · exact h.elim
  · exact h.elim
  · exact h.elim
  · rfl
  · rfl

/-- An action that handles a setup request does what its scan says. -/
theorem Does.setUp (hd : Does w a w') (h : setupOf w a = some (c, cu, s)) : SetUp c cu s w w' := by
  obtain ⟨m, pdu, ies, rfl, hpdu, hies, hc, hs⟩ := setupOf_eq_some h
  cases hd with
  | setup hpdu' hies' hc' hs' hset =>
    rw [setupOf_setup hpdu' hies' hc' hs'] at h
    cases h
    exact hset
  | served hpdu' hies' _ _ =>
    rw [setupOf_served hpdu' hies'] at h
    cases h
  | idle hidle _ _ =>
    rw [setupOf_idle hidle] at h
    cases h
  | closed hcl _ _ => exact hcl.elim

/-- Only a setup request changes a connection that is not new. -/
theorem Does.get_of_no_setup (hd : Does w a w') (hso : setupOf w a = none)
    (hc : w'.heap.get c = some cu) :
    w.heap.get c = some cu ∨
      c = w.heap.next ∧ ∃ hostName portNumber, cu = .new hostName portNumber := by
  cases hd with
  | @accepted request _ =>
    have hget : (w.add request).heap.get c =
        if c = w.heap.next then some (.new request.hostName request.portNumber)
        else w.heap.get c := CellHeap.get_alloc _ c _
    rw [hget] at hc
    split at hc
    · rename_i hnew
      cases hc
      exact .inr ⟨hnew, _, _, rfl⟩
    · exact .inl hc
  | refused _ | nothing => exact .inl hc
  | setup hpdu hies hget hscan _ =>
    rw [setupOf_setup hpdu hies hget hscan] at hso
    cases hso
  | served _ _ _ ht | idle _ _ ht | delivered _ ht =>
    rw [ht.heap] at hc
    exact .inl hc
  | closed _ _ hcl | failed _ hcl =>
    rw [hcl.heap] at hc
    split at hc
    · cases hc
    · exact .inl hc
  | cleared _ hcl =>
    by_cases hlisted : ∃ k, isInternalKey k = false ∧ w.sctpMap.lookup k = some c
    · obtain ⟨k, hint, hl⟩ := hlisted
      rw [(hcl.freed c k hint hl).1] at hc
      cases hc
    · rw [(hcl.kept c fun k hint hl => hlisted ⟨k, hint, hl⟩).1] at hc
      exact .inl hc

theorem closes_closing {result : Option ReadResult} (h : closingRead result) :
    closes (.read c result) = some c := by
  rcases result with _ | (m | _ | answers | answers)
  · exact h.elim
  · exact h.elim
  · exact h.elim
  · rfl
  · rfl

theorem closes_idle {result : Option ReadResult} (h : idleRead result) :
    closes (.read c result) = none := by
  rcases result with _ | (m | _ | answers | answers)
  · rfl
  · rfl
  · rfl
  · exact h.elim
  · exact h.elim

/-- An action that closes a connection closes it. -/
theorem Does.closed_of_closes (hd : Does w a w') (h : closes a = some c) :
    ∃ cu, w.heap.get c = some cu ∧ Closed c cu w w' := by
  cases hd with
  | accepted _ | refused _ | nothing | delivered _ _ | cleared _ _ => cases h
  | setup _ _ _ _ _ => cases h
  | served _ _ _ _ => cases h
  | idle hidle _ _ =>
    rw [closes_idle hidle] at h
    cases h
  | closed hcl hc hclosed =>
    rw [closes_closing hcl] at h
    cases h
    exact ⟨_, hc, hclosed⟩
  | failed hc hclosed =>
    cases h
    exact ⟨_, hc, hclosed⟩

/-- A live connection can always be closed. -/
theorem closes_ok (hfd : (w.fds c).isSome) (hc : w.heap.get c = some cu) (h : closes a = some c) :
    ∃ w', a.run w = .ok () w' ∧ Closed c cu w w' ∧ ∃ o, w'.outbox = w.outbox ++ [o] := by
  cases a with
  | accept request => cases h
  | read c' result =>
    rcases result with _ | (m | _ | answers | answers)
    · cases h
    · cases h
    · cases h
    · cases h
      exact readAction_closing hc hfd trivial
    · cases h
      exact readAction_closing hc hfd trivial
  | pollError c' answers =>
    cases h
    exact closeOnError_ok hc answers
  | rmr m => cases h

end Kinds

/-! ## Inputs of short runs -/

/-- A connection request that is accepted. -/
def sampleRequest : ConnectionRequest := ⟨text "10.0.0.7", text "36422", .registered⟩

def sampleParams : SctpParams := ⟨text "10.0.0.1", 38000, text "ka", fun _ => []⟩

/-- A gNB. -/
def sampleNode (id : UInt8) : GlobalE2nodeID :=
  .gNB ⟨⟨0x02, 0xF8, 0x29⟩, some ⟨[0xAB, 0xCD, id], 0⟩, none, none⟩

/-- A setup request with a transaction id. -/
def sampleSetup (id : UInt8) : E2APPDU :=
  .initiatingMessage (.e2setup
    [⟨idTransactionID, .transactionID 1⟩, ⟨idGlobalE2nodeID, .globalE2nodeID (sampleNode id)⟩])

/-- A setup request without one. -/
def sampleRejected (id : UInt8) : E2APPDU :=
  .initiatingMessage (.e2setup [⟨idGlobalE2nodeID, .globalE2nodeID (sampleNode id)⟩])

/-- A PDU arrives, and every call of its handler succeeds. -/
def sampleRead (c : ConnId) (pdu : E2APPDU) : Action :=
  .read c (some (.msg ⟨[0], 0, some pdu, some (text "<E2AP-PDU/>"), 2, 2, .good⟩))

/-- An RMR message arrives, and every call of its handler succeeds. -/
def sampleRmr (mtype : MsgType) (meid : Name) : Action :=
  .rmr (some ⟨.ok, mtype, meid, [0], some [0], [], .good⟩)

/-- The name of a sample node. -/
def sampleName (id : UInt8) : Name :=
  match buildRanName (Buf.zeros maxEnodbNameSize) (sampleNode id) with
  | some (_, b) => b.str
  | none => []

/-- What a list of actions is seen to reach, a run of the listener by these actions reaches. -/
theorem sampleRun_acts (as : List Action) (P : List (Step World Action) × World → Prop)
    [DecidablePred P] (h : (exec Action.run (World.init sampleParams) as).any (P ·) = true) :
    ∃ h w, ListenerRun sampleParams h w ∧ h.map Step.act = as ∧ P (h, w) := by
  obtain ⟨h, w, r, hacts, hw⟩ := Run.of_any as _ h
  exact ⟨h, w, r, hacts, of_decide_eq_true hw⟩

theorem sampleRun_of_any (as : List Action) (P : List (Step World Action) × World → Prop)
    [DecidablePred P] (h : (exec Action.run (World.init sampleParams) as).any (P ·) = true) :
    ∃ h w, ListenerRun sampleParams h w ∧ P (h, w) := by
  obtain ⟨h, w, r, -, hw⟩ := sampleRun_acts as P h
  exact ⟨h, w, r, hw⟩

end E2Term
