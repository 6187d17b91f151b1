import E2Term.Batch
import E2Term.Deliveries
import E2Term.Identity

/-!
# Request ids sent on

An indication, and an outcome of a control request, is searched for a request id. The search is a
loop that sends at the first one, so what a node's message leads to depends on `firstRequestID`
alone.
-/

namespace E2Term

open CString Effect Runs

/-! ## The search -/

/-- The instance id of an information element that is a request id by its id and by the type of its
value. -/
def instanceID (ie : ProtocolIE RequestIEs) : Option Int :=
  match ie.value with
  | .ricRequestID r => if ie.id = idRICrequestID then some r.ricInstanceID else none
  | .other => none

/-- The instance id of the first request id. -/
def firstRequestID (ies : List (ProtocolIE RequestIEs)) : Option Int := ies.findSome? instanceID

/-- The information elements a PDU is searched in, and the type of the message it is sent on as. -/
def E2APPDU.forwarded : E2APPDU → Option (MsgType × List (ProtocolIE RequestIEs))
  | .initiatingMessage (.ricIndication ies) => some (.ricIndication, ies)
  | .successfulOutcome (.ricControl ies) => some (.ricControlAck, ies)
  | .unsuccessfulOutcome (.ricControl ies) => some (.ricControlFailure, ies)
  | _ => none

/-- The message in the send buffer goes out with an instance id. -/
def sendOn (message : ReportingMessages) (mtype : MsgType) (count messageSent : M Unit)
    (id : Int) : M Unit := do
  let tx ← nextTransaction
  writeSendMessage fun b => { b with
    mtype := mtype, xact := tx, meid := message.enodbName.str, state := .ok, subId := id }
  count
  let _ ← sendRmrMessage
  messageSent

section Search

variable {message : ReportingMessages} {mtype : MsgType} {count messageSent : M Unit}

theorem forwardRequestID_cons (ie : ProtocolIE RequestIEs) (rest : List (ProtocolIE RequestIEs)) :
    forwardRequestID message mtype count messageSent (ie :: rest) =
      match instanceID ie with
      | some id => sendOn message mtype count messageSent id
      | none => forwardRequestID message mtype count messageSent rest := by
  rw [forwardRequestID]
  unfold instanceID
  cases ie.value with
  | other => rfl
  | ricRequestID r =>
    by_cases hid : ie.id = idRICrequestID
    · simp only [if_pos hid]
      rfl
    · simp only [if_neg hid]

/-- The loop ends at the first request id, and does nothing before it. -/
theorem forwardRequestID_eq (ies : List (ProtocolIE RequestIEs)) :
    forwardRequestID message mtype count messageSent ies =
      match firstRequestID ies with
      | some id => sendOn message mtype count messageSent id
      | none => pure () := by
  unfold firstRequestID
  induction ies with
  | nil => rfl
  | cons ie rest ih =>
    rw [forwardRequestID_cons, List.findSome?_cons]
    cases instanceID ie with
    | some id => rfl
    | none => exact ih

end Search

/-! ## What is sent -/

/-- Between `w` and `w'` one message of the type goes to RMR for the node `n`, with the subscription
id given, or nothing is sent if none is given. -/
def SentOnce (mtype : MsgType) (n : Name) (id : Option Int) (w w' : World) : Prop :=
  match id with
  | none => w'.outbox = w.outbox
  | some id => ∃ msg sent, w'.outbox = w.outbox ++ [.rmr msg sent] ∧
      msg.subId = id ∧ msg.mtype = mtype ∧ msg.meid = n

section Sends

variable {w : World} {c : ConnId} {cu : ConnectedCU} {message : ReportingMessages}
  {mtype : MsgType} {count : M Unit}

/-- Counting on the connection `cu` at `c` succeeds. -/
def CountsFor (c : ConnId) (cu : ConnectedCU) (count : M Unit) : Prop :=
  ∀ w : World, w.heap.get c = some cu →
    ∃ registry, count w = .ok () { w with registry := registry }

/-- A message of a connection with its counters is counted. -/
theorem countsFor_countMessage (hb : Built cu) {d e : Direction} {p : ProcedureCode}
    (hd : Counted d e p) (len : Nat) : CountsFor c cu (countMessage c d e p len) := by
  intro w hc
  have hcount := keeps_countMessage (counts_recounted hc) (fun kind => hb d kind p (hd kind).1)
    (fun kind => (hd kind).2) len
  obtain ⟨_, _, hrun, registry, rfl⟩ := hcount.returns ⟨w.registry, rfl⟩
  exact ⟨registry, hrun⟩

theorem countsFor_countMessageIfSet (hb : Built cu) {d : Direction} {p : ProcedureCode}
    (hd : Counted d d p) (len : Nat) : CountsFor c cu (countMessageIfSet c d p len) := by
  unfold countMessageIfSet
  rw [if_pos (hd .msgCounter).2]
  exact countsFor_countMessage hb hd len

/-- One message goes out, and the procedure map stays. -/
theorem sendRmrMessage_ok (w : World) : ∃ rc w' sent, sendRmrMessage w = .ok rc w' ∧
    w'.outbox = w.outbox ++ [.rmr w.sendMessage sent] ∧
    w'.connectionHandlingPerE2NodeMap = w.connectionHandlingPerE2NodeMap := by
  obtain ⟨rc, rest, st, sent, hrun⟩ := sendRmrMessage_eq w
  exact ⟨rc, _, sent, hrun, rfl, rfl⟩

theorem sendOn_ok (hc : w.heap.get c = some cu) (hcount : CountsFor c cu count)
    (after : Option E2TProcedureStates) (id : Int) :
    ∃ w', sendOn message mtype count (record message.enodbName.str after) id w = .ok () w' ∧
      SentOnce mtype message.enodbName.str (some id) w w' ∧
      w'.connectionHandlingPerE2NodeMap =
        recorded message.enodbName.str w.connectionHandlingPerE2NodeMap after := by
  let w₁ : World := { w with
    transactionCounter := w.transactionCounter + 1
    sendMessage := { w.sendMessage with
      mtype := mtype, xact := w.transactionCounter, meid := message.enodbName.str, state := .ok,
      subId := id } }
  obtain ⟨registry, hcounted⟩ := hcount w₁ hc
  obtain ⟨rc, w₂, sent, hsend, hout, hmap⟩ := sendRmrMessage_ok { w₁ with registry := registry }
  let w' : World := { w₂ with
    connectionHandlingPerE2NodeMap :=
      recorded message.enodbName.str w₂.connectionHandlingPerE2NodeMap after }
  have hrun : sendOn message mtype count (record message.enodbName.str after) id w = .ok () w' := by
    unfold sendOn
    rw [bind_of_ok (rfl : nextTransaction w = .ok w.transactionCounter _),
      bind_of_ok (rfl : writeSendMessage _ _ = .ok () w₁), bind_of_ok hcounted, bind_of_ok hsend,
      record_eq]
  have hrecorded : w'.connectionHandlingPerE2NodeMap =
      recorded message.enodbName.str w.connectionHandlingPerE2NodeMap after :=
    congrArg (recorded message.enodbName.str · after) hmap
  exact ⟨w', hrun, ⟨w₁.sendMessage, sent, hout, rfl, rfl, rfl⟩, hrecorded⟩

/-- The search in a message of a live connection: it sends once, or not at all. -/
theorem forwardRequestID_ok (message : ReportingMessages) (mtype : MsgType)
    (hc : w.heap.get c = some cu) (hcount : CountsFor c cu count)
    (after : Option E2TProcedureStates) (ies : List (ProtocolIE RequestIEs)) :
    ∃ w', forwardRequestID message mtype count (record message.enodbName.str after) ies w =
        .ok () w' ∧
      SentOnce mtype message.enodbName.str (firstRequestID ies) w w' ∧
      w'.connectionHandlingPerE2NodeMap =
        if (firstRequestID ies).isSome then
          recorded message.enodbName.str w.connectionHandlingPerE2NodeMap after
        else w.connectionHandlingPerE2NodeMap := by
  rw [forwardRequestID_eq]
  cases firstRequestID ies with
  | none => exact ⟨w, rfl, rfl, rfl⟩
  | some id => exact sendOn_ok hc hcount after id

end Sends

/-! ## Connections with their counters -/

section Equipment

variable {params : SctpParams} {h : List (Step World Action)} {w w' : World} {a : Action}
  {c : ConnId} {cu : ConnectedCU} {s : SetupScan}

/-- A connection whose setup request was accepted is allocated, and has its counters as long as it
lives. -/
structure Equipped (h : List (Step World Action)) (w : World) : Prop where
  allocated : ∀ c, (lastAccepted c h).isSome → c < w.heap.next
  built : ∀ c cu, (lastAccepted c h).isSome → w.heap.get c = some cu → Built cu

/-- Only its own accepted request makes a connection an accepted one. -/
theorem accepted_before (hso : setupOf w a = some (c, cu, s)) {i : ConnId}
    (hi : (lastAccepted i (h ++ [⟨w, a, w'⟩])).isSome) :
    (lastAccepted i h).isSome ∨ i = c ∧ s.accepted := by
  by_cases hic : i = c
  · subst hic
    by_cases hacc : s.accepted
    · exact .inr ⟨rfl, hacc⟩
    · rw [lastAccepted_of_rejected hso hacc] at hi
      exact .inl hi
  · rw [lastAccepted_of_ne hso hic] at hi
    exact .inl hi

theorem Equipped.setUp (hE : Equipped h w) (hso : setupOf w a = some (c, cu, s))
    (hc : w.heap.get c = some cu) (hset : SetUp c cu s w w') :
    Equipped (h ++ [⟨w, a, w'⟩]) w' := by
  constructor
  case allocated =>
    intro i hi
    rw [hset.next]
    rcases accepted_before hso hi with hold | ⟨rfl, -⟩
    · exact hE.allocated i hold
    · exact w.heap.lt_next_of_isSome i (by rw [hc]; rfl)
  case built =>
    intro i cu' hi hget
    by_cases hic : i = c
    · subst hic
      obtain ⟨cu'', hc'', -, -, hacc, hsame⟩ := hset.peer
      rw [hc''] at hget
      cases hget
      by_cases hyes : s.accepted
      · exact hacc hyes
      · rw [lastAccepted_of_rejected hso hyes] at hi
        intro d k p hp
        rw [hsame hyes]
        exact hE.built i cu hi hc d k p hp
    · rw [hset.others i hic] at hget
      rw [lastAccepted_of_ne hso hic] at hi
      exact hE.built i cu' hi hget

theorem Does.equipped (hd : Does w a w') (hE : Equipped h w) : Equipped (h ++ [⟨w, a, w'⟩]) w' := by
  cases hso : setupOf w a with
  | some p =>
    obtain ⟨c, cu, s⟩ := p
    obtain ⟨m, pdu, ies, rfl, hpdu, hies, hc, hscan⟩ := setupOf_eq_some hso
    exact hE.setUp hso hc (hd.setUp hso)
  | none =>
    constructor
    case allocated =>
      intro i hi
      rw [lastAccepted_of_none hso] at hi
      exact (hE.allocated i hi).trans_le hd.next_le
    case built =>
      intro i cu hi hget
      rw [lastAccepted_of_none hso] at hi
      rcases hd.get_of_no_setup hso hget with hold | ⟨hnew, -⟩
      · exact hE.built i cu hi hold
      · exact absurd hnew (Nat.ne_of_lt (hE.allocated i hi))

theorem equipped_of_run (r : ListenerRun params h w) : Equipped h w := by
  refine r.history Equipped ⟨fun c hc => (nomatch hc), fun c cu hc => (nomatch hc)⟩ ?_
  intro h w a w' r hE hstep
  exact ((sane_of_run r).does hstep).equipped hE

end Equipment

/-! ## Messages of nodes that are set up -/

/-- The connection `cu` at `c` had a setup request accepted, and the node it speaks for is set up:
it has an entry in the procedure map. -/
structure FromSetUpNode (h : List (Step World Action)) (w : World) (c : ConnId)
    (cu : ConnectedCU) : Prop where
  live : w.heap.get c = some cu
  accepted : (lastAccepted c h).isSome
  entry : (E2NodeMap.getE2tProcedureOngoingStatus w.connectionHandlingPerE2NodeMap
    cu.enodbName.str).isSome

/-- A message read from `c` is handled to its end: it is sent on once, under the first request id,
or not at all if it has none; and an indication leaves its node with a completed indication if it is
sent on, and only then. -/
def ForwardedOnce (w : World) (c : ConnId) (n : Name) (m : SctpMsg) (mtype : MsgType)
    (ies : List (ProtocolIE RequestIEs)) : Prop :=
  ∃ w', (Action.read c (some (.msg m))).run w = .ok () w' ∧
    SentOnce mtype n (firstRequestID ies) w w' ∧
    (mtype = .ricIndication → (w'.statusOf n = some .ricIndicationProcedureCompleted ↔
      (firstRequestID ies).isSome))

section Messages

variable {h : List (Step World Action)} {w : World} {c : ConnId} {cu : ConnectedCU} {m : SctpMsg}
  {ies : List (ProtocolIE RequestIEs)}

/-- The state after a status is recorded. -/
def World.withStatus (w : World) (n : Name) (s : E2TProcedureStates) : World :=
  { w with
    connectionHandlingPerE2NodeMap :=
      E2NodeMap.setE2ProcedureOngoingStatus w.connectionHandlingPerE2NodeMap n s }

/-- The state in which the search of an indication begins. -/
abbrev World.indicated (w : World) (n : Name) : World :=
  w.withStatus n .ricIndicationProcedureOngoing

/-- The status of a node behind an indication. -/
theorem statusOf_indicated {w' : World} {n : Name} (hentry : (w.statusOf n).isSome) {sent : Bool}
    (hmap : w'.connectionHandlingPerE2NodeMap =
      if sent then recorded n (w.indicated n).connectionHandlingPerE2NodeMap
        (some .ricIndicationProcedureCompleted)
      else (w.indicated n).connectionHandlingPerE2NodeMap) :
    w'.statusOf n = some .ricIndicationProcedureCompleted ↔ sent := by
  obtain ⟨status, hstatus⟩ := Option.isSome_iff_exists.mp hentry
  have hongoing : (w.indicated n).statusOf n = some .ricIndicationProcedureOngoing := by
    unfold World.indicated World.withStatus
    rw [statusOf_setStatus, hstatus]
    rfl
  cases sent with
  | false =>
    have hsame : w'.statusOf n = (w.indicated n).statusOf n := by
      unfold World.statusOf
      rw [hmap]
      rfl
    rw [hsame, hongoing]
    decide
  | true =>
    have hdone := statusOf_setStatus (w.indicated n) n .ricIndicationProcedureCompleted
    rw [hongoing] at hdone
    have hset : w'.statusOf n = some .ricIndicationProcedureCompleted := by
      refine Eq.trans ?_ hdone
      unfold World.statusOf
      rw [hmap]
      rfl
    exact iff_of_true hset rfl

/-- An indication records its begin, and its end if the search finds a request id. -/
theorem indication_once (hset : FromSetUpNode h w c cu) (hb : Built cu)
    (hpdu : m.pdu = some (.initiatingMessage (.ricIndication ies))) :
    ForwardedOnce w c cu.enodbName.str m .ricIndication ies := by
  obtain ⟨handling, hentry⟩ := Option.isSome_iff_exists.mp hset.entry
  have hcounted : Counted .inIniti .inIniti .ricIndication := by decide
  obtain ⟨w', hrun, honce, hmap⟩ := forwardRequestID_ok
    (w := (w.received m).indicated cu.enodbName.str)
    ⟨cu.enodbName, c, m.payload.length⟩ .ricIndication hset.live
    (countsFor_countMessage hb hcounted m.payload.length)
    (some .ricIndicationProcedureCompleted) ies
  have hstatus : ((w.received m).statusOf cu.enodbName.str).isSome := by
    have hlookup := E2NodeMap.lookup_of_entry hentry
    unfold World.statusOf World.received
    rw [hlookup]
    rfl
  refine ⟨w', ?_, honce, fun _ => statusOf_indicated hstatus hmap⟩
  change readAction c (some (.msg m)) w = .ok () w'
  rw [readAction_eq hset.live hpdu]
  exact (gate_of_some (w := w.received m) hentry).trans hrun

/-- An outcome of a control request is searched for the request id as it is. -/
theorem outcome_once (hset : FromSetUpNode h w c cu) {pdu : E2APPDU} (hpdu : m.pdu = some pdu)
    {mtype : MsgType} (hne : mtype ≠ .ricIndication) {count : M Unit}
    (hcount : CountsFor c cu count) (after : Option E2TProcedureStates)
    (hd : dispatch ⟨cu.enodbName, c, m.payload.length⟩ m pdu =
      ifE2SetupRequestReceived cu.enodbName.str fun _ =>
        forwardRequestID ⟨cu.enodbName, c, m.payload.length⟩ mtype count
          (record cu.enodbName.str after) ies) :
    ForwardedOnce w c cu.enodbName.str m mtype ies := by
  obtain ⟨handling, hentry⟩ := Option.isSome_iff_exists.mp hset.entry
  obtain ⟨w', hrun, honce, -⟩ := forwardRequestID_ok (w := w.received m)
    ⟨cu.enodbName, c, m.payload.length⟩ mtype hset.live hcount after ies
  refine ⟨w', ?_, honce, fun heq => absurd heq hne⟩
  change readAction c (some (.msg m)) w = .ok () w'
  rw [readAction_eq hset.live hpdu, hd]
  exact (gate_of_some (w := w.received m) hentry).trans hrun

end Messages

/-- In every run, an indication or an outcome of a control request from a node that is set up is
sent on exactly once, under the first request id in it, or not at all if there is none; an
indication is recorded as completed in the first case only. -/
theorem forwarded_once {params : SctpParams} {h : List (Step World Action)} {w : World}
    (r : ListenerRun params h w) {c : ConnId} {cu : ConnectedCU} (hset : FromSetUpNode h w c cu)
    {m : SctpMsg} {pdu : E2APPDU} (hpdu : m.pdu = some pdu) {mtype : MsgType}
    {ies : List (ProtocolIE RequestIEs)} (hies : pdu.forwarded = some (mtype, ies)) :
    ForwardedOnce w c cu.enodbName.str m mtype ies := by
  have hb : Built cu := (equipped_of_run r).built c cu hset.accepted hset.live
  unfold E2APPDU.forwarded at hies
  split at hies
  case h_1 =>
    cases hies
    exact indication_once hset hb hpdu
  case h_2 =>
    cases hies
    have hcounted : Counted .inSucc .inSucc .ricControl := by decide
    exact outcome_once hset hpdu (by decide)
      (countsFor_countMessageIfSet hb hcounted m.payload.length)
      (some .controlProcedureCompleted) rfl
  case h_3 =>
    cases hies
    have hcounted : Counted .inUnSucc .inUnSucc .ricControl := by decide
    exact outcome_once hset hpdu (by decide)
      (countsFor_countMessage hb hcounted m.payload.length) none rfl
  case h_4 => cases hies

/-- An indication with two request ids behind one of another type. -/
def sampleTwoRequests : List (ProtocolIE RequestIEs) :=
  [⟨idRICrequestID, .other⟩, ⟨idRICrequestID, .ricRequestID ⟨1, 7⟩⟩,
    ⟨idRICrequestID, .ricRequestID ⟨1, 8⟩⟩]

/-- The first of them is the seventh instance. -/
theorem forwarded_once_seventh :
    ∃ h w, ∃ cu : ConnectedCU, ListenerRun sampleParams h w ∧ FromSetUpNode h w 0 cu ∧
      firstRequestID sampleTwoRequests = some 7 ∧
      ForwardedOnce w 0 cu.enodbName.str
        ⟨[0], 0, some (.initiatingMessage (.ricIndication sampleTwoRequests)), none, 2, 2, .good⟩
        .ricIndication sampleTwoRequests := by
  obtain ⟨h, w, r, hacc, hall⟩ := sampleRun_of_any
    [.accept sampleRequest, sampleRead 0 (sampleSetup 1)]
    (fun p => (lastAccepted 0 p.1).isSome ∧ (p.2.heap.get 0).isSome ∧
      ∀ cu ∈ p.2.heap.get 0, (E2NodeMap.getE2tProcedureOngoingStatus
        p.2.connectionHandlingPerE2NodeMap cu.enodbName.str).isSome)
    (by decide +kernel)
  obtain ⟨cu, hc⟩ := Option.isSome_iff_exists.mp hall.1
  have hset : FromSetUpNode h w 0 cu := ⟨hc, hacc, hall.2 cu hc⟩
  exact ⟨h, w, cu, r, hset, by decide, forwarded_once r hset rfl rfl⟩

end E2Term
