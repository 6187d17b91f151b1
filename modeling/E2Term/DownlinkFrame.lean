import E2Term.Frame
import E2Term.NodeCases

/-!
# What an RMR message may change

A message for a node is sent on the connection that `sctpMap` has for its MEID, and records
statuses of that name. A send that fails leaves the connection alone, because `isConnected` is
never set on a connection the node opened.
-/

namespace E2Term

open CString Effect

/-- The statuses a message for a node records. -/
def downlinkWrites : MsgType → E2TProcedureStates → Prop
  | .ricE2SetupResp | .ricE2SetupFailure => fun s => s = .e2SetupProcedureCompleted
  | .ricSubReq => fun s => s = .e2SetupProcedureCompleted ∨ s = .ricSubsProcedureOngoing
  | .ricSubDelReq => fun s => s = .e2SetupProcedureCompleted ∨ s = .ricSubsDelProcedureOngoing
  | .ricControlReq => fun s => s = .e2SetupProcedureCompleted ∨ s = .controlProcedureOngoing
  | .ricServiceQuery => fun s => s = .ricServiceUpdateProcedureOngoing
  | _ => noStatus

/-- What a case records is among them. -/
theorem downlinkWrites_of_case {mtype : MsgType} {k : NodeCase} (hk : nodeCase mtype = some k)
    {s : E2TProcedureStates} (hs : k.before = some s ∨ k.after = some s) :
    downlinkWrites mtype s := by
  cases mtype <;> cases hk <;> rcases hs with hs | hs <;> cases hs <;>
    first | rfl | exact .inl rfl | exact .inr rfl

/-- The messages to a node that `rcvMessage` causes: itself, on the connection `c`. -/
def SctpTo (rcvMessage : RmrMsg) (c : ConnId) : Output → Prop
  | .sctp peer _ _ mtype enodbName =>
    peer = c ∧ mtype = rcvMessage.mtype ∧ enodbName = rcvMessage.meid
  | _ => False

/-- No connection is marked as connected: a connection the node opened never is. -/
def NeverConnected (w : World) : Prop := ∀ c cu, w.heap.get c = some cu → cu.isConnected = false

section Send

variable {w : World} {c : ConnId} {cu : ConnectedCU}

/-- A message to a live connection goes out, or its send fails. -/
theorem sendSctpMsg_eq (hc : w.heap.get c = some cu) (hcon : cu.isConnected = false) (n : Name)
    (mtype : MsgType) (data : List UInt8) :
    ∃ answers, sendSctpMsg c n mtype data w =
        .ok 0 { w with
          answers := answers,
          outbox := w.outbox ++ [.sctp c (fetchStreamId cu mtype) data mtype n] } ∨
      sendSctpMsg c n mtype data w = .ok (-1) { w with answers := answers } := by
  let answers : Answers := { w.answers with sctp := (sctpAnswer w.answers.sctp).2 }
  have hans : sctpSendmsg w = .ok (sctpAnswer w.answers.sctp).1 { w with answers := answers } := rfl
  refine ⟨answers, ?_⟩
  unfold sendSctpMsg
  rw [bind_of_ok (deref_of_get hc), bind_of_ok hans]
  cases (sctpAnswer w.answers.sctp).1 with
  | true => exact .inl rfl
  | false =>
    rw [if_neg Bool.false_ne_true, hcon]
    exact .inr rfl

end Send

section Handlers

variable {w₀ : World} {rcvMessage : RmrMsg} {c : ConnId} {cell : Option ConnectedCU}
  {writes : E2TProcedureStates → Prop}

/-- The invariant of a message for the node, sent on `c`, that began in `w₀`. -/
abbrev Delivering (rcvMessage : RmrMsg) (c : ConnId) (writes : E2TProcedureStates → Prop)
    (w₀ : World) : World → Prop :=
  Touches rcvMessage.meid writes (SctpTo rcvMessage c) w₀

theorem keeps_sendDirectionalSctpMsg (hc : w₀.heap.get c = cell)
    (hcon : ∀ cu, cell = some cu → cu.isConnected = false) (data : List UInt8) :
    Keeps (Raises cell) (Delivering rcvMessage c writes w₀)
      (sendDirectionalSctpMsg c rcvMessage data) := by
  intro w hw
  have hw' : w.heap.get c = cell := by rw [hw.heap, hc]
  unfold sendDirectionalSctpMsg
  cases hcell : cell with
  | none =>
    unfold sendSctpMsg
    rw [bind_of_error (deref_of_freed (hw'.trans hcell))]
    refine ⟨hw, fun e s h => ?_⟩
    cases h
    rfl
  | some cu =>
    obtain ⟨answers, hrun | hrun⟩ := sendSctpMsg_eq (hw'.trans hcell) (hcon cu hcell)
      rcvMessage.meid rcvMessage.mtype data
    · rw [hrun]
      refine ⟨hw.trans ?_, fun e s h => by cases h⟩
      exact ⟨rfl, rfl, rfl, rfl, fun _ => rfl, fun _ _ => rfl, .inl rfl, [_], rfl,
        by simp [SctpTo]⟩
    · rw [hrun]
      exact ⟨hw.trans (.of_eq rfl rfl rfl rfl rfl rfl), fun e s h => by cases h⟩

theorem keeps_countAndSend (hc : w₀.heap.get c = cell)
    (hcon : ∀ cu, cell = some cu → cu.isConnected = false)
    {count : Nat → M Unit} {sent : M Unit}
    (hcount : ∀ len, Keeps (Raises cell) (Delivering rcvMessage c writes w₀) (count len))
    (hsent : Keeps (Raises cell) (Delivering rcvMessage c writes w₀) sent) (data : List UInt8) :
    Keeps (Raises cell) (Delivering rcvMessage c writes w₀)
      (countAndSend c rcvMessage count sent data) := by
  unfold countAndSend
  refine (hcount _).bind fun _ => (keeps_sendDirectionalSctpMsg hc hcon data).bind fun rc => ?_
  split
  · exact Keeps.pure _
  · exact hsent.bind fun _ => Keeps.pure _

theorem keeps_countSetupOutcome {I : World → Prop} (hI : Counts I c cell) (direction : Direction)
    (len : Nat) : Keeps (Raises cell) I (countSetupOutcome c direction len) := by
  refine hI.deref raises_of_none fun _ _ => (hI.incrementIfSet _ _).bind fun _ => ?_
  refine hI.deref raises_of_none fun _ _ => (hI.incrementIfSet _ _).bind fun _ => ?_
  exact (hI.incrementIfSet _ _).bind fun _ => hI.incrementIfSet _ _

theorem keeps_record {E : Fault → Prop} {n : Name} {sends : Output → Prop}
    {s : Option E2TProcedureStates} (hs : ∀ t, s = some t → writes t) :
    Keeps E (Touches n writes sends w₀) (record n s) := by
  cases s with
  | none => exact Keeps.pure _
  | some t => exact keeps_setStatus (hs t rfl)

/-- The counters of a case are in both tables. -/
theorem counted_of_case {mtype : MsgType} {k : NodeCase} (hk : nodeCase mtype = some k) :
    k.guarded = true ∨ Counted k.direction k.e2tDirection k.procedure := by
  cases mtype <;> cases hk <;> decide

theorem NodeCase.keeps_count {I : World → Prop} (hI : Counts I c cell) {mtype : MsgType}
    {k : NodeCase} (hk : nodeCase mtype = some k) (len : Nat) :
    Keeps (Raises cell) I (k.count c len) := by
  unfold NodeCase.count
  split
  · exact keeps_countSetupOutcome hI _ _
  · rename_i hguarded
    exact hI.countMessage ((counted_of_case hk).resolve_left hguarded) _

/-- A message for a node touches that node only. -/
theorem keeps_sendToNode (rcvMessage : RmrMsg) (hc : w₀.heap.get c = cell)
    (hcon : ∀ cu, cell = some cu → cu.isConnected = false) :
    Keeps (Raises cell) (Delivering rcvMessage c (downlinkWrites rcvMessage.mtype) w₀)
      (sendToNode c rcvMessage) := by
  have hI := Touches.counts rcvMessage.meid (downlinkWrites rcvMessage.mtype)
    (SctpTo rcvMessage c) hc
  cases hk : nodeCase rcvMessage.mtype with
  | none =>
    rw [sendToNode_unlisted hk]
    exact Keeps.pure _
  | some k =>
    rw [sendToNode_eq hk]
    refine (keeps_record fun s hs => downlinkWrites_of_case hk (.inl hs)).bind fun _ => ?_
    cases k.data rcvMessage with
    | none => exact Keeps.pure _
    | some data =>
      exact keeps_countAndSend hc hcon (NodeCase.keeps_count hI hk)
        (keeps_record fun s hs => downlinkWrites_of_case hk (.inr hs)) data

end Handlers

@[simp] theorem statusOf_setStatus (w : World) (n : Name) (s : E2TProcedureStates) :
    World.statusOf { w with
      connectionHandlingPerE2NodeMap :=
        E2NodeMap.setE2ProcedureOngoingStatus w.connectionHandlingPerE2NodeMap n s } n =
      (w.statusOf n).map fun _ => s := by
  unfold World.statusOf
  rw [E2NodeMap.lookup_setE2ProcedureOngoingStatus, if_pos rfl, Option.map_map, Option.map_map]
  rfl

/-! ## The whole message -/

/-- The message clears all connections. -/
def RmrMsg.clears (m : RmrMsg) : Prop := m.state = .ok ∧ m.mtype = .ricSctpClearAll

instance (m : RmrMsg) : Decidable m.clears := inferInstanceAs (Decidable (_ ∧ _))

/-- The outputs for a message that is no bulk clear. -/
def downlinkSends (m : RmrMsg) : Output → Prop
  | .sctp _ _ _ mtype enodbName => mtype = m.mtype ∧ enodbName = m.meid
  | .rmr _ _ | .rts _ _ => m.mtype = .e2TermKeepAliveReq ∨ m.mtype = .ricHealthCheckReq

/-- What a message for a node may raise: its entry is stale, or its counters are missing. -/
def downlinkRaises (w : World) (m : RmrMsg) (e : Fault) : Prop :=
  ∃ c, w.sctpMap.lookup m.meid = some c ∧ Raises (w.heap.get c) e

theorem keeps_keepAlive {E : Fault → Prop} {n : Name} {writes : E2TProcedureStates → Prop}
    {sends : Output → Prop} {w₀ : World} (hs : ∀ msg sent, sends (.rmr msg sent)) :
    Keeps E (Touches n writes sends w₀) keepAlive := by
  unfold keepAlive
  refine Keeps.get.bind fun w => (keeps_writeSendMessage _).bind fun _ => ?_
  refine keeps_nextTransaction.bind fun tx => (keeps_writeSendMessage _).bind fun _ => ?_
  refine Keeps.get.bind fun w' => (keeps_rmrSendMsg _).bind fun returned => ?_
  exact (keeps_emit (hs _ _)).bind fun _ => keeps_writeSendMessage _

theorem keeps_healthCheck {E : Fault → Prop} {n : Name} {writes : E2TProcedureStates → Prop}
    {sends : Output → Prop} {w₀ : World} (hs : ∀ mtype payload, sends (.rts mtype payload)) :
    Keeps E (Touches n writes sends w₀) healthCheck :=
  keeps_nextTransaction.bind fun _ => keeps_emit (hs _ _)

/-- The answer to a keep-alive goes out with whatever MEID and subscription id the buffer has. -/
theorem keepAlive_eq (w : World) : ∃ rest b msg sent, keepAlive w = .ok () { w with
      answers := { w.answers with rmr := rest }
      transactionCounter := w.transactionCounter + 1
      sendMessage := b
      outbox := w.outbox ++ [.rmr msg sent] } ∧ msg.mtype = .e2TermKeepAliveResp ∧
    msg.subId = w.sendMessage.subId ∧ (b.subId = w.sendMessage.subId ∨ b.subId = -1) := by
  obtain ⟨_, _, _, _, _, _, b, _, ⟨rmr, _⟩, _⟩ := w
  rcases rmr with _ | ⟨(_ | _ | n | _), rest⟩
  · exact ⟨_, _, _, _, rfl, rfl, rfl, .inr rfl⟩
  · exact ⟨_, _, _, _, rfl, rfl, rfl, .inr rfl⟩
  · exact ⟨_, _, _, _, rfl, rfl, rfl, .inl rfl⟩
  · exact ⟨_, _, _, _, rfl, rfl, rfl, .inl rfl⟩
  · exact ⟨_, _, _, _, rfl, rfl, rfl, .inr rfl⟩

/-- The part of `receiveXappMessages` for a node. -/
def deliver (m : RmrMsg) : M Int := do
  match (← get).sctpMap.lookup m.meid with
  | none => return -1
  | some peerInfo => sendToNode peerInfo m

theorem deliver_none {w : World} {m : RmrMsg} (hl : w.sctpMap.lookup m.meid = none) :
    deliver m w = .ok (-1) w := by
  unfold deliver
  rw [bind_of_ok (rfl : (get : M World) w = .ok w w), hl]
  rfl

theorem deliver_some {w : World} {m : RmrMsg} {c : ConnId}
    (hl : w.sctpMap.lookup m.meid = some c) : deliver m w = sendToNode c m w := by
  unfold deliver
  rw [bind_of_ok (rfl : (get : M World) w = .ok w w), hl]

/-- The messages for the terminator itself. -/
def RmrMsg.ForTerminator (m : RmrMsg) : Prop :=
  m.mtype = .ricSctpClearAll ∨ m.mtype = .e2TermKeepAliveReq ∨ m.mtype = .ricHealthCheckReq

instance (m : RmrMsg) : Decidable m.ForTerminator := inferInstanceAs (Decidable (_ ∨ _))

/-- Any other message is looked up. -/
theorem receiveXappMessages_eq {m : RmrMsg} (hm : ¬ m.ForTerminator) (w : World) :
    receiveXappMessages (some m) w =
      if m.state = .ok then deliver m { w with answers := m.answers }
      else .ok (-1) { w with answers := m.answers } := by
  rw [receiveXappMessages, bind_of_ok (rfl : (modify _ : M Unit) w = .ok () _)]
  by_cases hst : m.state = .ok
  · rw [if_neg (not_not.mpr hst), if_pos hst]
    cases hmt : m.mtype with
    | ricSctpClearAll => exact (hm (.inl hmt)).elim
    | e2TermKeepAliveReq => exact (hm (.inr (.inl hmt))).elim
    | ricHealthCheckReq => exact (hm (.inr (.inr hmt))).elim
    | _ => rfl
  · rw [if_pos hst, if_neg hst]
    rfl

/-- The answers to the messages for the terminator. -/
def TerminatorReply : Output → Prop
  | .rmr msg _ => msg.mtype = .e2TermKeepAliveResp
  | .rts _ _ => True
  | .sctp _ _ _ _ _ => False

/-- These messages, but for the bulk clear, concern no node. -/
theorem terminator_touches {m : RmrMsg} (hm : m.ForTerminator) (hclear : ¬ m.clears)
    {w w' : World} {rc : Int} (h : receiveXappMessages (some m) w = .ok rc w') (n : Name) :
    Touches n noStatus TerminatorReply w w' := by
  rw [receiveXappMessages, bind_of_ok (rfl : (modify _ : M Unit) w = .ok () _)] at h
  by_cases hst : m.state = .ok
  · rw [if_neg (not_not.mpr hst)] at h
    rcases hm with hm | hm | hm
    · exact (hclear ⟨hst, hm⟩).elim
    · simp only [hm] at h
      obtain ⟨_, w₁, hrun, h⟩ := bind_eq_ok.mp h
      cases h
      obtain ⟨rest, b, msg, sent, hrun', hmtype, -⟩ := keepAlive_eq { w with answers := m.answers }
      rw [hrun'] at hrun
      cases hrun
      exact ⟨rfl, rfl, rfl, rfl, fun _ => rfl, fun _ _ => rfl, .inl rfl, [_], rfl,
        List.forall_mem_singleton.mpr hmtype⟩
    · simp only [hm] at h
      obtain ⟨_, w₁, hrun, h⟩ := bind_eq_ok.mp h
      cases h
      cases hrun
      exact ⟨rfl, rfl, rfl, rfl, fun _ => rfl, fun _ _ => rfl, .inl rfl, [_], rfl,
        List.forall_mem_singleton.mpr trivial⟩
  · rw [if_pos hst] at h
    cases h
    exact .setAnswers w m.answers

theorem deliver_ends {w : World} (hnc : NeverConnected w) (m : RmrMsg) (answers : Answers) :
    Ends (downlinkRaises w m) (Touches m.meid (downlinkWrites m.mtype) (downlinkSends m) w)
      (deliver m { w with answers := answers }) := by
  have hans {sends : Output → Prop} : Touches m.meid (downlinkWrites m.mtype) sends w
      { w with answers := answers } := .of_eq rfl rfl rfl rfl rfl rfl
  cases hl : w.sctpMap.lookup m.meid with
  | none =>
    rw [deliver_none (w := { w with answers := answers }) hl]
    exact ⟨hans, fun e s h => by cases h⟩
  | some c =>
    rw [deliver_some (w := { w with answers := answers }) hl]
    have hget : w.heap.get c = w.heap.get c := rfl
    have hk := keeps_sendToNode m hget (hnc c) _ hans
    refine ⟨hk.state.mono (fun _ h => h) fun o ho => ?_, fun e s he => ⟨c, hl, hk.raised e s he⟩⟩
    cases o with
    | sctp peer streamId payload mtype enodbName => exact ho.2
    | rmr msg sent => exact ho.elim
    | rts mtype payload => exact ho.elim

/-- A message that is no bulk clear touches the node its MEID names. -/
theorem receiveXappMessages_ends {w : World} (hnc : NeverConnected w) {m : RmrMsg}
    (hm : ¬ m.clears) :
    Ends (downlinkRaises w m) (Touches m.meid (downlinkWrites m.mtype) (downlinkSends m) w)
      (receiveXappMessages (some m) w) := by
  have hans {sends : Output → Prop} : Touches m.meid (downlinkWrites m.mtype) sends w
      { w with answers := m.answers } := .of_eq rfl rfl rfl rfl rfl rfl
  rw [receiveXappMessages, bind_of_ok (rfl : (modify _ : M Unit) w = .ok () _)]
  by_cases hst : m.state = .ok
  · rw [if_neg (not_not.mpr hst)]
    have hdeliver := deliver_ends hnc m m.answers
    cases hmt : m.mtype with
    | ricSctpClearAll => exact (hm ⟨hst, hmt⟩).elim
    | e2TermKeepAliveReq =>
      rw [hmt] at hans
      exact ((keeps_keepAlive fun _ _ => Or.inl hmt).bind fun _ => Keeps.pure _) _ hans
    | ricHealthCheckReq =>
      rw [hmt] at hans
      exact ((keeps_healthCheck fun _ _ => Or.inr hmt).bind fun _ => Keeps.pure _) _ hans
    | _ =>
      rw [hmt] at hdeliver
      exact hdeliver
  · rw [if_pos hst]
    exact ⟨hans, fun e s h => by cases h⟩

end E2Term
