import E2Term.Lib.Relate
import E2Term.Invariants

/-!
# Two runs that handle the same events

What a handler does for a node depends on the node's own state only: on the connection, on the entry
of the node in the procedure map, and on what `sctpMap` has under its name. `Twin` relates two
states that agree in these, whatever else they hold, and every handler for the node takes related
states to related states, with outputs of the same headers. Subscription ids are compared as well
where both runs are calm, that is where no earlier message has left one in the send buffer.
-/

namespace E2Term

open CString Effect Runs

/-! ## Related states -/

/-- The message types that carry the instance id of a request. -/
def MsgType.Instanced : MsgType → Prop
  | .ricIndication | .ricControlAck | .ricControlFailure => True
  | _ => False

/-- Two outputs with one header, up to the connection they are sent on; `ids` says whether
subscription ids count. -/
def SameOutput (ids : Prop) : Output → Output → Prop
  | .rmr msg _, .rmr msg' _ =>
    msg.mtype = msg'.mtype ∧ msg.meid = msg'.meid ∧
      (ids → msg.subId = msg'.subId ∧ (msg.mtype.Instanced ∨ msg.subId = -1))
  | .sctp _ streamId payload mtype n, .sctp _ streamId' payload' mtype' n' =>
    streamId = streamId' ∧ payload = payload' ∧ mtype = mtype' ∧ n = n'
  | _, _ => False

/-- What two runs are compared in: whether subscription ids count, whether the next sends on SCTP
have the same results, the node, its connection in the two runs, and what the two runs had sent
before. -/
structure Pairing where
  ids : Prop
  sends : Prop
  node : Name
  left : ConnId
  right : ConnId
  leftSent : List Output
  rightSent : List Output

/-- A condition on the send buffer and on the answers RMR will give. -/
abbrev BufferCond := RmrMbuf → List RmrSendResult → Prop

/-- No subscription id is left in the buffer. -/
def calm (p : Pairing) : BufferCond := fun b _ => p.ids → b.subId = -1

/-- Two states that agree in what concerns the node. -/
structure Twin (p : Pairing) (B : BufferCond) (w w' : World) : Prop where
  peer : w.heap.get p.left = w'.heap.get p.right
  unconnected : ∀ cu, w.heap.get p.left = some cu → cu.isConnected = false
  watched : (w.fds p.left).isSome = (w'.fds p.right).isSome
  entry : w.connectionHandlingPerE2NodeMap.lookup p.node =
    w'.connectionHandlingPerE2NodeMap.lookup p.node
  keyed : ¬ p.ids →
    w.sctpMap.lookup p.node = some p.left ∧ w'.sctpMap.lookup p.node = some p.right ∨
    w.sctpMap.lookup p.node = none ∧ w'.sctpMap.lookup p.node = none
  sctp : p.sends → w.answers.sctp = w'.answers.sctp
  buffer : B w.sendMessage w.answers.rmr ∧ B w'.sendMessage w'.answers.rmr
  sent : ∃ out out', w.outbox = p.leftSent ++ out ∧ w'.outbox = p.rightSent ++ out' ∧
    List.Forall₂ (SameOutput p.ids) out out'

section Primitives

variable {p : Pairing} {B B' : BufferCond} {w w' : World} {α β : Type}

theorem Twin.weaken (h : Twin p B w w') (hB : ∀ b rs, B b rs → B' b rs) : Twin p B' w w' :=
  ⟨h.peer, h.unconnected, h.watched, h.entry, h.keyed, h.sctp,
    ⟨hB _ _ h.buffer.1, hB _ _ h.buffer.2⟩, h.sent⟩

/-- Two programs that take twins to twins. -/
abbrev Twinned (p : Pairing) (B : BufferCond) (V : α → β → Prop) (m : M α) (m' : M β) : Prop :=
  Alike (Twin p B) V (Twin p B) m m'

/-- Values that are not compared. -/
abbrev Any : α → β → Prop := fun _ _ => True

theorem twinned_deref : Twinned p B Eq (deref p.left) (deref p.right) := by
  intro w w' h
  cases hc : w.heap.get p.left with
  | none =>
    rw [deref_of_freed hc, deref_of_freed (h.peer.symm.trans hc)]
    exact .error
  | some cu =>
    rw [deref_of_get hc, deref_of_get (h.peer.symm.trans hc)]
    exact .ok rfl h

theorem twinned_deref_bind {V : α → β → Prop} {f : ConnectedCU → M α} {f' : ConnectedCU → M β}
    (hf : ∀ cu, Twinned p B V (f cu) (f' cu)) :
    Twinned p B V (deref p.left >>= f) (deref p.right >>= f') :=
  twinned_deref.bind fun cu cu' heq => by
    cases heq
    exact hf cu

theorem twinned_freePeer : Twinned p B Any (freePeer p.left) (freePeer p.right) := by
  refine twinned_deref_bind fun _ => Alike.modify fun w w' h => ?_
  have hfreed : (w.heap.free p.left).get p.left = none := by
    rw [CellHeap.get_free, if_pos rfl]
  have hfreed' : (w'.heap.free p.right).get p.right = none := by
    rw [CellHeap.get_free, if_pos rfl]
  refine ⟨hfreed.trans hfreed'.symm, fun cu hc => ?_, h.watched, h.entry, h.keyed, h.sctp, h.buffer,
    h.sent⟩
  cases hfreed.symm.trans hc

theorem twinned_closeFd : Twinned p B Any (closeFd p.left) (closeFd p.right) := by
  refine Alike.modify fun w w' h => ?_
  refine ⟨h.peer, h.unconnected, ?_, h.entry, h.keyed, h.sctp, h.buffer, h.sent⟩
  show (if p.left = p.left then none else w.fds p.left).isSome =
    (if p.right = p.right then none else w'.fds p.right).isSome
  rw [if_pos rfl, if_pos rfl]

theorem twinned_increment (slot : Option Label) (n n' : Nat) :
    Twinned p B Any (increment slot n) (increment slot n') := by
  cases slot with
  | none => exact Alike.throw _
  | some l => exact Alike.modify fun w w' h =>
      ⟨h.peer, h.unconnected, h.watched, h.entry, h.keyed, h.sctp, h.buffer, h.sent⟩

theorem twinned_incrementIfSet (slot : Option Label) (n n' : Nat) :
    Twinned p B Any (incrementIfSet slot n) (incrementIfSet slot n') := by
  unfold incrementIfSet
  split
  · exact twinned_increment slot n n'
  · exact Alike.pure trivial

theorem twinned_countMessage (d e : Direction) (q : ProcedureCode) (n n' : Nat) :
    Twinned p B Any (countMessage p.left d e q n) (countMessage p.right d e q n') :=
  twinned_deref_bind fun _ => (twinned_increment _ _ _).bind fun _ _ _ =>
    twinned_deref_bind fun _ => (twinned_increment _ _ _).bind fun _ _ _ =>
      (twinned_increment _ _ _).bind fun _ _ _ => twinned_increment _ _ _

theorem twinned_countMessageIfSet (d : Direction) (q : ProcedureCode) (n n' : Nat) :
    Twinned p B Any (countMessageIfSet p.left d q n) (countMessageIfSet p.right d q n') := by
  unfold countMessageIfSet
  split
  · exact twinned_countMessage d d q n n'
  · exact Alike.pure trivial

theorem twinned_countInternal (i : E2TInternalCounters) :
    Twinned p B Any (countInternal p.left i) (countInternal p.right i) :=
  twinned_deref_bind fun _ => twinned_incrementIfSet _ _ _

theorem twinned_setStatus (k : Name) (s : E2TProcedureStates) :
    Twinned p B Any (setE2ProcedureOngoingStatus k s) (setE2ProcedureOngoingStatus k s) := by
  refine Alike.modify fun w w' h => ?_
  refine ⟨h.peer, h.unconnected, h.watched, ?_, h.keyed, h.sctp, h.buffer, h.sent⟩
  by_cases hk : p.node = k
  · rw [E2NodeMap.lookup_setE2ProcedureOngoingStatus, E2NodeMap.lookup_setE2ProcedureOngoingStatus,
      if_pos hk, if_pos hk, ← hk, h.entry]
  · rw [E2NodeMap.lookup_setE2ProcedureOngoingStatus, E2NodeMap.lookup_setE2ProcedureOngoingStatus,
      if_neg hk, if_neg hk, h.entry]

theorem twinned_removeEntry (k : Name) :
    Twinned p B Any (removeE2ConnectionEntryFromMap k) (removeE2ConnectionEntryFromMap k) := by
  refine Alike.modify fun w w' h => ?_
  refine ⟨h.peer, h.unconnected, h.watched, ?_, h.keyed, h.sctp, h.buffer, h.sent⟩
  rw [E2NodeMap.lookup_removeE2ConnectionEntryFromMap,
    E2NodeMap.lookup_removeE2ConnectionEntryFromMap, h.entry]

theorem twinned_insertEntry (k : Name) (t : Int) :
    Twinned p B Any (insertE2SetupProcedureOngoing k t) (insertE2SetupProcedureOngoing k t) := by
  refine Alike.modify fun w w' h => ?_
  refine ⟨h.peer, h.unconnected, h.watched, ?_, h.keyed, h.sctp, h.buffer, h.sent⟩
  by_cases hk : p.node = k
  · rw [E2NodeMap.lookup_insertE2SetupProcedureOngoing,
      E2NodeMap.lookup_insertE2SetupProcedureOngoing, if_pos hk, if_pos hk, ← hk, h.entry]
  · rw [E2NodeMap.lookup_insertE2SetupProcedureOngoing,
      E2NodeMap.lookup_insertE2SetupProcedureOngoing, if_neg hk, if_neg hk, h.entry]

/-- The two runs may count transactions differently. -/
theorem twinned_nextTransaction : Twinned p B Any nextTransaction nextTransaction :=
  Alike.modifyGet (fun _ _ _ => trivial) fun _ _ h =>
    ⟨h.peer, h.unconnected, h.watched, h.entry, h.keyed, h.sctp, h.buffer, h.sent⟩

theorem alike_writeSendMessage {f f' : RmrMbuf → RmrMbuf}
    (hf : ∀ b rs, B b rs → B' (f b) rs) (hf' : ∀ b rs, B b rs → B' (f' b) rs) :
    Alike (Twin p B) Any (Twin p B') (writeSendMessage f) (writeSendMessage f') :=
  Alike.modify fun _ _ h =>
    ⟨h.peer, h.unconnected, h.watched, h.entry, h.keyed, h.sctp,
      ⟨hf _ _ h.buffer.1, hf' _ _ h.buffer.2⟩, h.sent⟩

theorem twinned_emit {a b : Output} (hab : SameOutput p.ids a b) :
    Twinned p B Any (emit a) (emit b) := by
  refine Alike.modify fun w w' h => ?_
  obtain ⟨out, out', hout, hout', hall⟩ := h.sent
  refine ⟨h.peer, h.unconnected, h.watched, h.entry, h.keyed, h.sctp, h.buffer, out ++ [a],
    out' ++ [b], ?_, ?_, ?_⟩
  · show w.outbox ++ [a] = _
    rw [hout, List.append_assoc]
  · show w'.outbox ++ [b] = _
    rw [hout', List.append_assoc]
  · exact List.rel_append hall (.cons hab .nil)

theorem twinned_eraseFound (key : Name) : Twinned p B Any (eraseFound key) (eraseFound key) := by
  intro w w' h
  obtain ⟨m, hrun, hm⟩ := eraseFound_ok w key
  obtain ⟨m', hrun', hm'⟩ := eraseFound_ok w' key
  rw [hrun, hrun']
  refine .ok trivial
    ⟨h.peer, h.unconnected, h.watched, h.entry, fun hids => ?_, h.sctp, h.buffer, h.sent⟩
  show m.lookup _ = _ ∧ m'.lookup _ = _ ∨ m.lookup _ = _ ∧ m'.lookup _ = _
  rw [hm, hm']
  by_cases hk : p.node = key
  · rw [if_pos hk, if_pos hk]
    exact .inr ⟨rfl, rfl⟩
  · rw [if_neg hk, if_neg hk]
    exact h.keyed hids

theorem twinned_cleanHashEntry :
    Twinned p B Any (cleanHashEntry p.left) (cleanHashEntry p.right) :=
  twinned_deref_bind fun _ => (twinned_eraseFound _).bind fun _ _ _ =>
    (twinned_eraseFound _).bind fun _ _ _ => twinned_freePeer

end Primitives

/-! ## Sending -/

section Sending

variable {p : Pairing} {B : BufferCond} {w w' : World}

/-- Two messages of one header are sent, and no id is left behind where none may be. -/
theorem alike_sendRmrMessage
    (hsame : ∀ b rs b' rs' sent sent', B b rs → B b' rs' →
      SameOutput p.ids (.rmr b sent) (.rmr b' sent'))
    (hcalm : ∀ b rs, B b rs → p.ids → refused rs → b.subId = -1) :
    Alike (Twin p B) Any (Twin p (calm p)) sendRmrMessage sendRmrMessage := by
  intro w w' h
  obtain ⟨rc, rest, st, sent, hrun⟩ := sendRmrMessage_eq w
  obtain ⟨rc', rest', st', sent', hrun'⟩ := sendRmrMessage_eq w'
  obtain ⟨out, out', hout, hout', hall⟩ := h.sent
  have hleft : ∀ b rs (st : RmrState), B b rs →
      calm p (if refused rs then { b with state := st } else .fresh) [] := by
    intro b rs st hb hids
    split
    · rename_i href
      exact hcalm b rs hb hids href
    · rfl
  rw [hrun, hrun']
  refine .ok trivial ⟨h.peer, h.unconnected, h.watched, h.entry, h.keyed, h.sctp,
    ⟨hleft _ _ _ h.buffer.1, hleft _ _ _ h.buffer.2⟩, out ++ [_], out' ++ [_], ?_, ?_,
    List.rel_append hall (.cons (hsame _ _ _ _ sent sent' h.buffer.1 h.buffer.2) .nil)⟩
  · show w.outbox ++ _ = _
    rw [hout, List.append_assoc]
  · show w'.outbox ++ _ = _
    rw [hout', List.append_assoc]

/-- A message of `sendRequestToXapp` has its header set, but for the subscription id. -/
theorem twinned_sendRequestToXapp (k : Name) (mtype : MsgType) :
    Twinned p (calm p) Any (sendRequestToXapp k mtype) (sendRequestToXapp k mtype) := by
  let B : BufferCond := fun b _ => b.meid = k ∧ b.mtype = mtype ∧ (p.ids → b.subId = -1)
  have hsend : Alike (Twin p B) Any (Twin p (calm p)) sendRmrMessage sendRmrMessage := by
    refine alike_sendRmrMessage (fun b rs b' rs' sent sent' hb hb' => ?_) fun b rs hb hids _ =>
      hb.2.2 hids
    refine ⟨hb.2.1.trans hb'.2.1.symm, hb.1.trans hb'.1.symm, fun hids => ?_⟩
    exact ⟨(hb.2.2 hids).trans (hb'.2.2 hids).symm, .inr (hb.2.2 hids)⟩
  have hfirst : Alike (Twin p (calm p)) Any (Twin p B)
      (writeSendMessage fun m => { m with meid := k, mtype := mtype, state := .ok })
      (writeSendMessage fun m => { m with meid := k, mtype := mtype, state := .ok }) :=
    alike_writeSendMessage (fun b rs hb => ⟨rfl, rfl, hb⟩) fun b rs hb => ⟨rfl, rfl, hb⟩
  refine hfirst.bind fun _ _ _ => twinned_nextTransaction.bind fun _ _ _ => ?_
  refine (alike_writeSendMessage ?_ ?_).bind fun _ _ _ => hsend
  · exact fun _ _ hb => hb
  · exact fun _ _ hb => hb

theorem twinned_report (k : Name) (mtype : MsgType) :
    Twinned p (calm p) Any (do let _ ← sendRequestToXapp k mtype)
      (do let _ ← sendRequestToXapp k mtype) :=
  (twinned_sendRequestToXapp k mtype).bind fun _ _ _ => Alike.pure trivial

theorem twinned_rmrSendWithRetry (msg msg' : RmrMbuf) :
    Twinned p (calm p) Any (rmrSendWithRetry msg) (rmrSendWithRetry msg') := by
  intro w w' h
  obtain ⟨r, rest, hrun⟩ := rmrSendWithRetry_eq msg w
  obtain ⟨r', rest', hrun'⟩ := rmrSendWithRetry_eq msg' w'
  rw [hrun, hrun']
  exact .ok trivial ⟨h.peer, h.unconnected, h.watched, h.entry, h.keyed, h.sctp, h.buffer, h.sent⟩

/-- A forwarded PDU goes out in a buffer of its own. -/
theorem twinned_buildAndSendSetupRequest {message message' : ReportingMessages}
    (hname : message.enodbName.str = message'.enodbName.str) (mtype : MsgType)
    (xer : Option (List UInt8)) :
    Twinned p (calm p) Any (buildAndSendSetupRequest message mtype xer)
      (buildAndSendSetupRequest message' mtype xer) := by
  unfold buildAndSendSetupRequest
  cases xer with
  | none => exact Alike.pure trivial
  | some buffer =>
    refine Alike.get_bind fun w w' h => ?_
    refine (twinned_nextTransaction.bind fun tx tx' _ => ?_) w w' h
    refine (twinned_rmrSendWithRetry _ _).bind fun r r' _ => ?_
    exact twinned_emit ⟨rfl, hname, fun _ => ⟨rfl, .inr rfl⟩⟩

theorem twinned_xmlFromPER (xer : Option (List UInt8)) :
    Twinned p (calm p) Eq (xmlFromPER xer) (xmlFromPER xer) := by
  unfold xmlFromPER
  cases xer with
  | none => exact Alike.pure rfl
  | some encoded =>
    dsimp only
    split
    · exact Alike.pure rfl
    · refine (alike_writeSendMessage ?_ ?_).bind fun _ _ _ => Alike.pure rfl
      · exact fun _ _ hb => hb
      · exact fun _ _ hb => hb

end Sending

end E2Term
