import E2Term.Twins

/-!
# Handlers on twin states

Each handler for a node, run on the node's connection in two twin states, leaves twin states behind
and sends messages of the same headers. A handler that forwards a request id writes it to the send
buffer, so it leaves a calm buffer only where RMR takes the message.
-/

namespace E2Term

open CString Effect Runs

/-! ## PDUs -/

/-- The instance id of the first request id, which is the one that is sent on. -/
def instanceId : List (ProtocolIE RequestIEs) → Option Int
  | [] => none
  | ie :: rest =>
    match ie.value with
    | .ricRequestID r => if ie.id = idRICrequestID then some r.ricInstanceID else instanceId rest
    | .other => instanceId rest

/-- The instance id a PDU leaves in the buffer when its message is refused. -/
def E2APPDU.instanceId : E2APPDU → Option Int
  | .initiatingMessage (.ricIndication ies) | .successfulOutcome (.ricControl ies)
  | .unsuccessfulOutcome (.ricControl ies) => E2Term.instanceId ies
  | _ => none

/-- No id is in the buffer, and the instance id `id` will not stay in it. -/
def takes (p : Pairing) (id : Option Int) : BufferCond := fun b rs =>
  p.ids → b.subId = -1 ∧ (refused rs → ∀ i ∈ id, i = -1)

theorem calm_of_takes {p : Pairing} {id : Option Int} (b : RmrMbuf) (rs : List RmrSendResult)
    (h : takes p id b rs) : calm p b rs := fun hids => (h hids).1

section Uplink

variable {p : Pairing} {B B' : BufferCond} {nameBuf : NameBuf} {len : Nat} {m m' : SctpMsg}

/-- The gate is open in both states or in none. -/
theorem Twin.gate {w w' : World} (h : Twin p B w w') {k : Name} (hk : k = [] ∨ k = p.node) :
    E2NodeMap.getE2tProcedureOngoingStatus w.connectionHandlingPerE2NodeMap k =
      E2NodeMap.getE2tProcedureOngoingStatus w'.connectionHandlingPerE2NodeMap k := by
  unfold E2NodeMap.getE2tProcedureOngoingStatus
  split
  · rfl
  · rename_i hne
    rw [hk.resolve_left hne, h.entry]

/-- A case behind the gate, for the node or for a connection without a name. -/
theorem alike_gate {k : Name} (hk : k = [] ∨ k = p.node)
    {body body' : E2NodeConnectionHandling → M Unit} (hB : ∀ b rs, B b rs → B' b rs)
    (hbody : k = p.node → ∀ handling,
      Alike (Twin p B) Any (Twin p B') (body handling) (body' handling)) :
    Alike (Twin p B) Any (Twin p B') (ifE2SetupRequestReceived k body)
      (ifE2SetupRequestReceived k body') := by
  intro w w' h
  have hsame := h.gate hk
  cases hg : E2NodeMap.getE2tProcedureOngoingStatus w.connectionHandlingPerE2NodeMap k with
  | none =>
    rw [gate_of_none hg, gate_of_none (hsame ▸ hg)]
    exact .ok trivial (h.weaken hB)
  | some handling =>
    rw [gate_of_some hg, gate_of_some (hsame ▸ hg)]
    refine hbody (hk.resolve_left fun hnil => ?_) handling w w' h
    rw [hnil] at hg
    cases hg

theorem twinned_gate {k : Name} (hk : k = [] ∨ k = p.node)
    {body body' : E2NodeConnectionHandling → M Unit}
    (hbody : ∀ handling, Twinned p B Any (body handling) (body' handling)) :
    Twinned p B Any (ifE2SetupRequestReceived k body) (ifE2SetupRequestReceived k body') :=
  alike_gate hk (fun _ _ hb => hb) fun _ => hbody

/-- The first request id is sent on. -/
theorem alike_forwardRequestID {mtype : MsgType} (hmtype : mtype.Instanced)
    {count count' sent sent' : M Unit} (hcount : ∀ B, Twinned p B Any count count')
    (hsent : Twinned p (calm p) Any sent sent') (ies : List (ProtocolIE RequestIEs)) :
    Alike (Twin p (takes p (instanceId ies))) Any (Twin p (calm p))
      (forwardRequestID ⟨nameBuf, p.left, len⟩ mtype count sent ies)
      (forwardRequestID ⟨nameBuf, p.right, len⟩ mtype count' sent' ies) := by
  induction ies with
  | nil =>
    exact (Alike.pure trivial).consequence (fun _ _ h => h) fun _ _ h => h.weaken calm_of_takes
  | cons ie rest ih =>
    unfold forwardRequestID instanceId
    cases ie.value with
    | other => exact ih
    | ricRequestID r =>
      dsimp only
      split
      · -- the buffer holds the message with the id until RMR takes it
        let J : BufferCond := fun b rs => b.mtype = mtype ∧ b.meid = nameBuf.str ∧
          b.subId = r.ricInstanceID ∧ (p.ids → refused rs → r.ricInstanceID = -1)
        have hsend : Alike (Twin p J) Any (Twin p (calm p)) sendRmrMessage sendRmrMessage := by
          refine alike_sendRmrMessage (fun b rs b' rs' _ _ hb hb' => ?_) fun b rs hb hids href => ?_
          · refine ⟨hb.1.trans hb'.1.symm, hb.2.1.trans hb'.2.1.symm, fun _ => ⟨?_, .inl ?_⟩⟩
            · exact hb.2.2.1.trans hb'.2.2.1.symm
            · rw [hb.1]
              exact hmtype
          · exact hb.2.2.1.trans (hb.2.2.2 hids href)
        have hJ : ∀ (f : RmrMbuf → RmrMbuf), (∀ b, (f b).mtype = mtype ∧ (f b).meid = nameBuf.str ∧
            (f b).subId = r.ricInstanceID) → ∀ b rs,
            takes p (some r.ricInstanceID) b rs → J (f b) rs := fun f hf b rs hb =>
          ⟨(hf b).1, (hf b).2.1, (hf b).2.2, fun hids href => (hb hids).2 href _ rfl⟩
        refine twinned_nextTransaction.bind fun tx tx' _ => ?_
        refine (alike_writeSendMessage (hJ _ fun _ => ⟨rfl, rfl, rfl⟩)
          (hJ _ fun _ => ⟨rfl, rfl, rfl⟩)).bind fun _ _ _ => ?_
        exact (hcount J).bind fun _ _ _ => hsend.bind fun _ _ _ => hsent
      · exact ih

theorem twinned_reset (hxer : m.xer = m'.xer) {count count' : M Unit}
    (hcount : Twinned p (calm p) Any count count') (k : Name) (mtype : MsgType) :
    Twinned p (calm p) Any (do
      count
      if (← xmlFromPER m.xer) < 0 then return
      let _ ← sendRequestToXapp k mtype) (do
      count'
      if (← xmlFromPER m'.xer) < 0 then return
      let _ ← sendRequestToXapp k mtype) := by
  rw [hxer]
  refine hcount.bind fun _ _ _ => (twinned_xmlFromPER _).bind fun rc rc' hrc => ?_
  cases hrc
  split
  · exact Alike.pure trivial
  · exact twinned_report k mtype

theorem twinned_errorIndication (hname : nameBuf.str = [] ∨ nameBuf.str = p.node)
    (hxer : m.xer = m'.xer) (ies : List (ProtocolIE ErrorIndicationIEs)) :
    Twinned p (calm p) Any (errorIndication ⟨nameBuf, p.left, len⟩ m ies)
      (errorIndication ⟨nameBuf, p.right, len⟩ m' ies) := by
  refine alike_gate hname (fun _ _ hb => hb) fun hnode handling => ?_
  refine Alike.get_bind fun w w' h => ?_
  have hstatus : E2NodeMap.currentE2tProcedureOngoingStatus w.connectionHandlingPerE2NodeMap
      nameBuf.str =
        E2NodeMap.currentE2tProcedureOngoingStatus w'.connectionHandlingPerE2NodeMap
          nameBuf.str := by
    unfold E2NodeMap.currentE2tProcedureOngoingStatus
    rw [hnode, h.entry]
  have htail : Twinned p (calm p) Any (do
      countMessage p.left .inIniti .inIniti .errorIndication len
      let _ ← sendRequestToXapp nameBuf.str .ricErrorIndication) (do
      countMessage p.right .inIniti .inIniti .errorIndication len
      let _ ← sendRequestToXapp nameBuf.str .ricErrorIndication) :=
    (twinned_countMessage _ _ _ _ _).bind fun _ _ _ => twinned_report _ _
  dsimp only
  rw [hstatus, hxer]
  split
  · exact ((twinned_buildAndSendSetupRequest rfl _ _).bind fun _ _ _ => htail) w w' h
  · split
    · exact ((twinned_sendRequestToXapp _ _).bind fun _ _ _ => htail) w w' h
    · exact htail w w' h

/-- A PDU that is no setup request. -/
theorem alike_dispatch (hname : nameBuf.str = [] ∨ nameBuf.str = p.node) (hxer : m.xer = m'.xer)
    {pdu : E2APPDU} (hpdu : pdu.setupIEs = none) :
    Alike (Twin p (takes p pdu.instanceId)) Any (Twin p (calm p))
      (dispatch ⟨nameBuf, p.left, len⟩ m pdu) (dispatch ⟨nameBuf, p.right, len⟩ m' pdu) := by
  have hcalm {x x' : M Unit} (h : Twinned p (calm p) Any x x') :
      Alike (Twin p (takes p pdu.instanceId)) Any (Twin p (calm p)) x x' :=
    h.consequence (fun _ _ h => h.weaken calm_of_takes) fun _ _ h => h
  cases pdu with
  | nothing => exact hcalm (Alike.pure trivial)
  | initiatingMessage i =>
    cases i with
    | e2setup ies => cases hpdu
    | ricServiceUpdate ies =>
      refine hcalm (twinned_gate hname fun _ => ?_)
      refine (twinned_setStatus _ _).bind fun _ _ _ =>
        (twinned_countMessage _ _ _ _ _).bind fun _ _ _ => ?_
      rw [hxer]
      exact (twinned_buildAndSendSetupRequest rfl _ _).bind fun _ _ _ => twinned_setStatus _ _
    | e2nodeConfigurationUpdate =>
      refine hcalm (twinned_gate hname fun _ =>
        (twinned_countMessage _ _ _ _ _).bind fun _ _ _ => ?_)
      rw [hxer]
      exact twinned_buildAndSendSetupRequest rfl _ _
    | errorIndication ies => exact hcalm (twinned_errorIndication hname hxer ies)
    | reset =>
      exact hcalm (twinned_gate hname fun _ =>
        twinned_reset hxer (twinned_countMessage _ _ _ _ _) _ _)
    | ricIndication ies =>
      exact alike_gate hname calm_of_takes fun _ _ => (twinned_setStatus _ _).bind fun _ _ _ =>
        alike_forwardRequestID (show MsgType.Instanced .ricIndication from trivial)
          (fun _ => twinned_countMessage _ _ _ _ _) (twinned_setStatus _ _) ies
    | ricSubscriptionDeleteRequired =>
      exact hcalm (twinned_gate hname fun _ => (twinned_countMessage _ _ _ _ _).bind fun _ _ _ =>
        twinned_report _ _)
    | other code => exact hcalm (twinned_gate hname fun _ => twinned_countInternal _)
  | successfulOutcome o =>
    cases o with
    | reset =>
      exact hcalm (twinned_gate hname fun _ =>
        twinned_reset hxer (twinned_countMessageIfSet _ _ _ _) _ _)
    | ricControl ies =>
      exact alike_gate hname calm_of_takes fun _ _ =>
        alike_forwardRequestID (show MsgType.Instanced .ricControlAck from trivial)
          (fun _ => twinned_countMessageIfSet _ _ _ _) (twinned_setStatus _ _) ies
    | ricSubscription =>
      exact hcalm (twinned_gate hname fun _ => (twinned_countMessageIfSet _ _ _ _).bind fun _ _ _ =>
        (twinned_sendRequestToXapp _ _).bind fun _ _ _ => twinned_setStatus _ _)
    | ricSubscriptionDelete =>
      exact hcalm (twinned_gate hname fun _ => (twinned_setStatus _ _).bind fun _ _ _ =>
        (twinned_countMessageIfSet _ _ _ _).bind fun _ _ _ =>
          (twinned_sendRequestToXapp _ _).bind fun _ _ _ => twinned_setStatus _ _)
    | e2connectionUpdate =>
      exact hcalm (twinned_gate hname fun _ => twinned_deref_bind fun _ => twinned_increment _ _ _)
    | other code => exact hcalm (twinned_gate hname fun _ => twinned_countInternal _)
  | unsuccessfulOutcome o =>
    cases o with
    | ricControl ies =>
      exact alike_gate hname calm_of_takes fun _ _ =>
        alike_forwardRequestID (show MsgType.Instanced .ricControlFailure from trivial)
          (fun _ => twinned_countMessage _ _ _ _ _) (Alike.pure trivial) ies
    | ricSubscription | ricSubscriptionDelete =>
      exact hcalm (twinned_gate hname fun _ => (twinned_countMessage _ _ _ _ _).bind fun _ _ _ =>
        twinned_report _ _)
    | e2connectionUpdate =>
      exact hcalm (twinned_gate hname fun _ => twinned_deref_bind fun _ => twinned_increment _ _ _)
    | other code => exact hcalm (twinned_gate hname fun _ => twinned_countInternal _)

end Uplink

/-! ## Setup requests -/

section Setup

variable {p : Pairing} {B : BufferCond} {w w' : World} {cu : ConnectedCU} {nameBuf : NameBuf}
  {len : Nat} {m m' : SctpMsg}

/-- The two messages differ in what RMR answers, at most. -/
def SamePdu (m m' : SctpMsg) : Prop := ∃ answers, m' = { m with answers := answers }

theorem Twin.set (h : Twin p B w w') (hc : w.heap.get p.left = some cu) {cu' : ConnectedCU}
    (hcon : cu'.isConnected = cu.isConnected) :
    Twin p B { w with heap := w.heap.set p.left cu' }
      { w' with heap := w'.heap.set p.right cu' } := by
  have hset := get_set_self hc cu'
  refine ⟨hset.trans (get_set_self (h.peer.symm.trans hc) cu').symm, fun cu'' hc'' => ?_, h.watched,
    h.entry, h.keyed, h.sctp, h.buffer, h.sent⟩
  cases hset.symm.trans hc''
  exact hcon.trans (h.unconnected cu hc)

theorem Twin.register (h : Twin p B w w') (hc : w.heap.get p.left = some cu) (name : NameBuf)
    (keys : List Name) :
    Twin p B (w.register p.left cu name keys) (w'.register p.right cu name keys) := by
  have hset := h.set hc (rfl : ({ cu with enodbName := name } : ConnectedCU).isConnected = _)
  refine ⟨hset.peer, hset.unconnected, h.watched, h.entry, fun hids => ?_, h.sctp, h.buffer, h.sent⟩
  show (registerKeys p.left keys w.sctpMap).lookup _ = _ ∧
      (registerKeys p.right keys w'.sctpMap).lookup _ = _ ∨
    (registerKeys p.left keys w.sctpMap).lookup _ = _ ∧
      (registerKeys p.right keys w'.sctpMap).lookup _ = _
  rw [lookup_registerKeys, lookup_registerKeys]
  by_cases hmem : p.node ∈ keys
  · rw [if_pos hmem, if_pos hmem]
    exact .inl ⟨rfl, rfl⟩
  · rw [if_neg hmem, if_neg hmem]
    exact h.keyed hids

theorem agree_e2setup (h : Twin p (calm p) w w') (hc : w.heap.get p.left = some cu)
    (hm : SamePdu m m') (ies : List (ProtocolIE E2setupRequestIEs)) :
    Agree Any (Twin p (calm p)) (e2setup ⟨cu.enodbName, p.left, len⟩ m ies w)
      (e2setup ⟨cu.enodbName, p.right, len⟩ m' ies w') := by
  have hc' : w'.heap.get p.right = some cu := h.peer.symm.trans hc
  obtain ⟨answers, rfl⟩ := hm
  cases hs : scanSetup cu.enodbName ies with
  | none =>
    obtain ⟨v, hrun, -⟩ := e2setup_overflow ⟨cu.enodbName, p.left, len⟩ hc m hs
    obtain ⟨v', hrun', -⟩ :=
      e2setup_overflow ⟨cu.enodbName, p.right, len⟩ hc' { m with answers := answers } hs
    rw [hrun, hrun']
    exact .error
  | some s =>
    have hreg := h.register hc s.peer s.keys
    have hget := register_get hc s.peer s.keys
    have hget' := register_get hc' s.peer s.keys
    have hcollect : collectSetupRequestData ⟨cu.enodbName, p.left, len⟩ ies w =
        .ok (s.transactionId, s.message) (w.register p.left cu s.peer s.keys) :=
      collectSetupRequestData_eq hc hs
    have hcollect' : collectSetupRequestData ⟨cu.enodbName, p.right, len⟩ ies w' =
        .ok (s.transactionId, s.message) (w'.register p.right cu s.peer s.keys) :=
      collectSetupRequestData_eq hc' hs
    unfold e2setup
    rw [bind_of_ok hcollect, bind_of_ok hcollect']
    dsimp only
    split
    · exact .ok trivial hreg
    · rw [handleE2SetupReq_eq _ hget, handleE2SetupReq_eq _ hget']
      refine Alike.bind twinned_deref (fun cu₁ cu₂ heq => ?_) _ _
        (hreg.set hget (ConnectedCU.accept_isConnected _ m))
      cases heq
      exact (twinned_incrementIfSet _ _ _).bind fun _ _ _ =>
        (twinned_incrementIfSet _ _ _).bind fun _ _ _ =>
          (twinned_buildAndSendSetupRequest rfl _ _).bind fun _ _ _ => twinned_insertEntry _ _

end Setup

/-! ## Reads -/

section Read

variable {p : Pairing} {w w' : World} {cu : ConnectedCU}

theorem twinned_reportFailure (what : String) :
    Twinned p (calm p) Any (reportFailure p.left what) (reportFailure p.right what) := by
  refine twinned_deref_bind fun cu => ?_
  refine Alike.bind (alike_writeSendMessage ?_ ?_) fun _ _ _ =>
    (twinned_countInternal _).bind fun _ _ _ => twinned_report _ _
  · exact fun _ _ hb => hb
  · exact fun _ _ hb => hb

/-- The answers are replaced before they are read. -/
theorem twinned_setAnswers (answers : Answers) :
    Twinned p (calm p) Any (modify fun w => { w with answers := answers } : M Unit)
      (modify fun w => { w with answers := answers } : M Unit) :=
  Alike.modify fun _ _ h =>
    ⟨h.peer, h.unconnected, h.watched, h.entry, h.keyed, fun _ => rfl, h.buffer, h.sent⟩

theorem twinned_closeConnection (answers : Answers) :
    Twinned p (calm p) Any (closeConnection p.left answers) (closeConnection p.right answers) := by
  refine (twinned_setAnswers answers).bind fun _ _ _ => ?_
  refine (twinned_reportFailure _).bind fun _ _ _ => twinned_deref_bind fun _ => ?_
  refine (twinned_removeEntry _).bind fun _ _ _ => Alike.get_bind fun w w' h => ?_
  rw [h.watched]
  split
  · exact (twinned_closeFd.bind fun _ _ _ => twinned_cleanHashEntry) w w' h
  · exact .ok trivial h

theorem twinned_closeOnError (answers : Answers) :
    Twinned p (calm p) Any (closeOnError p.left answers) (closeOnError p.right answers) :=
  (twinned_setAnswers answers).bind fun _ _ _ => (twinned_reportFailure _).bind fun _ _ _ =>
    twinned_closeFd.bind fun _ _ _ => twinned_deref_bind fun _ =>
      (twinned_removeEntry _).bind fun _ _ _ => twinned_cleanHashEntry

theorem twinned_recvmsg (result : Option ReadResult) :
    Twinned p (calm p) Any (recvmsg result) (recvmsg result) := by
  have hwrite (f : RmrMbuf → RmrMbuf) (hf : ∀ b, (f b).subId = b.subId) :
      Twinned p (calm p) Any (writeSendMessage f) (writeSendMessage f) :=
    alike_writeSendMessage (fun b _ hb hids => (hf b).trans (hb hids))
      fun b _ hb hids => (hf b).trans (hb hids)
  unfold recvmsg
  rcases result with _ | (m | _ | answers | answers) <;> exact hwrite _ fun _ => rfl

/-- A read that brings no PDU. -/
theorem twinned_readAction {result : Option ReadResult}
    (hresult : ∀ m, result = some (.msg m) → m.pdu = none) :
    Twinned p (calm p) Any (readAction p.left result) (readAction p.right result) := by
  have hpass : Twinned p (calm p) Eq (readPass p.left result) (readPass p.right result) := by
    refine twinned_deref_bind fun cu => (twinned_recvmsg result).bind fun _ _ _ => ?_
    rcases result with _ | (m | _ | answers | answers)
    · exact Alike.pure rfl
    · refine (twinned_setAnswers m.answers).bind fun _ _ _ => ?_
      rw [hresult m rfl]
      exact Alike.pure rfl
    · exact Alike.pure rfl
    · exact Alike.pure rfl
    · exact Alike.pure rfl
  refine hpass.bind fun exit exit' heq => ?_
  cases heq
  cases exit with
  | done answers => exact twinned_closeConnection answers
  | _ => exact Alike.pure trivial

/-- A PDU, received in two states that are twins then. -/
theorem agree_received {m m' : SctpMsg} {pdu : E2APPDU} (hpdu : m.pdu = some pdu)
    (hm : SamePdu m m') (h : Twin p (calm p) (w.received m) (w'.received m'))
    (hc : w.heap.get p.left = some cu) (hname : cu.enodbName.str = [] ∨ cu.enodbName.str = p.node)
    (htakes : (E2NodeMap.getE2tProcedureOngoingStatus w.connectionHandlingPerE2NodeMap
      cu.enodbName.str).isSome → p.ids → ∀ i ∈ pdu.instanceId, i ≠ -1 →
        ¬ refused m.answers.rmr ∧ ¬ refused m'.answers.rmr) :
    Agree Any (Twin p (calm p)) (readAction p.left (some (.msg m)) w)
      (readAction p.right (some (.msg m')) w') := by
  have hc' : w'.heap.get p.right = some cu := h.peer.symm.trans hc
  have hpdu' : m'.pdu = some pdu := by
    obtain ⟨answers, rfl⟩ := hm
    exact hpdu
  have hpayload : m'.payload = m.payload := by
    obtain ⟨answers, rfl⟩ := hm
    rfl
  rw [readAction_eq hc hpdu, readAction_eq hc' hpdu', hpayload]
  cases hies : pdu.setupIEs with
  | some ies =>
    rw [dispatch_setup hies, dispatch_setup hies]
    exact agree_e2setup h hc hm ies
  | none =>
    have hxer : m.xer = m'.xer := by
      obtain ⟨answers, rfl⟩ := hm
      rfl
    cases hg : E2NodeMap.getE2tProcedureOngoingStatus w.connectionHandlingPerE2NodeMap
        cu.enodbName.str with
    | none =>
      have hg' := (h.gate hname).symm.trans hg
      rw [dispatch_of_none (w := w.received m) ⟨cu.enodbName, p.left, m.payload.length⟩ m hg hies,
        dispatch_of_none (w := w'.received m') ⟨cu.enodbName, p.right, m.payload.length⟩ m' hg'
          hies]
      exact .ok trivial h
    | some handling =>
      refine alike_dispatch hname hxer hies _ _ ?_
      have hopen := htakes (by rw [hg]; rfl)
      refine ⟨h.peer, h.unconnected, h.watched, h.entry, h.keyed, h.sctp,
        ⟨fun hids => ⟨h.buffer.1 hids, ?_⟩,
        fun hids => ⟨h.buffer.2 hids, ?_⟩⟩, h.sent⟩
      · intro href i hi
        by_contra hne
        exact (hopen hids i hi hne).1 href
      · intro href i hi
        by_contra hne
        exact (hopen hids i hi hne).2 href

end Read

/-! ## Messages for the node -/

section Downlink

variable {p : Pairing} {B : BufferCond} {w w' : World} {m : RmrMsg}

theorem twinned_sctpSendmsg (hs : p.sends) : Twinned p B Eq sctpSendmsg sctpSendmsg := by
  refine Alike.modifyGet (fun w w' h => ?_) fun w w' h => ?_
  · show (sctpAnswer w.answers.sctp).1 = (sctpAnswer w'.answers.sctp).1
    rw [h.sctp hs]
  · refine ⟨h.peer, h.unconnected, h.watched, h.entry, h.keyed, fun _ => ?_, h.buffer, h.sent⟩
    show (sctpAnswer w.answers.sctp).2 = (sctpAnswer w'.answers.sctp).2
    rw [h.sctp hs]

theorem twinned_sendSctpMsg (hs : p.sends) (n : Name) (mtype : MsgType) (data : List UInt8) :
    Twinned p B Eq (sendSctpMsg p.left n mtype data) (sendSctpMsg p.right n mtype data) := by
  intro w w' h
  unfold sendSctpMsg
  cases hc : w.heap.get p.left with
  | none =>
    rw [bind_of_error (deref_of_freed hc), bind_of_error (deref_of_freed (h.peer.symm.trans hc))]
    exact .error
  | some cu =>
    rw [bind_of_ok (deref_of_get hc), bind_of_ok (deref_of_get (h.peer.symm.trans hc))]
    refine Alike.bind (twinned_sctpSendmsg hs) (fun sent sent' heq => ?_) w w' h
    cases heq
    cases sent with
    | true =>
      have hsame : SameOutput p.ids (.sctp p.left (fetchStreamId cu mtype) data mtype n)
          (.sctp p.right (fetchStreamId cu mtype) data mtype n) := ⟨rfl, rfl, rfl, rfl⟩
      exact (twinned_emit hsame).bind fun _ _ _ => Alike.pure rfl
    | false =>
      rw [if_neg Bool.false_ne_true, h.unconnected cu hc]
      exact Alike.pure rfl

theorem twinned_countAndSend (hs : p.sends) {count count' : Nat → M Unit} {sent sent' : M Unit}
    (hcount : ∀ len, Twinned p B Any (count len) (count' len)) (hsent : Twinned p B Any sent sent')
    (data : List UInt8) :
    Twinned p B Any (countAndSend p.left m count sent data)
      (countAndSend p.right m count' sent' data) := by
  refine (hcount _).bind fun _ _ _ => (twinned_sendSctpMsg hs _ _ _).bind fun rc rc' heq => ?_
  cases heq
  split
  · exact Alike.pure trivial
  · exact hsent.bind fun _ _ _ => Alike.pure trivial

theorem twinned_countSetupOutcome (direction : Direction) (len : Nat) :
    Twinned p B Any (countSetupOutcome p.left direction len)
      (countSetupOutcome p.right direction len) :=
  twinned_deref_bind fun _ => (twinned_incrementIfSet _ _ _).bind fun _ _ _ =>
    twinned_deref_bind fun _ => (twinned_incrementIfSet _ _ _).bind fun _ _ _ =>
      (twinned_incrementIfSet _ _ _).bind fun _ _ _ => twinned_incrementIfSet _ _ _

theorem twinned_record (n : Name) (s : Option E2TProcedureStates) :
    Twinned p B Any (record n s) (record n s) := by
  cases s with
  | none => exact Alike.pure trivial
  | some s => exact twinned_setStatus n s

theorem NodeCase.twinned_count (k : NodeCase) (len : Nat) :
    Twinned p B Any (k.count p.left len) (k.count p.right len) := by
  unfold NodeCase.count
  split
  · exact twinned_countSetupOutcome _ _
  · exact twinned_countMessage _ _ _ _ _

theorem twinned_sendToNode (hs : p.sends) (m : RmrMsg) :
    Twinned p B Any (sendToNode p.left m) (sendToNode p.right m) := by
  cases hk : nodeCase m.mtype with
  | none =>
    rw [sendToNode_unlisted hk, sendToNode_unlisted hk]
    exact Alike.pure trivial
  | some k =>
    rw [sendToNode_eq hk, sendToNode_eq hk]
    refine (twinned_record _ _).bind fun _ _ _ => ?_
    cases k.data m with
    | none => exact Alike.pure trivial
    | some data => exact twinned_countAndSend hs k.twinned_count (twinned_record _ _) data

/-- A message for the node, from two states that are twins once its answers are set. -/
theorem agree_delivered (hs : p.sends) (hm : ¬ m.ForTerminator)
    (h : Twin p B { w with answers := m.answers } { w' with answers := m.answers })
    (hkeyed : w.sctpMap.lookup m.meid = some p.left ∧ w'.sctpMap.lookup m.meid = some p.right ∨
      w.sctpMap.lookup m.meid = none ∧ w'.sctpMap.lookup m.meid = none) :
    Agree Any (Twin p B) (receiveXappMessages (some m) w) (receiveXappMessages (some m) w') := by
  rw [receiveXappMessages_eq hm, receiveXappMessages_eq hm]
  split
  · rcases hkeyed with ⟨hl, hl'⟩ | ⟨hl, hl'⟩
    · rw [deliver_some (w := { w with answers := m.answers }) hl,
        deliver_some (w := { w' with answers := m.answers }) hl']
      exact twinned_sendToNode hs m _ _ h
    · rw [deliver_none (w := { w with answers := m.answers }) hl,
        deliver_none (w := { w' with answers := m.answers }) hl']
      exact .ok trivial h
  · exact .ok trivial h

end Downlink

end E2Term
