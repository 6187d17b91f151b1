import E2Term.ErrorIndications

/-!
# The copies of an error indication

An error indication is sent from the buffer it was received in, once to the xApps and before that,
when it is about a subscription, to the subscription manager. RMR takes the payload of a message it
accepts, so the second copy has what the first send left.
-/

namespace E2Term

open CString Effect Runs

/-! ## Whole copies -/

/-- The buffer holds the bytes of the PDU. -/
def HoldsPdu (m : SctpMsg) (b : RmrMbuf) : Prop :=
  b.payload = m.payload ∧ b.len = m.payload.length

instance (m : SctpMsg) (b : RmrMbuf) : Decidable (HoldsPdu m b) :=
  inferInstanceAs (Decidable (_ ∧ _))

/-- A message to the subscription manager or the xApps that carries the PDU. -/
def CarriesPdu (m : SctpMsg) : Output → Prop
  | .rmr msg _ =>
    msg.mtype = .ricE2RanErrorIndication ∨ msg.mtype = .ricErrorIndication → HoldsPdu m msg
  | .rts _ _ | .sctp _ _ _ _ _ => True

/-- All of the copies that were sent carry the PDU. -/
def SentWhole (m : SctpMsg) (w w' : World) : Prop :=
  ∀ o ∈ w'.outbox.drop w.outbox.length, CarriesPdu m o

instance (m : SctpMsg) : DecidablePred (CarriesPdu m)
  | .rmr msg _ => inferInstanceAs (Decidable (_ → HoldsPdu m msg))
  | .rts _ _ | .sctp _ _ _ _ _ => .isTrue trivial

instance (m : SctpMsg) (w w' : World) : Decidable (SentWhole m w w') :=
  inferInstanceAs (Decidable (∀ o ∈ _, CarriesPdu m o))

theorem forall_carriesPdu {m : SctpMsg} {msg : RmrMbuf} {sent : Bool}
    (hm : msg.mtype = .ricE2RanErrorIndication ∨ msg.mtype = .ricErrorIndication) :
    (∀ o ∈ [Output.rmr msg sent], CarriesPdu m o) ↔ HoldsPdu m msg := by
  rw [List.forall_mem_singleton]
  exact ⟨fun h => h hm, fun h _ => h⟩

theorem holdsPdu_fresh (m : SctpMsg) : HoldsPdu m .fresh ↔ m.payload = [] := by
  constructor
  · rintro ⟨h, -⟩
    exact h.symm
  · intro h
    unfold HoldsPdu
    rw [h]
    exact ⟨rfl, rfl⟩

/-! ## Two copies -/

/-- An error indication about a subscription: it names a request and a cause, and the procedure code
of a subscription, or no procedure code while a subscription of the node is in progress. -/
def AboutSubscription (e : E2NodeConnectionHandling) (ies : List (ProtocolIE ErrorIndicationIEs)) :
    Prop :=
  let scanned := scanErrorIndication e.e2SetupProcedureTransactionId ies
  scanned.1.ricRequestId = true ∧ scanned.1.cause = true ∧
    (scanned.2 = ProcedureCode.ricSubscription.toInt ∨
      scanned.2 = 0 ∧ e.e2tProcedureOngoingStatus = .ricSubsProcedureOngoing)

theorem route_subMgr_iff (e : E2NodeConnectionHandling)
    (ies : List (ProtocolIE ErrorIndicationIEs)) :
    e.route ies = ⟨false, true⟩ ↔ AboutSubscription e ies := by
  unfold E2NodeConnectionHandling.route AboutSubscription
  dsimp only
  generalize scanErrorIndication e.e2SetupProcedureTransactionId ies = scanned
  unfold getSendMsgBitSetValue
  split
  case isTrue hcode =>
    rw [hcode]
    split
    · rename_i hmanager
      rcases hmanager.1 with hst | hst <;> simp [hst, ProcedureCode.toInt]
    · split
      · rename_i hsub
        simp [hsub]
      · rename_i hsub
        simp only [SendMsgTo.mk.injEq, Bool.false_eq_true, and_false, false_iff]
        rintro ⟨hr, hc, hcode' | ⟨-, hst⟩⟩
        · cases hcode'
        · exact hsub ⟨hst, hr, hc⟩
  case isFalse hcode =>
    simp only [hcode, false_and, or_false]
    split
    · rename_i hmanager
      rcases hmanager with h | h <;> rw [h] <;> split <;> simp [ProcedureCode.toInt]
    · split
      · rename_i hsub
        simp [hsub]
      · rename_i hsub
        simp [hsub]

section Handler

variable {message : ReportingMessages} {m : SctpMsg} {w : World} {cu : ConnectedCU}
  {e : E2NodeConnectionHandling} {ies : List (ProtocolIE ErrorIndicationIEs)}

/-- The slots of an error indication are there, so that it is counted. -/
def CountsErrors (cu : ConnectedCU) : Prop :=
  ∀ kind, (cu.counters .inIniti kind .errorIndication).isSome

/-- The copy for the xApps has what is in the buffer, and goes out when the error indication was
counted. -/
theorem forwardError_copies (hc : w.heap.get message.peerInfo = some cu) :
    ∃ out, (final (forwardError message w)).outbox = w.outbox ++ out ∧
      ((∀ o ∈ out, CarriesPdu m o) ↔ (CountsErrors cu → HoldsPdu m w.sendMessage)) := by
  have hend : Ends (Raises (some cu)) (Touches [] noStatus noOutput w)
      (countMessage message.peerInfo .inIniti .inIniti .errorIndication message.asnLength w) :=
    (Touches.counts [] noStatus noOutput hc).countMessage (by decide) _ w (.refl w)
  unfold forwardError
  by_cases hslots : CountsErrors cu
  · have he2t : ∀ kind, (e2tCounters .inIniti kind .errorIndication).isSome := fun kind => by
      cases kind <;> decide
    obtain ⟨_, _, hcount, registry, rfl⟩ := (keeps_countMessage (counts_recounted hc) hslots he2t
      message.asnLength).returns ⟨w.registry, rfl⟩
    obtain ⟨rc, rest, st, sent, hsend⟩ := sendRequestToXapp_eq message.enodbName.str
      .ricErrorIndication { w with registry := registry }
    rw [bind_of_ok hcount, bind_of_ok hsend]
    refine ⟨_, rfl, ?_⟩
    rw [forall_carriesPdu (.inr rfl)]
    exact ⟨fun h _ => h, fun h => h hslots⟩
  · obtain ⟨w', hcount⟩ := countMessage_fails hc hslots message.asnLength
    rw [hcount] at hend
    rw [bind_of_error hcount]
    exact ⟨[], by rw [List.append_nil]; exact hend.state.outbox_eq, by simp [hslots]⟩

/-- What goes to a manager carries the PDU; the buffer still has it behind that, unless it went to
the subscription manager and RMR took it. -/
theorem routeError_copies (sendMsgTo : SendMsgTo) (message : ReportingMessages)
    (hw : HoldsPdu m w.sendMessage) :
    ∃ w' out, routeError sendMsgTo message m w = .ok () w' ∧ w'.heap = w.heap ∧
      w'.outbox = w.outbox ++ out ∧ (∀ o ∈ out, CarriesPdu m o) ∧
      (HoldsPdu m w'.sendMessage ↔
        ¬ (sendMsgTo.e2m = false ∧ sendMsgTo.subMgr = true ∧ ¬ refused w.answers.rmr ∧
          m.payload ≠ [])) := by
  obtain ⟨e2m, subMgr⟩ := sendMsgTo
  unfold routeError
  cases e2m with
  | true =>
    obtain ⟨tx, rest, out, hrun, hnone, hsome⟩ :=
      buildAndSendSetupRequest_eq message .ricE2RicErrorIndication m.xer w
    refine ⟨_, out, hrun, rfl, rfl, ?_, by simpa using hw⟩
    cases hxer : m.xer with
    | none => simp [hnone hxer]
    | some buffer =>
      obtain ⟨msg, sent, rfl, hmtype, -⟩ := hsome buffer hxer
      rw [List.forall_mem_singleton]
      intro hm
      rw [hmtype] at hm
      rcases hm with hm | hm <;> cases hm
  | false =>
    cases subMgr with
    | true =>
      obtain ⟨rc, rest, st, sent, hrun⟩ :=
        sendRequestToXapp_eq message.enodbName.str .ricE2RanErrorIndication w
      refine ⟨_, _, bind_of_ok hrun, rfl, rfl, (forall_carriesPdu (.inl rfl)).mpr hw, ?_⟩
      dsimp only
      split
      · rename_i hrefused
        exact iff_of_true hw (by simp [hrefused])
      · rename_i hrefused
        rw [holdsPdu_fresh]
        simp [hrefused]
    | false => exact ⟨w, [], rfl, rfl, (List.append_nil _).symm, by simp, by simpa using hw⟩

end Handler

/-- The copy for the xApps is an empty one: the error indication is about a subscription, RMR does
not give the message for the subscription manager back, and the handler gets to its second send. -/
structure EmptyCopy (w : World) (cu : ConnectedCU) (m : SctpMsg)
    (ies : List (ProtocolIE ErrorIndicationIEs)) : Prop where
  about : ∃ e, E2NodeMap.getE2tProcedureOngoingStatus w.connectionHandlingPerE2NodeMap
    cu.enodbName.str = some e ∧ AboutSubscription e ies
  taken : ¬ refused m.answers.rmr
  counted : CountsErrors cu
  payload : m.payload ≠ []

/-- The messages that an error indication is sent on with, to the subscription manager and the
xApps, carry the PDU that was received, unless there are two and RMR did not give the first one
back. -/
theorem error_copies_whole_iff {w : World} {c : ConnId} {cu : ConnectedCU}
    (hc : w.heap.get c = some cu) {m : SctpMsg} {ies : List (ProtocolIE ErrorIndicationIEs)}
    (hpdu : m.pdu = some (.initiatingMessage (.errorIndication ies))) :
    SentWhole m w (final ((Action.read c (some (.msg m))).run w)) ↔ ¬ EmptyCopy w cu m ies := by
  show SentWhole m w (final (readAction c (some (.msg m)) w)) ↔ _
  rw [readAction_eq hc hpdu]
  let message : ReportingMessages := ⟨cu.enodbName, c, m.payload.length⟩
  let w₀ : World := w.received m
  have hw₀ : HoldsPdu m w₀.sendMessage := ⟨rfl, rfl⟩
  have hc₀ : w₀.heap.get message.peerInfo = some cu := hc
  show SentWhole m w₀ (final (errorIndication message m ies w₀)) ↔ _
  cases hl : E2NodeMap.getE2tProcedureOngoingStatus w₀.connectionHandlingPerE2NodeMap
      message.enodbName.str with
  | none =>
    have hrun : errorIndication message m ies w₀ = .ok () w₀ := gate_of_none hl
    rw [hrun]
    refine iff_of_true (nothing_sent rfl) ?_
    rintro ⟨⟨e, he, -⟩, -, -, -⟩
    exact Option.some_ne_none e (he.symm.trans hl)
  | some e =>
    obtain ⟨w₁, out, hrun, hheap, hout, hwhole, hbuffer⟩ :=
      routeError_copies (e.route ies) message hw₀
    obtain ⟨out', hout', hcopy⟩ := forwardError_copies (m := m) (hheap ▸ hc₀)
    have habout : (e.route ies).e2m = false ∧ (e.route ies).subMgr = true ↔
        AboutSubscription e ies := by
      rw [← route_subMgr_iff]
      cases e.route ies
      simp
    rw [errorIndication_eq hl, bind_of_ok hrun]
    unfold SentWhole
    rw [drop_outbox (hout'.trans (by rw [hout, List.append_assoc])), List.forall_mem_append,
      and_iff_right hwhole, hcopy, hbuffer]
    constructor
    · rintro h ⟨⟨e', he', habout'⟩, htaken, hcounted, hpayload⟩
      have heq : e = e' := Option.some.inj (hl.symm.trans he')
      subst heq
      obtain ⟨he2m, hsub⟩ := habout.mpr habout'
      exact h hcounted ⟨he2m, hsub, htaken, hpayload⟩
    · rintro h hcounted ⟨he2m, hsub, htaken, hpayload⟩
      exact h ⟨⟨e, hl, habout.mp ⟨he2m, hsub⟩⟩, htaken, hcounted, hpayload⟩

/-- The error indication comes while a subscription is in progress. -/
theorem error_copies_whole_iff_subscribed :
    ∃ h w cu, ListenerRun sampleParams h w ∧ w.heap.get 0 = some cu ∧
      (SentWhole sampleError w (final ((Action.read 0 (some (.msg sampleError))).run w)) ↔
        ¬ EmptyCopy w cu sampleError sampleErrorIEs) := by
  obtain ⟨h, w, r, hw⟩ := sampleRun_of_any
    [.accept sampleRequest, sampleRead 0 (sampleSetup 1), sampleRmr .ricSubReq (sampleName 1)]
    (fun p => (p.2.heap.get 0).isSome) (by decide +kernel)
  obtain ⟨cu, hc⟩ := Option.isSome_iff_exists.mp hw
  exact ⟨h, w, cu, r, hc, error_copies_whole_iff hc rfl⟩

/-- The subscription manager gets the error indication, and the xApps get an empty message. -/
theorem second_error_copy_empty :
    ¬ ∀ params h w c n m ies, ListenerRun params h w → w.nameOf c = some n → n ≠ [] →
      (w.statusOf n).isSome → m.pdu = some (.initiatingMessage (.errorIndication ies)) →
      SentWhole m w (final ((Action.read c (some (.msg m))).run w)) := by
  intro hall
  obtain ⟨h, w, r, hname, hn, hset, hno⟩ := sampleRun_of_any
    [.accept sampleRequest, sampleRead 0 (sampleSetup 1), sampleRmr .ricSubReq (sampleName 1)]
    (fun p => p.2.nameOf 0 = some (sampleName 1) ∧ sampleName 1 ≠ [] ∧
      (p.2.statusOf (sampleName 1)).isSome ∧
      ¬ SentWhole sampleError p.2 (final ((Action.read 0 (some (.msg sampleError))).run p.2)))
    (by decide +kernel)
  exact hno (hall _ h w 0 _ sampleError sampleErrorIEs r hname hn hset rfl)

end E2Term
