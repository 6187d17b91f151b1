import E2Term.SetupStatus

/-!
# Where an error indication goes

An error indication without a procedure code is for the subscription manager when the recorded
status of its node is that of a subscription in progress. The status is one per node: the next event
that records another one ends that.
-/

namespace E2Term

open CString Effect Runs

/-! ## What an error indication carries -/

/-- The information elements hold a request id and a cause, and no procedure code. -/
structure CarriesRequest (ies : List (ProtocolIE ErrorIndicationIEs)) : Prop where
  request : ∃ ie ∈ ies, ie.id = idRICrequestID ∧ ∃ r, ie.value = .ricRequestID r
  cause : ∃ ie ∈ ies, ie.id = idCause ∧ ie.value = .cause
  noCode : ∀ ie ∈ ies, ie.id = idCriticalityDiagnostics →
    ∀ code, ie.value ≠ .criticalityDiagnostics (some code)

section Scan

variable {tid : Int} {ie : ProtocolIE ErrorIndicationIEs}
  {ies : List (ProtocolIE ErrorIndicationIEs)}

/-- What was found stays found. -/
theorem scanErrorIndicationIE_mono (tid : Int) (acc : RequiredIes × Int)
    (ie : ProtocolIE ErrorIndicationIEs) :
    (acc.1.ricRequestId → (scanErrorIndicationIE tid acc ie).1.ricRequestId) ∧
      (acc.1.cause → (scanErrorIndicationIE tid acc ie).1.cause) := by
  unfold scanErrorIndicationIE
  split
  all_goals first | (split <;> simp_all) | simp

theorem foldl_scan_mono (acc : RequiredIes × Int) :
    (acc.1.ricRequestId → (ies.foldl (scanErrorIndicationIE tid) acc).1.ricRequestId) ∧
      (acc.1.cause → (ies.foldl (scanErrorIndicationIE tid) acc).1.cause) := by
  induction ies generalizing acc with
  | nil => exact ⟨id, id⟩
  | cons ie ies ih =>
    obtain ⟨hr, hc⟩ := scanErrorIndicationIE_mono tid acc ie
    obtain ⟨hr', hc'⟩ := ih (scanErrorIndicationIE tid acc ie)
    exact ⟨fun h => hr' (hr h), fun h => hc' (hc h)⟩

theorem scan_ricRequestId
    (h : ∃ ie ∈ ies, ie.id = idRICrequestID ∧ ∃ r, ie.value = .ricRequestID r) :
    (scanErrorIndication tid ies).1.ricRequestId := by
  obtain ⟨ie, hmem, hid, r, hv⟩ := h
  obtain ⟨before, after, rfl⟩ := List.append_of_mem hmem
  unfold scanErrorIndication
  rw [List.foldl_append, List.foldl_cons]
  refine (foldl_scan_mono _).1 ?_
  unfold scanErrorIndicationIE
  simp [hv, hid]

theorem scan_cause (h : ∃ ie ∈ ies, ie.id = idCause ∧ ie.value = .cause) :
    (scanErrorIndication tid ies).1.cause := by
  obtain ⟨ie, hmem, hid, hv⟩ := h
  obtain ⟨before, after, rfl⟩ := List.append_of_mem hmem
  unfold scanErrorIndication
  rw [List.foldl_append, List.foldl_cons]
  refine (foldl_scan_mono _).2 ?_
  unfold scanErrorIndicationIE
  simp [hv, hid]

/-- The procedure code is the one there was before, or one that an information element carries. -/
theorem foldl_scan_code {P : Int → Prop} (acc : RequiredIes × Int) (hacc : P acc.2)
    (h : ∀ ie ∈ ies, ie.id = idCriticalityDiagnostics →
      ∀ code, ie.value = .criticalityDiagnostics (some code) → P code) :
    P (ies.foldl (scanErrorIndicationIE tid) acc).2 := by
  induction ies generalizing acc with
  | nil => exact hacc
  | cons ie ies ih =>
    refine ih _ ?_ fun ie' hie' => h ie' (List.mem_cons_of_mem _ hie')
    have hie := h ie List.mem_cons_self
    unfold scanErrorIndicationIE
    split
    case h_4 code hv =>
      split
      · rename_i hid
        exact hie hid code hv
      · exact hacc
    all_goals first | (split <;> exact hacc) | exact hacc

end Scan

/-- The subscription manager is told exactly when a subscription of the node is in progress. -/
theorem getSendMsgBitSetValue_subMgr (tid : Int) {ies : List (ProtocolIE ErrorIndicationIEs)}
    (h : CarriesRequest ies) (status : E2TProcedureStates) :
    (status = .ricSubsProcedureOngoing →
      getSendMsgBitSetValue (scanErrorIndication tid ies).2 (scanErrorIndication tid ies).1 status =
        ⟨false, true⟩) ∧
    (status ≠ .ricSubsProcedureOngoing →
      (getSendMsgBitSetValue (scanErrorIndication tid ies).2 (scanErrorIndication tid ies).1
        status).subMgr = false) := by
  have hcode : (scanErrorIndication tid ies).2 = 0 :=
    foldl_scan_code (P := (· = 0)) _ rfl fun ie hie hid code hv =>
      (h.noCode ie hie hid code hv).elim
  unfold getSendMsgBitSetValue
  rw [if_pos hcode]
  constructor
  · rintro rfl
    simp [scan_ricRequestId h.request, scan_cause h.cause]
  · intro hne
    split
    · rfl
    · rw [if_neg fun hsub => hne hsub.1]

/-! ## The handler -/

/-- A message of the type `mtype` to RMR with the MEID `n`. -/
def RmrOf (n : Name) (mtype : MsgType) : Output → Prop
  | .rmr msg _ => msg.meid = n ∧ msg.mtype = mtype
  | _ => False

/-- A message of the type `mtype` was sent under the name `n`. -/
def Emitted (n : Name) (mtype : MsgType) (w w' : World) : Prop :=
  ∃ o ∈ w'.outbox.drop w.outbox.length, RmrOf n mtype o

instance (n : Name) (mtype : MsgType) : DecidablePred (RmrOf n mtype)
  | .rmr _ _ => inferInstanceAs (Decidable (_ ∧ _))
  | .rts _ _ | .sctp _ _ _ _ _ => .isFalse id

instance (n : Name) (mtype : MsgType) (w w' : World) : Decidable (Emitted n mtype w w') :=
  inferInstanceAs (Decidable (∃ o ∈ _, RmrOf n mtype o))

theorem exists_rmrOf {n : Name} {mtype : MsgType} {msg : RmrMbuf} {sent : Bool} :
    (∃ o ∈ [.rmr msg sent], RmrOf n mtype o) ↔ msg.meid = n ∧ msg.mtype = mtype := by
  simp [RmrOf]

/-- The error indication was sent to the subscription manager. -/
def Reported (n : Name) : World → World → Prop := Emitted n .ricE2RanErrorIndication

/-- Where an error indication goes that comes from a node with the entry `e`. -/
def E2NodeConnectionHandling.route (e : E2NodeConnectionHandling)
    (ies : List (ProtocolIE ErrorIndicationIEs)) : SendMsgTo :=
  let scanned := scanErrorIndication e.e2SetupProcedureTransactionId ies
  getSendMsgBitSetValue scanned.2 scanned.1 e.e2tProcedureOngoingStatus

/-- What is done for an error indication on account of where it goes. -/
def routeError (sendMsgTo : SendMsgTo) (message : ReportingMessages) (m : SctpMsg) : M Unit :=
  if sendMsgTo.e2m then buildAndSendSetupRequest message .ricE2RicErrorIndication m.xer
  else if sendMsgTo.subMgr then do
    let _ ← sendRequestToXapp message.enodbName.str .ricE2RanErrorIndication
  else pure ()

/-- What is done for an error indication in any case. -/
def forwardError (message : ReportingMessages) : M Unit := do
  countMessage message.peerInfo .inIniti .inIniti .errorIndication message.asnLength
  let _ ← sendRequestToXapp message.enodbName.str .ricErrorIndication

/-- The messages of this type are those for the E2 manager, or those for the subscription
manager. -/
def SendMsgTo.Emits (sendMsgTo : SendMsgTo) (m : SctpMsg) (mtype : MsgType) : Prop :=
  sendMsgTo.e2m = true ∧ m.xer.isSome ∧ mtype = .ricE2RicErrorIndication ∨
    sendMsgTo.e2m = false ∧ sendMsgTo.subMgr = true ∧ mtype = .ricE2RanErrorIndication

section Handler

variable {message : ReportingMessages} {m : SctpMsg} {w : World} {cu : ConnectedCU}
  {e : E2NodeConnectionHandling} {ies : List (ProtocolIE ErrorIndicationIEs)}

/-- Behind the gate, an error indication is routed, counted and sent on. -/
theorem errorIndication_eq
    (hl : E2NodeMap.getE2tProcedureOngoingStatus w.connectionHandlingPerE2NodeMap
      message.enodbName.str = some e) :
    errorIndication message m ies w =
      (do routeError (e.route ies) message m; forwardError message : M Unit) w := by
  have hcurrent := E2NodeMap.current_of_entry hl
  unfold errorIndication
  rw [gate_of_some hl, bind_of_ok (rfl : (get : M World) w = .ok w w), hcurrent]
  unfold routeError
  show (if (e.route ies).e2m then _ else if (e.route ies).subMgr then _ else _ : M Unit) w = _
  obtain ⟨e2m, subMgr⟩ := e.route ies
  cases e2m with
  | true => rfl
  | false =>
    cases subMgr with
    | true =>
      simp only [if_neg Bool.false_ne_true, if_true, bind_assoc, pure_bind]
      rfl
    | false => rfl

theorem routeError_ok (sendMsgTo : SendMsgTo) (message : ReportingMessages) (m : SctpMsg)
    (w : World) :
    ∃ w' out, routeError sendMsgTo message m w = .ok () w' ∧ w'.heap = w.heap ∧
      w'.outbox = w.outbox ++ out ∧
      ∀ mtype, (∃ o ∈ out, RmrOf message.enodbName.str mtype o) ↔ sendMsgTo.Emits m mtype := by
  obtain ⟨e2m, subMgr⟩ := sendMsgTo
  unfold routeError SendMsgTo.Emits
  cases e2m with
  | true =>
    obtain ⟨tx, rest, out, hrun, hnone, hsome⟩ :=
      buildAndSendSetupRequest_eq message .ricE2RicErrorIndication m.xer w
    refine ⟨_, out, hrun, rfl, rfl, fun mtype => ?_⟩
    cases hxer : m.xer with
    | none => simp [hnone hxer]
    | some buffer =>
      obtain ⟨msg, sent, rfl, hmtype, hmeid, -⟩ := hsome buffer hxer
      rw [exists_rmrOf, hmtype]
      simp [hmeid, eq_comm]
  | false =>
    cases subMgr with
    | true =>
      obtain ⟨rc, rest, st, sent, hrun⟩ :=
        sendRequestToXapp_eq message.enodbName.str .ricE2RanErrorIndication w
      refine ⟨_, [.rmr (w.addressed message.enodbName.str .ricE2RanErrorIndication).sendMessage
        sent], bind_of_ok hrun, rfl, rfl, fun mtype => ?_⟩
      rw [exists_rmrOf]
      constructor
      · rintro ⟨-, rfl⟩
        exact .inr ⟨rfl, rfl, rfl⟩
      · rintro (⟨hf, -⟩ | ⟨-, -, rfl⟩)
        · cases hf
        · exact ⟨rfl, rfl⟩
    | false => exact ⟨w, [], rfl, rfl, (List.append_nil _).symm, fun mtype => by simp⟩

theorem keeps_forwardError (hc : w.heap.get message.peerInfo = some cu) (sends : Output → Prop)
    (hs : ∀ msg sent, msg.mtype = .ricErrorIndication → sends (.rmr msg sent)) :
    Keeps (Raises (some cu)) (Touches message.enodbName.str noStatus sends w)
      (forwardError message) := by
  have hI := Touches.counts message.enodbName.str noStatus sends hc
  refine (hI.countMessage (by decide) _).bind fun _ => ?_
  exact (keeps_sendRequestToXapp _ fun msg sent _ hmtype => hs msg sent hmtype).bind fun _ =>
    Keeps.pure _

/-- The managers are told as the error indication is routed. -/
theorem errorIndication_emitted_iff (hc : w.heap.get message.peerInfo = some cu)
    (hl : E2NodeMap.getE2tProcedureOngoingStatus w.connectionHandlingPerE2NodeMap
      message.enodbName.str = some e) {mtype : MsgType} (hm : mtype ≠ .ricErrorIndication) :
    Emitted message.enodbName.str mtype w (final (errorIndication message m ies w)) ↔
      (e.route ies).Emits m mtype := by
  obtain ⟨w₁, out, hrun, hheap, hout, hemits⟩ := routeError_ok (e.route ies) message m w
  -- the xApps get a message of another type
  have hforward := keeps_forwardError (hheap ▸ hc) (¬ RmrOf message.enodbName.str mtype ·)
    (fun msg sent hmtype hrmr => hm (hrmr.2.symm.trans hmtype)) w₁ (.refl w₁)
  obtain ⟨out', hout', hno⟩ := hforward.state.sent
  rw [errorIndication_eq hl, bind_of_ok hrun, ← hemits]
  unfold Emitted
  rw [drop_outbox (hout'.trans (by rw [hout, List.append_assoc]))]
  constructor
  · rintro ⟨o, ho, hrmr⟩
    rcases List.mem_append.mp ho with ho | ho
    · exact ⟨o, ho, hrmr⟩
    · exact (hno o ho hrmr).elim
  · rintro ⟨o, ho, hrmr⟩
    exact ⟨o, List.mem_append_left _ ho, hrmr⟩

end Handler

/-- The same for an error indication that is read from a connection with the node's name. -/
theorem emitted_iff {w : World} {c : ConnId} {n : Name} (hname : w.nameOf c = some n)
    (hn : n ≠ []) {e : E2NodeConnectionHandling}
    (he : w.connectionHandlingPerE2NodeMap.lookup n = some e) {m : SctpMsg}
    {ies : List (ProtocolIE ErrorIndicationIEs)}
    (hpdu : m.pdu = some (.initiatingMessage (.errorIndication ies))) {mtype : MsgType}
    (hm : mtype ≠ .ricErrorIndication) :
    Emitted n mtype w (final ((Action.read c (some (.msg m))).run w)) ↔
      (e.route ies).Emits m mtype := by
  obtain ⟨cu, hc, rfl⟩ := Option.map_eq_some_iff.mp hname
  let message : ReportingMessages := ⟨cu.enodbName, c, m.payload.length⟩
  have hl : E2NodeMap.getE2tProcedureOngoingStatus
      (w.received m).connectionHandlingPerE2NodeMap message.enodbName.str = some e :=
    (if_neg hn).trans he
  show Emitted _ _ w (final (readAction c (some (.msg m)) w)) ↔ _
  rw [readAction_eq hc hpdu]
  exact errorIndication_emitted_iff hc hl hm

/-- An error indication that carries a request is reported exactly when a subscription of its node
is in progress. -/
theorem reported_iff {w : World} {c : ConnId} {n : Name} (hname : w.nameOf c = some n)
    (hn : n ≠ []) (hset : (w.statusOf n).isSome) {m : SctpMsg}
    {ies : List (ProtocolIE ErrorIndicationIEs)}
    (hpdu : m.pdu = some (.initiatingMessage (.errorIndication ies))) (hies : CarriesRequest ies) :
    Reported n w (final ((Action.read c (some (.msg m))).run w)) ↔
      w.statusOf n = some .ricSubsProcedureOngoing := by
  obtain ⟨status, hstatus⟩ := Option.isSome_iff_exists.mp hset
  obtain ⟨e, he, rfl⟩ := Option.map_eq_some_iff.mp hstatus
  obtain ⟨hsub, hother⟩ := getSendMsgBitSetValue_subMgr e.e2SetupProcedureTransactionId hies
    e.e2tProcedureOngoingStatus
  unfold Reported
  rw [emitted_iff hname hn he hpdu (by decide), hstatus, Option.some.injEq]
  unfold SendMsgTo.Emits E2NodeConnectionHandling.route
  dsimp only
  by_cases heq : e.e2tProcedureOngoingStatus = .ricSubsProcedureOngoing
  · rw [hsub heq]
    simp [heq]
  · rw [hother heq]
    simp [heq]

/-! ## The recorded status over a run -/

/-- The step recorded a status of the node, or removed its entry: it accepted a setup request of the
node, or ended the time of one. -/
def Records (n : Name) (st : Step World Action) : Prop :=
  setupNode st = some n ∨ EndsSetup n st

section Runs

variable {w w' : World} {n : Name}

/-- The recorded status of a node lasts until a step records another one. -/
theorem statusOf_of_quiet {h : List (Step World Action)} (hs : Sane w) (r : Run Action.run w h w')
    (hst : (w.statusOf n).isSome) (hquiet : ∀ st ∈ h, ¬ Records n st) :
    w'.statusOf n = w.statusOf n := by
  have hinv := r.invariant_of (fun w' => Sane w' ∧ w'.statusOf n = w.statusOf n)
    (fun w a => ¬ Records n ⟨w, a, final (a.run w)⟩) ⟨hs, rfl⟩ ?_ ?_
  · exact hinv.2
  · intro _ s a s' _ hI hq hstep
    rw [hstep] at hq
    obtain ⟨hnode, hends⟩ := not_or.mp hq
    have hsome : (s.statusOf n).isSome := by rwa [hI.2]
    exact ⟨(hI.1.does hstep).sane hI.1,
      (statusOf_of_not_ends hI.1 hstep hsome hends hnode).trans hI.2⟩
  · intro st hst'
    rw [r.step_of_mem hst']
    exact hquiet st hst'

theorem subscription_ongoing_of_quiet {params : SctpParams} {h : List (Step World Action)}
    (r : ListenerRun params h w) {before after : List (Step World Action)} {st : Step World Action}
    (heq : h = before ++ st :: after) {c : ConnId} (hreq : (c, .subscription, n) ∈ requests st)
    (hset : (st.pre.statusOf n).isSome) (hquiet : ∀ st' ∈ after, ¬ Records n st') :
    w.statusOf n = some .ricSubsProcedureOngoing := by
  obtain ⟨r₀, hstep, r₁⟩ := r.split before st after heq
  have hs := sane_of_run r₀
  obtain ⟨status, hstatus⟩ := Option.isSome_iff_exists.mp hset
  have hpost : st.post.statusOf n = some .ricSubsProcedureOngoing := by
    rw [statusOf_of_mem_requests hs hstep hreq, hstatus]
    rfl
  rw [statusOf_of_quiet ((hs.does hstep).sane hs) r₁ (by rw [hpost]; rfl) hquiet, hpost]

end Runs

/-- An error indication of a node that was set up, with a request and a cause and without a
procedure code, is sent to the subscription manager exactly when the recorded status is that of a
subscription in progress; it is so from the moment a subscription request went out to the node until
another step records a status of the node or removes its entry. -/
theorem error_reported_iff {params : SctpParams} {h : List (Step World Action)} {w : World}
    (r : ListenerRun params h w) {c : ConnId} {n : Name} (hname : w.nameOf c = some n)
    (hn : n ≠ []) (hset : (w.statusOf n).isSome) {m : SctpMsg}
    {ies : List (ProtocolIE ErrorIndicationIEs)}
    (hpdu : m.pdu = some (.initiatingMessage (.errorIndication ies))) (hies : CarriesRequest ies) :
    (Reported n w (final ((Action.read c (some (.msg m))).run w)) ↔
      w.statusOf n = some .ricSubsProcedureOngoing) ∧
    ∀ before st after c', h = before ++ st :: after → (c', .subscription, n) ∈ requests st →
      (st.pre.statusOf n).isSome → (∀ st' ∈ after, ¬ Records n st') →
      Reported n w (final ((Action.read c (some (.msg m))).run w)) := by
  have hiff := reported_iff hname hn hset hpdu hies
  exact ⟨hiff, fun before st after c' heq hreq hpre hquiet =>
    hiff.mpr (subscription_ongoing_of_quiet r heq hreq hpre hquiet)⟩

/-- An error indication for a request. -/
def sampleErrorIEs : List (ProtocolIE ErrorIndicationIEs) :=
  [⟨idRICrequestID, .ricRequestID ⟨1, 2⟩⟩, ⟨idCause, .cause⟩]

def sampleError : SctpMsg :=
  ⟨[0], 0, some (.initiatingMessage (.errorIndication sampleErrorIEs)), none, 2, 2, .good⟩

theorem carriesRequest_sampleErrorIEs : CarriesRequest sampleErrorIEs where
  request := ⟨_, List.mem_cons_self, rfl, _, rfl⟩
  cause := ⟨_, List.mem_cons_of_mem _ List.mem_cons_self, rfl, rfl⟩
  noCode := by
    intro ie hie hid
    rcases List.mem_cons.mp hie with rfl | hie
    · exact absurd hid (by decide)
    · rw [List.mem_singleton.mp hie] at hid
      exact absurd hid (by decide)

/-- The error indication comes right after the subscription request. -/
theorem error_reported_iff_subscribed :
    ∃ h w, ListenerRun sampleParams h w ∧
      (Reported (sampleName 1) w (final ((Action.read 0 (some (.msg sampleError))).run w)) ↔
        w.statusOf (sampleName 1) = some .ricSubsProcedureOngoing) ∧
      ∀ before st after c', h = before ++ st :: after →
        (c', .subscription, sampleName 1) ∈ requests st →
        (st.pre.statusOf (sampleName 1)).isSome →
        (∀ st' ∈ after, ¬ Records (sampleName 1) st') →
        Reported (sampleName 1) w (final ((Action.read 0 (some (.msg sampleError))).run w)) := by
  obtain ⟨h, w, r, hw⟩ := sampleRun_of_any
    [.accept sampleRequest, sampleRead 0 (sampleSetup 1),
      sampleRmr .ricSubReq (sampleName 1)]
    (fun p => p.2.nameOf 0 = some (sampleName 1) ∧ (p.2.statusOf (sampleName 1)).isSome ∧
      sampleName 1 ≠ []) (by decide +kernel)
  exact ⟨h, w, r, error_reported_iff r hw.1 hw.2.2 hw.2.1 rfl carriesRequest_sampleErrorIEs⟩

/-- An indication comes between the subscription request and the error indication: the subscription
manager is not told, though the request has no outcome yet. -/
theorem error_unreported_after_indication :
    ¬ ∀ params h w c n m ies before st after c', ListenerRun params h w →
      w.nameOf c = some n → n ≠ [] → (w.statusOf n).isSome →
      m.pdu = some (.initiatingMessage (.errorIndication ies)) → CarriesRequest ies →
      h = before ++ st :: after → (c', .subscription, n) ∈ requests st →
      (∀ st' ∈ after, outcomeOf st'.act = none) →
      Reported n w (final ((Action.read c (some (.msg m))).run w)) := by
  intro hall
  obtain ⟨h, w, r, hw⟩ := sampleRun_of_any
    [.accept sampleRequest, sampleRead 0 (sampleSetup 1),
      sampleRmr .ricSubReq (sampleName 1), sampleRead 0
        (.initiatingMessage (.ricIndication [⟨idRICrequestID, .ricRequestID ⟨1, 2⟩⟩]))]
    (fun p => p.2.nameOf 0 = some (sampleName 1) ∧ sampleName 1 ≠ [] ∧
      p.2.statusOf (sampleName 1) = some .ricIndicationProcedureCompleted ∧
      p.1.map requests = [[], [], [(0, .subscription, sampleName 1)], []] ∧
      (p.1.map fun st => outcomeOf st.act) = [none, none, none, none]) (by decide +kernel)
  obtain ⟨hname, hn, hst, hreq, hout⟩ := hw
  rcases h with _ | ⟨s₀, _ | ⟨s₁, _ | ⟨s₂, _ | ⟨s₃, _ | ⟨s₄, _⟩⟩⟩⟩⟩ <;>
    simp only [List.map_nil, List.map_cons, List.cons.injEq, reduceCtorEq, and_false] at hreq hout
  have hset : (w.statusOf (sampleName 1)).isSome := by
    rw [hst]
    rfl
  have hreported := hall _ _ w 0 _ sampleError sampleErrorIEs [s₀, s₁] s₂ [s₃] 0 r hname hn hset rfl
    carriesRequest_sampleErrorIEs rfl (by rw [hreq.2.2.1]; exact List.mem_singleton_self _)
    (by simpa using hout.2.2.2.1)
  rw [reported_iff hname hn hset rfl carriesRequest_sampleErrorIEs, hst] at hreported
  cases hreported

end E2Term
