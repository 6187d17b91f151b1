import E2Term.Deliveries

/-!
# Requests and their outcomes

A subscription, its deletion and a control request are sent to a node, which answers each with a
successful or an unsuccessful outcome. The status of a procedure in progress is recorded when a
request has been sent, and only then.
-/

namespace E2Term

open CString Effect Runs

/-- The procedures the RIC starts and a node answers. -/
inductive RicProcedure where
  | subscription
  | subscriptionDelete
  | control
  deriving DecidableEq, Repr

namespace RicProcedure

def code : RicProcedure → ProcedureCode
  | subscription => .ricSubscription
  | subscriptionDelete => .ricSubscriptionDelete
  | control => .ricControl

/-- The message that starts the procedure. -/
def request : RicProcedure → MsgType
  | subscription => .ricSubReq
  | subscriptionDelete => .ricSubDelReq
  | control => .ricControlReq

/-- The status of the procedure in progress. -/
def ongoing : RicProcedure → E2TProcedureStates
  | subscription => .ricSubsProcedureOngoing
  | subscriptionDelete => .ricSubsDelProcedureOngoing
  | control => .controlProcedureOngoing

theorem request_injective {p q : RicProcedure} (h : p.request = q.request) : p = q := by
  cases p <;> cases q <;> first | rfl | cases h

/-- The procedure a message starts. -/
def ofRequest : MsgType → Option RicProcedure
  | .ricSubReq => some subscription
  | .ricSubDelReq => some subscriptionDelete
  | .ricControlReq => some control
  | _ => none

@[simp] theorem ofRequest_request (p : RicProcedure) : ofRequest p.request = some p := by
  cases p <;> rfl

theorem request_of_ofRequest {mtype : MsgType} {p : RicProcedure} (h : ofRequest mtype = some p) :
    mtype = p.request := by
  unfold ofRequest at h
  split at h <;> cases h <;> rfl

end RicProcedure

/-! ## Requests that were sent -/

/-- The request an output is: its connection, its procedure, and the node it is for. -/
def Output.request : Output → Option (ConnId × RicProcedure × Name)
  | .sctp peer _ _ mtype enodbName =>
    (RicProcedure.ofRequest mtype).map fun p => (peer, p, enodbName)
  | .rmr _ _ | .rts _ _ => none

/-- The requests that went out in a step. -/
def requests (st : Step World Action) : List (ConnId × RicProcedure × Name) :=
  (st.post.outbox.drop st.pre.outbox.length).filterMap Output.request

theorem requests_of_sent (st : Step World Action) {P : Output → Prop}
    (h : ∃ out, st.post.outbox = st.pre.outbox ++ out ∧ ∀ o ∈ out, P o)
    (hP : ∀ o, P o → o.request = none) : requests st = [] := by
  obtain ⟨out, hout, hall⟩ := h
  unfold requests
  rw [hout, List.drop_left, List.filterMap_eq_nil_iff]
  exact fun o ho => hP o (hall o ho)

section Sending

variable {w w' : World} {m : RmrMsg} {p : RicProcedure} {c : ConnId}

/-- The case of a request. -/
theorem nodeCase_request (hm : m.mtype = p.request) :
    nodeCase m.mtype = some ⟨false, false, .outIniti, .outIniti, p.code,
      some .e2SetupProcedureCompleted, some p.ongoing⟩ := by
  rw [hm]
  cases p <;> rfl

/-- The message finds a connection in `sctpMap`. -/
def RmrMsg.Reaches (m : RmrMsg) (w : World) : Prop :=
  m.state = .ok ∧ (w.sctpMap.lookup m.meid).isSome

/-- A request that is handled finds no connection and leaves all as it is; or it went out and its
procedure is ongoing, or it did not go out and the setup is completed. -/
theorem request_eq_ok (hs : Sane w) (hm : m.mtype = p.request)
    (h : (Action.rmr (some m)).run w = .ok () w') :
    (m.Reaches w ∧
      ((∃ c o, SctpTo m c o ∧ w'.outbox = w.outbox ++ [o] ∧
        w'.statusOf m.meid = (w.statusOf m.meid).map fun _ => p.ongoing) ∨
      (w'.outbox = w.outbox ∧
        w'.statusOf m.meid = (w.statusOf m.meid).map fun _ => .e2SetupProcedureCompleted))) ∨
    (¬ m.Reaches w ∧ w'.outbox = w.outbox ∧ w'.statusOf m.meid = w.statusOf m.meid) := by
  obtain ⟨rc, w₁, hrun, h⟩ := bind_eq_ok.mp h
  cases h
  cases received_of_ok hs.neverConnected (nodeCase_request hm) hrun with
  | refused hno hun =>
    refine .inr ⟨?_, hun.outbox, hun.statusOf _⟩
    rintro ⟨hst, hl⟩
    rcases hno with hno | hno
    · exact hno hst
    · rw [hno] at hl
      cases hl
  | unconverted hdata _ => cases hdata
  | @sent c cu data _ hst hl _ _ _ hun =>
    refine .inl ⟨⟨hst, by rw [hl]; rfl⟩, .inl ⟨c, .sctp c (fetchStreamId cu m.mtype) data m.mtype
      m.meid, ⟨rfl, rfl, rfl⟩, hun.outbox, ?_⟩⟩
    rw [hun.statusOf, NodeCase.sent_statusOf _ _ _ rfl]
  | unsent hst hl _ _ _ hun =>
    refine .inl ⟨⟨hst, by rw [hl]; rfl⟩, .inr ⟨hun.outbox, ?_⟩⟩
    rw [hun.statusOf, NodeCase.begun_statusOf]
    rfl

/-- A request that went out stands in the step's requests. -/
theorem mem_requests {o : Output} (hm : m.mtype = p.request) (ho : SctpTo m c o)
    (hout : w'.outbox = w.outbox ++ [o]) (a : Action) :
    requests ⟨w, a, w'⟩ = [(c, p, m.meid)] := by
  unfold requests
  dsimp only
  rw [hout, List.drop_left]
  cases o with
  | rmr msg sent => exact ho.elim
  | rts mtype payload => exact ho.elim
  | sctp peer streamId payload mtype enodbName =>
    obtain ⟨rfl, rfl, rfl⟩ := ho
    simp [Output.request, hm]

end Sending

/-! ## Outcomes -/

/-- The request id is where the handlers look for it. -/
def hasRequestID (ies : List (ProtocolIE RequestIEs)) : Bool :=
  ies.any fun ie =>
    match ie.value with
    | .ricRequestID _ => ie.id = idRICrequestID
    | .other => false

/-- The procedure a PDU is an outcome of. -/
def E2APPDU.outcome : E2APPDU → Option RicProcedure
  | .successfulOutcome .ricSubscription | .unsuccessfulOutcome .ricSubscription =>
    some .subscription
  | .successfulOutcome .ricSubscriptionDelete | .unsuccessfulOutcome .ricSubscriptionDelete =>
    some .subscriptionDelete
  | .successfulOutcome (.ricControl _) | .unsuccessfulOutcome (.ricControl _) => some .control
  | _ => none

/-- The PDU is a successful outcome, of a control request with the id of the request. -/
def E2APPDU.successful : E2APPDU → Bool
  | .successfulOutcome .ricSubscription | .successfulOutcome .ricSubscriptionDelete => true
  | .successfulOutcome (.ricControl ies) => hasRequestID ies
  | _ => false

/-- The PDU records a status of its node. -/
def E2APPDU.records : E2APPDU → Bool
  | .initiatingMessage (.ricServiceUpdate _) | .initiatingMessage (.ricIndication _) => true
  | pdu => pdu.successful

theorem records_of_successful {pdu : E2APPDU} (h : pdu.successful) : pdu.records := by
  cases pdu with
  | successfulOutcome o => exact h
  | _ => cases h

/-- A PDU that records a status is no setup request. -/
theorem setupIEs_of_records {pdu : E2APPDU} (h : pdu.records) : pdu.setupIEs = none := by
  cases pdu with
  | initiatingMessage i => cases i <;> first | rfl | cases h
  | _ => rfl

theorem uplinkWrites_ne_ongoing {pdu : E2APPDU} {s : E2TProcedureStates} (h : uplinkWrites pdu s)
    (p : RicProcedure) : s ≠ p.ongoing := by
  rintro rfl
  unfold uplinkWrites at h
  split at h <;> cases p <;> simp [RicProcedure.ongoing, noStatus] at h

section Outcomes

variable {message : ReportingMessages} {m : SctpMsg} {pdu : E2APPDU} {w w' : World}

/-- Nothing is done for a PDU of a connection without a name. -/
theorem dispatch_unnamed (message : ReportingMessages) (m : SctpMsg) (w : World)
    (hn : message.enodbName.str = []) (hpdu : pdu.setupIEs = none) :
    dispatch message m pdu w = .ok () w := by
  refine dispatch_of_none message m ?_ hpdu
  rw [hn]
  exact if_pos rfl

section Forward

variable {mtype : MsgType} {count messageSent : M Unit}

/-- Where a request id is found, the message is sent on, and what follows runs last. -/
theorem forwardRequestID_sent {ies : List (ProtocolIE RequestIEs)} (hid : hasRequestID ies)
    (h : forwardRequestID message mtype count messageSent ies w = .ok () w') :
    ∃ w₁, messageSent w₁ = .ok () w' := by
  induction ies with
  | nil => cases hid
  | cons ie rest ih =>
    have hskip (hie : (match ie.value with
        | .ricRequestID _ => decide (ie.id = idRICrequestID)
        | .other => false) = false) : hasRequestID rest := by
      unfold hasRequestID at hid
      rw [List.any_cons, hie, Bool.false_or] at hid
      exact hid
    unfold forwardRequestID at h
    cases hv : ie.value with
    | other =>
      simp only [hv] at h hskip
      exact ih (hskip trivial) h
    | ricRequestID r =>
      simp only [hv] at h hskip
      split at h
      · obtain ⟨_, w₁, -, h⟩ := bind_eq_ok.mp h
        obtain ⟨_, w₂, -, h⟩ := bind_eq_ok.mp h
        obtain ⟨_, w₃, -, h⟩ := bind_eq_ok.mp h
        obtain ⟨_, w₄, -, h⟩ := bind_eq_ok.mp h
        exact ⟨w₄, h⟩
      · rename_i hne
        exact ih (hskip (decide_eq_false hne)) h

theorem forwardRequestID_unsent {ies : List (ProtocolIE RequestIEs)} (hid : ¬ hasRequestID ies) :
    forwardRequestID message mtype count messageSent ies w = .ok () w := by
  induction ies with
  | nil => rfl
  | cons ie rest ih =>
    unfold hasRequestID at hid ih
    rw [List.any_cons, Bool.or_eq_true, not_or] at hid
    unfold forwardRequestID
    cases hv : ie.value with
    | other => exact ih hid.2
    | ricRequestID r =>
      have hne : ¬ ie.id = idRICrequestID := by simpa [hv] using hid.1
      dsimp only
      rw [if_neg hne]
      exact ih hid.2

end Forward

theorem statusOf_after_set {n : Name} {s : E2TProcedureStates}
    (h : setE2ProcedureOngoingStatus n s w = .ok () w') (hsome : (w'.statusOf n).isSome) :
    w'.statusOf n = some s := by
  cases h
  have hst := statusOf_setStatus w n s
  obtain ⟨t, ht⟩ := Option.isSome_iff_exists.mp hsome
  rw [ht] at hst
  rw [ht, hst]
  cases hw : w.statusOf n with
  | none =>
    rw [hw] at hst
    cases hst
  | some u => rfl

/-- A case passes the gate for a node that has a status. -/
theorem gate_passed (hn : message.enodbName.str ≠ [])
    (hst : (w.statusOf message.enodbName.str).isSome) {k : E2NodeConnectionHandling → M Unit}
    (h : ifE2SetupRequestReceived message.enodbName.str k w = .ok () w') :
    ∃ handling, k handling w = .ok () w' := by
  obtain ⟨_, hst⟩ := Option.isSome_iff_exists.mp hst
  obtain ⟨handling, hl, -⟩ := Option.map_eq_some_iff.mp hst
  have hgate : E2NodeMap.getE2tProcedureOngoingStatus w.connectionHandlingPerE2NodeMap
      message.enodbName.str = some handling := by
    unfold E2NodeMap.getE2tProcedureOngoingStatus
    rw [if_neg hn, hl]
  rw [gate_of_some hgate] at h
  exact ⟨handling, h⟩

/-- A PDU leaves a node with a status one. -/
theorem isSome_statusOf_dispatch {cu : ConnectedCU} (hc : w.heap.get message.peerInfo = some cu)
    (hies : pdu.setupIEs = none) (h : dispatch message m pdu w = .ok () w') {n : Name}
    (hst : (w.statusOf n).isSome) : (w'.statusOf n).isSome := by
  have hk := keeps_dispatch message hc m hies w (.refl w)
  rw [h] at hk
  have hlookup := hk.state.isSome_lookup n
  unfold World.statusOf at hst ⊢
  rw [Option.isSome_map] at hst ⊢
  exact hlookup.trans hst

/-- A node with a status, whose PDU records one, has one of those the PDU records. -/
theorem dispatch_records (hn : message.enodbName.str ≠ []) {cu : ConnectedCU}
    (hc : w.heap.get message.peerInfo = some cu) (hrec : pdu.records)
    (hst : (w.statusOf message.enodbName.str).isSome)
    (h : dispatch message m pdu w = .ok () w') :
    ∃ s, uplinkWrites pdu s ∧ w'.statusOf message.enodbName.str = some s := by
  have hst' := isSome_statusOf_dispatch hc (setupIEs_of_records hrec) h hst
  -- behind the gate, the last thing the case does is to record a status
  have hlast {s : E2TProcedureStates} {w₁ : World}
      (hset : setE2ProcedureOngoingStatus message.enodbName.str s w₁ = .ok () w')
      (hs : uplinkWrites pdu s) :
      ∃ s, uplinkWrites pdu s ∧ w'.statusOf message.enodbName.str = some s :=
    ⟨s, hs, statusOf_after_set hset hst'⟩
  cases pdu with
  | nothing => cases hrec
  | unsuccessfulOutcome o => cases hrec
  | initiatingMessage i =>
    cases i with
    | ricServiceUpdate ies =>
      obtain ⟨_, h⟩ := gate_passed hn hst h
      obtain ⟨_, w₁, -, h⟩ := bind_eq_ok.mp h
      obtain ⟨_, w₂, -, h⟩ := bind_eq_ok.mp h
      obtain ⟨_, w₃, -, h⟩ := bind_eq_ok.mp h
      exact hlast h (.inr rfl)
    | ricIndication ies =>
      obtain ⟨_, h⟩ := gate_passed hn hst h
      obtain ⟨_, w₁, hset, h⟩ := bind_eq_ok.mp h
      by_cases hid : hasRequestID ies
      · obtain ⟨w₂, h⟩ := forwardRequestID_sent hid h
        exact hlast h (.inr rfl)
      · rw [forwardRequestID_unsent hid] at h
        cases h
        exact hlast hset (.inl rfl)
    | _ => cases hrec
  | successfulOutcome o =>
    cases o with
    | ricSubscription =>
      obtain ⟨_, h⟩ := gate_passed hn hst h
      obtain ⟨_, w₁, -, h⟩ := bind_eq_ok.mp h
      obtain ⟨_, w₂, -, h⟩ := bind_eq_ok.mp h
      exact hlast h rfl
    | ricSubscriptionDelete =>
      obtain ⟨_, h⟩ := gate_passed hn hst h
      obtain ⟨_, w₁, -, h⟩ := bind_eq_ok.mp h
      obtain ⟨_, w₂, -, h⟩ := bind_eq_ok.mp h
      obtain ⟨_, w₃, -, h⟩ := bind_eq_ok.mp h
      exact hlast h (.inr rfl)
    | ricControl ies =>
      obtain ⟨_, h⟩ := gate_passed hn hst h
      obtain ⟨w₁, h⟩ := forwardRequestID_sent hrec h
      exact hlast h rfl
    | _ => cases hrec

/-- A node with a status, whose outcome is successful, has a status that is no ongoing request's. -/
theorem dispatch_successful (hn : message.enodbName.str ≠ []) {cu : ConnectedCU}
    (hc : w.heap.get message.peerInfo = some cu) (hsucc : pdu.successful)
    (hst : (w.statusOf message.enodbName.str).isSome)
    (h : dispatch message m pdu w = .ok () w') (p : RicProcedure) :
    w'.statusOf message.enodbName.str ≠ some p.ongoing := by
  obtain ⟨s, hs, hst'⟩ := dispatch_records hn hc (records_of_successful hsucc) hst h
  rw [hst', ne_eq, Option.some.injEq]
  exact uplinkWrites_ne_ongoing hs p

/-- A PDU that records no status leaves them. -/
theorem dispatch_silent {cu : ConnectedCU} (hc : w.heap.get message.peerInfo = some cu)
    (hies : pdu.setupIEs = none) (hrec : ¬ pdu.records)
    (h : dispatch message m pdu w = .ok () w') (n : Name) : w'.statusOf n = w.statusOf n := by
  -- most cases touch no status, and a control acknowledge without its request id nothing
  have hnone (hw : uplinkWrites pdu = noStatus) : w'.statusOf n = w.statusOf n := by
    have hk := keeps_dispatch message hc m hies w (.refl w)
    rw [h, hw] at hk
    have ht : Touches _ noStatus _ w w' := hk.state
    exact ht.statusOf_eq n
  cases pdu with
  | nothing => exact hnone rfl
  | unsuccessfulOutcome o => exact hnone rfl
  | initiatingMessage i =>
    cases i with
    | e2setup ies => cases hies
    | ricServiceUpdate ies | ricIndication ies => exact (hrec rfl).elim
    | _ => exact hnone rfl
  | successfulOutcome o =>
    cases o with
    | ricSubscription | ricSubscriptionDelete => exact (hrec rfl).elim
    | ricControl ies =>
      have hsame : w' = w := by
        change ifE2SetupRequestReceived _ _ w = _ at h
        cases hl : E2NodeMap.getE2tProcedureOngoingStatus w.connectionHandlingPerE2NodeMap
            message.enodbName.str with
        | none =>
          rw [gate_of_none hl] at h
          cases h
          rfl
        | some handling =>
          rw [gate_of_some hl, forwardRequestID_unsent hrec] at h
          cases h
          rfl
      rw [hsame]
    | _ => exact hnone rfl

end Outcomes

/-- Of the outcomes, the successful ones record a status. -/
theorem records_iff_successful {pdu : E2APPDU} {p : RicProcedure} (h : pdu.outcome = some p) :
    pdu.records = pdu.successful := by
  cases pdu with
  | initiatingMessage i => cases h
  | _ => rfl

/-! ## Actions -/

/-- The outcome an action receives: its connection, its procedure, and whether it is successful. -/
def outcomeOf : Action → Option (ConnId × RicProcedure × Bool)
  | .read c (some (.msg m)) => do
    let pdu ← m.pdu
    let p ← pdu.outcome
    return (c, p, pdu.successful)
  | _ => none

section Actions

variable {w w' : World} {a : Action} {c : ConnId} {p : RicProcedure} {n : Name}

theorem outcomeOf_eq_some {b : Bool} (h : outcomeOf a = some (c, p, b)) :
    ∃ m pdu, a = .read c (some (.msg m)) ∧ m.pdu = some pdu ∧ pdu.outcome = some p ∧
      pdu.successful = b := by
  unfold outcomeOf at h
  split at h
  · simp only [Option.bind_eq_bind, Option.bind_eq_some_iff] at h
    obtain ⟨pdu, hpdu, p, hp, h⟩ := h
    cases h
    exact ⟨_, pdu, rfl, hpdu, hp, rfl⟩
  · cases h

/-- What goes out on an association is a message of the RIC, for the node its MEID names. -/
theorem Does.of_sctp_sent (hd : Does w a w') {streamId : Int} {payload : List UInt8}
    {mtype : MsgType}
    (h : .sctp c streamId payload mtype n ∈ w'.outbox.drop w.outbox.length) :
    ∃ m, a = .rmr (some m) ∧ m.mtype = mtype ∧ m.meid = n := by
  have hnone {P : Output → Prop} (hsent : ∃ out, w'.outbox = w.outbox ++ out ∧ ∀ o ∈ out, P o)
      (hP : ¬ P (.sctp c streamId payload mtype n)) : False := hP (mem_sent hsent _ h)
  have hsame (hout : w'.outbox = w.outbox) : False :=
    hnone (P := fun _ => False) ⟨[], by simp [hout], by simp⟩ id
  cases hd with
  | accepted _ | refused _ | nothing => exact (hsame rfl).elim
  | setup _ _ _ _ hset => exact (hnone hset.sent fun ho => ho.2).elim
  | served _ _ _ ht => exact (hnone ht.sent fun ho => ho.2).elim
  | idle _ _ ht => exact (hsame ht.outbox_eq).elim
  | closed _ _ hcl | failed _ hcl => exact (hnone hcl.sent fun ho => ho).elim
  | cleared _ hcl => exact (hnone hcl.sent fun ⟨_, ho⟩ => ho).elim
  | @delivered m _ _ ht =>
    obtain ⟨hmtype, hmeid⟩ : mtype = m.mtype ∧ n = m.meid := mem_sent ht.sent _ h
    exact ⟨m, rfl, hmtype.symm, hmeid.symm⟩

/-- A request goes out for a message of its type, to the node its MEID names. -/
theorem Does.of_mem_requests (hd : Does w a w') (h : (c, p, n) ∈ requests ⟨w, a, w'⟩) :
    ∃ m, a = .rmr (some m) ∧ m.mtype = p.request ∧ m.meid = n := by
  obtain ⟨o, ho, hreq⟩ := List.mem_filterMap.mp h
  cases o with
  | rmr msg sent => cases hreq
  | rts mtype payload => cases hreq
  | sctp peer streamId payload mtype enodbName =>
    obtain ⟨q, hq, heq⟩ := Option.map_eq_some_iff.mp hreq
    cases heq
    obtain ⟨m, rfl, hmtype, hmeid⟩ := hd.of_sctp_sent ho
    exact ⟨m, rfl, hmtype.trans (RicProcedure.request_of_ofRequest hq), hmeid⟩

/-- A request that went out left its procedure in progress, where the node has an entry. -/
theorem statusOf_of_mem_requests (hs : Sane w) (hrun : a.run w = .ok () w')
    (h : (c, p, n) ∈ requests ⟨w, a, w'⟩) :
    w'.statusOf n = (w.statusOf n).map fun _ => p.ongoing := by
  obtain ⟨m, rfl, hmtype, rfl⟩ := (hs.does hrun).of_mem_requests h
  have hsent : w'.outbox ≠ w.outbox := by
    intro hout
    have hnil : requests ⟨w, .rmr (some m), w'⟩ = [] :=
      requests_of_sent ⟨w, .rmr (some m), w'⟩ (P := fun _ => False)
        ⟨[], by simp [hout], by simp⟩ fun _ hf => hf.elim
    rw [hnil] at h
    cases h
  rcases request_eq_ok hs hmtype hrun with ⟨-, ⟨_, _, _, _, hst⟩ | ⟨hout, -⟩⟩ | ⟨-, hout, -⟩
  · exact hst
  · exact (hsent hout).elim
  · exact (hsent hout).elim

theorem request_of_downlinkWrites {mtype : MsgType} (h : downlinkWrites mtype p.ongoing) :
    mtype = p.request := by
  unfold downlinkWrites at h
  split at h <;> cases p <;> simp_all [RicProcedure.ongoing, RicProcedure.request, noStatus]

/-- A procedure becomes ongoing when its request goes out, and in no other way. -/
theorem ongoing_of_run (hs : Sane w) (hrun : a.run w = .ok () w')
    (h : w'.statusOf n = some p.ongoing) :
    w.statusOf n = some p.ongoing ∨ ∃ c, (c, p, n) ∈ requests ⟨w, a, w'⟩ := by
  cases hs.does hrun with
  | accepted _ | refused _ | nothing => exact .inl h
  | @setup c _ _ _ _ s _ _ _ _ _ hset =>
    unfold World.statusOf at h
    rw [hset.procedures] at h
    split at h
    · rw [E2NodeMap.lookup_insertE2SetupProcedureOngoing] at h
      split at h
      · cases p <;> cases h
      · exact .inl h
    · exact .inl h
  | @served c m pdu cu _ _ _ _ ht =>
    by_cases hn : n = cu.enodbName.str
    · rcases ht.status with hsame | ⟨s, hw, hst⟩
      · rw [hn, hsame] at h
        exact .inl (hn ▸ h)
      · rw [hn, hst] at h
        exact (uplinkWrites_ne_ongoing hw p (Option.some.inj h)).elim
    · rw [ht.statusOf_ne hn] at h
      exact .inl h
  | idle _ _ ht =>
    rw [ht.statusOf_eq] at h
    exact .inl h
  | closed _ _ hcl | failed _ hcl =>
    unfold World.statusOf at h
    rw [hcl.procedures] at h
    split at h
    · cases h
    · exact .inl h
  | cleared _ hcl =>
    unfold World.statusOf at h
    rw [hcl.procedures] at h
    exact .inl h
  | @delivered m _ hm ht =>
    by_cases hn : n = m.meid
    · subst hn
      rcases ht.status with hsame | ⟨s, hw, hst⟩
      · rw [hsame] at h
        exact .inl h
      · rw [hst] at h
        cases h
        have hreq := request_of_downlinkWrites hw
        rcases request_eq_ok hs hreq hrun with
          ⟨-, ⟨c, o, ho, hout, -⟩ | ⟨-, hcompleted⟩⟩ | ⟨-, -, hsame⟩
        · refine .inr ⟨c, ?_⟩
          rw [mem_requests hreq ho hout]
          exact List.mem_singleton_self _
        · rw [hst] at hcompleted
          cases hw₀ : w.statusOf m.meid <;> rw [hw₀] at hcompleted <;> cases p <;>
            cases hcompleted
        · rw [← hsame]
          exact .inl hst
    · rw [ht.statusOf_ne hn] at h
      exact .inl h

/-- An outcome leaves an ongoing procedure of a node ongoing, unless it is successful and its
connection has the node's name. -/
theorem outcome_keeps_iff (hrun : a.run w = .ok () w') {b : Bool}
    (hout : outcomeOf a = some (c, p, b)) {q : RicProcedure} (hst : w.statusOf n = some q.ongoing) :
    w'.statusOf n = some q.ongoing ↔ ¬ (b = true ∧ n ≠ [] ∧ w.nameOf c = some n) := by
  obtain ⟨m, pdu, rfl, hpdu, hp, rfl⟩ := outcomeOf_eq_some hout
  change readAction c (some (.msg m)) w = .ok () w' at hrun
  cases hc : w.heap.get c with
  | none =>
    rw [readAction_freed hc] at hrun
    cases hrun
  | some cu =>
    have hies : pdu.setupIEs = none := by
      cases pdu with
      | initiatingMessage i => cases hp
      | _ => rfl
    obtain ⟨w₁, ht, heq⟩ := readAction_pdu hc hpdu
    rw [heq] at hrun
    have hc₁ : w₁.heap.get c = some cu := by rw [ht.heap, hc]
    have hst₁ : w₁.statusOf n = some q.ongoing := by rw [ht.statusOf_eq, hst]
    have hname : w.nameOf c = some n ↔ n = cu.enodbName.str := by
      rw [nameOf_of_get hc, Option.some.injEq, eq_comm]
    rw [hname]
    have hkept (hsame : w'.statusOf n = w₁.statusOf n)
        (hno : ¬ (pdu.successful = true ∧ n ≠ [] ∧ n = cu.enodbName.str)) :
        w'.statusOf n = some q.ongoing ↔
          ¬ (pdu.successful = true ∧ n ≠ [] ∧ n = cu.enodbName.str) :=
      iff_of_true (hsame.trans hst₁) hno
    by_cases hn : n = cu.enodbName.str
    · subst hn
      by_cases hnil : cu.enodbName.str = []
      · have hnothing := dispatch_unnamed ⟨cu.enodbName, c, m.payload.length⟩ m w₁ hnil
          hies
        rw [hnothing] at hrun
        cases hrun
        exact hkept rfl fun h => h.2.1 hnil
      · by_cases hsucc : pdu.successful = true
        · have hsome : (w₁.statusOf cu.enodbName.str).isSome := by
            rw [hst₁]
            rfl
          exact iff_of_false (dispatch_successful hnil hc₁ hsucc hsome hrun q)
            fun h => h ⟨hsucc, hnil, rfl⟩
        · exact hkept (dispatch_silent hc₁ hies (records_iff_successful hp ▸ hsucc) hrun _)
            fun h => hsucc h.1
    · have hk := keeps_dispatch ⟨cu.enodbName, c, m.payload.length⟩ hc₁ m hies w₁ (.refl w₁)
      rw [hrun] at hk
      exact hkept (hk.state.statusOf_ne hn) fun h => hn h.2.2

end Actions

end E2Term
