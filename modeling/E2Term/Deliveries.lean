import E2Term.Invariants

/-!
# Messages delivered to a node

A message for a node that is handled to its end is refused, has a payload that cannot be converted,
goes out, or its send fails. What each of these leaves behind is read off its case, and so is what
the return value tells of it.
-/

namespace E2Term

open CString Effect Runs

/-! ## Counting -/

section Count

variable {w : World} {c : ConnId} {cu : ConnectedCU}

/-- Nothing but counters changed. -/
def Recounted (w w' : World) : Prop := ∃ registry, w' = { w with registry := registry }

theorem counts_recounted (hc : w.heap.get c = some cu) : Counts (Recounted w) c (some cu) where
  registry := by
    rintro _ r ⟨_, rfl⟩
    exact ⟨r, rfl⟩
  peer := by
    rintro _ ⟨_, rfl⟩
    exact hc

/-- A message is counted as long as its four slots are there. -/
theorem keeps_countMessage {I : World → Prop} (hI : Counts I c (some cu)) {d e : Direction}
    {p : ProcedureCode} (hslots : ∀ kind, (cu.counters d kind p).isSome)
    (he : ∀ kind, (e2tCounters e kind p).isSome) (len : Nat) :
    Keeps (fun _ => False) I (countMessage c d e p len) := by
  refine hI.deref (fun h => Option.some_ne_none _ h) fun cu' h => ?_
  cases h
  refine (hI.increment 1 (.inl (hslots .msgCounter))).bind fun _ => ?_
  refine hI.deref (fun h => Option.some_ne_none _ h) fun cu' h => ?_
  cases h
  refine (hI.increment len (.inl (hslots .bytesCounter))).bind fun _ => ?_
  refine (hI.increment 1 (.inl (he .msgCounter))).bind fun _ => ?_
  exact hI.increment len (.inl (he .bytesCounter))

theorem keeps_countSetup {I : World → Prop} (hI : Counts I c (some cu)) (d : Direction)
    (len : Nat) :
    Keeps (fun _ => False) I (countSetupOutcome c d len) := by
  have hlive : some cu = none → False := fun h => Option.some_ne_none _ h
  refine hI.deref hlive fun _ _ => (hI.incrementIfSet _ _).bind fun _ => ?_
  refine hI.deref hlive fun _ _ => (hI.incrementIfSet _ _).bind fun _ => ?_
  exact (hI.incrementIfSet _ _).bind fun _ => hI.incrementIfSet _ _

/-- Without one of its slots a message is not counted. -/
theorem countMessage_fails (hc : w.heap.get c = some cu) {d e : Direction} {p : ProcedureCode}
    (hslots : ¬ ∀ kind, (cu.counters d kind p).isSome) (len : Nat) :
    ∃ w', countMessage c d e p len w = .error .nullCounter w' := by
  unfold countMessage
  rw [bind_of_ok (deref_of_get hc)]
  cases hmsg : cu.counters d .msgCounter p with
  | none => exact ⟨w, rfl⟩
  | some l =>
    let w₁ : World :=
      { w with registry := fun k => if k = l then w.registry k + 1 else w.registry k }
    have hc₁ : w₁.heap.get c = some cu := hc
    rw [bind_of_ok (rfl : increment (some l) 1 w = .ok () w₁), bind_of_ok (deref_of_get hc₁)]
    cases hbytes : cu.counters d .bytesCounter p with
    | none => exact ⟨_, rfl⟩
    | some l' =>
      refine (hslots fun kind => ?_).elim
      cases kind
      · rw [hmsg]
        rfl
      · rw [hbytes]
        rfl

variable {m : RmrMsg} {k : NodeCase}

/-- A message is counted when its connection has the slots for it. -/
theorem NodeCase.count_ok (hk : nodeCase m.mtype = some k) (hc : w.heap.get c = some cu)
    (hready : k.Ready cu) (len : Nat) :
    ∃ registry, k.count c len w = .ok () { w with registry := registry } := by
  have hI := counts_recounted hc
  have hcount : Keeps (fun _ => False) (Recounted w) (k.count c len) := by
    unfold NodeCase.count
    cases hg : k.guarded with
    | true => exact keeps_countSetup hI _ _
    | false =>
      have hno : ¬ k.guarded = true := by
        rw [hg]
        exact Bool.false_ne_true
      exact keeps_countMessage hI (hready.resolve_left hno)
        (fun kind => (e2tCounters_isSome hk kind).resolve_left hno) _
  obtain ⟨_, _, hrun, registry, rfl⟩ := hcount.returns ⟨w.registry, rfl⟩
  exact ⟨registry, hrun⟩

theorem NodeCase.count_fails (hc : w.heap.get c = some cu) (hready : ¬ k.Ready cu) (len : Nat) :
    ∃ w', k.count c len w = .error .nullCounter w' := by
  obtain ⟨hguarded, hslots⟩ := not_or.mp hready
  unfold NodeCase.count
  rw [if_neg hguarded]
  exact countMessage_fails hc hslots len

theorem NodeCase.count_freed (k : NodeCase) (hc : w.heap.get c = none) (len : Nat) :
    k.count c len w = .error .useAfterFree w := by
  unfold NodeCase.count
  split
  · unfold countSetupOutcome
    rw [bind_of_error (deref_of_freed hc)]
  · unfold countMessage
    rw [bind_of_error (deref_of_freed hc)]

end Count

/-! ## Handling -/

section Handle

variable {w : World} {c : ConnId} {cu : ConnectedCU} {m : RmrMsg} {k : NodeCase}

/-- The state after the first status is recorded. -/
def NodeCase.begun (k : NodeCase) (m : RmrMsg) (w : World) : World :=
  { w with
    connectionHandlingPerE2NodeMap := recorded m.meid w.connectionHandlingPerE2NodeMap k.before }

/-- The state after a message was sent on the connection `cu` at `c`. -/
def NodeCase.sent (k : NodeCase) (m : RmrMsg) (c : ConnId) (cu : ConnectedCU) (data : List UInt8)
    (w : World) : World :=
  { k.begun m w with
    connectionHandlingPerE2NodeMap :=
      recorded m.meid (k.begun m w).connectionHandlingPerE2NodeMap k.after
    outbox := w.outbox ++ [.sctp c (fetchStreamId cu m.mtype) data m.mtype m.meid] }

/-- The two differ in counters and answers at most. -/
def Unmetered (w w' : World) : Prop :=
  ∃ registry answers, w' = { w with registry := registry, answers := answers }

/-- A payload that cannot be converted ends the case with 0. -/
theorem NodeCase.handle_unconverted (hdata : k.data m = none) (c : ConnId) (w : World) :
    k.handle c m w = .ok 0 (k.begun m w) := by
  unfold NodeCase.handle
  rw [bind_of_ok (record_eq _ _ _), hdata]
  rfl

theorem NodeCase.handle_eq {data : List UInt8} (hdata : k.data m = some data) (c : ConnId)
    (w : World) : k.handle c m w =
      countAndSend c m (k.count c) (record m.meid k.after) data (k.begun m w) := by
  unfold NodeCase.handle
  rw [bind_of_ok (record_eq _ _ _), hdata]
  rfl

/-- A message for a connection that is freed or lacks a slot is not handled to its end. -/
theorem NodeCase.handle_fails {data : List UInt8} (hdata : k.data m = some data)
    (hlive : ∀ cu, w.heap.get c = some cu → ¬ k.Ready cu) :
    ∃ e w', k.handle c m w = .error e w' := by
  rw [NodeCase.handle_eq hdata]
  unfold countAndSend
  cases hc : w.heap.get c with
  | none => exact ⟨_, _, bind_of_error (k.count_freed (w := k.begun m w) hc _)⟩
  | some cu =>
    obtain ⟨w', hcount⟩ :=
      NodeCase.count_fails (w := k.begun m w) hc (hlive cu hc) data.length
    exact ⟨_, w', bind_of_error hcount⟩

/-- A message for a live connection with its slots goes out, or its send fails. -/
theorem NodeCase.handle_ok (hk : nodeCase m.mtype = some k) {data : List UInt8}
    (hdata : k.data m = some data) (hc : w.heap.get c = some cu) (hcon : cu.isConnected = false)
    (hready : k.Ready cu) :
    ∃ w', k.handle c m w = .ok 0 w' ∧ Unmetered (k.sent m c cu data w) w' ∨
      k.handle c m w = .ok (-6) w' ∧ Unmetered (k.begun m w) w' := by
  rw [NodeCase.handle_eq hdata]
  unfold countAndSend
  obtain ⟨registry, hcount⟩ :=
    NodeCase.count_ok (w := k.begun m w) hk hc hready data.length
  obtain ⟨answers, hsend | hsend⟩ := sendSctpMsg_eq
    (w := { k.begun m w with registry := registry }) hc hcon m.meid m.mtype data
  · refine ⟨_, .inl ⟨?_, registry, answers, rfl⟩⟩
    rw [bind_of_ok hcount]
    unfold sendDirectionalSctpMsg
    rw [bind_of_ok hsend, if_neg (by decide), bind_of_ok (record_eq _ _ _)]
    rfl
  · refine ⟨_, .inr ⟨?_, registry, answers, rfl⟩⟩
    rw [bind_of_ok hcount]
    unfold sendDirectionalSctpMsg
    rw [bind_of_ok hsend, if_pos (by decide)]
    rfl

end Handle

/-! ## Receiving -/

section Receive

variable {params : SctpParams} {h : List (Step World Action)} {w w' : World} {c : ConnId}
  {cu : ConnectedCU} {m : RmrMsg} {k : NodeCase}

theorem not_forTerminator (hk : nodeCase m.mtype = some k) : ¬ m.ForTerminator := by
  rintro (hm | hm | hm) <;> rw [hm] at hk <;> cases hk

/-- A message that is damaged or finds no entry is refused. -/
theorem receive_refused (hk : nodeCase m.mtype = some k)
    (hno : m.state ≠ .ok ∨ w.sctpMap.lookup m.meid = none) :
    receiveXappMessages (some m) w = .ok (-1) { w with answers := m.answers } := by
  rw [receiveXappMessages_eq (not_forTerminator hk)]
  rcases hno with hst | hl
  · rw [if_neg hst]
  · split
    · exact deliver_none (w := { w with answers := m.answers }) hl
    · rfl

theorem receive_handled (hk : nodeCase m.mtype = some k) (hst : m.state = .ok)
    (hl : w.sctpMap.lookup m.meid = some c) :
    receiveXappMessages (some m) w = k.handle c m { w with answers := m.answers } := by
  rw [receiveXappMessages_eq (not_forTerminator hk), if_pos hst,
    deliver_some (w := { w with answers := m.answers }) hl, sendToNode_eq hk]

/-- What a message for a node can do that is handled to its end. -/
inductive Received (k : NodeCase) (m : RmrMsg) (w : World) : Int → World → Prop where
  | refused {w' : World} : m.state ≠ .ok ∨ w.sctpMap.lookup m.meid = none → Unmetered w w' →
      Received k m w (-1) w'
  | unconverted {w' : World} : k.data m = none → Unmetered (k.begun m w) w' → Received k m w 0 w'
  | sent {c : ConnId} {cu : ConnectedCU} {data : List UInt8} {w' : World} :
      m.state = .ok → w.sctpMap.lookup m.meid = some c → w.heap.get c = some cu →
      k.data m = some data → k.Ready cu → Unmetered (k.sent m c cu data w) w' →
      Received k m w 0 w'
  | unsent {c : ConnId} {cu : ConnectedCU} {data : List UInt8} {w' : World} :
      m.state = .ok → w.sctpMap.lookup m.meid = some c → w.heap.get c = some cu →
      k.data m = some data → k.Ready cu → Unmetered (k.begun m w) w' → Received k m w (-6) w'

theorem Unmetered.of_answers {w₁ : World} {answers : Answers}
    (h : Unmetered { w₁ with answers := answers } w') : Unmetered w₁ w' := by
  obtain ⟨registry, answers', rfl⟩ := h
  exact ⟨registry, answers', rfl⟩

theorem received_of_ok (hnc : NeverConnected w) (hk : nodeCase m.mtype = some k) {rc : Int}
    (h : receiveXappMessages (some m) w = .ok rc w') : Received k m w rc w' := by
  by_cases hno : m.state ≠ .ok ∨ w.sctpMap.lookup m.meid = none
  · rw [receive_refused hk hno] at h
    cases h
    exact .refused hno ⟨w.registry, m.answers, rfl⟩
  · push Not at hno
    obtain ⟨hst, hl⟩ := hno
    obtain ⟨c, hl⟩ := Option.ne_none_iff_exists'.mp hl
    rw [receive_handled hk hst hl] at h
    cases hdata : k.data m with
    | none =>
      rw [NodeCase.handle_unconverted hdata] at h
      cases h
      exact .unconverted hdata ⟨w.registry, m.answers, rfl⟩
    | some data =>
      by_cases hready : ∃ cu, w.heap.get c = some cu ∧ k.Ready cu
      · obtain ⟨cu, hc, hr⟩ := hready
        obtain ⟨w'', ⟨hrun, hun⟩ | ⟨hrun, hun⟩⟩ :=
          NodeCase.handle_ok (w := { w with answers := m.answers }) hk hdata hc (hnc c cu hc) hr
        · rw [hrun] at h
          cases h
          exact .sent hst hl hc hdata hr (Unmetered.of_answers hun)
        · rw [hrun] at h
          cases h
          exact .unsent hst hl hc hdata hr (Unmetered.of_answers hun)
      · have hlive : ∀ cu, w.heap.get c = some cu → ¬ k.Ready cu :=
          fun cu hc hr => hready ⟨cu, hc, hr⟩
        obtain ⟨e, w'', hrun⟩ :=
          NodeCase.handle_fails (w := { w with answers := m.answers }) hdata hlive
        rw [hrun] at h
        cases h

theorem Unmetered.outbox {w₁ : World} (h : Unmetered w₁ w') : w'.outbox = w₁.outbox := by
  obtain ⟨registry, answers, rfl⟩ := h
  rfl

theorem Unmetered.statusOf {w₁ : World} (h : Unmetered w₁ w') (n : Name) :
    w'.statusOf n = w₁.statusOf n := by
  obtain ⟨registry, answers, rfl⟩ := h
  rfl

/-- The status of the node before the message is sent. -/
theorem NodeCase.begun_statusOf (k : NodeCase) (m : RmrMsg) (w : World) :
    (k.begun m w).statusOf m.meid = (w.statusOf m.meid).map fun s => k.before.getD s := by
  unfold NodeCase.begun
  cases k.before with
  | none => exact Option.map_id'.symm
  | some s => exact statusOf_setStatus w m.meid s

/-- The status behind that. -/
theorem NodeCase.sent_statusOf (k : NodeCase) (m : RmrMsg) (w : World) {data : List UInt8}
    {s : E2TProcedureStates} (hafter : k.after = some s) :
    (k.sent m c cu data w).statusOf m.meid = (w.statusOf m.meid).map fun _ => s := by
  have hset := statusOf_setStatus (k.begun m w) m.meid s
  rw [k.begun_statusOf, Option.map_map] at hset
  unfold NodeCase.sent
  rw [hafter]
  exact hset

/-- A message to a node is sent by one of the cases, on a live connection with the slots for it. -/
theorem sctp_of_receive (hnc : NeverConnected w) (hclear : ¬ m.clears) {rc : Int}
    (h : receiveXappMessages (some m) w = .ok rc w') {id : Int} {data : List UInt8}
    {mtype : MsgType} {n : Name} (ho : .sctp c id data mtype n ∈ w'.outbox.drop w.outbox.length) :
    ∃ cu k, nodeCase mtype = some k ∧ w.heap.get c = some cu ∧ k.Ready cu ∧
      id = fetchStreamId cu mtype := by
  have hnone {v : World} (hv : v.outbox = w.outbox) (hun : Unmetered v w') : False :=
    nothing_sent (P := fun _ => False) (hun.outbox.trans hv) _ ho
  by_cases hterm : m.ForTerminator
  · exact (mem_sent (terminator_touches hterm hclear h []).sent _ ho).elim
  · cases hk : nodeCase m.mtype with
    | none =>
      have hquiet : w'.outbox = w.outbox := by
        rw [receiveXappMessages_eq hterm] at h
        split at h
        · cases hl : w.sctpMap.lookup m.meid with
          | none =>
            rw [deliver_none (w := { w with answers := m.answers }) hl] at h
            cases h
            rfl
          | some c =>
            rw [deliver_some (w := { w with answers := m.answers }) hl, sendToNode_unlisted hk] at h
            cases h
            rfl
        · cases h
          rfl
      exact (nothing_sent (P := fun _ => False) hquiet _ ho).elim
    | some k =>
      cases received_of_ok hnc hk h with
      | refused _ hun => exact (hnone rfl hun).elim
      | unconverted _ hun | unsent _ _ _ _ _ hun => exact (hnone (v := k.begun m w) rfl hun).elim
      | sent _ _ hc _ hready hun =>
        rw [drop_outbox hun.outbox] at ho
        cases List.mem_singleton.mp ho
        exact ⟨_, k, hk, hc, hready, rfl⟩

/-! ## What the return value tells -/

/-- Exactly one message went out: the payload for the node, on the connection registered under the
MEID. -/
def Delivered (k : NodeCase) (m : RmrMsg) (w w' : World) : Prop :=
  ∃ c data id, w.sctpMap.lookup m.meid = some c ∧ k.data m = some data ∧
    w'.outbox = w.outbox ++ [.sctp c id data m.mtype m.meid]

/-- The message is handled to its end; the value is 0 exactly when it was delivered, and otherwise
negative. -/
def TellsDelivery (k : NodeCase) (m : RmrMsg) (w : World) : Prop :=
  ∃ rc w', receiveXappMessages (some m) w = .ok rc w' ∧ (rc = 0 ↔ Delivered k m w w') ∧
    (rc ≠ 0 → rc < 0)

theorem not_delivered (hout : w'.outbox = w.outbox) : ¬ Delivered k m w w' := by
  rintro ⟨c, data, id, -, -, hone⟩
  rw [hout, List.self_eq_append_right] at hone
  cases hone

/-- The message is refused, or it has a payload for a live connection that has the slots to count
it. -/
def RefusedOrReady (k : NodeCase) (m : RmrMsg) (w : World) : Prop :=
  m.state ≠ .ok ∨ w.sctpMap.lookup m.meid = none ∨
    ∃ c cu, w.sctpMap.lookup m.meid = some c ∧ w.heap.get c = some cu ∧ (k.data m).isSome ∧
      k.Ready cu

theorem tellsDelivery_of_neverConnected (hnc : NeverConnected w) (hk : nodeCase m.mtype = some k) :
    TellsDelivery k m w ↔ RefusedOrReady k m w := by
  constructor
  · rintro ⟨rc, w', hrun, hiff, -⟩
    cases received_of_ok hnc hk hrun with
    | refused hno _ => exact hno.imp_right .inl
    | unconverted hdata _ =>
      obtain ⟨c, data, id, -, hsome, -⟩ := hiff.mp rfl
      rw [hdata] at hsome
      cases hsome
    | @sent c cu data _ _ hl hc hdata hready _ | @unsent c cu data _ _ hl hc hdata hready _ =>
      exact .inr (.inr ⟨c, cu, hl, hc, by rw [hdata]; rfl, hready⟩)
  · intro h
    by_cases hno : m.state ≠ .ok ∨ w.sctpMap.lookup m.meid = none
    · refine ⟨-1, _, receive_refused hk hno, ?_, fun _ => by decide⟩
      exact iff_of_false (by decide) (not_delivered rfl)
    · obtain ⟨c, cu, hl, hc, hdata, hready⟩ := (or_assoc.mpr h).resolve_left hno
      obtain ⟨data, hdata⟩ := Option.isSome_iff_exists.mp hdata
      have hst : m.state = .ok := not_not.mp fun hst => hno (.inl hst)
      obtain ⟨w', ⟨hrun, hun⟩ | ⟨hrun, hun⟩⟩ :=
        NodeCase.handle_ok (w := { w with answers := m.answers }) hk hdata hc (hnc c cu hc) hready
      · refine ⟨0, w', (receive_handled hk hst hl).trans hrun, ?_, fun hne => (hne rfl).elim⟩
        exact iff_of_true rfl ⟨c, data, _, hl, hdata, hun.outbox⟩
      · refine ⟨-6, w', (receive_handled hk hst hl).trans hrun, ?_, fun _ => by decide⟩
        exact iff_of_false (by decide) (not_delivered hun.outbox)

/-- In every state of a run, whatever `sctpMap` holds, the return value tells whether the message
was delivered exactly when the message is refused, or it has a payload for a live connection that
has the slots to count it. -/
theorem tellsDelivery_iff (r : ListenerRun params h w) (sctpMap : SctpMap)
    (hk : nodeCase m.mtype = some k) :
    TellsDelivery k m { w with sctpMap := sctpMap } ↔
      RefusedOrReady k m { w with sctpMap := sctpMap } :=
  tellsDelivery_of_neverConnected (sane_of_run r).neverConnected hk

/-! ## Sends that fail -/

/-- Nothing is left of the connection `c` of the node `n`. -/
structure CleanedUp (c : ConnId) (n : Name) (w : World) : Prop where
  closed : w.fds c = none
  unregistered : ∀ k, w.sctpMap.lookup k ≠ some c
  forgotten : w.connectionHandlingPerE2NodeMap.lookup n = none

/-- A live connection whose message could not be sent is not cleaned up. -/
theorem not_cleanedUp_of_unsent (r : ListenerRun params h w) (hc : w.heap.get c = some cu)
    {n : Name} (hk : nodeCase m.mtype = some k)
    (hrun : receiveXappMessages (some m) w = .ok (-6) w') :
    ¬ CleanedUp c n w' := by
  intro hclean
  have hs := sane_of_run r
  have hopen : (w.fds c).isSome := hs.liveOpen c (by rw [hc]; rfl)
  cases received_of_ok hs.neverConnected hk hrun with
  | unsent _ _ _ _ _ hun =>
    obtain ⟨registry, answers, rfl⟩ := hun
    exact Option.isSome_iff_ne_none.mp hopen hclean.closed

/-- No failed send cleans up: the connection keeps its descriptor. -/
theorem failed_send_keeps (r : ListenerRun params h w) (hc : w.heap.get c = some cu) :
    (∀ n mtype data w', sendSctpMsg c n mtype data w = .ok (-1) w' →
      ¬ CleanedUp c cu.enodbName.str w') ∧
    ∀ m w', (nodeCase m.mtype).isSome → w.sctpMap.lookup m.meid = some c →
      receiveXappMessages (some m) w = .ok (-6) w' → ¬ CleanedUp c cu.enodbName.str w' := by
  constructor
  · intro n mtype data w' hsend hclean
    have hs := sane_of_run r
    have hopen : (w.fds c).isSome := hs.liveOpen c (by rw [hc]; rfl)
    obtain ⟨answers, hrun | hrun⟩ := sendSctpMsg_eq hc (hs.neverConnected c cu hc) n mtype data
    · rw [hrun] at hsend
      cases hsend
    · rw [hrun] at hsend
      cases hsend
      exact Option.isSome_iff_ne_none.mp hopen hclean.closed
  · intro m w' hk _ hrun
    obtain ⟨k, hk⟩ := Option.isSome_iff_exists.mp hk
    exact not_cleanedUp_of_unsent r hc hk hrun

theorem before_of_request (hk : nodeCase m.mtype = some k)
    (hm : m.mtype = .ricSubReq ∨ m.mtype = .ricSubDelReq ∨ m.mtype = .ricControlReq) :
    k.before = some .e2SetupProcedureCompleted := by
  rcases hm with hm | hm | hm <;> rw [hm] at hk <;> cases hk <;> rfl

theorem statusOf_of_failed_request (r : ListenerRun params h w)
    (hm : m.mtype = .ricSubReq ∨ m.mtype = .ricSubDelReq ∨ m.mtype = .ricControlReq)
    (hrun : receiveXappMessages (some m) w = .ok (-6) w') :
    w'.statusOf m.meid = (w.statusOf m.meid).map fun _ => .e2SetupProcedureCompleted := by
  have hk : (nodeCase m.mtype).isSome := by
    rcases hm with hm | hm | hm <;> rw [hm] <;> rfl
  obtain ⟨k, hk⟩ := Option.isSome_iff_exists.mp hk
  cases received_of_ok (sane_of_run r).neverConnected hk hrun with
  | unsent _ _ _ _ _ hun =>
    rw [hun.statusOf, k.begun_statusOf, before_of_request hk hm]
    rfl

/-- A request whose send fails leaves the status that it found exactly when there was none, or it
was that of a completed setup. -/
theorem failed_request_status_iff (r : ListenerRun params h w)
    (hm : m.mtype = .ricSubReq ∨ m.mtype = .ricSubDelReq ∨ m.mtype = .ricControlReq)
    (hrun : receiveXappMessages (some m) w = .ok (-6) w') :
    w'.statusOf m.meid = w.statusOf m.meid ↔
      w.statusOf m.meid = none ∨ w.statusOf m.meid = some .e2SetupProcedureCompleted := by
  rw [statusOf_of_failed_request r hm hrun]
  cases w.statusOf m.meid with
  | none => simp
  | some s => simp [eq_comm]

end Receive

/-! ## Runs -/

/-- A message with XML that is converted to one byte. -/
def sampleForNode (mtype : MsgType) (sctp : List SctpSendResult) : RmrMsg :=
  ⟨.ok, mtype, sampleName 1, [0], some [0], [], ⟨[], sctp⟩⟩

/-- The sample node is set up. -/
theorem sampleRun_setup :
    ∃ h w, ListenerRun sampleParams h w ∧ w.sctpMap.lookup (sampleName 1) = some 0 ∧
      (w.heap.get 0).isSome :=
  sampleRun_of_any [.accept sampleRequest, sampleRead 0 (sampleSetup 1)]
    (fun p => p.2.sctpMap.lookup (sampleName 1) = some 0 ∧ (p.2.heap.get 0).isSome)
    (by decide +kernel)

/-- Its setup is answered, and a subscription request for it cannot be sent. -/
theorem sampleRun_unsent :
    ∃ h w, ListenerRun sampleParams h w ∧ (w.heap.get 0).isSome ∧
      w.sctpMap.lookup (sampleName 1) = some 0 ∧
      .sctp 0 0 [0] .ricE2SetupResp (sampleName 1) ∈ w.outbox ∧
      Returned (fun rc _ => rc = -6)
        (receiveXappMessages (some (sampleForNode .ricSubReq [.failed])) w) :=
  sampleRun_of_any
    [.accept sampleRequest, sampleRead 0 (sampleSetup 1), sampleRmr .ricE2SetupResp (sampleName 1)]
    (fun p => (p.2.heap.get 0).isSome ∧ p.2.sctpMap.lookup (sampleName 1) = some 0 ∧
      .sctp 0 0 [0] .ricE2SetupResp (sampleName 1) ∈ p.2.outbox ∧
      Returned (fun rc _ => rc = -6)
        (receiveXappMessages (some (sampleForNode .ricSubReq [.failed])) p.2)) (by decide +kernel)

/-- A service query whose payload is converted. -/
theorem tellsDelivery_iff_converted :
    ∃ h w, ListenerRun sampleParams h w ∧ ∃ k, nodeCase .ricServiceQuery = some k ∧
      (TellsDelivery k (sampleForNode .ricServiceQuery []) { w with sctpMap := w.sctpMap } ↔
        RefusedOrReady k (sampleForNode .ricServiceQuery []) { w with sctpMap := w.sctpMap }) := by
  obtain ⟨h, w, r, -⟩ := sampleRun_setup
  exact ⟨h, w, r, _, rfl, tellsDelivery_iff r w.sctpMap rfl⟩

/-- The XML of a service query is no PDU: nothing is sent, and the value is 0. -/
theorem unconverted_message_succeeds :
    ¬ ∀ params h w m k, ListenerRun params h w → nodeCase m.mtype = some k →
      TellsDelivery k m w := by
  intro hall
  obtain ⟨h, w, r, hl, -⟩ := sampleRun_setup
  have htells := hall sampleParams h w
    { sampleForNode .ricServiceQuery [] with per := none } _ r rfl
  rw [tellsDelivery_of_neverConnected (sane_of_run r).neverConnected rfl] at htells
  rcases htells with hst | hnone | ⟨c, cu, -, -, hdata, -⟩
  · exact hst rfl
  · change w.sctpMap.lookup (sampleName 1) = none at hnone
    rw [hl] at hnone
    cases hnone
  · cases hdata

/-- The set-up node of the sample. -/
theorem failed_send_keeps_node :
    ∃ h w, ∃ cu : ConnectedCU, ListenerRun sampleParams h w ∧
      (∀ n mtype data w', sendSctpMsg 0 n mtype data w = .ok (-1) w' →
        ¬ CleanedUp 0 cu.enodbName.str w') ∧
      ∀ m w', (nodeCase m.mtype).isSome → w.sctpMap.lookup m.meid = some 0 →
        receiveXappMessages (some m) w = .ok (-6) w' → ¬ CleanedUp 0 cu.enodbName.str w' := by
  obtain ⟨h, w, r, -, hc⟩ := sampleRun_setup
  obtain ⟨cu, hc⟩ := Option.isSome_iff_exists.mp hc
  exact ⟨h, w, cu, r, failed_send_keeps r hc⟩

/-- The setup response went out, and the next message cannot be sent: the connection stays. -/
theorem failed_send_after_response :
    ¬ ∀ params h w w' c cu m id data n, ListenerRun params h w → w.heap.get c = some cu →
      .sctp c id data .ricE2SetupResp n ∈ w.outbox → (nodeCase m.mtype).isSome →
      w.sctpMap.lookup m.meid = some c → receiveXappMessages (some m) w = .ok (-6) w' →
      CleanedUp c cu.enodbName.str w' := by
  intro hall
  obtain ⟨h, w, r, hc, hl, hresp, rc, w', hrun, rfl⟩ := sampleRun_unsent
  obtain ⟨cu, hc⟩ := Option.isSome_iff_exists.mp hc
  exact not_cleanedUp_of_unsent r hc rfl hrun
    (hall _ h w w' 0 cu _ 0 _ _ r hc hresp rfl hl hrun)

/-- A subscription request of a node whose setup is completed. -/
theorem failed_request_status_iff_completed :
    ∃ h w w', ListenerRun sampleParams h w ∧
      receiveXappMessages (some (sampleForNode .ricSubReq [.failed])) w = .ok (-6) w' ∧
      (w'.statusOf (sampleName 1) = w.statusOf (sampleName 1) ↔
        w.statusOf (sampleName 1) = none ∨
          w.statusOf (sampleName 1) = some .e2SetupProcedureCompleted) := by
  obtain ⟨h, w, r, -, -, -, rc, w', hrun, rfl⟩ := sampleRun_unsent
  exact ⟨h, w, w', r, hrun, failed_request_status_iff r (.inl rfl) hrun⟩

/-- A control request cannot be sent while a subscription is in progress: the status of the
subscription is lost. -/
theorem failed_control_request_ends_subscription :
    ¬ ∀ params h w w' m, ListenerRun params h w →
      (m.mtype = .ricSubReq ∨ m.mtype = .ricSubDelReq ∨ m.mtype = .ricControlReq) →
      receiveXappMessages (some m) w = .ok (-6) w' → w'.statusOf m.meid = w.statusOf m.meid := by
  intro hall
  obtain ⟨h, w, r, hst, rc, w', hrun, rfl⟩ := sampleRun_of_any
    [.accept sampleRequest, sampleRead 0 (sampleSetup 1), sampleRmr .ricE2SetupResp (sampleName 1),
      sampleRmr .ricSubReq (sampleName 1)]
    (fun p => p.2.statusOf (sampleName 1) = some .ricSubsProcedureOngoing ∧
      Returned (fun rc _ => rc = -6)
        (receiveXappMessages (some (sampleForNode .ricControlReq [.failed])) p.2))
    (by decide +kernel)
  have hsame := hall _ h w w' _ r (.inr (.inr rfl)) hrun
  rw [statusOf_of_failed_request r (.inr (.inr rfl)) hrun] at hsame
  change (w.statusOf (sampleName 1)).map _ = w.statusOf (sampleName 1) at hsame
  rw [hst] at hsame
  cases hsame

end E2Term
