import E2Term.TraceAgreement

/-!
# Traced actions

What each action of the listener traces, and when its records are right. A report of the
terminator's own is put into the send buffer together with `asndata`, so its record is right; a
message to a node is traced from where it was sent from.
-/

namespace E2Term

open CString Effect Instrument

/-! ## Reports of the terminator -/

section Reports

variable {α β : Type} {w : World} {t : Reporting} {s : World × Reporting} {x : TM α} {f : α → TM β}

/-- A part that is not traced comes first; what follows is right where it returns. -/
theorem rightIff_lift_bind {m : M α} (hf : ∀ a w', m w = .ok a w' → RightIff True (f a) (w', t)) :
    RightIff True (lift m >>= f) (w, t) := by
  cases hm : m w with
  | ok a w' => exact RightIff.lift_bind_ok hm (hf a w' hm)
  | error e w' => exact rightIff_of_error hm

/-- Two parts whose records are right. -/
theorem RightIff.seq (hx : RightIff True x s) (hf : ∀ a s', RightIff True (f a) s') :
    RightIff True (x >>= f) s := by
  cases hrun : x s with
  | error e s' =>
    unfold RightIff at hx ⊢
    rw [hrun] at hx
    rwa [bind_of_error hrun]
  | ok a s' =>
    have hlast := hf a s'
    unfold RightIff at hx hlast ⊢
    rw [hrun] at hx
    rw [bind_of_ok hrun, hlast, and_true]
    exact hx

theorem countInternal_payload {c : ConnId} {i : E2TInternalCounters} {w' : World}
    (h : countInternal c i w = .ok () w') : w'.sendMessage = w.sendMessage := by
  obtain ⟨cu, w₁, hderef, hcount⟩ := bind_eq_ok.mp h
  obtain ⟨rfl, -⟩ := deref_eq_ok hderef
  have hcount : incrementIfSet (cu.e2tInternalCounters i) 1 _ = .ok () w' := hcount
  cases hslot : cu.e2tInternalCounters i with
  | none =>
    rw [hslot] at hcount
    cases hcount
    rfl
  | some l =>
    rw [hslot] at hcount
    cases hcount
    rfl

/-- A text that is put into the send buffer goes out, after something that leaves it there. -/
theorem rightIff_text {payload : List UInt8} (hne : payload ≠ [])
    (hle : payload.length ≤ receiveSctpBufferSize) {before : M Unit}
    (hbefore : ∀ w w', before w = .ok () w' → w'.sendMessage = w.sendMessage) (k : Name)
    (mtype : MsgType) {rest : Int → TM Unit} (hrest : ∀ rc, Silent (rest rc)) :
    RightIff True (do
      lift (writeSendMessage fun m => { m with payload := payload, len := payload.length })
      setAsn .sendMessage payload.length
      lift before
      Traced.sendRequestToXapp k mtype >>= rest : TM Unit) (w, t) := by
  refine RightIff.lift_bind_ok (rfl : writeSendMessage _ w = .ok () _) ?_
  refine RightIff.silent_bind (note_eq _ _ _) rfl ?_
  refine rightIff_lift_bind fun _ w' hrun => ?_
  have hpayload : w'.sendMessage.payload = payload := by
    rw [hbefore _ _ hrun]
  have h : Pointed w' { t with asndata := .sendMessage, asnLength := payload.length }
      payload.length payload := ⟨rfl, rfl, hpayload, hle, hle⟩
  exact ((h.sendRequestToXapp k mtype).congr (iff_of_true ⟨hne, rfl⟩ trivial)).bind hrest

/-- The text of a report, behind the name of the node. -/
theorem report_fits (cu : ConnectedCU) (what : String) (hne : text what ≠ [])
    (hle : (text what).length ≤ 100) :
    cu.enodbName.str ++ text what ≠ [] ∧
      (cu.enodbName.str ++ text what).length ≤ receiveSctpBufferSize := by
  have hname := cu.enodbName.str_length_lt
  have hmax : maxEnodbNameSize = 64 := rfl
  have hsize : receiveSctpBufferSize = 131072 := rfl
  refine ⟨List.append_ne_nil_of_right_ne_nil _ hne, ?_⟩
  rw [List.length_append]
  omega

theorem rightIff_reportFailure (c : ConnId) {what : String} (hne : text what ≠ [])
    (hle : (text what).length ≤ 100) (w : World) (t : Reporting) :
    RightIff True (Traced.reportFailure c what) (w, t) := by
  refine rightIff_lift_bind fun cu w' hderef => ?_
  obtain ⟨hfit, hlen⟩ := report_fits cu what hne hle
  exact rightIff_text hfit hlen (fun _ _ h => countInternal_payload h) _ _ fun _ => Moves.pure _

theorem rightIff_closeConnection (c : ConnId) (answers : Answers) (s : World × Reporting) :
    RightIff True (Traced.closeConnection c answers) s :=
  RightIff.lift_bind_ok (rfl : (modify _ : M Unit) s.1 = .ok () _)
    ((rightIff_reportFailure c (by decide) (by decide) _ _).bind fun _ => silent_lift _)

theorem rightIff_closeOnError (c : ConnId) (answers : Answers) (s : World × Reporting) :
    RightIff True (Traced.closeOnError c answers) s :=
  RightIff.lift_bind_ok (rfl : (modify _ : M Unit) s.1 = .ok () _)
    ((rightIff_reportFailure c (by decide) (by decide) _ _).bind fun _ => silent_lift _)

theorem rightIff_clearPeer (key : Name) (s : World × Reporting) :
    RightIff True (Traced.clearPeer key) s := by
  refine RightIff.lift_bind_ok (rfl : (get : M World) s.1 = .ok s.1 s.1) ?_
  cases s.1.sctpMap.lookup key with
  | none => exact rightIff_of_trace rfl
  | some c =>
    refine rightIff_lift_bind fun cu w' _ => rightIff_lift_bind fun _ w'' _ => ?_
    obtain ⟨hfit, hlen⟩ := report_fits cu "|RIC_SCTP_CLEAR_ALL" (by decide) (by decide)
    have hpure : ∀ w w' : World, (pure () : M Unit) w = .ok () w' →
        w'.sendMessage = w.sendMessage := fun _ _ h => by cases h; rfl
    exact rightIff_text hfit hlen hpure _ _ fun _ => silent_lift _

theorem rightIff_clearPeers (keys : List Name) (s : World × Reporting) :
    RightIff True (Traced.clearPeers keys) s := by
  induction keys generalizing s with
  | nil => exact rightIff_of_trace rfl
  | cons key v ih =>
    unfold Traced.clearPeers
    split
    · exact (rightIff_clearPeer key s).seq fun _ s' => ih s'
    · exact ih s

end Reports

/-! ## Messages for a node -/

section Nodes

variable {w w' : World} {t : Reporting} {c : ConnId} {cu : ConnectedCU} {m : RmrMsg} {k : NodeCase}
  {n : Name} {mtype : MsgType} {data : List UInt8}

/-- A message of these bytes is traced from where it was sent from. -/
theorem rightIff_traced {α : Type} (hle : data.length ≤ receiveSctpBufferSize)
    (hasn : t.asndata = .rcvMessage data) (hlen : t.asnLength = data.length) (a : α) :
    RightIff (data ≠ []) (do
      let record ← buildJsonMessage
      addEntry record data
      return a : TM α) (w, t) := by
  obtain ⟨record, base64Data, hbuild, hright⟩ := buildJsonMessage_ok w hlen hle
  have hshown : (⟨record, data⟩ : TraceEntry).Right ↔ data ≠ [] := by
    rw [hright data hle, bytes_eq_iff hlen (.inr hasn), and_iff_left rfl, List.length_pos_iff]
  unfold RightIff
  rw [bind_of_ok hbuild, ← hshown]
  exact allRight_concat rfl

theorem sendSctpMsg_sent (hc : w.heap.get c = some cu)
    (hsent : (sctpAnswer w.answers.sctp).1 = true) (n : Name) (mtype : MsgType)
    (data : List UInt8) :
    ∃ w', sendSctpMsg c n mtype data w = .ok 0 w' := by
  have hans : sctpSendmsg w = .ok (sctpAnswer w.answers.sctp).1 _ := rfl
  unfold sendSctpMsg
  rw [bind_of_ok (deref_of_get hc), bind_of_ok hans, hsent]
  exact ⟨_, rfl⟩

/-- A message that is not sent is answered with `-1`, whatever is closed for it. -/
theorem sendSctpMsg_unsent (hsent : (sctpAnswer w.answers.sctp).1 = false) {rc : Int}
    (h : sendSctpMsg c n mtype data w = .ok rc w') : rc = -1 := by
  obtain ⟨cu, w₁, hderef, hsend⟩ := bind_eq_ok.mp h
  obtain ⟨rfl, -⟩ := deref_eq_ok hderef
  obtain ⟨sent, w₂, hans, hrest⟩ := bind_eq_ok.mp hsend
  have hfirst : sent = (sctpAnswer w₁.answers.sctp).1 := by
    cases hans
    rfl
  rw [hfirst, hsent, if_neg Bool.false_ne_true] at hrest
  split at hrest
  · cases hrest
    rfl
  · -- the connection is closed before
    obtain ⟨_, _, -, hrest⟩ := bind_eq_ok.mp hrest
    obtain ⟨_, _, -, hrest⟩ := bind_eq_ok.mp hrest
    obtain ⟨_, _, -, hrest⟩ := bind_eq_ok.mp hrest
    obtain ⟨_, _, -, hrest⟩ := bind_eq_ok.mp hrest
    obtain ⟨_, _, -, hrest⟩ := bind_eq_ok.mp hrest
    cases hrest
    rfl

/-- A message to a node is traced if it was sent. -/
theorem rightIff_sendDirectionalSctpMsg (hc : w.heap.get c = some cu)
    (hle : data.length ≤ receiveSctpBufferSize) :
    RightIff ((sctpAnswer w.answers.sctp).1 = true → data ≠ [])
      (Traced.sendDirectionalSctpMsg c m data) (w, t) := by
  refine RightIff.silent_bind (note_eq _ _ _) rfl ?_
  cases hsent : (sctpAnswer w.answers.sctp).1 with
  | true =>
    obtain ⟨w', hrun⟩ := sendSctpMsg_sent hc hsent m.meid m.mtype data
    refine (RightIff.lift_bind_ok hrun ?_).congr (forall_prop_of_true rfl).symm
    exact rightIff_traced hle rfl rfl 0
  | false =>
    refine RightIff.congr ?_ (iff_of_true trivial fun h => absurd h Bool.false_ne_true)
    refine rightIff_lift_bind fun rc w' hrun => ?_
    rw [sendSctpMsg_unsent hsent hrun]
    exact rightIff_of_trace rfl

/-- A case of a message for a node. -/
theorem rightIff_handle (hk : nodeCase m.mtype = some k)
    (hle : ∀ data, k.data m = some data → data.length ≤ receiveSctpBufferSize) :
    RightIff (∀ cu data, w.heap.get c = some cu → k.Ready cu → k.data m = some data →
        (sctpAnswer w.answers.sctp).1 = true → data ≠ [])
      (Traced.handle k c m) (w, t) := by
  refine RightIff.lift_bind_ok (record_eq m.meid k.before w) ?_
  cases hdata : k.data m with
  | none => exact (rightIff_of_trace rfl).congr (iff_of_true trivial fun _ _ _ _ h => by cases h)
  | some data =>
    let w₁ : World := { w with
      connectionHandlingPerE2NodeMap := recorded m.meid w.connectionHandlingPerE2NodeMap k.before }
    by_cases hready : ∃ cu, w.heap.get c = some cu ∧ k.Ready cu
    · obtain ⟨cu, hc, hslots⟩ := hready
      obtain ⟨registry, hcount⟩ := NodeCase.count_ok (w := w₁) hk hc hslots data.length
      refine RightIff.lift_bind_ok hcount ?_
      have hsend := rightIff_sendDirectionalSctpMsg (w := { w₁ with registry := registry })
        (t := t) (m := m) hc (hle data hdata)
      refine (hsend.bind fun rc => ?_).congr ?_
      · split
        · exact Moves.pure _
        · exact (silent_lift _).bind fun _ => Moves.pure _
      · constructor
        · intro h _ _ _ _ heq hsent
          cases heq
          exact h hsent
        · exact fun h => h cu data hc hslots rfl
    · have hno : ∀ cu, w.heap.get c = some cu → ¬ k.Ready cu :=
        fun cu hc hslots => hready ⟨cu, hc, hslots⟩
      have hfails : ∃ e w', k.count c data.length w₁ = .error e w' := by
        cases hc : w.heap.get c with
        | none => exact ⟨_, _, k.count_freed (w := w₁) hc _⟩
        | some cu =>
          obtain ⟨w', hrun⟩ := NodeCase.count_fails (w := w₁) hc (hno cu hc) data.length
          exact ⟨_, _, hrun⟩
      obtain ⟨e, w', hrun⟩ := hfails
      exact (rightIff_of_error hrun).congr
        (iff_of_true trivial fun cu _ hc hslots => absurd hslots (hno cu hc))

end Nodes

/-! ## Actions -/

/-- What is traced of a message from the RIC: what goes to the node, or the message if its type is
not supported. -/
def RmrMsg.traced (m : RmrMsg) : Option (List UInt8) :=
  match nodeCase m.mtype with
  | some k => k.data m
  | none => some m.payload

/-- What is sent to the node, or only logged, is not empty. -/
structure DeliveryShown (w : World) (c : ConnId) (m : RmrMsg) : Prop where
  logged : nodeCase m.mtype = none → m.payload ≠ []
  sent : ∀ k cu data, nodeCase m.mtype = some k → w.heap.get c = some cu → k.Ready cu →
    k.data m = some data → (sctpAnswer m.answers.sctp).1 = true → data ≠ []

/-- Everything the action sends or logs is shown in its record. -/
def TraceShows (w : World) : Action → Prop
  | .read c (some (.msg m)) => ∀ cu pdu, w.heap.get c = some cu → m.pdu = some pdu →
      PduShown w cu m pdu
  | .rmr (some m) => m.state = .ok → ¬ m.ForTerminator →
      ∀ c, w.sctpMap.lookup m.meid = some c → DeliveryShown w c m
  | _ => True

/-- The payloads are not longer than a buffer. -/
def Action.Sized : Action → Prop
  | .read _ (some (.msg m)) => m.payload.length ≤ receiveSctpBufferSize
  | .rmr (some m) => ∀ data, m.traced = some data → data.length ≤ receiveSctpBufferSize
  | _ => True

/-- Every record that the action writes is right, whatever is in `t`. -/
def TracesRight (w : World) (t : Reporting) (a : Action) : Prop :=
  AllRight (final (Traced.run a (w, { t with trace := [] }))).2

section Actions

variable {w : World} {t : Reporting} {c : ConnId}

/-- A PDU is in the send buffer, and `asndata` points to it. -/
theorem rightIff_received {cu : ConnectedCU} {m : SctpMsg} (hc : w.heap.get c = some cu)
    (hsize : m.payload.length ≤ receiveSctpBufferSize) :
    RightIff (∀ pdu, m.pdu = some pdu → PduShown w cu m pdu)
      ((match m.pdu with
        | none => return PassExit.undecodable
        | some pdu => do
          Traced.dispatch ⟨cu.enodbName, c, m.payload.length⟩ m pdu
          return PassExit.dispatched m : TM PassExit) >>= Traced.finishPass c)
      (w.received m, { t with asndata := .sendMessage, asnLength := m.payload.length }) := by
  cases m.pdu with
  | none => exact (rightIff_of_trace rfl).congr (iff_of_true trivial fun _ h => by cases h)
  | some pdu =>
    have h : Holds (w.received m)
        { t with asndata := .sendMessage, asnLength := m.payload.length } m :=
      ⟨rfl, rfl, rfl, hsize, hsize⟩
    have hd : RightIff (PduShown (w.received m) cu m pdu)
        (Traced.dispatch ⟨cu.enodbName, c, m.payload.length⟩ m pdu) _ := h.dispatch hc rfl pdu
    have hshown : PduShown (w.received m) cu m pdu ↔ PduShown w cu m pdu := pduShown_congr rfl
    simp only [bind_assoc]
    refine ((hd.congr hshown).bind fun _ => Moves.pure _).congr ?_
    exact ⟨fun hP pdu' heq => by cases heq; exact hP, fun hP => hP pdu rfl⟩

theorem rightIff_readAction (result : Option ReadResult) (hsize : (Action.read c result).Sized) :
    RightIff (TraceShows w (.read c result)) (Traced.readAction c result) (w, t) := by
  unfold Traced.readAction Traced.readPass
  simp only [bind_assoc]
  cases hc : w.heap.get c with
  | none =>
    refine (rightIff_of_error (deref_of_freed hc)).congr (iff_of_true trivial ?_)
    rcases result with _ | (m | _ | answers | answers)
    case some.msg =>
      intro cu pdu hcu
      rw [hc] at hcu
      cases hcu
    all_goals trivial
  | some cu =>
    refine RightIff.lift_bind_ok (deref_of_get hc) ?_
    rcases result with _ | (m | _ | answers | answers)
    · exact rightIff_of_trace rfl
    · -- the PDU is in the send buffer, and `asndata` points to it
      let b : RmrMbuf :=
        { w.sendMessage with payload := m.payload, len := m.payload.length }
      have hrecv : recvmsg (some (.msg m)) w = .ok () { w with sendMessage := b } := rfl
      refine RightIff.lift_bind_ok hrecv ?_
      refine RightIff.silent_bind (note_eq _ _ _) rfl ?_
      dsimp only
      rw [bind_assoc]
      have hanswers : (modify fun w : World => { w with answers := m.answers } : M Unit)
          { w with sendMessage := b } = .ok () (w.received m) := rfl
      refine RightIff.lift_bind_ok hanswers ?_
      refine (rightIff_received hc hsize).congr ?_
      constructor
      · intro hP cu' pdu hcu
        rw [hc] at hcu
        cases hcu
        exact hP pdu
      · exact fun hP pdu => hP cu pdu hc
    · exact rightIff_of_trace rfl
    · exact rightIff_closeConnection c answers _
    · exact rightIff_closeConnection c answers _

/-- A message that is not supported is only logged. -/
theorem rightIff_logged {m : RmrMsg} (hk : nodeCase m.mtype = none)
    (hle : m.payload.length ≤ receiveSctpBufferSize) :
    RightIff (m.payload ≠ []) (Traced.sendToNode c m) (w, t) := by
  unfold Traced.sendToNode
  rw [hk]
  exact RightIff.silent_bind (note_eq _ _ _) rfl (rightIff_traced hle rfl rfl (-7))

theorem rightIff_sendToNode {m : RmrMsg} (hanswers : w.answers = m.answers)
    (hsize : (Action.rmr (some m)).Sized) :
    RightIff (DeliveryShown w c m) (Traced.sendToNode c m) (w, t) := by
  have hle : ∀ data, m.traced = some data → data.length ≤ receiveSctpBufferSize := hsize
  unfold RmrMsg.traced at hle
  cases hk : nodeCase m.mtype with
  | none =>
    rw [hk] at hle
    refine (rightIff_logged hk (hle _ rfl)).congr ⟨fun hne => ⟨fun _ => hne, ?_⟩, ?_⟩
    · intro _ _ _ h
      rw [hk] at h
      cases h
    · exact fun h => h.logged hk
  | some k =>
    rw [hk] at hle
    have hrun : Traced.sendToNode c m = Traced.handle k c m := by
      unfold Traced.sendToNode
      rw [hk]
    rw [hrun]
    refine (rightIff_handle hk hle).congr ⟨fun hP => ⟨?_, ?_⟩, ?_⟩
    · intro h
      rw [hk] at h
      cases h
    · intro k' cu data hk' hc hready hdata hsent
      rw [hk] at hk'
      cases hk'
      exact hP cu data hc hready hdata (hanswers ▸ hsent)
    · intro h cu data hc hready hdata hsent
      exact h.sent k cu data hk hc hready hdata (hanswers ▸ hsent)

theorem rightIff_clearAll (m : RmrMsg) : RightIff True (Traced.clearAll m) (w, t) := by
  refine RightIff.lift_bind_ok (rfl : (get : M World) w = .ok w w) ?_
  exact (rightIff_clearPeers _ _).bind fun _ => silent_lift _

theorem rightIff_deliver {m : RmrMsg} (hanswers : w.answers = m.answers)
    (hsize : (Action.rmr (some m)).Sized) :
    RightIff (∀ c, w.sctpMap.lookup m.meid = some c → DeliveryShown w c m) (do
      match (← lift (get : M World)).sctpMap.lookup m.meid with
      | none => return -1
      | some peerInfo => Traced.sendToNode peerInfo m : TM Int) (w, t) := by
  refine RightIff.lift_bind_ok (rfl : (get : M World) w = .ok w w) ?_
  cases hl : w.sctpMap.lookup m.meid with
  | none => exact (rightIff_of_trace rfl).congr (iff_of_true trivial fun _ h => by cases h)
  | some c =>
    refine (rightIff_sendToNode hanswers hsize).congr ⟨fun h c' hc' => ?_, fun h => h c rfl⟩
    cases hc'
    exact h

theorem rightIff_receiveXappMessages (rcvMessage : Option RmrMsg)
    (hsize : (Action.rmr rcvMessage).Sized) :
    RightIff (TraceShows w (.rmr rcvMessage)) (Traced.receiveXappMessages rcvMessage) (w, t) := by
  cases rcvMessage with
  | none => exact rightIff_of_trace rfl
  | some m =>
    let w₁ : World := { w with answers := m.answers }
    refine RightIff.lift_bind_ok (rfl : (modify _ : M Unit) w = .ok () w₁) ?_
    by_cases hst : m.state = .ok
    · rw [if_neg (not_not.mpr hst)]
      by_cases hterm : m.ForTerminator
      · refine RightIff.congr ?_ (iff_of_true trivial fun _ hno => absurd hterm hno)
        rcases hterm with hm | hm | hm
        · rw [hm]
          exact (rightIff_clearAll m).bind fun _ => Moves.pure _
        · rw [hm]
          exact Silent.rightIff ((silent_lift _).bind fun _ => Moves.pure _) _
        · rw [hm]
          exact Silent.rightIff ((silent_lift _).bind fun _ => Moves.pure _) _
      · have hnode := rightIff_deliver (w := w₁) (t := t) rfl hsize
        refine RightIff.congr (P := ∀ c, w.sctpMap.lookup m.meid = some c → DeliveryShown w c m) ?_
          ⟨fun h _ _ => h, fun h => h hst hterm⟩
        have hshown : (∀ c, w₁.sctpMap.lookup m.meid = some c → DeliveryShown w₁ c m) ↔
            ∀ c, w.sctpMap.lookup m.meid = some c → DeliveryShown w c m :=
          forall₂_congr fun _ _ => ⟨fun h => ⟨h.logged, h.sent⟩, fun h => ⟨h.logged, h.sent⟩⟩
        cases hmt : m.mtype with
        | ricSctpClearAll => exact (hterm (.inl hmt)).elim
        | e2TermKeepAliveReq => exact (hterm (.inr (.inl hmt))).elim
        | ricHealthCheckReq => exact (hterm (.inr (.inr hmt))).elim
        | _ => exact hnode.congr hshown
    · rw [if_pos hst]
      exact (rightIff_of_trace rfl).congr (iff_of_true trivial fun h => absurd h hst)

/-- The records of an action are right exactly when they show everything. -/
theorem rightIff_run (a : Action) (hsize : a.Sized) :
    RightIff (TraceShows w a) (Traced.run a) (w, t) := by
  cases a with
  | accept request => exact (silent_lift _).rightIff _
  | read c result => exact rightIff_readAction result hsize
  | pollError c answers => exact rightIff_closeOnError c answers _
  | rmr rcvMessage =>
    exact (rightIff_receiveXappMessages rcvMessage hsize).bind fun _ => Moves.pure _

end Actions

/-- Whatever was reported before, the records an action writes show the messages they are for
exactly when nothing empty is sent or logged, nothing is converted to another length, and no error
indication goes out twice after RMR took the first copy. -/
theorem traces_right_iff (w : World) (t : Reporting) {a : Action} (hsize : a.Sized) :
    TracesRight w t a ↔ TraceShows w a := by
  have hrun : RightIff (TraceShows w a) (Traced.run a) (w, { t with trace := [] }) :=
    rightIff_run a hsize
  refine hrun.trans (and_iff_right ?_)
  exact fun _ he => absurd he List.not_mem_nil

theorem sized_sampleRead (c : ConnId) (pdu : E2APPDU) : (sampleRead c pdu).Sized :=
  (by decide : 1 ≤ receiveSctpBufferSize)

/-- An indication is shown as it went out. -/
theorem traces_right_iff_indication :
    ∃ h w, ListenerRun sampleParams h w ∧
      ∀ t, TracesRight w t
        (sampleRead 0 (.initiatingMessage (.ricIndication sampleTwoRequests))) := by
  obtain ⟨h, w, r, -⟩ := sampleRun_of_any [.accept sampleRequest, sampleRead 0 (sampleSetup 1)]
    (fun _ => True) (by decide +kernel)
  refine ⟨h, w, r, fun t => (traces_right_iff w t (sized_sampleRead _ _)).mpr ?_⟩
  intro cu pdu _ hpdu
  cases hpdu
  refine ⟨fun _ => List.cons_ne_nil _ _, fun _ hr => absurd hr Bool.false_ne_true, fun _ hsub => ?_⟩
  obtain ⟨_, _, heq, -⟩ := hsub
  cases heq

/-- A reset request that XML has more bytes for is cut off in its record. -/
theorem reset_record_cut_off :
    ¬ ∀ params h w t a, ListenerRun params h w → a.Sized → TracesRight w t a := by
  intro hall
  obtain ⟨h, w, r, hsome, hcu⟩ := sampleRun_of_any
    [.accept sampleRequest, sampleRead 0 (sampleSetup 1)]
    (fun p => (p.2.heap.get 0).isSome ∧ ∀ cu ∈ p.2.heap.get 0, (p.2.entryOf cu).isSome ∧
      (cu.counters .inIniti .msgCounter .reset).isSome ∧
      (cu.counters .inIniti .bytesCounter .reset).isSome) (by decide +kernel)
  obtain ⟨cu, hc⟩ := Option.isSome_iff_exists.mp hsome
  obtain ⟨hentry, hslots⟩ := hcu cu hc
  have hsize := sized_sampleRead 0 (.initiatingMessage .reset)
  let t : Reporting := ⟨.sendMessage, 0, fun _ => 0, fun _ => 0, []⟩
  have hright := (rightIff_run (w := w) (t := t) _ hsize).mp (hall _ h w t _ r hsize)
  have hshown := hright.2 cu (.initiatingMessage .reset) hc rfl
  have hcounted : HasSlots cu (.inIniti, .reset)
    | .msgCounter => hslots.1
    | .bytesCounter => hslots.2
  have hxml := hshown.xml
    ⟨hentry, ⟨_, rfl, List.forall_mem_singleton.mpr hcounted⟩, fun _ => by decide⟩ rfl
  exact absurd hxml (by decide)

end E2Term
