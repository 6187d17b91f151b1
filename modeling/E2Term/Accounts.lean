import E2Term.Ledger

/-!
# Which messages the counters tell apart

The counters of the instance and those of the nodes count the same messages, but for three kinds: a
setup request is counted for its node only, an error indication and a reset request to a node are
counted for the instance among the received ones, and the answer to a setup is counted for the
instance also where its node has no counters yet.
-/

namespace E2Term

open CString Effect Runs

/-! ## What leaves the ledger -/

section Keeping

variable {d d' e : Direction} {p p' : ProcedureCode} {a b : CounterKind → Nat} {w w' : World}
  {c : ConnId} {cu : ConnectedCU} {len : Nat} {α β : Type}

/-- The ledger is kept, also by a run that raises. -/
abbrev KeepsLedger (d : Direction) (p : ProcedureCode) (a b : CounterKind → Nat) (m : M α) : Prop :=
  Keeps (fun _ => True) (Ledger d p a b) m

theorem keepsLedger_modify {f : World → World} (hheap : ∀ w, (f w).heap = w.heap)
    (hreg : ∀ w, (f w).registry = w.registry) : KeepsLedger d p a b (modify f : M Unit) :=
  Keeps.modify fun w h => h.same (hheap w) (hreg w)

theorem keepsLedger_modifyGet {f : World → α × World} (hheap : ∀ w, (f w).2.heap = w.heap)
    (hreg : ∀ w, (f w).2.registry = w.registry) : KeepsLedger d p a b (modifyGet f : M α) :=
  Keeps.modifyGet fun w h => h.same (hheap w) (hreg w)

theorem keepsLedger_deref {k : ConnectedCU → M β}
    (hk : ∀ cu, cu.Labelled → KeepsLedger d p a b (k cu)) :
    KeepsLedger d p a b (deref c >>= k) := by
  intro w hw
  cases hc : w.heap.get c with
  | none =>
    rw [bind_of_error (deref_of_freed hc)]
    exact ⟨hw, fun _ _ _ => trivial⟩
  | some cu =>
    rw [bind_of_ok (deref_of_get hc)]
    exact hk cu (hw.labelled c cu hc) w hw

theorem keepsLedger_freePeer : KeepsLedger d p a b (freePeer c) := by
  refine keepsLedger_deref fun _ _ => Keeps.modify fun w hw => ?_
  refine hw.congr (fun i cu hi => ?_) rfl
  rw [CellHeap.get_free] at hi
  split at hi
  · cases hi
  · exact hw.labelled i cu hi

theorem keepsLedger_writeSendMessage (f : RmrMbuf → RmrMbuf) :
    KeepsLedger d p a b (writeSendMessage f) :=
  keepsLedger_modify (fun _ => rfl) fun _ => rfl

theorem keepsLedger_setAnswers (answers : Answers) :
    KeepsLedger d p a b (modify fun w => { w with answers := answers } : M Unit) :=
  keepsLedger_modify (fun _ => rfl) fun _ => rfl

theorem keepsLedger_nextTransaction : KeepsLedger d p a b nextTransaction :=
  keepsLedger_modifyGet (fun _ => rfl) fun _ => rfl

theorem keepsLedger_setStatus (n : Name) (s : E2TProcedureStates) :
    KeepsLedger d p a b (setE2ProcedureOngoingStatus n s) :=
  keepsLedger_modify (fun _ => rfl) fun _ => rfl

theorem keepsLedger_removeEntry (n : Name) :
    KeepsLedger d p a b (removeE2ConnectionEntryFromMap n) :=
  keepsLedger_modify (fun _ => rfl) fun _ => rfl

theorem keepsLedger_closeFd : KeepsLedger d p a b (closeFd c) :=
  keepsLedger_modify (fun _ => rfl) fun _ => rfl

theorem keepsLedger_emit (o : Output) : KeepsLedger d p a b (emit o) :=
  keepsLedger_modify (fun _ => rfl) fun _ => rfl

theorem keepsLedger_rmrSendMsg (msg : RmrMbuf) : KeepsLedger d p a b (rmrSendMsg msg) := by
  have hanswer : KeepsLedger d p a b nextRmrAnswer := by
    refine keepsLedger_modifyGet (fun w => ?_) fun w => ?_
    · cases w.answers.rmr <;> rfl
    · cases w.answers.rmr <;> rfl
  refine hanswer.bind fun r => ?_
  cases r <;> exact Keeps.pure _

theorem keepsLedger_rmrSendWithRetry (msg : RmrMbuf) :
    KeepsLedger d p a b (rmrSendWithRetry msg) := by
  refine (keepsLedger_rmrSendMsg msg).bind fun r => ?_
  cases r with
  | none => exact Keeps.pure _
  | some m =>
    dsimp only
    split
    · exact keepsLedger_rmrSendMsg _
    · exact Keeps.pure _

theorem keepsLedger_sendRmrMessage : KeepsLedger d p a b sendRmrMessage := by
  refine Keeps.get.bind fun w => (keepsLedger_rmrSendWithRetry _).bind fun r => ?_
  refine (keepsLedger_emit _).bind fun _ => ?_
  cases r with
  | none => exact (keepsLedger_writeSendMessage _).bind fun _ => Keeps.pure _
  | some m =>
    refine (keepsLedger_writeSendMessage _).bind fun _ => ?_
    cases m.state <;> exact Keeps.pure _

theorem keepsLedger_sendRequestToXapp (n : Name) (mtype : MsgType) :
    KeepsLedger d p a b (sendRequestToXapp n mtype) :=
  (keepsLedger_writeSendMessage _).bind fun _ => keepsLedger_nextTransaction.bind fun _ =>
    (keepsLedger_writeSendMessage _).bind fun _ => keepsLedger_sendRmrMessage

/-- A report whose result is not looked at. -/
theorem keepsLedger_report (n : Name) (mtype : MsgType) :
    KeepsLedger d p a b (do let _ ← sendRequestToXapp n mtype) :=
  (keepsLedger_sendRequestToXapp n mtype).bind fun _ => Keeps.pure _

theorem keepsLedger_buildAndSendSetupRequest (message : ReportingMessages) (mtype : MsgType)
    (xer : Option (List UInt8)) :
    KeepsLedger d p a b (buildAndSendSetupRequest message mtype xer) := by
  unfold buildAndSendSetupRequest
  cases xer with
  | none => exact Keeps.pure _
  | some buffer =>
    exact Keeps.get.bind fun w => keepsLedger_nextTransaction.bind fun tx =>
      (keepsLedger_rmrSendWithRetry _).bind fun r => keepsLedger_emit _

theorem keepsLedger_xmlFromPER (xer : Option (List UInt8)) :
    KeepsLedger d p a b (xmlFromPER xer) := by
  unfold xmlFromPER
  cases xer with
  | none => exact Keeps.pure _
  | some encoded =>
    dsimp only
    split
    · exact Keeps.pure _
    · exact (keepsLedger_writeSendMessage _).bind fun _ => Keeps.pure _

theorem keepsLedger_eraseFound (key : Name) : KeepsLedger d p a b (eraseFound key) := by
  refine Keeps.get.bind fun w => ?_
  split
  · exact keepsLedger_modify (fun _ => rfl) fun _ => rfl
  · exact Keeps.pure _

theorem keepsLedger_cleanHashEntry : KeepsLedger d p a b (cleanHashEntry c) :=
  keepsLedger_deref fun _ _ => (keepsLedger_eraseFound _).bind fun _ =>
    (keepsLedger_eraseFound _).bind fun _ => keepsLedger_freePeer

theorem keepsLedger_sctpSendmsg : KeepsLedger d p a b sctpSendmsg :=
  keepsLedger_modifyGet (fun _ => rfl) fun _ => rfl

theorem keepsLedger_eraseMsgKey (key : Name) : KeepsLedger d p a b (eraseMsgKey key) := by
  have herase : KeepsLedger d p a b (eraseKey key) :=
    keepsLedger_modify (fun _ => rfl) fun _ => rfl
  refine Keeps.get.bind fun w => ?_
  cases w.sctpMap.lookup key with
  | none => exact herase
  | some tmp => exact keepsLedger_freePeer.bind fun _ => herase

theorem keepsLedger_sendSctpMsg (n : Name) (mtype : MsgType) (data : List UInt8) :
    KeepsLedger d p a b (sendSctpMsg c n mtype data) := by
  refine keepsLedger_deref fun cu _ => ?_
  refine keepsLedger_sctpSendmsg.bind fun sent => ?_
  split
  · exact (keepsLedger_emit _).bind fun _ => Keeps.pure _
  · split
    · exact Keeps.pure _
    · exact (keepsLedger_removeEntry _).bind fun _ => keepsLedger_cleanHashEntry.bind fun _ =>
        keepsLedger_closeFd.bind fun _ => Keeps.get.bind fun w =>
          (keepsLedger_eraseMsgKey _).bind fun _ => Keeps.pure _

/-- An increment of a counter of neither side. -/
theorem keepsLedger_increment {slot : Option Label}
    (hslot : ∀ l, slot = some l → (∀ kind, ¬ NodeLabel d kind p l) ∧
      ∀ kind, e2tCounters d kind p ≠ some l) (n : Nat) :
    KeepsLedger d p a b (increment slot n) := by
  cases slot with
  | none => exact Keeps.throw trivial
  | some l => exact Keeps.modify fun w hw => hw.bump_other (hslot l rfl).1 (hslot l rfl).2 n

theorem keepsLedger_incrementIfSet {slot : Option Label}
    (hslot : ∀ l, slot = some l → (∀ kind, ¬ NodeLabel d kind p l) ∧
      ∀ kind, e2tCounters d kind p ≠ some l) (n : Nat) :
    KeepsLedger d p a b (incrementIfSet slot n) := by
  unfold incrementIfSet
  split
  · exact keepsLedger_increment hslot n
  · exact Keeps.pure _

theorem keepsLedger_countInternal (i : E2TInternalCounters) :
    KeepsLedger d p a b (countInternal c i) := by
  refine keepsLedger_deref fun cu hcu => keepsLedger_incrementIfSet (fun l hl => ?_) 1
  obtain ⟨n, title, rfl⟩ := hcu.internal i l hl
  refine ⟨fun kind h => ?_, fun kind h => ?_⟩
  · obtain ⟨_, _, _, -, heq⟩ := h
    cases heq
  · obtain ⟨_, -, heq⟩ := Option.map_eq_some_iff.mp h
    cases heq

/-- The counter of a node under another direction or procedure is of neither side. -/
theorem other_of_slot (hcu : cu.Labelled) (hne : (d', p') ≠ (d, p)) {kind : CounterKind}
    {l : Label} (hl : cu.counters d' kind p' = some l) :
    (∀ kind, ¬ NodeLabel d kind p l) ∧ ∀ kind, e2tCounters d kind p ≠ some l :=
  ⟨fun _ hn => hne ((hcu.node _ _ _ _ hl).unique hn).1, fun _ => (hcu.node _ _ _ _ hl).ne_e2t⟩

end Keeping

/-! ## The handlers -/

section Handlers

variable {d : Direction} {p : ProcedureCode} {a b : CounterKind → Nat} {message : ReportingMessages}

theorem keepsLedger_gate {n : Name} {k : E2NodeConnectionHandling → M Unit}
    (hk : ∀ handling, KeepsLedger d p a b (k handling)) :
    KeepsLedger d p a b (ifE2SetupRequestReceived n k) :=
  keeps_gate fun _ => hk

theorem keepsLedger_forwardRequestID {mtype : MsgType} {count messageSent : M Unit}
    (hcount : KeepsLedger d p a b count) (hsent : KeepsLedger d p a b messageSent)
    (ies : List (ProtocolIE RequestIEs)) :
    KeepsLedger d p a b (forwardRequestID message mtype count messageSent ies) := by
  induction ies with
  | nil => exact Keeps.pure _
  | cons ie rest ih =>
    unfold forwardRequestID
    cases ie.value with
    | other => exact ih
    | ricRequestID r =>
      dsimp only
      split
      · exact keepsLedger_nextTransaction.bind fun _ =>
          (keepsLedger_writeSendMessage _).bind fun _ => hcount.bind fun _ =>
            keepsLedger_sendRmrMessage.bind fun _ => hsent
      · exact ih

theorem keepsLedger_countIfSet {c : ConnId} {d' : Direction} {p' : ProcedureCode}
    (hcounted : (e2tCounters d' .msgCounter p').isSome → Counted d' d' p') (len : Nat) :
    KeepsLedger d p a b (countMessageIfSet c d' p' len) := by
  unfold countMessageIfSet
  split
  · rename_i hs
    exact keepsLedger_countMessage (hcounted hs)
  · exact Keeps.pure _

/-- The counter of a connection for a procedure the instance does not count. -/
theorem keepsLedger_countOne {c : ConnId} {d' : Direction} (hpair : Counted d d p)
    (hno : ¬ Counted d' d' .e2connectionUpdate) (kind : CounterKind) (n : Nat) :
    KeepsLedger d p a b (do
      increment ((← deref c).counters d' kind .e2connectionUpdate) n) := by
  refine keepsLedger_deref fun cu hcu => keepsLedger_increment (fun l hl => ?_) n
  refine other_of_slot hcu (fun heq => hno ?_) hl
  cases heq
  exact hpair

/-- A reset is converted and reported. -/
theorem keepsLedger_reset {n : Name} {mtype : MsgType} {count : M Unit}
    (hcount : KeepsLedger d p a b count) (xer : Option (List UInt8)) :
    KeepsLedger d p a b (do
      count
      if (← xmlFromPER xer) < 0 then return
      let _ ← sendRequestToXapp n mtype) := by
  refine hcount.bind fun _ => (keepsLedger_xmlFromPER xer).bind fun rc => ?_
  split
  · exact Keeps.pure _
  · exact keepsLedger_report _ _

theorem keepsLedger_errorIndication (m : SctpMsg) (ies : List (ProtocolIE ErrorIndicationIEs)) :
    KeepsLedger d p a b (errorIndication message m ies) := by
  have htail : KeepsLedger d p a b (do
      countMessage message.peerInfo .inIniti .inIniti .errorIndication message.asnLength
      let _ ← sendRequestToXapp message.enodbName.str .ricErrorIndication) :=
    (keepsLedger_countMessage (by decide)).bind fun _ => keepsLedger_report _ _
  refine keepsLedger_gate fun handling => Keeps.get.bind fun w => ?_
  dsimp only
  split
  · exact (keepsLedger_buildAndSendSetupRequest _ _ _).bind fun _ => htail
  · split
    · exact (keepsLedger_sendRequestToXapp _ _).bind fun _ => htail
    · exact htail

/-- A PDU that is no setup request leaves the ledger of every pair. -/
theorem keepsLedger_dispatch (hpair : Counted d d p) (m : SctpMsg) {pdu : E2APPDU}
    (hpdu : pdu.setupIEs = none) : KeepsLedger d p a b (dispatch message m pdu) := by
  cases pdu with
  | nothing => exact Keeps.pure _
  | initiatingMessage i =>
    cases i with
    | e2setup ies => cases hpdu
    | ricServiceUpdate ies =>
      exact keepsLedger_gate fun _ => (keepsLedger_setStatus _ _).bind fun _ =>
        (keepsLedger_countMessage (by decide)).bind fun _ =>
          (keepsLedger_buildAndSendSetupRequest _ _ _).bind fun _ => keepsLedger_setStatus _ _
    | e2nodeConfigurationUpdate =>
      exact keepsLedger_gate fun _ => (keepsLedger_countMessage (by decide)).bind fun _ =>
        keepsLedger_buildAndSendSetupRequest _ _ _
    | errorIndication ies => exact keepsLedger_errorIndication m ies
    | reset =>
      exact keepsLedger_gate fun _ => keepsLedger_reset (keepsLedger_countMessage (by decide)) _
    | ricIndication ies =>
      exact keepsLedger_gate fun _ => (keepsLedger_setStatus _ _).bind fun _ =>
        keepsLedger_forwardRequestID (keepsLedger_countMessage (by decide))
          (keepsLedger_setStatus _ _) ies
    | ricSubscriptionDeleteRequired =>
      exact keepsLedger_gate fun _ => (keepsLedger_countMessage (by decide)).bind fun _ =>
        keepsLedger_report _ _
    | other code => exact keepsLedger_gate fun _ => keepsLedger_countInternal _
  | successfulOutcome o =>
    cases o with
    | reset =>
      exact keepsLedger_gate fun _ => keepsLedger_reset (keepsLedger_countIfSet (by decide) _) _
    | ricControl ies =>
      exact keepsLedger_gate fun _ => keepsLedger_forwardRequestID
        (keepsLedger_countIfSet (by decide) _) (keepsLedger_setStatus _ _) ies
    | ricSubscription =>
      exact keepsLedger_gate fun _ => (keepsLedger_countIfSet (by decide) _).bind fun _ =>
        (keepsLedger_sendRequestToXapp _ _).bind fun _ => keepsLedger_setStatus _ _
    | ricSubscriptionDelete =>
      exact keepsLedger_gate fun _ => (keepsLedger_setStatus _ _).bind fun _ =>
        (keepsLedger_countIfSet (by decide) _).bind fun _ =>
          (keepsLedger_sendRequestToXapp _ _).bind fun _ => keepsLedger_setStatus _ _
    | e2connectionUpdate =>
      exact keepsLedger_gate fun _ => keepsLedger_countOne hpair (by decide) _ _
    | other code => exact keepsLedger_gate fun _ => keepsLedger_countInternal _
  | unsuccessfulOutcome o =>
    cases o with
    | ricControl ies =>
      exact keepsLedger_gate fun _ => keepsLedger_forwardRequestID
        (keepsLedger_countMessage (by decide)) (Keeps.pure _) ies
    | ricSubscription | ricSubscriptionDelete =>
      exact keepsLedger_gate fun _ => (keepsLedger_countMessage (by decide)).bind fun _ =>
        keepsLedger_report _ _
    | e2connectionUpdate =>
      exact keepsLedger_gate fun _ => keepsLedger_countOne hpair (by decide) _ _
    | other code => exact keepsLedger_gate fun _ => keepsLedger_countInternal _

theorem keepsLedger_reportFailure (c : ConnId) (what : String) :
    KeepsLedger d p a b (reportFailure c what) :=
  keepsLedger_deref fun _ _ => (keepsLedger_writeSendMessage _).bind fun _ =>
    (keepsLedger_countInternal _).bind fun _ => keepsLedger_report _ _

theorem keepsLedger_closeConnection (c : ConnId) (answers : Answers) :
    KeepsLedger d p a b (closeConnection c answers) := by
  refine (keepsLedger_setAnswers answers).bind fun _ =>
    (keepsLedger_reportFailure _ _).bind fun _ => keepsLedger_deref fun _ _ =>
      (keepsLedger_removeEntry _).bind fun _ => Keeps.get.bind fun w => ?_
  split
  · exact keepsLedger_closeFd.bind fun _ => keepsLedger_cleanHashEntry
  · exact Keeps.pure _

theorem keepsLedger_closeOnError (c : ConnId) (answers : Answers) :
    KeepsLedger d p a b (closeOnError c answers) :=
  (keepsLedger_setAnswers answers).bind fun _ => (keepsLedger_reportFailure _ _).bind fun _ =>
    keepsLedger_closeFd.bind fun _ => keepsLedger_deref fun _ _ =>
      (keepsLedger_removeEntry _).bind fun _ => keepsLedger_cleanHashEntry

theorem keepsLedger_clearAll (m : RmrMsg) : KeepsLedger d p a b (clearAll m) := by
  have hpeer (key : Name) : KeepsLedger d p a b (clearPeer key) := by
    refine Keeps.get.bind fun w => ?_
    cases w.sctpMap.lookup key with
    | none => exact Keeps.pure _
    | some c => exact keepsLedger_deref fun _ _ => keepsLedger_closeFd.bind fun _ =>
        (keepsLedger_writeSendMessage _).bind fun _ =>
          (keepsLedger_sendRequestToXapp _ _).bind fun _ => keepsLedger_freePeer
  have hloop (v : List Name) : KeepsLedger d p a b (clearPeers v) := by
    induction v with
    | nil => exact Keeps.pure _
    | cons key v ih =>
      unfold clearPeers
      split
      · exact (hpeer key).bind fun _ => ih
      · exact ih
  exact Keeps.get.bind fun w => (hloop _).bind fun _ =>
    keepsLedger_modify (fun _ => rfl) fun _ => rfl

theorem keepsLedger_keepAlive : KeepsLedger d p a b keepAlive := by
  have hanswer (msg : RmrMbuf) := keepsLedger_rmrSendMsg (d := d) (p := p) (a := a) (b := b) msg
  exact Keeps.get.bind fun _ => (keepsLedger_writeSendMessage _).bind fun _ =>
    keepsLedger_nextTransaction.bind fun _ => (keepsLedger_writeSendMessage _).bind fun _ =>
      Keeps.get.bind fun _ => (hanswer _).bind fun _ => (keepsLedger_emit _).bind fun _ =>
        keepsLedger_writeSendMessage _

theorem keepsLedger_healthCheck : KeepsLedger d p a b healthCheck :=
  keepsLedger_nextTransaction.bind fun _ => keepsLedger_emit _

theorem keepsLedger_recvmsg (result : Option ReadResult) :
    KeepsLedger d p a b (recvmsg result) := by
  unfold recvmsg
  rcases result with _ | (m | _ | answers | answers) <;> exact keepsLedger_writeSendMessage _

theorem keepsLedger_countAndSend {c : ConnId} {m : RmrMsg} {count : Nat → M Unit} {sent : M Unit}
    (hcount : ∀ len, KeepsLedger d p a b (count len)) (hsent : KeepsLedger d p a b sent)
    (data : List UInt8) : KeepsLedger d p a b (countAndSend c m count sent data) := by
  refine (hcount _).bind fun _ => (keepsLedger_sendSctpMsg _ _ _).bind fun rc => ?_
  split
  · exact Keeps.pure _
  · exact hsent.bind fun _ => Keeps.pure _

theorem keepsLedger_record (n : Name) (s : Option E2TProcedureStates) :
    KeepsLedger d p a b (record n s) := by
  cases s with
  | none => exact Keeps.pure _
  | some s => exact keepsLedger_setStatus n s

/-- A case that counts a message in one row of both tables. -/
theorem keepsLedger_sendToNode {c : ConnId} {m : RmrMsg} {k : NodeCase}
    (hk : nodeCase m.mtype = some k) (hguarded : k.guarded = false)
    (hrow : k.e2tDirection = k.direction) : KeepsLedger d p a b (sendToNode c m) := by
  have hcounted := counted_of_case hk
  rw [hguarded, hrow] at hcounted
  have hcount (len : Nat) : KeepsLedger d p a b (k.count c len) := by
    unfold NodeCase.count
    rw [hguarded, if_neg Bool.false_ne_true, hrow]
    exact keepsLedger_countMessage (hcounted.resolve_left Bool.false_ne_true)
  rw [sendToNode_eq hk]
  refine (keepsLedger_record _ _).bind fun _ => ?_
  cases k.data m with
  | none => exact Keeps.pure _
  | some data => exact keepsLedger_countAndSend hcount (keepsLedger_record _ _) data

end Handlers

/-! ## What enters it -/

section Entering

variable {d d' e : Direction} {p p' : ProcedureCode} {a b : CounterKind → Nat} {w w' : World}
  {c : ConnId} {cu : ConnectedCU} {m : RmrMsg} {rc : Int}

theorem KeepsLedger.of_ok {α : Type} {x : M α} {r : α} (hk : KeepsLedger d p a b x)
    (hw : Ledger d p a b w) (h : x w = .ok r w') : Ledger d p a b w' := by
  have hends := hk w hw
  rw [h] at hends
  exact hends.state

/-- The answer to a setup is counted for the instance, and for a node that has the counters. -/
theorem Ledger.countSetupOutcome (hw : Ledger d p a b w) {direction : Direction} {len : Nat}
    (hcounted : Counted direction direction .e2setup)
    (h : E2Term.countSetupOutcome c direction len w = .ok () w') :
    ∃ cu, w.heap.get c = some cu ∧
      Ledger d p (fun k => a k +
          if (cu.counters direction .msgCounter .e2setup).isSome then
            share (d, p) (direction, .e2setup) len k else 0)
        (fun k => b k + share (d, p) (direction, .e2setup) len k) w' := by
  unfold E2Term.countSetupOutcome at h
  cases hc : w.heap.get c with
  | none =>
    rw [bind_of_error (deref_of_freed hc)] at h
    cases h
  | some cu =>
    refine ⟨cu, rfl, ?_⟩
    have hlab := hw.labelled c cu hc
    have he2t : ∀ kind, ∃ k, e2tCounters direction kind .e2setup = some k :=
      fun kind => Option.isSome_iff_exists.mp (hcounted kind).2
    choose k hk using he2t
    have hkinds := hlab.kinds direction .e2setup fun kind => (hcounted kind).1
    rw [bind_of_ok (deref_of_get hc)] at h
    cases hmsg : cu.counters direction .msgCounter .e2setup with
    | none =>
      have hbytes : cu.counters direction .bytesCounter .e2setup = none := by
        simpa [hmsg] using hkinds
      rw [hmsg, bind_of_ok (rfl : incrementIfSet none 1 w = .ok () w),
        bind_of_ok (deref_of_get hc), hbytes,
        bind_of_ok (rfl : incrementIfSet none len w = .ok () w), hk,
        bind_of_ok (incrementIfSet_some _ _ _), hk, incrementIfSet_some] at h
      cases h
      simpa using hw.bump_e2ts hk len
    | some l =>
      obtain ⟨l', hbytes⟩ : ∃ l', cu.counters direction .bytesCounter .e2setup = some l' := by
        rw [← Option.isSome_iff_exists, ← hkinds, hmsg]
        rfl
      have hget : ∀ (l : Label) n, (w.bump l n).heap.get c = some cu := fun _ _ => hc
      rw [hmsg, bind_of_ok (incrementIfSet_some _ _ _), bind_of_ok (deref_of_get (hget _ _)),
        hbytes, bind_of_ok (incrementIfSet_some _ _ _), hk, bind_of_ok (incrementIfSet_some _ _ _),
        hk, incrementIfSet_some] at h
      cases h
      have hs : Slots cu direction direction .e2setup (fun kind => CounterKind.rec l l' kind)
          k := by
        refine ⟨fun kind => ?_, hk⟩
        cases kind
        · exact hmsg
        · exact hbytes
      simpa [World.bumps] using hw.bumps hc hs

/-- The ledger of `d` and `p` moves, and is even afterwards exactly when it was and the step was not
`bad`. -/
def Drifts (d : Direction) (p : ProcedureCode) (a b : CounterKind → Nat) (bad : Prop) (w : World) :
    Prop :=
  ∃ x y : CounterKind → Nat,
    Ledger d p (fun k => a k + x k) (fun k => b k + y k) w ∧ (x = y ↔ ¬ bad)

theorem Drifts.of_iff {bad bad' : Prop} (h : Drifts d p a b bad w) (hiff : bad ↔ bad') :
    Drifts d p a b bad' w := by
  rwa [← hiff]

theorem drifts_of_ledger {bad : Prop} (h : Ledger d p a b w) (hbad : ¬ bad) :
    Drifts d p a b bad w :=
  ⟨fun _ => 0, fun _ => 0, h, iff_of_true rfl hbad⟩

theorem drifts_of_shares {bad : Prop} {q q' : Direction × ProcedureCode} {len : Nat}
    (h : Ledger d p (fun k => a k + share (d, p) q len k) (fun k => b k + share (d, p) q' len k) w)
    (hbad : (q = (d, p) ↔ q' = (d, p)) ↔ ¬ bad) : Drifts d p a b bad w :=
  ⟨_, _, h, share_eq_share_iff.trans hbad⟩

theorem drifts_of_countAndSend {bad : Prop} (hw : Ledger d p a b w) {data : List UInt8}
    (hcounted : Counted d' e p') (hbad : ((d', p') = (d, p) ↔ (e, p') = (d, p)) ↔ ¬ bad)
    (h : countAndSend c m (countMessage c d' e p') (pure ()) data w = .ok rc w') :
    Drifts d p a b bad w' := by
  unfold countAndSend at h
  obtain ⟨_, w₁, hcount, h⟩ := bind_eq_ok.mp h
  refine drifts_of_shares (KeepsLedger.of_ok ?_ (hw.countMessage hcounted hcount) h) hbad
  refine (keepsLedger_sendSctpMsg _ _ _).bind fun rc => ?_
  split
  · exact Keeps.pure _
  · exact Keeps.pure _

/-- A message that is counted under two directions, of which `q` is not the first. -/
theorem one_sided {q q' q'' : Direction × ProcedureCode} (h : q' ≠ q) :
    (q' = q ↔ q'' = q) ↔ ¬ q = q'' := by
  rw [iff_false_left h, eq_comm]

/-! ## The messages that are counted on one side -/

/-- The connection of a node has no counter for the answers to its setup. -/
def Unlisted (w : World) (n : Name) (direction : Direction) : Prop :=
  ∀ c cu, w.sctpMap.lookup n = some c → w.heap.get c = some cu →
    cu.counters direction .msgCounter .e2setup = none

/-- A message that is counted on one side of the ledger of `q` only. -/
def RmrMsg.Miscounted (m : RmrMsg) (w : World) (q : Direction × ProcedureCode) : Prop :=
  match m.mtype with
  | .ricErrorIndication => q = (.inIniti, .errorIndication)
  | .ricE2ResetReq => q = (.inIniti, .reset) ∧ (perFromXML m).isSome
  | .ricE2SetupResp =>
    q = (.outSucc, .e2setup) ∧ (perFromXML m).isSome ∧ Unlisted w m.meid .outSucc
  | .ricE2SetupFailure =>
    q = (.outUnSucc, .e2setup) ∧ (perFromXML m).isSome ∧ Unlisted w m.meid .outUnSucc
  | _ => False

theorem setupOutcome_drifts (hw : Ledger d p a b w) (hl : w.sctpMap.lookup m.meid = some c)
    {direction : Direction} (hcounted : Counted direction direction .e2setup)
    {s : E2TProcedureStates}
    (h : convertAndSend c m (countSetupOutcome c direction)
      (setE2ProcedureOngoingStatus m.meid s) w = .ok rc w') :
    Drifts d p a b ((d, p) = (direction, .e2setup) ∧ (perFromXML m).isSome ∧
      Unlisted w m.meid direction) w' := by
  unfold convertAndSend at h
  cases hper : perFromXML m with
  | none =>
    rw [hper] at h
    cases h
    exact drifts_of_ledger hw fun hbad => by cases hbad.2.1
  | some data =>
    rw [hper] at h
    change countAndSend _ _ _ _ _ w = _ at h
    unfold countAndSend at h
    obtain ⟨_, w₁, hcount, h⟩ := bind_eq_ok.mp h
    obtain ⟨cu, hc, hledger⟩ := hw.countSetupOutcome hcounted hcount
    have hrest : ∀ a b, KeepsLedger d p a b (do
        if (← sendDirectionalSctpMsg c m data) ≠ 0 then return -6
        setE2ProcedureOngoingStatus m.meid s
        return 0) := by
      intro a b
      refine (keepsLedger_sendSctpMsg _ _ _).bind fun rc => ?_
      split
      · exact Keeps.pure _
      · exact (keepsLedger_setStatus _ _).bind fun _ => Keeps.pure _
    have hledger' := (hrest _ _).of_ok hledger h
    have hunlisted : Unlisted w m.meid direction ↔
        cu.counters direction .msgCounter .e2setup = none := by
      refine ⟨fun hun => hun c cu hl hc, fun hnone c' cu' hl' hc' => ?_⟩
      rw [hl] at hl'
      cases hl'
      rw [hc] at hc'
      cases hc'
      exact hnone
    refine ⟨_, _, hledger', ?_⟩
    rw [hunlisted]
    cases hslot : cu.counters direction .msgCounter .e2setup with
    | none =>
      rw [eq_comm]
      refine share_eq_zero_iff.trans
        (not_congr ⟨fun heq => ⟨heq.symm, rfl, rfl⟩, fun h => h.1.symm⟩)
    | some l => simp

/-- A message for a node moves the ledger as it is counted. -/
theorem sendToNode_drifts (hpair : Counted d d p) (hw : Ledger d p a b w)
    (hl : w.sctpMap.lookup m.meid = some c) (h : sendToNode c m w = .ok rc w') :
    Drifts d p a b (m.Miscounted w (d, p)) w' := by
  have heven (hk : KeepsLedger d p a b (sendToNode c m)) : Drifts d p a b False w' :=
    drifts_of_ledger (hk.of_ok hw h) not_false
  unfold sendToNode at h
  unfold RmrMsg.Miscounted
  cases hm : m.mtype with
  | ricE2SetupResp | ricE2SetupFailure =>
    simp only [hm] at h
    exact setupOutcome_drifts hw hl (by decide) h
  | ricErrorIndication =>
    simp only [hm] at h
    refine drifts_of_countAndSend hw (by decide) (one_sided fun heq => ?_) h
    cases heq
    exact absurd hpair (by decide)
  | ricE2ResetReq =>
    simp only [hm] at h
    unfold convertAndSend at h
    cases hper : perFromXML m with
    | none =>
      rw [hper] at h
      cases h
      exact drifts_of_ledger hw fun hbad => by cases hbad.2
    | some data =>
      rw [hper] at h
      refine drifts_of_countAndSend hw (by decide) ?_ h
      refine (one_sided fun heq => ?_).trans (not_congr (and_iff_left rfl).symm)
      cases heq
      exact absurd hpair (by decide)
  | ricSubReq | ricSubDelReq | ricControlReq | ricServiceQuery | ricE2NodeConfigUpdateAck
  | ricE2NodeConfigUpdateFailure | ricServiceUpdateAck | ricServiceUpdateFailure | ricE2ResetResp =>
    exact heven (keepsLedger_sendToNode (by rw [hm]; rfl) rfl rfl)
  | _ =>
    rw [sendToNode_unlisted (by rw [hm]; rfl)] at heven
    exact heven (Keeps.pure _)

/-! ## A step -/

/-- An action that counts a message on one side only. -/
inductive Miscounts (w : World) (q : Direction × ProcedureCode) : Action → Prop where
  | setup {x : ConnId × ConnectedCU × SetupScan} {act : Action} :
      setupOf w act = some x → x.2.2.accepted → q = (.inIniti, .e2setup) → Miscounts w q act
  | message {m : RmrMsg} : m.Reaches w → m.Miscounted w q → Miscounts w q (.rmr (some m))

/-- The pairs that may lose their balance. -/
theorem Miscounts.pair {q : Direction × ProcedureCode} {act : Action} (h : Miscounts w q act) :
    q ∈ [(.inIniti, .e2setup), (.inIniti, .errorIndication), (.inIniti, .reset),
      (.outSucc, .e2setup), (.outUnSucc, .e2setup)] := by
  cases h with
  | setup _ _ hq => simp [hq]
  | message _ hmis =>
    unfold RmrMsg.Miscounted at hmis
    split at hmis
    · simp [hmis]
    · simp [hmis.1]
    · simp [hmis.1]
    · simp [hmis.1]
    · exact hmis.elim

theorem ConnectedCU.Labelled.accept (h : cu.Labelled) (msg : SctpMsg) :
    (cu.accept msg).Labelled := by
  have hbuilt := h.build cu.enodbName.str
  unfold ConnectedCU.accept
  dsimp only
  split
  · exact ⟨hbuilt.node, hbuilt.internal, hbuilt.kinds⟩
  · exact hbuilt

theorem Ledger.set (hw : Ledger d p a b w) (hc : w.heap.get c = some cu) {cu' : ConnectedCU}
    (hlab : cu'.Labelled) : Ledger d p a b { w with heap := w.heap.set c cu' } := by
  refine hw.congr (fun i cu'' hi => ?_) rfl
  change (w.heap.set c cu').get i = some cu'' at hi
  rw [CellHeap.get_set _ _ _ _ hc] at hi
  split at hi
  · cases hi
    exact hlab
  · exact hw.labelled i cu'' hi

/-- An accepted setup request is counted for its node only. -/
theorem Ledger.handleE2SetupReq (hw : Ledger d p a b w) (message : ReportingMessages)
    (hc : w.heap.get message.peerInfo = some cu) {msg : SctpMsg} {t : Int}
    (h : E2Term.handleE2SetupReq message msg t w = .ok () w') :
    Ledger d p (fun k => a k + share (d, p) (.inIniti, .e2setup) message.asnLength k) b w' := by
  rw [handleE2SetupReq_eq message hc] at h
  have hledger := hw.set hc ((hw.labelled _ _ hc).accept msg)
  let l (kind : CounterKind) : Label := .node cu.enodbName.str .IN "SetupRequest" kind
  have hslot : ∀ kind, (cu.accept msg).counters .inIniti kind .e2setup = some (l kind) := by
    intro kind
    rw [ConnectedCU.accept_counters]
    rfl
  unfold forwardSetup at h
  rw [bind_of_ok (deref_of_get (get_set_self hc _)), hslot, bind_of_ok (incrementIfSet_some _ _ _),
    hslot, bind_of_ok (incrementIfSet_some _ _ _)] at h
  have hnode : ∀ kind, NodeLabel .inIniti kind .e2setup (l kind) := fun _ => ⟨_, _, _, rfl, rfl⟩
  have hcounted := hledger.bump_nodes hnode message.asnLength
  refine KeepsLedger.of_ok ?_ hcounted h
  exact (keepsLedger_buildAndSendSetupRequest _ _ _).bind fun _ =>
    keepsLedger_modify (fun _ => rfl) fun _ => rfl

theorem Ledger.e2setup (hw : Ledger d p a b w) (message : ReportingMessages)
    (hc : w.heap.get message.peerInfo = some cu) {msg : SctpMsg}
    {ies : List (ProtocolIE E2setupRequestIEs)} {s : SetupScan}
    (hs : scanSetup message.enodbName ies = some s)
    (h : E2Term.e2setup message msg ies w = .ok () w') :
    Drifts d p a b (s.accepted ∧ (d, p) = (.inIniti, .e2setup)) w' := by
  unfold E2Term.e2setup at h
  rw [bind_of_ok (collectSetupRequestData_eq hc hs)] at h
  have hlab : ({ cu with enodbName := s.peer } : ConnectedCU).Labelled :=
    ⟨(hw.labelled _ _ hc).node, (hw.labelled _ _ hc).internal, (hw.labelled _ _ hc).kinds⟩
  have hset := hw.set hc hlab
  have hregistered : Ledger d p a b (w.register message.peerInfo cu s.peer s.keys) := by
    unfold World.register
    exact hset.same rfl rfl
  dsimp only at h
  split at h
  · rename_i hneg
    cases h
    exact drifts_of_ledger hregistered fun hbad => absurd hbad.1 (Int.not_le.mpr hneg)
  · rename_i hpos
    have hacc : s.accepted := Int.not_lt.mp hpos
    have hshare := hregistered.handleE2SetupReq { message with enodbName := s.message }
      (register_get hc s.peer s.keys) h
    refine ⟨_, fun _ => 0, hshare, share_eq_zero_iff.trans ?_⟩
    rw [and_iff_right hacc, ne_comm]

/-- A read that brings no setup request leaves the ledger. -/
theorem keepsLedger_readAction (hpair : Counted d d p) {result : Option ReadResult}
    (hresult : ∀ msg pdu, result = some (.msg msg) → msg.pdu = some pdu → pdu.setupIEs = none) :
    KeepsLedger d p a b (readAction c result) := by
  have hpass : KeepsLedger d p a b (readPass c result) := by
    refine keepsLedger_deref fun cu _ => (keepsLedger_recvmsg result).bind fun _ => ?_
    rcases result with _ | (msg | _ | answers | answers)
    · exact Keeps.pure _
    · refine (keepsLedger_setAnswers _).bind fun _ => ?_
      cases hpdu : msg.pdu with
      | none => exact Keeps.pure _
      | some pdu =>
        exact (keepsLedger_dispatch hpair msg (hresult msg pdu rfl hpdu)).bind fun _ => Keeps.pure _
    · exact Keeps.pure _
    · exact Keeps.pure _
    · exact Keeps.pure _
  refine hpass.bind fun exit => ?_
  cases exit with
  | done answers => exact keepsLedger_closeConnection c answers
  | _ => exact Keeps.pure _

theorem readAction_drifts (hpair : Counted d d p) (hw : Ledger d p a b w)
    {result : Option ReadResult} (h : readAction c result w = .ok () w') :
    Drifts d p a b (Miscounts w (d, p) (.read c result)) w' := by
  by_cases hsetup : ∃ msg pdu ies, result = some (.msg msg) ∧ msg.pdu = some pdu ∧
      pdu.setupIEs = some ies
  · obtain ⟨msg, pdu, ies, rfl, hpdu, hies⟩ := hsetup
    cases hc : w.heap.get c with
    | none =>
      rw [readAction_freed hc] at h
      cases h
    | some cu =>
      rw [readAction_eq hc hpdu, dispatch_setup hies] at h
      have hreceived : Ledger d p a b (w.received msg) := hw.same rfl rfl
      have hc₁ : (w.received msg).heap.get c = some cu := hc
      let message : ReportingMessages := ⟨cu.enodbName, c, msg.payload.length⟩
      cases hs : scanSetup cu.enodbName ies with
      | none =>
        obtain ⟨w'', hrun, -⟩ := e2setup_overflow message hc₁ msg hs
        rw [hrun] at h
        cases h
      | some s =>
        have hx := setupOf_setup hpdu hies hc hs
        refine (hreceived.e2setup message hc₁ hs h).of_iff ⟨fun hbad => ?_, fun hbad => ?_⟩
        · exact .setup hx hbad.1 hbad.2
        · cases hbad with
          | setup hx' hacc hq =>
            rw [hx] at hx'
            cases hx'
            exact ⟨hacc, hq⟩
  · refine drifts_of_ledger
      ((keepsLedger_readAction hpair fun msg pdu hmsg hpdu => ?_).of_ok hw h) ?_
    · cases hies : pdu.setupIEs with
      | none => rfl
      | some ies => exact (hsetup ⟨msg, pdu, ies, hmsg, hpdu, hies⟩).elim
    · intro hbad
      cases hbad with
      | setup hx hacc hq =>
        obtain ⟨msg, pdu, ies, hread, hpdu, hies, -, -⟩ := setupOf_eq_some hx
        cases hread
        exact hsetup ⟨msg, pdu, ies, rfl, hpdu, hies⟩

theorem receiveXappMessages_drifts (hpair : Counted d d p) (hw : Ledger d p a b w)
    (h : receiveXappMessages (some m) w = .ok rc w') :
    Drifts d p a b (Miscounts w (d, p) (.rmr (some m))) w' := by
  have hiff : Miscounts w (d, p) (.rmr (some m)) ↔ m.Reaches w ∧ m.Miscounted w (d, p) := by
    refine ⟨fun hbad => ?_, fun hbad => .message hbad.1 hbad.2⟩
    cases hbad with
    | setup hx _ _ => cases hx
    | message hreach hmis => exact ⟨hreach, hmis⟩
  rw [hiff]
  have hans : Ledger d p a b { w with answers := m.answers } := hw.same rfl rfl
  rw [receiveXappMessages, bind_of_ok (rfl : (modify _ : M Unit) w = .ok () _)] at h
  by_cases hst : m.state = .ok
  · rw [if_neg (not_not.mpr hst)] at h
    have hnode (hdeliver : deliver m { w with answers := m.answers } = .ok rc w') :
        Drifts d p a b (m.Reaches w ∧ m.Miscounted w (d, p)) w' := by
      cases hl : w.sctpMap.lookup m.meid with
      | none =>
        rw [deliver_none (w := { w with answers := m.answers }) hl] at hdeliver
        cases hdeliver
        exact drifts_of_ledger hans fun hbad => by simp [RmrMsg.Reaches, hl] at hbad
      | some c =>
        rw [deliver_some (w := { w with answers := m.answers }) hl] at hdeliver
        have hreach : m.Reaches w := ⟨hst, by simp [hl]⟩
        rw [and_iff_right hreach]
        exact sendToNode_drifts (w := { w with answers := m.answers }) hpair hans hl hdeliver
    have hself {x : M Unit} (hk : KeepsLedger d p a b x) (hno : ¬ m.Miscounted w (d, p))
        (hrun : (do
          x
          return 0) { w with answers := m.answers } = .ok rc w') :
        Drifts d p a b (m.Reaches w ∧ m.Miscounted w (d, p)) w' :=
      drifts_of_ledger (KeepsLedger.of_ok (hk.bind fun _ => Keeps.pure _) hans hrun)
        fun hbad => hno hbad.2
    cases hm : m.mtype with
    | ricSctpClearAll =>
      rw [hm] at h
      exact hself (keepsLedger_clearAll m) (by simp [RmrMsg.Miscounted, hm]) h
    | e2TermKeepAliveReq =>
      rw [hm] at h
      exact hself keepsLedger_keepAlive (by simp [RmrMsg.Miscounted, hm]) h
    | ricHealthCheckReq =>
      rw [hm] at h
      exact hself keepsLedger_healthCheck (by simp [RmrMsg.Miscounted, hm]) h
    | _ =>
      rw [hm] at h
      exact hnode h
  · rw [if_pos hst] at h
    cases h
    exact drifts_of_ledger hans fun hbad => hst hbad.1.1

/-- One step of the listener. -/
theorem Action.drifts {act : Action} (hpair : Counted d d p) (hw : Ledger d p a b w)
    (h : act.run w = .ok () w') : Drifts d p a b (Miscounts w (d, p) act) w' := by
  cases act with
  | accept request =>
    refine drifts_of_ledger ?_ fun hbad => by cases hbad with | setup hx _ _ => cases hx
    cases hout : request.outcome with
    | registered =>
      simp only [Action.run, acceptLoop, hout] at h
      cases h
      refine hw.congr (fun i cu hi => ?_) rfl
      change (w.heap.alloc _).get i = some cu at hi
      rw [CellHeap.get_alloc] at hi
      split at hi
      · cases hi
        exact labelled_new _ _
      · exact hw.labelled i cu hi
    | _ =>
      simp only [Action.run, acceptLoop, hout] at h
      cases h
      exact hw
  | read c result => exact readAction_drifts hpair hw h
  | pollError c answers =>
    exact drifts_of_ledger ((keepsLedger_closeOnError c answers).of_ok hw h) fun hbad => by
      cases hbad with | setup hx _ _ => cases hx
  | rmr rcvMessage =>
    obtain ⟨rc, w'', hrun, h⟩ := bind_eq_ok.mp h
    cases h
    cases rcvMessage with
    | none =>
      cases hrun
      exact drifts_of_ledger hw fun hbad => by cases hbad with | setup hx _ _ => cases hx
    | some m => exact receiveXappMessages_drifts hpair hw hrun

theorem ledger_init (params : SctpParams) :
    Ledger d p (fun _ => 0) (fun _ => 0) (World.init params) where
  labelled c cu hc := by cases hc
  finite := Tally.finite_zero
  sums kind := by
    unfold instanceTotal nodesTotal
    cases e2tCounters d kind p <;> cases prometheusList d kind p <;>
      simp [World.init, Tally.total_zero]

theorem ledger_of_run {params : SctpParams} {h : List (Step World Action)} (hpair : Counted d d p)
    (r : ListenerRun params h w) : ∃ a b, Ledger d p a b w := by
  refine r.invariant (fun w => ∃ a b, Ledger d p a b w) ⟨_, _, ledger_init params⟩ ?_
  rintro s act s' ⟨a, b, hl⟩ hstep
  obtain ⟨x, y, hl', -⟩ := Action.drifts hpair hl hstep
  exact ⟨_, _, hl'⟩

end Entering

/-- For every run and every pair that both tables count: the counters of the instance are what the
counters of the nodes add up to, in every state of the run, exactly when no message of the run was
counted on one side only. -/
theorem always_balanced_iff {params : SctpParams} {h : List (Step World Action)} {w : World}
    (d : Direction) (p : ProcedureCode) (hpair : Counted d d p) (r : ListenerRun params h w) :
    ((∀ st ∈ h, Balanced d p st.pre) ∧ Balanced d p w) ↔
      ∀ st ∈ h, ¬ Miscounts st.pre (d, p) st.act := by
  have hinit : Balanced d p (World.init params) := (ledger_init params).balanced_iff.mpr rfl
  refine r.always_iff (Balanced d p) (fun s act => ¬ Miscounts s (d, p) act) hinit ?_
  intro h s act s' r' hstep hbal
  obtain ⟨a, b, hl⟩ := ledger_of_run hpair r'
  obtain ⟨x, y, hl', hxy⟩ := Action.drifts hpair hl hstep
  have hab : a = b := hl.balanced_iff.mp hbal
  subst hab
  rw [hl'.balanced_iff, ← hxy]
  constructor
  · intro heq
    funext kind
    have hkind := congrFun heq kind
    exact Nat.add_left_cancel hkind
  · rintro rfl
    rfl

/-- A service update is counted on both sides, also in a run that has counted a setup request for
its node only. -/
theorem always_balanced_iff_serviceUpdate :
    ∃ h w, ListenerRun sampleParams h w ∧
      instanceTotal w .inIniti .msgCounter .ricServiceUpdate = 1 ∧
      nodesTotal w .inIniti .msgCounter .ricServiceUpdate = 1 := by
  obtain ⟨h, w, r, hone⟩ := sampleRun_of_any
    [.accept sampleRequest, sampleRead 0 (sampleSetup 1),
      sampleRead 0 (.initiatingMessage (.ricServiceUpdate [⟨idTransactionID, .transactionID 2⟩]))]
    (fun q => instanceTotal q.2 .inIniti .msgCounter .ricServiceUpdate = 1) (by decide +kernel)
  have hbalanced := (always_balanced_iff .inIniti .ricServiceUpdate (by decide) r).mpr
    fun st _ hbad => by simpa using hbad.pair
  exact ⟨h, w, r, hone, (hbalanced.2 .msgCounter).symm.trans hone⟩

/-- A setup request that is accepted is counted for its node and not for the instance. -/
theorem setup_request_unbalanced :
    ¬ ∀ params h w d p, ListenerRun params h w → Counted d d p → Balanced d p w := by
  intro hall
  obtain ⟨h, w, r, hnone, hone⟩ := sampleRun_of_any
    [.accept sampleRequest, sampleRead 0 (sampleSetup 1)]
    (fun q => instanceTotal q.2 .inIniti .msgCounter .e2setup = 0 ∧
      q.2.registry (.node (sampleName 1) .IN "SetupRequest" .msgCounter) = 1) (by decide +kernel)
  have hpair : Counted .inIniti .inIniti .e2setup := by decide
  obtain ⟨a, b, hl⟩ := ledger_of_run hpair r
  have hle := Tally.le_total (f := fun n => Label.node n .IN "SetupRequest" .msgCounter)
    (fun n n' heq => by cases heq; rfl) hl.finite (sampleName 1)
  have hbalanced : instanceTotal w .inIniti .msgCounter .e2setup =
      Tally.total w.registry fun n => Label.node n .IN "SetupRequest" .msgCounter :=
    hall _ h w _ _ r hpair .msgCounter
  rw [hone, ← hbalanced, hnone] at hle
  cases hle

end E2Term
