import E2Term.Listener

/-!
# What the handler of one node may change

A handler that works for the node named `n` sees one entry of the procedure map. `Touches n` is
what it may change: the status of that entry, buffers and counters, and what was sent. The
connections, their descriptors and `sctpMap` stay.
-/

namespace E2Term

open CString Effect

/-- `w'` comes from `w` by a handler for the node `n` that may record the statuses in `writes` and
send the outputs in `sends`. -/
structure Touches (n : Name) (writes : E2TProcedureStates → Prop) (sends : Output → Prop)
    (w w' : World) : Prop where
  params : w'.params = w.params
  heap : w'.heap = w.heap
  fds : w'.fds = w.fds
  sctpMap : w'.sctpMap = w.sctpMap
  entries : ∀ k,
    (w'.connectionHandlingPerE2NodeMap.lookup k).map (·.e2SetupProcedureTransactionId) =
    (w.connectionHandlingPerE2NodeMap.lookup k).map (·.e2SetupProcedureTransactionId)
  others : ∀ k, k ≠ n → w'.connectionHandlingPerE2NodeMap.lookup k =
    w.connectionHandlingPerE2NodeMap.lookup k
  status : w'.statusOf n = w.statusOf n ∨ ∃ s, writes s ∧ w'.statusOf n = some s
  sent : ∃ out, w'.outbox = w.outbox ++ out ∧ ∀ o ∈ out, sends o

/-- The statuses of a handler that records none. -/
def noStatus : E2TProcedureStates → Prop := fun _ => False

/-- The outputs of a handler that sends nothing. -/
def noOutput : Output → Prop := fun _ => False

/-- A message to RMR with the MEID `n`. -/
def RmrTo (n : Name) : Output → Prop
  | .rmr msg _ => msg.meid = n
  | _ => False

section Order

variable {n : Name} {writes writes' : E2TProcedureStates → Prop} {sends sends' : Output → Prop}
  {w w' w'' : World}

theorem Touches.refl (w : World) : Touches n writes sends w w :=
  ⟨rfl, rfl, rfl, rfl, fun _ => rfl, fun _ _ => rfl, .inl rfl, [], by simp, by simp⟩

theorem Touches.trans (h : Touches n writes sends w w') (h' : Touches n writes sends w' w'') :
    Touches n writes sends w w'' where
  params := h'.params.trans h.params
  heap := h'.heap.trans h.heap
  fds := h'.fds.trans h.fds
  sctpMap := h'.sctpMap.trans h.sctpMap
  entries k := (h'.entries k).trans (h.entries k)
  others k hk := (h'.others k hk).trans (h.others k hk)
  status := by
    rcases h'.status with heq | hw
    · rw [heq]
      exact h.status
    · exact .inr hw
  sent := by
    obtain ⟨out, hout, hp⟩ := h.sent
    obtain ⟨out', hout', hp'⟩ := h'.sent
    refine ⟨out ++ out', by rw [hout', hout, List.append_assoc], fun o ho => ?_⟩
    rcases List.mem_append.mp ho with ho | ho
    · exact hp o ho
    · exact hp' o ho

theorem Touches.mono (hw : ∀ s, writes s → writes' s) (hs : ∀ o, sends o → sends' o)
    (h : Touches n writes sends w w') : Touches n writes' sends' w w' where
  params := h.params
  heap := h.heap
  fds := h.fds
  sctpMap := h.sctpMap
  entries := h.entries
  others := h.others
  status := h.status.imp_right fun ⟨s, h₁, h₂⟩ => ⟨s, hw s h₁, h₂⟩
  sent := by
    obtain ⟨out, hout, hp⟩ := h.sent
    exact ⟨out, hout, fun o ho => hs o (hp o ho)⟩

theorem Touches.statusOf_ne (h : Touches n writes sends w w') {k : Name} (hk : k ≠ n) :
    w'.statusOf k = w.statusOf k := by
  unfold World.statusOf
  rw [h.others k hk]

theorem Touches.isSome_lookup (h : Touches n writes sends w w') (k : Name) :
    (w'.connectionHandlingPerE2NodeMap.lookup k).isSome =
      (w.connectionHandlingPerE2NodeMap.lookup k).isSome := by
  have hk := congrArg Option.isSome (h.entries k)
  simpa using hk

theorem Touches.outbox_eq (h : Touches n writes noOutput w w') : w'.outbox = w.outbox := by
  obtain ⟨out, hout, hno⟩ := h.sent
  rw [hout, List.eq_nil_iff_forall_not_mem.mpr fun o ho => hno o ho, List.append_nil]

/-- Without a status to record, the procedure map reads as before. -/
theorem Touches.lookup_eq (h : Touches n noStatus sends w w') (k : Name) :
    w'.connectionHandlingPerE2NodeMap.lookup k = w.connectionHandlingPerE2NodeMap.lookup k := by
  by_cases hk : k = n
  · subst hk
    have htid := h.entries k
    have hst : w'.statusOf k = w.statusOf k := h.status.resolve_right fun ⟨_, hf, _⟩ => hf
    unfold World.statusOf at hst
    cases hl : w.connectionHandlingPerE2NodeMap.lookup k with
    | none => simpa [hl] using htid
    | some e =>
      obtain ⟨e', he', htid'⟩ := Option.map_eq_some_iff.mp (htid.trans (by rw [hl]; rfl))
      rw [he', hl, Option.map_some, Option.map_some, Option.some.injEq] at hst
      rw [he', Option.some.injEq]
      cases e
      cases e'
      simp_all
  · exact h.others k hk

theorem Touches.statusOf_eq (h : Touches n noStatus sends w w') (k : Name) :
    w'.statusOf k = w.statusOf k := by
  unfold World.statusOf
  rw [h.lookup_eq]

/-- A step that leaves everything alone but buffers and counters. -/
theorem Touches.of_eq (h₁ : w'.params = w.params) (h₂ : w'.heap = w.heap) (h₃ : w'.fds = w.fds)
    (h₄ : w'.sctpMap = w.sctpMap)
    (h₅ : w'.connectionHandlingPerE2NodeMap = w.connectionHandlingPerE2NodeMap)
    (h₆ : w'.outbox = w.outbox) : Touches n writes sends w w' :=
  ⟨h₁, h₂, h₃, h₄, fun _ => by rw [h₅], fun _ _ => by rw [h₅],
    .inl (by unfold World.statusOf; rw [h₅]), [], by simp [h₆], by simp⟩

theorem Touches.setAnswers (w : World) (answers : Answers) :
    Touches n writes sends w { w with answers := answers } :=
  .of_eq rfl rfl rfl rfl rfl rfl

end Order

/-! ## What was sent -/

theorem drop_outbox {w w' : World} {out : List Output} (h : w'.outbox = w.outbox ++ out) :
    w'.outbox.drop w.outbox.length = out := by
  rw [h, List.drop_left]

theorem mem_sent {w w' : World} {P : Output → Prop}
    (h : ∃ out, w'.outbox = w.outbox ++ out ∧ ∀ o ∈ out, P o) :
    ∀ o ∈ w'.outbox.drop w.outbox.length, P o := by
  obtain ⟨out, hout, hall⟩ := h
  rwa [drop_outbox hout]

theorem nothing_sent {w w' : World} {P : Output → Prop} (h : w'.outbox = w.outbox) :
    ∀ o ∈ w'.outbox.drop w.outbox.length, P o :=
  mem_sent ⟨[], by simp [h], by simp⟩

/-! ## The primitives -/

section Primitives

variable {E : Fault → Prop} {n : Name} {writes : E2TProcedureStates → Prop} {sends : Output → Prop}
  {w₀ : World}

theorem keeps_writeSendMessage (f : RmrMbuf → RmrMbuf) :
    Keeps E (Touches n writes sends w₀) (writeSendMessage f) :=
  Keeps.modify fun _ h => h.trans (.of_eq rfl rfl rfl rfl rfl rfl)

theorem keeps_nextTransaction : Keeps E (Touches n writes sends w₀) nextTransaction :=
  Keeps.modifyGet fun _ h => h.trans (.of_eq rfl rfl rfl rfl rfl rfl)

theorem keeps_nextRmrAnswer : Keeps E (Touches n writes sends w₀) nextRmrAnswer := by
  refine Keeps.modifyGet fun w h => ?_
  cases hr : w.answers.rmr with
  | nil => simpa only [hr] using h
  | cons r rs => exact h.trans (.of_eq rfl rfl rfl rfl rfl rfl)

theorem keeps_emit {o : Output} (ho : sends o) :
    Keeps E (Touches n writes sends w₀) (emit o) := by
  refine Keeps.modify fun w h => h.trans ?_
  exact ⟨rfl, rfl, rfl, rfl, fun _ => rfl, fun _ _ => rfl, .inl rfl, [o], rfl, by simpa using ho⟩

theorem keeps_setStatus {s : E2TProcedureStates} (hs : writes s) :
    Keeps E (Touches n writes sends w₀) (setE2ProcedureOngoingStatus n s) := by
  refine Keeps.modify fun w h => h.trans ?_
  have hl := E2NodeMap.lookup_setE2ProcedureOngoingStatus w.connectionHandlingPerE2NodeMap n s
  refine ⟨rfl, rfl, rfl, rfl, fun k => ?_, fun k hk => ?_, ?_, [], by simp, by simp⟩
  · simp only [hl]
    split
    · rename_i hk
      rw [hk, Option.map_map]
      rfl
    · rfl
  · simp only [hl, if_neg hk]
  · simp only [World.statusOf, hl, if_pos]
    cases w.connectionHandlingPerE2NodeMap.lookup n with
    | none => exact .inl rfl
    | some e => exact .inr ⟨s, hs, rfl⟩

end Primitives

/-! ## Sending -/

/-- RMR refuses a message for good: `rmr_send_msg` returns the buffer with an error, or does so when
the send is repeated. -/
def refused : List RmrSendResult → Bool
  | .failed _ :: _ | .retry :: .retry :: _ | .retry :: .failed _ :: _ => true
  | _ => false

/-- A message goes out from the buffer, which a refused send leaves as it was but for its state. -/
theorem sendRmrMessage_eq (w : World) : ∃ rc rest st sent, sendRmrMessage w =
    .ok rc { w with
      answers := { w.answers with rmr := rest }
      sendMessage := if refused w.answers.rmr then { w.sendMessage with state := st } else .fresh
      outbox := w.outbox ++ [.rmr w.sendMessage sent] } := by
  obtain ⟨_, _, _, _, _, _, b, _, ⟨rmr, _⟩, _⟩ := w
  rcases rmr with _ | ⟨(_ | _ | n | _), rest⟩
  · exact ⟨_, _, .ok, _, rfl⟩
  · exact ⟨_, _, .ok, _, rfl⟩
  · rcases rest with _ | ⟨(_ | _ | n | _), rest⟩
    · exact ⟨_, _, .ok, _, rfl⟩
    · exact ⟨_, _, .ok, _, rfl⟩
    · exact ⟨_, _, _, _, rfl⟩
    · exact ⟨_, _, _, _, rfl⟩
    · exact ⟨_, _, .ok, _, rfl⟩
  · exact ⟨_, _, _, _, rfl⟩
  · exact ⟨_, _, .ok, _, rfl⟩

/-- The state in which a report is ready in the send buffer. -/
def World.addressed (w : World) (n : Name) (mtype : MsgType) : World :=
  { w with
    sendMessage := { w.sendMessage with
      meid := n, mtype := mtype, state := .ok, xact := w.transactionCounter }
    transactionCounter := w.transactionCounter + 1 }

/-- A report goes out from the buffer under the name of its node. -/
theorem sendRequestToXapp_eq (n : Name) (mtype : MsgType) (w : World) :
    ∃ rc rest st sent, sendRequestToXapp n mtype w =
      .ok rc { w.addressed n mtype with
        answers := { w.answers with rmr := rest }
        sendMessage := if refused w.answers.rmr then
            { (w.addressed n mtype).sendMessage with state := st }
          else .fresh
        outbox := w.outbox ++ [.rmr (w.addressed n mtype).sendMessage sent] } :=
  sendRmrMessage_eq (w.addressed n mtype)

/-- Sending a message that does not use the buffer only takes answers. -/
theorem rmrSendWithRetry_eq (msg : RmrMbuf) (w : World) : ∃ r rest, rmrSendWithRetry msg w =
    .ok r { w with answers := { w.answers with rmr := rest } } := by
  obtain ⟨_, _, _, _, _, _, b, _, ⟨rmr, _⟩, _⟩ := w
  rcases rmr with _ | ⟨(_ | _ | n | _), rest⟩
  · exact ⟨_, _, rfl⟩
  · exact ⟨_, _, rfl⟩
  · rcases rest with _ | ⟨(_ | _ | n | _), rest⟩ <;> exact ⟨_, _, rfl⟩
  · exact ⟨_, _, rfl⟩
  · exact ⟨_, _, rfl⟩

/-- A forwarded setup message is one of its own, and goes out where there is XML for it. -/
theorem buildAndSendSetupRequest_eq (message : ReportingMessages) (messageType : MsgType)
    (xer : Option (List UInt8)) (w : World) :
    ∃ tx rest out, buildAndSendSetupRequest message messageType xer w =
        .ok () { w with
          transactionCounter := tx
          answers := { w.answers with rmr := rest }
          outbox := w.outbox ++ out } ∧
      (xer = none → out = []) ∧
      ∀ buffer, xer = some buffer → ∃ msg sent, out = [.rmr msg sent] ∧
        msg.mtype = messageType ∧ msg.meid = message.enodbName.str ∧
        msg.payload = setupPayload w.params (stripLayout buffer) := by
  cases xer with
  | none =>
    refine ⟨w.transactionCounter, w.answers.rmr, [], ?_, fun _ => rfl, fun _ h => by cases h⟩
    rw [List.append_nil]
    rfl
  | some buffer =>
    let tx := w.transactionCounter
    let res := stripLayout buffer
    let rmrMsg : RmrMbuf :=
      { RmrMbuf.fresh with
        mtype := messageType, meid := message.enodbName.str, xact := tx,
        payload := setupPayload w.params res, len := (w.params.address ++ res).length }
    obtain ⟨returned, rest, hsend⟩ :=
      rmrSendWithRetry_eq rmrMsg { w with transactionCounter := tx + 1 }
    refine ⟨tx + 1, rest, [.rmr rmrMsg (wasSent returned)], ?_, fun h => (by cases h), ?_⟩
    · show (rmrSendWithRetry rmrMsg >>= fun returned => emit (.rmr rmrMsg (wasSent returned)))
        { w with transactionCounter := tx + 1 } = _
      rw [bind_of_ok hsend]
      rfl
    · rintro _ h
      cases h
      exact ⟨rmrMsg, wasSent returned, rfl, rfl, rfl, rfl⟩

section Sending

variable {E : Fault → Prop} {n : Name} {writes : E2TProcedureStates → Prop} {sends : Output → Prop}
  {w₀ : World}

theorem keeps_rmrSendMsg (msg : RmrMbuf) :
    Keeps E (Touches n writes sends w₀) (rmrSendMsg msg) := by
  unfold rmrSendMsg
  refine keeps_nextRmrAnswer.bind fun r => ?_
  cases r <;> exact Keeps.pure _

theorem keeps_rmrSendWithRetry (msg : RmrMbuf) :
    Keeps E (Touches n writes sends w₀) (rmrSendWithRetry msg) := by
  unfold rmrSendWithRetry
  refine (keeps_rmrSendMsg msg).bind fun r => ?_
  cases r with
  | none => exact Keeps.pure _
  | some m =>
    dsimp only
    split
    · exact keeps_rmrSendMsg _
    · exact Keeps.pure _

/-- The message in the send buffer is what goes out. -/
theorem sendRmrMessage_keeps {w : World} (hw : Touches n writes sends w₀ w)
    (hs : ∀ sent, sends (.rmr w.sendMessage sent)) :
    Ends E (Touches n writes sends w₀) (sendRmrMessage w) := by
  unfold sendRmrMessage
  rw [bind_of_ok (rfl : (get : M World) w = .ok w w)]
  refine ((keeps_rmrSendWithRetry w.sendMessage).bind fun r => ?_) w hw
  refine (keeps_emit (hs _)).bind fun _ => ?_
  cases r with
  | none => exact (keeps_writeSendMessage _).bind fun _ => Keeps.pure _
  | some m =>
    refine (keeps_writeSendMessage _).bind fun _ => ?_
    cases m.state <;> exact Keeps.pure _

theorem keeps_sendRequestToXapp (mtype : MsgType)
    (hs : ∀ msg sent, msg.meid = n → msg.mtype = mtype → sends (.rmr msg sent)) :
    Keeps E (Touches n writes sends w₀) (sendRequestToXapp n mtype) := by
  intro w hw
  have hrun : sendRequestToXapp n mtype w = sendRmrMessage (w.addressed n mtype) := rfl
  have hmid : Touches n writes sends w₀ (w.addressed n mtype) :=
    hw.trans (.of_eq rfl rfl rfl rfl rfl rfl)
  rw [hrun]
  exact sendRmrMessage_keeps hmid fun _ => hs _ _ rfl rfl

theorem keeps_buildAndSendSetupRequest (message : ReportingMessages) (mtype : MsgType)
    (xer : Option (List UInt8))
    (hs : ∀ msg sent, msg.meid = message.enodbName.str → msg.mtype = mtype →
      sends (.rmr msg sent)) :
    Keeps E (Touches n writes sends w₀) (buildAndSendSetupRequest message mtype xer) := by
  unfold buildAndSendSetupRequest
  cases xer with
  | none => exact Keeps.pure _
  | some buffer =>
    refine Keeps.get.bind fun w => keeps_nextTransaction.bind fun tx => ?_
    refine (keeps_rmrSendWithRetry _).bind fun r => ?_
    exact keeps_emit (hs _ _ rfl rfl)

theorem keeps_xmlFromPER (xer : Option (List UInt8)) :
    Keeps E (Touches n writes sends w₀) (xmlFromPER xer) := by
  unfold xmlFromPER
  cases xer with
  | none => exact Keeps.pure _
  | some encoded =>
    dsimp only
    split
    · exact Keeps.pure _
    · exact (keeps_writeSendMessage _).bind fun _ => Keeps.pure _

end Sending

/-! ## Counting -/

/-- The slots `buildPrometheusList` fills are filled. -/
def Built (cu : ConnectedCU) : Prop :=
  ∀ direction kind procedure, (prometheusList direction kind procedure).isSome →
    (cu.counters direction kind procedure).isSome

/-- What counting for a peer with this heap cell may raise: the peer is freed, or its counters were
not built. -/
def Raises : Option ConnectedCU → Fault → Prop
  | none, e => e = .useAfterFree
  | some cu, e => e = .nullCounter ∧ ¬ Built cu

/-- A message that is counted has its slots in both tables. -/
def Counted (direction e2tDirection : Direction) (procedure : ProcedureCode) : Prop :=
  ∀ kind, (prometheusList direction kind procedure).isSome ∧
    (e2tCounters e2tDirection kind procedure).isSome

instance (d e : Direction) (p : ProcedureCode) : Decidable (Counted d e p) :=
  decidable_of_iff
    (((prometheusList d .msgCounter p).isSome ∧ (e2tCounters e .msgCounter p).isSome) ∧
      (prometheusList d .bytesCounter p).isSome ∧ (e2tCounters e .bytesCounter p).isSome)
    ⟨fun h kind => by
      cases kind
      · exact h.1
      · exact h.2, fun h => ⟨h _, h _⟩⟩

/-- An invariant that the counting of a message for the peer `c` keeps. -/
structure Counts (I : World → Prop) (c : ConnId) (cell : Option ConnectedCU) : Prop where
  registry : ∀ w r, I w → I { w with registry := r }
  peer : ∀ w, I w → w.heap.get c = cell

section Deref

variable {c : ConnId} {cu : ConnectedCU}

/-- A live connection is read as it is. -/
theorem deref_of_get {w : World} (hc : w.heap.get c = some cu) : deref c w = .ok cu w := by
  unfold deref
  rw [bind_of_ok (rfl : (get : M World) w = .ok w w), hc]
  rfl

theorem deref_of_freed {w : World} (hc : w.heap.get c = none) :
    deref c w = .error .useAfterFree w := by
  unfold deref
  rw [bind_of_ok (rfl : (get : M World) w = .ok w w), hc]
  rfl

theorem deref_eq_ok {w w' : World} (h : deref c w = .ok cu w') :
    w' = w ∧ w.heap.get c = some cu := by
  cases hc : w.heap.get c with
  | none =>
    rw [deref_of_freed hc] at h
    cases h
  | some cu' =>
    rw [deref_of_get hc] at h
    cases h
    exact ⟨rfl, rfl⟩

end Deref

section Counting

variable {E : Fault → Prop} {I : World → Prop} {c : ConnId} {cell : Option ConnectedCU}

theorem Counts.increment (hI : Counts I c cell) {slot : Option Label} (k : Nat)
    (h : slot.isSome ∨ E .nullCounter) : Keeps E I (increment slot k) := by
  cases slot with
  | none => exact Keeps.throw (h.resolve_left (by simp))
  | some l => exact Keeps.modify fun w hw => hI.registry w _ hw

theorem Counts.incrementIfSet (hI : Counts I c cell) (slot : Option Label) (k : Nat) :
    Keeps E I (incrementIfSet slot k) := by
  unfold E2Term.incrementIfSet
  split
  · rename_i hs
    exact hI.increment k (.inl hs)
  · exact Keeps.pure _

theorem Counts.deref {β : Type} (hI : Counts I c cell) (hE : cell = none → E .useAfterFree)
    {k : ConnectedCU → M β} (hk : ∀ cu, cell = some cu → Keeps E I (k cu)) :
    Keeps E I (deref c >>= k) := by
  intro w hw
  cases hcell : cell with
  | none =>
    have hc := (hI.peer w hw).trans hcell
    rw [bind_of_error (deref_of_freed hc)]
    refine ⟨hw, fun e s h => ?_⟩
    cases h
    exact hE hcell
  | some cu =>
    have hc := (hI.peer w hw).trans hcell
    rw [bind_of_ok (deref_of_get hc)]
    exact hk cu hcell w hw

theorem raises_of_none (h : cell = none) : Raises cell .useAfterFree := by
  rw [h]
  rfl

/-- A slot of the peer's table is filled, or its absence is one of the faults to expect. -/
theorem isSome_or_raises {cu : ConnectedCU} (hcell : cell = some cu) {d : Direction}
    {kind : CounterKind} {p : ProcedureCode} (hd : (prometheusList d kind p).isSome) :
    (cu.counters d kind p).isSome ∨ Raises cell .nullCounter := by
  by_cases hb : Built cu
  · exact .inl (hb d kind p hd)
  · rw [hcell]
    exact .inr ⟨rfl, hb⟩

theorem Counts.countInternal (hI : Counts I c cell) (hE : cell = none → E .useAfterFree)
    (i : E2TInternalCounters) : Keeps E I (countInternal c i) :=
  hI.deref hE fun _ _ => hI.incrementIfSet _ _

/-- The four increments of a counted message raise nothing when the connection is alive and its
counters are built. -/
theorem Counts.countMessage (hI : Counts I c cell) {d e : Direction} {p : ProcedureCode}
    (hd : Counted d e p) (len : Nat) : Keeps (Raises cell) I (countMessage c d e p len) := by
  refine hI.deref raises_of_none fun cu hcell => ?_
  refine (hI.increment 1 (isSome_or_raises hcell (hd .msgCounter).1)).bind fun _ => ?_
  refine hI.deref raises_of_none fun cu hcell => ?_
  refine (hI.increment len (isSome_or_raises hcell (hd .bytesCounter).1)).bind fun _ => ?_
  refine (hI.increment 1 (.inl (hd .msgCounter).2)).bind fun _ => ?_
  exact hI.increment len (.inl (hd .bytesCounter).2)

theorem Counts.countMessageIfSet (hI : Counts I c cell) {d : Direction} {p : ProcedureCode}
    (hd : (e2tCounters d .msgCounter p).isSome → Counted d d p) (len : Nat) :
    Keeps (Raises cell) I (countMessageIfSet c d p len) := by
  unfold E2Term.countMessageIfSet
  split
  · rename_i hs
    exact hI.countMessage (hd hs) len
  · exact Keeps.pure _

/-- A single unguarded increment of the connection's table. -/
theorem Counts.countOne (hI : Counts I c cell) {d : Direction} {kind : CounterKind}
    {p : ProcedureCode} (hd : (prometheusList d kind p).isSome) (k : Nat) :
    Keeps (Raises cell) I (do E2Term.increment ((← E2Term.deref c).counters d kind p) k) :=
  hI.deref raises_of_none fun _ hcell => hI.increment k (isSome_or_raises hcell hd)

end Counting

/-- What a handler for a peer may change is kept by counting. -/
theorem Touches.counts (n : Name) (writes : E2TProcedureStates → Prop) (sends : Output → Prop)
    {w₀ : World} {c : ConnId} {cell : Option ConnectedCU} (hc : w₀.heap.get c = cell) :
    Counts (Touches n writes sends w₀) c cell where
  registry _ _ h := h.trans (.of_eq rfl rfl rfl rfl rfl rfl)
  peer w h := by rw [h.heap, hc]

end E2Term
