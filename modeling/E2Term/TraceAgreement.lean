import E2Term.ErrorCopies
import E2Term.Indications
import E2Term.TracedHandlers

/-!
# Whether the trace shows what goes out

The payload that goes out and the bytes that are traced are set apart. They part ways where the
payload is converted in place behind `asndata`, where a second message goes out of a buffer RMR has
renewed, and where there are no bytes, which the encoder refuses.
-/

namespace E2Term

open CString Effect Instrument

/-! ## Records of a computation -/

/-- All records are right. -/
def AllRight (t : Reporting) : Prop := ∀ e ∈ t.trace, e.Right

/-- No record is written for a message. -/
abbrev Silent {α : Type} (x : TM α) : Prop := Moves (fun s s' => s'.2.trace = s.2.trace) x

/-- The records that `x` writes are right exactly when `P` holds. -/
def RightIff {α : Type} (P : Prop) (x : TM α) (s : World × Reporting) : Prop :=
  AllRight (final (x s)).2 ↔ AllRight s.2 ∧ P

section Rules

variable {α β : Type} {P Q : Prop} {x : TM α} {f : α → TM β} {m : M α} {w w' : World}
  {t : Reporting} {s : World × Reporting}

theorem silent_lift (m : M α) : Silent (lift m : TM α) :=
  fun s₀ => keeps_lift (fun t : Reporting => t.trace = s₀.2.trace) m

theorem silent_buildJsonMessage : Silent buildJsonMessage := by
  rintro s₀ ⟨w, t⟩ ht
  exact ⟨ht, fun _ _ _ => trivial⟩

theorem RightIff.congr (h : RightIff P x s) (hPQ : P ↔ Q) : RightIff Q x s := by
  unfold RightIff
  rw [← hPQ]
  exact h

theorem rightIff_of_trace (h : (final (x s)).2.trace = s.2.trace) : RightIff True x s := by
  unfold RightIff AllRight
  rw [h, and_true]

theorem Silent.rightIff (h : Silent x) (s : World × Reporting) : RightIff True x s :=
  rightIff_of_trace (h.final (fun _ => rfl) s)

/-- Records that are written later come from the last part. -/
theorem RightIff.bind (h : RightIff P x s) (hf : ∀ a, Silent (f a)) : RightIff P (x >>= f) s := by
  cases hx : x s with
  | error e s' =>
    unfold RightIff at h ⊢
    rw [hx] at h
    rwa [bind_of_error hx]
  | ok a s' =>
    have hlast := (hf a).final (fun _ => rfl) s'
    unfold RightIff AllRight at h ⊢
    rw [hx] at h
    rw [bind_of_ok hx, hlast]
    exact h

/-- A part that is not traced raises. -/
theorem rightIff_of_error {e : Fault} (hm : m w = .error e w') :
    RightIff True (lift m >>= f) (w, t) := by
  refine rightIff_of_trace ?_
  rw [bind_of_error (lift_of_error hm)]
  rfl

/-- A part that is not traced returns. -/
theorem RightIff.lift_bind_ok {a : α} (hm : m w = .ok a w') (hf : RightIff P (f a) (w', t)) :
    RightIff P (lift m >>= f) (w, t) := by
  unfold RightIff
  rw [bind_of_ok (lift_of_ok hm)]
  exact hf

/-- A part that returns and writes no record for a message. -/
theorem RightIff.silent_bind {s' : World × Reporting} {a : α} (hx : x s = .ok a s')
    (hs : s'.2.trace = s.2.trace) (hf : RightIff P (f a) s') : RightIff P (x >>= f) s := by
  unfold RightIff AllRight at hf ⊢
  rw [bind_of_ok hx, ← hs]
  exact hf

theorem allRight_concat {e : TraceEntry} (h : s.2.trace = t.trace ++ [e]) :
    AllRight s.2 ↔ AllRight t ∧ e.Right := by
  unfold AllRight
  rw [h, List.forall_mem_append, List.forall_mem_singleton]

end Rules

/-! ## A message goes out -/

section Sending

variable {w : World} {t : Reporting} {n : Nat}

/-- The record of a message to RMR, and where `asndata` points to behind it. -/
theorem sendRmrMessage_run (hn : t.asnLength = n) (hle : n ≤ receiveSctpBufferSize) :
    ∃ rc w' record base64Data, Traced.sendRmrMessage (w, t) = .ok rc (w', { t with
        base64Data := base64Data
        trace := t.trace ++ [⟨record, w.sendMessage.payload⟩]
        asndata := if refused w.answers.rmr then t.asndata else t.asndata.taken }) ∧
      sendRmrMessage w = .ok rc w' ∧
      ∀ p : List UInt8, p.length ≤ receiveSctpBufferSize →
        ((⟨record, p⟩ : TraceEntry).Right ↔ 0 < n ∧ t.bytes w = p) := by
  obtain ⟨record, base64Data, hbuild, hright⟩ := buildJsonMessage_ok w hn hle
  obtain ⟨rc, rest, st, sent, hsend⟩ := sendRmrMessage_eq w
  refine ⟨rc, _, record, base64Data, ?_, hsend, hright⟩
  unfold Traced.sendRmrMessage Traced.handOver
  rw [bind_of_ok hbuild, bind_of_ok (note_eq _ _ _)]
  exact lift_of_ok hsend

/-- The same for a message that is addressed first. -/
theorem sendRequestToXapp_run (hn : t.asnLength = n) (hle : n ≤ receiveSctpBufferSize) (k : Name)
    (mtype : MsgType) :
    ∃ rc w' record base64Data, Traced.sendRequestToXapp k mtype (w, t) = .ok rc (w', { t with
        base64Data := base64Data
        trace := t.trace ++ [⟨record, w.sendMessage.payload⟩]
        asndata := if refused w.answers.rmr then t.asndata else t.asndata.taken }) ∧
      sendRequestToXapp k mtype w = .ok rc w' ∧
      ∀ p : List UInt8, p.length ≤ receiveSctpBufferSize →
        ((⟨record, p⟩ : TraceEntry).Right ↔ 0 < n ∧ t.bytes w = p) := by
  obtain ⟨rc, w', record, base64Data, hrun, hsend, hright⟩ :=
    sendRmrMessage_run (w := w.addressed k mtype) hn hle
  refine ⟨rc, w', record, base64Data, hrun, hsend, ?_⟩
  have hbytes : t.bytes (w.addressed k mtype) = t.bytes w := by
    unfold Reporting.bytes Reporting.memory
    cases t.asndata <;> rfl
  rwa [hbytes] at hright

variable {p : List UInt8}

/-- `asndata` points to the send buffer, with a payload that fits. -/
structure Pointed (w : World) (t : Reporting) (n : Nat) (p : List UInt8) : Prop where
  asndata : t.asndata = .sendMessage
  asnLength : t.asnLength = n
  payload : w.sendMessage.payload = p
  traced : n ≤ receiveSctpBufferSize
  sized : p.length ≤ receiveSctpBufferSize

theorem Pointed.right_iff (h : Pointed w t n p) {record : TraceRecord}
    (hright : ∀ p : List UInt8, p.length ≤ receiveSctpBufferSize →
      ((⟨record, p⟩ : TraceEntry).Right ↔ 0 < n ∧ t.bytes w = p)) :
    (⟨record, w.sendMessage.payload⟩ : TraceEntry).Right ↔ p ≠ [] ∧ n = p.length := by
  rw [h.payload, hright p h.sized, bytes_eq_iff h.asnLength (.inl ⟨h.asndata, h.payload⟩)]
  constructor
  · rintro ⟨hpos, rfl⟩
    exact ⟨List.length_pos_iff.mp hpos, rfl⟩
  · rintro ⟨hne, rfl⟩
    exact ⟨List.length_pos_iff.mpr hne, rfl⟩

theorem Pointed.sendRmrMessage (h : Pointed w t n p) :
    RightIff (p ≠ [] ∧ n = p.length) Traced.sendRmrMessage (w, t) := by
  obtain ⟨rc, w', record, base64Data, hrun, -, hright⟩ :=
    sendRmrMessage_run (w := w) h.asnLength h.traced
  unfold RightIff
  rw [hrun, ← h.right_iff hright]
  exact allRight_concat rfl

theorem Pointed.sendRequestToXapp (h : Pointed w t n p) (k : Name) (mtype : MsgType) :
    RightIff (p ≠ [] ∧ n = p.length) (Traced.sendRequestToXapp k mtype) (w, t) := by
  obtain ⟨rc, w', record, base64Data, hrun, -, hright⟩ :=
    sendRequestToXapp_run (w := w) h.asnLength h.traced k mtype
  unfold RightIff
  rw [hrun, ← h.right_iff hright]
  exact allRight_concat rfl

end Sending

/-! ## PDUs of a node -/

section Pieces

variable {P : Prop} {w w' : World} {t : Reporting} {n : Nat} {p : List UInt8} {c : ConnId}
  {cu : ConnectedCU}

theorem Pointed.of_payload (h : Pointed w t n p)
    (hw : w'.sendMessage.payload = w.sendMessage.payload) : Pointed w' t n p :=
  ⟨h.asndata, h.asnLength, hw.trans h.payload, h.traced, h.sized⟩

theorem silent_gate {k : Name} {body : E2NodeConnectionHandling → TM Unit}
    (h : ∀ e, Silent (body e)) : Silent (Traced.ifE2SetupRequestReceived k body) := by
  refine (silent_lift _).bind fun w => ?_
  cases E2NodeMap.getE2tProcedureOngoingStatus w.connectionHandlingPerE2NodeMap k with
  | some e => exact h e
  | none => exact Moves.pure _

/-- Behind the gate, records are written for a node with an entry. -/
theorem rightIff_gate {k : Name} {P : E2NodeConnectionHandling → Prop}
    {body : E2NodeConnectionHandling → TM Unit}
    (h : ∀ e, E2NodeMap.getE2tProcedureOngoingStatus w.connectionHandlingPerE2NodeMap k = some e →
      RightIff (P e) (body e) (w, t)) :
    RightIff (∀ e, E2NodeMap.getE2tProcedureOngoingStatus w.connectionHandlingPerE2NodeMap k =
      some e → P e) (Traced.ifE2SetupRequestReceived k body) (w, t) := by
  refine RightIff.lift_bind_ok (rfl : (get : M World) w = .ok w w) ?_
  cases hl : E2NodeMap.getE2tProcedureOngoingStatus w.connectionHandlingPerE2NodeMap k with
  | some e => exact (h e hl).congr ⟨fun hP e' he' => by cases he'; exact hP, fun hP => hP e rfl⟩
  | none =>
    exact (rightIff_of_trace rfl).congr (iff_of_true trivial fun e he => by cases he)

/-- The slots that the connection counts a message in are there. -/
def HasSlots (cu : ConnectedCU) (slots : Direction × ProcedureCode) : Prop :=
  ∀ kind, (cu.counters slots.1 kind slots.2).isSome

/-- Behind the counting of a message, records are written if its slots are there. -/
theorem rightIff_counted {d e : Direction} {q : ProcedureCode} {len : Nat} {f : Unit → TM Unit}
    (hc : w.heap.get c = some cu) (he : ∀ kind, (e2tCounters e kind q).isSome)
    (hf : ∀ registry, RightIff P (f ()) ({ w with registry := registry }, t)) :
    RightIff (HasSlots cu (d, q) → P) (lift (countMessage c d e q len) >>= f) (w, t) := by
  by_cases hslots : HasSlots cu (d, q)
  · obtain ⟨_, _, hrun, registry, rfl⟩ :=
      (keeps_countMessage (counts_recounted hc) hslots he len).returns ⟨w.registry, rfl⟩
    exact (RightIff.lift_bind_ok hrun (hf registry)).congr ⟨fun h _ => h, fun h => h hslots⟩
  · obtain ⟨w', hrun⟩ := countMessage_fails hc hslots len
    exact (rightIff_of_error hrun).congr (iff_of_true trivial fun h => absurd h hslots)

end Pieces

/-- What a PDU is counted in before it goes to the xApps in the send buffer, if it does. The source
has no counters of the instance for a reset response, and does not count it. -/
def E2APPDU.reportSlots : E2APPDU → Option (List (Direction × ProcedureCode))
  | .initiatingMessage (.errorIndication _) => some [(.inIniti, .errorIndication)]
  | .initiatingMessage .reset => some [(.inIniti, .reset)]
  | .initiatingMessage (.ricIndication ies) =>
    (firstRequestID ies).map fun _ => [(.inIniti, .ricIndication)]
  | .initiatingMessage .ricSubscriptionDeleteRequired =>
    some [(.inIniti, .ricSubscriptionDeleteRequired)]
  | .successfulOutcome .reset => some []
  | .successfulOutcome (.ricControl ies) =>
    (firstRequestID ies).map fun _ => [(.inSucc, .ricControl)]
  | .successfulOutcome .ricSubscription => some [(.inSucc, .ricSubscription)]
  | .successfulOutcome .ricSubscriptionDelete => some [(.inSucc, .ricSubscriptionDelete)]
  | .unsuccessfulOutcome (.ricControl ies) =>
    (firstRequestID ies).map fun _ => [(.inUnSucc, .ricControl)]
  | .unsuccessfulOutcome .ricSubscription => some [(.inUnSucc, .ricSubscription)]
  | .unsuccessfulOutcome .ricSubscriptionDelete => some [(.inUnSucc, .ricSubscriptionDelete)]
  | _ => none

/-- A reset request or response, which is converted before it goes out. -/
def E2APPDU.isReset : E2APPDU → Bool
  | .initiatingMessage .reset | .successfulOutcome .reset => true
  | _ => false

/-- What `XML_From_PER` makes of the PDU. -/
def SctpMsg.xml (m : SctpMsg) : Option (List UInt8) :=
  m.xer.filter fun encoded => encoded.length ≤ receiveSctpBufferSize

/-- The entry of the node of a connection. -/
def World.entryOf (w : World) (cu : ConnectedCU) : Option E2NodeConnectionHandling :=
  E2NodeMap.getE2tProcedureOngoingStatus w.connectionHandlingPerE2NodeMap cu.enodbName.str

/-- The PDU is an error indication about a subscription, of which the subscription manager is told
before the xApps are. -/
def TellsSubMgr (w : World) (cu : ConnectedCU) (pdu : E2APPDU) : Prop :=
  ∃ ies e, pdu = .initiatingMessage (.errorIndication ies) ∧ w.entryOf cu = some e ∧
    AboutSubscription e ies

/-- The PDU goes to the xApps: its node has an entry, the connection has the slots to count it in,
and a reset is converted. -/
structure SendsOn (w : World) (cu : ConnectedCU) (m : SctpMsg) (pdu : E2APPDU) : Prop where
  entry : (w.entryOf cu).isSome
  slots : ∃ slots, pdu.reportSlots = some slots ∧ ∀ s ∈ slots, HasSlots cu s
  xml : pdu.isReset → m.xml.isSome

/-- What goes out for a PDU is not empty, a reset is as long when it is converted, and no error
indication goes to the xApps that RMR took for the subscription manager. -/
structure PduShown (w : World) (cu : ConnectedCU) (m : SctpMsg) (pdu : E2APPDU) : Prop where
  payload : SendsOn w cu m pdu ∨ TellsSubMgr w cu pdu → m.payload ≠ []
  xml : SendsOn w cu m pdu → pdu.isReset → m.xml.map List.length = some m.payload.length
  once : SendsOn w cu m pdu → TellsSubMgr w cu pdu → refused m.answers.rmr

section Conditions

variable {w : World} {cu : ConnectedCU} {m : SctpMsg} {pdu : E2APPDU}
  {slots : List (Direction × ProcedureCode)}

theorem pduShown_of_silent (hslots : pdu.reportSlots = none) : PduShown w cu m pdu := by
  have hno : ¬ SendsOn w cu m pdu := by
    rintro ⟨-, ⟨slots, h, -⟩, -⟩
    rw [hslots] at h
    cases h
  have hsub : ¬ TellsSubMgr w cu pdu := by
    rintro ⟨ies, e, rfl, -⟩
    cases hslots
  exact ⟨fun h => (h.elim hno hsub).elim, fun h => (hno h).elim, fun h => (hno h).elim⟩

/-- Of the state, only the entry of the node matters. -/
theorem sendsOn_congr {w' : World} (h : w'.entryOf cu = w.entryOf cu) :
    SendsOn w' cu m pdu ↔ SendsOn w cu m pdu := by
  constructor
  · exact fun hs => ⟨h ▸ hs.entry, hs.slots, hs.xml⟩
  · exact fun hs => ⟨h.symm ▸ hs.entry, hs.slots, hs.xml⟩

theorem pduShown_congr {w' : World} (h : w'.entryOf cu = w.entryOf cu) :
    PduShown w' cu m pdu ↔ PduShown w cu m pdu := by
  have hsend : SendsOn w' cu m pdu ↔ SendsOn w cu m pdu := sendsOn_congr h
  have hsub : TellsSubMgr w' cu pdu ↔ TellsSubMgr w cu pdu := by
    unfold TellsSubMgr
    rw [h]
  constructor
  · intro hp
    refine ⟨fun hout => hp.payload ?_, fun hs => hp.xml (hsend.mpr hs),
      fun hs ht => hp.once (hsend.mpr hs) (hsub.mpr ht)⟩
    exact hout.imp hsend.mpr hsub.mpr
  · intro hp
    refine ⟨fun hout => hp.payload ?_, fun hs => hp.xml (hsend.mp hs),
      fun hs ht => hp.once (hsend.mp hs) (hsub.mp ht)⟩
    exact hout.imp hsend.mp hsub.mp

/-- A PDU that goes out as it is. -/
theorem pduShown_of_plain (hslots : pdu.reportSlots = some slots) (hreset : pdu.isReset = false)
    (herr : ∀ ies, pdu ≠ .initiatingMessage (.errorIndication ies)) :
    PduShown w cu m pdu ↔
      ∀ e, w.entryOf cu = some e → (∀ s ∈ slots, HasSlots cu s) → m.payload ≠ [] := by
  have hno : ¬ pdu.isReset = true := by
    rw [hreset]
    exact Bool.false_ne_true
  have hsub : ¬ TellsSubMgr w cu pdu := fun ⟨ies, e, h, _⟩ => herr ies h
  constructor
  · intro h e he hs
    exact h.payload (.inl ⟨Option.isSome_iff_exists.mpr ⟨e, he⟩, ⟨slots, hslots, hs⟩,
      fun h => absurd h hno⟩)
  · intro h
    refine ⟨fun hsend => ?_, fun _ hr => absurd hr hno, fun _ hs => absurd hs hsub⟩
    obtain ⟨hentry, ⟨slots', hslots', hs⟩, -⟩ := hsend.resolve_right hsub
    rw [hslots] at hslots'
    cases hslots'
    obtain ⟨e, he⟩ := Option.isSome_iff_exists.mp hentry
    exact h e he hs

/-- A PDU that is converted before. -/
theorem pduShown_of_reset (hslots : pdu.reportSlots = some slots) (hreset : pdu.isReset = true)
    (herr : ∀ ies, pdu ≠ .initiatingMessage (.errorIndication ies)) :
    PduShown w cu m pdu ↔ ∀ e, w.entryOf cu = some e → (∀ s ∈ slots, HasSlots cu s) →
      ∀ xml, m.xml = some xml → xml ≠ [] ∧ m.payload.length = xml.length := by
  have hsub : ¬ TellsSubMgr w cu pdu := fun ⟨ies, e, h, _⟩ => herr ies h
  constructor
  · intro h e he hs xml hxml
    have hsend : SendsOn w cu m pdu := ⟨Option.isSome_iff_exists.mpr ⟨e, he⟩, ⟨slots, hslots, hs⟩,
      fun _ => by rw [hxml]; rfl⟩
    have hlen := h.xml hsend hreset
    rw [hxml, Option.map_some, Option.some.injEq] at hlen
    have hpos := List.length_pos_iff.mpr (h.payload (.inl hsend))
    exact ⟨List.length_pos_iff.mp (hlen ▸ hpos), hlen.symm⟩
  · intro h
    have hall : SendsOn w cu m pdu →
        m.payload ≠ [] ∧ m.xml.map List.length = some m.payload.length := by
      rintro ⟨hentry, ⟨slots', hslots', hs⟩, hxml⟩
      rw [hslots] at hslots'
      cases hslots'
      obtain ⟨e, he⟩ := Option.isSome_iff_exists.mp hentry
      obtain ⟨xml, hxml⟩ := Option.isSome_iff_exists.mp (hxml hreset)
      obtain ⟨hne, hlen⟩ := h e he hs xml hxml
      have hpos := List.length_pos_iff.mpr hne
      refine ⟨List.length_pos_iff.mp (hlen ▸ hpos), ?_⟩
      rw [hxml, Option.map_some, hlen]
    exact ⟨fun hsend => (hall (hsend.resolve_right hsub)).1, fun hsend _ => (hall hsend).2,
      fun _ hs => absurd hs hsub⟩

/-- An error indication, of which one or two copies go out. -/
theorem pduShown_of_error (ies : List (ProtocolIE ErrorIndicationIEs)) :
    PduShown w cu m (.initiatingMessage (.errorIndication ies)) ↔
      ∀ e, w.entryOf cu = some e →
        (AboutSubscription e ies → m.payload ≠ []) ∧
        (CountsErrors cu → m.payload ≠ [] ∧ (AboutSubscription e ies → refused m.answers.rmr)) := by
  have hsend (e : E2NodeConnectionHandling) (he : w.entryOf cu = some e) (hs : CountsErrors cu) :
      SendsOn w cu m (.initiatingMessage (.errorIndication ies)) :=
    ⟨Option.isSome_iff_exists.mpr ⟨e, he⟩, ⟨_, rfl, List.forall_mem_singleton.mpr hs⟩,
      fun h => by cases h⟩
  constructor
  · intro h e he
    refine ⟨fun habout => h.payload (.inr ⟨ies, e, rfl, he, habout⟩), fun hs => ?_⟩
    exact ⟨h.payload (.inl (hsend e he hs)),
      fun habout => h.once (hsend e he hs) ⟨ies, e, rfl, he, habout⟩⟩
  · intro h
    refine ⟨?_, fun _ hr => (by cases hr), ?_⟩
    · rintro (⟨hentry, ⟨slots, hslots, hs⟩, -⟩ | ⟨ies', e, heq, he, habout⟩)
      · cases hslots
        obtain ⟨e, he⟩ := Option.isSome_iff_exists.mp hentry
        exact ((h e he).2 (hs _ (List.mem_singleton.mpr rfl))).1
      · cases heq
        exact (h e he).1 habout
    · rintro ⟨-, ⟨slots, hslots, hs⟩, -⟩ ⟨ies', e, heq, he, habout⟩
      cases hslots
      cases heq
      exact ((h e he).2 (hs _ (List.mem_singleton.mpr rfl))).2 habout

end Conditions

/-! ## What is traced of a PDU -/

section Pdu

variable {w : World} {t : Reporting} {c : ConnId} {cu : ConnectedCU} {m : SctpMsg}
  {k : Name} {mtype : MsgType} {d e : Direction} {q : ProcedureCode} {len : Nat}

/-- The send buffer holds the PDU, and `asndata` points to it. -/
abbrev Holds (w : World) (t : Reporting) (m : SctpMsg) : Prop :=
  Pointed w t m.payload.length m.payload

/-- A PDU is counted and goes out as it is. -/
theorem Holds.counted (h : Holds w t m) (hc : w.heap.get c = some cu)
    (he : ∀ kind, (e2tCounters e kind q).isSome) {rest : Int → TM Unit}
    (hrest : ∀ rc, Silent (rest rc)) :
    RightIff (HasSlots cu (d, q) → m.payload ≠ [])
      (lift (countMessage c d e q len) >>= fun _ => Traced.sendRequestToXapp k mtype >>= rest)
      (w, t) := by
  refine rightIff_counted hc he fun registry => ?_
  have h' : Holds { w with registry := registry } t m := h.of_payload rfl
  exact ((h'.sendRequestToXapp k mtype).congr (and_iff_left rfl)).bind hrest

theorem xmlFromPER_eq (m : SctpMsg) (w : World) :
    xmlFromPER m.xer w =
      match m.xml with
      | none => .ok (-1) w
      | some xml => .ok 0 { w with
          sendMessage := { w.sendMessage with payload := xml, len := xml.length } } := by
  unfold xmlFromPER SctpMsg.xml
  cases m.xer with
  | none => rfl
  | some encoded =>
    by_cases hle : encoded.length ≤ receiveSctpBufferSize
    · have hlt : ¬ encoded.length > receiveSctpBufferSize := Nat.not_lt.mpr hle
      simp only [if_neg hlt, Option.filter_some, decide_eq_true hle, if_true]
      rfl
    · have hgt : encoded.length > receiveSctpBufferSize := Nat.lt_of_not_le hle
      simp only [if_pos hgt, Option.filter_some, decide_eq_false hle, Bool.false_eq_true, if_false]
      rfl

/-- A PDU goes out as XML. -/
theorem Holds.converted (h : Holds w t m) :
    RightIff (∀ xml, m.xml = some xml → xml ≠ [] ∧ m.payload.length = xml.length) (do
      if (← lift (xmlFromPER m.xer)) < 0 then return
      let _ ← Traced.sendRequestToXapp k mtype : TM Unit) (w, t) := by
  have hrun := xmlFromPER_eq m w
  cases hxml : m.xml with
  | none =>
    rw [hxml] at hrun
    refine RightIff.lift_bind_ok hrun ?_
    exact (rightIff_of_trace rfl).congr (iff_of_true trivial fun xml h => by cases h)
  | some xml =>
    rw [hxml] at hrun
    refine RightIff.lift_bind_ok hrun ?_
    have hsized : xml.length ≤ receiveSctpBufferSize := by
      obtain ⟨-, hle⟩ := Option.filter_eq_some_iff.mp hxml
      exact of_decide_eq_true hle
    have h' : Pointed { w with
        sendMessage := { w.sendMessage with payload := xml, len := xml.length } } t
        m.payload.length xml := ⟨h.asndata, h.asnLength, rfl, h.traced, hsized⟩
    refine ((h'.sendRequestToXapp k mtype).congr ?_).bind fun _ => Moves.pure _
    exact ⟨fun hright xml' hxml' => by cases hxml'; exact hright, fun hright => hright xml rfl⟩

variable {message : ReportingMessages} {messageSent : M Unit}

/-- The search for a request id: the PDU is counted and goes out at the first one. -/
theorem Holds.forward (h : Holds w t m) (hc : w.heap.get c = some cu)
    (he : ∀ kind, (e2tCounters e kind q).isSome) (ies : List (ProtocolIE RequestIEs)) :
    RightIff ((firstRequestID ies).isSome → HasSlots cu (d, q) → m.payload ≠ [])
      (Traced.forwardRequestID message mtype (countMessage c d e q len) messageSent ies)
      (w, t) := by
  induction ies with
  | nil => exact (rightIff_of_trace rfl).congr (iff_of_true trivial fun h => by cases h)
  | cons ie rest ih =>
    unfold firstRequestID at ih ⊢
    unfold Traced.forwardRequestID
    rw [List.findSome?_cons]
    unfold instanceID
    cases ie.value with
    | other => exact ih
    | ricRequestID r =>
      by_cases hid : ie.id = idRICrequestID
      · simp only [if_pos hid]
        let w₁ : World := { w with
          transactionCounter := w.transactionCounter + 1
          sendMessage := { w.sendMessage with
            mtype := mtype, xact := w.transactionCounter, meid := message.enodbName.str,
            state := .ok, subId := r.ricInstanceID } }
        have hsend : RightIff (HasSlots cu (d, q) → m.payload ≠ []) (do
            lift (countMessage c d e q len)
            let _ ← Traced.sendRmrMessage
            lift messageSent : TM Unit) (w₁, t) := by
          refine rightIff_counted hc he fun registry => ?_
          have h' : Holds { w₁ with registry := registry } t m := h.of_payload rfl
          exact (h'.sendRmrMessage.congr (and_iff_left rfl)).bind fun _ => silent_lift _
        refine RightIff.lift_bind_ok (rfl : nextTransaction w = .ok w.transactionCounter _) ?_
        refine RightIff.lift_bind_ok (rfl : writeSendMessage _ _ = .ok () w₁) ?_
        exact hsend.congr ⟨fun hP _ => hP, fun hP => hP rfl⟩
      · simp only [if_neg hid]
        exact ih

/-- An error indication goes to the xApps, from a state in which its record is right if `P`. -/
theorem rightIff_forwardError {P : Prop} (len : Nat) (hc : w.heap.get c = some cu)
    (hsend : ∀ registry, RightIff P (Traced.sendRequestToXapp k .ricErrorIndication)
      ({ w with registry := registry }, t)) :
    RightIff (CountsErrors cu → P) (do
      lift (countMessage c .inIniti .inIniti .errorIndication len)
      let _ ← Traced.sendRequestToXapp k .ricErrorIndication : TM Unit) (w, t) := by
  have he : ∀ kind, (e2tCounters .inIniti kind .errorIndication).isSome := fun kind => by
    cases kind <;> decide
  exact rightIff_counted hc he fun registry => (hsend registry).bind fun _ => Moves.pure _

theorem Holds.forwardError (h : Holds w t m) (hc : w.heap.get c = some cu) :
    RightIff (CountsErrors cu → m.payload ≠ []) (do
      lift (countMessage c .inIniti .inIniti .errorIndication len)
      let _ ← Traced.sendRequestToXapp k .ricErrorIndication : TM Unit) (w, t) := by
  refine rightIff_forwardError len hc fun registry => ?_
  have h' : Holds { w with registry := registry } t m := h.of_payload rfl
  exact (h'.sendRequestToXapp k _).congr (and_iff_left rfl)

/-- Nothing is left in the send buffer: what is traced cannot be right. -/
theorem rightIff_renewed (hempty : w.sendMessage.payload = []) {n : Nat} (hn : t.asnLength = n)
    (hle : n ≤ receiveSctpBufferSize) :
    RightIff False (Traced.sendRequestToXapp k mtype) (w, t) := by
  obtain ⟨rc, w', record, base64Data, hrun, -, hright⟩ :=
    sendRequestToXapp_run (w := w) hn hle k mtype
  have hwrong : ¬ (⟨record, []⟩ : TraceEntry).Right := by
    rw [hright [] (Nat.zero_le _)]
    rintro ⟨hpos, hnone⟩
    have hlen := congrArg List.length hnone
    unfold Reporting.bytes at hlen
    rw [hn, Stores.length_bytesAt] at hlen
    exact absurd hlen (Nat.ne_of_gt hpos)
  unfold RightIff
  rw [hrun, allRight_concat (e := ⟨record, w.sendMessage.payload⟩) rfl, hempty]
  exact and_congr_right fun _ => iff_of_false hwrong not_false

/-- What a send leaves in the buffer: the payload if RMR gives the message back, else nothing. -/
theorem payload_behind {rc : Int} {w' : World} (h : sendRequestToXapp k mtype w = .ok rc w') :
    w'.heap = w.heap ∧
      w'.sendMessage.payload = if refused w.answers.rmr then w.sendMessage.payload else [] := by
  obtain ⟨rc', rest, st, sent, hrun⟩ := sendRequestToXapp_eq k mtype w
  rw [hrun] at h
  cases h
  refine ⟨rfl, ?_⟩
  dsimp only
  split <;> rfl

/-- An error indication goes to the subscription manager first. -/
theorem Holds.reported (h : Holds w t m) (hc : w.heap.get c = some cu) :
    RightIff (m.payload ≠ [] ∧ (CountsErrors cu → m.payload ≠ [] ∧ refused w.answers.rmr)) (do
      let _ ← Traced.sendRequestToXapp k .ricE2RanErrorIndication
      lift (countMessage c .inIniti .inIniti .errorIndication len)
      let _ ← Traced.sendRequestToXapp k .ricErrorIndication : TM Unit) (w, t) := by
  obtain ⟨rc, w', record, base64Data, hrun, hplain, hright⟩ :=
    sendRequestToXapp_run (w := w) h.asnLength h.traced k .ricE2RanErrorIndication
  obtain ⟨hheap, hpayload⟩ := payload_behind hplain
  let t' : Reporting := { t with
    base64Data := base64Data
    trace := t.trace ++ [⟨record, w.sendMessage.payload⟩]
    asndata := if refused w.answers.rmr then t.asndata else t.asndata.taken }
  -- the second copy has what the first left behind
  have hcopy : ∀ registry, RightIff (m.payload ≠ [] ∧ refused w.answers.rmr)
      (Traced.sendRequestToXapp k .ricErrorIndication) ({ w' with registry := registry }, t') := by
    intro registry
    by_cases href : refused w.answers.rmr
    · rw [if_pos href] at hpayload
      have h' : Holds { w' with registry := registry } t' m :=
        ⟨(if_pos href).trans h.asndata, h.asnLength, hpayload.trans h.payload, h.traced, h.sized⟩
      exact (h'.sendRequestToXapp k _).congr
        ⟨fun hP => ⟨hP.1, href⟩, fun hP => ⟨hP.1, rfl⟩⟩
    · rw [if_neg href] at hpayload
      exact (rightIff_renewed (w := { w' with registry := registry }) hpayload
        (t := t') h.asnLength h.traced).congr (iff_of_false not_false fun hP => href hP.2)
  have hsecond := rightIff_forwardError len (hheap ▸ hc) hcopy
  have hfirst := h.right_iff hright
  rw [and_iff_left rfl] at hfirst
  unfold RightIff at hsecond ⊢
  rw [bind_of_ok hrun, hsecond,
    allRight_concat (s := (w', t')) (e := ⟨record, w.sendMessage.payload⟩) rfl, hfirst, and_assoc]

theorem buildAndSendSetupRequest_run (message : ReportingMessages) (mtype : MsgType)
    (xer : Option (List UInt8)) :
    ∃ w' base64Data, Traced.buildAndSendSetupRequest message mtype xer (w, t) =
        .ok () (w', { t with base64Data := base64Data }) ∧
      w'.heap = w.heap ∧ w'.sendMessage = w.sendMessage := by
  obtain ⟨tx, rest, out, hrun, -⟩ := buildAndSendSetupRequest_eq message mtype xer w
  unfold Traced.buildAndSendSetupRequest
  rw [bind_of_ok (lift_of_ok hrun)]
  cases xer with
  | none => exact ⟨_, t.base64Data, rfl, rfl, rfl⟩
  | some _ => exact ⟨_, _, rfl, rfl, rfl⟩

/-- An error indication goes to the xApps, and to the managers before as it is routed. -/
theorem Holds.errorIndication (h : Holds w t m) (hc : w.heap.get c = some cu)
    (hanswers : w.answers = m.answers) (ies : List (ProtocolIE ErrorIndicationIEs)) :
    RightIff (PduShown w cu m (.initiatingMessage (.errorIndication ies)))
      (Traced.errorIndication ⟨cu.enodbName, c, len⟩ m ies) (w, t) := by
  refine (rightIff_gate fun e he => ?_).congr (pduShown_of_error ies).symm
  refine RightIff.lift_bind_ok (rfl : (get : M World) w = .ok w w) ?_
  rw [E2NodeMap.current_of_entry he]
  have hroute := route_subMgr_iff e ies
  change RightIff _ (if (e.route ies).e2m then _ else if (e.route ies).subMgr then _ else _) _
  generalize e.route ies = sendMsgTo at hroute ⊢
  obtain ⟨e2m, subMgr⟩ := sendMsgTo
  cases e2m with
  | true =>
    have hno : ¬ AboutSubscription e ies := fun habout => by cases hroute.mpr habout
    obtain ⟨w', base64Data, hrun, hheap, hbuffer⟩ := buildAndSendSetupRequest_run (w := w) (t := t)
      ⟨cu.enodbName, c, len⟩ .ricE2RicErrorIndication m.xer
    have h' : Holds w' { t with base64Data := base64Data } m :=
      ⟨h.asndata, h.asnLength, (congrArg _ hbuffer).trans h.payload, h.traced, h.sized⟩
    refine (RightIff.silent_bind hrun rfl (h'.forwardError (hheap ▸ hc))).congr ?_
    simp [hno]
  | false =>
    cases subMgr with
    | true =>
      have habout := hroute.mp rfl
      refine (h.reported hc).congr ?_
      rw [hanswers]
      simp [habout]
    | false =>
      have hno : ¬ AboutSubscription e ies := fun habout => by cases hroute.mpr habout
      refine (h.forwardError hc).congr ?_
      simp [hno]

theorem silent_buildAndSendSetupRequest (message : ReportingMessages) (mtype : MsgType)
    (xer : Option (List UInt8)) : Silent (Traced.buildAndSendSetupRequest message mtype xer) := by
  refine (silent_lift _).bind fun _ => ?_
  cases xer with
  | none => exact Moves.pure _
  | some _ => exact silent_buildJsonMessage.bind fun _ => Moves.pure _

theorem silent_logged (count : M Unit) : Silent (Traced.logged count) :=
  (silent_lift _).bind fun _ => silent_buildJsonMessage.bind fun _ => Moves.pure _

theorem silent_handleE2SetupReq (message : ReportingMessages) (m : SctpMsg) (transactionID : Int) :
    Silent (Traced.handleE2SetupReq message m transactionID) := by
  have hrest : Silent (do
      let cu ← lift (deref message.peerInfo)
      lift (incrementIfSet (cu.counters .inIniti .msgCounter .e2setup) 1)
      lift (incrementIfSet (cu.counters .inIniti .bytesCounter .e2setup) message.asnLength)
      Traced.buildAndSendSetupRequest message .ricE2SetupReq m.xer
      lift (insertE2SetupProcedureOngoing message.enodbName.str transactionID) : TM Unit) :=
    (silent_lift _).bind fun _ => (silent_lift _).bind fun _ => (silent_lift _).bind fun _ =>
      (silent_buildAndSendSetupRequest _ _ _).bind fun _ => silent_lift _
  refine (silent_lift _).bind fun _ => ?_
  dsimp only
  split
  · exact (silent_lift _).bind fun _ => hrest
  · exact hrest

theorem silent_e2setup (message : ReportingMessages) (m : SctpMsg)
    (ies : List (ProtocolIE E2setupRequestIEs)) : Silent (Traced.e2setup message m ies) := by
  refine (silent_lift _).bind fun p => ?_
  dsimp only
  split
  · exact Moves.pure _
  · exact silent_handleE2SetupReq _ _ _

/-- A case behind the gate that sends the PDU on as it is. -/
theorem rightIff_plain {body : E2NodeConnectionHandling → TM Unit} {pdu : E2APPDU}
    {slots : Direction × ProcedureCode} (hslots : pdu.reportSlots = some [slots])
    (hreset : pdu.isReset = false)
    (herr : ∀ ies, pdu ≠ .initiatingMessage (.errorIndication ies))
    (hbody : ∀ e, RightIff (HasSlots cu slots → m.payload ≠ []) (body e) (w, t)) :
    RightIff (PduShown w cu m pdu) (Traced.ifE2SetupRequestReceived cu.enodbName.str body)
      (w, t) := by
  refine (rightIff_gate fun e _ => hbody e).congr ?_
  rw [pduShown_of_plain hslots hreset herr]
  simp only [List.forall_mem_singleton]
  rfl

/-- A case behind the gate that searches the PDU for a request id. -/
theorem rightIff_searched {body : E2NodeConnectionHandling → TM Unit} {pdu : E2APPDU}
    {slots : Direction × ProcedureCode} {ies : List (ProtocolIE RequestIEs)}
    (hslots : pdu.reportSlots = (firstRequestID ies).map fun _ => [slots])
    (hreset : pdu.isReset = false)
    (herr : ∀ ies, pdu ≠ .initiatingMessage (.errorIndication ies))
    (hbody : ∀ e, RightIff ((firstRequestID ies).isSome → HasSlots cu slots → m.payload ≠ [])
      (body e) (w, t)) :
    RightIff (PduShown w cu m pdu) (Traced.ifE2SetupRequestReceived cu.enodbName.str body)
      (w, t) := by
  cases hfirst : firstRequestID ies with
  | none =>
    rw [hfirst] at hslots hbody
    refine (rightIff_gate fun e _ => hbody e).congr (iff_of_true ?_ (pduShown_of_silent hslots))
    intro _ _ h
    cases h
  | some id =>
    rw [hfirst] at hslots hbody
    exact rightIff_plain hslots hreset herr fun e =>
      (hbody e).congr ⟨fun h => h rfl, fun h _ => h⟩

/-- A case behind the gate that converts the PDU. -/
theorem rightIff_converted {body : E2NodeConnectionHandling → TM Unit} {pdu : E2APPDU}
    {slots : List (Direction × ProcedureCode)} (hslots : pdu.reportSlots = some slots)
    (hreset : pdu.isReset = true)
    (herr : ∀ ies, pdu ≠ .initiatingMessage (.errorIndication ies))
    (hbody : ∀ e, RightIff ((∀ s ∈ slots, HasSlots cu s) →
      ∀ xml, m.xml = some xml → xml ≠ [] ∧ m.payload.length = xml.length) (body e) (w, t)) :
    RightIff (PduShown w cu m pdu) (Traced.ifE2SetupRequestReceived cu.enodbName.str body) (w, t) :=
  (rightIff_gate fun e _ => hbody e).congr (pduShown_of_reset hslots hreset herr).symm

/-- A case behind the gate that sends nothing from the send buffer. -/
theorem rightIff_unsent {body : E2NodeConnectionHandling → TM Unit} {pdu : E2APPDU}
    (hslots : pdu.reportSlots = none) (hbody : ∀ e, Silent (body e)) :
    RightIff (PduShown w cu m pdu) (Traced.ifE2SetupRequestReceived cu.enodbName.str body) (w, t) :=
  ((silent_gate hbody).rightIff _).congr (iff_of_true trivial (pduShown_of_silent hslots))

/-- The slots of the instance that these PDUs are counted in are there. -/
theorem hasE2t {d : Direction} {q : ProcedureCode}
    (h : (e2tCounters d .msgCounter q).isSome ∧ (e2tCounters d .bytesCounter q).isSome) :
    ∀ kind, (e2tCounters d kind q).isSome
  | .msgCounter => h.1
  | .bytesCounter => h.2

theorem Holds.initiating (h : Holds w t m) (hc : w.heap.get c = some cu)
    (hanswers : w.answers = m.answers) (i : InitiatingMessage) :
    RightIff (PduShown w cu m (.initiatingMessage i))
      (Traced.asnInitiatingRequest ⟨cu.enodbName, c, len⟩ m i) (w, t) := by
  cases i with
  | e2setup ies =>
    exact ((silent_e2setup _ _ _).rightIff _).congr
      (iff_of_true trivial (pduShown_of_silent rfl))
  | ricServiceUpdate ies =>
    exact rightIff_unsent rfl fun _ => (silent_lift _).bind fun _ => (silent_lift _).bind fun _ =>
      (silent_buildAndSendSetupRequest _ _ _).bind fun _ => silent_lift _
  | e2nodeConfigurationUpdate =>
    exact rightIff_unsent rfl fun _ => (silent_lift _).bind fun _ =>
      silent_buildAndSendSetupRequest _ _ _
  | errorIndication ies => exact h.errorIndication hc hanswers ies
  | reset =>
    refine rightIff_converted rfl rfl (fun _ => nofun) fun _ => ?_
    have he : ∀ kind, (e2tCounters .inIniti kind .reset).isSome := hasE2t (by decide)
    simp only [List.forall_mem_singleton]
    exact rightIff_counted hc he fun registry => Holds.converted (h.of_payload rfl)
  | ricIndication ies =>
    have he : ∀ kind, (e2tCounters .inIniti kind .ricIndication).isSome := hasE2t (by decide)
    refine rightIff_searched rfl rfl (fun _ => nofun) fun _ => ?_
    refine RightIff.lift_bind_ok (rfl : setE2ProcedureOngoingStatus _ _ w = .ok () _) ?_
    have h' : Holds (w.indicated cu.enodbName.str) t m := h.of_payload rfl
    exact h'.forward hc he ies
  | ricSubscriptionDeleteRequired =>
    have he : ∀ kind, (e2tCounters .inIniti kind .ricSubscriptionDeleteRequired).isSome :=
      hasE2t (by decide)
    exact rightIff_plain rfl rfl (fun _ => nofun) fun _ => h.counted hc he fun _ => Moves.pure _
  | other _ => exact rightIff_unsent rfl fun _ => silent_logged _

theorem countMessageIfSet_eq {c : ConnId} {d : Direction} {q : ProcedureCode} (len : Nat)
    (h : (e2tCounters d .msgCounter q).isSome) :
    countMessageIfSet c d q len = countMessage c d d q len := if_pos h

theorem Holds.successful (h : Holds w t m) (hc : w.heap.get c = some cu) (o : SuccessfulOutcome) :
    RightIff (PduShown w cu m (.successfulOutcome o))
      (Traced.asnSuccessfulMsg ⟨cu.enodbName, c, len⟩ m o) (w, t) := by
  cases o with
  | reset =>
    refine rightIff_converted rfl rfl (fun _ => nofun) fun _ => ?_
    have hno : countMessageIfSet c .inSucc .reset len = pure () := if_neg (by decide)
    rw [hno]
    refine RightIff.lift_bind_ok (rfl : (pure () : M Unit) w = .ok () w) (h.converted.congr ?_)
    exact ⟨fun hP _ => hP, fun hP => hP fun s hs => absurd hs List.not_mem_nil⟩
  | ricControl ies =>
    refine rightIff_searched rfl rfl (fun _ => nofun) fun _ => ?_
    rw [countMessageIfSet_eq _ (by decide)]
    exact h.forward hc (hasE2t (by decide)) ies
  | ricSubscription =>
    refine rightIff_plain rfl rfl (fun _ => nofun) fun _ => ?_
    rw [countMessageIfSet_eq _ (by decide)]
    exact h.counted hc (hasE2t (by decide)) fun _ => silent_lift _
  | ricSubscriptionDelete =>
    have he : ∀ kind, (e2tCounters .inSucc kind .ricSubscriptionDelete).isSome :=
      hasE2t (by decide)
    refine rightIff_plain rfl rfl (fun _ => nofun) fun _ => ?_
    rw [countMessageIfSet_eq _ (he .msgCounter)]
    refine RightIff.lift_bind_ok (rfl : setE2ProcedureOngoingStatus _ _ w = .ok () _) ?_
    have h' : Holds (w.withStatus cu.enodbName.str .ricSubsDelProcedureCompleted) t m :=
      h.of_payload rfl
    exact h'.counted hc he fun _ => silent_lift _
  | e2connectionUpdate => exact rightIff_unsent rfl fun _ => silent_logged _
  | other _ => exact rightIff_unsent rfl fun _ => silent_logged _

theorem Holds.unsuccessful (h : Holds w t m) (hc : w.heap.get c = some cu)
    (o : UnsuccessfulOutcome) :
    RightIff (PduShown w cu m (.unsuccessfulOutcome o))
      (Traced.asnUnSuccsesfulMsg ⟨cu.enodbName, c, len⟩ o) (w, t) := by
  cases o with
  | ricControl ies =>
    have he : ∀ kind, (e2tCounters .inUnSucc kind .ricControl).isSome := hasE2t (by decide)
    exact rightIff_searched rfl rfl (fun _ => nofun) fun _ => h.forward hc he ies
  | ricSubscription =>
    have he : ∀ kind, (e2tCounters .inUnSucc kind .ricSubscription).isSome := hasE2t (by decide)
    exact rightIff_plain rfl rfl (fun _ => nofun) fun _ => h.counted hc he fun _ => Moves.pure _
  | ricSubscriptionDelete =>
    have he : ∀ kind, (e2tCounters .inUnSucc kind .ricSubscriptionDelete).isSome :=
      hasE2t (by decide)
    exact rightIff_plain rfl rfl (fun _ => nofun) fun _ => h.counted hc he fun _ => Moves.pure _
  | e2connectionUpdate => exact rightIff_unsent rfl fun _ => silent_logged _
  | other _ => exact rightIff_unsent rfl fun _ => silent_logged _

theorem Holds.dispatch (h : Holds w t m) (hc : w.heap.get c = some cu)
    (hanswers : w.answers = m.answers) (pdu : E2APPDU) :
    RightIff (PduShown w cu m pdu) (Traced.dispatch ⟨cu.enodbName, c, len⟩ m pdu) (w, t) := by
  cases pdu with
  | initiatingMessage i => exact h.initiating hc hanswers i
  | successfulOutcome o => exact h.successful hc o
  | unsuccessfulOutcome o => exact h.unsuccessful hc o
  | nothing => exact (rightIff_of_trace rfl).congr (iff_of_true trivial (pduShown_of_silent rfl))

end Pdu

end E2Term
