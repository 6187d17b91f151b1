import E2Term.Frame

/-!
# What a PDU may change

Every PDU but an E2 setup request works for the node its connection is named after: it sends RMR
messages with that name as MEID, records statuses of that node, and does so only when the name
passes the test at the head of its case.
-/

namespace E2Term

open CString Effect

/-- The statuses the handler of a PDU records. -/
def uplinkWrites : E2APPDU → E2TProcedureStates → Prop
  | .initiatingMessage (.ricServiceUpdate _) => fun s =>
    s = .e2SetupProcedureCompleted ∨ s = .ricServiceUpdateProcedureOngoing
  | .initiatingMessage (.ricIndication _) => fun s =>
    s = .ricIndicationProcedureOngoing ∨ s = .ricIndicationProcedureCompleted
  | .successfulOutcome (.ricControl _) => fun s => s = .controlProcedureCompleted
  | .successfulOutcome .ricSubscription => fun s => s = .ricIndicationProcedureOngoing
  | .successfulOutcome .ricSubscriptionDelete => fun s =>
    s = .ricSubsDelProcedureCompleted ∨ s = .ricIndicationProcedureOngoing
  | _ => noStatus

/-- The types of the messages sent for a PDU. -/
def uplinkTypes : E2APPDU → MsgType → Prop
  | .initiatingMessage (.ricServiceUpdate _) => (· = .ricServiceUpdate)
  | .initiatingMessage .e2nodeConfigurationUpdate => (· = .ricE2NodeConfigUpdate)
  | .initiatingMessage (.errorIndication _) => fun t =>
    t = .ricE2RicErrorIndication ∨ t = .ricE2RanErrorIndication ∨ t = .ricErrorIndication
  | .initiatingMessage .reset => (· = .ricE2ResetReq)
  | .initiatingMessage (.ricIndication _) => (· = .ricIndication)
  | .initiatingMessage .ricSubscriptionDeleteRequired => (· = .ricSubDelRequired)
  | .successfulOutcome .reset => (· = .ricE2ResetResp)
  | .successfulOutcome (.ricControl _) => (· = .ricControlAck)
  | .successfulOutcome .ricSubscription => (· = .ricSubResp)
  | .successfulOutcome .ricSubscriptionDelete => (· = .ricSubDelResp)
  | .unsuccessfulOutcome (.ricControl _) => (· = .ricControlFailure)
  | .unsuccessfulOutcome .ricSubscription => (· = .ricSubFailure)
  | .unsuccessfulOutcome .ricSubscriptionDelete => (· = .ricSubFailure)
  | _ => fun _ => False

/-- The outputs for a PDU of the connection named `n`: none when the name is empty. -/
def uplinkSends (n : Name) (o : Output) : Prop := n ≠ [] ∧ RmrTo n o

/-- What the handler of a PDU may raise on a live connection named `n`. -/
def uplinkRaises (n : Name) (cu : ConnectedCU) (e : Fault) : Prop := n ≠ [] ∧ Raises (some cu) e

/-- The request for an E2 setup, which works on the connection itself. -/
def E2APPDU.setupIEs : E2APPDU → Option (List (ProtocolIE E2setupRequestIEs))
  | .initiatingMessage (.e2setup ies) => some ies
  | _ => none

/-! ## The gate -/

section Gate

variable {E : Fault → Prop} {I : World → Prop} {n : Name}

theorem keeps_gate {k : E2NodeConnectionHandling → M Unit}
    (hk : n ≠ [] → ∀ handling, Keeps E I (k handling)) :
    Keeps E I (ifE2SetupRequestReceived n k) := by
  unfold ifE2SetupRequestReceived
  refine Keeps.get.bind fun w => ?_
  unfold E2NodeMap.getE2tProcedureOngoingStatus
  by_cases hn : n = []
  · rw [if_pos hn]
    exact Keeps.pure _
  · rw [if_neg hn]
    cases w.connectionHandlingPerE2NodeMap.lookup n with
    | none => exact Keeps.pure _
    | some handling => exact hk hn handling

theorem E2NodeMap.lookup_of_entry {m : E2NodeMap} {handling : E2NodeConnectionHandling}
    (h : m.getE2tProcedureOngoingStatus n = some handling) : m.lookup n = some handling := by
  unfold getE2tProcedureOngoingStatus at h
  split at h
  · cases h
  · exact h

theorem E2NodeMap.ne_nil_of_entry {m : E2NodeMap} {handling : E2NodeConnectionHandling}
    (h : m.getE2tProcedureOngoingStatus n = some handling) : n ≠ [] := by
  rintro rfl
  cases h

theorem E2NodeMap.current_of_entry {m : E2NodeMap} {handling : E2NodeConnectionHandling}
    (h : m.getE2tProcedureOngoingStatus n = some handling) :
    m.currentE2tProcedureOngoingStatus n = handling.e2tProcedureOngoingStatus := by
  unfold currentE2tProcedureOngoingStatus
  rw [lookup_of_entry h]

/-- A node without an entry gets nothing done. -/
theorem gate_of_none {k : E2NodeConnectionHandling → M Unit} {w : World}
    (h : E2NodeMap.getE2tProcedureOngoingStatus w.connectionHandlingPerE2NodeMap n = none) :
    ifE2SetupRequestReceived n k w = .ok () w := by
  unfold ifE2SetupRequestReceived
  rw [bind_of_ok (rfl : (get : M World) w = .ok w w), h]
  rfl

theorem gate_of_some {k : E2NodeConnectionHandling → M Unit} {w : World}
    {handling : E2NodeConnectionHandling}
    (h : E2NodeMap.getE2tProcedureOngoingStatus w.connectionHandlingPerE2NodeMap n =
      some handling) : ifE2SetupRequestReceived n k w = k handling w := by
  unfold ifE2SetupRequestReceived
  rw [bind_of_ok (rfl : (get : M World) w = .ok w w), h]

end Gate

/-- No PDU of a node without an entry is handled, but for a setup request. -/
theorem dispatch_of_none (message : ReportingMessages) (m : SctpMsg) {w : World} {pdu : E2APPDU}
    (h : E2NodeMap.getE2tProcedureOngoingStatus w.connectionHandlingPerE2NodeMap
      message.enodbName.str = none) (hpdu : pdu.setupIEs = none) :
    dispatch message m pdu w = .ok () w := by
  have hgate {k : E2NodeConnectionHandling → M Unit} :
      ifE2SetupRequestReceived message.enodbName.str k w = .ok () w := gate_of_none h
  cases pdu with
  | nothing => rfl
  | initiatingMessage i =>
    cases i with
    | e2setup ies => cases hpdu
    | _ => exact hgate
  | successfulOutcome o => cases o <;> exact hgate
  | unsuccessfulOutcome o => cases o <;> exact hgate

/-! ## The handlers -/

section Handlers

variable {writes : E2TProcedureStates → Prop} {sends : Output → Prop} {w₀ : World}
  {message : ReportingMessages} {cu : ConnectedCU}

/-- The invariant of a handler on the connection `message.peerInfo` that began in `w₀`. -/
abbrev Serving (message : ReportingMessages) (writes : E2TProcedureStates → Prop)
    (sends : Output → Prop) (w₀ : World) : World → Prop :=
  Touches message.enodbName.str writes sends w₀

/-- The messages of the types `types` for the node are among the outputs `sends`. -/
def Sends (message : ReportingMessages) (types : MsgType → Prop) (sends : Output → Prop) : Prop :=
  ∀ msg sent, message.enodbName.str ≠ [] → msg.meid = message.enodbName.str → types msg.mtype →
    sends (.rmr msg sent)

theorem keeps_forwardRequestID (hc : w₀.heap.get message.peerInfo = some cu)
    (hn : message.enodbName.str ≠ []) {mtype : MsgType} (hs : Sends message (· = mtype) sends)
    {count messageSent : M Unit}
    (hcount : ∀ I, Counts I message.peerInfo (some cu) → Keeps (Raises (some cu)) I count)
    (hsent : Keeps (Raises (some cu)) (Serving message writes sends w₀) messageSent)
    (ies : List (ProtocolIE RequestIEs)) :
    Keeps (Raises (some cu)) (Serving message writes sends w₀)
      (forwardRequestID message mtype count messageSent ies) := by
  induction ies with
  | nil => exact Keeps.pure _
  | cons ie rest ih =>
    unfold forwardRequestID
    cases ie.value with
    | other => exact ih
    | ricRequestID r =>
      dsimp only
      split
      · refine keeps_nextTransaction.bind fun tx => ?_
        -- from here on the buffer is addressed to the node
        let I : World → Prop := fun w =>
          Serving message writes sends w₀ w ∧ w.sendMessage.meid = message.enodbName.str ∧
            w.sendMessage.mtype = mtype
        have hI : Counts I message.peerInfo (some cu) :=
          ⟨fun w r h => ⟨(Touches.counts _ _ _ hc).registry w r h.1, h.2⟩,
            fun w h => (Touches.counts _ _ _ hc).peer w h.1⟩
        intro w hw
        rw [bind_of_ok (rfl : writeSendMessage _ w = .ok () _)]
        have haddr : I { w with
            sendMessage := { w.sendMessage with
              mtype := mtype, xact := tx, meid := message.enodbName.str, state := .ok,
              subId := r.ricInstanceID } } :=
          ⟨hw.trans (.of_eq rfl rfl rfl rfl rfl rfl), rfl, rfl⟩
        refine (hcount I hI _ haddr).bind (fun _ h => h.1) fun _ w' hw' => ?_
        have hsend :
            Ends (Raises (some cu)) (Serving message writes sends w₀) (sendRmrMessage w') :=
          sendRmrMessage_keeps hw'.1 fun _ => hs _ _ hn hw'.2.1 hw'.2.2
        exact hsend.bind (fun _ h => h) fun _ => hsent
      · exact ih

/-- A case behind the gate, from its body. -/
theorem keeps_case {I : World → Prop} {k : E2NodeConnectionHandling → M Unit}
    (hk : message.enodbName.str ≠ [] → ∀ handling, Keeps (Raises (some cu)) I (k handling)) :
    Keeps (uplinkRaises message.enodbName.str cu) I
      (ifE2SetupRequestReceived message.enodbName.str k) :=
  keeps_gate fun hn handling => (hk hn handling).mono fun _ he => ⟨hn, he⟩

theorem keeps_report (hn : message.enodbName.str ≠ []) {types : MsgType → Prop}
    (hs : Sends message types sends) {E : Fault → Prop} {mtype : MsgType} (hmtype : types mtype) :
    Keeps E (Serving message writes sends w₀) (sendRequestToXapp message.enodbName.str mtype) :=
  keeps_sendRequestToXapp mtype fun msg sent hmeid heq => hs msg sent hn hmeid (heq ▸ hmtype)

theorem keeps_forward (hn : message.enodbName.str ≠ []) {types : MsgType → Prop}
    (hs : Sends message types sends) {E : Fault → Prop} {mtype : MsgType} (hmtype : types mtype)
    (xer : Option (List UInt8)) :
    Keeps E (Serving message writes sends w₀) (buildAndSendSetupRequest message mtype xer) :=
  keeps_buildAndSendSetupRequest _ mtype xer fun msg sent hmeid heq =>
    hs msg sent hn hmeid (heq ▸ hmtype)

theorem keeps_errorIndication (hc : w₀.heap.get message.peerInfo = some cu) (m : SctpMsg)
    {ies : List (ProtocolIE ErrorIndicationIEs)}
    (hs : Sends message (uplinkTypes (.initiatingMessage (.errorIndication ies))) sends) :
    Keeps (uplinkRaises message.enodbName.str cu) (Serving message writes sends w₀)
      (errorIndication message m ies) := by
  have hI := Touches.counts message.enodbName.str writes sends hc
  have hcounted : Counted .inIniti .inIniti .errorIndication := by decide
  refine keeps_case fun hn handling => Keeps.get.bind fun w => ?_
  have htail : Keeps (Raises (some cu)) (Serving message writes sends w₀) (do
      countMessage message.peerInfo .inIniti .inIniti .errorIndication message.asnLength
      let _ ← sendRequestToXapp message.enodbName.str .ricErrorIndication) :=
    (hI.countMessage hcounted _).bind fun _ => (keeps_report hn hs (.inr (.inr rfl))).bind fun _ =>
      Keeps.pure _
  dsimp only
  split
  · exact (keeps_forward hn hs (.inl rfl) _).bind fun _ => htail
  · split
    · exact (keeps_report hn hs (.inr (.inl rfl))).bind fun _ => htail
    · exact htail

theorem keeps_asnInitiatingRequest (hc : w₀.heap.get message.peerInfo = some cu) (m : SctpMsg)
    {i : InitiatingMessage} (hi : (E2APPDU.initiatingMessage i).setupIEs = none)
    (hs : Sends message (uplinkTypes (.initiatingMessage i)) sends) :
    Keeps (uplinkRaises message.enodbName.str cu)
      (Serving message (uplinkWrites (.initiatingMessage i)) sends w₀)
      (asnInitiatingRequest message m i) := by
  have hI := Touches.counts message.enodbName.str (uplinkWrites (.initiatingMessage i)) sends hc
  cases i with
  | e2setup ies => cases hi
  | ricServiceUpdate ies =>
    refine keeps_case fun hn _ => (keeps_setStatus (.inl rfl)).bind fun _ => ?_
    refine (hI.countMessage (by decide) _).bind fun _ =>
      (keeps_forward hn hs rfl _).bind fun _ => ?_
    exact keeps_setStatus (.inr rfl)
  | e2nodeConfigurationUpdate =>
    exact keeps_case fun hn _ =>
      (hI.countMessage (by decide) _).bind fun _ => keeps_forward hn hs rfl _
  | errorIndication ies => exact keeps_errorIndication hc m hs
  | reset =>
    refine keeps_case fun hn _ => (hI.countMessage (by decide) _).bind fun _ => ?_
    refine (keeps_xmlFromPER _).bind fun rc => ?_
    split
    · exact Keeps.pure _
    · exact (keeps_report hn hs rfl).bind fun _ => Keeps.pure _
  | ricIndication ies =>
    refine keeps_case fun hn _ => (keeps_setStatus (.inl rfl)).bind fun _ => ?_
    exact keeps_forwardRequestID hc hn hs (fun I hI => hI.countMessage (by decide) _)
      (keeps_setStatus (.inr rfl)) ies
  | ricSubscriptionDeleteRequired =>
    exact keeps_case fun hn _ => (hI.countMessage (by decide) _).bind fun _ =>
      (keeps_report hn hs rfl).bind fun _ => Keeps.pure _
  | other code => exact keeps_case fun _ _ => hI.countInternal raises_of_none _

theorem keeps_asnSuccessfulMsg (hc : w₀.heap.get message.peerInfo = some cu) (m : SctpMsg)
    {o : SuccessfulOutcome} (hs : Sends message (uplinkTypes (.successfulOutcome o)) sends) :
    Keeps (uplinkRaises message.enodbName.str cu)
      (Serving message (uplinkWrites (.successfulOutcome o)) sends w₀)
      (asnSuccessfulMsg message m o) := by
  have hI := Touches.counts message.enodbName.str (uplinkWrites (.successfulOutcome o)) sends hc
  cases o with
  | reset =>
    refine keeps_case fun hn _ => (hI.countMessageIfSet (by decide) _).bind fun _ => ?_
    refine (keeps_xmlFromPER _).bind fun rc => ?_
    split
    · exact Keeps.pure _
    · exact (keeps_report hn hs rfl).bind fun _ => Keeps.pure _
  | ricControl ies =>
    have hw : uplinkWrites (.successfulOutcome (.ricControl ies)) .controlProcedureCompleted := rfl
    exact keeps_case fun hn _ => keeps_forwardRequestID hc hn hs
      (fun I hI => hI.countMessageIfSet (by decide) _) (keeps_setStatus hw) ies
  | ricSubscription =>
    refine keeps_case fun hn _ => (hI.countMessageIfSet (by decide) _).bind fun _ => ?_
    exact (keeps_report hn hs rfl).bind fun _ => keeps_setStatus rfl
  | ricSubscriptionDelete =>
    refine keeps_case fun hn _ => (keeps_setStatus (.inl rfl)).bind fun _ => ?_
    refine (hI.countMessageIfSet (by decide) _).bind fun _ => ?_
    exact (keeps_report hn hs rfl).bind fun _ => keeps_setStatus (.inr rfl)
  | e2connectionUpdate => exact keeps_case fun _ _ => hI.countOne (by decide) _
  | other code => exact keeps_case fun _ _ => hI.countInternal raises_of_none _

theorem keeps_asnUnSuccsesfulMsg (hc : w₀.heap.get message.peerInfo = some cu)
    {o : UnsuccessfulOutcome} (hs : Sends message (uplinkTypes (.unsuccessfulOutcome o)) sends) :
    Keeps (uplinkRaises message.enodbName.str cu)
      (Serving message (uplinkWrites (.unsuccessfulOutcome o)) sends w₀)
      (asnUnSuccsesfulMsg message o) := by
  have hI := Touches.counts message.enodbName.str (uplinkWrites (.unsuccessfulOutcome o)) sends hc
  cases o with
  | ricControl ies =>
    exact keeps_case fun hn _ => keeps_forwardRequestID hc hn hs
      (fun I hI => hI.countMessage (by decide) _) (Keeps.pure _) ies
  | ricSubscription =>
    exact keeps_case fun hn _ => (hI.countMessage (by decide) _).bind fun _ =>
      (keeps_report hn hs rfl).bind fun _ => Keeps.pure _
  | ricSubscriptionDelete =>
    exact keeps_case fun hn _ => (hI.countMessage (by decide) _).bind fun _ =>
      (keeps_report hn hs rfl).bind fun _ => Keeps.pure _
  | e2connectionUpdate => exact keeps_case fun _ _ => hI.countOne (by decide) _
  | other code => exact keeps_case fun _ _ => hI.countInternal raises_of_none _

/-- Every PDU but a setup request, handled on a live connection, touches the node of the name it
came with, and sends messages of its types. -/
theorem keeps_dispatch_of (message : ReportingMessages)
    (hc : w₀.heap.get message.peerInfo = some cu) (m : SctpMsg) {pdu : E2APPDU}
    (hpdu : pdu.setupIEs = none) (hs : Sends message (uplinkTypes pdu) sends) :
    Keeps (uplinkRaises message.enodbName.str cu) (Serving message (uplinkWrites pdu) sends w₀)
      (dispatch message m pdu) := by
  cases pdu with
  | nothing => exact Keeps.pure _
  | initiatingMessage i => exact keeps_asnInitiatingRequest hc m hpdu hs
  | successfulOutcome o => exact keeps_asnSuccessfulMsg hc m hs
  | unsuccessfulOutcome o => exact keeps_asnUnSuccsesfulMsg hc hs

theorem keeps_dispatch (message : ReportingMessages) (hc : w₀.heap.get message.peerInfo = some cu)
    (m : SctpMsg) {pdu : E2APPDU} (hpdu : pdu.setupIEs = none) :
    Keeps (uplinkRaises message.enodbName.str cu)
      (Serving message (uplinkWrites pdu) (uplinkSends message.enodbName.str) w₀)
      (dispatch message m pdu) :=
  keeps_dispatch_of message hc m hpdu fun _ _ hn hmeid _ => ⟨hn, hmeid⟩

end Handlers

end E2Term
