import E2Term.Counters
import E2Term.DecodedPdus
import E2Term.EncodeLoop
import E2Term.ErrorIndications
import E2Term.HexDump
import E2Term.PerXer

/-!
# Octets from a node

The octets that a node sends are decoded, handled, and sent on as XML. Here the message that a
handler works on is the one that the codecs make of its octets, and a read is handled if it comes to
its end and stays inside its buffers.
-/

namespace E2Term

open CString Effect Per Runs

/-! ## Messages -/

/-- What the XML encoder passes to its callback for a PDU, `none` where it fails. -/
abbrev PduEncoder := Per.Value → Option (List (List UInt8))

/-- What is assumed of it: the pieces are the text of the PDU, if its character strings are
printable. -/
def PrintsXml (encoder : PduEncoder) : Prop :=
  ∀ value x, AsnPer.E2APPDU.toXer value = some x →
    ∃ pieces, encoder value = some pieces ∧ pieces.flatten = xerEncode pduTag x

/-- The PDU and the XML text of the message are those of its octets. The text is what the encode
loop leaves of the pieces that the encoder passes to it; nothing is said of it where the loop leaves
its buffer. -/
structure SctpMsg.OfOctets (m : SctpMsg) (encoder : PduEncoder) : Prop where
  pdu : m.pdu = (asnDecode m.payload).bind fun r => r.1.toE2APPDU
  xer : ∀ value n, asnDecode m.payload = some (value, n) →
    (∀ pieces, encoder value = some pieces → TerminatesInside (fun _ => true) pieces) →
      (encodeSetupRequest (fun _ => true) (encoder value) 2).map EncodeEnd.res = some m.xer

/-- The pieces for the octets of a message. -/
def SctpMsg.pieces (m : SctpMsg) (encoder : PduEncoder) : Option (List (List UInt8)) :=
  (asnDecode m.payload).bind fun r => encoder r.1

/-- An encoder with one piece for a PDU. -/
def wholeText : PduEncoder := fun value =>
  (AsnPer.E2APPDU.toXer value).map fun x => [xerEncode pduTag x]

theorem printsXml_wholeText : PrintsXml wholeText := fun value x hx =>
  ⟨[xerEncode pduTag x], by rw [wholeText, hx]; rfl, List.append_nil _⟩

/-- The message of octets, with the XML text that the encoder makes of what they decode to. -/
def SctpMsg.ofOctets (payload : List UInt8) (streamId instrms outstrms : Nat)
    (answers : Answers) : SctpMsg where
  payload := payload
  streamId := streamId
  pdu := (asnDecode payload).bind fun r => r.1.toE2APPDU
  xer := (asnDecode payload).bind fun r =>
    (AsnPer.E2APPDU.toXer r.1).map fun x => xerEncode pduTag x
  instrms := instrms
  outstrms := outstrms
  answers := answers

theorem SctpMsg.ofOctets_ofOctets (payload : List UInt8) (streamId instrms outstrms : Nat)
    (answers : Answers) :
    (SctpMsg.ofOctets payload streamId instrms outstrms answers).OfOctets wholeText where
  pdu := rfl
  xer value n hv hinside := by
    have hdecode : asnDecode payload = some (value, n) := hv
    unfold wholeText at hinside ⊢
    cases hx : AsnPer.E2APPDU.toXer value with
    | none =>
      simp only [SctpMsg.ofOctets, hdecode, Option.bind_some, hx, Option.map_none]
      rfl
    | some x =>
      rw [hx] at hinside
      have hflat : [xerEncode pduTag x].flatten = xerEncode pduTag x := List.append_nil _
      have hencode := encodeSetupRequest_pdu (fun _ => rfl) hflat (hinside _ rfl)
      simp only [SctpMsg.ofOctets, hdecode, Option.bind_some, hx, Option.map_some]
      exact hencode

section Octets

variable {encoder : PduEncoder} {m : SctpMsg} {value : Per.Value} {n : Nat}

theorem SctpMsg.OfOctets.pdu_of_decode (hm : m.OfOctets encoder)
    (h : asnDecode m.payload = some (value, n)) : m.pdu = value.toE2APPDU := by
  rw [hm.pdu, h]
  rfl

/-- What the octets of a message are decoded to is well formed. -/
theorem SctpMsg.OfOctets.decoded (hm : m.OfOctets encoder) {pdu : E2APPDU}
    (hpdu : m.pdu = some pdu) : pdu.Decoded := by
  rw [hm.pdu] at hpdu
  obtain ⟨⟨value, n⟩, hvalue, hread⟩ := Option.bind_eq_some_iff.mp hpdu
  obtain ⟨pdu', hread', hdec⟩ := AsnPer.toE2APPDU_of_has (asnDecode_has hvalue)
  rw [hread'] at hread
  cases hread
  exact hdec

/-- Where the encode loop stays in its buffer, the text of the message is that of the PDU. -/
theorem SctpMsg.OfOctets.xer_eq (hm : m.OfOctets encoder) (hencoder : PrintsXml encoder)
    (hv : asnDecode m.payload = some (value, n)) {x : Xer.Value}
    (hx : AsnPer.E2APPDU.toXer value = some x)
    (hinside : ∀ pieces, m.pieces encoder = some pieces →
      TerminatesInside (fun _ => true) pieces) : m.xer = some (xerEncode pduTag x) := by
  obtain ⟨pieces, hpieces, hflat⟩ := hencoder value x hx
  have hsome : m.pieces encoder = some pieces := by
    unfold SctpMsg.pieces
    rw [hv, Option.bind_some, hpieces]
  have hterm := hinside pieces hsome
  have hres := hm.xer value n hv fun pieces' hpieces' => by
    rw [hpieces] at hpieces'
    cases hpieces'
    exact hterm
  rw [hpieces, encodeSetupRequest_pdu (fun _ => rfl) hflat hterm] at hres
  exact (Option.some.inj hres).symm

end Octets

/-! ## Names that do not fit -/

/-- The names of the nodes, each printed over the one before from the string `old` on, outgrow the
buffer. -/
def Outgrows (old : List UInt8) : List GlobalE2nodeID → Prop
  | [] => False
  | g :: rest => maxEnodbNameSize ≤ (g.nameOver old).length ∨ Outgrows (g.nameOver old) rest

instance : ∀ (old : List UInt8) (nodes : List GlobalE2nodeID), Decidable (Outgrows old nodes)
  | _, [] => inferInstanceAs (Decidable False)
  | old, g :: rest =>
    have := instDecidableOutgrows (g.nameOver old) rest
    inferInstanceAs (Decidable (_ ∨ _))

/-- A name with bits fills the buffer up to its end. -/
theorem NameParts.builds_over {p : NameParts} {b : NameBuf} {old : List UInt8} (h : b.Holds old)
    (hid : p.id.isSome) : Buf.Builds (p.build b) (p.over old) := by
  have hprint : ∀ x ∈ p.kind.type ++ p.plmn.printed, x ≠ 0 :=
    List.forall_mem_append.mpr ⟨p.kind.type_ne_zero, printed_ne_zero p.plmn⟩
  obtain ⟨b₁, hb₁, -, hnext⟩ := Buf.snprintf_over h hprint 20 (by decide) (by decide)
  have hfront : translatePlmnId b p.plmn p.kind.type = some b₁ := by rw [translatePlmnId_eq, hb₁]
  unfold NameParts.build NameParts.over
  rw [hfront, Option.bind_eq_bind, Option.bind_some]
  obtain ⟨kind, plmn, id⟩ := p
  obtain ⟨⟨data, cuid, duid⟩, rfl⟩ := Option.isSome_iff_exists.mp hid
  exact builds_translateBitStringToChar (hnext 95 (by decide)) data cuid duid

/-- The scan of a decoded request ends at a name that outgrows the buffer, and only there. -/
theorem scanSetupIEs_eq_none_iff {ies : List (ProtocolIE E2setupRequestIEs)}
    (hdec : ∀ ie ∈ ies, ie.SetupDecoded) :
    ∀ {tid : Int} {message peer : NameBuf} {old : List UInt8}, peer.Holds old →
      (scanSetupIEs tid message peer ies = none ↔ Outgrows old (namedNodes ies)) := by
  induction ies with
  | nil => exact fun _ => ⟨nofun, nofun⟩
  | cons ie rest ih =>
    intro tid message peer old hold
    obtain ⟨hie, hrest⟩ := List.forall_mem_cons.mp hdec
    obtain ⟨id, value⟩ := ie
    cases value with
    | other => exact ih hrest hold
    | transactionID t =>
      obtain ⟨hid, -⟩ := hie
      unfold scanSetupIEs
      dsimp only at hid ⊢
      rw [if_pos hid]
      exact ih hrest hold
    | globalE2nodeID g =>
      obtain ⟨hid, p, hp, data, cuid, duid, hbits, -⟩ := hie
      have hnodes : namedNodes (⟨id, .globalE2nodeID g⟩ :: rest) = g :: namedNodes rest := by
        dsimp only at hid
        simp [namedNodes, hid]
      have hbuilds := p.builds_over hold (by rw [hbits]; rfl)
      have hover : g.nameOver old = p.over old := by
        unfold GlobalE2nodeID.nameOver
        rw [hp]
      rw [hnodes]
      unfold scanSetupIEs Outgrows
      dsimp only at hid ⊢
      rw [if_pos hid, buildRanName_eq, hp, hover]
      dsimp only
      rcases Nat.lt_or_ge (p.over old).length maxEnodbNameSize with hlt | hge
      · obtain ⟨b, hb, hholds⟩ := hbuilds.1 hlt
        rw [hb]
        simp only [Option.map_some, Int.lt_irrefl, if_false, Option.map_eq_none_iff,
          Nat.not_le.mpr hlt, false_or]
        exact ih hrest hholds
      · rw [hbuilds.2 hge]
        simp [hge]

/-! ## Forwarded PDUs -/

/-- The procedures whose PDUs go on to the E2 manager as XML. -/
def forwardedProcedures : List Int :=
  [ProcedureCode.e2setup, .ricServiceUpdate, .e2nodeConfigurationUpdate, .errorIndication].map
    ProcedureCode.toInt

/-- The same for a PDU that is decoded. -/
def Per.Value.forwarded : Per.Value → Bool
  | .choice 0 (.object procedureCode _ _ _) => forwardedProcedures.contains procedureCode
  | _ => false

theorem Per.Value.exists_of_forwarded {v : Per.Value} (h : v.forwarded = true) :
    ∃ procedureCode crit present value, v = .choice 0 (.object procedureCode crit present value) ∧
      procedureCode ∈ forwardedProcedures := by
  unfold Per.Value.forwarded at h
  split at h
  · exact ⟨_, _, _, _, rfl, List.contains_iff_mem.mp h⟩
  · cases h

theorem toXerAlternative_fields : ∀ (l : List AsnPer.Member) (present : Nat) (value : Per.Value),
    (AsnPer.fields l).toXerAlternative present value =
      l[present]?.bind fun m => (m.type.toXer value).map (m.name, ·)
  | [], _, _ => rfl
  | _ :: _, 0, _ => rfl
  | _ :: l, present + 1, value => toXerAlternative_fields l present value

theorem Xer.has_object_of {key criticality value name : Xer.Name} {ids : List Xer.Name}
    {rows : Xer.Fields} {n : Int} {id : Xer.Name} {content : Xer.Value} (hid : id ∈ ids)
    (hrow : rows.hasRow n name content = true) :
    (Xer.Typ.object key criticality value ids rows).has
      (.elements (.cons key (.integer n) (.cons criticality (.enumerated id)
        (.cons value (.elements (.cons name content .nil)) .nil)))) = true := by
  simp [Xer.Typ.has, hid, hrow]

theorem Xer.hasRow_head {f : Xer.Field} {T : Xer.Typ} {rest : Xer.Fields} {content : Xer.Value}
    (h : T.has content = true) : (Xer.Fields.cons f T rest).hasRow f.key f.name content = true := by
  simp [Xer.Fields.hasRow, h]

theorem Xer.hasRow_tail {f : Xer.Field} {T : Xer.Typ} {rest : Xer.Fields} {n : Int}
    {name : Xer.Name} {content : Xer.Value} (hn : n ≠ f.key)
    (h : rest.hasRow n name content = true) :
    (Xer.Fields.cons f T rest).hasRow n name content = true := by
  simp [Xer.Fields.hasRow, hn, h]

/-- The XML of an object of a procedure. -/
theorem toXer_elementaryProcedure {l : List (Int × AsnPer.Member)} {n : Int} {crit present : Nat}
    {value : Per.Value} {x : Xer.Value}
    (hx : (AsnPer.elementaryProcedure l).toXer (.object n crit present value) = some x) :
    ∃ id p content, id ∈ AsnPer.criticalityIds ∧ l[present]? = some p ∧
      p.2.type.toXer value = some content ∧
      x = .elements (.cons AsnPer.procedureCodeName (.integer n)
        (.cons AsnPer.criticalityName (.enumerated id)
          (.cons AsnPer.valueName (.elements (.cons p.2.name content .nil)) .nil))) := by
  obtain ⟨id, hid, hx⟩ := Option.bind_eq_some_iff.mp hx
  obtain ⟨e, he, hx⟩ := Option.bind_eq_some_iff.mp hx
  cases hx
  rw [toXerAlternative_fields, List.getElem?_map] at he
  obtain ⟨m, hm, he⟩ := Option.bind_eq_some_iff.mp he
  obtain ⟨p, hp, rfl⟩ := Option.map_eq_some_iff.mp hm
  obtain ⟨content, hcontent, rfl⟩ := Option.map_eq_some_iff.mp he
  exact ⟨id, p, content, List.mem_of_getElem? hid, hp, hcontent, rfl⟩

theorem distinct_messages :
    AsnPer.RICserviceUpdate.distinct = true ∧ AsnPer.E2setupRequest.distinct = true ∧
      AsnPer.E2nodeConfigurationUpdate.distinct = true ∧
      AsnPer.ErrorIndication.distinct = true := by
  decide +kernel

/-- The XML of a forwarded PDU is of the type that its readers know. -/
theorem has_forwardedPDU {v : Per.Value} {x : Xer.Value} (hv : AsnPer.E2APPDU.has v = true)
    (hforwarded : v.forwarded = true) (hx : AsnPer.E2APPDU.toXer v = some x) :
    AsnDef.ForwardedPDU.has x = true := by
  obtain ⟨procedureCode, crit, present, value, rfl, hmem⟩ := v.exists_of_forwarded hforwarded
  obtain ⟨_, _, _, heq, hm, hvalue⟩ := AsnPer.has_choice hv
  cases heq
  cases hm
  obtain ⟨n, crit', row, m, value', heq, hrow, hcontent⟩ := AsnPer.has_elementaryProcedure hvalue
  cases heq
  obtain ⟨e, he, rfl⟩ := Option.map_eq_some_iff.mp hx
  obtain ⟨y, hy, rfl⟩ := Option.map_eq_some_iff.mp he
  obtain ⟨id, p, content, hid, hp, hxml, rfl⟩ := toXer_elementaryProcedure hy
  clear hv hx he hy hvalue
  obtain ⟨hservice, hsetup, hconfig, herror⟩ := distinct_messages
  obtain ⟨esetup, eservice, econfig, eerror⟩ := erase_messages
  show AsnDef.InitiatingMessage.has _ = true
  refine Xer.has_object_of hid ?_
  match present with
  | 2 =>
    cases hrow
    cases hp
    exact Xer.hasRow_head (eservice ▸ Typ.has_toXer _ hservice hcontent hxml)
  | 4 =>
    cases hrow
    cases hp
    exact Xer.hasRow_tail (by decide)
      (Xer.hasRow_head (esetup ▸ Typ.has_toXer _ hsetup hcontent hxml))
  | 5 =>
    cases hrow
    cases hp
    exact Xer.hasRow_tail (by decide) (Xer.hasRow_tail (by decide)
      (Xer.hasRow_head (econfig ▸ Typ.has_toXer _ hconfig hcontent hxml)))
  | 10 =>
    cases hrow
    cases hp
    exact Xer.hasRow_tail (by decide) (Xer.hasRow_tail (by decide) (Xer.hasRow_tail (by decide)
      (Xer.hasRow_head (eerror ▸ Typ.has_toXer _ herror hcontent hxml))))
  | 0 | 1 | 3 | 6 | 7 | 8 | 9 | 11 =>
    cases hrow
    exact absurd hmem (by decide)
  | _ + 12 => cases hrow

/-! ## Forwarded texts -/

/-- The types of the messages that carry a PDU to the E2 manager. -/
def forwardTypes (t : MsgType) : Prop :=
  t = .ricE2SetupReq ∨ t = .ricServiceUpdate ∨ t = .ricE2NodeConfigUpdate ∨
    t = .ricE2RicErrorIndication

/-- The case of the PDU comes to `buildAndSendSetupRequest`, on a connection with this name. -/
def E2APPDU.PassedOn (w : World) (enodbName : NameBuf) : E2APPDU → Prop
  | .initiatingMessage (.e2setup ies) => ∃ s, scanSetup enodbName ies = some s ∧ s.accepted
  | .initiatingMessage (.ricServiceUpdate _) | .initiatingMessage .e2nodeConfigurationUpdate =>
    ∃ e, E2NodeMap.getE2tProcedureOngoingStatus w.connectionHandlingPerE2NodeMap enodbName.str =
      some e
  | .initiatingMessage (.errorIndication ies) =>
    ∃ e, E2NodeMap.getE2tProcedureOngoingStatus w.connectionHandlingPerE2NodeMap enodbName.str =
      some e ∧ (e.route ies).e2m = true
  | _ => False

/-- The same for a message that is read. -/
def SctpMsg.PassedOn (m : SctpMsg) (c : ConnId) (w : World) : Prop :=
  ∃ cu pdu, w.heap.get c = some cu ∧ m.pdu = some pdu ∧ pdu.PassedOn w cu.enodbName

/-- A message of these types is sent where the PDU is passed on, and has its XML text, without the
layout, behind the address. -/
def CarriesXml (params : SctpParams) (passed : Prop) (m : SctpMsg) : Output → Prop
  | .rmr msg _ => forwardTypes msg.mtype → passed ∧
      ∃ res, m.xer = some res ∧ msg.payload = setupPayload params (stripLayout res)
  | .rts _ _ | .sctp _ _ _ _ _ => True

theorem E2APPDU.eq_of_setupIEs {pdu : E2APPDU} {ies : List (ProtocolIE E2setupRequestIEs)}
    (h : pdu.setupIEs = some ies) :
    pdu = .initiatingMessage (.e2setup ies) := by
  unfold setupIEs at h
  split at h
  · rw [Option.some.inj h]
  · cases h

section Texts

variable {E : Fault → Prop} {n : Name} {writes : E2TProcedureStates → Prop} {w₀ : World}
  {message : ReportingMessages} {cu : ConnectedCU} {m : SctpMsg} {passed : Prop}

theorem carriesXml_of_type {params : SctpParams} {msg : RmrMbuf}
    {sent : Bool} {t : MsgType} (ht : ¬ forwardTypes t) (htype : msg.mtype = t) :
    CarriesXml params passed m (.rmr msg sent) := fun h => absurd (htype ▸ h) ht

theorem keeps_forwardXml (message : ReportingMessages) (mtype : MsgType) (hpassed : passed) :
    Keeps E (Touches n writes (CarriesXml w₀.params passed m) w₀)
      (buildAndSendSetupRequest message mtype m.xer) := by
  intro w hw
  obtain ⟨tx, rest, out, hrun, hnone, hsome⟩ := buildAndSendSetupRequest_eq message mtype m.xer w
  have hcarries : ∀ o ∈ out, CarriesXml w₀.params passed m o := by
    cases hxer : m.xer with
    | none =>
      rw [hnone hxer]
      exact fun _ ho => absurd ho List.not_mem_nil
    | some res =>
      obtain ⟨msg, sent, rfl, -, -, hpayload⟩ := hsome res hxer
      rw [List.forall_mem_singleton]
      exact fun _ => ⟨hpassed, res, hxer, by rw [hpayload, hw.params]⟩
  have hstep : Touches n writes (CarriesXml w₀.params passed m) w
      { w with
        transactionCounter := tx
        answers := { w.answers with rmr := rest }
        outbox := w.outbox ++ out } :=
    ⟨rfl, rfl, rfl, rfl, fun _ => rfl, fun _ _ => rfl, .inl rfl, out, rfl, hcarries⟩
  rw [hrun]
  exact ⟨hw.trans hstep, fun _ _ h => by cases h⟩

/-- A report to the xApps or the subscription manager is none of these messages. -/
theorem keeps_reportXml {mtype : MsgType} (h : ¬ forwardTypes mtype) :
    Keeps E (Touches n writes (CarriesXml w₀.params passed m) w₀) (sendRequestToXapp n mtype) :=
  keeps_sendRequestToXapp mtype fun _ _ _ htype => carriesXml_of_type h htype

/-- A case behind the gate, from what its body does for a node with an entry. -/
theorem ends_case {I : World → Prop} (hI : I w₀) {k : E2NodeConnectionHandling → M Unit}
    (hk : ∀ e, E2NodeMap.getE2tProcedureOngoingStatus w₀.connectionHandlingPerE2NodeMap
      message.enodbName.str = some e → Keeps (Raises (some cu)) I (k e)) :
    Ends (uplinkRaises message.enodbName.str cu) I
      (ifE2SetupRequestReceived message.enodbName.str k w₀) := by
  cases hl : E2NodeMap.getE2tProcedureOngoingStatus w₀.connectionHandlingPerE2NodeMap
      message.enodbName.str with
  | none =>
    rw [gate_of_none hl]
    exact Keeps.pure () w₀ hI
  | some e =>
    rw [gate_of_some hl]
    exact (hk e hl).mono (fun _ he => ⟨E2NodeMap.ne_nil_of_entry hl, he⟩) w₀ hI

theorem ends_errorIndicationXml (hc : w₀.heap.get message.peerInfo = some cu)
    {ies : List (ProtocolIE ErrorIndicationIEs)}
    (hpassed : (E2APPDU.initiatingMessage (.errorIndication ies)).PassedOn w₀ message.enodbName →
      passed) :
    Ends (uplinkRaises message.enodbName.str cu)
      (Touches message.enodbName.str noStatus (CarriesXml w₀.params passed m) w₀)
      (errorIndication message m ies w₀) := by
  cases hl : E2NodeMap.getE2tProcedureOngoingStatus w₀.connectionHandlingPerE2NodeMap
      message.enodbName.str with
  | none =>
    have hgate : errorIndication message m ies w₀ = .ok () w₀ := gate_of_none hl
    rw [hgate]
    exact Keeps.pure () w₀ (.refl w₀)
  | some e =>
    rw [errorIndication_eq hl]
    have hroute : Keeps (Raises (some cu))
        (Touches message.enodbName.str noStatus (CarriesXml w₀.params passed m) w₀)
        (routeError (e.route ies) message m) := by
      unfold routeError
      split
      · rename_i he2m
        exact keeps_forwardXml message _ (hpassed ⟨e, hl, he2m⟩)
      · split
        · exact (keeps_reportXml (by simp [forwardTypes])).bind fun _ => Keeps.pure _
        · exact Keeps.pure _
    have hforward : Keeps (Raises (some cu))
        (Touches message.enodbName.str noStatus (CarriesXml w₀.params passed m) w₀)
        (forwardError message) :=
      keeps_forwardError hc _ fun _ _ htype => carriesXml_of_type (by simp [forwardTypes]) htype
    exact ((hroute.bind fun _ => hforward).mono
      fun _ he => ⟨E2NodeMap.ne_nil_of_entry hl, he⟩) w₀ (.refl w₀)

/-- Every PDU but a setup request. -/
theorem ends_dispatchXml (hc : w₀.heap.get message.peerInfo = some cu) {pdu : E2APPDU}
    (hpdu : pdu.setupIEs = none) (hpassed : pdu.PassedOn w₀ message.enodbName → passed) :
    Ends (uplinkRaises message.enodbName.str cu)
      (Touches message.enodbName.str (uplinkWrites pdu) (CarriesXml w₀.params passed m) w₀)
      (dispatch message m pdu w₀) := by
  have hother (htypes : ∀ t, uplinkTypes pdu t → ¬ forwardTypes t) :
      Ends (uplinkRaises message.enodbName.str cu)
        (Touches message.enodbName.str (uplinkWrites pdu) (CarriesXml w₀.params passed m) w₀)
        (dispatch message m pdu w₀) :=
    keeps_dispatch_of message hc m hpdu (fun msg _ _ _ ht => carriesXml_of_type (htypes _ ht) rfl)
      w₀ (.refl w₀)
  have hI := Touches.counts message.enodbName.str (uplinkWrites pdu)
    (CarriesXml w₀.params passed m) hc
  cases pdu with
  | nothing => exact Keeps.pure _ w₀ (.refl w₀)
  | successfulOutcome o =>
    refine hother fun t ht => ?_
    cases o <;> first | exact ht.elim | (cases ht; simp [forwardTypes])
  | unsuccessfulOutcome o =>
    refine hother fun t ht => ?_
    cases o <;> first | exact ht.elim | (cases ht; simp [forwardTypes])
  | initiatingMessage i =>
    cases i with
    | e2setup ies => cases hpdu
    | ricServiceUpdate ies =>
      refine ends_case (.refl w₀) fun e hl => (keeps_setStatus (.inl rfl)).bind fun _ => ?_
      exact (hI.countMessage (by decide) _).bind fun _ =>
        (keeps_forwardXml message _ (hpassed ⟨e, hl⟩)).bind fun _ => keeps_setStatus (.inr rfl)
    | e2nodeConfigurationUpdate =>
      exact ends_case (.refl w₀) fun e hl => (hI.countMessage (by decide) _).bind fun _ =>
        keeps_forwardXml message _ (hpassed ⟨e, hl⟩)
    | errorIndication ies => exact ends_errorIndicationXml hc hpassed
    | reset | ricIndication ies | ricSubscriptionDeleteRequired =>
      refine hother fun t ht => ?_
      cases ht
      simp [forwardTypes]
    | other code => exact hother fun t ht => ht.elim

/-- A setup request that is accepted announces itself, with the XML text where there is one. -/
theorem e2setup_announces {w : World} (hc : w.heap.get message.peerInfo = some cu)
    {ies : List (ProtocolIE E2setupRequestIEs)} {s : SetupScan}
    (hs : scanSetup message.enodbName ies = some s) (hacc : s.accepted) :
    ∃ w' out, e2setup message m ies w = .ok () w' ∧ w'.outbox = w.outbox ++ out ∧
      (m.xer = none → out = []) ∧
      ∀ res, m.xer = some res → ∃ msg sent, out = [.rmr msg sent] ∧ msg.mtype = .ricE2SetupReq ∧
        msg.payload = setupPayload w.params (stripLayout res) := by
  have hregister := register_get hc s.peer s.keys
  let cu' := ConnectedCU.accept { cu with enodbName := s.peer } m
  let w₀ : World := { w.register message.peerInfo cu s.peer s.keys with
    heap := (w.register message.peerInfo cu s.peer s.keys).heap.set message.peerInfo cu' }
  have hget : w₀.heap.get message.peerInfo = some cu' := get_set_self hregister cu'
  have hI := Touches.counts [] noStatus noOutput hget
  obtain ⟨_, w₁, hrun₁, h₁⟩ :=
    (hI.incrementIfSet (cu'.counters .inIniti .msgCounter .e2setup) 1).returns (.refl w₀)
  obtain ⟨_, w₂, hrun₂, h₂⟩ := (hI.incrementIfSet
    (cu'.counters .inIniti .bytesCounter .e2setup) message.asnLength).returns h₁
  obtain ⟨tx, rest, out, hrun₃, hnone, hsome⟩ :=
    buildAndSendSetupRequest_eq { message with enodbName := s.message } .ricE2SetupReq m.xer w₂
  refine ⟨{ w₂ with
      transactionCounter := tx
      answers := { w₂.answers with rmr := rest }
      outbox := w₂.outbox ++ out
      connectionHandlingPerE2NodeMap := E2NodeMap.insertE2SetupProcedureOngoing
        w₂.connectionHandlingPerE2NodeMap s.message.str s.transactionId }, out, ?_, ?_, hnone,
    fun res hres => ?_⟩
  · unfold e2setup
    rw [bind_of_ok (collectSetupRequestData_eq hc hs)]
    dsimp only
    rw [if_neg (Int.not_lt.mpr hacc),
      handleE2SetupReq_eq { message with enodbName := s.message } hregister m]
    unfold forwardSetup
    rw [bind_of_ok (deref_of_get hget), bind_of_ok hrun₁, bind_of_ok hrun₂, bind_of_ok hrun₃]
    rfl
  · exact congrArg (· ++ out) h₂.outbox_eq
  · obtain ⟨msg, sent, hout, htype, -, hpayload⟩ := hsome res hres
    rw [h₂.params] at hpayload
    exact ⟨msg, sent, hout, htype, hpayload⟩

/-- A setup request is announced where its scan accepts it. -/
theorem e2setup_xml {w w' : World} (hc : w.heap.get message.peerInfo = some cu)
    {ies : List (ProtocolIE E2setupRequestIEs)}
    (hpassed : (E2APPDU.initiatingMessage (.e2setup ies)).PassedOn w message.enodbName → passed)
    (h : e2setup message m ies w = .ok () w') :
    ∃ out, w'.outbox = w.outbox ++ out ∧ ∀ o ∈ out, CarriesXml w.params passed m o := by
  cases hs : scanSetup message.enodbName ies with
  | none =>
    obtain ⟨w'', hrun, -⟩ := e2setup_overflow message hc m hs
    rw [hrun] at h
    cases h
  | some s =>
    by_cases hacc : s.accepted
    · obtain ⟨w'', out, hrun, hout, hnone, hsome⟩ := e2setup_announces (m := m) hc hs hacc
      rw [hrun] at h
      cases h
      refine ⟨out, hout, ?_⟩
      cases hxer : m.xer with
      | none =>
        rw [hnone hxer]
        exact fun _ ho => absurd ho List.not_mem_nil
      | some res =>
        obtain ⟨msg, sent, rfl, -, hpayload⟩ := hsome res hxer
        rw [List.forall_mem_singleton]
        exact fun _ => ⟨hpassed ⟨s, hs, hacc⟩, res, hxer, hpayload⟩
    · unfold e2setup at h
      rw [bind_of_ok (collectSetupRequestData_eq hc hs)] at h
      dsimp only at h
      rw [if_pos (Int.not_le.mp hacc)] at h
      cases h
      exact ⟨[], (List.append_nil _).symm, fun _ ho => absurd ho List.not_mem_nil⟩

/-- All that a read sends on as XML. -/
theorem readAction_xml {w w' : World} {c : ConnId}
    (h : readAction c (some (.msg m)) w = .ok () w') :
    ∃ out, w'.outbox = w.outbox ++ out ∧
      ∀ o ∈ out, CarriesXml w.params (m.PassedOn c w) m o := by
  cases hc : w.heap.get c with
  | none =>
    rw [readAction_freed hc] at h
    cases h
  | some cu =>
    cases hpdu : m.pdu with
    | none =>
      rw [readAction_undecodable hc hpdu] at h
      cases h
      exact ⟨[], (List.append_nil _).symm, fun _ ho => absurd ho List.not_mem_nil⟩
    | some pdu =>
      rw [readAction_eq hc hpdu] at h
      have hget : (w.received m).heap.get
          (⟨cu.enodbName, c, m.payload.length⟩ : ReportingMessages).peerInfo = some cu := hc
      have hpassed : pdu.PassedOn (w.received m) cu.enodbName → m.PassedOn c w :=
        fun hp => ⟨cu, pdu, hc, hpdu, hp⟩
      cases hies : pdu.setupIEs with
      | some ies =>
        obtain rfl : pdu = .initiatingMessage (.e2setup ies) := E2APPDU.eq_of_setupIEs hies
        rw [dispatch_setup hies] at h
        exact e2setup_xml (w := w.received m) hget hpassed h
      | none =>
        have hk := ends_dispatchXml (m := m) hget hies hpassed
        rw [h] at hk
        exact hk.state.sent

end Texts

/-! ## The PDUs that are sent on -/

/-- A message to the E2 manager with a PDU was sent. -/
def SendsXml (w w' : World) : Prop :=
  ∃ msg sent, Output.rmr msg sent ∈ w'.outbox.drop w.outbox.length ∧ forwardTypes msg.mtype

section Exact

variable {w w' w₁ w₂ : World} {message : ReportingMessages} {m : SctpMsg} {res : List UInt8}
  {mtype : MsgType} {cu : ConnectedCU}

theorem sendsXml_of_append {out : List Output} {msg : RmrMbuf} {sent : Bool}
    (hout : w'.outbox = w.outbox ++ out) (hmem : .rmr msg sent ∈ out)
    (htype : forwardTypes msg.mtype) : SendsXml w w' :=
  ⟨msg, sent, by rwa [drop_outbox hout], htype⟩

theorem SendsXml.before {n : Name} {writes : E2TProcedureStates → Prop} (h : SendsXml w₁ w')
    (ht : Touches n writes noOutput w w₁) : SendsXml w w' := by
  obtain ⟨msg, sent, hmem, htype⟩ := h
  exact ⟨msg, sent, by rwa [ht.outbox_eq] at hmem, htype⟩

theorem SendsXml.after {n : Name} {writes : E2TProcedureStates → Prop} (h : SendsXml w w₁)
    (ht : Touches n writes noOutput w₁ w') : SendsXml w w' := by
  obtain ⟨msg, sent, hmem, htype⟩ := h
  exact ⟨msg, sent, by rwa [ht.outbox_eq], htype⟩

/-- `buildAndSendSetupRequest` sends a text that there is. -/
theorem sendsXml_forward (hres : m.xer = some res) (ht : forwardTypes mtype)
    (h : buildAndSendSetupRequest message mtype m.xer w = .ok () w') : SendsXml w w' := by
  obtain ⟨tx, rest, out, hrun, -, hsome⟩ := buildAndSendSetupRequest_eq message mtype m.xer w
  obtain ⟨msg, sent, rfl, htype, -⟩ := hsome res hres
  rw [hrun] at h
  cases h
  exact sendsXml_of_append rfl List.mem_cons_self (htype ▸ ht)

/-- A PDU that is passed on is sent, where there is a text of it. -/
theorem sendsXml_dispatch (hres : m.xer = some res) (hc : w.heap.get message.peerInfo = some cu)
    {pdu : E2APPDU} (hpassed : pdu.PassedOn w message.enodbName)
    (h : dispatch message m pdu w = .ok () w') : SendsXml w w' := by
  have hcount {n : Name} {writes : E2TProcedureStates → Prop} {w₁ : World} {p : ProcedureCode}
      (hcounted : Counted .inIniti .inIniti p) (ht : Touches n writes noOutput w w₁) :
      Keeps (Raises (some cu)) (Touches n writes noOutput w₁)
        (countMessage message.peerInfo .inIniti .inIniti p message.asnLength) :=
    (Touches.counts n writes noOutput (ht.heap ▸ hc)).countMessage hcounted _
  cases pdu with
  | nothing => exact hpassed.elim
  | successfulOutcome o => exact hpassed.elim
  | unsuccessfulOutcome o => exact hpassed.elim
  | initiatingMessage i =>
    cases i with
    | e2setup ies =>
      obtain ⟨s, hs, hacc⟩ := hpassed
      obtain ⟨w'', out, hrun, hout, -, hsome⟩ := e2setup_announces (m := m) hc hs hacc
      obtain ⟨msg, sent, rfl, htype, -⟩ := hsome res hres
      have heq := hrun.symm.trans h
      cases heq
      exact sendsXml_of_append hout List.mem_cons_self (htype ▸ .inl rfl)
    | ricServiceUpdate ies =>
      obtain ⟨e, he⟩ := hpassed
      have hbody := (gate_of_some he).symm.trans h
      obtain ⟨_, w₁, h₁, hbody⟩ := bind_eq_ok.mp hbody
      obtain ⟨_, w₂, h₂, hbody⟩ := bind_eq_ok.mp hbody
      obtain ⟨_, w₃, h₃, h₄⟩ := bind_eq_ok.mp hbody
      let I := fun w => Touches message.enodbName.str (fun _ => True) noOutput w
      have ht₁ : I w w₁ := (keeps_setStatus (E := Raises none) trivial).of_ok (.refl w) h₁
      have ht₂ : I w₁ w₂ := (hcount (by decide) ht₁).of_ok (.refl w₁) h₂
      have ht₄ : I w₃ w' := (keeps_setStatus (E := Raises none) trivial).of_ok (.refl w₃) h₄
      exact ((sendsXml_forward hres (.inr (.inl rfl)) h₃).after ht₄).before (ht₁.trans ht₂)
    | e2nodeConfigurationUpdate =>
      obtain ⟨e, he⟩ := hpassed
      have hbody := (gate_of_some he).symm.trans h
      obtain ⟨_, w₁, h₁, h₂⟩ := bind_eq_ok.mp hbody
      have ht₁ : Touches message.enodbName.str noStatus noOutput w w₁ :=
        (hcount (by decide) (.refl w)).of_ok (.refl w) h₁
      exact (sendsXml_forward hres (.inr (.inr (.inl rfl))) h₂).before ht₁
    | errorIndication ies =>
      obtain ⟨e, he, he2m⟩ := hpassed
      have hemits : (e.route ies).Emits m .ricE2RicErrorIndication :=
        .inl ⟨he2m, by rw [hres]; rfl, rfl⟩
      have hsent := (errorIndication_emitted_iff hc he (by decide)).mpr hemits
      rw [show errorIndication message m ies w = .ok () w' from h] at hsent
      obtain ⟨o, ho, hrmr⟩ := hsent
      cases o with
      | rmr msg sent => exact ⟨msg, sent, ho, hrmr.2 ▸ .inr (.inr (.inr rfl))⟩
      | rts _ _ => exact hrmr.elim
      | sctp _ _ _ _ _ => exact hrmr.elim
    | reset => exact hpassed.elim
    | ricIndication _ => exact hpassed.elim
    | ricSubscriptionDeleteRequired => exact hpassed.elim
    | other _ => exact hpassed.elim

/-- A read that ends sends a PDU on to the E2 manager exactly when it is passed on and there is a
text of it. -/
theorem sendsXml_iff {c : ConnId} (h : readAction c (some (.msg m)) w = .ok () w') :
    SendsXml w w' ↔ m.PassedOn c w ∧ m.xer.isSome := by
  constructor
  · rintro ⟨msg, sent, hmem, htype⟩
    obtain ⟨hpassed, res, hres, -⟩ := mem_sent (readAction_xml h) _ hmem htype
    exact ⟨hpassed, by rw [hres]; rfl⟩
  · rintro ⟨⟨cu, pdu, hc, hpdu, hpassed⟩, hxer⟩
    obtain ⟨res, hres⟩ := Option.isSome_iff_exists.mp hxer
    rw [readAction_eq hc hpdu] at h
    have hget : (w.received m).heap.get
        (⟨cu.enodbName, c, m.payload.length⟩ : ReportingMessages).peerInfo = some cu := hc
    have hsends := sendsXml_dispatch hres hget hpassed h
    exact hsends

end Exact

/-! ## Reads that stay inside -/

/-- The length of a text for which the encode loop stays in its buffer. -/
def StaysInBuffer (x : Xer.Value) : Prop :=
  (xerEncode pduTag x).length ≠ 2 * receiveSctpBufferSize ∧
    (xerEncode pduTag x).length < 2 ^ 31 - 128

/-- A read leaves none of its buffers: the dump for debugging stays in `printBuffer`, and the encode
loop in its own. -/
structure SctpMsg.StaysInside (m : SctpMsg) (encoder : PduEncoder) (debug : Bool) (c : ConnId)
    (w : World) : Prop where
  dumped : ∀ s ∈ hexDump debug m.payload, 0 ≤ s.1 ∧ s.1 < receiveSctpBufferSize
  encoded : m.PassedOn c w → ∀ pieces, m.pieces encoder = some pieces →
    TerminatesInside (fun _ => true) pieces

theorem SctpMsg.staysInside_iff {m : SctpMsg} {encoder : PduEncoder} {debug : Bool} {c : ConnId}
    {w : World} :
    m.StaysInside encoder debug c w ↔
      (debug = true → 2 * m.payload.length < receiveSctpBufferSize) ∧
        (m.PassedOn c w → ∀ pieces, m.pieces encoder = some pieces →
          pieces.flatten.length ≠ 2 * receiveSctpBufferSize ∧
            pieces.flatten.length < 2 ^ 31 - 128) := by
  rw [← hexDump_inside_iff_of_debug]
  constructor
  · intro h
    exact ⟨h.dumped, fun hp pieces hpieces => (h.encoded hp pieces hpieces).length fun _ => rfl⟩
  · rintro ⟨hdumped, hlength⟩
    refine ⟨hdumped, fun hp pieces hpieces => ?_⟩
    obtain ⟨hne, hlt⟩ := hlength hp pieces hpieces
    exact terminatesInside_of_length (fun _ => rfl) hne hlt

theorem SctpMsg.staysInside_of {m : SctpMsg} {encoder : PduEncoder} {debug : Bool} {c : ConnId}
    {w : World} {value : Per.Value} {n : Nat} {x : Xer.Value} (hencoder : PrintsXml encoder)
    (hdump : debug = true → 2 * m.payload.length < receiveSctpBufferSize)
    (hv : asnDecode m.payload = some (value, n)) (hx : AsnPer.E2APPDU.toXer value = some x)
    (hinside : StaysInBuffer x) : m.StaysInside encoder debug c w := by
  refine SctpMsg.staysInside_iff.mpr ⟨hdump, fun _ pieces hpieces => ?_⟩
  obtain ⟨pieces', hpieces', hflat⟩ := hencoder value x hx
  unfold SctpMsg.pieces at hpieces
  rw [hv, Option.bind_some, hpieces'] at hpieces
  cases hpieces
  rw [hflat]
  exact hinside

/-! ## Octets of a node -/

/-- A read of octets, with two streams either way. -/
def sampleOctets (payload : List UInt8) : SctpMsg := .ofOctets payload 0 2 2 .good

theorem sampleOctets_ofOctets (payload : List UInt8) : (sampleOctets payload).OfOctets wholeText :=
  SctpMsg.ofOctets_ofOctets payload 0 2 2 .good

theorem sampleSetupValue_inside :
    ∃ x, AsnPer.E2APPDU.toXer (sampleSetupValue 1) = some x ∧ StaysInBuffer x := by
  have hshort : (AsnPer.E2APPDU.toXer (sampleSetupValue 1)).any fun x =>
      (xerEncode pduTag x).length < 2 ^ 16 := by decide +kernel
  obtain ⟨x, hx, h⟩ := (Option.any_eq_true _ _).mp hshort
  have hlt : (xerEncode pduTag x).length < 2 ^ 16 := of_decide_eq_true h
  exact ⟨x, hx, by unfold StaysInBuffer receiveSctpBufferSize; omega⟩

/-- The octets of the request. -/
def sampleBuffer : List UInt8 :=
  [0x00, 0x01, 0x00, 0x15, 0x00, 0x00, 0x02, 0x00, 0x31, 0x00, 0x02, 0x00, 0x01, 0x00, 0x03, 0x00,
    0x08, 0x00, 0x13, 0x40, 0x11, 0x00, 0xFF, 0xFF, 0xFC]

theorem asnEncode_sample : asnEncode (sampleSetupValue 1) = some sampleBuffer := by decide +kernel

theorem asnDecode_sample (trailing : List UInt8) :
    asnDecode (sampleBuffer ++ trailing) = some (sampleSetupValue 1, sampleBuffer.length) := by
  obtain ⟨buffer, hbuffer, hdecode⟩ := asnDecode_asnEncode sampleSetupValue_fits
  obtain rfl : buffer = sampleBuffer := Option.some.inj (hbuffer.symm.trans asnEncode_sample)
  exact hdecode trailing

/-- They are read on a new connection. -/
theorem sampleRun_octets :
    ∃ h w w', ListenerRun sampleParams h w ∧ h.map Step.act = [.accept sampleRequest] ∧
      (w.heap.get 0).isSome ∧ (∀ st ∈ h, setupOf st.pre st.act = none) ∧
      readAction 0 (some (.msg (sampleOctets (sampleBuffer ++ [])))) w = .ok () w' := by
  obtain ⟨h, w, r, hacts, hc, hno, _, w', hrun, -⟩ := sampleRun_acts [.accept sampleRequest]
    (fun p => (p.2.heap.get 0).isSome ∧ (∀ st ∈ p.1, setupOf st.pre st.act = none) ∧
      Returned (fun _ _ => True)
        (readAction 0 (some (.msg (sampleOctets (sampleBuffer ++ [])))) p.2))
    (by decide +kernel)
  exact ⟨h, w, w', r, hacts, hc, hno, hrun⟩

theorem sampleOctets_staysInside (c : ConnId) (w : World) :
    (sampleOctets (sampleBuffer ++ [])).StaysInside wholeText true c w := by
  obtain ⟨x, hx, hinside⟩ := sampleSetupValue_inside
  exact SctpMsg.staysInside_of printsXml_wholeText (by decide) (asnDecode_sample []) hx hinside

/-! ## Reading octets -/

section Reading

variable {w : World} {c : ConnId} {cu : ConnectedCU} {m : SctpMsg} {encoder : PduEncoder}
  {pdu : E2APPDU} {ies : List (ProtocolIE E2setupRequestIEs)}

theorem SctpMsg.OfOctets.setup_decoded (hm : m.OfOctets encoder)
    (hpdu : m.pdu = some (.initiatingMessage (.e2setup ies))) :
    ∀ ie ∈ ies, ie.SetupDecoded := hm.decoded hpdu

theorem scanSetup_eq_none_iff (hdec : ∀ ie ∈ ies, ie.SetupDecoded) (enodbName : NameBuf) :
    scanSetup enodbName ies = none ↔ Outgrows [] (namedNodes ies) :=
  scanSetupIEs_eq_none_iff hdec Buf.holds_zeros

/-- The handler of octets on a live connection comes to its end, unless they are a setup request
whose names outgrow the buffer. -/
theorem readAction_returns_iff {params : SctpParams} {h : List (Step World Action)}
    (r : ListenerRun params h w) (hC : ∀ st ∈ h, RejectedUnkeyed st.pre st.act)
    (hc : w.heap.get c = some cu) (hm : m.OfOctets encoder) :
    (∃ w', readAction c (some (.msg m)) w = .ok () w') ↔
      ∀ ies, m.pdu = some (.initiatingMessage (.e2setup ies)) →
        ¬ Outgrows [] (namedNodes ies) := by
  cases hpdu : m.pdu with
  | none => exact ⟨fun _ => nofun, fun _ => ⟨_, readAction_undecodable hc hpdu⟩⟩
  | some pdu =>
    rw [readAction_eq hc hpdu]
    have hget : (w.received m).heap.get
        (⟨cu.enodbName, c, m.payload.length⟩ : ReportingMessages).peerInfo = some cu := hc
    cases hies : pdu.setupIEs with
    | none =>
      have hk := keeps_dispatch _ hget m hies (w.received m) (.refl _)
      refine ⟨fun _ ies heq => ?_, fun _ => ?_⟩
      · cases heq
        cases hies
      · cases hrun : dispatch ⟨cu.enodbName, c, m.payload.length⟩ m pdu (w.received m) with
        | ok u w' => exact ⟨w', rfl⟩
        | error e w' =>
          -- a connection with a name has its counters
          obtain ⟨hn, -, hbuilt⟩ := hk.raised e w' hrun
          exact absurd ((stocked_of_run r hC).named c cu hc hn) hbuilt
    | some ies =>
      obtain rfl : pdu = .initiatingMessage (.e2setup ies) := E2APPDU.eq_of_setupIEs hies
      rw [dispatch_setup hies]
      have hscan := scanSetup_eq_none_iff (hm.setup_decoded hpdu) cu.enodbName
      have hone : (∀ ies', some (E2APPDU.initiatingMessage (.e2setup ies)) =
          some (.initiatingMessage (.e2setup ies')) → ¬ Outgrows [] (namedNodes ies')) ↔
            ¬ Outgrows [] (namedNodes ies) := by
        refine ⟨fun hall => hall ies rfl, fun h ies' heq => ?_⟩
        cases heq
        exact h
      rw [hone, ← hscan]
      cases hs : scanSetup cu.enodbName ies with
      | none =>
        obtain ⟨w', hrun, -⟩ := e2setup_overflow _ hget m hs
        rw [hrun]
        exact ⟨nofun, fun h => absurd rfl h⟩
      | some s =>
        obtain ⟨w', hrun, -⟩ := e2setup_ok _ hget m hs
        rw [hrun]
        exact ⟨fun _ => nofun, fun _ => ⟨w', rfl⟩⟩

/-- In a run whose rejected requests register no key for a connection without counters, octets on a
live connection are handled to the end and inside the buffers, unless they are a setup request whose
names outgrow the buffer, or are printed for debugging and their digits do not fit, or are a PDU
that is passed on and whose text is as long as the buffer of the encode loop or overflows its
size. -/
theorem octets_handled_iff {params : SctpParams} {h : List (Step World Action)}
    (r : ListenerRun params h w) (hC : ∀ st ∈ h, RejectedUnkeyed st.pre st.act)
    (hc : w.heap.get c = some cu) (hm : m.OfOctets encoder) (debug : Bool) :
    (∃ w', readAction c (some (.msg m)) w = .ok () w' ∧ m.StaysInside encoder debug c w) ↔
      (∀ ies, m.pdu = some (.initiatingMessage (.e2setup ies)) →
        ¬ Outgrows [] (namedNodes ies)) ∧
      (debug = true → 2 * m.payload.length < receiveSctpBufferSize) ∧
      (m.PassedOn c w → ∀ pieces, m.pieces encoder = some pieces →
        pieces.flatten.length ≠ 2 * receiveSctpBufferSize ∧
          pieces.flatten.length < 2 ^ 31 - 128) := by
  rw [exists_and_right, readAction_returns_iff r hC hc hm, SctpMsg.staysInside_iff]

/-- The request of a gNB on a new connection, printed for debugging. -/
theorem octets_handled_iff_request :
    ∃ h w w', ListenerRun sampleParams h w ∧
      readAction 0 (some (.msg (sampleOctets (sampleBuffer ++ [])))) w = .ok () w' ∧
      (sampleOctets (sampleBuffer ++ [])).StaysInside wholeText true 0 w := by
  obtain ⟨h, w, -, r, -, hc, hno, -⟩ := sampleRun_octets
  obtain ⟨cu, hc⟩ := Option.isSome_iff_exists.mp hc
  have hm := sampleOctets_ofOctets (sampleBuffer ++ [])
  have hC : ∀ st ∈ h, RejectedUnkeyed st.pre st.act := by
    intro st hst c cu s hs
    rw [hno st hst] at hs
    cases hs
  have hnames : ∀ ies, (sampleOctets (sampleBuffer ++ [])).pdu =
      some (.initiatingMessage (.e2setup ies)) → ¬ Outgrows [] (namedNodes ies) := by
    obtain ⟨ies, hsetup, hfit⟩ : ∃ ies,
        (sampleSetupValue 1).toE2APPDU = some (.initiatingMessage (.e2setup ies)) ∧
          ¬ Outgrows [] (namedNodes ies) := ⟨_, rfl, by decide +kernel⟩
    intro ies' hpdu
    rw [hm.pdu_of_decode (asnDecode_sample []), hsetup] at hpdu
    cases hpdu
    exact hfit
  obtain ⟨w', hrun, hinside⟩ := (octets_handled_iff r hC hc hm true).mpr
    ⟨hnames, SctpMsg.staysInside_iff.mp (sampleOctets_staysInside 0 w)⟩
  exact ⟨h, w, w', r, hrun, hinside⟩

end Reading

end E2Term
