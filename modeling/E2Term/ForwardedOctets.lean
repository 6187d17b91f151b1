import E2Term.Deliveries
import E2Term.Reception
import E2Term.SetupPayload

/-!
# Between a node and the E2 manager

What becomes of the PDU that a node encodes: the octets are decoded, handled, and sent on to the E2
manager, who reads the PDU in the XML of the message. An answer takes the way back, and the node
decodes it.
-/

namespace E2Term

open CString Effect Per Runs

/-! ## What the E2 manager reads -/

/-- The transaction id of a setup request: the last one, `-1` where there is none. -/
def transactionOf (ies : List (ProtocolIE E2setupRequestIEs)) : Int :=
  ies.foldl (fun tid ie =>
    match ie.value with
    | .transactionID t => t
    | _ => tid) (-1)

theorem Does.params_eq {w w' : World} {a : Action} (hd : Does w a w') : w'.params = w.params := by
  cases hd with
  | accepted => rfl
  | refused => rfl
  | setup _ _ _ _ hset => exact hset.params
  | served _ _ _ ht => exact ht.params
  | idle _ _ ht => exact ht.params
  | closed _ _ hcl => exact hcl.params
  | failed _ hcl => exact hcl.params
  | nothing => rfl
  | delivered _ ht => exact ht.params
  | cleared _ hcl => exact hcl.params

theorem params_of_run {params : SctpParams} {h : List (Step World Action)} {w : World}
    (r : ListenerRun params h w) : w.params = params := by
  refine (r.invariant (fun w => Sane w ∧ w.params = params) ⟨sane_init params, rfl⟩ ?_).2
  intro w a w' hI hstep
  have hd := hI.1.does hstep
  exact ⟨hd.sane hI.1, hd.params_eq.trans hI.2⟩

section Manager

variable {w w' : World} {c : ConnId} {cu : ConnectedCU} {m : SctpMsg} {value : Per.Value} {n : Nat}
  {x : Xer.Value} {ies : List (ProtocolIE E2setupRequestIEs)} {g : GlobalE2nodeID}
  {encoder : PduEncoder} {debug : Bool} {enodbName : NameBuf}

theorem forwarded_of_passedOn {pdu : E2APPDU} (h : value.toE2APPDU = some pdu)
    (hp : pdu.PassedOn w enodbName) : value.forwarded = true := by
  unfold Value.toE2APPDU at h
  split at h
  · obtain ⟨i, hi, rfl⟩ := Option.map_eq_some_iff.mp h
    unfold toInitiatingMessage at hi
    rw [Per.Value.forwarded, List.contains_iff_mem]
    split_ifs at hi with h1 h2 h3 h4
    · rw [h1]
      decide
    · rw [h2]
      decide
    · rw [h3]
      decide
    · rw [h4]
      decide
    all_goals
      first
      | (cases hi; exact hp.elim)
      | (obtain ⟨_, _, rfl⟩ := Option.map_eq_some_iff.mp hi; exact hp.elim)
  · obtain ⟨_, _, rfl⟩ := Option.map_eq_some_iff.mp h
    exact hp.elim
  · obtain ⟨_, _, rfl⟩ := Option.map_eq_some_iff.mp h
    exact hp.elim
  · cases h

/-- A forwarded text without its layout reads as the PDU without the blanks in its strings. -/
theorem readDocument_stripLayout (hv : asnDecode m.payload = some (value, n))
    (hforwarded : value.forwarded = true) (hx : AsnPer.E2APPDU.toXer value = some x) :
    Xer.readDocument pduTag AsnDef.ForwardedPDU (stripLayout (xerEncode pduTag x)) =
      some x.unlaid :=
  decode_stripLayout decodesXer_readDocument (has_forwardedPDU (asnDecode_has hv) hforwarded hx)

/-- Behind the address of a message that carries a PDU is XML that reads as the PDU of the octets,
without the blanks in its strings. -/
theorem CarriesXml.reads {params : SctpParams} {msg : RmrMbuf} {sent : Bool}
    (hcarries : CarriesXml params (m.PassedOn c w) m (.rmr msg sent))
    (htype : forwardTypes msg.mtype) (hencoder : PrintsXml encoder) (hm : m.OfOctets encoder)
    (hv : asnDecode m.payload = some (value, n)) (hx : AsnPer.E2APPDU.toXer value = some x)
    (hfits : params.AddressFits) (hinside : m.StaysInside encoder debug c w) :
    ∃ xml, msg.payload = params.address ++ xml ∧
      Xer.readDocument pduTag AsnDef.ForwardedPDU xml = some x.unlaid := by
  obtain ⟨hpassed, res, hres, hpayload⟩ := hcarries htype
  rw [hm.xer_eq hencoder hv hx (hinside.encoded hpassed)] at hres
  cases hres
  obtain ⟨cu, pdu, -, hpdu, hp⟩ := hpassed
  have hforwarded := forwarded_of_passedOn ((hm.pdu_of_decode hv).symm.trans hpdu) hp
  exact ⟨_, hpayload.trans (setupPayload_of_fits hfits _),
    readDocument_stripLayout hv hforwarded hx⟩

/-- Whatever message a read sends on to the E2 manager with a PDU in it, its XML reads as the PDU
that the octets decode to, but for the blanks in its character strings: where these are printable,
the read stays inside its buffers, and the address has room in the payload. -/
theorem forwarded_octets_read (hencoder : PrintsXml encoder) (hm : m.OfOctets encoder)
    (hv : asnDecode m.payload = some (value, n)) (hx : AsnPer.E2APPDU.toXer value = some x)
    (hfits : w.params.AddressFits) (hinside : m.StaysInside encoder debug c w)
    (hrun : readAction c (some (.msg m)) w = .ok () w') :
    ∀ msg sent, Output.rmr msg sent ∈ w'.outbox.drop w.outbox.length → forwardTypes msg.mtype →
      ∃ xml, msg.payload = w.params.address ++ xml ∧
        Xer.readDocument pduTag AsnDef.ForwardedPDU xml = some x.unlaid := by
  intro msg sent hmem htype
  have hcarries := mem_sent (readAction_xml hrun) _ hmem
  exact hcarries.reads htype hencoder hm hv hx hfits hinside

/-- What the E2 manager gets of the request of a gNB. -/
theorem forwarded_octets_read_request :
    ∃ w w' x, AsnPer.E2APPDU.toXer (sampleSetupValue 1) = some x ∧
      readAction 0 (some (.msg (sampleOctets (sampleBuffer ++ [])))) w = .ok () w' ∧
      ∀ msg sent, Output.rmr msg sent ∈ w'.outbox.drop w.outbox.length → forwardTypes msg.mtype →
        ∃ xml, msg.payload = w.params.address ++ xml ∧
          Xer.readDocument pduTag AsnDef.ForwardedPDU xml = some x.unlaid := by
  obtain ⟨h, w, w', r, -, -, -, hrun⟩ := sampleRun_octets
  obtain ⟨x, hx, -⟩ := sampleSetupValue_inside
  have hfits : w.params.AddressFits := by
    rw [params_of_run r]
    decide
  exact ⟨w, w', x, hx, hrun, forwarded_octets_read printsXml_wholeText (sampleOctets_ofOctets _)
    (asnDecode_sample []) hx hfits (sampleOctets_staysInside 0 w) hrun⟩

theorem scanSetupIEs_transaction (hdec : ∀ ie ∈ ies, ie.SetupDecoded) :
    ∀ {tid : Int} {message peer : NameBuf} {s : SetupScan},
      scanSetupIEs tid message peer ies = some s →
        s.transactionId = ies.foldl (fun tid ie =>
          match ie.value with
          | .transactionID t => t
          | _ => tid) tid := by
  induction ies with
  | nil =>
    intro tid message peer s hs
    cases hs
    rfl
  | cons ie rest ih =>
    intro tid message peer s hs
    obtain ⟨hie, hrest⟩ := List.forall_mem_cons.mp hdec
    obtain ⟨id, value⟩ := ie
    cases value with
    | other => exact ih hrest hs
    | transactionID t =>
      obtain ⟨hid, -⟩ := hie
      unfold scanSetupIEs at hs
      dsimp only at hid hs
      rw [if_pos hid] at hs
      exact ih hrest hs
    | globalE2nodeID g =>
      obtain ⟨hid, p, hp, -⟩ := hie
      unfold scanSetupIEs at hs
      dsimp only at hid hs
      rw [if_pos hid, buildRanName_eq, hp] at hs
      dsimp only at hs
      cases hbuild : p.build peer with
      | none =>
        rw [hbuild] at hs
        cases hs
      | some b =>
        rw [hbuild] at hs
        simp only [Option.map_some, Int.lt_irrefl, if_false] at hs
        obtain ⟨s', hs', rfl⟩ := Option.map_eq_some_iff.mp hs
        have htail := ih hrest hs'
        exact htail

/-- The nodes of a decoded request have names. -/
theorem parts_of_namedNodes (hdec : ∀ ie ∈ ies, ie.SetupDecoded) (hg : g ∈ namedNodes ies) :
    ∃ p, g.parts = some p ∧ p.Bounded := by
  obtain ⟨ie, hie, hread⟩ := List.mem_filterMap.mp hg
  have hdecoded := hdec ie hie
  unfold ProtocolIE.SetupDecoded at hdecoded
  split at hread
  case h_2 => cases hread
  case h_1 g' hvalue =>
    rw [hvalue] at hdecoded
    rw [if_pos hdecoded.1] at hread
    cases hread
    exact hdecoded.2

/-- The scan of a request for one node. -/
theorem scanSetup_single (hdec : ∀ ie ∈ ies, ie.SetupDecoded) (hone : namedNodes ies = [g])
    (enodbName : NameBuf) :
    ∃ s b, scanSetup enodbName ies = some s ∧ b.Holds g.name ∧ g.name.length ≤ 47 ∧
      s.peer = b ∧ s.message = enodbName.copyStr b ∧ s.keys = [(enodbName.copyStr b).str] ∧
      s.transactionId = transactionOf ies := by
  obtain ⟨p, hp, hbounded⟩ :=
    parts_of_namedNodes hdec (hone ▸ List.mem_cons_self : g ∈ namedNodes ies)
  have hname : g.name = p.over [] := by
    unfold GlobalE2nodeID.name GlobalE2nodeID.nameOver
    rw [hp]
  have hlen : g.name.length ≤ 47 := hname ▸ hbounded.length_le
  have hfits : ¬ Outgrows [] (namedNodes ies) := by
    rw [hone]
    rintro (hge | hnone)
    · exact absurd hlen (Nat.not_le.mpr (lt_of_lt_of_le (by decide) hge))
    · exact hnone
  obtain ⟨s, hs⟩ := Option.ne_none_iff_exists'.mp
    (mt (scanSetup_eq_none_iff hdec enodbName).mp hfits)
  obtain ⟨b, hbuild, hholds⟩ :=
    buildRanName_of_fits (g := g) (lt_of_le_of_lt hlen (by decide))
  have hne : g ≠ .nothing := by
    rintro rfl
    cases hp
  rw [if_neg hne] at hbuild
  have hnames : ranNames (Buf.zeros maxEnodbNameSize) ies = [b] := by
    rw [ranNames_eq, hone]
    unfold buildNames
    rw [hbuild]
    rfl
  have hfrom := scanSetupIEs_from ies hs
  rw [hnames] at hfrom
  exact ⟨s, b, hs, hholds, hlen, hfrom.peer, hfrom.message, hfrom.keys,
    scanSetupIEs_transaction hdec hs⟩

end Manager

/-! ## From node to manager -/

/-- A name in a zeroed buffer is copied whole. -/
theorem copyStr_zeros_str {b : NameBuf} {s : List UInt8} (h : b.Holds s) :
    ((Buf.zeros maxEnodbNameSize).copyStr b).str = s := by
  have hlt := b.str_length_lt
  have hzero : (Buf.zeros maxEnodbNameSize).bytes[b.str.length]? = some 0 :=
    List.getElem?_replicate_of_lt hlt
  rw [(Buf.copyStr_str_eq_iff _ b).mpr hzero, h.str_eq]

/-- A node encodes a setup request for itself and sends it on a new connection, with whatever behind
it: the connection gets its name, which finds it again, and the E2 manager reads the request under
that name, but for the blanks in its character strings. -/
theorem setup_reaches_manager {w : World} {c : ConnId} {cu : ConnectedCU} {m : SctpMsg}
    {value : Per.Value} {x : Xer.Value} {ies : List (ProtocolIE E2setupRequestIEs)}
    {g : GlobalE2nodeID} {buffer trailing : List UInt8} {encoder : PduEncoder} {debug : Bool}
    (hfits : AsnPer.E2APPDU.fits value = true) (hbuffer : asnEncode value = some buffer)
    (hpayload : m.payload = buffer ++ trailing) (hencoder : PrintsXml encoder)
    (hm : m.OfOctets encoder)
    (hsetup : value.toE2APPDU = some (.initiatingMessage (.e2setup ies)))
    (hone : namedNodes ies = [g]) (htid : 0 ≤ transactionOf ies)
    (hx : AsnPer.E2APPDU.toXer value = some x) (htext : StaysInBuffer x)
    (hdump : debug = true → 2 * m.payload.length < receiveSctpBufferSize)
    (haddress : w.params.AddressFits) (hc : w.heap.get c = some cu)
    (hnew : cu.enodbName = Buf.zeros maxEnodbNameSize) :
    ∃ w' msg sent xml, readAction c (some (.msg m)) w = .ok () w' ∧
      m.StaysInside encoder debug c w ∧
      w'.nameOf c = some g.name ∧ w'.sctpMap.lookup g.name = some c ∧ g.name.length ≤ 47 ∧
      w'.outbox = w.outbox ++ [.rmr msg sent] ∧ msg.mtype = .ricE2SetupReq ∧ msg.meid = g.name ∧
      msg.payload = w.params.address ++ xml ∧
      Xer.readDocument pduTag AsnDef.ForwardedPDU xml = some x.unlaid := by
  obtain ⟨buffer', hbuffer', hdecode⟩ := asnDecode_asnEncode hfits
  obtain rfl : buffer' = buffer := Option.some.inj (hbuffer'.symm.trans hbuffer)
  have hv : asnDecode m.payload = some (value, buffer'.length) := hpayload ▸ hdecode trailing
  have hpdu : m.pdu = some (.initiatingMessage (.e2setup ies)) :=
    (hm.pdu_of_decode hv).trans hsetup
  obtain ⟨s, b, hs, hholds, hlen, hpeer, hmessage, hkeys, hid⟩ :=
    scanSetup_single (hm.setup_decoded hpdu) hone cu.enodbName
  rw [hnew] at hmessage hkeys
  have hname : s.message.str = g.name := by rw [hmessage, copyStr_zeros_str hholds]
  have hacc : s.accepted := by rwa [SetupScan.accepted, hid]
  have hget : (w.received m).heap.get
      (⟨cu.enodbName, c, m.payload.length⟩ : ReportingMessages).peerInfo = some cu := hc
  obtain ⟨w', hrun, hset, out, hout, hannounced⟩ := e2setup_ok _ hget m hs
  obtain ⟨w'', out', hrun', hout', -, hsome⟩ := e2setup_announces (m := m) hget hs hacc
  obtain rfl : w' = w'' := by
    rw [hrun] at hrun'
    cases hrun'
    rfl
  obtain rfl : out = out' := List.append_cancel_left (hout.symm.trans hout')
  have hinside : m.StaysInside encoder debug c w :=
    SctpMsg.staysInside_of hencoder hdump hv hx htext
  have hpassed : (E2APPDU.initiatingMessage (.e2setup ies)).PassedOn w cu.enodbName :=
    ⟨s, hs, hacc⟩
  obtain ⟨msg, sent, rfl, htype, hmsg⟩ :=
    hsome _ (hm.xer_eq hencoder hv hx (hinside.encoded ⟨cu, _, hc, hpdu, hpassed⟩))
  have hmeid : msg.meid = g.name := hname ▸ (hannounced _ List.mem_cons_self).1
  refine ⟨w', msg, sent, _, ?_, hinside, ?_, ?_, hlen, hout, htype, hmeid,
    hmsg.trans (setupPayload_of_fits haddress _),
    readDocument_stripLayout hv (forwarded_of_passedOn hsetup hpassed) hx⟩
  · have hies : (E2APPDU.initiatingMessage (.e2setup ies)).setupIEs = some ies := rfl
    rw [readAction_eq hc hpdu, dispatch_setup hies]
    exact hrun
  · rw [hset.nameOf, hpeer, hholds.str_eq]
  · rw [hset.sctpMap, lookup_registerKeys, hkeys, copyStr_zeros_str hholds,
      if_pos List.mem_cons_self]

/-! ## Octets that are cut short -/

/-- A PDU that is cut short is not handled: only buffers change. -/
theorem truncated_octets_idle {w : World} {c : ConnId} {cu : ConnectedCU} {m : SctpMsg}
    {value : Per.Value} {buffer : List UInt8} {encoder : PduEncoder} {debug : Bool}
    (hfits : AsnPer.E2APPDU.fits value = true) (hbuffer : asnEncode value = some buffer) {k : Nat}
    (hk : k < buffer.length) (hpayload : m.payload = buffer.take k) (hm : m.OfOctets encoder)
    (hdump : debug = true → 2 * k < receiveSctpBufferSize) (hc : w.heap.get c = some cu) :
    ∃ w', readAction c (some (.msg m)) w = .ok () w' ∧ m.StaysInside encoder debug c w ∧
      Touches [] noStatus noOutput w w' ∧ w'.registry = w.registry := by
  obtain ⟨buffer', hbuffer', hdecode⟩ := asnDecode_asnEncode hfits
  obtain rfl : buffer' = buffer := Option.some.inj (hbuffer'.symm.trans hbuffer)
  have hwhole := hdecode []
  rw [List.append_nil] at hwhole
  have hnone : asnDecode m.payload = none := hpayload ▸ (asnDecode_counted hwhole).2.2 k hk
  have hpdu : m.pdu = none := by
    rw [hm.pdu, hnone]
    rfl
  refine ⟨_, readAction_undecodable hc hpdu, SctpMsg.staysInside_iff.mpr ⟨?_, ?_⟩,
    .of_eq rfl rfl rfl rfl rfl rfl, rfl⟩
  · rwa [hpayload, List.length_take, Nat.min_eq_left hk.le]
  · rintro ⟨cu', pdu, -, hsome, -⟩
    rw [hpdu] at hsome
    cases hsome

/-- The first seven octets of a request. -/
theorem truncated_octets_idle_seven :
    ∃ w w', readAction 0 (some (.msg (sampleOctets (sampleBuffer.take 7)))) w = .ok () w' ∧
      (sampleOctets (sampleBuffer.take 7)).StaysInside wholeText true 0 w ∧
      Touches [] noStatus noOutput w w' ∧ w'.registry = w.registry := by
  have hc : ((World.init sampleParams).add sampleRequest).heap.get 0 =
      some (.new sampleRequest.hostName sampleRequest.portNumber) := rfl
  exact ⟨_, truncated_octets_idle sampleSetupValue_fits asnEncode_sample (by decide) rfl
    (sampleOctets_ofOctets _) (by decide) hc⟩

/-! ## Runs -/

section Forwarding

variable {params : SctpParams} {w w' : World} {a : Action} {h : List (Step World Action)}
  {encoder : PduEncoder}

/-- Only a message that was read is sent on as XML. -/
def ForwardedBy (w : World) (a : Action) (o : Output) : Prop :=
  ∀ msg sent, o = .rmr msg sent → forwardTypes msg.mtype →
    ∃ c m, a = .read c (some (.msg m)) ∧ CarriesXml w.params (m.PassedOn c w) m o

theorem forwardedBy_report {n : Name} {o : Output} (ho : FailureReport n o) :
    ForwardedBy w a o := by
  rintro msg sent rfl htype
  rw [forwardTypes, ho.2] at htype
  simp at htype

/-- What an action sends. -/
theorem Action.forwards (hs : Sane w) (hrun : a.run w = .ok () w') :
    ∃ out, w'.outbox = w.outbox ++ out ∧ ∀ o ∈ out, ForwardedBy w a o := by
  have hread {c : ConnId} {m : SctpMsg} (hact : a = .read c (some (.msg m))) :
      ∃ out, w'.outbox = w.outbox ++ out ∧ ∀ o ∈ out, ForwardedBy w a o := by
    rw [hact] at hrun
    obtain ⟨out, hout, hxml⟩ := readAction_xml hrun
    exact ⟨out, hout, fun o ho msg sent _ _ => ⟨c, m, hact, hxml o ho⟩⟩
  have hsilent (hout : w'.outbox = w.outbox) :
      ∃ out, w'.outbox = w.outbox ++ out ∧ ∀ o ∈ out, ForwardedBy w a o :=
    ⟨[], by rw [hout, List.append_nil], fun _ ho => absurd ho List.not_mem_nil⟩
  cases hs.does hrun with
  | accepted => exact hsilent rfl
  | refused => exact hsilent rfl
  | setup _ _ _ _ _ => exact hread rfl
  | served _ _ _ _ => exact hread rfl
  | idle _ _ ht => exact hsilent ht.outbox_eq
  | closed _ _ hcl =>
    obtain ⟨out, hout, hall⟩ := hcl.sent
    exact ⟨out, hout, fun o ho => forwardedBy_report (hall o ho)⟩
  | failed _ hcl =>
    obtain ⟨out, hout, hall⟩ := hcl.sent
    exact ⟨out, hout, fun o ho => forwardedBy_report (hall o ho)⟩
  | nothing => exact hsilent rfl
  | @delivered m _ hclear ht =>
    obtain ⟨rc, w₁, hreceive, hret⟩ := bind_eq_ok.mp hrun
    cases hret
    by_cases hm : m.ForTerminator
    · obtain ⟨out, hout, hall⟩ := (terminator_touches hm hclear hreceive []).sent
      refine ⟨out, hout, fun o ho msg sent heq htype => ?_⟩
      have hreply := hall o ho
      rw [heq] at hreply
      rw [forwardTypes, show msg.mtype = _ from hreply] at htype
      simp at htype
    · obtain ⟨out, hout, hall⟩ := ht.sent
      refine ⟨out, hout, fun o ho msg sent heq _ => ?_⟩
      have hsends := hall o ho
      rw [heq] at hsends
      exact absurd (.inr hsends) hm
  | cleared _ hcl =>
    obtain ⟨out, hout, hall⟩ := hcl.sent
    refine ⟨out, hout, fun o ho => ?_⟩
    obtain ⟨n, hreport⟩ := hall o ho
    exact forwardedBy_report hreport

theorem forwards_of_run (r : ListenerRun params h w) :
    ∀ o ∈ w.outbox, ∀ msg sent, o = .rmr msg sent → forwardTypes msg.mtype →
      ∃ st ∈ h, ∃ c m, st.act = .read c (some (.msg m)) ∧
        CarriesXml params (m.PassedOn c st.pre) m o := by
  refine r.history (fun h w => ∀ o ∈ w.outbox, ∀ msg sent, o = .rmr msg sent →
    forwardTypes msg.mtype → ∃ st ∈ h, ∃ c m, st.act = .read c (some (.msg m)) ∧
      CarriesXml params (m.PassedOn c st.pre) m o) ?_ ?_
  · exact fun o ho => absurd ho List.not_mem_nil
  · intro h w a w' r hall hstep
    obtain ⟨out, hout, hsent⟩ := Action.forwards (sane_of_run r) hstep
    intro o ho msg sent heq htype
    rw [hout] at ho
    rcases List.mem_append.mp ho with ho | ho
    · obtain ⟨st, hst, hread⟩ := hall o ho msg sent heq htype
      exact ⟨st, List.mem_append_left _ hst, hread⟩
    · obtain ⟨c, m, hact, hxml⟩ := hsent o ho msg sent heq htype
      exact ⟨_, List.mem_append_right _ List.mem_cons_self, c, m, hact, params_of_run r ▸ hxml⟩

/-- In a run that reads octets and stays inside its buffers, every message to the E2 manager with a
PDU in it has one that the octets of some read decode to: its XML reads as that PDU, but for the
blanks in its character strings, where these are printable. -/
theorem forwarded_from_octets (r : ListenerRun params h w) (hencoder : PrintsXml encoder)
    (haddress : params.AddressFits) (debug : Bool)
    (hoctets : ∀ st ∈ h, ∀ c m, st.act = .read c (some (.msg m)) →
      m.OfOctets encoder ∧ m.StaysInside encoder debug c st.pre) :
    ∀ msg sent, Output.rmr msg sent ∈ w.outbox → forwardTypes msg.mtype →
      ∃ st ∈ h, ∃ c m value n xml, st.act = .read c (some (.msg m)) ∧
        asnDecode m.payload = some (value, n) ∧ msg.payload = params.address ++ xml ∧
        ∀ x, AsnPer.E2APPDU.toXer value = some x →
          Xer.readDocument pduTag AsnDef.ForwardedPDU xml = some x.unlaid := by
  intro msg sent hmem htype
  obtain ⟨st, hst, c, m, hact, hcarries⟩ := forwards_of_run r _ hmem msg sent rfl htype
  obtain ⟨hm, hinside⟩ := hoctets st hst c m hact
  obtain ⟨⟨cu, pdu, -, hpdu, -⟩, res, -, hpayload⟩ := hcarries htype
  have hread := hm.pdu
  rw [hpdu] at hread
  obtain ⟨⟨value, n⟩, hv, -⟩ := Option.bind_eq_some_iff.mp hread.symm
  have hfits := hpayload.trans (setupPayload_of_fits haddress _)
  refine ⟨st, hst, c, m, value, n, stripLayout res, hact, hv, hfits, fun x hx => ?_⟩
  obtain ⟨xml, hxml, hdoc⟩ := hcarries.reads htype hencoder hm hv hx haddress hinside
  rwa [List.append_cancel_left (hfits.symm.trans hxml)]

/-- A node sets up and its request goes on. -/
theorem forwarded_from_octets_request :
    ∃ h w, ListenerRun sampleParams h w ∧ h.length = 2 ∧
      ∀ msg sent, Output.rmr msg sent ∈ w.outbox → forwardTypes msg.mtype →
        ∃ st ∈ h, ∃ c m value n xml, st.act = .read c (some (.msg m)) ∧
          asnDecode m.payload = some (value, n) ∧ msg.payload = sampleParams.address ++ xml ∧
          ∀ x, AsnPer.E2APPDU.toXer value = some x →
            Xer.readDocument pduTag AsnDef.ForwardedPDU xml = some x.unlaid := by
  obtain ⟨h, w, w', r, hacts, -, -, hrun⟩ := sampleRun_octets
  have hstep : (Action.read 0 (some (.msg (sampleOctets (sampleBuffer ++ []))))).run w =
      .ok () w' := hrun
  have hlen := congrArg List.length hacts
  refine ⟨_, w', r.next hstep, ?_, forwarded_from_octets (r.next hstep) printsXml_wholeText
    (by decide) true fun st hst c m hact => ?_⟩
  · rw [List.length_append, ← List.length_map Step.act, hlen]
    rfl
  · rcases List.mem_append.mp hst with hst | hst
    · have hmem : st.act ∈ h.map Step.act := List.mem_map_of_mem hst
      rw [hacts, List.mem_singleton, hact] at hmem
      cases hmem
    · rw [List.mem_singleton.mp hst] at hact ⊢
      cases hact
      exact ⟨sampleOctets_ofOctets _, sampleOctets_staysInside 0 w⟩

end Forwarding

/-! ## From the E2 manager to a node -/

/-- What goes to the node are the octets of the PDU that the XML of the message is decoded to. -/
def RmrMsg.OfXml (xerDecode : List UInt8 → Option Per.Value) (m : RmrMsg) : Prop :=
  m.per = (xerDecode m.payload).bind asnEncode

section Down

variable {params : SctpParams} {h : List (Step World Action)} {w : World} {m : RmrMsg}
  {k : NodeCase} {c : ConnId} {cu : ConnectedCU} {xerDecode : List UInt8 → Option Per.Value}
  {value : Per.Value} {buffer : List UInt8}

theorem RmrMsg.OfXml.data_eq (hm : m.OfXml xerDecode) (hxml : k.xml = true)
    (hv : xerDecode m.payload = some value) (hbuffer : asnEncode value = some buffer)
    (hsize : buffer.length ≤ receiveXappBufferSize) : k.data m = some buffer := by
  have hper : m.per = some buffer := by
    rw [hm, hv]
    exact hbuffer
  unfold NodeCase.data perFromXML
  rw [if_pos hxml, hper, Option.filter_some, if_pos (decide_eq_true hsize)]

/-- A message for a node on a live connection with its counters goes out on that connection, or the
kernel refuses it. -/
theorem receive_converted (r : ListenerRun params h w) (hk : nodeCase m.mtype = some k)
    (hst : m.state = .ok) (hl : w.sctpMap.lookup m.meid = some c) (hc : w.heap.get c = some cu)
    (hready : k.Ready cu) (hdata : k.data m = some buffer) :
    ∃ rc w', receiveXappMessages (some m) w = .ok rc w' ∧
      (rc = 0 ∧ w'.outbox = w.outbox ++
          [.sctp c (fetchStreamId cu m.mtype) buffer m.mtype m.meid] ∨
        rc = -6 ∧ w'.outbox = w.outbox) := by
  have hget : ({ w with answers := m.answers } : World).heap.get c = some cu := hc
  have hcon := (sane_of_run r).neverConnected c cu hc
  rw [receive_handled hk hst hl]
  obtain ⟨w', ⟨hrun, _, _, rfl⟩ | ⟨hrun, _, _, rfl⟩⟩ :=
    NodeCase.handle_ok hk hdata hget hcon hready
  · exact ⟨0, _, hrun, .inl ⟨rfl, rfl⟩⟩
  · exact ⟨-6, _, hrun, .inr ⟨rfl, rfl⟩⟩

/-- In every run, a PDU that the E2 manager sends as XML to a node on a live connection with its
counters goes out on that connection, or the kernel refuses it; the node decodes the PDU from what
it gets, whatever comes behind. -/
theorem response_reaches_node (r : ListenerRun params h w) (hk : nodeCase m.mtype = some k)
    (hxml : k.xml = true) (hst : m.state = .ok) (hl : w.sctpMap.lookup m.meid = some c)
    (hc : w.heap.get c = some cu) (hready : k.Ready cu) (hm : m.OfXml xerDecode)
    (hv : xerDecode m.payload = some value) (hfits : AsnPer.E2APPDU.fits value = true)
    (hbuffer : asnEncode value = some buffer) (hsize : buffer.length ≤ receiveXappBufferSize) :
    (∀ trailing, asnDecode (buffer ++ trailing) = some (value, buffer.length)) ∧
      ∃ rc w', receiveXappMessages (some m) w = .ok rc w' ∧
        (rc = 0 ∧ w'.outbox = w.outbox ++
            [.sctp c (fetchStreamId cu m.mtype) buffer m.mtype m.meid] ∨
          rc = -6 ∧ w'.outbox = w.outbox) := by
  obtain ⟨buffer', hbuffer', hdecode⟩ := asnDecode_asnEncode hfits
  obtain rfl : buffer' = buffer := Option.some.inj (hbuffer'.symm.trans hbuffer)
  have hdata : k.data m = some buffer' := hm.data_eq hxml hv hbuffer hsize
  exact ⟨hdecode, receive_converted r hk hst hl hc hready hdata⟩

/-- The answer to the request of a node. -/
def sampleResponseValue : Per.Value :=
  .choice 1 (.object 1 0 4 (.sequence [some (.sequenceOf [.object 49 0 0 (.integer 1)])]))

theorem sampleResponseValue_fits : AsnPer.E2APPDU.fits sampleResponseValue = true ∧
    (asnEncode sampleResponseValue).any (fun b => b.length ≤ receiveXappBufferSize) = true := by
  decide +kernel

def sampleResponseXml : List UInt8 :=
  ((AsnPer.E2APPDU.toXer sampleResponseValue).map (xerEncode pduTag)).getD []

/-- The XML of the answer is decoded to it. -/
def sampleXerDecode (xml : List UInt8) : Option Per.Value :=
  if xml = sampleResponseXml then some sampleResponseValue else none

theorem response_reaches_node_setup :
    ∃ (h : List (Step World Action)) (w : World) (cu : ConnectedCU) (buffer : List UInt8)
      (m : RmrMsg), ListenerRun sampleParams h w ∧ m.payload = sampleResponseXml ∧
      (∀ trailing, asnDecode (buffer ++ trailing) = some (sampleResponseValue, buffer.length)) ∧
      ∃ rc w', receiveXappMessages (some m) w = .ok rc w' ∧
        (rc = 0 ∧ w'.outbox = w.outbox ++
            [.sctp 0 (fetchStreamId cu m.mtype) buffer m.mtype m.meid] ∨
          rc = -6 ∧ w'.outbox = w.outbox) := by
  obtain ⟨h, w, r, hl, hc⟩ := sampleRun_setup
  obtain ⟨cu, hc⟩ := Option.isSome_iff_exists.mp hc
  obtain ⟨buffer, hbuffer, hsize⟩ := (Option.any_eq_true _ _).mp sampleResponseValue_fits.2
  have hv : sampleXerDecode sampleResponseXml = some sampleResponseValue := if_pos rfl
  have hm : RmrMsg.OfXml sampleXerDecode
      ⟨.ok, .ricE2SetupResp, sampleName 1, sampleResponseXml, some buffer, [], .good⟩ := by
    unfold RmrMsg.OfXml
    dsimp only
    rw [hv, Option.bind_some, hbuffer]
  exact ⟨h, w, cu, buffer, _, r, rfl, response_reaches_node r rfl rfl rfl hl hc (.inl rfl) hm hv
    sampleResponseValue_fits.1 hbuffer (of_decide_eq_true hsize)⟩

end Down

/-! ## The setup of a node -/

section Handshake

variable {params : SctpParams} {h : List (Step World Action)} {w : World} {c : ConnId}
  {cu : ConnectedCU} {m : SctpMsg} {answer : RmrMsg} {value response : Per.Value} {x : Xer.Value}
  {ies : List (ProtocolIE E2setupRequestIEs)} {g : GlobalE2nodeID} {encoder : PduEncoder}
  {buffer trailing octets : List UInt8} {xerDecode : List UInt8 → Option Per.Value}

theorem nodeCase_setup {mtype : MsgType}
    (h : mtype = .ricE2SetupResp ∨ mtype = .ricE2SetupFailure) :
    ∃ k, nodeCase mtype = some k ∧ k.xml = true ∧ k.guarded = true := by
  rcases h with rfl | rfl
  · exact ⟨_, rfl, rfl, rfl⟩
  · exact ⟨_, rfl, rfl, rfl⟩

/-- In every run, a node encodes a setup request for itself and sends it on a new connection: the E2
manager reads the request under the name of the node, but for the blanks in its character strings,
and what it answers under that name goes out on the same connection, unless the kernel refuses it,
in octets that the node decodes to the answer. -/
theorem setup_handshake (r : ListenerRun params h w) (hencoder : PrintsXml encoder)
    (haddress : params.AddressFits) (debug : Bool) (hfits : AsnPer.E2APPDU.fits value = true)
    (hbuffer : asnEncode value = some buffer) (hpayload : m.payload = buffer ++ trailing)
    (hm : m.OfOctets encoder)
    (hsetup : value.toE2APPDU = some (.initiatingMessage (.e2setup ies)))
    (hone : namedNodes ies = [g]) (htid : 0 ≤ transactionOf ies)
    (hx : AsnPer.E2APPDU.toXer value = some x) (htext : StaysInBuffer x)
    (hdump : debug = true → 2 * m.payload.length < receiveSctpBufferSize)
    (hc : w.heap.get c = some cu) (hnew : cu.enodbName = Buf.zeros maxEnodbNameSize)
    (hanswer : answer.mtype = .ricE2SetupResp ∨ answer.mtype = .ricE2SetupFailure)
    (hst : answer.state = .ok) (hmeid : answer.meid = g.name) (hxml : answer.OfXml xerDecode)
    (hresponse : xerDecode answer.payload = some response)
    (hfits' : AsnPer.E2APPDU.fits response = true) (hoctets : asnEncode response = some octets)
    (hsize : octets.length ≤ receiveXappBufferSize) :
    ∃ w₁ msg sent xml, readAction c (some (.msg m)) w = .ok () w₁ ∧
      m.StaysInside encoder debug c w ∧ w₁.nameOf c = some g.name ∧
      w₁.outbox = w.outbox ++ [.rmr msg sent] ∧ msg.mtype = .ricE2SetupReq ∧ msg.meid = g.name ∧
      msg.payload = params.address ++ xml ∧
      Xer.readDocument pduTag AsnDef.ForwardedPDU xml = some x.unlaid ∧
      ∃ rc w₂ stream, receiveXappMessages (some answer) w₁ = .ok rc w₂ ∧
        (rc = 0 ∧ w₂.outbox = w₁.outbox ++ [.sctp c stream octets answer.mtype g.name] ∨
          rc = -6 ∧ w₂.outbox = w₁.outbox) ∧
        ∀ behind, asnDecode (octets ++ behind) = some (response, octets.length) := by
  rw [← params_of_run r] at haddress
  obtain ⟨w₁, msg, sent, xml, hread, hinside, hname, hl, -, hout, htype, hmsg, hforwarded, hdoc⟩ :=
    setup_reaches_manager hfits hbuffer hpayload hencoder hm hsetup hone htid hx htext hdump
      haddress hc hnew
  rw [params_of_run r] at hforwarded
  refine ⟨w₁, msg, sent, xml, hread, hinside, hname, hout, htype, hmsg, hforwarded, hdoc, ?_⟩
  have hstep : (Action.read c (some (.msg m))).run w = .ok () w₁ := hread
  obtain ⟨cu', hc', -⟩ := Option.map_eq_some_iff.mp hname
  obtain ⟨k, hk, hkxml, hguarded⟩ := nodeCase_setup hanswer
  obtain ⟨octets', hoctets', hdecode⟩ := asnDecode_asnEncode hfits'
  obtain rfl : octets' = octets := Option.some.inj (hoctets'.symm.trans hoctets)
  obtain ⟨rc, w₂, hrun, hsent⟩ := receive_converted (r.next hstep) hk hst (hmeid ▸ hl) hc'
    (.inl hguarded) (hxml.data_eq hkxml hresponse hoctets hsize)
  rw [hmeid] at hsent
  exact ⟨rc, w₂, _, hrun, hsent, hdecode⟩

/-- A gNB sets up, with an octet behind its request, and is accepted. -/
theorem setup_handshake_accepted :
    ∃ (w : World) (answer : RmrMsg) (ies : List (ProtocolIE E2setupRequestIEs))
      (g : GlobalE2nodeID) (x : Xer.Value) (octets : List UInt8) (w₁ : World) (msg : RmrMbuf)
      (sent : Bool) (xml : List UInt8),
      (sampleSetupValue 1).toE2APPDU = some (.initiatingMessage (.e2setup ies)) ∧
      namedNodes ies = [g] ∧ AsnPer.E2APPDU.toXer (sampleSetupValue 1) = some x ∧
      answer.payload = sampleResponseXml ∧
      readAction 0 (some (.msg (sampleOctets (sampleBuffer ++ [0xFF])))) w = .ok () w₁ ∧
      (sampleOctets (sampleBuffer ++ [0xFF])).StaysInside wholeText true 0 w ∧
      w₁.nameOf 0 = some g.name ∧ w₁.outbox = w.outbox ++ [.rmr msg sent] ∧
      msg.mtype = .ricE2SetupReq ∧ msg.meid = g.name ∧
      msg.payload = sampleParams.address ++ xml ∧
      Xer.readDocument pduTag AsnDef.ForwardedPDU xml = some x.unlaid ∧
      ∃ rc w₂ stream, receiveXappMessages (some answer) w₁ = .ok rc w₂ ∧
        (rc = 0 ∧ w₂.outbox = w₁.outbox ++ [.sctp 0 stream octets answer.mtype g.name] ∨
          rc = -6 ∧ w₂.outbox = w₁.outbox) ∧
        ∀ behind, asnDecode (octets ++ behind) = some (sampleResponseValue, octets.length) := by
  have r : ListenerRun sampleParams _ ((World.init sampleParams).add sampleRequest) :=
    Run.start.next (rfl : (Action.accept sampleRequest).run (World.init sampleParams) = .ok () _)
  have hc : ((World.init sampleParams).add sampleRequest).heap.get 0 =
      some (.new sampleRequest.hostName sampleRequest.portNumber) := rfl
  obtain ⟨x, hx, htext⟩ := sampleSetupValue_inside
  obtain ⟨ies, g, hsetup, hone, htid⟩ : ∃ ies g,
      (sampleSetupValue 1).toE2APPDU = some (.initiatingMessage (.e2setup ies)) ∧
        namedNodes ies = [g] ∧ 0 ≤ transactionOf ies := ⟨_, _, rfl, rfl, by decide⟩
  obtain ⟨octets, hoctets, hsize⟩ := (Option.any_eq_true _ _).mp sampleResponseValue_fits.2
  have hv : sampleXerDecode sampleResponseXml = some sampleResponseValue := if_pos rfl
  have hxml : RmrMsg.OfXml sampleXerDecode
      ⟨.ok, .ricE2SetupResp, g.name, sampleResponseXml, some octets, [], .good⟩ := by
    unfold RmrMsg.OfXml
    dsimp only
    rw [hv, Option.bind_some, hoctets]
  obtain ⟨w₁, msg, sent, xml, hall⟩ := setup_handshake r printsXml_wholeText (by decide) true
    sampleSetupValue_fits asnEncode_sample rfl (sampleOctets_ofOctets (sampleBuffer ++ [0xFF]))
    hsetup hone htid hx htext (by decide) hc rfl (.inl rfl) rfl rfl hxml hv
    sampleResponseValue_fits.1 hoctets (of_decide_eq_true hsize)
  exact ⟨_, _, ies, g, x, octets, w₁, msg, sent, xml, hsetup, hone, hx, rfl, hall⟩

end Handshake

end E2Term
