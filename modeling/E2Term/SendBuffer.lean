import E2Term.Identity
import E2Term.TwinHandlers

/-!
# What earlier messages leave in the send buffer

All reports go out in one buffer, and only the handlers of indications and control outcomes set its
subscription id. RMR returns a fresh buffer for a message it took, and the same buffer for one it
refused, so the id of a refused message is in the buffer when the next report is sent.
-/

namespace E2Term

open CString Effect Runs

/-- No subscription id is in the buffer. -/
def Calm (w : World) : Prop := w.sendMessage.subId = -1

/-- An action whose message RMR refuses for good, with the instance id of a request in it. -/
def LeavesId (w : World) : Action → Prop
  | .read c (some (.msg m)) => ∃ pdu cu i, m.pdu = some pdu ∧ w.heap.get c = some cu ∧
      (E2NodeMap.getE2tProcedureOngoingStatus w.connectionHandlingPerE2NodeMap
        cu.enodbName.str).isSome ∧ pdu.instanceId = some i ∧ i ≠ -1 ∧ refused m.answers.rmr
  | _ => False

/-- A message that carries the instance id of its request, or none. -/
def Output.Proper : Output → Prop
  | .rmr msg _ => msg.mtype.Instanced ∨ msg.subId = -1
  | .rts _ _ | .sctp _ _ _ _ _ => True

/-! ## A step -/

section Step

variable {w w' : World} {a : Action}

/-- The state `w'` is calm, and what was sent since `w` carries no foreign id. -/
structure StaysCalm (w w' : World) : Prop where
  calm : Calm w'
  proper : ∃ out, w'.outbox = w.outbox ++ out ∧ ∀ o ∈ out, o.Proper

theorem StaysCalm.refl (h : Calm w) : StaysCalm w w := ⟨h, [], by simp, by simp⟩

theorem StaysCalm.trans {w'' : World} (h : StaysCalm w w') (h' : StaysCalm w' w'') :
    StaysCalm w w'' := by
  obtain ⟨out, hout, hall⟩ := h.proper
  obtain ⟨out', hout', hall'⟩ := h'.proper
  refine ⟨h'.calm, out ++ out', by rw [hout', hout, List.append_assoc], fun o ho => ?_⟩
  rcases List.mem_append.mp ho with ho | ho
  · exact hall o ho
  · exact hall' o ho

theorem proper_of_same {out out' : List Output} (h : List.Forall₂ (SameOutput True) out out') :
    ∀ o ∈ out, o.Proper := by
  induction h with
  | nil => simp
  | @cons o o' out out' hsame _ ih =>
    refine List.forall_mem_cons.mpr ⟨?_, ih⟩
    cases o with
    | rmr msg sent =>
      cases o' with
      | rmr msg' sent' => exact (hsame.2.2 trivial).2
      | rts | sctp => exact hsame.elim
    | rts mtype payload => trivial
    | sctp peer streamId payload mtype n => trivial

/-- A run next to itself. -/
def selfPairing (sends : Prop) (n : Name) (c : ConnId) (w : World) : Pairing :=
  ⟨True, sends, n, c, c, w.outbox, w.outbox⟩

theorem twin_self (sends : Prop) (n : Name) (c : ConnId) (hnc : NeverConnected w) (hcalm : Calm w)
    {w₁ : World} (h₁ : w₁.heap = w.heap) (h₂ : w₁.sendMessage.subId = w.sendMessage.subId)
    (h₃ : w₁.outbox = w.outbox) :
    Twin (selfPairing sends n c w) (calm (selfPairing sends n c w)) w₁ w₁ where
  peer := rfl
  unconnected cu hc := hnc c cu (by rw [← h₁]; exact hc)
  watched := rfl
  entry := rfl
  keyed hids := (hids trivial).elim
  sctp _ := rfl
  buffer := ⟨fun _ => h₂.trans hcalm, fun _ => h₂.trans hcalm⟩
  sent := ⟨[], [], by rw [h₃, List.append_nil]; rfl, by rw [h₃, List.append_nil]; rfl, .nil⟩

/-- What a run next to itself shows of the run. -/
theorem staysCalm_of_agree (sends : Prop) (n : Name) (c : ConnId) {α : Type}
    {r : EStateM.Result Fault World α} {x : α}
    (h : Agree Any (Twin (selfPairing sends n c w) (calm (selfPairing sends n c w))) r r)
    (hr : r = .ok x w') : StaysCalm w w' := by
  obtain ⟨_, _, _, -, ht⟩ := h.of_ok hr
  obtain ⟨out, out', hout, -, hall⟩ := ht.sent
  exact ⟨ht.buffer.1 trivial, out, hout, proper_of_same hall⟩

theorem staysCalm_clearPeer (hnc : NeverConnected w) (hcalm : Calm w) {key : Name}
    (h : clearPeer key w = .ok () w') : StaysCalm w w' := by
  unfold clearPeer at h
  rw [bind_of_ok (rfl : (get : M World) w = .ok w w)] at h
  cases hl : w.sctpMap.lookup key with
  | none =>
    rw [hl] at h
    cases h
    exact .refl hcalm
  | some c =>
    rw [hl] at h
    have ht : Twin (selfPairing False [] c w) _ w w := twin_self False [] c hnc hcalm rfl rfl rfl
    refine staysCalm_of_agree False [] c ?_ h
    refine twinned_deref_bind (fun cu => twinned_closeFd.bind fun _ _ _ => ?_) w w ht
    refine Alike.bind (alike_writeSendMessage ?_ ?_) fun _ _ _ =>
      (twinned_sendRequestToXapp _ _).bind fun _ _ _ => twinned_freePeer
    · exact fun _ _ hb => hb
    · exact fun _ _ hb => hb

theorem Swept.neverConnected {v : List Name} (h : Swept v w w') (hnc : NeverConnected w) :
    NeverConnected w' := by
  intro i cu hi
  by_cases hlisted : Listed v w i
  · rw [(h.freed i hlisted).1] at hi
    cases hi
  · rw [(h.kept i hlisted).1] at hi
    exact hnc i cu hi

theorem staysCalm_clearPeers (v : List Name) : ∀ {w w' : World}, NeverConnected w → Calm w →
    clearPeers v w = .ok () w' → StaysCalm w w' := by
  induction v with
  | nil =>
    intro w w' _ hcalm h
    cases h
    exact .refl hcalm
  | cons key v ih =>
    intro w w' hnc hcalm h
    unfold clearPeers at h
    cases hkey : isInternalKey key with
    | true =>
      rw [hkey] at h
      exact ih hnc hcalm h
    | false =>
      rw [hkey] at h
      obtain ⟨_, w₁, hfirst, hrest⟩ := bind_eq_ok.mp h
      have hstay := staysCalm_clearPeer hnc hcalm hfirst
      exact hstay.trans (ih ((clearPeer_swept hkey hfirst).neverConnected hnc) hstay.calm hrest)

theorem receiveXappMessages_staysCalm (hnc : NeverConnected w) (hcalm : Calm w) {m : RmrMsg}
    {rc : Int}
    (h : receiveXappMessages (some m) w = .ok rc w') : StaysCalm w w' := by
  by_cases hm : m.ForTerminator
  · have hcalm₁ : Calm { w with answers := m.answers } := hcalm
    have hnc₁ : NeverConnected { w with answers := m.answers } := hnc
    have hsame : StaysCalm w { w with answers := m.answers } := ⟨hcalm₁, [], by simp, by simp⟩
    refine hsame.trans ?_
    rw [receiveXappMessages, bind_of_ok (rfl : (modify _ : M Unit) w = .ok () _)] at h
    by_cases hst : m.state = .ok
    · rw [if_neg (not_not.mpr hst)] at h
      rcases hm with hm | hm | hm
      · simp only [hm] at h
        obtain ⟨_, w₁, hclear, h⟩ := bind_eq_ok.mp h
        cases h
        unfold clearAll at hclear
        rw [bind_of_ok (rfl : (get : M World) _ = .ok _ _)] at hclear
        obtain ⟨_, w₂, hloop, hclear⟩ := bind_eq_ok.mp hclear
        cases hclear
        have hloop' := staysCalm_clearPeers _ hnc₁ hcalm₁ hloop
        exact ⟨hloop'.calm, hloop'.proper⟩
      · simp only [hm] at h
        obtain ⟨_, w₁, hrun, h⟩ := bind_eq_ok.mp h
        cases h
        obtain ⟨rest, b, msg, sent, hrun', hmtype, hsub, hb⟩ :=
          keepAlive_eq { w with answers := m.answers }
        rw [hrun'] at hrun
        cases hrun
        refine ⟨hb.elim (fun hb => hb.trans hcalm) id, [_], rfl, ?_⟩
        exact List.forall_mem_singleton.mpr (.inr (hsub.trans hcalm))
      · simp only [hm] at h
        obtain ⟨_, w₁, hrun, h⟩ := bind_eq_ok.mp h
        cases h
        cases hrun
        exact ⟨hcalm, [_], rfl, List.forall_mem_singleton.mpr trivial⟩
    · rw [if_pos hst] at h
      cases h
      exact .refl hcalm₁
  · let c := (w.sctpMap.lookup m.meid).getD 0
    have ht : Twin (selfPairing True m.meid c w) _ { w with answers := m.answers }
        { w with answers := m.answers } := twin_self True m.meid c hnc hcalm rfl rfl rfl
    refine staysCalm_of_agree True m.meid c (agree_delivered trivial hm ht ?_) h
    show w.sctpMap.lookup m.meid = some c ∧ w.sctpMap.lookup m.meid = some c ∨ _
    cases hl : w.sctpMap.lookup m.meid with
    | none => exact .inr ⟨rfl, rfl⟩
    | some c' =>
      have hc : c = c' := by simp [c, hl]
      exact .inl ⟨by rw [hc], by rw [hc]⟩

theorem readAction_staysCalm (hnc : NeverConnected w) (hcalm : Calm w) {c : ConnId}
    {result : Option ReadResult} (hno : ¬ LeavesId w (.read c result))
    (h : readAction c result w = .ok () w') : StaysCalm w w' := by
  cases hc : w.heap.get c with
  | none =>
    rw [readAction_freed hc] at h
    cases h
  | some cu =>
    let n := cu.enodbName.str
    by_cases hquiet : ∀ m, result = some (.msg m) → m.pdu = none
    · have ht : Twin (selfPairing False n c w) _ w w := twin_self False n c hnc hcalm rfl rfl rfl
      exact staysCalm_of_agree False n c (twinned_readAction hquiet w w ht) h
    · simp only [not_forall] at hquiet
      obtain ⟨m, rfl, hpdu⟩ := hquiet
      obtain ⟨pdu, hpdu⟩ := Option.ne_none_iff_exists'.mp hpdu
      have ht : Twin (selfPairing False n c w) _ (w.received m) (w.received m) :=
        twin_self False n c hnc hcalm rfl rfl rfl
      refine staysCalm_of_agree False n c
        (agree_received hpdu ⟨m.answers, rfl⟩ ht hc (.inr rfl) fun hopen _ i hi hne => ?_) h
      have hrefused : ¬ refused m.answers.rmr :=
        fun href => hno ⟨pdu, cu, i, hpdu, hc, hopen, hi, hne, href⟩
      exact ⟨hrefused, hrefused⟩

/-- An action that leaves no id in the buffer. -/
theorem Action.staysCalm (hs : Sane w) (hcalm : Calm w) (hno : ¬ LeavesId w a)
    (h : a.run w = .ok () w') : StaysCalm w w' := by
  cases a with
  | accept request =>
    cases hd : hs.does h with
    | accepted _ => exact ⟨hcalm, [], by simp [World.add], by simp⟩
    | refused _ => exact .refl hcalm
  | read c result => exact readAction_staysCalm hs.neverConnected hcalm hno h
  | pollError c answers =>
    have ht : Twin (selfPairing False [] c w) _ w w :=
      twin_self False [] c hs.neverConnected hcalm rfl rfl rfl
    exact staysCalm_of_agree False [] c (twinned_closeOnError answers w w ht) h
  | rmr rcvMessage =>
    obtain ⟨rc, w₁, hrun, h⟩ := bind_eq_ok.mp h
    cases h
    cases rcvMessage with
    | none =>
      cases hrun
      exact .refl hcalm
    | some m => exact receiveXappMessages_staysCalm hs.neverConnected hcalm hrun

end Step

/-! ## Runs -/

section Runs

variable {params params' : SctpParams} {h h' : List (Step World Action)} {w w' : World}

theorem calm_of_run (r : ListenerRun params h w) (hno : ∀ st ∈ h, ¬ LeavesId st.pre st.act) :
    Calm w :=
  r.invariant_of Calm (fun w a => ¬ LeavesId w a) (show Calm (World.init params) from rfl)
    (fun _ _ _ _ r' hcalm hno hstep =>
      (Action.staysCalm (sane_of_run r') hcalm hno hstep).calm) hno

/-- The message type, the subscription id and the MEID of a message to RMR. -/
def Output.header : Output → Option (MsgType × Int × Name)
  | .rmr msg _ => some (msg.mtype, msg.subId, msg.meid)
  | .rts _ _ | .sctp _ _ _ _ _ => none

/-- The headers of the messages a step hands to RMR. -/
def headers (st : Step World Action) : List (MsgType × Int × Name) :=
  (st.post.outbox.drop st.pre.outbox.length).filterMap Output.header

/-- Two steps that process one PDU, on connections of one node that are in the same state and have
the same entry in the procedure map. -/
def SameWork (st st' : Step World Action) : Prop :=
  ∃ c c' m m' cu, st.act = .read c (some (.msg m)) ∧ st'.act = .read c' (some (.msg m')) ∧
    SamePdu m m' ∧ st.pre.heap.get c = some cu ∧ st'.pre.heap.get c' = some cu ∧
    st.pre.connectionHandlingPerE2NodeMap.lookup cu.enodbName.str =
      st'.pre.connectionHandlingPerE2NodeMap.lookup cu.enodbName.str

theorem SameOutput.header {o o' : Output} (h : SameOutput True o o') : o.header = o'.header := by
  cases o with
  | rmr msg sent =>
    cases o' with
    | rmr msg' sent' =>
      obtain ⟨hmtype, hmeid, hids⟩ := h
      show some (msg.mtype, msg.subId, msg.meid) = some (msg'.mtype, msg'.subId, msg'.meid)
      rw [hmtype, hmeid, (hids trivial).1]
    | rts | sctp => exact h.elim
  | rts mtype payload => exact h.elim
  | sctp peer streamId payload mtype n =>
    cases o' with
    | rmr | rts => exact h.elim
    | sctp => rfl

theorem headers_of_same {out out' : List Output} (h : List.Forall₂ (SameOutput True) out out') :
    out.filterMap Output.header = out'.filterMap Output.header := by
  induction h with
  | nil => rfl
  | cons hso _ ih => rw [List.filterMap_cons, List.filterMap_cons, hso.header, ih]

theorem headers_of_outbox {st : Step World Action} {out : List Output}
    (h : st.post.outbox = st.pre.outbox ++ out) : headers st = out.filterMap Output.header := by
  unfold headers
  rw [h, List.drop_left]

/-- One PDU in two calm states. -/
theorem headers_eq_of_calm {st st' : Step World Action} (hs : Sane st.pre) (hs' : Sane st'.pre)
    (hcalm : Calm st.pre) (hcalm' : Calm st'.pre) (hno : ¬ LeavesId st.pre st.act)
    (hno' : ¬ LeavesId st'.pre st'.act) (hrun : st.act.run st.pre = .ok () st.post)
    (hrun' : st'.act.run st'.pre = .ok () st'.post) (hsame : SameWork st st') :
    headers st = headers st' := by
  obtain ⟨c, c', m, m', cu, hact, hact', hm, hc, hc', hentry⟩ := hsame
  rw [hact] at hrun hno
  rw [hact'] at hrun' hno'
  have hpdus : m'.pdu = m.pdu := by
    obtain ⟨answers, rfl⟩ := hm
    rfl
  cases hpdu : m.pdu with
  | none =>
    have hidle : idleRead (some (.msg m)) := hpdu
    have hidle' : idleRead (some (.msg m')) := hpdus.trans hpdu
    obtain ⟨w, hread, ht⟩ := readAction_idle hc hidle
    obtain ⟨w', hread', ht'⟩ := readAction_idle hc' hidle'
    cases hread.symm.trans hrun
    cases hread'.symm.trans hrun'
    rw [headers_of_outbox (ht.outbox_eq.trans (List.append_nil _).symm),
      headers_of_outbox (ht'.outbox_eq.trans (List.append_nil _).symm)]
  | some pdu =>
    let p : Pairing :=
      ⟨True, False, cu.enodbName.str, c, c', st.pre.outbox, st'.pre.outbox⟩
    have hopen : (st.pre.fds c).isSome = (st'.pre.fds c').isSome := by
      rw [hs.liveOpen c (by rw [hc]; rfl), hs'.liveOpen c' (by rw [hc']; rfl)]
    have ht : Twin p (calm p) (st.pre.received m) (st'.pre.received m') :=
      { peer := hc.trans hc'.symm
        unconnected := fun cu' hcu' => hs.neverConnected c cu' hcu'
        watched := hopen
        entry := hentry
        keyed := fun hids => (hids trivial).elim
        sctp := fun hsends => hsends.elim
        buffer := ⟨fun _ => hcalm, fun _ => hcalm'⟩
        sent := ⟨[], [], by rw [List.append_nil]; rfl, by rw [List.append_nil]; rfl, .nil⟩ }
    have hgates : E2NodeMap.getE2tProcedureOngoingStatus st.pre.connectionHandlingPerE2NodeMap
        cu.enodbName.str = E2NodeMap.getE2tProcedureOngoingStatus
          st'.pre.connectionHandlingPerE2NodeMap cu.enodbName.str := ht.gate (.inr rfl)
    have hagree := agree_received hpdu hm ht hc (.inr rfl) fun hgate _ i hi hne => by
      refine ⟨fun href => hno ⟨pdu, cu, i, hpdu, hc, hgate, hi, hne, href⟩, fun href => ?_⟩
      rw [hgates] at hgate
      exact hno' ⟨pdu, cu, i, hpdus.trans hpdu, hc', hgate, hi, hne, href⟩
    obtain ⟨_, w', hread', -, hend⟩ := hagree.of_ok hrun
    cases hread'.symm.trans hrun'
    obtain ⟨out, out', hout, hout', hall⟩ := hend.sent
    rw [headers_of_outbox hout, headers_of_outbox hout']
    exact headers_of_same hall

/-- Every step of such a run begins calm. -/
theorem calm_of_mem (r : ListenerRun params h w) (hno : ∀ st ∈ h, ¬ LeavesId st.pre st.act)
    {st : Step World Action} (hst : st ∈ h) :
    Sane st.pre ∧ Calm st.pre ∧ st.act.run st.pre = .ok () st.post := by
  obtain ⟨before, after, rfl⟩ := List.append_of_mem hst
  obtain ⟨r', hstep, -⟩ := r.split before st after rfl
  exact ⟨sane_of_run r', calm_of_run r' fun st' hst' => hno st' (List.mem_append_left _ hst'),
    hstep⟩

end Runs

/-- An indication with an instance id, and what RMR answers to its message. -/
def sampleIndication (rmr : List RmrSendResult) : Action :=
  .read 0 (some (.msg ⟨[0], 0, some (.initiatingMessage (.ricIndication
    [⟨idRICrequestID, .ricRequestID ⟨1, 5⟩⟩])), some (text "<E2AP-PDU/>"), 2, 2, ⟨rmr, []⟩⟩))

/-- A node whose indication was sent on. -/
def indicate : List Action :=
  [.accept sampleRequest, sampleRead 0 (sampleSetup 1), sampleIndication []]

theorem not_leavesId_of_taken {w : World} {c : ConnId} {m : SctpMsg}
    (h : refused m.answers.rmr = false) :
    ¬ LeavesId w (.read c (some (.msg m))) := by
  rintro ⟨_, _, _, -, -, -, -, -, href⟩
  rw [h] at href
  cases href

/-- A PDU that is no setup request leaves all connections as they are. -/
theorem heap_of_read {w w' : World} {c : ConnId} {m : SctpMsg} {pdu : E2APPDU} (hs : Sane w)
    (hpdu : m.pdu = some pdu) (hies : pdu.setupIEs = none)
    (h : (Action.read c (some (.msg m))).run w = .ok () w') : w'.heap = w.heap := by
  cases hs.does h with
  | setup hpdu' hies' _ _ _ =>
    cases hpdu.symm.trans hpdu'
    cases hies.symm.trans hies'
  | served _ _ _ ht => exact ht.heap
  | idle _ _ ht => exact ht.heap
  | closed hcl _ _ => exact hcl.elim

/-- Two resets, and an indication between them. -/
def resets (rmr : List RmrSendResult) : List Action :=
  indicate ++ [sampleReset 0, sampleIndication rmr, sampleReset 0]

/-- The resets are the same work. -/
theorem sampleRun_resets (rmr : List RmrSendResult) (out : List (List (MsgType × Int × Name)))
    (hexec : (exec Action.run (World.init sampleParams) (resets rmr)).any (fun p =>
      (p.1.drop 3).map headers = out ∧
        ((p.1.drop 3).map fun st => st.pre.connectionHandlingPerE2NodeMap.lookup (sampleName 1)) =
          List.replicate 3 (some ⟨.ricIndicationProcedureCompleted, 1⟩) ∧
        ((p.1.drop 3).map fun st => st.pre.nameOf 0) =
          List.replicate 3 (some (sampleName 1))) = true) :
    ∃ s₀ s₁ s₂ s₃ s₄ s₅ w, ListenerRun sampleParams [s₀, s₁, s₂, s₃, s₄, s₅] w ∧
      [s₀, s₁, s₂, s₃, s₄, s₅].map Step.act = resets rmr ∧ [s₃, s₄, s₅].map headers = out ∧
      SameWork s₃ s₅ := by
  obtain ⟨h, w, r, hacts, hheaders, hentries, hnames⟩ := sampleRun_acts _ _ hexec
  unfold resets at hacts ⊢
  rcases h with _ | ⟨s₀, _ | ⟨s₁, _ | ⟨s₂, _ | ⟨s₃, _ | ⟨s₄, _ | ⟨s₅, _ | ⟨s₆, _⟩⟩⟩⟩⟩⟩⟩ <;>
    simp only [indicate, List.map_nil, List.map_cons, List.cons_append, List.nil_append,
      List.cons.injEq, reduceCtorEq, and_false] at hacts
  refine ⟨s₀, s₁, s₂, s₃, s₄, s₅, w, r, ?_, hheaders, ?_⟩
  · simp [indicate, hacts]
  obtain ⟨-, -, -, hact₃, hact₄, hact₅, -⟩ := hacts
  simp only [List.drop_succ_cons, List.drop_zero, List.map_cons, List.map_nil, List.cons.injEq,
    and_true, List.replicate_succ, List.replicate_zero] at hentries hnames
  have hmem₃ : s₃ ∈ [s₀, s₁, s₂, s₃, s₄, s₅] := by simp
  have hmem₄ : s₄ ∈ [s₀, s₁, s₂, s₃, s₄, s₅] := by simp
  -- neither the reset nor the indication changes the connection
  have hheap₄ : s₄.pre.heap = s₃.pre.heap := by
    rw [r.pre_eq_post [s₀, s₁, s₂] rfl]
    have hrun := r.step_of_mem hmem₃
    rw [hact₃] at hrun
    exact heap_of_read (does_of_mem r hmem₃).1 rfl rfl hrun
  have hheap₅ : s₅.pre.heap = s₄.pre.heap := by
    rw [r.pre_eq_post [s₀, s₁, s₂, s₃] rfl]
    have hrun := r.step_of_mem hmem₄
    rw [hact₄] at hrun
    exact heap_of_read (does_of_mem r hmem₄).1 rfl rfl hrun
  obtain ⟨cu, hc, hn⟩ := Option.map_eq_some_iff.mp hnames.1
  refine ⟨0, 0, _, _, cu, hact₃, hact₅, ⟨.good, rfl⟩, hc, ?_, ?_⟩
  · rw [hheap₅, hheap₄]
    exact hc
  · rw [hn, hentries.1, hentries.2.2]

end E2Term
