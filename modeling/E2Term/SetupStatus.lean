import E2Term.Requests

/-!
# How long a setup stays on record

An accepted setup request records its procedure as the one in progress. The status is one per node,
and no handler looks at it before it records the next: the setup stays on record until it is
answered, its entry is removed, or another procedure of the node is recorded.
-/

namespace E2Term

open CString Effect Runs

/-- A message of type `mtype` to the node `n` on an association. -/
def MessageTo (n : Name) (mtype : MsgType) : Output → Prop
  | .sctp _ _ _ mtype' enodbName => mtype' = mtype ∧ enodbName = n
  | .rmr _ _ | .rts _ _ => False

instance (n : Name) (mtype : MsgType) : DecidablePred (MessageTo n mtype)
  | .sctp _ _ _ _ _ => inferInstanceAs (Decidable (_ ∧ _))
  | .rmr _ _ | .rts _ _ => .isFalse id

/-- The step sent the node `n` a message of type `mtype`. -/
def SentTo (n : Name) (mtype : MsgType) (st : Step World Action) : Prop :=
  ∃ o ∈ st.post.outbox.drop st.pre.outbox.length, MessageTo n mtype o

/-- The step sent the node the answer to its setup request. -/
def Answered (n : Name) (st : Step World Action) : Prop :=
  SentTo n .ricE2SetupResp st ∨ SentTo n .ricE2SetupFailure st

/-- The step removed the entry of the node. -/
def Removed (n : Name) (st : Step World Action) : Prop :=
  (st.pre.statusOf n).isSome ∧ st.post.statusOf n = none

instance (n : Name) (mtype : MsgType) : DecidablePred (SentTo n mtype) :=
  fun st => inferInstanceAs (Decidable (∃ o ∈ st.post.outbox.drop st.pre.outbox.length, _))

instance (n : Name) : DecidablePred (Answered n) := fun _ => inferInstanceAs (Decidable (_ ∨ _))

instance (n : Name) : DecidablePred (Removed n) := fun _ => inferInstanceAs (Decidable (_ ∧ _))

/-- The step recorded another procedure of the node: it read a PDU that records one from a
connection with the node's name, it found a connection for a subscription, deletion or control
request to the node, or it sent a service query. -/
def Superseded (n : Name) (st : Step World Action) : Prop :=
  (∃ c m pdu, st.act = .read c (some (.msg m)) ∧ m.pdu = some pdu ∧ pdu.records ∧
    st.pre.nameOf c = some n ∧ n ≠ []) ∨
  (∃ m, st.act = .rmr (some m) ∧ m.meid = n ∧ (RicProcedure.ofRequest m.mtype).isSome ∧
    m.Reaches st.pre) ∨
  SentTo n .ricServiceQuery st

/-- The step ends the time of a setup on record. -/
def EndsSetup (n : Name) (st : Step World Action) : Prop :=
  Answered n st ∨ Removed n st ∨ Superseded n st

/-- The node whose setup request a step accepts. -/
def setupNode (st : Step World Action) : Option Name :=
  (setupOf st.pre st.act).bind fun p =>
    if p.2.2.accepted then some p.2.2.message.str else none

theorem setupNode_eq_some {st : Step World Action} {n : Name} (h : setupNode st = some n) :
    ∃ c cu s, setupOf st.pre st.act = some (c, cu, s) ∧ s.accepted ∧ s.message.str = n := by
  obtain ⟨⟨c, cu, s⟩, hso, h⟩ := Option.bind_eq_some_iff.mp h
  split at h
  · rename_i hacc
    exact ⟨c, cu, s, hso, hacc, Option.some.inj h⟩
  · cases h

/-! ## Messages that record a status when they are sent -/

/-- The status recorded when a message was sent. -/
def recordedWhenSent : MsgType → Option E2TProcedureStates
  | .ricE2SetupResp | .ricE2SetupFailure => some .e2SetupProcedureCompleted
  | .ricServiceQuery => some .ricServiceUpdateProcedureOngoing
  | _ => none

section Steps

variable {w w' : World} {a : Action} {m : RmrMsg} {n : Name} {s : E2TProcedureStates}

/-- These messages record nothing before they are sent. -/
theorem nodeCase_recording (hm : recordedWhenSent m.mtype = some s) :
    ∃ k, nodeCase m.mtype = some k ∧ k.before = none ∧ k.after = some s := by
  unfold recordedWhenSent at hm
  split at hm
  · rename_i hmtype
    cases hm
    exact ⟨_, by rw [hmtype]; rfl, rfl, rfl⟩
  · rename_i hmtype
    cases hm
    exact ⟨_, by rw [hmtype]; rfl, rfl, rfl⟩
  · rename_i hmtype
    cases hm
    exact ⟨_, by rw [hmtype]; rfl, rfl, rfl⟩
  · cases hm

/-- A message that records a status when it is sent went out and left that status, or it left all as
it was. -/
theorem recording_eq_ok (hs : Sane w) (hm : recordedWhenSent m.mtype = some s)
    (h : (Action.rmr (some m)).run w = .ok () w') :
    (∃ c o, SctpTo m c o ∧ w'.outbox = w.outbox ++ [o] ∧
      w'.statusOf m.meid = (w.statusOf m.meid).map fun _ => s) ∨
    (w'.outbox = w.outbox ∧ w'.statusOf m.meid = w.statusOf m.meid) := by
  obtain ⟨rc, w₁, hrun, h⟩ := bind_eq_ok.mp h
  cases h
  obtain ⟨k, hk, hbefore, hafter⟩ := nodeCase_recording hm
  have hbegun : (k.begun m w).statusOf m.meid = w.statusOf m.meid := by
    rw [k.begun_statusOf, hbefore]
    exact Option.map_id'
  cases received_of_ok hs.neverConnected hk hrun with
  | refused _ hun => exact .inr ⟨hun.outbox, hun.statusOf _⟩
  | unconverted _ hun | unsent _ _ _ _ _ hun =>
    exact .inr ⟨hun.outbox, (hun.statusOf _).trans hbegun⟩
  | @sent c cu data _ _ _ _ _ _ hun =>
    refine .inl ⟨c, .sctp c (fetchStreamId cu m.mtype) data m.mtype m.meid, ⟨rfl, rfl, rfl⟩,
      hun.outbox, ?_⟩
    rw [hun.statusOf, k.sent_statusOf m w hafter]

/-! ## One step -/

theorem sentTo_of_outbox {c : ConnId} {o : Output} (ho : SctpTo m c o)
    (hout : w'.outbox = w.outbox ++ [o]) : SentTo m.meid m.mtype ⟨w, a, w'⟩ := by
  cases o with
  | rmr msg sent => exact ho.elim
  | rts mtype payload => exact ho.elim
  | sctp peer streamId payload mtype enodbName =>
    obtain ⟨-, rfl, rfl⟩ := ho
    refine ⟨.sctp peer streamId payload m.mtype m.meid, ?_, rfl, rfl⟩
    show _ ∈ w'.outbox.drop w.outbox.length
    rw [drop_outbox hout]
    exact List.mem_singleton_self _

/-- A message that was sent left the status it records, and that is not the one of a setup in
progress. -/
theorem not_setup_of_sentTo (hs : Sane w) (hrun : a.run w = .ok () w') {mtype : MsgType}
    (hm : recordedWhenSent mtype = some s) (hst : w.statusOf n = some .e2SetupProcedureOngoing)
    (h : SentTo n mtype ⟨w, a, w'⟩) : w'.statusOf n = some s := by
  obtain ⟨o, hmem, ho⟩ := h
  cases o with
  | rmr msg sent => exact ho.elim
  | rts mtype payload => exact ho.elim
  | sctp c streamId payload mtype enodbName =>
    obtain ⟨rfl, rfl⟩ := ho
    obtain ⟨m, rfl, rfl, rfl⟩ := (hs.does hrun).of_sctp_sent hmem
    rcases recording_eq_ok hs hm hrun with ⟨_, _, _, _, hstatus⟩ | ⟨hout, -⟩
    · rw [hstatus, hst]
      rfl
    · exact (nothing_sent (P := fun _ => False) hout _ hmem).elim

/-- Every other message records none. -/
theorem downlinkWrites_eq_noStatus {mtype : MsgType} (hreq : RicProcedure.ofRequest mtype = none)
    (hrec : recordedWhenSent mtype = none) : downlinkWrites mtype = noStatus := by
  cases mtype <;> first | rfl | (cases hreq; done) | cases hrec

theorem uplinkWrites_ne_setup {pdu : E2APPDU} (h : uplinkWrites pdu s) :
    s ≠ .e2SetupProcedureOngoing := by
  rintro rfl
  unfold uplinkWrites at h
  split at h <;> simp [noStatus] at h

/-- Reading a PDU that is no setup request leaves the status of a node, unless the PDU records one
and comes from a connection with the node's name. -/
theorem served_statusOf {c : ConnId} {msg : SctpMsg} {pdu : E2APPDU} {cu : ConnectedCU}
    (hrun : (Action.read c (some (.msg msg))).run w = .ok () w') (hpdu : msg.pdu = some pdu)
    (hies : pdu.setupIEs = none) (hc : w.heap.get c = some cu)
    (hno : ¬ (pdu.records ∧ cu.enodbName.str = n ∧ n ≠ [])) : w'.statusOf n = w.statusOf n := by
  obtain ⟨w₁, ht, heq⟩ := readAction_pdu hc hpdu
  change readAction c (some (.msg msg)) w = .ok () w' at hrun
  rw [heq] at hrun
  have hc₁ : w₁.heap.get c = some cu := by rw [ht.heap, hc]
  rw [← ht.statusOf_eq n]
  by_cases hn : cu.enodbName.str = n
  · subst hn
    by_cases hnil : cu.enodbName.str = []
    · rw [dispatch_unnamed ⟨cu.enodbName, c, msg.payload.length⟩ msg w₁ hnil hies] at hrun
      cases hrun
      rfl
    · exact dispatch_silent hc₁ hies (fun hrec => hno ⟨hrec, rfl, hnil⟩) hrun _
  · have hk := keeps_dispatch ⟨cu.enodbName, c, msg.payload.length⟩ hc₁ msg hies w₁ (.refl w₁)
    rw [hrun] at hk
    exact hk.state.statusOf_ne (Ne.symm hn)

/-- Such a PDU changes the status of a setup in progress. -/
theorem served_setup_iff {c : ConnId} {msg : SctpMsg} {pdu : E2APPDU} {cu : ConnectedCU}
    (hrun : (Action.read c (some (.msg msg))).run w = .ok () w') (hpdu : msg.pdu = some pdu)
    (hies : pdu.setupIEs = none) (hc : w.heap.get c = some cu)
    (hst : w.statusOf n = some .e2SetupProcedureOngoing) :
    w'.statusOf n = some .e2SetupProcedureOngoing ↔
      ¬ (pdu.records ∧ cu.enodbName.str = n ∧ n ≠ []) := by
  refine ⟨?_, fun hno => (served_statusOf hrun hpdu hies hc hno).trans hst⟩
  rintro hst' ⟨hrec, rfl, hnil⟩
  obtain ⟨w₁, ht, heq⟩ := readAction_pdu hc hpdu
  change readAction c (some (.msg msg)) w = .ok () w' at hrun
  rw [heq] at hrun
  have hc₁ : w₁.heap.get c = some cu := by rw [ht.heap, hc]
  have hsome : (w₁.statusOf cu.enodbName.str).isSome := by
    rw [ht.statusOf_eq, hst]
    rfl
  obtain ⟨s, hs, hstatus⟩ := dispatch_records hnil hc₁ hrec hsome hrun
  exact uplinkWrites_ne_setup hs (Option.some.inj (hstatus.symm.trans hst'))

/-- A message that sends an answer or a service query and was sent ends the time of the setup. -/
theorem endsSetup_of_sent {st : Step World Action} {mtype : MsgType}
    (hm : recordedWhenSent mtype = some s) (h : SentTo n mtype st) : EndsSetup n st := by
  unfold recordedWhenSent at hm
  split at hm
  · exact .inl (.inl h)
  · exact .inl (.inr h)
  · exact .inr (.inr (.inr (.inr h)))
  · cases hm

/-- A step that ends the time of a setup leaves another status, or none. -/
theorem not_on_record_of_ends (hs : Sane w) (hrun : a.run w = .ok () w')
    (hst : w.statusOf n = some .e2SetupProcedureOngoing) (hends : EndsSetup n ⟨w, a, w'⟩) :
    w'.statusOf n ≠ some .e2SetupProcedureOngoing := by
  intro hst'
  rcases hends with (h | h) | ⟨-, h⟩ | ⟨c, m, pdu, rfl, hpdu, hrec, hname, hn⟩ |
    ⟨m, rfl, rfl, hreq, hreach⟩ | h
  · rw [not_setup_of_sentTo hs hrun rfl hst h] at hst'
    cases hst'
  · rw [not_setup_of_sentTo hs hrun rfl hst h] at hst'
    cases hst'
  · rw [hst'] at h
    cases h
  · obtain ⟨cu, hc, hname⟩ := Option.map_eq_some_iff.mp hname
    exact (served_setup_iff hrun hpdu (setupIEs_of_records hrec) hc hst).mp hst' ⟨hrec, hname, hn⟩
  · obtain ⟨p, hp⟩ := Option.isSome_iff_exists.mp hreq
    rcases request_eq_ok hs (RicProcedure.request_of_ofRequest hp) hrun with
      ⟨-, ⟨_, _, _, _, h⟩ | ⟨-, h⟩⟩ | ⟨hno, -, -⟩
    · rw [h, hst] at hst'
      cases p <;> cases hst'
    · rw [h, hst] at hst'
      cases hst'
    · exact hno hreach
  · rw [not_setup_of_sentTo hs hrun rfl hst h] at hst'
    cases hst'

/-- A message for a node leaves the status of the node, unless it ends the time of a setup. -/
theorem delivered_statusOf (hs : Sane w) (hrun : (Action.rmr (some m)).run w = .ok () w')
    (ht : Touches m.meid (downlinkWrites m.mtype) (downlinkSends m) w w')
    (hends : ¬ EndsSetup m.meid ⟨w, .rmr (some m), w'⟩) :
    w'.statusOf m.meid = w.statusOf m.meid := by
  cases hreq : RicProcedure.ofRequest m.mtype with
  | some p =>
    rcases request_eq_ok hs (RicProcedure.request_of_ofRequest hreq) hrun with
      ⟨hreach, -⟩ | ⟨-, -, h⟩
    · have hsome : (RicProcedure.ofRequest m.mtype).isSome := by
        rw [hreq]
        rfl
      exact (hends (.inr (.inr (.inr (.inl ⟨m, rfl, rfl, hsome, hreach⟩))))).elim
    · exact h
  | none =>
    cases hrec : recordedWhenSent m.mtype with
    | some s =>
      rcases recording_eq_ok hs hrec hrun with ⟨c, o, ho, hout, -⟩ | ⟨-, h⟩
      · exact (hends (endsSetup_of_sent hrec (sentTo_of_outbox ho hout))).elim
      · exact h
    | none =>
      rw [downlinkWrites_eq_noStatus hreq hrec] at ht
      exact ht.statusOf_eq _

/-- The status of a node lasts until a step ends the time of a setup, or accepts a setup request of
the node. -/
theorem statusOf_of_not_ends (hs : Sane w) (hrun : a.run w = .ok () w')
    (hst : (w.statusOf n).isSome) (hends : ¬ EndsSetup n ⟨w, a, w'⟩)
    (hnode : setupNode ⟨w, a, w'⟩ ≠ some n) : w'.statusOf n = w.statusOf n := by
  have hgone (h : w'.statusOf n = none) : False := hends (.inr (.inl ⟨hst, h⟩))
  cases hs.does hrun with
  | accepted _ | refused _ | nothing => rfl
  | @setup c m pdu ies cu s _ hpdu hies hc hscan hset =>
    unfold World.statusOf
    rw [hset.procedures]
    split
    · rename_i hacc
      have hso : setupNode ⟨w, .read c (some (.msg m)), w'⟩ = some s.message.str := by
        unfold setupNode
        rw [setupOf_setup hpdu hies hc hscan]
        exact if_pos hacc
      rw [E2NodeMap.lookup_insertE2SetupProcedureOngoing, if_neg]
      rintro rfl
      exact hnode hso
    · rfl
  | @served c m pdu cu _ hpdu hies hc ht =>
    refine served_statusOf hrun hpdu hies hc fun ⟨hrec, hname, hn⟩ => ?_
    refine hends (.inr (.inr (.inl ⟨c, m, pdu, rfl, hpdu, hrec, ?_, hn⟩)))
    rw [nameOf_of_get hc, hname]
  | idle _ _ ht => exact ht.statusOf_eq n
  | closed _ _ hcl | failed _ hcl =>
    unfold World.statusOf at hgone ⊢
    rw [hcl.procedures] at hgone ⊢
    split
    · rename_i hn
      exact (hgone (by rw [if_pos hn]; rfl)).elim
    · rfl
  | cleared _ hcl =>
    unfold World.statusOf
    rw [hcl.procedures]
  | @delivered m _ _ ht =>
    by_cases hn : n = m.meid
    · subst hn
      exact delivered_statusOf hs hrun ht hends
    · exact ht.statusOf_ne hn

/-- A step that does not end the time of a setup leaves it on record. -/
theorem on_record_of_not_ends (hs : Sane w) (hrun : a.run w = .ok () w')
    (hst : w.statusOf n = some .e2SetupProcedureOngoing) (hends : ¬ EndsSetup n ⟨w, a, w'⟩) :
    w'.statusOf n = some .e2SetupProcedureOngoing := by
  by_cases hnode : setupNode ⟨w, a, w'⟩ = some n
  · obtain ⟨c, cu, s, hso, hacc, hname⟩ := setupNode_eq_some hnode
    unfold World.statusOf
    rw [((hs.does hrun).setUp hso).procedures, if_pos hacc, hname,
      E2NodeMap.lookup_insertE2SetupProcedureOngoing, if_pos rfl]
    rfl
  · rw [statusOf_of_not_ends hs hrun (by rw [hst]; rfl) hends hnode, hst]

/-- A setup on record stays there in a step exactly when the step does not end its time. -/
theorem setup_status_iff (hs : Sane w) (hrun : a.run w = .ok () w')
    (hst : w.statusOf n = some .e2SetupProcedureOngoing) :
    w'.statusOf n = some .e2SetupProcedureOngoing ↔ ¬ EndsSetup n ⟨w, a, w'⟩ :=
  ⟨fun h hends => not_on_record_of_ends hs hrun hst hends h, on_record_of_not_ends hs hrun hst⟩

end Steps

/-! ## Runs -/

/-- From the moment a setup request of a node is accepted, its setup stays on record in every state
exactly as long as no step answers it, removes the node's entry or records another procedure. -/
theorem setup_on_record_iff {params : SctpParams} {h : List (Step World Action)} {w : World}
    (r : ListenerRun params h w) {before after : List (Step World Action)} {st : Step World Action}
    (heq : h = before ++ st :: after) {c : ConnId} {cu : ConnectedCU} {s : SetupScan}
    (hso : setupOf st.pre st.act = some (c, cu, s)) (hacc : s.accepted) {n : Name}
    (hn : s.message.str = n) :
    ((∀ st' ∈ after, st'.pre.statusOf n = some .e2SetupProcedureOngoing) ∧
      w.statusOf n = some .e2SetupProcedureOngoing) ↔ ∀ st' ∈ after, ¬ EndsSetup n st' := by
  obtain ⟨r₀, hstep, r₁⟩ := r.split before st after heq
  have hs := sane_of_run r₀
  have hd := hs.does hstep
  have hfirst : st.post.statusOf n = some .e2SetupProcedureOngoing := by
    unfold World.statusOf
    rw [(hd.setUp hso).procedures, if_pos hacc, hn,
      E2NodeMap.lookup_insertE2SetupProcedureOngoing, if_pos rfl]
    rfl
  have hiff := r₁.always_iff (fun w => w.statusOf n = some .e2SetupProcedureOngoing)
    (fun w a => ¬ EndsSetup n ⟨w, a, final (a.run w)⟩) hfirst
    fun h s a s' r' hrun hst => by
      rw [hrun]
      exact setup_status_iff (sane_of_run ((r₀.next hstep).append r')) hrun hst
  rw [hiff]
  refine forall₂_congr fun st' hst' => ?_
  rw [r₁.step_of_mem hst']
  rfl

/-- A setup request is accepted, and a message for its node follows. -/
def setupThen (mtype : MsgType) : List Action :=
  [.accept sampleRequest, sampleRead 0 (sampleSetup 1), sampleRmr mtype (sampleName 1)]

/-- A new node is answered right away. -/
theorem setup_on_record_iff_answered :
    ∃ h w before after st, ListenerRun sampleParams h w ∧ h = before ++ st :: after ∧
      (∃ st' ∈ after, Answered (sampleName 1) st') ∧
      (((∀ st' ∈ after, st'.pre.statusOf (sampleName 1) = some .e2SetupProcedureOngoing) ∧
        w.statusOf (sampleName 1) = some .e2SetupProcedureOngoing) ↔
          ∀ st' ∈ after, ¬ EndsSetup (sampleName 1) st') := by
  obtain ⟨h, w, r, hnodes, hsent⟩ := sampleRun_of_any (setupThen .ricE2SetupResp)
    (fun p => p.1.map setupNode = [none, some (sampleName 1), none] ∧
      (p.1.map fun st => decide (SentTo (sampleName 1) .ricE2SetupResp st)) = [false, false, true])
    (by decide +kernel)
  rcases h with _ | ⟨s₀, _ | ⟨s₁, _ | ⟨s₂, _ | ⟨s₃, _⟩⟩⟩⟩ <;>
    simp only [List.map_nil, List.map_cons, List.cons.injEq, reduceCtorEq, and_false] at hnodes
  simp only [List.map_cons, List.map_nil, List.cons.injEq, decide_eq_true_eq, and_true] at hsent
  obtain ⟨c, cu, s, hso, hacc, hn⟩ := setupNode_eq_some hnodes.2.1
  exact ⟨_, w, [s₀], [s₂], s₁, r, rfl, ⟨s₂, List.mem_singleton_self _, .inl hsent.2.2⟩,
    setup_on_record_iff r (show [s₀, s₁, s₂] = [s₀] ++ s₁ :: [s₂] from rfl) hso hacc hn⟩

/-- A subscription request takes the place of a setup that was not answered yet. -/
theorem unanswered_setup_superseded :
    ¬ ∀ params h w before after st n, ListenerRun params h w → h = before ++ st :: after →
      setupNode st = some n → (∀ st' ∈ after, ¬ Answered n st') →
      (∀ st' ∈ after, ¬ Removed n st') → w.statusOf n = some .e2SetupProcedureOngoing := by
  intro hall
  obtain ⟨h, w, r, hnodes, hsent, hst⟩ := sampleRun_of_any (setupThen .ricSubReq)
    (fun p => p.1.map setupNode = [none, some (sampleName 1), none] ∧
      (p.1.map fun st => decide (Answered (sampleName 1) st ∨ Removed (sampleName 1) st)) =
        [false, false, false] ∧
      p.2.statusOf (sampleName 1) = some .ricSubsProcedureOngoing) (by decide +kernel)
  rcases h with _ | ⟨s₀, _ | ⟨s₁, _ | ⟨s₂, _ | ⟨s₃, _⟩⟩⟩⟩ <;>
    simp only [List.map_nil, List.map_cons, List.cons.injEq, reduceCtorEq, and_false] at hnodes
  simp only [List.map_cons, List.map_nil, List.cons.injEq, decide_eq_false_iff_not, not_or,
    and_true] at hsent
  have hongoing := hall _ _ w [s₀] [s₂] s₁ _ r rfl hnodes.2.1
    (by simpa using hsent.2.2.1) (by simpa using hsent.2.2.2)
  rw [hst] at hongoing
  cases hongoing

end E2Term
