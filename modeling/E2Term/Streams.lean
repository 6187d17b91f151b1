import E2Term.Requests

/-!
# The streams that messages are sent on

A setup request on an association with a single stream in one direction notes the stream that it
came on, and everything for the node is then sent on the stream of that number. An inbound stream
need not have an outbound one of its number: where it has, no message for the node ever misses the
streams of its association.
-/

namespace E2Term

open CString Effect Runs

/-! ## The stream of a message -/

/-- Every type of message has an outbound stream. -/
def ConnectedCU.Fits (cu : ConnectedCU) (outstrms : Nat) : Prop :=
  ∀ mtype, 0 ≤ fetchStreamId cu mtype ∧ fetchStreamId cu mtype < outstrms

/-- Every message that can be counted has an outbound stream. -/
def ConnectedCU.ReadyFits (cu : ConnectedCU) (outstrms : Nat) : Prop :=
  ∀ mtype k, nodeCase mtype = some k → k.Ready cu →
    0 ≤ fetchStreamId cu mtype ∧ fetchStreamId cu mtype < outstrms

section Stream

variable {cu cu' : ConnectedCU} {outstrms : Nat}

theorem fetchStreamId_single (h : cu.isSingleStream = true) (mtype : MsgType) :
    fetchStreamId cu mtype = cu.singleStreamId := if_pos h

/-- Without a single stream a message takes one of the first two. -/
theorem fetchStreamId_multi (h : cu.isSingleStream = false) (mtype : MsgType) :
    fetchStreamId cu mtype = 0 ∨ fetchStreamId cu mtype = 1 := by
  unfold fetchStreamId
  rw [h, if_neg Bool.false_ne_true]
  split <;> simp

theorem ConnectedCU.ReadyFits.single (h : cu.ReadyFits outstrms)
    (hsingle : cu.isSingleStream = true) : cu.singleStreamId < outstrms := by
  obtain ⟨-, hlt⟩ := h .ricE2SetupResp _ rfl (.inl rfl)
  rw [fetchStreamId_single hsingle] at hlt
  exact Int.ofNat_lt.mp hlt

/-- A new connection sends setup outcomes on the first stream, and counts nothing else. -/
theorem readyFits_new (hostName portNumber : List UInt8) (hout : 1 ≤ outstrms) :
    (ConnectedCU.new hostName portNumber).ReadyFits outstrms := by
  intro mtype k hk hready
  have hfirst : fetchStreamId (.new hostName portNumber) mtype = 0 := by
    rcases hready with hguarded | hslots
    · cases mtype <;> cases hk <;> first | rfl | cases hguarded
    · have hslot := hslots .msgCounter
      cases hslot
  rw [hfirst]
  exact ⟨Int.le_refl 0, by omega⟩

/-- A new name leaves the streams. -/
theorem ConnectedCU.ReadyFits.rename (h : cu.ReadyFits outstrms) (name : NameBuf) :
    ConnectedCU.ReadyFits { cu with enodbName := name } outstrms := h

theorem fits_single (h : cu.isSingleStream = true) :
    cu.Fits outstrms ↔ cu.singleStreamId < outstrms := by
  constructor
  · intro hfits
    obtain ⟨-, hlt⟩ := hfits .ricSubReq
    rw [fetchStreamId_single h] at hlt
    exact Int.ofNat_lt.mp hlt
  · intro hlt mtype
    rw [fetchStreamId_single h]
    exact ⟨Int.natCast_nonneg _, Int.ofNat_lt.mpr hlt⟩

theorem fits_multi (h : cu.isSingleStream = false) : cu.Fits outstrms ↔ 2 ≤ outstrms := by
  constructor
  · intro hfits
    obtain ⟨-, hlt⟩ := hfits .ricSubReq
    have hone : fetchStreamId cu .ricSubReq = 1 := if_neg (by rw [h]; exact Bool.false_ne_true)
    omega
  · intro hle mtype
    rcases fetchStreamId_multi h mtype with heq | heq <;> omega

theorem accept_single (cu : ConnectedCU) {m : SctpMsg} (h : m.outstrms = 1 ∨ m.instrms = 1) :
    (cu.accept m).isSingleStream = true ∧ (cu.accept m).singleStreamId = m.streamId := by
  unfold ConnectedCU.accept
  dsimp only
  rw [if_pos h]
  exact ⟨rfl, rfl⟩

theorem accept_multi (cu : ConnectedCU) {m : SctpMsg} (h : ¬ (m.outstrms = 1 ∨ m.instrms = 1)) :
    (cu.accept m).isSingleStream = cu.isSingleStream ∧
      (cu.accept m).singleStreamId = cu.singleStreamId := by
  unfold ConnectedCU.accept
  dsimp only
  rw [if_neg h]
  exact ⟨rfl, rfl⟩

/-- An accepted setup request leaves a stream for every message exactly when the association has
more than one outbound stream, or the request came on the first stream. -/
theorem accept_fits_iff {m : SctpMsg} (hout : 1 ≤ m.outstrms) (hstream : m.streamId < m.instrms)
    (hold : cu.isSingleStream = true → cu.singleStreamId < m.outstrms) :
    (cu.accept m).Fits m.outstrms ↔ (m.outstrms = 1 → m.streamId = 0) := by
  by_cases hone : m.outstrms = 1 ∨ m.instrms = 1
  · obtain ⟨hsingle, hid⟩ := accept_single cu hone
    rw [fits_single hsingle, hid]
    omega
  · obtain ⟨hsingle, hid⟩ := accept_multi cu hone
    refine iff_of_true ?_ fun h => (hone (.inl h)).elim
    cases hflag : cu.isSingleStream with
    | true =>
      rw [fits_single (hsingle.trans hflag), hid]
      exact hold hflag
    | false =>
      rw [fits_multi (hsingle.trans hflag)]
      omega

end Stream

/-! ## The connection after a setup request -/

/-- The connection `cu` after a setup request with the scan `s`. -/
def ConnectedCU.afterSetup (cu : ConnectedCU) (m : SctpMsg) (s : SetupScan) : ConnectedCU :=
  if s.accepted then ConnectedCU.accept { cu with enodbName := s.peer } m
  else { cu with enodbName := s.peer }

theorem e2setup_get {w w' : World} (message : ReportingMessages) {cu : ConnectedCU} {m : SctpMsg}
    {s : SetupScan} {ies : List (ProtocolIE E2setupRequestIEs)}
    (hc : w.heap.get message.peerInfo = some cu) (hs : scanSetup message.enodbName ies = some s)
    (h : e2setup message m ies w = .ok () w') :
    w'.heap.get message.peerInfo = some (cu.afterSetup m s) := by
  have hget := register_get hc s.peer s.keys
  unfold e2setup at h
  rw [bind_of_ok (collectSetupRequestData_eq hc hs)] at h
  dsimp only at h
  unfold ConnectedCU.afterSetup
  by_cases hacc : s.accepted
  · rw [if_neg (Int.not_lt.mpr hacc)] at h
    obtain ⟨w'', hrun, ht⟩ := handleE2SetupReq_ok
      (w := w.register message.peerInfo cu s.peer s.keys)
      { message with enodbName := s.message } hget m s.transactionId
    rw [hrun] at h
    cases h
    rw [if_pos hacc]
    exact (congrArg (·.get message.peerInfo) ht.heap).trans (get_set_self hget _)
  · rw [if_pos (Int.not_le.mp hacc)] at h
    cases h
    rw [if_neg hacc]
    exact hget

/-! ## Over a run -/

/-- What arrives on the association `c` says that it has `instrms` inbound and `outstrms` outbound
streams, and comes on an inbound one. -/
def OnAssociation (c : ConnId) (instrms outstrms : Nat) (a : Action) : Prop :=
  ∀ m, a = .read c (some (.msg m)) →
    m.instrms = instrms ∧ m.outstrms = outstrms ∧ m.streamId < instrms

/-- With one outbound stream, an accepted setup request of the association comes on the first
stream. -/
def FirstStream (c : ConnId) (w : World) (a : Action) : Prop :=
  ∀ m cu s, a = .read c (some (.msg m)) → setupOf w a = some (c, cu, s) → s.accepted →
    m.outstrms = 1 → m.streamId = 0

/-- The connection has a stream for all that can be sent on it, and all that was sent on it had
one. -/
structure OnStreams (c : ConnId) (outstrms : Nat) (w : World) : Prop where
  peer : ∀ cu, w.heap.get c = some cu → cu.ReadyFits outstrms
  sent : ∀ (id : Int) data mtype n, .sctp c id data mtype n ∈ w.outbox → 0 ≤ id ∧ id < outstrms

section Run

variable {params : SctpParams} {h : List (Step World Action)} {w w' : World} {a : Action}
  {c : ConnId} {instrms outstrms : Nat}

/-- What a step sends to a node has a stream, if the connection had one for all that it can send. -/
theorem sctp_of_step (hs : Sane w) (hrun : a.run w = .ok () w') {id : Int} {data : List UInt8}
    {mtype : MsgType} {n : Name} (ho : .sctp c id data mtype n ∈ w'.outbox.drop w.outbox.length) :
    ∃ cu k, nodeCase mtype = some k ∧ w.heap.get c = some cu ∧ k.Ready cu ∧
      id = fetchStreamId cu mtype := by
  have hd := hs.does hrun
  obtain ⟨m, rfl, -, -⟩ := hd.of_sctp_sent ho
  by_cases hclear : m.clears
  · cases hd with
    | delivered hno _ => exact (hno hclear).elim
    | cleared _ hcl =>
      obtain ⟨n', ho⟩ := mem_sent hcl.sent _ ho
      exact ho.elim
  · obtain ⟨rc, w₁, hrun, heq⟩ := bind_eq_ok.mp hrun
    cases heq
    exact sctp_of_receive hs.neverConnected hclear hrun ho

/-- A setup request leaves a stream for all that can be sent. -/
theorem readyFits_afterSetup {cu : ConnectedCU} {m : SctpMsg} {s : SetupScan}
    (hout : 1 ≤ m.outstrms) (hstream : m.streamId < m.instrms)
    (hfirst : s.accepted → m.outstrms = 1 → m.streamId = 0) (h : cu.ReadyFits m.outstrms) :
    (cu.afterSetup m s).ReadyFits m.outstrms := by
  have hrenamed := h.rename s.peer
  unfold ConnectedCU.afterSetup
  split
  · rename_i hacc
    have hfits := (accept_fits_iff hout hstream hrenamed.single).mpr (hfirst hacc)
    exact fun mtype _ _ _ => hfits mtype
  · exact hrenamed

theorem outbox_of_step (hd : Does w a w') : ∃ out, w'.outbox = w.outbox ++ out := by
  cases hd with
  | accepted _ | refused _ | nothing => exact ⟨[], (List.append_nil _).symm⟩
  | setup _ _ _ _ hset => exact hset.sent.imp fun _ h => h.1
  | served _ _ _ ht | idle _ _ ht | delivered _ ht => exact ht.sent.imp fun _ h => h.1
  | closed _ _ hcl | failed _ hcl => exact hcl.sent.imp fun _ h => h.1
  | cleared _ hcl => exact hcl.sent.imp fun _ h => h.1

theorem onStreams_step (hs : Sane w) (hassoc : OnAssociation c instrms outstrms a)
    (hout : 1 ≤ outstrms) (hfirst : FirstStream c w a) (hrun : a.run w = .ok () w')
    (h : OnStreams c outstrms w) : OnStreams c outstrms w' := by
  have hd := hs.does hrun
  refine ⟨fun cu hc => ?_, fun id data mtype n ho => ?_⟩
  · cases hsetup : setupOf w a with
    | none =>
      rcases hd.get_of_no_setup hsetup hc with hold | ⟨-, hostName, portNumber, rfl⟩
      · exact h.peer cu hold
      · exact readyFits_new hostName portNumber hout
    | some p =>
      obtain ⟨m, pdu, ies, rfl, hpdu, hies, hget, hscan⟩ := setupOf_eq_some hsetup
      obtain ⟨c', cu', s⟩ := p
      by_cases hcc : c = c'
      · subst hcc
        obtain ⟨rfl, rfl, hstream⟩ := hassoc m rfl
        change readAction c (some (.msg m)) w = .ok () w' at hrun
        rw [readAction_eq hget hpdu, dispatch_setup hies] at hrun
        have hget' : (w.received m).heap.get c = some cu' := hget
        rw [e2setup_get ⟨cu'.enodbName, c, m.payload.length⟩ hget' hscan hrun] at hc
        cases hc
        exact readyFits_afterSetup hout hstream (hfirst m cu' s rfl hsetup) (h.peer cu' hget)
      · rw [(hd.setUp hsetup).others c hcc] at hc
        exact h.peer cu hc
  · obtain ⟨out, hsent⟩ := outbox_of_step hd
    rw [hsent] at ho
    rcases List.mem_append.mp ho with ho | ho
    · exact h.sent id data mtype n ho
    · rw [← drop_outbox hsent] at ho
      obtain ⟨cu, k, hk, hc, hready, rfl⟩ := sctp_of_step hs hrun ho
      exact h.peer cu hc mtype k hk hready

/-- Whatever the stream numbers of an association are: as long as its setup requests come on the
first stream where it has one outbound stream, all that is sent on it has an outbound stream. -/
theorem streams_valid (r : ListenerRun params h w) (hout : 1 ≤ outstrms)
    (hassoc : ∀ st ∈ h, OnAssociation c instrms outstrms st.act)
    (hfirst : ∀ st ∈ h, FirstStream c st.pre st.act) :
    ∀ (id : Int) data mtype n, .sctp c id data mtype n ∈ w.outbox → 0 ≤ id ∧ id < outstrms := by
  have hinv := r.invariant_of (fun w => Sane w ∧ OnStreams c outstrms w)
    (fun w a => OnAssociation c instrms outstrms a ∧ FirstStream c w a) ?_ ?_
    fun st hst => ⟨hassoc st hst, hfirst st hst⟩
  · exact hinv.2.sent
  · refine ⟨sane_init params, fun cu hc => ?_, fun id data mtype n ho => ?_⟩
    · cases hc
    · cases ho
  · intro _ w a w' _ hI hC hrun
    exact ⟨(hI.1.does hrun).sane hI.1, onStreams_step hI.1 hC.1 hout hC.2 hrun hI.2⟩

end Run

/-- A setup request on a stream of an association, and every call of its handler succeeds. -/
def sampleOnStream (streamId instrms outstrms : Nat) : SctpMsg :=
  ⟨[0], streamId, some (sampleSetup 1), some (text "<E2AP-PDU/>"), instrms, outstrms, .good⟩

/-- The actions of a setup over the association 0. -/
def sampleActions (m : SctpMsg) : List Action :=
  [.accept sampleRequest, .read 0 (some (.msg m)), sampleRmr .ricE2SetupResp (sampleName 1)]

theorem onAssociation_sampleActions (m : SctpMsg) (hstream : m.streamId < m.instrms) :
    ∀ a ∈ sampleActions m, OnAssociation 0 m.instrms m.outstrms a := by
  intro a ha m' hread
  simp only [sampleActions, List.mem_cons, List.not_mem_nil, or_false] at ha
  rcases ha with rfl | rfl | rfl
  · cases hread
  · cases hread
    exact ⟨rfl, rfl, hstream⟩
  · cases hread

/-- The sample has two outbound streams, and the request came on the second inbound one. -/
theorem streams_valid_two :
    ∃ h w, ListenerRun sampleParams h w ∧ w.outbox.length = 2 ∧
      ∀ (id : Int) data mtype n, .sctp 0 id data mtype n ∈ w.outbox → 0 ≤ id ∧ id < (2 : Nat) := by
  obtain ⟨h, w, r, hacts, hout⟩ := sampleRun_acts (sampleActions (sampleOnStream 1 2 2))
    (fun p => p.2.outbox.length = 2) (by decide +kernel)
  have hmem : ∀ st ∈ h, st.act ∈ sampleActions (sampleOnStream 1 2 2) := fun st hst => by
    rw [← hacts]
    exact List.mem_map_of_mem hst
  have hassoc : ∀ st ∈ h, OnAssociation 0 2 2 st.act := fun st hst =>
    onAssociation_sampleActions (sampleOnStream 1 2 2) (by decide) _ (hmem st hst)
  refine ⟨h, w, r, hout, streams_valid r (by decide) hassoc fun st hst m cu s hread _ _ hone => ?_⟩
  rw [(hassoc st hst m hread).2.1] at hone
  cases hone

/-- There are two inbound streams and one outbound stream, and the request comes on the second
inbound stream: the response is sent on a stream that does not exist. -/
theorem inbound_stream_sent_on :
    ¬ ∀ params h w c instrms outstrms, ListenerRun params h w → 1 ≤ instrms → 1 ≤ outstrms →
      (∀ st ∈ h, OnAssociation c instrms outstrms st.act) →
      ∀ (id : Int) data mtype n, .sctp c id data mtype n ∈ w.outbox → 0 ≤ id ∧ id < outstrms := by
  intro hall
  obtain ⟨h, w, r, hacts, hout⟩ := sampleRun_acts (sampleActions (sampleOnStream 1 2 1))
    (fun p => .sctp 0 1 [0] .ricE2SetupResp (sampleName 1) ∈ p.2.outbox) (by decide +kernel)
  have hassoc : ∀ st ∈ h, OnAssociation 0 2 1 st.act := fun st hst => by
    refine onAssociation_sampleActions (sampleOnStream 1 2 1) (by decide) _ ?_
    rw [← hacts]
    exact List.mem_map_of_mem hst
  obtain ⟨-, hlt⟩ := hall _ h w 0 2 1 r (by decide) (by decide) hassoc 1 _ _ _ hout
  exact absurd hlt (by decide)

end E2Term
