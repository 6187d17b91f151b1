import E2Term.Invariants

/-!
# Missing counters

The counters of a connection are built when a setup request on it is accepted. A handler that
counts without a check is reached by a name: the connection's own, or a key of `sctpMap`. So no
counter is missing as long as a connection without counters has no name and no key.
-/

namespace E2Term

open CString Effect Runs

/-! ## The invariant -/

/-- A connection with a name or a key has its counters. -/
structure Stocked (w : World) : Prop where
  named : ∀ c cu, w.heap.get c = some cu → cu.enodbName.str ≠ [] → Built cu
  keyed : ∀ k c cu, w.sctpMap.lookup k = some c → w.heap.get c = some cu → Built cu

/-- A setup request that is rejected on a connection without counters builds no RAN name. -/
def RejectedUnkeyed (w : World) (a : Action) : Prop :=
  ∀ c cu s, setupOf w a = some (c, cu, s) → ¬ s.accepted → ¬ Built cu → ranNamesOf a = []

section Steps

variable {w w' : World} {c : ConnId} {cu : ConnectedCU}

theorem Stocked.of_touches {n : Name} {writes : E2TProcedureStates → Prop} {sends : Output → Prop}
    (h : Stocked w) (ht : Touches n writes sends w w') : Stocked w' := by
  constructor
  case named =>
    rw [ht.heap]
    exact h.named
  case keyed =>
    rw [ht.heap, ht.sctpMap]
    exact h.keyed

theorem Stocked.add (hs : Sane w) (h : Stocked w) (request : ConnectionRequest) :
    Stocked (w.add request) := by
  have hget : ∀ i, (w.add request).heap.get i =
      if i = w.heap.next then some (.new request.hostName request.portNumber)
      else w.heap.get i := fun i => CellHeap.get_alloc _ i _
  constructor
  case named =>
    intro i cu hi hne
    rw [hget] at hi
    split at hi
    · cases hi
      exact (hne Buf.str_zeros).elim
    · exact h.named i cu hi hne
  case keyed =>
    intro k i cu hk hi
    have hlt : i < w.heap.next := hs.allocated k i hk
    rw [hget, if_neg (Nat.ne_of_lt hlt)] at hi
    exact h.keyed k i cu hk hi

theorem Stocked.setUp {a : Action} {s : SetupScan} (h : Stocked w) (hc : w.heap.get c = some cu)
    (hso : setupOf w a = some (c, cu, s)) (ha : RejectedUnkeyed w a) (hset : SetUp c cu s w w') :
    Stocked w' := by
  have hfrom := setupOf_from hso
  obtain ⟨cu', hc', hname, -, hacc, hsame⟩ := hset.peer
  -- the connection has its counters afterwards, unless it has neither name nor key
  have hbuilt : Built cu' ∨ (¬ Built cu ∧ s.keys = [] ∧ cu'.enodbName.str = []) := by
    by_cases hrej : s.accepted
    · exact .inl (hacc hrej)
    · by_cases hb : Built cu
      · refine .inl fun d k p hp => ?_
        rw [hsame hrej]
        exact hb d k p hp
      · have hnone := ha c cu s hso hrej hb
        have hpeer : s.peer.str = [] := by
          rw [hfrom.peer, hnone]
          exact Buf.str_zeros
        exact .inr ⟨hb, hfrom.keys_eq_nil_iff.mpr hnone, by rw [hname, hpeer]⟩
  constructor
  case named =>
    intro i cu'' hi hne
    by_cases hic : i = c
    · rw [hic, hc'] at hi
      cases hi
      exact hbuilt.resolve_right fun hno => hne hno.2.2
    · rw [hset.others i hic] at hi
      exact h.named i cu'' hi hne
  case keyed =>
    intro k i cu'' hk hi
    rw [hset.sctpMap, lookup_registerKeys] at hk
    by_cases hic : i = c
    · rw [hic, hc'] at hi
      cases hi
      refine hbuilt.resolve_right fun ⟨hb, hkeys, _⟩ => ?_
      rw [hkeys, if_neg (by simp), hic] at hk
      exact hb (h.keyed k c cu hk hc)
    · rw [hset.others i hic] at hi
      split at hk
      · cases hk
        exact (hic rfl).elim
      · exact h.keyed k i cu'' hk hi

theorem Stocked.closed (h : Stocked w) (hcl : Closed c cu w w') : Stocked w' := by
  have hheap : ∀ i cu', w'.heap.get i = some cu' → w.heap.get i = some cu' := by
    intro i cu' hi
    rw [hcl.heap] at hi
    split at hi
    · cases hi
    · exact hi
  constructor
  case named => exact fun i cu' hi => h.named i cu' (hheap i cu' hi)
  case keyed =>
    intro k i cu' hk hi
    rw [hcl.sctpMap] at hk
    split at hk
    · cases hk
    · exact h.keyed k i cu' hk (hheap i cu' hi)

theorem Stocked.cleared (h : Stocked w) (hcl : Cleared w w') : Stocked w' := by
  constructor
  case named =>
    intro i cu' hi
    by_cases hlisted : ∃ k, isInternalKey k = false ∧ w.sctpMap.lookup k = some i
    · obtain ⟨k, hint, hl⟩ := hlisted
      rw [(hcl.freed i k hint hl).1] at hi
      cases hi
    · rw [(hcl.kept i fun k hint hl => hlisted ⟨k, hint, hl⟩).1] at hi
      exact h.named i cu' hi
  case keyed =>
    intro k i cu' hk
    rw [hcl.sctpMap] at hk
    cases hk

theorem Does.stocked {a : Action} (hs : Sane w) (hd : Does w a w') (ha : RejectedUnkeyed w a)
    (h : Stocked w) : Stocked w' := by
  cases hd with
  | accepted _ => exact h.add hs _
  | refused _ | nothing => exact h
  | setup hpdu hies hc hscan hset =>
    exact h.setUp hc (setupOf_setup hpdu hies hc hscan) ha hset
  | served _ _ _ ht => exact h.of_touches ht
  | idle _ _ ht => exact h.of_touches ht
  | closed _ _ hcl | failed _ hcl => exact h.closed hcl
  | delivered _ ht => exact h.of_touches ht
  | cleared _ hcl => exact h.cleared hcl

end Steps

/-! ## No missing counter -/

theorem keeps_deref {I : World → Prop} (c : ConnId) : Keeps (· = .useAfterFree) I (deref c) := by
  unfold deref
  refine Keeps.get.bind fun w => ?_
  cases w.heap.get c with
  | none => exact Keeps.throw rfl
  | some cu => exact Keeps.pure cu

/-- The bulk clear counts nothing: all it may raise is an access to a freed connection. -/
theorem keeps_clearPeers (v : List Name) :
    Keeps (· = .useAfterFree) (fun _ => True) (clearPeers v) := by
  induction v with
  | nil => exact Keeps.pure _
  | cons key v ih =>
    have hpeer : Keeps (· = .useAfterFree) (fun _ => True) (clearPeer key) := by
      unfold clearPeer
      refine Keeps.get.bind fun w => ?_
      cases w.sctpMap.lookup key with
      | none => exact Keeps.pure _
      | some c =>
        have hwrite (f : World → World) : Keeps (· = .useAfterFree) (fun _ => True)
            (modify f : M Unit) := Keeps.modify fun _ _ => trivial
        refine (keeps_deref c).bind fun cu => (hwrite _).bind fun _ => (hwrite _).bind fun _ => ?_
        have hsend : Keeps (· = .useAfterFree) (fun _ => True)
            (sendRequestToXapp cu.enodbName.str .ricSctpConnectionFailure) := by
          intro w _
          have hk : Keeps (· = .useAfterFree) (Touches cu.enodbName.str noStatus (fun _ => True) w)
              (sendRequestToXapp cu.enodbName.str .ricSctpConnectionFailure) :=
            keeps_sendRequestToXapp _ fun _ _ _ _ => trivial
          exact ⟨trivial, (hk w (.refl w)).raised⟩
        refine hsend.bind fun _ => ?_
        exact (keeps_deref c).bind fun _ => hwrite _
    unfold clearPeers
    split
    · exact hpeer.bind fun _ => ih
    · exact ih

section Faults

variable {w w' : World} {c : ConnId}

theorem readAction_ne_nullCounter (hs : Sane w) (h : Stocked w) (result : Option ReadResult) :
    readAction c result w ≠ .error .nullCounter w' := by
  intro hrun
  cases hc : w.heap.get c with
  | none =>
    rw [readAction_freed hc] at hrun
    cases hrun
  | some cu =>
    have hfd : (w.fds c).isSome := hs.liveOpen c (by rw [hc]; rfl)
    have hidle (hi : idleRead result) : False := by
      obtain ⟨w₁, hok, _⟩ := readAction_idle hc hi
      rw [hok] at hrun
      cases hrun
    have hclosing (hcl : closingRead result) : False := by
      obtain ⟨w₁, hok, _⟩ := readAction_closing hc hfd hcl
      rw [hok] at hrun
      cases hrun
    rcases result with _ | (m | _ | answers | answers)
    · exact hidle trivial
    · cases hpdu : m.pdu with
      | none => exact hidle hpdu
      | some pdu =>
        obtain ⟨w₁, ht, heq⟩ := readAction_pdu hc hpdu
        rw [heq] at hrun
        cases hies : pdu.setupIEs with
        | none =>
          -- the connection has the name its case was entered with, so it has its counters
          have hk := keeps_dispatch ⟨cu.enodbName, c, m.payload.length⟩ hc m hies w₁
            ht.of_buffers
          obtain ⟨hn, -, hbuilt⟩ := hk.raised _ _ hrun
          exact hbuilt (h.named c cu hc hn)
        | some ies =>
          rw [dispatch_setup hies] at hrun
          have hc₁ : w₁.heap.get c = some cu := by rw [ht.heap, hc]
          cases hscan : scanSetup cu.enodbName ies with
          | none =>
            obtain ⟨w₂, herr, _⟩ := e2setup_overflow
              ⟨cu.enodbName, c, m.payload.length⟩ hc₁ m hscan
            rw [herr] at hrun
            cases hrun
          | some s =>
            obtain ⟨w₂, hok, _⟩ := e2setup_ok
              ⟨cu.enodbName, c, m.payload.length⟩ hc₁ m hscan
            rw [hok] at hrun
            cases hrun
    · exact hidle trivial
    · exact hclosing trivial
    · exact hclosing trivial

theorem closeOnError_ne_nullCounter (answers : Answers) :
    closeOnError c answers w ≠ .error .nullCounter w' := by
  intro hrun
  cases hc : w.heap.get c with
  | none =>
    rw [closeOnError_freed hc] at hrun
    cases hrun
  | some cu =>
    obtain ⟨w₁, hok, _⟩ := closeOnError_ok hc answers
    rw [hok] at hrun
    cases hrun

theorem receiveXappMessages_ne_nullCounter (hs : Sane w) (h : Stocked w)
    (rcvMessage : Option RmrMsg) :
    receiveXappMessages rcvMessage w ≠ .error .nullCounter w' := by
  intro hrun
  cases rcvMessage with
  | none => cases hrun
  | some m =>
    by_cases hm : m.clears
    · rw [receiveXappMessages, bind_of_ok (rfl : (modify _ : M Unit) w = .ok () _),
        if_neg (not_not.mpr hm.1)] at hrun
      simp only [hm.2] at hrun
      have hk : Keeps (· = .useAfterFree) (fun _ => True) (do
          clearAll m
          return 0 : M Int) := by
        refine Keeps.bind ?_ fun _ => Keeps.pure _
        exact Keeps.get.bind fun _ => (keeps_clearPeers _).bind fun _ =>
          Keeps.modify fun _ h => h
      cases (hk _ trivial).raised _ _ hrun
    · -- the connection is the one of a key, so it has its counters
      obtain ⟨c, hkey, hraises⟩ := (receiveXappMessages_ends hs.neverConnected hm).raised _ _ hrun
      cases hc : w.heap.get c with
      | none =>
        rw [hc] at hraises
        cases hraises
      | some cu =>
        rw [hc] at hraises
        exact hraises.2 (h.keyed _ c cu hkey hc)

theorem Stocked.no_nullCounter (hs : Sane w) (h : Stocked w) (a : Action) :
    a.run w ≠ .error .nullCounter w' := by
  cases a with
  | accept request =>
    cases hout : request.outcome <;> simp only [Action.run, acceptLoop, hout] <;> intro hrun <;>
      cases hrun
  | read c result => exact readAction_ne_nullCounter hs h result
  | pollError c answers => exact closeOnError_ne_nullCounter answers
  | rmr rcvMessage =>
    intro hrun
    change (receiveXappMessages rcvMessage >>= fun _ => pure ()) w = _ at hrun
    cases hr : receiveXappMessages rcvMessage w with
    | ok rc w₁ =>
      rw [bind_of_ok hr] at hrun
      cases hrun
    | error e w₁ =>
      rw [bind_of_error hr] at hrun
      cases hrun
      exact receiveXappMessages_ne_nullCounter hs h rcvMessage hr

end Faults

theorem stocked_of_run {params : SctpParams} {h : List (Step World Action)} {w : World}
    (r : ListenerRun params h w) (hC : ∀ st ∈ h, RejectedUnkeyed st.pre st.act) : Stocked w := by
  refine r.invariant_of Stocked RejectedUnkeyed ?_ ?_ hC
  · constructor
    case named => exact fun c cu hc => by cases hc
    case keyed => exact fun k c cu hk => by cases hk
  · intro h w a w' r hI ha hstep
    have hs := sane_of_run r
    exact (hs.does hstep).stocked hs ha hI

/-- In a run whose rejected setup requests register no key for a connection without counters, no
handler follows a missing counter, and a connection that a handler counts for has its own. -/
theorem counters_built {params : SctpParams} {h : List (Step World Action)} {w : World}
    (r : ListenerRun params h w) (hC : ∀ st ∈ h, RejectedUnkeyed st.pre st.act) :
    Stocked w ∧ ∀ (a : Action) w', a.run w ≠ .error .nullCounter w' :=
  ⟨stocked_of_run r hC, fun a _ => (stocked_of_run r hC).no_nullCounter (sane_of_run r) a⟩

/-- A request without an identity is rejected, the next one is accepted. -/
theorem counters_built_after_rejection :
    ∃ h w, ListenerRun sampleParams h w ∧ w.sctpMap.lookup (sampleName 1) = some 0 ∧
      Stocked w ∧ ∀ (a : Action) w', a.run w ≠ .error .nullCounter w' := by
  obtain ⟨h, w, r, hw⟩ := sampleRun_of_any
    [.accept sampleRequest, sampleRead 0 (.initiatingMessage (.e2setup [])),
      sampleRead 0 (sampleSetup 1)]
    (fun p => p.2.sctpMap.lookup (sampleName 1) = some 0 ∧
      ∀ st ∈ p.1, ∀ q ∈ setupOf st.pre st.act, ¬ q.2.2.accepted → ranNamesOf st.act = [])
    (by decide +kernel)
  exact ⟨h, w, r, hw.1, counters_built r fun st hst c cu s hs ha _ => hw.2 st hst _ hs ha⟩

/-- A node whose request was rejected is sent a subscription request: the process dies. -/
theorem rejected_node_has_no_counters :
    ¬ ∀ params h w (a : Action) w', ListenerRun params h w → a.run w ≠ .error .nullCounter w' := by
  intro hall
  obtain ⟨h, w, r, w', hrun⟩ := sampleRun_of_any
    [.accept sampleRequest, sampleRead 0 (sampleRejected 1)]
    (fun p => Raised .nullCounter ((sampleRmr .ricSubReq (sampleName 1)).run p.2))
    (by decide +kernel)
  exact hall _ h w _ w' r hrun

end E2Term
