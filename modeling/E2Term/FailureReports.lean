import E2Term.Batch
import E2Term.Identity

/-!
# The failure report of a connection

A node is announced to the E2 manager under the RAN name of its setup request, and its loss is
reported when its connection ends. The report carries the name the connection has then, which is
that of its last setup request, whatever was announced before.
-/

namespace E2Term

open CString Effect Runs

/-! ## The ends of connections -/

/-- The connection that a key of a node stands for. -/
def peerOf (w : World) (key : Name) : Option ConnId :=
  if isInternalKey key then none else w.sctpMap.lookup key

/-- The connections that the bulk clear closes, in order, when it goes through the keys `v`. -/
def clearedPeers (w : World) (v : List Name) : List ConnId := v.filterMap (peerOf w)

/-- The connections an action ends, in order. -/
def endedBy (w : World) : Action → List ConnId
  | .rmr (some m) => if m.clears then clearedPeers w (getKeys m.keys w.sctpMap) else []
  | a => (closes a).toList

/-- What a step sent for the connections it ended. One message is sent when a connection ends, so
the messages stand in the order of the connections. -/
def failureReports (st : Step World Action) : List (ConnId × Output) :=
  (endedBy st.pre st.act).zip (st.post.outbox.drop st.pre.outbox.length)

instance (n : Name) : DecidablePred (FailureReport n)
  | .rmr _ _ => inferInstanceAs (Decidable (_ ∧ _))
  | .rts _ _ | .sctp _ _ _ _ _ => .isFalse id

/-- How often the loss of the node `n` was reported for the connection `c`. -/
def reportCount (c : ConnId) (n : Name) (h : List (Step World Action)) : Nat :=
  (h.flatMap failureReports).countP fun p => p.1 = c ∧ FailureReport n p.2

instance (n : Name) : DecidablePred (Announcement n)
  | .rmr _ _ => inferInstanceAs (Decidable (_ ∧ _))
  | .rts _ _ | .sctp _ _ _ _ _ => .isFalse id

/-- A setup request received on `c` was sent to the E2 manager under the name `n`. -/
def Announced (c : ConnId) (n : Name) (h : List (Step World Action)) : Prop :=
  ∃ st ∈ h, (setupOf st.pre st.act).map Prod.fst = some c ∧
    ∃ o ∈ st.post.outbox.drop st.pre.outbox.length, Announcement n o

instance (c : ConnId) (n : Name) (h : List (Step World Action)) : Decidable (Announced c n h) :=
  inferInstanceAs (Decidable (∃ st ∈ h, _))

/-- The RAN names of the setup requests of a connection, accepted or not. -/
def setupNames (c : ConnId) (h : List (Step World Action)) : List Name :=
  h.filterMap fun st =>
    (setupOf st.pre st.act).bind fun p => if p.1 = c then some (ranNameOf st.act) else none

/-- A bulk clear finds every connection once, and alive. Other actions close one connection. -/
def Clearable (w : World) : Action → Prop
  | .rmr (some m) => m.clears →
      (∀ k c, isInternalKey k = false → w.sctpMap.lookup k = some c → (w.heap.get c).isSome) ∧
      ∀ k k' c, isInternalKey k = false → isInternalKey k' = false →
        w.sctpMap.lookup k = some c → w.sctpMap.lookup k' = some c → k = k'
  | _ => True

/-! ## What is sent when a connection ends -/

/-- The output `o` reports the loss of `i`, under the name it has in `w`. -/
def Reports (w : World) (i : ConnId) (o : Output) : Prop :=
  ∃ n, w.nameOf i = some n ∧ FailureReport n o

section Ends

variable {w w' : World} {a : Action} {c : ConnId} {cu : ConnectedCU} {key : Name} {v : List Name}

theorem reports_of_get {o : Output} (hc : w.heap.get c = some cu)
    (ho : FailureReport cu.enodbName.str o) : Reports w c o :=
  ⟨cu.enodbName.str, nameOf_of_get hc, ho⟩

theorem Reports.iff {o : Output} (h : Reports w c o) (n : Name) :
    FailureReport n o ↔ w.nameOf c = some n := by
  obtain ⟨k, hname, ho⟩ := h
  rw [hname, Option.some.injEq]
  cases o with
  | rmr msg sent =>
    obtain ⟨hmeid, hmtype⟩ := ho
    constructor
    · rintro ⟨hn, -⟩
      exact hmeid.symm.trans hn
    · rintro rfl
      exact ⟨hmeid, hmtype⟩
  | rts | sctp => exact ho.elim

/-- A connection that is closed on its own is reported once. -/
theorem closes_reports (hs : Sane w) (hc : w.heap.get c = some cu) (ha : closes a = some c) :
    ∃ w' o, a.run w = .ok () w' ∧ w'.outbox = w.outbox ++ [o] ∧ Reports w c o := by
  have hlive : (w.heap.get c).isSome := by
    rw [hc]
    rfl
  obtain ⟨w', hrun, hcl, o, ho⟩ := closes_ok (hs.liveOpen c hlive) hc ha
  refine ⟨w', o, hrun, ho, reports_of_get hc ?_⟩
  obtain ⟨out, hout, hall⟩ := hcl.sent
  refine hall o ?_
  rw [List.append_cancel_left (hout.symm.trans ho)]
  exact List.mem_singleton_self o

/-- The loop body of the bulk clear for a key that stands for a live connection. -/
theorem clearPeer_of_get (hl : w.sctpMap.lookup key = some c) (hc : w.heap.get c = some cu) :
    ∃ w' o, clearPeer key w = .ok () w' ∧ w'.sctpMap = w.sctpMap ∧
      (∀ i, w'.heap.get i = if i = c then none else w.heap.get i) ∧
      w'.outbox = w.outbox ++ [o] ∧ Reports w c o := by
  let w₁ : World := { w with fds := fun i => if i = c then none else w.fds i }
  let payload := cu.enodbName.str ++ text "|RIC_SCTP_CLEAR_ALL"
  let w₂ : World := { w₁ with
    sendMessage := { w₁.sendMessage with payload := payload, len := payload.length } }
  have hsend : Keeps (fun _ => False)
      (Touches cu.enodbName.str noStatus (FailureReport cu.enodbName.str) w₂)
      (sendRequestToXapp cu.enodbName.str .ricSctpConnectionFailure) :=
    keeps_sendRequestToXapp _ fun _ _ hmeid hmtype => ⟨hmeid, hmtype⟩
  obtain ⟨rc, w₃, hrun, ht⟩ := hsend.returns (.refl w₂)
  have hc₃ : w₃.heap.get c = some cu := by rw [ht.heap]; exact hc
  obtain ⟨o, ho⟩ := sendRequestToXapp_outbox hrun
  refine ⟨{ w₃ with heap := w₃.heap.free c }, o, ?_, ht.sctpMap, fun i => ?_, ho,
    reports_of_get hc ?_⟩
  · unfold clearPeer
    rw [bind_of_ok (rfl : (get : M World) w = .ok w w), hl]
    dsimp only
    rw [bind_of_ok (deref_of_get hc), bind_of_ok (rfl : closeFd c w = .ok () w₁),
      bind_of_ok (rfl : (writeSendMessage _) w₁ = .ok () w₂), bind_of_ok hrun]
    exact freePeer_ok hc₃
  · show (w₃.heap.free c).get i = _
    rw [CellHeap.get_free, ht.heap]
  · obtain ⟨out, hout, hall⟩ := ht.sent
    refine hall o ?_
    rw [List.append_cancel_left (hout.symm.trans ho)]
    exact List.mem_singleton_self o

theorem clearPeer_of_freed (hl : w.sctpMap.lookup key = some c) (hc : w.heap.get c = none) :
    clearPeer key w = .error .useAfterFree w := by
  unfold clearPeer
  rw [bind_of_ok (rfl : (get : M World) w = .ok w w), hl]
  exact bind_of_error (deref_of_freed hc)

theorem clearPeer_of_none (hl : w.sctpMap.lookup key = none) :
    clearPeer key w = .ok () w := by
  unfold clearPeer
  rw [bind_of_ok (rfl : (get : M World) w = .ok w w), hl]
  rfl

theorem clearPeers_skip (hkey : isInternalKey key = true) :
    clearPeers (key :: v) w = clearPeers v w := by
  rw [clearPeers, hkey]
  rfl

theorem clearPeers_cons (hkey : isInternalKey key = false) :
    clearPeers (key :: v) w = (do clearPeer key; clearPeers v) w := by
  rw [clearPeers, hkey]
  rfl

theorem peerOf_eq_some :
    peerOf w key = some c ↔ isInternalKey key = false ∧ w.sctpMap.lookup key = some c := by
  unfold peerOf
  rw [Option.ite_none_left_eq_some, Bool.not_eq_true]

theorem clearedPeers_skip (hkey : isInternalKey key = true) :
    clearedPeers w (key :: v) = clearedPeers w v :=
  List.filterMap_cons_none (if_pos hkey)

theorem clearedPeers_none (hl : w.sctpMap.lookup key = none) :
    clearedPeers w (key :: v) = clearedPeers w v :=
  List.filterMap_cons_none (by rw [peerOf, hl, ite_self])

theorem clearedPeers_some (hkey : isInternalKey key = false) (hl : w.sctpMap.lookup key = some c) :
    clearedPeers w (key :: v) = c :: clearedPeers w v :=
  List.filterMap_cons_some (peerOf_eq_some.mpr ⟨hkey, hl⟩)

theorem nodup_getKeys (order : List Name) (m : SctpMap) : (getKeys order m).Nodup := by
  unfold getKeys
  split
  · rename_i hperm
    exact (List.isPerm_iff.mp hperm).nodup_iff.mpr m.keys_nodup
  · exact m.keys_nodup

theorem mem_getKeys_of_lookup {order : List Name} {m : SctpMap} (h : m.lookup key = some c) :
    key ∈ getKeys order m := by
  rw [mem_getKeys, ← AList.mem_keys, ← AList.lookup_isSome, h]
  rfl

theorem mem_clearedPeers {order : List Name} (i : ConnId) :
    i ∈ clearedPeers w (getKeys order w.sctpMap) ↔
      ∃ k, isInternalKey k = false ∧ w.sctpMap.lookup k = some i := by
  unfold clearedPeers
  rw [List.mem_filterMap]
  constructor
  · rintro ⟨k, -, hk⟩
    exact ⟨k, peerOf_eq_some.mp hk⟩
  · rintro ⟨k, hkey, hl⟩
    exact ⟨k, mem_getKeys_of_lookup hl, peerOf_eq_some.mpr ⟨hkey, hl⟩⟩

/-- The bulk clear returns when it finds every connection once, and alive; it reports each. -/
theorem clearPeers_ok : ∀ {w : World}, (clearedPeers w v).Nodup →
    (∀ i ∈ clearedPeers w v, (w.heap.get i).isSome) →
    ∃ w' out, clearPeers v w = .ok () w' ∧ w'.outbox = w.outbox ++ out ∧
      List.Forall₂ (Reports w) (clearedPeers w v) out := by
  induction v with
  | nil => exact fun _ _ => ⟨_, [], rfl, (List.append_nil _).symm, .nil⟩
  | cons key v ih =>
    intro w hnodup hlive
    cases hkey : isInternalKey key with
    | true =>
      rw [clearedPeers_skip hkey] at hnodup hlive ⊢
      rw [clearPeers_skip hkey]
      exact ih hnodup hlive
    | false =>
      rw [clearPeers_cons hkey]
      cases hl : w.sctpMap.lookup key with
      | none =>
        rw [clearedPeers_none hl] at hnodup hlive ⊢
        rw [bind_of_ok (clearPeer_of_none hl)]
        exact ih hnodup hlive
      | some c =>
        rw [clearedPeers_some hkey hl] at hnodup hlive ⊢
        obtain ⟨hfresh, hnodup⟩ := List.nodup_cons.mp hnodup
        obtain ⟨cu, hc⟩ := Option.isSome_iff_exists.mp (hlive c (List.mem_cons_self ..))
        obtain ⟨w₁, o, hrun, hmap, hheap, hout, ho⟩ := clearPeer_of_get hl hc
        have hsame : clearedPeers w₁ v = clearedPeers w v := by
          unfold clearedPeers peerOf
          rw [hmap]
        have hnodup₁ : (clearedPeers w₁ v).Nodup := by
          rw [hsame]
          exact hnodup
        have hlive₁ : ∀ i ∈ clearedPeers w₁ v, (w₁.heap.get i).isSome := by
          intro i hi
          rw [hsame] at hi
          have hne : i ≠ c := by
            rintro rfl
            exact hfresh hi
          rw [hheap, if_neg hne]
          exact hlive i (List.mem_cons_of_mem _ hi)
        obtain ⟨w', out, hrun', hout', hall⟩ := ih hnodup₁ hlive₁
        rw [bind_of_ok hrun]
        refine ⟨w', o :: out, hrun', ?_, .cons ho ?_⟩
        · rw [hout', hout, List.append_assoc]
          rfl
        · rw [← hsame]
          refine hall.imp fun i o' ⟨n, hname, ho'⟩ => ⟨n, ?_, ho'⟩
          -- what is still there after a pass had the same name before
          unfold World.nameOf at hname ⊢
          rw [hheap] at hname
          split at hname
          · cases hname
          · exact hname

/-- The bulk clear returns only then. -/
theorem clearPeers_returned : ∀ {w w' : World}, clearPeers v w = .ok () w' →
    (clearedPeers w v).Nodup ∧ ∀ i ∈ clearedPeers w v, (w.heap.get i).isSome := by
  induction v with
  | nil => exact fun _ => ⟨.nil, by simp [clearedPeers]⟩
  | cons key v ih =>
    intro w w' h
    cases hkey : isInternalKey key with
    | true =>
      rw [clearPeers_skip hkey] at h
      rw [clearedPeers_skip hkey]
      exact ih h
    | false =>
      rw [clearPeers_cons hkey] at h
      cases hl : w.sctpMap.lookup key with
      | none =>
        rw [bind_of_ok (clearPeer_of_none hl)] at h
        rw [clearedPeers_none hl]
        exact ih h
      | some c =>
        rw [clearedPeers_some hkey hl]
        cases hc : w.heap.get c with
        | none =>
          rw [bind_of_error (clearPeer_of_freed hl hc)] at h
          cases h
        | some cu =>
          obtain ⟨w₁, o, hrun, hmap, hheap, -, -⟩ := clearPeer_of_get hl hc
          rw [bind_of_ok hrun] at h
          obtain ⟨hnodup, hlive⟩ := ih h
          have hsame : clearedPeers w₁ v = clearedPeers w v := by
            unfold clearedPeers peerOf
            rw [hmap]
          rw [hsame] at hnodup hlive
          have hrest : ∀ i ∈ clearedPeers w v, i ≠ c ∧ (w.heap.get i).isSome := by
            intro i hi
            have hl₁ := hlive i hi
            rw [hheap] at hl₁
            split at hl₁
            · cases hl₁
            · rename_i hne
              exact ⟨hne, hl₁⟩
          refine ⟨List.nodup_cons.mpr ⟨fun hmem => (hrest c hmem).1 rfl, hnodup⟩, ?_⟩
          intro i hi
          rcases List.mem_cons.mp hi with rfl | hi
          · rw [hc]
            rfl
          · exact (hrest i hi).2

/-! ## Whole steps -/

theorem clear_run {m : RmrMsg} (hm : m.clears) (w : World) :
    (Action.rmr (some m)).run w = (do
      clearPeers (getKeys m.keys w.sctpMap)
      modify fun w => { w with sctpMap := ∅ } : M Unit) { w with answers := m.answers } := by
  show (receiveXappMessages (some m) >>= fun _ => pure ()) w = _
  rw [receiveXappMessages, bind_assoc, bind_of_ok (rfl : (modify _ : M Unit) w = .ok () _),
    if_neg (not_not.mpr hm.1)]
  simp only [hm.2, bind_assoc, pure_bind, bind_pure_unit]
  rfl

theorem clearable_iff (m : RmrMsg) (hm : m.clears) (w : World) :
    Clearable w (.rmr (some m)) ↔ (clearedPeers w (getKeys m.keys w.sctpMap)).Nodup ∧
      ∀ i ∈ clearedPeers w (getKeys m.keys w.sctpMap), (w.heap.get i).isSome := by
  have hmem (i : ConnId) : i ∈ clearedPeers w (getKeys m.keys w.sctpMap) ↔
      ∃ k, isInternalKey k = false ∧ w.sctpMap.lookup k = some i := mem_clearedPeers i
  constructor
  · intro hcl
    obtain ⟨hlive, huniq⟩ := hcl hm
    refine ⟨(nodup_getKeys m.keys w.sctpMap).filterMap fun k k' c hk hk' => ?_, fun i hi => ?_⟩
    · obtain ⟨hkey, hl⟩ := peerOf_eq_some.mp hk
      obtain ⟨hkey', hl'⟩ := peerOf_eq_some.mp hk'
      exact huniq k k' c hkey hkey' hl hl'
    · obtain ⟨k, hkey, hl⟩ := (hmem i).mp hi
      exact hlive k i hkey hl
  · rintro ⟨hnodup, hlive⟩ -
    refine ⟨fun k c hkey hl => hlive c ((hmem c).mpr ⟨k, hkey, hl⟩), ?_⟩
    intro k k' c hkey hkey' hl hl'
    by_contra hne
    have hsymm : Std.Symm fun k k' => ∀ i, peerOf w k = some i → ∀ i', peerOf w k' = some i' →
      i ≠ i' := ⟨fun _ _ h i hi i' hi' heq => h i' hi' i hi heq.symm⟩
    have hpair := (List.pairwise_filterMap.mp hnodup).forall
    exact hpair (mem_getKeys_of_lookup hl) (mem_getKeys_of_lookup hl') hne c
      (peerOf_eq_some.mpr ⟨hkey, hl⟩) c (peerOf_eq_some.mpr ⟨hkey', hl'⟩) rfl

theorem closes_of_endedBy (h : c ∈ endedBy w a) : closes a = some c ∧ endedBy w a = [c] ∨
    ∃ m, a = .rmr (some m) ∧ m.clears ∧
      endedBy w a = clearedPeers w (getKeys m.keys w.sctpMap) := by
  have hone (heq : endedBy w a = (closes a).toList) : closes a = some c ∧ endedBy w a = [c] := by
    rw [heq, Option.mem_toList] at h
    exact ⟨h, by rw [heq, h]; rfl⟩
  cases a with
  | rmr m =>
    cases m with
    | none => cases h
    | some m =>
      by_cases hm : m.clears
      · exact .inr ⟨m, rfl, hm, if_pos hm⟩
      · have hnil : endedBy w (.rmr (some m)) = [] := if_neg hm
        rw [hnil] at h
        cases h
  | accept | read | pollError => exact .inl (hone rfl)

/-- The end of a connection returns, with one report for each connection it ends, exactly when it is
no bulk clear that finds a connection twice or freed. -/
theorem ended_iff (hs : Sane w) (hlive : (w.heap.get c).isSome) (hc : c ∈ endedBy w a) :
    (∃ w', a.run w = .ok () w') ↔ Clearable w a := by
  rcases closes_of_endedBy hc with ⟨hcl, -⟩ | ⟨m, rfl, hm, -⟩
  · obtain ⟨cu, hget⟩ := Option.isSome_iff_exists.mp hlive
    obtain ⟨w', o, hrun, -⟩ := closes_reports hs hget hcl
    refine iff_of_true ⟨w', hrun⟩ ?_
    cases a with
    | accept | read | pollError => trivial
    | rmr m => cases hcl
  · rw [clearable_iff m hm, clear_run hm]
    constructor
    · rintro ⟨w', hrun⟩
      obtain ⟨_, w₁, hloop, -⟩ := bind_eq_ok.mp hrun
      have hreturned := clearPeers_returned hloop
      exact hreturned
    · rintro ⟨hnodup, hall⟩
      obtain ⟨w₁, out, hloop, -⟩ :=
        clearPeers_ok (w := { w with answers := m.answers }) hnodup hall
      exact ⟨_, bind_of_ok hloop⟩

/-- The reports of the end of a connection, and that the connections are gone. -/
structure Ended (cs : List ConnId) (w w' : World) : Prop where
  nodup : cs.Nodup
  live : ∀ i ∈ cs, (w.heap.get i).isSome
  gone : ∀ i ∈ cs, w'.heap.get i = none
  next : w'.heap.next = w.heap.next
  sent : List.Forall₂ (Reports w) cs (w'.outbox.drop w.outbox.length)

theorem ended_of_ok (hs : Sane w) (hc : c ∈ endedBy w a) (hrun : a.run w = .ok () w') :
    Ended (endedBy w a) w w' := by
  have hd := hs.does hrun
  rcases closes_of_endedBy hc with ⟨hcl, heq⟩ | ⟨m, rfl, hm, heq⟩
  · obtain ⟨cu, hget, hclosed⟩ := hd.closed_of_closes hcl
    obtain ⟨w'', o, hrun', hout, ho⟩ := closes_reports hs hget hcl
    rw [hrun] at hrun'
    cases hrun'
    rw [heq]
    constructor
    case nodup => exact List.nodup_singleton c
    case live =>
      intro i hi
      rw [List.mem_singleton.mp hi, hget]
      rfl
    case gone =>
      intro i hi
      rw [hclosed.heap, if_pos (List.mem_singleton.mp hi)]
    case next => exact hclosed.next
    case sent =>
      rw [drop_outbox hout]
      exact .cons ho .nil
  · have hcleared : Cleared w w' := by
      cases hd with
      | delivered hnc _ => exact (hnc hm).elim
      | cleared _ hcl => exact hcl
    rw [clear_run hm] at hrun
    obtain ⟨_, w₁, hloop, hend⟩ := bind_eq_ok.mp hrun
    cases hend
    obtain ⟨hnodup, hall⟩ := clearPeers_returned hloop
    obtain ⟨w₂, out, hloop', hout, hsent⟩ := clearPeers_ok hnodup hall
    rw [hloop] at hloop'
    cases hloop'
    rw [heq]
    constructor
    case nodup => exact hnodup
    case live => exact hall
    case gone =>
      intro i hi
      obtain ⟨k, hkey, hl⟩ := (mem_clearedPeers i).mp hi
      exact (hcleared.freed i k hkey hl).1
    case next => exact hcleared.next
    case sent =>
      have hdrop : w₁.outbox.drop w.outbox.length = out := drop_outbox hout
      show List.Forall₂ _ _ (w₁.outbox.drop w.outbox.length)
      rw [hdrop]
      exact hsent

end Ends

/-! ## Over a run -/

section Runs

variable {params : SctpParams} {h : List (Step World Action)} {w w' : World} {a : Action}
  {c : ConnId} {n : Name}

/-- The connection has existed, and is closed. -/
def Gone (c : ConnId) (w : World) : Prop := w.heap.get c = none ∧ c < w.heap.next

theorem Does.gone (hd : Does w a w') (h : Gone c w) : Gone c w' := by
  obtain ⟨hget, hlt⟩ := h
  cases hd with
  | @accepted request _ =>
    refine ⟨?_, Nat.lt_succ_of_lt hlt⟩
    have halloc : (w.add request).heap.get c = w.heap.get c :=
      (CellHeap.get_alloc _ c _).trans (if_neg (Nat.ne_of_lt hlt))
    exact halloc.trans hget
  | refused _ | nothing => exact ⟨hget, hlt⟩
  | @setup i _ _ _ _ _ _ _ _ hi _ hset =>
    have hne : c ≠ i := by
      rintro rfl
      rw [hget] at hi
      cases hi
    refine ⟨(hset.others c hne).trans hget, ?_⟩
    rw [hset.next]
    exact hlt
  | served _ _ _ ht | idle _ _ ht | delivered _ ht =>
    exact ⟨by rw [ht.heap, hget], by rwa [ht.heap]⟩
  | closed _ _ hcl | failed _ hcl =>
    refine ⟨?_, by rwa [hcl.next]⟩
    rw [hcl.heap, hget, ite_self]
  | cleared _ hcl =>
    refine ⟨?_, by rwa [hcl.next]⟩
    by_cases hlisted : ∃ k, isInternalKey k = false ∧ w.sctpMap.lookup k = some c
    · obtain ⟨k, hkey, hl⟩ := hlisted
      exact (hcl.freed c k hkey hl).1
    · rw [(hcl.kept c fun k hkey hl => hlisted ⟨k, hkey, hl⟩).1]
      exact hget

/-- A connection that has ended stays so, and does not end again. -/
theorem gone_of_run (r : Run Action.run w h w') (hs : Sane w) (hg : Gone c w) :
    (Sane w' ∧ Gone c w') ∧ ∀ st ∈ h, c ∉ endedBy st.pre st.act := by
  refine r.history (fun h w' => (Sane w' ∧ Gone c w') ∧ ∀ st ∈ h, c ∉ endedBy st.pre st.act)
    ⟨⟨hs, hg⟩, by simp⟩ ?_
  rintro h v a v' - ⟨⟨hs, hg⟩, hno⟩ hstep
  have hd := hs.does hstep
  refine ⟨⟨hd.sane hs, hd.gone hg⟩, fun st hst hends => ?_⟩
  rcases List.mem_append.mp hst with hst | hst
  · exact hno st hst hends
  · cases List.mem_singleton.mp hst
    have hlive := (ended_of_ok hs hends hstep).live c hends
    rw [hg.1] at hlive
    cases hlive

theorem Ended.isGone {cs : List ConnId} (he : Ended cs w w') (hc : c ∈ cs) : Gone c w' := by
  refine ⟨he.gone c hc, ?_⟩
  rw [he.next]
  exact w.heap.lt_next_of_isSome c (he.live c hc)

/-- An open connection has not ended before. -/
theorem unended_of_run (r : ListenerRun params h w) (hlive : (w.heap.get c).isSome) :
    ∀ st ∈ h, c ∉ endedBy st.pre st.act := by
  intro st hst hends
  obtain ⟨before, after, heq⟩ := List.append_of_mem hst
  obtain ⟨r₁, hstep, r₂⟩ := r.split before st after heq
  have hs := sane_of_run r₁
  have hg := (ended_of_ok hs hends hstep).isGone hends
  have hgone := (gone_of_run r₂ ((hs.does hstep).sane hs) hg).1.2.1
  rw [hgone] at hlive
  cases hlive

theorem reportCount_eq_zero (hno : ∀ st ∈ h, c ∉ endedBy st.pre st.act) :
    reportCount c n h = 0 := by
  unfold reportCount
  refine List.countP_eq_zero.mpr fun p hp => ?_
  obtain ⟨st, hst, hp⟩ := List.mem_flatMap.mp hp
  intro hcount
  have hcount := of_decide_eq_true hcount
  refine hno st hst ?_
  rw [← hcount.1]
  exact (List.of_mem_zip hp).1

theorem countP_reports {cs : List ConnId} {out : List Output}
    (hall : List.Forall₂ (Reports w) cs out)
    (c : ConnId) (n : Name) :
    (cs.zip out).countP (fun p => p.1 = c ∧ FailureReport n p.2) =
      if w.nameOf c = some n then cs.count c else 0 := by
  induction hall with
  | nil => simp
  | @cons i o cs out ho _ ih =>
    rw [List.zip_cons_cons, List.countP_cons, ih, List.count_cons]
    by_cases hi : i = c
    · subst hi
      simp only [ho.iff, true_and, decide_eq_true_eq, beq_self_eq_true, if_true]
      split <;> rfl
    · simp [hi]

/-- The step that ends a connection reports it once, under the name it has. -/
theorem reportCount_ended (he : Ended (endedBy w a) w w') (hc : c ∈ endedBy w a) (n : Name) :
    reportCount c n [⟨w, a, w'⟩] = if w.nameOf c = some n then 1 else 0 := by
  unfold reportCount
  rw [List.flatMap_singleton, ← List.count_eq_one_of_mem he.nodup hc]
  exact countP_reports he.sent c n

/-! ## The name a connection has -/

theorem setupNames_append (c : ConnId) (h : List (Step World Action)) (st : Step World Action) :
    setupNames c (h ++ [st]) = setupNames c h ++ ((setupOf st.pre st.act).bind fun p =>
      if p.1 = c then some (ranNameOf st.act) else none).toList := by
  unfold setupNames
  rw [List.filterMap_append, List.filterMap_cons, List.filterMap_nil]
  cases (setupOf st.pre st.act).bind fun p =>
    if p.1 = c then some (ranNameOf st.act) else none <;> rfl

theorem setupNames_of_none (hso : setupOf w a = none) (c : ConnId) (w' : World) :
    setupNames c (h ++ [⟨w, a, w'⟩]) = setupNames c h := by
  rw [setupNames_append, hso]
  exact List.append_nil _

theorem setupNames_of_setup {cu : ConnectedCU} {s : SetupScan}
    (hso : setupOf w a = some (c, cu, s)) (i : ConnId) (w' : World) :
    setupNames i (h ++ [⟨w, a, w'⟩]) =
      if c = i then setupNames i h ++ [ranNameOf a] else setupNames i h := by
  rw [setupNames_append, hso]
  show _ ++ (if c = i then some (ranNameOf a) else none).toList = _
  split
  · rfl
  · exact List.append_nil _

/-- A connection has the RAN name of its last setup request, and none before there is one. -/
structure LastNamed (h : List (Step World Action)) (w : World) : Prop where
  name : ∀ c cu, w.heap.get c = some cu → cu.enodbName.str = (setupNames c h).getLast?.getD []
  unused : ∀ c, w.heap.next ≤ c → setupNames c h = []

theorem Does.lastNamed (hd : Does w a w') (hI : LastNamed h w) :
    LastNamed (h ++ [⟨w, a, w'⟩]) w' := by
  cases hso : setupOf w a with
  | some p =>
    obtain ⟨c, cu, s⟩ := p
    have hset := hd.setUp hso
    constructor
    case name =>
      intro i cu' hi
      rw [setupNames_of_setup hso]
      by_cases hic : c = i
      · subst hic
        obtain ⟨cu'', hc'', hname, -⟩ := hset.peer
        rw [hc''] at hi
        cases hi
        rw [hname, setupOf_peer hso, if_pos rfl, List.getLast?_append, List.getLast?_singleton]
        rfl
      · rw [if_neg hic]
        exact hI.name i cu' ((hset.others i (Ne.symm hic)).symm.trans hi)
    case unused =>
      intro i hi
      obtain ⟨-, -, -, -, -, -, hc, -⟩ := setupOf_eq_some hso
      have hne : c ≠ i := by
        rintro rfl
        rw [hset.next] at hi
        exact Nat.not_lt.mpr hi (w.heap.lt_next_of_isSome c (by rw [hc]; rfl))
      rw [setupNames_of_setup hso, if_neg hne]
      rw [hset.next] at hi
      exact hI.unused i hi
  | none =>
    constructor
    case name =>
      intro i cu hi
      rw [setupNames_of_none hso]
      rcases hd.name_of_no_setup hso hi with hold | ⟨rfl, hzeros⟩
      · exact hI.name i cu hold
      · rw [hI.unused _ (Nat.le_refl _), hzeros, Buf.str_zeros]
        rfl
    case unused =>
      intro i hi
      rw [setupNames_of_none hso]
      exact hI.unused i (Nat.le_trans hd.next_le hi)

theorem lastNamed_of_run (r : ListenerRun params h w) : LastNamed h w := by
  refine r.history LastNamed ⟨fun _ _ hi => ?_, fun _ _ => rfl⟩ ?_
  · cases hi
  · exact fun h w a w' r hI hstep => ((sane_of_run r).does hstep).lastNamed hI

/-- An announced connection has the RAN name of its last setup request. -/
theorem nameOf_of_announced (r : ListenerRun params h w) (hlive : (w.heap.get c).isSome)
    (hann : Announced c n h) (k : Name) :
    w.nameOf c = some k ↔ (setupNames c h).getLast? = some k := by
  obtain ⟨cu, hc⟩ := Option.isSome_iff_exists.mp hlive
  have hne : setupNames c h ≠ [] := by
    obtain ⟨st, hst, hso, -⟩ := hann
    obtain ⟨p, hp, rfl⟩ := Option.map_eq_some_iff.mp hso
    have hmem : ranNameOf st.act ∈ setupNames p.1 h :=
      List.mem_filterMap.mpr ⟨st, hst, by rw [hp]; exact if_pos rfl⟩
    exact List.ne_nil_of_mem hmem
  rw [nameOf_of_get hc, (lastNamed_of_run r).name c cu hc, List.getLast?_eq_some_getLast hne]
  rfl

/-! ## Reported once -/

/-- The action ends the connection by a step that returns, and however the run goes on, the loss of
the node `n` is reported for the connection once and no more. -/
def ReportedOnce (params : SctpParams) (c : ConnId) (n : Name) (h : List (Step World Action))
    (w : World) (a : Action) : Prop :=
  ∃ w', a.run w = .ok () w' ∧
    ∀ h' w'', ListenerRun params (h ++ ⟨w, a, w'⟩ :: h') w'' →
      reportCount c n (h ++ ⟨w, a, w'⟩ :: h') = 1

theorem reportCount_append (l l' : List (Step World Action)) :
    reportCount c n (l ++ l') = reportCount c n l + reportCount c n l' := by
  unfold reportCount
  rw [List.flatMap_append, List.countP_append]

/-- In a whole run, the reports of a connection that ends are those of the step that ends it. -/
theorem reportCount_of_run (r : ListenerRun params h w) (hlive : (w.heap.get c).isSome)
    (hends : c ∈ endedBy w a) (hrun : a.run w = .ok () w') {h' : List (Step World Action)}
    {w'' : World} (r' : ListenerRun params (h ++ ⟨w, a, w'⟩ :: h') w'') :
    reportCount c n (h ++ ⟨w, a, w'⟩ :: h') = if w.nameOf c = some n then 1 else 0 := by
  have hs := sane_of_run r
  have he := ended_of_ok hs hends hrun
  have hbefore := unended_of_run r hlive
  have hafter := gone_of_run (r'.split h ⟨w, a, w'⟩ h' rfl).2.2 ((hs.does hrun).sane hs)
    (he.isGone hends)
  rw [reportCount_append, reportCount_eq_zero hbefore, ← List.singleton_append (l := h'),
    reportCount_append, reportCount_ended he hends, reportCount_eq_zero hafter.2, Nat.zero_add,
    Nat.add_zero]

end Runs

end E2Term
