import E2Term.Frame

/-!
# Closing connections

A connection is closed by the end of its stream or a read error, by an error event, or by the bulk
clear. The first two erase what the two maps hold under the connection's name; the bulk clear
empties `sctpMap` and leaves the procedure map.
-/

namespace E2Term

open CString Effect

/-- The report of the lost connection of a node. -/
def FailureReport (n : Name) : Output → Prop
  | .rmr msg _ => msg.meid = n ∧ msg.mtype = .ricSctpConnectionFailure
  | _ => False

/-- The connection `cu` at `c` is closed: it is reported, it is gone from the heap and from epoll,
and its name and its host key are gone from the maps. -/
structure Closed (c : ConnId) (cu : ConnectedCU) (w w' : World) : Prop where
  params : w'.params = w.params
  next : w'.heap.next = w.heap.next
  heap : ∀ i, w'.heap.get i = if i = c then none else w.heap.get i
  fds : ∀ i, w'.fds i = if i = c then none else w.fds i
  sctpMap : ∀ k, w'.sctpMap.lookup k =
    if k = hostKey cu ∨ k = cu.enodbName.str then none else w.sctpMap.lookup k
  procedures : ∀ k, w'.connectionHandlingPerE2NodeMap.lookup k =
    if k = cu.enodbName.str then none else w.connectionHandlingPerE2NodeMap.lookup k
  sent : ∃ out, w'.outbox = w.outbox ++ out ∧ ∀ o ∈ out, FailureReport cu.enodbName.str o

section Close

variable {w w' : World} {c : ConnId} {cu : ConnectedCU}

/-- A message to the RIC is one output. -/
theorem sendRequestToXapp_outbox {rc : Int} {n : Name} {mtype : MsgType}
    (h : sendRequestToXapp n mtype w = .ok rc w') : ∃ o, w'.outbox = w.outbox ++ [o] := by
  obtain ⟨_, _, _, _, hrun⟩ := sendRequestToXapp_eq n mtype w
  rw [hrun] at h
  cases h
  exact ⟨_, rfl⟩

/-- The report of a connection is one output. -/
theorem reportFailure_outbox {what : String} (hc : w.heap.get c = some cu)
    (h : reportFailure c what w = .ok () w') : ∃ o, w'.outbox = w.outbox ++ [o] := by
  unfold reportFailure at h
  rw [bind_of_ok (deref_of_get hc)] at h
  obtain ⟨_, w₁, hwrite, h⟩ := bind_eq_ok.mp h
  have hw₁ : w₁.heap.get c = some cu ∧ w₁.outbox = w.outbox := by
    cases hwrite
    exact ⟨hc, rfl⟩
  have hI : Counts (fun v => v.heap.get c = some cu ∧ v.outbox = w.outbox) c (some cu) :=
    ⟨fun _ _ hv => hv, fun _ hv => hv.1⟩
  have hkeep : Keeps (fun _ => False) _ (countInternal c .sctpAbortInitiatedByE2Node) :=
    hI.countInternal (by simp) _
  obtain ⟨_, w₂, hcount, -, hout⟩ := hkeep.returns hw₁
  rw [bind_of_ok hcount] at h
  obtain ⟨rc, w₃, hsend, h⟩ := bind_eq_ok.mp h
  cases h
  obtain ⟨o, ho⟩ := sendRequestToXapp_outbox hsend
  exact ⟨o, ho.trans (congrArg (· ++ [o]) hout)⟩

theorem reportFailure_ok (hc : w.heap.get c = some cu) (what : String) :
    ∃ w', reportFailure c what w = .ok () w' ∧
      Touches cu.enodbName.str noStatus (FailureReport cu.enodbName.str) w w' ∧
      ∃ o, w'.outbox = w.outbox ++ [o] := by
  have hk : Keeps (fun _ => False)
      (Touches cu.enodbName.str noStatus (FailureReport cu.enodbName.str) w)
      (reportFailure c what) := by
    have hI := Touches.counts cu.enodbName.str noStatus (FailureReport cu.enodbName.str) hc
    unfold reportFailure
    refine hI.deref (by simp) fun cu' hcu' => ?_
    cases hcu'
    refine (keeps_writeSendMessage _).bind fun _ => ?_
    refine (hI.countInternal (by simp) _).bind fun _ => ?_
    exact (keeps_sendRequestToXapp _ fun _ _ hmeid hmtype => ⟨hmeid, hmtype⟩).bind fun _ =>
      Keeps.pure _
  obtain ⟨_, w', hrun, ht⟩ := hk.returns (.refl w)
  exact ⟨w', hrun, ht, reportFailure_outbox hc hrun⟩

theorem lookup_erase (m : SctpMap) (key k : Name) :
    (m.erase key).lookup k = if k = key then none else m.lookup k := by
  by_cases hk : k = key
  · rw [hk, AList.lookup_erase, if_pos rfl]
  · rw [AList.lookup_erase_ne hk, if_neg hk]

theorem eraseFound_ok (w : World) (key : Name) :
    ∃ m, eraseFound key w = .ok () { w with sctpMap := m } ∧
      ∀ k, m.lookup k = if k = key then none else w.sctpMap.lookup k := by
  unfold eraseFound
  rw [bind_of_ok (rfl : (get : M World) w = .ok w w)]
  split
  · exact ⟨_, rfl, lookup_erase _ _⟩
  · rename_i hnone
    refine ⟨w.sctpMap, rfl, fun k => ?_⟩
    split
    · rename_i hk
      rw [hk]
      exact Option.not_isSome_iff_eq_none.mp hnone
    · rfl

theorem freePeer_ok (hc : w.heap.get c = some cu) :
    freePeer c w = .ok () { w with heap := w.heap.free c } := by
  unfold freePeer
  rw [bind_of_ok (deref_of_get hc)]
  rfl

theorem cleanHashEntry_ok (hc : w.heap.get c = some cu) :
    ∃ m, cleanHashEntry c w = .ok () { w with sctpMap := m, heap := w.heap.free c } ∧
      ∀ k, m.lookup k =
        if k = hostKey cu ∨ k = cu.enodbName.str then none else w.sctpMap.lookup k := by
  obtain ⟨m₁, hrun₁, hm₁⟩ := eraseFound_ok w (hostKey cu)
  obtain ⟨m₂, hrun₂, hm₂⟩ := eraseFound_ok { w with sctpMap := m₁ } cu.enodbName.str
  refine ⟨m₂, ?_, fun k => ?_⟩
  · unfold cleanHashEntry
    rw [bind_of_ok (deref_of_get hc), bind_of_ok hrun₁, bind_of_ok hrun₂]
    exact freePeer_ok hc
  · rw [hm₂]
    dsimp only
    rw [hm₁]
    by_cases hk : k = cu.enodbName.str
    · simp [hk]
    · simp [hk]

/-- The state in which the two ways to close a connection end, after the report. -/
theorem closed_of_report {w₁ : World} {m : SctpMap}
    (ht : Touches cu.enodbName.str noStatus (FailureReport cu.enodbName.str) w w₁)
    (hm : ∀ k, m.lookup k =
      if k = hostKey cu ∨ k = cu.enodbName.str then none else w₁.sctpMap.lookup k) :
    Closed c cu w { w₁ with
      connectionHandlingPerE2NodeMap := E2NodeMap.removeE2ConnectionEntryFromMap
        w₁.connectionHandlingPerE2NodeMap cu.enodbName.str
      fds := fun i => if i = c then none else w₁.fds i
      sctpMap := m
      heap := w₁.heap.free c } where
  params := ht.params
  next := by
    show w₁.heap.next = _
    rw [ht.heap]
  heap i := by
    show (w₁.heap.free c).get i = _
    rw [ht.heap, CellHeap.get_free]
  fds i := by rw [ht.fds]
  sctpMap k := by rw [hm, ht.sctpMap]
  procedures k := by
    rw [E2NodeMap.lookup_removeE2ConnectionEntryFromMap, ht.lookup_eq]
  sent := ht.sent

/-- The end of the stream or a read error closes a connection whose descriptor is open. -/
theorem closeConnection_ok (hc : w.heap.get c = some cu) (hfd : (w.fds c).isSome)
    (answers : Answers) : ∃ w', closeConnection c answers w = .ok () w' ∧ Closed c cu w w' ∧
      ∃ o, w'.outbox = w.outbox ++ [o] := by
  obtain ⟨w₁, hrun₁, ht₁, hone⟩ := reportFailure_ok (w := { w with answers := answers }) hc
    "|CU disconnected unexpectedly"
  have ht : Touches cu.enodbName.str noStatus (FailureReport cu.enodbName.str) w w₁ :=
    (Touches.setAnswers w answers).trans ht₁
  have hc₁ : w₁.heap.get c = some cu := by rw [ht.heap, hc]
  have hfd₁ : (w₁.fds c).isSome := by rw [ht.fds, hfd]
  let w₂ : World := { w₁ with
    connectionHandlingPerE2NodeMap := E2NodeMap.removeE2ConnectionEntryFromMap
      w₁.connectionHandlingPerE2NodeMap cu.enodbName.str }
  obtain ⟨m, hrun, hm⟩ := cleanHashEntry_ok
    (w := { w₂ with fds := fun i => if i = c then none else w₁.fds i }) hc₁
  refine ⟨_, ?_, closed_of_report ht hm, hone⟩
  unfold closeConnection
  rw [bind_of_ok (rfl : (modify _ : M Unit) w = .ok () _), bind_of_ok hrun₁,
    bind_of_ok (deref_of_get hc₁),
    bind_of_ok (rfl : removeE2ConnectionEntryFromMap cu.enodbName.str w₁ = .ok () w₂),
    bind_of_ok (rfl : (get : M World) w₂ = .ok w₂ w₂), if_pos hfd₁]
  exact hrun

/-- An error event closes a connection. -/
theorem closeOnError_ok (hc : w.heap.get c = some cu) (answers : Answers) :
    ∃ w', closeOnError c answers w = .ok () w' ∧ Closed c cu w w' ∧
      ∃ o, w'.outbox = w.outbox ++ [o] := by
  obtain ⟨w₁, hrun₁, ht₁, hone⟩ := reportFailure_ok (w := { w with answers := answers }) hc
    "|Failed SCTP Connection"
  have ht : Touches cu.enodbName.str noStatus (FailureReport cu.enodbName.str) w w₁ :=
    (Touches.setAnswers w answers).trans ht₁
  have hc₁ : w₁.heap.get c = some cu := by rw [ht.heap, hc]
  let w₂ : World := { w₁ with fds := fun i => if i = c then none else w₁.fds i }
  have hc₂ : w₂.heap.get c = some cu := hc₁
  obtain ⟨m, hrun, hm⟩ := cleanHashEntry_ok
    (w := { w₂ with
      connectionHandlingPerE2NodeMap := E2NodeMap.removeE2ConnectionEntryFromMap
        w₁.connectionHandlingPerE2NodeMap cu.enodbName.str }) hc₁
  refine ⟨_, ?_, closed_of_report ht hm, hone⟩
  unfold closeOnError
  rw [bind_of_ok (rfl : (modify _ : M Unit) w = .ok () _), bind_of_ok hrun₁,
    bind_of_ok (rfl : closeFd c w₁ = .ok () w₂), bind_of_ok (deref_of_get hc₂),
    bind_of_ok (rfl : removeE2ConnectionEntryFromMap cu.enodbName.str w₂ = .ok () _)]
  exact hrun

/-- What came before a connection is closed without touching the maps does not matter. -/
theorem Closed.of_touches {n : Name} {w₁ : World} (ht : Touches n noStatus noOutput w w₁)
    (h : Closed c cu w₁ w') : Closed c cu w w' where
  params := h.params.trans ht.params
  next := h.next.trans (congrArg CellHeap.next ht.heap)
  heap i := by rw [h.heap, ht.heap]
  fds i := by rw [h.fds, ht.fds]
  sctpMap k := by rw [h.sctpMap, ht.sctpMap]
  procedures k := by rw [h.procedures, ht.lookup_eq]
  sent := by
    rw [← ht.outbox_eq]
    exact h.sent

end Close

/-! ## The bulk clear -/

/-- A connection that one of the keys `v` stands for in `sctpMap`. -/
def Listed (v : List Name) (w : World) (i : ConnId) : Prop :=
  ∃ k ∈ v, isInternalKey k = false ∧ w.sctpMap.lookup k = some i

/-- The connections of the keys `v` are closed, the maps are untouched. -/
structure Swept (v : List Name) (w w' : World) : Prop where
  params : w'.params = w.params
  next : w'.heap.next = w.heap.next
  sctpMap : w'.sctpMap = w.sctpMap
  procedures : ∀ k, w'.connectionHandlingPerE2NodeMap.lookup k =
    w.connectionHandlingPerE2NodeMap.lookup k
  freed : ∀ i, Listed v w i → w'.heap.get i = none ∧ w'.fds i = none
  kept : ∀ i, ¬ Listed v w i → w'.heap.get i = w.heap.get i ∧ w'.fds i = w.fds i
  sent : ∃ out, w'.outbox = w.outbox ++ out ∧ ∀ o ∈ out, ∃ n, FailureReport n o

theorem Swept.nil (w : World) : Swept [] w w where
  params := rfl
  next := rfl
  sctpMap := rfl
  procedures _ := rfl
  freed i h := by
    obtain ⟨k, hk, _⟩ := h
    cases hk
  kept _ _ := ⟨rfl, rfl⟩
  sent := ⟨[], by simp, by simp⟩

theorem Swept.append {v v' : List Name} {w w' w'' : World} (h : Swept v w w')
    (h' : Swept v' w' w'') : Swept (v ++ v') w w'' where
  params := h'.params.trans h.params
  next := h'.next.trans h.next
  sctpMap := h'.sctpMap.trans h.sctpMap
  procedures k := (h'.procedures k).trans (h.procedures k)
  freed i hi := by
    by_cases hi' : Listed v' w' i
    · exact h'.freed i hi'
    · have hv : Listed v w i := by
        obtain ⟨k, hk, hint, hl⟩ := hi
        rcases List.mem_append.mp hk with hk | hk
        · exact ⟨k, hk, hint, hl⟩
        · exact (hi' ⟨k, hk, hint, by rw [h.sctpMap, hl]⟩).elim
      obtain ⟨hheap, hfds⟩ := h'.kept i hi'
      rw [hheap, hfds]
      exact h.freed i hv
  kept i hi := by
    have hv : ¬ Listed v w i := fun ⟨k, hk, hint, hl⟩ =>
      hi ⟨k, List.mem_append_left _ hk, hint, hl⟩
    have hv' : ¬ Listed v' w' i := fun ⟨k, hk, hint, hl⟩ =>
      hi ⟨k, List.mem_append_right _ hk, hint, by rw [← hl, h.sctpMap]⟩
    obtain ⟨hheap, hfds⟩ := h'.kept i hv'
    rw [hheap, hfds]
    exact h.kept i hv
  sent := by
    obtain ⟨out, hout, hall⟩ := h.sent
    obtain ⟨out', hout', hall'⟩ := h'.sent
    refine ⟨out ++ out', by rw [hout', hout, List.append_assoc], fun o ho => ?_⟩
    rcases List.mem_append.mp ho with ho | ho
    · exact hall o ho
    · exact hall' o ho

/-- One key lists the connection it leads to. -/
theorem listed_singleton {w : World} {key : Name} (hkey : isInternalKey key = false) {c : ConnId}
    (hl : w.sctpMap.lookup key = some c) (i : ConnId) : Listed [key] w i ↔ i = c := by
  constructor
  · rintro ⟨k, hk, _, hi⟩
    rw [List.mem_singleton.mp hk, hl] at hi
    exact (Option.some.inj hi).symm
  · rintro rfl
    exact ⟨key, List.mem_singleton_self key, hkey, hl⟩

/-- The loop body of the bulk clear for a connection: its descriptor is closed, its loss is
reported, and it is freed. -/
theorem clearPeer_frees {w w' : World} {key : Name} {c : ConnId}
    (hl : w.sctpMap.lookup key = some c) (h : clearPeer key w = .ok () w') :
    ∃ n w₂, Touches n noStatus (FailureReport n)
        { w with fds := fun i => if i = c then none else w.fds i } w₂ ∧
      w' = { w₂ with heap := w₂.heap.free c } := by
  unfold clearPeer at h
  rw [bind_of_ok (rfl : (get : M World) w = .ok w w), hl] at h
  obtain ⟨cu, w₀, hderef, hbody⟩ := bind_eq_ok.mp h
  clear h
  obtain ⟨rfl, hc⟩ := deref_eq_ok hderef
  let w₁ : World := { w₀ with fds := fun i => if i = c then none else w₀.fds i }
  let n := cu.enodbName.str
  have hsend : Keeps (fun _ => False) (Touches n noStatus (FailureReport n) w₁) (do
      let payload := cu.enodbName.str ++ text "|RIC_SCTP_CLEAR_ALL"
      writeSendMessage fun m => { m with payload := payload, len := payload.length }
      sendRequestToXapp cu.enodbName.str .ricSctpConnectionFailure) :=
    (keeps_writeSendMessage _).bind fun _ =>
      keeps_sendRequestToXapp _ fun _ _ hmeid hmtype => ⟨hmeid, hmtype⟩
  obtain ⟨rc, w₂, hrun, ht⟩ := hsend.returns (.refl w₁)
  rw [bind_of_ok (rfl : closeFd c w₀ = .ok () w₁)] at hbody
  obtain ⟨_, w₃, hwrite, hbody⟩ := bind_eq_ok.mp hbody
  rw [bind_of_ok hwrite] at hrun
  rw [bind_of_ok hrun, freePeer_ok (by rw [ht.heap]; exact hc)] at hbody
  cases hbody
  exact ⟨n, w₂, ht, rfl⟩

/-- The loop body of the bulk clear, where it returns. -/
theorem clearPeer_swept {w w' : World} {key : Name} (hkey : isInternalKey key = false)
    (h : clearPeer key w = .ok () w') : Swept [key] w w' := by
  cases hl : w.sctpMap.lookup key with
  | none =>
    unfold clearPeer at h
    rw [bind_of_ok (rfl : (get : M World) w = .ok w w), hl] at h
    cases h
    exact {
      params := rfl
      next := rfl
      sctpMap := rfl
      procedures := fun _ => rfl
      freed := fun i ⟨k, hk, _, hi⟩ => by
        rw [List.mem_singleton.mp hk, hl] at hi
        cases hi
      kept := fun _ _ => ⟨rfl, rfl⟩
      sent := ⟨[], by simp, by simp⟩ }
  | some c =>
    obtain ⟨n, w₂, ht, rfl⟩ := clearPeer_frees hl h
    have hlisted := listed_singleton hkey hl
    exact {
      params := ht.params
      next := by
        show w₂.heap.next = _
        rw [ht.heap]
      sctpMap := ht.sctpMap
      procedures := ht.lookup_eq
      freed := fun i hi => by
        rw [(hlisted i).mp hi]
        refine ⟨?_, ?_⟩
        · rw [CellHeap.get_free, if_pos rfl]
        · show w₂.fds c = none
          rw [ht.fds]
          exact if_pos rfl
      kept := fun i hi => by
        have hne : i ≠ c := fun heq => hi ((hlisted i).mpr heq)
        refine ⟨?_, ?_⟩
        · rw [CellHeap.get_free, if_neg hne, ht.heap]
        · show w₂.fds i = _
          rw [ht.fds]
          exact if_neg hne
      sent := by
        obtain ⟨out, hout, hall⟩ := ht.sent
        exact ⟨out, hout, fun o ho => ⟨n, hall o ho⟩⟩ }

theorem clearPeers_swept {v : List Name} : ∀ {w w' : World},
    clearPeers v w = .ok () w' → Swept v w w' := by
  induction v with
  | nil =>
    intro w w' h
    cases h
    exact .nil w
  | cons key v ih =>
    intro w w' h
    unfold clearPeers at h
    cases hkey : isInternalKey key with
    | true =>
      simp only [hkey, Bool.not_true, Bool.false_eq_true, if_false] at h
      have hv := ih h
      have hskip : Swept [key] w w := {
        Swept.nil w with
        freed := fun i ⟨k, hk, hint, _⟩ => by
          rw [List.mem_singleton.mp hk, hkey] at hint
          cases hint
        kept := fun _ _ => ⟨rfl, rfl⟩ }
      exact hskip.append hv
    | false =>
      simp only [hkey, Bool.not_false, if_true] at h
      obtain ⟨_, w₁, hfirst, hrest⟩ := bind_eq_ok.mp h
      exact (clearPeer_swept hkey hfirst).append (ih hrest)

/-- After a bulk clear no key is left, and every connection that a node's key stood for is gone;
the procedure map has not changed. -/
structure Cleared (w w' : World) : Prop where
  params : w'.params = w.params
  next : w'.heap.next = w.heap.next
  sctpMap : ∀ k, w'.sctpMap.lookup k = none
  procedures : ∀ k, w'.connectionHandlingPerE2NodeMap.lookup k =
    w.connectionHandlingPerE2NodeMap.lookup k
  freed : ∀ i k, isInternalKey k = false → w.sctpMap.lookup k = some i →
    w'.heap.get i = none ∧ w'.fds i = none
  kept : ∀ i, (∀ k, isInternalKey k = false → w.sctpMap.lookup k ≠ some i) →
    w'.heap.get i = w.heap.get i ∧ w'.fds i = w.fds i
  sent : ∃ out, w'.outbox = w.outbox ++ out ∧ ∀ o ∈ out, ∃ n, FailureReport n o

theorem mem_getKeys {order : List Name} {m : SctpMap} {k : Name} :
    k ∈ getKeys order m ↔ k ∈ m.keys := by
  unfold getKeys
  split
  · rename_i hperm
    exact (List.isPerm_iff.mp hperm).mem_iff
  · rfl

theorem clearAll_cleared {w w' : World} {rcvMessage : RmrMsg}
    (h : clearAll rcvMessage w = .ok () w') : Cleared w w' := by
  unfold clearAll at h
  rw [bind_of_ok (rfl : (get : M World) w = .ok w w)] at h
  obtain ⟨_, w₁, hloop, h⟩ := bind_eq_ok.mp h
  cases h
  have hs := clearPeers_swept hloop
  have hmem : ∀ k i, w.sctpMap.lookup k = some i → k ∈ getKeys rcvMessage.keys w.sctpMap := by
    intro k i hl
    rw [mem_getKeys, ← AList.mem_keys, ← AList.lookup_isSome, hl]
    rfl
  exact {
    params := hs.params
    next := hs.next
    sctpMap := fun k => rfl
    procedures := hs.procedures
    freed := fun i k hint hl => hs.freed i ⟨k, hmem k i hl, hint, hl⟩
    kept := fun i hi => hs.kept i fun ⟨k, _, hint, hl⟩ => hi k hint hl
    sent := hs.sent }

end E2Term
