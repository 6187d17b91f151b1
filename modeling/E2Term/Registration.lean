import E2Term.Machine

/-!
# What a setup request leaves in the maps

A rejected setup request has already named its connection and registered the name when its last
check fails; an accepted one leaves the transaction id that an entry for its node had before. Both
are read off the scan of the request, from an arbitrary state.
-/

namespace E2Term

open CString Effect

section Collect

variable {w w₁ : World} {message : ReportingMessages} {ies : List (ProtocolIE E2setupRequestIEs)}
  {t : Int} {name : NameBuf}

/-- A request whose data was collected has a scan. -/
theorem scan_of_collect (h : collectSetupRequestData message ies w = .ok (t, name) w₁) :
    ∃ cu s, w.heap.get message.peerInfo = some cu ∧ scanSetup message.enodbName ies = some s ∧
      s.transactionId = t ∧ s.message = name := by
  cases hc : w.heap.get message.peerInfo with
  | none =>
    unfold collectSetupRequestData update at h
    rw [bind_of_error (bind_of_error (deref_of_freed hc))] at h
    cases h
  | some cu =>
    cases hs : scanSetup message.enodbName ies with
    | none =>
      have hzeros := get_set_self hc { cu with enodbName := Buf.zeros maxEnodbNameSize }
      unfold scanSetup at hs
      obtain ⟨w', hrun, -⟩ := collectSetupIEs_overflow (c := message.peerInfo)
        (w := { w with heap := w.heap.set message.peerInfo _ }) ies hzeros hs
      unfold collectSetupRequestData at h
      rw [bind_of_ok (update_of_get hc _), hrun] at h
      cases h
    | some s =>
      rw [collectSetupRequestData_eq hc hs] at h
      cases h
      exact ⟨cu, s, rfl, rfl, rfl, rfl⟩

end Collect

/-! ## Rejected requests -/

/-- `sctpMap`, the name of the connection `c` and the procedure map are in `w'` what they were in
`w`. -/
structure Untouched (c : ConnId) (w w' : World) : Prop where
  sctpMap : ∀ k, w'.sctpMap.lookup k = w.sctpMap.lookup k
  name : (w'.heap.get c).map (·.enodbName) = (w.heap.get c).map (·.enodbName)
  procedures : ∀ k, w'.connectionHandlingPerE2NodeMap.lookup k =
    w.connectionHandlingPerE2NodeMap.lookup k

/-- The request names its connection as it was named, and every name it builds, copied over the
name for messages, is a key of the connection already. -/
def AlreadyRegistered (w : World) (message : ReportingMessages)
    (ies : List (ProtocolIE E2setupRequestIEs)) : Prop :=
  (w.heap.get message.peerInfo).map (·.enodbName) =
      some ((ranNames (Buf.zeros maxEnodbNameSize) ies).getLastD (Buf.zeros maxEnodbNameSize)) ∧
    ∀ b ∈ message.enodbName.copies (ranNames (Buf.zeros maxEnodbNameSize) ies),
      w.sctpMap.lookup b.str = some message.peerInfo

theorem registerKeys_eq_iff (c : ConnId) (keys : List Name) (m : SctpMap) :
    (∀ k, (registerKeys c keys m).lookup k = m.lookup k) ↔ ∀ k ∈ keys, m.lookup k = some c := by
  simp only [lookup_registerKeys]
  constructor
  · intro h k hk
    rw [← h k, if_pos hk]
  · intro h k
    by_cases hk : k ∈ keys
    · rw [if_pos hk, h k hk]
    · rw [if_neg hk]

theorem SetUp.untouched_iff {c : ConnId} {cu : ConnectedCU} {s : SetupScan} {w w' : World}
    (h : SetUp c cu s w w') (hc : w.heap.get c = some cu) (hrej : ¬ s.accepted) :
    Untouched c w w' ↔
      cu.enodbName = s.peer ∧ ∀ k ∈ s.keys, w.sctpMap.lookup k = some c := by
  obtain ⟨cu', hc', hname, -⟩ := h.peer
  have hprocedures : ∀ k, w'.connectionHandlingPerE2NodeMap.lookup k =
      w.connectionHandlingPerE2NodeMap.lookup k := fun k => by rw [h.procedures, if_neg hrej]
  have hmap : (∀ k, w'.sctpMap.lookup k = w.sctpMap.lookup k) ↔
      ∀ k ∈ s.keys, w.sctpMap.lookup k = some c := by
    rw [h.sctpMap, registerKeys_eq_iff]
  have hpeer : (w'.heap.get c).map (·.enodbName) = (w.heap.get c).map (·.enodbName) ↔
      cu.enodbName = s.peer := by
    rw [hc', hc, Option.map_some, Option.map_some, Option.some.injEq, hname, eq_comm]
  constructor
  · rintro ⟨hm, hn, -⟩
    exact ⟨hpeer.mp hn, hmap.mp hm⟩
  · rintro ⟨hn, hm⟩
    exact ⟨hmap.mpr hm, hpeer.mpr hn, hprocedures⟩

/-- A rejected request leaves both maps and the name of its connection exactly when it finds them as
it would leave them. -/
theorem rejected_untouched_iff {w w₁ : World} (message : ReportingMessages) (m : SctpMsg)
    {ies : List (ProtocolIE E2setupRequestIEs)} {t : Int} {name : NameBuf}
    (hret : collectSetupRequestData message ies w = .ok (t, name) w₁) (ht : t < 0) :
    ∃ w', e2setup message m ies w = .ok () w' ∧
      (Untouched message.peerInfo w w' ↔ AlreadyRegistered w message ies) := by
  obtain ⟨cu, s, hc, hs, rfl, -⟩ := scan_of_collect hret
  obtain ⟨w', hrun, hset, -⟩ := e2setup_ok message hc m hs
  obtain ⟨hkeys, -, hpeer⟩ := scanSetupIEs_from ies hs
  refine ⟨w', hrun, ?_⟩
  rw [hset.untouched_iff hc (Int.not_le.mpr ht), hkeys, hpeer, List.forall_mem_map]
  unfold AlreadyRegistered
  rw [hc, Option.map_some, Option.some.injEq]

/-- The information elements of a request for a node, without a transaction id. -/
def sampleIEs (id : UInt8) : List (ProtocolIE E2setupRequestIEs) :=
  [⟨idGlobalE2nodeID, .globalE2nodeID (sampleNode id)⟩]

def sampleSctpMsg (pdu : E2APPDU) : SctpMsg :=
  ⟨[0], 0, some pdu, some (text "<E2AP-PDU/>"), 2, 2, .good⟩

/-- The handlers' view of a message of the connection `c`. -/
def messageOf (w : World) (c : ConnId) : ReportingMessages where
  enodbName := ((w.heap.get c).map (·.enodbName)).getD (Buf.zeros maxEnodbNameSize)
  peerInfo := c
  asnLength := 1

/-- A node that was set up sends its request again, without a transaction id. -/
theorem rejected_untouched_iff_again :
    ∃ w w' : World, e2setup (messageOf w 0) (sampleSctpMsg (sampleRejected 1)) (sampleIEs 1) w =
        .ok () w' ∧
      (Untouched 0 w w' ↔ AlreadyRegistered w (messageOf w 0) (sampleIEs 1)) := by
  obtain ⟨h, w, r, p, w₁, hret, ht⟩ := sampleRun_of_any
    [.accept sampleRequest, sampleRead 0 (sampleSetup 1)]
    (fun p => Returned (fun r _ => r.1 < 0)
      (collectSetupRequestData (messageOf p.2 0) (sampleIEs 1) p.2)) (by decide +kernel)
  exact ⟨w, rejected_untouched_iff (messageOf w 0) (sampleSctpMsg (sampleRejected 1)) hret ht⟩

/-- A new connection sends a request without a transaction id: it stays under the name. -/
theorem rejected_request_registers :
    ¬ ∀ (w w₁ w' : World) (message : ReportingMessages) (m : SctpMsg) ies t name,
      collectSetupRequestData message ies w = .ok (t, name) w₁ → t < 0 →
      e2setup message m ies w = .ok () w' → Untouched message.peerInfo w w' := by
  intro hall
  obtain ⟨h, w, r, ⟨p, w₁, hret, ht⟩, _, w', hrun, hkey⟩ := sampleRun_of_any
    [.accept sampleRequest]
    (fun p => Returned (fun r _ => r.1 < 0)
        (collectSetupRequestData (messageOf p.2 0) (sampleIEs 1) p.2) ∧
      Returned (fun _ w' => (w'.sctpMap.lookup (sampleName 1)).isSome ∧
          (p.2.sctpMap.lookup (sampleName 1)).isNone)
        (e2setup (messageOf p.2 0) (sampleSctpMsg (sampleRejected 1)) (sampleIEs 1) p.2))
    (by decide +kernel)
  have hsame := (hall w w₁ w' _ _ _ p.1 p.2 hret ht hrun).sctpMap (sampleName 1)
  rw [Option.isNone_iff_eq_none.mp hkey.2] at hsame
  rw [hsame] at hkey
  exact absurd hkey.1 (by simp)

/-! ## Accepted requests -/

/-- The transaction id of an error indication of `n` is compared with `t`: it is found exactly where
an information element carries `t`. -/
def MatchedAgainst (w : World) (n : Name) (t : Int) : Prop :=
  ∀ e, w.connectionHandlingPerE2NodeMap.lookup n = some e → ∀ ies,
    (scanErrorIndication e.e2SetupProcedureTransactionId ies).1.transactionId = true ↔
      ∃ ie ∈ ies, ie.id = idTransactionID ∧ ie.value = .transactionID t

theorem scanErrorIndicationIE_transactionId (tid : Int) (acc : RequiredIes × Int)
    (ie : ProtocolIE ErrorIndicationIEs) :
    (scanErrorIndicationIE tid acc ie).1.transactionId = true ↔
      acc.1.transactionId = true ∨ (ie.id = idTransactionID ∧ ie.value = .transactionID tid) := by
  unfold scanErrorIndicationIE
  cases hv : ie.value with
  | transactionID t =>
    by_cases h : ie.id = idTransactionID ∧ tid = t
    · simp [h]
    · simp only [if_neg h, ErrorIndicationIEs.transactionID.injEq]
      refine (or_iff_left ?_).symm
      rintro ⟨hid, rfl⟩
      exact h ⟨hid, rfl⟩
  | ricRequestID r =>
    dsimp only
    split <;> simp
  | cause =>
    dsimp only
    split <;> simp
  | criticalityDiagnostics code =>
    cases code with
    | none => simp
    | some procedureCode =>
      dsimp only
      split <;> simp
  | other => simp

/-- The transaction id is found exactly where an information element carries the node's. -/
theorem scanErrorIndication_transactionId (tid : Int)
    (ies : List (ProtocolIE ErrorIndicationIEs)) :
    (scanErrorIndication tid ies).1.transactionId = true ↔
      ∃ ie ∈ ies, ie.id = idTransactionID ∧ ie.value = .transactionID tid := by
  have hfold : ∀ (ies : List (ProtocolIE ErrorIndicationIEs)) (acc : RequiredIes × Int),
      (ies.foldl (scanErrorIndicationIE tid) acc).1.transactionId = true ↔
        acc.1.transactionId = true ∨
          ∃ ie ∈ ies, ie.id = idTransactionID ∧ ie.value = .transactionID tid := by
    intro ies
    induction ies with
    | nil => simp
    | cons ie rest ih =>
      intro acc
      rw [List.foldl_cons, ih, scanErrorIndicationIE_transactionId, List.exists_mem_cons_iff,
        or_assoc]
  unfold scanErrorIndication
  rw [hfold]
  simp

/-- Of two transaction ids an error indication can tell one from the other. -/
theorem matchedAgainst_iff {w : World} {n : Name} {t : Int} {e : E2NodeConnectionHandling}
    (he : w.connectionHandlingPerE2NodeMap.lookup n = some e) :
    MatchedAgainst w n t ↔ e.e2SetupProcedureTransactionId = t := by
  constructor
  · intro h
    have hone := (h e he [⟨idTransactionID, .transactionID t⟩]).mpr
      ⟨_, List.mem_singleton_self _, rfl, rfl⟩
    obtain ⟨ie, hie, -, hv⟩ := (scanErrorIndication_transactionId _ _).mp hone
    rw [List.mem_singleton.mp hie] at hv
    exact (ErrorIndicationIEs.transactionID.inj hv).symm
  · rintro rfl e' he' ies
    rw [he] at he'
    cases he'
    exact scanErrorIndication_transactionId _ ies

/-- An accepted request of a node leaves an entry with the status of a setup in progress and its
transaction id, and a later error indication is matched against that id, exactly when the node had
no entry or one with this id. -/
theorem accepted_entry_iff {w w₁ : World} (message : ReportingMessages) (m : SctpMsg)
    {ies : List (ProtocolIE E2setupRequestIEs)} {t : Int} {name : NameBuf}
    (hret : collectSetupRequestData message ies w = .ok (t, name) w₁) (ht : 0 ≤ t) :
    ∃ w', e2setup message m ies w = .ok () w' ∧
      (w'.connectionHandlingPerE2NodeMap.lookup name.str = some ⟨.e2SetupProcedureOngoing, t⟩ ↔
        ∀ e, w.connectionHandlingPerE2NodeMap.lookup name.str = some e →
          e.e2SetupProcedureTransactionId = t) ∧
      (MatchedAgainst w' name.str t ↔
        ∀ e, w.connectionHandlingPerE2NodeMap.lookup name.str = some e →
          e.e2SetupProcedureTransactionId = t) := by
  obtain ⟨cu, s, hc, hs, rfl, rfl⟩ := scan_of_collect hret
  obtain ⟨w', hrun, hset, -⟩ := e2setup_ok message hc m hs
  have hentry := hset.procedures s.message.str
  have hacc : s.accepted := ht
  rw [if_pos hacc, E2NodeMap.lookup_insertE2SetupProcedureOngoing, if_pos rfl] at hentry
  refine ⟨w', hrun, ?_⟩
  rw [matchedAgainst_iff hentry, hentry, Option.some.injEq, E2NodeConnectionHandling.mk.injEq]
  cases w.connectionHandlingPerE2NodeMap.lookup s.message.str with
  | none => simp
  | some e => simp

/-- The request of a new node. -/
theorem accepted_entry_iff_new :
    ∃ (w w' : World) (name : NameBuf) (t : Int), 0 ≤ t ∧
      e2setup (messageOf w 0) (sampleSctpMsg (sampleSetup 1))
        (⟨idTransactionID, .transactionID 1⟩ :: sampleIEs 1) w = .ok () w' ∧
      (w'.connectionHandlingPerE2NodeMap.lookup name.str = some ⟨.e2SetupProcedureOngoing, t⟩ ↔
        ∀ e, w.connectionHandlingPerE2NodeMap.lookup name.str = some e →
          e.e2SetupProcedureTransactionId = t) ∧
      (MatchedAgainst w' name.str t ↔
        ∀ e, w.connectionHandlingPerE2NodeMap.lookup name.str = some e →
          e.e2SetupProcedureTransactionId = t) := by
  obtain ⟨h, w, r, p, w₁, hret, ht⟩ := sampleRun_of_any
    [.accept sampleRequest]
    (fun p => Returned (fun r _ => 0 ≤ r.1) (collectSetupRequestData (messageOf p.2 0)
      (⟨idTransactionID, .transactionID 1⟩ :: sampleIEs 1) p.2)) (by decide +kernel)
  obtain ⟨w', hrun, hentry⟩ :=
    accepted_entry_iff (messageOf w 0) (sampleSctpMsg (sampleSetup 1)) hret ht
  exact ⟨w, w', p.2, p.1, ht, hrun, hentry⟩

/-- A node sets up with the transaction id 1, and again with 2: the first one stays on record. -/
theorem second_transaction_id_lost :
    ¬ ∀ (w w₁ w' : World) (message : ReportingMessages) (m : SctpMsg) ies t name,
      collectSetupRequestData message ies w = .ok (t, name) w₁ → 0 ≤ t →
      e2setup message m ies w = .ok () w' →
      w'.connectionHandlingPerE2NodeMap.lookup name.str =
        some ⟨.e2SetupProcedureOngoing, t⟩ := by
  intro hall
  obtain ⟨h, w, r, ⟨⟨t, name⟩, w₁, hret, htid, hname⟩, _, w', hrun, hlost⟩ := sampleRun_of_any
    [.accept sampleRequest, sampleRead 0 (sampleSetup 1)]
    (fun p => Returned (fun r _ => r.1 = 2 ∧ r.2.str = sampleName 1)
        (collectSetupRequestData (messageOf p.2 0)
          (⟨idTransactionID, .transactionID 2⟩ :: sampleIEs 1) p.2) ∧
      Returned (fun _ w' => w'.connectionHandlingPerE2NodeMap.lookup (sampleName 1) =
          some ⟨.e2SetupProcedureOngoing, 1⟩)
        (e2setup (messageOf p.2 0) (sampleSctpMsg (sampleSetup 1))
          (⟨idTransactionID, .transactionID 2⟩ :: sampleIEs 1) p.2))
    (by decide +kernel)
  change t = 2 at htid
  change name.str = sampleName 1 at hname
  subst htid
  have hentry := hall w w₁ w' _ _ _ 2 name hret (by decide) hrun
  rw [hname, hlost] at hentry
  exact absurd hentry (by decide)

end E2Term
