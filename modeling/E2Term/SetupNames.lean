import E2Term.NodeNames
import E2Term.Registration

/-!
# The name of a setup request

The transaction id alone decides whether a setup request is accepted. The name that the request goes
by, as MEID and as key of both maps, is the connection's old one with the names of the nodes it
lists copied over it, without their terminators.
-/

namespace E2Term

open CString Effect

/-! ## The names of an accepted request -/

/-- In an accepted request every node gets a name. -/
theorem length_ranNames_of_accepted {s : SetupScan} (ies : List (ProtocolIE E2setupRequestIEs)) :
    ∀ {tid : Int} {message peer : NameBuf}, scanSetupIEs tid message peer ies = some s →
      s.accepted → (ranNames peer ies).length = (namedNodes ies).length := by
  induction ies generalizing s with
  | nil => exact fun _ _ => rfl
  | cons ie rest ih =>
    intro tid message peer hs hacc
    obtain ⟨id, value⟩ := ie
    cases value with
    | transactionID t =>
      unfold scanSetupIEs at hs
      dsimp only at hs
      split at hs
      · exact ih hs hacc
      · exact ih hs hacc
    | other => exact ih hs hacc
    | globalE2nodeID g =>
      unfold scanSetupIEs at hs
      dsimp only at hs
      split at hs
      case isFalse hid =>
        have hnodes : namedNodes (⟨id, .globalE2nodeID g⟩ :: rest) = namedNodes rest := by
          simp [namedNodes, hid]
        rw [hnodes]
        unfold ranNames
        dsimp only
        rw [if_neg hid]
        exact ih hs hacc
      case isTrue hid =>
        have hnodes : namedNodes (⟨id, .globalE2nodeID g⟩ :: rest) = g :: namedNodes rest := by
          simp [namedNodes, hid]
        rw [hnodes]
        unfold ranNames
        dsimp only
        rw [if_pos hid]
        cases hb : buildRanName peer g with
        | none =>
          rw [hb] at hs
          cases hs
        | some r =>
          obtain ⟨rc, ranName⟩ := r
          simp only [hb] at hs ⊢
          split at hs
          · cases hs
            exact absurd hacc (show ¬ (0 : Int) ≤ -1 by decide)
          · rename_i hrc
            obtain ⟨s', hs', rfl⟩ := Option.map_eq_some_iff.mp hs
            rw [if_neg hrc, List.length_cons, List.length_cons, ih hs' hacc]

/-- An accepted request that lists one node builds the name of that node, in the cleared buffer. -/
theorem ranNames_of_single {s : SetupScan} {ies : List (ProtocolIE E2setupRequestIEs)}
    {message : NameBuf} {g : GlobalE2nodeID} (hs : scanSetup message ies = some s)
    (hacc : s.accepted) (hone : namedNodes ies = [g]) :
    ∃ b, ranNames (Buf.zeros maxEnodbNameSize) ies = [b] ∧ b.Holds g.name := by
  have hlen := length_ranNames_of_accepted ies hs hacc
  rw [ranNames_eq, hone] at hlen ⊢
  unfold buildNames at hlen ⊢
  cases hbuild : buildRanName (Buf.zeros maxEnodbNameSize) g with
  | none =>
    rw [hbuild] at hlen
    cases hlen
  | some r =>
    obtain ⟨rc, b⟩ := r
    simp only [hbuild] at hlen ⊢
    split at hlen
    · cases hlen
    · rename_i hrc
      rw [if_neg hrc]
      exact ⟨b, rfl, buildRanName_holds hbuild⟩

/-- A name stays empty as long as nothing is printed. -/
theorem str_eq_nil_iff_of_build {peer b : NameBuf} {g : GlobalE2nodeID} {rc : Int}
    (hpeer : peer.str = []) (h : buildRanName peer g = some (rc, b)) :
    b.str = [] ↔ g.parts = none := by
  rw [buildRanName_eq] at h
  cases hp : g.parts with
  | none =>
    rw [hp] at h
    cases h
    exact iff_of_true hpeer rfl
  | some p =>
    rw [hp] at h
    obtain ⟨b', hb', heq⟩ := Option.map_eq_some_iff.mp h
    cases heq
    obtain ⟨x, hx, hhead⟩ := headed_build hb'
    refine iff_of_false (fun hnil => ?_) (Option.some_ne_none p)
    rw [Buf.str_eq_nil_iff, ← List.head?_eq_getElem?, hhead] at hnil
    exact ne_zero_of_mem_typeLetters hx (Option.some.inj hnil)

/-- All names are empty when there is nothing to print for any node. -/
theorem names_empty_iff (nodes : List GlobalE2nodeID) :
    ∀ peer : NameBuf, peer.str = [] → (buildNames peer nodes).length = nodes.length →
      ((∀ b ∈ buildNames peer nodes, b.str = []) ↔ ∀ g ∈ nodes, g.parts = none) := by
  induction nodes with
  | nil => simp [buildNames]
  | cons g rest ih =>
    intro peer hpeer hlen
    unfold buildNames at hlen ⊢
    cases hb : buildRanName peer g with
    | none =>
      rw [hb] at hlen
      cases hlen
    | some r =>
      obtain ⟨rc, ranName⟩ := r
      simp only [hb] at hlen ⊢
      split at hlen
      · cases hlen
      · rename_i hrc
        have hhead := str_eq_nil_iff_of_build hpeer hb
        rw [List.length_cons, List.length_cons, Nat.add_right_cancel_iff] at hlen
        rw [if_neg hrc, List.forall_mem_cons, List.forall_mem_cons, hhead]
        refine and_congr_right fun hparts => ih _ (hhead.mpr hparts) hlen

/-- The name for messages is empty when the old one was and nothing is printed. -/
theorem SetupScan.From.message_eq_nil_iff {s : SetupScan} {message peer : NameBuf}
    {names : List NameBuf} (h : s.From message peer names) :
    s.message.str = [] ↔ message.str = [] ∧ ∀ b ∈ names, b.str = [] := by
  rw [h.message, Buf.str_eq_nil_iff, Buf.copyAll_getElem_eq_zero_iff, ← Buf.str_eq_nil_iff]
  simp only [Nat.le_zero, List.length_eq_zero_iff]

section Accepted

variable {w w₁ : World} {ies : List (ProtocolIE E2setupRequestIEs)} {t : Int} {name : NameBuf}

/-- An accepted request goes by a name that is not empty and belongs to its connection exactly when
there was one or something is printed, and a node is listed or the old name belongs to the
connection. -/
theorem accepted_name_iff (message : ReportingMessages) (m : SctpMsg)
    (hret : collectSetupRequestData message ies w = .ok (t, name) w₁) (ht : 0 ≤ t) :
    ∃ w', e2setup message m ies w = .ok () w' ∧
      (name.str ≠ [] ∧ w'.sctpMap.lookup name.str = some message.peerInfo ↔
        (message.enodbName.str ≠ [] ∨ ∃ g ∈ namedNodes ies, g.parts ≠ none) ∧
        (namedNodes ies ≠ [] ∨
          w.sctpMap.lookup message.enodbName.str = some message.peerInfo)) := by
  obtain ⟨cu, s, hc, hs, rfl, rfl⟩ := scan_of_collect hret
  obtain ⟨w', hrun, hset, -⟩ := e2setup_ok message hc m hs
  have hfrom := scanSetupIEs_from ies hs
  have hlen := length_ranNames_of_accepted ies hs ht
  refine ⟨w', hrun, and_congr ?_ ?_⟩
  · have hempty := names_empty_iff (namedNodes ies) (Buf.zeros maxEnodbNameSize)
      Buf.holds_zeros.str_eq (by rw [← ranNames_eq, hlen])
    rw [ne_eq, hfrom.message_eq_nil_iff, ranNames_eq, hempty, not_and_or]
    simp only [not_forall, exists_prop, ne_eq]
  · have hnil : ranNames (Buf.zeros maxEnodbNameSize) ies = [] ↔ namedNodes ies = [] := by
      rw [← List.length_eq_zero_iff, hlen, List.length_eq_zero_iff]
    rw [hset.sctpMap, lookup_registerKeys]
    by_cases hnodes : namedNodes ies = []
    · have hkeys : s.keys = [] := hfrom.keys_eq_nil_iff.mpr (hnil.mpr hnodes)
      have hmessage : s.message = message.enodbName := by
        rw [hfrom.message, hnil.mpr hnodes]
        rfl
      rw [hkeys, if_neg List.not_mem_nil, hmessage, or_iff_right (not_not.mpr hnodes)]
    · have hmem := hfrom.message_mem_keys fun h => hnodes (hnil.mp h)
      rw [if_pos hmem]
      exact iff_of_true rfl (.inl hnodes)

/-- The request of a new node. -/
theorem accepted_name_iff_new :
    ∃ (w w' : World) (name : NameBuf),
      e2setup (messageOf w 0) (sampleSctpMsg (sampleSetup 1))
        (⟨idTransactionID, .transactionID 1⟩ :: sampleIEs 1) w = .ok () w' ∧
      (name.str ≠ [] ∧ w'.sctpMap.lookup name.str = some 0 ↔
        ((messageOf w 0).enodbName.str ≠ [] ∨
          ∃ g ∈ namedNodes (⟨idTransactionID, .transactionID 1⟩ :: sampleIEs 1), g.parts ≠ none) ∧
        (namedNodes (⟨idTransactionID, .transactionID 1⟩ :: sampleIEs 1) ≠ [] ∨
          w.sctpMap.lookup (messageOf w 0).enodbName.str = some 0)) := by
  obtain ⟨h, w, r, p, w₁, hret, ht⟩ := sampleRun_of_any
    [.accept sampleRequest]
    (fun p => Returned (fun r _ => 0 ≤ r.1) (collectSetupRequestData (messageOf p.2 0)
      (⟨idTransactionID, .transactionID 1⟩ :: sampleIEs 1) p.2)) (by decide +kernel)
  obtain ⟨w', hrun, hiff⟩ :=
    accepted_name_iff (messageOf w 0) (sampleSctpMsg (sampleSetup 1)) hret ht
  exact ⟨w, w', p.2, hrun, hiff⟩

/-- A new connection sends a transaction id and no node: it is recorded under the empty name. -/
theorem nameless_request_accepted :
    ¬ ∀ (w w₁ w' : World) (message : ReportingMessages) (m : SctpMsg) ies t name,
      collectSetupRequestData message ies w = .ok (t, name) w₁ → 0 ≤ t →
      e2setup message m ies w = .ok () w' →
      name.str ≠ [] ∧ w'.sctpMap.lookup name.str = some message.peerInfo := by
  intro hall
  obtain ⟨h, w, r, ⟨p, w₁, hret, ht, hempty⟩, _, w', hrun, -⟩ := sampleRun_of_any
    [.accept sampleRequest]
    (fun p => Returned (fun r _ => 0 ≤ r.1 ∧ r.2.str = []) (collectSetupRequestData
        (messageOf p.2 0) [⟨idTransactionID, .transactionID 1⟩] p.2) ∧
      Returned (fun _ _ => True) (e2setup (messageOf p.2 0) (sampleSctpMsg (sampleSetup 1))
        [⟨idTransactionID, .transactionID 1⟩] p.2)) (by decide +kernel)
  exact (hall w w₁ w' _ _ _ p.1 p.2 hret ht hrun).1 hempty

/-- What a setup request leaves under a name, it leaves under the name of its connection. -/
structure OwnName (c : ConnId) (name : NameBuf) (w w₁ w' : World) : Prop where
  equal : w₁.nameOf c = some name.str
  key : ∀ k, w'.sctpMap.lookup k ≠ w.sctpMap.lookup k → w'.nameOf c = some k
  procedure : ∀ k, w'.connectionHandlingPerE2NodeMap.lookup k ≠
    w.connectionHandlingPerE2NodeMap.lookup k → w'.nameOf c = some k
  meid : ∀ o ∈ w'.outbox.drop w.outbox.length, ∃ n, w'.nameOf c = some n ∧ Announcement n o

/-- What is registered and sent under the connection's name is its own. -/
theorem SetUp.ownName {c : ConnId} {cu : ConnectedCU} {s : SetupScan} {w₁ w' : World}
    (h : SetUp c cu s w w') (hequal : w₁.nameOf c = some s.message.str)
    (hpeer : s.peer.str = s.message.str) (hkeys : ∀ k ∈ s.keys, k = s.message.str)
    (hsent : ∃ out, w'.outbox = w.outbox ++ out ∧ ∀ o ∈ out, Announcement s.message.str o) :
    OwnName c s.message w w₁ w' where
  equal := hequal
  key k hk := by
    rw [h.sctpMap, lookup_registerKeys] at hk
    split at hk
    · rename_i hmem
      rw [h.nameOf, hpeer, hkeys k hmem]
    · exact absurd rfl hk
  procedure k hk := by
    rw [h.procedures] at hk
    split at hk
    · rw [E2NodeMap.lookup_insertE2SetupProcedureOngoing] at hk
      split at hk
      · rename_i heq
        rw [h.nameOf, hpeer, heq]
      · exact absurd rfl hk
    · exact absurd rfl hk
  meid o ho := by
    obtain ⟨out, hout, hall⟩ := hsent
    rw [hout, List.drop_left] at ho
    exact ⟨s.message.str, by rw [h.nameOf, hpeer], hall o ho⟩

/-- An accepted request that lists one node goes by the name of its connection exactly when the old
name has a NUL where the new one ends. -/
theorem own_name_iff (message : ReportingMessages) (m : SctpMsg)
    (hret : collectSetupRequestData message ies w = .ok (t, name) w₁) (ht : 0 ≤ t)
    {g : GlobalE2nodeID} (hone : namedNodes ies = [g]) :
    ∃ w', e2setup message m ies w = .ok () w' ∧
      (OwnName message.peerInfo name w w₁ w' ↔
        message.enodbName.bytes[g.name.length]? = some 0) := by
  obtain ⟨cu, s, hc, hs, rfl, rfl⟩ := scan_of_collect hret
  obtain ⟨w', hrun, hset, hsent⟩ := e2setup_ok message hc m hs
  have hfrom := scanSetupIEs_from ies hs
  obtain ⟨b, hnames, hb⟩ := ranNames_of_single hs ht hone
  have hpeer : s.peer.str = g.name := by
    rw [hfrom.peer, hnames, ← hb.str_eq]
    rfl
  have hown : s.message.str = s.peer.str ↔ message.enodbName.bytes[g.name.length]? = some 0 := by
    rw [hfrom.message_eq_iff Buf.holds_zeros.str_eq, hpeer, hnames, List.forall_mem_singleton,
      hb.str_eq, and_iff_left (Nat.le_refl _)]
  have hname : w₁.nameOf message.peerInfo = some s.peer.str := by
    rw [collectSetupRequestData_eq hc hs] at hret
    cases hret
    exact nameOf_of_get (register_get hc _ _)
  refine ⟨w', hrun, ?_⟩
  rw [← hown]
  constructor
  · intro h
    exact Option.some.inj (h.equal.symm.trans hname)
  · intro h
    -- the one key is the name for messages itself
    have hkeys : ∀ k ∈ s.keys, k = s.message.str := by
      rw [hfrom.keys, hfrom.message, hnames]
      simp [Buf.copies, Buf.copyAll]
    exact hset.ownName (by rw [hname, h]) h.symm hkeys hsent

end Accepted

/-- The request of a new node. -/
theorem own_name_iff_new :
    ∃ (w w₁ w' : World) (name : NameBuf),
      e2setup (messageOf w 0) (sampleSctpMsg (sampleSetup 1))
        (⟨idTransactionID, .transactionID 1⟩ :: sampleIEs 1) w = .ok () w' ∧
      (OwnName 0 name w w₁ w' ↔
        (messageOf w 0).enodbName.bytes[(sampleNode 1).name.length]? = some 0) := by
  obtain ⟨h, w, r, p, w₁, hret, ht⟩ := sampleRun_of_any
    [.accept sampleRequest]
    (fun p => Returned (fun r _ => 0 ≤ r.1) (collectSetupRequestData (messageOf p.2 0)
      (⟨idTransactionID, .transactionID 1⟩ :: sampleIEs 1) p.2)) (by decide +kernel)
  obtain ⟨w', hrun, hiff⟩ :=
    own_name_iff (messageOf w 0) (sampleSctpMsg (sampleSetup 1)) hret ht rfl
  exact ⟨w, w₁, w', p.2, hrun, hiff⟩

/-- The gNB of `sampleNode` with 32 bits. -/
def sampleLongNode : GlobalE2nodeID :=
  .gNB ⟨⟨0x02, 0xF8, 0x29⟩, some ⟨[0xAB, 0xCD, 0x01, 0x02], 0⟩, none, none⟩

/-- A gNB sets up with 32 bits and then with 24: the last two characters of the old name stay behind
the new one. -/
theorem shorter_name_keeps_tail :
    ¬ ∀ (w w₁ : World) (message : ReportingMessages) ies t name,
      collectSetupRequestData message ies w = .ok (t, name) w₁ → 0 ≤ t →
      (namedNodes ies).length = 1 → w₁.nameOf message.peerInfo = some name.str := by
  intro hall
  obtain ⟨h, w, r, p, w₁, hret, ht, hname⟩ := sampleRun_of_any
    [.accept sampleRequest, sampleRead 0 (.initiatingMessage (.e2setup
      [⟨idTransactionID, .transactionID 1⟩, ⟨idGlobalE2nodeID, .globalE2nodeID sampleLongNode⟩]))]
    (fun p => Returned (fun r w₁ => 0 ≤ r.1 ∧ w₁.nameOf 0 ≠ some r.2.str)
      (collectSetupRequestData (messageOf p.2 0)
        (⟨idTransactionID, .transactionID 1⟩ :: sampleIEs 1) p.2)) (by decide +kernel)
  exact hname (hall w w₁ _ _ p.1 p.2 hret ht rfl)

end E2Term
