import E2Term.Sessions

/-!
# Procedures without a connection

The procedure map has an entry for every node that was set up; a connection's end drops the entry of
its name. The entries are active keys of the directory, which covers them as long as no setup
request, no end of a connection and no bulk clear leaves one behind.
-/

namespace E2Term

open CString Effect Runs

/-- A node with an entry in the procedure map. -/
def World.Active (w : World) (n : Name) : Prop :=
  (w.connectionHandlingPerE2NodeMap.lookup n).isSome

/-- A node with an entry has an open connection, and one without it starts from the beginning. -/
structure Attended (w : World) : Prop where
  connected : ∀ n, w.Active n →
    ∃ c, w.sctpMap.lookup n = some c ∧ (w.heap.get c).isSome ∧ (w.fds c).isSome
  fresh : ∀ n, (∀ c, w.sctpMap.lookup n = some c → w.heap.get c = none) →
    E2NodeMap.currentE2tProcedureOngoingStatus w.connectionHandlingPerE2NodeMap n =
      .e2SetupProcedureNotInitiated

/-- In a reachable state, the directory covers the nodes with an entry exactly when they are
attended. -/
theorem Sane.attended_iff {w : World} (h : Sane w) : Attended w ↔ w.directory.Covers w.Active := by
  constructor
  · intro ha n hn
    obtain ⟨c, hl, hlive, -⟩ := ha.connected n hn
    exact ⟨c, hl, (isSome_nameOf w c).mpr hlive⟩
  · intro hc
    have hlive : ∀ n, w.Active n → ∃ c, w.sctpMap.lookup n = some c ∧ (w.heap.get c).isSome := by
      intro n hn
      obtain ⟨c, hl, hname⟩ := hc n hn
      exact ⟨c, hl, (isSome_nameOf w c).mp hname⟩
    constructor
    case connected =>
      intro n hn
      obtain ⟨c, hl, hcell⟩ := hlive n hn
      exact ⟨c, hl, hcell, h.liveOpen c hcell⟩
    case fresh =>
      intro n hno
      have hnone : w.connectionHandlingPerE2NodeMap.lookup n = none := by
        by_contra hsome
        obtain ⟨c, hl, hcell⟩ := hlive n (Option.isSome_iff_ne_none.mpr hsome)
        rw [hno c hl] at hcell
        cases hcell
      unfold E2NodeMap.currentE2tProcedureOngoingStatus
      rw [hnone]

/-! ## One step -/

/-- The action leaves no procedure behind: an accepted setup request carries an identity, or its
connection's old name leads to a live connection; a connection that is closed is the one of no node
but the one it is named after; a bulk clear finds no procedure. -/
structure ProceduresKept (w : World) (a : Action) : Prop where
  setup : ∀ c cu s, setupOf w a = some (c, cu, s) → s.accepted →
    ranNamesOf a ≠ [] ∨ ∃ i, w.sctpMap.lookup cu.enodbName.str = some i ∧ (w.heap.get i).isSome
  close : ∀ c, closes a = some c → ∀ n, w.Active n → w.sctpMap.lookup n = some c →
    w.nameOf c = some n
  clear : ∀ m, a = .rmr (some m) → m.clears → ∀ n, ¬ w.Active n

section Steps

variable {w w' : World} {a : Action} {c : ConnId} {cu : ConnectedCU}

theorem ProceduresKept.of_other (hso : setupOf w a = none) (hcl : closes a = none)
    (hm : ∀ m, a = .rmr (some m) → ¬ m.clears) : ProceduresKept w a where
  setup c cu s h := by
    rw [hso] at h
    cases h
  close c h := by
    rw [hcl] at h
    cases h
  clear m ha hclears := (hm m ha hclears).elim

theorem proceduresKept_setup_iff {s : SetupScan} (hso : setupOf w a = some (c, cu, s)) :
    ProceduresKept w a ↔ (s.accepted → ranNamesOf a ≠ [] ∨
      ∃ i, w.sctpMap.lookup cu.enodbName.str = some i ∧ (w.heap.get i).isSome) := by
  constructor
  · exact fun h hacc => h.setup c cu s hso hacc
  · intro hok
    obtain ⟨m, -, -, rfl, -⟩ := setupOf_eq_some hso
    refine ⟨fun c' cu' s' h hacc => ?_, fun c' h => (by cases h), fun m' h => (by cases h)⟩
    rw [hso] at h
    cases h
    exact hok hacc

theorem proceduresKept_close_iff (hso : setupOf w a = none) (hcl : closes a = some c) :
    ProceduresKept w a ↔
      ∀ n, w.Active n → w.sctpMap.lookup n = some c → w.nameOf c = some n := by
  constructor
  · exact fun h => h.close c hcl
  · intro hown
    refine ⟨fun c' cu' s' h => ?_, fun c' h => ?_, fun m h => ?_⟩
    · rw [hso] at h
      cases h
    · rw [hcl] at h
      cases h
      exact hown
    · rw [h] at hcl
      cases hcl

theorem Touches.active_iff {n : Name} {writes : E2TProcedureStates → Prop} {sends : Output → Prop}
    (h : Touches n writes sends w w') (k : Name) : w'.Active k ↔ w.Active k := by
  unfold World.Active
  rw [h.isSome_lookup]

/-- An accepted request makes its node active. -/
theorem SetUp.active_iff {s : SetupScan} (h : SetUp c cu s w w') (n : Name) :
    w'.Active n ↔ (s.accepted ∧ n = s.message.str) ∨ w.Active n := by
  unfold World.Active
  rw [h.procedures]
  by_cases hacc : s.accepted
  · rw [if_pos hacc, E2NodeMap.lookup_insertE2SetupProcedureOngoing]
    by_cases hn : n = s.message.str
    · simp [hacc, hn]
    · simp [hn]
  · simp [hacc]

theorem Closed.active_iff (h : Closed c cu w w') (n : Name) :
    w'.Active n ↔ n ≠ cu.enodbName.str ∧ w.Active n := by
  unfold World.Active
  rw [h.procedures]
  by_cases hn : n = cu.enodbName.str
  · simp [hn]
  · simp [hn]

theorem SetUp.covers_iff {s : SetupScan} (h : SetUp c cu s w w') (hc : w.heap.get c = some cu)
    (hso : setupOf w a = some (c, cu, s)) (hcov : w.directory.Covers w.Active) :
    w'.directory.Covers w'.Active ↔ ProceduresKept w a := by
  have hfrom := setupOf_from hso
  have hnew := hcov.relabel (i := c) (k := s.peer.str) (· ∈ s.keys)
  -- without an identity the request goes under the old name, and registers nothing
  have hunnamed :
      ranNamesOf a = [] → s.message.str = cu.enodbName.str ∧ s.message.str ∉ s.keys := by
    intro hnone
    refine ⟨by rw [hfrom.message, hnone]; rfl, ?_⟩
    rw [hfrom.keys_eq_nil_iff.mpr hnone]
    exact List.not_mem_nil
  rw [h.directory, proceduresKept_setup_iff hso]
  constructor
  · intro hcov' hacc
    by_cases hnames : ranNamesOf a = []
    · obtain ⟨hmsg, hno⟩ := hunnamed hnames
      obtain ⟨i, hi, hlabel⟩ := hcov' s.message.str ((h.active_iff _).mpr (.inl ⟨hacc, rfl⟩))
      have hl : w.sctpMap.lookup cu.enodbName.str = some i := by
        rw [← hmsg]
        exact (if_neg hno).symm.trans hi
      refine .inr ⟨i, hl, ?_⟩
      by_cases hic : i = c
      · rw [hic, hc]
        rfl
      · change (Function.update w.nameOf c _ i).isSome at hlabel
        rw [Function.update_of_ne hic] at hlabel
        exact (isSome_nameOf w i).mp hlabel
    · exact .inl hnames
  · intro hok n hn
    rcases (h.active_iff n).mp hn with ⟨hacc, rfl⟩ | hold
    · by_cases hnames : ranNamesOf a = []
      · obtain ⟨hmsg, hno⟩ := hunnamed hnames
        obtain ⟨i, hl, hlive⟩ := (hok hacc).resolve_left fun hne => hne hnames
        refine ⟨i, (if_neg hno).trans (by rw [hmsg]; exact hl), ?_⟩
        exact Directory.isSome_update ((isSome_nameOf w i).mpr hlive)
      · refine ⟨c, if_pos (hfrom.message_mem_keys hnames), ?_⟩
        show (Function.update w.nameOf c _ c).isSome
        rw [Function.update_self]
        rfl
    · exact hnew n hold

theorem Closed.covers_iff (hs : Sane w) (h : Closed c cu w w') (hc : w.heap.get c = some cu)
    (hcov : w.directory.Covers w.Active) :
    w'.directory.Covers w'.Active ↔
      ∀ n, w.Active n → w.sctpMap.lookup n = some c → w.nameOf c = some n := by
  have hcov' : w.directory.Covers w'.Active := fun n hn => hcov n ((h.active_iff n).mp hn).2
  rw [h.directory, hcov'.leave_iff]
  constructor
  · intro hleave n hn hl
    by_contra hne
    have hname : n ≠ cu.enodbName.str := by
      rintro rfl
      exact hne (nameOf_of_get hc)
    exact (hleave n ((h.active_iff n).mpr ⟨hname, hn⟩)).2 hl
  · intro hown n hn
    obtain ⟨hname, hactive⟩ := (h.active_iff n).mp hn
    obtain ⟨i, hi, -⟩ := hcov n hactive
    refine ⟨?_, fun hl => ?_⟩
    · rintro (rfl | rfl)
      · exact ne_hostKey_of_ranName (hs.keys _ i hi) cu rfl
      · exact hname rfl
    · have hcn := hown n hactive hl
      rw [nameOf_of_get hc] at hcn
      exact hname (Option.some.inj hcn).symm

/-- A step from a state whose nodes are attended leads to one exactly when it keeps them. -/
theorem Does.covers_iff (hs : Sane w) (hd : Does w a w') (hcov : w.directory.Covers w.Active) :
    w'.directory.Covers w'.Active ↔ ProceduresKept w a := by
  have htouch {n : Name} {writes : E2TProcedureStates → Prop} {sends : Output → Prop}
      (ht : Touches n writes sends w w') : w'.directory.Covers w'.Active := by
    rw [ht.directory]
    exact fun k hk => hcov k ((ht.active_iff k).mp hk)
  cases hd with
  | accepted _ =>
    refine iff_of_true ?_ (.of_other rfl rfl fun m h => (by cases h))
    rw [directory_add]
    exact hcov.join _ _
  | refused _ => exact iff_of_true hcov (.of_other rfl rfl fun m h => (by cases h))
  | nothing => exact iff_of_true hcov (.of_other rfl rfl fun m h => (by cases h))
  | setup hpdu hies hc hscan hset =>
    exact hset.covers_iff hc (setupOf_setup hpdu hies hc hscan) hcov
  | served hpdu hies _ ht =>
    exact iff_of_true (htouch ht) (.of_other (setupOf_served hpdu hies) rfl
      fun m h => (by cases h))
  | idle hidle _ ht =>
    exact iff_of_true (htouch ht) (.of_other (setupOf_idle hidle) (closes_idle hidle)
      fun m h => (by cases h))
  | closed hclosing hc hcl =>
    rw [hcl.covers_iff hs hc hcov,
      proceduresKept_close_iff (setupOf_closing hclosing) (closes_closing hclosing)]
  | failed hc hcl =>
    rw [hcl.covers_iff hs hc hcov, proceduresKept_close_iff rfl rfl]
  | delivered hm ht =>
    refine iff_of_true (htouch ht) (.of_other rfl rfl fun m h => ?_)
    cases h
    exact hm
  | @cleared m _ hm hcl =>
    have hactive : ∀ n, w'.Active n ↔ w.Active n := by
      intro n
      unfold World.Active
      rw [hcl.procedures]
    have hempty : w'.directory.Covers w'.Active ↔ ∀ n, ¬ w'.Active n :=
      Directory.covers_of_empty_iff hcl.sctpMap
    rw [hempty]
    simp only [hactive]
    constructor
    · exact fun hno => ⟨fun c cu s h => (by cases h), fun c h => (by cases h),
        fun _ _ _ => hno⟩
    · exact fun hk => hk.clear m rfl hm

end Steps

/-- A run keeps every node with a procedure attended exactly when each of its steps keeps the
procedures. -/
theorem attended_iff_proceduresKept {params : SctpParams} {h : List (Step World Action)} {w : World}
    (r : ListenerRun params h w) :
    ((∀ st ∈ h, Attended st.pre) ∧ Attended w) ↔ ∀ st ∈ h, ProceduresKept st.pre st.act := by
  have hpre : ∀ st ∈ h, (Attended st.pre ↔ st.pre.directory.Covers st.pre.Active) :=
    fun st hst => (does_of_mem r hst).1.attended_iff
  rw [(sane_of_run r).attended_iff, ← r.always_iff (fun w => w.directory.Covers w.Active)
    ProceduresKept (fun n hn => by cases hn) fun h s a s' r hstep hI =>
      ((sane_of_run r).does hstep).covers_iff (sane_of_run r) hI]
  exact and_congr_left' (forall₂_congr hpre)

/-- A node sets up twice, disconnects, and sets up on a new connection. -/
theorem attended_iff_proceduresKept_reconnected :
    ∃ h w, ListenerRun sampleParams h w ∧ w.sctpMap.lookup (sampleName 1) = some 1 ∧
      (((∀ st ∈ h, Attended st.pre) ∧ Attended w) ↔ ∀ st ∈ h, ProceduresKept st.pre st.act) := by
  obtain ⟨h, w, r, hw⟩ := sampleRun_of_any
    [.accept sampleRequest, sampleRead 0 (sampleSetup 1), sampleRead 0 (sampleSetup 1),
      .read 0 (some (.eof .good)), .accept sampleRequest, sampleRead 1 (sampleSetup 1)]
    (fun p => p.2.sctpMap.lookup (sampleName 1) = some 1) (by decide +kernel)
  exact ⟨h, w, r, hw, attended_iff_proceduresKept r⟩

/-- A bulk clear leaves the procedure of a node that was set up. -/
theorem cleared_node_unattended :
    ¬ ∀ params h w, ListenerRun params h w → Attended w := by
  intro hall
  obtain ⟨h, w, r, hw⟩ := sampleRun_of_any
    [.accept sampleRequest, sampleRead 0 (sampleSetup 1), sampleRmr .ricSctpClearAll []]
    (fun p => (p.2.connectionHandlingPerE2NodeMap.lookup (sampleName 1)).isSome ∧
      p.2.sctpMap.lookup (sampleName 1) = none) (by decide +kernel)
  obtain ⟨c, hl, -⟩ := (hall _ h w r).connected (sampleName 1) hw.1
  rw [hw.2] at hl
  cases hl

end E2Term
