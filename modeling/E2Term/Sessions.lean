import E2Term.Invariants
import E2Term.Lib.Directory

/-!
# The connections as a directory

`sctpMap` and the names of the live connections form a directory of sessions, and every action is
one of its operations. Whether a key leads to a live connection with that name is then a question
about directories.
-/

namespace E2Term

open CString Effect Runs

/-- The directory of a state. -/
def World.directory (w : World) : Directory Name ConnId where
  label := w.nameOf
  entry k := w.sctpMap.lookup k

section Refinement

variable {w w' : World} {c : ConnId} {cu : ConnectedCU}

theorem isSome_nameOf (w : World) (c : ConnId) : (w.nameOf c).isSome ↔ (w.heap.get c).isSome := by
  unfold World.nameOf
  rw [Option.isSome_map]

theorem Touches.directory {n : Name} {writes : E2TProcedureStates → Prop} {sends : Output → Prop}
    (h : Touches n writes sends w w') : w'.directory = w.directory := by
  unfold World.directory World.nameOf
  rw [h.heap, h.sctpMap]

theorem directory_add (w : World) (request : ConnectionRequest) :
    (w.add request).directory = w.directory.join w.heap.next [] := by
  unfold World.directory Directory.join
  congr 1
  funext i
  have hget : (w.add request).heap.get i =
      if i = w.heap.next then some (.new request.hostName request.portNumber)
      else w.heap.get i := CellHeap.get_alloc _ i _
  by_cases hi : i = w.heap.next
  · rw [hi, Function.update_self]
    rw [if_pos hi, hi] at hget
    rw [nameOf_of_get hget]
    simp [ConnectedCU.new]
  · rw [Function.update_of_ne hi]
    rw [if_neg hi] at hget
    unfold World.nameOf
    rw [hget]

theorem SetUp.directory {s : SetupScan} (h : SetUp c cu s w w') :
    w'.directory = w.directory.relabel c s.peer.str (· ∈ s.keys) := by
  unfold World.directory Directory.relabel
  congr 1
  · funext i
    by_cases hi : i = c
    · rw [hi, Function.update_self, h.nameOf]
    · rw [Function.update_of_ne hi]
      unfold World.nameOf
      rw [h.others i hi]
  · funext k
    rw [h.sctpMap, lookup_registerKeys]

theorem Closed.directory (h : Closed c cu w w') :
    w'.directory = w.directory.leave c (fun k => k = hostKey cu ∨ k = cu.enodbName.str) := by
  unfold World.directory Directory.leave
  congr 1
  · funext i
    unfold World.nameOf
    rw [h.heap]
    by_cases hi : i = c
    · rw [if_pos hi, hi, Function.update_self]
      rfl
    · rw [if_neg hi, Function.update_of_ne hi]
  · funext k
    exact h.sctpMap k

end Refinement

/-! ## Keys and names agree -/

/-- Every key of `sctpMap` that is no `host:` or `msg:` key stands for an open connection with that
name, so no two of them share one. -/
structure Faithful (w : World) : Prop where
  live : ∀ k c, isInternalKey k = false → w.sctpMap.lookup k = some c →
    (w.heap.get c).isSome ∧ (w.fds c).isSome
  named : ∀ k c, isInternalKey k = false → w.sctpMap.lookup k = some c → w.nameOf c = some k
  unshared : ∀ k k' c, isInternalKey k = false → isInternalKey k' = false →
    w.sctpMap.lookup k = some c → w.sctpMap.lookup k' = some c → k = k'

/-- In a reachable state, faithfulness is the consistency of the directory. -/
theorem Sane.faithful_iff {w : World} (h : Sane w) : Faithful w ↔ w.directory.Consistent := by
  constructor
  · intro hf k c hk
    exact hf.named k c (isInternalKey_of_ranName (h.keys k c hk)) hk
  · intro hc
    constructor
    case live =>
      intro k c _ hk
      have hlive : (w.heap.get c).isSome := by
        rw [← isSome_nameOf]
        exact Option.isSome_iff_exists.mpr ⟨k, hc k c hk⟩
      exact ⟨hlive, h.liveOpen c hlive⟩
    case named => exact fun k c _ hk => hc k c hk
    case unshared => exact fun k k' c _ _ hk hk' => hc.injective hk hk'

/-- The setup request an action handles, if any, leaves its connection no key but the RAN name of
the request: copied over the old name, each name it builds reads as that one, and the connection
has no other key. -/
def NamesKept (w : World) (a : Action) : Prop :=
  ∀ c cu s, setupOf w a = some (c, cu, s) →
    cu.enodbName.ReadsAs (ranNamesOf a) (ranNameOf a) ∧
      ∀ k, w.sctpMap.lookup k = some c → k = ranNameOf a

/-- A step from a faithful state leads to one exactly when it keeps the names. -/
theorem Does.consistent_iff {w w' : World} {a : Action} (hd : Does w a w')
    (hc : w.directory.Consistent) : w'.directory.Consistent ↔ NamesKept w a := by
  cases hso : setupOf w a with
  | some p =>
    obtain ⟨c, cu, s⟩ := p
    rw [(hd.setUp hso).directory, hc.relabel_iff, (setupOf_from hso).keys_eq_iff, setupOf_peer hso]
    constructor
    · intro h c' cu' s' h'
      rw [hso] at h'
      cases h'
      exact h
    · intro h
      exact h c cu s hso
  | none =>
    have hkept : NamesKept w a := fun c cu s h => by rw [hso] at h; cases h
    refine iff_of_true ?_ hkept
    cases hd with
    | accepted _ =>
      rw [directory_add]
      refine hc.join ?_ _
      show w.nameOf w.heap.next = none
      unfold World.nameOf
      rw [CellHeap.get_next]
      rfl
    | refused _ | nothing => exact hc
    | setup hpdu hies hget hscan _ =>
      rw [setupOf_setup hpdu hies hget hscan] at hso
      cases hso
    | served _ _ _ ht => rwa [ht.directory]
    | idle _ _ ht => rwa [ht.directory]
    | closed _ hget hcl | failed hget hcl =>
      rw [hcl.directory]
      refine hc.leave fun k hk => .inr ?_
      exact Option.some.inj (hk.symm.trans (nameOf_of_get hget))
    | delivered _ ht => rwa [ht.directory]
    | cleared _ hcl => exact Directory.consistent_of_empty hcl.sctpMap

/-- A run stays faithful exactly when every setup request in it keeps the names: its connection has
no key but the RAN name of the request. -/
theorem faithful_iff_namesKept {params : SctpParams} {h : List (Step World Action)} {w : World}
    (r : ListenerRun params h w) :
    ((∀ st ∈ h, Faithful st.pre) ∧ Faithful w) ↔ ∀ st ∈ h, NamesKept st.pre st.act := by
  have hpre : ∀ st ∈ h, (Faithful st.pre ↔ st.pre.directory.Consistent) :=
    fun st hst => (does_of_mem r hst).1.faithful_iff
  rw [(sane_of_run r).faithful_iff, ← r.always_iff (fun w => w.directory.Consistent) NamesKept
    (Directory.consistent_of_empty fun _ => rfl) fun h s a s' r hstep hI =>
      ((sane_of_run r).does hstep).consistent_iff hI]
  exact and_congr_left' (forall₂_congr hpre)

/-- One node sets up, and sets up again under the same name. -/
theorem faithful_iff_namesKept_resetup :
    ∃ h w, ListenerRun sampleParams h w ∧ w.sctpMap.lookup (sampleName 1) = some 0 ∧
      (((∀ st ∈ h, Faithful st.pre) ∧ Faithful w) ↔ ∀ st ∈ h, NamesKept st.pre st.act) := by
  obtain ⟨h, w, r, hw⟩ := sampleRun_of_any
    [.accept sampleRequest, sampleRead 0 (sampleSetup 1), sampleRead 0 (sampleSetup 1)]
    (fun p => p.2.sctpMap.lookup (sampleName 1) = some 0) (by decide +kernel)
  exact ⟨h, w, r, hw, faithful_iff_namesKept r⟩

/-- A node that sets up under a second name and disconnects leaves its first name behind, for a
freed connection. -/
theorem not_always_faithful :
    ¬ ∀ params h w, ListenerRun params h w → Faithful w := by
  intro hall
  obtain ⟨h, w, r, hw⟩ := sampleRun_of_any
    [.accept sampleRequest, sampleRead 0 (sampleSetup 1), sampleRead 0 (sampleSetup 2),
      .read 0 (some (.eof .good))]
    (fun p => p.2.sctpMap.lookup (sampleName 1) = some 0 ∧ (p.2.heap.get 0).isNone)
    (by decide +kernel)
  have hlive := ((hall _ h w r).live (sampleName 1) 0 (by decide +kernel) hw.1).1
  rw [Option.isNone_iff_eq_none.mp hw.2] at hlive
  cases hlive

/-! ## A node that reconnects -/

/-- Between `w` and `w'` the connection `B` of the node `n` was left alone: `sctpMap` leads to it,
the procedure map keeps the node's entry, and no loss of the node was reported. -/
structure Undisturbed (n : Name) (B : ConnId) (w w' : World) : Prop where
  sctpMap : w'.sctpMap.lookup n = some B
  procedure : ∃ e, w.connectionHandlingPerE2NodeMap.lookup n = some e ∧
    w'.connectionHandlingPerE2NodeMap.lookup n = some e
  notReported : ∀ o ∈ w'.outbox.drop w.outbox.length, ¬ FailureReport n o

/-- A closed connection disturbs a node that reconnected exactly when it has the node's name. -/
theorem Closed.undisturbed_iff {w w' : World} {n : Name} {A B : ConnId} {cu : ConnectedCU}
    (hs : Sane w) (hmap : w.sctpMap.lookup n = some B)
    (hproc : (w.connectionHandlingPerE2NodeMap.lookup n).isSome) (hcl : Closed A cu w w') :
    Undisturbed n B w w' ↔ n ≠ cu.enodbName.str := by
  constructor
  · rintro ⟨hmap', -, -⟩ heq
    rw [hcl.sctpMap, if_pos (.inr heq)] at hmap'
    cases hmap'
  · intro hne
    have hhost := ne_hostKey_of_ranName (hs.keys n B hmap) cu
    obtain ⟨out, hout, hall⟩ := hcl.sent
    refine ⟨?_, ?_, ?_⟩
    · rw [hcl.sctpMap, if_neg (by simp [hne, hhost]), hmap]
    · obtain ⟨e, he⟩ := Option.isSome_iff_exists.mp hproc
      exact ⟨e, he, by rw [hcl.procedures, if_neg hne, he]⟩
    · rw [drop_outbox hout]
      intro o ho hn
      have hown := hall o ho
      cases o with
      | rmr msg sent => exact hne (hn.1.symm.trans hown.1)
      | rts _ _ => exact hn
      | sctp _ _ _ _ _ => exact hn

/-- The actions up to the moment when a node has reconnected: its first connection is still open. -/
def reconnect : List Action :=
  [.accept sampleRequest, sampleRead 0 (sampleSetup 1), .accept sampleRequest,
    sampleRead 1 (sampleSetup 1)]

end E2Term
