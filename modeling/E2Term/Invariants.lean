import E2Term.Machine

/-!
# What holds in every reachable state

Whatever the nodes and the RIC do: a connection is alive exactly as long as its descriptor is open,
epoll watches it for input only, it is never marked as connected, and every name and every key is
the name of a node.
-/

namespace E2Term

open CString Effect Runs

/-- The invariant of all runs. -/
structure Sane (w : World) : Prop where
  neverConnected : NeverConnected w
  open_iff : ∀ c, (w.fds c).isSome ↔ (w.heap.get c).isSome
  inputOnly : ∀ c flags, w.fds c = some flags → flags.epollout = false
  names : ∀ c cu, w.heap.get c = some cu → RanBuf cu.enodbName
  keys : ∀ k c, w.sctpMap.lookup k = some c → RanName k
  allocated : ∀ k c, w.sctpMap.lookup k = some c → c < w.heap.next

theorem Sane.liveOpen {w : World} (h : Sane w) : LiveOpen w := fun c => (h.open_iff c).mpr

theorem sane_init (params : SctpParams) : Sane (World.init params) where
  neverConnected c cu h := by cases h
  open_iff c := Iff.rfl
  inputOnly c flags h := by cases h
  names c cu h := by cases h
  keys k c h := by cases h
  allocated k c h := by cases h

section Steps

variable {w w' : World} {c : ConnId} {cu : ConnectedCU}

theorem Sane.of_touches {n : Name} {writes : E2TProcedureStates → Prop} {sends : Output → Prop}
    (h : Sane w) (ht : Touches n writes sends w w') : Sane w' where
  neverConnected := by
    unfold NeverConnected
    rw [ht.heap]
    exact h.neverConnected
  open_iff := by
    rw [ht.heap, ht.fds]
    exact h.open_iff
  inputOnly := by
    rw [ht.fds]
    exact h.inputOnly
  names := by
    rw [ht.heap]
    exact h.names
  keys := by
    rw [ht.sctpMap]
    exact h.keys
  allocated := by
    rw [ht.heap, ht.sctpMap]
    exact h.allocated

theorem Sane.add (h : Sane w) (request : ConnectionRequest) : Sane (w.add request) := by
  have hget : ∀ i, (w.add request).heap.get i =
      if i = w.heap.next then some (.new request.hostName request.portNumber)
      else w.heap.get i := fun i => CellHeap.get_alloc _ i _
  have hfds : ∀ i, (w.add request).fds i =
      if i = w.heap.next then some ⟨true, false, false, false⟩ else w.fds i := fun _ => rfl
  constructor
  case neverConnected =>
    intro i cu hi
    rw [hget] at hi
    split at hi
    · cases hi
      rfl
    · exact h.neverConnected i cu hi
  case open_iff =>
    intro i
    rw [hget, hfds]
    split
    · simp
    · exact h.open_iff i
  case inputOnly =>
    intro i flags hi
    rw [hfds] at hi
    split at hi
    · cases hi
      rfl
    · exact h.inputOnly i flags hi
  case names =>
    intro i cu hi
    rw [hget] at hi
    split at hi
    · cases hi
      exact ranBuf_zeros
    · exact h.names i cu hi
  case keys => exact h.keys
  case allocated =>
    intro k i hi
    exact Nat.lt_succ_of_lt (h.allocated k i hi)

theorem Sane.setUp {s : SetupScan} {ies : List (ProtocolIE E2setupRequestIEs)} (h : Sane w)
    (hc : w.heap.get c = some cu) (hs : scanSetup cu.enodbName ies = some s)
    (hset : SetUp c cu s w w') : Sane w' := by
  have hnamed := scanSetup_named (h.names c cu hc) hs
  obtain ⟨cu', hc', hname, hcon, -, -⟩ := hset.peer
  have hsome : ∀ i, (w'.heap.get i).isSome ↔ (w.heap.get i).isSome := by
    intro i
    by_cases hi : i = c
    · rw [hi, hc', hc]
      simp
    · rw [hset.others i hi]
  constructor
  case neverConnected =>
    intro i cu'' hi
    by_cases hic : i = c
    · rw [hic, hc'] at hi
      cases hi
      rw [hcon]
      exact h.neverConnected c cu hc
    · rw [hset.others i hic] at hi
      exact h.neverConnected i cu'' hi
  case open_iff =>
    intro i
    rw [hset.fds, hsome]
    exact h.open_iff i
  case inputOnly =>
    rw [hset.fds]
    exact h.inputOnly
  case names =>
    intro i cu'' hi
    by_cases hic : i = c
    · rw [hic, hc'] at hi
      cases hi
      rw [hname]
      exact hnamed.peer
    · rw [hset.others i hic] at hi
      exact h.names i cu'' hi
  case keys =>
    intro k i hi
    rw [hset.sctpMap, lookup_registerKeys] at hi
    split at hi
    · rename_i hk
      exact hnamed.keys k hk
    · exact h.keys k i hi
  case allocated =>
    intro k i hi
    rw [hset.sctpMap, lookup_registerKeys] at hi
    rw [hset.next]
    split at hi
    · cases hi
      exact w.heap.lt_next_of_isSome c (by rw [hc]; rfl)
    · exact h.allocated k i hi

theorem Sane.closed (h : Sane w) (hcl : Closed c cu w w') : Sane w' := by
  constructor
  case neverConnected =>
    intro i cu' hi
    rw [hcl.heap] at hi
    split at hi
    · cases hi
    · exact h.neverConnected i cu' hi
  case open_iff =>
    intro i
    rw [hcl.heap, hcl.fds]
    split
    · simp
    · exact h.open_iff i
  case inputOnly =>
    intro i flags hi
    rw [hcl.fds] at hi
    split at hi
    · cases hi
    · exact h.inputOnly i flags hi
  case names =>
    intro i cu' hi
    rw [hcl.heap] at hi
    split at hi
    · cases hi
    · exact h.names i cu' hi
  case keys =>
    intro k i hi
    rw [hcl.sctpMap] at hi
    split at hi
    · cases hi
    · exact h.keys k i hi
  case allocated =>
    intro k i hi
    rw [hcl.sctpMap] at hi
    rw [hcl.next]
    split at hi
    · cases hi
    · exact h.allocated k i hi

theorem Sane.cleared (h : Sane w) (hcl : Cleared w w') : Sane w' := by
  -- a connection is freed with its descriptor, or both stay
  have hcases : ∀ i, (w'.heap.get i = none ∧ w'.fds i = none) ∨
      (w'.heap.get i = w.heap.get i ∧ w'.fds i = w.fds i) := by
    intro i
    by_cases hi : ∃ k, isInternalKey k = false ∧ w.sctpMap.lookup k = some i
    · obtain ⟨k, hint, hl⟩ := hi
      exact .inl (hcl.freed i k hint hl)
    · exact .inr (hcl.kept i fun k hint hl => hi ⟨k, hint, hl⟩)
  constructor
  case neverConnected =>
    intro i cu' hi
    rcases hcases i with ⟨hnone, -⟩ | ⟨hsame, -⟩
    · rw [hnone] at hi
      cases hi
    · rw [hsame] at hi
      exact h.neverConnected i cu' hi
  case open_iff =>
    intro i
    rcases hcases i with ⟨hnone, hfd⟩ | ⟨hsame, hfd⟩
    · rw [hnone, hfd]
      simp
    · rw [hsame, hfd]
      exact h.open_iff i
  case inputOnly =>
    intro i flags hi
    rcases hcases i with ⟨-, hfd⟩ | ⟨-, hfd⟩
    · rw [hfd] at hi
      cases hi
    · rw [hfd] at hi
      exact h.inputOnly i flags hi
  case names =>
    intro i cu' hi
    rcases hcases i with ⟨hnone, -⟩ | ⟨hsame, -⟩
    · rw [hnone] at hi
      cases hi
    · rw [hsame] at hi
      exact h.names i cu' hi
  case keys =>
    intro k i hi
    rw [hcl.sctpMap] at hi
    cases hi
  case allocated =>
    intro k i hi
    rw [hcl.sctpMap] at hi
    cases hi

/-- Every action keeps the invariant. -/
theorem Does.sane {a : Action} (h : Sane w) (hd : Does w a w') : Sane w' := by
  cases hd with
  | accepted _ => exact h.add _
  | refused _ => exact h
  | setup _ _ hc hs hset => exact h.setUp hc hs hset
  | served _ _ _ ht => exact h.of_touches ht
  | idle _ _ ht => exact h.of_touches ht
  | closed _ _ hcl => exact h.closed hcl
  | failed _ hcl => exact h.closed hcl
  | nothing => exact h
  | delivered _ ht => exact h.of_touches ht
  | cleared _ hcl => exact h.cleared hcl

end Steps

/-- A step of a run does one of the things its action can do. -/
theorem Sane.does {w w' : World} {a : Action} (h : Sane w) (hrun : a.run w = .ok () w') :
    Does w a w' :=
  Action.does h.neverConnected h.liveOpen hrun

/-- Every reachable state is sane. -/
theorem sane_of_run {params : SctpParams} {h : List (Step World Action)} {w : World}
    (r : ListenerRun params h w) : Sane w :=
  r.invariant Sane (sane_init params) fun _ _ _ hI hstep => (hI.does hstep).sane hI

/-- Every step of a run begins in a sane state and does what its action can do. -/
theorem does_of_mem {params : SctpParams} {h : List (Step World Action)} {w : World}
    (r : ListenerRun params h w) {st : Step World Action} (hst : st ∈ h) :
    Sane st.pre ∧ Does st.pre st.act st.post := by
  obtain ⟨before, after, heq⟩ := List.append_of_mem hst
  obtain ⟨r', hstep, -⟩ := r.split before st after heq
  have hsane := sane_of_run r'
  exact ⟨hsane, hsane.does hstep⟩

end E2Term
