import E2Term.Requests
import E2Term.Lib.Tally

/-!
# Counters of the instance and of its nodes

A counted message adds to a counter of its connection and to one of the instance. The ledger of a
direction and a procedure compares the instance counters with what the counters of all nodes add
up to; `Ledger d p a b` says how far apart they are.
-/

namespace E2Term

open CString Effect Runs

/-! ## Rows -/

def directions : List Direction := [.inIniti, .inSucc, .inUnSucc, .outIniti, .outSucc, .outUnSucc]

def procedures : List ProcedureCode :=
  [.e2setup, .errorIndication, .reset, .ricControl, .ricIndication, .ricServiceQuery,
    .ricServiceUpdate, .ricSubscription, .ricSubscriptionDelete, .e2nodeConfigurationUpdate,
    .e2connectionUpdate, .ricSubscriptionDeleteRequired]

/-- The rows of a table of counters. -/
def rows {α : Type} (table : Direction → ProcedureCode → Option α) :
    List ((Direction × ProcedureCode) × α) :=
  (directions.product procedures).filterMap fun q => (table q.1 q.2).map fun row => (q, row)

theorem mem_rows {α : Type} {table : Direction → ProcedureCode → Option α} {d : Direction}
    {p : ProcedureCode} {row : α} (h : table d p = some row) : ((d, p), row) ∈ rows table := by
  have hd : d ∈ directions := by cases d <;> decide
  have hp : p ∈ procedures := by cases p <;> decide
  exact List.mem_filterMap.mpr ⟨(d, p), List.mem_product.mpr ⟨hd, hp⟩, by rw [h]; rfl⟩

theorem row_injective {α : Type} (table : Direction → ProcedureCode → Option α)
    (hnodup : ((rows table).map (·.2)).Nodup) {d d' : Direction} {p p' : ProcedureCode} {row : α}
    (h : table d p = some row) (h' : table d' p' = some row) : (d, p) = (d', p') :=
  congrArg Prod.fst (List.inj_on_of_nodup_map hnodup (mem_rows h) (mem_rows h') rfl)

/-- No two rows of `buildPrometheusList` have one label. -/
theorem prometheusList_injective {d d' : Direction} {kind : CounterKind} {p p' : ProcedureCode}
    {row : Side × String} (h : prometheusList d kind p = some row)
    (h' : prometheusList d' kind p' = some row) : (d, p) = (d', p') := by
  refine row_injective (fun d p => prometheusList d kind p) ?_ h h'
  cases kind <;> decide +kernel

/-- No two rows of `buildE2TPrometheusCounters` have one title. -/
theorem e2tTitle_injective {d d' : Direction} {p p' : ProcedureCode} {title : String}
    (h : e2tTitle d p = some title) (h' : e2tTitle d' p' = some title) : (d, p) = (d', p') :=
  row_injective e2tTitle (by decide +kernel) h h'

/-- The label of a node's counter for a direction, a kind and a procedure. -/
def NodeLabel (d : Direction) (kind : CounterKind) (p : ProcedureCode) (l : Label) : Prop :=
  ∃ n side title, prometheusList d kind p = some (side, title) ∧ l = .node n side title kind

theorem NodeLabel.unique {d d' : Direction} {kind kind' : CounterKind} {p p' : ProcedureCode}
    {l : Label} (h : NodeLabel d kind p l) (h' : NodeLabel d' kind' p' l) :
    (d, p) = (d', p') ∧ kind = kind' := by
  obtain ⟨n, side, title, hrow, rfl⟩ := h
  obtain ⟨n', side', title', hrow', heq⟩ := h'
  cases heq
  exact ⟨prometheusList_injective hrow hrow', rfl⟩

theorem e2tCounters_unique {d d' : Direction} {kind kind' : CounterKind} {p p' : ProcedureCode}
    {l : Label} (h : e2tCounters d kind p = some l) (h' : e2tCounters d' kind' p' = some l) :
    (d, p) = (d', p') ∧ kind = kind' := by
  obtain ⟨title, ht, rfl⟩ := Option.map_eq_some_iff.mp h
  obtain ⟨title', ht', heq⟩ := Option.map_eq_some_iff.mp h'
  cases heq
  exact ⟨e2tTitle_injective ht ht', rfl⟩

/-- A counter of a node is none of the instance. -/
theorem NodeLabel.ne_e2t {d d' : Direction} {kind kind' : CounterKind} {p p' : ProcedureCode}
    {l : Label} (h : NodeLabel d kind p l) : e2tCounters d' kind' p' ≠ some l := by
  obtain ⟨n, side, title, -, rfl⟩ := h
  intro h'
  obtain ⟨title', -, heq⟩ := Option.map_eq_some_iff.mp h'
  cases heq

/-! ## The slots of a connection -/

/-- The filled slots of a connection point to the counters of their rows, and the two kinds of a row
are filled together. -/
structure ConnectedCU.Labelled (cu : ConnectedCU) : Prop where
  node : ∀ d kind p l, cu.counters d kind p = some l → NodeLabel d kind p l
  internal : ∀ i l, cu.e2tInternalCounters i = some l → ∃ n title, l = .internal n title
  kinds : ∀ d p, (∀ kind, (prometheusList d kind p).isSome) →
    ((cu.counters d .msgCounter p).isSome ↔ (cu.counters d .bytesCounter p).isSome)

theorem labelled_new (hostName portNumber : List UInt8) :
    (ConnectedCU.new hostName portNumber).Labelled where
  node d kind p l h := by cases h
  internal i l h := by cases h
  kinds d p h := Iff.rfl

/-- The counters are built from rows, so their slots point to them. -/
theorem ConnectedCU.Labelled.build {cu : ConnectedCU} (h : cu.Labelled) (n : Name) :
    ({ cu with
      counters := buildPrometheusList n cu.counters
      e2tInternalCounters := buildInternalCounterPrometheusList n } : ConnectedCU).Labelled where
  node d kind p l hl := by
    have hl : buildPrometheusList n cu.counters d kind p = some l := hl
    unfold buildPrometheusList at hl
    cases hrow : prometheusList d kind p with
    | none =>
      rw [hrow] at hl
      exact h.node d kind p l hl
    | some row =>
      rw [hrow] at hl
      cases hl
      exact ⟨n, row.1, row.2, hrow, rfl⟩
  internal i l hl := by
    cases i <;> cases hl <;> exact ⟨_, _, rfl⟩
  kinds d p hrows := by
    have hsome : ∀ kind, (buildPrometheusList n cu.counters d kind p).isSome := by
      intro kind
      unfold buildPrometheusList
      obtain ⟨row, hrow⟩ := Option.isSome_iff_exists.mp (hrows kind)
      rw [hrow]
      rfl
    exact iff_of_true (hsome _) (hsome _)

/-! ## The ledger -/

/-- The instance counter. -/
def instanceTotal (w : World) (d : Direction) (kind : CounterKind) (p : ProcedureCode) : Nat :=
  (e2tCounters d kind p).elim 0 w.registry

/-- What the counters of all nodes add up to. -/
noncomputable def nodesTotal (w : World) (d : Direction) (kind : CounterKind)
    (p : ProcedureCode) : Nat :=
  (prometheusList d kind p).elim 0 fun row =>
    Tally.total w.registry fun n => .node n row.1 row.2 kind

/-- The instance counters of `d` and `p` lack `a` and have `b` more than the nodes' add up to. -/
structure Ledger (d : Direction) (p : ProcedureCode) (a b : CounterKind → Nat) (w : World) :
    Prop where
  labelled : ∀ c cu, w.heap.get c = some cu → cu.Labelled
  finite : Tally.Finite w.registry
  sums : ∀ kind, instanceTotal w d kind p + a kind = nodesTotal w d kind p + b kind

/-- The instance counters of `d` and `p` are what the nodes' add up to. -/
def Balanced (d : Direction) (p : ProcedureCode) (w : World) : Prop :=
  ∀ kind, instanceTotal w d kind p = nodesTotal w d kind p

/-- What a message of `len` bytes adds. -/
def weight (len : Nat) : CounterKind → Nat
  | .msgCounter => 1
  | .bytesCounter => len

section Bump

variable {d d' e : Direction} {p p' : ProcedureCode} {kind : CounterKind}
  {a b : CounterKind → Nat} {w w' : World} {l : Label}

theorem Ledger.congr (h : Ledger d p a b w)
    (hheap : ∀ c cu, w'.heap.get c = some cu → cu.Labelled) (hreg : w'.registry = w.registry) :
    Ledger d p a b w' where
  labelled := hheap
  finite := by
    rw [hreg]
    exact h.finite
  sums kind := by
    have hkind := h.sums kind
    unfold instanceTotal nodesTotal at hkind ⊢
    rwa [hreg]

theorem Ledger.same (h : Ledger d p a b w) (hheap : w'.heap = w.heap)
    (hreg : w'.registry = w.registry) : Ledger d p a b w' :=
  h.congr (by rw [hheap]; exact h.labelled) hreg

/-- The state after one increment. -/
def World.bump (w : World) (l : Label) (n : Nat) : World :=
  { w with registry := Tally.bump w.registry l n }

theorem instanceTotal_bump_of_ne (h : e2tCounters d kind p ≠ some l) (n : Nat) :
    instanceTotal (w.bump l n) d kind p = instanceTotal w d kind p := by
  unfold instanceTotal World.bump
  cases hl : e2tCounters d kind p with
  | none => rfl
  | some k =>
    show Tally.bump w.registry l n k = w.registry k
    rw [Tally.bump_of_ne]
    rintro rfl
    exact h hl

theorem instanceTotal_bump (h : e2tCounters d kind p = some l) (n : Nat) :
    instanceTotal (w.bump l n) d kind p = instanceTotal w d kind p + n := by
  unfold instanceTotal World.bump
  rw [h]
  exact Tally.bump_self _ _ _

theorem nodesTotal_bump_of_not (h : ¬ NodeLabel d kind p l) (n : Nat) :
    nodesTotal (w.bump l n) d kind p = nodesTotal w d kind p := by
  unfold nodesTotal World.bump
  cases hrow : prometheusList d kind p with
  | none => rfl
  | some row => exact Tally.total_bump_of_ne (fun m hm => h ⟨m, row.1, row.2, hrow, hm.symm⟩) n

theorem nodesTotal_bump (hfinite : Tally.Finite w.registry) (h : NodeLabel d kind p l) (n : Nat) :
    nodesTotal (w.bump l n) d kind p = nodesTotal w d kind p + n := by
  obtain ⟨m, side, title, hrow, rfl⟩ := h
  unfold nodesTotal World.bump
  rw [hrow]
  exact Tally.total_bump (fun i j hij => by cases hij; rfl) hfinite m n

/-- An increment of another counter leaves the ledger. -/
theorem Ledger.bump_other (h : Ledger d p a b w) (hnode : ∀ kind, ¬ NodeLabel d kind p l)
    (he2t : ∀ kind, e2tCounters d kind p ≠ some l) (n : Nat) : Ledger d p a b (w.bump l n) where
  labelled := h.labelled
  finite := h.finite.bump l n
  sums kind := by
    rw [instanceTotal_bump_of_ne (he2t kind), nodesTotal_bump_of_not (hnode kind)]
    exact h.sums kind

theorem Ledger.bump_node (h : Ledger d p a b w) (hl : NodeLabel d kind p l) (n : Nat) :
    Ledger d p (fun k => a k + if k = kind then n else 0) b (w.bump l n) where
  labelled := h.labelled
  finite := h.finite.bump l n
  sums k := by
    have hk := h.sums k
    rw [instanceTotal_bump_of_ne hl.ne_e2t]
    by_cases hkind : k = kind
    · subst hkind
      rw [nodesTotal_bump h.finite hl, if_pos rfl]
      omega
    · rw [nodesTotal_bump_of_not fun hl' => hkind (hl'.unique hl).2, if_neg hkind, Nat.add_zero]
      exact hk

theorem Ledger.bump_e2t (h : Ledger d p a b w) (hl : e2tCounters d kind p = some l) (n : Nat) :
    Ledger d p a (fun k => b k + if k = kind then n else 0) (w.bump l n) where
  labelled := h.labelled
  finite := h.finite.bump l n
  sums k := by
    have hk := h.sums k
    rw [nodesTotal_bump_of_not fun hl' => hl'.ne_e2t hl]
    by_cases hkind : k = kind
    · subst hkind
      rw [instanceTotal_bump hl, if_pos rfl]
      omega
    · rw [instanceTotal_bump_of_ne fun hl' => hkind (e2tCounters_unique hl' hl).2, if_neg hkind,
        Nat.add_zero]
      exact hk

/-- What is added on both sides cancels. -/
theorem Ledger.cancel {x : CounterKind → Nat}
    (h : Ledger d p (fun k => a k + x k) (fun k => b k + x k) w) : Ledger d p a b w where
  labelled := h.labelled
  finite := h.finite
  sums k := by
    have hk := h.sums k
    omega

/-- A ledger that is out of balance shows it. -/
theorem Ledger.balanced_iff (h : Ledger d p a b w) : Balanced d p w ↔ a = b := by
  constructor
  · intro hbal
    funext kind
    have hk := h.sums kind
    rw [hbal kind] at hk
    omega
  · rintro rfl kind
    have hk := h.sums kind
    omega

end Bump

/-! ## Counting a message -/

section Counting

variable {d d' e : Direction} {p p' : ProcedureCode} {a b : CounterKind → Nat} {w w' : World}
  {c : ConnId} {cu : ConnectedCU} {len : Nat}

theorem increment_some (l : Label) (n : Nat) (w : World) :
    increment (some l) n w = .ok () (w.bump l n) := rfl

theorem incrementIfSet_some (l : Label) (n : Nat) (w : World) :
    incrementIfSet (some l) n w = .ok () (w.bump l n) := rfl

/-- The four labels of a counted message. -/
structure Slots (cu : ConnectedCU) (d e : Direction) (p : ProcedureCode)
    (l : CounterKind → Label) (k : CounterKind → Label) : Prop where
  node : ∀ kind, cu.counters d kind p = some (l kind)
  e2t : ∀ kind, e2tCounters e kind p = some (k kind)

/-- The state after the four increments. -/
def World.bumps (w : World) (l k : CounterKind → Label) (len : Nat) : World :=
  (((w.bump (l .msgCounter) 1).bump (l .bytesCounter) len).bump (k .msgCounter) 1).bump
    (k .bytesCounter) len

theorem countMessage_of_slots {l k : CounterKind → Label} (hc : w.heap.get c = some cu)
    (hs : Slots cu d e p l k) : countMessage c d e p len w = .ok () (w.bumps l k len) := by
  have hget : ∀ (l : Label) n, (w.bump l n).heap.get c = some cu := fun _ _ => hc
  unfold countMessage
  rw [bind_of_ok (deref_of_get hc), hs.node, bind_of_ok (increment_some _ _ _),
    bind_of_ok (deref_of_get (hget _ _)), hs.node, bind_of_ok (increment_some _ _ _), hs.e2t,
    bind_of_ok (increment_some _ _ _), hs.e2t]
  rfl

/-- A message that is counted finds a live connection, and its slots are filled. -/
theorem countMessage_cases (hkinds : ∀ cu, w.heap.get c = some cu → cu.Labelled)
    (hcounted : Counted d e p) :
    (∃ f, countMessage c d e p len w = .error f w) ∨
      ∃ cu l k, w.heap.get c = some cu ∧ Slots cu d e p l k ∧
        countMessage c d e p len w = .ok () (w.bumps l k len) := by
  cases hc : w.heap.get c with
  | none =>
    refine .inl ⟨.useAfterFree, ?_⟩
    unfold countMessage
    rw [bind_of_error (deref_of_freed hc)]
  | some cu =>
    have hlab := hkinds cu hc
    cases hmsg : cu.counters d .msgCounter p with
    | none =>
      refine .inl ⟨.nullCounter, ?_⟩
      unfold countMessage
      rw [bind_of_ok (deref_of_get hc), hmsg]
      rfl
    | some l =>
      have hbytes : (cu.counters d .bytesCounter p).isSome := by
        rw [← hlab.kinds d p fun kind => (hcounted kind).1, hmsg]
        rfl
      obtain ⟨l', hl'⟩ := Option.isSome_iff_exists.mp hbytes
      have he2t : ∀ kind, ∃ k, e2tCounters e kind p = some k :=
        fun kind => Option.isSome_iff_exists.mp (hcounted kind).2
      choose k hk using he2t
      have hs : Slots cu d e p (fun kind => CounterKind.rec l l' kind) k := by
        refine ⟨fun kind => ?_, hk⟩
        cases kind
        · exact hmsg
        · exact hl'
      exact .inr ⟨cu, _, k, rfl, hs, countMessage_of_slots hc hs⟩

/-- What a message counted for the pair `q'` adds to a side of the ledger of `q`. -/
def share (q q' : Direction × ProcedureCode) (len : Nat) : CounterKind → Nat :=
  if q' = q then weight len else fun _ => 0

theorem share_eq_zero_iff {q q' : Direction × ProcedureCode} :
    share q q' len = (fun _ => 0) ↔ q' ≠ q := by
  unfold share
  split
  · rename_i h
    -- a message counts as one even when it is empty
    refine iff_of_false (fun hzero => ?_) (not_not.mpr h)
    cases congrFun hzero .msgCounter
  · rename_i h
    exact iff_of_true rfl h

theorem share_eq_share_iff {q q' q'' : Direction × ProcedureCode} :
    share q q' len = share q q'' len ↔ (q' = q ↔ q'' = q) := by
  by_cases h : q' = q
  · by_cases h' : q'' = q
    · exact iff_of_true (by rw [h, h']) (iff_of_true h h')
    · rw [share_eq_zero_iff.mpr h', share_eq_zero_iff]
      exact iff_of_false (not_not.mpr h) fun hiff => h' (hiff.mp h)
  · rw [share_eq_zero_iff.mpr h, eq_comm, share_eq_zero_iff]
    exact ⟨fun h' => iff_of_false h h', fun hiff h' => h (hiff.mpr h')⟩

theorem Ledger.bump_nodes {l : CounterKind → Label} (h : Ledger d p a b w)
    (hl : ∀ kind, NodeLabel d' kind p' (l kind)) (len : Nat) :
    Ledger d p (fun k => a k + share (d, p) (d', p') len k) b
      ((w.bump (l .msgCounter) 1).bump (l .bytesCounter) len) := by
  unfold share
  split
  · rename_i heq
    cases heq
    have hboth := (h.bump_node (hl .msgCounter) 1).bump_node (hl .bytesCounter) len
    have hsum : (fun k => (a k + if k = CounterKind.msgCounter then 1 else 0) +
        if k = CounterKind.bytesCounter then len else 0) = fun k => a k + weight len k := by
      funext k
      cases k
      · simp [weight]
      · simp [weight]
    rw [hsum] at hboth
    exact hboth
  · rename_i hne
    have hother : ∀ kind kind', ¬ NodeLabel d kind' p (l kind) :=
      fun kind kind' hn => hne ((hl kind).unique hn).1
    exact (h.bump_other (hother _) (fun _ => (hl _).ne_e2t) 1).bump_other (hother _)
      (fun _ => (hl _).ne_e2t) len

theorem Ledger.bump_e2ts {k : CounterKind → Label} (h : Ledger d p a b w)
    (hk : ∀ kind, e2tCounters d' kind p' = some (k kind)) (len : Nat) :
    Ledger d p a (fun k => b k + share (d, p) (d', p') len k)
      ((w.bump (k .msgCounter) 1).bump (k .bytesCounter) len) := by
  unfold share
  split
  · rename_i heq
    cases heq
    have hboth := (h.bump_e2t (hk .msgCounter) 1).bump_e2t (hk .bytesCounter) len
    have hsum : (fun k => (b k + if k = CounterKind.msgCounter then 1 else 0) +
        if k = CounterKind.bytesCounter then len else 0) = fun k => b k + weight len k := by
      funext k
      cases k
      · simp [weight]
      · simp [weight]
    rw [hsum] at hboth
    exact hboth
  · rename_i hne
    have hother : ∀ kind kind', e2tCounters d kind' p ≠ some (k kind) :=
      fun kind kind' hn => hne (e2tCounters_unique (hk kind) hn).1
    have hnode : ∀ kind kind', ¬ NodeLabel d kind' p (k kind) :=
      fun kind kind' hn => hn.ne_e2t (hk kind)
    exact (h.bump_other (hnode _) (hother _) 1).bump_other (hnode _) (hother _) len

/-- A counted message adds to the nodes' side under the direction of its connection, and to the
instance's side under the direction of the instance. -/
theorem Ledger.bumps {l k : CounterKind → Label} (h : Ledger d p a b w)
    (hc : w.heap.get c = some cu) (hs : Slots cu d' e p' l k) :
    Ledger d p (fun k => a k + share (d, p) (d', p') len k)
      (fun k => b k + share (d, p) (e, p') len k) (w.bumps l k len) :=
  (h.bump_nodes (fun kind => (h.labelled c cu hc).node _ _ _ _ (hs.node kind)) len).bump_e2ts
    hs.e2t len

theorem Ledger.countMessage (h : Ledger d p a b w) (hcounted : Counted d' e p')
    (hrun : countMessage c d' e p' len w = .ok () w') :
    Ledger d p (fun k => a k + share (d, p) (d', p') len k)
      (fun k => b k + share (d, p) (e, p') len k) w' := by
  rcases countMessage_cases (h.labelled c) hcounted with
    ⟨f, herr⟩ | ⟨cu, l, k, hc, hs, hok⟩
  · rw [herr] at hrun
    cases hrun
  · rw [hok] at hrun
    cases hrun
    exact h.bumps hc hs

/-- A message that is counted under one direction leaves the ledger. -/
theorem keepsLedger_countMessage (hcounted : Counted e e p') :
    Keeps (fun _ => True) (Ledger d p a b) (countMessage c e e p' len) := by
  intro w hw
  rcases countMessage_cases (hw.labelled c) hcounted with
    ⟨f, hrun⟩ | ⟨cu, l, k, hc, hs, hrun⟩
  · rw [hrun]
    exact ⟨hw, fun _ _ _ => trivial⟩
  · rw [hrun]
    exact ⟨(hw.bumps hc hs).cancel, fun _ _ _ => trivial⟩

end Counting

end E2Term
