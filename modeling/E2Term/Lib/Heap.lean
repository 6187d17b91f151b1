import Mathlib.Tactic.Common

/-!
# A heap with fresh identities

Cells are allocated with identities that are never used again, so a freed cell stays
distinguishable from every later one and an access to it can be told from a good one.
-/

/-- A heap of cells. `next` is the first identity never handed out. -/
structure CellHeap (α : Type) where
  next : Nat
  cell : Nat → Option α
  fresh : ∀ i, next ≤ i → cell i = none

namespace CellHeap

variable {α : Type} (h : CellHeap α) (i j : Nat) (a : α)

/-- The heap before the first allocation. -/
def empty : CellHeap α := ⟨0, fun _ => none, fun _ _ => rfl⟩

/-- The cell with identity `i`, `none` when it was never allocated or is freed. -/
def get : Option α := h.cell i

/-- Allocate a cell; its identity is `h.next`. -/
def alloc : CellHeap α where
  next := h.next + 1
  cell k := if k = h.next then some a else h.cell k
  fresh k hk := by
    rw [if_neg (by omega)]
    exact h.fresh k (by omega)

/-- Overwrite a live cell; a freed cell stays freed. -/
def set : CellHeap α where
  next := h.next
  cell k := if k = i ∧ (h.cell i).isSome then some a else h.cell k
  fresh k hk := by
    split
    · rename_i hki
      rw [hki.1] at hk
      simp [h.fresh i hk] at hki
    · exact h.fresh k hk

/-- Free a cell. -/
def free : CellHeap α where
  next := h.next
  cell k := if k = i then none else h.cell k
  fresh k hk := by
    split
    · rfl
    · exact h.fresh k hk

theorem get_next : h.get h.next = none := h.fresh _ (Nat.le_refl _)

/-- A live cell is allocated. -/
theorem lt_next_of_isSome (hi : (h.get i).isSome) : i < h.next := by
  by_contra hge
  have hnone : h.get i = none := h.fresh i (Nat.le_of_not_lt hge)
  rw [hnone] at hi
  cases hi

theorem get_alloc : (h.alloc a).get j = if j = h.next then some a else h.get j := rfl

theorem get_free : (h.free i).get j = if j = i then none else h.get j := rfl

theorem get_set {b : α} (hi : h.get i = some b) :
    (h.set i a).get j = if j = i then some a else h.get j := by
  have hsome : (h.cell i).isSome := by
    show (h.get i).isSome
    rw [hi]
    rfl
  simp only [get, set, hsome, and_true]

/-- Of two writes to a cell the later one counts. -/
theorem set_set (b : α) : (h.set i a).set i b = h.set i b := by
  unfold set
  congr 1
  funext k
  by_cases hk : k = i
  · subst hk
    by_cases hc : (h.cell k).isSome
    · simp [hc]
    · simp [hc]
  · simp [hk]

/-- Writing what a cell holds changes nothing. -/
theorem set_eq_self {a : α} (hi : h.get i = some a) : h.set i a = h := by
  obtain ⟨next, cell, fresh⟩ := h
  unfold set
  congr 1
  funext k
  split
  · rename_i hk
    rw [hk.1]
    exact hi.symm
  · rfl

end CellHeap
