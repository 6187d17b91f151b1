import Mathlib.Tactic.Common

/-!
# Stores through a moving pointer

Code that fills memory with `*pos++ = x` leaves a list of stores behind it, each with its address.
Addresses are offsets from where the pointer stood at first, so a negative one lies in front of it.
A run of such stores is `stored p xs`: the values `xs`, one after another from the address `p` on.
-/

namespace Stores

variable {κ α : Type} [DecidableEq κ]

/-- The memory that the stores leave, in their order. -/
def replay (m : κ → α) (stores : List (κ × α)) : κ → α :=
  stores.foldl (fun m s => Function.update m s.1 s.2) m

/-- The stores of `xs` from the address `p` on. -/
def stored (p : Int) : List α → List (Int × α)
  | [] => []
  | x :: xs => (p, x) :: stored (p + 1) xs

/-- A pointer that is written through, with the stores so far. -/
structure Writer (α : Type) where
  pos : Int
  stores : List (Int × α)

/-- A pointer to the address 0, before the first store. -/
def Writer.start : Writer α := ⟨0, []⟩

/-- `*pos++ = x`. -/
def Writer.put (w : Writer α) (x : α) : Writer α := ⟨w.pos + 1, w.stores ++ [(w.pos, x)]⟩

/-- `pos -= n`. -/
def Writer.rewind (w : Writer α) (n : Nat) : Writer α := { w with pos := w.pos - n }

/-- Several stores in a row. -/
def Writer.puts (w : Writer α) (xs : List α) : Writer α := xs.foldl Writer.put w

theorem stored_append (p : Int) (xs ys : List α) :
    stored p (xs ++ ys) = stored p xs ++ stored (p + xs.length) ys := by
  induction xs generalizing p with
  | nil => simp [stored]
  | cons x xs ih =>
    have hp : p + 1 + (xs.length : Int) = p + ((x :: xs).length : Int) := by
      rw [List.length_cons]
      omega
    rw [List.cons_append, stored, stored, ih, hp, List.cons_append]

theorem Writer.puts_eq (w : Writer α) (xs : List α) :
    w.puts xs = ⟨w.pos + xs.length, w.stores ++ stored w.pos xs⟩ := by
  induction xs generalizing w with
  | nil => simp [Writer.puts, stored]
  | cons x xs ih =>
    show (w.put x).puts xs = _
    rw [ih]
    unfold Writer.put
    rw [stored, List.append_assoc, List.length_cons]
    congr 1
    dsimp only
    omega

theorem Writer.puts_append (w : Writer α) (xs ys : List α) :
    w.puts (xs ++ ys) = (w.puts xs).puts ys := List.foldl_append

theorem mem_stored {p : Int} {xs : List α} {s : Int × α} (h : s ∈ stored p xs) :
    p ≤ s.1 ∧ s.1 < p + xs.length := by
  induction xs generalizing p with
  | nil => exact absurd h List.not_mem_nil
  | cons x xs ih =>
    rw [List.length_cons]
    rcases List.mem_cons.mp h with rfl | h
    · constructor <;> dsimp only <;> omega
    · have := ih h
      omega

/-- Stores from the start stay below a bound exactly when their number does. -/
theorem stored_lt_iff {xs : List α} (hxs : xs ≠ []) (bound : Int) :
    (∀ s ∈ stored 0 xs, s.1 < bound) ↔ (xs.length : Int) ≤ bound := by
  constructor
  · intro h
    obtain ⟨init, x, rfl⟩ := List.eq_nil_or_concat xs |>.resolve_left hxs
    rw [List.concat_eq_append] at h ⊢
    have hlast := h (0 + init.length, x) (by
      rw [stored_append]
      exact List.mem_append_right _ (List.mem_singleton.mpr rfl))
    rw [List.length_append, List.length_singleton]
    dsimp only at hlast
    omega
  · intro h s hs
    have := mem_stored hs
    omega

theorem replay_append (m : κ → α) (l l' : List (κ × α)) :
    replay m (l ++ l') = replay (replay m l) l' := List.foldl_append

/-- Stores elsewhere leave an address as it was. -/
theorem replay_of_ne (m : κ → α) {l : List (κ × α)} {i : κ} (h : ∀ s ∈ l, s.1 ≠ i) :
    replay m l i = m i := by
  induction l generalizing m with
  | nil => rfl
  | cons s l ih =>
    rw [List.forall_mem_cons] at h
    show replay (Function.update m s.1 s.2) l i = m i
    rw [ih _ h.2, Function.update_of_ne h.1.symm]

/-- An address that is stored to once has what was stored. -/
theorem replay_of_mem (m : κ → α) {l : List (κ × α)} {s : κ × α} (hs : s ∈ l)
    (hl : (l.map Prod.fst).Nodup) : replay m l s.1 = s.2 := by
  induction l generalizing m with
  | nil => exact absurd hs List.not_mem_nil
  | cons s' l ih =>
    rw [List.map_cons, List.nodup_cons] at hl
    show replay (Function.update m s'.1 s'.2) l s.1 = s.2
    rcases List.mem_cons.mp hs with rfl | hs
    · rw [replay_of_ne, Function.update_self]
      intro t ht heq
      exact hl.1 (heq ▸ List.mem_map_of_mem ht)
    · exact ih _ hs hl.2

theorem replay_stored (m : Int → α) (p : Int) (xs : List α) (i : Nat) (hi : i < xs.length) :
    replay m (stored p xs) (p + i) = xs[i] := by
  induction xs generalizing m p i with
  | nil => exact absurd hi (Nat.not_lt_zero i)
  | cons x xs ih =>
    show replay (Function.update m p x) (stored (p + 1) xs) (p + i) = _
    cases i with
    | zero =>
      have hp : p + ((0 : Nat) : Int) = p := Int.add_zero p
      rw [hp, replay_of_ne _ fun s hs => ?_, Function.update_self]
      · rfl
      · have := mem_stored hs
        omega
    | succ i =>
      rw [List.length_cons, Nat.add_lt_add_iff_right] at hi
      have hp : p + ((i + 1 : Nat) : Int) = p + 1 + (i : Int) := by omega
      rw [hp, ih _ _ _ hi]
      rfl

/-- The bytes at the addresses below `n`. -/
def bytesAt (m : Int → α) (n : Nat) : List α := (List.range n).map fun i : Nat => m i

@[simp] theorem length_bytesAt (m : Int → α) (n : Nat) : (bytesAt m n).length = n := by
  simp [bytesAt]

theorem take_bytesAt (m : Int → α) {k n : Nat} (h : k ≤ n) :
    (bytesAt m n).take k = bytesAt m k := by
  unfold bytesAt
  rw [← List.map_take, List.take_range, Nat.min_eq_left h]

theorem bytesAt_eq {m : Int → α} {xs : List α} (h : ∀ i (hi : i < xs.length), m i = xs[i]) :
    bytesAt m xs.length = xs := by
  refine List.ext_getElem (length_bytesAt m _) fun i _ hi => ?_
  simp [bytesAt, h i hi]

/-- What was stored is there, whatever is stored behind it. -/
theorem bytesAt_replay (m : Int → α) (xs ys : List α) :
    bytesAt (replay m (stored 0 (xs ++ ys))) xs.length = xs := by
  refine bytesAt_eq fun i hi => ?_
  have hlt : i < (xs ++ ys).length := by
    rw [List.length_append]
    omega
  have := replay_stored m 0 (xs ++ ys) i hlt
  rw [Int.zero_add] at this
  rw [this, List.getElem_append_left hi]

/-! ## Strings in memory -/

/-- From the address 0 on there is the C string `s`, up to its NUL. -/
structure HoldsString (m : Int → UInt8) (s : List UInt8) : Prop where
  nonzero : ∀ x ∈ s, x ≠ 0
  bytes_eq : bytesAt m (s.length + 1) = s ++ [0]

theorem HoldsString.of_bytes {m : Int → UInt8} {s : List UInt8} (hs : ∀ x ∈ s, x ≠ 0)
    (hbytes : bytesAt m s.length = s) (hnul : m s.length = 0) : HoldsString m s := by
  refine ⟨hs, ?_⟩
  show (List.range (s.length + 1)).map (fun i : Nat => m i) = _
  rw [List.range_succ, List.map_append, List.map_singleton, hnul]
  exact congrArg (· ++ [0]) hbytes

/-- A string ends at the first NUL, so it is no longer than where one is. -/
theorem HoldsString.length_le {m : Int → UInt8} {s : List UInt8} (h : HoldsString m s) {n : Nat}
    (hnul : m n = 0) : s.length ≤ n := by
  by_contra hlt
  have hn : n < s.length := Nat.lt_of_not_le hlt
  have hbyte : (bytesAt m (s.length + 1))[n]? = (s ++ [0])[n]? := by rw [h.bytes_eq]
  rw [List.getElem?_append_left hn, List.getElem?_eq_getElem hn] at hbyte
  simp only [bytesAt, List.getElem?_map, List.getElem?_range (Nat.lt_succ_of_lt hn),
    Option.map_some, Option.some.injEq] at hbyte
  exact h.nonzero _ (List.getElem_mem hn) (hbyte.symm.trans hnul)

end Stores
