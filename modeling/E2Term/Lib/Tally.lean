import Mathlib.Algebra.BigOperators.Finprod

/-!
# Totals over families of counters

A registry maps labels to counts, and only finitely many of them have been counted. `total r f` is
what the counters of a family `f` of labels add up to; one more count in the family is one more in
its total, and a count outside of it none.
-/

namespace Tally

variable {L ι : Type} {r : L → Nat} {f : ι → L} {l : L}

/-- Finitely many counters are not zero. -/
def Finite (r : L → Nat) : Prop := (Function.support r).Finite

/-- What the counters of a family add up to. -/
noncomputable def total (r : L → Nat) (f : ι → L) : Nat := ∑ᶠ i, r (f i)

theorem finite_zero : Finite (fun _ : L => 0) := by
  unfold Finite
  rw [Function.support_fun_zero]
  exact Set.finite_empty

theorem total_zero (f : ι → L) : total (fun _ => 0) f = 0 := finsum_zero

/-- No counter of a family is more than its total. -/
theorem le_total (hf : f.Injective) (hr : Finite r) (i : ι) : r (f i) ≤ total r f := by
  have hfinite : (Function.support fun j => r (f j)).Finite :=
    Set.Finite.preimage hf.injOn hr
  exact single_le_finsum i hfinite fun _ => Nat.zero_le _

variable [DecidableEq L]

/-- The counter `l` goes up by `n`. -/
def bump (r : L → Nat) (l : L) (n : Nat) : L → Nat := fun k => if k = l then r k + n else r k

theorem bump_self (r : L → Nat) (l : L) (n : Nat) : bump r l n l = r l + n := if_pos rfl

theorem bump_of_ne {k : L} (h : k ≠ l) (r : L → Nat) (n : Nat) : bump r l n k = r k := if_neg h

theorem Finite.bump (h : Finite r) (l : L) (n : Nat) : Finite (bump r l n) := by
  refine (Set.Finite.insert l h).subset fun k hk => ?_
  by_cases hkl : k = l
  · exact .inl hkl
  · right
    rw [Function.mem_support, bump_of_ne hkl] at hk
    exact hk

/-- A count in the family is one in its total. -/
theorem total_bump (hf : f.Injective) (hr : Finite r) (i : ι) (n : Nat) :
    total (bump r (f i) n) f = total r f + n := by
  classical
  have hfinite : (Function.support fun j => r (f j)).Finite :=
    Set.Finite.preimage hf.injOn hr
  have hsingle : (Function.support fun j => if j = i then n else 0).Finite := by
    refine (Set.finite_singleton i).subset fun j hj => ?_
    by_contra hne
    exact hj (if_neg hne)
  have hsplit : ∀ j, bump r (f i) n (f j) = r (f j) + if j = i then n else 0 := by
    intro j
    by_cases hj : j = i
    · rw [hj, bump_self, if_pos rfl]
    · rw [bump_of_ne fun h => hj (hf h), if_neg hj, Nat.add_zero]
  unfold total
  rw [finsum_congr hsplit, finsum_add_distrib hfinite hsingle,
    finsum_eq_single _ i fun j hj => if_neg hj, if_pos rfl]

/-- A count outside of the family leaves its total. -/
theorem total_bump_of_ne (h : ∀ i, f i ≠ l) (n : Nat) : total (bump r l n) f = total r f :=
  finsum_congr fun i => bump_of_ne (h i) r n

/-! ## Counting what is matched -/

section Matched

variable {α : Type} {P Q : α → Prop} [DecidablePred P] [DecidablePred Q]

/-- The elements with `P` are as many as their positions. -/
theorem countP_eq_card (l : List α) :
    l.countP (P ·) = ((Finset.range l.length).filter fun k => ∃ a ∈ l[k]?, P a).card := by
  classical
  induction l using List.reverseRecOn with
  | nil => rfl
  | append_singleton l a ih =>
    have hold : ((Finset.range l.length).filter fun k => ∃ b ∈ (l ++ [a])[k]?, P b) =
        (Finset.range l.length).filter fun k => ∃ b ∈ l[k]?, P b := by
      refine Finset.filter_congr fun k hk => ?_
      rw [List.getElem?_append_left (Finset.mem_range.mp hk)]
    have hlast : (∃ b ∈ (l ++ [a])[l.length]?, P b) ↔ P a := by
      rw [List.getElem?_concat_length]
      simp
    rw [List.countP_append, List.countP_singleton, ih, List.length_append, List.length_singleton,
      Finset.range_add_one, Finset.filter_insert, hold]
    simp only [hlast, decide_eq_true_eq]
    split
    · rw [Finset.card_insert_of_notMem]
      simp
    · rfl

/-- Where every element with `P` is matched to one with `Q`, and no two to the same, those with `Q`
are no fewer. -/
theorem countP_le_of_matched {l : List α} (f : Nat → Option Nat)
    (hf : ∀ k, ∀ a ∈ l[k]?, P a → ∃ i, f k = some i ∧ ∃ b ∈ l[i]?, Q b)
    (hinj : ∀ k k' i, (∃ a ∈ l[k]?, P a) → (∃ a ∈ l[k']?, P a) → f k = some i → f k' = some i →
      k = k') : l.countP (P ·) ≤ l.countP (Q ·) := by
  rw [countP_eq_card, countP_eq_card]
  refine Finset.card_le_card_of_injOn (fun k => (f k).getD 0) (fun k hk => ?_) ?_
  · obtain ⟨a, ha, hP⟩ := (Finset.mem_filter.mp hk).2
    obtain ⟨i, hi, b, hb, hQ⟩ := hf k a ha hP
    have hlt : i < l.length := (List.getElem?_eq_some_iff.mp hb).1
    have hget : (f k).getD 0 = i := by
      rw [hi]
      rfl
    refine Finset.mem_coe.mpr (Finset.mem_filter.mpr ?_)
    dsimp only
    rw [hget]
    exact ⟨Finset.mem_range.mpr hlt, b, hb, hQ⟩
  · intro k hk k' hk' heq
    have hP := (Finset.mem_filter.mp (Finset.mem_coe.mp hk)).2
    have hP' := (Finset.mem_filter.mp (Finset.mem_coe.mp hk')).2
    obtain ⟨i, hi, -⟩ := hP.elim fun a ha => hf k a ha.1 ha.2
    obtain ⟨i', hi', -⟩ := hP'.elim fun a ha => hf k' a ha.1 ha.2
    have hii : i = i' := by simpa [hi, hi'] using heq
    exact hinj k k' i hP hP' hi (hii ▸ hi')

end Matched

end Tally
