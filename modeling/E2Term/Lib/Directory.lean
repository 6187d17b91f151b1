import Mathlib.Logic.Function.Basic
import Mathlib.Tactic.Common

/-!
# Directories of labelled sessions

A server keeps its open sessions, each with a label it may change, and an index from keys to
sessions. A directory is *consistent* when every key leads to an open session with that label. The
operations below are what a server does to it; each comes with the exact condition under which it
keeps the directory consistent, and under which a set of active keys stays covered by it.
-/

/-- The open sessions with their labels, and the index. -/
structure Directory (κ ι : Type) where
  label : ι → Option κ
  entry : κ → Option ι

namespace Directory

variable {κ ι : Type} {d : Directory κ ι} {i : ι} {k : κ} {P : κ → Prop}

/-- Every key leads to an open session with that label. -/
def Consistent (d : Directory κ ι) : Prop := ∀ k i, d.entry k = some i → d.label i = some k

/-- Every key in `P` leads to an open session. -/
def Covers (d : Directory κ ι) (P : κ → Prop) : Prop :=
  ∀ k, P k → ∃ i, d.entry k = some i ∧ (d.label i).isSome

/-- In a consistent directory no two keys lead to one session. -/
theorem Consistent.injective (h : d.Consistent) {k k' : κ} (hk : d.entry k = some i)
    (hk' : d.entry k' = some i) : k = k' :=
  Option.some.inj ((h k i hk).symm.trans (h k' i hk'))

/-- In a consistent directory no key leads to a closed session. -/
theorem Consistent.ne_of_closed (h : d.Consistent) (hi : d.label i = none) (k : κ) :
    d.entry k ≠ some i := by
  intro hk
  have hlabel := h k i hk
  rw [hi] at hlabel
  cases hlabel

/-- An index without entries is consistent. -/
theorem consistent_of_empty (h : ∀ k, d.entry k = none) : d.Consistent := by
  intro k i hk
  rw [h k] at hk
  cases hk

/-- An index without entries covers no key. -/
theorem covers_of_empty_iff (h : ∀ k, d.entry k = none) : d.Covers P ↔ ∀ k, ¬ P k := by
  constructor
  · intro hc k hk
    obtain ⟨i, hi, -⟩ := hc k hk
    rw [h k] at hi
    cases hi
  · intro hno k hk
    exact (hno k hk).elim

variable [DecidableEq ι]

/-- A session opens, under no key. -/
def join (d : Directory κ ι) (i : ι) (k : κ) : Directory κ ι where
  label := Function.update d.label i (some k)
  entry := d.entry

/-- A session is labelled `k` and entered under the keys `ks`. -/
def relabel (d : Directory κ ι) (i : ι) (k : κ) (ks : κ → Prop) [DecidablePred ks] :
    Directory κ ι where
  label := Function.update d.label i (some k)
  entry k' := if ks k' then some i else d.entry k'

/-- A session closes, and the keys in `gone` are erased. -/
def leave (d : Directory κ ι) (i : ι) (gone : κ → Prop) [DecidablePred gone] : Directory κ ι where
  label := Function.update d.label i none
  entry k := if gone k then none else d.entry k

/-! ## Consistency -/

theorem Consistent.join (h : d.Consistent) (hi : d.label i = none) (k : κ) :
    (d.join i k).Consistent := by
  intro k' j hj
  have hne : j ≠ i := fun heq => h.ne_of_closed hi k' (heq ▸ hj)
  show Function.update d.label i (some k) j = some k'
  rw [Function.update_of_ne hne]
  exact h k' j hj

/-- A new label is consistent exactly when the keys entered are the label, and so is the key the
session had. -/
theorem Consistent.relabel_iff (h : d.Consistent) (ks : κ → Prop) [DecidablePred ks] :
    (d.relabel i k ks).Consistent ↔
      (∀ k', ks k' → k' = k) ∧ (∀ k', d.entry k' = some i → k' = k) := by
  have hi : (d.relabel i k ks).label i = some k := Function.update_self ..
  constructor
  · intro hr
    refine ⟨fun k' hk' => ?_, fun k' hk' => ?_⟩
    · have hentry : (d.relabel i k ks).entry k' = some i := if_pos hk'
      exact Option.some.inj ((hr k' i hentry).symm.trans hi)
    · have hentry : (d.relabel i k ks).entry k' = some i := by
        by_cases hks : ks k'
        · exact if_pos hks
        · exact (if_neg hks).trans hk'
      exact Option.some.inj ((hr k' i hentry).symm.trans hi)
  · rintro ⟨hks, hold⟩ k' j hj
    by_cases hk' : ks k'
    · have hij : i = j := Option.some.inj ((if_pos hk').symm.trans hj)
      rw [← hij, hi, hks k' hk']
    · have hj' : d.entry k' = some j := (if_neg hk').symm.trans hj
      by_cases hji : j = i
      · rw [hji] at hj' ⊢
        rw [hi, hold k' hj']
      · show Function.update d.label i (some k) j = some k'
        rw [Function.update_of_ne hji]
        exact h k' j hj'

/-- A session that takes its label with it leaves a consistent directory. -/
theorem Consistent.leave (h : d.Consistent) {gone : κ → Prop} [DecidablePred gone]
    (hgone : ∀ k, d.label i = some k → gone k) : (d.leave i gone).Consistent := by
  intro k j hj
  by_cases hk : gone k
  · have hnone : none = some j := (if_pos hk).symm.trans hj
    cases hnone
  · have hj' : d.entry k = some j := (if_neg hk).symm.trans hj
    have hne : j ≠ i := by
      rintro rfl
      exact hk (hgone k (h k j hj'))
    show Function.update d.label i none j = some k
    rw [Function.update_of_ne hne]
    exact h k j hj'

/-! ## Active keys -/

/-- A session that gets a label is open, and the others stay as they are. -/
theorem isSome_update {j : ι} (hj : (d.label j).isSome) :
    (Function.update d.label i (some k) j).isSome := by
  by_cases hji : j = i
  · rw [hji, Function.update_self]
    rfl
  · rwa [Function.update_of_ne hji]

theorem Covers.join (h : d.Covers P) (i : ι) (k : κ) : (d.join i k).Covers P := by
  intro k' hk'
  obtain ⟨j, hj, hopen⟩ := h k' hk'
  exact ⟨j, hj, isSome_update hopen⟩

theorem Covers.relabel (h : d.Covers P) (ks : κ → Prop) [DecidablePred ks] :
    (d.relabel i k ks).Covers P := by
  intro k' hk'
  by_cases hks : ks k'
  · refine ⟨i, if_pos hks, ?_⟩
    show (Function.update d.label i (some k) i).isSome
    rw [Function.update_self]
    rfl
  · obtain ⟨j, hj, hopen⟩ := h k' hk'
    exact ⟨j, (if_neg hks).trans hj, isSome_update hopen⟩

/-- The keys that survive a closed session are covered exactly when none of them was erased or led
to the session. -/
theorem Covers.leave_iff (h : d.Covers P) (gone : κ → Prop) [DecidablePred gone] :
    (d.leave i gone).Covers P ↔ ∀ k, P k → ¬ gone k ∧ d.entry k ≠ some i := by
  constructor
  · intro hl k hk
    obtain ⟨j, hj, hopen⟩ := hl k hk
    have hgone : ¬ gone k := by
      intro hg
      have hnone : none = some j := (if_pos hg).symm.trans hj
      cases hnone
    have hj' : d.entry k = some j := (if_neg hgone).symm.trans hj
    refine ⟨hgone, fun hi => ?_⟩
    have hji : j = i := Option.some.inj (hj'.symm.trans hi)
    change (Function.update d.label i none j).isSome at hopen
    rw [hji, Function.update_self] at hopen
    cases hopen
  · intro hall k hk
    obtain ⟨hgone, hne⟩ := hall k hk
    obtain ⟨j, hj, hopen⟩ := h k hk
    refine ⟨j, (if_neg hgone).trans hj, ?_⟩
    have hji : j ≠ i := by
      rintro rfl
      exact hne hj
    show (Function.update d.label i none j).isSome
    rwa [Function.update_of_ne hji]

end Directory
