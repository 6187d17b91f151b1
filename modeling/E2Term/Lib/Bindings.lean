import Mathlib.Data.List.AList

/-!
# Bindings where the last one wins

Some items of a list bind a key to a value, and the last binding of a key is the one that counts.
Two readings `f` and `g` of the items may differ on some of them, and yet leave every key with the
same value: exactly when each item that they read differently is harmless.
-/

namespace Bindings

variable {ι κ ν : Type} {f g : ι → Option (κ × ν)} {xs : List ι} {k : κ} {v w : ν}

/-- An item binds the key to the value, and no item behind it binds the key. -/
def Decides (f : ι → Option (κ × ν)) (xs : List ι) (k : κ) (v : ν) : Prop :=
  ∃ pre x post, xs = pre ++ x :: post ∧ f x = some (k, v) ∧ ∀ y ∈ post, ∀ w, f y ≠ some (k, w)

theorem decides_cons_iff (x : ι) : Decides f (x :: xs) k v ↔
    Decides f xs k v ∨ (f x = some (k, v) ∧ ∀ y ∈ xs, ∀ w, f y ≠ some (k, w)) := by
  constructor
  · rintro ⟨pre, y, post, hxs, hy, hpost⟩
    cases pre with
    | nil =>
      obtain ⟨rfl, rfl⟩ := List.cons.inj hxs
      exact .inr ⟨hy, hpost⟩
    | cons z pre =>
      obtain ⟨rfl, rfl⟩ := List.cons.inj hxs
      exact .inl ⟨pre, y, post, rfl, hy, hpost⟩
  · rintro (⟨pre, y, post, rfl, hy, hpost⟩ | ⟨hx, hxs⟩)
    · exact ⟨x :: pre, y, post, rfl, hy, hpost⟩
    · exact ⟨[], x, xs, rfl, hx, hxs⟩

variable [DecidableEq κ]

/-- The value of the last binding of a key. -/
def lastFor (k : κ) : List (κ × ν) → Option ν
  | [] => none
  | b :: rest => (lastFor k rest).or (if b.1 = k then some b.2 else none)

/-- The bindings go into a map, one after another. -/
def insertAll (m : AList fun _ : κ => ν) (bs : List (κ × ν)) : AList fun _ : κ => ν :=
  bs.foldl (fun m b => m.insert b.1 b.2) m

theorem lookup_insertAll (m : AList fun _ : κ => ν) (bs : List (κ × ν)) (k : κ) :
    (insertAll m bs).lookup k = (lastFor k bs).or (m.lookup k) := by
  induction bs generalizing m with
  | nil => rfl
  | cons b rest ih =>
    have hinsert : (m.insert b.1 b.2).lookup k =
        (if b.1 = k then some b.2 else none).or (m.lookup k) := by
      by_cases hk : b.1 = k
      · subst hk
        rw [AList.lookup_insert, if_pos rfl, Option.some_or]
      · rw [AList.lookup_insert_ne (Ne.symm hk), if_neg hk, Option.none_or]
    show (insertAll (m.insert b.1 b.2) rest).lookup k = _
    rw [ih, hinsert, lastFor, Option.or_assoc]

theorem lastFor_eq_none_iff :
    lastFor k (xs.filterMap f) = none ↔ ∀ y ∈ xs, ∀ w, f y ≠ some (k, w) := by
  induction xs with
  | nil => simp [lastFor]
  | cons x xs ih =>
    rw [List.forall_mem_cons, ← ih]
    cases hx : f x with
    | none => simp [List.filterMap_cons_none hx]
    | some b =>
      rw [List.filterMap_cons_some hx, lastFor]
      by_cases hk : b.1 = k
      · have hb : f x = some (k, b.2) := by rw [hx, ← hk]
        simpa [hk] using fun h => (h b.2 (by rw [← hk])).elim
      · have hb : ∀ w, some b ≠ some (k, w) := fun w h => hk (congrArg Prod.fst (Option.some.inj h))
        simp [hk, hb]

theorem lastFor_eq_some_iff : lastFor k (xs.filterMap f) = some v ↔ Decides f xs k v := by
  induction xs with
  | nil => simp [lastFor, Decides]
  | cons x xs ih =>
    rw [decides_cons_iff, ← ih, ← lastFor_eq_none_iff]
    cases hx : f x with
    | none => simp [List.filterMap_cons_none hx]
    | some b =>
      rw [List.filterMap_cons_some hx, lastFor, Option.or_eq_some_iff]
      have hb : (if b.1 = k then some b.2 else none) = some v ↔ some b = some (k, v) := by
        rw [Option.some_inj, Prod.ext_iff]
        by_cases hk : b.1 = k <;> simp [hk]
      rw [hb, and_comm (a := some b = _)]

theorem Decides.unique (hv : Decides f xs k v) (hw : Decides f xs k w) : v = w :=
  Option.some.inj ((lastFor_eq_some_iff.mpr hv).symm.trans (lastFor_eq_some_iff.mpr hw))

/-- When a key is bound at all, some item decides it. -/
theorem exists_decides {y : ι} (hy : y ∈ xs) (h : f y = some (k, w)) : ∃ v, Decides f xs k v := by
  cases hlast : lastFor k (xs.filterMap f) with
  | none => exact (lastFor_eq_none_iff.mp hlast y hy w h).elim
  | some v => exact ⟨v, lastFor_eq_some_iff.mp hlast⟩

/-- What `f` makes of an item in `D` is undone by a later item, or is what `g` gives anyway. -/
def Harmless (D : ι → Prop) (f g : ι → Option (κ × ν)) (xs : List ι) : Prop :=
  ∀ pre x post, xs = pre ++ x :: post → D x → ∀ k v, f x = some (k, v) →
    (∃ y ∈ post, ∃ w, f y = some (k, w)) ∨ Decides g xs k v

/-- A key that `f` decides is decided alike by `g`, when the differences are harmless. -/
theorem Decides.of_harmless {D : ι → Prop} (hD : ∀ x, ¬ D x → f x = g x)
    (hf : Harmless D f g xs) (hg : Harmless D g f xs) (h : Decides f xs k v) :
    Decides g xs k v := by
  have hdecides := h
  obtain ⟨pre, x, post, rfl, hx, hpost⟩ := h
  by_cases hDx : D x
  · obtain ⟨y, hy, w, hyw⟩ | hg' := hf pre x post rfl hDx k v hx
    · exact (hpost y hy w hyw).elim
    · exact hg'
  · by_cases hlater : ∀ y ∈ post, ∀ w, g y ≠ some (k, w)
    · exact ⟨pre, x, post, rfl, (hD x hDx).symm.trans hx, hlater⟩
    · push Not at hlater
      obtain ⟨y, hy, w, hyw⟩ := hlater
      -- the last item behind `x` that binds the key for `g` is one that is read differently
      obtain ⟨w, mid, z, rest, rfl, hz, hrest⟩ := exists_decides hy hyw
      have hDz : D z := by
        by_contra hDz
        exact hpost z (by simp) w ((hD z hDz).trans hz)
      have hxs : pre ++ x :: (mid ++ z :: rest) = (pre ++ x :: mid) ++ z :: rest := by simp
      obtain ⟨u, hu, t, hut⟩ | hf' := hg _ z rest hxs hDz k w hz
      · exact (hrest u hu t hut).elim
      · obtain rfl := hf'.unique hdecides
        exact ⟨_, z, rest, hxs, hz, hrest⟩

/-- Two readings leave every key with the same value exactly when, on both sides, every item that
they read differently is harmless. -/
theorem agree_iff {D : ι → Prop} (hD : ∀ x, ¬ D x → f x = g x) (xs : List ι) :
    (∀ k, lastFor k (xs.filterMap f) = lastFor k (xs.filterMap g)) ↔
      Harmless D f g xs ∧ Harmless D g f xs := by
  constructor
  · intro h
    have harmless : ∀ {f g : ι → Option (κ × ν)},
        (∀ k, lastFor k (xs.filterMap f) = lastFor k (xs.filterMap g)) → Harmless D f g xs := by
      intro f g h pre x post hxs _ k v hx
      by_cases hlater : ∀ y ∈ post, ∀ w, f y ≠ some (k, w)
      · refine .inr (lastFor_eq_some_iff.mp ?_)
        rw [← h k]
        exact lastFor_eq_some_iff.mpr ⟨pre, x, post, hxs, hx, hlater⟩
      · push Not at hlater
        exact .inl hlater
    exact ⟨harmless h, harmless fun k => (h k).symm⟩
  · rintro ⟨hf, hg⟩ k
    refine Option.ext fun v => ?_
    rw [lastFor_eq_some_iff, lastFor_eq_some_iff]
    exact ⟨.of_harmless hD hf hg, .of_harmless (fun x hx => (hD x hx).symm) hg hf⟩

end Bindings
