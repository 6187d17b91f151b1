import Mathlib.Data.List.DropRight
import Mathlib.Tactic.Common

/-!
# Lines of a text

The lines of a text up to a separator, with it and without it, and as a loop of `fgets` reads them;
a line cut at the first occurrence of a character; a text without the blanks at its ends. Two
readers of the same lines, each of which stops at the first line that tells it something, are
compared at the first line where they differ.
-/

namespace Lines

variable {α : Type} {p : α → Bool} {s t : List α} {x : α}

/-! ## Blanks at the ends -/

/-- The text without the blanks at its end and those in front of it. -/
def strip (p : α → Bool) (s : List α) : List α := (s.rdropWhile p).dropWhile p

theorem rdropWhile_append_of_mem (s : List α) (hx : x ∈ t) (hp : p x = false) :
    (s ++ t).rdropWhile p = s ++ t.rdropWhile p := by
  have ht : (t.reverse.dropWhile p).isEmpty = false := by
    rw [List.isEmpty_eq_false_iff]
    intro hnil
    have := List.dropWhile_eq_nil_iff.mp hnil x (List.mem_reverse.mpr hx)
    rw [hp] at this
    cases this
  rw [List.rdropWhile, List.reverse_append, List.dropWhile_append, ht, if_neg Bool.false_ne_true,
    List.reverse_append, List.reverse_reverse, List.rdropWhile]

/-- The blanks in front may go first. -/
theorem strip_eq (p : α → Bool) (s : List α) : strip p s = (s.dropWhile p).rdropWhile p := by
  cases hs : s.dropWhile p with
  | nil =>
    have hall := List.dropWhile_eq_nil_iff.mp hs
    rw [strip, List.rdropWhile_eq_nil_iff.mpr hall]
    rfl
  | cons x t =>
    have hx : p x = false := by
      have := List.head?_dropWhile_not p s
      rw [hs] at this
      simpa using this
    have hfront : ∀ y ∈ s.takeWhile p, p y = true := fun y hy => List.mem_takeWhile_imp hy
    have hdrop : ∀ r, (s.takeWhile p ++ x :: r).dropWhile p = x :: r := by
      intro r
      rw [List.dropWhile_append_of_pos hfront, List.dropWhile_cons_of_neg (by simp [hx])]
    have htail : ∃ r, (x :: t).rdropWhile p = x :: r := by
      cases hr : (x :: t).rdropWhile p with
      | nil =>
        have := List.rdropWhile_eq_nil_iff.mp hr x List.mem_cons_self
        rw [hx] at this
        cases this
      | cons y r =>
        have hpre : y :: r <+: x :: t := hr ▸ List.rdropWhile_prefix p (x :: t)
        exact ⟨r, by rw [(List.cons_prefix_cons.mp hpre).1]⟩
    obtain ⟨r, hr⟩ := htail
    rw [strip, ← List.takeWhile_append_dropWhile (p := p) (l := s), hs,
      rdropWhile_append_of_mem _ List.mem_cons_self hx, hr, hdrop]

/-- A character that is no blank stays, with what is in front of it. -/
theorem strip_concat (s : List α) (hx : p x = false) :
    strip p (s ++ [x]) = s.dropWhile p ++ [x] := by
  rw [strip, List.rdropWhile_concat_neg _ _ _ (by simp [hx]), List.dropWhile_append]
  split
  · rename_i hnil
    rw [List.isEmpty_iff.mp hnil, List.dropWhile_cons_of_neg (by simp [hx])]
    rfl
  · rfl

/-- A blank at the end goes. -/
theorem strip_concat_blank (s : List α) (hx : p x = true) : strip p (s ++ [x]) = strip p s := by
  rw [strip, List.rdropWhile_concat_pos _ _ _ hx, strip]

/-! ## The first occurrence of a character -/

variable [DecidableEq α] {sep : α} {a b : List α}

/-- What stands in front of the first separator, and what stands behind it. -/
def cut (sep : α) : List α → Option (List α × List α)
  | [] => none
  | x :: s => if x = sep then some ([], s) else (cut sep s).map fun parts => (x :: parts.1, parts.2)

theorem cut_eq_some_iff : cut sep s = some (a, b) ↔ s = a ++ sep :: b ∧ sep ∉ a := by
  induction s generalizing a with
  | nil => simp [cut]
  | cons x s ih =>
    unfold cut
    by_cases hx : x = sep
    · subst hx
      cases a with
      | nil => simp
      | cons y a => grind
    · rw [if_neg hx, Option.map_eq_some_iff]
      constructor
      · rintro ⟨⟨a', b'⟩, hcut, heq⟩
        obtain ⟨rfl, rfl⟩ := Prod.mk.inj heq
        obtain ⟨rfl, hsep⟩ := ih.mp hcut
        exact ⟨rfl, List.not_mem_cons_of_ne_of_not_mem (Ne.symm hx) hsep⟩
      · rintro ⟨hs, hsep⟩
        cases a with
        | nil => exact (hx (List.cons.inj hs).1).elim
        | cons y a =>
          obtain ⟨rfl, rfl⟩ := List.cons.inj hs
          exact ⟨(a, b), ih.mpr ⟨rfl, fun h => hsep (List.mem_cons_of_mem _ h)⟩, rfl⟩

theorem cut_eq_none_iff : cut sep s = none ↔ sep ∉ s := by
  induction s with
  | nil => simp [cut]
  | cons x s ih =>
    unfold cut
    by_cases hx : x = sep
    · simp [hx]
    · simp [hx, ih, Ne.symm hx]

theorem cut_append (h : cut sep s = some (a, b)) (t : List α) :
    cut sep (s ++ t) = some (a, b ++ t) := by
  obtain ⟨rfl, ha⟩ := cut_eq_some_iff.mp h
  exact cut_eq_some_iff.mpr ⟨by simp, ha⟩

theorem takeWhile_of_notMem (h : sep ∉ s) : s.takeWhile (· ≠ sep) = s :=
  List.takeWhile_eq_self_iff.mpr fun x hx => by
    simpa using fun hsep : x = sep => h (hsep ▸ hx)

theorem dropWhile_of_notMem (h : sep ∉ s) : s.dropWhile (· ≠ sep) = [] :=
  List.dropWhile_eq_nil_iff.mpr fun x hx => by
    simpa using fun hsep : x = sep => h (hsep ▸ hx)

theorem takeWhile_of_cut (h : cut sep s = some (a, b)) : s.takeWhile (· ≠ sep) = a := by
  obtain ⟨rfl, ha⟩ := cut_eq_some_iff.mp h
  rw [List.takeWhile_append_of_pos (List.takeWhile_eq_self_iff.mp (takeWhile_of_notMem ha)),
    List.takeWhile_cons_of_neg (by simp), List.append_nil]

theorem dropWhile_of_cut (h : cut sep s = some (a, b)) : s.dropWhile (· ≠ sep) = sep :: b := by
  obtain ⟨rfl, ha⟩ := cut_eq_some_iff.mp h
  rw [List.dropWhile_append_of_pos (List.takeWhile_eq_self_iff.mp (takeWhile_of_notMem ha)),
    List.dropWhile_cons_of_neg (by simp)]

/-- The same by the position of the separator. -/
theorem cut_eq_idxOf? (sep : α) (s : List α) :
    cut sep s = (s.idxOf? sep).map fun i => (s.take i, s.drop (i + 1)) := by
  induction s with
  | nil => rfl
  | cons x s ih =>
    rw [cut, List.idxOf?_cons, ih]
    by_cases hx : x = sep
    · simp [hx]
    · rw [if_neg hx, if_neg (by simpa using hx), Option.map_map, Option.map_map]
      rfl

/-! ## Lines -/

/-- The lines, each without its separator. Nothing behind the last separator is no line. -/
def lines (sep : α) : List α → List (List α)
  | [] => []
  | x :: s =>
    if x = sep then [] :: lines sep s
    else
      match lines sep s with
      | [] => [[x]]
      | line :: rest => (x :: line) :: rest

/-- The lines with their separators. -/
def keepLines (sep : α) : List α → List (List α)
  | [] => []
  | x :: s =>
    if x = sep then [x] :: keepLines sep s
    else
      match keepLines sep s with
      | [] => [[x]]
      | line :: rest => (x :: line) :: rest

theorem lines_eq_map (sep : α) (s : List α) :
    lines sep s = (keepLines sep s).map (·.takeWhile (· ≠ sep)) := by
  induction s with
  | nil => rfl
  | cons x s ih =>
    unfold lines keepLines
    rw [ih]
    by_cases hx : x = sep
    · simp [hx]
    · rw [if_neg hx, if_neg hx]
      cases keepLines sep s with
      | nil => simp [hx]
      | cons line rest => simp [hx]

/-- A line has its separator at its end, or is the last one. -/
theorem mem_keepLines {line : List α} (h : line ∈ keepLines sep s) :
    ∃ t, sep ∉ t ∧ (line = t ++ [sep] ∨ (line = t ∧ t ≠ [])) := by
  induction s generalizing line with
  | nil => exact absurd h List.not_mem_nil
  | cons x s ih =>
    unfold keepLines at h
    by_cases hx : x = sep
    · rw [if_pos hx] at h
      rcases List.mem_cons.mp h with rfl | h
      · exact ⟨[], List.not_mem_nil, .inl (by simp [hx])⟩
      · exact ih h
    · rw [if_neg hx] at h
      have hcons : ∀ {t : List α}, sep ∉ t → sep ∉ x :: t := fun ht =>
        List.not_mem_cons_of_ne_of_not_mem (Ne.symm hx) ht
      cases hrest : keepLines sep s with
      | nil =>
        rw [hrest] at h
        obtain rfl := List.mem_singleton.mp h
        exact ⟨[x], hcons List.not_mem_nil, .inr ⟨rfl, List.cons_ne_nil _ _⟩⟩
      | cons first rest =>
        rw [hrest] at h ih
        rcases List.mem_cons.mp h with rfl | h
        · obtain ⟨t, ht, rfl | ⟨rfl, -⟩⟩ := ih List.mem_cons_self
          · exact ⟨x :: t, hcons ht, .inl rfl⟩
          · exact ⟨x :: _, hcons ht, .inr ⟨rfl, List.cons_ne_nil _ _⟩⟩
        · exact ih (List.mem_cons_of_mem _ h)

/-! ## Lines in pieces -/

/-- What a loop of `fgets` into `size + 1` bytes reads, when the first piece has only `room`. -/
def pieces (sep : α) (size : Nat) : Nat → List α → List (List α)
  | _, [] => []
  | room, x :: s =>
    if x = sep ∨ room ≤ 1 then [x] :: pieces sep size size s
    else
      match pieces sep size (room - 1) s with
      | [] => [[x]]
      | piece :: rest => (x :: piece) :: rest

variable {size room : Nat}

theorem pieces_ne_nil (hs : s ≠ []) : pieces sep size room s ≠ [] := by
  obtain ⟨x, s, rfl⟩ := List.exists_cons_of_ne_nil hs
  unfold pieces
  split
  · simp
  · split <;> simp

theorem keepLines_eq_nil_iff : keepLines sep s = [] ↔ s = [] := by
  cases s with
  | nil => simp [keepLines]
  | cons x s =>
    unfold keepLines
    split
    · simp
    · split <;> simp

/-- Each line is read in pieces of its own. -/
theorem pieces_of_keepLines {line : List α} {rest : List (List α)}
    (h : keepLines sep s = line :: rest) :
    pieces sep size room s = pieces sep size room line ++ rest.flatMap (pieces sep size size) := by
  induction s generalizing line rest room with
  | nil => cases h
  | cons x s ih =>
    have hall : pieces sep size size s = (keepLines sep s).flatMap (pieces sep size size) := by
      cases hs : keepLines sep s with
      | nil => rw [keepLines_eq_nil_iff.mp hs, pieces, List.flatMap_nil]
      | cons first others => rw [ih hs, List.flatMap_cons]
    rw [keepLines] at h
    rw [pieces]
    by_cases hx : x = sep
    · rw [if_pos hx] at h
      obtain ⟨rfl, rfl⟩ := List.cons.inj h
      rw [if_pos (.inl hx), pieces, if_pos (.inl hx), pieces, hall]
      rfl
    · rw [if_neg hx] at h
      cases hs : keepLines sep s with
      | nil =>
        rw [hs] at h
        obtain ⟨rfl, rfl⟩ := List.cons.inj h
        rw [keepLines_eq_nil_iff.mp hs]
        simp [pieces]
      | cons first others =>
        rw [hs] at h
        obtain ⟨rfl, rfl⟩ := List.cons.inj h
        rw [pieces]
        by_cases hroom : room ≤ 1
        · rw [if_pos (.inr hroom), if_pos (.inr hroom), ih hs]
          rfl
        · rw [if_neg (not_or.mpr ⟨hx, hroom⟩), if_neg (not_or.mpr ⟨hx, hroom⟩), ih hs]
          cases hfirst : pieces sep size (room - 1) first with
          | nil =>
            have hne : first ≠ [] := by
              obtain ⟨t, -, rfl | ⟨rfl, ht⟩⟩ := mem_keepLines (hs ▸ List.mem_cons_self)
              · simp
              · exact ht
            exact absurd hfirst (pieces_ne_nil hne)
          | cons piece others' => rfl

theorem pieces_eq_flatMap (s : List α) :
    pieces sep size size s = (keepLines sep s).flatMap (pieces sep size size) := by
  cases hs : keepLines sep s with
  | nil => rw [keepLines_eq_nil_iff.mp hs, pieces, List.flatMap_nil]
  | cons line rest => rw [pieces_of_keepLines hs, List.flatMap_cons]

theorem pieces_of_notMem (hs : sep ∉ s) (hne : s ≠ []) (hfits : s.length ≤ room) :
    pieces sep size room s = [s] := by
  induction s generalizing room with
  | nil => exact absurd rfl hne
  | cons x s ih =>
    have hx : x ≠ sep := Ne.symm (List.ne_of_not_mem_cons hs)
    rw [List.length_cons] at hfits
    rw [pieces]
    cases s with
    | nil => simp [pieces]
    | cons y s =>
      rw [List.length_cons] at hfits
      rw [if_neg (not_or.mpr ⟨hx, by omega⟩),
        ih (List.not_mem_of_not_mem_cons hs) (List.cons_ne_nil y s)
          (by rw [List.length_cons]; omega)]

theorem pieces_concat (hs : sep ∉ s) (hfits : s.length < room) :
    pieces sep size room (s ++ [sep]) = [s ++ [sep]] := by
  induction s generalizing room with
  | nil => simp [pieces]
  | cons x s ih =>
    have hx : x ≠ sep := Ne.symm (List.ne_of_not_mem_cons hs)
    rw [List.length_cons] at hfits
    rw [List.cons_append, pieces, if_neg (not_or.mpr ⟨hx, by omega⟩),
      ih (List.not_mem_of_not_mem_cons hs) (by omega)]

/-- A line that fits is one piece. -/
theorem pieces_of_fits {line : List α} (h : line ∈ keepLines sep s) (hfits : line.length ≤ size) :
    pieces sep size size line = [line] := by
  obtain ⟨t, ht, rfl | ⟨rfl, hne⟩⟩ := mem_keepLines h
  · rw [List.length_append, List.length_singleton] at hfits
    exact pieces_concat ht hfits
  · exact pieces_of_notMem ht hne hfits

/-! ## Two searches through the same lines -/

section Searches

variable {ι β : Type} {f g : ι → Option β} {xs : List ι}

theorem findSome?_congr (h : ∀ x ∈ xs, f x = g x) : xs.findSome? f = xs.findSome? g := by
  induction xs with
  | nil => rfl
  | cons x xs ih =>
    obtain ⟨hx, hxs⟩ := List.forall_mem_cons.mp h
    rw [List.findSome?_cons, List.findSome?_cons, hx, ih hxs]

theorem findSome?_flatMap {κ : Type} (h : κ → List ι) (ys : List κ) :
    (ys.flatMap h).findSome? f = ys.findSome? fun y => (h y).findSome? f := by
  induction ys with
  | nil => rfl
  | cons y ys ih =>
    rw [List.flatMap_cons, List.findSome?_append, ih, List.findSome?_cons]
    cases (h y).findSome? f <;> rfl

/-- At the first item where two searches differ, one of them goes on and finds there what the other
one has found. -/
def MeetLater (f g : ι → Option β) (xs : List ι) : Prop :=
  ∀ pre x post, xs = pre ++ x :: post → (∀ y ∈ pre, f y = none ∧ g y = none) → f x ≠ g x →
    (∃ o, f x = some o ∧ g x = none ∧ post.findSome? g = some o) ∨
      ∃ o, f x = none ∧ g x = some o ∧ post.findSome? f = some o

theorem meetLater_cons_iff (x : ι) (xs : List ι) : MeetLater f g (x :: xs) ↔
    (f x ≠ g x → (∃ o, f x = some o ∧ g x = none ∧ xs.findSome? g = some o) ∨
      ∃ o, f x = none ∧ g x = some o ∧ xs.findSome? f = some o) ∧
    (f x = none → g x = none → MeetLater f g xs) := by
  constructor
  · intro h
    refine ⟨h [] x xs rfl (fun _ hy => absurd hy List.not_mem_nil), fun hf hg => ?_⟩
    intro pre y post hxs hpre
    exact h (x :: pre) y post (congrArg _ hxs) (List.forall_mem_cons.mpr ⟨⟨hf, hg⟩, hpre⟩)
  · rintro ⟨hhead, htail⟩ pre y post hxs hpre
    cases pre with
    | nil =>
      obtain ⟨rfl, rfl⟩ := List.cons.inj hxs
      exact hhead
    | cons z pre =>
      obtain ⟨rfl, rfl⟩ := List.cons.inj hxs
      obtain ⟨⟨hf, hg⟩, hpre⟩ := List.forall_mem_cons.mp hpre
      exact htail hf hg pre y post rfl hpre

/-- Two searches find the same exactly when they meet behind the first item where they differ. -/
theorem findSome?_eq_iff (xs : List ι) : xs.findSome? f = xs.findSome? g ↔ MeetLater f g xs := by
  induction xs with
  | nil => simp [MeetLater]
  | cons x xs ih =>
    rw [meetLater_cons_iff, List.findSome?_cons, List.findSome?_cons]
    cases hf : f x with
    | none =>
      cases hg : g x with
      | none => simpa using ih
      | some o => simp [eq_comm]
    | some o =>
      cases hg : g x with
      | none => simp [eq_comm]
      | some o' => simp

end Searches

end Lines
