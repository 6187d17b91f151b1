import Mathlib.Algebra.GroupWithZero.Nat
import Mathlib.Data.List.TakeDrop
import Mathlib.Data.List.TakeWhile
import Mathlib.Tactic.Common

/-!
# Strings in fixed character buffers

A `char[N]` that always holds a string is `Buf N`: its last byte is NUL, so the string it holds
ends inside it. Writes go to the front of the buffer and leave the rest as it was, so what a
buffer held before can show up behind a string that is copied without its terminator.
-/

namespace CString

/-- A `char[N]` whose last byte is NUL. -/
structure Buf (N : Nat) where
  bytes : List UInt8
  length_eq : bytes.length = N
  last_eq : bytes.getLast? = some 0

variable {N : Nat}

/-- The buffer that `memset(buf, 0, N)` leaves. -/
def Buf.zeros (N : Nat) [h : Fact (0 < N)] : Buf N where
  bytes := List.replicate N 0
  length_eq := List.length_replicate
  last_eq := by
    rw [List.getLast?_replicate, if_neg (Nat.ne_of_gt h.out)]

/-- The bytes before the first NUL. -/
def chars (l : List UInt8) : List UInt8 := l.takeWhile (· ≠ 0)

/-- The C string in the buffer. -/
def Buf.str (b : Buf N) : List UInt8 := chars b.bytes

/-- `memcpy(buf, s, |s|)`. A write that would leave no byte for the terminator is refused. -/
def Buf.write (b : Buf N) (s : List UInt8) : Option (Buf N) :=
  if h : s.length < N then
    some {
      bytes := s ++ b.bytes.drop s.length
      length_eq := by
        rw [List.length_append, List.length_drop, b.length_eq]
        omega
      last_eq := by
        have hlt : ¬ b.bytes.length ≤ s.length := by
          rw [b.length_eq]
          omega
        rw [List.getLast?_append, List.getLast?_drop, if_neg hlt, b.last_eq]
        rfl }
  else none

/-- `snprintf(buf, size, ...)` of the text `s`: at most `size - 1` characters and the NUL. -/
def Buf.snprintf (b : Buf N) (size : Nat) (s : List UInt8) : Option (Buf N) :=
  b.write (s.take (size - 1) ++ [0])

theorem chars_ne_zero {l : List UInt8} {x : UInt8} (hx : x ∈ chars l) : x ≠ 0 := by
  simpa using List.mem_takeWhile_imp hx

theorem chars_append {s t : List UInt8} (hs : ∀ x ∈ s, x ≠ 0) :
    chars (s ++ t) = s ++ chars t := by
  unfold chars
  exact List.takeWhile_append_of_pos (by simpa using hs)

theorem chars_drop {l s t : List UInt8} (h : chars l = s ++ t) : chars (l.drop s.length) = t := by
  induction s generalizing l with
  | nil => exact h
  | cons x s ih =>
    cases l with
    | nil => cases h
    | cons y l =>
      unfold chars at h
      rw [List.takeWhile_cons] at h
      split at h
      · rw [List.cons_append, List.cons.injEq] at h
        exact ih h.2
      · cases h

theorem chars_zero_cons (t : List UInt8) : chars (0 :: t) = [] := by simp [chars]

theorem Buf.str_length_lt (b : Buf N) : b.str.length < N := by
  have hle : b.str.length ≤ b.bytes.length := (List.takeWhile_sublist _).length_le
  refine lt_of_le_of_ne (hle.trans_eq b.length_eq) fun heq => ?_
  have hall : b.str = b.bytes :=
    (List.takeWhile_sublist _).eq_of_length (heq.trans b.length_eq.symm)
  have hmem : (0 : UInt8) ∈ b.str := hall ▸ List.mem_of_getLast? b.last_eq
  exact chars_ne_zero hmem rfl

@[simp] theorem Buf.str_zeros [h : Fact (0 < N)] : (Buf.zeros N).str = [] := by
  obtain ⟨n, hn⟩ := Nat.exists_eq_succ_of_ne_zero (Nat.ne_of_gt h.out)
  unfold Buf.zeros Buf.str
  simp [hn, List.replicate_succ, chars_zero_cons]

theorem Buf.write_bytes {b b' : Buf N} {s : List UInt8} (h : b.write s = some b') :
    b'.bytes = s ++ b.bytes.drop s.length := by
  unfold Buf.write at h
  split at h
  · cases h
    rfl
  · cases h

/-- `memcpy(dst, src, strlen(src))`: the string of `src` without its terminator. -/
def Buf.copyStr (dst src : Buf N) : Buf N :=
  (dst.write src.str).getD dst

theorem Buf.copyStr_bytes (dst src : Buf N) :
    (dst.copyStr src).bytes = src.str ++ dst.bytes.drop src.str.length := by
  unfold Buf.copyStr Buf.write
  rw [dif_pos src.str_length_lt]
  rfl

/-- What the destination held behind the copied string stays behind it. -/
theorem Buf.copyStr_str (dst src : Buf N) :
    (dst.copyStr src).str = src.str ++ chars (dst.bytes.drop src.str.length) := by
  unfold Buf.str at *
  rw [Buf.copyStr_bytes]
  exact chars_append fun x hx => chars_ne_zero hx

/-- The copy is the source's string exactly when the destination has a NUL where it ends. -/
theorem Buf.copyStr_str_eq_iff (dst src : Buf N) :
    (dst.copyStr src).str = src.str ↔ dst.bytes[src.str.length]? = some 0 := by
  rw [Buf.copyStr_str, List.append_right_eq_self]
  have hlt : src.str.length < dst.bytes.length := by
    rw [dst.length_eq]
    exact src.str_length_lt
  rw [List.drop_eq_getElem_cons hlt, List.getElem?_eq_getElem hlt, Option.some.injEq, chars,
    List.takeWhile_cons]
  by_cases hz : dst.bytes[src.str.length] = 0
  · simp [hz]
  · rw [if_pos (by simpa using hz)]
    simp [hz]

/-- The buffer holds the empty string exactly when it starts with a NUL. -/
theorem Buf.str_eq_nil_iff (b : Buf N) : b.str = [] ↔ b.bytes[0]? = some 0 := by
  obtain ⟨x, l, hbytes⟩ := List.exists_cons_of_ne_nil (l := b.bytes) fun hnil => by
    have hlast := b.last_eq
    rw [hnil] at hlast
    cases hlast
  unfold Buf.str chars
  rw [hbytes, List.takeWhile_cons]
  by_cases hx : x = 0
  · simp [hx]
  · simp [hx]

/-! ## Strings built in a zeroed buffer -/

/-- The buffer holds the string `s` and only NULs behind it. -/
structure Buf.Holds (b : Buf N) (s : List UInt8) : Prop where
  nonzero : ∀ x ∈ s, x ≠ 0
  bytes_eq : b.bytes = s ++ List.replicate (N - s.length) 0

section Holds

variable {b : Buf N} {s t : List UInt8}

theorem Buf.holds_zeros [Fact (0 < N)] : (Buf.zeros N).Holds [] :=
  ⟨fun _ hx => absurd hx List.not_mem_nil, rfl⟩

theorem Buf.Holds.str_eq (h : b.Holds s) : b.str = s := by
  unfold Buf.str
  rw [h.bytes_eq, chars_append h.nonzero, List.append_right_eq_self]
  cases N - s.length with
  | zero => rfl
  | succ k => exact chars_zero_cons _

theorem Buf.write_isSome (b : Buf N) (hlt : t.length < N) : ∃ b', b.write t = some b' := by
  unfold Buf.write
  rw [dif_pos hlt]
  exact ⟨_, rfl⟩

theorem Buf.write_eq_none (b : Buf N) (hle : N ≤ t.length) : b.write t = none := by
  unfold Buf.write
  rw [dif_neg (Nat.not_lt.mpr hle)]

/-- A write over another one that was no longer leaves nothing of it. -/
theorem Buf.write_write {b' : Buf N} (h : b.write s = some b') (hle : s.length ≤ t.length) :
    b'.write t = b.write t := by
  rcases Nat.lt_or_ge t.length N with hlt | hge
  · obtain ⟨c, hc⟩ := b.write_isSome hlt
    obtain ⟨c', hc'⟩ := b'.write_isSome hlt
    have hbytes : c'.bytes = c.bytes := by
      rw [Buf.write_bytes hc', Buf.write_bytes hc, Buf.write_bytes h, List.drop_append,
        List.drop_eq_nil_of_le hle, List.nil_append, List.drop_drop, Nat.add_sub_cancel' hle]
    obtain ⟨bytes, _, _⟩ := c
    obtain ⟨bytes', _, _⟩ := c'
    cases hbytes
    rw [hc, hc']
  · rw [Buf.write_eq_none b hge, Buf.write_eq_none b' hge]

/-- A write over a string leaves the part of the string that is behind it. -/
theorem Buf.Holds.write_over (h : b.Holds s) (ht : ∀ x ∈ t, x ≠ 0) (hlt : t.length < N) :
    ∃ b', b.write t = some b' ∧ b'.Holds (t ++ s.drop t.length) := by
  obtain ⟨b', hb'⟩ := b.write_isSome hlt
  refine ⟨b', hb', ?_, ?_⟩
  · exact List.forall_mem_append.mpr ⟨ht, fun x hx => h.nonzero x (List.mem_of_mem_drop hx)⟩
  · have hzeros : N - s.length - (t.length - s.length) = N - (t ++ s.drop t.length).length := by
      rw [List.length_append, List.length_drop]
      omega
    rw [Buf.write_bytes hb', h.bytes_eq, List.drop_append, List.drop_replicate, hzeros,
      List.append_assoc]

/-- What is left of a build of the string `s`: a buffer that holds it, if it fits. -/
def Buf.Builds (r : Option (Buf N)) (s : List UInt8) : Prop :=
  (s.length < N → ∃ b, r = some b ∧ b.Holds s) ∧ (N ≤ s.length → r = none)

theorem Buf.Holds.builds (h : b.Holds s) : Buf.Builds (some b) s := by
  refine ⟨fun _ => ⟨b, rfl, h⟩, fun hge => ?_⟩
  have hlt := b.str_length_lt
  rw [h.str_eq] at hlt
  exact absurd hge (Nat.not_le.mpr hlt)

theorem Buf.Holds.builds_write (h : b.Holds s) (ht : ∀ x ∈ t, x ≠ 0) (hle : s.length ≤ t.length) :
    Buf.Builds (b.write t) t := by
  refine ⟨fun hlt => ?_, b.write_eq_none⟩
  have hover := h.write_over ht hlt
  rwa [List.drop_eq_nil_of_le hle, List.append_nil] at hover

theorem Buf.length_lt_of_write {b' : Buf N} (hb : b.write t = some b') : t.length < N := by
  by_contra hge
  rw [b.write_eq_none (Nat.le_of_not_lt hge)] at hb
  cases hb

/-- A text over a string that is no longer. -/
theorem Buf.Holds.of_write {b' : Buf N} (h : b.Holds s) (ht : ∀ x ∈ t, x ≠ 0)
    (hle : s.length ≤ t.length) (hb : b.write t = some b') : b'.Holds t := by
  obtain ⟨b'', hb'', hholds⟩ := (h.builds_write ht hle).1 (Buf.length_lt_of_write hb)
  rw [hb] at hb''
  cases hb''
  exact hholds

/-- A text with its NUL over a string that ends where the NUL goes, at the latest. -/
theorem Buf.Holds.of_write_nul {b' : Buf N} (h : b.Holds s) (ht : ∀ x ∈ t, x ≠ 0)
    (hle : s.length ≤ t.length + 1) (hb : b.write (t ++ [0]) = some b') : b'.Holds t := by
  have hlt := Buf.length_lt_of_write hb
  rw [List.length_append, List.length_singleton] at hlt
  have hzeros : N - t.length = N - s.length - (t.length + 1 - s.length) + 1 := by omega
  refine ⟨ht, ?_⟩
  rw [Buf.write_bytes hb, h.bytes_eq, List.length_append, List.length_singleton, List.drop_append,
    List.drop_of_length_le hle, List.nil_append, List.drop_replicate, hzeros, List.append_assoc]
  rfl

/-- A build that goes on where another one ended. -/
theorem Buf.Builds.bind {r : Option (Buf N)} {f : Buf N → Option (Buf N)} (h : Buf.Builds r s)
    (hf : ∀ b, b.Holds s → Buf.Builds (f b) (s ++ t)) : Buf.Builds (r >>= f) (s ++ t) := by
  rcases Nat.lt_or_ge s.length N with hlt | hge
  · obtain ⟨b, rfl, hb⟩ := h.1 hlt
    exact hf b hb
  · rw [h.2 hge]
    refine ⟨fun hlt => ?_, fun _ => rfl⟩
    rw [List.length_append] at hlt
    omega

theorem Buf.Builds.str_eq {r : Option (Buf N)} (h : Buf.Builds r s) :
    r.map Buf.str = if s.length < N then some s else none := by
  by_cases hlt : s.length < N
  · obtain ⟨b, rfl, hb⟩ := h.1 hlt
    rw [if_pos hlt, Option.map_some, hb.str_eq]
  · rw [if_neg hlt, h.2 (Nat.not_lt.mp hlt), Option.map_none]

/-- The buffer that `snprintf` of a text leaves, cut to what fits into `size`. -/
theorem Buf.snprintf_over (h : b.Holds s) (ht : ∀ x ∈ t, x ≠ 0) (size : Nat) (hpos : 0 < size)
    (hsize : size < N) :
    ∃ b', b.snprintf size t = some b' ∧ b'.str = t.take (size - 1) ∧
      ∀ x ≠ 0, Buf.Builds (b'.write (b'.str ++ [x]))
        (t.take (size - 1) ++ x :: s.drop ((t.take (size - 1)).length + 1)) := by
  have hfit : (t.take (size - 1)).length ≤ size - 1 := List.length_take_le _ _
  have htake : ∀ x ∈ t.take (size - 1), x ≠ 0 := fun x hx => ht x (List.mem_of_mem_take hx)
  have hlt : ∀ x, (t.take (size - 1) ++ [x]).length < N := fun x => by
    rw [List.length_append, List.length_singleton]
    omega
  obtain ⟨b', hb'⟩ := b.write_isSome (hlt 0)
  have hstr : b'.str = t.take (size - 1) := by
    unfold Buf.str
    rw [Buf.write_bytes hb', List.append_assoc, chars_append htake]
    exact (congrArg _ (chars_zero_cons _)).trans (List.append_nil _)
  refine ⟨b', hb', hstr, fun x hx => ?_⟩
  have hwrite := Buf.write_write hb' (t := t.take (size - 1) ++ [x]) (by simp)
  obtain ⟨b'', hb'', hholds⟩ := h.write_over (t := t.take (size - 1) ++ [x])
    (List.forall_mem_append.mpr ⟨htake, List.forall_mem_singleton.mpr hx⟩) (hlt x)
  rw [hstr, hwrite, hb'']
  rw [List.append_assoc, List.length_append] at hholds
  exact hholds.builds

/-- `snprintf` into a zeroed buffer leaves what fits into `size`. -/
theorem Buf.holds_snprintf [Fact (0 < N)] (hs : ∀ x ∈ s, x ≠ 0) (size : Nat) (hpos : 0 < size)
    (hsize : size < N) :
    ∃ b', (Buf.zeros N).snprintf size s = some b' ∧ b'.Holds (s.take (size - 1)) := by
  have hfit : (s.take (size - 1)).length ≤ size - 1 := List.length_take_le _ _
  have hlen : (s.take (size - 1) ++ [0]).length = (s.take (size - 1)).length + 1 := by simp
  obtain ⟨b', hb'⟩ := (Buf.zeros N).write_isSome (t := s.take (size - 1) ++ [0]) (by omega)
  refine ⟨b', hb', fun x hx => hs x (List.mem_of_mem_take hx), ?_⟩
  have hzeros : N - (s.take (size - 1)).length = N - ((s.take (size - 1)).length + 1) + 1 := by
    omega
  rw [Buf.write_bytes hb', hlen, hzeros, List.replicate_succ, List.append_assoc]
  show _ ++ ([0] ++ (List.replicate N 0).drop _) = _
  rw [List.drop_replicate]
  rfl

end Holds

/-! ## Names copied one after another -/

/-- The buffers that `memcpy(dst, src, strlen(src))` of each source in turn leaves. -/
def Buf.copies (dst : Buf N) : List (Buf N) → List (Buf N)
  | [] => []
  | src :: rest => dst.copyStr src :: (dst.copyStr src).copies rest

/-- The last of them. -/
def Buf.copyAll (dst : Buf N) (srcs : List (Buf N)) : Buf N := srcs.foldl Buf.copyStr dst

theorem Buf.copies_eq_nil_iff (dst : Buf N) (srcs : List (Buf N)) :
    dst.copies srcs = [] ↔ srcs = [] := by
  cases srcs with
  | nil => simp [Buf.copies]
  | cons src rest => simp [Buf.copies]

theorem Buf.copyAll_mem_copies (dst : Buf N) {srcs : List (Buf N)} (hsrcs : srcs ≠ []) :
    dst.copyAll srcs ∈ dst.copies srcs := by
  induction srcs generalizing dst with
  | nil => exact (hsrcs rfl).elim
  | cons src rest ih =>
    by_cases hrest : rest = []
    · rw [hrest]
      exact List.mem_cons_self
    · exact List.mem_cons_of_mem _ (ih (dst.copyStr src) hrest)

theorem Buf.copyStr_getElem_eq_zero_iff (dst src : Buf N) (i : Nat) :
    (dst.copyStr src).bytes[i]? = some 0 ↔ dst.bytes[i]? = some 0 ∧ src.str.length ≤ i := by
  rw [Buf.copyStr_bytes]
  by_cases hi : i < src.str.length
  · rw [List.getElem?_append_left hi]
    refine iff_of_false (fun hzero => ?_) fun h => Nat.not_le_of_lt hi h.2
    exact chars_ne_zero (List.mem_of_getElem? hzero) rfl
  · have hle : src.str.length ≤ i := Nat.le_of_not_lt hi
    rw [List.getElem?_append_right hle, List.getElem?_drop, Nat.add_sub_cancel' hle]
    exact (and_iff_left hle).symm

/-- A NUL stays where it is as long as no source reaches it. -/
theorem Buf.copyAll_getElem_eq_zero_iff (dst : Buf N) (srcs : List (Buf N)) (i : Nat) :
    (dst.copyAll srcs).bytes[i]? = some 0 ↔
      dst.bytes[i]? = some 0 ∧ ∀ src ∈ srcs, src.str.length ≤ i := by
  induction srcs generalizing dst with
  | nil => simp [Buf.copyAll]
  | cons src rest ih =>
    show ((dst.copyStr src).copyAll rest).bytes[i]? = some 0 ↔ _
    rw [ih, Buf.copyStr_getElem_eq_zero_iff, List.forall_mem_cons, and_assoc]

/-- What was copied last is what the buffer holds exactly when the buffer had a NUL where it ends,
and no source reaches further. -/
theorem Buf.copyAll_str_eq_iff (dst : Buf N) (srcs : List (Buf N)) {d : Buf N} (hd : d.str = []) :
    (dst.copyAll srcs).str = (srcs.getLastD d).str ↔
      dst.bytes[(srcs.getLastD d).str.length]? = some 0 ∧
        ∀ src ∈ srcs, src.str.length ≤ (srcs.getLastD d).str.length := by
  rcases List.eq_nil_or_concat srcs with rfl | ⟨init, last, rfl⟩
  · simp [Buf.copyAll, hd, Buf.str_eq_nil_iff]
  · have hall : dst.copyAll (init ++ [last]) = (dst.copyAll init).copyStr last := by
      unfold Buf.copyAll
      rw [List.foldl_append]
      rfl
    rw [List.concat_eq_append, hall, List.getLastD_concat, Buf.copyStr_str_eq_iff,
      Buf.copyAll_getElem_eq_zero_iff, List.forall_mem_append, List.forall_mem_singleton]
    exact and_congr_right fun _ => (and_iff_left (Nat.le_refl _)).symm

/-- Each of the buffers holds `s`: every source is a prefix of it, and behind the first source the
destination goes on as `s` does. -/
def Buf.ReadsAs (dst : Buf N) (srcs : List (Buf N)) (s : List UInt8) : Prop :=
  (∀ src ∈ srcs, src.str <+: s) ∧
    ∀ src ∈ srcs.head?, src.str ++ chars (dst.bytes.drop src.str.length) = s

theorem Buf.copies_str_iff (dst : Buf N) (srcs : List (Buf N)) (s : List UInt8) :
    (∀ b ∈ dst.copies srcs, b.str = s) ↔ dst.ReadsAs srcs s := by
  induction srcs generalizing dst with
  | nil => simp [Buf.copies, Buf.ReadsAs]
  | cons src rest ih =>
    unfold Buf.copies
    rw [List.forall_mem_cons, ih, Buf.copyStr_str]
    unfold Buf.ReadsAs
    rw [List.forall_mem_cons]
    simp only [List.head?_cons, Option.mem_some_iff, forall_eq']
    constructor
    · rintro ⟨hs, hrest, -⟩
      exact ⟨⟨⟨_, hs⟩, hrest⟩, hs⟩
    · rintro ⟨⟨-, hrest⟩, hs⟩
      refine ⟨hs, hrest, fun next hnext => ?_⟩
      -- the buffer holds `s` by now, and writing a prefix of it again changes nothing
      obtain ⟨t, rfl⟩ := hrest next (List.mem_of_mem_head? hnext)
      have hstr : chars (dst.copyStr src).bytes = next.str ++ t := by
        rw [← hs]
        exact Buf.copyStr_str dst src
      rw [List.append_cancel_left_eq]
      exact chars_drop hstr

/-- One string, written again and again, into a buffer that is empty or holds it already. -/
theorem Buf.readsAs_of_same [Fact (0 < N)] {dst : Buf N} {srcs : List (Buf N)} {s : List UInt8}
    (hdst : dst = Buf.zeros N ∨ dst.str = s) (hsrcs : ∀ src ∈ srcs, src.str = s) :
    dst.ReadsAs srcs s := by
  refine ⟨fun src hsrc => (hsrcs src hsrc).symm ▸ List.prefix_rfl, fun src hsrc => ?_⟩
  rw [hsrcs src (List.mem_of_mem_head? hsrc), List.append_right_eq_self]
  rcases hdst with rfl | hstr
  · show chars ((List.replicate N 0).drop s.length) = []
    rw [List.drop_replicate]
    cases N - s.length with
    | zero => rfl
    | succ k => exact chars_zero_cons _
  · exact chars_drop (hstr.trans (List.append_nil s).symm)

/-! ## Writes that may leave an array -/

/-- `isspace` in the C locale. -/
def isspace (b : UInt8) : Bool := b ∈ ([32, 9, 10, 11, 12, 13] : List UInt8)

/-- `strtok`, on the string or on what the call before has left: the token, and what it leaves;
`none` is a null pointer. -/
def strtok (delim s : List UInt8) : Option (List UInt8 × List UInt8) :=
  match s.dropWhile (· ∈ delim) with
  | [] => none
  | rest => some (rest.takeWhile (· ∉ delim), (rest.dropWhile (· ∉ delim)).tail)

/-- A `char[N]`. -/
structure CharArray (N : Nat) where
  bytes : List UInt8
  length_eq : bytes.length = N

namespace CharArray

/-- `char buf[N] {}`. -/
def zeros (N : Nat) : CharArray N := ⟨List.replicate N 0, List.length_replicate⟩

/-- The C string in the array. -/
def str (buf : CharArray N) : List UInt8 := chars buf.bytes

/-- `memcpy(buf + i, s, |s|)`, unless it leaves the array. -/
def memcpy (buf : CharArray N) (i : Nat) (s : List UInt8) : Option (CharArray N) :=
  if h : i + s.length ≤ N then
    some {
      bytes := buf.bytes.take i ++ s ++ buf.bytes.drop (i + s.length)
      length_eq := by
        simp only [List.length_append, List.length_take, List.length_drop, buf.length_eq]
        omega }
  else none

/-- `strcat(buf, s)`, unless it leaves the array. -/
def strcat (buf : CharArray N) (s : List UInt8) : Option (CharArray N) :=
  buf.memcpy buf.str.length (s ++ [0])

/-- `snprintf(buf, sizeof(buf), ...)` of the text `s`: what fits of it, and the NUL. -/
def snprintf [NeZero N] (buf : CharArray N) (s : List UInt8) : CharArray N where
  bytes := s.take (N - 1) ++ 0 :: buf.bytes.drop ((s.take (N - 1)).length + 1)
  length_eq := by
    have hN := Nat.pos_of_neZero N
    simp only [List.length_append, List.length_cons, List.length_take, List.length_drop,
      buf.length_eq]
    omega

variable {s t : List UInt8}

theorem chars_terminated (hs : ∀ x ∈ s, x ≠ 0) (t : List UInt8) : chars (s ++ 0 :: t) = s := by
  rw [chars_append hs, chars_zero_cons, List.append_nil]

theorem str_snprintf [NeZero N] (buf : CharArray N) (hs : ∀ x ∈ s, x ≠ 0) :
    (buf.snprintf s).str = s.take (N - 1) :=
  chars_terminated (fun x hx => hs x (List.mem_of_mem_take hx)) _

/-- `snprintf` keeps the whole text exactly when it leaves room for the NUL. -/
theorem str_snprintf_eq_iff [NeZero N] (buf : CharArray N) (hs : ∀ x ∈ s, x ≠ 0) :
    (buf.snprintf s).str = s ↔ s.length < N := by
  have hN := Nat.pos_of_neZero N
  rw [buf.str_snprintf hs, List.take_eq_self_iff]
  omega

theorem memcpy_eq_none_iff (buf : CharArray N) (i : Nat) (s : List UInt8) :
    buf.memcpy i s = none ↔ N < i + s.length := by
  simp [memcpy]

theorem memcpy_bytes {buf b : CharArray N} {i : Nat} (h : buf.memcpy i s = some b) :
    b.bytes = buf.bytes.take i ++ s ++ buf.bytes.drop (i + s.length) := by
  unfold memcpy at h
  split at h
  · cases h
    rfl
  · cases h

/-- A string goes behind the one in the array exactly when there is room for the NUL. -/
theorem strcat_iff (buf : CharArray N) (hs : ∀ x ∈ s, x ≠ 0) :
    (∃ b, buf.strcat s = some b ∧ b.str = buf.str ++ s) ↔ buf.str.length + s.length < N := by
  have htake : buf.bytes.take buf.str.length = buf.str :=
    (List.prefix_iff_eq_take.mp (List.takeWhile_prefix _)).symm
  constructor
  · rintro ⟨b, hb, -⟩
    by_contra hlt
    have hnone := (buf.memcpy_eq_none_iff buf.str.length (s ++ [0])).mpr (by simp; omega)
    rw [strcat, hnone] at hb
    cases hb
  · intro hlt
    cases hb : buf.strcat s with
    | none =>
      have := (buf.memcpy_eq_none_iff _ _).mp hb
      rw [List.length_append, List.length_singleton] at this
      omega
    | some b =>
      refine ⟨b, rfl, ?_⟩
      rw [str, memcpy_bytes hb, htake, ← List.append_assoc, List.append_assoc]
      refine chars_terminated ?_ _
      exact List.forall_mem_append.mpr ⟨fun x hx => chars_ne_zero hx, hs⟩

end CharArray

end CString
