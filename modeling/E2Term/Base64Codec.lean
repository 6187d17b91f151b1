import E2Term.Lib.Base64
import E2Term.Lib.CString
import E2Term.Lib.Digits
import E2Term.Lib.Stores
import E2Term.RanName

/-!
# Base64 in place

`base64::encode` and `base64::decode` write through a pointer into memory of the caller, whose
size they are told. What they write is kept as stores, so that a store behind the end of that memory
is seen.
-/

namespace E2Term

open CString Stores

/-- The memory behind a pointer, from where it points to. -/
abbrev Memory := Int → UInt8

/-- A pointer to some bytes. -/
def pointerTo (bytes : List UInt8) : Memory := fun i => bytes.getD i.toNat 0

/-- `base64_table`. -/
def base64Table : List UInt8 :=
  text "ABCDEFGHIJKLMNOPQRSTUVWXYZabcdefghijklmnopqrstuvwxyz0123456789+/"

/-- `base64_table[i]`. -/
def base64Char (i : Nat) : UInt8 := base64Table.getD i 0

/-- `=`. -/
def padChar : UInt8 := 61

/-! ## Encoding -/

/-- The loop of `base64::encode` and the tail behind it. -/
def encodeLoop : List UInt8 → Writer UInt8 → Writer UInt8
  | [], pos => pos
  | [in₀], pos =>
    pos.puts [base64Char (in₀.toNat >>> 2), base64Char ((in₀.toNat &&& 0x03) <<< 4), padChar,
      padChar]
  | [in₀, in₁], pos =>
    pos.puts [base64Char (in₀.toNat >>> 2),
      base64Char ((in₀.toNat &&& 0x03) <<< 4 ||| in₁.toNat >>> 4),
      base64Char ((in₁.toNat &&& 0x0f) <<< 2), padChar]
  | in₀ :: in₁ :: in₂ :: rest, pos =>
    encodeLoop rest (pos.puts [base64Char (in₀.toNat >>> 2),
      base64Char ((in₀.toNat &&& 0x03) <<< 4 ||| in₁.toNat >>> 4),
      base64Char ((in₁.toNat &&& 0x0f) <<< 2 ||| in₂.toNat >>> 6),
      base64Char (in₂.toNat &&& 0x3f)])

/-- What `base64::encode` returns, leaves in `dstLen` and stores to `dst`. -/
structure EncodeResult where
  ret : Int
  dstLen : Int
  stores : List (Int × UInt8)

/-- `base64::encode`; `none` is a null pointer. -/
def base64Encode (src : Option Memory) (srcLen : Int32) (dst : Option Memory) (dstLen : Int) :
    EncodeResult :=
  if dstLen ≤ 0 ∨ srcLen ≤ 0 then ⟨-1, dstLen, []⟩
  -- computed in `int`
  else if dstLen < (srcLen * 4 / 3).toInt then ⟨-1, dstLen, []⟩
  else
    match dst, src with
    | none, _ => ⟨-1, dstLen, []⟩
    | some _, none => ⟨-1, dstLen, []⟩
    | some _, some src =>
      let pos := encodeLoop (bytesAt src srcLen.toInt.toNat) .start
      ⟨0, pos.pos, (pos.put 0).stores⟩

/-! ## Decoding -/

/-- The assignments to `inv_table`. -/
def invEntries : List (UInt8 × UInt8) :=
  (base64Table.zipIdx.map fun entry => (entry.1, entry.2.toUInt8)) ++ [(padChar, 0)]

/-- `inv_table`, as it is filled. -/
def invTable : UInt8 → UInt8 := replay (fun _ => 0x80) invEntries

/-- The variables of the second loop of `base64::decode`, with the indices at which it wrote to
`block`. -/
structure Decoder where
  pos : Writer UInt8
  block : Nat → UInt8
  blockIndices : List Nat
  count : Nat
  pad : Nat

/-- Before the loop. What `block` holds then is never read. -/
def Decoder.start : Decoder := ⟨.start, fun _ => 0, [], 0, 0⟩

/-- The character `src[i]`, which is in the table, goes to the block. -/
def Decoder.take (d : Decoder) (c : UInt8) : Decoder :=
  { d with
    block := Function.update d.block d.count (invTable c)
    blockIndices := d.blockIndices ++ [d.count]
    count := d.count + 1
    pad := if c = padChar then d.pad + 1 else d.pad }

/-- A full block goes to `dst`. -/
def Decoder.flush (d : Decoder) : Decoder :=
  { d with
    pos := d.pos.puts [((d.block 0).toNat <<< 2 ||| (d.block 1).toNat >>> 4).toUInt8,
      ((d.block 1).toNat <<< 4 ||| (d.block 2).toNat >>> 2).toUInt8,
      ((d.block 2).toNat <<< 6 ||| (d.block 3).toNat).toUInt8]
    count := 0 }

/-- The second loop of `base64::decode` over the rest of the source, with what it returns. -/
def decodeLoop : List UInt8 → Decoder → Int × Decoder
  | [], d => (0, d)
  | c :: rest, d =>
    if invTable c = 0x80 then decodeLoop rest d
    else
      let d := d.take c
      if d.count = 4 then
        let d := d.flush
        if d.pad = 0 then decodeLoop rest d
        else if d.pad = 1 then (0, { d with pos := d.pos.rewind 1 })
        else if d.pad = 2 then (0, { d with pos := d.pos.rewind 2 })
        else (-1, d)
      else decodeLoop rest d

/-- What `base64::decode` returns, stores to `dst`, and at which indices it wrote to `block`. -/
structure DecodeResult where
  ret : Int
  stores : List (Int × UInt8)
  blockIndices : List Nat

/-- `base64::decode`. -/
def base64Decode (src : Memory) (srcLen : Int32) (dst : Option Memory) (dstLen : Int) :
    DecodeResult :=
  if dstLen = 0 ∨ dstLen < (srcLen / 4 * 3).toInt then ⟨-1, [], []⟩
  else
    match dst with
    | none => ⟨-1, [], []⟩
    | some _ =>
      let bytes := bytesAt src srcLen.toInt.toNat
      let count := bytes.countP fun c => invTable c ≠ 0x80
      if count = 0 ∨ count % 4 ≠ 0 then ⟨-1, [], []⟩
      else
        let (ret, d) := decodeLoop bytes .start
        ⟨ret, d.pos.stores, d.blockIndices⟩

/-! ## The alphabet -/

theorem nodup_invEntries : (invEntries.map Prod.fst).Nodup := by
  decide +kernel

/-- A character of the table or the padding. -/
def isBase64 (c : UInt8) : Bool := c ∈ base64Table ∨ c = padChar

theorem mem_invEntries (c : UInt8) : c ∈ invEntries.map Prod.fst ↔ isBase64 c = true := by
  have hkeys : invEntries.map Prod.fst = base64Table ++ [padChar] := by
    unfold invEntries
    rw [List.map_append, List.map_map]
    exact congrArg (· ++ [padChar]) (List.zipIdx_map_fst 0 base64Table)
  rw [hkeys, List.mem_append, List.mem_singleton]
  simp [isBase64]

theorem invTable_pad : invTable padChar = 0 :=
  replay_of_mem _ (List.mem_append_right _ (List.mem_singleton.mpr rfl)) nodup_invEntries

theorem invTable_char {i : Nat} (hi : i < 64) : invTable (base64Char i) = i.toUInt8 := by
  have hlen : i < base64Table.length := hi
  refine replay_of_mem _ (s := (base64Char i, i.toUInt8)) ?_ nodup_invEntries
  refine List.mem_append_left _ (List.mem_map.mpr ⟨(base64Char i, i), ?_, rfl⟩)
  rw [List.mk_mem_zipIdx_iff_getElem?, base64Char, List.getD_eq_getElem?_getD,
    List.getElem?_eq_getElem hlen]
  rfl

/-- The alphabet of the table. -/
def base64Alphabet : Base64.Alphabet UInt8 where
  char := base64Char
  pad := padChar
  char_inj := by
    intro i hi j hj h
    have hinv : i.toUInt8 = j.toUInt8 := by
      rw [← invTable_char hi, h, invTable_char hj]
    have := congrArg UInt8.toNat hinv
    simpa [Nat.mod_eq_of_lt (hi.trans (by decide : 64 < 256)),
      Nat.mod_eq_of_lt (hj.trans (by decide : 64 < 256))] using this
  char_ne_pad := by decide +kernel

/-- The table marks all other characters. -/
theorem invTable_ne_iff (c : UInt8) : invTable c ≠ 0x80 ↔ isBase64 c = true := by
  rw [← mem_invEntries]
  constructor
  · intro h
    by_contra hc
    refine h (replay_of_ne _ fun s hs heq => hc ?_)
    exact heq ▸ List.mem_map_of_mem hs
  · intro h
    obtain ⟨s, hs, rfl⟩ := List.mem_map.mp h
    have hval : (invEntries.all fun s => s.2 != 0x80) = true := by decide +kernel
    rw [show invTable s.1 = s.2 from replay_of_mem _ hs nodup_invEntries]
    exact bne_iff_ne.mp (List.all_eq_true.mp hval s hs)

/-! ## What the encoder stores -/

theorem encodeLoop_eq (s : List UInt8) :
    ∀ w : Writer UInt8, encodeLoop s w = w.puts (Base64.encode base64Alphabet s) := by
  have h₀ (a : UInt8) : base64Char (a.toNat >>> 2) = base64Alphabet.char (a.toNat / 4) := by
    rw [Nat.shiftRight_eq_div_pow]
    rfl
  have h₁ (a b : UInt8) : base64Char ((a.toNat &&& 0x03) <<< 4 ||| b.toNat >>> 4) =
      base64Alphabet.char (a.toNat % 4 * 16 + b.toNat / 16) := by
    have hb : b.toNat / 2 ^ 4 < 2 ^ 4 := by
      have := b.toNat_lt
      omega
    rw [Nat.shiftRight_eq_div_pow, Digits.shiftLeft_or _ hb,
      show a.toNat &&& 0x03 = a.toNat % 4 from Nat.and_two_pow_sub_one_eq_mod _ 2]
    rfl
  have h₂ (b c : UInt8) : base64Char ((b.toNat &&& 0x0f) <<< 2 ||| c.toNat >>> 6) =
      base64Alphabet.char (b.toNat % 16 * 4 + c.toNat / 64) := by
    have hc : c.toNat / 2 ^ 6 < 2 ^ 2 := by
      have := c.toNat_lt
      omega
    rw [Nat.shiftRight_eq_div_pow, Digits.shiftLeft_or _ hc, Digits.and_low]
    rfl
  have h₃ (c : UInt8) : base64Char (c.toNat &&& 0x3f) = base64Alphabet.char (c.toNat % 64) := by
    rw [show c.toNat &&& 0x3f = c.toNat % 64 from Nat.and_two_pow_sub_one_eq_mod _ 6]
    rfl
  have ht₁ (a : UInt8) : base64Char ((a.toNat &&& 0x03) <<< 4) =
      base64Alphabet.char (a.toNat % 4 * 16) := by simpa using h₁ a 0
  have ht₂ (b : UInt8) : base64Char ((b.toNat &&& 0x0f) <<< 2) =
      base64Alphabet.char (b.toNat % 16 * 4) := by simpa using h₂ b 0
  induction s using Base64.encode.induct with
  | case1 => exact fun _ => rfl
  | case2 a =>
    intro w
    rw [encodeLoop, h₀, ht₁]
    rfl
  | case3 a b =>
    intro w
    rw [encodeLoop, h₀, h₁, ht₂]
    rfl
  | case4 a b c rest ih =>
    intro w
    rw [encodeLoop, ih, h₀, h₁, h₂, h₃, ← Writer.puts_append]
    rfl

/-- The arguments that `base64::encode` refuses. -/
def EncodeRefuses (src : Option Memory) (srcLen : Int32) (dst : Option Memory) (dstLen : Int) :
    Prop :=
  dstLen ≤ 0 ∨ srcLen ≤ 0 ∨ dstLen < (srcLen * 4 / 3).toInt ∨ dst = none ∨ src = none

section Encode

variable {srcLen : Int32} {dstLen : Int}

theorem base64Encode_refused {src dst : Option Memory}
    (h : EncodeRefuses src srcLen dst dstLen) :
    base64Encode src srcLen dst dstLen = ⟨-1, dstLen, []⟩ := by
  unfold base64Encode
  split
  · rfl
  · rename_i hpos
    split
    · rfl
    · rename_i hroom
      rcases h with h | h | h | rfl | rfl
      · exact absurd (.inl h) hpos
      · exact absurd (.inr h) hpos
      · exact absurd h hroom
      · rfl
      · cases dst <;> rfl

/-- A source that is not empty nor too long for `int` is accepted, if the room that is checked for
is there. -/
theorem not_encodeRefuses {n : Nat} (hpos : 0 < n) (hlen : 4 * n < 2 ^ 31)
    (hroom : (n * 4 / 3 : Nat) ≤ dstLen) (src dst : Memory) :
    ¬ EncodeRefuses (some src) (Int32.ofNat n) (some dst) dstLen := by
  have hsrc : (Int32.ofNat n).toInt = n := Int32.toInt_ofNat_of_lt (by omega)
  have hguard : (Int32.ofNat n * 4 / 3).toInt = n * 4 / 3 := by
    have hmul : (Int32.ofNat n * 4).toInt = n * 4 := by
      have hfour : (4 : Int32).toInt = 4 := rfl
      rw [Int32.toInt_mul, hsrc, hfour]
      exact Int.bmod_eq_of_le (by omega) (by omega)
    rw [Int32.toInt_div_of_ne_right _ _ (by decide), hmul]
    exact Int.tdiv_eq_ediv_of_nonneg (by omega)
  unfold EncodeRefuses
  rw [hguard, Int32.le_iff_toInt_le, hsrc]
  simp only [reduceCtorEq, or_false, not_or]
  have hzero : (0 : Int32).toInt = 0 := rfl
  omega

/-- What is stored when the arguments are accepted: the text and the NUL behind it. -/
theorem base64Encode_accepted {src dst : Memory}
    (h : ¬ EncodeRefuses (some src) srcLen (some dst) dstLen) :
    let s := bytesAt src srcLen.toInt.toNat
    base64Encode (some src) srcLen (some dst) dstLen =
      ⟨0, (Base64.encode base64Alphabet s).length,
        stored 0 (Base64.encode base64Alphabet s ++ [0])⟩ := by
  unfold EncodeRefuses at h
  simp only [reduceCtorEq, or_false, not_or] at h
  obtain ⟨hdst, hsrc, hroom⟩ := h
  unfold base64Encode
  rw [if_neg (not_or.mpr ⟨hdst, hsrc⟩), if_neg hroom]
  dsimp only
  rw [encodeLoop_eq, Writer.puts_eq, stored_append]
  simp [Writer.put, Writer.start, stored]

/-- The text and the NUL that `base64::encode` writes lie inside the first `dstLen` bytes, and it
writes nothing when it refuses. -/
def EncodesInside (src : Option Memory) (srcLen : Int32) (dst : Option Memory) (dstLen : Int) :
    Prop :=
  let r := base64Encode src srcLen dst dstLen
  (r.ret = 0 → ∀ s ∈ r.stores, 0 ≤ s.1 ∧ s.1 < dstLen) ∧ (r.ret = -1 → r.stores = [])

/-- It writes outside exactly when the room that it checks for, three bytes of the source as four of
the destination rounded down and computed in `int`, is there, but the padded text does not fit with
its NUL. -/
theorem encodesInside_iff (src : Option Memory) (srcLen : Int32) (dst : Option Memory)
    (dstLen : Int) :
    EncodesInside src srcLen dst dstLen ↔
      EncodeRefuses src srcLen dst dstLen ∨ 4 * ((srcLen.toInt + 2) / 3) < dstLen := by
  unfold EncodesInside
  by_cases href : EncodeRefuses src srcLen dst dstLen
  · rw [base64Encode_refused href]
    exact iff_of_true ⟨fun h => absurd (show (-1 : Int) = 0 from h) (by decide), fun _ => rfl⟩
      (.inl href)
  · rw [or_iff_right href]
    cases dst with
    | none => exact absurd (.inr (.inr (.inr (.inl rfl)))) href
    | some dst =>
      cases src with
      | none => exact absurd (.inr (.inr (.inr (.inr rfl)))) href
      | some src =>
        have hpos : 0 < srcLen.toInt := by
          have hle : ¬ srcLen ≤ 0 := fun h => href (.inr (.inl h))
          rwa [Int32.le_iff_toInt_le, Int.not_le] at hle
        rw [base64Encode_accepted href]
        dsimp only
        have hlt := stored_lt_iff (List.append_ne_nil_of_right_ne_nil
          (Base64.encode base64Alphabet (bytesAt src srcLen.toInt.toNat))
          (List.cons_ne_nil (0 : UInt8) [])) dstLen
        rw [List.length_append, Base64.length_encode, length_bytesAt, List.length_singleton] at hlt
        have hzero : ∀ s ∈ stored 0 (Base64.encode base64Alphabet
            (bytesAt src srcLen.toInt.toNat) ++ [0]), 0 ≤ s.1 := fun s hs => (mem_stored hs).1
        constructor
        · rintro ⟨h, -⟩
          have := hlt.mp fun s hs => (h rfl s hs).2
          omega
        · intro h
          have hall := hlt.mpr (by omega)
          exact ⟨fun _ s hs => ⟨hzero s hs, hall s hs⟩, fun h => absurd h (by decide)⟩

/-- Three bytes into four: the NUL is written behind them. -/
theorem encode_writes_behind :
    ¬ ∀ src srcLen dst dstLen, EncodesInside src srcLen dst dstLen := by
  intro hall
  obtain ⟨hin, -⟩ := hall (some (pointerTo (text "RIC"))) 3 (some fun _ => 0) 4
  have hmem : ((4 : Int), (0 : UInt8)) ∈
      (base64Encode (some (pointerTo (text "RIC"))) 3 (some fun _ => 0) 4).stores := by
    decide +kernel
  exact absurd (hin (by decide +kernel) _ hmem).2 (by decide)

end Encode

/-! ## What the decoder stores -/

/-- Characters that are not in the table are passed over. -/
theorem decodeLoop_filter (l : List UInt8) :
    ∀ d, decodeLoop l d = decodeLoop (l.filter isBase64) d := by
  induction l with
  | nil => exact fun _ => rfl
  | cons c l ih =>
    intro d
    by_cases hc : isBase64 c = true
    · have hne : ¬ invTable c = 0x80 := (invTable_ne_iff c).mpr hc
      rw [List.filter_cons_of_pos hc, decodeLoop, decodeLoop, if_neg hne, if_neg hne]
      simp only [ih]
    · have heq : invTable c = 0x80 := not_not.mp fun h => hc ((invTable_ne_iff c).mp h)
      rw [List.filter_cons_of_neg hc, decodeLoop, if_pos heq, ih]

/-- From a block that is not full on, three bytes are stored for every four characters of the table,
and the index into the block stays below four. -/
theorem decodeLoop_stores (l : List UInt8) :
    ∀ d : Decoder, d.count < 4 → (∀ i ∈ d.blockIndices, i < 4) →
      (∀ i ∈ (decodeLoop l d).2.blockIndices, i < 4) ∧
        ∃ xs, (decodeLoop l d).2.pos.stores = d.pos.stores ++ stored d.pos.pos xs ∧
          xs.length ≤ 3 * ((d.count + l.countP isBase64) / 4) := by
  induction l with
  | nil => exact fun d _ hi => ⟨hi, [], (List.append_nil _).symm, Nat.zero_le _⟩
  | cons c l ih =>
    intro d hcount hindex
    rw [decodeLoop]
    by_cases hc : isBase64 c = true
    case neg =>
      have heq : invTable c = 0x80 := not_not.mp fun h => hc ((invTable_ne_iff c).mp h)
      rw [if_pos heq, List.countP_cons_of_neg hc]
      exact ih d hcount hindex
    case pos =>
      have hne : ¬ invTable c = 0x80 := (invTable_ne_iff c).mpr hc
      have htaken : ∀ i ∈ (d.take c).blockIndices, i < 4 := by
        intro i hi
        rcases List.mem_append.mp hi with hi | hi
        · exact hindex i hi
        · exact List.mem_singleton.mp hi ▸ hcount
      rw [if_neg hne, List.countP_cons_of_pos hc]
      dsimp only
      split
      case isFalse hfull =>
        have hcount' : (d.take c).count = d.count + 1 := rfl
        obtain ⟨hi, xs, hxs, hlen⟩ := ih (d.take c) (by omega) htaken
        refine ⟨hi, xs, hxs, ?_⟩
        rw [hcount'] at hlen
        omega
      case isTrue hfull =>
        have hcount' : d.count + 1 = 4 := hfull
        obtain ⟨ys, hys, hflush⟩ : ∃ ys : List UInt8, ys.length = 3 ∧
            (d.take c).flush.pos = ⟨d.pos.pos + 3, d.pos.stores ++ stored d.pos.pos ys⟩ :=
          ⟨_, rfl, Writer.puts_eq _ _⟩
        have hstop : ∃ xs, (d.take c).flush.pos.stores = d.pos.stores ++ stored d.pos.pos xs ∧
            xs.length ≤ 3 * ((d.count + (l.countP isBase64 + 1)) / 4) := by
          refine ⟨ys, by rw [hflush], ?_⟩
          omega
        split
        · obtain ⟨hi, xs, hxs, hlen⟩ := ih (d.take c).flush (by decide : 0 < 4) htaken
          refine ⟨hi, ys ++ xs, ?_, ?_⟩
          · rw [hxs, hflush, stored_append, hys, List.append_assoc]
            rfl
          · have hzero : (d.take c).flush.count = 0 := rfl
            rw [hzero] at hlen
            rw [List.length_append]
            omega
        · split
          · exact ⟨htaken, hstop⟩
          · split
            · exact ⟨htaken, hstop⟩
            · exact ⟨htaken, hstop⟩

/-- The room that `base64::decode` checks for is computed without overflow. -/
theorem decodeRoom (srcLen : Int32) (h : 0 ≤ srcLen.toInt) :
    (srcLen / 4 * 3).toInt = srcLen.toInt / 4 * 3 := by
  have hlt := srcLen.toInt_lt
  have hdiv : (srcLen / 4).toInt = srcLen.toInt / 4 :=
    (Int32.toInt_div_of_ne_right srcLen 4 (by decide)).trans (Int.tdiv_eq_ediv_of_nonneg h)
  have hthree : (3 : Int32).toInt = 3 := rfl
  rw [Int32.toInt_mul, hdiv, hthree]
  exact Int.bmod_eq_of_le (by omega) (by omega)

/-- A decoding of some bytes that writes inside the first `dstLen` bytes and to indices below four
of its block, and returns 0 only for a number of characters that is a multiple of four and not
zero. -/
structure DecodesInside (bytes : List UInt8) (dstLen : Int) (r : DecodeResult) : Prop where
  stores : ∀ s ∈ r.stores, 0 ≤ s.1 ∧ s.1 < dstLen
  block : ∀ i ∈ r.blockIndices, i < 4
  count : r.ret = 0 → bytes.countP isBase64 ≠ 0 ∧ 4 ∣ bytes.countP isBase64

theorem decodesInside_refused (bytes : List UInt8) (dstLen : Int) :
    DecodesInside bytes dstLen ⟨-1, [], []⟩ where
  stores := fun s hs => absurd hs List.not_mem_nil
  block := fun i hi => absurd hi List.not_mem_nil
  count := fun h => absurd (show (-1 : Int) = 0 from h) (by decide)

theorem countP_invTable (bytes : List UInt8) :
    (bytes.countP fun c => invTable c ≠ 0x80) = bytes.countP isBase64 := by
  congr 1
  funext c
  rw [Bool.eq_iff_iff, decide_eq_true_iff]
  exact invTable_ne_iff c

/-- Whatever the source is, `base64::decode` stays inside. -/
theorem decode_inside (src : Memory) (srcLen : Int32) (dst : Option Memory) (dstLen : Int) :
    DecodesInside (bytesAt src srcLen.toInt.toNat) dstLen (base64Decode src srcLen dst dstLen) := by
  unfold base64Decode
  split
  · exact decodesInside_refused _ _
  · rename_i hroom
    cases dst with
    | none => exact decodesInside_refused _ _
    | some dst =>
      dsimp only
      rw [countP_invTable]
      split
      · exact decodesInside_refused _ _
      · rename_i hfour
        rw [not_or, not_not] at hfour
        have hle := List.countP_le_length (p := isBase64) (l := bytesAt src srcLen.toInt.toNat)
        rw [length_bytesAt] at hle
        have hguard := decodeRoom srcLen (by omega)
        obtain ⟨hindex, xs, hxs, hlen⟩ := decodeLoop_stores (bytesAt src srcLen.toInt.toNat) .start
          (by decide : 0 < 4) (fun i hi => absurd hi List.not_mem_nil)
        have hzero : Decoder.start.count = 0 := rfl
        rw [hzero, Nat.zero_add] at hlen
        constructor
        case stores =>
          intro s hs
          dsimp only at hs
          rw [hxs] at hs
          have : 0 ≤ s.1 ∧ s.1 < 0 + (xs.length : Int) := mem_stored hs
          omega
        case block => exact hindex
        case count => exact fun _ => ⟨hfour.1, Nat.dvd_of_mod_eq_zero hfour.2⟩

/-! ## There and back -/

theorem shift_octets (a b c d : UInt8) (hb : b.toNat < 64) (hc : c.toNat < 64) (hd : d.toNat < 64) :
    [(a.toNat <<< 2 ||| b.toNat >>> 4).toUInt8, (b.toNat <<< 4 ||| c.toNat >>> 2).toUInt8,
        (c.toNat <<< 6 ||| d.toNat).toUInt8] =
      [Base64.octet₀ a.toNat b.toNat, Base64.octet₁ b.toNat c.toNat,
        Base64.octet₂ c.toNat d.toNat] := by
  rw [Nat.shiftRight_eq_div_pow, Nat.shiftRight_eq_div_pow,
    Digits.shiftLeft_or _ (show b.toNat / 2 ^ 4 < 2 ^ 2 by omega),
    Digits.shiftLeft_or _ (show c.toNat / 2 ^ 2 < 2 ^ 4 by omega), Digits.shiftLeft_or _ hd]
  rfl

/-- Four characters of the table, from an empty block on. -/
theorem decodeLoop_group {c₀ c₁ c₂ c₃ : UInt8} {v₀ v₁ v₂ v₃ : UInt8} (rest : List UInt8)
    {d : Decoder} (hcount : d.count = 0) (h₀ : invTable c₀ = v₀) (h₁ : invTable c₁ = v₁)
    (h₂ : invTable c₂ = v₂) (h₃ : invTable c₃ = v₃) (hv₀ : v₀.toNat < 64) (hv₁ : v₁.toNat < 64)
    (hv₂ : v₂.toNat < 64) (hv₃ : v₃.toNat < 64) :
    ∃ d' : Decoder, d'.count = 0 ∧ d'.pad = d.pad + [c₀, c₁, c₂, c₃].count padChar ∧
      d'.pos = d.pos.puts [Base64.octet₀ v₀.toNat v₁.toNat, Base64.octet₁ v₁.toNat v₂.toNat,
        Base64.octet₂ v₂.toNat v₃.toNat] ∧
      decodeLoop (c₀ :: c₁ :: c₂ :: c₃ :: rest) d =
        if d'.pad = 0 then decodeLoop rest d'
        else if d'.pad = 1 then (0, { d' with pos := d'.pos.rewind 1 })
        else if d'.pad = 2 then (0, { d' with pos := d'.pos.rewind 2 })
        else (-1, d') := by
  have hne : ∀ v : UInt8, v.toNat < 64 → ¬ v = 0x80 := by
    rintro v hv rfl
    exact absurd hv (by decide)
  refine ⟨((((d.take c₀).take c₁).take c₂).take c₃).flush, rfl, ?_, ?_, ?_⟩
  · simp only [Decoder.flush, Decoder.take, List.count_cons, List.count_nil, beq_iff_eq]
    split <;> split <;> split <;> split <;> omega
  · rw [← shift_octets _ _ _ _ hv₁ hv₂ hv₃, ← h₀, ← h₁, ← h₂, ← h₃]
    simp [Decoder.flush, Decoder.take, hcount]
  · rw [decodeLoop, if_neg (h₀ ▸ hne v₀ hv₀)]
    dsimp only
    rw [if_neg (by simp [Decoder.take, hcount]), decodeLoop, if_neg (h₁ ▸ hne v₁ hv₁)]
    dsimp only
    rw [if_neg (by simp [Decoder.take, hcount]), decodeLoop, if_neg (h₂ ▸ hne v₂ hv₂)]
    dsimp only
    rw [if_neg (by simp [Decoder.take, hcount]), decodeLoop, if_neg (h₃ ▸ hne v₃ hv₃)]
    dsimp only
    rw [if_pos (by simp [Decoder.take, hcount])]

theorem invTable_alphabet {i : Nat} (hi : i < 64) :
    invTable (base64Alphabet.char i) = i.toUInt8 ∧ i.toUInt8.toNat = i ∧
      base64Alphabet.char i ≠ padChar :=
  ⟨invTable_char hi, by simp; omega, base64Alphabet.char_ne_pad i hi⟩

/-- The text of some bytes, from an empty block on: the bytes are stored, with what the padding
decodes to behind them. -/
theorem decodeLoop_encode (s : List UInt8) :
    ∀ d : Decoder, d.count = 0 → d.pad = 0 → ∃ d' ys,
      decodeLoop (Base64.encode base64Alphabet s) d = (0, d') ∧
        d'.pos.stores = d.pos.stores ++ stored d.pos.pos (s ++ ys) := by
  have hpad : (0 : UInt8).toNat < 64 := by decide
  induction s using Base64.encode.induct with
  | case1 => exact fun d _ _ => ⟨d, [], rfl, (List.append_nil _).symm⟩
  | case2 a =>
    intro d hcount hd
    have ha := a.toNat_lt
    obtain ⟨h₀, e₀, hne₀⟩ := invTable_alphabet (show a.toNat / 4 < 64 by omega)
    obtain ⟨h₁, e₁, hne₁⟩ := invTable_alphabet (show a.toNat % 4 * 16 < 64 by omega)
    obtain ⟨d', -, hpads, hpos, hrun⟩ := decodeLoop_group [] hcount h₀ h₁ invTable_pad invTable_pad
      (by omega) (by omega) hpad hpad
    have htwo : d'.pad = 2 := by
      rw [hpads, hd, List.count_cons_of_ne hne₀, List.count_cons_of_ne hne₁]
      rfl
    have ho : Base64.octet₀ (a.toNat / 4) (a.toNat % 4 * 16) = a :=
      Base64.octet₀_sextets a (show 0 < 16 by decide)
    rw [htwo] at hrun
    refine ⟨_, [Base64.octet₁ (a.toNat % 4 * 16) 0, Base64.octet₂ 0 0], hrun, ?_⟩
    show d'.pos.stores = _
    rw [hpos, Writer.puts_eq, e₀, e₁, ho]
    rfl
  | case3 a b =>
    intro d hcount hd
    have ha := a.toNat_lt
    have hb := b.toNat_lt
    obtain ⟨h₀, e₀, hne₀⟩ := invTable_alphabet (show a.toNat / 4 < 64 by omega)
    obtain ⟨h₁, e₁, hne₁⟩ := invTable_alphabet (show a.toNat % 4 * 16 + b.toNat / 16 < 64 by omega)
    obtain ⟨h₂, e₂, hne₂⟩ := invTable_alphabet (show b.toNat % 16 * 4 < 64 by omega)
    obtain ⟨d', -, hpads, hpos, hrun⟩ := decodeLoop_group [] hcount h₀ h₁ h₂ invTable_pad
      (by omega) (by omega) (by omega) hpad
    have hone : d'.pad = 1 := by
      rw [hpads, hd, List.count_cons_of_ne hne₀, List.count_cons_of_ne hne₁,
        List.count_cons_of_ne hne₂]
      rfl
    have ho₀ := Base64.octet₀_sextets a (show b.toNat / 16 < 16 by omega)
    have ho₁ : Base64.octet₁ (a.toNat % 4 * 16 + b.toNat / 16) (b.toNat % 16 * 4) = b :=
      Base64.octet₁_sextets a b (show 0 < 4 by decide)
    rw [hone] at hrun
    refine ⟨_, [Base64.octet₂ (b.toNat % 16 * 4) 0], hrun, ?_⟩
    show d'.pos.stores = _
    rw [hpos, Writer.puts_eq, e₀, e₁, e₂, ho₀, ho₁]
    rfl
  | case4 a b c rest ih =>
    intro d hcount hd
    have ha := a.toNat_lt
    have hb := b.toNat_lt
    have hc := c.toNat_lt
    obtain ⟨h₀, e₀, hne₀⟩ := invTable_alphabet (show a.toNat / 4 < 64 by omega)
    obtain ⟨h₁, e₁, hne₁⟩ := invTable_alphabet (show a.toNat % 4 * 16 + b.toNat / 16 < 64 by omega)
    obtain ⟨h₂, e₂, hne₂⟩ := invTable_alphabet (show b.toNat % 16 * 4 + c.toNat / 64 < 64 by omega)
    obtain ⟨h₃, e₃, hne₃⟩ := invTable_alphabet (show c.toNat % 64 < 64 by omega)
    obtain ⟨d', hcount', hpads, hpos, hrun⟩ := decodeLoop_group
      (Base64.encode base64Alphabet rest) hcount h₀ h₁ h₂ h₃ (by omega) (by omega) (by omega)
      (by omega)
    have hnone : d'.pad = 0 := by
      rw [hpads, hd, List.count_cons_of_ne hne₀, List.count_cons_of_ne hne₁,
        List.count_cons_of_ne hne₂, List.count_cons_of_ne hne₃]
      rfl
    have ho₀ := Base64.octet₀_sextets a (show b.toNat / 16 < 16 by omega)
    have ho₁ := Base64.octet₁_sextets a b (show c.toNat / 64 < 4 by omega)
    have ho₂ := Base64.octet₂_sextets b c
    rw [if_pos hnone] at hrun
    obtain ⟨d'', ys, hrest, hstores⟩ := ih d' hcount' hnone
    refine ⟨d'', ys, hrun.trans hrest, ?_⟩
    rw [hstores, hpos, Writer.puts_eq, e₀, e₁, e₂, e₃, ho₀, ho₁, ho₂, List.append_assoc,
      ← stored_append]
    rfl

/-- The memory that an encoding leaves in `dst`. -/
def EncodeResult.memory (r : EncodeResult) (dst : Memory) : Memory := replay dst r.stores

/-- The memory that a decoding leaves in `dst`. -/
def DecodeResult.memory (r : DecodeResult) (dst : Memory) : Memory := replay dst r.stores

theorem isBase64_of_has {c : UInt8} (h : base64Alphabet.Has c) : isBase64 c = true := by
  rcases h with ⟨i, hi, rfl⟩ | rfl
  · rw [← invTable_ne_iff]
    obtain ⟨hinv, hval, -⟩ := invTable_alphabet hi
    rw [hinv]
    intro heq
    rw [heq] at hval
    exact absurd hi (hval ▸ by decide)
  · decide +kernel

theorem bytesAt_pointerTo (s : List UInt8) : bytesAt (pointerTo s) s.length = s := by
  refine bytesAt_eq fun i hi => ?_
  simp [pointerTo, hi]

/-- A text that `base64::decode` turns into some bytes, in any destination with room for it. -/
def DecodesTo (t s : List UInt8) : Prop :=
  ∀ (dst : Memory) (dstLen : Int), dstLen ≠ 0 → (t.length / 4 * 3 : Nat) ≤ dstLen →
    let r := base64Decode (pointerTo t) (Int32.ofNat t.length) (some dst) dstLen
    r.ret = 0 ∧ bytesAt (r.memory dst) s.length = s

/-- Decoding the text of some bytes, with other characters anywhere in it, gives the bytes. -/
theorem decodesTo_of_filter {s t : List UInt8} (hs : s ≠ [])
    (ht : t.filter isBase64 = Base64.encode base64Alphabet s) (htlen : t.length < 2 ^ 31) :
    DecodesTo t s := by
  intro dst dstLen hzero hroom
  have hlen : (Int32.ofNat t.length).toInt = t.length := Int32.toInt_ofNat_of_lt htlen
  have hguard := decodeRoom (Int32.ofNat t.length) (by omega)
  have hcount : t.countP isBase64 = 4 * ((s.length + 2) / 3) := by
    rw [List.countP_eq_length_filter, ht, Base64.length_encode]
  have hpos := List.length_pos_iff.mpr hs
  obtain ⟨d, ys, hrun, hstores⟩ := decodeLoop_encode s .start rfl rfl
  have hrun' : decodeLoop t .start = (0, d) := by rw [decodeLoop_filter, ht, hrun]
  unfold base64Decode
  dsimp only
  rw [if_neg (by omega), hlen, Int.toNat_natCast, bytesAt_pointerTo, countP_invTable, hcount,
    if_neg (by omega), hrun']
  refine ⟨rfl, ?_⟩
  show bytesAt (replay dst d.pos.stores) s.length = s
  rw [hstores]
  exact bytesAt_replay dst s ys

/-- What `base64::encode` leaves in its destination. -/
theorem base64Encode_output {s : List UInt8} (hs : s ≠ []) (hlen : 4 * s.length < 2 ^ 31)
    (dst : Memory) {dstLen : Int} (hroom : 4 * ((s.length + 2) / 3) + 1 ≤ dstLen) :
    let r := base64Encode (some (pointerTo s)) (Int32.ofNat s.length) (some dst) dstLen
    r.ret = 0 ∧ r.dstLen = (Base64.encode base64Alphabet s).length ∧
      bytesAt (r.memory dst) r.dstLen.toNat = Base64.encode base64Alphabet s := by
  have hsrc : (Int32.ofNat s.length).toInt = s.length := Int32.toInt_ofNat_of_lt (by omega)
  have hacc := not_encodeRefuses (List.length_pos_iff.mpr hs) hlen
    (by omega : (s.length * 4 / 3 : Nat) ≤ dstLen) (pointerTo s) dst
  have henc := base64Encode_accepted hacc
  rw [hsrc, Int.toNat_natCast, bytesAt_pointerTo] at henc
  dsimp only at henc ⊢
  rw [henc]
  exact ⟨rfl, rfl, bytesAt_replay dst _ _⟩

/-- What `base64::encode` makes of some bytes has only characters of the alphabet, and
`base64::decode` turns it back into the bytes, also when characters that are not in the alphabet
were put between. -/
theorem encode_decode {s : List UInt8} (hs : s ≠ []) (hlen : 4 * s.length < 2 ^ 31) (dst : Memory)
    {dstLen : Int} (hroom : 4 * ((s.length + 2) / 3) + 1 ≤ dstLen) :
    let r := base64Encode (some (pointerTo s)) (Int32.ofNat s.length) (some dst) dstLen
    let output := bytesAt (r.memory dst) r.dstLen.toNat
    r.ret = 0 ∧ r.dstLen = 4 * ((s.length + 2) / 3) ∧ (∀ c ∈ output, isBase64 c = true) ∧
      DecodesTo output s ∧
      ∀ t : List UInt8, t.length < 2 ^ 31 → t.filter isBase64 = output → DecodesTo t s := by
  obtain ⟨hret, hdstLen, houtput⟩ := base64Encode_output hs hlen dst hroom
  have hlength := Base64.length_encode base64Alphabet s
  have halphabet : ∀ c ∈ Base64.encode base64Alphabet s, isBase64 c = true := fun c hc =>
    isBase64_of_has (Base64.has_of_mem_encode base64Alphabet s c hc)
  dsimp only at hret hdstLen houtput ⊢
  rw [houtput]
  refine ⟨hret, ?_, halphabet, ?_, fun t ht hfilter => decodesTo_of_filter hs hfilter ht⟩
  · rw [hdstLen, hlength]
    omega
  · exact decodesTo_of_filter hs (List.filter_eq_self.mpr halphabet) (by omega)

/-- Four bytes, and their text with blanks and a line break put between. -/
theorem encode_decode_blanks :
    let r := base64Decode (pointerTo (text " Ik 1F\nRQ =="))
      (Int32.ofNat (text " Ik 1F\nRQ ==").length) (some fun _ => 0) 9
    r.ret = 0 ∧ bytesAt (r.memory fun _ => 0) 4 = text "\"MEE" ∧
      (text "\"MEE").length = 4 := by
  have hroom : 4 * (((text "\"MEE").length + 2) / 3) + 1 ≤ (9 : Int) := by decide
  obtain ⟨-, -, -, -, h⟩ :=
    encode_decode (s := text "\"MEE") (by decide) (by decide) (fun _ => 0) hroom
  obtain ⟨hret, hbytes⟩ := h (text " Ik 1F\nRQ ==") (by decide) (by decide +kernel) (fun _ => 0) 9
    (by decide) (by decide)
  exact ⟨hret, hbytes, rfl⟩

end E2Term
