import E2Term.NodeNames

/-!
# Bit strings behind a name

`translateBitStringToChar` prints the name and what goes behind it into a scratch buffer of 256
bytes, and copies as many bytes back as `snprintf` counts. It is modelled here with that buffer and
on names in buffers of any size: a result of up to 255 characters is built whole, a longer one is
cut, or the copy reads behind the scratch buffer. `RanName` leaves the scratch buffer out, which
makes no difference in a buffer of 64 bytes.
-/

namespace E2Term

open CString Digits

namespace Scratch

variable {N : Nat}

/-- The variables `ranName`, `buffer` and `j`. -/
structure Vars (N : Nat) where
  ranName : Buf N
  buffer : CharArray 256
  j : Nat

/-- `j = snprintf(buffer, 256, "%s…", ranName); memcpy(ranName, buffer, j)`, unless the copy reads
behind `buffer`. -/
def appendText (v : Vars N) (s : List UInt8) : Option (Vars N) :=
  let printed := v.ranName.str ++ s
  let buffer := v.buffer.snprintf printed
  let j := printed.length
  if j ≤ 256 then do
    let ranName ← v.ranName.write (buffer.bytes.take j)
    return ⟨ranName, buffer, j⟩
  else none

/-- The loop of `translateBitStringToChar` over the octets; `before` is the octet before them. -/
def translateOctets (v : Vars N) (bitsUnused before : Nat) : List UInt8 → Option (Vars N)
  | [] => some v
  | octet :: rest => do
    let tmpDigit := (before <<< (8 - bitsUnused)) ||| (octet.toNat >>> bitsUnused)
    let b1 := (tmpDigit &&& 0xF0) >>> 4
    let v ← appendText v (hex b1)
    let b2 := tmpDigit &&& 0x0F
    let v ← appendText v (hex b2)
    translateOctets v bitsUnused octet.toNat rest

/-- `translateBitStringToChar`; it returns `j`. -/
def translateBitStringToChar (ranName : Buf N) (data : BitString) (cuid duid : Int) :
    Option (Vars N) := do
  let v ← appendText ⟨ranName, .zeros 256, 0⟩ (text "_")
  let v ← translateOctets v data.bitsUnused 0 data.buf
  if cuid ≥ 0 ∧ duid ≥ 0 then
    appendText v []
  else if cuid ≥ 0 then
    appendText v (text "_" ++ hex cuid.toNat)
  else if duid ≥ 0 then
    appendText v (text "_" ++ hex duid.toNat)
  else
    appendText v []

/-! ## In the buffer of a connection -/

/-- `snprintf` leaves what fits, and `memcpy` takes no more than the text and its NUL. -/
theorem take_snprintf (buffer : CharArray 256) {s : List UInt8} (hs : s.length ≤ 255) :
    (buffer.snprintf s).bytes.take s.length = s := by
  show (s.take 255 ++ _).take s.length = s
  rw [List.take_of_length_le hs, List.take_left]

theorem length_take_snprintf (buffer : CharArray 256) {s : List UInt8} (hs : s.length ≤ 256) :
    ((buffer.snprintf s).bytes.take s.length).length = s.length := by
  rw [List.length_take, (buffer.snprintf s).length_eq, Nat.min_eq_left hs]

theorem appendText_ranName (v : Vars maxEnodbNameSize) (s : List UInt8) :
    (appendText v s).map Vars.ranName = E2Term.appendText v.ranName s := by
  unfold appendText E2Term.appendText
  dsimp only
  rcases Nat.lt_or_ge (v.ranName.str ++ s).length maxEnodbNameSize with hlt | hge
  · have hle : (v.ranName.str ++ s).length ≤ 255 := hlt.le.trans (by decide)
    rw [if_pos (by omega), take_snprintf _ hle]
    cases v.ranName.write (v.ranName.str ++ s) with
    | none => rfl
    | some ranName => rfl
  · rw [Buf.write_eq_none _ hge]
    split
    · rename_i hle
      rw [Buf.write_eq_none _ ((length_take_snprintf _ hle).symm ▸ hge)]
      rfl
    · rfl

theorem bind_ranName {x : Option (Vars maxEnodbNameSize)} {y : Option NameBuf}
    {f : Vars maxEnodbNameSize → Option (Vars maxEnodbNameSize)} {g : NameBuf → Option NameBuf}
    (hx : x.map Vars.ranName = y) (hf : ∀ v, (f v).map Vars.ranName = g v.ranName) :
    (x >>= f).map Vars.ranName = y >>= g := by
  subst hx
  cases x with
  | none => rfl
  | some v => exact hf v

theorem translateOctets_ranName (bitsUnused : Nat) (octets : List UInt8) :
    ∀ (v : Vars maxEnodbNameSize) (before : Nat),
      (translateOctets v bitsUnused before octets).map Vars.ranName =
        E2Term.translateOctets v.ranName bitsUnused before octets := by
  induction octets with
  | nil => exact fun _ _ => rfl
  | cons octet rest ih =>
    intro v before
    unfold translateOctets E2Term.translateOctets
    refine bind_ranName (appendText_ranName v _) fun v₁ => ?_
    exact bind_ranName (appendText_ranName v₁ _) fun v₂ => ih v₂ octet.toNat

/-- In a buffer of 64 bytes the scratch buffer is never too small. -/
theorem translateBitStringToChar_ranName (b : NameBuf) (data : BitString) (cuid duid : Int) :
    (translateBitStringToChar b data cuid duid).map Vars.ranName =
      E2Term.translateBitStringToChar b data cuid duid := by
  unfold translateBitStringToChar E2Term.translateBitStringToChar
  refine bind_ranName (appendText_ranName _ _) fun v₁ => ?_
  refine bind_ranName (translateOctets_ranName _ _ v₁ 0) fun v₂ => ?_
  repeat' split
  all_goals exact appendText_ranName v₂ _

/-! ## What is built -/

/-- What is left of a build of the string `s`: the whole string, if it fits into both buffers, and
never more than its first 255 characters. -/
structure Prints (r : Option (Vars N)) (s : List UInt8) : Prop where
  whole : s.length ≤ 255 → s.length < N → ∃ v, r = some v ∧ v.ranName.Holds s ∧ v.j = s.length
  cut : ∀ v, r = some v → v.ranName.Holds (s.take 255)

section Prints

variable {v : Vars N} {s t : List UInt8}

/-- The NUL of a result that is one character too long is copied. -/
theorem take_snprintf_nul (buffer : CharArray 256) (hs : s.length = 256) :
    (buffer.snprintf s).bytes.take s.length = s.take 255 ++ [0] := by
  have hlen : (s.take 255).length = 255 := by
    rw [List.length_take]
    omega
  rw [hs]
  show (s.take 255 ++ 0 :: _).take 256 = _
  rw [List.take_append, hlen, List.take_of_length_le (hlen.trans_le (by decide))]
  rfl

/-- A text goes behind a name. -/
theorem prints_of_holds (h : v.ranName.Holds s) (ht : ∀ x ∈ t, x ≠ 0) :
    Prints (appendText v t) (s ++ t) := by
  have hst : ∀ x ∈ s ++ t, x ≠ 0 := List.forall_mem_append.mpr ⟨h.nonzero, ht⟩
  have hle : s.length ≤ (s ++ t).length := by
    rw [List.length_append]
    omega
  unfold appendText
  rw [h.str_eq]
  dsimp only
  constructor
  · intro hlen hN
    obtain ⟨b, hb, hholds⟩ := (h.builds_write hst hle).1 hN
    refine ⟨⟨b, v.buffer.snprintf (s ++ t), (s ++ t).length⟩, ?_, hholds, rfl⟩
    rw [if_pos (by omega), take_snprintf _ hlen, hb]
    rfl
  · intro v' hv'
    split at hv'
    · rename_i hj
      obtain ⟨b, hb, hv'⟩ := Option.bind_eq_some_iff.mp hv'
      cases hv'
      rcases Nat.lt_or_ge 255 (s ++ t).length with hlong | hshort
      · rw [take_snprintf_nul _ (by omega)] at hb
        refine h.of_write_nul (fun x hx => hst x (List.mem_of_mem_take hx)) ?_ hb
        rw [List.length_take]
        omega
      · rw [take_snprintf _ hshort] at hb
        rw [List.take_of_length_le hshort]
        exact h.of_write hst hle hb
    · cases hv'

/-- A text goes behind what was built before. -/
theorem Prints.appendText (h : Prints (some v) s) (ht : ∀ x ∈ t, x ≠ 0) :
    Prints (appendText v t) (s ++ t) := by
  have hcut := prints_of_holds (h.cut v rfl) ht
  rcases Nat.lt_or_ge 255 s.length with hlong | hshort
  · refine ⟨fun hlen => ?_, fun v' hv' => ?_⟩
    · rw [List.length_append] at hlen
      omega
    · have hlen : (s.take 255).length = 255 := by
        rw [List.length_take]
        omega
      have hholds := hcut.cut v' hv'
      rw [List.take_append_of_le_length (by omega), List.take_take, Nat.min_self] at hholds
      rwa [List.take_append_of_le_length (by omega)]
  · rwa [List.take_of_length_le hshort] at hcut

/-- A build that goes on where another one ended. -/
theorem Prints.bind {r : Option (Vars N)} {f : Vars N → Option (Vars N)} (h : Prints r s)
    (hf : ∀ v, Prints (some v) s → Prints (f v) (s ++ t)) : Prints (r >>= f) (s ++ t) := by
  cases r with
  | none =>
    refine ⟨fun hlen hN => ?_, fun v hv => ?_⟩
    · rw [List.length_append] at hlen hN
      obtain ⟨v, hv, -⟩ := h.whole (by omega) (by omega)
      cases hv
    · cases hv
  | some v => exact hf v h

end Prints

/-- The loop over the octets prints them in hexadecimal. -/
theorem prints_translateOctets {unused : Nat} (octets : List UInt8) :
    ∀ (before : Nat) {v : Vars N} {s : List UInt8}, Prints (some v) s →
      Prints (translateOctets v unused before octets)
        (s ++ printedOctets unused before octets) := by
  induction octets with
  | nil =>
    intro before v s h
    unfold translateOctets printedOctets
    rwa [List.append_nil]
  | cons octet rest ih =>
    intro before v s h
    unfold translateOctets printedOctets
    dsimp only
    rw [List.append_assoc, ← List.append_assoc]
    refine (h.appendText hex_ne_zero).bind fun v₁ h₁ => ?_
    rw [← List.append_assoc]
    exact (h₁.appendText hex_ne_zero).bind fun v₂ h₂ => ih octet.toNat h₂

section Translate

variable {ranName : Buf N} {p : List UInt8}

/-- `translateBitStringToChar` prints the bits and the identity behind the name. -/
theorem prints_translateBitStringToChar (hp : ranName.Holds p) (data : BitString)
    (cuid duid : Int) :
    Prints (translateBitStringToChar ranName data cuid duid)
      (p ++ text "_" ++ (printedOctets data.bitsUnused 0 data.buf ++ printedUnit cuid duid)) := by
  have hname := prints_of_holds (v := ⟨ranName, .zeros 256, 0⟩) (t := text "_") hp
    (by decide)
  refine hname.bind fun v₁ h₁ => ?_
  rw [← List.append_assoc]
  refine (prints_translateOctets data.buf 0 h₁).bind fun v₂ h₂ => ?_
  have hlast := h₂.appendText (printedUnit_ne_zero cuid duid)
  unfold printedUnit at hlast ⊢
  split_ifs at hlast ⊢
  all_goals exact hlast

/-- The identity of a CU-UP or a DU, where one and only one of the two is there. -/
def unitText (cuid duid : Int) : List UInt8 :=
  if 0 ≤ cuid ∧ duid < 0 then 95 :: hex cuid.toNat
  else if cuid < 0 ∧ 0 ≤ duid then 95 :: hex duid.toNat
  else []

theorem printedUnit_eq_unitText (cuid duid : Int) :
    printedUnit cuid duid = unitText cuid duid := by
  unfold printedUnit unitText
  split_ifs
  all_goals first | rfl | omega

/-- The name goes on with an underscore, two hexadecimal digits an octet that spell the bits
without the unused ones, and the identity. -/
def Extends (ranName : Buf N) (p : List UInt8) (data : BitString) (cuid duid : Int) : Prop :=
  ∃ digits : List Nat, digits.length = 2 * data.buf.length ∧ (∀ d ∈ digits, d < 16) ∧
    Nat.ofDigits 16 digits.reverse = octetsValue data.buf / 2 ^ data.bitsUnused ∧
    ∃ v, translateBitStringToChar ranName data cuid duid = some v ∧
      v.ranName.str = p ++ 95 :: (digits.map digitByte ++ unitText cuid duid)

/-- The length of the name with what goes behind it. -/
def extendedLength (p : List UInt8) (data : BitString) (cuid duid : Int) : Nat :=
  p.length + 1 + 2 * data.buf.length + (unitText cuid duid).length

/-- What goes behind the name, in digits. -/
theorem printed_eq_digits (data : BitString) (hu : data.bitsUnused ≤ 8) (cuid duid : Int) :
    p ++ text "_" ++ (printedOctets data.bitsUnused 0 data.buf ++ printedUnit cuid duid) =
      p ++ 95 :: ((nibbles (alignOctets data.bitsUnused 0 data.buf)).map digitByte ++
        unitText cuid duid) := by
  rw [printedOctets_eq hu, hexOctets_eq_map, printedUnit_eq_unitText, List.append_assoc]
  rfl

theorem length_extended {data : BitString} {digits : List Nat}
    (hdigits : digits.length = 2 * data.buf.length) (cuid duid : Int) :
    (p ++ 95 :: (digits.map digitByte ++ unitText cuid duid)).length =
      extendedLength p data cuid duid := by
  unfold extendedLength
  rw [List.length_append, List.length_cons, List.length_append, List.length_map, hdigits]
  omega

/-- Where the result fits into the name's buffer and has at most 255 characters, the name goes on
with the digits of the bits and the identity. -/
theorem translateBitStringToChar_extends (hp : ranName.Holds p) {data : BitString}
    (hu : data.bitsUnused ≤ 7) {cuid duid : Int} (hroom : extendedLength p data cuid duid < N)
    (hlimit : extendedLength p data cuid duid ≤ 255) : Extends ranName p data cuid duid := by
  obtain ⟨octets, hoctets⟩ : ∃ octets, octets = alignOctets data.bitsUnused 0 data.buf := ⟨_, rfl⟩
  have hdigits : (nibbles octets).length = 2 * data.buf.length := by
    rw [length_nibbles, hoctets, length_alignOctets]
  have hprints := prints_translateBitStringToChar hp data cuid duid
  rw [printed_eq_digits data (by omega), ← hoctets] at hprints
  have hlen := length_extended (p := p) hdigits cuid duid
  refine ⟨nibbles octets, hdigits, fun d hd => nibbles_lt (fun s hs => ?_) hd, ?_, ?_⟩
  · rw [hoctets] at hs
    exact alignOctets_lt (by omega) data.buf hs
  · rw [ofDigits_nibbles, hoctets, ofDigits_alignOctets (by omega), Nat.zero_mod, Nat.mul_zero,
      Nat.add_zero]
  · obtain ⟨v, hv, hholds, -⟩ := hprints.whole (hlen.trans_le hlimit) (hlen.trans_lt hroom)
    exact ⟨v, hv, hholds.str_eq⟩

/-- A gNB with a DU. -/
theorem translateBitStringToChar_extends_du :
    ∃ ranName : NameBuf, ranName.Holds (text "gnb_131_140") ∧
      Extends ranName (text "gnb_131_140") ⟨[0x0f, 0xff], 4⟩ (-1) 5 := by
  obtain ⟨ranName, -, hname⟩ := Buf.holds_snprintf (N := maxEnodbNameSize)
    (s := text "gnb_131_140") (by decide) 20 (by decide) (by decide)
  exact ⟨ranName, hname, translateBitStringToChar_extends hname (by decide) (by decide) (by decide)⟩

/-- A result of more than 255 characters is never built. -/
theorem not_extends_of_long (hp : ranName.Holds p) {data : BitString}
    {cuid duid : Int} (hlong : 255 < extendedLength p data cuid duid) :
    ¬ Extends ranName p data cuid duid := by
  rintro ⟨digits, hdigits, -, -, v, hv, hstr⟩
  have hcut := (prints_translateBitStringToChar hp data cuid duid).cut v hv
  have hlen := length_extended (p := p) hdigits cuid duid
  rw [← hstr, hcut.str_eq, List.length_take] at hlen
  omega

instance fact_lt_512 : Fact (0 < 512) := ⟨by decide⟩

/-- The bits of 128 octets do not get through the scratch buffer, though the name's buffer has
room for twice as many. -/
theorem long_bit_string_cut :
    extendedLength [] ⟨List.replicate 128 0, 0⟩ (-1) (-1) < 512 ∧
      ¬ Extends (Buf.zeros 512) [] ⟨List.replicate 128 0, 0⟩ (-1) (-1) :=
  ⟨by simp [extendedLength, unitText],
    not_extends_of_long Buf.holds_zeros (by simp [extendedLength, unitText])⟩

end Translate

end Scratch

end E2Term
