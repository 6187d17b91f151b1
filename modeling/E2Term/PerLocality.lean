import E2Term.PerCodec

/-!
# What a decoder looks at

Every decoder looks at its place and at the bits that it takes, and not at what is behind them. So
octets behind a complete encoding change nothing, and one that is cut short does not decode.
-/

namespace E2Term

open Bits Digits BitCodec

/-! ## Bits and lengths -/

theorem perGetFewBits_le {n : Nat} {pd : AsnBitData} {r : Nat × AsnBitData}
    (h : perGetFewBits n pd = some r) : n ≤ 31 := by
  by_contra h31
  unfold perGetFewBits AsnBitData.getFewBitsWith at h
  dsimp only at h
  split_ifs at h <;> omega

/-- The bits that a call has taken. -/
theorem perGetFewBits_some {n value : Nat} {pd pd' : AsnBitData}
    (h : perGetFewBits n pd = some (value, pd')) :
    ((BitSource.rest pd).take n).length = n ∧ n ≤ 31 ∧
      value = toNat ((BitSource.rest pd).take n) ∧
      BitSource.rest pd = (BitSource.rest pd).take n ++ BitSource.rest pd' := by
  have hn := perGetFewBits_le h
  have hle : n ≤ (BitSource.rest pd).length := by
    by_contra hlt
    rw [perGetFewBits_none (by omega)] at h
    cases h
  obtain ⟨next, htook, -, hdrop, -⟩ := perGetFewBits_took hn hle
  obtain ⟨rfl, rfl⟩ := Prod.mk.inj (Option.some.inj (h.symm.trans htook))
  refine ⟨by rw [List.length_take, Nat.min_eq_left hle], hn, rfl, ?_⟩
  rw [hdrop, List.take_append_drop]

theorem isLocal_perGetFewBits (n : Nat) : IsLocal (perGetFewBits n) := by
  intro pd value pd' hpd
  obtain ⟨hlen, hn, rfl, hrest⟩ := perGetFewBits_some hpd
  have hget := gets_perGetFewBits (by omega : ((BitSource.rest pd).take n).length ≤ 31)
    (BitSource.off pd)
  rw [hlen] at hget
  exact ⟨_, hrest, hget⟩

theorem isLocal_getTriples : ∀ n, IsLocal (getTriples n)
  | 0 => IsLocal.pure []
  | n + 1 => (isLocal_perGetFewBits 24).bind fun _ =>
    (isLocal_getTriples n).bind fun _ => IsLocal.pure _

theorem isLocal_perGetManyBits (nbits : Nat) : IsLocal (perGetManyBits nbits) :=
  (isLocal_getTriples _).bind fun _ => (isLocal_perGetFewBits _).bind fun _ => IsLocal.pure _

/-- How far it is to the next octet is known from the bits that are gone. -/
theorem isLocal_aperGetAlign : IsLocal aperGetAlign := by
  intro pd value pd' hpd
  have hmod := pd.moved_mod
  have hpad : (8 - pd.nboff % 8) % 8 = padding (BitSource.off pd) := by
    show _ = padding pd.moved
    unfold padding
    omega
  by_cases h0 : pd.nboff % 8 = 0
  · obtain ⟨rfl, rfl⟩ := Prod.mk.inj (Option.some.inj ((if_neg (by omega)).symm.trans hpd))
    exact ⟨[], rfl, gets_aperGetAlign (by rw [← hpad, h0]; rfl)⟩
  · obtain ⟨hlen, -, rfl, hrest⟩ := perGetFewBits_some
      ((if_pos (by omega)).symm.trans hpd : perGetFewBits (8 - pd.nboff % 8) pd = _)
    exact ⟨_, hrest, gets_aperGetAlign (by omega)⟩

theorem isLocal_aligned (n : Nat) :
    IsLocal (do let _ ← aperGetAlign; perGetFewBits n) :=
  isLocal_aperGetAlign.bind fun _ => isLocal_perGetFewBits n

theorem isLocal_aperGetNsnnwn (range : Int) : IsLocal (aperGetNsnnwn range) :=
  IsLocal.ite (IsLocal.ite IsLocal.failure (isLocal_perGetFewBits _))
    (IsLocal.ite (isLocal_aligned 8) (IsLocal.ite (isLocal_aligned 16) IsLocal.failure))

theorem isLocal_uperGetNsnnwn : IsLocal uperGetNsnnwn :=
  (isLocal_perGetFewBits 7).bind fun _ =>
    IsLocal.ite ((isLocal_perGetFewBits 2).bind fun _ =>
      IsLocal.ite IsLocal.failure (IsLocal.ite (IsLocal.pure 0)
        (IsLocal.ite IsLocal.failure (isLocal_perGetFewBits _))))
      (IsLocal.pure _)

theorem isLocal_lengthFrom (value : Nat) : IsLocal (lengthFrom value) :=
  IsLocal.ite (IsLocal.pure _) (IsLocal.ite
    ((isLocal_perGetFewBits 8).bind fun _ => IsLocal.pure _)
    (IsLocal.ite IsLocal.failure (IsLocal.pure _)))

theorem isLocal_aperGetLength (range ebits : Int) : IsLocal (aperGetLength range ebits) :=
  IsLocal.ite ((isLocal_aperGetNsnnwn range).map (·, false))
    (isLocal_aperGetAlign.bind fun _ =>
      IsLocal.ite ((isLocal_perGetFewBits _).map (·, false))
        ((isLocal_perGetFewBits 8).bind isLocal_lengthFrom))

theorem isLocal_aperGetNslength : IsLocal aperGetNslength :=
  (isLocal_perGetFewBits 1).bind fun _ =>
    IsLocal.ite ((isLocal_perGetFewBits 6).bind fun _ => IsLocal.pure _)
      ((isLocal_aperGetLength (-1) (-1)).bind fun r =>
        IsLocal.ite IsLocal.failure (IsLocal.pure r.1))

/-! ## Fragments -/

/-- The loop over fragments ends because every length takes bits. -/
theorem length_rest_aperGetLength {pd pd' : AsnBitData} {r : Nat × Bool}
    (h : aperGetLength (-1) (-1) pd = some (r, pd')) :
    (BitSource.rest pd').length < (BitSource.rest pd).length := by
  rw [aperGetLength_unbounded] at h
  obtain ⟨⟨_, pd₁⟩, halign, h⟩ := Option.bind_eq_some_iff.mp h
  obtain ⟨⟨value, pd₂⟩, hvalue, h⟩ := Option.bind_eq_some_iff.mp h
  obtain ⟨as, has, -⟩ := isLocal_aperGetAlign _ _ _ halign
  obtain ⟨hlen, -, -, hbs⟩ := perGetFewBits_some hvalue
  obtain ⟨cs, hcs, -⟩ := isLocal_lengthFrom value _ _ _ h
  rw [has, hbs, hcs, List.length_append, List.length_append, List.length_append, hlen]
  omega

section Fragments

variable {α : Type} {get : Nat → StateT AsnBitData Option (List α)}
  (hget : ∀ n, IsLocal (get n))
include hget

/-- The rounds that have succeeded succeed again with fuel for the bits that they took. -/
theorem getFragments_some (fuel : Nat) {pd pd' : AsnBitData} {units : List α}
    (h : getFragments get fuel pd = some (units, pd')) :
    ∃ bs, BitSource.rest pd = bs ++ BitSource.rest pd' ∧
      ∀ fuel', bs.length < fuel' → Gets (getFragments get fuel') (BitSource.off pd) bs units := by
  induction fuel generalizing pd units with
  | zero => cases h
  | succ fuel ih =>
    obtain ⟨⟨⟨count, again⟩, pd₁⟩, hlength, h⟩ := Option.bind_eq_some_iff.mp h
    obtain ⟨⟨chunk, pd₂⟩, hchunk, h⟩ := Option.bind_eq_some_iff.mp h
    obtain ⟨as, hrest₁, hgets₁⟩ := isLocal_aperGetLength _ _ _ _ _ hlength
    obtain ⟨bs, hrest₂, hgets₂⟩ := hget count _ _ _ hchunk
    have hoff₁ := (hgets₁.off_eq hrest₁ hlength).2.1
    have hoff₂ := (hgets₂.off_eq hrest₂ hchunk).2.1
    have htakes := length_rest_aperGetLength hlength
    rw [hrest₁, List.length_append] at htakes
    rw [hoff₁] at hgets₂
    obtain ⟨cs, hrest₃, hgets₃⟩ : ∃ cs, BitSource.rest pd₂ = cs ++ BitSource.rest pd' ∧
        ∀ fuel', cs.length < fuel' → Gets (if again then
          (chunk ++ ·) <$> getFragments get fuel' else pure chunk)
          (BitSource.off pd₂) cs units := by
      cases again with
      | true =>
        obtain ⟨⟨rest, pd₃⟩, hrun, h⟩ := Option.bind_eq_some_iff.mp h
        obtain ⟨rfl, rfl⟩ := Prod.mk.inj (Option.some.inj h)
        obtain ⟨cs, hrest₃, hgets₃⟩ := ih hrun
        exact ⟨cs, hrest₃, fun fuel' hfuel' => (hgets₃ fuel' hfuel').map (chunk ++ ·)⟩
      | false =>
        obtain ⟨rfl, rfl⟩ := Prod.mk.inj (Option.some.inj h)
        exact ⟨[], rfl, fun _ _ => Gets.pure chunk _⟩
    rw [hoff₂, hoff₁] at hgets₃
    refine ⟨as ++ (bs ++ cs), ?_, fun fuel' hfuel' => ?_⟩
    · rw [hrest₁, hrest₂, hrest₃, List.append_assoc, List.append_assoc]
    · rw [List.length_append, List.length_append] at hfuel'
      obtain ⟨fuel', rfl⟩ := Nat.exists_eq_add_one_of_ne_zero (by omega : fuel' ≠ 0)
      exact hgets₁.bind (hgets₂.bind (hgets₃ fuel' (by omega)))

theorem isLocal_getAllFragments : IsLocal (getAllFragments get) := by
  intro pd units pd' hpd
  obtain ⟨bs, hrest, hgets⟩ := getFragments_some hget _ hpd
  refine ⟨bs, hrest, fun pd₁ behind rest hpd₁ => ?_⟩
  have hlen : bs.length ≤ pd₁.nbits - pd₁.nboff := by
    rw [← AsnBitData.length_rest, hpd₁.rest_eq, List.length_append]
    exact Nat.le_add_right _ _
  exact hgets (pd₁.nbits - pd₁.nboff + 1) (by omega) pd₁ behind rest hpd₁

end Fragments

/-! ## Open types -/

theorem isLocal_openTypeOctets : IsLocal openTypeOctets :=
  isLocal_getAllFragments fun _ => isLocal_perGetManyBits _

/-- What decodes the content of an open type sees nothing but the content. -/
theorem isLocal_aperOpenTypeGet {α : Type} (decode : StateT AsnBitData Option α) :
    IsLocal (aperOpenTypeGet decode) :=
  isLocal_openTypeOctets.bind fun buf => by
    cases openTypeContent decode buf with
    | none => exact IsLocal.failure
    | some value => exact IsLocal.pure value

/-! ## Complete encodings -/

/-- What a complete decoding has taken. -/
theorem aperDecodeComplete_some {α : Type} {decode : StateT AsnBitData Option α}
    (hd : IsLocal decode) {buffer : List UInt8} {value : α} {n : Nat}
    (h : aperDecodeComplete decode buffer = some (value, n)) :
    ∃ bs cs, ofOctets buffer = bs ++ cs ∧ Gets decode 0 bs value ∧
      (bs ≠ [] ∧ n = (bs.length + 7) / 8 ∨ bs = [] ∧ n = 1 ∧ buffer.head? = some 0) := by
  obtain ⟨⟨value', pd⟩, hpd, h⟩ := Option.bind_eq_some_iff.mp h
  obtain ⟨bs, hrest, hgets⟩ := hd _ _ _ hpd
  have hmoved : pd.moved = 0 + bs.length := (hgets.off_eq hrest hpd).2.1
  rw [AsnBitData.rest_ofBuffer] at hrest
  dsimp only at h
  rw [hmoved, Nat.zero_add] at h
  by_cases h0 : bs.length = 0
  · rw [if_neg (by omega)] at h
    by_cases hzero : buffer.head? = some 0
    · obtain ⟨rfl, rfl⟩ := Prod.mk.inj (Option.some.inj ((if_pos hzero).symm.trans h))
      exact ⟨bs, _, hrest, hgets, Or.inr ⟨List.length_eq_zero_iff.mp h0, rfl, hzero⟩⟩
    · rw [if_neg hzero] at h
      cases h
  · obtain ⟨rfl, rfl⟩ := Prod.mk.inj (Option.some.inj ((if_pos h0).symm.trans h))
    exact ⟨bs, _, hrest, hgets, Or.inl ⟨mt List.length_eq_zero_iff.mpr h0, rfl⟩⟩

theorem aperDecodeComplete_gets {α : Type} {decode : StateT AsnBitData Option α}
    {buffer : List UInt8} {value : α} {bs cs : List Bool} (hgets : Gets decode 0 bs value)
    (hbuffer : ofOctets buffer = bs ++ cs) :
    aperDecodeComplete decode buffer =
      if bs ≠ [] then some (value, (bs.length + 7) / 8)
      else if buffer.head? = some 0 then some (value, 1) else none := by
  obtain ⟨pd, hpd, hat⟩ := hgets _ 0 cs (hbuffer ▸ AsnBitData.at_ofBuffer buffer)
  have hmoved : pd.moved = bs.length := hat.off_eq.trans (Nat.zero_add _)
  unfold aperDecodeComplete
  rw [hpd]
  simp only [Option.bind_eq_bind, Option.bind_some, hmoved, ne_eq, List.length_eq_zero_iff]
  rfl

/-- The octets that are counted decode in front of any others, and none of them can be missing. -/
theorem aperDecodeComplete_counted {α : Type} {decode : StateT AsnBitData Option α}
    (hd : IsLocal decode) {buffer : List UInt8} {value : α} {n : Nat}
    (h : aperDecodeComplete decode buffer = some (value, n)) :
    n ≤ buffer.length ∧
      (∀ trailing, aperDecodeComplete decode (buffer.take n ++ trailing) = some (value, n)) ∧
      ∀ m < n, aperDecodeComplete decode (buffer.take m) = none := by
  obtain ⟨bs, cs, hbuffer, hgets, hcount⟩ := aperDecodeComplete_some hd h
  have hlen := congrArg List.length hbuffer
  rw [length_ofOctets, List.length_append] at hlen
  have htake (m : Nat) (hm : m ≤ buffer.length) :
      ofOctets (buffer.take m) = (bs ++ cs).take (8 * m) := by rw [← hbuffer, take_ofOctets]
  rcases hcount with ⟨hne, rfl⟩ | ⟨rfl, rfl, hzero⟩
  · refine ⟨by omega, fun trailing => ?_, fun m hm => ?_⟩
    · have hstart : ofOctets (buffer.take ((bs.length + 7) / 8) ++ trailing) =
          bs ++ (cs.take (8 * ((bs.length + 7) / 8) - bs.length) ++ ofOctets trailing) := by
        rw [ofOctets_append, htake _ (by omega), List.take_append,
          List.take_of_length_le (by omega), List.append_assoc]
      rw [aperDecodeComplete_gets hgets hstart, if_pos hne]
    · have hshort := htake m (by omega)
      rw [List.take_append_of_le_length (by omega)] at hshort
      have hpd := AsnBitData.at_ofBuffer (buffer.take m)
      rw [hshort] at hpd
      obtain ⟨pd, behind, hall⟩ := AsnBitData.exists_at 0 bs
      rw [← List.take_append_drop (8 * m) bs] at hgets hall
      have hnone := hd.eq_none hgets (by
        intro hnil
        have := congrArg List.length hnil
        rw [List.length_drop, List.length_nil] at this
        omega) hpd hall
      unfold aperDecodeComplete
      rw [hnone]
      rfl
  · obtain ⟨rest, rfl⟩ : ∃ rest, buffer = 0 :: rest := List.head?_eq_some_iff.mp hzero
    refine ⟨Nat.succ_pos _, fun trailing => ?_, fun m hm => ?_⟩
    · exact aperDecodeComplete_gets hgets (List.nil_append _).symm
    · obtain rfl : m = 0 := by omega
      exact aperDecodeComplete_gets hgets (List.nil_append _).symm

/-! ## Primitive types -/

theorem isLocal_getExtension (extensible : Bool) : IsLocal (getExtension extensible) :=
  IsLocal.ite ((isLocal_perGetFewBits 1).map _) (IsLocal.pure false)

theorem isLocal_getRange (ct : AsnPerConstraint) : IsLocal (getRange ct) :=
  IsLocal.ite ((isLocal_perGetFewBits _).map _) (IsLocal.ite ((isLocal_aligned _).map _)
    ((isLocal_perGetFewBits _).bind fun _ => isLocal_aperGetAlign.bind fun _ =>
      IsLocal.ite IsLocal.failure (((isLocal_perGetFewBits 8).repeatGet _).map longOfOctets)))

theorem isLocal_integerDecodeAper (ct : AsnPerConstraint) : IsLocal (integerDecodeAper ct) :=
  (isLocal_getExtension _).bind fun _ =>
    IsLocal.ite (isLocal_openTypeOctets.bind fun _ => IsLocal.lift _)
      (IsLocal.ite ((isLocal_getRange ct).map _) IsLocal.failure)

/-- No enumeration of up to 255 values has the padding of a larger one. -/
theorem isLocal_enumeratedDecodeAper {ct : AsnPerConstraint} (h : ct.upperBound < 255)
    (specs : AsnIntegerSpecifics) : IsLocal (enumeratedDecodeAper ct specs) := by
  have hpad (inext : Bool) : (!inext && decide (255 ≤ ct.upperBound)) = false := by
    rw [decide_eq_false (by omega), Bool.and_false]
  unfold enumeratedDecodeAper
  simp only [hpad, Bool.false_eq_true, if_false]
  exact (isLocal_getExtension _).bind fun _ => IsLocal.ite
    ((isLocal_perGetFewBits _).bind fun _ => IsLocal.ite IsLocal.failure (IsLocal.pure _))
    (IsLocal.ite IsLocal.failure (isLocal_uperGetNsnnwn.bind fun _ =>
      IsLocal.ite IsLocal.failure (IsLocal.pure _)))

theorem isLocal_stringDecodeAper {α : Type} {kind : StringKind α}
    (hget : ∀ n, IsLocal (kind.get n)) (csiz : AsnPerConstraint) :
    IsLocal (stringDecodeAper kind csiz) := by
  have hunits (n : Nat) (c : Prop) [Decidable c] : IsLocal (do
      if c then let _ ← aperGetAlign
      kind.get n) :=
    IsLocal.ite (isLocal_aperGetAlign.bind fun _ => hget n) (hget n)
  exact (isLocal_getExtension _).bind fun _ => IsLocal.ite (hunits _ _)
    ((isLocal_aperGetLength _ _).bind fun _ => hunits _ _)

theorem isLocal_charString (n : Nat) : IsLocal (charString.get n) := isLocal_perGetManyBits _

theorem isLocal_bitString (n : Nat) : IsLocal (bitString.get n) :=
  (isLocal_perGetManyBits n).map _

/-! ## Constructed types -/

namespace Per

theorem isLocal_getBitmap (nbits : Nat) : IsLocal (getBitmap nbits) :=
  (isLocal_perGetManyBits nbits).map _

theorem isLocal_skipExtensions : IsLocal skipExtensions :=
  isLocal_aperGetNslength.bind fun _ => (isLocal_getBitmap _).bind fun _ =>
    IsLocal.ite (isLocal_aperOpenTypeGet _) (IsLocal.pure ())

theorem isLocal_choiceDecodeAper (ct : AsnPerConstraint) (extStart : Option Nat) (count : Nat)
    {get : Nat → StateT AsnBitData Option Value} (hget : ∀ present, IsLocal (get present)) :
    IsLocal (choiceDecodeAper ct extStart count get) := by
  refine (isLocal_getExtension _).bind fun _ => IsLocal.ite ?_
    ((isLocal_perGetFewBits _).bind fun _ => IsLocal.ite IsLocal.failure ((hget _).map _))
  cases extStart with
  | none => exact IsLocal.failure
  | some start =>
    exact (isLocal_aperGetNsnnwn _).bind fun _ =>
      IsLocal.ite IsLocal.failure ((isLocal_aperOpenTypeGet _).map _)

theorem isLocal_sequenceOfDecodeAper {α : Type} (ct : AsnPerConstraint)
    {get : Nat → StateT AsnBitData Option (List α)} (hget : ∀ n, IsLocal (get n)) :
    IsLocal (sequenceOfDecodeAper ct get) :=
  (isLocal_getExtension _).bind fun _ =>
    IsLocal.ite ((isLocal_aperGetNsnnwn _).bind fun _ => hget _) (isLocal_getAllFragments hget)

mutual

/-- The decoder of a type is local. -/
theorem Typ.isLocal : ∀ T : Typ, T.wellFormed = true → IsLocal T.aperDecoder
  | .integer ct, _ => (isLocal_integerDecodeAper ct).map _
  | .enumerated ct specs _, hwf => by
    simp only [Typ.wellFormed, Bool.and_eq_true, decide_eq_true_eq] at hwf
    exact (isLocal_enumeratedDecodeAper hwf.2 specs).map _
  | .octetString csiz, _ => (isLocal_stringDecodeAper isLocal_charString csiz).map _
  | .bitString csiz, _ => (isLocal_stringDecodeAper isLocal_bitString csiz).map _
  | .printableString csiz, _ => (isLocal_stringDecodeAper isLocal_charString csiz).map _
  | .sequence extensible fields, hwf =>
    (isLocal_getExtension extensible).bind fun extpresent =>
      (isLocal_getBitmap _).bind fun opmd => (Fields.isLocalMembers fields hwf opmd).bind fun _ =>
        IsLocal.ite (isLocal_skipExtensions.bind fun _ => IsLocal.pure _) (IsLocal.pure _)
  | .choice ct extStart alternatives, hwf =>
    isLocal_choiceDecodeAper ct extStart _
      (Fields.isLocalAlternative alternatives (Bool.and_eq_true _ _ ▸ hwf).2)
  | .sequenceOf ct _ element, hwf =>
    (isLocal_sequenceOfDecodeAper ct fun n =>
      (Typ.isLocal element (Bool.and_eq_true _ _ ▸ hwf).2).repeatGet n).map _
  | .object _ id rows alternatives, hwf => by
    refine (isLocal_integerDecodeAper id).bind fun key =>
      (isLocal_enumeratedDecodeAper (by decide) _).bind fun crit => ?_
    cases rows.lookup key with
    | none => exact IsLocal.failure
    | some present => exact (isLocal_aperOpenTypeGet _).map _

theorem Fields.isLocalMembers : ∀ fields : Fields, fields.wellFormed = true → ∀ opmd,
    IsLocal (fields.decodeMembers opmd)
  | .nil, _, _ => IsLocal.pure []
  | .cons _ true _ rest, hwf, false :: opmd =>
    (Fields.isLocalMembers rest (Bool.and_eq_true _ _ ▸ hwf).2 opmd).map _
  | .cons _ true type rest, hwf, [] =>
    (Typ.isLocal type (Bool.and_eq_true _ _ ▸ hwf).1).bind fun _ =>
      (Fields.isLocalMembers rest (Bool.and_eq_true _ _ ▸ hwf).2 _).map _
  | .cons _ true type rest, hwf, true :: _ =>
    (Typ.isLocal type (Bool.and_eq_true _ _ ▸ hwf).1).bind fun _ =>
      (Fields.isLocalMembers rest (Bool.and_eq_true _ _ ▸ hwf).2 _).map _
  | .cons _ false type rest, hwf, _ =>
    (Typ.isLocal type (Bool.and_eq_true _ _ ▸ hwf).1).bind fun _ =>
      (Fields.isLocalMembers rest (Bool.and_eq_true _ _ ▸ hwf).2 _).map _

theorem Fields.isLocalAlternative : ∀ fields : Fields, fields.wellFormed = true → ∀ present,
    IsLocal (fields.decodeAlternative present)
  | .nil, _, _ => IsLocal.failure
  | .cons _ _ type _, hwf, 0 => Typ.isLocal type (Bool.and_eq_true _ _ ▸ hwf).1
  | .cons _ _ _ rest, hwf, present + 1 =>
    Fields.isLocalAlternative rest (Bool.and_eq_true _ _ ▸ hwf).2 present

end

end Per

end E2Term
