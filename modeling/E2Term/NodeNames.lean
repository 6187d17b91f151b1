import E2Term.Lib.Digits
import E2Term.Names

/-!
# Which nodes share a RAN name

A name spells the kind of the node, its PLMN and its identity, but the type and the PLMN together
get 19 characters: the longer the type, the fewer digits of the PLMN are left. Two nodes share a
name exactly when they differ in nothing that is left of them.
-/

namespace E2Term

open CString Digits

/-! ## The identity of a node -/

/-- The number that the bits spell. -/
def BitString.value (b : BitString) : Nat := octetsValue b.buf / 2 ^ b.bitsUnused

/-- What identifies a node; `unit` is the identity of a gNB-CU-UP or a gNB-DU. -/
structure NodeIdentity where
  kind : NodeKind
  plmn : PlmnId
  id : BitString
  unit : Option Int
  deriving DecidableEq, Repr

/-- The identity of a node, unless its choice has no identity or it is a CU-UP and a DU at once. -/
def identityOf : GlobalE2nodeID → Option NodeIdentity
  | .gNB ⟨p, some b, none, none⟩ => some ⟨.gNB, p, b, none⟩
  | .gNB ⟨p, some b, some u, none⟩ => some ⟨.gNBCUUP, p, b, some u⟩
  | .gNB ⟨p, some b, none, some u⟩ => some ⟨.gNBDU, p, b, some u⟩
  | .enGNB ⟨p, some b⟩ => some ⟨.enGNB, p, b, none⟩
  | .ngENB ⟨p, ENBIDChoice.enbIDmacro b⟩ => some ⟨.ngENBMacroID, p, b, none⟩
  | .ngENB ⟨p, ENBIDChoice.enbIDshortmacro b⟩ => some ⟨.ngENBShortmacroID, p, b, none⟩
  | .ngENB ⟨p, ENBIDChoice.enbIDlongmacro b⟩ => some ⟨.ngENBLongmacroID, p, b, none⟩
  | .eNB ⟨p, .macroENBID b⟩ => some ⟨.eNBMacroID, p, b, none⟩
  | .eNB ⟨p, .homeENBID b⟩ => some ⟨.eNBHomeID, p, b, none⟩
  | .eNB ⟨p, .shortMacroENBID b⟩ => some ⟨.eNBShortMacroID, p, b, none⟩
  | .eNB ⟨p, .longMacroENBID b⟩ => some ⟨.eNBLongMacroID, p, b, none⟩
  | _ => none

/-- The least and the greatest number of bits of an identity. -/
def NodeKind.idSize : NodeKind → Nat × Nat
  | .gNB | .gNBCUUP | .gNBDU | .enGNB => (22, 32)
  | .ngENBMacroID | .eNBMacroID => (20, 20)
  | .eNBHomeID => (28, 28)
  | .ngENBShortmacroID | .eNBShortMacroID => (18, 18)
  | .ngENBLongmacroID | .eNBLongMacroID => (21, 21)

/-- The digits of the PLMN are decimal, and the identities have the sizes of the ASN.1 types. -/
structure NodeIdentity.WithinLimits (i : NodeIdentity) : Prop where
  mcc : ∀ d ∈ i.plmn.mcc, d ≤ 9
  mnc : ∀ d ∈ i.plmn.mnc, d ≤ 9
  unused : i.id.bitsUnused < 8
  minBits : i.kind.idSize.1 + i.id.bitsUnused ≤ 8 * i.id.buf.length
  maxBits : 8 * i.id.buf.length ≤ i.kind.idSize.2 + i.id.bitsUnused
  unit : ∀ u ∈ i.unit, 0 ≤ u ∧ u ≤ 68719476735

instance (i : NodeIdentity) : Decidable i.WithinLimits :=
  decidable_of_iff ((∀ d ∈ i.plmn.mcc, d ≤ 9) ∧ (∀ d ∈ i.plmn.mnc, d ≤ 9) ∧ i.id.bitsUnused < 8 ∧
      i.kind.idSize.1 + i.id.bitsUnused ≤ 8 * i.id.buf.length ∧
      8 * i.id.buf.length ≤ i.kind.idSize.2 + i.id.bitsUnused ∧
      ∀ u ∈ i.unit, 0 ≤ u ∧ u ≤ 68719476735)
    ⟨fun ⟨hc, hn, hu, hmin, hmax, hunit⟩ => ⟨hc, hn, hu, hmin, hmax, hunit⟩,
      fun ⟨hc, hn, hu, hmin, hmax, hunit⟩ => ⟨hc, hn, hu, hmin, hmax, hunit⟩⟩

/-- The two are different nodes. -/
def NodeIdentity.Distinct (i i' : NodeIdentity) : Prop :=
  i.kind ≠ i'.kind ∨ i.plmn.mcc ≠ i'.plmn.mcc ∨ i.plmn.mnc ≠ i'.plmn.mnc ∨
    i.id.value ≠ i'.id.value ∨ i.unit ≠ i'.unit

instance (i i' : NodeIdentity) : Decidable (i.Distinct i') := by
  unfold NodeIdentity.Distinct
  infer_instance

/-- How many of the six digits of the PLMN the name has room for. -/
def NodeKind.plmnDigits : NodeKind → Nat
  | .ngENBMacroID => 5
  | .ngENBShortmacroID => 1
  | .ngENBLongmacroID => 2
  | .eNBShortMacroID => 3
  | .eNBLongMacroID => 4
  | _ => 6

/-- The two differ in something that their names keep. -/
def NodeIdentity.ToldApart (i i' : NodeIdentity) : Prop :=
  i.kind ≠ i'.kind ∨
    (i.plmn.mcc ++ i.plmn.mnc).take i.kind.plmnDigits ≠
      (i'.plmn.mcc ++ i'.plmn.mnc).take i'.kind.plmnDigits ∨
    i.id.value ≠ i'.id.value ∨ i.unit ≠ i'.unit

instance (i i' : NodeIdentity) : Decidable (i.ToldApart i') := by
  unfold NodeIdentity.ToldApart
  infer_instance

/-! ## The text of a name -/

/-- The MCC and the MNC. -/
def PlmnId.digits (p : PlmnId) : List UInt8 :=
  p.mcc.map digitByte ++ 95 :: p.mnc.map digitByte

/-- The bits in hexadecimal. -/
def BitString.digits (b : BitString) : List UInt8 := hexOctets (alignOctets b.bitsUnused 0 b.buf)

/-- The identity of a CU-UP or a DU. -/
def unitDigits : Option Int → List UInt8
  | none => []
  | some u => 95 :: hex u.toNat

/-- The name of a node. -/
def NodeIdentity.name (i : NodeIdentity) : List UInt8 :=
  (i.kind.type ++ i.plmn.digits).take 19 ++ 95 :: (i.id.digits ++ unitDigits i.unit)

/-- No type starts like another one. -/
theorem NodeKind.eq_of_type_starts {k k' : NodeKind} (h : k.type <+: k'.type) : k = k' := by
  revert h
  cases k <;> cases k' <;> decide

/-! ## Building the name -/

section Build

theorem dec_of_le {d : Nat} (hd : d ≤ 9) : dec d = [digitByte d] := digitBytes_of_lt (by omega)

theorem hex_of_lt {d : Nat} (hd : d < 16) : hex d = [digitByte d] := digitBytes_of_lt hd

/-- Decimal digits are printed one by one. -/
theorem flatMap_dec {ds : List Nat} (h : ∀ d ∈ ds, d ≤ 9) : ds.flatMap dec = ds.map digitByte := by
  induction ds with
  | nil => rfl
  | cons d ds ih =>
    rw [List.forall_mem_cons] at h
    rw [List.flatMap_cons, List.map_cons, dec_of_le h.1, ih h.2]
    rfl

theorem PlmnId.printed_eq {p : PlmnId} (hmcc : ∀ d ∈ p.mcc, d ≤ 9) (hmnc : ∀ d ∈ p.mnc, d ≤ 9) :
    p.printed = p.digits := by
  unfold PlmnId.printed PlmnId.digits
  rw [flatMap_dec hmcc, flatMap_dec hmnc]

/-- The octets are printed aligned. -/
theorem printedOctets_eq {unused : Nat} (hu : unused ≤ 8) (octets : List UInt8) :
    ∀ before : Nat, printedOctets unused before octets =
      hexOctets (alignOctets unused before octets) := by
  induction octets with
  | nil => exact fun _ => rfl
  | cons octet rest ih =>
    intro before
    obtain ⟨s₁, hs₁⟩ : ∃ s₁, s₁ = before % 2 ^ unused * 2 ^ (8 - unused) +
        octet.toNat / 2 ^ unused := ⟨_, rfl⟩
    have hmod : (before <<< (8 - unused) ||| octet.toNat >>> unused) % 256 = s₁ := by
      rw [hs₁]
      exact shift_or_mod hu octet.toNat_lt
    have hlow : (before <<< (8 - unused) ||| octet.toNat >>> unused) &&& 0x0F = s₁ % 16 := by
      rw [and_low]
      omega
    have hhigh : ((before <<< (8 - unused) ||| octet.toNat >>> unused) &&& 0xF0) >>> 4 =
        s₁ / 16 := by
      rw [and_high]
      omega
    unfold printedOctets alignOctets hexOctets
    dsimp only
    rw [hlow, hhigh, hex_of_lt (by omega), hex_of_lt (by omega), ih, ← hs₁, List.flatMap_cons]
    rfl

theorem length_unitDigits_le {unit : Option Int} (h : ∀ u ∈ unit, 0 ≤ u ∧ u ≤ 68719476735) :
    (unitDigits unit).length ≤ 10 := by
  cases unit with
  | none => exact Nat.zero_le _
  | some u =>
    obtain ⟨-, hmax⟩ := h u rfl
    have hlt : u.toNat < 16 ^ 9 := by omega
    exact Nat.succ_le_succ (length_digitBytes_le (by decide) (by decide) hlt)

/-- The identity of a CU-UP or a DU is the only one that is printed. -/
theorem printedUnit_eq {unit : Option Int} {cuid duid : Int}
    (hid : cuid = unit.getD (-1) ∧ duid = -1 ∨ cuid = -1 ∧ duid = unit.getD (-1))
    (hunit : ∀ u ∈ unit, 0 ≤ u ∧ u ≤ 68719476735) : printedUnit cuid duid = unitDigits unit := by
  unfold printedUnit
  cases unit with
  | none =>
    have hneg : cuid = -1 ∧ duid = -1 := hid.elim id id
    rw [hneg.1, hneg.2]
    rfl
  | some u =>
    obtain ⟨hpos, -⟩ := hunit u rfl
    rcases hid with ⟨hcu, hdu⟩ | ⟨hcu, hdu⟩
    · rw [hcu, hdu, Option.getD_some, if_neg (by omega), if_pos hpos]
      rfl
    · rw [hcu, hdu, Option.getD_some, if_neg (by omega), if_neg (by omega), if_pos hpos]
      rfl

variable {g : GlobalE2nodeID} {i : NodeIdentity}

/-- What the name of a node is printed from. -/
theorem parts_of_identity (hg : identityOf g = some i) :
    ∃ cuid duid, g.parts = some ⟨i.kind, i.plmn, some (i.id, cuid, duid)⟩ ∧
      (cuid = i.unit.getD (-1) ∧ duid = -1 ∨ cuid = -1 ∧ duid = i.unit.getD (-1)) := by
  unfold identityOf at hg
  split at hg
  case h_12 => cases hg
  case h_3 =>
    cases hg
    exact ⟨_, _, rfl, .inr ⟨rfl, rfl⟩⟩
  all_goals
    cases hg
    exact ⟨_, _, rfl, .inl ⟨rfl, rfl⟩⟩

theorem name_of_identity (hg : identityOf g = some i) (hi : i.WithinLimits) :
    g.name = i.name := by
  obtain ⟨cuid, duid, hparts, hid⟩ := parts_of_identity hg
  unfold GlobalE2nodeID.name GlobalE2nodeID.nameOver
  rw [hparts]
  show (i.kind.type ++ i.plmn.printed).take 19 ++ [95] ++
    (printedOctets i.id.bitsUnused 0 i.id.buf ++ printedUnit cuid duid) = _
  rw [PlmnId.printed_eq hi.mcc hi.mnc, printedOctets_eq hi.unused.le, printedUnit_eq hid hi.unit,
    List.append_assoc]
  rfl

theorem length_name_lt (hi : i.WithinLimits) : i.name.length < maxEnodbNameSize := by
  have hfront : ((i.kind.type ++ i.plmn.digits).take 19).length ≤ 19 := List.length_take_le _ _
  have hbits : i.kind.idSize.2 ≤ 32 := by cases i.kind <;> decide
  have hunit := length_unitDigits_le hi.unit
  have hdigits : i.id.digits.length = 2 * i.id.buf.length := by
    unfold BitString.digits
    rw [length_hexOctets, length_alignOctets]
  have hmax := hi.maxBits
  have hunused := hi.unused
  unfold NodeIdentity.name
  rw [List.length_append, List.length_cons, List.length_append, hdigits]
  show _ < 64
  omega

/-- `buildRanName` builds the name of a supported node into a zeroed buffer. -/
theorem buildRanName_zeros (hg : identityOf g = some i) (hi : i.WithinLimits) :
    ∃ b, buildRanName (Buf.zeros maxEnodbNameSize) g = some (0, b) ∧ b.str = i.name := by
  have hname := name_of_identity hg hi
  have hlen : g.name.length < maxEnodbNameSize := hname ▸ length_name_lt hi
  obtain ⟨b, hb, hholds⟩ := buildRanName_of_fits hlen
  have hne : g ≠ .nothing := by
    rintro rfl
    cases hg
  rw [if_neg hne] at hb
  exact ⟨b, hb, hholds.str_eq.trans hname⟩

end Build

/-! ## What a name tells -/

section Tells

variable {i i' : NodeIdentity}

/-- The part of a name in front of the identity. -/
theorem take_name (k : NodeKind) (p : PlmnId) :
    (k.type ++ p.digits).take 19 = k.type ++ p.digits.take (19 - k.type.length) := by
  have hle := k.length_type_le
  rw [List.take_append, List.take_of_length_le (by omega)]

/-- The types keep the names of different kinds apart. -/
theorem kind_eq_of_name_eq (h : i.name = i'.name) : i.kind = i'.kind := by
  have htype : ∀ j : NodeIdentity, j.kind.type <+: j.name := fun j => by
    unfold NodeIdentity.name
    rw [take_name, List.append_assoc]
    exact List.prefix_append _ _
  rcases List.prefix_or_prefix_of_prefix (h ▸ htype i) (htype i') with hp | hp
  · exact NodeKind.eq_of_type_starts hp
  · exact (NodeKind.eq_of_type_starts hp).symm

/-- The characters of the PLMN that are left tell its digits that are left. -/
theorem take_digits_eq_iff (k : NodeKind) (hi : i.WithinLimits) (hi' : i'.WithinLimits) :
    i.plmn.digits.take (19 - k.type.length) = i'.plmn.digits.take (19 - k.type.length) ↔
      (i.plmn.mcc ++ i.plmn.mnc).take k.plmnDigits =
        (i'.plmn.mcc ++ i'.plmn.mnc).take k.plmnDigits := by
  have digit_eq {d e : Nat} (hd : d ≤ 9) (he : e ≤ 9) : digitByte d = digitByte e ↔ d = e :=
    digitByte_inj (by omega) (by omega)
  have hmcc := hi.mcc
  have hmnc := hi.mnc
  have hmcc' := hi'.mcc
  have hmnc' := hi'.mnc
  unfold PlmnId.digits
  unfold PlmnId.mcc PlmnId.mnc at *
  simp only [List.forall_mem_cons] at hmcc hmnc hmcc' hmnc'
  obtain ⟨hc1, hc2, hc3, -⟩ := hmcc
  obtain ⟨hn1, hn2, hn3, -⟩ := hmnc
  obtain ⟨hc1', hc2', hc3', -⟩ := hmcc'
  obtain ⟨hn1', hn2', hn3', -⟩ := hmnc'
  cases k <;>
    simp [NodeKind.type, NodeKind.plmnDigits, text, digit_eq hc1 hc1', digit_eq hc2 hc2',
      digit_eq hc3 hc3', digit_eq hn1 hn1', digit_eq hn2 hn2', digit_eq hn3 hn3']

/-- The identity of a CU-UP or a DU is behind the first underscore after the bits. -/
theorem digits_append_unit_eq_iff {b b' : BitString} {u u' : Option Int} (hb : b.bitsUnused ≤ 8)
    (hb' : b'.bitsUnused ≤ 8) :
    b.digits ++ unitDigits u = b'.digits ++ unitDigits u' ↔
      b.digits = b'.digits ∧ unitDigits u = unitDigits u' := by
  have hbits {b : BitString} {u : Option Int} (hb : b.bitsUnused ≤ 8) :
      (b.digits ++ unitDigits u).takeWhile (· ≠ 95) = b.digits := by
    have hne : ∀ x ∈ b.digits, x ≠ 95 := fun x hx =>
      (ne_of_mem_hexOctets (fun s hs => alignOctets_lt hb b.buf hs) hx).2
    rw [List.takeWhile_append_of_pos (by simpa using hne)]
    cases u with
    | none => exact List.append_nil _
    | some u => exact List.append_nil _
  refine ⟨fun h => ?_, fun h => by rw [h.1, h.2]⟩
  have hdigits : b.digits = b'.digits := by
    rw [← hbits (u := u) hb, h, hbits hb']
  rw [hdigits] at h
  exact ⟨hdigits, List.append_cancel_left h⟩

theorem unitDigits_eq_iff {u u' : Option Int} (hu : ∀ n ∈ u, 0 ≤ n) (hu' : ∀ n ∈ u', 0 ≤ n) :
    unitDigits u = unitDigits u' ↔ u = u' := by
  refine ⟨fun h => ?_, congrArg unitDigits⟩
  cases u with
  | none =>
    cases u' with
    | none => rfl
    | some n' => cases h
  | some n =>
    cases u' with
    | none => cases h
    | some n' =>
      have hnat : n.toNat = n'.toNat :=
        digitBytes_injective (by decide) (by decide) (List.cons.inj h).2
      have hn := hu n rfl
      have hn' := hu' n' rfl
      rw [show n = n' by omega]

/-- The bits of two identities of one length are printed alike when they spell one number. -/
theorem BitString.digits_eq_iff {b b' : BitString} (hb : b.bitsUnused ≤ 8)
    (hb' : b'.bitsUnused ≤ 8) (hlen : b.buf.length = b'.buf.length) :
    b.digits = b'.digits ↔ b.value = b'.value := by
  unfold BitString.digits BitString.value
  rw [hexOctets_inj (fun s hs => alignOctets_lt hb b.buf hs)
    (fun s hs => alignOctets_lt hb' b'.buf hs), alignOctets_eq_iff hb hb' hlen]

/-- Two nodes share a name when their kinds, the digits of the PLMN that are left, their bits and
their units are the same. -/
theorem name_eq_iff (hi : i.WithinLimits) (hi' : i'.WithinLimits) :
    i.name = i'.name ↔ i.kind = i'.kind ∧
      (i.plmn.mcc ++ i.plmn.mnc).take i.kind.plmnDigits =
        (i'.plmn.mcc ++ i'.plmn.mnc).take i'.kind.plmnDigits ∧
      i.id.digits = i'.id.digits ∧ i.unit = i'.unit := by
  have hcore (hkind : i.kind = i'.kind) : i.name = i'.name ↔
      (i.plmn.mcc ++ i.plmn.mnc).take i.kind.plmnDigits =
        (i'.plmn.mcc ++ i'.plmn.mnc).take i'.kind.plmnDigits ∧
      i.id.digits = i'.id.digits ∧ i.unit = i'.unit := by
    have hlen : (i.plmn.digits.take (19 - i.kind.type.length)).length =
        (i'.plmn.digits.take (19 - i'.kind.type.length)).length := by
      rw [hkind, List.length_take, List.length_take]
      rfl
    rw [← hkind, ← take_digits_eq_iff i.kind hi hi',
      ← unitDigits_eq_iff (fun u hu => (hi.unit u hu).1) fun u hu => (hi'.unit u hu).1,
      ← digits_append_unit_eq_iff hi.unused.le hi'.unused.le]
    unfold NodeIdentity.name
    rw [take_name, take_name, ← hkind, List.append_assoc, List.append_assoc,
      List.append_cancel_left_eq]
    rw [← hkind] at hlen
    refine ⟨fun h => ?_, fun h => by rw [h.1, h.2]⟩
    obtain ⟨hplmn, hrest⟩ := List.append_inj h hlen
    exact ⟨hplmn, (List.cons.inj hrest).2⟩
  exact ⟨fun h => ⟨kind_eq_of_name_eq h, (hcore (kind_eq_of_name_eq h)).mp h⟩,
    fun h => (hcore h.1).mpr h.2⟩

/-- Where a digit of the PLMN is lost, all identities of the kind have one length. -/
theorem length_buf_eq (hkind : i.kind = i'.kind) (hlost : i.kind.plmnDigits ≠ 6)
    (hi : i.WithinLimits) (hi' : i'.WithinLimits) : i.id.buf.length = i'.id.buf.length := by
  have hfixed : i.kind.idSize.1 = i.kind.idSize.2 := by
    cases hk : i.kind <;> rw [hk] at hlost <;> first | rfl | exact absurd rfl hlost
  have h1 := hi.minBits
  have h2 := hi.maxBits
  have h3 := hi.unused
  have h1' := hi'.minBits
  have h2' := hi'.maxBits
  have h3' := hi'.unused
  rw [← hkind] at h1' h2'
  omega

/-- The names of different nodes differ when they keep a difference. -/
theorem name_ne_iff (hi : i.WithinLimits) (hi' : i'.WithinLimits) (hd : i.Distinct i') :
    i.name ≠ i'.name ↔ i.ToldApart i' := by
  have hvalue : i.id.digits = i'.id.digits → i.id.value = i'.id.value := fun h => by
    have hlen : i.id.buf.length = i'.id.buf.length := by
      have h2 := congrArg List.length h
      unfold BitString.digits at h2
      rw [length_hexOctets, length_hexOctets, length_alignOctets, length_alignOctets] at h2
      omega
    exact (BitString.digits_eq_iff hi.unused.le hi'.unused.le hlen).mp h
  rw [ne_eq, name_eq_iff hi hi']
  unfold NodeIdentity.ToldApart
  constructor
  · intro h
    by_contra hsame
    push Not at hsame
    obtain ⟨hkind, hplmn, hval, hunit⟩ := hsame
    -- the nodes differ in a digit that is lost, so their bits have one length
    have hlost : i.kind.plmnDigits ≠ 6 := fun hall => by
      rw [← hkind, hall] at hplmn
      obtain ⟨hmcc, hmnc⟩ : i.plmn.mcc = i'.plmn.mcc ∧ i.plmn.mnc = i'.plmn.mnc :=
        List.append_inj (show i.plmn.mcc ++ i.plmn.mnc = _ from hplmn) rfl
      rcases hd with hd | hd | hd | hd | hd
      · exact hd hkind
      · exact hd hmcc
      · exact hd hmnc
      · exact hd hval
      · exact hd hunit
    have hlen := length_buf_eq hkind hlost hi hi'
    have hdigits := (BitString.digits_eq_iff hi.unused.le hi'.unused.le hlen).mpr hval
    exact h ⟨hkind, hplmn, hdigits, hunit⟩
  · rintro h ⟨hkind, hplmn, hdigits, hunit⟩
    rcases h with h | h | h | h
    · exact h hkind
    · exact h hplmn
    · exact h (hvalue hdigits)
    · exact h hunit

end Tells

/-! ## Keys -/

/-- The nodes that a request names. -/
def namedNodes (ies : List (ProtocolIE E2setupRequestIEs)) : List GlobalE2nodeID :=
  ies.filterMap fun ie =>
    match ie.value with
    | .globalE2nodeID g => if ie.id = idGlobalE2nodeID then some g else none
    | _ => none

/-- The names that are built from the nodes, one after another in the buffer `peer`. -/
def buildNames (peer : NameBuf) : List GlobalE2nodeID → List NameBuf
  | [] => []
  | g :: rest =>
    match buildRanName peer g with
    | none => []
    | some (rc, ranName) => if rc < 0 then [] else ranName :: buildNames ranName rest

theorem ranNames_eq (ies : List (ProtocolIE E2setupRequestIEs)) :
    ∀ peer : NameBuf, ranNames peer ies = buildNames peer (namedNodes ies) := by
  induction ies with
  | nil => exact fun _ => rfl
  | cons ie rest ih =>
    intro peer
    obtain ⟨id, value⟩ := ie
    cases value with
    | transactionID t => exact ih peer
    | other => exact ih peer
    | globalE2nodeID g =>
      by_cases hid : id = idGlobalE2nodeID
      · have hnodes : namedNodes (⟨id, .globalE2nodeID g⟩ :: rest) = g :: namedNodes rest := by
          simp [namedNodes, hid]
        rw [hnodes]
        unfold ranNames buildNames
        simp only [if_pos hid]
        cases buildRanName peer g with
        | none => rfl
        | some r =>
          dsimp only
          rw [ih r.2]
      · have hnodes : namedNodes (⟨id, .globalE2nodeID g⟩ :: rest) = namedNodes rest := by
          simp [namedNodes, hid]
        rw [hnodes]
        unfold ranNames
        simp only [if_neg hid]
        exact ih peer

/-- A request that names one node on a new connection registers the name of the node. -/
theorem scanSetup_keys {g : GlobalE2nodeID} {i : NodeIdentity} {s : SetupScan}
    {ies : List (ProtocolIE E2setupRequestIEs)} (hg : identityOf g = some i)
    (hi : i.WithinLimits) (hies : namedNodes ies = [g])
    (hs : scanSetup (Buf.zeros maxEnodbNameSize) ies = some s) : s.keys = [i.name] := by
  obtain ⟨b, hb, hname⟩ := buildRanName_zeros hg hi
  have hfrom := scanSetupIEs_from ies hs
  have hnames : buildNames (Buf.zeros maxEnodbNameSize) [g] = [b] := by
    unfold buildNames
    rw [hb]
    rfl
  rw [ranNames_eq, hies, hnames] at hfrom
  have hreads : (Buf.zeros maxEnodbNameSize).ReadsAs [b] b.str :=
    Buf.readsAs_of_same (.inl rfl) fun src hsrc => by rw [List.mem_singleton.mp hsrc]
  obtain ⟨k, hk⟩ : ∃ k, s.keys = [k] := ⟨_, hfrom.keys⟩
  have hkey := (hfrom.keys_eq_iff b.str).mpr hreads
  rw [hk, List.forall_mem_singleton] at hkey
  rw [hk, hkey, hname]

/-- The keys that two different nodes register differ exactly when their names keep a
difference. -/
theorem setup_keys_ne_iff {g g' : GlobalE2nodeID} {i i' : NodeIdentity} {s s' : SetupScan}
    {ies ies' : List (ProtocolIE E2setupRequestIEs)} (hg : identityOf g = some i)
    (hg' : identityOf g' = some i') (hi : i.WithinLimits) (hi' : i'.WithinLimits)
    (hd : i.Distinct i') (hies : namedNodes ies = [g]) (hies' : namedNodes ies' = [g'])
    (hs : scanSetup (Buf.zeros maxEnodbNameSize) ies = some s)
    (hs' : scanSetup (Buf.zeros maxEnodbNameSize) ies' = some s') :
    s.keys ≠ s'.keys ↔ i.ToldApart i' := by
  rw [scanSetup_keys hg hi hies hs, scanSetup_keys hg' hi' hies' hs', ne_eq, List.singleton_inj]
  exact name_ne_iff hi hi' hd

/-! ## Names in zeroed buffers -/

/-- The names of two different nodes, built into zeroed buffers, differ exactly when they keep
something that the nodes differ in. -/
theorem ranName_ne_iff {g g' : GlobalE2nodeID} {i i' : NodeIdentity} (hg : identityOf g = some i)
    (hg' : identityOf g' = some i') (hi : i.WithinLimits) (hi' : i'.WithinLimits)
    (hd : i.Distinct i') :
    ∃ b b', buildRanName (Buf.zeros maxEnodbNameSize) g = some (0, b) ∧
      buildRanName (Buf.zeros maxEnodbNameSize) g' = some (0, b') ∧
      (b.str ≠ b'.str ↔ i.ToldApart i') := by
  obtain ⟨b, hb, hname⟩ := buildRanName_zeros hg hi
  obtain ⟨b', hb', hname'⟩ := buildRanName_zeros hg' hi'
  refine ⟨b, b', hb, hb', ?_⟩
  rw [hname, hname']
  exact name_ne_iff hi hi' hd

/-- An ng-eNB with a macro identity, in the network 310-4xx. -/
def sampleNgENB (octet2 : UInt8) : GlobalE2nodeID :=
  .ngENB ⟨⟨0x13, 0x40, octet2⟩, ENBIDChoice.enbIDmacro ⟨[0x12, 0x34, 0x50], 4⟩⟩

def sampleNgENBIdentity (octet2 : UInt8) : NodeIdentity :=
  ⟨.ngENBMacroID, ⟨0x13, 0x40, octet2⟩, ⟨[0x12, 0x34, 0x50], 4⟩, none⟩

/-- The networks 310-411 and 310-421 differ in a digit that the names keep. -/
theorem ranName_ne_iff_fifth_digit :
    ∃ b b', buildRanName (Buf.zeros maxEnodbNameSize) (sampleNgENB 0x11) = some (0, b) ∧
      buildRanName (Buf.zeros maxEnodbNameSize) (sampleNgENB 0x12) = some (0, b') ∧
      (b.str ≠ b'.str ↔ (sampleNgENBIdentity 0x11).ToldApart (sampleNgENBIdentity 0x12)) :=
  have hi : (sampleNgENBIdentity 0x11).WithinLimits := by decide
  have hi' : (sampleNgENBIdentity 0x12).WithinLimits := by decide
  ranName_ne_iff rfl rfl hi hi' (by decide)

/-- The networks 310-411 and 310-412: the last digit is lost, and two nodes have one name. -/
theorem last_digit_lost :
    identityOf (sampleNgENB 0x11) = some (sampleNgENBIdentity 0x11) ∧
      identityOf (sampleNgENB 0x21) = some (sampleNgENBIdentity 0x21) ∧
      (sampleNgENBIdentity 0x11).WithinLimits ∧ (sampleNgENBIdentity 0x21).WithinLimits ∧
      (sampleNgENBIdentity 0x11).Distinct (sampleNgENBIdentity 0x21) ∧
      ∃ b b', buildRanName (Buf.zeros maxEnodbNameSize) (sampleNgENB 0x11) = some (0, b) ∧
        buildRanName (Buf.zeros maxEnodbNameSize) (sampleNgENB 0x21) = some (0, b') ∧
        b.str = b'.str := by
  obtain ⟨b, hb, hname⟩ :=
    buildRanName_zeros (g := sampleNgENB 0x11) (i := sampleNgENBIdentity 0x11) rfl (by decide)
  obtain ⟨b', hb', hname'⟩ :=
    buildRanName_zeros (g := sampleNgENB 0x21) (i := sampleNgENBIdentity 0x21) rfl (by decide)
  refine ⟨rfl, rfl, by decide, by decide, by decide, b, b', hb, hb', ?_⟩
  rw [hname, hname']
  decide

end E2Term
