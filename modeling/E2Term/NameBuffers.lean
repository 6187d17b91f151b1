import E2Term.NodeNames

/-!
# Names in buffers that are used or short

`buildRanName` ends the type and the PLMN with a NUL, and writes over it when it goes on: in a
buffer that held another name, what that name had behind this place becomes a part of the new one. A
zeroed buffer has room for every name, and the MEID of an RMR message for most of them.
-/

namespace E2Term

open CString Digits

/-! ## A name over another one -/

/-- Nothing is left of `old` when the name of the identity is built over it: nothing was there, or
the pieces that are written reach its end, or the name outgrows the buffer in any case. -/
def GlobalE2nodeID.Covers (g : GlobalE2nodeID) (old : Name) : Prop :=
  match g.parts with
  | none => old = []
  | some p => p.id = none ∨ old.length ≤ p.front.length + 1 ∨ maxEnodbNameSize ≤ g.name.length

instance (g : GlobalE2nodeID) (old : Name) : Decidable (g.Covers old) := by
  unfold GlobalE2nodeID.Covers
  split <;> infer_instance

theorem NameParts.over_eq_iff (p : NameParts) (old : Name) :
    p.over old = p.over [] ↔ p.id = none ∨ old.length ≤ p.front.length + 1 := by
  unfold NameParts.over
  cases p.id with
  | none => simp
  | some id => simp [List.drop_eq_nil_iff]

theorem NameParts.length_over_le (p : NameParts) (old : Name) :
    (p.over []).length ≤ (p.over old).length := by
  unfold NameParts.over
  cases p.id with
  | none => exact Nat.le_refl _
  | some id =>
    simp only [List.length_append, List.length_cons, List.drop_nil, List.length_nil]
    omega

/-- A name is built over another one as in a zeroed buffer exactly when nothing is left of the other
one. -/
theorem rebuilt_str_eq_iff {g₀ g : GlobalE2nodeID} {rc : Int} {b : NameBuf}
    (h : buildRanName (Buf.zeros maxEnodbNameSize) g₀ = some (rc, b)) :
    (buildRanName b g).map (·.2.str) =
        (buildRanName (Buf.zeros maxEnodbNameSize) g).map (·.2.str) ↔
      g.Covers g₀.name := by
  have hold := buildRanName_holds h
  have hfit : g₀.name.length < maxEnodbNameSize := by
    rw [← hold.str_eq]
    exact b.str_length_lt
  rw [buildRanName_str hold, buildRanName_str Buf.holds_zeros]
  generalize g₀.name = old at hold hfit ⊢
  unfold GlobalE2nodeID.Covers GlobalE2nodeID.name GlobalE2nodeID.nameOver
  cases g.parts with
  | none =>
    dsimp only
    rw [if_pos hfit, if_pos (by decide), Option.some.injEq]
  | some p =>
    dsimp only
    have hle := p.length_over_le old
    rw [← or_assoc, ← p.over_eq_iff]
    rcases Nat.lt_or_ge (p.over []).length maxEnodbNameSize with hlt | hge
    · rw [if_pos hlt, or_iff_left (Nat.not_le.mpr hlt)]
      constructor
      · intro hsame
        split at hsame
        · exact Option.some.inj hsame
        · cases hsame
      · intro hsame
        rw [if_pos (hsame ▸ hlt), hsame]
    · rw [if_neg (Nat.not_lt.mpr hge), if_neg (Nat.not_lt.mpr (hge.trans hle))]
      exact iff_of_true rfl (.inr hge)

/-- A gNB with 24 bits, in the network 310-410. -/
def sampleGNB : GlobalE2nodeID :=
  .gNB ⟨⟨0x13, 0x40, 0x01⟩, some ⟨[0x12, 0x34, 0x56], 0⟩, none, none⟩

/-- A gNB without bits. -/
def sampleBitless : GlobalE2nodeID := .gNB ⟨⟨0x13, 0x40, 0x01⟩, none, none, none⟩

/-- The name without bits ends where the underscore of the other name is written. -/
theorem rebuilt_str_eq_iff_bitless :
    ∃ rc b, buildRanName (Buf.zeros maxEnodbNameSize) sampleBitless = some (rc, b) ∧
      ((buildRanName b sampleGNB).map (·.2.str) =
          (buildRanName (Buf.zeros maxEnodbNameSize) sampleGNB).map (·.2.str) ↔
        sampleGNB.Covers sampleBitless.name) := by
  obtain ⟨rc, b, h⟩ : ∃ rc b,
      buildRanName (Buf.zeros maxEnodbNameSize) sampleBitless = some (rc, b) := ⟨_, _, rfl⟩
  exact ⟨rc, b, h, rebuilt_str_eq_iff h⟩

/-- A gNB repeats its identity: the bits of its name come twice. -/
theorem repeated_identity_doubles :
    ¬ ∀ g₀ g rc b, buildRanName (Buf.zeros maxEnodbNameSize) g₀ = some (rc, b) →
      (buildRanName b g).map (·.2.str) =
        (buildRanName (Buf.zeros maxEnodbNameSize) g).map (·.2.str) := by
  intro hall
  obtain ⟨rc, b, h⟩ : ∃ rc b,
      buildRanName (Buf.zeros maxEnodbNameSize) sampleGNB = some (rc, b) := ⟨_, _, rfl⟩
  have hsame := hall sampleGNB sampleGNB rc b h
  rw [buildRanName_str (buildRanName_holds h), buildRanName_str Buf.holds_zeros] at hsame
  exact absurd hsame (by decide +kernel)

/-! ## The length of a name -/

/-- How many digits of the PLMN are printed with two characters. -/
def PlmnId.wideDigits (p : PlmnId) : Nat := (p.mcc ++ p.mnc).countP (10 ≤ ·)

theorem length_dec : ∀ n < 16, (dec n).length = if 10 ≤ n then 2 else 1 := by
  decide

theorem length_flatMap_dec {ds : List Nat} (h : ∀ d ∈ ds, d < 16) :
    (ds.flatMap dec).length = ds.length + ds.countP (10 ≤ ·) := by
  induction ds with
  | nil => rfl
  | cons d ds ih =>
    rw [List.forall_mem_cons] at h
    rw [List.flatMap_cons, List.length_append, length_dec d h.1, ih h.2, List.length_cons,
      List.countP_cons]
    simp only [decide_eq_true_eq]
    split <;> omega

theorem PlmnId.length_printed (p : PlmnId) : p.printed.length = 7 + p.wideDigits := by
  have h0 := p.octet0.toNat_lt
  have h1 := p.octet1.toNat_lt
  have h2 := p.octet2.toNat_lt
  have hmcc : ∀ d ∈ p.mcc, d < 16 := by
    unfold PlmnId.mcc
    simp only [List.forall_mem_cons]
    refine ⟨by omega, by omega, by omega, ?_⟩
    simp
  have hmnc : ∀ d ∈ p.mnc, d < 16 := by
    unfold PlmnId.mnc
    simp only [List.forall_mem_cons]
    refine ⟨?_, by omega, by omega, ?_⟩
    · split <;> omega
    · simp
  have hsix : p.mcc.length + p.mnc.length = 6 := rfl
  unfold PlmnId.printed PlmnId.wideDigits
  rw [List.length_append, List.length_cons, length_flatMap_dec hmcc, length_flatMap_dec hmnc,
    List.countP_append]
  omega

theorem PlmnId.wideDigits_le (p : PlmnId) : p.wideDigits ≤ 6 := List.countP_le_length

/-- Two characters an octet. -/
theorem length_printedOctets (unused : Nat) (octets : List UInt8) :
    ∀ before, (printedOctets unused before octets).length = 2 * octets.length := by
  induction octets with
  | nil => exact fun _ => rfl
  | cons octet rest ih =>
    intro before
    unfold printedOctets
    dsimp only
    rw [and_low, and_high, hex_of_lt (by omega), hex_of_lt (by omega)]
    simp only [List.length_append, List.length_cons, List.length_nil, ih]
    omega

theorem NameParts.length_front (p : NameParts) :
    p.front.length = min 19 (p.kind.type.length + (7 + p.plmn.wideDigits)) := by
  unfold NameParts.front
  rw [List.length_take, List.length_append, PlmnId.length_printed]

theorem NameParts.length_over_nil (p : NameParts) :
    (p.over []).length = p.front.length + (p.id.elim 0 fun id =>
      1 + 2 * id.1.buf.length + (printedUnit id.2.1 id.2.2).length) := by
  unfold NameParts.over NameParts.tail
  cases p.id with
  | none => rfl
  | some id =>
    obtain ⟨data, cuid, duid⟩ := id
    dsimp only [Option.elim_some]
    rw [List.drop_nil, List.length_append, List.length_append, List.length_append,
      length_printedOctets]
    simp only [List.length_singleton]
    omega

/-! ## The MEID -/

/-- The bit string has from `min` to `max` bits. -/
def BitString.SizeWithin (b : BitString) (min max : Nat) : Prop :=
  b.bitsUnused < 8 ∧ min + b.bitsUnused ≤ 8 * b.buf.length ∧ 8 * b.buf.length ≤ max + b.bitsUnused

instance (b : BitString) (min max : Nat) : Decidable (b.SizeWithin min max) := by
  unfold BitString.SizeWithin
  infer_instance

/-- The identity of a CU-UP or a DU is in its range. -/
def UnitRange (unit : Option Int) : Prop := ∀ u ∈ unit, 0 ≤ u ∧ u ≤ 68719476735

/-- The constraints of the ASN.1 types; they leave the octets of the PLMN free. -/
def GlobalE2nodeID.Constrained : GlobalE2nodeID → Prop
  | .nothing => True
  | .gNB gnb => (∀ b ∈ gnb.gnbId, b.SizeWithin 22 32) ∧ UnitRange gnb.gNBCUUPID ∧
      UnitRange gnb.gNBDUID
  | .enGNB enGnb => ∀ b ∈ enGnb.gNBID, b.SizeWithin 22 32
  | .ngENB ngEnb =>
    match ngEnb.enbId with
    | ENBIDChoice.enbIDmacro b => b.SizeWithin 20 20
    | ENBIDChoice.enbIDshortmacro b => b.SizeWithin 18 18
    | ENBIDChoice.enbIDlongmacro b => b.SizeWithin 21 21
    | .nothing => True
  | .eNB enb =>
    match enb.eNBID with
    | .macroENBID b => b.SizeWithin 20 20
    | .homeENBID b => b.SizeWithin 28 28
    | .shortMacroENBID b => b.SizeWithin 18 18
    | .longMacroENBID b => b.SizeWithin 21 21
    | .nothing => True

/-- The name has at most 31 characters: only that of a CU-UP or a DU can have more, where digits of
the PLMN above nine take two characters each. -/
def GlobalE2nodeID.FitsMeid : GlobalE2nodeID → Prop
  | .gNB ⟨plmn, some b, some u, none⟩ | .gNB ⟨plmn, some b, none, some u⟩ =>
    plmn.wideDigits + 2 * b.buf.length + (hex u.toNat).length ≤ 17
  | _ => True

/-- The name is built, leaves room for a NUL in the MEID, and is found again as a key when `echo`
gives it back. -/
def GlobalE2nodeID.ComesBack (g : GlobalE2nodeID) (echo : Name → Name) : Prop :=
  ∃ rc b, buildRanName (Buf.zeros maxEnodbNameSize) g = some (rc, b) ∧ b.str.length ≤ 31 ∧
    ∀ (sctpMap : SctpMap) c, sctpMap.lookup b.str = some c → sctpMap.lookup (echo b.str) = some c

section Meid

variable {g : GlobalE2nodeID}

theorem BitString.SizeWithin.length_le {b : BitString} {min max : Nat} (h : b.SizeWithin min max)
    (hmax : max ≤ 32) : b.buf.length ≤ 4 := by
  obtain ⟨hunused, -, hlen⟩ := h
  omega

/-- A name without the identity of a CU-UP or a DU. -/
theorem NameParts.length_le_of_no_unit {p : NameParts}
    (h : ∀ id ∈ p.id, id.1.buf.length ≤ 4 ∧ printedUnit id.2.1 id.2.2 = []) :
    (p.over []).length ≤ 28 := by
  have hfront := length_front_le p
  rw [NameParts.length_over_nil]
  cases hid : p.id with
  | none =>
    dsimp only [Option.elim_none]
    omega
  | some id =>
    obtain ⟨hlen, hunit⟩ := h id hid
    dsimp only [Option.elim_some]
    rw [hunit, List.length_nil]
    omega

/-- The name of a CU-UP or a DU. -/
theorem NameParts.length_of_unit {p : NameParts} {data : BitString} {cuid duid : Int} {u : Nat}
    (hid : p.id = some (data, cuid, duid)) (htype : p.kind.type.length = 5)
    (hunit : printedUnit cuid duid = 95 :: hex u) :
    (p.over []).length = 14 + p.plmn.wideDigits + 2 * data.buf.length + (hex u).length := by
  have hwide := p.plmn.wideDigits_le
  rw [NameParts.length_over_nil, NameParts.length_front, htype, hid]
  dsimp only [Option.elim_some]
  rw [hunit, List.length_cons]
  omega

theorem name_eq_of_parts {p : NameParts} (hp : g.parts = some p) : g.name = p.over [] := by
  unfold GlobalE2nodeID.name GlobalE2nodeID.nameOver
  rw [hp]

/-- The name of a node without the identity of a CU-UP or a DU is short. -/
theorem length_name_of_no_unit {p : NameParts} (hp : g.parts = some p)
    (h : ∀ id ∈ p.id, id.1.buf.length ≤ 4 ∧ printedUnit id.2.1 id.2.2 = []) :
    g.name.length ≤ 28 := by
  rw [name_eq_of_parts hp]
  exact NameParts.length_le_of_no_unit h

/-- The bits and no other identity. -/
theorem no_unit_of_bits {data : BitString} (hdata : data.buf.length ≤ 4) {cuid duid : Int}
    (hunit : printedUnit cuid duid = []) :
    ∀ id ∈ some (data, cuid, duid), id.1.buf.length ≤ 4 ∧ printedUnit id.2.1 id.2.2 = [] := by
  intro id hid
  cases hid
  exact ⟨hdata, hunit⟩

/-- The name of a CU-UP or a DU is at most 37 characters long. -/
theorem length_name_of_unit {p : NameParts} (hp : g.parts = some p) {data : BitString}
    {cuid duid u : Int} (hid : p.id = some (data, cuid, duid)) (htype : p.kind.type.length = 5)
    (hdata : data.buf.length ≤ 4) (hu : 0 ≤ u ∧ u ≤ 68719476735)
    (hunit : printedUnit cuid duid = 95 :: hex u.toNat) :
    g.name.length < maxEnodbNameSize ∧ (g.name.length ≤ 31 ↔
      p.plmn.wideDigits + 2 * data.buf.length + (hex u.toNat).length ≤ 17) := by
  have hwide := p.plmn.wideDigits_le
  have hhex : (hex u.toNat).length ≤ 9 :=
    length_digitBytes_le (by decide) (by decide) (by omega)
  rw [name_eq_of_parts hp, NameParts.length_of_unit hid htype hunit]
  refine ⟨?_, by omega⟩
  show _ < 64
  omega

theorem length_name_iff (hg : g.Constrained) :
    g.name.length < maxEnodbNameSize ∧ (g.name.length ≤ 31 ↔ g.FitsMeid) := by
  have hshort (hlen : g.name.length ≤ 28) (hfits : g.FitsMeid) :
      g.name.length < maxEnodbNameSize ∧ (g.name.length ≤ 31 ↔ g.FitsMeid) := by
    refine ⟨?_, iff_of_true (by omega) hfits⟩
    show _ < 64
    omega
  have hnone : printedUnit (-1) (-1) = [] := rfl
  have hempty : ([] : Name).length ≤ 28 := Nat.zero_le _
  cases g with
  | nothing => exact hshort hempty trivial
  | gNB gnb =>
    obtain ⟨plmn, gnbId, cuup, du⟩ := gnb
    obtain ⟨hbits, hcuup, hdu⟩ := hg
    cases gnbId with
    | none => exact hshort (length_name_of_no_unit rfl fun id hid => by cases hid) trivial
    | some data =>
      have hdata := (hbits data rfl).length_le (Nat.le_refl 32)
      cases cuup with
      | none =>
        cases du with
        | none => exact hshort (length_name_of_no_unit rfl (no_unit_of_bits hdata hnone)) trivial
        | some v =>
          obtain ⟨hpos, hmax⟩ := hdu v rfl
          refine length_name_of_unit (p := ⟨.gNBDU, plmn, some (data, -1, v)⟩) rfl rfl rfl hdata
            ⟨hpos, hmax⟩ ?_
          unfold printedUnit
          rw [if_neg (by omega), if_neg (by omega), if_pos hpos]
      | some u =>
        obtain ⟨hpos, hmax⟩ := hcuup u rfl
        cases du with
        | none =>
          refine length_name_of_unit (p := ⟨.gNBCUUP, plmn, some (data, u, -1)⟩) rfl rfl rfl hdata
            ⟨hpos, hmax⟩ ?_
          unfold printedUnit
          rw [if_neg (by omega), if_pos hpos]
        | some v =>
          obtain ⟨hpos', -⟩ := hdu v rfl
          refine hshort (length_name_of_no_unit rfl (no_unit_of_bits hdata ?_)) trivial
          unfold printedUnit
          exact if_pos ⟨hpos, hpos'⟩
  | enGNB enGnb =>
    obtain ⟨plmn, data⟩ := enGnb
    refine hshort (length_name_of_no_unit rfl fun id hid => ?_) trivial
    obtain ⟨b, hb, rfl⟩ := Option.map_eq_some_iff.mp hid
    exact ⟨(hg b hb).length_le (Nat.le_refl 32), hnone⟩
  | ngENB ngEnb =>
    obtain ⟨plmn, enbId⟩ := ngEnb
    cases enbId with
    | nothing => exact hshort hempty trivial
    | enbIDmacro b | enbIDshortmacro b | enbIDlongmacro b =>
      have hdata := BitString.SizeWithin.length_le hg (by decide)
      exact hshort (length_name_of_no_unit rfl (no_unit_of_bits hdata hnone)) trivial
  | eNB enb =>
    obtain ⟨plmn, enbId⟩ := enb
    cases enbId with
    | nothing => exact hshort hempty trivial
    | macroENBID b | homeENBID b | shortMacroENBID b | longMacroENBID b =>
      have hdata := BitString.SizeWithin.length_le hg (by decide)
      exact hshort (length_name_of_no_unit rfl (no_unit_of_bits hdata hnone)) trivial

end Meid

/-- A name that fits into its buffer comes back when it has at most 31 characters. -/
theorem comesBack_iff_length {echo : Name → Name} (hecho : ∀ n : Name, n.length < 32 → echo n = n)
    {g : GlobalE2nodeID} (hlt : g.name.length < maxEnodbNameSize) :
    g.ComesBack echo ↔ g.name.length ≤ 31 := by
  obtain ⟨b, hb, hholds⟩ := buildRanName_of_fits hlt
  constructor
  · rintro ⟨rc, b', hb', hlen, -⟩
    rw [hb] at hb'
    cases hb'
    rwa [hholds.str_eq] at hlen
  · intro hlen
    rw [← hholds.str_eq] at hlen
    refine ⟨_, b, hb, hlen, fun sctpMap c hc => ?_⟩
    rw [hecho b.str (Nat.lt_succ_of_le hlen), hc]

/-- The name of a node within the constraints fits into its buffer, and it comes back as the MEID of
a message exactly when it has at most 31 characters. -/
theorem comesBack_iff (echo : Name → Name) (hecho : ∀ n : Name, n.length < 32 → echo n = n)
    {g : GlobalE2nodeID} (hg : g.Constrained) : g.ComesBack echo ↔ g.FitsMeid := by
  obtain ⟨hlt, hiff⟩ := length_name_iff hg
  rw [comesBack_iff_length hecho hlt, hiff]

/-- A DU with the longest identities. -/
def sampleDU (plmn : PlmnId) : GlobalE2nodeID :=
  .gNB ⟨plmn, some ⟨[0x12, 0x34, 0x56, 0x78], 0⟩, none, some 68719476735⟩

theorem constrained_sampleDU (plmn : PlmnId) : (sampleDU plmn).Constrained := by
  refine ⟨fun b hb => ?_, fun u hu => ?_, fun u hu => ?_⟩
  · cases hb
    decide
  · cases hu
  · cases hu
    decide

/-- RMR cuts a MEID to 32 bytes: a name of 31 characters, in the network 310-410, comes back. -/
theorem comesBack_iff_longest : (sampleDU ⟨0x13, 0x40, 0x01⟩).ComesBack (List.take 32) ↔
    (sampleDU ⟨0x13, 0x40, 0x01⟩).FitsMeid :=
  comesBack_iff (List.take 32) (fun _ hn => List.take_of_length_le hn.le) (constrained_sampleDU _)

/-- All nibbles of the PLMN are ten: the name has 37 characters. -/
theorem wide_digits_outgrow_meid :
    ¬ ∀ (echo : Name → Name), (∀ n : Name, n.length < 32 → echo n = n) →
      ∀ g : GlobalE2nodeID, g.Constrained → g.ComesBack echo := by
  intro hall
  have hecho : ∀ n : Name, n.length < 32 → n.take 32 = n := fun _ hn => List.take_of_length_le hn.le
  have hg := constrained_sampleDU ⟨0xAA, 0xAA, 0xAA⟩
  have hcomes := hall (List.take 32) hecho _ hg
  obtain ⟨hlt, hiff⟩ := length_name_iff hg
  rw [comesBack_iff_length hecho hlt, hiff] at hcomes
  change 6 + 2 * 4 + (hex 68719476735).length ≤ 17 at hcomes
  revert hcomes
  decide +kernel

end E2Term
