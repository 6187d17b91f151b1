import E2Term.Lib.Digits
import E2Term.RanName

/-!
# What `buildRanName` prints

For every identity it knows, `buildRanName` prints the type of the node and its PLMN, cut to 19
characters, and behind an underscore the bits of the identity, with the identity of a CU-UP or a
DU. Only the first piece is written with its terminator: what the buffer held behind it goes into
the name, in front of the bits.
-/

namespace E2Term

open CString Digits

/-! ## The pieces of a name -/

/-- The kinds of nodes, with an eNB's kind of identity. -/
inductive NodeKind where
  | gNB
  | gNBCUUP
  | gNBDU
  | enGNB
  | ngENBMacroID
  | ngENBShortmacroID
  | ngENBLongmacroID
  | eNBMacroID
  | eNBHomeID
  | eNBShortMacroID
  | eNBLongMacroID
  deriving DecidableEq, Repr

/-- The text that a name starts with. -/
def NodeKind.type : NodeKind → List UInt8
  | .gNB => text "gnb_"
  | .gNBCUUP => text "gnbc_"
  | .gNBDU => text "gnbd_"
  | .enGNB => text "en_gnb_"
  | .ngENBMacroID => text "ng_enB_macro_"
  | .ngENBShortmacroID => text "ng_enB_shortmacro_"
  | .ngENBLongmacroID => text "ng_enB_longmacro_"
  | .eNBMacroID => text "enB_macro_"
  | .eNBHomeID => text "enB_home_"
  | .eNBShortMacroID => text "enB_shortmacro_"
  | .eNBLongMacroID => text "enB_longmacro_"

theorem NodeKind.type_ne_zero (k : NodeKind) : ∀ x ∈ k.type, x ≠ 0 := by
  cases k <;> decide +kernel

/-- Each type fits into the name, with a part of the PLMN behind it. -/
theorem NodeKind.length_type_le (k : NodeKind) : k.type.length ≤ 18 := by
  cases k <;> decide

/-- The three digits of the MCC. -/
def PlmnId.mcc (p : PlmnId) : List Nat :=
  [p.octet0.toNat % 16, p.octet0.toNat / 16, p.octet1.toNat % 16]

/-- The three digits of the MNC, the first one zero for the filler. -/
def PlmnId.mnc (p : PlmnId) : List Nat :=
  [if p.octet1.toNat / 16 = 15 then 0 else p.octet1.toNat / 16,
    p.octet2.toNat % 16, p.octet2.toNat / 16]

/-- The MCC and the MNC; a nibble above nine is printed with two characters. -/
def PlmnId.printed (p : PlmnId) : List UInt8 := p.mcc.flatMap dec ++ 95 :: p.mnc.flatMap dec

/-- The bits, two characters an octet; `before` is the octet before them. -/
def printedOctets (unused before : Nat) : List UInt8 → List UInt8
  | [] => []
  | octet :: rest =>
    let tmpDigit := (before <<< (8 - unused)) ||| (octet.toNat >>> unused)
    hex ((tmpDigit &&& 0xF0) >>> 4) ++ hex (tmpDigit &&& 0x0F) ++
      printedOctets unused octet.toNat rest

/-- The identity of a CU-UP or a DU, unless the node is both. -/
def printedUnit (cuid duid : Int) : List UInt8 :=
  if cuid ≥ 0 ∧ duid ≥ 0 then []
  else if cuid ≥ 0 then 95 :: hex cuid.toNat
  else if duid ≥ 0 then 95 :: hex duid.toNat
  else []

/-- What a name is printed from; `id` has the bits and the two identities of
`translateBitStringToChar`. -/
structure NameParts where
  kind : NodeKind
  plmn : PlmnId
  id : Option (BitString × Int × Int)

/-- The kind of a gNB: the identity of a CU-UP or a DU counts beside bits only. -/
def GlobalE2nodeGNBID.kind (gnb : GlobalE2nodeGNBID) : NodeKind :=
  match gnb.gnbId, gnb.gNBCUUPID, gnb.gNBDUID with
  | some _, some _, none => .gNBCUUP
  | some _, none, some _ => .gNBDU
  | _, _, _ => .gNB

/-- What the name of an identity is printed from, unless `buildRanName` prints nothing for it. -/
def GlobalE2nodeID.parts : GlobalE2nodeID → Option NameParts
  | .nothing => none
  | .gNB gnb => some ⟨gnb.kind, gnb.plmnId,
      gnb.gnbId.map fun b => (b, gnb.gNBCUUPID.getD (-1), gnb.gNBDUID.getD (-1))⟩
  | .enGNB enGnb => some ⟨.enGNB, enGnb.plmnIdentity, enGnb.gNBID.map fun b => (b, -1, -1)⟩
  | .ngENB ngEnb =>
    match ngEnb.enbId with
    | ENBIDChoice.enbIDmacro b => some ⟨.ngENBMacroID, ngEnb.plmnId, some (b, -1, -1)⟩
    | ENBIDChoice.enbIDshortmacro b => some ⟨.ngENBShortmacroID, ngEnb.plmnId, some (b, -1, -1)⟩
    | ENBIDChoice.enbIDlongmacro b => some ⟨.ngENBLongmacroID, ngEnb.plmnId, some (b, -1, -1)⟩
    | .nothing => none
  | .eNB enb =>
    match enb.eNBID with
    | .macroENBID b => some ⟨.eNBMacroID, enb.plmnIdentity, some (b, -1, -1)⟩
    | .homeENBID b => some ⟨.eNBHomeID, enb.plmnIdentity, some (b, -1, -1)⟩
    | .shortMacroENBID b => some ⟨.eNBShortMacroID, enb.plmnIdentity, some (b, -1, -1)⟩
    | .longMacroENBID b => some ⟨.eNBLongMacroID, enb.plmnIdentity, some (b, -1, -1)⟩
    | .nothing => none

/-- `buildRanName` on what a name is printed from. -/
def NameParts.build (p : NameParts) (ranName : NameBuf) : Option NameBuf := do
  let ranName ← translatePlmnId ranName p.plmn p.kind.type
  match p.id with
  | some (data, cuid, duid) => translateBitStringToChar ranName data cuid duid
  | none => return ranName

/-- `buildRanName` prints the pieces, or leaves the buffer as it is. -/
theorem buildRanName_eq (b : NameBuf) (g : GlobalE2nodeID) :
    buildRanName b g =
      match g.parts with
      | some p => (p.build b).map fun b => (0, b)
      | none => some (if g = .nothing then -1 else 0, b) := by
  cases g with
  | nothing => rfl
  | gNB gnb =>
    obtain ⟨plmn, gnbId, cuup, du⟩ := gnb
    rcases gnbId with _ | data <;> rcases cuup with _ | u <;> rcases du with _ | v <;>
      simp [buildRanName, GlobalE2nodeID.parts, GlobalE2nodeGNBID.kind, NameParts.build,
        NodeKind.type, Option.map_eq_bind, Option.bind_assoc]
  | enGNB enGnb =>
    obtain ⟨plmn, data | _⟩ := enGnb <;>
      simp [buildRanName, GlobalE2nodeID.parts, NameParts.build, NodeKind.type,
        Option.map_eq_bind, Option.bind_assoc]
  | ngENB ngEnb =>
    obtain ⟨plmn, data⟩ := ngEnb
    cases data <;>
      simp [buildRanName, plmnAndId, GlobalE2nodeID.parts, NameParts.build, NodeKind.type,
        Option.map_eq_bind]
  | eNB enb =>
    obtain ⟨plmn, data⟩ := enb
    cases data <;>
      simp [buildRanName, plmnAndId, GlobalE2nodeID.parts, NameParts.build, NodeKind.type,
        Option.map_eq_bind]

/-! ## The name in the buffer -/

/-- The type and the PLMN. -/
def NameParts.front (p : NameParts) : List UInt8 := (p.kind.type ++ p.plmn.printed).take 19

/-- The bits and the identity behind them. -/
def NameParts.tail (p : NameParts) : List UInt8 :=
  match p.id with
  | some (data, cuid, duid) => printedOctets data.bitsUnused 0 data.buf ++ printedUnit cuid duid
  | none => []

/-- The name in a buffer that held the string `old`. -/
def NameParts.over (p : NameParts) (old : List UInt8) : List UInt8 :=
  match p.id with
  | some _ => p.front ++ 95 :: old.drop (p.front.length + 1) ++ p.tail
  | none => p.front

theorem length_front_le (p : NameParts) : p.front.length ≤ 19 := List.length_take_le _ _

/-- Digits are characters. -/
theorem dec_ne_zero {n : Nat} : ∀ x ∈ dec n, x ≠ 0 := by
  intro x hx
  obtain ⟨d, hd, rfl⟩ := mem_digitBytes (b := 10) (by decide) hx
  exact (digitByte_ne (by omega)).1

theorem hex_ne_zero {n : Nat} : ∀ x ∈ hex n, x ≠ 0 := by
  intro x hx
  obtain ⟨d, hd, rfl⟩ := mem_digitBytes (b := 16) (by decide) hx
  exact (digitByte_ne hd).1

theorem printed_ne_zero (p : PlmnId) : ∀ x ∈ p.printed, x ≠ 0 := by
  intro x hx
  rcases List.mem_append.mp hx with hx | hx
  · obtain ⟨d, -, hx⟩ := List.mem_flatMap.mp hx
    exact dec_ne_zero x hx
  · rcases List.mem_cons.mp hx with rfl | hx
    · decide
    · obtain ⟨d, -, hx⟩ := List.mem_flatMap.mp hx
      exact dec_ne_zero x hx

theorem printedUnit_ne_zero (cuid duid : Int) : ∀ x ∈ printedUnit cuid duid, x ≠ 0 := by
  have hunit (n : Nat) : ∀ x ∈ 95 :: hex n, x ≠ 0 :=
    List.forall_mem_cons.mpr ⟨by decide, hex_ne_zero⟩
  have hnil : ∀ x ∈ ([] : List UInt8), x ≠ 0 := fun _ hx => absurd hx List.not_mem_nil
  unfold printedUnit
  split
  · exact hnil
  · split
    · exact hunit _
    · split
      · exact hunit _
      · exact hnil

/-- `translatePlmnId` prints the type and the PLMN, as far as they fit. -/
theorem translatePlmnId_eq (b : NameBuf) (p : PlmnId) (type : List UInt8) :
    translatePlmnId b p type = b.snprintf 20 (type ++ p.printed) := by
  have h0 := p.octet0.toNat_lt
  have h1 := p.octet1.toNat_lt
  have h2 := p.octet2.toNat_lt
  have hhigh : ∀ n, n < 256 → (n &&& 0xF0) >>> 4 = n / 16 := fun n hn => by
    rw [and_high, Nat.mod_eq_of_lt (by omega)]
  have hzero : dec 0 = [48] := rfl
  unfold translatePlmnId PlmnId.printed PlmnId.mcc PlmnId.mnc
  simp only [and_low, hhigh _ h0, hhigh _ h1, hhigh _ h2]
  by_cases hfiller : p.octet1.toNat / 16 = 15
  · rw [if_neg (not_not.mpr hfiller), if_pos hfiller]
    simp [text, hzero]
  · rw [if_pos hfiller, if_neg hfiller]
    simp [text]

section Build

variable {b : NameBuf} {s t old : List UInt8}

theorem builds_appendText (h : b.Holds s) (ht : ∀ x ∈ t, x ≠ 0) :
    Buf.Builds (appendText b t) (s ++ t) := by
  unfold appendText
  rw [h.str_eq]
  exact h.builds_write (List.forall_mem_append.mpr ⟨h.nonzero, ht⟩) (by simp)

/-- The loop over the octets prints them in hexadecimal. -/
theorem builds_translateOctets {unused : Nat} (octets : List UInt8) :
    ∀ (before : Nat) {b : NameBuf} {s : List UInt8}, b.Holds s →
      Buf.Builds (translateOctets b unused before octets)
        (s ++ printedOctets unused before octets) := by
  induction octets with
  | nil =>
    intro before b s h
    unfold translateOctets printedOctets
    rw [List.append_nil]
    exact h.builds
  | cons octet rest ih =>
    intro before b s h
    unfold translateOctets printedOctets
    dsimp only
    rw [List.append_assoc, ← List.append_assoc]
    refine (builds_appendText h hex_ne_zero).bind fun b₁ h₁ => ?_
    rw [← List.append_assoc]
    exact (builds_appendText h₁ hex_ne_zero).bind fun b₂ h₂ => ih octet.toNat h₂

/-- `translateBitStringToChar` prints the bits and the identity behind them. -/
theorem builds_translateBitStringToChar (h : Buf.Builds (appendText b (text "_")) s)
    (data : BitString) (cuid duid : Int) :
    Buf.Builds (translateBitStringToChar b data cuid duid)
      (s ++ (printedOctets data.bitsUnused 0 data.buf ++ printedUnit cuid duid)) := by
  refine h.bind fun b₁ h₁ => ?_
  rw [← List.append_assoc]
  refine (builds_translateOctets data.buf 0 h₁).bind fun b₂ h₂ => ?_
  have hlast := builds_appendText h₂ (printedUnit_ne_zero cuid duid)
  unfold printedUnit at hlast ⊢
  split at hlast
  · rename_i hboth
    rw [if_pos hboth, if_pos hboth]
    exact hlast
  · rename_i hboth
    rw [if_neg hboth, if_neg hboth]
    split at hlast
    · rename_i hcuid
      rw [if_pos hcuid, if_pos hcuid]
      exact hlast
    · rename_i hcuid
      rw [if_neg hcuid, if_neg hcuid]
      split at hlast
      · rename_i hduid
        rw [if_pos hduid, if_pos hduid]
        exact hlast
      · rename_i hduid
        rw [if_neg hduid, if_neg hduid]
        exact hlast

/-- The string that is left of a build in a buffer that held a string. -/
theorem NameParts.build_str (p : NameParts) (h : b.Holds old) :
    (p.build b).map Buf.str =
      if (p.over old).length < maxEnodbNameSize then some (p.over old) else none := by
  have hprint : ∀ x ∈ p.kind.type ++ p.plmn.printed, x ≠ 0 :=
    List.forall_mem_append.mpr ⟨p.kind.type_ne_zero, printed_ne_zero p.plmn⟩
  obtain ⟨b₁, hb₁, hstr, hnext⟩ := Buf.snprintf_over h hprint 20 (by decide) (by decide)
  have hfront : translatePlmnId b p.plmn p.kind.type = some b₁ := by
    rw [translatePlmnId_eq, hb₁]
  unfold NameParts.build NameParts.over
  rw [hfront, Option.bind_eq_bind, Option.bind_some]
  obtain ⟨kind, plmn, id⟩ := p
  cases id with
  | none =>
    have hlen := length_front_le ⟨kind, plmn, none⟩
    rw [if_pos (hlen.trans_lt (by decide))]
    exact congrArg some hstr
  | some id =>
    obtain ⟨data, cuid, duid⟩ := id
    exact (builds_translateBitStringToChar (hnext 95 (by decide)) data cuid duid).str_eq

/-- In a zeroed buffer nothing is left behind the name. -/
theorem NameParts.builds (p : NameParts) :
    Buf.Builds (p.build (Buf.zeros maxEnodbNameSize)) (p.over []) := by
  have hprint : ∀ x ∈ p.kind.type ++ p.plmn.printed, x ≠ 0 :=
    List.forall_mem_append.mpr ⟨p.kind.type_ne_zero, printed_ne_zero p.plmn⟩
  obtain ⟨b₁, hb₁, hholds⟩ :=
    Buf.holds_snprintf (N := maxEnodbNameSize) hprint 20 (by decide) (by decide)
  have hfront : translatePlmnId (Buf.zeros maxEnodbNameSize) p.plmn p.kind.type = some b₁ := by
    rw [translatePlmnId_eq, hb₁]
  unfold NameParts.build NameParts.over
  rw [hfront, Option.bind_eq_bind, Option.bind_some]
  obtain ⟨kind, plmn, id⟩ := p
  cases id with
  | none => exact hholds.builds
  | some id =>
    obtain ⟨data, cuid, duid⟩ := id
    have hnext := builds_appendText (t := text "_") hholds (by decide +kernel)
    have hbits := builds_translateBitStringToChar hnext data cuid duid
    simpa [NameParts.front, NameParts.tail, text] using hbits

end Build

/-- The name that an identity has in a buffer that held the string `old`. -/
def GlobalE2nodeID.nameOver (g : GlobalE2nodeID) (old : List UInt8) : List UInt8 :=
  match g.parts with
  | some p => p.over old
  | none => old

/-- The name of an identity. -/
def GlobalE2nodeID.name (g : GlobalE2nodeID) : List UInt8 := g.nameOver []

theorem buildRanName_str {b : NameBuf} {old : List UInt8} (h : b.Holds old) (g : GlobalE2nodeID) :
    (buildRanName b g).map (·.2.str) =
      if (g.nameOver old).length < maxEnodbNameSize then some (g.nameOver old) else none := by
  rw [buildRanName_eq]
  unfold GlobalE2nodeID.nameOver
  cases g.parts with
  | none =>
    have hlt := b.str_length_lt
    rw [h.str_eq] at hlt
    dsimp only
    rw [if_pos hlt, Option.map_some, h.str_eq]
  | some p =>
    dsimp only
    rw [← p.build_str h, Option.map_map]
    rfl

/-- A zeroed buffer gets the name of an identity, as long as the name fits. -/
theorem buildRanName_of_fits {g : GlobalE2nodeID} (h : g.name.length < maxEnodbNameSize) :
    ∃ b, buildRanName (Buf.zeros maxEnodbNameSize) g = some (if g = .nothing then -1 else 0, b) ∧
      b.Holds g.name := by
  rw [buildRanName_eq]
  unfold GlobalE2nodeID.name GlobalE2nodeID.nameOver at *
  cases hp : g.parts with
  | none => exact ⟨_, rfl, Buf.holds_zeros⟩
  | some p =>
    rw [hp] at h
    obtain ⟨b, hb, hholds⟩ := p.builds.1 h
    have hg : g ≠ .nothing := by
      rintro rfl
      cases hp
    refine ⟨b, ?_, hholds⟩
    dsimp only
    rw [hb, if_neg hg]
    rfl

/-- A name that was built in a zeroed buffer. -/
theorem buildRanName_holds {g : GlobalE2nodeID} {rc : Int} {b : NameBuf}
    (h : buildRanName (Buf.zeros maxEnodbNameSize) g = some (rc, b)) : b.Holds g.name := by
  rcases Nat.lt_or_ge g.name.length maxEnodbNameSize with hlt | hge
  · obtain ⟨b', hb', hholds⟩ := buildRanName_of_fits hlt
    rw [h] at hb'
    cases hb'
    exact hholds
  · have hstr := buildRanName_str Buf.holds_zeros g
    change _ = if g.name.length < maxEnodbNameSize then some g.name else none at hstr
    rw [h, if_neg (Nat.not_lt.mpr hge)] at hstr
    cases hstr

end E2Term
