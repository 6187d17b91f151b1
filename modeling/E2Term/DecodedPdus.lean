import E2Term.NameBuffers
import E2Term.PduContent

/-!
# Decoded PDUs

Every value of the type of PDUs is a PDU for the handlers, and its parts keep to the sizes that the
decoder knows: they are not the ones that the types demand.
-/

namespace E2Term

open Bits Digits

/-! ## PDUs that octets decode to -/

/-- A name has bits, and these and its numbers are of sizes that the decoder keeps to. -/
def NameParts.Bounded (p : NameParts) : Prop :=
  ∃ data cuid duid, p.id = some (data, cuid, duid) ∧ data.buf.length ≤ 5 ∧ cuid < 2 ^ 63 ∧
    duid < 2 ^ 63

/-- An information element of a setup request: its number goes with its value. -/
def ProtocolIE.SetupDecoded (ie : ProtocolIE E2setupRequestIEs) : Prop :=
  match ie.value with
  | .globalE2nodeID g => ie.id = idGlobalE2nodeID ∧ ∃ p, g.parts = some p ∧ p.Bounded
  | .transactionID t => ie.id = idTransactionID ∧ fitsLong t = true
  | .other => ie.id ≠ idGlobalE2nodeID ∧ ie.id ≠ idTransactionID

def ProtocolIE.UpdateDecoded (ie : ProtocolIE RICserviceUpdateIEs) : Prop :=
  match ie.value with
  | .transactionID t => ie.id = idTransactionID ∧ fitsLong t = true
  | .other => ie.id ≠ idTransactionID

/-- Both numbers of a request are sixteen bits wide. -/
def RICrequestID.Decoded (r : RICrequestID) : Prop :=
  (0 ≤ r.ricRequestorID ∧ r.ricRequestorID ≤ 65535) ∧
    0 ≤ r.ricInstanceID ∧ r.ricInstanceID ≤ 65535

def ProtocolIE.ErrorDecoded (ie : ProtocolIE ErrorIndicationIEs) : Prop :=
  match ie.value with
  | .transactionID t => ie.id = idTransactionID ∧ fitsLong t = true
  | .ricRequestID r => ie.id = idRICrequestID ∧ r.Decoded
  | .cause => ie.id = idCause
  | .criticalityDiagnostics procedureCode =>
    ie.id = idCriticalityDiagnostics ∧ ∀ code ∈ procedureCode, 0 ≤ code ∧ code ≤ 255
  | .other => ie.id ≠ idTransactionID ∧ ie.id ≠ idRICrequestID ∧ ie.id ≠ idCause ∧
      ie.id ≠ idCriticalityDiagnostics

def ProtocolIE.RequestDecoded (ie : ProtocolIE RequestIEs) : Prop :=
  match ie.value with
  | .ricRequestID r => ie.id = idRICrequestID ∧ r.Decoded
  | .other => ie.id ≠ idRICrequestID

/-- The PDU is one that octets can decode to. -/
def E2APPDU.Decoded : E2APPDU → Prop
  | .nothing => False
  | .initiatingMessage (.e2setup ies) => ∀ ie ∈ ies, ie.SetupDecoded
  | .initiatingMessage (.ricServiceUpdate ies) => ∀ ie ∈ ies, ie.UpdateDecoded
  | .initiatingMessage (.errorIndication ies) => ∀ ie ∈ ies, ie.ErrorDecoded
  | .initiatingMessage (.ricIndication ies) | .successfulOutcome (.ricControl ies)
  | .unsuccessfulOutcome (.ricControl ies) => ∀ ie ∈ ies, ie.RequestDecoded
  | .initiatingMessage (.other code) => code = 4 ∨ code = 6 ∨ code = 8 ∨ code = 9 ∨ code = 11
  | .successfulOutcome (.other code) => code = 1 ∨ code = 7 ∨ code = 10
  | .unsuccessfulOutcome (.other code) => code = 1 ∨ code = 7 ∨ code = 10
  | _ => True

/-! ## Values of the types of E2AP -/

namespace AsnPer

open Per

theorem hasAlternative_fields : ∀ {l : List Member} {present : Nat} {value : Value},
    (fields l).hasAlternative present value = true →
      ∃ m, l[present]? = some m ∧ m.type.has value = true
  | [], _, _, h => by cases h
  | m :: _, 0, _, h => ⟨m, rfl, h⟩
  | _ :: l, _ + 1, _, h => hasAlternative_fields (l := l) h

theorem hasMembers_fields : ∀ {l : List Member} {members : List (Option Value)},
    (fields l).hasMembers members = true →
      List.Forall₂ (fun m value => value.elim m.optional m.type.has = true) l members
  | [], [], _ => .nil
  | [], _ :: _, h => by cases h
  | _ :: _, [], h => by cases h
  | _ :: l, some _ :: _, h =>
    .cons (Bool.and_eq_true _ _ ▸ h).1 (hasMembers_fields (l := l) (Bool.and_eq_true _ _ ▸ h).2)
  | _ :: l, none :: _, h =>
    .cons (Bool.and_eq_true _ _ ▸ h).1 (hasMembers_fields (l := l) (Bool.and_eq_true _ _ ▸ h).2)

theorem has_choice {ct : AsnPerConstraint} {extStart : Nat} {l : List Member} {v : Value}
    (h : (choice ct extStart l).has v = true) :
    ∃ present m value, v = .choice present value ∧ l[present]? = some m ∧
      m.type.has value = true := by
  cases v with
  | choice present value =>
    obtain ⟨m, hm, hvalue⟩ := hasAlternative_fields h
    exact ⟨present, m, value, rfl, hm, hvalue⟩
  | _ => cases h

theorem has_sequence {l : List Member} {v : Value} (h : (sequence l).has v = true) :
    ∃ members, v = .sequence members ∧
      List.Forall₂ (fun m value => value.elim m.optional m.type.has = true) l members := by
  cases v with
  | sequence members => exact ⟨members, rfl, hasMembers_fields h⟩
  | _ => cases h

/-- An open type has the content that its row selects. -/
theorem has_object {key : Xer.Name} {id : AsnPerConstraint} {rows : List (Int × Nat)}
    {l : List Member} {v : Value} (h : (Typ.object key id rows (fields l)).has v = true) :
    ∃ n crit present m value, v = .object n crit present value ∧ integerTaken id n = true ∧
      rows.lookup n = some present ∧ l[present]? = some m ∧ m.type.has value = true := by
  cases v with
  | object n crit present value =>
    simp only [Typ.has, Bool.and_eq_true, decide_eq_true_eq] at h
    obtain ⟨⟨⟨hn, -⟩, hrow⟩, hvalue⟩ := h
    obtain ⟨m, hm, hvalue⟩ := hasAlternative_fields hvalue
    exact ⟨n, crit, present, m, value, rfl, hn, hrow, hm, hvalue⟩
  | _ => cases h

theorem has_sequenceOf {ct : AsnPerConstraint} {name : Xer.Name} {element : Typ} {v : Value}
    (h : (Typ.sequenceOf ct name element).has v = true) :
    ∃ elements, v = .sequenceOf elements ∧ ∀ value ∈ elements, element.has value = true := by
  cases v with
  | sequenceOf elements => exact ⟨elements, rfl, List.all_eq_true.mp h⟩
  | _ => cases h

end AsnPer

/-! ## Identities that octets decode to -/

/-- Characters of the identity of a CU-UP or a DU, with the underscore. -/
theorem length_printedUnit_le {cuid duid : Int} (hcuid : cuid < 2 ^ 63) (hduid : duid < 2 ^ 63) :
    (printedUnit cuid duid).length ≤ 17 := by
  have hunit (n : Int) (hn : n < 2 ^ 63) : (95 :: hex n.toNat).length ≤ 17 := by
    have hlen := length_digitBytes_le (b := 16) (by decide) (k := 16) (n := n.toNat) (by decide)
      (by omega)
    exact Nat.succ_le_succ hlen
  unfold printedUnit
  split_ifs
  · exact Nat.zero_le _
  · exact hunit cuid hcuid
  · exact hunit duid hduid
  · exact Nat.zero_le _

theorem NameParts.Bounded.length_le {p : NameParts} (h : p.Bounded) :
    (p.over []).length ≤ 47 := by
  obtain ⟨data, cuid, duid, hid, hbits, hcuid, hduid⟩ := h
  have hfront := length_front_le p
  have hunit := length_printedUnit_le hcuid hduid
  rw [NameParts.length_over_nil, hid]
  dsimp only [Option.elim_some]
  omega

namespace AsnPer

open Per

theorem toPlmnId_of_has {v : Value} (h : PLMNIdentity.has v = true) :
    ∃ plmnId, v.toPlmnId = some plmnId := by
  cases v with
  | octets buf =>
    have hlen : ((buf.length : Nat) : Int) = 3 := of_decide_eq_true h
    obtain ⟨a, b, c, rfl⟩ := List.length_eq_three.mp (by omega : buf.length = 3)
    exact ⟨⟨a, b, c⟩, rfl⟩
  | _ => cases h

theorem toBitString_of_has {csiz : AsnPerConstraint} {v : Value}
    (hsize : ∀ n, sizeTaken csiz n = true → n ≤ 40) (h : (Typ.bitString csiz).has v = true) :
    ∃ b, v.toBitString = some b ∧ b.buf.length ≤ 5 := by
  cases v with
  | bits bs =>
    refine ⟨_, rfl, ?_⟩
    have hlen := hsize bs.length h
    rw [length_toOctets]
    omega
  | _ => cases h

theorem sizeTaken_bounded {csiz : AsnPerConstraint} {n : Nat} (hext : csiz.extensible = false)
    (heff : 0 < csiz.effectiveBits) (h : sizeTaken csiz n = true) :
    csiz.lowerBound ≤ n ∧ n - csiz.lowerBound < 2 ^ csiz.sizeRoom := by
  unfold sizeTaken at h
  rw [hext, decide_eq_false (by omega), Bool.or_self, Bool.false_or, if_neg (by omega)] at h
  obtain ⟨hle, hlt⟩ := Bool.and_eq_true _ _ ▸ h
  exact ⟨of_decide_eq_true hle, of_decide_eq_true hlt⟩

/-- Four bits behind the lower bound have room for five octets. -/
theorem sizeTaken_gnb {hb : Bounds 4 22 32} {n : Nat}
    (h : sizeTaken (apcConstrained 4 4 22 32 hb) n = true) : n ≤ 40 := by
  have heff : (0 : Int) < 4 := by decide
  obtain ⟨-, hlt⟩ := sizeTaken_bounded rfl heff h
  have hroom : (apcConstrained 4 4 22 32 hb).sizeRoom = 4 := by rfl
  have hlow : (apcConstrained 4 4 22 32 hb).lowerBound = 22 := rfl
  rw [hroom, hlow] at hlt
  omega

theorem toLong_of_has {ct : AsnPerConstraint} {v : Value} (h : (Typ.integer ct).has v = true) :
    ∃ n, v.toLong = some n ∧ fitsLong n = true := by
  cases v with
  | integer n => exact ⟨n, rfl, (Bool.and_eq_true _ _ ▸ h : _ ∧ _).1⟩
  | _ => cases h

/-- The two numbers of a gNB are below `2 ^ 63`, whether they are there or not. -/
theorem toLong_lt {ct : AsnPerConstraint} {m : Member} (hm : m.type = .integer ct)
    {value : Option Value} (h : value.elim m.optional m.type.has = true) :
    (value.bind Value.toLong).getD (-1) < 2 ^ 63 := by
  cases value with
  | none => decide
  | some v =>
    rw [Option.elim_some, hm] at h
    obtain ⟨n, hn, hlong⟩ := toLong_of_has h
    rw [Option.bind_some, hn, Option.getD_some]
    unfold fitsLong at hlong
    simp only [Bool.and_eq_true, decide_eq_true_eq] at hlong
    exact hlong.2

/-- A PLMN and a choice of bit strings. -/
theorem has_global {s t : String} {hs : Identifier s} {ht : Identifier t}
    {ct : AsnPerConstraint} {extStart : Nat} {l : List Member} {v : Value}
    (hl : ∀ m ∈ l, ∃ csiz, m.type = .bitString csiz ∧ ∀ n, sizeTaken csiz n = true → n ≤ 40)
    (h : (sequence [req s PLMNIdentity hs, req t (choice ct extStart l) ht]).has v = true) :
    ∃ plmn present id plmnId b, v = .sequence [some plmn, some (.choice present id)] ∧
      plmn.toPlmnId = some plmnId ∧ present < l.length ∧ id.toBitString = some b ∧
      b.buf.length ≤ 5 := by
  obtain ⟨members, rfl, hmembers⟩ := has_sequence h
  cases hmembers with
  | cons hplmn hrest =>
    rename_i plmn members
    cases hrest with
    | cons hid hnil =>
      rename_i id members
      cases hnil
      cases plmn with
      | none => cases hplmn
      | some plmn =>
        cases id with
        | none => cases hid
        | some id =>
          obtain ⟨plmnId, hplmnId⟩ := toPlmnId_of_has hplmn
          obtain ⟨present, m, value, rfl, hm, hvalue⟩ := has_choice hid
          obtain ⟨csiz, htype, hsize⟩ := hl m (List.mem_of_getElem? hm)
          obtain ⟨b, hb, hlen⟩ := toBitString_of_has hsize (htype ▸ hvalue)
          have hlt := (List.getElem?_eq_some_iff.mp hm).1
          exact ⟨plmn, present, value, plmnId, b, rfl, hplmnId, hlt, hb, hlen⟩

/-- Bits without the identity of a CU-UP or a DU. -/
theorem bounded_of_bits {kind : NodeKind} {plmn : PlmnId} {b : BitString} (h : b.buf.length ≤ 5) :
    NameParts.Bounded ⟨kind, plmn, some (b, -1, -1)⟩ := by
  have hnone : (-1 : Int) < 2 ^ 63 := by decide
  exact ⟨b, -1, -1, rfl, h, hnone, hnone⟩

theorem gnbBits {s : String} {hs : Identifier s} {hb : Bounds 4 22 32} {m : Member}
    (h : m ∈ [req s (.bitString (apcConstrained 4 4 22 32 hb)) hs]) :
    ∃ csiz, m.type = .bitString csiz ∧ ∀ n, sizeTaken csiz n = true → n ≤ 40 := by
  rw [List.mem_singleton.mp h]
  exact ⟨_, rfl, fun _ => sizeTaken_gnb⟩

theorem toGNB_of_has {v : Value} (h : GlobalE2nodegNBID.has v = true) :
    ∃ gnb p, v.toGNB = some gnb ∧ (E2Term.GlobalE2nodeID.gNB gnb).parts = some p ∧ p.Bounded := by
  obtain ⟨members, rfl, hmembers⟩ := has_sequence h
  obtain _ | ⟨hglobal, hmembers⟩ := hmembers
  obtain _ | ⟨-, hmembers⟩ := hmembers
  obtain _ | ⟨hcuup, hmembers⟩ := hmembers
  obtain _ | ⟨hdu, hmembers⟩ := hmembers
  cases hmembers
  rename_i global _ cuup du
  cases global with
  | none => cases hglobal
  | some global =>
    obtain ⟨plmn, present, id, plmnId, b, rfl, hplmn, -, hb, hlen⟩ :=
      has_global (fun m hm => gnbBits hm) hglobal
    refine ⟨⟨plmnId, some b, cuup.bind Value.toLong, du.bind Value.toLong⟩, _, ?_, rfl, ?_⟩
    · simp [Value.toGNB, hplmn, hb]
    · exact ⟨b, _, _, rfl, hlen, toLong_lt rfl hcuup, toLong_lt rfl hdu⟩

/-- The identity behind `global` in a SEQUENCE. -/
theorem head_of_has {s : String} {hs : Identifier s} {t : Typ} {l : List Member} {v : Value}
    (h : (sequence (req s t hs :: l)).has v = true) :
    ∃ value members, v = .sequence (some value :: members) ∧ t.has value = true := by
  obtain ⟨members, rfl, hmembers⟩ := has_sequence h
  obtain _ | ⟨hvalue, -⟩ := hmembers
  rename_i value members
  cases value with
  | none => cases hvalue
  | some value => exact ⟨value, members, rfl, hvalue⟩

theorem toEnGNB_of_has {v : Value} (h : GlobalE2nodeengNBID.has v = true) :
    ∃ enGnb p, v.toEnGNB = some enGnb ∧ (E2Term.GlobalE2nodeID.enGNB enGnb).parts = some p ∧
      p.Bounded := by
  obtain ⟨value, members, rfl, hglobal⟩ := head_of_has h
  obtain ⟨plmn, present, id, plmnId, b, rfl, hplmn, -, hb, hlen⟩ :=
    has_global (fun m hm => by
      rw [List.mem_singleton.mp hm]
      exact ⟨_, rfl, fun _ => sizeTaken_gnb⟩) hglobal
  exact ⟨⟨plmnId, some b⟩, _, by simp [Value.toEnGNB, hplmn, hb], rfl, bounded_of_bits hlen⟩

theorem fixedBits {ct : AsnPerConstraint} (hext : ct.extensible = false)
    (heff : ct.effectiveBits = 0) (hup : ct.upperBound ≤ 40) (n : Nat)
    (h : sizeTaken ct n = true) : n ≤ 40 := by
  unfold sizeTaken at h
  rw [hext, heff, decide_eq_false (by omega), Bool.or_self, Bool.false_or, if_pos rfl,
    decide_eq_true_eq] at h
  omega

theorem toNgENB_of_has {v : Value} (h : GlobalE2nodengeNBID.has v = true) :
    ∃ ngEnb p, v.toNgENB = some ngEnb ∧ (E2Term.GlobalE2nodeID.ngENB ngEnb).parts = some p ∧
      p.Bounded := by
  obtain ⟨value, members, rfl, hglobal⟩ := head_of_has h
  obtain ⟨plmn, present, id, plmnId, b, rfl, hplmn, -, hb, hlen⟩ :=
    has_global (fun m hm => by
      simp only [List.mem_cons, List.not_mem_nil, or_false] at hm
      obtain rfl | rfl | rfl := hm
      · exact ⟨_, rfl, fixedBits rfl rfl (by decide)⟩
      · exact ⟨_, rfl, fixedBits rfl rfl (by decide)⟩
      · exact ⟨_, rfl, fixedBits rfl rfl (by decide)⟩) hglobal
  have hread : Value.toNgENB (.sequence (some (.sequence [some plmn, some (.choice present id)]) ::
      members)) = some ⟨plmnId, toENBIDChoice present b⟩ := by simp [Value.toNgENB, hplmn, hb]
  clear h
  match present with
  | 0 => exact ⟨_, _, hread, rfl, bounded_of_bits hlen⟩
  | 1 => exact ⟨_, _, hread, rfl, bounded_of_bits hlen⟩
  | _ + 2 => exact ⟨_, _, hread, rfl, bounded_of_bits hlen⟩

theorem toENB_of_has {v : Value} (h : GlobalE2nodeeNBID.has v = true) :
    ∃ enb p, v.toENB = some enb ∧ (E2Term.GlobalE2nodeID.eNB enb).parts = some p ∧
      p.Bounded := by
  obtain ⟨value, members, rfl, hglobal⟩ := head_of_has h
  obtain ⟨plmn, present, id, plmnId, b, rfl, hplmn, -, hb, hlen⟩ :=
    has_global (fun m hm => by
      simp only [List.mem_cons, List.not_mem_nil, or_false] at hm
      obtain rfl | rfl | rfl | rfl := hm
      · exact ⟨_, rfl, fixedBits rfl rfl (by decide)⟩
      · exact ⟨_, rfl, fixedBits rfl rfl (by decide)⟩
      · exact ⟨_, rfl, fixedBits rfl rfl (by decide)⟩
      · exact ⟨_, rfl, fixedBits rfl rfl (by decide)⟩) hglobal
  have hread : Value.toENB (.sequence (some (.sequence [some plmn, some (.choice present id)]) ::
      members)) = some ⟨plmnId, toENBID present b⟩ := by simp [Value.toENB, hplmn, hb]
  clear h
  match present with
  | 0 => exact ⟨_, _, hread, rfl, bounded_of_bits hlen⟩
  | 1 => exact ⟨_, _, hread, rfl, bounded_of_bits hlen⟩
  | 2 => exact ⟨_, _, hread, rfl, bounded_of_bits hlen⟩
  | _ + 3 => exact ⟨_, _, hread, rfl, bounded_of_bits hlen⟩

/-- An identity that octets decode to has a name, and one of bounded pieces. -/
theorem toGlobalE2nodeID_of_has {v : Value} (h : GlobalE2nodeID.has v = true) :
    ∃ g p, v.toGlobalE2nodeID = some g ∧ g.parts = some p ∧ p.Bounded := by
  obtain ⟨present, m, value, rfl, hm, hvalue⟩ := has_choice h
  clear h
  match present with
  | 0 =>
    cases hm
    obtain ⟨gnb, p, hread, hp⟩ := toGNB_of_has hvalue
    exact ⟨_, p, by simp [Value.toGlobalE2nodeID, hread], hp⟩
  | 1 =>
    cases hm
    obtain ⟨enGnb, p, hread, hp⟩ := toEnGNB_of_has hvalue
    exact ⟨_, p, by simp [Value.toGlobalE2nodeID, hread], hp⟩
  | 2 =>
    cases hm
    obtain ⟨ngEnb, p, hread, hp⟩ := toNgENB_of_has hvalue
    exact ⟨_, p, by simp [Value.toGlobalE2nodeID, hread], hp⟩
  | 3 =>
    cases hm
    obtain ⟨enb, p, hread, hp⟩ := toENB_of_has hvalue
    exact ⟨_, p, by simp [Value.toGlobalE2nodeID, hread], hp⟩
  | _ + 4 => cases hm

/-! ## Information elements -/

theorem exists_mapM {α β : Type} {f : α → Option β} {P : β → Prop} :
    ∀ {l : List α}, (∀ a ∈ l, ∃ b, f a = some b ∧ P b) → ∃ l', l.mapM f = some l' ∧ ∀ b ∈ l', P b
  | [], _ => ⟨[], rfl, fun _ hb => absurd hb List.not_mem_nil⟩
  | a :: l, h => by
    obtain ⟨hhead, htail⟩ := List.forall_mem_cons.mp h
    obtain ⟨b, hb, hP⟩ := hhead
    obtain ⟨l', hl', hP'⟩ := exists_mapM htail
    refine ⟨b :: l', ?_, List.forall_mem_cons.mpr ⟨hP, hP'⟩⟩
    rw [List.mapM_cons, hb, hl']
    rfl

/-- The elements of a message are read one by one. -/
theorem toIEs_of_has {V : Type} {content : Nat → Value → Option V} {P : ProtocolIE V → Prop}
    {s : String} {hs : Identifier s} {rows : List (Int × Nat)} {l : List Member} {v : Value}
    (hcontent : ∀ n present m value, rows.lookup n = some present → l[present]? = some m →
      m.type.has value = true → ∃ c, content present value = some c ∧ P ⟨n.toNat, c⟩)
    (h : (protocolIEs s (ieObjectOf rows l) hs).has v = true) :
    ∃ ies, v.toIEs content = some ies ∧ ∀ ie ∈ ies, P ie := by
  obtain ⟨value, members, rfl, hlist⟩ := head_of_has h
  obtain ⟨ms, hms, hmembers⟩ := has_sequence h
  cases hms
  obtain _ | ⟨-, hnil⟩ := hmembers
  cases hnil
  obtain ⟨elements, rfl, helements⟩ := has_sequenceOf hlist
  refine exists_mapM fun ie hie => ?_
  obtain ⟨n, crit, present, m, value, rfl, -, hrow, hm, hvalue⟩ := has_object (helements ie hie)
  obtain ⟨c, hc, hP⟩ := hcontent n present m value hrow hm hvalue
  exact ⟨⟨n.toNat, c⟩, by simp [hc], hP⟩

theorem toRICrequestID_of_has {v : Value} (h : RICrequestID.has v = true) :
    ∃ r, v.toRICrequestID = some r ∧ r.Decoded := by
  obtain ⟨members, rfl, hmembers⟩ := has_sequence h
  obtain _ | ⟨hrequestor, hmembers⟩ := hmembers
  obtain _ | ⟨hinstance, hmembers⟩ := hmembers
  cases hmembers
  rename_i requestor inst
  have hnumber {value : Option Value}
      (hvalue : value.elim false (Typ.integer (apcConstrained 16 16 0 65535)).has = true) :
      ∃ n, value = some (.integer n) ∧ 0 ≤ n ∧ n ≤ 65535 := by
    cases value with
    | none => cases hvalue
    | some value =>
      cases value with
      | integer n =>
        have htaken : integerTaken (apcConstrained 16 16 0 65535) n = true := hvalue
        have hroom : (apcConstrained 16 16 0 65535).room = 16 := by decide
        unfold integerTaken fitsLong at htaken
        rw [hroom] at htaken
        simp only [apcConstrained, Bool.false_or, Bool.and_eq_true, decide_eq_true_eq] at htaken
        exact ⟨n, rfl, by omega, by omega⟩
      | _ => cases hvalue
  obtain ⟨n, rfl, hn⟩ := hnumber hrequestor
  obtain ⟨n', rfl, hn'⟩ := hnumber hinstance
  exact ⟨⟨n, n'⟩, rfl, hn, hn'⟩

/-- The number of an open type and its content are in one row. -/
theorem getElem_of_lookup {l : List (Int × Member)} {n : Int} {present : Nat} {m : Member}
    (hrow : (l.map (·.1)).zipIdx.lookup n = some present)
    (hm : (l.map (·.2))[present]? = some m) : l[present]? = some (n, m) := by
  obtain ⟨before, behind, hrows, -⟩ := List.lookup_eq_some_iff.mp hrow
  have hmem : (n, present) ∈ (l.map (·.1)).zipIdx := by
    rw [hrows]
    exact List.mem_append_right _ List.mem_cons_self
  have hn : (l.map (·.1))[present]? = some n := List.mem_zipIdx_iff_getElem?.mp hmem
  rw [List.getElem?_map] at hn hm
  obtain ⟨a, ha, rfl⟩ := Option.map_eq_some_iff.mp hn
  rw [ha] at hm ⊢
  rw [← Option.some.inj hm]

theorem toIEs_of_ieObject {V : Type} {content : Nat → Value → Option V} {P : ProtocolIE V → Prop}
    {s : String} {hs : Identifier s} {l : List (Int × Member)} {v : Value}
    (hcontent : ∀ n present m value, l[present]? = some (n, m) → m.type.has value = true →
      ∃ c, content present value = some c ∧ P ⟨n.toNat, c⟩)
    (h : (protocolIEs s (ieObject l) hs).has v = true) :
    ∃ ies, v.toIEs content = some ies ∧ ∀ ie ∈ ies, P ie :=
  toIEs_of_has (fun n present m value hrow hm hvalue =>
    hcontent n present m value (getElem_of_lookup hrow hm) hvalue) h

theorem setup_of_has {v : Value} (h : E2setupRequest.has v = true) :
    ∃ ies, v.toIEs setupContent = some ies ∧ ∀ ie ∈ ies, ie.SetupDecoded := by
  refine toIEs_of_ieObject (fun n present m value hm hvalue => ?_) h
  match present with
  | 0 =>
    cases hm
    obtain ⟨t, ht, hlong⟩ := toLong_of_has hvalue
    exact ⟨.transactionID t, by simp [setupContent, ht], rfl, hlong⟩
  | 1 =>
    cases hm
    obtain ⟨g, p, hg, hp⟩ := toGlobalE2nodeID_of_has hvalue
    exact ⟨.globalE2nodeID g, by simp [setupContent, hg], rfl, p, hp⟩
  | 2 | 3 =>
    cases hm
    exact ⟨.other, rfl, by decide, by decide⟩
  | _ + 4 => cases hm

theorem update_of_has {v : Value} (h : RICserviceUpdate.has v = true) :
    ∃ ies, v.toIEs updateContent = some ies ∧ ∀ ie ∈ ies, ie.UpdateDecoded := by
  refine toIEs_of_has (fun n present m value hrow hm hvalue => ?_) h
  obtain ⟨before, behind, hrows, -⟩ := List.lookup_eq_some_iff.mp hrow
  have hmem : (n, present) ∈ [((49 : Int), 0), (10, 1), (12, 1), (11, 2)] := by
    rw [hrows]
    exact List.mem_append_right _ List.mem_cons_self
  simp only [List.mem_cons, Prod.mk.injEq, List.not_mem_nil, or_false] at hmem
  obtain ⟨rfl, rfl⟩ | ⟨rfl, rfl⟩ | ⟨rfl, rfl⟩ | ⟨rfl, rfl⟩ := hmem
  · cases hm
    obtain ⟨t, ht, hlong⟩ := toLong_of_has hvalue
    exact ⟨.transactionID t, by simp [updateContent, ht], rfl, hlong⟩
  all_goals exact ⟨.other, rfl, (by decide : _ ≠ idTransactionID)⟩

theorem error_of_has {v : Value} (h : ErrorIndication.has v = true) :
    ∃ ies, v.toIEs errorContent = some ies ∧ ∀ ie ∈ ies, ie.ErrorDecoded := by
  refine toIEs_of_ieObject (fun n present m value hm hvalue => ?_) h
  match present with
  | 0 =>
    cases hm
    obtain ⟨t, ht, hlong⟩ := toLong_of_has hvalue
    exact ⟨.transactionID t, by simp [errorContent, ht], rfl, hlong⟩
  | 1 =>
    cases hm
    obtain ⟨r, hr, hdec⟩ := toRICrequestID_of_has hvalue
    exact ⟨.ricRequestID r, by simp [errorContent, hr], rfl, hdec⟩
  | 2 =>
    cases hm
    refine ⟨.other, by cases value <;> rfl, ?_⟩
    exact ⟨by decide, by decide, by decide, by decide⟩
  | 3 =>
    cases hm
    exact ⟨.cause, by cases value <;> rfl, rfl⟩
  | 4 =>
    cases hm
    obtain ⟨members, rfl, hmembers⟩ := has_sequence hvalue
    obtain _ | ⟨hcode, -⟩ := hmembers
    rename_i code members
    refine ⟨.criticalityDiagnostics (code.bind Value.toLong), rfl, rfl, fun n hn => ?_⟩
    obtain ⟨value, rfl, hread⟩ := Option.bind_eq_some_iff.mp hn
    cases value with
    | integer n' =>
      cases hread
      have htaken : integerTaken (apcConstrained 8 8 0 255) n = true := hcode
      have hroom : (apcConstrained 8 8 0 255).room = 8 := by decide
      unfold integerTaken fitsLong at htaken
      rw [hroom] at htaken
      simp only [apcConstrained, Bool.false_or, Bool.and_eq_true, decide_eq_true_eq] at htaken
      omega
    | _ => cases hcode
  | _ + 5 => cases hm

/-- In the messages whose request identity goes on it is the first row. -/
theorem request_of_has {s r : String} {hs : Identifier s} {hr : Identifier r}
    {l : List (Int × Member)} {v : Value} (hrest : ∀ e ∈ l, e.1 ≠ 29 ∧ 0 ≤ e.1)
    (h : (protocolIEs s (ieObject (row 29 r RICrequestID hr :: l)) hs).has v = true) :
    ∃ ies, v.toIEs requestContent = some ies ∧ ∀ ie ∈ ies, ie.RequestDecoded := by
  refine toIEs_of_ieObject (fun n present m value hm hvalue => ?_) h
  cases present with
  | zero =>
    cases hm
    obtain ⟨r, hr, hdec⟩ := toRICrequestID_of_has hvalue
    exact ⟨.ricRequestID r, by simp [requestContent, hr], rfl, hdec⟩
  | succ present =>
    obtain ⟨hne, hpos⟩ := hrest (n, m) (List.mem_of_getElem? hm)
    dsimp only at hne hpos
    have hid : n.toNat ≠ idRICrequestID := by
      unfold idRICrequestID
      omega
    exact ⟨.other, rfl, hid⟩

theorem has_elementaryProcedure {l : List (Int × Member)} {v : Value}
    (h : (elementaryProcedure l).has v = true) :
    ∃ n crit present m value, v = .object n crit present value ∧ l[present]? = some (n, m) ∧
      m.type.has value = true := by
  obtain ⟨n, crit, present, m, value, rfl, -, hrow, hm, hvalue⟩ := has_object h
  exact ⟨n, crit, present, m, value, rfl, getElem_of_lookup hrow hm, hvalue⟩

theorem initiatingMessage_of_has {v : Value} (h : InitiatingMessage.has v = true) :
    ∃ n crit present value i, v = .object n crit present value ∧
      toInitiatingMessage n value = some i ∧ (E2APPDU.initiatingMessage i).Decoded := by
  obtain ⟨n, crit, present, m, value, rfl, hm, hvalue⟩ := has_elementaryProcedure h
  refine ⟨n, crit, present, value, ?_⟩
  clear h
  match present with
  | 0 | 1 | 3 | 6 | 9 =>
    cases hm
    exact ⟨_, rfl, rfl, by simp [E2APPDU.Decoded]⟩
  | 2 =>
    cases hm
    obtain ⟨ies, hread, hies⟩ := update_of_has hvalue
    exact ⟨.ricServiceUpdate ies, rfl, congrArg (Option.map _) hread, hies⟩
  | 4 =>
    cases hm
    obtain ⟨ies, hread, hies⟩ := setup_of_has hvalue
    exact ⟨.e2setup ies, rfl, congrArg (Option.map _) hread, hies⟩
  | 5 | 7 | 11 =>
    cases hm
    exact ⟨_, rfl, rfl, trivial⟩
  | 8 =>
    cases hm
    obtain ⟨ies, hread, hies⟩ := request_of_has (by decide) hvalue
    exact ⟨.ricIndication ies, rfl, congrArg (Option.map _) hread, hies⟩
  | 10 =>
    cases hm
    obtain ⟨ies, hread, hies⟩ := error_of_has hvalue
    exact ⟨.errorIndication ies, rfl, congrArg (Option.map _) hread, hies⟩
  | _ + 12 => cases hm

theorem successfulOutcome_of_has {v : Value} (h : SuccessfulOutcome.has v = true) :
    ∃ n crit present value o, v = .object n crit present value ∧
      toSuccessfulOutcome n value = some o ∧ (E2APPDU.successfulOutcome o).Decoded := by
  obtain ⟨n, crit, present, m, value, rfl, hm, hvalue⟩ := has_elementaryProcedure h
  refine ⟨n, crit, present, value, ?_⟩
  clear h
  match present with
  | 0 | 1 | 6 | 7 =>
    cases hm
    exact ⟨_, rfl, rfl, trivial⟩
  | 2 | 4 | 5 =>
    cases hm
    exact ⟨_, rfl, rfl, by simp [E2APPDU.Decoded]⟩
  | 3 =>
    cases hm
    obtain ⟨ies, hread, hies⟩ := request_of_has (by decide) hvalue
    exact ⟨.ricControl ies, rfl, congrArg (Option.map _) hread, hies⟩
  | _ + 8 => cases hm

theorem unsuccessfulOutcome_of_has {v : Value} (h : UnsuccessfulOutcome.has v = true) :
    ∃ n crit present value o, v = .object n crit present value ∧
      toUnsuccessfulOutcome n value = some o ∧ (E2APPDU.unsuccessfulOutcome o).Decoded := by
  obtain ⟨n, crit, present, m, value, rfl, hm, hvalue⟩ := has_elementaryProcedure h
  refine ⟨n, crit, present, value, ?_⟩
  clear h
  match present with
  | 0 | 1 | 6 =>
    cases hm
    exact ⟨_, rfl, rfl, trivial⟩
  | 2 | 4 | 5 =>
    cases hm
    exact ⟨_, rfl, rfl, by simp [E2APPDU.Decoded]⟩
  | 3 =>
    cases hm
    obtain ⟨ies, hread, hies⟩ := request_of_has (by decide) hvalue
    exact ⟨.ricControl ies, rfl, congrArg (Option.map _) hread, hies⟩
  | _ + 7 => cases hm

/-- Every value of the type is a PDU for the handlers. -/
theorem toE2APPDU_of_has {v : Value} (h : E2APPDU.has v = true) :
    ∃ pdu, v.toE2APPDU = some pdu ∧ pdu.Decoded := by
  obtain ⟨present, m, value, rfl, hm, hvalue⟩ := has_choice h
  clear h
  obtain _ | _ | _ | present := present
  · cases hm
    obtain ⟨n, crit, present, value, i, rfl, hread, hdec⟩ := initiatingMessage_of_has hvalue
    exact ⟨_, congrArg (Option.map _) hread, hdec⟩
  · cases hm
    obtain ⟨n, crit, present, value, o, rfl, hread, hdec⟩ := successfulOutcome_of_has hvalue
    exact ⟨_, congrArg (Option.map _) hread, hdec⟩
  · cases hm
    obtain ⟨n, crit, present, value, o, rfl, hread, hdec⟩ := unsuccessfulOutcome_of_has hvalue
    exact ⟨_, congrArg (Option.map _) hread, hdec⟩
  · cases hm

end AsnPer

/-- Whatever a decoder takes is a PDU for the handlers, well formed; the octets behind it play no
part, and none of its own can be left out. -/
theorem decoded_octets {buffer : List UInt8} {value : Per.Value} {n : Nat}
    (h : asnDecode buffer = some (value, n)) :
    (∃ pdu, value.toE2APPDU = some pdu ∧ pdu.Decoded) ∧ n ≤ buffer.length ∧
      (∀ trailing, asnDecode (buffer.take n ++ trailing) = some (value, n)) ∧
      ∀ k < n, asnDecode (buffer.take k) = none :=
  ⟨AsnPer.toE2APPDU_of_has (asnDecode_has h), asnDecode_counted h⟩

/-- The octets of a setup request. -/
theorem decoded_octets_setup :
    ∃ (buffer : List UInt8) (n : Nat),
      (∃ pdu, (sampleSetupValue 1).toE2APPDU = some pdu ∧ pdu.Decoded) ∧ n ≤ buffer.length ∧
        (∀ trailing, asnDecode (buffer.take n ++ trailing) = some (sampleSetupValue 1, n)) ∧
        ∀ k < n, asnDecode (buffer.take k) = none := by
  obtain ⟨buffer, -, hdecode⟩ := asnDecode_asnEncode sampleSetupValue_fits
  exact ⟨_, _, decoded_octets (hdecode [0xFF])⟩

end E2Term
