import E2Term.ErrorIndications
import E2Term.Registration

/-!
# Error indications after a service update

A node chooses a transaction id for each of its service updates. An error indication is matched
against one id of its node, that of the setup request that made the node's entry, whichever
procedure it is about.
-/

namespace E2Term

open CString Effect Runs

/-! ## What an error indication carries -/

/-- The information elements hold the transaction id `t`. -/
def CarriesTransaction (ies : List (ProtocolIE ErrorIndicationIEs)) (t : Int) : Prop :=
  ∃ ie ∈ ies, ie.id = idTransactionID ∧ ie.value = .transactionID t

/-- They hold no procedure code but that of a service update. -/
def ForServiceUpdate (ies : List (ProtocolIE ErrorIndicationIEs)) : Prop :=
  ∀ ie ∈ ies, ie.id = idCriticalityDiagnostics →
    ∀ code, ie.value = .criticalityDiagnostics (some code) →
      code = ProcedureCode.ricServiceUpdate.toInt

theorem getSendMsgBitSetValue_serviceUpdate {code : Int}
    (hcode : code = 0 ∨ code = ProcedureCode.ricServiceUpdate.toInt) (ies : RequiredIes) :
    getSendMsgBitSetValue code ies .ricServiceUpdateProcedureOngoing =
      ⟨ies.transactionId, false⟩ := by
  rcases hcode with rfl | rfl
  · cases ht : ies.transactionId <;> simp [getSendMsgBitSetValue, ht]
  · cases ht : ies.transactionId <;> simp [getSendMsgBitSetValue, ht, ProcedureCode.toInt]

/-- While a service update of its node is in progress, an error indication for it goes to the E2
manager or to no manager. -/
theorem route_serviceUpdate {e : E2NodeConnectionHandling}
    {ies : List (ProtocolIE ErrorIndicationIEs)} (hies : ForServiceUpdate ies)
    (hst : e.e2tProcedureOngoingStatus = .ricServiceUpdateProcedureOngoing) :
    e.route ies =
      ⟨(scanErrorIndication e.e2SetupProcedureTransactionId ies).1.transactionId, false⟩ := by
  unfold E2NodeConnectionHandling.route
  rw [hst]
  refine getSendMsgBitSetValue_serviceUpdate ?_ _
  exact foldl_scan_code (P := fun code => code = 0 ∨ code = ProcedureCode.ricServiceUpdate.toInt) _
    (.inl rfl) fun ie hie hid code hv => .inr (hies ie hie hid code hv)

/-! ## The setup request behind an entry -/

/-- The entry of `n` was made by a setup request with the transaction id `t`, and has been there
since. -/
def EnteredWith (n : Name) (t : Int) (h : List (Step World Action)) : Prop :=
  ∃ before st after c cu s, h = before ++ st :: after ∧ setupOf st.pre st.act = some (c, cu, s) ∧
    s.accepted ∧ s.message.str = n ∧ s.transactionId = t ∧ st.pre.statusOf n = none ∧
      ∀ st' ∈ after, (st'.pre.statusOf n).isSome

section Entries

variable {w w' : World} {a : Action} {n : Name} {t : Int}

/-- The transaction id in the entry of `n`. -/
def World.transactionOf (w : World) (n : Name) : Option Int :=
  (w.connectionHandlingPerE2NodeMap.lookup n).map (·.e2SetupProcedureTransactionId)

theorem isSome_statusOf (w : World) (n : Name) :
    (w.statusOf n).isSome = (w.transactionOf n).isSome := by
  unfold World.statusOf World.transactionOf
  cases w.connectionHandlingPerE2NodeMap.lookup n <;> rfl

/-- A transaction id is in an entry because it was there before, or because a setup request made the
entry with it. -/
theorem Does.transactionOf_cases (hd : Does w a w') (ht : w'.transactionOf n = some t) :
    w.transactionOf n = some t ∨ w.transactionOf n = none ∧ ∃ c cu s,
      setupOf w a = some (c, cu, s) ∧ s.accepted ∧ s.message.str = n ∧ s.transactionId = t := by
  unfold World.transactionOf at ht ⊢
  cases hd with
  | accepted _ | refused _ | nothing => exact .inl ht
  | @setup c m pdu ies cu s _ hpdu hies hc hscan hset =>
    rw [hset.procedures] at ht
    split at ht
    · rename_i hacc
      rw [E2NodeMap.lookup_insertE2SetupProcedureOngoing] at ht
      split at ht
      · rename_i hn
        cases hl : w.connectionHandlingPerE2NodeMap.lookup n with
        | none =>
          rw [← hn, hl] at ht
          exact .inr ⟨rfl, c, cu, s, setupOf_setup hpdu hies hc hscan, hacc, hn.symm,
            Option.some.inj ht⟩
        | some e =>
          rw [← hn, hl] at ht
          exact .inl ht
      · exact .inl ht
    · exact .inl ht
  | served _ _ _ hto | idle _ _ hto | delivered _ hto =>
    rw [hto.entries] at ht
    exact .inl ht
  | closed _ _ hcl | failed _ hcl =>
    rw [hcl.procedures] at ht
    split at ht
    · cases ht
    · exact .inl ht
  | cleared _ hcl =>
    rw [hcl.procedures] at ht
    exact .inl ht

/-- Every entry was made by a setup request with its transaction id. -/
theorem enteredWith_of_run {params : SctpParams} {h : List (Step World Action)}
    (r : ListenerRun params h w) : ∀ n t, w.transactionOf n = some t → EnteredWith n t h := by
  refine r.history (fun h w => ∀ n t, w.transactionOf n = some t → EnteredWith n t h) ?_ ?_
  · intro n t ht
    cases ht
  · intro h w a w' r ih hstep n t ht
    rcases ((sane_of_run r).does hstep).transactionOf_cases ht with hold | ⟨hnone, c, cu, s, hsetup⟩
    · obtain ⟨before, st, after, c, cu, s, rfl, hset, hacc, hn, hid, hpre, hafter⟩ := ih n t hold
      refine ⟨before, st, after ++ [⟨w, a, w'⟩], c, cu, s, by simp, hset, hacc, hn, hid, hpre, ?_⟩
      intro st' hst'
      rcases List.mem_append.mp hst' with hst' | hst'
      · exact hafter st' hst'
      · rw [List.mem_singleton.mp hst', isSome_statusOf, hold]
        rfl
    · obtain ⟨hset, hacc, hn, hid⟩ := hsetup
      refine ⟨h, ⟨w, a, w'⟩, [], c, cu, s, rfl, hset, hacc, hn, hid, ?_,
        List.forall_mem_nil _⟩
      have hsome := isSome_statusOf w n
      rw [hnone] at hsome
      exact Option.not_isSome_iff_eq_none.mp (by rw [hsome]; simp)

end Entries

/-! ## Service updates -/

/-- The step reads a service update with the transaction id `t` from a connection with the name `n`,
and sends it on to the E2 manager. -/
def ForwardsUpdate (n : Name) (t : Int) (st : Step World Action) : Prop :=
  ∃ c m ies, st.act = .read c (some (.msg m)) ∧
    m.pdu = some (.initiatingMessage (.ricServiceUpdate ies)) ∧
    (∃ ie ∈ ies, ie.id = idTransactionID ∧ ie.value = .transactionID t) ∧
    st.pre.nameOf c = some n ∧ Emitted n .ricServiceUpdate st.pre st.post

section Updates

variable {params : SctpParams} {h : List (Step World Action)} {w : World} {n : Name} {t : Int}

/-- Nothing is sent on for a connection without a name. -/
theorem ForwardsUpdate.name_ne (r : ListenerRun params h w) {st : Step World Action} (hst : st ∈ h)
    (hf : ForwardsUpdate n t st) : n ≠ [] := by
  obtain ⟨c, m, ies, hact, hpdu, -, hname, o, ho, -⟩ := hf
  obtain ⟨cu, hc, rfl⟩ := Option.map_eq_some_iff.mp hname
  have hd := (does_of_mem r hst).2
  rw [hact] at hd
  cases hd with
  | setup hpdu' hies _ _ _ =>
    rw [hpdu] at hpdu'
    cases hpdu'
    cases hies
  | served _ _ hc' hto =>
    rw [hc] at hc'
    cases hc'
    exact (mem_sent hto.sent o ho).1
  | idle hidle _ _ =>
    have hnone : m.pdu = none := hidle
    rw [hpdu] at hnone
    cases hnone
  | closed hcl _ _ => exact hcl.elim

/-- A node sends a service update that is forwarded, and then, with the service update still in
progress, an error indication with its transaction id: the E2 manager is told exactly when the setup
request that made the entry of the node had this transaction id, or one that the error indication
carries too, and there is XML for it. -/
theorem update_error_emitted_iff (r : ListenerRun params h w) {st : Step World Action}
    (hst : st ∈ h)
    (hf : ForwardsUpdate n t st) {c : ConnId} (hname : w.nameOf c = some n)
    (hongoing : w.statusOf n = some .ricServiceUpdateProcedureOngoing) {m : SctpMsg}
    {ies : List (ProtocolIE ErrorIndicationIEs)}
    (hpdu : m.pdu = some (.initiatingMessage (.errorIndication ies)))
    (hies : CarriesTransaction ies t) (hfor : ForServiceUpdate ies) :
    ∃ tid, EnteredWith n tid h ∧
      (Emitted n .ricE2RicErrorIndication w (final ((Action.read c (some (.msg m))).run w)) ↔
        (tid = t ∨ CarriesTransaction ies tid) ∧ m.xer.isSome) := by
  obtain ⟨e, he, hstatus⟩ := Option.map_eq_some_iff.mp hongoing
  have hid : w.transactionOf n = some e.e2SetupProcedureTransactionId := by
    unfold World.transactionOf
    rw [he]
    rfl
  refine ⟨_, enteredWith_of_run r n _ hid, ?_⟩
  have hcarries : e.e2SetupProcedureTransactionId = t ∨
      CarriesTransaction ies e.e2SetupProcedureTransactionId ↔
        CarriesTransaction ies e.e2SetupProcedureTransactionId := by
    refine or_iff_right_of_imp ?_
    rintro rfl
    exact hies
  rw [emitted_iff hname (hf.name_ne r hst) he hpdu (by decide), route_serviceUpdate hfor hstatus,
    hcarries]
  unfold SendMsgTo.Emits CarriesTransaction
  rw [← scanErrorIndication_transactionId]
  simp

end Updates

/-! ## A node with two transaction ids -/

/-- A service update with the transaction id 2. -/
def sampleUpdate : E2APPDU :=
  .initiatingMessage (.ricServiceUpdate [⟨idTransactionID, .transactionID 2⟩])

/-- An error indication for it. -/
def sampleUpdateErrorIEs : List (ProtocolIE ErrorIndicationIEs) :=
  [⟨idTransactionID, .transactionID 2⟩, ⟨idCause, .cause⟩]

def sampleUpdateError : SctpMsg :=
  sampleSctpMsg (.initiatingMessage (.errorIndication sampleUpdateErrorIEs))

theorem forServiceUpdate_sample : ForServiceUpdate sampleUpdateErrorIEs := by
  intro ie hie hid
  rcases List.mem_cons.mp hie with rfl | hie
  · exact absurd hid (by decide)
  · rw [List.mem_singleton.mp hie] at hid
    exact absurd hid (by decide)

/-- A node sets up with the transaction id 1, and sends a service update with 2. -/
theorem sampleUpdate_run :
    ∃ h w st, ListenerRun sampleParams h w ∧ st ∈ h ∧ ForwardsUpdate (sampleName 1) 2 st ∧
      w.nameOf 0 = some (sampleName 1) ∧
      w.statusOf (sampleName 1) = some .ricServiceUpdateProcedureOngoing ∧
      ¬ Emitted (sampleName 1) .ricE2RicErrorIndication w
        (final ((Action.read 0 (some (.msg sampleUpdateError))).run w)) := by
  obtain ⟨h, w, r, hacts, hw⟩ := sampleRun_acts
    [.accept sampleRequest, sampleRead 0 (sampleSetup 1), sampleRead 0 sampleUpdate]
    (fun p => p.2.nameOf 0 = some (sampleName 1) ∧
      p.2.statusOf (sampleName 1) = some .ricServiceUpdateProcedureOngoing ∧
      ¬ Emitted (sampleName 1) .ricE2RicErrorIndication p.2
        (final ((Action.read 0 (some (.msg sampleUpdateError))).run p.2)) ∧
      (p.1.map fun st => st.pre.nameOf 0) = [none, some [], some (sampleName 1)] ∧
      (p.1.map fun st => decide (Emitted (sampleName 1) .ricServiceUpdate st.pre st.post)) =
        [false, false, true]) (by decide +kernel)
  obtain ⟨hname, hongoing, hno, hnames, hemitted⟩ := hw
  rcases h with _ | ⟨s₀, _ | ⟨s₁, _ | ⟨s₂, _ | ⟨s₃, _⟩⟩⟩⟩ <;>
    simp only [List.map_nil, List.map_cons, List.cons.injEq, reduceCtorEq, and_false] at hacts
  refine ⟨_, w, s₂, r, by simp, ⟨0, _, _, hacts.2.2.1, rfl,
    ⟨_, List.mem_singleton_self _, rfl, rfl⟩, ?_, ?_⟩, hname, hongoing, hno⟩
  · simpa using (List.cons.inj (List.cons.inj (List.cons.inj hnames).2).2).1
  · simpa using (List.cons.inj (List.cons.inj (List.cons.inj hemitted).2).2).1

theorem update_error_emitted_iff_sample :
    ∃ h w tid, ListenerRun sampleParams h w ∧ EnteredWith (sampleName 1) tid h ∧
      (Emitted (sampleName 1) .ricE2RicErrorIndication w
          (final ((Action.read 0 (some (.msg sampleUpdateError))).run w)) ↔
        (tid = 2 ∨ CarriesTransaction sampleUpdateErrorIEs tid) ∧
          sampleUpdateError.xer.isSome) := by
  obtain ⟨h, w, st, r, hst, hf, hname, hongoing, -⟩ := sampleUpdate_run
  obtain ⟨tid, hentered, hiff⟩ := update_error_emitted_iff r hst hf hname hongoing
    (m := sampleUpdateError) rfl ⟨_, List.mem_cons_self, rfl, rfl⟩ forServiceUpdate_sample
  exact ⟨h, w, tid, r, hentered, hiff⟩

/-- The error indication for the service update is not told to the E2 manager. -/
theorem update_error_unmatched :
    ¬ ∀ params h w st c n t m ies, ListenerRun params h w → st ∈ h → ForwardsUpdate n t st →
      w.nameOf c = some n → w.statusOf n = some .ricServiceUpdateProcedureOngoing →
      m.pdu = some (.initiatingMessage (.errorIndication ies)) → CarriesTransaction ies t →
      ForServiceUpdate ies →
      Emitted n .ricE2RicErrorIndication w (final ((Action.read c (some (.msg m))).run w)) := by
  intro hall
  obtain ⟨h, w, st, r, hst, hf, hname, hongoing, hno⟩ := sampleUpdate_run
  exact hno (hall _ h w st 0 _ 2 sampleUpdateError sampleUpdateErrorIEs r hst hf hname hongoing rfl
    ⟨_, List.mem_cons_self, rfl, rfl⟩ forServiceUpdate_sample)

end E2Term
