import E2Term.Requests

/-!
# Procedures in progress and requests that wait for their outcome

Which request an outcome answers is not in the state; it is given with a run, as a map from the
steps that receive outcomes to the steps that sent the requests. A node's recorded status is
accounted for when some request of that procedure still waits.
-/

namespace E2Term

open CString Effect Runs

/-- `answers k = some i` says that the outcome received in step `k` answers the request sent in
step `i`. An outcome answers an earlier request of its procedure on its connection, and no two
outcomes answer one request. -/
structure Answering (answers : Nat → Option Nat) (h : List (Step World Action)) : Prop where
  outcome : ∀ k i, k < h.length → answers k = some i →
    ∃ st st' c p b n, h[k]? = some st ∧ h[i]? = some st' ∧ i < k ∧
      outcomeOf st.act = some (c, p, b) ∧ (c, p, n) ∈ requests st'
  once : ∀ k k' i, k < h.length → k' < h.length → answers k = some i → answers k' = some i →
    k = k'

/-- The request of procedure `p` that was sent to `n` in step `i` waits for its outcome. -/
def Pending (answers : Nat → Option Nat) (h : List (Step World Action)) (p : RicProcedure)
    (n : Name) (i : Nat) : Prop :=
  (∃ st c, h[i]? = some st ∧ (c, p, n) ∈ requests st) ∧ ∀ k < h.length, answers k ≠ some i

/-- Where a node's recorded status is that of a procedure in progress, a request waits. -/
def Accounted (answers : Nat → Option Nat) (h : List (Step World Action)) (w : World) : Prop :=
  ∀ (p : RicProcedure) n, w.statusOf n = some p.ongoing → ∃ i, Pending answers h p n i

/-- An outcome that answers the one pending request of a node whose procedure is in progress is
successful, and its connection has the node's name. -/
def LastOutcomeEnds (answers : Nat → Option Nat) (h : List (Step World Action)) (w : World)
    (a : Action) : Prop :=
  ∀ c p b n i, outcomeOf a = some (c, p, b) → answers h.length = some i →
    w.statusOf n = some p.ongoing → (∀ j, Pending answers h p n j ↔ j = i) →
    b = true ∧ n ≠ [] ∧ w.nameOf c = some n

section Steps

variable {answers : Nat → Option Nat} {h : List (Step World Action)} {st : Step World Action}
  {p : RicProcedure} {n : Name} {i : Nat}

theorem Pending.lt (hp : Pending answers h p n i) : i < h.length := by
  obtain ⟨⟨st, c, hst, -⟩, -⟩ := hp
  exact (List.getElem?_eq_some_iff.mp hst).1

/-- An older request stays pending unless the step answers it. -/
theorem pending_append_of_lt (hi : i < h.length) :
    Pending answers (h ++ [st]) p n i ↔ Pending answers h p n i ∧ answers h.length ≠ some i := by
  unfold Pending
  rw [List.getElem?_append_left hi, List.length_append, List.length_singleton, and_assoc]
  refine and_congr_right fun _ => ?_
  constructor
  · exact fun hall => ⟨fun k hk => hall k (Nat.lt_succ_of_lt hk), hall _ (Nat.lt_succ_self _)⟩
  · rintro ⟨hall, hlast⟩ k hk
    rcases Nat.lt_succ_iff_lt_or_eq.mp hk with hk | rfl
    · exact hall k hk
    · exact hlast

/-- The request a step sends is pending after it. -/
theorem pending_append_self {c : ConnId} (hreq : (c, p, n) ∈ requests st)
    (hno : ∀ k ≤ h.length, answers k ≠ some h.length) :
    Pending answers (h ++ [st]) p n h.length := by
  refine ⟨⟨st, c, by simp, hreq⟩, fun k hk => hno k ?_⟩
  rw [List.length_append, List.length_singleton] at hk
  exact Nat.le_of_lt_succ hk

/-- A request of the last step was sent by it, so the step receives no outcome. -/
theorem outcomeOf_of_mem_requests {a : Action} {w w' : World} {c : ConnId} (hd : Does w a w')
    (hreq : (c, p, n) ∈ requests ⟨w, a, w'⟩) : outcomeOf a = none := by
  obtain ⟨m, rfl, -, -⟩ := hd.of_mem_requests hreq
  rfl

end Steps

section Runs

variable {params : SctpParams} {answers : Nat → Option Nat}
  {h before after : List (Step World Action)}
  {w : World} {st : Step World Action}

theorem Accounted.lastOutcomeEnds (hs : Sane st.pre) (hstep : st.act.run st.pre = .ok () st.post)
    (h : Accounted answers (before ++ [st]) st.post) :
    LastOutcomeEnds answers before st.pre st.act := by
  intro c p b n i hout hans hst hlast
  by_contra hno
  obtain ⟨j, hj⟩ := h p n ((outcome_keeps_iff hstep hout hst).mpr hno)
  have hjlen := hj.lt
  rw [List.length_append, List.length_singleton] at hjlen
  rcases Nat.lt_succ_iff_lt_or_eq.mp hjlen with hlt | rfl
  · obtain ⟨hpending, hne⟩ := (pending_append_of_lt hlt).mp hj
    rw [(hlast j).mp hpending] at hne
    exact hne hans
  · -- the step would have to send a request and receive an outcome
    obtain ⟨⟨st', c', hst', hreq⟩, -⟩ := hj
    rw [List.getElem?_append_right (Nat.le_refl _), Nat.sub_self] at hst'
    cases hst'
    rw [outcomeOf_of_mem_requests (hs.does hstep) hreq] at hout
    cases hout

/-- The requests a step of a run sends are of one procedure. -/
theorem procedure_unique (r : ListenerRun params h w) (hst : st ∈ h) {c c' : ConnId}
    {p p' : RicProcedure} {n n' : Name} (hp : (c, p, n) ∈ requests st)
    (hp' : (c', p', n') ∈ requests st) : p = p' := by
  have hd := (does_of_mem r hst).2
  obtain ⟨m, hm, hmtype, -⟩ := hd.of_mem_requests hp
  obtain ⟨m', hm', hmtype', -⟩ := hd.of_mem_requests hp'
  rw [hm] at hm'
  cases hm'
  exact RicProcedure.request_injective (hmtype.symm.trans hmtype')

theorem LastOutcomeEnds.accounted (r : ListenerRun params h w) (ha : Answering answers h)
    (heq : h = before ++ st :: after) (hstep : st.act.run st.pre = .ok () st.post)
    (hI : Accounted answers before st.pre) (hC : LastOutcomeEnds answers before st.pre st.act) :
    Accounted answers (before ++ [st]) st.post := by
  have hlen : before.length < h.length := by simp [heq]
  have hget : h[before.length]? = some st := by simp [heq]
  have hs : Sane st.pre := (does_of_mem r (by simp [heq])).1
  intro p n hst'
  rcases ongoing_of_run hs hstep hst' with hst | ⟨c, hreq⟩
  · obtain ⟨i, hi⟩ := hI p n hst
    by_cases hans : answers before.length = some i
    · by_cases hother : ∃ j, Pending answers before p n j ∧ j ≠ i
      · obtain ⟨j, hj, hne⟩ := hother
        refine ⟨j, (pending_append_of_lt hj.lt).mpr ⟨hj, fun hans' => hne ?_⟩⟩
        exact Option.some.inj (hans'.symm.trans hans)
      · -- the outcome answers the last pending request, so it ends the procedure
        have hlast : ∀ j, Pending answers before p n j ↔ j = i :=
          fun j => ⟨fun hj => not_not.mp fun hne => hother ⟨j, hj, hne⟩, fun hji => hji ▸ hi⟩
        obtain ⟨stk, sti, c, q, b, n', hk, hgeti, -, hout, hreq⟩ := ha.outcome _ _ hlen hans
        rw [hget] at hk
        cases hk
        obtain ⟨⟨st₀, c₀, hst₀, hreq₀⟩, -⟩ := hi
        have hlt : i < before.length := (List.getElem?_eq_some_iff.mp hst₀).1
        rw [heq, List.getElem?_append_left hlt, hst₀] at hgeti
        cases hgeti
        have hmem : sti ∈ h := by
          rw [heq]
          exact List.mem_append_left _ (List.mem_of_getElem? hst₀)
        have hpq : p = q := procedure_unique r hmem hreq₀ hreq
        subst hpq
        have hends := hC c p b n i hout hans hst hlast
        exact ((outcome_keeps_iff hstep hout hst).mp hst' hends).elim
    · exact ⟨i, (pending_append_of_lt hi.lt).mpr ⟨hi, hans⟩⟩
  · refine ⟨before.length, pending_append_self hreq fun k hk hans => ?_⟩
    obtain ⟨_, _, _, _, _, _, _, _, hlt, _⟩ := ha.outcome k _ (hk.trans_lt hlen) hans
    exact Nat.not_lt_of_le hk hlt

/-- In a run whose outcomes answer requests, every procedure in progress is accounted for in every
state exactly when each outcome that answers the last pending request of a node is successful and
arrives under the node's name. -/
theorem accounted_iff_lastOutcomeEnds (r : ListenerRun params h w) (ha : Answering answers h) :
    (Along (fun before w _ => Accounted answers before w) h ∧ Accounted answers h w) ↔
      Along (LastOutcomeEnds answers) h := by
  refine r.along_iff (Accounted answers) (LastOutcomeEnds answers) (fun p n hn => by cases hn) ?_
  intro before st after heq r' hstep hI
  exact ⟨Accounted.lastOutcomeEnds (sane_of_run r') hstep,
    LastOutcomeEnds.accounted r ha heq hstep hI⟩

end Runs

/-- A subscription request goes out, and its outcome arrives. -/
def subscribe (outcome : E2APPDU) : List Action :=
  [.accept sampleRequest, sampleRead 0 (sampleSetup 1), sampleRmr .ricSubReq (sampleName 1),
    sampleRead 0 outcome]

/-- The third action of a run sent the request, and the fourth was its outcome. -/
def Subscribed (n : Name) (b : Bool) (h : List (Step World Action)) : Prop :=
  h.map requests = [[], [], [(0, .subscription, n)], []] ∧
    (h.map fun st => outcomeOf st.act) = [none, none, none, some (0, .subscription, b)]

instance (n : Name) (b : Bool) (h : List (Step World Action)) : Decidable (Subscribed n b h) :=
  inferInstanceAs (Decidable (_ ∧ _))

/-- The outcome answers the request. -/
def sampleAnswers : Nat → Option Nat := fun k => if k = 3 then some 2 else none

theorem answering_sampleAnswers {h : List (Step World Action)} {n : Name} {b : Bool}
    (hsub : Subscribed n b h) : Answering sampleAnswers h := by
  obtain ⟨hreq, hout⟩ := hsub
  have hanswers : ∀ k i, sampleAnswers k = some i → k = 3 ∧ i = 2 := by
    intro k i hk
    unfold sampleAnswers at hk
    split at hk
    · exact ⟨‹_›, (Option.some.inj hk).symm⟩
    · cases hk
  constructor
  case once =>
    intro k k' i _ _ hk hk'
    rw [(hanswers k i hk).1, (hanswers k' i hk').1]
  case outcome =>
    intro k i _ hk
    obtain ⟨rfl, rfl⟩ := hanswers k i hk
    have h3 := congrArg (·[3]?) hout
    have h2 := congrArg (·[2]?) hreq
    simp only [List.getElem?_map, List.getElem?_cons_succ, List.getElem?_cons_zero,
      Option.map_eq_some_iff] at h3 h2
    obtain ⟨st, hst, houtcome⟩ := h3
    obtain ⟨st', hst', hrequests⟩ := h2
    exact ⟨st, st', 0, .subscription, b, n, hst, hst', by decide, houtcome, by simp [hrequests]⟩

/-- A node accepts a subscription. -/
theorem accounted_iff_lastOutcomeEnds_accepted :
    ∃ h w, ListenerRun sampleParams h w ∧ Answering sampleAnswers h ∧
      ((Along (fun before w _ => Accounted sampleAnswers before w) h ∧
        Accounted sampleAnswers h w) ↔ Along (LastOutcomeEnds sampleAnswers) h) := by
  obtain ⟨h, w, r, hsub⟩ := sampleRun_of_any (subscribe (.successfulOutcome .ricSubscription))
    (fun p => Subscribed (sampleName 1) true p.1) (by decide +kernel)
  have ha := answering_sampleAnswers hsub
  exact ⟨h, w, r, ha, accounted_iff_lastOutcomeEnds r ha⟩

/-- A node rejects a subscription: no request is left, and the procedure stays in progress. -/
theorem failed_subscription_stays_ongoing :
    ¬ ∀ params answers h w, ListenerRun params h w → Answering answers h →
      Accounted answers h w := by
  intro hall
  obtain ⟨h, w, r, hsub, hst⟩ := sampleRun_of_any
    (subscribe (.unsuccessfulOutcome .ricSubscription))
    (fun p => Subscribed (sampleName 1) false p.1 ∧
      p.2.statusOf (sampleName 1) = some .ricSubsProcedureOngoing) (by decide +kernel)
  obtain ⟨i, ⟨st, c, hget, hmem⟩, hno⟩ :=
    hall _ _ h w r (answering_sampleAnswers hsub) .subscription (sampleName 1) hst
  have hreq := hsub.1
  have hlen : h.length = 4 := by simpa using congrArg List.length hreq
  -- only the third step sent a request, and the fourth answers it
  have hi : (h.map requests)[i]? = some (requests st) := by rw [List.getElem?_map, hget]; rfl
  rw [hreq] at hi
  have hsome : requests st ≠ [] := List.ne_nil_of_mem hmem
  have h2 : i = 2 := by
    rcases i with _ | _ | _ | _ | i
    · exact (hsome (Option.some.inj hi).symm).elim
    · exact (hsome (Option.some.inj hi).symm).elim
    · rfl
    · exact (hsome (Option.some.inj hi).symm).elim
    · cases hi
  exact hno 3 (by rw [hlen]; decide) (by rw [h2]; rfl)

end E2Term
