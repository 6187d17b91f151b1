import E2Term.Outcomes
import E2Term.Lib.Tally

/-!
# The outcomes sent on to the RIC

An outcome of a node is sent on to the RIC as a message of a type of its procedure, so a node that
answers each request at most once has no more outcomes sent on than requests were sent to it. The
failed deletion of a subscription is the exception: it is sent on as a failed subscription.
-/

namespace E2Term

open CString Effect Runs

/-! ## Messages that report an outcome -/

/-- The procedure whose outcome a message reports. The source names no message for a failed deletion
of a subscription. -/
def RicProcedure.ofReport : MsgType → Option RicProcedure
  | .ricSubResp | .ricSubFailure => some .subscription
  | .ricSubDelResp => some .subscriptionDelete
  | .ricControlAck | .ricControlFailure => some .control
  | _ => none

/-- The outcome that an output reports to the RIC: its procedure, and the MEID. -/
def Output.report : Output → Option (RicProcedure × Name)
  | .rmr msg _ => (RicProcedure.ofReport msg.mtype).map fun p => (p, msg.meid)
  | .rts _ _ | .sctp _ _ _ _ _ => none

/-- The connection an action reads from. -/
def readFrom : Action → Option ConnId
  | .read c _ => some c
  | _ => none

/-- The outcomes reported in a step: the connection that was read, the procedure, and the MEID. -/
def outcomeReports (st : Step World Action) : List (Option ConnId × RicProcedure × Name) :=
  (st.post.outbox.drop st.pre.outbox.length).filterMap fun o =>
    o.report.map fun r => (readFrom st.act, r)

/-- The procedure whose outcome a PDU is reported as. -/
def E2APPDU.reportedAs : E2APPDU → Option RicProcedure
  | .unsuccessfulOutcome .ricSubscriptionDelete => some .subscription
  | pdu => pdu.outcome

/-- A node rejects the deletion of a subscription, and the PDU is handled: the name of its
connection has an entry. -/
def DeletionFailed (w : World) (c : ConnId) (a : Action) : Prop :=
  ∃ m cu, a = .read c (some (.msg m)) ∧
    m.pdu = some (.unsuccessfulOutcome .ricSubscriptionDelete) ∧ w.heap.get c = some cu ∧
    (E2NodeMap.getE2tProcedureOngoingStatus w.connectionHandlingPerE2NodeMap
      cu.enodbName.str).isSome

/-! ## What the handler of an outcome sends -/

/-- Nothing is sent. -/
def Unsent (w w' : World) : Prop := w'.outbox = w.outbox

section Quiet

variable {c : ConnId}

theorem moves_deref : Moves Unsent (deref c) := by
  intro w₀
  unfold deref
  refine Keeps.get.bind fun w => ?_
  cases w.heap.get c with
  | none => exact Keeps.throw trivial
  | some cu => exact Keeps.pure cu

theorem moves_increment (slot : Option Label) (n : Nat) : Moves Unsent (increment slot n) := by
  cases slot with
  | none => exact Moves.throw _
  | some l => exact fun _ => Keeps.modify fun _ h => h

theorem moves_countMessage (d e : Direction) (p : ProcedureCode) (len : Nat) :
    Moves Unsent (countMessage c d e p len) :=
  moves_deref.bind fun _ => (moves_increment _ _).bind fun _ => moves_deref.bind fun _ =>
    (moves_increment _ _).bind fun _ => (moves_increment _ _).bind fun _ => moves_increment _ _

theorem moves_countMessageIfSet (d : Direction) (p : ProcedureCode) (len : Nat) :
    Moves Unsent (countMessageIfSet c d p len) := by
  unfold countMessageIfSet
  split
  · exact moves_countMessage d d p len
  · exact Moves.pure _

theorem moves_setStatus (n : Name) (s : E2TProcedureStates) :
    Moves Unsent (setE2ProcedureOngoingStatus n s) := fun _ => Keeps.modify fun _ h => h

end Quiet

section Outcomes

variable {message : ReportingMessages} {m : SctpMsg} {pdu : E2APPDU} {w w' : World}

theorem unsent_of_ok {α : Type} {f : M α} (hf : Moves Unsent f) {a : α} (h : f w = .ok a w') :
    w'.outbox = w.outbox := hf.of_ok (fun _ => rfl) h

/-- A body that sends one message to the RIC. -/
theorem single_of_send {n : Name} {mtype : MsgType} {before after : M Unit}
    (hbefore : Moves Unsent before) (hafter : Moves Unsent after)
    (h : (do before; let _ ← sendRequestToXapp n mtype; after) w = .ok () w') :
    ∃ o, w'.outbox = w.outbox ++ [o] := by
  obtain ⟨_, w₁, hfirst, h⟩ := bind_eq_ok.mp h
  obtain ⟨_, w₂, hsend, h⟩ := bind_eq_ok.mp h
  obtain ⟨o, ho⟩ := sendRequestToXapp_outbox hsend
  exact ⟨o, by rw [unsent_of_ok hafter h, ho, unsent_of_ok hbefore hfirst]⟩

/-- The loop that looks for the request id sends one message or none. -/
theorem forwardRequestID_single {mtype : MsgType} {count messageSent : M Unit}
    (hcount : Moves Unsent count) (hsent : Moves Unsent messageSent)
    {ies : List (ProtocolIE RequestIEs)}
    (h : forwardRequestID message mtype count messageSent ies w = .ok () w') :
    w'.outbox = w.outbox ∨ ∃ o, w'.outbox = w.outbox ++ [o] := by
  induction ies with
  | nil =>
    cases h
    exact .inl rfl
  | cons ie rest ih =>
    unfold forwardRequestID at h
    cases hv : ie.value with
    | other =>
      simp only [hv] at h
      exact ih h
    | ricRequestID r =>
      simp only [hv] at h
      split at h
      · right
        obtain ⟨_, w₁, htx, h⟩ := bind_eq_ok.mp h
        obtain ⟨_, w₂, hwrite, h⟩ := bind_eq_ok.mp h
        obtain ⟨_, w₃, hcounted, h⟩ := bind_eq_ok.mp h
        obtain ⟨_, w₄, hsend, h⟩ := bind_eq_ok.mp h
        have hout : w₃.outbox = w.outbox := by
          cases htx
          cases hwrite
          have hkept := unsent_of_ok hcount hcounted
          exact hkept
        obtain ⟨_, _, _, sent, hrun⟩ := sendRmrMessage_eq w₃
        rw [hrun] at hsend
        cases hsend
        exact ⟨.rmr w₃.sendMessage sent,
          (unsent_of_ok hsent h).trans (congrArg (· ++ [.rmr w₃.sendMessage sent]) hout)⟩
      · exact ih h

theorem gate_eq_ok {n : Name} {k : E2NodeConnectionHandling → M Unit}
    (h : ifE2SetupRequestReceived n k w = .ok () w') :
    (E2NodeMap.getE2tProcedureOngoingStatus w.connectionHandlingPerE2NodeMap n = none ∧ w' = w) ∨
      ∃ handling, k handling w = .ok () w' := by
  cases hg : E2NodeMap.getE2tProcedureOngoingStatus w.connectionHandlingPerE2NodeMap n with
  | none =>
    rw [gate_of_none hg] at h
    cases h
    exact .inl ⟨rfl, rfl⟩
  | some handling =>
    rw [gate_of_some hg] at h
    exact .inr ⟨handling, h⟩

/-- The handler of an outcome sends one message or none. -/
theorem dispatch_single {p : RicProcedure} (hp : pdu.outcome = some p)
    (h : dispatch message m pdu w = .ok () w') :
    w'.outbox = w.outbox ∨ ∃ o, w'.outbox = w.outbox ++ [o] := by
  have hgate {k : E2NodeConnectionHandling → M Unit}
      (hk : ∀ handling, k handling w = .ok () w' →
        w'.outbox = w.outbox ∨ ∃ o, w'.outbox = w.outbox ++ [o])
      (h : ifE2SetupRequestReceived message.enodbName.str k w = .ok () w') :
      w'.outbox = w.outbox ∨ ∃ o, w'.outbox = w.outbox ++ [o] := by
    rcases gate_eq_ok h with ⟨-, rfl⟩ | ⟨handling, h⟩
    · exact .inl rfl
    · exact hk handling h
  rcases pdu with _ | i | o | o
  · cases hp
  · cases hp
  · cases o with
    | reset | e2connectionUpdate | other => cases hp
    | ricControl ies =>
      exact hgate (fun _ => forwardRequestID_single (moves_countMessageIfSet _ _ _)
        (moves_setStatus _ _)) h
    | ricSubscription =>
      exact hgate (fun _ h => .inr (single_of_send (moves_countMessageIfSet _ _ _)
        (moves_setStatus _ _) h)) h
    | ricSubscriptionDelete =>
      refine hgate (fun _ h => ?_) h
      obtain ⟨_, w₁, hset, h⟩ := bind_eq_ok.mp h
      rw [← unsent_of_ok (moves_setStatus _ _) hset]
      exact .inr (single_of_send (moves_countMessageIfSet _ _ _) (moves_setStatus _ _) h)
  · cases o with
    | e2connectionUpdate | other => cases hp
    | ricControl ies =>
      exact hgate (fun _ => forwardRequestID_single (moves_countMessage _ _ _ _) (Moves.pure _)) h
    | ricSubscription | ricSubscriptionDelete =>
      exact hgate (fun _ h => .inr (single_of_send (moves_countMessage _ _ _ _) (Moves.pure _) h)) h

end Outcomes

/-! ## What a step reports -/

section Steps

variable {w w' : World} {a : Action} {c : ConnId} {m : SctpMsg} {pdu : E2APPDU}

theorem reports_eq_nil {P : Output → Prop}
    (h : ∃ out, w'.outbox = w.outbox ++ out ∧ ∀ o ∈ out, P o) (hP : ∀ o, P o → o.report = none) :
    outcomeReports ⟨w, a, w'⟩ = [] := by
  obtain ⟨out, hout, hall⟩ := h
  unfold outcomeReports
  rw [hout, List.drop_left, List.filterMap_eq_nil_iff]
  intro o ho
  rw [hP o (hall o ho)]
  rfl

/-- A node's outcome is sent on under a type of the procedure it is reported as, and no other PDU is
sent on under such a type. -/
theorem ofReport_of_uplinkTypes {t : MsgType} (ht : uplinkTypes pdu t) :
    RicProcedure.ofReport t = pdu.reportedAs := by
  unfold uplinkTypes at ht
  split at ht
  case h_3 => rcases ht with rfl | rfl | rfl <;> rfl
  case h_14 => exact ht.elim
  all_goals
    subst ht
    rfl

theorem outcome_of_reportedAs {q : RicProcedure} (h : pdu.reportedAs = some q) :
    ∃ p, pdu.outcome = some p := by
  unfold E2APPDU.reportedAs at h
  split at h
  · exact ⟨_, rfl⟩
  · exact ⟨q, h⟩

/-- What is sent for a PDU reports it, under the name of its connection. -/
theorem dispatch_reports (message : ReportingMessages) {cu : ConnectedCU}
    (hc : w.heap.get message.peerInfo = some cu) (hies : pdu.setupIEs = none)
    (h : dispatch message m pdu w = .ok () w') :
    ∃ out, w'.outbox = w.outbox ++ out ∧
      ∀ o ∈ out, o.report = pdu.reportedAs.map fun q => (q, message.enodbName.str) := by
  have hs : Sends message (uplinkTypes pdu) fun o =>
      o.report = pdu.reportedAs.map fun q => (q, message.enodbName.str) := by
    intro msg sent _ hmeid ht
    show (RicProcedure.ofReport msg.mtype).map _ = _
    rw [ofReport_of_uplinkTypes ht, hmeid]
  have hk := keeps_dispatch_of message hc m hies hs w (.refl w)
  rw [h] at hk
  exact hk.state.sent

theorem report_of_failureReport {n : Name} {o : Output} (h : FailureReport n o) :
    o.report = none := by
  cases o with
  | rmr msg sent =>
    have hmtype : msg.mtype = .ricSctpConnectionFailure := h.2
    show (RicProcedure.ofReport msg.mtype).map _ = none
    rw [hmtype]
    rfl
  | rts | sctp => exact h.elim

/-- A step that sends nothing reports nothing. -/
theorem outcomeReports_of_unsent (h : w'.outbox = w.outbox) : outcomeReports ⟨w, a, w'⟩ = [] :=
  reports_eq_nil (P := noOutput) ⟨[], by rw [h, List.append_nil], by simp⟩ fun _ ho => ho.elim

/-- Reading a setup request reports nothing. -/
theorem outcomeReports_of_setup {m : SctpMsg} {pdu : E2APPDU}
    {ies : List (ProtocolIE E2setupRequestIEs)} {cu : ConnectedCU} {s : SetupScan}
    (hrun : (Action.read c (some (.msg m))).run w = .ok () w') (hpdu : m.pdu = some pdu)
    (hies : pdu.setupIEs = some ies) (hc : w.heap.get c = some cu)
    (hscan : scanSetup cu.enodbName ies = some s) :
    outcomeReports ⟨w, .read c (some (.msg m)), w'⟩ = [] := by
  have hread : readAction c (some (.msg m)) w = .ok () w' := hrun
  rw [readAction_eq hc hpdu, dispatch_setup hies] at hread
  obtain ⟨w'', hok, -, hsent⟩ :=
    e2setup_ok (w := w.received m) ⟨cu.enodbName, c, m.payload.length⟩ hc m hscan
  rw [hok] at hread
  cases hread
  refine reports_eq_nil hsent fun o ho => ?_
  cases o with
  | rmr msg sent =>
    have hmtype : msg.mtype = .ricE2SetupReq := ho.2
    show (RicProcedure.ofReport msg.mtype).map _ = none
    rw [hmtype]
    rfl
  | rts | sctp => exact ho.elim

/-- Reading another PDU reports nothing, or the outcome the PDU has. -/
theorem outcomeReports_of_served {m : SctpMsg} {pdu : E2APPDU} {cu : ConnectedCU}
    (hrun : (Action.read c (some (.msg m))).run w = .ok () w') (hpdu : m.pdu = some pdu)
    (hies : pdu.setupIEs = none) (hc : w.heap.get c = some cu) :
    outcomeReports ⟨w, .read c (some (.msg m)), w'⟩ = [] ∨
      ∃ p q, pdu.outcome = some p ∧ pdu.reportedAs = some q ∧
        outcomeReports ⟨w, .read c (some (.msg m)), w'⟩ = [(some c, q, cu.enodbName.str)] := by
  have hread : readAction c (some (.msg m)) w = .ok () w' := hrun
  rw [readAction_eq hc hpdu] at hread
  have hsent : ∃ out, w'.outbox = w.outbox ++ out ∧
      ∀ o ∈ out, o.report = pdu.reportedAs.map fun q => (q, cu.enodbName.str) :=
    dispatch_reports (w := w.received m) ⟨cu.enodbName, c, m.payload.length⟩ hc hies hread
  cases hq : pdu.reportedAs with
  | none => exact .inl (reports_eq_nil hsent fun o ho => by rw [ho, hq]; rfl)
  | some q =>
    obtain ⟨p, hp⟩ := outcome_of_reportedAs hq
    have hsingle : w'.outbox = w.outbox ∨ ∃ o, w'.outbox = w.outbox ++ [o] :=
      dispatch_single (w := w.received m) hp hread
    rcases hsingle with hout | ⟨o, hout⟩
    · exact .inl (outcomeReports_of_unsent hout)
    · refine .inr ⟨p, q, hp, rfl, ?_⟩
      obtain ⟨out, hout', hall⟩ := hsent
      have ho : o.report = some (q, cu.enodbName.str) := by
        rw [hall o (by rw [List.append_cancel_left (hout'.symm.trans hout)]; simp), hq]
        rfl
      have hdrop : w'.outbox.drop w.outbox.length = [o] := drop_outbox hout
      unfold outcomeReports
      dsimp only
      rw [hdrop, List.filterMap_cons, ho]
      rfl

/-- What an RMR message makes the program send reports nothing. -/
theorem outcomeReports_of_delivered {m : RmrMsg}
    (hrun : (Action.rmr (some m)).run w = .ok () w') (hm : ¬ m.clears)
    (ht : Touches m.meid (downlinkWrites m.mtype) (downlinkSends m) w w') :
    outcomeReports ⟨w, .rmr (some m), w'⟩ = [] := by
  obtain ⟨rc, w₁, hreceive, hend⟩ := bind_eq_ok.mp hrun
  cases hend
  by_cases hself : m.ForTerminator
  · refine reports_eq_nil (terminator_touches hself hm hreceive []).sent fun o ho => ?_
    cases o with
    | rmr msg sent =>
      have hmtype : msg.mtype = .e2TermKeepAliveResp := ho
      show (RicProcedure.ofReport msg.mtype).map _ = none
      rw [hmtype]
      rfl
    | rts => rfl
    | sctp => exact ho.elim
  · refine reports_eq_nil ht.sent fun o ho => ?_
    cases o with
    | rmr | rts =>
      rcases ho with ho | ho
      · exact (hself (.inr (.inl ho))).elim
      · exact (hself (.inr (.inr ho))).elim
    | sctp => rfl

/-- A step reports nothing, or the outcome it reads. -/
theorem outcomeReports_of_step (hs : Sane w) (hrun : a.run w = .ok () w') :
    outcomeReports ⟨w, a, w'⟩ = [] ∨
      ∃ c m pdu p q cu, a = .read c (some (.msg m)) ∧ m.pdu = some pdu ∧ pdu.outcome = some p ∧
        pdu.reportedAs = some q ∧ w.heap.get c = some cu ∧
        outcomeReports ⟨w, a, w'⟩ = [(some c, q, cu.enodbName.str)] := by
  cases hs.does hrun with
  | accepted _ | refused _ | nothing => exact .inl (outcomeReports_of_unsent rfl)
  | @setup c m pdu ies cu s _ hpdu hies hc hscan _ =>
    exact .inl (outcomeReports_of_setup hrun hpdu hies hc hscan)
  | @served c m pdu cu _ hpdu hies hc _ =>
    rcases outcomeReports_of_served hrun hpdu hies hc with hnone | ⟨p, q, hp, hq, hone⟩
    · exact .inl hnone
    · exact .inr ⟨c, m, pdu, p, q, cu, rfl, hpdu, hp, hq, hc, hone⟩
  | idle _ _ ht => exact .inl (outcomeReports_of_unsent ht.outbox_eq)
  | closed _ _ hcl | failed _ hcl =>
    exact .inl (reports_eq_nil hcl.sent fun _ => report_of_failureReport)
  | cleared _ hcl =>
    exact .inl (reports_eq_nil hcl.sent fun _ ⟨_, ho⟩ => report_of_failureReport ho)
  | @delivered m _ hm ht => exact .inl (outcomeReports_of_delivered hrun hm ht)

/-- A failed deletion is reported as a failed subscription. -/
theorem outcomeReports_of_deletionFailed (hrun : a.run w = .ok () w') (h : DeletionFailed w c a) :
    ∃ n, w.nameOf c = some n ∧ outcomeReports ⟨w, a, w'⟩ = [(some c, .subscription, n)] := by
  obtain ⟨m, cu, rfl, hpdu, hc, hg⟩ := h
  obtain ⟨handling, hg⟩ := Option.isSome_iff_exists.mp hg
  have hread : readAction c (some (.msg m)) w = .ok () w' := hrun
  rw [readAction_eq hc hpdu] at hread
  have hsingle : ∃ o, w'.outbox = w.outbox ++ [o] := by
    have hbody := hread
    rw [dispatch, asnUnSuccsesfulMsg, gate_of_some (w := w.received m) hg] at hbody
    exact single_of_send (w := w.received m) (moves_countMessage _ _ _ _) (Moves.pure _) hbody
  obtain ⟨o, hout⟩ := hsingle
  obtain ⟨out, hout', hall⟩ : ∃ out, w'.outbox = w.outbox ++ out ∧
      ∀ o ∈ out, o.report = some (RicProcedure.subscription, cu.enodbName.str) :=
    dispatch_reports (w := w.received m) ⟨cu.enodbName, c, m.payload.length⟩ hc rfl hread
  have ho : o.report = some (RicProcedure.subscription, cu.enodbName.str) :=
    hall o (by rw [List.append_cancel_left (hout'.symm.trans hout)]; simp)
  have hdrop : w'.outbox.drop w.outbox.length = [o] := drop_outbox hout
  refine ⟨cu.enodbName.str, nameOf_of_get hc, ?_⟩
  unfold outcomeReports
  dsimp only
  rw [hdrop, List.filterMap_cons, ho]
  rfl

end Steps

/-! ## One node -/

/-- What makes a node: its connection, or its RAN name. -/
inductive NodeId where
  | connection (c : ConnId)
  | name (n : Name)

/-- The connection and the name are those of the node. -/
def NodeId.Is : NodeId → Option ConnId → Name → Prop
  | connection i, c, _ => c = some i
  | name k, _, n => n = k

instance (x : NodeId) (c : Option ConnId) (n : Name) : Decidable (x.Is c n) :=
  match x with
  | .connection _ => inferInstanceAs (Decidable (_ = _))
  | .name _ => inferInstanceAs (Decidable (_ = _))

/-- A request of the procedure went out to the node. -/
def RequestTo (x : NodeId) (p : RicProcedure) (st : Step World Action) : Prop :=
  ∃ r ∈ requests st, r.2.1 = p ∧ x.Is (some r.1) r.2.2

/-- An outcome of the procedure came from the node. -/
def OutcomeFrom (x : NodeId) (p : RicProcedure) (st : Step World Action) : Prop :=
  ∃ c b n, outcomeOf st.act = some (c, p, b) ∧ st.pre.nameOf c = some n ∧ x.Is (some c) n

/-- The node answers every request it received with at most one outcome: the outcome in step `k`
answers the earlier request in step `answers k`. -/
structure AnswersOnce (x : NodeId) (answers : Nat → Option Nat) (h : List (Step World Action)) :
    Prop where
  answer : ∀ k p, ∀ st ∈ h[k]?, OutcomeFrom x p st →
    ∃ i, answers k = some i ∧ i < k ∧ ∃ st' ∈ h[i]?, RequestTo x p st'
  once : ∀ k k' i, (∃ st ∈ h[k]?, ∃ p, OutcomeFrom x p st) →
    (∃ st ∈ h[k']?, ∃ p, OutcomeFrom x p st) → answers k = some i → answers k' = some i → k = k'

/-- The requests of a procedure that were sent to the node. -/
def requested (x : NodeId) (p : RicProcedure) (h : List (Step World Action)) : Nat :=
  (h.flatMap requests).countP fun r => r.2.1 = p ∧ x.Is (some r.1) r.2.2

/-- The outcomes of a procedure that were reported for the node. -/
def reported (x : NodeId) (p : RicProcedure) (h : List (Step World Action)) : Nat :=
  (h.flatMap outcomeReports).countP fun r => r.2.1 = p ∧ x.Is r.1 r.2.2

/-- Every outcome reported for the node is one of the procedure it is reported as. -/
def ReportedAsReceived (x : NodeId) (h : List (Step World Action)) : Prop :=
  ∀ st ∈ h, ∀ r ∈ outcomeReports st, x.Is r.1 r.2.2 → ∃ c b, outcomeOf st.act = some (c, r.2.1, b)

section Node

variable {params : SctpParams} {h : List (Step World Action)} {w : World} {x : NodeId}
  {st : Step World Action} {p : RicProcedure} {answers : Nat → Option Nat}

/-- An outcome is reported as what it is, but for a failed deletion. -/
theorem reportedAs_cases {pdu : E2APPDU} {p q : RicProcedure} (hp : pdu.outcome = some p)
    (hq : pdu.reportedAs = some q) :
    q = p ∨ pdu = .unsuccessfulOutcome .ricSubscriptionDelete := by
  unfold E2APPDU.reportedAs at hq
  split at hq
  · exact .inr rfl
  · exact .inl (Option.some.inj (hq.symm.trans hp))

/-- Without a failed deletion, an outcome reported for the node came from it, as an outcome of the
procedure it is reported as. -/
theorem outcomeFrom_of_report (hs : Sane st.pre) (hrun : st.act.run st.pre = .ok () st.post)
    (hno : ∀ c n, st.pre.nameOf c = some n → x.Is (some c) n → ¬ DeletionFailed st.pre c st.act)
    {r : Option ConnId × RicProcedure × Name} (hr : r ∈ outcomeReports st) (hx : x.Is r.1 r.2.2) :
    OutcomeFrom x r.2.1 st ∧ outcomeReports st = [r] := by
  obtain ⟨pre, a, post⟩ := st
  dsimp only at hs hrun hno
  rcases outcomeReports_of_step hs hrun with
    hnil | ⟨c, m, pdu, p, q, cu, rfl, hpdu, hp, hq, hc, hone⟩
  · rw [hnil] at hr
    cases hr
  · rw [hone] at hr ⊢
    cases List.mem_singleton.mp hr
    have hname : pre.nameOf c = some cu.enodbName.str := nameOf_of_get hc
    rcases reportedAs_cases hp hq with rfl | rfl
    · have hout : outcomeOf (.read c (some (.msg m))) = some (c, q, pdu.successful) := by
        simp [outcomeOf, hpdu, hp]
      exact ⟨⟨c, pdu.successful, cu.enodbName.str, hout, hname, hx⟩, rfl⟩
    · refine (hno c _ hname hx ⟨m, cu, rfl, hpdu, hc, ?_⟩).elim
      -- a PDU that is not handled is not reported
      by_contra hclosed
      have hread : readAction c (some (.msg m)) pre = .ok () post := hrun
      rw [readAction_eq hc hpdu, dispatch_of_none (w := pre.received m)
        ⟨cu.enodbName, c, m.payload.length⟩ m (Option.not_isSome_iff_eq_none.mp hclosed)
        rfl] at hread
      cases hread
      have hnil : outcomeReports ⟨pre, .read c (some (.msg m)), pre.received m⟩ = [] :=
        reports_eq_nil (P := noOutput) ⟨[], (List.append_nil _).symm, by simp⟩
          fun _ ho => ho.elim
      cases hnil.symm.trans hone

theorem reported_le (r : ListenerRun params h w)
    (hno : ∀ st ∈ h, ∀ c n, st.pre.nameOf c = some n → x.Is (some c) n →
      ¬ DeletionFailed st.pre c st.act) (p : RicProcedure) [DecidablePred (OutcomeFrom x p)] :
    reported x p h ≤ h.countP (OutcomeFrom x p ·) := by
  have hstep : ∀ st ∈ h, (outcomeReports st).countP (fun r => r.2.1 = p ∧ x.Is r.1 r.2.2) ≤
      if OutcomeFrom x p st then 1 else 0 := by
    intro st hst
    rcases Nat.eq_zero_or_pos
      ((outcomeReports st).countP fun r => r.2.1 = p ∧ x.Is r.1 r.2.2) with hzero | hpos
    · rw [hzero]
      exact Nat.zero_le _
    · obtain ⟨rep, hrep, hcond⟩ := List.countP_pos_iff.mp hpos
      obtain ⟨rfl, hx⟩ := of_decide_eq_true hcond
      obtain ⟨hfrom, hone⟩ := outcomeFrom_of_report (does_of_mem r hst).1 (r.step_of_mem hst)
        (hno st hst) hrep hx
      rw [if_pos hfrom, hone]
      exact List.countP_le_length
  unfold reported
  clear hno r
  induction h with
  | nil => exact Nat.le_refl _
  | cons st h ih =>
    have hfirst := hstep st (List.mem_cons_self ..)
    have hrest := ih fun st' hst' => hstep st' (List.mem_cons_of_mem _ hst')
    rw [List.flatMap_cons, List.countP_append, List.countP_cons]
    simp only [decide_eq_true_eq]
    omega

theorem le_requested (x : NodeId) (p : RicProcedure) (h : List (Step World Action))
    [DecidablePred (RequestTo x p)] : h.countP (RequestTo x p ·) ≤ requested x p h := by
  unfold requested
  induction h with
  | nil => exact Nat.le_refl _
  | cons st h ih =>
    have hfirst : (if RequestTo x p st then 1 else 0) ≤
        (requests st).countP fun r => r.2.1 = p ∧ x.Is (some r.1) r.2.2 := by
      split
      · rename_i hto
        obtain ⟨req, hreq, hp, hx⟩ := hto
        exact List.countP_pos_iff.mpr ⟨req, hreq, decide_eq_true ⟨hp, hx⟩⟩
      · exact Nat.zero_le _
    rw [List.flatMap_cons, List.countP_append, List.countP_cons]
    simp only [decide_eq_true_eq]
    omega

/-- In a run in which a node answers each request at most once, no more outcomes of any procedure
are reported for it than requests were sent to it, and each as what it is, exactly when no failed
deletion of the node is handled. -/
theorem outcomes_reported_iff (r : ListenerRun params h w) (x : NodeId)
    (ha : AnswersOnce x answers h) :
    ((∀ p, reported x p h ≤ requested x p h) ∧ ReportedAsReceived x h) ↔
      ∀ st ∈ h, ∀ c n, st.pre.nameOf c = some n → x.Is (some c) n →
        ¬ DeletionFailed st.pre c st.act := by
  classical
  constructor
  · rintro ⟨-, hown⟩ st hst c n hname hx hfail
    obtain ⟨k, hname', hone⟩ := outcomeReports_of_deletionFailed (r.step_of_mem hst) hfail
    cases hname.symm.trans hname'
    obtain ⟨c', b, hout⟩ := hown st hst (some c, .subscription, n)
      (by rw [hone]; exact List.mem_singleton_self _) hx
    obtain ⟨m, cu, hact, hpdu, -⟩ := hfail
    rw [hact] at hout
    simp [outcomeOf, hpdu, E2APPDU.outcome] at hout
  · intro hno
    refine ⟨fun p => ?_, fun st hst rep hrep hx => ?_⟩
    · calc reported x p h
          ≤ h.countP (OutcomeFrom x p ·) := reported_le r hno p
        _ ≤ h.countP (RequestTo x p ·) := by
            refine Tally.countP_le_of_matched answers (fun k st hst hfrom => ?_) ?_
            · obtain ⟨i, hi, -, hreq⟩ := ha.answer k p st hst hfrom
              exact ⟨i, hi, hreq⟩
            · rintro k k' i ⟨st, hst, hfrom⟩ ⟨st', hst', hfrom'⟩ hk hk'
              exact ha.once k k' i ⟨st, hst, p, hfrom⟩ ⟨st', hst', p, hfrom'⟩ hk hk'
        _ ≤ requested x p h := le_requested x p h
    · obtain ⟨⟨c, b, n, hout, -⟩, -⟩ := outcomeFrom_of_report (does_of_mem r hst).1
        (r.step_of_mem hst) (hno st hst) hrep hx
      exact ⟨c, b, hout⟩

end Node

/-- The third action of a run sent a request to the node `n`, and the fourth was its outcome. -/
def Exchanged (p : RicProcedure) (n : Name) (b : Bool) (h : List (Step World Action)) : Prop :=
  h.map requests = [[], [], [(0, p, n)], []] ∧
    h.map (fun st => outcomeOf st.act) = [none, none, none, some (0, p, b)] ∧
    (h.drop 3).map (fun st => st.pre.nameOf 0) = [some n]

instance (p : RicProcedure) (n : Name) (b : Bool) (h : List (Step World Action)) :
    Decidable (Exchanged p n b h) :=
  inferInstanceAs (Decidable (_ ∧ _ ∧ _))

theorem answersOnce_sampleAnswers {h : List (Step World Action)} {p : RicProcedure} {n : Name}
    {b : Bool} (hex : Exchanged p n b h) (x : NodeId) : AnswersOnce x sampleAnswers h := by
  obtain ⟨hreq, hout, hname⟩ := hex
  have hfrom : ∀ k q, ∀ st ∈ h[k]?, OutcomeFrom x q st → k = 3 ∧ q = p ∧ x.Is (some 0) n := by
    rintro k q st hst ⟨c, b', n', hst', hn', hx⟩
    have hk := congrArg (·[k]?) hout
    simp only [List.getElem?_map, Option.mem_def.mp hst, Option.map_some, hst'] at hk
    rcases k with _ | _ | _ | _ | k
    · cases hk
    · cases hk
    · cases hk
    · cases hk
      have hn := congrArg (·[0]?) hname
      simp only [List.getElem?_map, List.getElem?_drop, Option.mem_def.mp hst, Option.map_some,
        List.getElem?_cons_zero, hn', Option.some.injEq, Nat.add_zero] at hn
      exact ⟨rfl, rfl, hn ▸ hx⟩
    · cases hk
  constructor
  case once =>
    rintro k k' i ⟨st, hst, q, hq⟩ ⟨st', hst', q', hq'⟩ - -
    rw [(hfrom k q st hst hq).1, (hfrom k' q' st' hst' hq').1]
  case answer =>
    intro k q st hst hq
    obtain ⟨rfl, rfl, hx⟩ := hfrom k q st hst hq
    have h2 := congrArg (·[2]?) hreq
    simp only [List.getElem?_map, List.getElem?_cons_succ, List.getElem?_cons_zero,
      Option.map_eq_some_iff] at h2
    obtain ⟨st', hst', hrequests⟩ := h2
    exact ⟨2, rfl, by decide, st', hst', (0, q, n), by simp [hrequests], rfl, hx⟩

/-- A node accepts a subscription. -/
theorem outcomes_reported_iff_accepted : ∃ h w, ListenerRun sampleParams h w ∧
    AnswersOnce (.name (sampleName 1)) sampleAnswers h ∧
    (((∀ p, reported (.name (sampleName 1)) p h ≤ requested (.name (sampleName 1)) p h) ∧
      ReportedAsReceived (.name (sampleName 1)) h) ↔
      ∀ st ∈ h, ∀ c n, st.pre.nameOf c = some n → NodeId.Is (.name (sampleName 1)) (some c) n →
        ¬ DeletionFailed st.pre c st.act) := by
  obtain ⟨h, w, r, hex⟩ := sampleRun_of_any (subscribe (.successfulOutcome .ricSubscription))
    (fun p => Exchanged .subscription (sampleName 1) true p.1) (by decide +kernel)
  have ha := answersOnce_sampleAnswers hex (.name (sampleName 1))
  exact ⟨h, w, r, ha, outcomes_reported_iff r _ ha⟩

/-- A node rejects a deletion: the failure of a subscription is reported that nobody requested. -/
theorem failed_deletion_misreported :
    ¬ ∀ params h w, ListenerRun params h w → (∀ x, ∃ answers, AnswersOnce x answers h) →
      ∀ x, (∀ p, reported x p h ≤ requested x p h) ∧ ReportedAsReceived x h := by
  intro hall
  obtain ⟨h, w, r, hex, hcount⟩ := sampleRun_of_any
    [.accept sampleRequest, sampleRead 0 (sampleSetup 1),
      sampleRmr .ricSubDelReq (sampleName 1),
      sampleRead 0 (.unsuccessfulOutcome .ricSubscriptionDelete)]
    (fun p => Exchanged .subscriptionDelete (sampleName 1) false p.1 ∧
      requested (.name (sampleName 1)) .subscription p.1 <
        reported (.name (sampleName 1)) .subscription p.1) (by decide +kernel)
  obtain ⟨hle, -⟩ := hall _ h w r (fun x => ⟨_, answersOnce_sampleAnswers hex x⟩)
    (.name (sampleName 1))
  exact Nat.not_lt_of_le (hle .subscription) hcount

end E2Term
