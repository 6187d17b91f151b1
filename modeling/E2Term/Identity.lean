import E2Term.Sessions

/-!
# The node a message is sent for

The MEID of what is sent for a PDU is a name the connection has, and names change with every setup
request, accepted or not. The identity of a connection is the name its last accepted request gave
it; it is a matter of the history.
-/

namespace E2Term

open CString Effect Runs

/-! ## Accepted requests -/

/-- The connection whose setup request an action accepts, with the RAN name of the request. -/
def acceptedBy (w : World) (a : Action) : Option (ConnId × Name) :=
  (setupOf w a).bind fun p => if p.2.2.accepted then some (p.1, ranNameOf a) else none

/-- The RAN name of the last accepted setup request of a connection. -/
def lastAccepted (c : ConnId) (h : List (Step World Action)) : Option Name :=
  h.foldl (fun name st =>
    match acceptedBy st.pre st.act with
    | some (i, n) => if i = c then some n else name
    | none => name) none

section History

variable {h : List (Step World Action)} {w : World} {a : Action} {c : ConnId} {cu : ConnectedCU}
  {s : SetupScan}

theorem lastAccepted_append (c : ConnId) (h : List (Step World Action)) (st : Step World Action) :
    lastAccepted c (h ++ [st]) =
      match acceptedBy st.pre st.act with
      | some (i, n) => if i = c then some n else lastAccepted c h
      | none => lastAccepted c h := by
  unfold lastAccepted
  rw [List.foldl_append]
  rfl

theorem lastAccepted_of_none (hso : setupOf w a = none) (c : ConnId) (w' : World) :
    lastAccepted c (h ++ [⟨w, a, w'⟩]) = lastAccepted c h := by
  have hno : acceptedBy w a = none := by
    unfold acceptedBy
    rw [hso]
    rfl
  rw [lastAccepted_append, hno]

theorem lastAccepted_of_accepted (hso : setupOf w a = some (c, cu, s)) (hacc : s.accepted)
    (w' : World) : lastAccepted c (h ++ [⟨w, a, w'⟩]) = some (ranNameOf a) := by
  have hyes : acceptedBy w a = some (c, ranNameOf a) := by
    unfold acceptedBy
    rw [hso]
    exact if_pos hacc
  rw [lastAccepted_append, hyes]
  exact if_pos rfl

theorem lastAccepted_of_rejected (hso : setupOf w a = some (c, cu, s)) (hacc : ¬ s.accepted)
    (i : ConnId) (w' : World) : lastAccepted i (h ++ [⟨w, a, w'⟩]) = lastAccepted i h := by
  have hno : acceptedBy w a = none := by
    unfold acceptedBy
    rw [hso]
    exact if_neg hacc
  rw [lastAccepted_append, hno]

theorem lastAccepted_of_ne (hso : setupOf w a = some (c, cu, s)) {i : ConnId} (hi : i ≠ c)
    (w' : World) : lastAccepted i (h ++ [⟨w, a, w'⟩]) = lastAccepted i h := by
  by_cases hacc : s.accepted
  · have hyes : acceptedBy w a = some (c, ranNameOf a) := by
      unfold acceptedBy
      rw [hso]
      exact if_pos hacc
    rw [lastAccepted_append, hyes]
    exact if_neg hi.symm
  · exact lastAccepted_of_rejected hso hacc i w'

end History

/-! ## The invariant -/

/-- A connection has no name, or the name of its last accepted request. -/
def Identified (h : List (Step World Action)) (w : World) : Prop :=
  ∀ c cu, w.heap.get c = some cu →
    cu.enodbName.str = [] ∨ lastAccepted c h = some cu.enodbName.str

/-- The setup request an action handles, if any, is accepted and no tail shows behind its RAN name,
of the old name or of another name it builds; or it is rejected and has no RAN name or the one its
connection was last accepted under. -/
def IdentityKept (h : List (Step World Action)) (w : World) (a : Action) : Prop :=
  ∀ c cu s, setupOf w a = some (c, cu, s) →
    (s.accepted → cu.enodbName.bytes[(ranNameOf a).length]? = some 0 ∧
      ∀ name ∈ ranNamesOf a, name.str.length ≤ (ranNameOf a).length) ∧
    (¬ s.accepted → ranNameOf a = [] ∨ lastAccepted c h = some (ranNameOf a))

section Steps

variable {h : List (Step World Action)} {w w' : World} {a : Action} {c : ConnId}

/-- Only a setup request names a connection. -/
theorem Does.name_of_no_setup (hd : Does w a w') (hso : setupOf w a = none) {cu : ConnectedCU}
    (hc : w'.heap.get c = some cu) :
    w.heap.get c = some cu ∨ c = w.heap.next ∧ cu.enodbName = Buf.zeros maxEnodbNameSize := by
  rcases hd.get_of_no_setup hso hc with hold | ⟨hnew, hostName, portNumber, rfl⟩
  · exact .inl hold
  · exact .inr ⟨hnew, rfl⟩

theorem Does.identified (hd : Does w a w') (hC : IdentityKept h w a) (hI : Identified h w) :
    Identified (h ++ [⟨w, a, w'⟩]) w' := by
  intro i cu hi
  cases hso : setupOf w a with
  | none =>
    rw [lastAccepted_of_none hso]
    rcases hd.name_of_no_setup hso hi with hold | ⟨-, hzeros⟩
    · exact hI i cu hold
    · exact .inl (by rw [hzeros, Buf.str_zeros])
  | some p =>
    obtain ⟨c, cu₀, s⟩ := p
    have hset := hd.setUp hso
    by_cases hic : i = c
    · subst hic
      obtain ⟨cu', hc', hname, -⟩ := hset.peer
      rw [hc'] at hi
      cases hi
      rw [hname, setupOf_peer hso]
      by_cases hacc : s.accepted
      · exact .inr (lastAccepted_of_accepted hso hacc w')
      · rw [lastAccepted_of_rejected hso hacc]
        exact (hC i cu₀ s hso).2 hacc
    · rw [hset.others i hic] at hi
      rw [lastAccepted_of_ne hso hic]
      exact hI i cu hi

theorem identified_of_run {params : SctpParams} (r : ListenerRun params h w)
    (hC : Along IdentityKept h) : Identified h w := by
  refine r.history_of Identified IdentityKept (fun c cu hc => by cases hc) ?_ hC
  intro h w a w' r hI ha hstep
  exact ((sane_of_run r).does hstep).identified ha hI

end Steps

/-! ## What is sent for a PDU -/

/-- Whatever the action sends for a PDU, also one whose handler faults, is an RMR message with the
name of the last accepted setup request of the connection; so none is sent before there is one. -/
def SentUnderOwnName (h : List (Step World Action)) (w : World) (a : Action) : Prop :=
  ∀ c m, a = .read c (some (.msg m)) →
    ∀ o ∈ (final (a.run w)).outbox.drop w.outbox.length,
      ∃ n, lastAccepted c (h ++ [⟨w, a, final (a.run w)⟩]) = some n ∧ RmrTo n o

section Sent

variable {h : List (Step World Action)} {w : World} {c : ConnId} {cu : ConnectedCU} {m : SctpMsg}
  {pdu : E2APPDU}

/-- A PDU that is no setup request is answered under the name of its connection. -/
theorem sent_of_served (hc : w.heap.get c = some cu) (hpdu : m.pdu = some pdu)
    (hies : pdu.setupIEs = none) :
    ∀ o ∈ (final (readAction c (some (.msg m)) w)).outbox.drop w.outbox.length,
      uplinkSends cu.enodbName.str o := by
  obtain ⟨w₁, ht, hrun⟩ := readAction_pdu hc hpdu
  rw [hrun]
  exact mem_sent (keeps_dispatch ⟨cu.enodbName, c, m.payload.length⟩ hc m hies w₁
    ht.of_buffers).state.sent

/-- A setup request is sent on, if it is accepted, under the name for messages. -/
theorem sent_of_setup (hc : w.heap.get c = some cu) (hpdu : m.pdu = some pdu)
    {ies : List (ProtocolIE E2setupRequestIEs)} (hies : pdu.setupIEs = some ies) :
    ∀ o ∈ (final (readAction c (some (.msg m)) w)).outbox.drop w.outbox.length,
      ∃ s, scanSetup cu.enodbName ies = some s ∧ s.accepted ∧ RmrTo s.message.str o := by
  obtain ⟨w₁, ht, hrun⟩ := readAction_pdu hc hpdu
  have hc₁ : w₁.heap.get c = some cu := by rw [ht.heap, hc]
  rw [hrun, dispatch_setup hies, ← ht.outbox_eq]
  cases hscan : scanSetup cu.enodbName ies with
  | none =>
    obtain ⟨w₂, herr, hout⟩ := e2setup_overflow
      ⟨cu.enodbName, c, m.payload.length⟩ hc₁ m hscan
    rw [herr]
    exact nothing_sent hout
  | some s =>
    obtain ⟨w₂, hok, hset, -⟩ := e2setup_ok
      ⟨cu.enodbName, c, m.payload.length⟩ hc₁ m hscan
    rw [hok]
    intro o ho
    obtain ⟨hacc, hto⟩ := mem_sent hset.sent o ho
    exact ⟨s, rfl, hacc, hto⟩

theorem Identified.sentUnderOwnName {a : Action} (hI : Identified h w) (hC : IdentityKept h w a) :
    SentUnderOwnName h w a := by
  rintro c m rfl o ho
  change o ∈ (final (readAction c (some (.msg m)) w)).outbox.drop w.outbox.length at ho
  cases hc : w.heap.get c with
  | none =>
    rw [readAction_freed hc] at ho
    exact nothing_sent (P := fun _ => False) rfl o ho |>.elim
  | some cu =>
    cases hpdu : m.pdu with
    | none =>
      have hidle : idleRead (some (.msg m)) := hpdu
      obtain ⟨w₁, hrun, ht⟩ := readAction_idle hc hidle
      rw [hrun] at ho
      exact nothing_sent (P := fun _ => False) ht.outbox_eq o ho |>.elim
    | some pdu =>
      cases hies : pdu.setupIEs with
      | none =>
        obtain ⟨hn, hto⟩ := sent_of_served hc hpdu hies o ho
        refine ⟨cu.enodbName.str, ?_, hto⟩
        rw [lastAccepted_of_none (setupOf_served hpdu hies)]
        exact (hI c cu hc).resolve_left hn
      | some ies =>
        obtain ⟨s, hscan, hacc, hto⟩ := sent_of_setup hc hpdu hies o ho
        have hso := setupOf_setup hpdu hies hc hscan
        have hsame : s.message.str = s.peer.str := by
          rw [(setupOf_from hso).message_eq_iff Buf.str_zeros, setupOf_peer hso]
          exact (hC c cu s hso).1 hacc
        refine ⟨ranNameOf (.read c (some (.msg m))), lastAccepted_of_accepted hso hacc _, ?_⟩
        rw [← setupOf_peer hso, ← hsame]
        exact hto

end Sent

/-- The outcome of a reset arrives. -/
def sampleReset (c : ConnId) : Action := sampleRead c (.successfulOutcome .reset)

end E2Term
