import E2Term.Identity
import E2Term.TwinHandlers

/-!
# A node among others

The events of a node's connection and the messages for the node, taken out of a run and run alone,
leave the node with the same entry, the same key and the same messages. `Mirrors` relates the state
of the whole run to that of the node's own run: a step of the node is made in both, and a step of
another node leaves the relation as it is.
-/

namespace E2Term

open CString Effect Runs

/-! ## What concerns a node -/

/-- A message sent for a node: to the RIC, or to the node. -/
inductive NodeSend where
  | toRic (mtype : MsgType) (meid : Name)
  | toNode (streamId : Int) (payload : List UInt8) (mtype : MsgType)
  deriving DecidableEq, Repr

/-- The message for the node `n` that an output is. The answer to a keep-alive is for no node,
whatever MEID is left in the buffer. -/
def Output.forNode (n : Name) : Output → Option NodeSend
  | .rmr msg _ =>
    if msg.meid = n ∧ msg.mtype ≠ .e2TermKeepAliveResp then some (.toRic msg.mtype msg.meid)
    else none
  | .sctp _ streamId payload mtype enodbName =>
    if enodbName = n then some (.toNode streamId payload mtype) else none
  | .rts _ _ => none

/-- What was sent for a node, in order. -/
def sentFor (n : Name) (out : List Output) : List NodeSend := out.filterMap (Output.forNode n)

/-- The event of the node `n` on the connection `c`, in a run in which the connection is the first
one: a step of the connection, or a message for the node. -/
def Action.alone (c : ConnId) (n : Name) (w : World) : Action → Option Action
  | .accept request =>
    if request.outcome = .registered ∧ w.heap.next = c then some (.accept request) else none
  | .read c' result => if c' = c then some (.read 0 result) else none
  | .pollError c' answers => if c' = c then some (.pollError 0 answers) else none
  | .rmr (some m) => if m.meid = n ∧ ¬ m.ForTerminator then some (.rmr (some m)) else none
  | .rmr none => none

/-- The events of a node in a run. -/
def ownEvents (c : ConnId) (n : Name) (h : List (Step World Action)) : List Action :=
  h.filterMap fun st => st.act.alone c n st.pre

/-- The node `n` is the same in both states, where its connection is `c` in the first and the first
connection in the second. -/
structure SameNode (c : ConnId) (n : Name) (w w' : World) : Prop where
  entry : w.connectionHandlingPerE2NodeMap.lookup n = w'.connectionHandlingPerE2NodeMap.lookup n
  keyed : w.sctpMap.lookup n = some c ∧ w'.sctpMap.lookup n = some 0 ∨
    w.sctpMap.lookup n = none ∧ w'.sctpMap.lookup n = none
  sent : sentFor n w.outbox = sentFor n w'.outbox

/-- The relation between a run and the run of one node alone. -/
structure Mirrors (c : ConnId) (n : Name) (w w' : World) : Prop extends SameNode c n w w' where
  peer : w.heap.get c = w'.heap.get 0
  watched : (w.fds c).isSome = (w'.fds 0).isSome
  next : w.heap.next ≤ c ∧ w'.heap.next = 0 ∨ c < w.heap.next ∧ w'.heap.next = 1

/-- Every connection has no name yet, or its own. -/
def Named (names : ConnId → Name) (w : World) : Prop :=
  ∀ c cu, w.heap.get c = some cu →
    cu.enodbName = Buf.zeros maxEnodbNameSize ∨ cu.enodbName.str = names c

/-- The setup requests of a connection build its own name only. -/
def UsesOwnName (names : ConnId → Name) (a : Action) : Prop :=
  ∀ c m, a = .read c (some (.msg m)) → ∀ b ∈ ranNamesOf a, b.str = names c

section Lemmas

variable {w w' : World} {a : Action} {c i : ConnId} {n : Name} {cu : ConnectedCU} {s : SetupScan}
  {names : ConnId → Name}

theorem setupOf_names (hso : setupOf w a = some (i, cu, s)) (huse : UsesOwnName names a) :
    ∀ b ∈ ranNamesOf a, b.str = names i := by
  obtain ⟨m, -, -, rfl, -⟩ := setupOf_eq_some hso
  exact huse i m rfl

theorem Does.named (hd : Does w a w') (huse : UsesOwnName names a) (h : Named names w) :
    Named names w' := by
  intro i cu' hi
  cases hso : setupOf w a with
  | none =>
    rcases hd.name_of_no_setup hso hi with hold | ⟨-, hzeros⟩
    · exact h i cu' hold
    · exact .inl hzeros
  | some x =>
    obtain ⟨c, cu, s⟩ := x
    have hset := hd.setUp hso
    by_cases hic : i = c
    · subst hic
      obtain ⟨cu'', hc'', hname, -⟩ := hset.peer
      rw [hc''] at hi
      cases hi
      rw [hname, (setupOf_from hso).peer]
      have hnames := setupOf_names hso huse
      rcases List.eq_nil_or_concat (ranNamesOf a) with hnil | ⟨init, last, heq⟩
      · exact .inl (by rw [hnil]; rfl)
      · rw [heq, List.concat_eq_append, List.getLastD_concat]
        exact .inr (hnames last (by simp [heq]))
    · rw [hset.others i hic] at hi
      exact h i cu' hi

/-- A setup request under the connection's own name registers and records no other name. -/
theorem setup_elsewhere (hc : w.heap.get i = some cu) (hso : setupOf w a = some (i, cu, s))
    (huse : UsesOwnName names a) (h : Named names w) (hn : names i ≠ n) (hnil : n ≠ []) :
    n ∉ s.keys ∧ s.message.str ≠ n := by
  have hfrom := setupOf_from hso
  have hnames := setupOf_names hso huse
  have hkeys : ∀ k ∈ s.keys, k = names i :=
    (hfrom.keys_eq_iff (names i)).mpr (Buf.readsAs_of_same (h i cu hc) hnames)
  refine ⟨fun hmem => hn (hkeys n hmem).symm, fun hmsg => ?_⟩
  by_cases hempty : ranNamesOf a = []
  · -- a request that names no node is recorded under the name the connection has
    rw [hfrom.message, hempty] at hmsg
    rcases h i cu hc with hzeros | hown
    · refine hnil (hmsg.symm.trans ?_)
      show cu.enodbName.str = []
      rw [hzeros, Buf.str_zeros]
    · exact hn (hown.symm.trans hmsg)
  · exact hn ((hkeys _ (hfrom.message_mem_keys hempty)).symm.trans hmsg)

end Lemmas

/-! ## A step of another node -/

section Other

variable {w w' v : World} {a : Action} {c i : ConnId} {n : Name} {names : ConnId → Name}

theorem sentFor_append {out : List Output} (h : w'.outbox = w.outbox ++ out)
    (hout : ∀ o ∈ out, o.forNode n = none) : sentFor n w'.outbox = sentFor n w.outbox := by
  unfold sentFor
  rw [h, List.filterMap_append, List.filterMap_eq_nil_iff.mpr hout, List.append_nil]

theorem forNode_of_rmrTo {k : Name} (hk : k ≠ n) {o : Output} (ho : RmrTo k o) :
    o.forNode n = none := by
  cases o with
  | rmr msg sent =>
    have hmeid : msg.meid = k := ho
    exact if_neg fun h => hk (hmeid.symm.trans h.1)
  | rts | sctp => exact ho.elim

/-- A step that leaves the node alone. -/
theorem Mirrors.frame (h : Mirrors c n w v) (hpeer : w'.heap.get c = w.heap.get c)
    (hfds : w'.fds c = w.fds c)
    (hentry : w'.connectionHandlingPerE2NodeMap.lookup n =
      w.connectionHandlingPerE2NodeMap.lookup n)
    (hkey : w'.sctpMap.lookup n = w.sctpMap.lookup n)
    (hsent : ∃ out, w'.outbox = w.outbox ++ out ∧ ∀ o ∈ out, o.forNode n = none)
    (hnext : w'.heap.next = w.heap.next) : Mirrors c n w' v where
  entry := hentry.trans h.entry
  keyed := by
    rw [hkey]
    exact h.keyed
  sent := by
    obtain ⟨out, hout, hall⟩ := hsent
    exact (sentFor_append hout hall).trans h.sent
  peer := hpeer.trans h.peer
  watched := by
    rw [hfds]
    exact h.watched
  next := by
    rw [hnext]
    exact h.next

theorem Mirrors.touches {k : Name} {writes : E2TProcedureStates → Prop} {sends : Output → Prop}
    (h : Mirrors c n w v) (ht : Touches k writes sends w w') (hk : k ≠ n)
    (hsends : ∀ o, sends o → o.forNode n = none) : Mirrors c n w' v := by
  obtain ⟨out, hout, hall⟩ := ht.sent
  exact h.frame (by rw [ht.heap]) (by rw [ht.fds]) (ht.others n hk.symm) (by rw [ht.sctpMap])
    ⟨out, hout, fun o ho => hsends o (hall o ho)⟩ (by rw [ht.heap])

theorem Mirrors.closed {cu : ConnectedCU} (h : Mirrors c n w v) (hs : Sane w) (hi : i ≠ c)
    (hn : cu.enodbName.str ≠ n) (hcl : Closed i cu w w') : Mirrors c n w' v := by
  have hkey : w'.sctpMap.lookup n = w.sctpMap.lookup n := by
    rw [hcl.sctpMap]
    split
    · rename_i hgone
      -- the host key of a connection is the name of no node
      cases hl : w.sctpMap.lookup n with
      | none => rfl
      | some i' =>
        have hran := hs.keys n i' hl
        rcases hgone with hhost | hname
        · exact (ne_hostKey_of_ranName hran cu hhost).elim
        · exact (hn hname.symm).elim
    · rfl
  obtain ⟨out, hout, hall⟩ := hcl.sent
  refine h.frame ?_ ?_ ?_ hkey ⟨out, hout, fun o ho => ?_⟩ hcl.next
  · rw [hcl.heap, if_neg hi.symm]
  · rw [hcl.fds, if_neg hi.symm]
  · rw [hcl.procedures, if_neg hn.symm]
  · have hreport := hall o ho
    cases o with
    | rmr msg sent => exact if_neg fun heq => hn (hreport.1.symm.trans heq.1)
    | rts | sctp => exact hreport.elim

theorem ne_of_named {cu : ConnectedCU} (hnamed : Named names w) (hi : w.heap.get i = some cu)
    (hn : names i ≠ n) (hnil : n ≠ []) : cu.enodbName.str ≠ n := by
  rcases hnamed i cu hi with hzeros | hown
  · rw [hzeros, Buf.str_zeros]
    exact hnil.symm
  · rw [hown]
    exact hn

/-- The messages for the terminator itself, but for the bulk clear. -/
theorem Mirrors.terminator (h : Mirrors c n w v) {m : RmrMsg} (hm : m.ForTerminator)
    (hclear : ¬ m.clears) (hrun : (Action.rmr (some m)).run w = .ok () w') : Mirrors c n w' v := by
  obtain ⟨rc, w₁, hreceive, hend⟩ := bind_eq_ok.mp hrun
  cases hend
  have ht := terminator_touches hm hclear hreceive n
  obtain ⟨out, hout, hall⟩ := ht.sent
  refine h.frame (by rw [ht.heap]) (by rw [ht.fds]) (ht.lookup_eq n) (by rw [ht.sctpMap])
    ⟨out, hout, fun o ho => ?_⟩ (by rw [ht.heap])
  have hreply := hall o ho
  cases o with
  | rmr msg sent => exact if_neg fun heq => heq.2 hreply
  | rts => rfl
  | sctp => exact hreply.elim

/-- A step that is none of the node's leaves the relation to its own run. -/
theorem Mirrors.other (h : Mirrors c n w v) (hs : Sane w) (hnamed : Named names w)
    (huse : UsesOwnName names a) (hclear : ∀ m, a = .rmr (some m) → ¬ m.clears)
    (hdistinct : ∀ i, i ≠ c → names i ≠ n) (hnil : n ≠ []) (ha : a.alone c n w = none)
    (hrun : a.run w = .ok () w') : Mirrors c n w' v := by
  cases hs.does hrun with
  | @accepted request hout =>
    have hne : w.heap.next ≠ c := fun heq => by
      simp [Action.alone, hout, heq] at ha
    have hget : (w.add request).heap.get c = w.heap.get c :=
      (CellHeap.get_alloc _ c _).trans (if_neg hne.symm)
    have hfds : (w.add request).fds c = w.fds c := if_neg hne.symm
    refine { h with
      peer := hget.trans h.peer, watched := by rw [hfds]; exact h.watched, next := ?_ }
    show w.heap.next + 1 ≤ c ∧ _ ∨ c < w.heap.next + 1 ∧ _
    rcases h.next with ⟨hle, hv⟩ | ⟨hlt, hv⟩
    · exact .inl ⟨Nat.lt_of_le_of_ne hle hne, hv⟩
    · exact .inr ⟨Nat.lt_succ_of_lt hlt, hv⟩
  | refused _ => exact h
  | @setup i m pdu ies cu s _ hpdu hies hc hscan hset =>
    have hi : i ≠ c := fun heq => by simp [Action.alone, heq] at ha
    have hso := setupOf_setup hpdu hies hc hscan
    obtain ⟨hkeys, hmsg⟩ := setup_elsewhere hc hso huse hnamed (hdistinct i hi) hnil
    obtain ⟨out, hout, hall⟩ := hset.sent
    refine h.frame (hset.others c hi.symm) (by rw [hset.fds]) ?_ ?_
      ⟨out, hout, fun o ho => forNode_of_rmrTo hmsg (hall o ho).2⟩ hset.next
    · rw [hset.procedures]
      split
      · rw [E2NodeMap.lookup_insertE2SetupProcedureOngoing, if_neg hmsg.symm]
      · rfl
    · rw [hset.sctpMap, lookup_registerKeys, if_neg hkeys]
  | @served i m pdu cu _ hpdu hies hc ht =>
    have hi : i ≠ c := fun heq => by simp [Action.alone, heq] at ha
    have hn := ne_of_named hnamed hc (hdistinct i hi) hnil
    exact h.touches ht hn fun o ho => forNode_of_rmrTo hn ho.2
  | idle _ _ ht =>
    exact h.touches ht hnil.symm fun o ho => ho.elim
  | @closed i _ cu _ _ hc hcl =>
    have hi : i ≠ c := fun heq => by simp [Action.alone, heq] at ha
    exact h.closed hs hi (ne_of_named hnamed hc (hdistinct i hi) hnil) hcl
  | @failed i _ cu _ hc hcl =>
    have hi : i ≠ c := fun heq => by simp [Action.alone, heq] at ha
    exact h.closed hs hi (ne_of_named hnamed hc (hdistinct i hi) hnil) hcl
  | nothing => exact h
  | @delivered m _ hnc ht =>
    by_cases hm : m.ForTerminator
    · exact h.terminator hm hnc hrun
    · have hmeid : m.meid ≠ n := fun heq => by simp [Action.alone, heq, hm] at ha
      refine h.touches ht hmeid fun o ho => ?_
      cases o with
      | sctp peer streamId payload mtype enodbName =>
        exact if_neg fun heq => hmeid (ho.2.symm.trans heq)
      | rmr | rts =>
        rcases ho with ho | ho
        · exact (hm (.inr (.inl ho))).elim
        · exact (hm (.inr (.inr ho))).elim
  | cleared hm _ => exact (hclear _ rfl hm).elim

end Other

/-! ## A step of the node -/

section Own

variable {w w' v : World} {a b : Action} {c : ConnId} {n : Name} {names : ConnId → Name}

/-- The pairing of a run with the node's own run. -/
def ownPairing (sends : Prop) (c : ConnId) (n : Name) (w v : World) : Pairing :=
  ⟨False, sends, n, c, 0, w.outbox, v.outbox⟩

theorem Mirrors.twin (h : Mirrors c n w v) (hs : Sane w) {sends : Prop} {w₁ v₁ : World}
    (hw : w₁.heap = w.heap ∧ w₁.fds = w.fds ∧ w₁.sctpMap = w.sctpMap ∧ w₁.outbox = w.outbox ∧
      w₁.connectionHandlingPerE2NodeMap = w.connectionHandlingPerE2NodeMap)
    (hv : v₁.heap = v.heap ∧ v₁.fds = v.fds ∧ v₁.sctpMap = v.sctpMap ∧ v₁.outbox = v.outbox ∧
      v₁.connectionHandlingPerE2NodeMap = v.connectionHandlingPerE2NodeMap)
    (hsctp : sends → w₁.answers.sctp = v₁.answers.sctp) :
    Twin (ownPairing sends c n w v) (calm (ownPairing sends c n w v)) w₁ v₁ := by
  obtain ⟨hw₁, hw₂, hw₃, hw₄, hw₅⟩ := hw
  obtain ⟨hv₁, hv₂, hv₃, hv₄, hv₅⟩ := hv
  refine ⟨?_, fun cu hc => ?_, ?_, ?_, fun _ => ?_, hsctp, ⟨False.elim, False.elim⟩, [], [], ?_, ?_,
    .nil⟩
  · rw [hw₁, hv₁]
    exact h.peer
  · rw [hw₁] at hc
    exact hs.neverConnected c cu hc
  · rw [hw₂, hv₂]
    exact h.watched
  · rw [hw₅, hv₅]
    exact h.entry
  · rw [hw₃, hv₃]
    exact h.keyed
  · rw [hw₄, List.append_nil]
    rfl
  · rw [hv₄, List.append_nil]
    rfl

theorem sentFor_of_same {out out' : List Output} (h : List.Forall₂ (SameOutput False) out out')
    (n : Name) : sentFor n out = sentFor n out' := by
  induction h with
  | nil => rfl
  | @cons o o' out out' hso _ ih =>
    have ho : o.forNode n = o'.forNode n := by
      cases o with
      | rmr msg sent =>
        cases o' with
        | rmr msg' sent' =>
          obtain ⟨hmtype, hmeid, -⟩ := hso
          show (if msg.meid = n ∧ msg.mtype ≠ .e2TermKeepAliveResp then
              some (NodeSend.toRic msg.mtype msg.meid) else none) =
            if msg'.meid = n ∧ msg'.mtype ≠ .e2TermKeepAliveResp then
              some (NodeSend.toRic msg'.mtype msg'.meid) else none
          rw [hmtype, hmeid]
        | rts | sctp => exact hso.elim
      | rts => exact hso.elim
      | sctp peer streamId payload mtype k =>
        cases o' with
        | rmr | rts => exact hso.elim
        | sctp =>
          obtain ⟨rfl, rfl, rfl, rfl⟩ := hso
          rfl
    unfold sentFor at ih ⊢
    rw [List.filterMap_cons, List.filterMap_cons, ho, ih]

/-- Twins at the end of a step mirror each other. -/
theorem Mirrors.of_twin {sends : Prop} {w' v' : World} (h : Mirrors c n w v)
    (ht : Twin (ownPairing sends c n w v) (calm (ownPairing sends c n w v)) w' v')
    (hw : w'.heap.next = w.heap.next) (hv : v'.heap.next = v.heap.next) : Mirrors c n w' v' where
  entry := ht.entry
  keyed := ht.keyed id
  sent := by
    obtain ⟨out, out', hout, hout', hall⟩ := ht.sent
    have hold := h.sent
    have hnew := sentFor_of_same hall n
    unfold sentFor at hold hnew ⊢
    rw [hout, hout', List.filterMap_append, List.filterMap_append]
    exact congrArg₂ _ hold hnew
  peer := ht.peer
  watched := ht.watched
  next := by
    rw [hw, hv]
    exact h.next

/-- Only a connection that is accepted takes a new number. -/
theorem Does.next_eq (hd : Does w a w') (ha : ∀ request, a ≠ .accept request) :
    w'.heap.next = w.heap.next := by
  cases hd with
  | accepted _ | refused _ => exact (ha _ rfl).elim
  | setup _ _ _ _ hset => exact hset.next
  | served _ _ _ ht | idle _ _ ht | delivered _ ht => rw [ht.heap]
  | closed _ _ hcl | failed _ hcl => exact hcl.next
  | nothing => rfl
  | cleared _ hcl => exact hcl.next

theorem agree_read (h : Mirrors c n w v) (hs : Sane w) (hnamed : Named names w) (hn : names c = n)
    (result : Option ReadResult) :
    Agree Any (Twin (ownPairing False c n w v) (calm (ownPairing False c n w v)))
      (readAction c result w) (readAction 0 result v) := by
  by_cases hquiet : ∀ m, result = some (.msg m) → m.pdu = none
  · exact twinned_readAction (p := ownPairing False c n w v) hquiet w v
      (h.twin hs ⟨rfl, rfl, rfl, rfl, rfl⟩ ⟨rfl, rfl, rfl, rfl, rfl⟩ False.elim)
  · simp only [not_forall] at hquiet
    obtain ⟨m, rfl, hpdu⟩ := hquiet
    obtain ⟨pdu, hpdu⟩ := Option.ne_none_iff_exists'.mp hpdu
    cases hc : w.heap.get c with
    | none =>
      rw [readAction_freed hc, readAction_freed (h.peer.symm.trans hc)]
      exact .error
    | some cu =>
      have hname : cu.enodbName.str = [] ∨ cu.enodbName.str = n := by
        rcases hnamed c cu hc with hzeros | hown
        · exact .inl (by rw [hzeros, Buf.str_zeros])
        · exact .inr (hown.trans hn)
      exact agree_received (p := ownPairing False c n w v) hpdu ⟨m.answers, rfl⟩
        (h.twin hs ⟨rfl, rfl, rfl, rfl, rfl⟩ ⟨rfl, rfl, rfl, rfl, rfl⟩ False.elim) hc hname
        fun _ hids => hids.elim

/-- The connection of the node is the first one of the own run. -/
theorem Mirrors.accepted (h : Mirrors c n w v) (hnext : w.heap.next = c)
    (request : ConnectionRequest) : Mirrors c n (w.add request) (v.add request) := by
  have hv : v.heap.next = 0 := by
    rcases h.next with ⟨-, hv⟩ | ⟨hlt, -⟩
    · exact hv
    · exact absurd hnext (Nat.ne_of_gt hlt)
  have hget (w : World) : (w.add request).heap.get w.heap.next =
      some (.new request.hostName request.portNumber) :=
    (CellHeap.get_alloc _ _ _).trans (if_pos rfl)
  have hfds (w : World) : (w.add request).fds w.heap.next = some ⟨true, false, false, false⟩ :=
    if_pos rfl
  refine { h with peer := ?_, watched := ?_, next := .inr ⟨?_, ?_⟩ }
  · rw [← hnext, ← hv]
    exact (hget w).trans (hget v).symm
  · rw [← hnext, ← hv, hfds, hfds]
  · exact Nat.lt_succ_of_le (Nat.le_of_eq hnext.symm)
  · exact congrArg Nat.succ hv

/-- A step of the node is made in its own run as well. -/
theorem Mirrors.own (h : Mirrors c n w v) (hs : Sane w) (hsv : Sane v) (hnamed : Named names w)
    (hn : names c = n) (ha : a.alone c n w = some b) (hrun : a.run w = .ok () w') :
    ∃ v', b.run v = .ok () v' ∧ Mirrors c n w' v' := by
  have hd := hs.does hrun
  cases a with
  | accept request =>
    obtain ⟨⟨hout, hnext⟩, hb⟩ := Option.ite_none_right_eq_some.mp ha
    cases hb
    cases hd with
    | accepted => exact ⟨v.add request, accept_run hout v, h.accepted hnext request⟩
    | refused hne => exact (hne hout).elim
  | read i result =>
    obtain ⟨rfl, hb⟩ := Option.ite_none_right_eq_some.mp ha
    cases hb
    obtain ⟨_, v', hrun', -, ht⟩ := (agree_read h hs hnamed hn result).of_ok hrun
    have hdv := hsv.does (a := .read 0 result) hrun'
    refine ⟨v', hrun', h.of_twin ht (hd.next_eq fun _ heq => ?_) (hdv.next_eq fun _ heq => ?_)⟩
    · cases heq
    · cases heq
  | pollError i answers =>
    obtain ⟨rfl, hb⟩ := Option.ite_none_right_eq_some.mp ha
    cases hb
    have htwin : Twin (ownPairing False i n w v) (calm (ownPairing False i n w v)) w v :=
      h.twin hs ⟨rfl, rfl, rfl, rfl, rfl⟩ ⟨rfl, rfl, rfl, rfl, rfl⟩ False.elim
    obtain ⟨_, v', hrun', -, ht⟩ := (twinned_closeOnError answers w v htwin).of_ok hrun
    have hdv := hsv.does (a := .pollError 0 answers) hrun'
    refine ⟨v', hrun', h.of_twin ht (hd.next_eq fun _ heq => ?_) (hdv.next_eq fun _ heq => ?_)⟩
    · cases heq
    · cases heq
  | rmr rcvMessage =>
    cases rcvMessage with
    | none => cases ha
    | some m =>
      obtain ⟨⟨hmeid, hm⟩, hb⟩ := Option.ite_none_right_eq_some.mp ha
      cases hb
      obtain ⟨rc, w₁, hrun, hend⟩ := bind_eq_ok.mp hrun
      cases hend
      have htwin : Twin (ownPairing True c n w v) (calm (ownPairing True c n w v))
          { w with answers := m.answers } { v with answers := m.answers } :=
        h.twin hs ⟨rfl, rfl, rfl, rfl, rfl⟩ ⟨rfl, rfl, rfl, rfl, rfl⟩ fun _ => rfl
      have hkeyed := h.keyed
      rw [← hmeid] at hkeyed
      obtain ⟨rc', v', hrun', -, ht⟩ :=
        (agree_delivered (p := ownPairing True c n w v) trivial hm htwin hkeyed).of_ok hrun
      have hrunv : (Action.rmr (some m)).run v = .ok () v' := bind_of_ok hrun'
      refine ⟨v', hrunv, h.of_twin ht (hd.next_eq fun _ heq => ?_)
        ((hsv.does hrunv).next_eq fun _ heq => ?_)⟩
      · cases heq
      · cases heq

end Own

/-! ## Whole runs -/

section Whole

variable {params : SctpParams} {h : List (Step World Action)} {w : World}

theorem ownEvents_append (c : ConnId) (n : Name) (h : List (Step World Action))
    (st : Step World Action) :
    ownEvents c n (h ++ [st]) = ownEvents c n h ++ (st.act.alone c n st.pre).toList := by
  unfold ownEvents
  rw [List.filterMap_append, List.filterMap_cons, List.filterMap_nil]
  cases st.act.alone c n st.pre <;> rfl

theorem mirrors_init (params : SctpParams) (c : ConnId) (n : Name) :
    Mirrors c n (World.init params) (World.init params) where
  entry := rfl
  keyed := .inr ⟨rfl, rfl⟩
  sent := rfl
  peer := rfl
  watched := rfl
  next := .inl ⟨Nat.zero_le c, rfl⟩

theorem named_init (params : SctpParams) (names : ConnId → Name) :
    Named names (World.init params) := by
  intro c cu hi
  cases hi

/-- The setup requests of two connections, the answers to them and the end of one of the two, in
turns. -/
def sampleInterleaving : List Action :=
  [.accept sampleRequest, .accept sampleRequest, sampleRead 0 (sampleSetup 1),
    sampleRead 1 (sampleSetup 2), sampleRmr .ricE2SetupResp (sampleName 2),
    sampleRmr .ricE2SetupFailure (sampleName 1), .read 0 (some (.eof .good)),
    sampleRmr .ricSubReq (sampleName 2)]

/-- The name of the second node is that of the second connection. -/
def sampleOwners (c : ConnId) : Name := sampleName (if c = 1 then 2 else 1)

end Whole

end E2Term
