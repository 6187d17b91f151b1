import E2Term.Batch

/-!
# What the loops leave behind

Both descriptors are edge-triggered, so what a loop leaves waits for another event. The read loop
stops at a message it cannot decode; the accept loop stops after its first connection.
-/

namespace E2Term

open CString Effect Runs

/-! ## The read loop -/

/-- How a pass ends, by what the read brings. -/
def passExit : Option ReadResult → PassExit
  | none => .eagain
  | some .eintr => .interrupted
  | some (.error answers) => .done answers
  | some (.eof answers) => .done answers
  | some (.msg m) => if m.pdu.isSome then .dispatched m else .undecodable

/-- The read loop without its handlers. -/
def scanReads : List ReadResult → List SctpMsg → LoopExit
  | [], dispatched => ⟨[], dispatched, .eagain⟩
  | read :: pending, dispatched =>
    match passExit (some read) with
    | .dispatched m => scanReads pending (dispatched ++ [m])
    | .interrupted => scanReads pending dispatched
    | exit => ⟨pending, dispatched, exit⟩

/-- The messages that are pending before the end of the connection. -/
def pendingMessages : List ReadResult → List SctpMsg
  | [] => []
  | .msg m :: pending => m :: pendingMessages pending
  | .eintr :: pending => pendingMessages pending
  | .error _ :: _ | .eof _ :: _ => []

section Reads

variable {w w' : World} {c : ConnId}

theorem passExit_of_decodable {m : SctpMsg} (hm : m.pdu.isSome) :
    passExit (some (.msg m)) = .dispatched m := if_pos hm

theorem passExit_of_undecodable {m : SctpMsg} (hm : ¬ m.pdu.isSome) :
    passExit (some (.msg m)) = .undecodable := if_neg hm

theorem readPass_exit {result : Option ReadResult} {exit : PassExit}
    (h : readPass c result w = .ok exit w') : exit = passExit result ∧ (w.heap.get c).isSome := by
  cases hc : w.heap.get c with
  | none =>
    unfold readPass at h
    rw [bind_of_error (deref_of_freed hc)] at h
    cases h
  | some cu =>
    refine ⟨?_, rfl⟩
    obtain ⟨w₁, hrecv, -⟩ := recvmsg_ok result w
    rw [readPass_of_get hc result hrecv] at h
    rcases result with _ | (m | _ | answers | answers)
    · cases h
      rfl
    · cases hpdu : m.pdu with
      | none =>
        simp only [hpdu] at h
        cases h
        exact (passExit_of_undecodable (by simp [hpdu])).symm
      | some pdu =>
        simp only [hpdu] at h
        rw [bind_of_ok (rfl : (modify _ : M Unit) w₁ = .ok () _)] at h
        obtain ⟨_, w₂, -, h⟩ := bind_eq_ok.mp h
        cases h
        exact (passExit_of_decodable (by simp [hpdu])).symm
    · cases h
      rfl
    · cases h
      rfl
    · cases h
      rfl

/-- A read loop that returns leaves what its reads say. -/
theorem readLoop_eq (pending : List ReadResult) :
    ∀ {dispatched : List SctpMsg} {w : World} {loopExit : LoopExit},
      readLoop c pending dispatched w = .ok loopExit w' →
      loopExit = scanReads pending dispatched := by
  induction pending with
  | nil =>
    intro dispatched w loopExit h
    unfold readLoop at h
    obtain ⟨exit, w₁, hpass, h⟩ := bind_eq_ok.mp h
    cases h
    rw [(readPass_exit hpass).1]
    rfl
  | cons read pending ih =>
    intro dispatched w loopExit h
    unfold readLoop at h
    obtain ⟨exit, w₁, hpass, h⟩ := bind_eq_ok.mp h
    have hexit := (readPass_exit hpass).1
    unfold scanReads
    rw [← hexit]
    cases exit with
    | dispatched m => exact ih h
    | interrupted => exact ih h
    | undecodable =>
      cases h
      rfl
    | eagain =>
      cases h
      rfl
    | done answers =>
      cases h
      rfl

theorem scanReads_of_decodable (pending : List ReadResult) :
    ∀ dispatched, (∀ m ∈ pendingMessages pending, m.pdu.isSome) →
      (scanReads pending dispatched).dispatched = dispatched ++ pendingMessages pending ∧
      (((scanReads pending dispatched).exit = .eagain ∧
          (scanReads pending dispatched).unread = []) ∨
        ∃ answers, (scanReads pending dispatched).exit = .done answers) := by
  induction pending with
  | nil => exact fun dispatched _ => ⟨by simp [scanReads, pendingMessages], .inl ⟨rfl, rfl⟩⟩
  | cons read pending ih =>
    intro dispatched hall
    rcases read with m | _ | answers | answers
    · have hm : m.pdu.isSome := hall m List.mem_cons_self
      obtain ⟨hdisp, hend⟩ :=
        ih (dispatched ++ [m]) fun m' hm' => hall m' (List.mem_cons_of_mem _ hm')
      rw [scanReads, passExit_of_decodable hm]
      exact ⟨by rw [hdisp, List.append_assoc]; rfl, hend⟩
    · exact ih dispatched hall
    · exact ⟨(List.append_nil _).symm, .inr ⟨answers, rfl⟩⟩
    · exact ⟨(List.append_nil _).symm, .inr ⟨answers, rfl⟩⟩

theorem scanReads_of_undecodable (pending : List ReadResult) :
    ∀ dispatched, ¬ (∀ m ∈ pendingMessages pending, m.pdu.isSome) →
      (scanReads pending dispatched).exit = .undecodable := by
  induction pending with
  | nil => exact fun _ hno => (hno fun m hm => by cases hm).elim
  | cons read pending ih =>
    intro dispatched hno
    rcases read with m | _ | answers | answers
    · by_cases hm : m.pdu.isSome
      · rw [scanReads, passExit_of_decodable hm]
        refine ih _ fun hall => hno fun m' hm' => ?_
        rcases List.mem_cons.mp hm' with rfl | hm'
        · exact hm
        · exact hall m' hm'
      · rw [scanReads, passExit_of_undecodable hm]
    · exact ih dispatched hno
    · exact (hno fun m hm => by cases hm).elim
    · exact (hno fun m hm => by cases hm).elim

end Reads

/-- The loop read until nothing was left or closed the connection, and every decodable message
pending before that was dispatched once, in order. -/
structure Drained (c : ConnId) (pending : List ReadResult) (loopExit : LoopExit) (w' : World) :
    Prop where
  ended : (loopExit.exit = .eagain ∧ loopExit.unread = []) ∨
    (w'.heap.get c = none ∧ w'.fds c = none)
  dispatched : loopExit.dispatched = (pendingMessages pending).filter fun m => m.pdu.isSome

section Drain

variable {w w' : World} {c : ConnId} {pending : List ReadResult} {loopExit : LoopExit}

/-- The exit of the loop is the one of its last pass, which is an action with what follows it. -/
theorem receiveDataFromSctp_last (h : receiveDataFromSctp c pending w = .ok loopExit w') :
    loopExit = scanReads pending [] ∧
    ∃ h w₁ result, Run Action.run w h w₁ ∧ (w₁.heap.get c).isSome ∧
      loopExit.exit = passExit result ∧ readAction c result w₁ = .ok () w' := by
  unfold receiveDataFromSctp at h
  obtain ⟨loopExit', w₂, hloop, h⟩ := bind_eq_ok.mp h
  obtain ⟨h', w₁, result, r, -, hlast⟩ := readLoop_run pending hloop
  obtain ⟨hexit, hlive⟩ := readPass_exit hlast
  have heq := readLoop_eq pending hloop
  have hread := readAction_of_pass hlast
  cases hcase : loopExit'.exit with
  | done answers =>
    simp only [hcase] at h hread
    obtain ⟨_, w₃, hclose, h⟩ := bind_eq_ok.mp h
    cases h
    exact ⟨heq, h', w₁, result, r, hlive, hexit, hread.trans hclose⟩
  | _ =>
    simp only [hcase] at h hread
    cases h
    exact ⟨heq, h', w₁, result, r, hlive, hexit, hread⟩

/-- The last pass closes the connection, or leaves it alive. -/
theorem closed_of_done (hs : Sane w) (hlive : (w.heap.get c).isSome) {result : Option ReadResult}
    {answers : Answers} (hexit : passExit result = .done answers)
    (hread : readAction c result w = .ok () w') : w'.heap.get c = none ∧ w'.fds c = none := by
  have hclosing : closingRead result := by
    rcases result with _ | (m | _ | answers | answers)
    · cases hexit
    · by_cases hm : m.pdu.isSome
      · rw [passExit_of_decodable hm] at hexit
        cases hexit
      · rw [passExit_of_undecodable hm] at hexit
        cases hexit
    · cases hexit
    · trivial
    · trivial
  obtain ⟨cu, hc⟩ := Option.isSome_iff_exists.mp hlive
  obtain ⟨w₁, hrun, hcl, -⟩ := readAction_closing hc (hs.liveOpen c hlive) hclosing
  rw [hread] at hrun
  cases hrun
  exact ⟨by rw [hcl.heap, if_pos rfl], by rw [hcl.fds, if_pos rfl]⟩

theorem live_of_undecodable (hlive : (w.heap.get c).isSome) {result : Option ReadResult}
    (hexit : passExit result = .undecodable) (hread : readAction c result w = .ok () w') :
    (w'.heap.get c).isSome := by
  have hidle : idleRead result := by
    rcases result with _ | (m | _ | answers | answers)
    · trivial
    · by_cases hm : m.pdu.isSome
      · rw [passExit_of_decodable hm] at hexit
        cases hexit
      · exact Option.not_isSome_iff_eq_none.mp hm
    · trivial
    · cases hexit
    · cases hexit
  obtain ⟨cu, hc⟩ := Option.isSome_iff_exists.mp hlive
  obtain ⟨w₁, hrun, ht⟩ := readAction_idle hc hidle
  rw [hread] at hrun
  cases hrun
  rw [ht.heap]
  exact hlive

end Drain

/-- The read loop drains the descriptor exactly when every message pending before the end of the
connection is decodable. -/
theorem drained_iff_decodable {params : SctpParams} {h : List (Step World Action)} {w w' : World}
    (r : ListenerRun params h w) {c : ConnId} {pending : List ReadResult} {loopExit : LoopExit}
    (hrun : receiveDataFromSctp c pending w = .ok loopExit w') :
    Drained c pending loopExit w' ↔ ∀ m ∈ pendingMessages pending, m.pdu.isSome := by
  obtain ⟨rfl, h', w₁, result, r', hlive, hexit, hread⟩ := receiveDataFromSctp_last hrun
  have hs : Sane w₁ := sane_of_run (r.append r')
  constructor
  · intro hd
    by_contra hno
    have hund := scanReads_of_undecodable pending [] hno
    rcases hd.ended with ⟨heagain, -⟩ | ⟨hfreed, -⟩
    · rw [hund] at heagain
      cases heagain
    · have hkept := live_of_undecodable hlive (hexit.symm.trans hund) hread
      rw [hfreed] at hkept
      cases hkept
  · intro hall
    obtain ⟨hdisp, hend⟩ := scanReads_of_decodable pending [] hall
    constructor
    case ended =>
      rcases hend with hend | ⟨answers, hdone⟩
      · exact .inl hend
      · exact .inr (closed_of_done hs hlive (hexit.symm.trans hdone) hread)
    case dispatched =>
      rw [hdisp, List.nil_append, List.filter_eq_self.mpr hall]

/-- A message the decoder accepts, as a reset outcome, and one it does not. -/
def sampleMsg (pdu : Option E2APPDU) : SctpMsg := ⟨[0], 0, pdu, none, 2, 2, .good⟩

def sampleOutcome : ReadResult := .msg (sampleMsg (some (.successfulOutcome .reset)))

/-- Two messages around an interrupted read. -/
theorem drained_iff_decodable_interrupted :
    ∃ h w w' loopExit, ListenerRun sampleParams h w ∧
      receiveDataFromSctp 0 [sampleOutcome, .eintr, sampleOutcome] w = .ok loopExit w' ∧
      (Drained 0 [sampleOutcome, .eintr, sampleOutcome] loopExit w' ↔
        ∀ m ∈ pendingMessages [sampleOutcome, .eintr, sampleOutcome], m.pdu.isSome) := by
  obtain ⟨h, w, r, loopExit, w', hrun, -⟩ := sampleRun_of_any
    [.accept sampleRequest, sampleRead 0 (sampleSetup 1)]
    (fun p => Returned (fun _ _ => True)
      (receiveDataFromSctp 0 [sampleOutcome, .eintr, sampleOutcome] p.2)) (by decide +kernel)
  exact ⟨h, w, w', loopExit, r, hrun, drained_iff_decodable r hrun⟩

/-- A message that cannot be decoded leaves the next one unread. -/
theorem undecodable_leaves_unread :
    ¬ ∀ params h w w' c pending loopExit, ListenerRun params h w →
      receiveDataFromSctp c pending w = .ok loopExit w' → Drained c pending loopExit w' := by
  intro hall
  obtain ⟨h, w, r, loopExit, w', hrun, hnone⟩ := sampleRun_of_any
    [.accept sampleRequest, sampleRead 0 (sampleSetup 1)]
    (fun p => Returned (fun loopExit _ => loopExit.dispatched = [])
      (receiveDataFromSctp 0 [.msg (sampleMsg none), sampleOutcome] p.2)) (by decide +kernel)
  have hdisp := (hall _ h w w' 0 _ loopExit r hrun).dispatched
  rw [hnone] at hdisp
  simp [pendingMessages, sampleOutcome, sampleMsg] at hdisp

/-! ## The accept loop -/

/-- Every pending request was accepted: none is left, and each has a connection that epoll
watches. -/
structure AllAccepted (backlog : List ConnectionRequest) (acceptExit : AcceptExit) (w w' : World) :
    Prop where
  nothingLeft : acceptExit.backlog = []
  registered : acceptExit.registered = backlog.length
  connections : w'.heap.next = w.heap.next + backlog.length
  watched : ∀ c, w.heap.next ≤ c → c < w'.heap.next →
    (w'.heap.get c).isSome ∧ w'.fds c = some ⟨true, false, false, false⟩

/-- A request that is accepted gets a connection. -/
theorem acceptLoop_registered {request : ConnectionRequest} (hout : request.outcome = .registered)
    (backlog : List ConnectionRequest) (w : World) :
    acceptLoop (request :: backlog) w = .ok ⟨backlog, 1, false⟩ (w.add request) := by
  simp only [acceptLoop, hout]
  rfl

/-- A request whose calls fail ends the loop with an error. -/
theorem acceptLoop_failed {request : ConnectionRequest} (hout : request.outcome ≠ .registered)
    (backlog : List ConnectionRequest) (w : World) :
    ∃ acceptExit, acceptLoop (request :: backlog) w = .ok acceptExit w ∧
      acceptExit.error = true := by
  cases h : request.outcome with
  | registered => exact (hout h).elim
  | _ =>
    simp only [acceptLoop, h]
    exact ⟨_, rfl, rfl⟩

/-- The accept loop ends, and it has accepted all pending requests or met an error exactly when at
most one request was pending or the first one failed. -/
theorem all_accepted_iff (backlog : List ConnectionRequest) (w : World) :
    ∃ acceptExit w', acceptLoop backlog w = .ok acceptExit w' ∧
      ((acceptExit.error = true ∨ AllAccepted backlog acceptExit w w') ↔
        backlog.length ≤ 1 ∨ ∃ request ∈ backlog.head?, request.outcome ≠ .registered) := by
  cases backlog with
  | nil =>
    refine ⟨⟨[], 0, false⟩, w, rfl, iff_of_true (.inr ⟨rfl, rfl, rfl, ?_⟩) (.inl (by simp))⟩
    exact fun c hle hlt => (Nat.not_le_of_lt hlt hle).elim
  | cons request backlog =>
    by_cases hout : request.outcome = .registered
    · refine ⟨_, _, acceptLoop_registered hout backlog w, ?_⟩
      cases backlog with
      | nil =>
        refine iff_of_true (.inr ⟨rfl, rfl, rfl, fun c hle hlt => ?_⟩) (.inl (by simp))
        have heq : c = w.heap.next := Nat.le_antisymm (Nat.le_of_lt_succ hlt) hle
        have hget : (w.add request).heap.get w.heap.next =
            some (.new request.hostName request.portNumber) :=
          (CellHeap.get_alloc _ _ _).trans (if_pos rfl)
        rw [heq, hget]
        exact ⟨rfl, if_pos rfl⟩
      | cons next backlog =>
        refine iff_of_false ?_ ?_
        · rintro (herr | hall)
          · cases herr
          · cases hall.nothingLeft
        · rintro (hlen | ⟨request', hmem, hne⟩)
          · simp at hlen
          · cases hmem
            exact hne hout
    · obtain ⟨acceptExit, hrun, herr⟩ := acceptLoop_failed hout backlog w
      exact ⟨acceptExit, w, hrun, iff_of_true (.inl herr) (.inr ⟨request, rfl, hout⟩)⟩

/-- Of two pending requests the second one is left. -/
theorem second_request_left :
    ¬ ∀ backlog w acceptExit w', acceptLoop backlog w = .ok acceptExit w' →
      acceptExit.error = true ∨ AllAccepted backlog acceptExit w w' := by
  intro hall
  have hrun := acceptLoop_registered (rfl : sampleRequest.outcome = .registered)
    [sampleRequest] (World.init sampleParams)
  rcases hall _ _ _ _ hrun with herr | haccepted
  · cases herr
  · cases haccepted.nothingLeft

end E2Term
