import E2Term.Invariants

/-!
# The events of one batch

An event carries the connection it is for since `epoll_wait`; the handlers of the events before it
may close connections. Handling a batch is a run of the machine, so what an earlier event does to
a connection is what its actions do: a connection is lost to its own events, or to a bulk clear.
-/

namespace E2Term

open CString Effect Runs

/-! ## Handling an event is a run -/

section Reading

variable {w w' : World} {c : ConnId}

theorem readAction_of_pass {result : Option ReadResult} {exit : PassExit}
    (h : readPass c result w = .ok exit w') :
    readAction c result w = finishPass c exit w' := by
  unfold readAction
  rw [bind_of_ok h]

/-- The read loop makes actions of all its passes but the last. -/
theorem readLoop_run (pending : List ReadResult) :
    ∀ {dispatched : List SctpMsg} {w w' : World} {loopExit : LoopExit},
      readLoop c pending dispatched w = .ok loopExit w' →
      ∃ h w₁ result, Run Action.run w h w₁ ∧ (∀ st ∈ h, ∃ r, st.act = .read c r) ∧
        readPass c result w₁ = .ok loopExit.exit w' := by
  induction pending with
  | nil =>
    intro dispatched w w' loopExit h
    unfold readLoop at h
    obtain ⟨exit, w₁, hpass, h⟩ := bind_eq_ok.mp h
    cases h
    exact ⟨[], w, none, .start, by simp, hpass⟩
  | cons read pending ih =>
    intro dispatched w w' loopExit h
    unfold readLoop at h
    obtain ⟨exit, w₁, hpass, h⟩ := bind_eq_ok.mp h
    have hread := readAction_of_pass hpass
    have hstop (hexit : loopExit.exit = exit) (hw : w' = w₁) :
        ∃ h w₁ result, Run Action.run w h w₁ ∧ (∀ st ∈ h, ∃ r, st.act = .read c r) ∧
          readPass c result w₁ = .ok loopExit.exit w' :=
      ⟨[], w, some read, .start, by simp, by rw [hexit, hw]; exact hpass⟩
    have hgo {dispatched : List SctpMsg} (hok : readAction c (some read) w = .ok () w₁)
        (h : readLoop c pending dispatched w₁ = .ok loopExit w') :
        ∃ h w₁ result, Run Action.run w h w₁ ∧ (∀ st ∈ h, ∃ r, st.act = .read c r) ∧
          readPass c result w₁ = .ok loopExit.exit w' := by
      obtain ⟨h', w₂, result, r, hall, hlast⟩ := ih h
      have hfirst : Run Action.run w [⟨w, .read c (some read), w₁⟩] w₁ := .single hok
      refine ⟨_, w₂, result, hfirst.append r, fun st hst => ?_, hlast⟩
      rcases List.mem_append.mp hst with hst | hst
      · rw [List.mem_singleton.mp hst]
        exact ⟨_, rfl⟩
      · exact hall st hst
    cases exit with
    | dispatched m => exact hgo hread h
    | interrupted => exact hgo hread h
    | undecodable =>
      cases h
      exact hstop rfl rfl
    | eagain =>
      cases h
      exact hstop rfl rfl
    | done answers =>
      cases h
      exact hstop rfl rfl

theorem receiveDataFromSctp_run {pending : List ReadResult} {loopExit : LoopExit}
    (h : receiveDataFromSctp c pending w = .ok loopExit w') :
    ∃ h, Run Action.run w h w' ∧ ∀ st ∈ h, ∃ r, st.act = .read c r := by
  unfold receiveDataFromSctp at h
  obtain ⟨loopExit', w₁, hloop, h⟩ := bind_eq_ok.mp h
  obtain ⟨h', w₂, result, r, hall, hlast⟩ := readLoop_run pending hloop
  have hok : (Action.read c result).run w₂ = .ok () w' := by
    show readAction c result w₂ = .ok () w'
    rw [readAction_of_pass hlast]
    cases hexit : loopExit'.exit with
    | done answers =>
      simp only [hexit] at h
      obtain ⟨_, w₃, hclose, h⟩ := bind_eq_ok.mp h
      cases h
      exact hclose
    | _ =>
      simp only [hexit] at h
      cases h
      rfl
  refine ⟨_, r.next hok, fun st hst => ?_⟩
  rcases List.mem_append.mp hst with hst | hst
  · exact hall st hst
  · rw [List.mem_singleton.mp hst]
    exact ⟨_, rfl⟩

end Reading

/-- The accept loop is one action, or none. -/
theorem acceptLoop_run {w w' : World} {backlog : List ConnectionRequest} {acceptExit : AcceptExit}
    (h : acceptLoop backlog w = .ok acceptExit w') :
    ∃ h, Run Action.run w h w' ∧ ∀ st ∈ h, ∃ request, st.act = .accept request := by
  cases backlog with
  | nil =>
    cases h
    exact ⟨[], .start, by simp⟩
  | cons request backlog =>
    have hok : (Action.accept request).run w = .ok () w' := by
      cases hout : request.outcome <;> simp only [acceptLoop, hout] at h <;> cases h <;>
        simp only [Action.run, acceptLoop, hout] <;> rfl
    exact ⟨_, .single hok, by simp⟩

/-- What epoll can report: an event of a connection is for an open descriptor, and says no more than
epoll was asked to watch. -/
def Deliverable (w : World) (e : EpollEvent) : Prop :=
  ∀ c, e.data = .ptr c → ∃ flags, w.fds c = some flags ∧ (e.events.epollout → flags.epollout)

/-- No connection is ever watched for output. -/
def InputOnly (e : EpollEvent) : Prop := ∀ c, e.data = .ptr c → e.events.epollout = false

theorem Sane.inputOnly_of_deliverable {w : World} (h : Sane w) {e : EpollEvent}
    (hd : Deliverable w e) : InputOnly e := by
  intro c hc
  obtain ⟨flags, hfds, hout⟩ := hd c hc
  rw [h.inputOnly c flags hfds] at hout
  exact Bool.eq_false_iff.mpr fun htrue => Bool.false_ne_true (hout htrue)

/-- The actions of an event: reads and the end of its connection, a message, an accepted
connection. -/
def OfEvent (e : EpollEvent) (a : Action) : Prop :=
  match e.data with
  | .ptr c => (∃ r, a = .read c r) ∨ ∃ answers, a = .pollError c answers
  | .rmrListenFd => a = .rmr e.rcvMessage
  | .listenFD => ∃ request, a = .accept request
  | .inotifyFD => False

theorem handleEvent_run {w w' : World} {e : EpollEvent} (hin : InputOnly e)
    (h : handleEvent e w = .ok () w') :
    ∃ h, Run Action.run w h w' ∧ ∀ st ∈ h, OfEvent e st.act := by
  unfold handleEvent at h
  unfold OfEvent
  split at h
  · unfold handlepollError at h
    cases hdata : e.data with
    | rmrListenFd =>
      simp only [hdata] at h ⊢
      cases h
      exact ⟨[], .start, by simp⟩
    | ptr c =>
      simp only [hdata] at h ⊢
      have hok : (Action.pollError c e.answers).run w = .ok () w' := h
      refine ⟨_, .single hok, fun st hst => ?_⟩
      rw [List.mem_singleton.mp hst]
      exact .inr ⟨_, rfl⟩
    | listenFD =>
      simp only [hdata] at h
      cases h
    | inotifyFD =>
      simp only [hdata] at h
      cases h
  · cases hdata : e.data with
    | ptr c =>
      rw [if_neg (by rw [hin c hdata]; exact Bool.false_ne_true)] at h
      simp only [hdata] at h ⊢
      obtain ⟨loopExit, w₁, hrun, h⟩ := bind_eq_ok.mp h
      cases h
      obtain ⟨h', r, hall⟩ := receiveDataFromSctp_run hrun
      exact ⟨h', r, fun st hst => .inl (hall st hst)⟩
    | rmrListenFd =>
      simp only [hdata] at h ⊢
      split at h
      · cases h
      · have hok : (Action.rmr e.rcvMessage).run w = .ok () w' := h
        exact ⟨_, .single hok, fun st hst => by rw [List.mem_singleton.mp hst]⟩
    | listenFD =>
      simp only [hdata] at h ⊢
      split at h
      · cases h
      · obtain ⟨acceptExit, w₁, hrun, h⟩ := bind_eq_ok.mp h
        cases h
        exact acceptLoop_run hrun
    | inotifyFD =>
      simp only [hdata] at h ⊢
      split at h
      · cases h
      · cases h
        exact ⟨[], .start, by simp⟩

/-- Handling a batch is a run. -/
theorem handleBatch_run {events : List EpollEvent} :
    ∀ {w w' : World}, (∀ e ∈ events, InputOnly e) → handleBatch events w = .ok () w' →
      ∃ h, Run Action.run w h w' ∧ ∀ st ∈ h, ∃ e ∈ events, OfEvent e st.act := by
  induction events with
  | nil =>
    intro w w' _ h
    cases h
    exact ⟨[], .start, by simp⟩
  | cons e events ih =>
    intro w w' hin h
    unfold handleBatch at h
    obtain ⟨_, w₁, hfirst, hrest⟩ := bind_eq_ok.mp h
    obtain ⟨h₁, r₁, hall₁⟩ := handleEvent_run (hin e (by simp)) hfirst
    obtain ⟨h₂, r₂, hall₂⟩ := ih (fun e' he' => hin e' (by simp [he'])) hrest
    refine ⟨_, r₁.append r₂, fun st hst => ?_⟩
    rcases List.mem_append.mp hst with hst | hst
    · exact ⟨e, by simp, hall₁ st hst⟩
    · obtain ⟨e', he', hof⟩ := hall₂ st hst
      exact ⟨e', by simp [he'], hof⟩

/-- The states between batches are states the machine reaches. -/
theorem handleBatch_reaches {params : SctpParams} {h : List (Step World Action)} {w w' : World}
    (r : ListenerRun params h w) {events : List EpollEvent} (hd : ∀ e ∈ events, Deliverable w e)
    (hrun : handleBatch events w = .ok () w') : ∃ h', ListenerRun params (h ++ h') w' := by
  obtain ⟨h', r', -⟩ :=
    handleBatch_run (fun e he => (sane_of_run r).inputOnly_of_deliverable (hd e he)) hrun
  exact ⟨h', r.append r'⟩

/-! ## The life of a connection -/

/-- An action for the connection `c`. -/
def Concerns (c : ConnId) (a : Action) : Prop :=
  (∃ r, a = .read c r) ∨ ∃ answers, a = .pollError c answers

/-- The action is a bulk clear, and `sctpMap` holds the connection under a node's key. -/
def Sweeps (c : ConnId) (w : World) (a : Action) : Prop :=
  ∃ m, a = .rmr (some m) ∧ m.clears ∧
    ∃ k, isInternalKey k = false ∧ w.sctpMap.lookup k = some c

section Lives

variable {w w' : World} {a : Action} {c : ConnId}

theorem Does.next_le (hd : Does w a w') : w.heap.next ≤ w'.heap.next := by
  cases hd with
  | accepted _ => exact Nat.le_succ _
  | refused _ | nothing => exact Nat.le_refl _
  | setup _ _ _ _ hset => exact hset.next.ge
  | served _ _ _ ht | idle _ _ ht | delivered _ ht => exact (congrArg CellHeap.next ht.heap).ge
  | closed _ _ hcl | failed _ hcl | cleared _ hcl => exact hcl.next.ge

/-- An allocated connection lives on exactly when it was alive, and neither closed by its own action
nor swept by a bulk clear. -/
theorem Does.lives_iff (hd : Does w a w') (hc : c < w.heap.next) (hno : ¬ Concerns c a) :
    (w'.heap.get c).isSome ↔ (w.heap.get c).isSome ∧ ¬ Sweeps c w a := by
  have hsame (hget : w'.heap.get c = w.heap.get c) (hm : ∀ m, a = .rmr (some m) → ¬ m.clears) :
      (w'.heap.get c).isSome ↔ (w.heap.get c).isSome ∧ ¬ Sweeps c w a := by
    rw [hget]
    exact ⟨fun h => ⟨h, fun ⟨m, ha, hclears, _⟩ => hm m ha hclears⟩, fun h => h.1⟩
  cases hd with
  | @accepted request _ =>
    have hget : (w.add request).heap.get c =
        if c = w.heap.next then some (.new request.hostName request.portNumber)
        else w.heap.get c := CellHeap.get_alloc _ c _
    rw [if_neg (Nat.ne_of_lt hc)] at hget
    exact hsame hget fun m h => (by cases h)
  | refused _ => exact hsame rfl fun m h => (by cases h)
  | nothing => exact hsame rfl fun m h => (by cases h)
  | @setup i _ _ _ _ _ _ _ _ _ _ hset =>
    have hne : c ≠ i := fun heq => hno (.inl ⟨_, by rw [heq]⟩)
    exact hsame (hset.others c hne) fun m h => (by cases h)
  | served _ _ _ ht => exact hsame (by rw [ht.heap]) fun m h => (by cases h)
  | idle _ _ ht => exact hsame (by rw [ht.heap]) fun m h => (by cases h)
  | @closed i _ _ _ _ _ hcl =>
    have hne : c ≠ i := fun heq => hno (.inl ⟨_, by rw [heq]⟩)
    exact hsame (by rw [hcl.heap, if_neg hne]) fun m h => (by cases h)
  | @failed i _ _ _ _ hcl =>
    have hne : c ≠ i := fun heq => hno (.inr ⟨_, by rw [heq]⟩)
    exact hsame (by rw [hcl.heap, if_neg hne]) fun m h => (by cases h)
  | delivered hm ht =>
    refine hsame (by rw [ht.heap]) fun m h => ?_
    cases h
    exact hm
  | @cleared m _ hm hcl =>
    by_cases hlisted : ∃ k, isInternalKey k = false ∧ w.sctpMap.lookup k = some c
    · obtain ⟨k, hint, hl⟩ := hlisted
      rw [(hcl.freed c k hint hl).1]
      exact iff_of_false (by simp) fun h => h.2 ⟨m, rfl, hm, k, hint, hl⟩
    · rw [(hcl.kept c fun k hint hl => hlisted ⟨k, hint, hl⟩).1]
      refine ⟨fun h => ⟨h, ?_⟩, fun h => h.1⟩
      rintro ⟨_, _, _, hkey⟩
      exact hlisted hkey

/-- A run of actions none of which concerns the connection or sweeps it leaves it as alive as it
was. -/
theorem run_lives_iff (hs : Sane w) {h : List (Step World Action)} (r : Run Action.run w h w')
    (hc : c < w.heap.next) (hno : ∀ st ∈ h, ¬ Concerns c st.act) :
    (w'.heap.get c).isSome ↔
      (w.heap.get c).isSome ∧ ∀ st ∈ h, ¬ Sweeps c st.pre st.act := by
  have hinv := r.history
    (fun h w' => (∀ st ∈ h, ¬ Concerns c st.act) → Sane w' ∧ c < w'.heap.next ∧
      ((w'.heap.get c).isSome ↔ (w.heap.get c).isSome ∧ ∀ st ∈ h, ¬ Sweeps c st.pre st.act))
    (fun _ => ⟨hs, hc, by simp⟩) ?_
  · exact (hinv hno).2.2
  · intro h s a s' _ ih hstep hno
    obtain ⟨hsane, hlt, hiff⟩ := ih fun st hst => hno st (by simp [hst])
    have hd := hsane.does hstep
    refine ⟨hd.sane hsane, hlt.trans_le hd.next_le, ?_⟩
    rw [hd.lives_iff hlt (hno ⟨s, a, s'⟩ (by simp)), hiff]
    simp only [List.mem_append, List.mem_singleton, or_imp, forall_and, forall_eq, and_assoc]

end Lives

/-! ## A batch -/

/-- The event is a bulk clear, handled while `sctpMap` holds the connection under a node's key. -/
def EpollEvent.Sweeps (c : ConnId) (w : World) (e : EpollEvent) : Prop :=
  e.data = .rmrListenFd ∧ ¬ (e.events.epollerr ∨ e.events.epollhup) ∧
    E2Term.Sweeps c w (.rmr e.rcvMessage)

section Batches

variable {w w' : World} {c : ConnId}

/-- The actions of an event that is no message and not for the connection leave it alone. -/
theorem OfEvent.leaves {e : EpollEvent} {a : Action} (h : OfEvent e a)
    (hrmr : e.data ≠ .rmrListenFd) (hno : e.data ≠ .ptr c) :
    ¬ Concerns c a ∧ ¬ E2Term.Sweeps c w a := by
  unfold OfEvent at h
  cases hdata : e.data with
  | rmrListenFd => exact (hrmr hdata).elim
  | inotifyFD =>
    simp only [hdata] at h
  | listenFD =>
    simp only [hdata] at h
    obtain ⟨request, rfl⟩ := h
    constructor
    · rintro (⟨_, h⟩ | ⟨_, h⟩) <;> cases h
    · rintro ⟨m, h, -⟩
      cases h
  | ptr i =>
    simp only [hdata] at h
    have hne : i ≠ c := fun heq => hno (by rw [hdata, heq])
    rcases h with ⟨r, rfl⟩ | ⟨answers, rfl⟩
    · constructor
      · rintro (⟨_, h⟩ | ⟨_, h⟩) <;> cases h
        exact hne rfl
      · rintro ⟨m, h, -⟩
        cases h
    · constructor
      · rintro (⟨_, h⟩ | ⟨_, h⟩) <;> cases h
        exact hne rfl
      · rintro ⟨m, h, -⟩
        cases h

/-- An event for another descriptor frees a connection exactly when it sweeps it. -/
theorem handleEvent_lives_iff {e : EpollEvent} (hs : Sane w) (hc : c < w.heap.next)
    (hin : InputOnly e) (hno : e.data ≠ .ptr c) (h : handleEvent e w = .ok () w') :
    (w'.heap.get c).isSome ↔ (w.heap.get c).isSome ∧ ¬ e.Sweeps c w := by
  by_cases hrmr : e.data = .rmrListenFd
  · unfold handleEvent at h
    split at h
    case isTrue herr =>
      -- an error event of RMR's descriptor does nothing
      simp only [handlepollError, hrmr] at h
      cases h
      exact ⟨fun hl => ⟨hl, fun hsw => hsw.2.1 herr⟩, fun hl => hl.1⟩
    case isFalse herr =>
      simp only [hrmr] at h
      split at h
      · cases h
      · have hok : (Action.rmr e.rcvMessage).run w = .ok () w' := h
        have hother : ¬ Concerns c (.rmr e.rcvMessage) := by
          rintro (⟨_, h⟩ | ⟨_, h⟩) <;> cases h
        rw [(hs.does hok).lives_iff hc hother]
        exact and_congr_right fun _ => not_congr ⟨fun h => ⟨hrmr, herr, h⟩, fun h => h.2.2⟩
  · obtain ⟨h', r, hall⟩ := handleEvent_run hin h
    have hleaves : ∀ st ∈ h', ¬ Concerns c st.act ∧ ¬ E2Term.Sweeps c st.pre st.act :=
      fun st hst => (hall st hst).leaves hrmr hno
    rw [run_lives_iff hs r hc fun st hst => (hleaves st hst).1]
    exact and_congr_right fun _ => iff_of_true (fun st hst => (hleaves st hst).2)
      fun hsw => hrmr hsw.1

/-- Among the events, handled from `w`, is one that sweeps the connection. -/
def SweptAmong (c : ConnId) (w : World) (events : List EpollEvent) : Prop :=
  ∃ before e after w', events = before ++ e :: after ∧ handleBatch before w = .ok () w' ∧
    e.Sweeps c w'

theorem sweptAmong_cons {e : EpollEvent} {events : List EpollEvent}
    (h : handleEvent e w = .ok () w') :
    SweptAmong c w (e :: events) ↔ e.Sweeps c w ∨ SweptAmong c w' events := by
  have hcons : ∀ events, handleBatch (e :: events) w = handleBatch events w' := by
    intro events
    rw [handleBatch, bind_of_ok h]
  constructor
  · rintro ⟨before, e₁, after, w₁, heq, hrun, hsw⟩
    cases before with
    | nil =>
      cases heq
      cases hrun
      exact .inl hsw
    | cons e₀ before =>
      cases heq
      rw [hcons] at hrun
      exact .inr ⟨before, e₁, after, w₁, rfl, hrun, hsw⟩
  · rintro (hsw | ⟨before, e₁, after, w₁, rfl, hrun, hsw⟩)
    · exact ⟨[], e, events, w, rfl, rfl, hsw⟩
    · exact ⟨e :: before, e₁, after, w₁, rfl, by rw [hcons, hrun], hsw⟩

/-- Events for other descriptors free a connection exactly when one of them sweeps it. -/
theorem handleBatch_lives_iff {events : List EpollEvent} :
    ∀ {w : World}, Sane w → c < w.heap.next →
      (∀ e ∈ events, InputOnly e ∧ e.data ≠ .ptr c) → handleBatch events w = .ok () w' →
      ((w'.heap.get c).isSome ↔ (w.heap.get c).isSome ∧ ¬ SweptAmong c w events) := by
  induction events with
  | nil =>
    intro w _ _ _ h
    cases h
    refine ⟨fun hl => ⟨hl, ?_⟩, fun hl => hl.1⟩
    rintro ⟨before, e, after, _, heq, -⟩
    simp at heq
  | cons e events ih =>
    intro w hs hc hall h
    unfold handleBatch at h
    obtain ⟨_, w₁, hfirst, hrest⟩ := bind_eq_ok.mp h
    obtain ⟨hin, hno⟩ := hall e (by simp)
    obtain ⟨h', r, -⟩ := handleEvent_run hin hfirst
    have hreach : Sane w₁ ∧ w.heap.next ≤ w₁.heap.next :=
      r.invariant (fun w₁ => Sane w₁ ∧ w.heap.next ≤ w₁.heap.next) ⟨hs, Nat.le_refl _⟩
        fun s a s' hI hstep =>
          ⟨(hI.1.does hstep).sane hI.1, hI.2.trans (hI.1.does hstep).next_le⟩
    rw [ih hreach.1 (hc.trans_le hreach.2) (fun e' he' => hall e' (by simp [he'])) hrest,
      handleEvent_lives_iff hs hc hin hno hfirst, sweptAmong_cons hfirst]
    tauto

end Batches

/-- When the listener comes to an event of a connection, the connection is alive exactly when no
earlier event of the batch was a bulk clear while `sctpMap` led to it. -/
theorem event_connection_live_iff {params : SctpParams} {h : List (Step World Action)}
    {w₀ w : World} (r : ListenerRun params h w₀) {before after : List EpollEvent} {e : EpollEvent}
    {c : ConnId} (hd : ∀ e' ∈ before ++ e :: after, Deliverable w₀ e')
    (hdistinct : ((before ++ e :: after).map (·.data)).Nodup) (hptr : e.data = .ptr c)
    (hrun : handleBatch before w₀ = .ok () w) :
    (w.heap.get c).isSome ↔ ¬ SweptAmong c w₀ before := by
  have hs := sane_of_run r
  obtain ⟨flags, hfds, -⟩ := hd e (by simp) c hptr
  have hlive : (w₀.heap.get c).isSome := (hs.open_iff c).mp (by rw [hfds]; rfl)
  have hc : c < w₀.heap.next := w₀.heap.lt_next_of_isSome c hlive
  have hother : ∀ e' ∈ before, InputOnly e' ∧ e'.data ≠ .ptr c := by
    intro e' he'
    refine ⟨hs.inputOnly_of_deliverable (hd e' (by simp [he'])), fun heq => ?_⟩
    rw [List.map_append, List.map_cons] at hdistinct
    have hdisjoint := (List.nodup_append.mp hdistinct).2.2
    exact hdisjoint _ (List.mem_map_of_mem he') _ List.mem_cons_self (heq.trans hptr.symm)
  rw [handleBatch_lives_iff hs hc hother hrun]
  exact and_iff_right hlive

/-- Input for RMR. -/
def sampleRmrEvent (mtype : MsgType) (meid : Name) : EpollEvent where
  events := ⟨true, false, false, false⟩
  data := .rmrListenFd
  backlog := []
  rcvMessage := some ⟨.ok, mtype, meid, [0], some [0], [], .good⟩
  pending := []
  socket := ⟨.ok false, true⟩
  answers := .good

/-- Input for a connection. -/
def sampleDataEvent (c : ConnId) : EpollEvent where
  events := ⟨true, false, false, false⟩
  data := .ptr c
  backlog := []
  rcvMessage := none
  pending := [.eof .good]
  socket := ⟨.ok false, true⟩
  answers := .good

theorem deliverable_sampleDataEvent {w : World} {c : ConnId} (h : (w.fds c).isSome) :
    Deliverable w (sampleDataEvent c) := by
  intro i hi
  cases hi
  obtain ⟨flags, hflags⟩ := Option.isSome_iff_exists.mp h
  exact ⟨flags, hflags, fun hout => by cases hout⟩

theorem deliverable_sampleRmrEvent (w : World) (mtype : MsgType) (meid : Name) :
    Deliverable w (sampleRmrEvent mtype meid) := fun i hi => by cases hi

/-- A subscription request and the end of another connection come before the event. -/
theorem event_connection_live_iff_busy :
    ∃ h w₀ w, ListenerRun sampleParams h w₀ ∧
      handleBatch [sampleRmrEvent .ricSubReq (sampleName 1), sampleDataEvent 1] w₀ = .ok () w ∧
      ((w.heap.get 0).isSome ↔
        ¬ SweptAmong 0 w₀ [sampleRmrEvent .ricSubReq (sampleName 1), sampleDataEvent 1]) := by
  obtain ⟨h, w₀, r, h0, h1, _, w, hrun, -⟩ := sampleRun_of_any
    [.accept sampleRequest, sampleRead 0 (sampleSetup 1), .accept sampleRequest]
    (fun p => (p.2.fds 0).isSome ∧ (p.2.fds 1).isSome ∧ Returned (fun _ _ => True)
      (handleBatch [sampleRmrEvent .ricSubReq (sampleName 1), sampleDataEvent 1] p.2))
    (by decide +kernel)
  have hd : ∀ e ∈ [sampleRmrEvent .ricSubReq (sampleName 1), sampleDataEvent 1] ++
      sampleDataEvent 0 :: [], Deliverable w₀ e := by
    simp only [List.cons_append, List.nil_append, List.forall_mem_cons]
    exact ⟨deliverable_sampleRmrEvent _ _ _, deliverable_sampleDataEvent h1,
      deliverable_sampleDataEvent h0, by simp⟩
  exact ⟨h, w₀, w, r, hrun, event_connection_live_iff r hd (by decide) rfl hrun⟩

/-- A bulk clear comes first: the event that follows is for a freed connection. -/
theorem swept_connection_has_event :
    ¬ ∀ params h w₀ w before after e c, ListenerRun params h w₀ →
      (∀ e' ∈ before ++ e :: after, Deliverable w₀ e') →
      ((before ++ e :: after).map (·.data)).Nodup → e.data = .ptr c →
      handleBatch before w₀ = .ok () w → (w.heap.get c).isSome := by
  intro hall
  obtain ⟨h, w₀, r, h0, _, w, hrun, hfreed⟩ := sampleRun_of_any
    [.accept sampleRequest, sampleRead 0 (sampleSetup 1)]
    (fun p => (p.2.fds 0).isSome ∧ Returned (fun _ w => w.heap.get 0 = none)
      (handleBatch [sampleRmrEvent .ricSctpClearAll []] p.2)) (by decide +kernel)
  have hd : ∀ e ∈ [sampleRmrEvent .ricSctpClearAll []] ++ sampleDataEvent 0 :: [],
      Deliverable w₀ e := by
    simp only [List.cons_append, List.nil_append, List.forall_mem_cons]
    exact ⟨deliverable_sampleRmrEvent _ _ _, deliverable_sampleDataEvent h0, by simp⟩
  have hlive := hall _ h w₀ w _ _ _ 0 r hd (by decide) rfl hrun
  rw [hfreed] at hlive
  cases hlive

end E2Term
