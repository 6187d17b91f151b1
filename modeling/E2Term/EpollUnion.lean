import E2Term.Listener

/-!
# The data of an epoll event

`epoll_event.data` is a union without a tag: the listener reads it as a descriptor or as a
`ConnectedCU_t *`, in an order of its own. Here the data is the 64 bits that epoll keeps, and the
branch that an event takes is read off them. The model of the listener takes the same branches.
-/

namespace E2Term

/-- `data.fd`: the lower half, on a little-endian machine. -/
def asFd (data : BitVec 64) : BitVec 32 := data.setWidth 32

/-- The data after `data.fd = fd` in a zeroed event. -/
def ofFd (fd : BitVec 32) : BitVec 64 := fd.setWidth 64

/-- The descriptors in `sctp_params`. -/
structure Descriptors where
  listenFD : BitVec 32
  rmrListenFd : BitVec 32
  inotifyFD : BitVec 32

/-- What an event was registered for, by `buildListeningPort`, `getRmrContext`, `buildInotify`, or
by `addToEpoll` and `modifyToEpoll` with a connection at this address. -/
inductive Registration where
  | listenFD
  | rmrListenFd
  | inotifyFD
  | connection (peerInfo : BitVec 64)
  deriving DecidableEq

/-- The descriptor in the data, when there is one. -/
def Registration.fd (d : Descriptors) : Registration → Option (BitVec 32)
  | .listenFD => some d.listenFD
  | .rmrListenFd => some d.rmrListenFd
  | .inotifyFD => some d.inotifyFD
  | .connection _ => none

/-- The data of the event. -/
def Registration.data (d : Descriptors) : Registration → BitVec 64
  | .listenFD => ofFd d.listenFD
  | .rmrListenFd => ofFd d.rmrListenFd
  | .inotifyFD => ofFd d.inotifyFD
  | .connection peerInfo => peerInfo

/-- Where the listener goes with an event, and the data that it takes for a `ConnectedCU_t *`. -/
inductive Branch where
  | handlepollError (peerInfo : BitVec 64)
  | errorLogged
  | handleEinprogressMessages (peerInfo : BitVec 64)
  | accept
  | receiveXappMessages
  | handleConfigChange
  | receiveDataFromSctp (peerInfo : BitVec 64)
  deriving DecidableEq

/-- The chain of tests in `listener`, with the one at the start of `handlepoll_error`. -/
def branch (d : Descriptors) (events : EpollFlags) (data : BitVec 64) : Branch :=
  if events.epollerr ∨ events.epollhup then
    if asFd data ≠ d.rmrListenFd ∧ data ≠ 0 then .handlepollError data else .errorLogged
  else if events.epollout then .handleEinprogressMessages data
  else if d.listenFD = asFd data then .accept
  else if d.rmrListenFd = asFd data then .receiveXappMessages
  else if d.inotifyFD = asFd data then .handleConfigChange
  else .receiveDataFromSctp data

/-- The data that is taken for a pointer. -/
def Branch.peerInfo : Branch → Option (BitVec 64)
  | .handlepollError peerInfo => some peerInfo
  | .handleEinprogressMessages peerInfo => some peerInfo
  | .receiveDataFromSctp peerInfo => some peerInfo
  | .errorLogged | .accept | .receiveXappMessages | .handleConfigChange => none

/-- The data is taken for a pointer only if the event was registered with a connection, and then
it is the pointer of that connection. -/
def PointerOfConnection (d : Descriptors) (events : EpollFlags) (r : Registration) : Prop :=
  ∀ peerInfo, (branch d events (r.data d)).peerInfo = some peerInfo → r = .connection peerInfo

@[simp] theorem asFd_ofFd (fd : BitVec 32) : asFd (ofFd fd) = fd := by
  unfold asFd ofFd
  rw [BitVec.setWidth_setWidth_of_le _ (by omega), BitVec.setWidth_eq]

@[simp] theorem ofFd_eq_zero_iff (fd : BitVec 32) : ofFd fd = 0 ↔ fd = 0 := by
  constructor
  · intro h
    rw [← asFd_ofFd fd, h]
    rfl
  · rintro rfl
    rfl

/-- The branch of a pointer keeps the pointer. -/
theorem branch_peerInfo {d : Descriptors} {events : EpollFlags} {data peerInfo : BitVec 64}
    (h : (branch d events data).peerInfo = some peerInfo) : peerInfo = data := by
  unfold branch at h
  split_ifs at h <;> simp_all [Branch.peerInfo]

/-- Where the data is a descriptor of the listener. -/
theorem branch_ofFd {d : Descriptors} {r : Registration} {fd : BitVec 32} (hr : r.fd d = some fd)
    (events : EpollFlags) : (branch d events (r.data d)).peerInfo = none ↔
      if events.epollerr ∨ events.epollhup then fd = d.rmrListenFd ∨ fd = 0
      else ¬ events.epollout := by
  have hdata : r.data d = ofFd fd := by
    cases r <;> simp_all [Registration.fd, Registration.data]
  have hmem : d.listenFD = fd ∨ d.rmrListenFd = fd ∨ d.inotifyFD = fd := by
    cases r <;> simp_all [Registration.fd]
  have hpointer : (fd ≠ d.rmrListenFd ∧ ofFd fd ≠ 0) ↔ ¬ (fd = d.rmrListenFd ∨ fd = 0) := by
    rw [not_or, ne_eq, ne_eq, ofFd_eq_zero_iff]
  rw [hdata]
  unfold branch
  rw [asFd_ofFd]
  by_cases herr : events.epollerr ∨ events.epollhup
  · rw [if_pos herr, if_pos herr]
    by_cases hfd : fd = d.rmrListenFd ∨ fd = 0
    · rw [if_neg fun h => hpointer.mp h hfd]
      exact iff_of_true rfl hfd
    · rw [if_pos (hpointer.mpr hfd)]
      exact iff_of_false (Option.some_ne_none _) hfd
  · rw [if_neg herr, if_neg herr]
    cases events.epollout with
    | true => simp [Branch.peerInfo]
    | false =>
      rw [if_neg Bool.false_ne_true]
      split_ifs <;> simp_all [Branch.peerInfo]

/-- The data is taken for a pointer only with a connection exactly when the event is one of a
connection, or it has no error flag and no `EPOLLOUT`, or it has an error flag and the descriptor is
that of RMR or 0. -/
theorem pointer_of_connection_iff (d : Descriptors) (events : EpollFlags) (r : Registration) :
    PointerOfConnection d events r ↔ ∀ fd, r.fd d = some fd →
      if events.epollerr ∨ events.epollhup then fd = d.rmrListenFd ∨ fd = 0
      else ¬ events.epollout := by
  constructor
  · intro h fd hfd
    rw [← branch_ofFd hfd]
    cases hpeer : (branch d events (r.data d)).peerInfo with
    | none => rfl
    | some peerInfo =>
      rw [h peerInfo hpeer] at hfd
      cases hfd
  · intro h peerInfo hpeer
    cases hfd : r.fd d with
    | some fd =>
      rw [(branch_ofFd hfd events).mpr (h fd hfd)] at hpeer
      cases hpeer
    | none =>
      rw [branch_peerInfo hpeer]
      cases r with
      | connection p => rfl
      | listenFD | rmrListenFd | inotifyFD => cases hfd

/-- An error on the listening socket: its descriptor 5 is taken for a pointer. -/
theorem listening_error_takes_pointer :
    ¬ PointerOfConnection ⟨5, 7, 6⟩ ⟨true, false, true, false⟩ .listenFD := by
  intro h
  exact absurd (h 5 (by decide)) (by decide)

/-! ## The model of the listener -/

/-- The descriptors of the listener are told apart from each other and from the connections: no
descriptor is 0, and the lower half of no address is one of them. -/
structure Separate (d : Descriptors) (address : ConnId → BitVec 64) : Prop where
  listen_ne_rmr : d.listenFD ≠ d.rmrListenFd
  listen_ne_inotify : d.listenFD ≠ d.inotifyFD
  rmr_ne_inotify : d.rmrListenFd ≠ d.inotifyFD
  listen_ne_zero : d.listenFD ≠ 0
  inotify_ne_zero : d.inotifyFD ≠ 0
  address_ne_zero : ∀ c, address c ≠ 0
  address_ne_fd : ∀ c, asFd (address c) ∉ [d.listenFD, d.rmrListenFd, d.inotifyFD]

/-- The registration of an event of the model. -/
def EpollData.registration (address : ConnId → BitVec 64) : EpollData → Registration
  | .listenFD => .listenFD
  | .rmrListenFd => .rmrListenFd
  | .inotifyFD => .inotifyFD
  | .ptr c => .connection (address c)

/-- What the listener does in a branch. -/
def takeBranch (event : EpollEvent) : Branch → M Unit
  | .handlepollError _ =>
    match event.data with
    | .ptr peerInfo => closeOnError peerInfo event.answers
    | _ => throw .wildPointer
  | .errorLogged => return
  | .handleEinprogressMessages _ =>
    match event.data with
    | .ptr peerInfo => do
      modify fun w => { w with answers := event.answers }
      handleEinprogressMessages peerInfo event.socket
    | _ => throw .wildPointer
  | .accept => do
    let _ ← acceptLoop event.backlog
  | .receiveXappMessages => do
    let _ ← receiveXappMessages event.rcvMessage
  | .handleConfigChange => return
  | .receiveDataFromSctp _ =>
    match event.data with
    | .ptr peerInfo => do
      let _ ← receiveDataFromSctp peerInfo event.pending
    | _ => throw .wildPointer

section Branches

variable {d : Descriptors} {address : ConnId → BitVec 64} (h : Separate d address)
  (events : EpollFlags)

include h

theorem branch_listenFD : branch d events (ofFd d.listenFD) =
    if events.epollerr ∨ events.epollhup then .handlepollError (ofFd d.listenFD)
    else if events.epollout then .handleEinprogressMessages (ofFd d.listenFD)
    else .accept := by
  have hpointer : d.listenFD ≠ d.rmrListenFd ∧ ofFd d.listenFD ≠ 0 :=
    ⟨h.listen_ne_rmr, mt (ofFd_eq_zero_iff _).mp h.listen_ne_zero⟩
  rw [branch, asFd_ofFd, if_pos hpointer, if_pos (rfl : d.listenFD = d.listenFD)]

theorem branch_rmrListenFd : branch d events (ofFd d.rmrListenFd) =
    if events.epollerr ∨ events.epollhup then .errorLogged
    else if events.epollout then .handleEinprogressMessages (ofFd d.rmrListenFd)
    else .receiveXappMessages := by
  have hpointer : ¬ (d.rmrListenFd ≠ d.rmrListenFd ∧ ofFd d.rmrListenFd ≠ 0) := fun hne => hne.1 rfl
  rw [branch, asFd_ofFd, if_neg hpointer, if_neg h.listen_ne_rmr,
    if_pos (rfl : d.rmrListenFd = d.rmrListenFd)]

theorem branch_inotifyFD : branch d events (ofFd d.inotifyFD) =
    if events.epollerr ∨ events.epollhup then .handlepollError (ofFd d.inotifyFD)
    else if events.epollout then .handleEinprogressMessages (ofFd d.inotifyFD)
    else .handleConfigChange := by
  have hpointer : d.inotifyFD ≠ d.rmrListenFd ∧ ofFd d.inotifyFD ≠ 0 :=
    ⟨h.rmr_ne_inotify.symm, mt (ofFd_eq_zero_iff _).mp h.inotify_ne_zero⟩
  rw [branch, asFd_ofFd, if_pos hpointer, if_neg h.listen_ne_inotify, if_neg h.rmr_ne_inotify,
    if_pos (rfl : d.inotifyFD = d.inotifyFD)]

theorem branch_address (c : ConnId) : branch d events (address c) =
    if events.epollerr ∨ events.epollhup then .handlepollError (address c)
    else if events.epollout then .handleEinprogressMessages (address c)
    else .receiveDataFromSctp (address c) := by
  have hfd := h.address_ne_fd c
  simp only [List.mem_cons, not_or] at hfd
  have hpointer : asFd (address c) ≠ d.rmrListenFd ∧ address c ≠ 0 :=
    ⟨hfd.2.1, h.address_ne_zero c⟩
  rw [branch, if_pos hpointer, if_neg (Ne.symm hfd.1), if_neg (Ne.symm hfd.2.1),
    if_neg (Ne.symm hfd.2.2.1)]

/-- The model of the listener takes the branch of the data that epoll keeps. -/
theorem handleEvent_eq (event : EpollEvent) : handleEvent event =
    takeBranch event (branch d event.events ((event.data.registration address).data d)) := by
  unfold handleEvent handlepollError
  cases hdata : event.data with
  | listenFD =>
    show _ = takeBranch event (branch d event.events (ofFd d.listenFD))
    rw [branch_listenFD h]
    split_ifs <;> simp only [takeBranch, hdata]
  | rmrListenFd =>
    show _ = takeBranch event (branch d event.events (ofFd d.rmrListenFd))
    rw [branch_rmrListenFd h]
    split_ifs <;> simp only [takeBranch, hdata]
  | inotifyFD =>
    show _ = takeBranch event (branch d event.events (ofFd d.inotifyFD))
    rw [branch_inotifyFD h]
    split_ifs <;> simp only [takeBranch, hdata]
  | ptr c =>
    show _ = takeBranch event (branch d event.events (address c))
    rw [branch_address h]
    split_ifs <;> simp only [takeBranch, hdata]

end Branches

end E2Term
