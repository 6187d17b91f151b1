import E2Term.UplinkFrame

/-!
# The E2 setup request

What a setup request does depends on the name its connection had and on its information elements.
`scanSetup` computes that: the transaction id, the name for messages, the new name of the
connection, and the keys registered for it.
-/

namespace E2Term

open CString Effect

/-- What `collectSetupRequestData` finds. The request is accepted when `transactionId` is not
negative. -/
structure SetupScan where
  transactionId : Int
  message : NameBuf
  peer : NameBuf
  keys : List Name

/-- The loop over the information elements, from the names built so far. -/
def scanSetupIEs (transactionId : Int) (message peer : NameBuf) :
    List (ProtocolIE E2setupRequestIEs) → Option SetupScan
  | [] => some ⟨transactionId, message, peer, []⟩
  | ie :: rest =>
    match ie.value with
    | .globalE2nodeID g =>
      if ie.id = idGlobalE2nodeID then
        match buildRanName peer g with
        | none => none
        | some (rc, ranName) =>
          if rc < 0 then some ⟨-1, message, ranName, []⟩
          else (scanSetupIEs transactionId (message.copyStr ranName) ranName rest).map fun s =>
            { s with keys := (message.copyStr ranName).str :: s.keys }
      else scanSetupIEs transactionId message peer rest
    | .transactionID t =>
      if ie.id = idTransactionID then scanSetupIEs t message peer rest
      else scanSetupIEs transactionId message peer rest
    | .other => scanSetupIEs transactionId message peer rest

/-- A request on a connection with the name `enodbName`. -/
def scanSetup (enodbName : NameBuf) (ies : List (ProtocolIE E2setupRequestIEs)) :
    Option SetupScan :=
  scanSetupIEs (-1) enodbName (Buf.zeros maxEnodbNameSize) ies

/-- The request is accepted. -/
def SetupScan.accepted (s : SetupScan) : Prop := 0 ≤ s.transactionId

instance (s : SetupScan) : Decidable s.accepted := inferInstanceAs (Decidable (0 ≤ _))

/-! ## The registration -/

/-- `keys` registered for a connection. -/
def registerKeys (c : ConnId) (keys : List Name) (m : SctpMap) : SctpMap :=
  keys.foldl (fun m k => m.insert k c) m

theorem lookup_registerKeys (c : ConnId) (keys : List Name) (m : SctpMap) (k : Name) :
    (registerKeys c keys m).lookup k = if k ∈ keys then some c else m.lookup k := by
  induction keys generalizing m with
  | nil => simp [registerKeys]
  | cons key keys ih =>
    show (registerKeys c keys (m.insert key c)).lookup k = _
    rw [ih]
    by_cases hk : k ∈ keys
    · simp [hk]
    · by_cases hkey : k = key
      · subst hkey
        simp [AList.lookup_insert]
      · simp [hk, hkey, AList.lookup_insert_ne hkey]

/-- The state after the loop: the connection `cu` at `c` has its new name and its keys. -/
def World.register (w : World) (c : ConnId) (cu : ConnectedCU) (name : NameBuf)
    (keys : List Name) : World :=
  { w with
    heap := w.heap.set c { cu with enodbName := name }
    sctpMap := registerKeys c keys w.sctpMap }

section Register

variable {w : World} {c : ConnId} {cu : ConnectedCU}

theorem update_of_get (hc : w.heap.get c = some cu) (f : ConnectedCU → ConnectedCU) :
    update c f w = .ok () { w with heap := w.heap.set c (f cu) } := by
  unfold update
  rw [bind_of_ok (deref_of_get hc)]
  rfl

theorem get_set_self (hc : w.heap.get c = some cu) (cu' : ConnectedCU) :
    (w.heap.set c cu').get c = some cu' := by
  rw [CellHeap.get_set _ _ _ _ hc, if_pos rfl]

theorem register_get (hc : w.heap.get c = some cu) (name : NameBuf) (keys : List Name) :
    (w.register c cu name keys).heap.get c = some { cu with enodbName := name } :=
  get_set_self hc _

/-- A registration that follows another one. -/
theorem register_register (name name' : NameBuf) (keys keys' : List Name) :
    (w.register c cu name keys).register c { cu with enodbName := name } name' keys' =
      w.register c cu name' (keys ++ keys') := by
  unfold World.register
  simp only [CellHeap.set_set, registerKeys, List.foldl_append]

theorem register_self (hc : w.heap.get c = some cu) :
    w.register c cu cu.enodbName [] = w := by
  unfold World.register
  rw [show ({ cu with enodbName := cu.enodbName } : ConnectedCU) = cu from rfl,
    CellHeap.set_eq_self _ _ hc]
  rfl

end Register

/-- The loop does what the scan says. -/
theorem collectSetupIEs_eq {c : ConnId} {s : SetupScan}
    (ies : List (ProtocolIE E2setupRequestIEs)) :
    ∀ {w : World} {cu : ConnectedCU} {tid : Int} {message : NameBuf},
      w.heap.get c = some cu → scanSetupIEs tid message cu.enodbName ies = some s →
      collectSetupIEs c tid message ies w =
        .ok (s.transactionId, s.message) (w.register c cu s.peer s.keys) := by
  induction ies generalizing s with
  | nil =>
    intro w cu tid message hc hs
    cases hs
    rw [register_self hc]
    rfl
  | cons ie rest ih =>
    intro w cu tid message hc hs
    unfold scanSetupIEs at hs
    unfold collectSetupIEs
    cases hv : ie.value with
    | other =>
      rw [hv] at hs
      exact ih hc hs
    | transactionID t =>
      simp only [hv] at hs ⊢
      split at hs
      · rename_i hid
        rw [if_pos hid]
        exact ih hc hs
      · rename_i hid
        rw [if_neg hid]
        exact ih hc hs
    | globalE2nodeID g =>
      simp only [hv] at hs ⊢
      split at hs
      case isFalse hid =>
        rw [if_neg hid]
        exact ih hc hs
      case isTrue hid =>
        rw [if_pos hid, bind_of_ok (deref_of_get hc)]
        cases hb : buildRanName cu.enodbName g with
        | none =>
          rw [hb] at hs
          cases hs
        | some p =>
          obtain ⟨rc, ranName⟩ := p
          simp only [hb] at hs ⊢
          rw [bind_of_ok (update_of_get hc _)]
          split at hs
          · rename_i hrc
            rw [if_pos hrc]
            cases hs
            rfl
          · rename_i hrc
            rw [if_neg hrc]
            obtain ⟨s', hs', rfl⟩ := Option.map_eq_some_iff.mp hs
            have hget := register_get hc ranName [(message.copyStr ranName).str]
            have hrest := ih (w := w.register c cu ranName [(message.copyStr ranName).str]) hget hs'
            rw [register_register] at hrest
            exact hrest

/-- A name that outgrows its buffer ends the loop; nothing was sent. -/
theorem collectSetupIEs_overflow {c : ConnId} (ies : List (ProtocolIE E2setupRequestIEs)) :
    ∀ {w : World} {cu : ConnectedCU} {tid : Int} {message : NameBuf},
      w.heap.get c = some cu → scanSetupIEs tid message cu.enodbName ies = none →
      ∃ w', collectSetupIEs c tid message ies w = .error .nameOverflow w' ∧
        w'.outbox = w.outbox := by
  induction ies with
  | nil =>
    intro w cu tid message hc hs
    cases hs
  | cons ie rest ih =>
    intro w cu tid message hc hs
    unfold scanSetupIEs at hs
    unfold collectSetupIEs
    cases hv : ie.value with
    | other =>
      rw [hv] at hs
      exact ih hc hs
    | transactionID t =>
      simp only [hv] at hs ⊢
      split at hs
      · rename_i hid
        rw [if_pos hid]
        exact ih hc hs
      · rename_i hid
        rw [if_neg hid]
        exact ih hc hs
    | globalE2nodeID g =>
      simp only [hv] at hs ⊢
      split at hs
      case isFalse hid =>
        rw [if_neg hid]
        exact ih hc hs
      case isTrue hid =>
        rw [if_pos hid, bind_of_ok (deref_of_get hc)]
        cases hb : buildRanName cu.enodbName g with
        | none => exact ⟨w, rfl, rfl⟩
        | some p =>
          obtain ⟨rc, ranName⟩ := p
          simp only [hb] at hs ⊢
          rw [bind_of_ok (update_of_get hc _)]
          split at hs
          · cases hs
          · rename_i hrc
            rw [if_neg hrc]
            have hget := register_get hc ranName [(message.copyStr ranName).str]
            have hs' := Option.map_eq_none_iff.mp hs
            exact ih (w := w.register c cu ranName [(message.copyStr ranName).str]) hget hs'

theorem collectSetupRequestData_eq {w : World} {message : ReportingMessages} {cu : ConnectedCU}
    {ies : List (ProtocolIE E2setupRequestIEs)} {s : SetupScan}
    (hc : w.heap.get message.peerInfo = some cu) (hs : scanSetup message.enodbName ies = some s) :
    collectSetupRequestData message ies w =
      .ok (s.transactionId, s.message) (w.register message.peerInfo cu s.peer s.keys) := by
  unfold collectSetupRequestData
  rw [bind_of_ok (update_of_get hc _)]
  have hzeros := get_set_self hc { cu with enodbName := Buf.zeros maxEnodbNameSize }
  unfold scanSetup at hs
  rw [collectSetupIEs_eq ies hzeros hs]
  unfold World.register
  simp only [CellHeap.set_set]

theorem e2setup_overflow {w : World} (message : ReportingMessages) {cu : ConnectedCU}
    (hc : w.heap.get message.peerInfo = some cu) (m : SctpMsg)
    {ies : List (ProtocolIE E2setupRequestIEs)} (hs : scanSetup message.enodbName ies = none) :
    ∃ w', e2setup message m ies w = .error .nameOverflow w' ∧ w'.outbox = w.outbox := by
  have hzeros := get_set_self hc { cu with enodbName := Buf.zeros maxEnodbNameSize }
  unfold scanSetup at hs
  obtain ⟨w', hrun, hout⟩ := collectSetupIEs_overflow (c := message.peerInfo)
    (w := { w with heap := w.heap.set message.peerInfo _ }) ies hzeros hs
  refine ⟨w', ?_, hout⟩
  unfold e2setup collectSetupRequestData
  rw [bind_of_error (bind_of_ok (update_of_get hc _) |>.trans hrun)]

/-! ## The whole request -/

/-- An accepted connection: the counters are built, and a single stream is noted. -/
def ConnectedCU.accept (cu : ConnectedCU) (m : SctpMsg) : ConnectedCU :=
  let built : ConnectedCU := { cu with
    counters := buildPrometheusList cu.enodbName.str cu.counters
    e2tInternalCounters := buildInternalCounterPrometheusList cu.enodbName.str }
  if m.outstrms = 1 ∨ m.instrms = 1 then
    { built with isSingleStream := true, singleStreamId := m.streamId }
  else built

theorem ConnectedCU.accept_counters (cu : ConnectedCU) (m : SctpMsg) :
    (cu.accept m).counters = buildPrometheusList cu.enodbName.str cu.counters := by
  unfold ConnectedCU.accept
  dsimp only
  split <;> rfl

theorem ConnectedCU.built_accept (cu : ConnectedCU) (m : SctpMsg) : Built (cu.accept m) := by
  intro d k p hp
  rw [ConnectedCU.accept_counters]
  unfold buildPrometheusList
  obtain ⟨row, hrow⟩ := Option.isSome_iff_exists.mp hp
  rw [hrow]
  rfl

@[simp] theorem ConnectedCU.accept_enodbName (cu : ConnectedCU) (m : SctpMsg) :
    (cu.accept m).enodbName = cu.enodbName := by
  unfold ConnectedCU.accept
  dsimp only
  split <;> rfl

@[simp] theorem ConnectedCU.accept_isConnected (cu : ConnectedCU) (m : SctpMsg) :
    (cu.accept m).isConnected = cu.isConnected := by
  unfold ConnectedCU.accept
  dsimp only
  split <;> rfl

/-- The announcement of a node to the E2 manager. -/
def Announcement (n : Name) : Output → Prop
  | .rmr msg _ => msg.meid = n ∧ msg.mtype = .ricE2SetupReq
  | _ => False

theorem rmrTo_of_announcement {n : Name} {o : Output} (h : Announcement n o) : RmrTo n o := by
  cases o with
  | rmr msg sent => exact h.1
  | rts | sctp => exact h.elim

/-- What handling a setup request on the connection `cu` at `c` does, given its scan. -/
structure SetUp (c : ConnId) (cu : ConnectedCU) (s : SetupScan) (w w' : World) : Prop where
  params : w'.params = w.params
  next : w'.heap.next = w.heap.next
  others : ∀ i, i ≠ c → w'.heap.get i = w.heap.get i
  peer : ∃ cu', w'.heap.get c = some cu' ∧ cu'.enodbName = s.peer ∧
    cu'.isConnected = cu.isConnected ∧ (s.accepted → Built cu') ∧
    (¬ s.accepted → cu'.counters = cu.counters)
  fds : w'.fds = w.fds
  sctpMap : w'.sctpMap = registerKeys c s.keys w.sctpMap
  procedures : ∀ k, w'.connectionHandlingPerE2NodeMap.lookup k =
    if s.accepted then
      (E2NodeMap.insertE2SetupProcedureOngoing w.connectionHandlingPerE2NodeMap s.message.str
        s.transactionId).lookup k
    else w.connectionHandlingPerE2NodeMap.lookup k
  sent : ∃ out, w'.outbox = w.outbox ++ out ∧ ∀ o ∈ out, s.accepted ∧ RmrTo s.message.str o

theorem SetUp.nameOf {c : ConnId} {cu : ConnectedCU} {s : SetupScan} {w w' : World}
    (h : SetUp c cu s w w') : w'.nameOf c = some s.peer.str := by
  obtain ⟨cu', hc', hpeer, -⟩ := h.peer
  rw [nameOf_of_get hc', hpeer]

/-- The part of `handleE2SetupReq` behind the updates of the connection. -/
def forwardSetup (message : ReportingMessages) (m : SctpMsg) (transactionID : Int) : M Unit := do
  let cu ← deref message.peerInfo
  incrementIfSet (cu.counters .inIniti .msgCounter .e2setup) 1
  incrementIfSet (cu.counters .inIniti .bytesCounter .e2setup) message.asnLength
  buildAndSendSetupRequest message .ricE2SetupReq m.xer
  insertE2SetupProcedureOngoing message.enodbName.str transactionID

theorem handleE2SetupReq_eq {w : World} (message : ReportingMessages) {cu : ConnectedCU}
    (hc : w.heap.get message.peerInfo = some cu) (m : SctpMsg) (tid : Int) :
    handleE2SetupReq message m tid w =
      forwardSetup message m tid { w with heap := w.heap.set message.peerInfo (cu.accept m) } := by
  unfold handleE2SetupReq buildCounters
  rw [bind_of_ok (update_of_get hc _)]
  unfold ConnectedCU.accept
  dsimp only
  split
  · rw [bind_of_ok (update_of_get (get_set_self hc _) _)]
    rw [CellHeap.set_set]
    rfl
  · rfl

theorem forwardSetup_ok {w : World} {message : ReportingMessages} {cu : ConnectedCU}
    (hc : w.heap.get message.peerInfo = some cu) (m : SctpMsg) (tid : Int) :
    ∃ w', forwardSetup message m tid w =
      .ok () { w' with
        connectionHandlingPerE2NodeMap := E2NodeMap.insertE2SetupProcedureOngoing
          w'.connectionHandlingPerE2NodeMap message.enodbName.str tid } ∧
      Touches message.enodbName.str noStatus (Announcement message.enodbName.str) w w' := by
  have hI := Touches.counts message.enodbName.str noStatus (Announcement message.enodbName.str) hc
  obtain ⟨_, w₁, hrun₁, h₁⟩ :=
    (hI.incrementIfSet (cu.counters .inIniti .msgCounter .e2setup) 1).returns (.refl w)
  obtain ⟨_, w₂, hrun₂, h₂⟩ :=
    (hI.incrementIfSet (cu.counters .inIniti .bytesCounter .e2setup) message.asnLength).returns h₁
  obtain ⟨_, w₃, hrun₃, h₃⟩ :=
    (keeps_buildAndSendSetupRequest message .ricE2SetupReq m.xer fun _ _ => .intro).returns h₂
  refine ⟨w₃, ?_, h₃⟩
  unfold forwardSetup
  rw [bind_of_ok (deref_of_get hc), bind_of_ok hrun₁, bind_of_ok hrun₂, bind_of_ok hrun₃]
  rfl

/-- A setup request is handled by building the counters, sending the request on, and recording
the procedure. -/
theorem handleE2SetupReq_ok {w : World} (message : ReportingMessages) {cu : ConnectedCU}
    (hc : w.heap.get message.peerInfo = some cu) (m : SctpMsg) (tid : Int) :
    ∃ w', handleE2SetupReq message m tid w = .ok () { w' with
        connectionHandlingPerE2NodeMap := E2NodeMap.insertE2SetupProcedureOngoing
          w'.connectionHandlingPerE2NodeMap message.enodbName.str tid } ∧
      Touches message.enodbName.str noStatus (Announcement message.enodbName.str)
        { w with heap := w.heap.set message.peerInfo (cu.accept m) } w' := by
  rw [handleE2SetupReq_eq message hc m tid]
  exact forwardSetup_ok (w := { w with heap := w.heap.set message.peerInfo (cu.accept m) })
    (get_set_self hc (cu.accept m)) m tid

theorem e2setup_ok {w : World} (message : ReportingMessages) {cu : ConnectedCU} {s : SetupScan}
    (hc : w.heap.get message.peerInfo = some cu) (m : SctpMsg)
    {ies : List (ProtocolIE E2setupRequestIEs)} (hs : scanSetup message.enodbName ies = some s) :
    ∃ w', e2setup message m ies w = .ok () w' ∧ SetUp message.peerInfo cu s w w' ∧
      ∃ out, w'.outbox = w.outbox ++ out ∧ ∀ o ∈ out, Announcement s.message.str o := by
  have hget := register_get hc s.peer s.keys
  unfold e2setup
  rw [bind_of_ok (collectSetupRequestData_eq hc hs)]
  dsimp only
  by_cases hacc : s.accepted
  · rw [if_neg (Int.not_lt.mpr hacc)]
    obtain ⟨w', hrun, ht⟩ := handleE2SetupReq_ok
      (w := w.register message.peerInfo cu s.peer s.keys)
      { message with enodbName := s.message } hget m s.transactionId
    refine ⟨_, hrun, ?_, ht.sent⟩
    have hset := get_set_self hget (ConnectedCU.accept { cu with enodbName := s.peer } m)
    exact {
      params := ht.params
      next := by
        show w'.heap.next = _
        rw [ht.heap]
        rfl
      others := fun i hi => by
        show w'.heap.get i = _
        rw [ht.heap]
        show ((w.heap.set _ _).set _ _).get i = _
        rw [CellHeap.set_set, CellHeap.get_set _ _ _ _ hc, if_neg hi]
      peer := by
        refine ⟨_, (congrArg (·.get message.peerInfo) ht.heap).trans hset,
          ConnectedCU.accept_enodbName { cu with enodbName := s.peer } m,
          ConnectedCU.accept_isConnected { cu with enodbName := s.peer } m,
          fun _ => ConnectedCU.built_accept _ m, fun h => (h hacc).elim⟩
      fds := ht.fds
      sctpMap := ht.sctpMap
      procedures := fun k => by
        have hl : ∀ k, w'.connectionHandlingPerE2NodeMap.lookup k =
          w.connectionHandlingPerE2NodeMap.lookup k := ht.lookup_eq
        rw [if_pos hacc]
        simp only [E2NodeMap.lookup_insertE2SetupProcedureOngoing, hl]
      sent := by
        obtain ⟨out, hout, hall⟩ := ht.sent
        exact ⟨out, hout, fun o ho => ⟨hacc, rmrTo_of_announcement (hall o ho)⟩⟩ }
  · rw [if_pos (Int.not_le.mp hacc)]
    refine ⟨_, rfl, ?_, [], by simp [World.register], by simp⟩
    exact {
      params := rfl
      next := rfl
      others := fun i hi => by
        show (w.heap.set _ _).get i = _
        rw [CellHeap.get_set _ _ _ _ hc, if_neg hi]
      peer := ⟨_, hget, rfl, rfl, fun h => (hacc h).elim, fun _ => rfl⟩
      fds := rfl
      sctpMap := rfl
      procedures := fun k => by
        rw [if_neg hacc]
        rfl
      sent := ⟨[], by simp [World.register], by simp⟩ }

end E2Term
