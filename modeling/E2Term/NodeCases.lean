import E2Term.Downlink

/-!
# The cases of a message for a node

The thirteen cases of a message for a node differ in their payload, the counters they take, and the
statuses they record before and after the message is sent. `nodeCase` lists that; what a case does
is then said once.
-/

namespace E2Term

open CString

/-- A case of `receiveXappMessages` for a node. `xml` is set when the payload is converted,
`guarded` when the counters are taken only where they are built. -/
structure NodeCase where
  xml : Bool
  guarded : Bool
  direction : Direction
  e2tDirection : Direction
  procedure : ProcedureCode
  before : Option E2TProcedureStates
  after : Option E2TProcedureStates

/-- The cases of the types that are addressed to a node. -/
def nodeCase : MsgType → Option NodeCase
  | .ricE2SetupResp =>
    some ⟨true, true, .outSucc, .outSucc, .e2setup, none, some .e2SetupProcedureCompleted⟩
  | .ricE2SetupFailure =>
    some ⟨true, true, .outUnSucc, .outUnSucc, .e2setup, none, some .e2SetupProcedureCompleted⟩
  | .ricE2NodeConfigUpdateAck =>
    some ⟨true, false, .outSucc, .outSucc, .e2nodeConfigurationUpdate, none, none⟩
  | .ricE2NodeConfigUpdateFailure =>
    some ⟨true, false, .outUnSucc, .outUnSucc, .e2nodeConfigurationUpdate, none, none⟩
  | .ricErrorIndication => some ⟨false, false, .outIniti, .inIniti, .errorIndication, none, none⟩
  | .ricSubReq =>
    some ⟨false, false, .outIniti, .outIniti, .ricSubscription, some .e2SetupProcedureCompleted,
      some .ricSubsProcedureOngoing⟩
  | .ricSubDelReq =>
    some ⟨false, false, .outIniti, .outIniti, .ricSubscriptionDelete,
      some .e2SetupProcedureCompleted, some .ricSubsDelProcedureOngoing⟩
  | .ricControlReq =>
    some ⟨false, false, .outIniti, .outIniti, .ricControl, some .e2SetupProcedureCompleted,
      some .controlProcedureOngoing⟩
  | .ricServiceQuery =>
    some ⟨true, false, .outIniti, .outIniti, .ricServiceQuery, none,
      some .ricServiceUpdateProcedureOngoing⟩
  | .ricServiceUpdateAck => some ⟨true, false, .outSucc, .outSucc, .ricServiceUpdate, none, none⟩
  | .ricServiceUpdateFailure =>
    some ⟨true, false, .outUnSucc, .outUnSucc, .ricServiceUpdate, none, none⟩
  | .ricE2ResetReq => some ⟨true, false, .outIniti, .inIniti, .reset, none, none⟩
  | .ricE2ResetResp => some ⟨true, false, .outSucc, .outSucc, .reset, none, none⟩
  | _ => none

/-- The bytes for the node. -/
def NodeCase.data (k : NodeCase) (m : RmrMsg) : Option (List UInt8) :=
  if k.xml then perFromXML m else some m.payload

/-- The counters of the message. -/
def NodeCase.count (k : NodeCase) (c : ConnId) (len : Nat) : M Unit :=
  if k.guarded then countSetupOutcome c k.direction len
  else countMessage c k.direction k.e2tDirection k.procedure len

/-- The slots that are taken without a check are filled. -/
def NodeCase.Ready (k : NodeCase) (cu : ConnectedCU) : Prop :=
  k.guarded = true ∨ ∀ kind, (cu.counters k.direction kind k.procedure).isSome

/-- A status that is recorded, if any. -/
def record (n : Name) : Option E2TProcedureStates → M Unit
  | none => pure ()
  | some s => setE2ProcedureOngoingStatus n s

/-- The procedure map after that. -/
def recorded (n : Name) (map : E2NodeMap) : Option E2TProcedureStates → E2NodeMap
  | none => map
  | some s => E2NodeMap.setE2ProcedureOngoingStatus map n s

theorem record_eq (n : Name) (s : Option E2TProcedureStates) (w : World) :
    record n s w = .ok () { w with
      connectionHandlingPerE2NodeMap := recorded n w.connectionHandlingPerE2NodeMap s } := by
  cases s <;> rfl

/-- A case, in terms of what is listed for it. -/
def NodeCase.handle (k : NodeCase) (c : ConnId) (m : RmrMsg) : M Int := do
  record m.meid k.before
  match k.data m with
  | none => return 0
  | some data => countAndSend c m (k.count c) (record m.meid k.after) data

theorem sendToNode_eq {m : RmrMsg} {k : NodeCase} (hk : nodeCase m.mtype = some k) (c : ConnId) :
    sendToNode c m = k.handle c m := by
  unfold sendToNode
  cases hm : m.mtype <;> rw [hm] at hk <;> cases hk <;> rfl

/-- No other message is sent to a node. -/
theorem sendToNode_unlisted {m : RmrMsg} (hk : nodeCase m.mtype = none) (c : ConnId) :
    sendToNode c m = pure (-7) := by
  unfold sendToNode
  cases hm : m.mtype <;> rw [hm] at hk <;> cases hk

/-- The counters of the instance are there in every case. -/
theorem e2tCounters_isSome {mtype : MsgType} {k : NodeCase} (hk : nodeCase mtype = some k)
    (kind : CounterKind) :
    k.guarded = true ∨ (e2tCounters k.e2tDirection kind k.procedure).isSome := by
  cases mtype <;> cases hk <;> cases kind <;> decide

end E2Term
