import E2Term.RanName

/-!
# Counters

The Prometheus counters a handler increments. A slot of `counters` is a pointer: `none` before
`buildPrometheusList` fills it, afterwards the label of a counter of the registry. Counters of one
label are one counter, so a node that sets up again goes on with the counters it had.
-/

namespace E2Term

/-- The first index of `counters` and `e2tCounters`. -/
inductive Direction where
  | inIniti
  | inSucc
  | inUnSucc
  | outIniti
  | outSucc
  | outUnSucc
  deriving DecidableEq, Repr

/-- The second index. -/
inductive CounterKind where
  | msgCounter
  | bytesCounter
  deriving DecidableEq, Repr

/-- `E2T_Internal_Counters`. -/
inductive E2TInternalCounters where
  | sctpAbortInitiatedByE2Node
  | invalidMessageReceived
  deriving DecidableEq, Repr

/-- The label the node counters carry beside the node's name. -/
inductive Side where
  | IN
  | OUT
  deriving DecidableEq, Repr

/-- The labels of the registry's counters: of a node, of the instance, of a node's internal
counters. -/
inductive Label where
  | node (enodbName : Name) (side : Side) (title : String) (kind : CounterKind)
  | e2t (title : String) (kind : CounterKind)
  | internal (enodbName : Name) (title : String)
  deriving DecidableEq, Repr

/-- The pointers `counters` and `e2tCounters`. -/
abbrev CounterSlots := Direction → CounterKind → ProcedureCode → Option Label

/-- The rows of `buildPrometheusList`. -/
def prometheusList : Direction → CounterKind → ProcedureCode → Option (Side × String)
  | .inIniti, _, .e2setup => some (.IN, "SetupRequest")
  | .inIniti, _, .e2nodeConfigurationUpdate => some (.IN, "E2NodeConfigUpdate")
  | .inIniti, _, .errorIndication => some (.IN, "ErrorIndication")
  | .inIniti, _, .ricIndication => some (.IN, "RICindication")
  | .inIniti, _, .reset => some (.IN, "ResetRequest")
  | .inIniti, _, .ricServiceUpdate => some (.IN, "RICserviceUpdate")
  | .inSucc, _, .reset => some (.IN, "ResetACK")
  | .inSucc, _, .ricControl => some (.IN, "RICcontrolACK")
  | .inSucc, _, .ricSubscription => some (.IN, "RICsubscriptionACK")
  | .inSucc, _, .ricSubscriptionDelete => some (.IN, "RICsubscriptionDeleteACK")
  | .inUnSucc, _, .ricControl => some (.IN, "RICcontrolFailure")
  | .inUnSucc, _, .ricSubscription => some (.IN, "RICsubscriptionFailure")
  | .inUnSucc, _, .ricSubscriptionDelete => some (.IN, "RICsubscriptionDeleteFailure")
  | .outIniti, _, .errorIndication => some (.OUT, "ErrorIndication")
  | .outIniti, _, .reset => some (.OUT, "ResetRequest")
  | .outIniti, _, .ricControl => some (.OUT, "RICcontrol")
  | .outIniti, _, .ricServiceQuery => some (.OUT, "RICserviceQuery")
  | .outIniti, _, .ricSubscription => some (.OUT, "RICsubscription")
  | .outIniti, _, .ricSubscriptionDelete => some (.OUT, "RICsubscriptionDelete")
  | .outSucc, _, .e2setup => some (.OUT, "SetupResponse")
  | .outSucc, _, .e2nodeConfigurationUpdate => some (.OUT, "E2NodeConfigUpdateSuccess")
  | .outSucc, _, .reset => some (.OUT, "ResetACK")
  | .outSucc, _, .ricServiceUpdate => some (.OUT, "RICserviceUpdateResponse")
  | .outUnSucc, _, .e2setup => some (.OUT, "SetupRequestFailure")
  | .outUnSucc, _, .e2nodeConfigurationUpdate => some (.OUT, "E2NodeConfigUpdateFailure")
  | .outUnSucc, _, .ricServiceUpdate => some (.OUT, "RICserviceUpdateFailure")
  | .inIniti, _, .ricSubscriptionDeleteRequired => some (.IN, "RICsubscriptionDeleteRequired")
  | .inSucc, .msgCounter, .e2connectionUpdate => some (.OUT, "UnsupportedE2ConnectionUpdateAck")
  | .inUnSucc, .msgCounter, .e2connectionUpdate =>
    some (.OUT, "UnsupportedE2ConnectionUpdateFail")
  | _, _, _ => none

/-- `buildPrometheusList`: the slots it has rows for are filled, the others stay. -/
def buildPrometheusList (enodbName : Name) (counters : CounterSlots) : CounterSlots :=
  fun direction kind procedure =>
    match prometheusList direction kind procedure with
    | some (side, title) => some (.node enodbName side title kind)
    | none => counters direction kind procedure

/-- `buildInternalCounterPrometheusList`. -/
def buildInternalCounterPrometheusList (enodbName : Name) : E2TInternalCounters → Option Label
  | .sctpAbortInitiatedByE2Node => some (.internal enodbName "SctpAbortInitiatedByE2Node")
  | .invalidMessageReceived => some (.internal enodbName "InvalidMessageReceived")

/-- The titles of `buildE2TPrometheusCounters`. -/
def e2tTitle : Direction → ProcedureCode → Option String
  | .inIniti, .e2setup => some "SetupRequest"
  | .outSucc, .e2setup => some "SetupResponse"
  | .outUnSucc, .e2setup => some "SetupRequestFailure"
  | .inIniti, .e2nodeConfigurationUpdate => some "E2NodeConfigUpdate"
  | .outSucc, .e2nodeConfigurationUpdate => some "E2NodeConfigUpdateResponse"
  | .outUnSucc, .e2nodeConfigurationUpdate => some "E2NodeConfigUpdateFailure"
  | .inIniti, .errorIndication => some "ErrorIndication"
  | .inIniti, .reset => some "ResetRequest"
  | .outSucc, .reset => some "ResetAck"
  | .inIniti, .ricServiceUpdate => some "RICServiceUpdate"
  | .outSucc, .ricServiceUpdate => some "RICServiceUpdateResp"
  | .outUnSucc, .ricServiceUpdate => some "RICServiceUpdateFailure"
  | .outIniti, .ricControl => some "RICControl"
  | .inSucc, .ricControl => some "RICControlAck"
  | .inUnSucc, .ricControl => some "RICControlFailure"
  | .outIniti, .ricSubscription => some "RICSubscription"
  | .inSucc, .ricSubscription => some "RICSubscriptionAck"
  | .inUnSucc, .ricSubscription => some "RICSubscriptionFailure"
  | .outIniti, .ricSubscriptionDelete => some "RICSubscriptionDelete"
  | .inSucc, .ricSubscriptionDelete => some "RICSubscriptionDeleteAck"
  | .inUnSucc, .ricSubscriptionDelete => some "RICSubscriptionDeleteFail"
  | .inIniti, .ricIndication => some "RICIndication"
  | .outIniti, .ricServiceQuery => some "RICServiceQuery"
  | .inIniti, .ricSubscriptionDeleteRequired => some "RICSubscriptionDeleteRequired"
  | _, _ => none

/-- `sctpParams->e2tCounters` after `buildE2TPrometheusCounters`, which `main` runs before the
listener starts. -/
def e2tCounters : CounterSlots :=
  fun direction kind procedure => (e2tTitle direction procedure).map fun title => .e2t title kind

end E2Term
