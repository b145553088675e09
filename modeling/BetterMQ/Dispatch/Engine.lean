import Mathlib.Data.List.MinMax
import Mathlib.Data.Prod.Lex
import BetterMQ.Journal.Stores
import BetterMQ.Dispatch.Serial
import BetterMQ.Dispatch.Backfill

/-!
# The stores and lanes of the dispatch engine (`broker-dispatch/src/worker.rs`, `flow_control.rs`)

The durable retry records and dead-letter transitions of a node, and the flow lanes in which its
messages wait.
-/

namespace BetterMQ

/-! ## Stores -/

/-- The fields of a retry record besides its key and its last error. -/
structure RetryRest where
  cursorKey : String
  attempts : Nat
  dueAtMs : Int
  deriving DecidableEq

abbrev RetryEntry := RetryRecord RetryRest

namespace RetryState

section

variable (records : List RetryEntry)

def schedule (record : RetryEntry) : List RetryEntry :=
  record :: records.filter fun r => r.key ≠ record.key

def clear (key : RetryKey) : List RetryEntry :=
  records.filter fun r => r.key ≠ key

end

end RetryState

inductive DlqPhase where
  | prepared
  | dlqCommitted
  deriving DecidableEq

/-- `DlqTransition`; its other fields are read by nobody here. -/
structure DlqTransition where
  source : RetryKey
  phase : DlqPhase
  deriving DecidableEq

namespace Lifecycle

section

variable (transitions : List DlqTransition)

/-- `prepare`: a transition that is `DlqCommitted` stays so. -/
def prepare (t : DlqTransition) : List DlqTransition :=
  let phase := if ⟨t.source, .dlqCommitted⟩ ∈ transitions then .dlqCommitted else t.phase
  ⟨t.source, phase⟩ :: transitions.filter fun u => u.source ≠ t.source

def markDlqCommitted (source : RetryKey) : List DlqTransition :=
  if transitions.any fun u => u.source = source then prepare transitions ⟨source, .dlqCommitted⟩
  else transitions

def clear (source : RetryKey) : List DlqTransition :=
  transitions.filter fun u => u.source ≠ source

end

end Lifecycle

/-! ## Flow lanes -/

structure FlowKey where
  endpointId : Uuid
  flowKey : String
  deriving DecidableEq

/-- `ResolvedFlow`; rates only delay a lane. -/
structure ResolvedFlow where
  key : String
  parallelism : UInt32
  deriving DecidableEq

def ResolvedFlow.forDelivery (msg : StoredMessage) : ResolvedFlow :=
  if !deliveryUsesFlowControl msg then ⟨msg.routingKey, 4⟩
  else if msg.flowParallelism.isSome || msg.flowRate.isSome || msg.flowKey.isSome then
    ⟨msg.flowKey.getD msg.routingKey, max (msg.flowParallelism.getD 4) 1⟩
  else ⟨msg.routingKey, 1⟩

structure OrderedWork where
  msg : StoredMessage
  seq : Nat
  deriving DecidableEq

namespace OrderedWork

-- the order that evaluates: Mathlib's conditionally complete one does not
local instance : Preorder Int := Int.instLinearOrder.toPreorder

def fifoOrder (w : OrderedWork) : Int ×ₗ Nat ×ₗ Nat ×ₗ Nat :=
  toLex (w.msg.publishedAtMs.toInt, toLex (w.msg.partition.toNat, toLex (w.msg.offset, w.seq)))

/-- `priority_order`, turned round: its last element is the least here. -/
def priorityOrder (w : OrderedWork) : Int ×ₗ Nat ×ₗ Nat :=
  toLex (-(w.msg.priority.toNat : Int), toLex (w.msg.offset, w.seq))

def pop (strictFifo : Bool) (waitlist : List OrderedWork) : Option OrderedWork :=
  if strictFifo then waitlist.argmin fifoOrder else waitlist.argmin priorityOrder

end OrderedWork

/-! ## A message -/

/-- A record for a destination, with a flow limit. -/
def hookItem (limit : UInt32) : Item :=
  ({ LogRecordLegacy.upgrade ⟨1, "default", "orders", "k", none, 0⟩ with
      queueId := some 7, destinationUrl := some "http://hook", destinationSecret := some "secret",
      flowParallelism := some limit, maxRetries := 0 }, [])

def hookMessage (limit : UInt32) : StoredMessage := Tenants.message 0 (0, hookItem limit)

end BetterMQ
