import AnchorStateMachine.Bridge.Types

/-! What subprotocols exchange while a block is processed: messages to each other, delivered once all
of them have processed their transactions, and logs for the block's manifest. -/

namespace Asm

structure PredicateKey where
  typeId : Nat
  condition : Bytes
  deriving DecidableEq

structure OLBlockCommitment where
  slot : Nat
  blkid : Buf32
  deriving DecidableEq

structure CheckpointTip where
  epoch : Nat
  l1Height : Nat
  l2Commitment : OLBlockCommitment
  deriving DecidableEq

inductive CheckpointIncomingMsg
  | updateSequencerKey (key : Buf32)
  | updateCheckpointPredicate (predicate : PredicateKey)
  | depositProcessed (amt : Nat)
  deriving DecidableEq

inductive AsmLogEntry
  | deposit (destination : Bytes) (amount : Nat)
  | checkpointTipUpdate (tip : CheckpointTip)
  | checkpointPredicateEnacted (newPredicate : PredicateKey)
  | asmStfUpdate (newPredicate : PredicateKey)
  | eePredicateKeyUpdate (accountSerial : Nat) (newPredicate : PredicateKey)
  | newExportEntry (containerId : Nat) (entryData : Buf32)
  | exportExtraDataUpdate (containerId : Nat) (extraData : Nat)
  deriving DecidableEq

def asmStfUpdates (logs : List AsmLogEntry) : List PredicateKey :=
  logs.filterMap fun
    | .asmStfUpdate newPredicate => some newPredicate
    | _ => none

def extractNextPredicateFromLogs (logs : List AsmLogEntry) : Option PredicateKey :=
  logs.findSome? fun
    | .asmStfUpdate newPredicate => some newPredicate
    | _ => none

/-- The scan stops at the first update. -/
theorem extractNextPredicateFromLogs_eq (logs : List AsmLogEntry) :
    extractNextPredicateFromLogs logs = (asmStfUpdates logs).head? :=
  List.head?_filterMap.symm

theorem asmStfUpdates_append (logs more : List AsmLogEntry) :
    asmStfUpdates (logs ++ more) = asmStfUpdates logs ++ asmStfUpdates more :=
  List.filterMap_append

def adminSubprotocolId : Nat := 0
def checkpointSubprotocolId : Nat := 1
def bridgeSubprotocolId : Nat := 2

inductive InterprotoMsg
  | checkpoint (msg : CheckpointIncomingMsg)
  | bridge (msg : BridgeIncomingMsg)
  deriving DecidableEq

def InterprotoMsg.id : InterprotoMsg → Nat
  | .checkpoint _ => checkpointSubprotocolId
  | .bridge _ => bridgeSubprotocolId

/-- The messages and logs a subprotocol has emitted so far, oldest first. -/
structure MsgRelayer where
  msgs : List InterprotoMsg
  logs : List AsmLogEntry
  deriving DecidableEq

namespace MsgRelayer

def new : MsgRelayer := ⟨[], []⟩

def relayMsg (relayer : MsgRelayer) (msg : InterprotoMsg) : MsgRelayer :=
  { relayer with msgs := relayer.msgs ++ [msg] }

def emitLog (relayer : MsgRelayer) (log : AsmLogEntry) : MsgRelayer :=
  { relayer with logs := relayer.logs ++ [log] }

@[simp] theorem relayMsg_msgs (relayer : MsgRelayer) (msg : InterprotoMsg) :
    (relayer.relayMsg msg).msgs = relayer.msgs ++ [msg] := rfl

@[simp] theorem relayMsg_logs (relayer : MsgRelayer) (msg : InterprotoMsg) :
    (relayer.relayMsg msg).logs = relayer.logs := rfl

@[simp] theorem emitLog_msgs (relayer : MsgRelayer) (log : AsmLogEntry) :
    (relayer.emitLog log).msgs = relayer.msgs := rfl

@[simp] theorem emitLog_logs (relayer : MsgRelayer) (log : AsmLogEntry) :
    (relayer.emitLog log).logs = relayer.logs ++ [log] := rfl

end MsgRelayer

/-! ### Inboxes -/

def checkpointMsgs (msgs : List InterprotoMsg) : List CheckpointIncomingMsg :=
  msgs.filterMap fun
    | .checkpoint msg => some msg
    | .bridge _ => none

def bridgeMsgs (msgs : List InterprotoMsg) : List BridgeIncomingMsg :=
  msgs.filterMap fun
    | .checkpoint _ => none
    | .bridge msg => some msg

@[simp] theorem checkpointMsgs_append (msgs more : List InterprotoMsg) :
    checkpointMsgs (msgs ++ more) = checkpointMsgs msgs ++ checkpointMsgs more :=
  List.filterMap_append

@[simp] theorem bridgeMsgs_append (msgs more : List InterprotoMsg) :
    bridgeMsgs (msgs ++ more) = bridgeMsgs msgs ++ bridgeMsgs more :=
  List.filterMap_append

def predicateUpdates (msgs : List CheckpointIncomingMsg) : List PredicateKey :=
  msgs.filterMap fun
    | .updateCheckpointPredicate predicate => some predicate
    | _ => none

theorem predicateUpdates_cons (msg : CheckpointIncomingMsg) (msgs : List CheckpointIncomingMsg) :
    predicateUpdates (msg :: msgs) = predicateUpdates [msg] ++ predicateUpdates msgs :=
  List.filterMap_append (l := [msg])

theorem mem_predicateUpdates_nil {msgs : List CheckpointIncomingMsg} {msg : CheckpointIncomingMsg}
    (none : predicateUpdates msgs = []) (mem : msg ∈ msgs) : predicateUpdates [msg] = [] := by
  have skipped := List.filterMap_eq_nil_iff.mp none msg mem
  exact List.filterMap_eq_nil_iff.mpr fun other isMsg => by rwa [List.mem_singleton.mp isMsg]

end Asm
