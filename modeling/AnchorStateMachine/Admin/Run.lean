import AnchorStateMachine.Admin.Delay
import AnchorStateMachine.Admin.Message

/-! Runs of administration over consecutive blocks, and the history of what they do with payloads and
updates. -/

namespace Asm
open Outcome

inductive AdminEvent
  /-- A queued update is handed to `handle_update`, before any transaction of its block. -/
  | drained (update : QueuedUpdate)
  | verified (envelope : EnvelopePayload) (payload : SignedPayload)
  | accepted (id : Nat) (update : UpdateAction)
  /-- An update is handed to `handle_update` by the transaction that carries it. -/
  | applied (id : Nat) (update : UpdateAction)
  | cancelled (id : Nat)
  deriving DecidableEq

/-! ### What one action does -/

section

variable [AdminLibs]

/-- The payload that `handle_action` finds properly signed, if it does. -/
def verifiedPayload (state : AdministrationSubprotoState) (envelope : EnvelopePayload)
    (network : Network) : Option SignedPayload := do
  let payload ← (envelope.resolve fun id => (state.findQueued id).map QueuedUpdate.action).toOption
  let authority ← state.authority payload.action.requiredRole
  match authority.verifyActionSignature payload state.maxSeqnoGap network with
  | .ok (.ok _) => some payload
  | _ => none

def acceptedEvents (state : AdministrationSubprotoState) : MultisigAction → List AdminEvent
  | .cancel targetId _ => [.cancelled targetId]
  | .update update =>
    .accepted state.nextUpdateId update ::
      if (state.confirmationDepth update.updateTxType).isNone then [.applied state.nextUpdateId update]
      else []

def actionEvents (context : ActionContext) (envelope : EnvelopePayload) (height : Nat)
    (network : Network) : List AdminEvent :=
  match verifiedPayload context.state envelope network with
  | none => []
  | some payload =>
    .verified envelope payload ::
      match handleAction context envelope height network with
      | .ok (.ok (), _) => acceptedEvents context.state payload.action
      | _ => []

theorem verifiedPayload_eq {state : AdministrationSubprotoState} {envelope : EnvelopePayload}
    {network : Network} {payload : SignedPayload} {authority : MultisigAuthority}
    (verified : Verified state envelope network payload authority) :
    verifiedPayload state envelope network = some payload := by
  simp [verifiedPayload, verified.resolved, verified.authorized, verified.signed, Except.toOption]

theorem verifiedPayload_some {state : AdministrationSubprotoState} {envelope : EnvelopePayload}
    {network : Network} {payload : SignedPayload}
    (h : verifiedPayload state envelope network = some payload) :
    ∃ authority, Verified state envelope network payload authority := by
  simp only [verifiedPayload, Option.bind_eq_bind, Option.bind_eq_some_iff] at h
  obtain ⟨resolved, isResolved, authority, authorized, h⟩ := h
  split at h
  · rename_i seqno signed
    cases h
    obtain ⟨rfl, -⟩ := verifyActionSignature_ok signed
    exact ⟨authority, toOption_some isResolved, authorized, signed⟩
  · cases h

theorem Verified.target {state : AdministrationSubprotoState} {envelope : EnvelopePayload}
    {network : Network} {payload : SignedPayload} {authority : MultisigAuthority} {targetId : Nat}
    {target : UpdateAction} (verified : Verified state envelope network payload authority)
    (isCancel : payload.action = .cancel targetId target) :
    envelope.action = .cancel targetId ∧
      ∃ queued, state.findQueued targetId = some queued ∧ queued.action = target := by
  have resolved := verified.resolved
  unfold EnvelopePayload.resolve at resolved
  split at resolved
  · rename_i named
    split at resolved
    · cases resolved
    · rename_i update found
      cases resolved
      cases isCancel
      obtain ⟨queued, isQueued, isAction⟩ := Option.map_eq_some_iff.mp found
      exact ⟨named, queued, isQueued, isAction⟩
  · cases resolved
    cases isCancel

theorem Verified.update {state : AdministrationSubprotoState} {envelope : EnvelopePayload}
    {network : Network} {payload : SignedPayload} {authority : MultisigAuthority} {update : UpdateAction}
    (verified : Verified state envelope network payload authority)
    (isUpdate : payload.action = .update update) : envelope.action = .update update := by
  have resolved := verified.resolved
  unfold EnvelopePayload.resolve at resolved
  split at resolved
  · split at resolved
    · cases resolved
    · cases resolved
      cases isUpdate
  · rename_i named
    cases resolved
    cases isUpdate
    exact named

theorem Verified.seqno {state : AdministrationSubprotoState} {envelope : EnvelopePayload}
    {network : Network} {payload : SignedPayload} {authority : MultisigAuthority}
    (verified : Verified state envelope network payload authority) : payload.seqno = envelope.seqno := by
  have resolved := verified.resolved
  unfold EnvelopePayload.resolve at resolved
  split at resolved
  · split at resolved <;> cases resolved
    rfl
  · cases resolved
    rfl

/-- What one action does to the state, together with its events. -/
inductive Traced (context : ActionContext) (envelope : EnvelopePayload) (height : Nat)
    (network : Network) : List AdminEvent → ActionContext → Prop
  | unverified : Traced context envelope height network [] context
  | cancelled {payload : SignedPayload} {authority : MultisigAuthority} {targetId : Nat}
      {target : UpdateAction} (verified : Verified context.state envelope network payload authority)
      (isCancel : payload.action = .cancel targetId target) :
      Traced context envelope height network [.verified envelope payload, .cancelled targetId]
        { context with state := (context.state.burn payload authority).removeQueued targetId }
  | rejected {payload : SignedPayload} {authority : MultisigAuthority} {update : UpdateAction}
      (guard : BlockUpdateGuard) (verified : Verified context.state envelope network payload authority)
      (isUpdate : payload.action = .update update) :
      Traced context envelope height network [.verified envelope payload]
        { context with state := context.state.burn payload authority, guard }
  | queued {payload : SignedPayload} {authority : MultisigAuthority} {update : UpdateAction}
      {delay : Nat} (guard : BlockUpdateGuard)
      (verified : Verified context.state envelope network payload authority)
      (isUpdate : payload.action = .update update)
      (waits : context.state.confirmationDepth update.updateTxType = some delay) :
      Traced context envelope height network
        [.verified envelope payload, .accepted context.state.nextUpdateId update]
        { context with
          guard
          state := { (context.state.burn payload authority).enqueue
            ⟨context.state.nextUpdateId, update, height + delay⟩ with
            nextUpdateId := context.state.nextUpdateId + 1 } }
  | applied {payload : SignedPayload} {authority : MultisigAuthority} {update : UpdateAction}
      {state : AdministrationSubprotoState} {relayer : MsgRelayer} (guard : BlockUpdateGuard)
      (verified : Verified context.state envelope network payload authority)
      (isUpdate : payload.action = .update update)
      (immediate : context.state.confirmationDepth update.updateTxType = none)
      (enacted : enactUpdate (context.state.burn payload authority) context.relayer update =
        (state, relayer)) :
      Traced context envelope height network
        [.verified envelope payload, .accepted context.state.nextUpdateId update,
          .applied context.state.nextUpdateId update]
        ⟨{ state with nextUpdateId := state.nextUpdateId + 1 }, guard, relayer⟩

theorem handleAction_traced {context after : ActionContext} {envelope : EnvelopePayload} {height : Nat}
    {network : Network} {outcome : Except AdministrationError Unit}
    (h : handleAction context envelope height network = .ok (outcome, after)) :
    Traced context envelope height network (actionEvents context envelope height network) after := by
  simp only [actionEvents, h]
  cases handleAction_ok h with
  | unverified error fails =>
    cases found : verifiedPayload context.state envelope network with
    | none => exact .unverified
    | some payload =>
      obtain ⟨authority, verified⟩ := verifiedPayload_some found
      exact absurd verified (fails payload authority)
  | cancelled verified isCancel =>
    rw [verifiedPayload_eq verified]
    simp only [isCancel, acceptedEvents]
    exact .cancelled verified isCancel
  | offered verified isUpdate offers =>
    rw [verifiedPayload_eq verified]
    cases offers with
    | limited error => exact .rejected _ verified isUpdate
    | overflown error admitted => exact .rejected _ verified isUpdate
    | queued admitted waits =>
      have waits' : context.state.confirmationDepth _ = some _ := waits
      simp only [isUpdate, acceptedEvents, waits', Option.isNone_some, Bool.false_eq_true, if_false]
      exact .queued _ verified isUpdate waits
    | applied admitted immediate enacted =>
      have immediate' : context.state.confirmationDepth _ = none := immediate
      simp only [isUpdate, acceptedEvents, immediate', Option.isNone_none, if_true]
      exact .applied _ verified isUpdate immediate enacted

end

/-! ### Runs -/

namespace Admin

structure Tip where
  height : Nat
  state : AdministrationSubprotoState
  deriving DecidableEq

section

variable [AdminLibs] (network : Network)

def processBlock (tip : Tip) (txs : List TxInput) : Exec Tip := do
  let (state, _) ← processTxs tip.state txs (tip.height + 1) network .new
  pure ⟨tip.height + 1, state⟩

def openBlock (state : AdministrationSubprotoState) (height : Nat) : ActionContext :=
  ⟨(handlePendingUpdates state .new height).1, ⟨[]⟩, (handlePendingUpdates state .new height).2⟩

/-- What has been done up to one of the block's transactions. -/
def processPart (tip : Tip) (txs : List TxInput) : Exec ActionContext :=
  txs.foldlM (processTx (tip.height + 1) network) (openBlock tip.state (tip.height + 1))

def drainEvents (tip : Tip) : List AdminEvent :=
  (tip.state.processQueued (tip.height + 1)).1.map .drained

def txEvents (height : Nat) (visit : Visit ActionContext TxInput) : List AdminEvent :=
  match parseTx visit.input with
  | none => []
  | some envelope => actionEvents visit.pre envelope height network

def blockEvents (tip : Tip) (txs : List TxInput) : List AdminEvent :=
  drainEvents tip ++
    (visits (processTx (tip.height + 1) network) (openBlock tip.state (tip.height + 1)) txs).flatMap
      (txEvents network (tip.height + 1))

def history (tip : Tip) (blocks : List (List TxInput)) : List (Nat × AdminEvent) :=
  (visits (processBlock network) tip blocks).flatMap fun visit =>
    (blockEvents network visit.pre visit.input).map (visit.post.height, ·)

variable {network}

theorem processBlock_ok {tip next : Tip} {txs : List TxInput}
    (h : processBlock network tip txs = .ok next) :
    ∃ context, processPart network tip txs = .ok context ∧ next = ⟨tip.height + 1, context.state⟩ := by
  obtain ⟨_, returned, h⟩ := bind_ok h
  cases pure_ok h
  obtain ⟨context, processed, returned⟩ := bind_ok returned
  cases pure_ok returned
  exact ⟨context, processed, rfl⟩

theorem processTx_traced {height : Nat} {context after : ActionContext} {tx : TxInput}
    (h : processTx height network context tx = .ok after) :
    (txEvents network height ⟨context, tx, after⟩ = [] ∧ after = context) ∨
    ∃ envelope, Traced context envelope height network
      (txEvents network height ⟨context, tx, after⟩) after := by
  unfold processTx at h
  unfold txEvents
  split at h
  · rename_i skipped
    cases pure_ok h
    exact .inl ⟨by simp only [skipped], rfl⟩
  · rename_i envelope parsed
    obtain ⟨_, handled, h⟩ := bind_ok h
    cases pure_ok h
    simp only [parsed]
    exact .inr ⟨envelope, handleAction_traced handled⟩

end

/-! ### Invariants of runs -/

/-- An invariant of the events so far, the height and the state, kept by the drain that opens a
block and by every action. -/
structure Keeps [AdminLibs] (network : Network)
    (inv : List (Nat × AdminEvent) → Nat → AdministrationSubprotoState → Prop) : Prop where
  drain : ∀ past tip, inv past tip.height tip.state →
    inv (past ++ (drainEvents tip).map (tip.height + 1, ·)) (tip.height + 1)
      (openBlock tip.state (tip.height + 1)).state
  action : ∀ past height context envelope events after, inv past height context.state →
    Traced context envelope height network events after →
    inv (past ++ events.map (height, ·)) height after.state

namespace Keeps

variable [AdminLibs] {network : Network}
  {inv : List (Nat × AdminEvent) → Nat → AdministrationSubprotoState → Prop}
  {past : List (Nat × AdminEvent)} {tip : Tip}

theorem part (keeps : Keeps network inv) (start : inv past tip.height tip.state) {txs : List TxInput}
    {context : ActionContext} (ran : processPart network tip txs = .ok context) :
    inv (past ++ (blockEvents network tip txs).map (tip.height + 1, ·))
      (tip.height + 1) context.state := by
  have held := foldlM_history (fun visited context =>
    inv (past ++ (drainEvents tip).map (tip.height + 1, ·) ++
      (visited.flatMap (txEvents network (tip.height + 1))).map (tip.height + 1, ·))
      (tip.height + 1) context.state) [] ?_ ?_ ran
  · simpa [blockEvents] using held
  · intro tx _ visited before after kept step
    rw [List.flatMap_append, List.map_append, ← List.append_assoc, List.flatMap_singleton]
    rcases processTx_traced step with ⟨silent, rfl⟩ | ⟨envelope, traced⟩
    · rw [silent, List.map_nil, List.append_nil]
      exact kept
    · exact keeps.action _ _ _ _ _ _ kept traced
  · simpa using keeps.drain past tip start

theorem run (keeps : Keeps network inv) (start : inv [] tip.height tip.state)
    {blocks : List (List TxInput)} {last : Tip}
    (ran : blocks.foldlM (processBlock network) tip = .ok last) :
    inv (history network tip blocks) last.height last.state := by
  have held := foldlM_history (fun (visited : List (Visit Tip (List TxInput))) tip =>
    inv (visited.flatMap fun visit => (blockEvents network visit.pre visit.input).map
      (visit.post.height, ·))
      tip.height tip.state) [] ?_ start ran
  · simpa [history] using held
  · intro txs _ visited before after kept step
    obtain ⟨context, processed, rfl⟩ := processBlock_ok step
    rw [List.flatMap_append, List.flatMap_singleton]
    exact keeps.part kept processed

end Keeps
end Admin

/-! ### A concrete run -/

def sampleThreshold : ThresholdConfig := ⟨[sampleMember], sampleQuorum⟩

def sampleAdminConfig : AdministrationInitConfig :=
  ⟨sampleThreshold, sampleThreshold, sampleThreshold, sampleThreshold,
    ⟨0, 0, 0, 0, 0, 0, 2, 2, 0, 0, 0⟩, ⟨10, by decide⟩⟩

def sampleAdminTx (txType : Nat) (payload : EnvelopePayload) : TxInput :=
  ⟨⟨2, 0, [⟨⟨.zero, 0⟩, [], 0, [sampleEnvelope payload]⟩], []⟩, ⟨adminSubprotocolId, txType, []⟩⟩

/-- Two updates; a cancel of the first, which is then repeated; and a block in which the second is
due. -/
def sampleAdminBlocks : List (List TxInput) :=
  [[sampleAdminTx 11 ⟨1, .update (.olStfVk ⟨1, [5]⟩), [sampleSignature 184]⟩,
      sampleAdminTx 12 ⟨2, .update (.asmStfVk ⟨1, [6]⟩), [sampleSignature 185]⟩],
    [sampleAdminTx 0 ⟨3, .cancel 0, [sampleSignature 208]⟩,
      sampleAdminTx 0 ⟨3, .cancel 0, [sampleSignature 208]⟩], []]

def sampleAdminState (lastSeqno : Nat) (queued : List QueuedUpdate) : AdministrationSubprotoState :=
  { AdministrationSubprotoState.new sampleAdminConfig with
    authorities := [⟨.strataAdministrator, sampleThreshold, lastSeqno⟩,
      ⟨.strataSequencerManager, sampleThreshold, 0⟩, ⟨.alpenAdministrator, sampleThreshold, 0⟩,
      ⟨.strataSecurityCouncil, sampleThreshold, 0⟩]
    queued
    nextUpdateId := 2 }

/-- Where the run ends: three sequence numbers are used up, and nothing waits. -/
def sampleAdminTip : Admin.Tip := ⟨4, sampleAdminState 3 []⟩

def sampleAdminHistory : List (Nat × AdminEvent) :=
  [(2, .verified ⟨1, .update (.olStfVk ⟨1, [5]⟩), [sampleSignature 184]⟩
      ⟨1, .update (.olStfVk ⟨1, [5]⟩), [sampleSignature 184]⟩),
    (2, .accepted 0 (.olStfVk ⟨1, [5]⟩)),
    (2, .verified ⟨2, .update (.asmStfVk ⟨1, [6]⟩), [sampleSignature 185]⟩
      ⟨2, .update (.asmStfVk ⟨1, [6]⟩), [sampleSignature 185]⟩),
    (2, .accepted 1 (.asmStfVk ⟨1, [6]⟩)),
    (3, .verified ⟨3, .cancel 0, [sampleSignature 208]⟩
      ⟨3, .cancel 0 (.olStfVk ⟨1, [5]⟩), [sampleSignature 208]⟩),
    (3, .cancelled 0),
    (4, .drained ⟨1, .asmStfVk ⟨1, [6]⟩, 4⟩)]

section

attribute [local instance] sampleAdminLibs

-- One evaluation for both: the texts that are signed are the long part of it.
theorem sampleAdmin_trace :
    sampleAdminBlocks.foldlM (Admin.processBlock .regtest) ⟨1, .new sampleAdminConfig⟩ =
      .ok sampleAdminTip ∧
    Admin.history .regtest ⟨1, .new sampleAdminConfig⟩ sampleAdminBlocks = sampleAdminHistory := by
  decide +kernel

end
end Asm
