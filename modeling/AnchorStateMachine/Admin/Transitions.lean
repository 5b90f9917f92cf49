import AnchorStateMachine.Admin.Subprotocol

/-! What an administration action can do. -/

namespace Asm
open Outcome

/-! ### Enacting -/

/-- The states differ at most in the signers of the authorities. -/
def Reconfigured (state after : AdministrationSubprotoState) : Prop :=
  ∃ authorities, after = { state with authorities } ∧
    authorities.map MultisigAuthority.lastSeqno = state.authorities.map MultisigAuthority.lastSeqno

theorem Reconfigured.refl (state : AdministrationSubprotoState) : Reconfigured state state :=
  ⟨_, rfl, rfl⟩

theorem Reconfigured.trans {state middle after : AdministrationSubprotoState}
    (first : Reconfigured state middle) (second : Reconfigured middle after) :
    Reconfigured state after := by
  obtain ⟨_, rfl, same⟩ := first
  obtain ⟨authorities, rfl, same'⟩ := second
  exact ⟨authorities, rfl, same'.trans same⟩

theorem applyMultisigUpdate_ok {state after : AdministrationSubprotoState} {role : Role}
    {update : ThresholdConfigUpdate} (h : state.applyMultisigUpdate role update = .ok after) :
    Reconfigured state after := by
  unfold AdministrationSubprotoState.applyMultisigUpdate at h
  split at h
  · cases h
  · rename_i authority found
    split at h
    · cases h
    · cases h
      refine ⟨_, rfl, ?_⟩
      obtain ⟨bound, isAuthority⟩ := List.getElem?_eq_some_iff.mp found
      have bound : role.index < (state.authorities.map MultisigAuthority.lastSeqno).length := by
        simpa using bound
      have seqno : authority.lastSeqno =
          (state.authorities.map MultisigAuthority.lastSeqno)[role.index] := by
        rw [List.getElem_map, isAuthority]
      rw [List.map_set]
      simp only [seqno, List.set_getElem_self]

theorem processQueued_eq (state : AdministrationSubprotoState) (height : Nat) :
    state.processQueued height = (state.queued.filter (·.activationHeight ≤ height),
      { state with
        queued := state.queued.filter fun update => !decide (update.activationHeight ≤ height) }) := by
  rw [AdministrationSubprotoState.processQueued, List.partition_eq_filter_filter]
  rfl

section

variable [AdminLibs] {state after : AdministrationSubprotoState} {relayer relayed : MsgRelayer}

theorem handleUpdate_reconfigured {update : UpdateAction}
    (h : handleUpdate state relayer update = .ok (after, relayed)) : Reconfigured state after := by
  cases update with
  | strataAdminMultisig config | strataSeqManagerMultisig config | alpenAdminMultisig config
  | strataSecurityCouncilMultisig config =>
    obtain ⟨_, applied, h⟩ := bind_ok h
    cases pure_ok h
    exact applyMultisigUpdate_ok applied
  | _ =>
    cases pure_ok h
    exact .refl state

theorem enactUpdate_reconfigured (state : AdministrationSubprotoState) (relayer : MsgRelayer)
    (update : UpdateAction) : Reconfigured state (enactUpdate state relayer update).1 := by
  unfold enactUpdate
  split
  · rename_i handled
    exact handleUpdate_reconfigured handled
  · exact .refl state

theorem handlePendingUpdates_reconfigured (state : AdministrationSubprotoState) (relayer : MsgRelayer)
    (height : Nat) :
    Reconfigured (state.processQueued height).2 (handlePendingUpdates state relayer height).1 := by
  apply List.foldlRecOn (motive := fun acc : AdministrationSubprotoState × MsgRelayer =>
    Reconfigured (state.processQueued height).2 acc.1) _ _ (.refl _)
  intro acc reached queued _
  exact reached.trans (enactUpdate_reconfigured acc.1 acc.2 queued.action)

end

/-! ### Actions -/

theorem incrementNextUpdateId_error {state : AdministrationSubprotoState} {panic : Panic}
    (h : state.incrementNextUpdateId = .error panic) : panic = .arithmeticOverflow := by
  rcases bind_error h with counted | ⟨_, _, h⟩
  · exact addU32_error counted
  · cases h

theorem incrementNextUpdateId_ok {state next : AdministrationSubprotoState}
    (h : state.incrementNextUpdateId = .ok next) :
    next = { state with nextUpdateId := state.nextUpdateId + 1 } := by
  obtain ⟨_, counted, h⟩ := bind_ok h
  cases pure_ok h
  obtain ⟨rfl, -⟩ := addU32_ok counted
  rfl

section

variable [AdminLibs] {context after : ActionContext} {update : UpdateAction} {height : Nat}
  {outcome : Except AdministrationError Unit}

inductive Offers (context : ActionContext) (update : UpdateAction) (height : Nat) :
    Except AdministrationError Unit → ActionContext → Prop
  | limited (error : AdministrationError) : Offers context update height (.error error) context
  | overflown {guard : BlockUpdateGuard} (error : AdministrationError)
      (admitted : context.guard.admitUpdate update.updateTxType = .ok guard) :
      Offers context update height (.error error) { context with guard }
  | queued {guard : BlockUpdateGuard} {delay : Nat}
      (admitted : context.guard.admitUpdate update.updateTxType = .ok guard)
      (waits : context.state.confirmationDepth update.updateTxType = some delay) :
      Offers context update height (.ok ()) { context with
        guard
        state := { context.state.enqueue ⟨context.state.nextUpdateId, update, height + delay⟩ with
          nextUpdateId := context.state.nextUpdateId + 1 } }
  | applied {guard : BlockUpdateGuard} {state : AdministrationSubprotoState} {relayer : MsgRelayer}
      (admitted : context.guard.admitUpdate update.updateTxType = .ok guard)
      (immediate : context.state.confirmationDepth update.updateTxType = none)
      (enacted : enactUpdate context.state context.relayer update = (state, relayer)) :
      Offers context update height (.ok ())
        ⟨{ state with nextUpdateId := state.nextUpdateId + 1 }, guard, relayer⟩

theorem acceptUpdate_ok (h : acceptUpdate context update height = .ok (outcome, after)) :
    Offers context update height outcome after := by
  unfold acceptUpdate at h
  simp only at h
  split at h
  · cases pure_ok h
    exact .limited _
  · rename_i guard admitted
    split at h
    · rename_i delay waits
      split at h
      · obtain ⟨state, counted, h⟩ := bind_ok h
        cases pure_ok h
        rw [incrementNextUpdateId_ok counted]
        exact .queued admitted waits
      · cases pure_ok h
        exact .overflown _ admitted
    · rename_i immediate
      obtain ⟨state, counted, h⟩ := bind_ok h
      cases pure_ok h
      rw [incrementNextUpdateId_ok counted]
      exact .applied admitted immediate rfl

structure Verified (state : AdministrationSubprotoState) (envelope : EnvelopePayload) (network : Network)
    (payload : SignedPayload) (authority : MultisigAuthority) : Prop where
  resolved : (envelope.resolve fun id => (state.findQueued id).map QueuedUpdate.action) = .ok payload
  authorized : state.authority payload.action.requiredRole = some authority
  signed : authority.verifyActionSignature payload state.maxSeqnoGap network = .ok (.ok payload.seqno)

def AdministrationSubprotoState.burn (state : AdministrationSubprotoState) (payload : SignedPayload)
    (authority : MultisigAuthority) : AdministrationSubprotoState :=
  state.setAuthority payload.action.requiredRole { authority with lastSeqno := payload.seqno }

/-- What becomes of an action: without valid signatures nothing, otherwise its sequence number is
burnt, and then a queued update is removed or a new one is offered. -/
inductive Handled (context : ActionContext) (envelope : EnvelopePayload) (height : Nat)
    (network : Network) : Except AdministrationError Unit → ActionContext → Prop
  | unverified (error : AdministrationError)
      (fails : ∀ payload authority, ¬ Verified context.state envelope network payload authority) :
      Handled context envelope height network (.error error) context
  | cancelled {payload : SignedPayload} {authority : MultisigAuthority} {targetId : Nat}
      {target : UpdateAction} (verified : Verified context.state envelope network payload authority)
      (isCancel : payload.action = .cancel targetId target) :
      Handled context envelope height network (.ok ())
        { context with state := (context.state.burn payload authority).removeQueued targetId }
  | offered {payload : SignedPayload} {authority : MultisigAuthority} {update : UpdateAction}
      {outcome : Except AdministrationError Unit} {after : ActionContext}
      (verified : Verified context.state envelope network payload authority)
      (isUpdate : payload.action = .update update)
      (offers : Offers { context with state := context.state.burn payload authority } update height
        outcome after) :
      Handled context envelope height network outcome after

theorem verifyActionSignature_ok {authority : MultisigAuthority} {payload : SignedPayload}
    {maxSeqnoGap : NonZeroU8} {network : Network} {seqno : Nat}
    (h : authority.verifyActionSignature payload maxSeqnoGap network = .ok (.ok seqno)) :
    seqno = payload.seqno ∧ authority.lastSeqno < payload.seqno ∧
      payload.seqno ≤ authority.lastSeqno + maxSeqnoGap.val ∧
      verifyThresholdSignatures authority.config payload.signatures
        (SigningMessage.computeSighash (SigningMessage.forAction payload.action payload.seqno network)) =
        .ok () := by
  unfold MultisigAuthority.verifyActionSignature at h
  split at h
  · cases h
  · split at h
    · cases h
    · split at h
      · cases h
      · simp only at h
        split at h
        · cases h
        · cases h
          exact ⟨rfl, by omega, by omega, ‹_›⟩

theorem verifyActionSignature_of {authority : MultisigAuthority} {payload : SignedPayload}
    {maxSeqnoGap : NonZeroU8} {network : Network} (above : authority.lastSeqno < payload.seqno)
    (within : payload.seqno ≤ authority.lastSeqno + maxSeqnoGap.val)
    (fits : authority.lastSeqno + maxSeqnoGap.val < 2 ^ 64)
    (signed : verifyThresholdSignatures authority.config payload.signatures
      (SigningMessage.computeSighash (SigningMessage.forAction payload.action payload.seqno
        network)) = .ok ()) :
    authority.verifyActionSignature payload maxSeqnoGap network = .ok (.ok payload.seqno) := by
  unfold MultisigAuthority.verifyActionSignature
  rw [if_neg (by omega), if_neg (by omega), if_neg (by omega)]
  dsimp only
  rw [signed]
  rfl

theorem verifyActionSignature_overflow {authority : MultisigAuthority} {payload : SignedPayload}
    {maxSeqnoGap : NonZeroU8} {network : Network} (above : authority.lastSeqno < payload.seqno)
    (overflows : 2 ^ 64 ≤ authority.lastSeqno + maxSeqnoGap.val) :
    authority.verifyActionSignature payload maxSeqnoGap network = .error .arithmeticOverflow := by
  unfold MultisigAuthority.verifyActionSignature
  rw [if_neg (by omega), if_pos overflows]
  rfl

theorem handleAction_ok {envelope : EnvelopePayload} {network : Network}
    (h : handleAction context envelope height network = .ok (outcome, after)) :
    Handled context envelope height network outcome after := by
  unfold handleAction at h
  split at h
  · rename_i unknown
    cases pure_ok h
    refine .unverified _ fun payload authority verified => ?_
    cases unknown.symm.trans verified.resolved
  · rename_i payload resolved
    simp only at h
    split at h
    · rename_i missing
      cases pure_ok h
      refine .unverified _ fun other authority verified => ?_
      cases resolved.symm.trans verified.resolved
      cases missing.symm.trans verified.authorized
    · rename_i authority authorized
      obtain ⟨result, signed, h⟩ := bind_ok h
      split at h
      · cases pure_ok h
        refine .unverified _ fun other otherAuthority verified => ?_
        cases resolved.symm.trans verified.resolved
        cases authorized.symm.trans verified.authorized
        cases signed.symm.trans verified.signed
      · obtain ⟨rfl, -⟩ := verifyActionSignature_ok signed
        have verified : Verified context.state envelope network payload authority :=
          ⟨resolved, authorized, signed⟩
        split at h
        · rename_i update isUpdate
          exact .offered verified isUpdate (acceptUpdate_ok h)
        · rename_i targetId target isCancel
          cases pure_ok h
          exact .cancelled verified isCancel

theorem acceptUpdate_error {panic : Panic} (h : acceptUpdate context update height = .error panic) :
    panic = .arithmeticOverflow := by
  unfold acceptUpdate at h
  simp only at h
  split at h
  · cases h
  · split at h
    · split at h
      · rcases bind_error h with stopped | ⟨_, _, h⟩
        · exact incrementNextUpdateId_error stopped
        · cases h
      · cases h
    · rcases bind_error h with stopped | ⟨_, _, h⟩
      · exact incrementNextUpdateId_error stopped
      · cases h

theorem verifyActionSignature_error {authority : MultisigAuthority} {payload : SignedPayload}
    {maxSeqnoGap : NonZeroU8} {network : Network} {panic : Panic}
    (h : authority.verifyActionSignature payload maxSeqnoGap network = .error panic) :
    panic = .arithmeticOverflow ∧ authority.lastSeqno < payload.seqno ∧
      2 ^ 64 ≤ authority.lastSeqno + maxSeqnoGap.val := by
  unfold MultisigAuthority.verifyActionSignature at h
  split at h
  · cases h
  · split at h
    · cases h
      exact ⟨rfl, by omega, by omega⟩
    · split at h
      · cases h
      · simp only at h
        split at h <;> cases h

theorem handleAction_error {payload : EnvelopePayload} {network : Network} {panic : Panic}
    (h : handleAction context payload height network = .error panic) : panic = .arithmeticOverflow := by
  unfold handleAction at h
  split at h
  · cases h
  · simp only at h
    split at h
    · cases h
    · rcases bind_error h with stopped | ⟨verified, _, h⟩
      · exact (verifyActionSignature_error stopped).1
      · split at h
        · cases h
        · split at h
          · exact acceptUpdate_error h
          · cases h

end

namespace Admin

variable [AdminLibs] {context after : ActionContext} {height : Nat} {network : Network} {tx : TxInput}

theorem processTx_cases (h : processTx height network context tx = .ok after) :
    after = context ∨ ∃ payload outcome, handleAction context payload height network =
      .ok (outcome, after) := by
  unfold processTx at h
  split at h
  · cases pure_ok h
    exact .inl rfl
  · obtain ⟨_, handled, h⟩ := bind_ok h
    cases pure_ok h
    exact .inr ⟨_, _, handled⟩

theorem processTxs_error {state : AdministrationSubprotoState} {txs : List TxInput}
    {relayer : MsgRelayer} {panic : Panic}
    (h : processTxs state txs height network relayer = .error panic) :
    panic = .arithmeticOverflow := by
  rcases bind_error h with stopped | ⟨_, _, h⟩
  · obtain ⟨tx, _, context, -, stopped⟩ :=
      foldlM_error (fun _ => True) (fun _ _ _ _ _ _ => trivial) trivial stopped
    unfold processTx at stopped
    split at stopped
    · cases stopped
    · rcases bind_error stopped with handled | ⟨_, _, stopped⟩
      · exact handleAction_error handled
      · cases stopped
  · cases h

end Admin

/-! ### Transactions -/

/-- The first input of the transaction reveals an envelope of these bytes. -/
def TxInput.Reveals [AdminLibs] (tx : TxInput) (bytes : Bytes) : Prop :=
  ∃ script, (tx.tx.input.head?.bind fun input => AdminLibs.taprootLeafScript input.witness) =
    some script ∧
    AdminLibs.parseEnvelopePayload script = some bytes

namespace Admin

variable [AdminLibs]

theorem parseTx_decoded {tx : TxInput} {payload : EnvelopePayload} (parsed : parseTx tx = some payload) :
    ∃ adminTxType bytes, Wire.decodeSignedPayload adminTxType bytes = some payload := by
  unfold parseTx at parsed
  split at parsed
  · cases parsed
  · have extracted := toOption_some parsed
    unfold extractSignedPayload at extracted
    split at extracted
    · cases extracted
    · split at extracted
      · cases extracted
      · split at extracted
        · cases extracted
        · rename_i decoded
          cases extracted
          exact ⟨_, _, decoded⟩

/-- A transaction that is tagged with the type of a payload and reveals its bytes is parsed as that
payload. -/
theorem parseTx_signed (libs : WireLibs.Lawful) {payload : SignedPayload} (typed : payload.Typed)
    (fits : payload.intoEnvelopeBytes.length < Ssz.offsetBound) {tx : TxInput}
    (tagged : AdminTxType.ofByte tx.tag.txType = some payload.action.txType)
    (reveals : tx.Reveals payload.intoEnvelopeBytes) : parseTx tx = some payload.toEnvelope := by
  obtain ⟨script, leaf, envelope⟩ := reveals
  rw [parseTx, tagged]
  simp only [extractSignedPayload, leaf, envelope, Wire.decodeSignedPayload_own libs typed fits]
  rfl

end Admin

end Asm
