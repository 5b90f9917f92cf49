import AnchorStateMachine.Admin.Run

/-! What binds a cancel to its target. Its signatures cover the update that is queued under the target
id, and not the id itself. -/

namespace Asm
open Outcome SigningMessage

/-- The authority of an update finds a cancel of it numbered and signed as it should be. -/
def CancelSigned [AdminLibs] (state : AdministrationSubprotoState) (network : Network) (seqno : Nat)
    (signatures : List IndexedSignature) (targetId : Nat) (update : UpdateAction) : Prop :=
  ∃ authority, state.authority update.requiredRole = some authority ∧ authority.lastSeqno < seqno ∧
    seqno ≤ authority.lastSeqno + state.maxSeqnoGap.val ∧
    verifyThresholdSignatures authority.config signatures
      (computeSighash (forAction (.cancel targetId update) seqno network)) = .ok ()

/-- The largest sequence number that the authority of an update takes does not fit its type. -/
def SeqnoOverflows (state : AdministrationSubprotoState) (seqno : Nat) (update : UpdateAction) : Prop :=
  ∃ authority, state.authority update.requiredRole = some authority ∧ authority.lastSeqno < seqno ∧
    2 ^ 64 ≤ authority.lastSeqno + state.maxSeqnoGap.val

section

variable [AdminLibs] {context : ActionContext} {height : Nat} {network : Network} {seqno : Nat}
  {signatures : List IndexedSignature} {targetId : Nat}

theorem Verified.payload_eq {state : AdministrationSubprotoState} {queued : QueuedUpdate}
    {payload : SignedPayload} {authority : MultisigAuthority}
    (found : state.findQueued targetId = some queued)
    (verified : Verified state ⟨seqno, .cancel targetId, signatures⟩ network payload authority) :
    payload = ⟨seqno, .cancel targetId queued.action, signatures⟩ := by
  have resolved := verified.resolved
  simp only [EnvelopePayload.resolve, found, Option.map_some] at resolved
  exact (Except.ok.inj resolved).symm

theorem CancelSigned.twin {state : AdministrationSubprotoState} {i j : Nat} {update : UpdateAction}
    (signed : CancelSigned state network seqno signatures i update) :
    CancelSigned state network seqno signatures j update := by
  have same : (MultisigAction.cancel j update).SameUpToTarget (.cancel i update) := rfl
  obtain ⟨authority, authorized, above, within, signed⟩ := signed
  rw [← forAction_congr same] at signed
  exact ⟨authority, authorized, above, within, signed⟩

theorem handleAction_cancel_ok :
    (∃ after, handleAction context ⟨seqno, .cancel targetId, signatures⟩ height network =
      .ok (.ok (), after)) ↔
    ∃ queued, context.state.findQueued targetId = some queued ∧
      CancelSigned context.state network seqno signatures targetId queued.action ∧
      ¬SeqnoOverflows context.state seqno queued.action := by
  constructor
  · rintro ⟨after, handled⟩
    generalize isOutcome : Except.ok () = outcome at handled
    cases handleAction_ok handled with
    | unverified error fails => cases isOutcome
    | @cancelled payload authority _ _ verified isCancel =>
      obtain ⟨named, queued, found, -⟩ := verified.target isCancel
      cases named
      cases verified.payload_eq found
      obtain ⟨-, above, within, signed⟩ := verifyActionSignature_ok verified.signed
      refine ⟨queued, found, ⟨authority, verified.authorized, above, within, signed⟩, ?_⟩
      rintro ⟨other, authorized, -, overflows⟩
      cases authorized.symm.trans verified.authorized
      cases (verifyActionSignature_overflow above overflows).symm.trans verified.signed
    | offered verified isUpdate offers =>
      have resolved := verified.resolved
      simp only [EnvelopePayload.resolve] at resolved
      split at resolved
      · cases resolved
      · cases resolved
        cases isUpdate
  · rintro ⟨queued, found, ⟨authority, authorized, above, within, signed⟩, fits⟩
    have fits : authority.lastSeqno + context.state.maxSeqnoGap.val < 2 ^ 64 :=
      not_le.mp fun overflows => fits ⟨authority, authorized, above, overflows⟩
    have verified : authority.verifyActionSignature ⟨seqno, .cancel targetId queued.action, signatures⟩
        context.state.maxSeqnoGap network = .ok (.ok seqno) :=
      verifyActionSignature_of above within fits signed
    refine ⟨{ context with
      state := (context.state.burn ⟨seqno, .cancel targetId queued.action, signatures⟩
        authority).removeQueued targetId }, ?_⟩
    simp only [handleAction, EnvelopePayload.resolve, found, Option.map_some,
      MultisigAction.requiredRole, authorized, verified, ok_bind]
    rfl

theorem handleAction_cancel_error :
    handleAction context ⟨seqno, .cancel targetId, signatures⟩ height network =
      .error .arithmeticOverflow ↔
    ∃ queued, context.state.findQueued targetId = some queued ∧
      SeqnoOverflows context.state seqno queued.action := by
  constructor
  · intro halted
    cases found : context.state.findQueued targetId with
    | none => simp [handleAction, EnvelopePayload.resolve, found] at halted
    | some queued =>
      cases authorized : context.state.authority queued.action.requiredRole with
      | none =>
        simp [handleAction, EnvelopePayload.resolve, found, MultisigAction.requiredRole, authorized] at halted
      | some authority =>
        simp only [handleAction, EnvelopePayload.resolve, found, Option.map_some,
          MultisigAction.requiredRole, authorized] at halted
        rcases bind_error halted with stopped | ⟨verified, -, halted⟩
        · obtain ⟨-, above, overflows⟩ := verifyActionSignature_error stopped
          exact ⟨queued, rfl, authority, authorized, above, overflows⟩
        · split at halted <;> cases halted
  · rintro ⟨queued, found, authority, authorized, above, overflows⟩
    have halts : authority.verifyActionSignature ⟨seqno, .cancel targetId queued.action, signatures⟩
        context.state.maxSeqnoGap network = .error .arithmeticOverflow :=
      verifyActionSignature_overflow above overflows
    simp only [handleAction, EnvelopePayload.resolve, found, Option.map_some,
      MultisigAction.requiredRole, authorized, halts]
    rfl

theorem handleAction_cancel_rejected
    (fails : ¬ ∃ after,
      handleAction context ⟨seqno, .cancel targetId, signatures⟩ height network = .ok (.ok (), after)) :
    (∃ error after, handleAction context ⟨seqno, .cancel targetId, signatures⟩ height network =
        .ok (.error error, after) ∧ after.state.queued = context.state.queued) ∨
      handleAction context ⟨seqno, .cancel targetId, signatures⟩ height network =
        .error .arithmeticOverflow := by
  cases handled : handleAction context ⟨seqno, .cancel targetId, signatures⟩ height network with
  | error panic => exact .inr (by rw [handleAction_error handled])
  | ok result =>
    obtain ⟨outcome, after⟩ := result
    cases outcome with
    | ok => exact absurd ⟨after, handled⟩ fails
    | error error =>
      refine .inl ⟨error, after, rfl, ?_⟩
      generalize isOutcome : Except.error error = outcome at handled
      cases handleAction_ok handled with
      | unverified _ _ => rfl
      | cancelled _ _ => cases isOutcome
      | offered verified isUpdate offers =>
        cases offers <;> first | rfl | cases isOutcome

/-- Signatures made for the cancel of update `i`, and for no other message, are rejected for another
id exactly if the update queued under that id is a different one or they do not cancel `i` either. A
sequence number that overflows its type is a panic, and the only one. -/
theorem cancel_binds_iff (display : FaithfulDisplay) {i j : Nat} {queued : QueuedUpdate}
    (found : context.state.findQueued i = some queued)
    (unforged : ∀ other authority, context.state.findQueued j = some other →
      context.state.authority other.action.requiredRole = some authority →
      verifyThresholdSignatures authority.config signatures
        (computeSighash (forAction (.cancel j other.action) seqno network)) = .ok () →
      forAction (.cancel j other.action) seqno network =
        forAction (.cancel i queued.action) seqno network)
    (distinct : ∀ other, context.state.findQueued j = some other →
      ConditionsDistinct other.action queued.action) :
    ((∃ error after, handleAction context ⟨seqno, .cancel j, signatures⟩ height network =
        .ok (.error error, after) ∧ after.state.queued = context.state.queued) ↔
      ∀ other, context.state.findQueued j = some other →
        ¬SeqnoOverflows context.state seqno other.action ∧
        (other.action = queued.action →
          ¬CancelSigned context.state network seqno signatures i queued.action)) ∧
    (handleAction context ⟨seqno, .cancel j, signatures⟩ height network = .error .arithmeticOverflow ↔
      ∃ other, context.state.findQueued j = some other ∧
        SeqnoOverflows context.state seqno other.action) ∧
    ((∃ after, handleAction context ⟨seqno, .cancel i, signatures⟩ height network = .ok (.ok (), after)) ↔
      CancelSigned context.state network seqno signatures i queued.action ∧
        ¬SeqnoOverflows context.state seqno queued.action) := by
  refine ⟨⟨?_, fun differs => ?_⟩, handleAction_cancel_error, ?_⟩
  · rintro ⟨error, after, rejected, -⟩ other isOther
    have fits : ¬SeqnoOverflows context.state seqno other.action := by
      intro overflows
      rw [handleAction_cancel_error.mpr ⟨other, isOther, overflows⟩] at rejected
      cases rejected
    refine ⟨fits, fun same signed => ?_⟩
    rw [← same] at signed
    obtain ⟨_, accepted⟩ := handleAction_cancel_ok.mpr ⟨other, isOther, signed.twin, fits⟩
    cases accepted.symm.trans rejected
  · have unaccepted : ¬∃ after, handleAction context ⟨seqno, .cancel j, signatures⟩ height network =
        .ok (.ok (), after) := by
      intro accepted
      obtain ⟨other, isOther, signed, -⟩ := handleAction_cancel_ok.mp accepted
      have ⟨authority, authorized, _, _, verified⟩ := signed
      have sameMessage := unforged other authority isOther authorized verified
      have apart : ConditionsDistinct (MultisigAction.cancel j other.action).target
          (MultisigAction.cancel i queued.action).target := distinct other isOther
      obtain ⟨-, -, sameUpdate⟩ := forAction_inj display apart sameMessage
      have same : other.action = queued.action := sameUpdate
      rw [same] at signed
      exact (differs other isOther).2 same signed.twin
    refine (handleAction_cancel_rejected unaccepted).resolve_right fun halted => ?_
    obtain ⟨other, isOther, overflows⟩ := handleAction_cancel_error.mp halted
    exact (differs other isOther).1 overflows
  · rw [handleAction_cancel_ok, found]
    simp

end

/-! ### Concrete cancels -/

section

attribute [local instance] sampleAdminLibs

theorem cancel_binds_iff_sample :
    let state := sampleAdminState 2 [⟨0, .olStfVk ⟨1, [5]⟩, 4⟩, ⟨1, .asmStfVk ⟨1, [6]⟩, 4⟩]
    let context : ActionContext := ⟨state, ⟨[]⟩, .new⟩
    ∃ error after, handleAction context ⟨3, .cancel 1, [sampleSignature 208]⟩ 3 .regtest =
      .ok (.error error, after) ∧ after.state.queued = context.state.queued := by
  intro state context
  have found : context.state.findQueued 0 = some ⟨0, .olStfVk ⟨1, [5]⟩, 4⟩ := rfl
  refine (cancel_binds_iff sampleAdminLibs_faithful found ?_ ?_).1.mpr ?_
  · intro other authority isOther authorized verified
    cases isOther
    cases authorized
    exact absurd verified (by decide +kernel)
  · intro other isOther key isKey otherKey isOtherKey same
    cases isOther
    cases isKey
    cases isOtherKey
    exact absurd same (by decide)
  · intro other isOther
    cases isOther
    refine ⟨?_, fun same => by cases same⟩
    rintro ⟨authority, authorized, -, overflows⟩
    cases authorized
    exact absurd overflows (by decide)

/-- The same ASM key is queued twice, and signatures for the cancel of the first take out the
second. -/
theorem cancel_takes_twin :
    let update : UpdateAction := .asmStfVk ⟨1, [6]⟩
    let state := sampleAdminState 2 [⟨0, update, 4⟩, ⟨1, update, 4⟩]
    let context := Admin.openBlock state 3
    [[sampleAdminTx 12 ⟨1, .update update, [sampleSignature 185]⟩,
        sampleAdminTx 12 ⟨2, .update update, [sampleSignature 185]⟩]].foldlM (Admin.processBlock .regtest)
      ⟨1, .new sampleAdminConfig⟩ = .ok ⟨2, state⟩ ∧
    verifyThresholdSignatures sampleThreshold [sampleSignature 209]
      (computeSighash (forAction (.cancel 0 update) 3 .regtest)) = .ok () ∧
    handleAction context ⟨3, .cancel 1, [sampleSignature 209]⟩ 3 .regtest =
      .ok (.ok (), { context with state := sampleAdminState 3 [⟨0, update, 4⟩] }) := by
  decide +kernel

end
end Asm
