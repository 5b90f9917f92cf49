import AnchorStateMachine.Admin.Run

/-! What an administration action leaves alone. Checks and changes alternate, so that what may have
changed depends on the check that failed. -/

namespace Asm
open Outcome

/-- The errors of an action whose signatures have not been verified when it is turned away. -/
def AdministrationError.Unverified : AdministrationError → Prop
  | .unknownRole | .unknownAction _ | .invalidSeqno _ _ _ | .seqnoGapTooLarge _ _ _ _
  | .thresholdSignature _ => True
  | .updateAlreadyAcceptedInBlock _ | .activationHeightOverflow _ _ => False

theorem BlockUpdateGuard.admitUpdate_error {guard : BlockUpdateGuard} {txType : UpdateTxType}
    {error : AdministrationError} (h : guard.admitUpdate txType = .error error) :
    error = .updateAlreadyAcceptedInBlock txType := by
  unfold admitUpdate at h
  split at h
  · split at h
    · cases h
      rfl
    · cases h
  · split at h
    · cases h
      rfl
    · cases h
  · cases h

/-- Removing by id takes out the entry that a search for the id finds. -/
theorem removeQueued_found {state : AdministrationSubprotoState} {id : Nat} {target : QueuedUpdate}
    (found : state.findQueued id = some target) :
    target.id = id ∧ ∃ front back, state.queued = front ++ target :: back ∧
      (∀ other ∈ front, other.id ≠ id) ∧ (state.removeQueued id).queued = front ++ back := by
  obtain ⟨same, front, back, queued, before⟩ := List.find?_eq_some_iff_append.mp found
  have others : ∀ other ∈ front, other.id ≠ id := by
    intro other mem
    simpa using before other mem
  refine ⟨of_decide_eq_true same, front, back, queued, others, ?_⟩
  show state.queued.eraseP _ = front ++ back
  rw [queued, List.eraseP_append_right _ (fun other mem => by simpa using others other mem),
    List.eraseP_cons, same]
  rfl

section

variable [AdminLibs] {context after : ActionContext} {height : Nat} {network : Network}

theorem acceptUpdate_rejects {update : UpdateAction} {error : AdministrationError}
    (h : acceptUpdate context update height = .ok (.error error, after)) :
    ¬ error.Unverified ∧ after.state = context.state ∧ after.relayer = context.relayer := by
  unfold acceptUpdate at h
  simp only at h
  split at h
  · rename_i refused
    cases pure_ok h
    rw [BlockUpdateGuard.admitUpdate_error refused]
    exact ⟨id, rfl, rfl⟩
  · split at h
    · split at h
      · obtain ⟨_, _, h⟩ := bind_ok h
        cases pure_ok h
      · cases pure_ok h
        exact ⟨id, rfl, rfl⟩
    · obtain ⟨_, _, h⟩ := bind_ok h
      cases pure_ok h

theorem verifyActionSignature_unverified {authority : MultisigAuthority} {payload : SignedPayload}
    {maxSeqnoGap : NonZeroU8} {error : AdministrationError}
    (h : authority.verifyActionSignature payload maxSeqnoGap network = .ok (.error error)) :
    error.Unverified := by
  unfold MultisigAuthority.verifyActionSignature at h
  split at h
  · cases pure_ok h
    trivial
  · split at h
    · cases h
    · split at h
      · cases pure_ok h
        trivial
      · simp only at h
        split at h
        · cases pure_ok h
          trivial
        · cases pure_ok h

/-- An action that fails was not verified, or it is an update that was not accepted. -/
theorem handleAction_fails {envelope : EnvelopePayload} {error : AdministrationError}
    (h : handleAction context envelope height network = .ok (.error error, after)) :
    (error.Unverified ∧ after = context) ∨
    ∃ payload authority update, Verified context.state envelope network payload authority ∧
      payload.action = .update update ∧
      acceptUpdate { context with state := context.state.burn payload authority } update height =
        .ok (.error error, after) := by
  unfold handleAction at h
  split at h
  · cases pure_ok h
    exact .inl ⟨trivial, rfl⟩
  · rename_i payload resolved
    simp only at h
    split at h
    · cases pure_ok h
      exact .inl ⟨trivial, rfl⟩
    · rename_i authority authorized
      obtain ⟨result, signed, h⟩ := bind_ok h
      split at h
      · cases pure_ok h
        exact .inl ⟨verifyActionSignature_unverified signed, rfl⟩
      · obtain ⟨rfl, -⟩ := verifyActionSignature_ok signed
        split at h
        · rename_i update isUpdate
          exact .inr ⟨payload, authority, update, ⟨resolved, authorized, signed⟩, isUpdate, h⟩
        · cases pure_ok h

/-- An action that is turned away before its signatures are verified changes nothing. One that is
turned away later only burns its sequence number; it was an update. A cancel that succeeds burns its
sequence number and takes out the entry it names. -/
theorem handleAction_frame (context after : ActionContext) (envelope : EnvelopePayload) (height : Nat)
    (network : Network) (outcome : Except AdministrationError Unit)
    (h : handleAction context envelope height network = .ok (outcome, after)) :
    (∀ error, outcome = .error error → error.Unverified → after = context) ∧
    (∀ error, outcome = .error error → ¬ error.Unverified → ∃ update authority,
      envelope.action = .update update ∧ context.state.authority update.requiredRole = some authority ∧
      after.state = context.state.setAuthority update.requiredRole
        { authority with lastSeqno := envelope.seqno } ∧
      after.relayer = context.relayer) ∧
    (∀ targetId, outcome = .ok () → envelope.action = .cancel targetId → ∃ target authority front back,
      context.state.queued = front ++ target :: back ∧ target.id = targetId ∧
      (∀ other ∈ front, other.id ≠ targetId) ∧
      context.state.authority target.action.requiredRole = some authority ∧
      after = { context with state := { context.state.setAuthority target.action.requiredRole
        { authority with lastSeqno := envelope.seqno } with queued := front ++ back } }) := by
  refine ⟨?_, ?_, ?_⟩
  · rintro error rfl unverified
    rcases handleAction_fails h with ⟨-, same⟩ | ⟨payload, authority, update, -, -, rejected⟩
    · exact same
    · exact absurd unverified (acceptUpdate_rejects rejected).1
  · rintro error rfl burnt
    rcases handleAction_fails h with ⟨unverified, -⟩ |
      ⟨payload, authority, update, verified, isUpdate, rejected⟩
    · exact absurd unverified burnt
    · obtain ⟨-, state, relayer⟩ := acceptUpdate_rejects rejected
      have authorized := verified.authorized
      rw [AdministrationSubprotoState.burn, verified.seqno, isUpdate] at state
      rw [isUpdate] at authorized
      exact ⟨update, authority, verified.update isUpdate, authorized, state, relayer⟩
  · rintro targetId rfl isCancel
    cases handleAction_ok h with
    | @cancelled payload authority id target verified cancels =>
      obtain ⟨named, queued, found, rfl⟩ := verified.target cancels
      cases isCancel.symm.trans named
      obtain ⟨same, front, back, split, others, removed⟩ := removeQueued_found found
      have authorized := verified.authorized
      rw [cancels] at authorized
      refine ⟨queued, authority, front, back, split, same, others, authorized, ?_⟩
      rw [← removed, AdministrationSubprotoState.burn, verified.seqno, cancels]
      rfl
    | offered verified isUpdate offers => cases isCancel.symm.trans (verified.update isUpdate)

end

section

attribute [local instance] sampleAdminLibs

/-- Two updates wait, and the first is cancelled. -/
def sampleCancelContext : ActionContext :=
  ⟨sampleAdminState 2 [⟨0, .olStfVk ⟨1, [5]⟩, 4⟩, ⟨1, .asmStfVk ⟨1, [6]⟩, 4⟩], ⟨[]⟩, .new⟩

theorem handleAction_frame_sample : ∃ after,
    handleAction sampleCancelContext ⟨3, .cancel 0, [sampleSignature 208]⟩ 3 .regtest =
      .ok (.ok (), after) ∧
    ∃ target front back, sampleCancelContext.state.queued = front ++ target :: back ∧ target.id = 0 ∧
      after.state.queued = front ++ back ∧ after.relayer = .new := by
  have handled : handleAction sampleCancelContext ⟨3, .cancel 0, [sampleSignature 208]⟩ 3 .regtest =
      .ok (.ok (), ⟨sampleAdminState 3 [⟨1, .asmStfVk ⟨1, [6]⟩, 4⟩], ⟨[]⟩, .new⟩) := by
    decide +kernel
  obtain ⟨-, -, cancels⟩ := handleAction_frame _ _ _ _ _ _ handled
  obtain ⟨target, authority, front, back, queued, same, -, -, after⟩ := cancels 0 rfl rfl
  exact ⟨_, handled, target, front, back, queued, same, by rw [after], rfl⟩

end
end Asm
