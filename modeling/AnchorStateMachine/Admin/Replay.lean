import Mathlib.Data.List.Chain
import AnchorStateMachine.Admin.Enactment

/-! Replay protection. A sequence number is burnt as soon as signatures verify, so that neither a
payload nor the message it was signed for can be verified a second time. -/

namespace Asm
open Outcome

/-! ### Sequence numbers -/

namespace AdministrationSubprotoState

def lastSeqno (state : AdministrationSubprotoState) (role : Role) : Option Nat :=
  (state.authority role).map MultisigAuthority.lastSeqno

theorem lastSeqno_new (config : AdministrationInitConfig) (role : Role) :
    (new config).lastSeqno role = some 0 := by
  cases role <;> rfl

theorem lastSeqno_eq (state : AdministrationSubprotoState) (role : Role) :
    state.lastSeqno role = (state.authorities.map MultisigAuthority.lastSeqno)[role.index]? := by
  rw [List.getElem?_map]
  rfl

theorem lastSeqno_burn {state : AdministrationSubprotoState} {payload : SignedPayload}
    {authority : MultisigAuthority}
    (authorized : state.authority payload.action.requiredRole = some authority) (role : Role) :
    (state.burn payload authority).lastSeqno role =
      if role = payload.action.requiredRole then some payload.seqno else state.lastSeqno role := by
  have bound := (List.getElem?_eq_some_iff.mp authorized).1
  unfold lastSeqno burn setAuthority AdministrationSubprotoState.authority
  simp only [List.getElem?_set]
  by_cases own : role = payload.action.requiredRole
  · simp [own, bound]
  · have other : payload.action.requiredRole.index ≠ role.index := by
      intro same
      refine own ?_
      generalize payload.action.requiredRole = required at same ⊢
      cases role <;> cases required <;> first | rfl | cases same
    simp [own, other]

end AdministrationSubprotoState

theorem Reconfigured.lastSeqno {state after : AdministrationSubprotoState} (h : Reconfigured state after)
    (role : Role) : after.lastSeqno role = state.lastSeqno role := by
  obtain ⟨authorities, rfl, same⟩ := h
  rw [AdministrationSubprotoState.lastSeqno_eq, AdministrationSubprotoState.lastSeqno_eq, same]

/-! ### Verified payloads -/

def AdminEvent.verifiedPayload : AdminEvent → Option (EnvelopePayload × SignedPayload)
  | verified envelope payload => some (envelope, payload)
  | _ => none

namespace Admin

/-- The payloads whose signatures verified, each with the envelope it came in. -/
def verifiedPayloads (history : List (Nat × AdminEvent)) : List (EnvelopePayload × SignedPayload) :=
  history.filterMap fun event => event.2.verifiedPayload

def verifiedSeqnos (role : Role) (history : List (Nat × AdminEvent)) : List Nat :=
  ((verifiedPayloads history).filter (·.2.action.requiredRole = role)).map (·.2.seqno)

theorem verifiedPayloads_append (history more : List (Nat × AdminEvent)) :
    verifiedPayloads (history ++ more) = verifiedPayloads history ++ verifiedPayloads more :=
  List.filterMap_append

theorem verifiedSeqnos_append {history more : List (Nat × AdminEvent)} {envelope : EnvelopePayload}
    {payload : SignedPayload} (single : verifiedPayloads more = [(envelope, payload)]) (role : Role) :
    verifiedSeqnos role (history ++ more) = verifiedSeqnos role history ++
      if role = payload.action.requiredRole then [payload.seqno] else [] := by
  rw [verifiedSeqnos, verifiedPayloads_append, single, List.filter_append, List.map_append,
    ← verifiedSeqnos]
  by_cases own : role = payload.action.requiredRole
  · simp [own]
  · simp [own, Ne.symm own]

end Admin

/-- What verifying a payload does to the state, whatever becomes of its action. -/
structure Burnt (before after : AdministrationSubprotoState) (envelope : EnvelopePayload)
    (payload : SignedPayload) : Prop where
  seqnos : ∀ role, after.lastSeqno role =
    if role = payload.action.requiredRole then some payload.seqno else before.lastSeqno role
  gap : after.maxSeqnoGap = before.maxSeqnoGap
  next : before.nextUpdateId ≤ after.nextUpdateId
  queue : ∀ update ∈ after.queued, update ∈ before.queued ∨ update.id = before.nextUpdateId
  target : ∀ targetId, envelope.action = .cancel targetId → ∀ update ∈ after.queued, update.id ≠ targetId

section

variable [AdminLibs] {context after : ActionContext} {envelope : EnvelopePayload} {height : Nat}
  {network : Network} {events : List AdminEvent} {payload : SignedPayload}
  {authority : MultisigAuthority}

theorem Traced.burnt (ordered : context.state.QueueOrdered)
    (traced : Traced context envelope height network events after) :
    (events = [] ∧ after = context) ∨
    ∃ payload authority, Verified context.state envelope network payload authority ∧
      Admin.verifiedPayloads (events.map (height, ·)) = [(envelope, payload)] ∧
      Burnt context.state after.state envelope payload := by
  cases traced with
  | unverified => exact .inl ⟨rfl, rfl⟩
  | @cancelled payload authority targetId target verified isCancel =>
    have removed : ((context.state.burn payload authority).removeQueued targetId).queued =
        context.state.queued.filter (·.id ≠ targetId) := SortedVec.eraseP_key ordered.ascending targetId
    refine .inr ⟨payload, authority, verified, rfl,
      AdministrationSubprotoState.lastSeqno_burn verified.authorized, rfl, Nat.le_refl _, ?_, ?_⟩
    · intro update mem
      rw [removed] at mem
      exact .inl (List.mem_of_mem_filter mem)
    · intro otherId named update mem
      rw [removed] at mem
      have named := (verified.target isCancel).1.symm.trans named
      cases named
      simpa using (List.mem_filter.mp mem).2
  | @rejected payload authority update guard verified isUpdate =>
    refine .inr ⟨payload, authority, verified, rfl,
      AdministrationSubprotoState.lastSeqno_burn verified.authorized, rfl, Nat.le_refl _,
      fun _ mem => .inl mem, fun targetId named => ?_⟩
    cases (verified.update isUpdate).symm.trans named
  | @queued payload authority update delay guard verified isUpdate waits =>
    refine .inr ⟨payload, authority, verified, rfl,
      AdministrationSubprotoState.lastSeqno_burn verified.authorized, rfl, Nat.le_succ _, ?_,
      fun targetId named => ?_⟩
    · intro queued mem
      rcases List.mem_append.mp mem with old | new
      · exact .inl old
      · exact .inr (by rw [List.mem_singleton.mp new])
    · cases (verified.update isUpdate).symm.trans named
  | @applied payload authority update state relayer guard verified isUpdate immediate enacted =>
    have same := enactUpdate_reconfigured (context.state.burn payload authority) context.relayer update
    rw [enacted] at same
    have seqnos := same.lastSeqno
    obtain ⟨authorities, rfl, -⟩ := same
    refine .inr ⟨payload, authority, verified, rfl, ?_, rfl, Nat.le_succ _, fun _ mem => .inl mem,
      fun targetId named => ?_⟩
    · intro role
      rw [← AdministrationSubprotoState.lastSeqno_burn verified.authorized]
      exact seqnos role
    · cases (verified.update isUpdate).symm.trans named

end

/-! ### The invariant -/

namespace Admin

/-- Two payloads that can both be verified: they differ, and so do the messages they were signed
for. -/
def Distinct [AdminLibs] (network : Network) (first second : EnvelopePayload × SignedPayload) : Prop :=
  first.1 ≠ second.1 ∧
    SigningMessage.forAction first.2.action first.2.seqno network ≠
      SigningMessage.forAction second.2.action second.2.seqno network

structure Unreplayed [AdminLibs] (network : Network) (maxSeqnoGap : NonZeroU8)
    (history : List (Nat × AdminEvent)) (state : AdministrationSubprotoState) : Prop where
  gap : state.maxSeqnoGap = maxSeqnoGap
  chained : ∀ role, (0 :: verifiedSeqnos role history).IsChain
    fun seqno next => seqno < next ∧ next ≤ seqno + maxSeqnoGap.val
  last : ∀ role, state.lastSeqno role = (0 :: verifiedSeqnos role history).getLast?
  bounded : ∀ role, ∀ seqno ∈ verifiedSeqnos role history, ∀ last, state.lastSeqno role = some last →
    seqno ≤ last
  resolved : ∀ envelope payload, (envelope, payload) ∈ verifiedPayloads history →
    payload.seqno = envelope.seqno ∧
    ∀ update, envelope.action = .update update → payload.action = .update update
  gone : ∀ envelope payload targetId, (envelope, payload) ∈ verifiedPayloads history →
    envelope.action = .cancel targetId →
    targetId < state.nextUpdateId ∧ ∀ update ∈ state.queued, update.id ≠ targetId
  distinct : (verifiedPayloads history).Pairwise (Distinct network)

namespace Unreplayed

variable [AdminLibs] {network : Network} {maxSeqnoGap : NonZeroU8}
  {history more : List (Nat × AdminEvent)} {state after : AdministrationSubprotoState}

theorem genesis (network : Network) (config : AdministrationInitConfig) :
    Unreplayed network config.maxSeqnoGap [] (.new config) where
  gap := rfl
  chained _ := .singleton 0
  last := AdministrationSubprotoState.lastSeqno_new config
  bounded _ := List.forall_mem_nil _
  resolved _ _ none := absurd none List.not_mem_nil
  gone _ _ _ none := absurd none List.not_mem_nil
  distinct := .nil

theorem frame (unreplayed : Unreplayed network maxSeqnoGap history state)
    (silent : verifiedPayloads more = []) (gap : after.maxSeqnoGap = state.maxSeqnoGap)
    (seqnos : ∀ role, after.lastSeqno role = state.lastSeqno role)
    (next : after.nextUpdateId = state.nextUpdateId) (queue : after.queued ⊆ state.queued) :
    Unreplayed network maxSeqnoGap (history ++ more) after := by
  have same : verifiedPayloads (history ++ more) = verifiedPayloads history := by
    rw [verifiedPayloads_append, silent, List.append_nil]
  have sameSeqnos : ∀ role, verifiedSeqnos role (history ++ more) = verifiedSeqnos role history := by
    intro role
    rw [verifiedSeqnos, same, verifiedSeqnos]
  obtain ⟨isGap, chained, last, bounded, resolved, gone, distinct⟩ := unreplayed
  refine ⟨gap.trans isGap, ?_, ?_, ?_, ?_, ?_, by rwa [same]⟩
  · intro role
    rw [sameSeqnos]
    exact chained role
  · intro role
    rw [sameSeqnos, seqnos]
    exact last role
  · intro role
    rw [sameSeqnos, seqnos]
    exact bounded role
  · rwa [same]
  · intro envelope payload targetId mem named
    rw [same] at mem
    obtain ⟨old, absent⟩ := gone envelope payload targetId mem named
    exact ⟨next ▸ old, fun update queued => absent update (queue queued)⟩

theorem verify {envelope : EnvelopePayload} {payload : SignedPayload}
    {authority : MultisigAuthority} (unreplayed : Unreplayed network maxSeqnoGap history state)
    (ordered : state.QueueOrdered) (verified : Verified state envelope network payload authority)
    (single : verifiedPayloads more = [(envelope, payload)])
    (burnt : Burnt state after envelope payload) :
    Unreplayed network maxSeqnoGap (history ++ more) after := by
  obtain ⟨gap, chained, last, bounded, resolved, gone, distinct⟩ := unreplayed
  obtain ⟨-, later, near, -⟩ := verifyActionSignature_ok verified.signed
  have current : state.lastSeqno payload.action.requiredRole = some authority.lastSeqno := by
    rw [AdministrationSubprotoState.lastSeqno, verified.authorized]
    rfl
  have own : ∀ role, role = payload.action.requiredRole → ∀ seqno ∈ verifiedSeqnos role history,
      seqno < payload.seqno := by
    rintro role rfl seqno mem
    exact Nat.lt_of_le_of_lt (bounded _ seqno mem _ current) later
  -- A payload of the same role with the same number would have been burnt.
  have fresh : ∀ old ∈ verifiedPayloads history,
      old.2.action.requiredRole = payload.action.requiredRole → old.2.seqno ≠ payload.seqno := by
    intro old mem sameRole sameSeqno
    have listed : old.2.seqno ∈ verifiedSeqnos payload.action.requiredRole history :=
      List.mem_map.mpr ⟨old, List.mem_filter.mpr ⟨mem, by simpa using sameRole⟩, rfl⟩
    exact absurd sameSeqno (Nat.ne_of_lt (own _ rfl _ listed))
  refine ⟨burnt.gap.trans gap, ?_, ?_, ?_, ?_, ?_, ?_⟩
  · intro role
    rw [verifiedSeqnos_append single]
    split_ifs with isRole
    · rw [← List.cons_append, List.isChain_append]
      refine ⟨chained role, .singleton _, fun seqno isLast next isNext => ?_⟩
      cases isNext
      rw [← last role, isRole, current] at isLast
      cases isLast
      exact ⟨later, gap ▸ near⟩
    · rw [List.append_nil]
      exact chained role
  · intro role
    rw [burnt.seqnos, verifiedSeqnos_append single]
    split_ifs with isRole
    · rw [← List.cons_append, List.getLast?_concat]
    · rw [List.append_nil]
      exact last role
  · intro role seqno mem latest isLatest
    rw [burnt.seqnos] at isLatest
    rw [verifiedSeqnos_append single] at mem
    split_ifs at isLatest mem with isRole
    · cases isLatest
      rcases List.mem_append.mp mem with old | new
      · exact Nat.le_of_lt (own role isRole seqno old)
      · exact Nat.le_of_eq (List.mem_singleton.mp new)
    · rw [List.append_nil] at mem
      exact bounded role seqno mem latest isLatest
  · intro other otherPayload mem
    rw [verifiedPayloads_append, single] at mem
    rcases List.mem_append.mp mem with old | new
    · exact resolved other otherPayload old
    · cases List.mem_singleton.mp new
      refine ⟨verified.seqno, fun update named => ?_⟩
      cases action : payload.action with
      | cancel targetId target => cases (verified.target action).1.symm.trans named
      | update carried =>
        cases (verified.update action).symm.trans named
        rfl
  · intro other otherPayload targetId mem named
    rw [verifiedPayloads_append, single] at mem
    rcases List.mem_append.mp mem with old | new
    · obtain ⟨below, absent⟩ := gone other otherPayload targetId old named
      refine ⟨Nat.lt_of_lt_of_le below burnt.next, fun update queued => ?_⟩
      rcases burnt.queue update queued with wasQueued | isNew
      · exact absent update wasQueued
      · omega
    · cases List.mem_singleton.mp new
      refine ⟨?_, burnt.target targetId named⟩
      cases action : payload.action with
      | cancel named' target =>
        obtain ⟨isCancel, queued, found, -⟩ := verified.target action
        cases isCancel.symm.trans named
        have isId : queued.id = targetId := by simpa using List.find?_some found
        exact Nat.lt_of_lt_of_le (isId ▸ ordered.below queued
          (List.mem_of_find?_eq_some found)) burnt.next
      | update carried => cases (verified.update action).symm.trans named
  · rw [verifiedPayloads_append, single, List.pairwise_append]
    refine ⟨distinct, List.pairwise_singleton _ _, fun old mem new isNew => ?_⟩
    cases List.mem_singleton.mp isNew
    refine ⟨fun sameEnvelope => ?_, fun sameMessage => ?_⟩
    · obtain ⟨isSeqno, isUpdate⟩ := resolved old.1 old.2 mem
      have sameEnvelope : old.1 = envelope := sameEnvelope
      have sameSeqno : old.2.seqno = payload.seqno := by
        rw [isSeqno, sameEnvelope, verified.seqno]
      cases action : payload.action with
      | cancel targetId target =>
        -- The first cancel took the target out of the queue, and its id is never given out again.
        obtain ⟨isCancel, queued, found, -⟩ := verified.target action
        have isId : queued.id = targetId := by simpa using List.find?_some found
        exact (gone old.1 old.2 targetId mem (sameEnvelope ▸ isCancel)).2 queued
          (List.mem_of_find?_eq_some found) isId
      | update carried =>
        have sameAction := isUpdate carried (sameEnvelope ▸ verified.update action)
        exact fresh old mem (by rw [sameAction, action]) sameSeqno
    · obtain ⟨-, -, sameRole, sameSeqno⟩ := SigningMessage.forAction_header sameMessage
      exact fresh old mem sameRole sameSeqno

end Unreplayed

section

variable [AdminLibs]

theorem unreplayed_keeps (network : Network) (config : AdministrationInitConfig) :
    Keeps network fun history height state =>
      Tracked config.confirmationDepths history height state ∧
        Unreplayed network config.maxSeqnoGap history state := by
  have keeps := tracked_keeps network config.confirmationDepths
  refine ⟨fun past tip kept => ⟨keeps.drain past tip kept.1, ?_⟩,
    fun past height context envelope events after kept traced =>
      ⟨keeps.action past height context envelope events after kept.1 traced, ?_⟩⟩
  · have same := handlePendingUpdates_reconfigured tip.state .new (tip.height + 1)
    have seqnos := same.lastSeqno
    rw [processQueued_eq] at same
    obtain ⟨authorities, drained, -⟩ := same
    have opened : (openBlock tip.state (tip.height + 1)).state = _ := drained
    refine kept.2.frame ?_ (by rw [opened]) (fun role => (seqnos role).trans ?_) (by rw [opened]) ?_
    · rw [verifiedPayloads, drainEvents, List.map_map, List.filterMap_map, List.filterMap_eq_nil_iff]
      exact fun _ _ => rfl
    · rfl
    · rw [opened]
      exact fun update mem => List.mem_of_mem_filter mem
  · rcases traced.burnt kept.1.ordered with ⟨rfl, rfl⟩ | ⟨payload, authority, verified, single, burnt⟩
    · exact kept.2.frame rfl rfl (fun _ => rfl) rfl (List.Subset.refl _)
    · exact kept.2.verify kept.1.ordered verified single burnt

/-- Over any run, the sequence numbers verified for a role ascend in steps of at most the gap, and
neither a payload nor a signing message is verified twice. -/
theorem verifies_once {network : Network} {config : AdministrationInitConfig} {genesisHeight : Nat}
    {blocks : List (List TxInput)} {tip : Tip}
    (ran : blocks.foldlM (processBlock network) ⟨genesisHeight, .new config⟩ = .ok tip) :
    let events := history network ⟨genesisHeight, .new config⟩ blocks
    (∀ role, (0 :: verifiedSeqnos role events).IsChain
      fun seqno next => seqno < next ∧ next ≤ seqno + config.maxSeqnoGap.val) ∧
    (verifiedPayloads events).Pairwise fun first second => first.1 ≠ second.1 ∧
      SigningMessage.forAction first.2.action first.2.seqno network ≠
        SigningMessage.forAction second.2.action second.2.seqno network := by
  intro events
  have kept := (unreplayed_keeps network config).run
    ⟨Tracked.genesis config genesisHeight, Unreplayed.genesis network config⟩ ran
  exact ⟨kept.2.chained, kept.2.distinct⟩

end

section

attribute [local instance] sampleAdminLibs

theorem verifies_once_sample :
    let start : Tip := ⟨1, .new sampleAdminConfig⟩
    let events := history .regtest start sampleAdminBlocks
    sampleAdminBlocks.foldlM (processBlock .regtest) start = .ok sampleAdminTip ∧
      verifiedSeqnos .strataAdministrator events = [1, 2, 3] ∧
      (0 :: verifiedSeqnos .strataAdministrator events).IsChain
        fun seqno next => seqno < next ∧ next ≤ seqno + sampleAdminConfig.maxSeqnoGap.val := by
  intro start events
  obtain ⟨ran, isHistory⟩ := sampleAdmin_trace
  have isEvents : events = sampleAdminHistory := isHistory
  refine ⟨ran, ?_, (verifies_once ran).1 .strataAdministrator⟩
  rw [isEvents]
  rfl

end
end Admin
end Asm
