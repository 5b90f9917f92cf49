import Mathlib.Logic.Function.Basic
import AnchorStateMachine.Admin.Run

/-! What becomes of the updates that administration hands to `handle_update`. A block hands over the
updates that are due, then those that its transactions apply. What it relays and logs, and how it
changes the signers of the roles, comes from these updates in this order. -/

namespace Asm
open Outcome

/-! ### Signers -/

/-- The change of a role's signers that an update makes. -/
def UpdateAction.signersUpdate : UpdateAction → Option (Role × ThresholdConfigUpdate)
  | .strataAdminMultisig config => some (.strataAdministrator, config)
  | .strataSeqManagerMultisig config => some (.strataSequencerManager, config)
  | .alpenAdminMultisig config => some (.alpenAdministrator, config)
  | .strataSecurityCouncilMultisig config => some (.strataSecurityCouncil, config)
  | _ => none

def AdministrationInitConfig.signers (config : AdministrationInitConfig) : Role → ThresholdConfig
  | .strataAdministrator => config.strataAdministrator
  | .strataSequencerManager => config.strataSequencerManager
  | .alpenAdministrator => config.alpenAdministrator
  | .strataSecurityCouncil => config.strataSecurityCouncil

/-- The signers once an update is enacted. A change that does not fit them is dropped. -/
def enactSigners (signers : Role → ThresholdConfig) (update : UpdateAction) : Role → ThresholdConfig :=
  match update.signersUpdate with
  | none => signers
  | some (role, change) =>
    match (signers role).applyUpdate change with
    | .error _ => signers
    | .ok config => Function.update signers role config

theorem Role.index_injective : Function.Injective Role.index := by
  intro role other same
  cases role <;> cases other <;> first | rfl | cases same

namespace AdministrationSubprotoState

/-- Every role has an authority, and these are the signers. -/
def SignedBy (state : AdministrationSubprotoState) (signers : Role → ThresholdConfig) : Prop :=
  ∀ role, (state.authority role).map MultisigAuthority.config = some (signers role)

variable {state : AdministrationSubprotoState} {signers : Role → ThresholdConfig} {role : Role}
  {authority : MultisigAuthority}

theorem authority_setAuthority (known : (state.authority role).isSome) (authority : MultisigAuthority)
    (other : Role) : (state.setAuthority role authority).authority other =
      if other = role then some authority else state.authority other := by
  have bound : role.index < state.authorities.length := by
    simpa [AdministrationSubprotoState.authority] using known
  unfold setAuthority AdministrationSubprotoState.authority
  by_cases own : other = role
  · simp [own, bound]
  · have apart : role.index ≠ other.index := fun same => own (Role.index_injective same).symm
    simp [own, apart]

theorem new_signedBy (config : AdministrationInitConfig) : (new config).SignedBy config.signers := by
  intro role
  cases role <;> rfl

theorem SignedBy.config (signed : state.SignedBy signers) (found : state.authority role = some authority) :
    authority.config = signers role := by
  have same := signed role
  rw [found] at same
  exact Option.some.inj same

theorem SignedBy.isSome (signed : state.SignedBy signers) (role : Role) :
    (state.authority role).isSome := by
  have same := congrArg Option.isSome (signed role)
  simpa using same

theorem SignedBy.setAuthority (signed : state.SignedBy signers) (role : Role)
    (authority : MultisigAuthority) :
    (state.setAuthority role authority).SignedBy (Function.update signers role authority.config) := by
  intro other
  rw [authority_setAuthority (signed.isSome role)]
  by_cases own : other = role
  · simp [own]
  · simpa [own] using signed other

theorem SignedBy.burn {payload : SignedPayload} (signed : state.SignedBy signers)
    (found : state.authority payload.action.requiredRole = some authority) :
    (state.burn payload authority).SignedBy signers := by
  intro role
  unfold AdministrationSubprotoState.burn
  rw [authority_setAuthority (signed.isSome _)]
  split
  · rename_i own
    have same : authority.config = signers payload.action.requiredRole := signed.config found
    rw [own]
    exact congrArg some same
  · exact signed role

theorem SignedBy.applyMultisigUpdate (signed : state.SignedBy signers) {change : ThresholdConfigUpdate}
    {config : ThresholdConfig} (fits : (signers role).applyUpdate change = .ok config) :
    ∃ after, state.applyMultisigUpdate role change = .ok after ∧
      after.SignedBy (Function.update signers role config) := by
  obtain ⟨authority, found⟩ := Option.isSome_iff_exists.mp (signed.isSome role)
  rw [← signed.config found] at fits
  refine ⟨state.setAuthority role { authority with config }, ?_, signed.setAuthority role _⟩
  simp only [AdministrationSubprotoState.applyMultisigUpdate, found, fits]

theorem SignedBy.applyMultisigUpdate_error (signed : state.SignedBy signers)
    {change : ThresholdConfigUpdate} {error : ThresholdSignatureError}
    (unfit : (signers role).applyUpdate change = .error error) :
    state.applyMultisigUpdate role change = .error (.thresholdSignature error) := by
  obtain ⟨authority, found⟩ := Option.isSome_iff_exists.mp (signed.isSome role)
  rw [← signed.config found] at unfit
  simp only [AdministrationSubprotoState.applyMultisigUpdate, found, unfit]

end AdministrationSubprotoState

section

variable [AdminLibs] {state : AdministrationSubprotoState} {relayer : MsgRelayer}
  {signers : Role → ThresholdConfig} {update : UpdateAction}

theorem handleUpdate_multisig {role : Role} {change : ThresholdConfigUpdate}
    (asks : update.signersUpdate = some (role, change)) :
    handleUpdate state relayer update =
      (do pure (← state.applyMultisigUpdate role change, relayer)) := by
  cases update <;> cases asks <;> rfl

theorem handleUpdate_other (asks : update.signersUpdate = none) :
    ∃ relayed, handleUpdate state relayer update = .ok (state, relayed) := by
  cases update with
  | strataAdminMultisig _ | strataSeqManagerMultisig _ | alpenAdminMultisig _
  | strataSecurityCouncilMultisig _ => cases asks
  | _ => exact ⟨_, rfl⟩

theorem enactUpdate_signedBy (relayer : MsgRelayer) (update : UpdateAction)
    (signed : state.SignedBy signers) :
    (enactUpdate state relayer update).1.SignedBy (enactSigners signers update) := by
  unfold enactSigners enactUpdate
  cases asks : update.signersUpdate with
  | none =>
    obtain ⟨relayed, handled⟩ := @handleUpdate_other _ state relayer _ asks
    simpa only [handled] using signed
  | some asked =>
    obtain ⟨role, change⟩ := asked
    rw [handleUpdate_multisig asks]
    cases fits : (signers role).applyUpdate change with
    | error error =>
      rw [signed.applyMultisigUpdate_error fits]
      simp only [fits]
      exact signed
    | ok config =>
      obtain ⟨after, applied, held⟩ := signed.applyMultisigUpdate fits
      rw [applied]
      simp only [fits]
      exact held

theorem handlePendingUpdates_signedBy (signed : state.SignedBy signers) (height : Nat) :
    (handlePendingUpdates state relayer height).1.SignedBy
      (((state.processQueued height).1.map QueuedUpdate.action).foldl enactSigners signers) := by
  suffices drained : ∀ (ready : List QueuedUpdate) (acc : AdministrationSubprotoState × MsgRelayer)
      (signers : Role → ThresholdConfig), acc.1.SignedBy signers → (ready.foldl
        (fun acc queued => enactUpdate acc.1 acc.2 queued.action) acc).1.SignedBy
        ((ready.map QueuedUpdate.action).foldl enactSigners signers) from
    drained _ ((state.processQueued height).2, relayer) signers signed
  intro ready
  induction ready with
  | nil => exact fun acc signers signed => signed
  | cons queued ready ih =>
    intro acc signers signed
    exact ih _ _ (enactUpdate_signedBy acc.2 queued.action signed)

end

/-! ### Handing over -/

def AdminEvent.enacted : AdminEvent → Option UpdateAction
  | .drained update => some update.action
  | .applied _ update => some update
  | _ => none

def enactedUpdates (events : List AdminEvent) : List UpdateAction := events.filterMap AdminEvent.enacted

namespace Admin

theorem enactedUpdates_drainEvents (tip : Tip) :
    enactedUpdates (drainEvents tip) = (tip.state.processQueued (tip.height + 1)).1.map
      QueuedUpdate.action := by
  rw [enactedUpdates, drainEvents, List.filterMap_map]
  show List.filterMap (some ∘ QueuedUpdate.action) _ = _
  rw [List.filterMap_eq_map]

/-- The signers that the updates enacted so far leave. -/
def signersAfter (signers : Role → ThresholdConfig) (history : List (Nat × AdminEvent)) :
    Role → ThresholdConfig :=
  (enactedUpdates (history.map Prod.snd)).foldl enactSigners signers

theorem signersAfter_append (signers : Role → ThresholdConfig) (history : List (Nat × AdminEvent))
    (height : Nat) (events : List AdminEvent) :
    signersAfter signers (history ++ events.map (height, ·)) =
      (enactedUpdates events).foldl enactSigners (signersAfter signers history) := by
  have same : (events.map (height, ·)).map Prod.snd = events := by
    rw [List.map_map]
    exact List.map_id events
  rw [signersAfter, List.map_append, same, enactedUpdates, List.filterMap_append, List.foldl_append]
  rfl

variable [AdminLibs] {network : Network}

theorem traced_enacted {context after : ActionContext} {envelope : EnvelopePayload} {height : Nat}
    {events : List AdminEvent} {updates : List UpdateAction}
    (traced : Traced context envelope height network events after)
    (enacted : context.relayer.Enacted updates) :
    after.relayer.Enacted (updates ++ enactedUpdates events) := by
  cases traced with
  | unverified | cancelled _ _ | rejected _ _ _ | queued _ _ _ _ =>
    show context.relayer.Enacted (updates ++ [])
    rwa [List.append_nil]
  | @applied payload authority update _ _ guard verified isUpdate immediate applied =>
    have relayed := enactUpdate_enacted (context.state.burn payload authority) update enacted
    rw [applied] at relayed
    exact relayed

theorem processTxs_enacted (tip : Tip) {txs : List TxInput} {after : AdministrationSubprotoState}
    {relayer : MsgRelayer}
    (h : processTxs tip.state txs (tip.height + 1) network .new = .ok (after, relayer)) :
    relayer.Enacted (enactedUpdates (blockEvents network tip txs)) := by
  obtain ⟨context, ran, h⟩ := bind_ok h
  cases pure_ok h
  have held := foldlM_history (fun visited (context : ActionContext) =>
    context.relayer.Enacted (enactedUpdates (drainEvents tip ++
      visited.flatMap (txEvents network (tip.height + 1))))) [] ?_ ?_ ran
  · exact held
  · intro tx _ visited before context enacted step
    rw [List.flatMap_append, ← List.append_assoc, List.flatMap_singleton, enactedUpdates,
      List.filterMap_append, ← enactedUpdates, ← enactedUpdates]
    rcases processTx_traced step with ⟨silent, rfl⟩ | ⟨envelope, traced⟩
    · simpa [silent, enactedUpdates] using enacted
    · exact traced_enacted traced enacted
  · simp only [List.flatMap_nil, List.append_nil, enactedUpdates_drainEvents]
    exact handlePendingUpdates_enacted tip.state (tip.height + 1)

theorem signers_keeps (network : Network) (signers : Role → ThresholdConfig) :
    Keeps network fun history _ state => state.SignedBy (signersAfter signers history) := by
  constructor
  · intro past tip signed
    rw [signersAfter_append, enactedUpdates_drainEvents]
    exact handlePendingUpdates_signedBy signed (tip.height + 1)
  · intro past height context envelope events after signed traced
    rw [signersAfter_append]
    cases traced with
    | unverified => exact signed
    | cancelled verified _ | rejected _ verified _ | queued _ verified _ _ =>
      exact signed.burn verified.authorized
    | @applied payload authority update state relayer guard verified _ _ enacted =>
      have held := enactUpdate_signedBy context.relayer update (signed.burn verified.authorized)
      rw [enacted] at held
      exact held

/-- One block hands over what is drained, and then what its transactions apply. -/
structure HandsOver (network : Network) (pre : Tip) (txs : List TxInput) (post : Tip) : Prop where
  relayed : ∃ relayer, processTxs pre.state txs (pre.height + 1) network .new = .ok (post.state, relayer) ∧
    relayer.Enacted (enactedUpdates (blockEvents network pre txs))
  signers : ∀ signers, pre.state.SignedBy signers →
    post.state.SignedBy ((enactedUpdates (blockEvents network pre txs)).foldl enactSigners signers)

theorem processBlock_handsOver {pre post : Tip} {txs : List TxInput}
    (h : processBlock network pre txs = .ok post) : HandsOver network pre txs post := by
  obtain ⟨context, ran, isPost⟩ := processBlock_ok h
  obtain ⟨⟨state, relayer⟩, returned, h⟩ := bind_ok h
  cases pure_ok h
  refine ⟨⟨relayer, returned, processTxs_enacted pre returned⟩, fun signers signed => ?_⟩
  have start : pre.state.SignedBy (signersAfter signers []) := signed
  have held := (signers_keeps network signers).part start ran
  rw [signersAfter_append] at held
  cases isPost
  exact held

end Admin
end Asm
