import AnchorStateMachine.Admin.Wire

/-! The administration subprotocol: authorities with their threshold signatures, the queue of updates
that wait for their activation height, and what an enacted update does. -/

namespace Asm

/-! ### Threshold signatures -/

structure ThresholdConfig where
  signers : List P2wpkhAddress
  threshold : NonZeroU8
  deriving DecidableEq

namespace ThresholdConfig

def validateUpdate (config : ThresholdConfig) (update : ThresholdConfigUpdate) :
    Except ThresholdSignatureError Unit :=
  if ¬ update.addMembers.Nodup then .error .duplicateAddMember
  else if ¬ update.removeMembers.Nodup then .error .duplicateRemoveMember
  else if update.addMembers.any (config.signers.contains ·) then .error .memberAlreadyExists
  else if ¬ update.removeMembers.all (config.signers.contains ·) then .error .memberNotFound
  else
    let updatedSize :=
      config.signers.length + update.addMembers.length - update.removeMembers.length
    if maxSigners < updatedSize then .error (.tooManySigners updatedSize maxSigners)
    else if updatedSize < update.newThreshold.val then
      .error (.invalidThreshold update.newThreshold.val updatedSize)
    else .ok ()

def applyUpdate (config : ThresholdConfig) (update : ThresholdConfigUpdate) :
    Except ThresholdSignatureError ThresholdConfig := do
  config.validateUpdate update
  let kept := config.signers.filter fun signer => ! update.removeMembers.contains signer
  pure ⟨kept ++ update.addMembers, update.newThreshold⟩

def tryNew (signers : List P2wpkhAddress) (threshold : NonZeroU8) :
    Except ThresholdSignatureError ThresholdConfig := do
  let update ← ThresholdConfigUpdate.tryNew signers [] threshold
  applyUpdate ⟨[], threshold⟩ update

end ThresholdConfig

def addSignerIndex (seen : List Nat) (sig : IndexedSignature) :
    Except ThresholdSignatureError (List Nat) :=
  if seen.contains sig.index then .error (.duplicateSignerIndex sig.index)
  else .ok (seen ++ [sig.index])

def checkSignatureSet (signatures : List IndexedSignature) : Except ThresholdSignatureError Unit := do
  let _ ← signatures.foldlM addSignerIndex []
  if maxSigners < signatures.length then throw (.tooManySigners signatures.length maxSigners)

/-- Maps a BIP-137 header byte to the raw recovery id. -/
def normalizeRecoveryId (header : Nat) : Except ThresholdSignatureError Nat :=
  if header ≤ 3 then .ok header
  else if 31 ≤ header ∧ header ≤ 34 then .ok (header - 31)
  else if 35 ≤ header ∧ header ≤ 38 then .ok (header - 35)
  else if 39 ≤ header ∧ header ≤ 42 then .ok (header - 39)
  else .error .invalidSignatureFormat

section

variable [AdminLibs]

def verifyEcdsaSignature (config : ThresholdConfig) (messageHash : Buf32) (sig : IndexedSignature) :
    Except ThresholdSignatureError Unit :=
  match config.signers[sig.index]? with
  | none => .error (.signerIndexOutOfBounds sig.index (config.signers.length - 1))
  | some expectedSigner => do
    let recoveryId ← normalizeRecoveryId sig.recoveryId
    if ¬ AdminLibs.validCompact sig.compact recoveryId then throw .invalidSignatureFormat
    match AdminLibs.recoverEcdsa messageHash sig.compact recoveryId with
    | none => throw (.invalidSignature sig.index)
    | some pubkey =>
      if AdminLibs.wpubkeyHash pubkey ≠ expectedSigner then throw (.invalidSignature sig.index)

def verifyThresholdSignatures (config : ThresholdConfig) (signatures : List IndexedSignature)
    (messageHash : Buf32) : Except ThresholdSignatureError Unit := do
  checkSignatureSet signatures
  if signatures.length < config.threshold.val then
    throw (.insufficientSignatures signatures.length config.threshold.val)
  signatures.forM (verifyEcdsaSignature config messageHash)

end

/-! ### Authorities -/

inductive AdministrationError
  | unknownRole
  | unknownAction (id : Nat)
  | updateAlreadyAcceptedInBlock (txType : UpdateTxType)
  | activationHeightOverflow (currentHeight delay : Nat)
  | invalidSeqno (role : Role) (payloadSeqno lastSeqno : Nat)
  | seqnoGapTooLarge (role : Role) (payloadSeqno lastSeqno : Nat) (maxGap : NonZeroU8)
  | thresholdSignature (error : ThresholdSignatureError)
  deriving DecidableEq

structure MultisigAuthority where
  role : Role
  config : ThresholdConfig
  lastSeqno : Nat
  deriving DecidableEq

/-- Checks a payload's sequence number and signatures, and returns the number to burn. -/
def MultisigAuthority.verifyActionSignature [AdminLibs] (authority : MultisigAuthority)
    (payload : SignedPayload) (maxSeqnoGap : NonZeroU8) (network : Network) :
    Exec (Except AdministrationError Nat) :=
  if payload.seqno ≤ authority.lastSeqno then
    pure (.error (.invalidSeqno authority.role payload.seqno authority.lastSeqno))
  else if 2 ^ 64 ≤ authority.lastSeqno + maxSeqnoGap.val then throw .arithmeticOverflow
  else if authority.lastSeqno + maxSeqnoGap.val < payload.seqno then
    pure (.error (.seqnoGapTooLarge authority.role payload.seqno authority.lastSeqno maxSeqnoGap))
  else
    let message := SigningMessage.forAction payload.action payload.seqno network
    match verifyThresholdSignatures authority.config payload.signatures
        (SigningMessage.computeSighash message) with
    | .error error => pure (.error (.thresholdSignature error))
    | .ok () => pure (.ok payload.seqno)

/-! ### State -/

structure QueuedUpdate where
  id : Nat
  action : UpdateAction
  activationHeight : Nat
  deriving DecidableEq

structure AdministrationInitConfig where
  strataAdministrator : ThresholdConfig
  strataSequencerManager : ThresholdConfig
  alpenAdministrator : ThresholdConfig
  strataSecurityCouncil : ThresholdConfig
  confirmationDepths : ConfirmationDepths
  maxSeqnoGap : NonZeroU8
  deriving DecidableEq

structure AdministrationSubprotoState where
  authorities : List MultisigAuthority
  queued : List QueuedUpdate
  nextUpdateId : Nat
  confirmationDepths : ConfirmationDepths
  maxSeqnoGap : NonZeroU8
  deriving DecidableEq

namespace AdministrationSubprotoState

def new (config : AdministrationInitConfig) : AdministrationSubprotoState where
  authorities := [⟨.strataAdministrator, config.strataAdministrator, 0⟩,
    ⟨.strataSequencerManager, config.strataSequencerManager, 0⟩,
    ⟨.alpenAdministrator, config.alpenAdministrator, 0⟩,
    ⟨.strataSecurityCouncil, config.strataSecurityCouncil, 0⟩]
  queued := []
  nextUpdateId := 0
  confirmationDepths := config.confirmationDepths
  maxSeqnoGap := config.maxSeqnoGap

def confirmationDepth (state : AdministrationSubprotoState) (txType : UpdateTxType) : Option Nat :=
  state.confirmationDepths.get txType

def authority (state : AdministrationSubprotoState) (role : Role) : Option MultisigAuthority :=
  state.authorities[role.index]?

def setAuthority (state : AdministrationSubprotoState) (role : Role) (authority : MultisigAuthority) :
    AdministrationSubprotoState :=
  { state with authorities := state.authorities.set role.index authority }

def applyMultisigUpdate (state : AdministrationSubprotoState) (role : Role)
    (update : ThresholdConfigUpdate) : Except AdministrationError AdministrationSubprotoState :=
  match state.authority role with
  | none => .error .unknownRole
  | some authority =>
    match authority.config.applyUpdate update with
    | .error error => .error (.thresholdSignature error)
    | .ok config => .ok (state.setAuthority role { authority with config })

def findQueued (state : AdministrationSubprotoState) (id : Nat) : Option QueuedUpdate :=
  state.queued.find? (·.id = id)

def enqueue (state : AdministrationSubprotoState) (update : QueuedUpdate) :
    AdministrationSubprotoState :=
  { state with queued := state.queued ++ [update] }

def removeQueued (state : AdministrationSubprotoState) (id : Nat) : AdministrationSubprotoState :=
  { state with queued := state.queued.eraseP (·.id = id) }

def incrementNextUpdateId (state : AdministrationSubprotoState) : Exec AdministrationSubprotoState := do
  let nextUpdateId ← addU32 state.nextUpdateId 1
  pure { state with nextUpdateId }

def processQueued (state : AdministrationSubprotoState) (currentHeight : Nat) :
    List QueuedUpdate × AdministrationSubprotoState :=
  let (ready, rest) := state.queued.partition (·.activationHeight ≤ currentHeight)
  (ready, { state with queued := rest })

end AdministrationSubprotoState

/-- The update types accepted so far in the block being processed, among those of which a block
accepts one. -/
structure BlockUpdateGuard where
  accepted : List UpdateTxType
  deriving DecidableEq

def BlockUpdateGuard.admitUpdate (guard : BlockUpdateGuard) (txType : UpdateTxType) :
    Except AdministrationError BlockUpdateGuard :=
  match txType with
  | .olStfVkUpdate | .eeStfVkUpdate =>
    if guard.accepted.contains txType then .error (.updateAlreadyAcceptedInBlock txType)
    else .ok ⟨guard.accepted ++ [txType]⟩
  | _ => .ok guard

structure ActionContext where
  state : AdministrationSubprotoState
  guard : BlockUpdateGuard
  relayer : MsgRelayer
  deriving DecidableEq

/-! ### Handlers -/

section

variable [AdminLibs]

/-- Enacts an update. On an error nothing has changed. -/
def handleUpdate (state : AdministrationSubprotoState) (relayer : MsgRelayer) :
    UpdateAction → Except AdministrationError (AdministrationSubprotoState × MsgRelayer)
  | .strataAdminMultisig config => do
    pure (← state.applyMultisigUpdate .strataAdministrator config, relayer)
  | .strataSeqManagerMultisig config => do
    pure (← state.applyMultisigUpdate .strataSequencerManager config, relayer)
  | .alpenAdminMultisig config => do
    pure (← state.applyMultisigUpdate .alpenAdministrator config, relayer)
  | .strataSecurityCouncilMultisig config => do
    pure (← state.applyMultisigUpdate .strataSecurityCouncil config, relayer)
  | .operatorSet addMembers removeMembers =>
    pure (state, relayer.relayMsg (.bridge (.updateOperatorSet ⟨addMembers, removeMembers⟩)))
  | .sequencer pubKey => pure (state, relayer.relayMsg (.checkpoint (.updateSequencerKey pubKey)))
  | .olStfVk key =>
    pure (state, (relayer.relayMsg (.checkpoint (.updateCheckpointPredicate key))).emitLog
      (.checkpointPredicateEnacted key))
  | .asmStfVk key => pure (state, relayer.emitLog (.asmStfUpdate key))
  | .eeStfVk key =>
    pure (state, relayer.emitLog (.eePredicateKeyUpdate AdminLibs.systemReservedAccts key))
  | .defcon1 => pure (state, relayer.relayMsg (.bridge .defcon))
  | .defcon3 => pure (state, relayer.relayMsg (.bridge .defcon))
  | .safeHarborAddress address =>
    pure (state, relayer.relayMsg (.bridge (.updateSafeHarborAddress address)))

def enactUpdate (state : AdministrationSubprotoState) (relayer : MsgRelayer) (update : UpdateAction) :
    AdministrationSubprotoState × MsgRelayer :=
  match handleUpdate state relayer update with
  | .ok result => result
  | .error _ => (state, relayer)

def handlePendingUpdates (state : AdministrationSubprotoState) (relayer : MsgRelayer)
    (currentHeight : Nat) : AdministrationSubprotoState × MsgRelayer :=
  let (ready, state) := state.processQueued currentHeight
  ready.foldl (fun (state, relayer) queued => enactUpdate state relayer queued.action) (state, relayer)

/-- Queues an update whose signatures verified, or enacts it if its type has no confirmation depth. -/
def acceptUpdate (context : ActionContext) (update : UpdateAction) (currentHeight : Nat) :
    Exec (Except AdministrationError Unit × ActionContext) :=
  let id := context.state.nextUpdateId
  let txType := update.updateTxType
  match context.guard.admitUpdate txType with
  | .error error => pure (.error error, context)
  | .ok guard =>
    match context.state.confirmationDepth txType with
    | some delay =>
      if currentHeight + delay < u32Bound then do
        let queued := context.state.enqueue ⟨id, update, currentHeight + delay⟩
        let state ← queued.incrementNextUpdateId
        pure (.ok (), { context with state, guard })
      else
        pure (.error (.activationHeightOverflow currentHeight delay), { context with guard })
    | none => do
      let (enacted, relayer) := enactUpdate context.state context.relayer update
      let state ← enacted.incrementNextUpdateId
      pure (.ok (), ⟨state, guard, relayer⟩)

/-- Handles one action. The sequence number is burnt once the signatures verify, whether or not the
action is accepted afterwards. -/
def handleAction (context : ActionContext) (payload : EnvelopePayload) (currentHeight : Nat)
    (network : Network) : Exec (Except AdministrationError Unit × ActionContext) :=
  match payload.resolve fun id => (context.state.findQueued id).map QueuedUpdate.action with
  | .error id => pure (.error (.unknownAction id), context)
  | .ok payload =>
    let role := payload.action.requiredRole
    match context.state.authority role with
    | none => pure (.error .unknownRole, context)
    | some authority => do
      match ← authority.verifyActionSignature payload context.state.maxSeqnoGap network with
      | .error error => pure (.error error, context)
      | .ok seqno =>
        let burnt := context.state.setAuthority role { authority with lastSeqno := seqno }
        match payload.action with
        | .update update => acceptUpdate { context with state := burnt } update currentHeight
        | .cancel targetId _ =>
          pure (.ok (), { context with state := burnt.removeQueued targetId })

/-! ### Transactions -/

inductive AdministrationTxParseError
  | missingPayloadScript (txType : Nat)
  | malformedPayload (txType : Nat)
  | malformedEnvelope
  deriving DecidableEq

def extractSignedPayload (tx : TxInput) (adminTxType : AdminTxType) :
    Except AdministrationTxParseError EnvelopePayload :=
  match tx.tx.input.head?.bind fun input => AdminLibs.taprootLeafScript input.witness with
  | none => .error (.missingPayloadScript tx.tag.txType)
  | some payloadScript =>
    match AdminLibs.parseEnvelopePayload payloadScript with
    | none => .error .malformedEnvelope
    | some envelopePayload =>
      match Wire.decodeSignedPayload adminTxType envelopePayload with
      | none => .error (.malformedPayload tx.tag.txType)
      | some payload => .ok payload

namespace Admin

def parseTx (tx : TxInput) : Option EnvelopePayload :=
  match AdminTxType.ofByte tx.tag.txType with
  | none => none
  | some adminTxType => (extractSignedPayload tx adminTxType).toOption

def processTx (currentHeight : Nat) (network : Network) (context : ActionContext) (tx : TxInput) :
    Exec ActionContext :=
  match parseTx tx with
  | none => pure context
  | some payload => do
    let (_, context) ← handleAction context payload currentHeight network
    pure context

def processTxs (state : AdministrationSubprotoState) (txs : List TxInput) (currentHeight : Nat)
    (network : Network) (relayer : MsgRelayer) : Exec (AdministrationSubprotoState × MsgRelayer) := do
  let (state, relayer) := handlePendingUpdates state relayer currentHeight
  let context ← txs.foldlM (processTx currentHeight network) ⟨state, ⟨[]⟩, relayer⟩
  pure (context.state, context.relayer)

end Admin

end
end Asm
