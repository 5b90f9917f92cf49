import AnchorStateMachine.Checkpoint.Subprotocol

/-! What a checkpoint transaction or a message can do to the checkpoint state. -/

namespace Asm
open Outcome

/-! ### Progression -/

def CheckpointL1Range.heights : CheckpointL1Range → List Nat
  | .empty => []
  | .range startHeight endHeight => List.range' startHeight (endHeight + 1 - startHeight)

/-- A new tip that passes the progression checks in a block of the given height. -/
structure Progresses (last tip : CheckpointTip) (height : Nat)
    (next : Option PendingPredicateTransition) (coverage : CheckpointL1Range) : Prop where
  epoch : tip.epoch = last.epoch + 1
  below : tip.l1Height < height
  ascends : last.l1Height ≤ tip.l1Height
  slot : last.l2Commitment.slot < tip.l2Commitment.slot
  heights : coverage.heights = List.range' (last.l1Height + 1) (tip.l1Height - last.l1Height)
  isEmpty : coverage = .empty ↔ last.l1Height = tip.l1Height
  withinBoundary : last.l1Height < tip.l1Height → ∀ transition, next = some transition →
    tip.l1Height ≤ transition.boundary

theorem verifyProgression_ok {last tip : CheckpointTip} {height : Nat}
    {next : Option PendingPredicateTransition} {coverage : CheckpointL1Range}
    (h : verifyProgression last tip height next = .ok coverage) :
    Progresses last tip height next coverage := by
  unfold verifyProgression at h
  iterate 5 (split at h; · cases h)
  rename_i bounded epoch below ascends slot
  split at h
  · rename_i same
    cases h
    exact ⟨by omega, by omega, by omega, by omega, by simp [CheckpointL1Range.heights, same],
      by simp [same], by omega⟩
  · rename_i different
    split at h
    · cases h
    · rename_i within
      cases h
      refine ⟨by omega, by omega, by omega, by omega, ?_, by simp [different], ?_⟩
      · simp only [CheckpointL1Range.heights]
        congr 1
        omega
      · intro _ transition isNext
        simpa [isNext] using within

theorem Progresses.range {last tip : CheckpointTip} {height first final : Nat}
    {next : Option PendingPredicateTransition}
    (progresses : Progresses last tip height next (.range first final)) :
    first ≤ final ∧ ∀ covered, first ≤ covered → covered ≤ final →
      last.l1Height < covered ∧ covered ≤ tip.l1Height := by
  have heights := progresses.heights
  have moved : last.l1Height ≠ tip.l1Height := fun same => nomatch progresses.isEmpty.mpr same
  have ascends := progresses.ascends
  have count := congrArg List.length heights
  simp only [CheckpointL1Range.heights, List.length_range'] at count
  refine ⟨by omega, fun covered above below => ?_⟩
  have mem : covered ∈ (CheckpointL1Range.range first final).heights := by
    rw [CheckpointL1Range.heights, List.mem_range'_1]
    omega
  rw [heights, List.mem_range'_1] at mem
  omega

theorem mapM_getManifestHash {aux : VerifiedAuxData} {heights : List Nat} {hashes : List Buf32}
    (h : heights.mapM aux.getManifestHash = .ok hashes) :
    heights.map aux.manifestHashes = hashes.map some := by
  induction heights generalizing hashes with
  | nil =>
    cases pure_ok h
    rfl
  | cons height heights ih =>
    rw [List.mapM_cons] at h
    obtain ⟨hash, found, h⟩ := bind_ok h
    obtain ⟨rest, others, h⟩ := bind_ok h
    cases pure_ok h
    unfold VerifiedAuxData.getManifestHash at found
    split at found
    · rename_i present
      cases found
      simp [present, ih others]
    · cases found

theorem coveredManifestsHash_ok [Sha256] {coverage : CheckpointL1Range} {aux : VerifiedAuxData}
    {hash : Buf32} (h : coveredManifestsHash coverage aux = .ok hash) :
    ∃ hashes, hash = computeAsmManifestsHashFromLeaves hashes ∧
      coverage.heights.map aux.manifestHashes = hashes.map some := by
  unfold coveredManifestsHash at h
  split at h
  · cases pure_ok h
    exact ⟨[], rfl, rfl⟩
  · split at h
    · cases h
    · rename_i hashes found
      cases pure_ok h
      refine ⟨hashes, rfl, ?_⟩
      unfold VerifiedAuxData.getManifestHashes at found
      split at found
      · cases found
      · exact mapM_getManifestHash found

/-! ### Messages -/

theorem relayWithdrawals_msgs (relayer : MsgRelayer) (intents : List WithdrawalIntent) :
    (relayWithdrawals relayer intents).msgs =
      relayer.msgs ++ intents.map fun intent => .bridge (.dispatchWithdrawal intent) := by
  unfold relayWithdrawals
  induction intents generalizing relayer with
  | nil => simp
  | cons intent intents ih => simp [ih]

theorem relayWithdrawals_logs (relayer : MsgRelayer) (intents : List WithdrawalIntent) :
    (relayWithdrawals relayer intents).logs = relayer.logs := by
  unfold relayWithdrawals
  induction intents generalizing relayer with
  | nil => rfl
  | cons intent intents ih => simp [ih]

/-! ### Acceptance -/

theorem total_error {pool : DepositPool} {panic : Panic} (h : pool.total = .error panic) :
    panic = .depositTotalTooLarge := by
  unfold DepositPool.total at h
  split at h
  · cases h
  · cases h
    rfl

theorem verifyWithdrawals_error {pool : DepositPool} {intents : List WithdrawalIntent} {panic : Panic}
    (h : pool.verifyWithdrawals intents = .error panic) : panic = .depositTotalTooLarge := by
  unfold DepositPool.verifyWithdrawals at h
  split at h
  · cases h
  · split at h
    · cases h
    · split at h
      · cases h
      · split at h
        · cases h
        · rcases bind_error h with stopped | ⟨_, _, h⟩
          · exact total_error stopped
          · cases h

section

variable [CheckpointLibs]

/-- The steps that lead to an accepted checkpoint. -/
structure Accepts (state : CheckpointState) (height : Nat) (aux : VerifiedAuxData)
    (accepted : AcceptedCheckpoint) : Prop where
  progression : verifyProgression state.verifiedTip accepted.payload.newTip height
    state.nextTransition = .ok accepted.coverage
  manifests : coveredManifestsHash accepted.coverage aux = .ok accepted.asmManifestsHash
  extracted : extractWithdrawalIntents accepted.payload.sidecar.olLogs = .ok accepted.intents
  covered : ∃ remaining, state.deposits.verifyWithdrawals accepted.intents = .ok (.ok remaining) ∧
    accepted.post = CheckpointState.promoteElapsedTransition { state with
      deposits := state.deposits.applyWithdrawals remaining
      verifiedTip := accepted.payload.newTip }
  proven : verifyProof state.checkpointPredicate state.verifiedTip accepted.payload
    accepted.asmManifestsHash = .ok ()

theorem advance_ok {state post : CheckpointState} {payload : CheckpointPayload} {hash : Buf32}
    {intents : List WithdrawalIntent} (h : state.advance payload hash = .ok (.ok (intents, post))) :
    extractWithdrawalIntents payload.sidecar.olLogs = .ok intents ∧
      (∃ remaining, state.deposits.verifyWithdrawals intents = .ok (.ok remaining) ∧
        post = CheckpointState.promoteElapsedTransition { state with
          deposits := state.deposits.applyWithdrawals remaining
          verifiedTip := payload.newTip }) ∧
      verifyProof state.checkpointPredicate state.verifiedTip payload hash = .ok () := by
  unfold CheckpointState.advance at h
  split at h
  · cases pure_ok h
  · rename_i extracted
    obtain ⟨checked, verified, h⟩ := bind_ok h
    split at h
    · cases pure_ok h
    · split at h
      · cases pure_ok h
      · rename_i proven
        cases pure_ok h
        exact ⟨extracted, ⟨_, verified, rfl⟩, proven⟩

theorem acceptPayload_some {state : CheckpointState} {payload : CheckpointPayload} {height : Nat}
    {aux : VerifiedAuxData} {accepted : AcceptedCheckpoint}
    (h : acceptPayload state payload height aux = .ok (some accepted)) :
    Accepts state height aux accepted := by
  unfold acceptPayload at h
  split at h
  · cases pure_ok h
  · rename_i coverage progression
    obtain ⟨hash, manifests, h⟩ := bind_ok h
    obtain ⟨outcome, advanced, h⟩ := bind_ok h
    split at h
    · cases pure_ok h
    · cases pure_ok h
      obtain ⟨extracted, covered, proven⟩ := advance_ok advanced
      exact ⟨progression, manifests, extracted, covered, proven⟩

theorem acceptPayload_payload {state : CheckpointState} {payload : CheckpointPayload} {height : Nat}
    {aux : VerifiedAuxData} {accepted : AcceptedCheckpoint}
    (h : acceptPayload state payload height aux = .ok (some accepted)) : accepted.payload = payload := by
  unfold acceptPayload at h
  split at h
  · cases pure_ok h
  · obtain ⟨_, _, h⟩ := bind_ok h
    obtain ⟨_, _, h⟩ := bind_ok h
    split at h
    · cases pure_ok h
    · cases pure_ok h
      rfl

theorem authenticateCheckpointEnvelope_ok {sequencerKey : Buf32} {spend : SignedEnvelopeSpend}
    {aux : VerifiedAuxData} {leaf : SignedEnvelopeLeaf}
    (h : authenticateCheckpointEnvelope sequencerKey spend aux = .ok leaf) :
    verifyEnvelopeKey sequencerKey spend = .ok () ∧ leaf = spend.unverifiedLeaf := by
  obtain ⟨_, signed, h⟩ := bind_ok h
  obtain ⟨_, _, h⟩ := bind_ok h
  split at h
  · cases pure_ok h
    exact ⟨signed, rfl⟩
  · cases h

theorem acceptCheckpoint_some {state : CheckpointState} {tx : TxInput} {height : Nat}
    {aux : VerifiedAuxData} {accepted : AcceptedCheckpoint}
    (h : acceptCheckpoint state tx height aux = .ok (some accepted)) :
    Accepts state height aux accepted := by
  unfold acceptCheckpoint at h
  split at h
  · cases pure_ok h
  · split at h
    · cases h
    · cases pure_ok h
    · split at h
      · cases pure_ok h
      · exact acceptPayload_some h

theorem acceptCheckpoint_payload {state : CheckpointState} {tx : TxInput} {height : Nat}
    {aux : VerifiedAuxData} {accepted : AcceptedCheckpoint}
    (h : acceptCheckpoint state tx height aux = .ok (some accepted)) :
    ∃ spend, parseCheckpointEnvelope tx = .ok spend ∧
      authenticateCheckpointEnvelope state.sequencerKey spend aux = .ok spend.unverifiedLeaf ∧
      decodeCheckpointPayload spend.unverifiedLeaf.payload = .ok accepted.payload := by
  unfold acceptCheckpoint at h
  split at h
  · cases pure_ok h
  · rename_i spend parsed
    split at h
    · cases h
    · cases pure_ok h
    · rename_i leaf authentic
      obtain ⟨-, rfl⟩ := authenticateCheckpointEnvelope_ok authentic
      split at h
      · cases pure_ok h
      · rename_i payload decoded
        refine ⟨spend, parsed, authentic, ?_⟩
        rw [decoded, acceptPayload_payload h]

/-! ### Halting -/

/-- Why checking a transaction halts: a transaction or a manifest hash that it needs is not there, or
the pool is worth more than all the money. -/
inductive Stops (state : CheckpointState) (tx : TxInput) (height : Nat) (aux : VerifiedAuxData) :
    Panic → Prop
  | spentOutput {spend : SignedEnvelopeSpend} {source : AuxError}
      (parsed : parseCheckpointEnvelope tx = .ok spend)
      (signed : verifyEnvelopeKey state.sequencerKey spend = .ok ())
      (absent : aux.getBitcoinTxout spend.spentOutpoint = .error source) :
      Stops state tx height aux (.envelopeSpentOutputNotProvided spend.spentOutpoint)
  | manifests {spend : SignedEnvelopeSpend} {payload : CheckpointPayload} {start last : Nat}
      {source : AuxError} (parsed : parseCheckpointEnvelope tx = .ok spend)
      (signed : verifyEnvelopeKey state.sequencerKey spend = .ok ())
      (decoded : decodeCheckpointPayload spend.unverifiedLeaf.payload = .ok payload)
      (progression : verifyProgression state.verifiedTip payload.newTip height state.nextTransition =
        .ok (.range start last))
      (absent : aux.getManifestHashes start last = .error source) :
      Stops state tx height aux (.manifestHashesNotProvided start last)
  | depositTotal : Stops state tx height aux .depositTotalTooLarge

theorem authenticateCheckpointEnvelope_missing {sequencerKey : Buf32} {spend : SignedEnvelopeSpend}
    {aux : VerifiedAuxData} {outpoint : OutPoint} {source : AuxError}
    (h : authenticateCheckpointEnvelope sequencerKey spend aux =
      .error (.missingSpentOutput outpoint source)) :
    verifyEnvelopeKey sequencerKey spend = .ok () ∧ outpoint = spend.spentOutpoint ∧
      aux.getBitcoinTxout spend.spentOutpoint = .error source := by
  rcases bind_error h with unsigned | ⟨_, signed, h⟩
  · unfold verifyEnvelopeKey at unsigned
    split at unsigned <;> cases unsigned
  · rcases bind_error h with absent | ⟨_, _, h⟩
    · cases found : aux.getBitcoinTxout spend.spentOutpoint with
      | ok output =>
        rw [found] at absent
        cases absent
      | error error =>
        rw [found] at absent
        cases absent
        exact ⟨signed, rfl, rfl⟩
    · split at h <;> cases h

theorem advance_error {state : CheckpointState} {payload : CheckpointPayload} {hash : Buf32}
    {panic : Panic} (h : state.advance payload hash = .error panic) : panic = .depositTotalTooLarge := by
  unfold CheckpointState.advance at h
  split at h
  · cases h
  · rcases bind_error h with stopped | ⟨_, _, h⟩
    · exact verifyWithdrawals_error stopped
    · split at h
      · cases h
      · split at h <;> cases h

theorem acceptCheckpoint_error {state : CheckpointState} {tx : TxInput} {height : Nat}
    {aux : VerifiedAuxData} {panic : Panic}
    (h : acceptCheckpoint state tx height aux = .error panic) : Stops state tx height aux panic := by
  unfold acceptCheckpoint at h
  split at h
  · cases h
  · rename_i spend parsed
    split at h
    · rename_i missing
      cases h
      obtain ⟨signed, rfl, absent⟩ := authenticateCheckpointEnvelope_missing missing
      exact .spentOutput parsed signed absent
    · cases h
    · rename_i authentic
      obtain ⟨signed, rfl⟩ := authenticateCheckpointEnvelope_ok authentic
      split at h
      · cases h
      · rename_i decoded
        unfold acceptPayload at h
        split at h
        · cases h
        · rename_i progression
          rcases bind_error h with stopped | ⟨_, _, h⟩
          · unfold coveredManifestsHash at stopped
            split at stopped
            · cases stopped
            · split at stopped
              · rename_i absent
                cases stopped
                exact .manifests parsed signed decoded progression absent
              · cases stopped
          · rcases bind_error h with stopped | ⟨_, _, h⟩
            · cases advance_error stopped
              exact .depositTotal
            · split at h <;> cases h

end

/-! ### Predicate queue -/

namespace CheckpointState

def evicted (state : CheckpointState) : Option PendingPredicateTransition :=
  if state.pendingTransition.length = maxPendingPredicateTransitions then
    state.pendingTransition.head?
  else none

def room (state : CheckpointState) : List PendingPredicateTransition :=
  if state.pendingTransition.length = maxPendingPredicateTransitions then
    state.pendingTransition.tail
  else state.pendingTransition

theorem pending_eq_evicted_room (state : CheckpointState) :
    state.pendingTransition = state.evicted.toList ++ state.room := by
  unfold evicted room
  split
  · cases state.pendingTransition <;> rfl
  · rfl

theorem queuePredicateTransition_ok {state post : CheckpointState}
    {transition : PendingPredicateTransition}
    (h : state.queuePredicateTransition transition = .ok post) :
    post = { state with pendingTransition := state.room ++ [transition] } := by
  unfold queuePredicateTransition at h
  split at h
  · cases h
  · cases pure_ok h
    rfl

theorem queuePredicateTransition_error {state : CheckpointState}
    {transition : PendingPredicateTransition} {panic : Panic}
    (h : state.queuePredicateTransition transition = .error panic) :
    ∃ last ∈ state.pendingTransition, transition.boundary ≤ last.boundary := by
  unfold queuePredicateTransition at h
  split at h
  · rename_i last found
    obtain ⟨isLast, late⟩ := Option.filter_eq_some_iff.mp found
    exact ⟨last, List.mem_of_getLast? isLast, by simpa using late⟩
  · cases h

theorem queuePredicateTransition_panic {state : CheckpointState}
    {transition : PendingPredicateTransition} {panic : Panic}
    (h : state.queuePredicateTransition transition = .error panic) :
    ∃ last next, panic = .predicateBoundaryNotIncreasing last next := by
  unfold queuePredicateTransition at h
  split at h
  · cases h
    exact ⟨_, _, rfl⟩
  · cases h

theorem promoteElapsedTransition_cases (state : CheckpointState) :
    (state.promoteElapsedTransition = state ∧
      ∀ next, state.pendingTransition.head? = some next →
        state.verifiedTip.l1Height < next.boundary) ∨
    ∃ next rest, state.pendingTransition = next :: rest ∧
      next.boundary ≤ state.verifiedTip.l1Height ∧
      state.promoteElapsedTransition =
        { state with checkpointPredicate := next.predicate, pendingTransition := rest } := by
  unfold promoteElapsedTransition
  split
  · rename_i empty
    exact .inl ⟨rfl, by simp [empty]⟩
  · rename_i next rest pending
    split
    · rename_i elapsed
      exact .inr ⟨next, rest, pending, elapsed, rfl⟩
    · rename_i early
      refine .inl ⟨rfl, ?_⟩
      intro head isHead
      rw [pending] at isHead
      cases isHead
      omega

@[simp] theorem promoteElapsedTransition_verifiedTip (state : CheckpointState) :
    state.promoteElapsedTransition.verifiedTip = state.verifiedTip := by
  rcases promoteElapsedTransition_cases state with ⟨same, _⟩ | ⟨_, _, _, _, same⟩ <;> rw [same]

@[simp] theorem promoteElapsedTransition_sequencerKey (state : CheckpointState) :
    state.promoteElapsedTransition.sequencerKey = state.sequencerKey := by
  rcases promoteElapsedTransition_cases state with ⟨same, _⟩ | ⟨_, _, _, _, same⟩ <;> rw [same]

@[simp] theorem promoteElapsedTransition_deposits (state : CheckpointState) :
    state.promoteElapsedTransition.deposits = state.deposits := by
  rcases promoteElapsedTransition_cases state with ⟨same, _⟩ | ⟨_, _, _, _, same⟩ <;> rw [same]

end CheckpointState

theorem Accepts.tip [CheckpointLibs] {state : CheckpointState} {height : Nat} {aux : VerifiedAuxData}
    {accepted : AcceptedCheckpoint} (accepts : Accepts state height aux accepted) :
    accepted.post.verifiedTip = accepted.payload.newTip := by
  obtain ⟨_, -, advanced⟩ := accepts.covered
  rw [advanced, CheckpointState.promoteElapsedTransition_verifiedTip]

/-! ### Steps -/

namespace Checkpoint

inductive Event
  | tx (height : Nat) (aux : VerifiedAuxData) (tx : TxInput)
  | msg (l1ref : L1BlockCommitment) (msg : CheckpointIncomingMsg)

theorem processMsg_tip {state post : CheckpointState} {l1ref : L1BlockCommitment}
    {msg : CheckpointIncomingMsg} (h : processMsg l1ref state msg = .ok post) :
    post.verifiedTip = state.verifiedTip := by
  cases msg with
  | depositProcessed amount =>
    obtain ⟨_, _, h⟩ := bind_ok h
    cases pure_ok h
    rfl
  | updateSequencerKey key =>
    cases pure_ok h
    rfl
  | updateCheckpointPredicate predicate => rw [CheckpointState.queuePredicateTransition_ok h]

variable [CheckpointLibs]

def accepts (state : CheckpointState) : Event → Exec (Option AcceptedCheckpoint)
  | .tx height aux tx =>
    if tx.tag.txType = olStfCheckpointTxType then acceptCheckpoint state tx height aux else pure none
  | .msg _ _ => pure none

def step (state : CheckpointState) (event : Event) : Exec CheckpointState :=
  match event with
  | .tx _ _ _ => do
    match ← accepts state event with
    | none => pure state
    | some accepted => pure accepted.post
  | .msg l1ref msg => processMsg l1ref state msg

theorem step_cases {state post : CheckpointState} {event : Event} (h : step state event = .ok post) :
    (accepts state event = .ok none ∧ post = state ∧ ∃ height aux tx, event = .tx height aux tx) ∨
    (∃ height aux tx accepted, event = .tx height aux tx ∧
      accepts state event = .ok (some accepted) ∧ Accepts state height aux accepted ∧
      post = accepted.post) ∨
    ∃ l1ref msg, event = .msg l1ref msg ∧ accepts state event = .ok none ∧
      processMsg l1ref state msg = .ok post := by
  cases event with
  | msg l1ref msg => exact .inr (.inr ⟨l1ref, msg, rfl, rfl, h⟩)
  | tx height aux tx =>
    obtain ⟨outcome, decided, h⟩ := bind_ok h
    cases outcome with
    | none =>
      cases pure_ok h
      exact .inl ⟨decided, rfl, height, aux, tx, rfl⟩
    | some accepted =>
      cases pure_ok h
      refine .inr (.inl ⟨height, aux, tx, accepted, rfl, decided, ?_, rfl⟩)
      simp only [accepts] at decided
      split at decided
      · exact acceptCheckpoint_some decided
      · cases pure_ok decided

theorem step_error {state : CheckpointState} {event : Event} {panic : Panic}
    (h : step state event = .error panic) :
    (∃ height aux tx, event = .tx height aux tx ∧ tx.tag.txType = olStfCheckpointTxType ∧
      Stops state tx height aux panic) ∨
    ∃ l1ref msg, event = .msg l1ref msg ∧ processMsg l1ref state msg = .error panic := by
  cases event with
  | msg l1ref msg => exact .inr ⟨l1ref, msg, rfl, h⟩
  | tx height aux tx =>
    rcases bind_error h with stopped | ⟨outcome, _, h⟩
    · simp only [accepts] at stopped
      split at stopped
      · exact .inl ⟨height, aux, tx, rfl, ‹_›, acceptCheckpoint_error stopped⟩
      · cases stopped
    · cases outcome <;> cases h

theorem processTx_step (height : Nat) (aux : VerifiedAuxData) (state : CheckpointState)
    (relayer : MsgRelayer) (tx : TxInput) :
    Prod.fst <$> processTx height aux (state, relayer) tx = step state (.tx height aux tx) := by
  simp only [processTx, step, accepts]
  split
  · unfold handleCheckpointTx
    cases acceptCheckpoint state tx height aux with
    | error panic => rfl
    | ok outcome => cases outcome <;> rfl
  · rfl

/-- The states of a block's transactions, whatever is relayed meanwhile. -/
theorem processTxs_events (state : CheckpointState) (txs : List TxInput) (height : Nat)
    (aux : VerifiedAuxData) (relayer : MsgRelayer) :
    Prod.fst <$> processTxs state txs height aux relayer =
      (txs.map (Event.tx height aux)).foldlM step state := by
  unfold processTxs
  induction txs generalizing state relayer with
  | nil => rfl
  | cons tx txs ih =>
    simp only [List.map_cons, List.foldlM_cons, ← processTx_step height aux state relayer tx]
    cases processTx height aux (state, relayer) tx with
    | error panic => rfl
    | ok processed => exact ih processed.1 processed.2

theorem processMsgs_events (state : CheckpointState) (msgs : List CheckpointIncomingMsg)
    (l1ref : L1BlockCommitment) :
    processMsgs state msgs l1ref = (msgs.map (Event.msg l1ref)).foldlM step state := by
  rw [List.foldlM_map]
  rfl

end Checkpoint
end Asm
