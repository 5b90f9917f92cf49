import AnchorStateMachine.Admin.Enactment
import AnchorStateMachine.Library.History
import AnchorStateMachine.Worker.Authority

/-! Where the updates that take effect come from. Whatever administration hands on was accepted from
a payload that enough of the signers of its role had signed, as they stood at that point of the run,
and then waited out its delay. -/

namespace Asm
open Outcome History SortedVec

/-! ### The history of a run -/

namespace AdminEvent

/-- The update that takes effect with the event, under its id. -/
def enacts : AdminEvent → Option (Nat × UpdateAction)
  | drained update => some (update.id, update.action)
  | applied id update => some (id, update)
  | _ => none

theorem enacted_eq (event : AdminEvent) : event.enacted = event.enacts.map Prod.snd := by
  cases event <;> rfl

end AdminEvent

namespace Admin

variable [AdminLibs] {network : Network} {config : AdministrationInitConfig}
  {history : List (Nat × AdminEvent)} {block height id : Nat} {update : UpdateAction}
  {state : AdministrationSubprotoState}

/-- The block accepted the update under the id, from a payload that the signers of its role at that
point had signed, and nothing has settled it since. -/
def Waits (network : Network) (config : AdministrationInitConfig) (history : List (Nat × AdminEvent))
    (block id : Nat) (update : UpdateAction) : Prop :=
  ∃ before envelope payload later,
    history = before ++ (block, .verified envelope payload) :: (block, .accepted id update) :: later ∧
    payload.action = .update update ∧
    verifyThresholdSignatures (signersAfter config.signers before update.requiredRole) payload.signatures
      (SigningMessage.computeSighash (SigningMessage.forAction payload.action payload.seqno network)) =
      .ok () ∧
    ∀ event ∈ later, event.2.settles id = false

/-- An update takes effect only if it was waiting, once its delay is over. -/
def Sanctioned (network : Network) (config : AdministrationInitConfig)
    (before : List (Nat × AdminEvent)) (event : Nat × AdminEvent) : Prop :=
  ∀ id update, event.2.enacts = some (id, update) → ∃ block,
    event.1 = block + (config.confirmationDepths.get update.updateTxType).getD 0 ∧
    Waits network config before block id update

theorem Waits.append (waits : Waits network config history block id update)
    {more : List (Nat × AdminEvent)} (unsettled : ∀ event ∈ more, event.2.settles id = false) :
    Waits network config (history ++ more) block id update := by
  obtain ⟨before, envelope, payload, later, rfl, action, signed, still⟩ := waits
  refine ⟨before, envelope, payload, later ++ more, by simp, action, signed, fun event mem => ?_⟩
  exact (List.mem_append.mp mem).elim (still event) (unsettled event)

/-- The invariant: the signers are those that the enacted updates leave, each queued update waits, and
each update that took effect was waiting when it did. -/
structure Provenance (network : Network) (config : AdministrationInitConfig)
    (history : List (Nat × AdminEvent)) (height : Nat) (state : AdministrationSubprotoState) : Prop where
  tracked : Tracked config.confirmationDepths history height state
  signers : state.SignedBy (signersAfter config.signers history)
  queued : ∀ queued ∈ state.queued, ∃ block depth,
    config.confirmationDepths.get queued.action.updateTxType = some depth ∧
    queued.activationHeight = block + depth ∧
    Waits network config history block queued.id queued.action
  justified : Justified (Sanctioned network config) history

theorem Provenance.genesis (network : Network) (config : AdministrationInitConfig) (height : Nat) :
    Provenance network config [] height (.new config) :=
  ⟨.genesis config height, AdministrationSubprotoState.new_signedBy config, List.forall_mem_nil _, .nil⟩

/-! ### Steps -/

namespace Provenance

theorem silent (provenance : Provenance network config history height state) {events : List AdminEvent}
    (silent : ∀ event ∈ events, event.enacts = none) :
    Justified (Sanctioned network config) (history ++ events.map (height, ·)) := by
  refine provenance.justified.append fun front event back split id update enacts => ?_
  have mem : event ∈ events.map (height, ·) := by simp [split]
  obtain ⟨event, listed, rfl⟩ := List.mem_map.mp mem
  cases (silent event listed).symm.trans enacts

theorem drain {tip : Tip} (provenance : Provenance network config history tip.height tip.state) :
    Provenance network config (history ++ (drainEvents tip).map (tip.height + 1, ·)) (tip.height + 1)
      (openBlock tip.state (tip.height + 1)).state := by
  have tracked := provenance.tracked
  have ascending := tracked.ordered.ascending
  have split := processQueued_eq tip.state (tip.height + 1)
  obtain ⟨authorities, drained, -⟩ :=
    handlePendingUpdates_reconfigured tip.state .new (tip.height + 1)
  have events : (drainEvents tip).map (tip.height + 1, ·) =
      (tip.state.queued.filter fun queued => queued.activationHeight ≤ tip.height + 1).map
        fun queued => (tip.height + 1, .drained queued) := by
    rw [drainEvents, split, List.map_map]
    rfl
  refine ⟨tracked.drain, (signers_keeps network config.signers).drain _ tip provenance.signers, ?_, ?_⟩
  · intro queued mem
    have opened : (openBlock tip.state (tip.height + 1)).state =
        { (tip.state.processQueued (tip.height + 1)).2 with authorities } := drained
    rw [opened] at mem
    have stays : queued ∈ (tip.state.processQueued (tip.height + 1)).2.queued := mem
    rw [split] at stays
    obtain ⟨inQueue, late⟩ := List.mem_filter.mp stays
    obtain ⟨block, depth, isDepth, due, waits⟩ := provenance.queued queued inQueue
    refine ⟨block, depth, isDepth, due, waits.append fun event isEvent => ?_⟩
    rw [events] at isEvent
    obtain ⟨other, isDue, rfl⟩ := List.mem_map.mp isEvent
    obtain ⟨otherQueued, early⟩ := List.mem_filter.mp isDue
    refine decide_eq_false fun same => ?_
    cases eq_of_key_eq ascending otherQueued inQueue same
    simp [early] at late
  · rw [events]
    refine provenance.justified.append fun front event back cut id update enacts => ?_
    obtain ⟨earlier, rest, ready, rfl, tail⟩ := List.map_eq_append_iff.mp cut
    obtain ⟨queued, others, rfl, rfl, -⟩ := List.map_eq_cons_iff.mp tail
    cases enacts
    have isDue : queued ∈ tip.state.queued.filter fun queued =>
        queued.activationHeight ≤ tip.height + 1 := by simp [ready]
    obtain ⟨inQueue, early⟩ := List.mem_filter.mp isDue
    obtain ⟨block, depth, isDepth, due, waits⟩ := provenance.queued queued inQueue
    have ahead := tracked.ahead queued inQueue
    have early : queued.activationHeight ≤ tip.height + 1 := by simpa using early
    refine ⟨block, ?_, waits.append fun event isEvent => ?_⟩
    · rw [isDepth, Option.getD_some]
      show tip.height + 1 = block + depth
      omega
    · obtain ⟨other, isEarlier, rfl⟩ := List.mem_map.mp isEvent
      have sorted : StrictlySorted QueuedUpdate.id (earlier ++ queued :: others) :=
        ready ▸ ascending.sublist List.filter_sublist
      have below := (List.pairwise_append.mp sorted).2.2 other isEarlier queued (.head _)
      exact decide_eq_false (Nat.ne_of_lt below)

section

variable {context : ActionContext} {envelope : EnvelopePayload} {payload : SignedPayload}
  {authority : MultisigAuthority}

/-- A payload that verifies was signed by the signers that the enacted updates have left. -/
theorem accepted (provenance : Provenance network config history height context.state)
    (verified : Verified context.state envelope network payload authority)
    (isUpdate : payload.action = .update update) (id : Nat) :
    Waits network config (history ++
      [(height, .verified envelope payload), (height, .accepted id update)]) height id update := by
  refine ⟨history, envelope, payload, [], rfl, isUpdate, ?_, List.forall_mem_nil _⟩
  have signed := (verifyActionSignature_ok verified.signed).2.2.2
  rwa [provenance.signers.config verified.authorized,
    show payload.action.requiredRole = update.requiredRole by rw [isUpdate]; rfl] at signed

theorem queued_append (provenance : Provenance network config history height context.state)
    {events : List AdminEvent} {queued : QueuedUpdate} (mem : queued ∈ context.state.queued)
    (unsettled : ∀ event ∈ events, event.settles queued.id = false) : ∃ block depth,
      config.confirmationDepths.get queued.action.updateTxType = some depth ∧
      queued.activationHeight = block + depth ∧
      Waits network config (history ++ events.map (height, ·)) block queued.id queued.action := by
  obtain ⟨block, depth, isDepth, due, waits⟩ := provenance.queued queued mem
  refine ⟨block, depth, isDepth, due, waits.append fun event isEvent => ?_⟩
  obtain ⟨event, listed, rfl⟩ := List.mem_map.mp isEvent
  exact unsettled event listed

end

theorem action {context after : ActionContext} {envelope : EnvelopePayload} {events : List AdminEvent}
    (provenance : Provenance network config history height context.state)
    (traced : Traced context envelope height network events after) :
    Provenance network config (history ++ events.map (height, ·)) height after.state := by
  have tracked := (tracked_keeps network config.confirmationDepths).action _ _ _ _ _ _
    provenance.tracked traced
  have signers := (signers_keeps network config.signers).action _ _ _ _ _ _ provenance.signers traced
  cases traced with
  | unverified => simpa using provenance
  | @cancelled payload authority targetId target verified isCancel =>
    refine ⟨tracked, signers, fun queued mem => ?_, provenance.silent (by simp [AdminEvent.enacts])⟩
    replace mem : queued ∈ context.state.queued.eraseP (·.id = targetId) := mem
    rw [eraseP_key provenance.tracked.ordered.ascending] at mem
    obtain ⟨inQueue, other⟩ := List.mem_filter.mp mem
    refine provenance.queued_append inQueue ?_
    have apart : queued.id ≠ targetId := by simpa using other
    simp [AdminEvent.settles, apart.symm]
  | @rejected payload authority update guard verified isUpdate =>
    exact ⟨tracked, signers, fun queued mem => provenance.queued_append mem
      (by simp [AdminEvent.settles]), provenance.silent (by simp [AdminEvent.enacts])⟩
  | @queued payload authority update delay guard verified isUpdate waits =>
    refine ⟨tracked, signers, fun queued mem => ?_, provenance.silent (by simp [AdminEvent.enacts])⟩
    rcases List.mem_append.mp mem with inQueue | new
    · exact provenance.queued_append inQueue (by simp [AdminEvent.settles])
    · cases List.mem_singleton.mp new
      rw [← provenance.tracked.waits]
      exact ⟨height, delay, waits, rfl, provenance.accepted verified isUpdate _⟩
  | @applied payload authority update state relayer guard verified isUpdate immediate enacted =>
    have accepted := provenance.accepted verified isUpdate context.state.nextUpdateId
    obtain ⟨authorities, same, -⟩ :=
      enactUpdate_reconfigured (context.state.burn payload authority) context.relayer update
    refine ⟨tracked, signers, fun queued mem => ?_, ?_⟩
    · rw [enacted] at same
      subst same
      have older := provenance.tracked.ordered.below queued mem
      refine provenance.queued_append mem ?_
      simp [AdminEvent.settles]
      omega
    · have before := @silent _ _ _ _ _ _ provenance
        [.verified envelope payload, .accepted context.state.nextUpdateId update]
        (by simp [AdminEvent.enacts])
      have now : Sanctioned network config (history ++ [.verified envelope payload,
          .accepted context.state.nextUpdateId update].map (height, ·))
          (height, .applied context.state.nextUpdateId update) := by
        intro id other enacts
        cases enacts
        refine ⟨height, ?_, accepted⟩
        rw [← provenance.tracked.waits]
        exact (congrArg (height + ·) (congrArg (Option.getD · 0) immediate)).symm
      have whole := before.concat now
      rw [List.append_assoc] at whole
      exact whole

end Provenance

theorem provenance_keeps (network : Network) (config : AdministrationInitConfig) :
    Keeps network (Provenance network config) :=
  ⟨fun _ _ provenance => provenance.drain, fun _ _ _ _ _ _ provenance traced => provenance.action traced⟩

/-- An update that takes effect with a delay was accepted, and this is all that has settled it. -/
theorem Provenance.enacted (provenance : Provenance network config history height state)
    {time depth : Nat} {event : AdminEvent} (happened : (time, event) ∈ history)
    (enacts : event.enacts = some (id, update))
    (waits : config.confirmationDepths.get update.updateTxType = some depth) :
    ∃ block, time = block + depth ∧ (block, .accepted id update) ∈ history ∧
      fate history id = [(time, event)] := by
  obtain ⟨front, back, split⟩ := List.append_of_mem happened
  obtain ⟨block, delay, first, envelope, payload, later, cut, -⟩ :=
    provenance.justified.reason_of_split split id update enacts
  rw [waits, Option.getD_some] at delay
  have accepted : (block, .accepted id update) ∈ history := by
    rw [split, cut]
    simp
  have settles : (time, event) ∈ fate history id := by
    refine List.mem_filter.mpr ⟨happened, ?_⟩
    cases event <;> cases enacts <;> exact decide_eq_true rfl
  refine ⟨block, delay, accepted, ?_⟩
  have fated := provenance.tracked.fates block id update accepted
  unfold Fated at fated
  rw [waits] at fated
  rcases fated with ⟨_, -, -, fate⟩ | ⟨-, fate⟩ | ⟨-, fate, -⟩
  · rw [fate] at settles
    cases List.mem_singleton.mp settles
    cases enacts
  · rw [fate] at settles ⊢
    rw [List.mem_singleton.mp settles]
  · rw [fate] at settles
    cases settles

end Admin

/-! ### Runs of the whole state machine -/

section

variable [AsmLibs] {params : AsmParams} {records : List BlockRecord} {state : AnchorState}

/-- What administration did in each block, with the height of the block. -/
def adminHistory (network : Network) (records : List BlockRecord) : List (Nat × AdminEvent) :=
  records.flatMap fun record => (record.adminEvents network).map (record.manifest.height, ·)

theorem adminHistory_append (network : Network) (past rest : List BlockRecord) :
    adminHistory network (past ++ rest) = adminHistory network past ++ adminHistory network rest :=
  List.flatMap_append

/-- What administration runs on in a block, and what it does there. -/
theorem Processes.adminTxs {pre post : AnchorState} {record : BlockRecord}
    (processed : Processes pre record post) :
    Admin.processTxs record.states.admin (record.txs adminSubprotocolId) (pre.height + 1)
        pre.chainView.powState.network .new = .ok (record.trace.post.admin, record.trace.adminRelayer) ∧
      record.adminEvents pre.chainView.powState.network =
        Admin.blockEvents pre.chainView.powState.network ⟨pre.height, record.states.admin⟩
          (record.txs adminSubprotocolId) := by
  have ran := processed.ran.admin
  obtain ⟨height, numbered⟩ := processed.height
  have network := (HeaderVerificationState.checkAndUpdate_ok processed.transitions.header).2.1
  rw [show post.chainView.powState.lastVerifiedBlock.height = pre.height + 1 from height, network] at ran
  refine ⟨ran, ?_⟩
  rw [BlockRecord.adminEvents, numbered, Nat.add_sub_cancel]

/-- One block, as a block of a run of administration alone. -/
theorem Processes.adminPart {pre post : AnchorState} {record : BlockRecord}
    (processed : Processes pre record post) :
    ∃ context, Admin.processPart pre.chainView.powState.network ⟨pre.height, record.states.admin⟩
        (record.txs adminSubprotocolId) = .ok context ∧
      context.state = record.trace.post.admin ∧
      record.adminEvents pre.chainView.powState.network =
        Admin.blockEvents pre.chainView.powState.network ⟨pre.height, record.states.admin⟩
          (record.txs adminSubprotocolId) := by
  obtain ⟨ran, events⟩ := processed.adminTxs
  obtain ⟨context, part, done⟩ := bind_ok ran
  exact ⟨context, part, congrArg Prod.fst (pure_ok done), events⟩

/-- What every run of administration keeps, every run of the state machine keeps. -/
theorem Run.admin_keeps {inv : List (Nat × AdminEvent) → Nat → AdministrationSubprotoState → Prop}
    (keeps : Admin.Keeps params.anchor.network inv)
    (start : inv [] params.anchor.block.height (.new params.admin)) (run : Run params records state) :
    ∃ states, state.subprotocols = some states ∧
      inv (adminHistory params.anchor.network records) state.height states.admin := by
  induction run with
  | genesis specId started =>
    obtain ⟨bridge, -, loaded, chainView⟩ := genesisState_ok started
    refine ⟨_, loaded, ?_⟩
    rw [AnchorState.height, chainView]
    exact start
  | @block past pre post record before processed ih =>
    obtain ⟨states, loaded, held⟩ := ih
    obtain rfl : states = record.states :=
      Option.some.inj (loaded.symm.trans processed.transitions.loaded)
    obtain ⟨height, numbered⟩ := processed.height
    obtain ⟨context, part, same, events⟩ := processed.adminPart
    rw [run_network before] at part events
    have next := @Admin.Keeps.part _ _ _ _ ⟨pre.height, record.states.admin⟩ keeps held _ _ part
    refine ⟨_, processed.transitions.exported.states, ?_⟩
    rw [adminHistory_append, adminHistory.eq_def _ [record], List.flatMap_singleton, events, numbered,
      height, ← same]
    exact next

theorem BlockRecord.asmKeys_enacts {record : BlockRecord} {network : Network} {key : PredicateKey}
    (mem : key ∈ record.asmKeys network) :
    ∃ event ∈ record.adminEvents network, ∃ id, event.enacts = some (id, .asmStfVk key) := by
  obtain ⟨update, enacted, isKey⟩ := List.mem_filterMap.mp mem
  obtain ⟨event, listed, isUpdate⟩ := List.mem_filterMap.mp enacted
  rw [AdminEvent.enacted_eq] at isUpdate
  obtain ⟨⟨id, update⟩, enacts, rfl⟩ := Option.map_eq_some_iff.mp isUpdate
  cases update with
  | asmStfVk key =>
    cases isKey
    exact ⟨event, listed, id, enacts⟩
  | _ => cases isKey

theorem Run.provenance (run : Run params records state) :
    ∃ states, state.subprotocols = some states ∧ Admin.Provenance params.anchor.network params.admin
      (adminHistory params.anchor.network records) state.height states.admin :=
  run.admin_keeps (Admin.provenance_keeps params.anchor.network params.admin)
    (Admin.Provenance.genesis _ _ _)

theorem Run.heights_after {past rest : List BlockRecord} {before : AnchorState}
    (run : Run params (past ++ rest) state) (earlier : Run params past before) :
    ∀ event ∈ adminHistory params.anchor.network rest, before.height < event.1 := by
  obtain ⟨_, reached⟩ := run_reached run
  obtain ⟨_, reachedBefore⟩ := run_reached earlier
  have numbered := reached.numbered
  rw [List.map_append, List.length_append, List.range'_append_1.symm, ← reachedBefore.numbered]
    at numbered
  have heights := List.append_cancel_left numbered
  rintro event mem
  obtain ⟨record, listed, happened⟩ := List.mem_flatMap.mp mem
  obtain ⟨event, -, rfl⟩ := List.mem_map.mp happened
  have inRange : record.manifest.height ∈ rest.map (·.manifest.height) := List.mem_map_of_mem listed
  rw [heights, List.mem_range'_1] at inRange
  have height := reachedBefore.height
  show before.height < record.manifest.height
  omega

/-- An update that takes effect with a delay has been in the queue of every block since the one that
accepted it. -/
theorem Run.queued_until (run : Run params records state) {height id depth : Nat} {event : AdminEvent}
    {update : UpdateAction} (happened : (height, event) ∈ adminHistory params.anchor.network records)
    (enacts : event.enacts = some (id, update))
    (waits : params.admin.confirmationDepths.get update.updateTxType = some depth) :
    params.anchor.block.height + depth < height ∧ height ≤ state.height ∧
    ∀ past before, past <+: records → Run params past before → height ≤ before.height + depth →
      before.height < height →
      ∃ states, before.subprotocols = some states ∧ ⟨id, update, height⟩ ∈ states.admin.queued := by
  obtain ⟨_, -, provenance⟩ := run.provenance
  obtain ⟨block, rfl, accepted, settled⟩ := provenance.enacted happened enacts waits
  refine ⟨?_, provenance.tracked.times _ happened, ?_⟩
  · obtain ⟨genesis, start⟩ := run.earlier (List.nil_prefix)
    obtain ⟨_, reached⟩ := run_reached start
    have above := run.heights_after start (block, .accepted id update) accepted
    have height := reached.height
    rw [List.length_nil] at height
    dsimp only at above
    omega
  · rintro past before ⟨rest, rfl⟩ earlier since pending
    obtain ⟨states, loaded, provenanceBefore⟩ := earlier.provenance
    refine ⟨states, loaded, ?_⟩
    have after := run.heights_after earlier
    rw [adminHistory_append] at accepted settled
    have known : (block, .accepted id update) ∈ adminHistory params.anchor.network past := by
      refine (List.mem_append.mp accepted).resolve_right fun new => ?_
      have late := after _ new
      dsimp only at late
      omega
    have unsettled : Admin.fate (adminHistory params.anchor.network past) id = [] := by
      refine List.eq_nil_iff_forall_not_mem.mpr fun settling mem => ?_
      have one : settling ∈ [(block + depth, event)] := by
        rw [← settled, Admin.fate_append]
        exact List.mem_append_left _ mem
      have early := provenanceBefore.tracked.times settling (List.mem_filter.mp mem).1
      rw [List.mem_singleton.mp one] at early
      dsimp only at early
      omega
    obtain ⟨delay, isDelay, -, queued⟩ :=
      (provenanceBefore.tracked.fates block id update known).waiting unsettled
    obtain rfl : delay = depth := Option.some.inj (isDelay.symm.trans waits)
    exact queued

/-- In every run, an update takes effect only if a block had accepted it exactly as many blocks
before as its type has to wait, from a payload whose signatures met the threshold of the signers that
its role then had, and if neither a cancel nor an earlier enactment came in between. The signers of
each role, then and at the end, are the initial ones changed by the updates that had taken effect. -/
theorem enacted_updates_sanctioned (run : Run params records state) :
    (∀ before event later, adminHistory params.anchor.network records = before ++ event :: later →
      Admin.Sanctioned params.anchor.network params.admin before event) ∧
    ∃ states, state.subprotocols = some states ∧ states.admin.SignedBy
      (Admin.signersAfter params.admin.signers (adminHistory params.anchor.network records)) := by
  obtain ⟨states, loaded, provenance⟩ := run.provenance
  exact ⟨fun before event later split => provenance.justified.reason_of_split split,
    states, loaded, provenance.signers⟩

end

/-! ### A concrete run -/

/-- Verifying keys wait for two blocks. -/
def sampleDelayParams : AsmParams := { sampleParams with admin := sampleAdminConfig }

/-- A block with only a coinbase. -/
def sampleQuietBlock (parent : UInt8) (time : Nat) : Block where
  header := ⟨2, .fill parent, .zero, time, 0, 0⟩
  txdata := [⟨2, 0, [⟨.null, [], 0, []⟩], []⟩]

section

attribute [local instance] sampleUpdateLibs

set_option maxRecDepth 8000 in
theorem sampleDelay_transitions : ∃ genesis first firstManifest second secondManifest third thirdManifest,
    genesisState sampleDelayParams = .ok genesis ∧
    computeAsmTransition (asmSpec .v1) genesis (sampleUpdateBlock [sampleRekeyTx 1 5]) ⟨[], []⟩
      (some ⟨0, [.fill 5]⟩) = .ok (.ok ⟨first, firstManifest⟩) ∧
    computeAsmTransition (asmSpec .v1) first (sampleQuietBlock 1 2) ⟨[], []⟩ none =
      .ok (.ok ⟨second, secondManifest⟩) ∧
    computeAsmTransition (asmSpec .v1) second (sampleQuietBlock 2 3) ⟨[], []⟩ none =
      .ok (.ok ⟨third, thirdManifest⟩) ∧
    thirdManifest.height = 4 ∧ asmStfUpdates thirdManifest.logs = [⟨1, [5]⟩] :=
  ⟨_, _, _, _, _, _, _, rfl, rfl, rfl, rfl, rfl, rfl⟩

/-- The third block enacts a key, and nothing else. -/
theorem sampleDelay_run : ∃ first second third state,
    Run sampleDelayParams [first, second, third] state ∧ third.manifest.height = 4 ∧
    third.asmKeys .regtest = [⟨1, [5]⟩] := by
  obtain ⟨genesis, _, _, _, _, _, _, started, firstRan, secondRan, thirdRan, height, announced⟩ :=
    sampleDelay_transitions
  obtain ⟨_, _, _, first⟩ := processes_of_succeeded firstRan
  obtain ⟨_, _, _, second⟩ := processes_of_succeeded secondRan
  obtain ⟨_, _, _, third⟩ := processes_of_succeeded thirdRan
  have start : Run sampleDelayParams [] genesis := .genesis genesis.specId started
  have before := (start.block first).block second
  have keys := third.asmStfUpdates
  rw [run_network before, announced] at keys
  exact ⟨_, _, _, _, before.block third, height, keys.symm⟩

theorem enacted_updates_sanctioned_sample : ∃ records state before event later id,
    Run sampleDelayParams records state ∧
    adminHistory .regtest records = before ++ (4, event) :: later ∧
    event.enacts = some (id, .asmStfVk ⟨1, [5]⟩) ∧
    Admin.Waits .regtest sampleAdminConfig before 2 id (.asmStfVk ⟨1, [5]⟩) := by
  obtain ⟨first, second, third, state, run, height, keys⟩ := sampleDelay_run
  have announced : (⟨1, [5]⟩ : PredicateKey) ∈ third.asmKeys .regtest := by simp [keys]
  obtain ⟨event, listed, id, enacts⟩ := BlockRecord.asmKeys_enacts announced
  have happened : (4, event) ∈ adminHistory .regtest [first, second, third] := by
    refine List.mem_flatMap.mpr ⟨third, by simp, List.mem_map.mpr ⟨event, listed, ?_⟩⟩
    rw [height]
  obtain ⟨before, later, split⟩ := List.append_of_mem happened
  obtain ⟨block, delay, waits⟩ :=
    (enacted_updates_sanctioned run).1 before (4, event) later split id _ enacts
  obtain rfl : block = 2 := by
    have two : 4 = block + 2 := delay
    omega
  exact ⟨_, state, before, event, later, id, run, split, enacts, waits⟩

end
end Asm
