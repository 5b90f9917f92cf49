import AnchorStateMachine.Prover.Soundness
import AnchorStateMachine.Prover.Submitter
import Mathlib.Order.Interval.Finset.Nat

/-! The recursion of a chain's tip is enough to find every missing proof of the chain. A try that
has to wait names what it waits for, and the loop tries that next, down to the last block that has a
recursion. -/

namespace Asm

/-- The proof was submitted in the cycle. -/
def Submitted (log : List Attempt) (id : ProofId) : Prop :=
  ∃ attempt ∈ log, attempt.proofId = id ∧ attempt.isSubmitted = true

theorem submitted_concat {log : List Attempt} {attempt : Attempt} {id : ProofId} :
    Submitted (log ++ [attempt]) id ↔ Submitted log id ∨
      (attempt.proofId = id ∧ attempt.isSubmitted = true) := by
  simp only [Submitted, List.mem_append, List.mem_singleton, or_and_right, exists_or, exists_eq_left]

/-! ### The gap above the last recursion -/

/-- The blocks from `k` to `n` are the longest end of the chain above genesis without a recursion
that is stored or mapped. With `k = n + 1` there are none. -/
structure Gap (db : SledProofDb) (chain : Nat → L1BlockCommitment) (n k : Nat) : Prop where
  first : 1 ≤ k
  last : k ≤ n + 1
  unproven : ∀ j, k ≤ j → j ≤ n → db.getMoho (chain j) = none ∧ db.getRemote (.moho (chain j)) = none
  longest : k = 1 ∨ (db.getMoho (chain (k - 1))).isSome = true ∨
    (db.getRemote (.moho (chain (k - 1)))).isSome = true

/-- The steps of the gap that are neither stored nor mapped, and its first recursion if nothing is
missing for it. -/
def Due (builder : InputBuilder) (db : SledProofDb) (chain : Nat → L1BlockCommitment) (n k : Nat)
    (id : ProofId) : Prop :=
  (∃ j, k ≤ j ∧ j ≤ n ∧ id = .asm (.single (chain j)) ∧ db.getAsm (.single (chain j)) = none ∧
    db.getRemote (.asm (.single (chain j))) = none) ∨
  (k ≤ n ∧ id = .moho (chain k) ∧ (db.getAsm (.single (chain k))).isSome = true ∧
    (chain (k - 1) = builder.genesis ∨ (db.getMoho (chain (k - 1))).isSome = true))

/-- The proofs that a cycle from the recursion of the tip can come to. The recursion below the gap
is among them. -/
def Met (chain : Nat → L1BlockCommitment) (n k : Nat) (id : ProofId) : Prop :=
  (∃ j, k ≤ j ∧ j ≤ n ∧ (id = .asm (.single (chain j)) ∨ id = .moho (chain j))) ∨
    (2 ≤ k ∧ id = .moho (chain (k - 1)))

theorem Gap.met_tip {db : SledProofDb} {chain : Nat → L1BlockCommitment} {n k : Nat}
    (gap : Gap db chain n k) (above : 1 ≤ n) : Met chain n k (.moho (chain n)) := by
  have last := gap.last
  by_cases inGap : k ≤ n
  · exact .inl ⟨n, inGap, le_rfl, .inr rfl⟩
  · obtain rfl : k = n + 1 := by omega
    exact .inr ⟨by omega, rfl⟩

/-- A recursion that the cycle comes to and that is neither stored nor mapped is in the gap. -/
theorem Gap.open_of_met {db : SledProofDb} {chain : Nat → L1BlockCommitment} {n k : Nat}
    (gap : Gap db chain n k) {block : L1BlockCommitment} (met : Met chain n k (.moho block))
    (new : db.getProof (.moho block) = none) (unmapped : db.getRemote (.moho block) = none) :
    ∃ j, k ≤ j ∧ j ≤ n ∧ block = chain j := by
  rcases met with ⟨j, first, last, isAsm | isMoho⟩ | ⟨two, isMoho⟩
  · cases isAsm
  · cases isMoho
    exact ⟨j, first, last, rfl⟩
  · cases isMoho
    have new : db.getMoho (chain (k - 1)) = none := new
    rcases gap.longest with one | stored | mapped
    · omega
    · rw [new] at stored
      cases stored
    · rw [unmapped] at mapped
      cases mapped

section

variable [MerkleMountainRange] [MohoLibs] {builder : InputBuilder} {node : Node}
  {db now after : SledProofDb} {log : List Attempt} {id : ProofId}

theorem needs_congr (proofs : ∀ id, now.getProof id = db.getProof id) (block : L1BlockCommitment)
    (id : ProofId) :
    builder.Needs node now block id ↔ builder.Needs node db block id := by
  have asm : now.getAsm (.single block) = db.getAsm (.single block) := proofs (.asm _)
  have moho : now.getMoho (node.parent block) = db.getMoho (node.parent block) := proofs (.moho _)
  rw [InputBuilder.Needs, InputBuilder.Needs, asm, moho]

/-! ### The log of a cycle without failures -/

/-- What the log of a cycle says about the store that the cycle started from. Nothing is stored in a
cycle, and what is mapped was mapped before or submitted in it. -/
structure Logged (builder : InputBuilder) (node : Node) (db : SledProofDb) (log : List Attempt)
    (now : SledProofDb) :
    Prop where
  proofs : ∀ id, now.getProof id = db.getProof id
  mapped : ∀ id, (now.getRemote id).isSome = true ↔ (db.getRemote id).isSome = true ∨ Submitted log id
  distinct : ((log.filter Attempt.isSubmitted).map Attempt.proofId).Nodup
  settled : ∀ attempt ∈ log, attempt.settles = true → (db.getProof attempt.proofId).isSome = true ∨
    (db.getRemote attempt.proofId).isSome = true ∨ Submitted log attempt.proofId
  submitted : ∀ attempt ∈ log, attempt.isSubmitted = true → db.getProof attempt.proofId = none ∧
    db.getRemote attempt.proofId = none ∧
    ∀ block, attempt.proofId = .moho block → ∀ other, ¬ builder.Needs node db block other
  waiting : ∀ attempt ∈ log, attempt.parks = true → db.getProof attempt.proofId = none ∧
    db.getRemote attempt.proofId = none ∧ attempt.missing ≠ [] ∧
    ∃ block, attempt.proofId = .moho block ∧ ∀ other, other ∈ attempt.missing ↔
      builder.Needs node db block other

theorem logged_start : Logged builder node db [] db where
  proofs _ := rfl
  mapped id := by simp [Submitted]
  distinct := .nil
  settled _ mem := absurd mem List.not_mem_nil
  submitted _ mem := absurd mem List.not_mem_nil
  waiting _ mem := absurd mem List.not_mem_nil

theorem Logged.unmapped (logged : Logged builder node db log now) (free : now.getRemote id = none) :
    db.getRemote id = none ∧ ¬ Submitted log id := by
  have notMapped : ¬ ((db.getRemote id).isSome = true ∨ Submitted log id) := by
    rw [← logged.mapped, free]
    exact nofun
  rw [not_or] at notMapped
  exact ⟨by simpa using notMapped.1, notMapped.2⟩

/-- A try that submits nothing leaves the store as it is, and needs only its own line to be right. -/
theorem Logged.idle (logged : Logged builder node db log now) {attempt : Attempt}
    (idle : attempt.isSubmitted = false)
    (settles : attempt.settles = true → (db.getProof attempt.proofId).isSome = true ∨
      (db.getRemote attempt.proofId).isSome = true ∨ Submitted log attempt.proofId)
    (parks : attempt.parks = true → db.getProof attempt.proofId = none ∧
      db.getRemote attempt.proofId = none ∧
      attempt.missing ≠ [] ∧ ∃ block, attempt.proofId = .moho block ∧
        ∀ other, other ∈ attempt.missing ↔ builder.Needs node db block other) :
    Logged builder node db (log ++ [attempt]) now := by
  have same : ∀ id, Submitted (log ++ [attempt]) id ↔ Submitted log id := by
    intro id
    rw [submitted_concat, idle]
    simp
  refine {
    proofs := logged.proofs
    mapped := fun id => by rw [same, logged.mapped]
    distinct := ?_
    settled := List.forall_mem_append.mpr
      ⟨fun earlier mem => ?_, List.forall_mem_singleton.mpr fun settled => ?_⟩
    submitted := List.forall_mem_append.mpr
      ⟨logged.submitted, List.forall_mem_singleton.mpr fun done => ?_⟩
    waiting := List.forall_mem_append.mpr ⟨logged.waiting, List.forall_mem_singleton.mpr parks⟩ }
  · rw [List.filter_append, List.filter_singleton, idle]
    simpa using logged.distinct
  · rw [same]
    exact logged.settled earlier mem
  · rw [same]
    exact settles settled
  · rw [idle] at done
    cases done

theorem Logged.step (logged : Logged builder node db log now) {outcome : SubmitOutcome}
    (submission : Submission builder node now id outcome after) :
    Logged builder node db (log ++ [⟨id, .ok outcome⟩]) after := by
  cases submission with
  | stored stored =>
    rw [logged.proofs] at stored
    exact logged.idle rfl (fun _ => .inl stored) nofun
  | inFlight new mapped => exact logged.idle rfl (fun _ => .inr ((logged.mapped id).mp mapped)) nofun
  | @waits block missing isMoho new unmapped above isMissing some =>
    rw [logged.proofs] at new
    refine logged.idle rfl nofun fun _ =>
      ⟨new, (logged.unmapped unmapped).1, some, block, isMoho, fun other => ?_⟩
    rw [← needs_congr logged.proofs]
    exact isMissing other
  | @started remoteId new unmapped ready free untracked =>
    obtain ⟨wasFree, notSubmitted⟩ := logged.unmapped unmapped
    have isSubmitted : Submitted (log ++ [⟨id, .ok (.submitted remoteId)⟩]) id :=
      submitted_concat.mpr (.inr ⟨rfl, rfl⟩)
    rw [logged.proofs] at new
    refine {
      proofs := fun other => SledProofDb.getProof_recorded.trans (logged.proofs other)
      mapped := fun other => ?_
      distinct := ?_
      settled := List.forall_mem_append.mpr ⟨fun earlier mem settles => ?_,
        List.forall_mem_singleton.mpr fun _ => .inr (.inr isSubmitted)⟩
      submitted := List.forall_mem_append.mpr ⟨logged.submitted,
        List.forall_mem_singleton.mpr fun _ => ⟨new, wasFree, fun block isMoho other => ?_⟩⟩
      waiting := List.forall_mem_append.mpr ⟨logged.waiting, List.forall_mem_singleton.mpr nofun⟩ }
    · rw [SledProofDb.getRemote_recorded, submitted_concat]
      by_cases same : other = id
      · simp [same, Attempt.isSubmitted]
      · have different : id ≠ other := fun same' => same same'.symm
        simp [same, different, logged.mapped]
    · rw [List.filter_append, List.map_append]
      refine List.Nodup.append logged.distinct (List.nodup_singleton id)
        (List.disjoint_singleton.mpr fun mem => ?_)
      obtain ⟨earlier, inLog, same⟩ := List.mem_map.mp mem
      obtain ⟨inLog, done⟩ := List.mem_filter.mp inLog
      exact notSubmitted ⟨earlier, inLog, same, done⟩
    · exact (logged.settled earlier mem settles).imp_right
        (Or.imp_right fun before => submitted_concat.mpr (.inl before))
    · rw [← needs_congr logged.proofs]
      exact ready block isMoho other

/-! ### The chain -/

/-- The blocks of a chain from genesis, by their distance from it. -/
structure ChainFrom (builder : InputBuilder) (node : Node) (chain : Nat → L1BlockCommitment)
    (n : Nat) : Prop where
  genesis : chain 0 = builder.genesis
  parent : ∀ j < n, node.parent (chain (j + 1)) = chain j
  height : ∀ j < n, (chain (j + 1)).height = (chain j).height + 1

variable {chain : Nat → L1BlockCommitment} {n k : Nat}

theorem ChainFrom.height_eq (chainFrom : ChainFrom builder node chain n) {j : Nat} (le : j ≤ n) :
    (chain j).height = (chain 0).height + j := by
  induction j with
  | zero => rfl
  | succ j ih =>
    have below := ih (by omega)
    have above := chainFrom.height j (by omega)
    omega

theorem ChainFrom.injective (chainFrom : ChainFrom builder node chain n) {i j : Nat} (first : i ≤ n)
    (second : j ≤ n) (same : chain i = chain j) : i = j := by
  have left := chainFrom.height_eq first
  have right := chainFrom.height_eq second
  rw [same] at left
  omega

/-- What a recursion in the chain waits for. -/
theorem ChainFrom.needs_iff (chainFrom : ChainFrom builder node chain n) {j : Nat} (first : 1 ≤ j)
    (last : j ≤ n) {id : ProofId} : builder.Needs node db (chain j) id ↔
      (db.getAsm (.single (chain j)) = none ∧ id = .asm (.single (chain j))) ∨
        (2 ≤ j ∧ db.getMoho (chain (j - 1)) = none ∧ id = .moho (chain (j - 1))) := by
  obtain ⟨i, rfl⟩ : ∃ i, j = i + 1 := ⟨j - 1, by omega⟩
  have notGenesis : chain i ≠ builder.genesis ↔ 2 ≤ i + 1 := by
    rw [← chainFrom.genesis]
    constructor
    · intro other
      have : i ≠ 0 := fun zero => other (congrArg chain zero)
      omega
    · intro above same
      have := chainFrom.injective (by omega) (by omega) same
      omega
  rw [InputBuilder.Needs, chainFrom.parent i (by omega), notGenesis, Nat.add_sub_cancel]

/-- A recursion of the gap that is not its first waits for the one below. -/
theorem Gap.blocked (gap : Gap db chain n k) (chainFrom : ChainFrom builder node chain n) {j : Nat}
    (above : k < j) (last : j ≤ n) : builder.Needs node db (chain j) (.moho (chain (j - 1))) := by
  have first := gap.first
  refine (chainFrom.needs_iff (by omega) last).mpr (.inr ⟨by omega, ?_, rfl⟩)
  exact (gap.unproven (j - 1) (by omega) (by omega)).1

theorem met_of_needs (chainFrom : ChainFrom builder node chain n) (gap : Gap db chain n k) {j : Nat}
    (first : k ≤ j) (last : j ≤ n)
    (needs : builder.Needs node db (chain j) id) : Met chain n k id := by
  have above := gap.first
  rcases (chainFrom.needs_iff (by omega) last).mp needs with ⟨-, rfl⟩ | ⟨two, -, rfl⟩
  · exact .inl ⟨j, first, last, .inl rfl⟩
  · by_cases inGap : k ≤ j - 1
    · exact .inl ⟨j - 1, inGap, by omega, .inr rfl⟩
    · have isFirst : j = k := by omega
      subst isFirst
      exact .inr ⟨two, rfl⟩

/-! ### What is submitted -/

/-- At each height at most one proof is due: the recursion only if the step is stored. -/
theorem due_height_injective (chainFrom : ChainFrom builder node chain n) {other : ProofId}
    (due : Due builder db chain n k id) (dueToo : Due builder db chain n k other)
    (same : id.height = other.height) : id = other := by
  have level : ∀ i j, i ≤ n → j ≤ n → (chain i).height = (chain j).height → i = j := by
    intro i j first second same
    have left := chainFrom.height_eq first
    have right := chainFrom.height_eq second
    omega
  rcases due with ⟨i, -, iLast, rfl, iNew, -⟩ | ⟨last, rfl, stored, -⟩
  · rcases dueToo with ⟨j, -, jLast, rfl, -, -⟩ | ⟨last, rfl, stored, -⟩
    · rw [level i j iLast jLast same]
    · cases level i k iLast last same
      rw [iNew] at stored
      cases stored
  · rcases dueToo with ⟨j, -, jLast, rfl, jNew, -⟩ | ⟨-, rfl, -, -⟩
    · cases level k j last jLast same
      rw [jNew] at stored
      cases stored
    · rfl

section

variable (chainFrom : ChainFrom builder node chain n) (gap : Gap db chain n k)
  (logged : Logged builder node db log now)

include chainFrom gap logged

/-- What the cycle comes to and submits is due. -/
theorem due_of_submitted (met : Met chain n k id) (submitted : Submitted log id) :
    Due builder db chain n k id := by
  obtain ⟨attempt, mem, rfl, done⟩ := submitted
  obtain ⟨new, unmapped, ready⟩ := logged.submitted attempt mem done
  cases isId : attempt.proofId with
  | asm range =>
    rw [isId] at met new unmapped
    rcases met with ⟨j, first, last, isAsm | isMoho⟩ | ⟨-, isMoho⟩
    · cases isAsm
      exact .inl ⟨j, first, last, rfl, new, unmapped⟩
    · cases isMoho
    · cases isMoho
  | moho block =>
    rw [isId] at met new unmapped
    obtain ⟨j, first, last, rfl⟩ := gap.open_of_met met new unmapped
    have ready := ready (chain j) isId
    have isFirst : j = k := by
      by_contra other
      exact ready _ (gap.blocked chainFrom (by omega) last)
    subst isFirst
    have above := gap.first
    refine .inr ⟨last, rfl, ?_, ?_⟩
    · by_contra missing
      exact ready _ ((chainFrom.needs_iff above last).mpr (.inl ⟨by simpa using missing, rfl⟩))
    · by_cases two : 2 ≤ j
      · refine .inr ?_
        by_contra missing
        exact ready _ ((chainFrom.needs_iff above last).mpr (.inr ⟨two, by simpa using missing, rfl⟩))
      · have one : j = 1 := by omega
        subst one
        exact .inl chainFrom.genesis

theorem submitted_few (met : ∀ attempt ∈ log, Met chain n k attempt.proofId) :
    log.countP Attempt.isSubmitted ≤ n := by
  let ids := (log.filter Attempt.isSubmitted).map Attempt.proofId
  have due : ∀ id ∈ ids, Due builder db chain n k id := by
    intro id mem
    obtain ⟨attempt, kept, rfl⟩ := List.mem_map.mp mem
    obtain ⟨inLog, done⟩ := List.mem_filter.mp kept
    exact due_of_submitted chainFrom gap logged (met attempt inLog) ⟨attempt, inLog, rfl, done⟩
  have inRange : ∀ id ∈ ids, id.height ∈ Finset.Icc ((chain 0).height + 1) ((chain 0).height + n) := by
    intro id mem
    have first := gap.first
    rw [Finset.mem_Icc]
    rcases due id mem with ⟨j, above, last, rfl, -, -⟩ | ⟨last, rfl, -, -⟩
    · have height : (ProofId.asm (.single (chain j))).height = (chain 0).height + j :=
        chainFrom.height_eq last
      omega
    · have height : (ProofId.moho (chain k)).height = (chain 0).height + k := chainFrom.height_eq last
      omega
  have few : ids.toFinset.card ≤ (Finset.Icc ((chain 0).height + 1) ((chain 0).height + n)).card := by
    apply Finset.card_le_card_of_injOn ProofId.height
    · exact fun id mem => inRange id (List.mem_toFinset.mp mem)
    · intro id mem other memToo same
      exact due_height_injective chainFrom (due id (List.mem_toFinset.mp mem))
        (due other (List.mem_toFinset.mp memToo)) same
  rw [List.toFinset_card_of_nodup logged.distinct, List.length_map, Nat.card_Icc] at few
  rw [List.countP_eq_length_filter]
  omega

variable (tried : ∀ id, (id = .moho (chain n) ∨ ∃ attempt ∈ log, id ∈ attempt.missing) →
  ∃ attempt ∈ log, attempt.proofId = id ∧ (attempt.settles = true ∨ attempt.parks = true))

include tried

/-- The recursions of the gap are tried from the tip down, and all but the first have to wait. -/
theorem gap_walked {j : Nat} (first : k ≤ j) (last : j ≤ n) :
    (∃ attempt ∈ log, attempt.proofId = .moho (chain j) ∧ attempt.parks = true) ∨
      (j = k ∧ Submitted log (.moho (chain j))) := by
  have decided : ∀ j, k ≤ j → j ≤ n →
      (∃ attempt ∈ log, attempt.proofId = .moho (chain j) ∧
        (attempt.settles = true ∨ attempt.parks = true)) →
      (∃ attempt ∈ log, attempt.proofId = .moho (chain j) ∧ attempt.parks = true) ∨
        (j = k ∧ Submitted log (.moho (chain j))) := by
    rintro j first last ⟨attempt, mem, isMoho, settles | parks⟩
    · obtain ⟨new, unmapped⟩ := gap.unproven j first last
      have settled := logged.settled attempt mem settles
      rw [isMoho] at settled
      have submitted : Submitted log (.moho (chain j)) := by
        rcases settled with stored | mapped | submitted
        · have stored : (db.getMoho (chain j)).isSome = true := stored
          rw [new] at stored
          cases stored
        · rw [unmapped] at mapped
          cases mapped
        · exact submitted
      refine .inr ⟨?_, submitted⟩
      by_contra other
      obtain ⟨attempt, mem, isMoho, done⟩ := submitted
      exact (logged.submitted attempt mem done).2.2 _ isMoho _ (gap.blocked chainFrom (by omega) last)
    · exact .inl ⟨attempt, mem, isMoho, parks⟩
  -- the induction goes down from the tip
  obtain ⟨steps, isLast⟩ : ∃ steps, n = j + steps := ⟨n - j, by omega⟩
  induction steps generalizing j with
  | zero =>
    obtain rfl : n = j := isLast
    exact decided n first last (tried _ (.inl rfl))
  | succ steps ih =>
    obtain ⟨attempt, mem, isMoho, parks⟩ :=
      (ih (j := j + 1) (by omega) (by omega) (by omega)).resolve_right fun isFirst => by omega
    obtain ⟨-, -, -, block, isBlock, isMissing⟩ := logged.waiting attempt mem parks
    cases isMoho.symm.trans isBlock
    have missing := (isMissing _).mpr (gap.blocked chainFrom (by omega) (by omega))
    exact decided j first last (tried _ (.inr ⟨attempt, mem, missing⟩))

theorem submitted_iff_due (met : ∀ attempt ∈ log, Met chain n k attempt.proofId) :
    Submitted log id ↔ Due builder db chain n k id := by
  constructor
  · intro submitted
    have isMet : Met chain n k id := by
      obtain ⟨attempt, mem, rfl, -⟩ := submitted
      exact met attempt mem
    exact due_of_submitted chainFrom gap logged isMet submitted
  · have above := gap.first
    rintro (⟨j, first, last, rfl, new, unmapped⟩ | ⟨last, rfl, stored, previous⟩)
    · -- the recursion of the block waits for the step, so that the step is tried
      have waits : ∃ attempt ∈ log, attempt.proofId = .moho (chain j) ∧ attempt.parks = true := by
        refine (gap_walked chainFrom gap logged tried first last).resolve_right ?_
        rintro ⟨-, attempt, mem, isMoho, done⟩
        refine (logged.submitted attempt mem done).2.2 _ isMoho (.asm (.single (chain j))) ?_
        exact (chainFrom.needs_iff (by omega) last).mpr (.inl ⟨new, rfl⟩)
      obtain ⟨attempt, mem, isMoho, parks⟩ := waits
      obtain ⟨-, -, -, block, isBlock, isMissing⟩ := logged.waiting attempt mem parks
      cases isMoho.symm.trans isBlock
      have missing := (isMissing (.asm (.single (chain j)))).mpr
        ((chainFrom.needs_iff (by omega) last).mpr (.inl ⟨new, rfl⟩))
      obtain ⟨step, stepMem, isStep, settles | parks⟩ := tried _ (.inr ⟨attempt, mem, missing⟩)
      · have settled := logged.settled step stepMem settles
        rw [isStep] at settled
        rcases settled with stored | mapped | submitted
        · have stored : (db.getAsm (.single (chain j))).isSome = true := stored
          rw [new] at stored
          cases stored
        · rw [unmapped] at mapped
          cases mapped
        · exact submitted
      · obtain ⟨-, -, -, block, isBlock, -⟩ := logged.waiting step stepMem parks
        cases isStep.symm.trans isBlock
    · rcases gap_walked chainFrom gap logged tried le_rfl last with ⟨attempt, mem, isMoho, parks⟩ |
        ⟨-, submitted⟩
      · -- a recursion that waits for nothing is not parked
        obtain ⟨-, -, some, block, isBlock, isMissing⟩ := logged.waiting attempt mem parks
        cases isMoho.symm.trans isBlock
        obtain ⟨other, isOther⟩ := List.exists_mem_of_ne_nil _ some
        rcases (chainFrom.needs_iff above last).mp ((isMissing other).mp isOther) with ⟨new, -⟩ |
          ⟨two, new, -⟩
        · rw [new] at stored
          cases stored
        · rcases previous with isGenesis | previous
          · have := chainFrom.injective (by omega) (by omega) (isGenesis.trans chainFrom.genesis.symm)
            omega
          · rw [new] at previous
            cases previous
      · exact submitted

end

variable [ProverLibs] [BitcoinLibs]

theorem trySubmit_logged {prover : Prover} {world : World} {fuel calls capacity : Nat}
    {queue : PendingProofQueue} {result : Except ProverError Unit} {done : Cycle ProverContext}
    (ran : scheduleWith (trySubmit prover world) fuel queue ⟨db, calls⟩ capacity = some (result, done))
    (succeeded : ∀ attempt ∈ done.log, attempt.outcome.isOk = true) :
    Logged prover.inputBuilder world.node db done.log done.submitter.db := by
  refine scheduleWith_invariant (fun log ctx => (∀ attempt ∈ log, attempt.outcome.isOk = true) →
    Logged prover.inputBuilder world.node db log ctx.db) ?_ (fun _ => logged_start) ran succeeded
  intro log ctx id before
  refine (trySubmit_meets prover world id ctx).mono (fun outcome after submission succeeded => ?_)
    fun error after _ succeeded => ?_
  · exact (before fun attempt mem => succeeded attempt (List.mem_append_left _ mem)).step submission
  · have failed := succeeded ⟨id, .error error⟩ (by simp)
    cases failed

/-- One cycle from the recursion of the tip finds every missing proof of the gap. -/
theorem cascade_heals (prover : Prover) (world : World) {db : SledProofDb}
    {chain : Nat → L1BlockCommitment} {n k : Nat} (above : 1 ≤ n)
    (chainFrom : ChainFrom prover.inputBuilder world.node chain n) (gap : Gap db chain n k)
    (calls capacity : Nat) (roomy : n + 1 ≤ capacity) :
    ∃ enough result done,
      (∀ fuel, enough ≤ fuel → scheduleWith (trySubmit prover world) fuel ⟨{.moho (chain n)}⟩
        ⟨db, calls⟩ capacity =
        some (result, done)) ∧
      ((∀ attempt ∈ done.log, attempt.outcome.isOk = true) →
        result = .ok () ∧
        ((done.log.filter Attempt.isSubmitted).map Attempt.proofId).Nodup ∧
        (∀ id, Submitted done.log id ↔ Due prover.inputBuilder db chain n k id) ∧
        ∀ id, id ∈ done.queue.pending ↔
          ∃ j, k ≤ j ∧ j ≤ n ∧ id = .moho (chain j) ∧ ¬ Submitted done.log id) := by
  have closed := trySubmit_closed prover world ⟨{.moho (chain n)}⟩
  have queued := mem_biUnion_reach world.node ⟨{.moho (chain n)}⟩
  obtain ⟨enough, result, done, returned⟩ := scheduleWith_returns closed queued ⟨db, calls⟩ capacity
  have ran := returned enough le_rfl
  have ended := scheduleWith_ended closed queued ran
  refine ⟨enough, result, done, returned, fun succeeded => ?_⟩
  have logged := trySubmit_logged ran succeeded
  have met : ∀ attempt ∈ done.log, Met chain n k attempt.proofId := by
    refine scheduleWith_tried _ (fun id mem => ?_) ran fun attempt mem isMet id isMissing => ?_
    · cases Finset.mem_singleton.mp mem
      exact gap.met_tip above
    · have parks := Cycle.parks_of_missing isMissing
      obtain ⟨new, unmapped, -, block, isBlock, isNeeded⟩ := logged.waiting attempt mem parks
      rw [isBlock] at isMet new unmapped
      obtain ⟨j, first, last, rfl⟩ := gap.open_of_met isMet new unmapped
      exact met_of_needs chainFrom gap first last ((isNeeded id).mp isMissing)
  have isOk : result = .ok () := by
    rcases ended.stopped with ⟨isOk, -⟩ | ⟨earlier, id, error, isLog, -⟩
    · exact isOk
    · have failed := succeeded ⟨id, .error error⟩ (by rw [isLog]; simp)
      cases failed
  have free : done.capacity ≠ 0 := by
    have few := submitted_few chainFrom gap logged met
    have spent := ended.spent
    omega
  have tried : ∀ id, (id = .moho (chain n) ∨ ∃ attempt ∈ done.log, id ∈ attempt.missing) →
      ∃ attempt ∈ done.log, attempt.proofId = id ∧ (attempt.settles = true ∨ attempt.parks = true) := by
    intro id seen
    rcases ended.covered id (seen.imp_left Finset.mem_singleton.mpr) with left |
      ⟨attempt, mem, isId, settles⟩
    · obtain ⟨attempt, mem, isId, parks⟩ := ended.drained isOk free id left
      exact ⟨attempt, mem, isId, .inr parks⟩
    · exact ⟨attempt, mem, isId, .inl settles⟩
  refine ⟨isOk, logged.distinct, fun id => submitted_iff_due chainFrom gap logged tried met,
    fun id => ?_⟩
  constructor
  · intro left
    obtain ⟨attempt, mem, rfl, parks⟩ := ended.drained isOk free id left
    obtain ⟨new, unmapped, some, block, isBlock, isNeeded⟩ := logged.waiting attempt mem parks
    have isMet := met attempt mem
    rw [isBlock] at isMet new unmapped
    obtain ⟨j, first, last, rfl⟩ := gap.open_of_met isMet new unmapped
    refine ⟨j, first, last, isBlock, ?_⟩
    rintro ⟨other, otherMem, same, submitted⟩
    obtain ⟨missing, isMissing⟩ := List.exists_mem_of_ne_nil _ some
    exact (logged.submitted other otherMem submitted).2.2 _ (same.trans isBlock) missing
      ((isNeeded missing).mp isMissing)
  · rintro ⟨j, first, last, rfl, notSubmitted⟩
    obtain ⟨attempt, mem, isMoho, parks⟩ :=
      (gap_walked chainFrom gap logged tried first last).resolve_right
      fun isFirst => notSubmitted isFirst.2
    have waits := (ended.requeued attempt mem).resolve_left fun settles => by
      rw [Cycle.settles_not_parks settles] at parks
      cases parks
    rw [isMoho] at waits
    exact waits

end

/-! ### Two blocks and a step proof -/

section

attribute [local instance] sampleProverMmr sampleBitcoinLibs sampleProverMoho sampleProverLibs

def sampleGapDb : SledProofDb := SledProofDb.empty.storeAsm (.single (sampleAt 1)) (sampleStepReceipt 1)

def sampleCycle : Option (Except ProverError Unit × Cycle ProverContext) :=
  scheduleWith (trySubmit sampleProver ⟨sampleNode, sampleReplies .requested⟩) 10
    ⟨{.moho (sampleAt 2)}⟩ ⟨sampleGapDb, 0⟩ 3

@[irreducible] def sampleCycleDone :
    Except ProverError Unit × Cycle ProverContext := sampleCycle.get (by decide +kernel)

theorem cascade_heals_sample :
    sampleCycle = some sampleCycleDone ∧
    Submitted sampleCycleDone.2.log (.asm (.single (sampleAt 2))) ∧
    Submitted sampleCycleDone.2.log (.moho (sampleAt 1)) ∧
    ¬ Submitted sampleCycleDone.2.log (.asm (.single (sampleAt 1))) ∧
    ∀ id, id ∈ sampleCycleDone.2.queue.pending ↔ id = .moho (sampleAt 2) := by
  have chainFrom : ChainFrom sampleProver.inputBuilder sampleNode sampleAt 2 :=
    ⟨rfl, by decide +kernel, fun _ _ => rfl⟩
  have gap : Gap sampleGapDb sampleAt 2 1 := ⟨le_rfl, by decide, fun _ _ _ => ⟨rfl, rfl⟩, .inl rfl⟩
  have isDone : sampleCycle = some sampleCycleDone := by
    unfold sampleCycleDone
    exact (Option.some_get _).symm
  obtain ⟨enough, result, done, returned, healed⟩ :=
    cascade_heals sampleProver ⟨sampleNode, sampleReplies .requested⟩
      (by decide) chainFrom gap 0 3 le_rfl
  have isFinal : sampleCycleDone.2 = done := by
    unfold sampleCycle at isDone
    have longer := Loop.run_mono isDone (le_max_left 10 enough)
    exact congrArg Prod.snd (Option.some.inj (longer.symm.trans (returned _ (le_max_right 10 enough))))
  subst isFinal
  obtain ⟨-, -, submitted, queued⟩ := healed (by decide +kernel)
  have first : Submitted sampleCycleDone.2.log (.moho (sampleAt 1)) :=
    (submitted _).mpr (.inr ⟨by decide, rfl, by decide +kernel, .inl rfl⟩)
  have stored : sampleGapDb.getAsm (.single (sampleAt 1)) ≠ none := by decide +kernel
  refine ⟨isDone, ?_, first, fun again => ?_, fun id => ?_⟩
  · exact (submitted _).mpr (.inl ⟨2, by decide, le_rfl, rfl, by decide +kernel, by decide +kernel⟩)
  · rcases (submitted _).mp again with ⟨j, -, -, same, missing, -⟩ | ⟨-, same, -⟩
    · rw [← ProofId.asm.inj same] at missing
      exact stored missing
    · cases same
  · rw [queued]
    constructor
    · rintro ⟨j, above, last, rfl, waits⟩
      by_cases isFirst : j = 1
      · subst isFirst
        exact absurd first waits
      · obtain rfl : j = 2 := by omega
        rfl
    · rintro rfl
      refine ⟨2, by decide, le_rfl, rfl, fun again => ?_⟩
      rcases (submitted _).mp again with ⟨_, -, -, same, -⟩ | ⟨-, same, -⟩
      · cases same
      · revert same
        decide +kernel

end

end Asm
