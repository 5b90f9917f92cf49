import AnchorStateMachine.Prover.Types

/-! The store of the prover worker: the proofs it holds, the remote jobs of the proofs that it
submitted, and the status of the jobs that it still waits for. -/

namespace Asm

/-- A receipt without its metadata: what the program committed to, and the proof that it did. -/
structure Receipt where
  publicValues : Bytes
  proof : Bytes
  deriving DecidableEq

/-- A job stays in `remoteToProof` for good. `proofToRemote` has the job that a proof is waiting for
or came from. Nothing depends on the order of the proofs there, so they are kept in their own. -/
structure SledProofDb where
  asmProofs : OrderedTree (L1BlockCommitment ×ₗ L1BlockCommitment) Receipt
  mohoProofs : OrderedTree L1BlockCommitment Receipt
  proofToRemote : OrderedTree ProofId RemoteProofId
  remoteToProof : OrderedTree RemoteProofId ProofId
  remoteProofStatus : OrderedTree RemoteProofId RemoteProofStatus

namespace SledProofDb

def empty : SledProofDb := ⟨.empty, .empty, .empty, .empty, .empty⟩

def asmKey (range : L1Range) : L1BlockCommitment ×ₗ L1BlockCommitment := toLex (range.start, range.last)

def getAsm (db : SledProofDb) (range : L1Range) : Option Receipt := db.asmProofs.get (asmKey range)

def storeAsm (db : SledProofDb) (range : L1Range) (receipt : Receipt) : SledProofDb :=
  { db with asmProofs := db.asmProofs.insert (asmKey range) receipt }

def getMoho (db : SledProofDb) (block : L1BlockCommitment) : Option Receipt := db.mohoProofs.get block

def storeMoho (db : SledProofDb) (block : L1BlockCommitment) (receipt : Receipt) : SledProofDb :=
  { db with mohoProofs := db.mohoProofs.insert block receipt }

def getLatestMoho (db : SledProofDb) : Option L1BlockCommitment := db.mohoProofs.last.map Prod.fst

def getRemote (db : SledProofDb) (id : ProofId) : Option RemoteProofId := db.proofToRemote.get id

def getLocal (db : SledProofDb) (remoteId : RemoteProofId) :
    Option ProofId := db.remoteToProof.get remoteId

/-- A job that is known for another proof is not taken over. -/
def checkRemoteId (db : SledProofDb) (id : ProofId) (remoteId : RemoteProofId) : Option SledProofDb :=
  match db.getLocal remoteId with
  | some existing => if existing ≠ id then none else some db
  | none => some db

def insertProofToRemote (db : SledProofDb) (id : ProofId) (remoteId : RemoteProofId) : SledProofDb :=
  { db with proofToRemote := db.proofToRemote.insert id remoteId }

def insertRemoteToProof (db : SledProofDb) (id : ProofId) (remoteId : RemoteProofId) : SledProofDb :=
  { db with remoteToProof := db.remoteToProof.insert remoteId id }

def clearRemoteSubmission (db : SledProofDb) (id : ProofId) : SledProofDb :=
  { db with proofToRemote := db.proofToRemote.remove id }

def status (db : SledProofDb) (remoteId : RemoteProofId) : Option RemoteProofStatus :=
  db.remoteProofStatus.get remoteId

def setStatus (db : SledProofDb) (remoteId : RemoteProofId) (status : RemoteProofStatus) : SledProofDb :=
  { db with remoteProofStatus := db.remoteProofStatus.insert remoteId status }

/-- A job that has a status already is refused. -/
def putStatus (db : SledProofDb) (remoteId : RemoteProofId)
    (status : RemoteProofStatus) : Option SledProofDb :=
  match db.status remoteId with
  | some _ => none
  | none => some (db.setStatus remoteId status)

def updateStatus (db : SledProofDb) (remoteId : RemoteProofId)
    (status : RemoteProofStatus) : Option SledProofDb :=
  match db.status remoteId with
  | some _ => some (db.setStatus remoteId status)
  | none => none

def deleteStatus (db : SledProofDb) (remoteId : RemoteProofId) : SledProofDb :=
  { db with remoteProofStatus := db.remoteProofStatus.remove remoteId }

def inProgress (db : SledProofDb) : List (RemoteProofId × RemoteProofStatus) :=
  db.remoteProofStatus.rows.filter fun row => row.2.isActive

/-! ### Proofs by their id -/

def getProof (db : SledProofDb) : ProofId → Option Receipt
  | .asm range => db.getAsm range
  | .moho block => db.getMoho block

def storeProof (db : SledProofDb) (receipt : Receipt) : ProofId → SledProofDb
  | .asm range => db.storeAsm range receipt
  | .moho block => db.storeMoho block receipt

variable {db : SledProofDb} {id other : ProofId} {remoteId : RemoteProofId} {receipt : Receipt}

theorem asmKey_injective : Function.Injective asmKey := by
  rintro ⟨start, last⟩ ⟨otherStart, otherLast⟩ same
  simp only [asmKey, toLex_inj, Prod.mk.injEq] at same
  rw [same.1, same.2]

theorem getProof_storeProof :
    (db.storeProof receipt id).getProof other =
      if other = id then some receipt else db.getProof other := by
  cases id with
  | asm range =>
    cases other with
    | asm range' =>
      show (db.asmProofs.insert (asmKey range) receipt).get (asmKey range') = _
      simp only [OrderedTree.get_insert, ProofId.asm.injEq, asmKey_injective.eq_iff]
      rfl
    | moho block => rfl
  | moho block =>
    cases other with
    | asm range => rfl
    | moho block' =>
      show (db.mohoProofs.insert block receipt).get block' = _
      simp only [OrderedTree.get_insert, ProofId.moho.injEq]
      rfl

theorem getProof_congr {after : SledProofDb} (asm : after.asmProofs = db.asmProofs)
    (moho : after.mohoProofs = db.mohoProofs) (id : ProofId) : after.getProof id = db.getProof id := by
  cases id with
  | asm range => exact congrArg (fun proofs => proofs.get (asmKey range)) asm
  | moho block => exact congrArg (fun proofs => proofs.get block) moho

@[simp] theorem getRemote_storeProof :
    (db.storeProof receipt id).getRemote other = db.getRemote other := by
  cases id <;> rfl

@[simp] theorem getLocal_storeProof :
    (db.storeProof receipt id).getLocal remoteId = db.getLocal remoteId := by
  cases id <;> rfl

@[simp] theorem status_storeProof : (db.storeProof receipt id).status remoteId = db.status remoteId := by
  cases id <;> rfl

variable {otherJob : RemoteProofId} {newStatus : RemoteProofStatus}

@[simp] theorem getProof_setStatus : (db.setStatus remoteId newStatus).getProof id = db.getProof id := by
  cases id <;> rfl

@[simp] theorem getRemote_setStatus :
    (db.setStatus remoteId newStatus).getRemote id = db.getRemote id := rfl

@[simp] theorem getLocal_setStatus :
    (db.setStatus remoteId newStatus).getLocal otherJob = db.getLocal otherJob := rfl

theorem status_setStatus : (db.setStatus remoteId newStatus).status otherJob =
    if otherJob = remoteId then some newStatus else db.status otherJob := by
  show (db.remoteProofStatus.insert remoteId newStatus).get otherJob = _
  rw [OrderedTree.get_insert]
  rfl

@[simp] theorem getProof_deleteStatus : (db.deleteStatus remoteId).getProof id = db.getProof id := by
  cases id <;> rfl

@[simp] theorem getRemote_deleteStatus : (db.deleteStatus remoteId).getRemote id = db.getRemote id := rfl

@[simp] theorem getLocal_deleteStatus :
    (db.deleteStatus remoteId).getLocal otherJob = db.getLocal otherJob := rfl

theorem status_deleteStatus :
    (db.deleteStatus remoteId).status otherJob =
      if otherJob = remoteId then none else db.status otherJob := by
  show (db.remoteProofStatus.remove remoteId).get otherJob = _
  rw [OrderedTree.get_remove]
  rfl

@[simp] theorem getProof_clearRemoteSubmission :
    (db.clearRemoteSubmission other).getProof id = db.getProof id := by
  cases id <;> rfl

theorem getRemote_clearRemoteSubmission :
    (db.clearRemoteSubmission other).getRemote id = if id = other then none else db.getRemote id := by
  show (db.proofToRemote.remove other).get id = _
  rw [OrderedTree.get_remove]
  rfl

@[simp] theorem getLocal_clearRemoteSubmission :
    (db.clearRemoteSubmission other).getLocal remoteId = db.getLocal remoteId := rfl

@[simp] theorem status_clearRemoteSubmission :
    (db.clearRemoteSubmission other).status remoteId = db.status remoteId := rfl

theorem status_deleteStatus_some (h : (db.deleteStatus remoteId).status otherJob = some newStatus) :
    otherJob ≠ remoteId ∧ db.status otherJob = some newStatus := by
  rw [status_deleteStatus] at h
  by_cases same : otherJob = remoteId
  · rw [if_pos same] at h
    cases h
  · rw [if_neg same] at h
    exact ⟨same, h⟩

theorem getRemote_clearRemoteSubmission_some
    (h : (db.clearRemoteSubmission other).getRemote id = some remoteId) :
    id ≠ other ∧ db.getRemote id = some remoteId := by
  rw [getRemote_clearRemoteSubmission] at h
  by_cases same : id = other
  · rw [if_pos same] at h
    cases h
  · rw [if_neg same] at h
    exact ⟨same, h⟩

theorem checkRemoteId_some {after : SledProofDb} (h : db.checkRemoteId id remoteId = some after) :
    after = db ∧ (db.getLocal remoteId = none ∨ db.getLocal remoteId = some id) := by
  unfold checkRemoteId at h
  cases known : db.getLocal remoteId with
  | none =>
    rw [known] at h
    cases h
    exact ⟨rfl, .inl rfl⟩
  | some existing =>
    rw [known] at h
    by_cases other : existing ≠ id
    · simp [other] at h
    · cases not_ne_iff.mp other
      simp only [ne_eq, not_true_eq_false, if_false, Option.some.injEq] at h
      exact ⟨h.symm, .inr rfl⟩

theorem putStatus_some {after : SledProofDb} {status : RemoteProofStatus}
    (h : db.putStatus remoteId status = some after) :
    after = db.setStatus remoteId status ∧ db.status remoteId = none := by
  unfold putStatus at h
  cases known : db.status remoteId with
  | none =>
    rw [known] at h
    exact ⟨(Option.some.inj h).symm, rfl⟩
  | some existing =>
    rw [known] at h
    cases h

theorem putStatus_none {status : RemoteProofStatus} (h : db.putStatus remoteId status = none) :
    ∃ existing, db.status remoteId = some existing := by
  unfold putStatus at h
  cases known : db.status remoteId with
  | none =>
    rw [known] at h
    cases h
  | some existing => exact ⟨existing, rfl⟩

theorem updateStatus_some {after : SledProofDb} {status : RemoteProofStatus}
    (h : db.updateStatus remoteId status = some after) : after = db.setStatus remoteId status := by
  unfold updateStatus at h
  split at h
  · exact (Option.some.inj h).symm
  · cases h

theorem updateStatus_tracked {after : SledProofDb} {status : RemoteProofStatus}
    (h : db.updateStatus remoteId status = some after) : (db.status remoteId).isSome = true := by
  unfold updateStatus at h
  split at h
  · rename_i old known
    rw [known]
    rfl
  · cases h

theorem mem_inProgress {row : RemoteProofId × RemoteProofStatus} :
    row ∈ db.inProgress ↔ db.status row.1 = some row.2 ∧ row.2.isActive = true := by
  rw [inProgress, List.mem_filter, status, OrderedTree.get_eq_some_iff]

theorem inProgress_distinct (db : SledProofDb) : (db.inProgress.map Prod.fst).Nodup := by
  have sorted : db.inProgress.Pairwise fun row later => row.1 < later.1 :=
    db.remoteProofStatus.sorted.filter _
  exact List.pairwise_map.mpr (sorted.imp fun below => below.ne)

end SledProofDb

end Asm
