import AnchorStateMachine.Common.AuxInput

/-! What verified auxiliary data says: a transaction is filed under its id, and a manifest hash
under the position of a leaf it is equal to, as far as proofs of the accumulator can be trusted. -/

namespace Asm
open Outcome

theorem update_entries {κ β : Type} [DecidableEq κ] {index : κ → Option β} {good : κ → β → Prop}
    (entries : ∀ key value, index key = some value → good key value) {newKey : κ} {newValue : β}
    (new : good newKey newValue) (key : κ) (value : β)
    (found : Function.update index newKey (some newValue) key = some value) : good key value := by
  by_cases here : key = newKey
  · subst here
    rw [Function.update_self] at found
    cases found
    exact new
  · rw [Function.update_of_ne here] at found
    exact entries key value found

theorem VerifiedAuxData.verifyAndIndexBitcoinTxs_sound [TxEncoding] {rawTxs : List Bytes}
    {index : Buf32 → Option Transaction} (h : verifyAndIndexBitcoinTxs rawTxs = .ok index)
    {txid : Buf32} {tx : Transaction} (found : index txid = some tx) :
    computeTxid tx = txid ∧ ∃ raw ∈ rawTxs, TxEncoding.deserialize raw = some tx := by
  have indexed := foldlM_preserves (fun index => ∀ txid tx, index txid = some tx →
    computeTxid tx = txid ∧ ∃ raw ∈ rawTxs, TxEncoding.deserialize raw = some tx) ?_ (by simp) h
  · exact indexed txid tx found
  · intro entry listed before after entries taken
    unfold indexBitcoinTx at taken
    split at taken
    · cases taken
    · rename_i tx decoded
      cases taken
      exact update_entries entries ⟨rfl, entry.1, List.fst_mem_of_mem_zipIdx listed, decoded⟩

section

variable [MerkleMountainRange]

/-- A proof that verifies carries the leaf at its index. -/
def MmrSound (leaves : Mmr → List Buf32) : Prop :=
  ∀ mmr proof hash, MerkleMountainRange.verify mmr proof hash = true →
    (leaves mmr)[MerkleMountainRange.index proof]? = some hash

/-- The accumulator as a list of leaves. -/
structure MmrLaws (leaves : Mmr → List Buf32) : Prop where
  sound : MmrSound leaves
  newRepeated : ∀ leaf count,
    leaves (MerkleMountainRange.newRepeated leaf count) = List.replicate count leaf
  numEntries : ∀ mmr, MerkleMountainRange.numEntries mmr = (leaves mmr).length
  addLeaf : ∀ mmr leaf extended, MerkleMountainRange.addLeaf mmr leaf = some extended →
    leaves extended = leaves mmr ++ [leaf]

namespace VerifiedAuxData

/-- Later entries replace earlier ones, so that the last of several proofs for a position counts; all
of them carry the same leaf. -/
theorem verifyAndIndexManifestHashes_sound {leaves : Mmr → List Buf32} (sound : MmrSound leaves)
    {hashes : List VerifiableManifestHash} {mmr : Mmr} {index : Nat → Option Buf32}
    (h : verifyAndIndexManifestHashes hashes mmr = .ok index) {height : Nat} {hash : Buf32}
    (found : index height = some hash) : (leaves mmr)[height]? = some hash := by
  have indexed := foldlM_preserves
    (fun index => ∀ height hash, index height = some hash → (leaves mmr)[height]? = some hash) ?_
    (by simp) h
  · exact indexed height hash found
  · intro item _ before after entries taken
    unfold indexManifestHash at taken
    split at taken
    · rename_i verified
      cases taken
      exact update_entries entries (sound mmr item.proof _ verified)
    · cases taken

variable [TxEncoding] {data : AuxData} {mmr : Mmr} {aux : VerifiedAuxData}

theorem tryNew_manifestHashes {leaves : Mmr → List Buf32} (sound : MmrSound leaves)
    (h : tryNew data mmr = .ok aux) {height : Nat} {hash : Buf32}
    (found : aux.manifestHashes height = some hash) : (leaves mmr)[height]? = some hash := by
  obtain ⟨_, _, h⟩ := bind_ok h
  obtain ⟨_, indexed, h⟩ := bind_ok h
  cases pure_ok h
  exact verifyAndIndexManifestHashes_sound sound indexed found

theorem tryNew_txs (h : tryNew data mmr = .ok aux) {txid : Buf32} {tx : Transaction}
    (found : aux.txs txid = some tx) :
    computeTxid tx = txid ∧ ∃ raw ∈ data.bitcoinTxs, TxEncoding.deserialize raw = some tx := by
  obtain ⟨_, indexed, h⟩ := bind_ok h
  obtain ⟨_, _, h⟩ := bind_ok h
  cases pure_ok h
  exact verifyAndIndexBitcoinTxs_sound indexed found

end VerifiedAuxData
end

/-! ### Two provers -/

/-- Transactions of one id among those supplied differ at most in their witnesses. -/
def TxidsCommit [TxEncoding] (rawTxs : List Bytes) : Prop :=
  ∀ raw ∈ rawTxs, ∀ raw' ∈ rawTxs, ∀ tx tx', TxEncoding.deserialize raw = some tx →
    TxEncoding.deserialize raw' = some tx' → computeTxid tx = computeTxid tx' →
    tx.stripWitness = tx'.stripWitness

namespace VerifiedAuxData

/-- What both provers supply is the same, up to the witnesses of transactions. -/
structure Consistent (aux aux' : VerifiedAuxData) : Prop where
  txs : ∀ txid tx tx', aux.txs txid = some tx → aux'.txs txid = some tx' →
    tx.stripWitness = tx'.stripWitness
  manifests : ∀ height hash hash', aux.manifestHashes height = some hash →
    aux'.manifestHashes height = some hash' → hash = hash'

theorem tryNew_consistent [MerkleMountainRange] [TxEncoding] {leaves : Mmr → List Buf32}
    (sound : MmrSound leaves) {data data' : AuxData}
    (commit : TxidsCommit (data.bitcoinTxs ++ data'.bitcoinTxs)) {mmr : Mmr} {aux aux' : VerifiedAuxData}
    (h : tryNew data mmr = .ok aux) (h' : tryNew data' mmr = .ok aux') : Consistent aux aux' := by
  constructor
  · intro txid tx tx' found found'
    obtain ⟨id, raw, listed, decoded⟩ := tryNew_txs h found
    obtain ⟨id', raw', listed', decoded'⟩ := tryNew_txs h' found'
    exact commit raw (List.mem_append_left _ listed) raw' (List.mem_append_right _ listed') tx
      tx' decoded
      decoded' (id.trans id'.symm)
  · intro height hash hash' found found'
    have leaf := tryNew_manifestHashes sound h found
    have leaf' := tryNew_manifestHashes sound h' found'
    exact Option.some.inj (leaf.symm.trans leaf')

variable {aux aux' : VerifiedAuxData}

theorem Consistent.output (consistent : Consistent aux aux') {txid : Buf32} {tx tx' : Transaction}
    (h : aux.getBitcoinTx txid = .ok tx) (h' : aux'.getBitcoinTx txid = .ok tx') :
    tx.output = tx'.output := by
  unfold getBitcoinTx at h h'
  split at h
  · rename_i found
    split at h'
    · rename_i found'
      cases h
      cases h'
      -- Stripping the witnesses leaves the outputs alone.
      have same := congrArg Transaction.output (consistent.txs txid tx tx' found found')
      exact same
    · cases h'
  · cases h

theorem Consistent.getBitcoinTxout (consistent : Consistent aux aux') (outpoint : OutPoint) :
    Agree (aux.getBitcoinTxout outpoint) (aux'.getBitcoinTxout outpoint) := by
  intro output output' h h'
  obtain ⟨tx, found, h⟩ := bind_ok h
  obtain ⟨tx', found', h'⟩ := bind_ok h'
  rw [← consistent.output found found'] at h'
  exact Except.ok.inj (h.symm.trans h')

theorem Consistent.getManifestHashes (consistent : Consistent aux aux') (start last : Nat) :
    Agree (aux.getManifestHashes start last) (aux'.getManifestHashes start last) := by
  unfold VerifiedAuxData.getManifestHashes
  split
  · exact agree_error _
  · refine mapM_agree (fun height => ?_) _
    intro hash hash' h h'
    unfold getManifestHash at h h'
    split at h
    · rename_i found
      split at h'
      · rename_i found'
        cases h
        cases h'
        exact consistent.manifests height _ _ found found'
      · cases h'
    · cases h

end VerifiedAuxData
end Asm
