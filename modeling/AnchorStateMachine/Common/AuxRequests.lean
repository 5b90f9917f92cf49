import AnchorStateMachine.Common.AuxInput
import AnchorStateMachine.Common.Panic

/-! Requests and what answers them. Collecting only adds requests, and an answered request is one that
the getters find. -/

namespace Asm

def IsAuxMissing : Panic → Prop
  | .depositRequestNotProvided _ => True
  | .stakeConnectorNotProvided _ => True
  | .envelopeSpentOutputNotProvided _ => True
  | .manifestHashesNotProvided _ _ => True
  | _ => False

/-- There is a transaction for every requested id, and a hash for every requested height. -/
structure AuxRequests.AnsweredBy (requests : AuxRequests) (aux : VerifiedAuxData) : Prop where
  txs : ∀ txid ∈ requests.bitcoinTxs, (aux.txs txid).isSome
  manifests : ∀ range ∈ requests.manifestHashes, ∀ height, range.startHeight ≤ height →
    height ≤ range.endHeight → (aux.manifestHashes height).isSome

namespace AuxRequestCollector

variable {collector : AuxRequestCollector} {aux : VerifiedAuxData}

theorem requestBitcoinTx_answered {txid : Buf32}
    (h : (collector.requestBitcoinTx txid).requests.AnsweredBy aux) :
    collector.requests.AnsweredBy aux ∧ (aux.txs txid).isSome := by
  obtain ⟨txs, manifests⟩ := h
  exact ⟨⟨fun other mem => txs other (List.mem_append_left _ mem), manifests⟩,
    txs txid (List.mem_append_right _ (.head _))⟩

/-- Only a request beyond the bound is dropped. -/
theorem requestManifestHashes_answered {startHeight endHeight : Nat}
    (h : (collector.requestManifestHashes startHeight endHeight).requests.AnsweredBy aux) :
    collector.requests.AnsweredBy aux ∧
      (endHeight ≤ collector.maxResolvableManifestHeight → ∀ height, startHeight ≤ height →
        height ≤ endHeight → (aux.manifestHashes height).isSome) := by
  unfold requestManifestHashes at h
  split at h
  · refine ⟨h, fun bounded height above below => ?_⟩
    omega
  · obtain ⟨txs, manifests⟩ := h
    exact ⟨⟨txs, fun range mem => manifests range (List.mem_append_left _ mem)⟩,
      fun _ => manifests _ (List.mem_append_right _ (.head _))⟩

theorem requestManifestHashes_max (startHeight endHeight : Nat) :
    (collector.requestManifestHashes startHeight endHeight).maxResolvableManifestHeight =
      collector.maxResolvableManifestHeight := by
  unfold requestManifestHashes
  split <;> rfl

def Within (collector : AuxRequestCollector) (low : Nat) : Prop :=
  ∀ range ∈ collector.requests.manifestHashes, low < range.startHeight ∧
    range.startHeight ≤ range.endHeight ∧ range.endHeight ≤ collector.maxResolvableManifestHeight

theorem Within.requestManifestHashes {low startHeight endHeight : Nat} (within : collector.Within low)
    (above : low < startHeight) :
    (collector.requestManifestHashes startHeight endHeight).Within low := by
  unfold AuxRequestCollector.requestManifestHashes
  split
  · exact within
  · intro range mem
    rcases List.mem_append.mp mem with old | new
    · exact within range old
    · cases List.mem_singleton.mp new
      exact ⟨above, by dsimp only; omega, by dsimp only; omega⟩

end AuxRequestCollector

/-! ### Getters -/

namespace VerifiedAuxData

variable {aux : VerifiedAuxData}

theorem getBitcoinTx_ok {txid : Buf32} (answered : (aux.txs txid).isSome) :
    ∃ tx, aux.txs txid = some tx ∧ aux.getBitcoinTx txid = .ok tx := by
  obtain ⟨tx, found⟩ := Option.isSome_iff_exists.mp answered
  exact ⟨tx, found, by rw [getBitcoinTx, found]⟩

theorem getBitcoinTxout_ok {outpoint : OutPoint} (answered : (aux.txs outpoint.txid).isSome)
    (spent : ∀ tx, aux.txs outpoint.txid = some tx → outpoint.vout < tx.output.length) :
    ∃ output, aux.getBitcoinTxout outpoint = .ok output := by
  obtain ⟨tx, found, got⟩ := getBitcoinTx_ok answered
  have inside := spent tx found
  refine ⟨tx.output[outpoint.vout], ?_⟩
  rw [getBitcoinTxout, got, Outcome.ok_bind, List.getElem?_eq_getElem inside]

theorem mapM_getManifestHash_ok {heights : List Nat}
    (answered : ∀ height ∈ heights, (aux.manifestHashes height).isSome) :
    ∃ hashes, heights.mapM aux.getManifestHash = .ok hashes := by
  induction heights with
  | nil => exact ⟨[], rfl⟩
  | cons height heights ih =>
    obtain ⟨hash, found⟩ := Option.isSome_iff_exists.mp (answered height (.head _))
    obtain ⟨hashes, rest⟩ := ih fun other mem => answered other (.tail _ mem)
    refine ⟨hash :: hashes, ?_⟩
    rw [List.mapM_cons, getManifestHash, found, rest]
    rfl

theorem getManifestHashes_ok {start last : Nat} (ordered : start ≤ last)
    (answered : ∀ height, start ≤ height → height ≤ last → (aux.manifestHashes height).isSome) :
    ∃ hashes, aux.getManifestHashes start last = .ok hashes := by
  rw [getManifestHashes, if_neg (by omega)]
  refine mapM_getManifestHash_ok fun height mem => ?_
  obtain ⟨above, below⟩ := List.mem_range'_1.mp mem
  exact answered height above (by omega)

end VerifiedAuxData
end Asm
