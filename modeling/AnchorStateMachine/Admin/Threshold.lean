import Mathlib.Data.List.Nodup
import Mathlib.Data.List.Perm.Subperm
import AnchorStateMachine.Admin.Message
import AnchorStateMachine.Admin.Subprotocol

/-! Threshold signatures: what a configuration can be, and what a verified set of signatures says. -/

namespace Asm
open Outcome

/-! ### Configurations -/

namespace ThresholdConfig

/-- Distinct signers, as many as can be addressed, and enough of them for the threshold. -/
structure Sound (config : ThresholdConfig) : Prop where
  distinct : config.signers.Nodup
  enough : config.threshold.val ≤ config.signers.length
  bounded : config.signers.length ≤ maxSigners

/-- The configuration after a call of `apply_update`, which leaves it alone if it fails. -/
def afterUpdate (config : ThresholdConfig) (update : ThresholdConfigUpdate) : ThresholdConfig :=
  match config.applyUpdate update with
  | .ok next => next
  | .error _ => config

theorem validateUpdate_ok {config : ThresholdConfig} {update : ThresholdConfigUpdate}
    (h : config.validateUpdate update = .ok ()) :
    update.addMembers.Nodup ∧ update.removeMembers.Nodup ∧
    (∀ member ∈ update.addMembers, member ∉ config.signers) ∧
    (∀ member ∈ update.removeMembers, member ∈ config.signers) ∧
    let updatedSize := config.signers.length + update.addMembers.length - update.removeMembers.length
    updatedSize ≤ maxSigners ∧ update.newThreshold.val ≤ updatedSize := by
  unfold validateUpdate at h
  split_ifs at h with added removed new old
  dsimp only at h
  split_ifs at h with bounded enough
  refine ⟨by simpa using added, by simpa using removed, by simpa using new, by simpa using old,
    ?_, ?_⟩ <;>
    omega

theorem length_kept {signers removed : List P2wpkhAddress} (distinct : signers.Nodup)
    (nodup : removed.Nodup) (members : ∀ member ∈ removed, member ∈ signers) :
    (signers.filter fun signer => !removed.contains signer).length + removed.length =
      signers.length := by
  have gone : (signers.filter fun signer => removed.contains signer).Perm removed := by
    refine (List.perm_ext_iff_of_nodup (distinct.filter _) nodup).mpr fun member => ?_
    simp only [List.mem_filter, List.contains_iff_mem]
    exact ⟨And.right, fun mem => ⟨members member mem, mem⟩⟩
  rw [← gone.length_eq, Nat.add_comm]
  exact (List.length_eq_length_filter_add _).symm

theorem applyUpdate_ok {config next : ThresholdConfig} {update : ThresholdConfigUpdate}
    (h : config.applyUpdate update = .ok next) :
    config.validateUpdate update = .ok () ∧
      next = ⟨(config.signers.filter fun signer => !update.removeMembers.contains signer) ++
        update.addMembers, update.newThreshold⟩ := by
  obtain ⟨_, valid, h⟩ := bind_ok h
  cases pure_ok h
  exact ⟨valid, rfl⟩

theorem mem_applyUpdate {config next : ThresholdConfig} {update : ThresholdConfigUpdate}
    (h : config.applyUpdate update = .ok next) (member : P2wpkhAddress) :
    member ∈ next.signers ↔
      member ∈ config.signers ∧ member ∉ update.removeMembers ∨ member ∈ update.addMembers := by
  obtain ⟨-, rfl⟩ := applyUpdate_ok h
  simp

theorem applyUpdate_sound {config next : ThresholdConfig} {update : ThresholdConfigUpdate}
    (distinct : config.signers.Nodup) (h : config.applyUpdate update = .ok next) : next.Sound := by
  obtain ⟨valid, rfl⟩ := applyUpdate_ok h
  obtain ⟨added, removed, new, old, bounded, enough⟩ := validateUpdate_ok valid
  have kept := length_kept distinct removed old
  refine ⟨?_, ?_, ?_⟩
  · refine List.nodup_append.mpr ⟨distinct.filter _, added, fun member isKept other isAdded same => ?_⟩
    exact new other isAdded (same ▸ List.mem_of_mem_filter isKept)
  · show update.newThreshold.val ≤ (_ ++ update.addMembers).length
    rw [List.length_append]
    omega
  · rw [List.length_append]
    omega

theorem tryNew_sound {signers : List P2wpkhAddress} {threshold : NonZeroU8} {config : ThresholdConfig}
    (h : tryNew signers threshold = .ok config) : config.Sound := by
  obtain ⟨update, _, h⟩ := bind_ok h
  exact applyUpdate_sound List.nodup_nil h

theorem afterUpdate_sound {config : ThresholdConfig} (sound : config.Sound)
    (update : ThresholdConfigUpdate) : (config.afterUpdate update).Sound := by
  unfold afterUpdate
  split
  · rename_i next applied
    exact applyUpdate_sound sound.distinct applied
  · exact sound

theorem foldl_afterUpdate_sound {config : ThresholdConfig} (sound : config.Sound)
    (updates : List ThresholdConfigUpdate) : (updates.foldl afterUpdate config).Sound := by
  induction updates generalizing config with
  | nil => exact sound
  | cons update updates ih => exact ih (afterUpdate_sound sound update)

end ThresholdConfig

/-! ### Signature sets -/

theorem foldlM_addSignerIndex {signatures : List IndexedSignature} {seen indices : List Nat}
    (h : signatures.foldlM addSignerIndex seen = .ok indices) :
    indices = seen ++ signatures.map IndexedSignature.index ∧ (seen.Nodup → indices.Nodup) := by
  induction signatures generalizing seen with
  | nil =>
    cases pure_ok h
    simp
  | cons signature signatures ih =>
    rw [List.foldlM_cons] at h
    obtain ⟨next, added, h⟩ := bind_ok h
    unfold addSignerIndex at added
    split at added
    · cases added
    · rename_i fresh
      cases added
      obtain ⟨rfl, distinct⟩ := ih h
      refine ⟨by simp, fun nodup => distinct (List.nodup_append.mpr ⟨nodup, List.nodup_singleton _, ?_⟩)⟩
      intro index mem other isOther same
      rw [List.mem_singleton.mp isOther] at same
      exact fresh (by simpa [same] using mem)

theorem foldlM_addSignerIndex_of_nodup {signatures : List IndexedSignature} {seen : List Nat}
    (distinct : (seen ++ signatures.map IndexedSignature.index).Nodup) :
    ∃ indices, signatures.foldlM addSignerIndex seen = .ok indices := by
  induction signatures generalizing seen with
  | nil => exact ⟨seen, rfl⟩
  | cons signature signatures ih =>
    have fresh : ¬ seen.contains signature.index = true := by
      simp only [List.contains_iff_mem]
      exact fun mem => (List.nodup_append.mp distinct).2.2 _ mem _ (.head _) rfl
    rw [List.foldlM_cons, addSignerIndex, if_neg fresh]
    exact ih (by simpa using distinct)

theorem checkSignatureSet_ok {signatures : List IndexedSignature} :
    checkSignatureSet signatures = .ok () ↔
      (signatures.map IndexedSignature.index).Nodup ∧ signatures.length ≤ maxSigners := by
  constructor
  · intro h
    obtain ⟨indices, added, h⟩ := bind_ok h
    obtain ⟨rfl, distinct⟩ := foldlM_addSignerIndex added
    split at h
    · cases h
    · exact ⟨by simpa using distinct .nil, by omega⟩
  · rintro ⟨distinct, bounded⟩
    obtain ⟨indices, added⟩ : ∃ indices, signatures.foldlM addSignerIndex [] = .ok indices :=
      foldlM_addSignerIndex_of_nodup distinct
    simp only [checkSignatureSet, added, ok_bind]
    rw [if_neg (by omega)]
    rfl

/-! ### Verification -/

theorem normalizeRecoveryId_le {header recoveryId : Nat}
    (h : normalizeRecoveryId header = .ok recoveryId) :
    recoveryId ≤ 3 := by
  unfold normalizeRecoveryId at h
  split_ifs at h <;> cases h <;> omega

theorem signers_of_indices {config : ThresholdConfig} {indices : List Nat} (sound : config.Sound)
    (distinct : indices.Nodup) (inRange : ∀ index ∈ indices, index < config.signers.length) :
    (indices.filterMap fun index => config.signers[index]?).Nodup ∧
      (indices.filterMap fun index => config.signers[index]?).length = indices.length := by
  constructor
  · refine distinct.filterMap fun index other address isAddress isOther => ?_
    obtain ⟨bound, isAddress⟩ := List.getElem?_eq_some_iff.mp isAddress
    obtain ⟨otherBound, isOther⟩ := List.getElem?_eq_some_iff.mp isOther
    exact (sound.distinct.getElem_inj_iff).mp (isAddress.trans isOther.symm)
  · rw [List.length_filterMap_eq_countP, List.countP_eq_length]
    intro index mem
    rw [List.getElem?_eq_getElem (inRange index mem)]
    rfl

section

variable [AdminLibs]

/-- The signature, with its header normalised to a recovery id, recovers a key of the address. -/
def SignedBy (messageHash : Buf32) (sig : IndexedSignature) (address : P2wpkhAddress) : Prop :=
  ∃ recoveryId ≤ 3, normalizeRecoveryId sig.recoveryId = .ok recoveryId ∧
    AdminLibs.validCompact sig.compact recoveryId = true ∧
    ∃ pubkey, AdminLibs.recoverEcdsa messageHash sig.compact recoveryId = some pubkey ∧
      AdminLibs.wpubkeyHash pubkey = address

theorem verifyEcdsaSignature_ok {config : ThresholdConfig} {messageHash : Buf32}
    {sig : IndexedSignature} :
    verifyEcdsaSignature config messageHash sig = .ok () ↔
      ∃ address, config.signers[sig.index]? = some address ∧ SignedBy messageHash sig address := by
  unfold verifyEcdsaSignature
  cases found : config.signers[sig.index]? with
  | none => simp
  | some expected =>
    constructor
    · intro h
      obtain ⟨recoveryId, normalized, h⟩ := bind_ok h
      dsimp only at h
      split at h
      · cases h
      · rename_i compact
        split at h
        · cases h
        · rename_i pubkey recovered
          split at h
          · cases h
          · rename_i isSigner
            exact ⟨expected, rfl, recoveryId, normalizeRecoveryId_le normalized, normalized,
              by simpa using compact, pubkey, recovered, by simpa using isSigner⟩
    · rintro ⟨address, isExpected, recoveryId, -, normalized, compact, pubkey, recovered, isSigner⟩
      cases isExpected
      simp [normalized, compact, recovered, isSigner]

theorem verifyThresholdSignatures_ok {config : ThresholdConfig} (signatures : List IndexedSignature)
    (messageHash : Buf32) (bounded : config.signers.length ≤ maxSigners) :
    verifyThresholdSignatures config signatures messageHash = .ok () ↔
      (signatures.map IndexedSignature.index).Nodup ∧ config.threshold.val ≤ signatures.length ∧
      ∀ sig ∈ signatures, ∃ address, config.signers[sig.index]? = some address ∧
        SignedBy messageHash sig address := by
  have each : signatures.forM (verifyEcdsaSignature config messageHash) = .ok () ↔
      ∀ sig ∈ signatures, ∃ address, config.signers[sig.index]? = some address ∧
        SignedBy messageHash sig address := by
    rw [forM_ok]
    exact forall₂_congr fun sig _ => verifyEcdsaSignature_ok
  constructor
  · intro h
    obtain ⟨_, checked, h⟩ := bind_ok h
    dsimp only at h
    split at h
    · cases h
    · exact ⟨(checkSignatureSet_ok.mp checked).1, by omega, each.mp h⟩
  · rintro ⟨distinct, enough, signed⟩
    -- Distinct indices in range are at most as many as there are signers.
    have inRange : signatures.map IndexedSignature.index ⊆ List.range config.signers.length := by
      intro index mem
      obtain ⟨sig, isSig, rfl⟩ := List.mem_map.mp mem
      obtain ⟨address, found, -⟩ := signed sig isSig
      exact List.mem_range.mpr (List.getElem?_eq_some_iff.mp found).1
    have count := (List.subperm_of_subset distinct inRange).length_le
    rw [List.length_map, List.length_range] at count
    have checked := checkSignatureSet_ok.mpr ⟨distinct, Nat.le_trans count bounded⟩
    simp only [verifyThresholdSignatures, checked, ok_bind]
    rw [if_neg (by omega)]
    exact each.mpr signed

/-- A configuration is sound however it was updated, an update makes the set of signers it says, and a
set of signatures is accepted exactly if it is signed by enough of the signers. -/
theorem threshold_authentic {signers : List P2wpkhAddress} {threshold : NonZeroU8}
    {created : ThresholdConfig} (new : ThresholdConfig.tryNew signers threshold = .ok created)
    (updates : List ThresholdConfigUpdate) :
    let config := updates.foldl ThresholdConfig.afterUpdate created
    config.signers.Nodup ∧ 1 ≤ config.threshold.val ∧ config.threshold.val ≤ config.signers.length ∧
    config.signers.length ≤ 256 ∧
    (∀ update next, config.applyUpdate update = .ok next → next.threshold = update.newThreshold ∧
      ∀ member, member ∈ next.signers ↔
        member ∈ config.signers ∧ member ∉ update.removeMembers ∨ member ∈ update.addMembers) ∧
    ∀ signatures messageHash,
      (verifyThresholdSignatures config signatures messageHash = .ok () ↔
        (signatures.map IndexedSignature.index).Nodup ∧
        (∀ sig ∈ signatures, sig.index < config.signers.length) ∧
        config.threshold.val ≤ signatures.length ∧
        ∀ sig ∈ signatures, ∀ address, config.signers[sig.index]? = some address →
          SignedBy messageHash sig address) ∧
      (verifyThresholdSignatures config signatures messageHash = .ok () →
        ∃ addresses : List P2wpkhAddress, addresses.Nodup ∧ config.threshold.val ≤ addresses.length ∧
          ∀ address ∈ addresses, address ∈ config.signers ∧
            ∃ sig ∈ signatures, SignedBy messageHash sig address) := by
  intro config
  have sound : config.Sound :=
    ThresholdConfig.foldl_afterUpdate_sound (ThresholdConfig.tryNew_sound new) updates
  refine ⟨sound.distinct, config.threshold.property.1, sound.enough, sound.bounded, ?_, ?_⟩
  · intro update next applied
    refine ⟨?_, ThresholdConfig.mem_applyUpdate applied⟩
    rw [(ThresholdConfig.applyUpdate_ok applied).2]
  · intro signatures messageHash
    have accepted := verifyThresholdSignatures_ok signatures messageHash sound.bounded
    constructor
    · rw [accepted]
      constructor
      · rintro ⟨distinct, enough, signed⟩
        refine ⟨distinct, fun sig mem => ?_, enough, fun sig mem address found => ?_⟩
        · obtain ⟨address, found, -⟩ := signed sig mem
          exact (List.getElem?_eq_some_iff.mp found).1
        · obtain ⟨other, isOther, signed⟩ := signed sig mem
          cases found.symm.trans isOther
          exact signed
      · rintro ⟨distinct, inRange, enough, signed⟩
        refine ⟨distinct, enough, fun sig mem => ?_⟩
        have found := List.getElem?_eq_getElem (inRange sig mem)
        exact ⟨_, found, signed sig mem _ found⟩
    · intro verified
      obtain ⟨distinct, enough, signed⟩ := accepted.mp verified
      have inRange : ∀ index ∈ signatures.map IndexedSignature.index, index < config.signers.length := by
        intro index mem
        obtain ⟨sig, isSig, rfl⟩ := List.mem_map.mp mem
        obtain ⟨address, found, -⟩ := signed sig isSig
        exact (List.getElem?_eq_some_iff.mp found).1
      obtain ⟨nodup, length⟩ := signers_of_indices sound distinct inRange
      refine ⟨_, nodup, by rwa [length, List.length_map], fun address mem => ?_⟩
      obtain ⟨index, isIndex, found⟩ := List.mem_filterMap.mp mem
      obtain ⟨sig, isSig, rfl⟩ := List.mem_map.mp isIndex
      obtain ⟨other, isOther, signedBy⟩ := signed sig isSig
      cases found.symm.trans isOther
      exact ⟨List.mem_of_getElem? found, sig, isSig, signedBy⟩

end

/-! ### Two of three -/

def sampleSigner (byte : UInt8) : P2wpkhAddress := ⟨List.replicate 20 byte, List.length_replicate⟩

/-- The last byte of a signature says who signed. -/
@[reducible] def sampleSignerLibs : AdminLibs :=
  { sampleAdminLibs with wpubkeyHash := fun pubkey => sampleSigner (pubkey.getLastD 0) }

def sampleSignatureOf (index : Nat) (byte : UInt8) : IndexedSignature :=
  ⟨index, 31 :: (List.replicate 63 0 ++ [byte]), rfl⟩

section

attribute [local instance] sampleSignerLibs

/-- Of three signers the first is replaced. Two signatures are enough, also that of the new one. -/
theorem threshold_authentic_sample :
    let update : ThresholdConfigUpdate := ⟨[sampleSigner 4], [sampleSigner 1], ⟨2, by decide⟩, by decide, by decide⟩
    let signatures := [sampleSignatureOf 0 2, sampleSignatureOf 2 4]
    ∃ created, ThresholdConfig.tryNew [sampleSigner 1, sampleSigner 2, sampleSigner 3] ⟨2, by decide⟩ =
        .ok created ∧
      verifyThresholdSignatures (created.afterUpdate update) [sampleSignatureOf 0 2] .zero ≠ .ok () ∧
      verifyThresholdSignatures (created.afterUpdate update) signatures .zero = .ok () ∧
      ∃ addresses : List P2wpkhAddress, addresses.Nodup ∧ 2 ≤ addresses.length ∧
        ∀ address ∈ addresses, address ∈ (created.afterUpdate update).signers ∧
          ∃ sig ∈ signatures, SignedBy .zero sig address := by
  intro update signatures
  obtain ⟨created, new⟩ : ∃ created, ThresholdConfig.tryNew [sampleSigner 1, sampleSigner 2, sampleSigner 3]
    ⟨2, by decide⟩ = .ok created := ⟨_, rfl⟩
  have isCreated : created = ⟨[sampleSigner 1, sampleSigner 2, sampleSigner 3], ⟨2, by decide⟩⟩ := by
    cases new
    rfl
  have verified : verifyThresholdSignatures (created.afterUpdate update) signatures .zero = .ok () := by
    subst isCreated
    decide
  obtain ⟨-, -, -, -, -, authentic⟩ := threshold_authentic new [update]
  subst isCreated
  exact ⟨_, new, by decide, verified, (authentic signatures .zero).2 verified⟩

end
end Asm
