import Erbie.Proofs.Seals
import Erbie.Spec.Finalize

/-! Whom an evil action punishes. `pickEvilValidatorsV2` reports every
address that occurs twice among the signers of the canonical header at the
height of the first evil header and the signers of the evil headers. Nothing
checks the evil action a block carries: its headers may repeat one another,
include the canonical header, or lie at other heights. An evil action whose
one header is the canonical header counts each of its sealers twice, and every
one of them is punished, though none sealed two headers. -/

namespace Erbie

theorem mem_findDup {target : List Address} {a : Address} : a ∈ findDup target ↔ 2 ≤ target.count a := by
  unfold findDup
  rw [List.mem_filter, List.mem_dedup, decide_eq_true_eq]
  constructor
  · exact fun h => h.2
  · intro h
    exact ⟨List.count_pos_iff.mp (by omega), h⟩

namespace Crypto

variable (c : Crypto)

theorem evilSigners_singleton {H : Header} {S : List Address} (hs : c.signers H = .ok S) :
    c.evilSigners [H] = S := by
  rw [evilSigners, hs]
  exact List.append_nil S

/-- An evil action whose only header is the canonical header of its height
reports every sealer of that header. -/
theorem pickEvilValidatorsV2_reports_canonical_signers (getHeaderByNumber : Nat → Option Header)
    {H : Header} {S : List Address} (hc : H.coinbase ≠ zeroAddress) (hs : c.signers H = .ok S)
    (hg : getHeaderByNumber H.number = some H) (handled : Bool) :
    ∃ evil, c.pickEvilValidatorsV2 getHeaderByNumber ⟨handled, [H]⟩ = some evil ∧ ∀ a ∈ S, a ∈ evil := by
  refine ⟨findDup (S ++ S), ?_, fun a ha => mem_findDup.mpr ?_⟩
  · simp only [pickEvilValidatorsV2, hg, if_pos hc, hs, evilSigners_singleton c hs]
  · have : 0 < S.count a := List.count_pos_iff.mpr ha
    rw [List.count_append]
    omega

end Crypto

/-! Block 1, sealed by `sealerA` alone, is the canonical header of its
height. Block 8 carries an evil action whose only header is block 1, and pays
the seals of block 1 as its rewards. -/

def slashCrypto : Crypto where
  decodeExtra bytes :=
    if bytes = [8] then
      .ok { validatorAddr := [sealerA], rewardSeal := [[1]],
            evilAction := some ⟨false, [sealedHeader 1]⟩ }
    else .ok { committedSeal := [[1]] }
  hash _ := 0
  sigHash _ := 0
  getSignatureAddress _ _ := .ok sealerA

def slashHeaders (n : Nat) : Option Header := if n = 1 then some (sealedHeader 1) else none

def punishingHeader : Header := { sealedHeader 8 with number := 8 }

/-- `sealerA` is the one validator, with the full coefficient. -/
def slashState : StateDB where
  accounts a :=
    if a = ValidatorStorageAddress then
      some { staker := some { validators := [⟨sealerA, ValidatorBase, zeroAddress, []⟩] } }
    else if a = sealerA then some { worm := some { coefficient := 70 } }
    else none

def slashView : ChainView where
  random11 := .ok [sealerA]
  parentValidators := .ok [⟨sealerA, ValidatorBase, zeroAddress, []⟩]
  randomDrop := .ok 0
  preHeader := .ok (sealedHeader 1)
  rewardAmount := 1
  evilValidators := (slashCrypto.pickEvilValidatorsV2 slashHeaders ⟨false, [sealedHeader 1]⟩).getD []

def slashCodec : EmptyCodec where
  fromPayload _ := .error ErrInvalidSignature
  payloadNoSig _ := []
  decodeSignatureData _ := .error ErrInvalidSignature

theorem punishes_sealer_of_canonical_header :
    (∃ evil, slashCrypto.pickEvilValidatorsV2 slashHeaders ⟨false, [sealedHeader 1]⟩ = some evil ∧
        ∀ a ∈ [sealerA], a ∈ evil) ∧
      slashState.getValidatorCoefficient sealerA = 70 ∧
      ∃ s', slashCrypto.finalize slashView slashCodec punishingHeader slashState = .done s' ∧
        s'.getValidatorCoefficient sealerA = 1 :=
  ⟨slashCrypto.pickEvilValidatorsV2_reports_canonical_signers slashHeaders (by decide) rfl rfl false,
    rfl, _, rfl, rfl⟩

end Erbie
