import Erbie.Proofs.Seals
import Erbie.Spec.Finalize

/-! Who receives the official NFTs of a block. `Prepare` draws the exchangers
from the parent's stakers and writes them into the extra data; `Finalize`
mints to whatever exchangers the extra data names. No check in between looks
at them: the header checks and the empty-block vote read every field of the
extra data but `ExchangerAddr`, so a proposer may name any exchangers, and two
blocks on one parent that both pass reward different addresses.

The checks are stated against `c.replaceExchangers X`, the decoder that reads
every extra data with its exchangers replaced by `X`: every verdict is the one
`c` gives. -/

namespace Erbie

namespace Crypto

/-- The decoder `c` with the exchangers of every extra data replaced by `X`. -/
def replaceExchangers (c : Crypto) (X : List Address) : Crypto :=
  { c with decodeExtra := fun b => (c.decodeExtra b).map fun E => { E with exchangerAddr := X } }

variable (c : Crypto) (X : List Address) (h : Header)

theorem extractIstanbulExtra_replaceExchangers :
    (c.replaceExchangers X).extractIstanbulExtra h =
      (c.extractIstanbulExtra h).map fun E => { E with exchangerAddr := X } := by
  unfold extractIstanbulExtra replaceExchangers
  split_ifs <;> rfl

theorem signers_replaceExchangers : (c.replaceExchangers X).signers h = c.signers h := by
  unfold signers
  rw [extractIstanbulExtra_replaceExchangers]
  cases c.extractIstanbulExtra h <;> rfl

theorem author_replaceExchangers : (c.replaceExchangers X).author h = c.author h := by
  unfold author
  rw [extractIstanbulExtra_replaceExchangers]
  cases c.extractIstanbulExtra h <;> rfl

theorem verifySigner_replaceExchangers (validators : ValidatorSet) :
    (c.replaceExchangers X).verifySigner h validators = c.verifySigner h validators := by
  unfold verifySigner
  rw [author_replaceExchangers]

theorem verifyCommittedSeals_replaceExchangers (validators : ValidatorSet) :
    (c.replaceExchangers X).verifyCommittedSeals h validators = c.verifyCommittedSeals h validators := by
  unfold verifyCommittedSeals
  rw [extractIstanbulExtra_replaceExchangers, signers_replaceExchangers]
  cases c.extractIstanbulExtra h <;> rfl

variable (chain : Chain)

theorem verifyCascadingFields_replaceExchangers (validators : ValidatorSet) (parents : List Header) :
    (c.replaceExchangers X).verifyCascadingFields chain h validators parents =
      c.verifyCascadingFields chain h validators parents := by
  unfold verifyCascadingFields
  simp only [verifySigner_replaceExchangers, verifyCommittedSeals_replaceExchangers]
  rfl

theorem verifyHeader_replaceExchangers (now : Nat) (parents : List Header) (validators : ValidatorSet) :
    (c.replaceExchangers X).verifyHeader chain now h parents validators =
      c.verifyHeader chain now h parents validators := by
  unfold verifyHeader
  rw [extractIstanbulExtra_replaceExchangers, verifyCascadingFields_replaceExchangers]
  cases c.extractIstanbulExtra h <;> rfl

/-- The header checks do not read the exchangers: a block whose extra data
names other exchangers gets the verdict the block itself gets. -/
theorem backendVerifyHeader_replaceExchangers (now : Nat) (stateDb : Option Error)
    (genesis : Header) (parents : List Header) :
    (c.replaceExchangers X).backendVerifyHeader chain now stateDb genesis h parents =
      c.backendVerifyHeader chain now stateDb genesis h parents := by
  unfold backendVerifyHeader
  simp only [verifyHeader_replaceExchangers, extractIstanbulExtra_replaceExchangers]
  cases c.extractIstanbulExtra h <;> rfl

end Crypto

theorem collectVotes_replaceExchangers (codec : EmptyCodec) (c : Crypto) (X : List Address)
    (h : Header) :
    ∀ votes, codec.collectVotes (c.replaceExchangers X) h votes = codec.collectVotes c h votes
  | [] => rfl
  | m :: rest => by
    unfold EmptyCodec.collectVotes
    rw [collectVotes_replaceExchangers codec c X h rest]
    rfl

/-- Nor does the empty-block vote. -/
theorem verifyEmptyVote_replaceExchangers (codec : EmptyCodec) (c : Crypto) (X : List Address)
    (h : Header) (s : StateDB) :
    codec.verifyEmptyVote (c.replaceExchangers X) h s = codec.verifyEmptyVote c h s := by
  unfold EmptyCodec.verifyEmptyVote
  simp only [Crypto.extractIstanbulExtra_replaceExchangers, collectVotes_replaceExchangers]
  cases c.extractIstanbulExtra h <;> rfl

/-! Two blocks on one parent, sealed by its only validator, that differ in
the last byte of their extra data; the decoder reads that byte as their one
exchanger. -/

/-- The first address the official mint gives out, `0x8000…0`. -/
def firstOfficialNFT : Address := BitVec.ofNat 160 (2 ^ 159)

def exchangerCrypto : Crypto where
  decodeExtra bytes := .ok { validators := [sealerA], proposerSeal := [1], committedSeal := [[1]],
                             exchangerAddr := bytes.map fun b => BitVec.ofNat 160 b.toNat }
  hash _ := 0
  sigHash _ := 0
  getSignatureAddress _ _ := .ok sealerA

def exchangerView : ChainView where
  random11 := .ok []
  parentValidators := .ok []
  randomDrop := .ok 0
  preHeader := .error ErrUnknownBlock
  rewardAmount := 1
  evilValidators := []

def exchangerCodec : EmptyCodec where
  fromPayload _ := .error ErrInvalidSignature
  payloadNoSig _ := []
  decodeSignatureData _ := .error ErrInvalidSignature

theorem verified_blocks_reward_different_exchangers :
    exchangerCrypto.backendVerifyHeader outsiderChain 0 none (sealedHeader 0) (sealedHeader 5) [] = none ∧
    exchangerCrypto.backendVerifyHeader outsiderChain 0 none (sealedHeader 0) (sealedHeader 6) [] = none ∧
    ∃ s₁ s₂, exchangerCrypto.finalize exchangerView exchangerCodec (sealedHeader 5) StateDB.empty = .done s₁ ∧
      exchangerCrypto.finalize exchangerView exchangerCodec (sealedHeader 6) StateDB.empty = .done s₂ ∧
      s₁.getNFTOwner16 firstOfficialNFT = 5 ∧ s₂.getNFTOwner16 firstOfficialNFT = 6 :=
  ⟨by decide, by decide, _, _, rfl, rfl, rfl, rfl⟩

end Erbie
