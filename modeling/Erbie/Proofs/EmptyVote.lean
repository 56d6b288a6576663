import Erbie.Spec.Finalize

/-! What the empty-block vote admits (`BlockChain.verifyEmptyVote`) and when the
two functions that read the votes panic.

The vote check is characterised by two lemmas: when it panics, and when it
admits the block. The creation of objects on the way changes no read, so both
are stated over the state the check starts from. Two behaviours of the source
follow. A vote is counted once per message, with the full coefficient, so one
validator that repeats its vote can outweigh half of the stake; and an empty
block whose extra data holds no vote panics the check, and panics
`Finalize`, which slices the resolved voters the same way. -/

namespace Erbie

/-- The denominator of the vote reads only coefficients, which creating
account objects leaves alone. -/
theorem allWeightBalance_foldl_getOrNew (s : StateDB) (vl l : List Validator) :
    allWeightBalance (l.foldl (fun s v => s.getOrNewAccountStateObject v.addr) s) vl =
      allWeightBalance s vl := by
  simp only [allWeightBalance, StateDB.getValidatorCoefficient,
    StateDB.worm_foldl_getOrNewAccountStateObject]

theorem allWeightBalance_getOrNewStaker (s : StateDB) (a : Address) (vl : List Validator) :
    allWeightBalance (s.getOrNewStakerStateObject a) vl = allWeightBalance s vl := by
  simp only [allWeightBalance, StateDB.getValidatorCoefficient,
    StateDB.worm_getOrNewStakerStateObject]

theorem blockWeightBalance_replicate (vl : List Validator) (v : Address) (k : Nat) :
    blockWeightBalance vl (List.replicate k v) =
      k * (ValidatorList.stakeBalance vl v * DEFAULT_VALIDATOR_COEFFICIENT) := by
  induction k with
  | zero => simp
  | succ k ih =>
    rw [List.replicate_succ, blockWeightBalance_cons, ih]
    push_cast
    rw [Int.add_mul, Int.one_mul, Int.add_comm]

namespace EmptyCodec

variable (codec : EmptyCodec) (c : Crypto) (h : Header)

/-- The vote loop succeeds exactly when every vote is for the height and has a
signer, and it returns the signers in order. -/
theorem collectVotes_eq_ok_iff (votes : List (List UInt8)) (senders : List Address) :
    codec.collectVotes c h votes = .ok senders ↔
      List.Forall₂ (fun m v => (codec.checkHeight h m).1 = true ∧ codec.recoverAddress c m = .ok v)
        votes senders := by
  induction votes generalizing senders with
  | nil =>
    cases senders <;> simp [collectVotes]
  | cons m votes ih =>
    -- the head vote either stops the loop or puts its signer in front
    cases hh : (codec.checkHeight h m).1 with
    | false => cases senders <;> simp [collectVotes, hh]
    | true =>
      cases hr : codec.recoverAddress c m with
      | error err => cases senders <;> simp [collectVotes, hh, hr]
      | ok sender =>
        cases hv : codec.collectVotes c h votes <;> cases senders <;>
          simp [collectVotes, hh, hr, hv, Except.map, ← ih]

theorem collectVotes_replicate (m : List UInt8) (v : Address) (k : Nat)
    (hheight : (codec.checkHeight h m).1 = true) (hsender : codec.recoverAddress c m = .ok v) :
    codec.collectVotes c h (List.replicate k m) = .ok (List.replicate k v) := by
  rw [collectVotes_eq_ok_iff]
  induction k with
  | zero => exact List.Forall₂.nil
  | succ k ih => exact List.Forall₂.cons ⟨hheight, hsender⟩ ih

variable (s : StateDB)

/-- The vote check panics exactly on a header whose extra data decodes with no
votes at all. -/
theorem verifyEmptyVote_eq_none_iff :
    codec.verifyEmptyVote c h s = none ↔
      ∃ extra, c.extractIstanbulExtra h = .ok extra ∧ extra.emptyBlockMessages = [] := by
  unfold verifyEmptyVote
  cases hx : c.extractIstanbulExtra h with
  | error err => simp
  | ok extra =>
    cases hm : extra.emptyBlockMessages with
    | nil => simp [hm]
    | cons first votes =>
      simp only [hm, sliceFrom_cons_one, Except.ok.injEq, exists_eq_left', reduceCtorEq,
        iff_false]
      -- past the slice every exit returns a state
      split
      · simp
      · split_ifs <;> simp

/-- The vote check admits the block exactly when the extra data decodes, every
vote after the first is for the height and has a signer, and the signers'
stake, each at `DEFAULT_VALIDATOR_COEFFICIENT` and with repeats, is more than
half of the validators' weighted stake. -/
theorem verifyEmptyVote_admits_iff :
    (∃ s', codec.verifyEmptyVote c h s = some (s', none)) ↔
      ∃ extra first votes senders, c.extractIstanbulExtra h = .ok extra ∧
        extra.emptyBlockMessages = first :: votes ∧ codec.collectVotes c h votes = .ok senders ∧
        50 * allWeightBalance s s.validators / 100 < blockWeightBalance s.validators senders := by
  unfold verifyEmptyVote
  simp only [StateDB.validators_getOrNewStakerStateObject, allWeightBalance_foldl_getOrNew,
    allWeightBalance_getOrNewStaker]
  constructor
  · rintro ⟨s', hv⟩
    cases hx : c.extractIstanbulExtra h with
    | error err => simp [hx] at hv
    | ok extra =>
      simp only [hx] at hv
      cases hm : extra.emptyBlockMessages with
      | nil => simp [hm] at hv
      | cons first votes =>
        simp only [hm, sliceFrom_cons_one] at hv
        cases hc : codec.collectVotes c h votes with
        | error err => simp [hc] at hv
        | ok senders =>
          simp only [hc] at hv
          split_ifs at hv with hlt
          · exact ⟨extra, first, votes, senders, rfl, hm, hc, hlt⟩
          · simp at hv
  · rintro ⟨extra, first, votes, senders, hx, hm, hc, hlt⟩
    simp [hx, hm, hc, hlt]

/-- One validator that repeats its vote admits an empty block alone, once the
repeats outweigh half of the stake. -/
theorem verifyEmptyVote_admits_repeated_vote (extra : IstanbulExtra) (first m : List UInt8)
    (v : Address) (k : Nat)
    (hextra : c.extractIstanbulExtra h = .ok extra)
    (hmsgs : extra.emptyBlockMessages = first :: List.replicate k m)
    (hheight : (codec.checkHeight h m).1 = true) (hsender : codec.recoverAddress c m = .ok v)
    (hk : 50 * allWeightBalance s s.validators / 100 <
      k * (ValidatorList.stakeBalance s.validators v * DEFAULT_VALIDATOR_COEFFICIENT)) :
    ∃ s', codec.verifyEmptyVote c h s = some (s', none) := by
  have hvotes := codec.collectVotes_replicate c h m v k hheight hsender
  rw [verifyEmptyVote_admits_iff]
  refine ⟨extra, first, _, _, hextra, hmsgs, hvotes, ?_⟩
  rwa [blockWeightBalance_replicate]

end EmptyCodec

/-! ### One validator's vote, six times

Two validators: `voterA` with the minimum stake and `voterB` with ten times
as much, both at the full coefficient. The stake of `voterA` alone is one
eleventh of the weighted stake, yet six copies of its vote admit the block. -/

def voterA : Address := 0x10#160
def voterB : Address := 0x20#160

def twoValidatorState : StateDB where
  accounts a :=
    if a = ValidatorStorageAddress then
      some { staker := some { validators :=
        [⟨voterB, 10 * ValidatorBase, zeroAddress, []⟩, ⟨voterA, ValidatorBase, zeroAddress, []⟩] } }
    else if a = voterA then some { worm := some { pledgedBalance := ValidatorBase, coefficient := 70 } }
    else if a = voterB then
      some { worm := some { pledgedBalance := 10 * ValidatorBase, coefficient := 70 } }
    else none

/-- Every vote decodes to a vote of `voterA` at height 1. -/
def repeatVoteCodec : EmptyCodec where
  fromPayload b := .ok ⟨0, b, voterA, []⟩
  payloadNoSig m := m.msg
  decodeSignatureData _ := .ok ⟨voterA, 1, 0⟩

/-- The extra data holds the proposer's vote and six copies of one vote, and
every signature recovers to `voterA`. -/
def repeatVoteCrypto : Crypto where
  decodeExtra _ := .ok { emptyBlockMessages := [0] :: List.replicate 6 [1] }
  hash _ := 0
  sigHash _ := 0
  getSignatureAddress _ _ := .ok voterA

def emptyHeader : Header where
  parentHash := 0
  coinbase := zeroAddress
  root := 0
  difficulty := some EmptyBlockDifficulty
  number := 1
  time := 0
  extra := List.replicate IstanbulExtraVanity 0
  mixDigest := IstanbulDigest
  nonce := EmptyBlockNonce

theorem verifyEmptyVote_admits_minority :
    2 * allWeightBalance twoValidatorState
        (twoValidatorState.validators.filter (·.addr = voterA)) ≤
      allWeightBalance twoValidatorState twoValidatorState.validators ∧
    ∃ s', repeatVoteCodec.verifyEmptyVote repeatVoteCrypto emptyHeader twoValidatorState =
      some (s', none) :=
  ⟨by decide,
   EmptyCodec.verifyEmptyVote_admits_repeated_vote repeatVoteCodec repeatVoteCrypto emptyHeader
     twoValidatorState _ [0] [1] voterA 6 rfl rfl rfl rfl (by decide)⟩

/-! ### Empty blocks without votes -/

namespace Crypto

variable (c : Crypto) (view : ChainView) (codec : EmptyCodec) (h : Header) (s : StateDB)

theorem finalize_eq_panic_of_voteAddrs_nil (random11 : List Address) (extra : IstanbulExtra)
    (pValidators : List Validator) (drop : Hash)
    (hr : view.random11 = .ok random11) (hextra : c.extractIstanbulExtra h = .ok extra)
    (hp : view.parentValidators = .ok pValidators) (hd : view.randomDrop = .ok drop)
    (hcoin : h.coinbase = zeroAddress)
    (hvotes : codec.voteAddrs c pValidators extra.emptyBlockMessages = []) :
    c.finalize view codec h s = .panic := by
  simp [finalize, hr, hextra, hp, hd, hcoin, hvotes]

/-- An empty block whose extra data decodes with no votes panics both the vote
check and `Finalize`. -/
theorem emptyBlock_without_votes_panics (random11 : List Address) (extra : IstanbulExtra)
    (pValidators : List Validator) (drop : Hash)
    (hr : view.random11 = .ok random11) (hextra : c.extractIstanbulExtra h = .ok extra)
    (hp : view.parentValidators = .ok pValidators) (hd : view.randomDrop = .ok drop)
    (hcoin : h.coinbase = zeroAddress) (hnil : extra.emptyBlockMessages = []) :
    codec.verifyEmptyVote c h s = none ∧ c.finalize view codec h s = .panic := by
  have hvotes : codec.voteAddrs c pValidators extra.emptyBlockMessages = [] := by
    rw [hnil]
    rfl
  exact ⟨(codec.verifyEmptyVote_eq_none_iff c h s).mpr ⟨extra, hextra, hnil⟩,
    c.finalize_eq_panic_of_voteAddrs_nil view codec h s random11 extra pValidators drop
      hr hextra hp hd hcoin hvotes⟩

end Crypto

/-- An extra data with no votes, on a chain where finalisation finds its
committee, parent validators and random drop. -/
def noVoteCrypto : Crypto where
  decodeExtra _ := .ok {}
  hash _ := 0
  sigHash _ := 0
  getSignatureAddress _ _ := .error ErrInvalidSignature

def noVoteView : ChainView where
  random11 := .ok []
  parentValidators := .ok []
  randomDrop := .ok 0
  preHeader := .error ErrUnknownBlock
  rewardAmount := 0
  evilValidators := []

theorem emptyBlock_without_votes_panics_at_block_one :
    repeatVoteCodec.verifyEmptyVote noVoteCrypto emptyHeader twoValidatorState = none ∧
      noVoteCrypto.finalize noVoteView repeatVoteCodec emptyHeader twoValidatorState = .panic :=
  Crypto.emptyBlock_without_votes_panics noVoteCrypto noVoteView repeatVoteCodec emptyHeader
    twoValidatorState [] {} [] 0 rfl rfl rfl rfl rfl rfl

end Erbie
