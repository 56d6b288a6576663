import Erbie.Spec.Finalize

/-! The reward report of the RPC service (`internal/ethapi/api.go`).
`DistributeRewardsToStakers` recomputes, for one rewarded validator, the split
that the chain's `StateDB.DistributeRewardsToStakers` pays: the share of each
other staker, and what the validator keeps of the reward. It reads the
validator's staker list through `GetOrNewAccountStateObject`, whose write to
the service's own state copy nothing returns.

`GetBlockBeneficiaryAddressByNumberNew` reports a whole block: the rewarded
validators of the header's extra data, split on the state of the block before,
then the exchangers with the official NFT addresses they get. Fetching the
block, its parent header and the parent state is not modelled: the report is
given the header and the state. -/

namespace Erbie

structure StakerReward where
  stakerAddr : Address
  rewardAmount : Int
deriving DecidableEq, Repr

structure BeneficiaryAddressNew where
  address : Address
  nftAddress : Address
  rewardAmount : Int
  stakerRewards : List StakerReward
deriving DecidableEq, Repr

namespace Ethapi

/-- The loop of `DistributeRewardsToStakers` over the staker list. The
division panics when the other stakers hold nothing. -/
def stakerRewards (validator : Address) (sumStakerReward sumStakerBalance : Int) :
    List ValidatorExtension → Option (List StakerReward)
  | [] => some []
  | staker :: rest =>
    if staker.addr = validator then stakerRewards validator sumStakerReward sumStakerBalance rest
    else if sumStakerBalance = 0 then none
    else
      let stakerReward := sumStakerReward * staker.balance / sumStakerBalance
      (stakerRewards validator sumStakerReward sumStakerBalance rest).map (⟨staker.addr, stakerReward⟩ :: ·)

/-- `DistributeRewardsToStakers(validator, rewardAmount, st)`. -/
def distributeRewardsToStakers (validator : Address) (rewardAmount : Int) (st : StateDB) :
    Option BeneficiaryAddressNew :=
  let sumStakerReward := rewardAmount * (100 - PercentageValidatorReward) / 100
  let st := st.getOrNewAccountStateObject validator
  let stakerList := (st.worm validator).validatorExtension
  let sumStakerBalance := getAllBalance stakerList - BalanceList.balanceOf stakerList validator
  (stakerRewards validator sumStakerReward sumStakerBalance stakerList).map fun rewards =>
    let actualSumStakerReward := (rewards.map StakerReward.rewardAmount).sum
    { address := validator, nftAddress := zeroAddress,
      rewardAmount := rewardAmount - actualSumStakerReward, stakerRewards := rewards }

/-- The exchangers' part of the report: each gets the next official NFT
address, `BytesToAddress` of the counter. Its `RewardAmount` and
`StakerRewards` stay nil, `0` and `[]` here. -/
def exchangerReports (officialMint : Nat) : List Address → List BeneficiaryAddressNew
  | [] => []
  | owner :: rest =>
    { address := owner, nftAddress := BitVec.ofNat 160 officialMint, rewardAmount := 0, stakerRewards := [] } ::
      exchangerReports (officialMint + 1) rest

/-- `GetBlockBeneficiaryAddressByNumberNew(number)` for the block with header
`h`, on the state `statedb` of block `number - 1`, where `rewardAmount` is
`GetRewardAmount(number, DREBlockReward)`. `none` is a panic: `GetOfficialMint`
copies a missing counter, or a validator's other stakers hold nothing. -/
def getBlockBeneficiaryAddressByNumberNew (c : Crypto) (h : Header) (statedb : StateDB) (rewardAmount : Int) :
    Option (Except Error (List BeneficiaryAddressNew)) :=
  match c.extractIstanbulExtra h with
  | .error err => some (.error err)
  | .ok istanbulExtra =>
    match statedb.officialMint with
    | none => none
    | some officialMint =>
      (istanbulExtra.validatorAddr.mapM fun owner => distributeRewardsToStakers owner rewardAmount statedb).map
        fun validators => .ok (validators ++ exchangerReports officialMint istanbulExtra.exchangerAddr)

end Ethapi

end Erbie
