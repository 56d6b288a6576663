import Erbie.Spec.EmptyBlock

/-! Block finalisation (`Engine.Finalize`, `Engine.FinalizeAndAssemble`) and
the header preparation that feeds it (`Engine.Prepare`, `Engine.PrepareEmpty`).
The producer of a block chooses its reward lists in `Prepare` and writes them
into the extra data; `FinalizeAndAssemble` pays what the extra data says. A
verifier runs `Finalize`, which pays the exchangers of the extra data but
derives the rewarded validators itself: from the reward seals, for a block with
a coinbase, and from the empty-block votes, for one without.

Finalisation moves coefficients (down for the sampled committee of an empty
block, up for its voters and for the rewarded validators of a normal block),
mints the block reward to the rewarded validators, shares 93% of it with their
stakers, gives official NFTs to the exchangers, and recomputes the weights of
the validator list. What the chain supplies (the sampled committee, the parent
state's validator list, the random drop, the last normal header, the reward
amount of `GetRewardAmount`, and the evil validators) is `ChainView`. -/

namespace Erbie

def staleThreshold : Nat := 7

/-- `HexToAddress("0xffffffffffffffffffffffffffffffffffffffff").Hash().Big()`. -/
def maxValue : Int := 2 ^ 160 - 1

/-- `AddAddrRange(addr, weight)`: every entry whose address or proxy is `addr`
gets the weight. -/
def ValidatorList.addAddrRange (vl : List Validator) (addr : Address) (weight : List Int) :
    List Validator :=
  vl.map fun v => if v.addr = addr ∨ v.proxy = addr then { v with weight := weight } else v

/-- `CalculateAddressRangeV2(address, stakeAmt, weight)`: the range of the
address space that `address` covers, in proportion to its weighted stake.
The division panics on a list of no stake. -/
def ValidatorList.calculateAddressRangeV2 (vl : List Validator) (address : Address)
    (stakeAmt weight : Int) : Option (List Validator) :=
  let addrNo : Int := address.toNat
  let totalAmt := ValidatorList.totalStakeBalance vl
  if totalAmt = 0 then none
  else
    let rangeLength := weight * (stakeAmt * maxValue) / totalAmt * 10
    let vl := if maxValue < rangeLength then ValidatorList.addAddrRange vl address [0, maxValue] else vl
    if addrNo + rangeLength < maxValue then
      some (ValidatorList.addAddrRange vl address [addrNo, addrNo + rangeLength])
    else
      some (ValidatorList.addAddrRange vl address
        [addrNo, maxValue, 0, (addrNo + rangeLength) % maxValue])

namespace StateDB

/-- The counter of official NFT addresses at `MintDeepStorageAddress`. -/
def officialMint (s : StateDB) : Option Nat :=
  ((s.stakerObject MintDeepStorageAddress).staker.getD {}).mint.officialMint

/-- `CreateNFTByOfficial16(validators, exchangers, ...)`: every rewarded
validator gets `rewardAmount`, every exchanger the next official NFT. It
panics on a missing counter. -/
def createNFTByOfficial16 (s : StateDB) (validators exchangers : List Address)
    (rewardAmount : Int) : Option StateDB :=
  let s := validators.foldl (fun s owner => s.addBalance owner rewardAmount) s
  let s := s.getOrNewStakerStateObject MintDeepStorageAddress
  let award (s : StateDB) (awardee : Address) : Option StateDB :=
    match s.officialMint with
    | none => none
    | some mint =>
      let nftAddr : Address := BitVec.ofNat 160 mint
      let s := s.getOrNewNFTStateObject nftAddr
      let s := s.setAccount nftAddr ((s.nftObject nftAddr).setNFTInfo awardee awardee)
      some (s.setAccount MintDeepStorageAddress
        ((s.stakerObject MintDeepStorageAddress).addOfficialMint 1))
  exchangers.foldlM award s

/-- The inner loop of `DistributeRewardsToStakers` for `owner`: each other
staker gets its share of `sumStakerReward`, and the sum paid is returned. The
division panics when the other stakers hold nothing. -/
def payStakers (owner : Address) (sumStakerReward sumStakerBalance : Int) :
    StateDB → List ValidatorExtension → Option (StateDB × Int)
  | s, [] => some (s, 0)
  | s, staker :: rest =>
    if staker.addr = owner then payStakers owner sumStakerReward sumStakerBalance s rest
    else if sumStakerBalance = 0 then none
    else
      let stakerReward := sumStakerReward * staker.balance / sumStakerBalance
      (payStakers owner sumStakerReward sumStakerBalance (s.addBalance staker.addr stakerReward) rest).map
        fun (s, paid) => (s, stakerReward + paid)

/-- `DistributeRewardsToStakers(validators, ...)`: each rewarded validator
passes 93% of `rewardAmount` to its other stakers, in proportion to their
stakes, out of its own balance. -/
def distributeRewardsToStakers (s : StateDB) (validators : List Address) (rewardAmount : Int) :
    Option StateDB :=
  let sumStakerReward := rewardAmount * (100 - PercentageValidatorReward) / 100
  let distribute (s : StateDB) (owner : Address) : Option StateDB :=
    let s := s.getOrNewAccountStateObject owner
    let stakerList := (s.worm owner).validatorExtension
    let sumStakerBalance := getAllBalance stakerList - BalanceList.balanceOf stakerList owner
    (payStakers owner sumStakerReward sumStakerBalance s stakerList).map
      fun (s, actualSumStakerReward) => s.subBalance owner actualSumStakerReward
  validators.foldlM distribute s

/-- `PunishEvilValidators`: every evil validator loses the full coefficient. -/
def punishEvilValidatorsOf (s : StateDB) (evilValidators : List Address) : StateDB :=
  evilValidators.foldl (fun s evil => s.subValidatorCoefficient evil 70) s

/-- The weight recomputation at the end of finalisation: every entry of the
validator list gets the address range of its stake and coefficient. -/
def recalculateWeights (s : StateDB) : Option StateDB :=
  let s := s.getOrNewStakerStateObject ValidatorStorageAddress
  let validatorList := s.validators
  -- the loop reads addresses and balances, which the weights leave alone
  let step (p : StateDB × List Validator) (account : Validator) : Option (StateDB × List Validator) :=
    let s := p.1.getOrNewAccountStateObject account.addr
    (ValidatorList.calculateAddressRangeV2 p.2 account.addr account.balance
      (s.getValidatorCoefficient account.addr).toNat).map (s, ·)
  (validatorList.foldlM step (s, validatorList)).map fun (s, vl) => s.updateValidators fun _ => vl

end StateDB

/-- What finalisation reads from the chain around a header: the committee
`Random11ValidatorWithOutProxy(parent)`, the validator list of the parent
state, `GetRandomDrop(parent)`, the last normal header `getPreHash`, the
reward `GetRewardAmount(number, DREBlockReward)`, and the validators that
`pickEvilValidatorsV2` finds in the header's evil action. -/
structure ChainView where
  random11 : Except Error (List Address)
  parentValidators : Except Error (List Validator)
  randomDrop : Except Error Hash
  preHeader : Except Error Header
  rewardAmount : Int
  evilValidators : List Address

/-- The loop shared by `Prepare` and `Finalize`: the first `quorumSize`
signers; a negative quorum never stops it. -/
def pickRewarders (quorumSize : Int) (rewarders : List Address) : List Address :=
  if quorumSize < 0 then rewarders else rewarders.take quorumSize.toNat

/-- The validator whose proxy is `a`, the last one in list order, as the map
built by `Prepare` and `Finalize` holds it. -/
def proxyOwner (vl : List Validator) (a : Address) : Option Address :=
  ((vl.filter fun v => v.proxy ≠ zeroAddress ∧ v.proxy = a).getLast?).map (·.addr)

/-- A reward address that is a proxy goes to the validator behind it. -/
def restoreProxies (vl : List Validator) (addrs : List Address) : List Address :=
  addrs.map fun a => (proxyOwner vl a).getD a

/-- `copyCommitSeals`: each committed seal in a 65-byte buffer. -/
def copySeal (v : List UInt8) : List UInt8 :=
  v.take IstanbulExtraSeal ++ List.replicate (IstanbulExtraSeal - v.length) 0

/-- The outcome of a finalisation: it panicked, it returned early with the
state as it then was, or it ran to the end and wrote the header's root. -/
inductive Finalized where
  | panic
  | stopped (s : StateDB)
  | done (s : StateDB)

namespace ChainView

variable (view : ChainView)

/-- The mint, the staker shares and the weights that end both finalisations. -/
def finalizeTail (s : StateDB) (validatorAddr exchangerAddr : List Address) : Option StateDB := do
  let s ← s.createNFTByOfficial16 validatorAddr exchangerAddr view.rewardAmount
  let s ← s.distributeRewardsToStakers validatorAddr view.rewardAmount
  s.recalculateWeights

/-- `punishEvilValidators`: the evil validators of an evil action older than
`staleThreshold` blocks, mapped from proxies to validators, lose their
coefficient. -/
def punishEvilValidators (s : StateDB) (extra : IstanbulExtra) (h : Header) : StateDB :=
  match extra.evilAction with
  | none => s
  | some ea =>
    if h.number ≤ staleThreshold ∨ ea.evilHeaders = [] then s
    else
      let s := s.getOrNewStakerStateObject ValidatorStorageAddress
      let valset := s.validators
      let noProxyValidators :=
        (view.evilValidators.map (ValidatorList.getValidatorAddr valset)).filter (· ≠ zeroAddress)
      s.punishEvilValidatorsOf noProxyValidators

end ChainView

/-- `common.FindDup`: the addresses that occur more than once. The source
collects them in a map, whose order Go leaves open; here they come in list
order. -/
def findDup (target : List Address) : List Address :=
  target.dedup.filter fun a => 2 ≤ target.count a

namespace Crypto

variable (c : Crypto)

/-- The signers of the evil headers, up to the first whose seals do not
recover. -/
def evilSigners : List Header → List Address
  | [] => []
  | h :: rest =>
    match c.signers h with
    | .ok signers => signers ++ evilSigners rest
    | .error _ => []

/-- `pickEvilValidatorsV2(bc, ea)`: the validators that sealed twice at the
height of the first evil header, over the canonical header there and the evil
headers. `none` is the end of the node: an empty list of evil headers panics,
and a missing canonical header is `log.Crit`. -/
def pickEvilValidatorsV2 (getHeaderByNumber : Nat → Option Header) (ea : EvilAction) :
    Option (List Address) :=
  match ea.evilHeaders with
  | [] => none
  | first :: _ =>
    match getHeaderByNumber first.number with
    | none => none
    | some canonicalHeader =>
      let canonicalSigners : Except Error (List Address) :=
        if canonicalHeader.coinbase ≠ zeroAddress then c.signers canonicalHeader else .ok []
      match canonicalSigners with
      | .error _ => some []
      | .ok canonicalSigners => some (findDup (canonicalSigners ++ c.evilSigners ea.evilHeaders))

end Crypto

namespace Crypto

variable (c : Crypto) (view : ChainView)

/-- The rewarded validators `Finalize` derives for a normal block: none for
block 1, else the signers of the reward seals over the last normal header,
cut to the quorum and with proxies restored. `none` is a panic, `.error` an
early return. -/
def finalizeRewards (h : Header) (random11 : List Address) (pValidators : List Validator)
    (istanbulExtra : IstanbulExtra) : Option (Except Unit (List Address)) :=
  if h.number = 1 then some (.ok [])
  else
    let quorumSize := quorumSize random11.length
    if quorumSize = 0 then some (.error ())
    else
      match view.preHeader with
      | .error _ => none
      | .ok preHeader =>
        if preHeader.emptyBlock then some (.ok [])
        else
          match c.recoverRewards preHeader istanbulExtra.rewardSeal with
          | .error _ => some (.error ())
          | .ok rewarders =>
            if (rewarders.length : Int) < quorumSize then some (.error ())
            else some (.ok (restoreProxies pValidators (pickRewarders quorumSize rewarders)))

/-- `Engine.Finalize` on a header whose parent is known. -/
def finalize (codec : EmptyCodec) (h : Header) (s : StateDB) : Finalized :=
  match view.random11, c.extractIstanbulExtra h, view.parentValidators, view.randomDrop with
  | .ok random11, .ok istanbulExtra, .ok pValidators, .ok _ =>
    let tail (s : StateDB) (validatorAddr : List Address) : Finalized :=
      match view.finalizeTail s validatorAddr istanbulExtra.exchangerAddr with
      | none => .panic
      | some s => .done s
    if h.coinbase = zeroAddress then
      let s := random11.foldl (fun s v => s.subValidatorCoefficient v 20) s
      -- the first vote is the proposer's and earns nothing
      match sliceFrom (codec.voteAddrs c pValidators istanbulExtra.emptyBlockMessages) 1 with
      | none => .panic
      | some votes =>
        let s := votes.foldl (fun s vote => s.addValidatorCoefficient vote 70) s
        tail s istanbulExtra.validatorAddr
    else
      let s := istanbulExtra.validatorAddr.foldl (fun s v => s.addValidatorCoefficient v 20) s
      match c.finalizeRewards view h random11 pValidators istanbulExtra with
      | none => .panic
      | some (.error ()) => .stopped s
      | some (.ok validatorAddr) => tail (view.punishEvilValidators s istanbulExtra h) validatorAddr
  | _, _, _, _ => .stopped s

/-- The `validatorAddr` that `Engine.Finalize` passes to
`CreateNFTByOfficial16`: those of the extra data for an empty block, those
recovered from the reward seals for a normal one, and none where it returns
before the mint. -/
def finalizeValidatorAddr (h : Header) : List Address :=
  match view.random11, c.extractIstanbulExtra h, view.parentValidators, view.randomDrop with
  | .ok random11, .ok istanbulExtra, .ok pValidators, .ok _ =>
    if h.coinbase = zeroAddress then istanbulExtra.validatorAddr
    else
      match c.finalizeRewards view h random11 pValidators istanbulExtra with
      | some (.ok validatorAddr) => validatorAddr
      | _ => []
  | _, _, _, _ => []

/-- `Engine.FinalizeAndAssemble` on a header whose parent is known: the
rewarded validators are those of the extra data. -/
def finalizeAndAssemble (h : Header) (s : StateDB) : Except Error Finalized :=
  match c.extractIstanbulExtra h, view.random11, view.randomDrop with
  | .error err, _, _ => .error err
  | _, .error err, _ => .error err
  | _, _, .error err => .error err
  | .ok istanbulExtra, .ok random11, .ok _ =>
    let coefficients : Option StateDB :=
      if h.coinbase = zeroAddress then
        let s := random11.foldl (fun s v => s.subValidatorCoefficient v 20) s
        (sliceFrom istanbulExtra.validators 1).map fun votes =>
          votes.foldl (fun s v => s.addValidatorCoefficient v 70) s
      else some (istanbulExtra.validatorAddr.foldl (fun s v => s.addValidatorCoefficient v 20) s)
    match coefficients with
    | none => .ok .panic
    | some s =>
      match view.finalizeTail (view.punishEvilValidators s istanbulExtra h)
          istanbulExtra.validatorAddr istanbulExtra.exchangerAddr with
      | none => .ok .panic
      | some s => .ok (.done s)

/-- The rewarded validators and reward seals `Prepare` chooses: none for
block 1, else the signers of the last normal header's committed seals, cut to
the quorum, with copies of those seals. `none` is a panic. -/
def prepareRewards (h : Header) : Option (Except Error (List Address × List (List UInt8))) :=
  if h.number = 1 then some (.ok ([], []))
  else
    match view.random11 with
    | .error _ => some (.error ⟨"Prepare: invalid validators"⟩)
    | .ok random11 =>
      let quorumSize := quorumSize random11.length
      if quorumSize = 0 then some (.error ⟨"invalid quorum size"⟩)
      else
        match view.preHeader with
        | .error _ => none
        | .ok preHeader =>
          if preHeader.emptyBlock then some (.ok ([], []))
          else
            match c.signers preHeader, c.extractIstanbulExtra preHeader with
            | .error err, _ => some (.error err)
            | .ok commiters, preExtra =>
              if (commiters.length : Int) < quorumSize then
                some (.error ⟨"Prepare commiters len less than 7"⟩)
              else
                match preExtra with
                | .error err => some (.error err)
                | .ok preExtra =>
                  some (.ok (pickRewarders quorumSize commiters, preExtra.committedSeal.map copySeal))

/-- `SortedAddresses`: ascending by bytes. -/
def sortedAddresses (addrs : List Address) : List Address :=
  addrs.mergeSort fun a b => a.toNat ≤ b.toNat

/-- `Engine.Prepare` on a header whose parent is known: the consensus fields
of a normal block. `exchangers` is what `SelectRandom4Address` picks from the
stakers, and `evilAction` the evil action it records, an empty one when there
is none to handle. -/
def prepare (h : Header) (validators : List Address) (exchangers : Except Error (List Address))
    (evilAction : EvilAction) : Option (Except Error IstanbulExtra) :=
  if h.coinbase = zeroAddress ∧ 0 < h.number then some (.error ⟨"not a normal block"⟩)
  else
    (c.prepareRewards view h).map fun rewards => do
      let (validatorAddr, rewardSeals) ← rewards
      let pValidators ← view.parentValidators
      let exchangerAddr ← exchangers
      pure { validators := sortedAddresses validators, exchangerAddr := exchangerAddr,
             validatorAddr := restoreProxies pValidators validatorAddr, rewardSeal := rewardSeals,
             evilAction := some evilAction }

/-- `Engine.PrepareEmpty`: the consensus fields of an empty block are the
voters, in the order given, and their votes. -/
def prepareEmpty (h : Header) (validators : List Address) (emptyBlockMessages : List (List UInt8)) :
    Except Error IstanbulExtra :=
  if h.coinbase ≠ zeroAddress then .error ⟨"not a empty block"⟩
  else .ok { validators := validators, emptyBlockMessages := emptyBlockMessages }

end Crypto
end Erbie
