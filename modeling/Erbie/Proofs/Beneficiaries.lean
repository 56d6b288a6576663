import Erbie.Proofs.Rewards
import Erbie.Proofs.Conservation
import Erbie.Proofs.Admission

/-! The reward report of the RPC service against the rewards a block pays.
`Engine.Finalize` runs on the state that the block's transactions leave: it
credits `rewardAmount` to every entry of the list of rewarded validators it
recovers, and moves each staker share out of that validator's balance, by the
staker lists of that state. `GetBlockBeneficiaryAddressByNumberNew` reports the
validators of the header's extra data, with the shares of the state of the
block before. A stake on a rewarded validator inside the block is paid and not
reported. -/

namespace Erbie

namespace StateDB

variable (s : StateDB)

theorem getBalance_updateAccount_of (a : Address) {f : Account → Account} (hf : ∀ acc, (f acc).balance = acc.balance) :
    (s.updateAccount a f).getBalance = s.getBalance :=
  funext (s.getBalance_setAccount_of (by rw [hf, accountObject_balance]))

theorem getBalance_coefficientSteps {s t : StateDB} (h : Relation.ReflTransGen CoefficientStep s t) :
    t.getBalance = s.getBalance := by
  induction h with
  | refl => rfl
  | tail _ hstep ih =>
    cases hstep with
    | sub a k => rw [subValidatorCoefficient, getBalance_updateAccount_of _ a (f := (·.subCoefficient k)) fun _ => rfl, ih]
    | add a k => rw [addValidatorCoefficient, getBalance_updateAccount_of _ a (f := (·.addCoefficient k)) fun _ => rfl, ih]
    | staker a => rw [← ih]; exact funext (getBalance_getOrNewStakerStateObject _ a)

theorem getBalance_foldl_addBalance (validators : List Address) (rewardAmount : Int) (a : Address) :
    ∀ s : StateDB, (validators.foldl (fun s owner => s.addBalance owner rewardAmount) s).getBalance a =
      s.getBalance a + validators.count a * rewardAmount := by
  induction validators with
  | nil => intro s; simp
  | cons v vs ih =>
    intro s
    rw [List.foldl_cons, ih, getBalance_addBalance, List.count_cons]
    by_cases h : a = v
    · subst h
      simp only [if_true, beq_self_eq_true]
      push_cast
      ring
    · simp [h, Ne.symm h]

/-- The mint credits `rewardAmount` to each entry of `validators`; the awarded
NFTs carry no value. -/
theorem getBalance_createNFTByOfficial16 {validators exchangers : List Address} {rewardAmount : Int}
    {s' : StateDB} (h : s.createNFTByOfficial16 validators exchangers rewardAmount = some s') (a : Address) :
    s'.getBalance a = s.getBalance a + validators.count a * rewardAmount := by
  unfold createNFTByOfficial16 at h
  have haward : s'.getBalance = ((validators.foldl (fun s owner => s.addBalance owner rewardAmount) s).getOrNewStakerStateObject
      MintDeepStorageAddress).getBalance :=
    Fold.foldlM_rel (fun t t' : StateDB => t'.getBalance = t.getBalance) (fun _ => rfl) (fun _ _ _ h₁ h₂ => h₂.trans h₁)
      _ exchangers (fun t x t' _ ht => by
        split at ht
        · cases ht
        · cases ht
          funext b
          rw [getBalance_setAccount_of _ (by simp), getBalance_setAccount_of _ (by simp),
            getBalance_getOrNewNFTStateObject]) h
  rw [haward, getBalance_getOrNewStakerStateObject, getBalance_foldl_addBalance]

theorem stakerShares_of_ledgerFrame {s t : StateDB} (h : LedgerFrame s t) : t.stakerShares = s.stakerShares := by
  have hve : ∀ o, (t.worm o).validatorExtension = (s.worm o).validatorExtension :=
    fun o => congrArg (·.2.1) (h.stakes o)
  funext o rewardAmount
  simp only [stakerShares, hve]

end StateDB

namespace Crypto

variable (c : Crypto) (view : ChainView)

/-- What a finalisation pays each account: `rewardAmount` for each time the
account is a rewarded validator, and the staker shares of the rewarded
validators, by the staker lists of the state it starts from. -/
theorem finalize_credits (codec : EmptyCodec) (h : Header) {s s' : StateDB} (hfin : c.finalize view codec h s = .done s')
    (hnd : ∀ o ∈ c.finalizeValidatorAddr view h, (BalanceList.keys (s.worm o).validatorExtension).Nodup)
    (hpos : ∀ o ∈ c.finalizeValidatorAddr view h, ∀ e ∈ (s.worm o).validatorExtension, 0 < e.balance) (a : Address) :
    s'.getBalance a = s.getBalance a + (c.finalizeValidatorAddr view h).count a * view.rewardAmount +
      ((c.finalizeValidatorAddr view h).map fun o => shareChange (s.stakerShares o view.rewardAmount) o a).sum := by
  obtain ⟨t, ht, hfin⟩ := c.finalize_cases view codec h (.inl hfin)
  have hbt := StateDB.getBalance_coefficientSteps ht
  rcases hfin with ⟨exchangerAddr, htail⟩ | ⟨rfl, hnil⟩
  · -- the mint, then the shares, then the weights
    unfold ChainView.finalizeTail at htail
    obtain ⟨s₁, h₁, htail⟩ := Option.bind_eq_some_iff.mp htail
    obtain ⟨s₂, h₂, h₃⟩ := Option.bind_eq_some_iff.mp htail
    have hf₁ := (LedgerFrame.of_coefficientSteps ht).trans (t.ledgerFrame_createNFTByOfficial16 h₁)
    have hve : ∀ o, (s₁.worm o).validatorExtension = (s.worm o).validatorExtension :=
      fun o => congrArg (·.2.1) (hf₁.stakes o)
    obtain ⟨s₃, hs₃, -, hb₃⟩ := StateDB.distributeRewardsToStakers_eq _ view.rewardAmount s₁
      (fun o ho => by rw [hve]; exact hnd o ho) (fun o ho => by rw [hve]; exact hpos o ho)
    cases h₂.symm.trans hs₃
    rw [StateDB.getBalance_recalculateWeights _ h₃, hb₃, t.getBalance_createNFTByOfficial16 h₁, hbt,
      StateDB.stakerShares_of_ledgerFrame hf₁]
  · rw [hnil, hbt]
    simp

end Crypto

/-- The report of one rewarded validator: the reward less the shares, and the
shares, by the staker lists of `s`. -/
def stakerReport (s : StateDB) (rewardAmount : Int) (owner : Address) : BeneficiaryAddressNew :=
  { address := owner, nftAddress := zeroAddress,
    rewardAmount := rewardAmount - sharesPaid (s.stakerShares owner rewardAmount),
    stakerRewards := (s.stakerShares owner rewardAmount).map fun p => ⟨p.1, p.2⟩ }

/-- On a state that keeps the staking ledger, the report lists the validators
of the extra data with their shares on that state, then the exchangers with
the official NFT addresses from its counter on. -/
theorem Ethapi.getBlockBeneficiaryAddressByNumberNew_eq {s : StateDB} (hs : LedgerInv s) {c : Crypto} {h : Header}
    {extra : IstanbulExtra} (hx : c.extractIstanbulExtra h = .ok extra) {m : Nat} (hm : s.officialMint = some m)
    (rewardAmount : Int) :
    getBlockBeneficiaryAddressByNumberNew c h s rewardAmount =
      some (.ok (extra.validatorAddr.map (stakerReport s rewardAmount) ++ exchangerReports m extra.exchangerAddr)) := by
  unfold getBlockBeneficiaryAddressByNumberNew
  rw [hx]
  dsimp only
  rw [hm]
  dsimp only
  rw [Fold.mapM_option_eq_some _ fun o _ =>
    Ethapi.distributeRewardsToStakers_eq (hs.backers_nodup o) (hs.validator_entry_pos o) rewardAmount]
  rfl

/-- A block pays one thing and the RPC service reports another. The report
of block `h` reads the validators of its extra data and the staker lists of
the parent state `s`; the finalisation after the block's transactions credits
the validators it recovers, and the shares by the staker lists of the state
`s₁` those transactions leave. -/
theorem rewards_reported_from_the_parent_state (c : Crypto) (view : ChainView) (codec : EmptyCodec) (ctx : BlockContext)
    (env : TxEnv) (h : Header) (gasLimit : Nat) (msgs : List Message) {s s₁ s' : StateDB} {gp usedGas : Nat}
    {receipts : List Receipt} {extra : IstanbulExtra} {m : Nat}
    (hs : LedgerInv s) (hx : c.extractIstanbulExtra h = .ok extra) (hm : s.officialMint = some m)
    (htxs : msgs.foldlM (processStep ctx env) (s, gasLimit, [], 0) = .ok (s₁, gp, receipts, usedGas))
    (hfin : c.finalize view codec h s₁ = .done s')
    (hnd : ∀ o ∈ c.finalizeValidatorAddr view h, (BalanceList.keys (s₁.worm o).validatorExtension).Nodup)
    (hpos : ∀ o ∈ c.finalizeValidatorAddr view h, ∀ e ∈ (s₁.worm o).validatorExtension, 0 < e.balance) :
    process c view codec ctx env h gasLimit msgs s = .ok (.done s', receipts, usedGas) ∧
      Ethapi.getBlockBeneficiaryAddressByNumberNew c h s view.rewardAmount =
        some (.ok (extra.validatorAddr.map (stakerReport s view.rewardAmount) ++
          Ethapi.exchangerReports m extra.exchangerAddr)) ∧
      ∀ a, s'.getBalance a = s₁.getBalance a + (c.finalizeValidatorAddr view h).count a * view.rewardAmount +
        ((c.finalizeValidatorAddr view h).map fun o => shareChange (s₁.stakerShares o view.rewardAmount) o a).sum := by
  refine ⟨?_, Ethapi.getBlockBeneficiaryAddressByNumberNew_eq hs hx hm _, c.finalize_credits view codec h hfin hnd hpos⟩
  unfold process
  rw [htxs]
  change Except.ok (c.finalize view codec h s₁, receipts, usedGas) = _
  rw [hfin]

/-! A block at height 2 after London sealed by `0x0a`, whose one transaction
is a stake of `0x0b` on `0x0a`. On the parent state `0x0a` has staked on
itself alone, and the reward seals recover `0x0a`. -/

/-- The parent state: `0x0a` has staked the ERB of one validator on itself,
and `0x0b` holds the stake of a staker and its gas. -/
def stakedParent : StateDB :=
  (stakingEvm.call rewardGenesis 10 10 (Wormholes.input { type := 3 }) 100000 ValidatorBase.toNat).1

theorem LedgerInv.stakedParent : LedgerInv stakedParent :=
  LedgerInv.rewardGenesis.of_reachable (.single (.call _ stakingEvm_inert _ _ _ _ _ _))

/-- The state the block's transaction leaves. -/
def afterStake : StateDB :=
  match [stakeOnRewarded].foldlM (processStep rewardContext (stakeTxEnv 2)) (stakedParent, 30000000, [], 0) with
  | .ok r => r.1
  | .error _ => stakedParent

/-- The state the block's finalisation leaves. -/
def afterReward : StateDB :=
  match rewardCrypto.finalize rewardView blockOneCodec rewardBlock afterStake with
  | .done s => s
  | _ => afterStake

/-- The report names `0x0a` with the whole reward and no staker, from the
parent state; the finalisation pays `0x0b` its share of `93` out of the reward
of `0x0a`. -/
theorem stake_in_the_block_is_paid_but_not_reported :
    [stakeOnRewarded].foldlM (processStep rewardContext (stakeTxEnv 2)) (stakedParent, 30000000, [], 0) =
        .ok (afterStake, 29936744, [⟨true, 63256, 63256⟩], 63256) ∧
      rewardCrypto.finalize rewardView blockOneCodec rewardBlock afterStake = .done afterReward ∧
      Ethapi.getBlockBeneficiaryAddressByNumberNew rewardCrypto rewardBlock stakedParent 100 =
        some (.ok [⟨10, zeroAddress, 100, []⟩]) ∧
      afterReward.getBalance 11 = afterStake.getBalance 11 + 93 := by
  have htxs : [stakeOnRewarded].foldlM (processStep rewardContext (stakeTxEnv 2)) (stakedParent, 30000000, [], 0) =
      .ok (afterStake, 29936744, [⟨true, 63256, 63256⟩], 63256) := by
    with_unfolding_all rfl
  have hfin : rewardCrypto.finalize rewardView blockOneCodec rewardBlock afterStake = .done afterReward := by
    with_unfolding_all rfl
  -- the seals recover `0x0a`, and the stake of `0x0b` is on its list
  have hva : rewardCrypto.finalizeValidatorAddr rewardView rewardBlock = [10] := by decide +kernel
  obtain ⟨-, hrep, hbal⟩ := rewards_reported_from_the_parent_state rewardCrypto rewardView blockOneCodec rewardContext
    (stakeTxEnv 2) rewardBlock 30000000 [stakeOnRewarded] LedgerInv.stakedParent rfl
    (show stakedParent.officialMint = some (2 ^ 159) by decide +kernel) htxs hfin
    (by rw [hva]; intro o ho; rw [List.mem_singleton.1 ho]; decide +kernel)
    (by rw [hva]; intro o ho; rw [List.mem_singleton.1 ho]; decide +kernel)
  refine ⟨htxs, hfin, ?_, ?_⟩
  · exact hrep.trans (by decide +kernel)
  · rw [hbal 11, hva]
    decide +kernel

end Erbie
