import Erbie.Proofs.Ledger
import Erbie.Spec.Ethapi

/-! The staker shares of the block reward. For every rewarded validator,
`DistributeRewardsToStakers` gives each other staker on it 93% of the reward
in proportion to its stake, rounded down, and takes the sum paid out of the
validator's balance. The divisor is the validator's backing less its own
stake; under the staking-ledger invariant the other stakers' entries are
positive and their keys distinct, so the divisor is their total, and it is
zero only when there are no other stakers, when nothing is divided. The
shares then add up to at most 93% of the reward, so a validator keeps a
non-negative part of what `CreateNFTByOfficial16` credited it. The RPC
service's `DistributeRewardsToStakers` reports the same shares. -/

namespace Erbie

/-- The stakers of `owner` other than itself, each with its share of
`rewardAmount`: the stakers' 93%, split in proportion to their stakes, rounded
down. -/
def StateDB.stakerShares (s : StateDB) (owner : Address) (rewardAmount : Int) : List (Address × Int) :=
  let others := (s.worm owner).validatorExtension.filter (·.addr ≠ owner)
  others.map fun e =>
    (e.addr, rewardAmount * (100 - PercentageValidatorReward) / 100 * e.balance / BalanceList.total others)

/-- The sum of a list of shares. -/
def sharesPaid (shares : List (Address × Int)) : Int := (shares.map Prod.snd).sum

/-- What paying `owner`'s shares changes on the balance of `a`: the shares
paid to `a`, less their sum when `a` is the owner. -/
def shareChange (shares : List (Address × Int)) (owner a : Address) : Int :=
  ((shares.filter (·.1 = a)).map Prod.snd).sum - if a = owner then sharesPaid shares else 0

/-- The payments of the loop of `DistributeRewardsToStakers`: every staker
but `owner` with its share `x * balance / y`. -/
def stakerPays (owner : Address) (x y : Int) (l : List ValidatorExtension) : List (Address × Int) :=
  (l.filter (·.addr ≠ owner)).map fun e => (e.addr, x * e.balance / y)

theorem stakerPays_cons_of_eq {owner : Address} {x y : Int} {e : ValidatorExtension} (he : e.addr = owner)
    (l : List ValidatorExtension) : stakerPays owner x y (e :: l) = stakerPays owner x y l := by
  rw [stakerPays, List.filter_cons_of_neg (by simpa using he), ← stakerPays]

theorem stakerPays_cons_of_ne {owner : Address} {x y : Int} {e : ValidatorExtension} (he : e.addr ≠ owner)
    (l : List ValidatorExtension) :
    stakerPays owner x y (e :: l) = (e.addr, x * e.balance / y) :: stakerPays owner x y l := by
  rw [stakerPays, List.filter_cons_of_pos (by simpa using he), List.map_cons, ← stakerPays]

namespace StateDB

/-- Credits to a list of accounts. -/
def payAll (s : StateDB) (pays : List (Address × Int)) : StateDB :=
  pays.foldl (fun s p => s.addBalance p.1 p.2) s

@[simp] theorem worm_addBalance (s : StateDB) (a : Address) (x : Int) : (s.addBalance a x).worm = s.worm :=
  funext (s.worm_updateAccount_addBalance a · x)

@[simp] theorem worm_subBalance (s : StateDB) (a : Address) (x : Int) : (s.subBalance a x).worm = s.worm :=
  funext (s.worm_updateAccount_subBalance a · x)

theorem getBalance_addBalance (s : StateDB) (a b : Address) (x : Int) :
    (s.addBalance a x).getBalance b = s.getBalance b + if b = a then x else 0 := by
  rw [addBalance, getBalance_updateAccount_addBalance]
  split_ifs with hb
  · rw [hb]
  · rw [Int.add_zero]

theorem getBalance_subBalance (s : StateDB) (a b : Address) (x : Int) :
    (s.subBalance a x).getBalance b = s.getBalance b - if b = a then x else 0 := by
  rw [subBalance, getBalance_updateAccount_subBalance]
  split_ifs with hb
  · rw [hb]
  · rw [Int.sub_zero]

@[simp] theorem worm_payAll (pays : List (Address × Int)) : ∀ s : StateDB, (s.payAll pays).worm = s.worm := by
  induction pays with
  | nil => intro s; rfl
  | cons p pays ih =>
    intro s
    rw [payAll, List.foldl_cons, ← payAll, ih, worm_addBalance]

theorem getBalance_payAll (pays : List (Address × Int)) :
    ∀ (s : StateDB) (a : Address),
      (s.payAll pays).getBalance a = s.getBalance a + ((pays.filter (·.1 = a)).map Prod.snd).sum := by
  induction pays with
  | nil => intro s a; simp [payAll]
  | cons p pays ih =>
    intro s a
    rw [payAll, List.foldl_cons, ← payAll, ih, getBalance_addBalance]
    by_cases hp : p.1 = a
    · rw [if_pos hp.symm, List.filter_cons_of_pos (by simpa using hp), List.map_cons, List.sum_cons]
      omega
    · rw [if_neg (Ne.symm hp), List.filter_cons_of_neg (by simpa using hp)]
      omega

/-- The loop of `DistributeRewardsToStakers` pays every staker but the owner
its share, when the divisor is not zero for any of them. -/
theorem payStakers_eq (owner : Address) (x y : Int) :
    ∀ (s : StateDB) (l : List ValidatorExtension), (∀ e ∈ l, e.addr ≠ owner → y ≠ 0) →
      payStakers owner x y s l =
        some (s.payAll (stakerPays owner x y l), sharesPaid (stakerPays owner x y l))
  | s, [], _ => rfl
  | s, e :: l, hy => by
    have hl : ∀ e' ∈ l, e'.addr ≠ owner → y ≠ 0 := fun e' he' => hy e' (List.mem_cons_of_mem e he')
    rw [payStakers]
    by_cases he : e.addr = owner
    · rw [if_pos he, stakerPays_cons_of_eq he]
      exact payStakers_eq owner x y s l hl
    · rw [if_neg he, if_neg (hy e List.mem_cons_self he), stakerPays_cons_of_ne he]
      dsimp only
      rw [payStakers_eq owner x y _ l hl]
      simp [payAll, sharesPaid]

end StateDB

/-! ### The divisor -/

section Divisor

variable {l : List ValidatorExtension} {owner : Address}

/-- The divisor of the loop, the backing less the owner's own stake, is the
other stakers' total when the keys are distinct. -/
theorem sumStakerBalance_eq (hnd : (BalanceList.keys l).Nodup) :
    getAllBalance l - BalanceList.balanceOf l owner = BalanceList.total (l.filter (·.addr ≠ owner)) := by
  rw [getAllBalance, BalanceList.total_eq_balanceOf_add hnd owner]
  omega

theorem total_others_ne_zero (hpos : ∀ e ∈ l, 0 < e.balance) :
    ∀ e ∈ l, e.addr ≠ owner → BalanceList.total (l.filter (·.addr ≠ owner)) ≠ 0 := by
  intro e he hne
  have hmem : e ∈ l.filter (·.addr ≠ owner) := List.mem_filter.mpr ⟨he, by simpa using hne⟩
  have hle := BalanceList.le_total_of_mem
    (fun e' he' => Int.le_of_lt (hpos e' (List.mem_filter.mp he').1)) hmem
  exact Int.ne_of_gt (Int.lt_of_lt_of_le (hpos e he) hle)

theorem sharesPaid_stakerPays (x y : Int) :
    sharesPaid (stakerPays owner x y l) = ((l.filter (·.addr ≠ owner)).map fun e => x * e.balance / y).sum := by
  rw [sharesPaid, stakerPays, List.map_map]
  rfl

theorem sharesPaid_le (hpos : ∀ e ∈ l, 0 < e.balance) {x : Int} (hx : 0 ≤ x) :
    sharesPaid (stakerPays owner x (BalanceList.total (l.filter (·.addr ≠ owner))) l) ≤ x := by
  rw [sharesPaid_stakerPays]
  set others := l.filter (·.addr ≠ owner)
  cases hothers : others with
  | nil => simpa using hx
  | cons e rest =>
    -- one other staker makes the divisor positive
    have he : e ∈ l ∧ e.addr ≠ owner := by
      have hmem : e ∈ others := hothers ▸ List.mem_cons_self
      simpa [others] using hmem
    have hB : 0 < BalanceList.total others := by
      have hne := total_others_ne_zero hpos e he.1 he.2
      have hnn := BalanceList.total_nonneg (l := others)
        fun e' he' => Int.le_of_lt (hpos e' (List.mem_filter.mp he').1)
      exact lt_of_le_of_ne hnn (Ne.symm hne)
    rw [← hothers]
    calc (others.map fun e => x * e.balance / BalanceList.total others).sum
        ≤ x * BalanceList.total others / BalanceList.total others := BalanceList.sum_ediv_le _ _ hB _
      _ = x := Int.mul_ediv_cancel x (Int.ne_of_gt hB)

theorem filter_stakerPays_owner (x y : Int) : (stakerPays owner x y l).filter (·.1 = owner) = [] := by
  refine List.filter_eq_nil_iff.mpr fun p hp hpo => ?_
  obtain ⟨e, he, rfl⟩ := List.mem_map.mp hp
  exact (of_decide_eq_true (List.mem_filter.mp he).2) (of_decide_eq_true hpo)

theorem filter_stakerPays_of_mem (hnd : (BalanceList.keys l).Nodup) {e : ValidatorExtension} (he : e ∈ l)
    (hne : e.addr ≠ owner) (x y : Int) :
    (stakerPays owner x y l).filter (·.1 = e.addr) = [(e.addr, x * e.balance / y)] := by
  have hnd' : (BalanceList.keys (l.filter (·.addr ≠ owner))).Nodup :=
    (List.filter_sublist.map _).nodup hnd
  have hmem : e ∈ l.filter (·.addr ≠ owner) := List.mem_filter.mpr ⟨he, by simpa using hne⟩
  rw [stakerPays, List.filter_map]
  exact congrArg (List.map _) (BalanceList.filter_addr_eq_of_mem hnd' hmem)

end Divisor

theorem Ethapi.stakerRewards_eq (validator : Address) (x y : Int) :
    ∀ l : List ValidatorExtension, (∀ e ∈ l, e.addr ≠ validator → y ≠ 0) →
      stakerRewards validator x y l = some ((stakerPays validator x y l).map fun p => ⟨p.1, p.2⟩)
  | [], _ => rfl
  | e :: l, hy => by
    have hl : ∀ e' ∈ l, e'.addr ≠ validator → y ≠ 0 := fun e' he' => hy e' (List.mem_cons_of_mem e he')
    rw [stakerRewards]
    by_cases he : e.addr = validator
    · rw [if_pos he, stakerPays_cons_of_eq he]
      exact stakerRewards_eq validator x y l hl
    · rw [if_neg he, if_neg (hy e List.mem_cons_self he), stakerPays_cons_of_ne he]
      dsimp only
      rw [stakerRewards_eq validator x y l hl]
      rfl

/-! ### One entry, and the whole list -/

namespace StateDB

theorem stakerShares_eq (s : StateDB) (owner : Address) (rewardAmount : Int) :
    s.stakerShares owner rewardAmount =
      stakerPays owner (rewardAmount * (100 - PercentageValidatorReward) / 100)
        (BalanceList.total ((s.worm owner).validatorExtension.filter (·.addr ≠ owner)))
        (s.worm owner).validatorExtension := rfl

theorem stakerShares_congr {s t : StateDB} (h : t.worm = s.worm) : t.stakerShares = s.stakerShares := by
  unfold stakerShares
  rw [h]

theorem distributeRewardsToStakers_cons (s : StateDB) (owner : Address) (validators : List Address)
    (rewardAmount : Int) :
    s.distributeRewardsToStakers (owner :: validators) rewardAmount =
      (s.distributeRewardsToStakers [owner] rewardAmount).bind (·.distributeRewardsToStakers validators rewardAmount) := by
  simp [distributeRewardsToStakers, List.foldlM_cons]

variable {s : StateDB} {owner : Address}

/-- One entry of the list: the owner's stakers get their shares, out of the
owner's balance, and no staking record changes. -/
theorem distributeRewardsToStakers_single (hnd : (BalanceList.keys (s.worm owner).validatorExtension).Nodup)
    (hpos : ∀ e ∈ (s.worm owner).validatorExtension, 0 < e.balance) (rewardAmount : Int) :
    ∃ s', s.distributeRewardsToStakers [owner] rewardAmount = some s' ∧ s'.worm = s.worm ∧
      ∀ a, s'.getBalance a = s.getBalance a + shareChange (s.stakerShares owner rewardAmount) owner a := by
  set shares := s.stakerShares owner rewardAmount
  refine ⟨((s.getOrNewAccountStateObject owner).payAll shares).subBalance owner (sharesPaid shares), ?_, ?_,
    fun a => ?_⟩
  · simp only [distributeRewardsToStakers, List.foldlM_cons, List.foldlM_nil, worm_getOrNewAccountStateObject]
    rw [sumStakerBalance_eq hnd, payStakers_eq _ _ _ _ _ (total_others_ne_zero hpos)]
    rfl
  · rw [worm_subBalance, worm_payAll]
    exact funext (s.worm_getOrNewAccountStateObject owner)
  · rw [getBalance_subBalance, getBalance_payAll, getBalance_getOrNewAccountStateObject, shareChange]
    omega

/-- The whole list: every entry pays the shares of its owner, read off the
staking records of the state the loop starts from, which no entry changes. -/
theorem distributeRewardsToStakers_eq (validators : List Address) (rewardAmount : Int) :
    ∀ s : StateDB, (∀ o ∈ validators, (BalanceList.keys (s.worm o).validatorExtension).Nodup) →
      (∀ o ∈ validators, ∀ e ∈ (s.worm o).validatorExtension, 0 < e.balance) →
      ∃ s', s.distributeRewardsToStakers validators rewardAmount = some s' ∧ s'.worm = s.worm ∧
        ∀ a, s'.getBalance a = s.getBalance a +
          (validators.map fun o => shareChange (s.stakerShares o rewardAmount) o a).sum := by
  induction validators with
  | nil => exact fun s _ _ => ⟨s, rfl, rfl, fun a => by simp⟩
  | cons owner validators ih =>
    intro s hnd hpos
    obtain ⟨t, ht, htw, htb⟩ :=
      distributeRewardsToStakers_single (hnd owner List.mem_cons_self) (hpos owner List.mem_cons_self) rewardAmount
    obtain ⟨s', hs', hsw, hsb⟩ := ih t (fun o ho => htw ▸ hnd o (List.mem_cons_of_mem _ ho))
      (fun o ho => htw ▸ hpos o (List.mem_cons_of_mem _ ho))
    refine ⟨s', by rw [distributeRewardsToStakers_cons, ht]; exact hs', hsw.trans htw, fun a => ?_⟩
    rw [hsb, htb, stakerShares_congr htw, List.map_cons, List.sum_cons]
    omega

end StateDB

/-- The RPC service reports, for one validator, the shares the chain pays and
the reward less their sum. -/
theorem Ethapi.distributeRewardsToStakers_eq {s : StateDB} {owner : Address}
    (hnd : (BalanceList.keys (s.worm owner).validatorExtension).Nodup)
    (hpos : ∀ e ∈ (s.worm owner).validatorExtension, 0 < e.balance) (rewardAmount : Int) :
    distributeRewardsToStakers owner rewardAmount s =
      some { address := owner, nftAddress := zeroAddress,
             rewardAmount := rewardAmount - sharesPaid (s.stakerShares owner rewardAmount),
             stakerRewards := (s.stakerShares owner rewardAmount).map fun p => ⟨p.1, p.2⟩ } := by
  simp only [distributeRewardsToStakers, StateDB.worm_getOrNewAccountStateObject]
  rw [sumStakerBalance_eq hnd, stakerRewards_eq _ _ _ _ (total_others_ne_zero hpos)]
  simp [sharesPaid, List.map_map, StateDB.stakerShares_eq]
  rfl

theorem LedgerInv.validator_entry_pos {s : StateDB} (h : LedgerInv s) (o : Address) :
    ∀ e ∈ (s.worm o).validatorExtension, 0 < e.balance :=
  fun _ he => Int.lt_of_lt_of_le stakerBase_pos (h.validator_entry_ge he)

/-- Under the staking-ledger invariant `DistributeRewardsToStakers` never
divides by zero, pays each listed owner's other stakers their rounded shares
of 93% of the reward out of the owner's balance, at most 93% of it in all, and
the RPC service reports the same split. -/
theorem distributeRewardsToStakers_pays_stakerShares {s : StateDB} (h : LedgerInv s)
    (validators : List Address) {rewardAmount : Int} (hR : 0 ≤ rewardAmount) :
    (∃ s', s.distributeRewardsToStakers validators rewardAmount = some s' ∧
      ∀ a, s'.getBalance a = s.getBalance a +
        (validators.map fun owner => shareChange (s.stakerShares owner rewardAmount) owner a).sum) ∧
    ∀ owner,
      (∀ e ∈ (s.worm owner).validatorExtension, e.addr ≠ owner →
        shareChange (s.stakerShares owner rewardAmount) owner e.addr =
          rewardAmount * (100 - PercentageValidatorReward) / 100 * e.balance /
            BalanceList.total ((s.worm owner).validatorExtension.filter (·.addr ≠ owner))) ∧
      shareChange (s.stakerShares owner rewardAmount) owner owner =
        -sharesPaid (s.stakerShares owner rewardAmount) ∧
      sharesPaid (s.stakerShares owner rewardAmount) ≤
        rewardAmount * (100 - PercentageValidatorReward) / 100 ∧
      0 ≤ rewardAmount + shareChange (s.stakerShares owner rewardAmount) owner owner ∧
      Ethapi.distributeRewardsToStakers owner rewardAmount s =
        some { address := owner, nftAddress := zeroAddress,
               rewardAmount := rewardAmount - sharesPaid (s.stakerShares owner rewardAmount),
               stakerRewards := (s.stakerShares owner rewardAmount).map fun p => ⟨p.1, p.2⟩ } := by
  have hnd := h.backers_nodup
  have hpos := h.validator_entry_pos
  have hshare : rewardAmount * (100 - PercentageValidatorReward) / 100 ≤ rewardAmount ∧
      0 ≤ rewardAmount * (100 - PercentageValidatorReward) / 100 := by
    unfold PercentageValidatorReward
    omega
  obtain ⟨s', hs', -, hb⟩ := StateDB.distributeRewardsToStakers_eq validators rewardAmount s (fun o _ => hnd o)
    (fun o _ => hpos o)
  refine ⟨⟨s', hs', hb⟩, fun owner => ?_⟩
  have hown : shareChange (s.stakerShares owner rewardAmount) owner owner =
      -sharesPaid (s.stakerShares owner rewardAmount) := by
    rw [shareChange, StateDB.stakerShares_eq, filter_stakerPays_owner, if_pos rfl]
    simp
  have hle : sharesPaid (s.stakerShares owner rewardAmount) ≤
      rewardAmount * (100 - PercentageValidatorReward) / 100 := by
    rw [StateDB.stakerShares_eq]
    exact sharesPaid_le (hpos owner) hshare.2
  refine ⟨fun e he hne => ?_, hown, hle, by omega,
    Ethapi.distributeRewardsToStakers_eq (hnd owner) (hpos owner) rewardAmount⟩
  rw [shareChange, StateDB.stakerShares_eq, filter_stakerPays_of_mem (hnd owner) he hne, if_neg hne]
  simp

/-! From the reward genesis, `0x0a` stakes on itself, then `0x0b` on `0x0a`,
each through `Call`. -/

def backedValidator : StateDB :=
  let s := (stakingEvm.call rewardGenesis 10 10 (Wormholes.input { type := 3 }) 100000 ValidatorBase.toNat).1
  (stakingEvm.call s 11 10 (Wormholes.input { type := 3 }) 100000 StakerBase.toNat).1

theorem reach_backedValidator : Relation.ReflTransGen StakingStep rewardGenesis backedValidator :=
  .tail (.single (.call _ stakingEvm_inert _ _ _ _ _ _)) (.call _ stakingEvm_inert _ _ _ _ _ _)

example : backedValidator.stakerShares 10 100 = [(11, 93)] := by decide +kernel

theorem staker_share_of_backed_validator :
    (∃ s', backedValidator.distributeRewardsToStakers [10] 100 = some s' ∧
      ∀ a, s'.getBalance a = backedValidator.getBalance a +
        ([10].map fun owner => shareChange (backedValidator.stakerShares owner 100) owner a).sum) ∧
    (∀ e ∈ (backedValidator.worm 10).validatorExtension, e.addr ≠ 10 →
      shareChange (backedValidator.stakerShares 10 100) 10 e.addr =
        100 * (100 - PercentageValidatorReward) / 100 * e.balance /
          BalanceList.total ((backedValidator.worm 10).validatorExtension.filter (·.addr ≠ 10))) ∧
    shareChange (backedValidator.stakerShares 10 100) 10 10 = -sharesPaid (backedValidator.stakerShares 10 100) ∧
    sharesPaid (backedValidator.stakerShares 10 100) ≤ 100 * (100 - PercentageValidatorReward) / 100 ∧
    0 ≤ 100 + shareChange (backedValidator.stakerShares 10 100) 10 10 ∧
    Ethapi.distributeRewardsToStakers 10 100 backedValidator =
      some { address := 10, nftAddress := zeroAddress,
             rewardAmount := 100 - sharesPaid (backedValidator.stakerShares 10 100),
             stakerRewards := (backedValidator.stakerShares 10 100).map fun p => ⟨p.1, p.2⟩ } :=
  have h := distributeRewardsToStakers_pays_stakerShares
    (LedgerInv.rewardGenesis.of_reachable reach_backedValidator) [10] (by decide)
  ⟨h.1, h.2 10⟩

end Erbie
