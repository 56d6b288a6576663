import Erbie.Lib.Conserve
import Erbie.Proofs.Ledger
import Erbie.Spec.Transition

/-! Conservation of ERB. An account holds its balance and its pledged balance;
`Moves s.holdings s'.holdings m` says that the accounts of `s'` hold `m` more
in total than those of `s`. Every write the Erbie code makes moves value
between accounts: a stake from a balance into a pledged balance, an unstake
back (less a punishment, which the zero address receives), a refund from a
validator's pledged balance to its stakers, a coefficient buy-back to the zero
address, the gas from the sender to the coinbase, a staker's share of the
reward out of the validator's balance. Only the mint of `CreateNFTByOfficial16`
adds value, `rewardAmount` for every entry of its list. -/

namespace Erbie

open Conserve

namespace StateDB

/-- The ERB an account holds. -/
def holdings (s : StateDB) (a : Address) : Int := s.getBalance a + s.getPledgedBalance a

end StateDB

theorem LedgerFrame.getPledgedBalance_eq {s s' : StateDB} (h : LedgerFrame s s') :
    s'.getPledgedBalance = s.getPledgedBalance :=
  funext fun a => congrArg (fun t => t.2.2) (h.stakes a)

namespace StateDB

variable (s : StateDB)

theorem moves_of_ledgerFrame {s' : StateDB} {m : Int} (hf : LedgerFrame s s')
    (hb : Moves s.getBalance s'.getBalance m) : Moves s.holdings s'.holdings m :=
  (hb.add (Moves.of_eq hf.getPledgedBalance_eq)).congr (add_zero m)

theorem moves_of_balance_eq {s' : StateDB} (hf : LedgerFrame s s')
    (hb : s'.getBalance = s.getBalance) : Moves s.holdings s'.holdings 0 :=
  s.moves_of_ledgerFrame hf (Moves.of_eq hb)

/-! ### The primitive writes -/

theorem balance_addBalance (a : Address) (x : Int) :
    Moves s.getBalance (s.addBalance a x).getBalance x := by
  have h : (s.addBalance a x).getBalance = fun b => s.getBalance b + if b = a then x else 0 := by
    funext b
    rw [addBalance, getBalance_updateAccount_addBalance]
    split_ifs with hb
    · rw [hb]
    · rw [add_zero]
  rw [h]
  exact Moves.add_single _ a x

theorem moves_addBalance (a : Address) (x : Int) : Moves s.holdings (s.addBalance a x).holdings x :=
  s.moves_of_ledgerFrame (s.ledgerFrame_addBalance a x) (s.balance_addBalance a x)

theorem moves_subBalance (a : Address) (x : Int) :
    Moves s.holdings (s.subBalance a x).holdings (-x) := by
  have h : s.subBalance a x = s.addBalance a (-x) := by
    simp only [subBalance, addBalance, Account.subBalance, Account.addBalance, Int.sub_eq_add_neg]
  rw [h]
  exact s.moves_addBalance a (-x)

theorem moves_transfer (a b : Address) (x : Int) : Moves s.holdings (transfer s a b x).holdings 0 :=
  ((s.moves_subBalance a x).trans (moves_addBalance _ b x)).congr (Int.add_left_neg x)

theorem moves_getOrNewAccountStateObject (a : Address) :
    Moves s.holdings (s.getOrNewAccountStateObject a).holdings 0 :=
  s.moves_of_balance_eq (s.ledgerFrame_getOrNewAccountStateObject a)
    (funext (s.getBalance_getOrNewAccountStateObject a))

theorem moves_getOrNewStakerStateObject (a : Address) :
    Moves s.holdings (s.getOrNewStakerStateObject a).holdings 0 :=
  s.moves_of_balance_eq (s.ledgerFrame_getOrNewStakerStateObject a)
    (funext (s.getBalance_getOrNewStakerStateObject a))

theorem moves_getOrNewNFTStateObject (a : Address) :
    Moves s.holdings (s.getOrNewNFTStateObject a).holdings 0 :=
  s.moves_of_balance_eq (s.ledgerFrame_getOrNewNFTStateObject a)
    (funext (s.getBalance_getOrNewNFTStateObject a))

theorem moves_updateAccount (a : Address) (f : Account → Account)
    (hb : ∀ acc, (f acc).balance = acc.balance)
    (hp : ∀ acc, ((f acc).worm.getD {}).pledgedBalance = (acc.worm.getD {}).pledgedBalance) :
    Moves s.holdings (s.updateAccount a f).holdings 0 := by
  refine Moves.of_eq (funext fun b => ?_)
  unfold holdings getPledgedBalance
  rw [getBalance_updateAccount, worm_updateAccount]
  split_ifs with h
  · subst h
    rw [hb, hp, accountObject_balance, accountObject_worm, Option.getD_some]
  · rfl

theorem moves_addValidatorCoefficient (a : Address) (c : UInt8) :
    Moves s.holdings (s.addValidatorCoefficient a c).holdings 0 :=
  s.moves_updateAccount a _ (fun _ => rfl) fun _ => rfl

theorem moves_subValidatorCoefficient (a : Address) (c : UInt8) :
    Moves s.holdings (s.subValidatorCoefficient a c).holdings 0 :=
  s.moves_updateAccount a _ (fun _ => rfl) fun _ => rfl

theorem moves_setCoefficient (a : Address) (c : UInt8) :
    Moves s.holdings (s.updateAccount a (·.setCoefficient c)).holdings 0 :=
  s.moves_updateAccount a _ (fun _ => rfl) fun _ => rfl

theorem moves_setNonce (a : Address) (n : Nat) : Moves s.holdings (s.setNonce a n).holdings 0 :=
  s.moves_updateAccount a _ (fun _ => rfl) fun _ => rfl

/-! ### Staking -/

theorem moves_stakerPledge (fromAddr address : Address) (amount : Int) (blocknumber : Nat)
    (proxyAddress : String) :
    Moves s.holdings (s.stakerPledge fromAddr address amount blocknumber proxyAddress).holdings 0 := by
  have h : (s.stakerPledge fromAddr address amount blocknumber proxyAddress).holdings =
      fun b => (fun b => s.holdings b + if b = fromAddr then -amount else 0) b +
        if b = address then amount else 0 := by
    funext b
    simp only [holdings, getPledgedBalance, getBalance_stakerPledge, worm_stakerPledge]
    split_ifs with h₁ h₂ <;> subst_vars <;> omega
  rw [h]
  exact ((Moves.add_single _ fromAddr (-amount)).trans (Moves.add_single _ address amount)).congr
    (Int.add_left_neg amount)

theorem moves_resetMinerBecome (address : Address) :
    Moves s.holdings (s.resetMinerBecome address).1.holdings 0 := by
  refine Moves.of_eq (funext fun b => ?_)
  obtain ⟨c, hc⟩ := s.worm_resetMinerBecome address b
  simp only [holdings, getPledgedBalance, getBalance_resetMinerBecome, hc]

theorem moves_removePledge (fromAddr address : Address) (amount : Int) :
    Moves s.holdings (s.removePledge fromAddr address amount).holdings (-amount) := by
  have h : (s.removePledge fromAddr address amount).holdings =
      fun b => s.holdings b + if b = address then -amount else 0 := by
    funext b
    simp only [holdings, getPledgedBalance, getBalance_removePledge, worm_removePledge]
    split_ifs <;> omega
  rw [h]
  exact Moves.add_single _ address (-amount)

/-- A refund moves a staker's stake from the validator's pledged balance back
to the staker's balance. -/
theorem moves_revocateStaker (addr : Address) (staker : ValidatorExtension) :
    Moves s.holdings (revocateStaker addr s staker).holdings 0 := by
  have h : (revocateStaker addr s staker).holdings =
      fun b => (fun b => s.holdings b + if b = staker.addr then staker.balance else 0) b +
        if b = addr then -staker.balance else 0 := by
    funext b
    simp only [holdings, getPledgedBalance, getBalance_revocateStaker, worm_revocateStaker]
    split_ifs with h₁ h₂ <;> subst_vars <;> omega
  rw [h]
  exact ((Moves.add_single _ staker.addr staker.balance).trans
    (Moves.add_single _ addr (-staker.balance))).congr (Int.add_right_neg staker.balance)

theorem moves_revocateAllStakers (addr : Address) (blocknumber : Nat) :
    Moves s.holdings (s.revocateAllStakers addr blocknumber).holdings 0 := by
  unfold revocateAllStakers
  dsimp only
  have h₀ := (s.moves_getOrNewAccountStateObject addr).trans
    (moves_getOrNewStakerStateObject _ ValidatorStorageAddress)
  -- every refund moves value, and emptying the extension moves none
  have hloop := Moves.foldl holdings (fun _ => 0) (revocateStaker addr) (fun t e => moves_revocateStaker t addr e)
    ((s.getOrNewAccountStateObject addr).worm addr).validatorExtension
    ((s.getOrNewAccountStateObject addr).getOrNewStakerStateObject ValidatorStorageAddress)
  have hclear := moves_updateAccount (List.foldl (revocateStaker addr)
    ((s.getOrNewAccountStateObject addr).getOrNewStakerStateObject ValidatorStorageAddress)
    ((s.getOrNewAccountStateObject addr).worm addr).validatorExtension) addr
    (·.setValidatorExtension []) (fun _ => rfl) fun _ => rfl
  exact ((h₀.trans hloop).trans hclear).congr (by simp)

theorem moves_newCancelStakerPledge (fromAddr address : Address) (amount : Int) (blocknumber : Nat) :
    Moves s.holdings (s.newCancelStakerPledge fromAddr address amount blocknumber).1.holdings 0 := by
  unfold newCancelStakerPledge
  dsimp only
  set s₀ := ((s.getOrNewAccountStateObject address).getOrNewAccountStateObject fromAddr).getOrNewStakerStateObject
    ValidatorStorageAddress
  have h₀ : Moves s.holdings s₀.holdings 0 :=
    ((s.moves_getOrNewAccountStateObject address).trans (moves_getOrNewAccountStateObject _ fromAddr)).trans
      (moves_getOrNewStakerStateObject _ _)
  set p := punishErb (s₀.getValidatorCoefficient address)
  -- the stake goes back to balances, less a punishment that the zero address gets
  have hpunish : Moves s₀.holdings (((s₀.updateAccount fromAddr (·.addBalance (amount - p * 10 ^ 17))).updateAccount
      zeroAddress (·.addBalance (p * 10 ^ 17))).updateAccount fromAddr
        (·.setCoefficient VALIDATOR_COEFFICIENT)).holdings amount :=
    (((s₀.moves_addBalance fromAddr _).trans (moves_addBalance _ zeroAddress _)).trans
      (moves_setCoefficient _ _ _)).congr (by omega)
  have hrefund : Moves s₀.holdings (s₀.updateAccount fromAddr (·.addBalance amount)).holdings amount :=
    s₀.moves_addBalance fromAddr amount
  -- and leaves the pledged balance, with the other stakers' stakes after a full withdrawal
  have hwithdraw : ∀ t : StateDB,
      Moves t.holdings (t.removePledge fromAddr address amount).holdings (-amount) ∧
      Moves t.holdings ((t.removePledge fromAddr address amount).revocateAllStakers address
        blocknumber).holdings (-amount) := fun t =>
    ⟨t.moves_removePledge fromAddr address amount,
     ((t.moves_removePledge fromAddr address amount).trans (moves_revocateAllStakers _ _ _)).congr
      (add_zero _)⟩
  split_ifs with hself hfail hp hall hall'
  · exact h₀
  · exact (h₀.trans (hpunish.trans (hwithdraw _).2)).congr (by omega)
  · exact (h₀.trans (hpunish.trans (hwithdraw _).1)).congr (by omega)
  · exact (h₀.trans (hrefund.trans (hwithdraw _).2)).congr (by omega)
  · exact (h₀.trans (hrefund.trans (hwithdraw _).1)).congr (by omega)
  · exact (h₀.trans (hrefund.trans (hwithdraw _).1)).congr (by omega)

/-- A coefficient buy-back pays the zero address. -/
theorem moves_recoverValidatorCoefficient (address : Address) :
    Moves s.holdings (s.recoverValidatorCoefficient address).1.holdings 0 := by
  unfold recoverValidatorCoefficient
  dsimp only
  have h₀ := s.moves_getOrNewAccountStateObject address
  split_ifs
  · exact h₀
  · exact h₀
  · exact h₀
  · exact (((h₀.trans (moves_subBalance _ _ _)).trans (moves_addBalance _ _ _)).trans
      (moves_addValidatorCoefficient _ _ _)).congr (by omega)
  · exact h₀

theorem moves_setAccount_of {a : Address} {acc : Account} (hb : acc.balance = s.getBalance a)
    (hp : (acc.worm.getD {}).pledgedBalance = s.getPledgedBalance a) :
    Moves s.holdings (s.setAccount a acc).holdings 0 := by
  refine Moves.of_eq (funext fun b => ?_)
  unfold holdings getPledgedBalance
  rw [getBalance_setAccount, worm_setAccount]
  split_ifs with h
  · subst h
    rw [hb, hp]
    rfl
  · rfl

/-! ### Finalisation -/

/-- The mint: every rewarded validator gets `rewardAmount`, and the awarded
NFTs carry no value. -/
theorem moves_createNFTByOfficial16 {validators exchangers : List Address} {rewardAmount : Int}
    {s' : StateDB} (h : s.createNFTByOfficial16 validators exchangers rewardAmount = some s') :
    Moves s.holdings s'.holdings (validators.length * rewardAmount) := by
  unfold createNFTByOfficial16 at h
  have hpaid := Moves.foldl holdings (fun _ => rewardAmount) (fun s owner => s.addBalance owner rewardAmount)
    (fun t x => t.moves_addBalance x rewardAmount) validators s
  have hcounter := moves_getOrNewStakerStateObject
    (validators.foldl (fun s owner => s.addBalance owner rewardAmount) s) MintDeepStorageAddress
  -- one awarded NFT: a fresh NFT object, its owner, and the counter
  have haward := Moves.foldlM holdings (fun _ => 0) _ (fun t x t' ht => by
    split at ht
    · cases ht
    · cases ht
      refine (((t.moves_getOrNewNFTStateObject _).trans (moves_setAccount_of _ ?_ ?_)).trans
        (moves_setAccount_of _ ?_ ?_)).congr rfl
      · simp
      · simp [getPledgedBalance, worm]
      · simp
      · simp [getPledgedBalance, stakerObject_worm, worm]) exchangers h
  exact ((hpaid.trans hcounter).trans haward).congr (by simp)

/-- A staker's share: the inner loop of `DistributeRewardsToStakers` pays out
exactly the sum it returns. -/
theorem moves_payStakers (owner : Address) (x y : Int) :
    ∀ (s : StateDB) (l : List ValidatorExtension) {s' : StateDB} {paid : Int},
      payStakers owner x y s l = some (s', paid) → Moves s.holdings s'.holdings paid
  | s, [], s', paid, h => by
    simp only [payStakers, Option.some.injEq, Prod.mk.injEq] at h
    obtain ⟨rfl, rfl⟩ := h
    exact Moves.refl _
  | s, e :: l, s', paid, h => by
    unfold payStakers at h
    split_ifs at h
    · exact moves_payStakers owner x y s l h
    · obtain ⟨⟨t, p⟩, ht, heq⟩ := Option.map_eq_some_iff.mp h
      cases heq
      exact (s.moves_addBalance _ _).trans (moves_payStakers owner x y _ l ht)

theorem moves_distributeRewardsToStakers {validators : List Address} {rewardAmount : Int}
    {s' : StateDB} (h : s.distributeRewardsToStakers validators rewardAmount = some s') :
    Moves s.holdings s'.holdings 0 := by
  have hloop := Moves.foldlM holdings (fun _ => 0) _ (fun t x t' ht => by
    obtain ⟨⟨u, paid⟩, hu, rfl⟩ := Option.map_eq_some_iff.mp ht
    exact (((t.moves_getOrNewAccountStateObject x).trans (moves_payStakers x _ _ _ _ hu)).trans
      (moves_subBalance _ _ _)).congr (by omega)) validators h
  exact hloop.congr (by simp)

theorem getBalance_recalculateWeights {s' : StateDB} (h : s.recalculateWeights = some s') :
    s'.getBalance = s.getBalance := by
  unfold recalculateWeights at h
  obtain ⟨⟨u, vl⟩, hfold, rfl⟩ := Option.map_eq_some_iff.mp h
  -- the loop creates account objects and rewrites the list, and pays nobody
  have hloop : u.getBalance = (s.getOrNewStakerStateObject ValidatorStorageAddress).getBalance :=
    Fold.foldlM_rel (fun p q : StateDB × List Validator => q.1.getBalance = p.1.getBalance)
      (fun _ => rfl) (fun _ _ _ h₁ h₂ => h₂.trans h₁) _ _ (fun p _ q _ hq => by
        obtain ⟨_, _, rfl⟩ := Option.map_eq_some_iff.mp hq
        exact funext (p.1.getBalance_getOrNewAccountStateObject _)) hfold
  funext b
  rw [getBalance_updateValidators, hloop, getBalance_getOrNewStakerStateObject]

theorem moves_recalculateWeights {s' : StateDB} (h : s.recalculateWeights = some s') :
    Moves s.holdings s'.holdings 0 :=
  s.moves_of_balance_eq (s.ledgerFrame_recalculateWeights h) (s.getBalance_recalculateWeights h)

end StateDB

theorem moves_of_coefficientSteps {s t : StateDB} (h : Relation.ReflTransGen CoefficientStep s t) :
    Moves s.holdings t.holdings 0 := by
  induction h with
  | refl => exact Moves.refl _
  | tail _ hstep ih =>
    cases hstep with
    | sub a k => exact ih.trans (StateDB.moves_subValidatorCoefficient _ a k)
    | add a k => exact ih.trans (StateDB.moves_addValidatorCoefficient _ a k)
    | staker a => exact ih.trans (StateDB.moves_getOrNewStakerStateObject _ a)

theorem ChainView.moves_finalizeTail (view : ChainView) {s s' : StateDB}
    {validatorAddr exchangerAddr : List Address}
    (h : view.finalizeTail s validatorAddr exchangerAddr = some s') :
    Moves s.holdings s'.holdings (validatorAddr.length * view.rewardAmount) := by
  unfold ChainView.finalizeTail at h
  obtain ⟨s₁, h₁, h⟩ := Option.bind_eq_some_iff.mp h
  obtain ⟨s₂, h₂, h₃⟩ := Option.bind_eq_some_iff.mp h
  exact (((s.moves_createNFTByOfficial16 h₁).trans (s₁.moves_distributeRewardsToStakers h₂)).trans
    (s₂.moves_recalculateWeights h₃)).congr (by omega)

/-- A finalisation that does not panic mints `rewardAmount` for every entry
of the list it passes to `CreateNFTByOfficial16`, and moves value otherwise. -/
theorem Crypto.moves_finalize (c : Crypto) (view : ChainView) (codec : EmptyCodec) (h : Header)
    {s s' : StateDB} (hs : c.finalize view codec h s = .done s' ∨ c.finalize view codec h s = .stopped s') :
    Moves s.holdings s'.holdings ((c.finalizeValidatorAddr view h).length * view.rewardAmount) := by
  obtain ⟨t, ht, hfin⟩ := c.finalize_cases view codec h hs
  have h₀ := moves_of_coefficientSteps ht
  rcases hfin with ⟨_, htail⟩ | ⟨rfl, hnil⟩
  · exact (h₀.trans (view.moves_finalizeTail htail)).congr (zero_add _)
  · rw [hnil]
    exact h₀.congr (by simp)

/-! ### Erbie transactions -/

theorem getBalance_verifyCSBTOwner (s : StateDB) (nftAddr : String) (owner : Address) :
    (verifyCSBTOwner s nftAddr owner).1.getBalance = s.getBalance := by
  unfold verifyCSBTOwner
  split
  · rfl
  · exact funext (s.getBalance_getOrNewNFTStateObject _)

theorem moves_verifyCSBTOwner (s : StateDB) (nftAddr : String) (owner : Address) :
    Moves s.holdings (verifyCSBTOwner s nftAddr owner).1.holdings 0 :=
  s.moves_of_balance_eq (EVM.ledgerFrame_verifyCSBTOwner s nftAddr owner)
    (getBalance_verifyCSBTOwner s nftAddr owner)

theorem moves_transferCSBT {s s' : StateDB} {nftAddr : String} {newOwner : Address}
    (h : transferCSBT s nftAddr newOwner = .ok s') : Moves s.holdings s'.holdings 0 := by
  refine s.moves_of_balance_eq (EVM.ledgerFrame_transferCSBT s h) (funext fun b => ?_)
  unfold transferCSBT at h
  split at h
  · cases h
  · cases h
    rw [StateDB.getBalance_setAccount_of _ (by simp) b, StateDB.getBalance_getOrNewNFTStateObject]

namespace EVM

variable (evm : EVM) (s : StateDB)

/-- Every Erbie transaction only moves value, on every exit, failing ones
included. -/
theorem moves_handleCSBT (caller addr : Address) (wh : Wormholes) (value : Nat) :
    Moves s.holdings (evm.handleCSBT s caller addr wh value).1.holdings 0 := by
  have h₀ := s.moves_getOrNewAccountStateObject caller
  by_cases h3 : wh.type = 3
  · rcases evm.handleCSBT_stake_cases s caller addr wh value h3 with he | ⟨_, he⟩
    · rw [he]
      exact h₀
    · rw [he]
      exact (h₀.trans ((StateDB.moves_stakerPledge _ _ _ _ _ _).trans
        (StateDB.moves_resetMinerBecome _ _))).congr rfl
  by_cases h4 : wh.type = 4
  · rcases evm.handleCSBT_unstake_cases s caller addr wh value h4 with he | ⟨_, he⟩
    · rw [he]
      exact h₀
    · rw [he]
      exact h₀.trans (StateDB.moves_newCancelStakerPledge _ _ _ _ _)
  have h₁ := moves_verifyCSBTOwner s wh.csbtAddress caller
  have h₂ := (h₁.trans (StateDB.moves_getOrNewStakerStateObject _ StakerStorageAddress)).congr rfl
  have h₃ := moves_verifyCSBTOwner s wh.csbtAddress addr
  rcases evm.handleCSBT_cases_of_ne s caller addr wh value ⟨h3, h4⟩ with h | h | h | h | h | h | h
  · rw [h]; exact Moves.refl _
  · rw [h]; exact h₁
  · rw [h]; exact h₂
  · exact (h₂.trans (moves_transferCSBT h)).congr rfl
  · rw [h]; exact h₃
  · rw [h]; exact (h₃.trans (StateDB.moves_transfer _ _ _ _)).congr rfl
  · rw [h]; exact StateDB.moves_recoverValidatorCoefficient s caller

/-- What `Call` leaves: a state that writes moving no value reach from the one
it was given, or one run of the interpreter on such a state. -/
theorem call_cases (caller addr : Address) (input : List UInt8) (gas value : Nat) :
    ∃ t : StateDB, Moves s.holdings t.holdings 0 ∧
      ((evm.call s caller addr input gas value).1 = t ∨
        (evm.call s caller addr input gas value).1 =
          (evm.run t caller addr (t.getCode addr) input gas value).1) := by
  obtain ⟨t, ht, hcall⟩ := evm.call_cases_of s (fun s t => Moves s.holdings t.holdings 0) caller addr
    (fun _ => Moves.refl _) (fun h₁ h₂ => (h₁.trans h₂).congr rfl)
    (fun t a => t.moves_getOrNewAccountStateObject a) input gas value
  rcases hcall with hcall | ⟨u, hu, hcall⟩
  · exact ⟨t, ht, .inl hcall⟩
  · -- the transaction or the transfer moves nothing either
    have htu : Moves t.holdings u.holdings 0 := by
      rcases hu with rfl | ⟨wh, -, rfl⟩
      · exact StateDB.moves_transfer _ _ _ _
      · exact evm.moves_handleCSBT t caller addr wh value
    exact ⟨u, (ht.trans htu).congr rfl, hcall⟩

/-- `Call` returns no more gas than it was given, when the interpreter and the
precompiled contracts do not. -/
theorem call_gas_le (hrun : ∀ t c a code i g v, (evm.run t c a code i g v).2.2.1 ≤ g)
    (hpre : ∀ a i g, (evm.runPrecompiled a i g).2.1 ≤ g)
    (caller addr : Address) (input : List UInt8) (gas value : Nat) :
    (evm.call s caller addr input gas value).2.2.1 ≤ gas := by
  unfold call
  by_cases h1 : evm.noRecursion = true ∧ 0 < evm.depth
  · rw [if_pos h1]
  rw [if_neg h1]
  by_cases h2 : CallCreateDepth < evm.depth
  · rw [if_pos h2]
  rw [if_neg h2]
  dsimp only
  split
  · exact le_rfl
  split
  · exact le_rfl
  split
  · exact le_rfl
  rename_i u _
  have hexec : (if evm.precompile addr = true then
      (u, (evm.runPrecompiled addr input gas).1, (evm.runPrecompiled addr input gas).2.1,
        (evm.runPrecompiled addr input gas).2.2)
      else if u.getCode addr = [] then (u, [], gas, none)
      else evm.run u caller addr (u.getCode addr) input gas value).2.2.1 ≤ gas := by
    split_ifs
    · exact hpre addr input gas
    · exact le_rfl
    · exact hrun _ _ _ _ _ _ _
  split
  · -- a revert keeps the gas left, any other failure burns it
    rename_i err _
    by_cases hrev : err = ErrExecutionReverted
    · rw [if_pos hrev]
      exact hexec
    · rw [if_neg hrev]
      exact Nat.zero_le gas
  · exact hexec

end EVM

/-! ### Transactions -/

theorem buyGas_eq_ok {unmarshal : List UInt8 → Option Wormholes} {s s₁ : StateDB} {msg : Message}
    {gp gp₁ : Nat} (h : buyGas unmarshal s msg gp = .ok (s₁, gp₁)) :
    s₁ = s.subBalance msg.fromAddr (msg.gas.toNat * msg.gasPrice) ∧ gp₁ = gp - msg.gas.toNat := by
  unfold buyGas at h
  dsimp only at h
  -- both balance checks end in the same purchase
  split_ifs at h <;> cases h <;> exact ⟨rfl, rfl⟩

theorem preCheck_eq_ok {ctx : BlockContext} {unmarshal : List UInt8 → Option Wormholes}
    {s s₁ : StateDB} {msg : Message} {gp gp₁ : Nat}
    (h : preCheck ctx unmarshal s msg gp = .ok (s₁, gp₁)) :
    buyGas unmarshal s msg gp = .ok (s₁, gp₁) := by
  unfold preCheck at h
  dsimp only at h
  split_ifs at h <;> first | exact h

/-- The checks before the execution buy the gas, which keeps the ledger and
every code. -/
theorem preCheck_frame {ctx : BlockContext} {unmarshal : List UInt8 → Option Wormholes}
    {s s₁ : StateDB} {msg : Message} {gp gp₁ : Nat}
    (h : preCheck ctx unmarshal s msg gp = .ok (s₁, gp₁)) :
    LedgerFrame s s₁ ∧ ∀ b, s₁.getCode b = s.getCode b := by
  obtain ⟨rfl, -⟩ := buyGas_eq_ok (preCheck_eq_ok h)
  exact ⟨s.ledgerFrame_subBalance _ _, fun b => s.getCode_subBalance _ b _⟩

/-- What a valid message leaves: the gas bought, the execution on the gas left
after the intrinsic gas, the refund, and the tip. -/
theorem transitionDb_eq_ok {ctx : BlockContext} {env : TxEnv} {gp : Nat} {s : StateDB}
    {msg : Message} {s' : StateDB} {gp' : Nat} {r : ExecutionResult}
    (h : transitionDb ctx env gp s msg = .ok (s', gp', r)) :
    ∃ s₁ gp₁ gas, preCheck ctx env.evm.unmarshal s msg gp = .ok (s₁, gp₁) ∧
      intrinsicGas env.evm.unmarshal msg.data msg.accessList msg.toAddr.isNone ctx.homestead
        ctx.istanbul = .ok gas ∧ gas ≤ msg.gas.toNat ∧
      let out := execute env s₁ msg (msg.gas.toNat - gas)
      let refunded := refundGas out.1 msg gp₁
        (if ctx.london then RefundQuotientEIP3529 else RefundQuotient) (env.getRefund out.1)
        (UInt64.ofNat out.2.2.1)
      s' = refunded.1.addBalance ctx.coinbase ((msg.gas - refunded.2.2).toNat * msg.gasPrice) := by
  unfold transitionDb at h
  split at h
  · cases h
  rename_i s₁ gp₁ hpre
  split at h
  · cases h
  rename_i gas hig
  split at h
  · cases h
  rename_i hlt
  split at h
  · cases h
  dsimp only at h
  cases h
  exact ⟨s₁, gp₁, gas, hpre, hig, by omega, rfl⟩

theorem transitionDb_of_checks {ctx : BlockContext} {env : TxEnv} {gp : Nat} {s : StateDB} {msg : Message}
    {s₁ : StateDB} {gp₁ gas : Nat} (hpre : preCheck ctx env.evm.unmarshal s msg gp = .ok (s₁, gp₁))
    (hintr : intrinsicGas env.evm.unmarshal msg.data msg.accessList msg.toAddr.isNone ctx.homestead
      ctx.istanbul = .ok gas) (hgas : gas ≤ msg.gas.toNat)
    (hval : ¬((!isUnstake env.evm.unmarshal msg.data) = true ∧ 0 < msg.value ∧
      (!canTransfer s₁ msg.fromAddr msg.value) = true)) :
    ∃ r, transitionDb ctx env gp s msg = .ok r ∧ r.2.2.err = (execute env s₁ msg (msg.gas.toNat - gas)).2.2.2 := by
  unfold transitionDb
  rw [hpre]
  dsimp only
  rw [hintr]
  dsimp only
  rw [if_neg (by omega), if_neg hval]
  exact ⟨_, rfl, rfl⟩

/-- The refund never takes the gas left above the gas bought, so the `uint64`
subtractions of `refundGas` and `gasUsed` do not wrap, and the gas bought is
the gas used and the gas returned. -/
theorem gas_refund_split (G g q R : UInt64) (hg : g ≤ G) :
    (G - (g + min ((G - g) / q) R)).toNat + (g + min ((G - g) / q) R).toNat = G.toNat := by
  have hrefund : (min ((G - g) / q) R).toNat ≤ (G - g).toNat := by
    rw [UInt64.toNat_min, UInt64.toNat_div]
    have := Nat.div_le_self (G - g).toNat q.toNat
    omega
  have hg' : g.toNat ≤ G.toNat := UInt64.le_iff_toNat_le.mp hg
  have hsub : (G - g).toNat = G.toNat - g.toNat := UInt64.toNat_sub_of_le _ _ hg
  have hadd : (g + min ((G - g) / q) R).toNat = g.toNat + (min ((G - g) / q) R).toNat := by
    rw [UInt64.toNat_add]
    apply Nat.mod_eq_of_lt
    have := G.toNat_lt
    omega
  have hle : g + min ((G - g) / q) R ≤ G := UInt64.le_iff_toNat_le.mpr (by omega)
  rw [UInt64.toNat_sub_of_le _ _ hle]
  omega

/-- The refund and the tip pay back the gas bought: the sender gets the gas
left and the refund, the coinbase the gas used, both at the gas price. -/
theorem moves_refund_tip (t : StateDB) (msg : Message) (gp : Nat) (q R : UInt64) (coinbase : Address)
    (g : Nat) (hg : g ≤ msg.gas.toNat) :
    Moves t.holdings ((refundGas t msg gp q R (UInt64.ofNat g)).1.addBalance coinbase
      ((msg.gas - (refundGas t msg gp q R (UInt64.ofNat g)).2.2).toNat * msg.gasPrice)).holdings
      (msg.gas.toNat * msg.gasPrice) := by
  have hg' : UInt64.ofNat g ≤ msg.gas := by
    rw [UInt64.le_iff_toNat_le, UInt64.toNat_ofNat']
    have := msg.gas.toNat_lt
    omega
  have hsplit : ((msg.gas - (refundGas t msg gp q R (UInt64.ofNat g)).2.2).toNat : Int) +
      (refundGas t msg gp q R (UInt64.ofNat g)).2.2.toNat = msg.gas.toNat := by
    exact_mod_cast gas_refund_split msg.gas (UInt64.ofNat g) q R hg'
  refine ((t.moves_addBalance _ _).trans (StateDB.moves_addBalance _ _ _)).congr ?_
  rw [← hsplit, Int.add_mul, Int.add_comm]
  rfl

/-- A transaction changes the total by what its execution changes, when the
execution returns no more gas than it was given: the gas the sender buys goes
back to it or to the coinbase. -/
theorem moves_transitionDb {ctx : BlockContext} {env : TxEnv} {gp : Nat} {s : StateDB}
    {msg : Message} {s' : StateDB} {gp' : Nat} {r : ExecutionResult}
    (h : transitionDb ctx env gp s msg = .ok (s', gp', r)) :
    ∃ s₁ gp₁ gas, preCheck ctx env.evm.unmarshal s msg gp = .ok (s₁, gp₁) ∧
      intrinsicGas env.evm.unmarshal msg.data msg.accessList msg.toAddr.isNone ctx.homestead
        ctx.istanbul = .ok gas ∧
      ∀ δ, Moves s₁.holdings (execute env s₁ msg (msg.gas.toNat - gas)).1.holdings δ →
        (execute env s₁ msg (msg.gas.toNat - gas)).2.2.1 ≤ msg.gas.toNat - gas →
        Moves s.holdings s'.holdings δ := by
  obtain ⟨s₁, gp₁, gas, hpre, hig, _, rfl⟩ := transitionDb_eq_ok h
  refine ⟨s₁, gp₁, gas, hpre, hig, fun δ hexec hgas => ?_⟩
  have hbuy : Moves s.holdings s₁.holdings (-(msg.gas.toNat * msg.gasPrice)) := by
    rw [(buyGas_eq_ok (preCheck_eq_ok hpre)).1]
    exact s.moves_subBalance _ _
  have htip := moves_refund_tip (execute env s₁ msg (msg.gas.toNat - gas)).1 msg gp₁
    (if ctx.london then RefundQuotientEIP3529 else RefundQuotient)
    (env.getRefund (execute env s₁ msg (msg.gas.toNat - gas)).1) ctx.coinbase
    (execute env s₁ msg (msg.gas.toNat - gas)).2.2.1 (by omega)
  exact ((hbuy.trans hexec).trans htip).congr (by omega)

/-! ### Blocks -/

theorem processStep_eq_ok {ctx : BlockContext} {env : TxEnv} {acc acc' : StateDB × Nat × List Receipt × Nat}
    {msg : Message} (h : processStep ctx env acc msg = .ok acc') :
    ∃ gp r, transitionDb ctx env acc.2.1 acc.1 msg = .ok (acc'.1, gp, r) := by
  obtain ⟨s, gp, receipts, usedGas⟩ := acc
  unfold processStep applyTransaction at h
  dsimp only at h
  cases htx : transitionDb ctx env gp s msg with
  | error e =>
    rw [htx] at h
    cases h
  | ok v =>
    obtain ⟨s', gp', r⟩ := v
    rw [htx] at h
    cases h
    exact ⟨gp', r, rfl⟩

theorem process_eq_ok {c : Crypto} {view : ChainView} {codec : EmptyCodec} {ctx : BlockContext}
    {env : TxEnv} {h : Header} {gasLimit : Nat} {msgs : List Message} {s : StateDB} {fin : Finalized}
    {receipts : List Receipt} {usedGas : Nat}
    (hp : process c view codec ctx env h gasLimit msgs s = .ok (fin, receipts, usedGas)) :
    ∃ acc, msgs.foldlM (processStep ctx env) (s, gasLimit, [], 0) = .ok acc ∧
      fin = c.finalize view codec h acc.1 := by
  unfold process at hp
  cases hf : msgs.foldlM (processStep ctx env) (s, gasLimit, [], 0) with
  | error e =>
    rw [hf] at hp
    cases hp
  | ok acc =>
    obtain ⟨s₁, gp, rs, g⟩ := acc
    rw [hf] at hp
    cases hp
    exact ⟨_, rfl, rfl⟩

/-- What the model assumes of contract code: the interpreter and contract
creation move value only and return no more gas than they are given, and a
precompiled contract returns no more gas either. The code of `SELFDESTRUCT`
moves value out of the accounts. -/
structure TxEnv.Conserving (env : TxEnv) : Prop where
  run : ∀ s caller addr code input gas value,
    Moves s.holdings (env.evm.run s caller addr code input gas value).1.holdings 0
  runGas : ∀ s caller addr code input gas value,
    (env.evm.run s caller addr code input gas value).2.2.1 ≤ gas
  create : ∀ s caller code gas value, Moves s.holdings (env.create s caller code gas value).1.holdings 0
  createGas : ∀ s caller code gas value, (env.create s caller code gas value).2.2.1 ≤ gas
  precompiledGas : ∀ addr input gas, (env.evm.runPrecompiled addr input gas).2.1 ≤ gas

section Conserving

variable {env : TxEnv} (henv : env.Conserving)
include henv

theorem moves_execute (s : StateDB) (msg : Message) (gas : Nat) :
    Moves s.holdings (execute env s msg gas).1.holdings 0 ∧ (execute env s msg gas).2.2.1 ≤ gas := by
  unfold execute
  split
  · exact ⟨henv.create _ _ _ _ _, henv.createGas _ _ _ _ _⟩
  · rename_i toAddr _
    -- the nonce moves nothing, and the call moves what the interpreter moves
    have hn := s.moves_setNonce msg.fromAddr (s.getNonce msg.fromAddr + 1)
    obtain ⟨t, ht, hcall⟩ := env.evm.call_cases (s.setNonce msg.fromAddr (s.getNonce msg.fromAddr + 1))
      msg.fromAddr toAddr msg.data gas msg.value
    refine ⟨?_, env.evm.call_gas_le _ henv.runGas henv.precompiledGas _ _ _ _ _⟩
    rcases hcall with hc | hc
    · rw [hc]
      exact hn.trans ht
    · rw [hc]
      exact ((hn.trans ht).trans (henv.run _ _ _ _ _ _ _)).congr rfl

theorem moves_processStep {ctx : BlockContext} {acc acc' : StateDB × Nat × List Receipt × Nat}
    {msg : Message} (h : processStep ctx env acc msg = .ok acc') :
    Moves acc.1.holdings acc'.1.holdings 0 := by
  obtain ⟨gp, r, htx⟩ := processStep_eq_ok h
  obtain ⟨s₁, _, gas, _, _, hmoves⟩ := moves_transitionDb htx
  exact hmoves 0 (moves_execute henv s₁ msg _).1 (moves_execute henv s₁ msg _).2

theorem moves_processLoop {ctx : BlockContext} {msgs : List Message}
    {acc acc' : StateDB × Nat × List Receipt × Nat}
    (h : msgs.foldlM (processStep ctx env) acc = .ok acc') : Moves acc.1.holdings acc'.1.holdings 0 :=
  Fold.foldlM_except_induction (fun b => Moves acc.1.holdings b.1.holdings 0) _ msgs (Moves.refl _)
    (fun _ _ _ _ hb hstep => (hb.trans (moves_processStep henv hstep)).congr rfl) h

end Conserving

/-- ERB is conserved by every block whose contract code moves value only:
after `Process` and `Finalize`, the accounts hold what they held before, plus
`rewardAmount` for every entry of the list `Finalize` passes to
`CreateNFTByOfficial16`. The sums run over any finite set of accounts that
holds the ones the block touched. -/
theorem process_conserves_erb (c : Crypto) (view : ChainView) (codec : EmptyCodec) (ctx : BlockContext)
    (env : TxEnv) (h : Header) (gasLimit : Nat) (msgs : List Message) {s s' : StateDB}
    {fin : Finalized} {receipts : List Receipt} {usedGas : Nat} (henv : env.Conserving)
    (hp : process c view codec ctx env h gasLimit msgs s = .ok (fin, receipts, usedGas))
    (hfin : fin = .done s' ∨ fin = .stopped s') :
    ∃ T : Finset Address, ∀ U : Finset Address, T ⊆ U →
      ∑ a ∈ U, s'.holdings a =
        ∑ a ∈ U, s.holdings a + (c.finalizeValidatorAddr view h).length * view.rewardAmount := by
  obtain ⟨acc, hloop, rfl⟩ := process_eq_ok hp
  have htxs := moves_processLoop henv hloop
  have hfinal := c.moves_finalize view codec h hfin
  exact (htxs.trans hfinal).congr (zero_add _)

/-! A block at height 2 after London, sealed by `0x0a`, whose one transaction
stakes `StakerBase` of `0x0b` on `0x0a` at the base fee of one gwei, and whose
finalisation mints the reward of `0x0a`. -/

/-- The transactions of the staking fixtures at height `n`: the staking EVM at
that block, a contract creation that returns at once, and no refund. -/
def stakeTxEnv (n : Nat) : TxEnv where
  evm := { stakingEvm with blockNumber := n }
  create s _ _ gas _ := (s, [], gas, none)
  getRefund _ := 0

theorem stakeTxEnv_conserving (n : Nat) : (stakeTxEnv n).Conserving :=
  ⟨fun _ _ _ _ _ _ _ => Moves.refl _, fun _ _ _ _ _ _ _ => le_rfl, fun _ _ _ _ _ => Moves.refl _,
    fun _ _ _ _ _ => le_rfl, fun _ _ _ => Nat.zero_le _⟩

/-- `0x0b` stakes `StakerBase` on `0x0a`, at the base fee of one gwei. -/
def stakeOnRewarded : Message where
  fromAddr := 11
  toAddr := some 10
  nonce := 0
  gas := 100000
  gasPrice := 10 ^ 9
  gasFeeCap := 10 ^ 9
  gasTipCap := 0
  value := StakerBase.toNat
  data := Wormholes.input { type := 3 }

def rewardContext : BlockContext where
  coinbase := 10
  homestead := true
  istanbul := true
  london := true
  noBaseFee := false
  baseFee := 10 ^ 9

def rewardBlock : Header where
  parentHash := 0
  coinbase := 10
  root := 0
  difficulty := some 1
  number := 2
  time := 0
  extra := List.replicate IstanbulExtraVanity 0
  mixDigest := 0
  nonce := 0

/-- Signature recovery that gives `0x0a` for every seal; the extra data names
`0x0a` as the rewarded validator, with one reward seal. -/
def rewardCrypto : Crypto where
  decodeExtra _ := .ok { validatorAddr := [10], rewardSeal := [[]] }
  hash _ := 0
  sigHash _ := 0
  getSignatureAddress _ _ := .ok 10

def rewardView : ChainView where
  random11 := .ok [10]
  parentValidators := .ok []
  randomDrop := .ok 0
  preHeader := .ok { rewardBlock with number := 1 }
  rewardAmount := 100
  evilValidators := []

def blockOneCodec : EmptyCodec where
  fromPayload _ := .error ErrInvalidSignature
  payloadNoSig _ := []
  decodeSignatureData _ := .error ErrInvalidSignature

/-- On the reward genesis the block pays gas to its coinbase, moves the stake
into the pledged balance of `0x0a`, and mints one reward of `100`: the accounts
end with `100` more. -/
theorem process_conserves_erb_on_reward_block :
    (rewardCrypto.finalizeValidatorAddr rewardView rewardBlock).length * rewardView.rewardAmount = 100 ∧
      ∃ s' receipts usedGas, process rewardCrypto rewardView blockOneCodec rewardContext (stakeTxEnv 2)
          rewardBlock 30000000 [stakeOnRewarded] rewardGenesis = .ok (.done s', receipts, usedGas) ∧
        ∃ T : Finset Address, ∀ U : Finset Address, T ⊆ U →
          ∑ a ∈ U, s'.holdings a = ∑ a ∈ U, rewardGenesis.holdings a +
            (rewardCrypto.finalizeValidatorAddr rewardView rewardBlock).length * rewardView.rewardAmount := by
  obtain ⟨s', receipts, usedGas, hp⟩ : ∃ s' receipts usedGas, process rewardCrypto rewardView blockOneCodec
      rewardContext (stakeTxEnv 2) rewardBlock 30000000 [stakeOnRewarded] rewardGenesis =
        .ok (.done s', receipts, usedGas) := ⟨_, _, _, by with_unfolding_all rfl⟩
  exact ⟨by decide +kernel, s', receipts, usedGas, hp, process_conserves_erb rewardCrypto rewardView blockOneCodec
    rewardContext (stakeTxEnv 2) rewardBlock 30000000 [stakeOnRewarded] (stakeTxEnv_conserving 2) hp (.inl rfl)⟩

/-! ### Self-destruction

`SELFDESTRUCT` with the contract itself as beneficiary credits the contract
with its own balance, and `Suicide` then clears the balance: the balance is
gone from every account. -/

theorem moves_opSuicide_self (s : StateDB) (c : Address) :
    Moves s.holdings (opSuicide s c c).holdings (-s.getBalance c) := by
  have hacc : (s.addBalance c (s.getBalance c)).accounts c =
      some ((s.accountObject c).addBalance (s.getBalance c)) := by
    rw [StateDB.addBalance, StateDB.updateAccount, StateDB.accounts_setAccount, if_pos rfl]
  have h : (opSuicide s c c).holdings = fun b => s.holdings b + if b = c then -s.getBalance c else 0 := by
    funext b
    unfold opSuicide StateDB.suicide
    dsimp only
    rw [hacc]
    dsimp only
    unfold StateDB.holdings StateDB.getPledgedBalance
    rw [StateDB.getBalance_setAccount, StateDB.worm_setAccount]
    split_ifs with hb
    · subst hb
      simp
    · simp [StateDB.addBalance, hb]
  rw [h]
  exact Moves.add_single _ c _

def selfDestructSender : Address := 16
def selfDestructContract : Address := 32
def blockOneCoinbase : Address := 48

/-- The interpreter on the contract `ADDRESS SELFDESTRUCT` (bytes `0x30 0xff`):
`ADDRESS` pushes the contract's own address for 2 gas, and `SELFDESTRUCT`
destroys the contract in its own favour for 5000. Other code returns at once. -/
def selfDestructRun (s : StateDB) (_caller addr : Address) (code _input : List UInt8)
    (gas _value : Nat) : StateDB × List UInt8 × Nat × Option Error :=
  if code = [0x30, 0xff] then
    if 5002 ≤ gas then (opSuicide s addr addr, [], gas - 5002, none) else (s, [], 0, some ⟨"out of gas"⟩)
  else (s, [], gas, none)

def selfDestructEnv : TxEnv := { stakeTxEnv 1 with evm := { (stakeTxEnv 1).evm with run := selfDestructRun } }

/-- A sender with one ERB for gas, and a contract holding one unit whose code
is `ADDRESS SELFDESTRUCT`. -/
def selfDestructState : StateDB where
  accounts a :=
    if a = selfDestructSender then some { balance := 10 ^ 18, worm := some {} }
    else if a = selfDestructContract then some { balance := 1, code := [0x30, 0xff], worm := some {} }
    else none

/-- A call of the contract, at the base fee of one gwei. -/
def selfDestructCall : Message where
  fromAddr := selfDestructSender
  toAddr := some selfDestructContract
  nonce := 0
  gas := 100000
  gasPrice := 10 ^ 9
  gasFeeCap := 10 ^ 9
  gasTipCap := 0
  value := 0
  data := []

def blockOneContext : BlockContext where
  coinbase := blockOneCoinbase
  homestead := true
  istanbul := true
  london := true
  noBaseFee := false
  baseFee := 10 ^ 9

/-- A normal block at height 1, whose extra data decodes to no validators. -/
def blockOne : Header where
  parentHash := 0
  coinbase := blockOneCoinbase
  root := 0
  difficulty := some 1
  number := 1
  time := 0
  extra := List.replicate IstanbulExtraVanity 0
  mixDigest := 0
  nonce := 0

def blockOneCrypto : Crypto where
  decodeExtra _ := .ok {}
  hash _ := 0
  sigHash _ := 0
  getSignatureAddress _ _ := .error ErrInvalidSignature

def blockOneView : ChainView where
  random11 := .ok []
  parentValidators := .ok []
  randomDrop := .ok 0
  preHeader := .error ErrUnknownBlock
  rewardAmount := 1
  evilValidators := []

/-- A block whose one call runs the contract's code: the contract destroys
itself in its own favour, and its unit is gone, though the block mints
nothing. -/
theorem process_selfDestruct_burns :
    ∃ s' receipts usedGas, process blockOneCrypto blockOneView blockOneCodec blockOneContext
        selfDestructEnv blockOne 30000000 [selfDestructCall] selfDestructState =
          .ok (.done s', receipts, usedGas) ∧
      ¬ ∃ T : Finset Address, ∀ U : Finset Address, T ⊆ U →
        ∑ a ∈ U, s'.holdings a = ∑ a ∈ U, selfDestructState.holdings a +
          (blockOneCrypto.finalizeValidatorAddr blockOneView blockOne).length *
            blockOneView.rewardAmount := by
  obtain ⟨s', receipts, usedGas, hp⟩ : ∃ s' receipts usedGas, process blockOneCrypto blockOneView
      blockOneCodec blockOneContext selfDestructEnv blockOne 30000000 [selfDestructCall]
        selfDestructState = .ok (.done s', receipts, usedGas) := ⟨_, _, _, rfl⟩
  refine ⟨s', receipts, usedGas, hp, fun hsum => ?_⟩
  obtain ⟨acc, hloop, hfin⟩ := process_eq_ok hp
  simp only [List.foldlM_cons, List.foldlM_nil, bind_pure] at hloop
  obtain ⟨_, _, htx⟩ := processStep_eq_ok hloop
  obtain ⟨s₁, _, gas, hpre, hig, hmoves⟩ := moves_transitionDb htx
  have hgas : intrinsicGas selfDestructEnv.evm.unmarshal selfDestructCall.data
      selfDestructCall.accessList selfDestructCall.toAddr.isNone blockOneContext.homestead
      blockOneContext.istanbul = .ok 21000 := rfl
  rw [hgas] at hig
  cases hig
  obtain ⟨rfl, -⟩ := buyGas_eq_ok (preCheck_eq_ok hpre)
  -- the call runs the contract, which destroys itself in its own favour
  set t := transfer ((selfDestructState.subBalance selfDestructSender
    (selfDestructCall.gas.toNat * selfDestructCall.gasPrice)).setNonce selfDestructSender 1)
    selfDestructSender selfDestructContract 0
  have hrun : (execute selfDestructEnv (selfDestructState.subBalance selfDestructSender
      (selfDestructCall.gas.toNat * selfDestructCall.gasPrice)) selfDestructCall
      (selfDestructCall.gas.toNat - 21000)).1 = opSuicide t selfDestructContract selfDestructContract :=
    rfl
  have ht : Moves (selfDestructState.subBalance selfDestructSender
      (selfDestructCall.gas.toNat * selfDestructCall.gasPrice)).holdings t.holdings 0 :=
    ((StateDB.moves_setNonce _ _ _).trans (StateDB.moves_transfer _ _ _ _)).congr rfl
  have hbal : t.getBalance selfDestructContract = 1 := rfl
  have hexec := ht.trans (moves_opSuicide_self t selfDestructContract)
  rw [hbal, ← hrun] at hexec
  -- the transaction burns the unit, and finalisation mints nothing to make up for it
  have htxs := hmoves _ hexec (by decide)
  have hfinal := blockOneCrypto.moves_finalize blockOneView blockOneCodec blockOne (.inl hfin.symm)
  have := Moves.unique (htxs.trans hfinal) hsum
  omega

end Erbie
