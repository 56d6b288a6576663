import Erbie.Proofs.Conservation
import Erbie.Spec.TxPool

/-! The pool's admission rules against the chain's. For a stake, the pool asks
that the target already holds `StakerBase` of stakes, unless the sender
stakes on itself; execution never reads what the target holds. `HandleCSBT`
checks only the sender's own stake on the target and its balance, and
`ResetMinerBecome` fails only for a target that reaches `ValidatorBase` with a
proxy another validator holds. So a first stake of `StakerBase` on an
address that nobody backs passes execution with no error, while every pool
rejects it.

The pool's checks also read `*tx.To()` for an Erbie stake or unstake, which
panics for a transaction that creates a contract: `validateTx` panics on
exactly those that pass the checks before the funds check. -/

namespace Erbie

/-- `ResetMinerBecome` on an address below `ValidatorBase` only takes it off
the list, and never fails. -/
theorem StateDB.resetMinerBecome_of_lt (s : StateDB) {a : Address} (h : s.getPledgedBalance a < ValidatorBase) :
    (s.resetMinerBecome a).2 = none := by
  unfold resetMinerBecome
  dsimp only
  rw [if_pos]
  simpa [getPledgedBalance] using h

/-- A stake of at least `StakerBase` that the sender can pay, after which the
target stays below `ValidatorBase`, passes `HandleCSBT`, whatever the target
held before. -/
theorem EVM.handleCSBT_stake_ok (evm : EVM) (s : StateDB) {caller addr : Address} {wh : Wormholes}
    (h3 : wh.type = 3) {value : Nat} (hstake : StakerBase ≤ (value : Int)) (hpay : (value : Int) ≤ s.getBalance caller)
    (hvb : s.getPledgedBalance addr + value < ValidatorBase) :
    (evm.handleCSBT s caller addr wh value).2 = none := by
  have hcheck : ¬((s.getStakerPledged caller addr).balance < StakerBase ∧ (value : Int) < StakerBase) :=
    fun h => absurd h.2 (not_lt.mpr hstake)
  rw [evm.handleCSBT_stake_eq s caller addr wh value h3 hcheck hpay]
  refine StateDB.resetMinerBecome_of_lt _ ?_
  rw [StateDB.getPledgedBalance, StateDB.worm_stakerPledge, if_pos rfl, StateDB.worm_getOrNewAccountStateObject]
  exact hvb

theorem Validated.ite_rejected_ne {c : Prop} [Decidable c] {e : Error} {x : Validated} (hx : x ≠ .accepted) :
    (if c then .rejected e else x) ≠ .accepted := by
  by_cases hc : c
  · rw [if_pos hc]
    exact Validated.noConfusion
  · rw [if_neg hc]
    exact hx

/-- A check that rejects, or passes on, panics exactly when what follows does. -/
@[simp] theorem Validated.ite_rejected_eq_panic {c : Prop} [Decidable c] {e : Error} {x : Validated} :
    (if c then .rejected e else x) = .panic ↔ ¬c ∧ x = .panic := by
  by_cases hc : c <;> simp [hc]

namespace TxPool

variable (pool : TxPool) {tx : Transaction} {fromAddr toAddr : Address} {wh : Wormholes}

/-- The checks of `validateTx` before the funds check pass, for the sender
`fromAddr` that the signer recovers. -/
def Prechecks (tx : Transaction) (isLocal : Bool) (fromAddr : Address) : Prop :=
  pool.sender tx = some fromAddr ∧ ¬(!pool.eip2718 ∧ tx.txType ≠ LegacyTxType) ∧
    ¬(!pool.eip1559 ∧ tx.txType = DynamicFeeTxType) ∧ tx.size ≤ txMaxSize ∧ 0 ≤ tx.value ∧
    tx.gas ≤ pool.currentMaxGas ∧ tx.gasFeeCap < 2 ^ 256 ∧ tx.gasTipCap < 2 ^ 256 ∧ tx.gasTipCap ≤ tx.gasFeeCap ∧
    ¬(!isLocal ∧ tx.gasTipCap < pool.gasPrice) ∧ pool.currentState.getNonce fromAddr ≤ tx.nonce

instance (tx : Transaction) (isLocal : Bool) (fromAddr : Address) : Decidable (pool.Prechecks tx isLocal fromAddr) := by
  unfold Prechecks
  infer_instance

/-- The funds check panics on a stake that creates a contract, and on an
unstake that creates a contract once the sender can pay its gas. -/
theorem validateFunds_eq_panic :
    pool.validateFunds tx fromAddr = .panic ↔ tx.toAddr = none ∧ ∃ wh, getWormholes pool.unmarshal tx.data = some wh ∧
      (wh.type = 3 ∨ wh.type = 4 ∧ tx.gasFee ≤ pool.currentState.getBalance fromAddr) := by
  unfold validateFunds
  cases hwh : getWormholes pool.unmarshal tx.data with
  | none => simp
  | some wh =>
    cases hto : tx.toAddr with
    | none =>
      by_cases h3 : wh.type = 3
      · simp [h3]
      · by_cases h4 : wh.type = 4
        · simp [h4]
        · simp [h3, h4]
    | some toAddr =>
      simp only [Option.some.injEq, reduceCtorEq, false_and, iff_false]
      split_ifs <;> simp

/-- `validateTx` panics only in its funds check, and only after every check
before it passes. -/
theorem validateTx_eq_panic (isLocal : Bool) :
    pool.validateTx tx isLocal = .panic ↔ ∃ fromAddr, pool.Prechecks tx isLocal fromAddr ∧
      pool.validateFunds tx fromAddr = .panic := by
  unfold validateTx Prechecks
  simp only [Validated.ite_rejected_eq_panic]
  cases hs : pool.sender tx with
  | none => simp
  | some fromAddr =>
    simp only [Validated.ite_rejected_eq_panic, Option.some.injEq, and_assoc, exists_eq_left', not_lt, not_le,
      UInt64.not_lt]
    cases hf : pool.validateFunds tx fromAddr with
    | accepted =>
      -- the intrinsic gas check after an accepted funds check rejects or accepts
      cases intrinsicGas pool.unmarshal tx.data tx.accessList tx.toAddr.isNone true pool.istanbul with
      | error err => simp only [reduceCtorEq, and_false]
      | ok intrGas => simp only [Validated.ite_rejected_eq_panic, reduceCtorEq, and_false]
    | rejected err => simp only [reduceCtorEq, and_false]
    | panic => simp only [and_true]

theorem validateFunds_stake_unbacked (hwh : getWormholes pool.unmarshal tx.data = some wh) (h3 : wh.type = 3)
    (hto : tx.toAddr = some toAddr) (hne : fromAddr ≠ toAddr)
    (hlow : pool.currentState.getPledgedBalance toAddr < StakerBase) :
    pool.validateFunds tx fromAddr = .rejected ⟨"from pledge balance not more than 700 ERB"⟩ := by
  unfold validateFunds
  rw [hwh]
  dsimp only
  rw [if_pos h3, hto]
  dsimp only
  rw [if_pos ⟨hlow, hne⟩]

/-- A transaction whose signature recovers and whose funds check fails is
rejected, by that check or by one before it. -/
theorem validateTx_ne_accepted (hsender : pool.sender tx = some fromAddr) {err : Error}
    (hfunds : pool.validateFunds tx fromAddr = .rejected err) (isLocal : Bool) :
    pool.validateTx tx isLocal ≠ .accepted := by
  unfold validateTx
  rw [hsender]
  dsimp only
  rw [hfunds]
  -- every check before the funds check rejects, or passes on
  repeat refine Validated.ite_rejected_ne ?_
  exact Validated.noConfusion

end TxPool

theorem EVM.getCode_handleCSBT_stake (evm : EVM) (s : StateDB) (caller addr : Address) {wh : Wormholes}
    (h3 : wh.type = 3) (value : Nat) (b : Address) :
    (evm.handleCSBT s caller addr wh value).1.getCode b = s.getCode b := by
  rcases evm.handleCSBT_stake_cases s caller addr wh value h3 with he | ⟨-, he⟩
  · rw [he, StateDB.getCode_getOrNewAccountStateObject]
  · rw [he, StateDB.getCode_resetMinerBecome, StateDB.getCode_stakerPledge,
      StateDB.getCode_getOrNewAccountStateObject]

/-- A stake of at least `StakerBase` from one address on another that holds
less than `StakerBase` of stakes, sent to an account that is no precompile and
has no code: when the checks of `TransitionDb` before the call pass, the
sender can still pay the stake after buying its gas and the target stays below
`ValidatorBase`, the transaction executes with no VM error, whatever the
target held; every pool rejects it on the same state. -/
theorem transitionDb_admits_stake_the_pool_rejects (ctx : BlockContext) (env : TxEnv) (pool : TxPool)
    (gp : Nat) (baseFee : Option Nat) {tx : Transaction} {fromAddr toAddr : Address} {wh : Wormholes}
    {s₁ : StateDB} {gp₁ gas : Nat} (hsender : pool.sender tx = some fromAddr)
    (hdec : env.evm.unmarshal = pool.unmarshal) (hwh : getWormholes pool.unmarshal tx.data = some wh)
    (h3 : wh.type = 3) (hto : tx.toAddr = some toAddr) (hne : fromAddr ≠ toAddr)
    (hpre : preCheck ctx env.evm.unmarshal pool.currentState (tx.asMessage fromAddr baseFee) gp = .ok (s₁, gp₁))
    (hintr : intrinsicGas env.evm.unmarshal tx.data tx.accessList false ctx.homestead ctx.istanbul = .ok gas)
    (hgas : gas ≤ tx.gas.toNat) (hrec : ¬(env.evm.noRecursion = true ∧ 0 < env.evm.depth))
    (hdepth : ¬CallCreateDepth < env.evm.depth) (hprecompile : env.evm.precompile toAddr = false)
    (hcode : pool.currentState.getCode toAddr = []) (hstake : StakerBase ≤ tx.value)
    (hpay : tx.value ≤ s₁.getBalance fromAddr) (hlow : pool.currentState.getPledgedBalance toAddr < StakerBase)
    (hvb : pool.currentState.getPledgedBalance toAddr + tx.value < ValidatorBase) (isLocal : Bool) :
    (∃ r, transitionDb ctx env gp pool.currentState (tx.asMessage fromAddr baseFee) = .ok r ∧ r.2.2.err = none) ∧
      pool.validateTx tx isLocal ≠ .accepted := by
  have hval : ((tx.value.toNat : Nat) : Int) = tx.value := Int.toNat_of_nonneg (by
    have := stakerBase_pos
    omega)
  have hwh' : getWormholes env.evm.unmarshal tx.data = some wh := hdec ▸ hwh
  -- the gas purchase and the nonce write keep the ledger, the codes and the balance the sender has left
  obtain ⟨hf₁, hcode₁⟩ := preCheck_frame hpre
  set s₂ := s₁.setNonce fromAddr (s₁.getNonce fromAddr + 1) with hs₂
  have hpay₂ : canTransfer s₂ fromAddr tx.value.toNat = true := by
    rw [canTransfer, hs₂, StateDB.getBalance_setNonce, hval]
    exact decide_eq_true hpay
  have hcheck := EVM.checkValue_of_canTransfer s₂ fromAddr toAddr (by rw [h3]; decide) hpay₂
  -- the callee is created if it is missing, which changes none of this
  set t₁ := if s₂.exist toAddr = true then s₂ else s₂.getOrNewAccountStateObject toAddr with ht₁
  have hf₃ : LedgerFrame pool.currentState t₁ :=
    (hf₁.trans (s₁.ledgerFrame_setNonce _ _)).trans (s₂.ledgerFrame_createMissing toAddr)
  have hbal₃ : t₁.getBalance fromAddr = s₁.getBalance fromAddr := by
    rw [ht₁]
    split_ifs <;> simp [hs₂]
  have hcode₃ : t₁.getCode toAddr = [] := by
    rw [ht₁]
    split_ifs <;> simp [hs₂, hcode₁, hcode]
  have hok : (env.evm.handleCSBT t₁ fromAddr toAddr wh tx.value.toNat).2 = none := by
    refine env.evm.handleCSBT_stake_ok t₁ h3 (hval ▸ hstake) (by rw [hval, hbal₃]; exact hpay) ?_
    rw [hval, hf₃.getPledgedBalance_eq]
    exact hvb
  have hcall := env.evm.call_eq_handleCSBT s₂ fromAddr toAddr tx.data (tx.gas.toNat - gas) tx.value.toNat wh s₂
    hrec hdepth hwh' hcheck hok hprecompile (by rw [env.evm.getCode_handleCSBT_stake _ _ _ h3]; exact hcode₃)
  -- an Erbie stake is no unstake, and the sender can pay it
  have hunstake : isUnstake env.evm.unmarshal tx.data = false := by
    simp [isUnstake, hwh', h3]
  obtain ⟨r, hr, herr⟩ := @transitionDb_of_checks _ _ _ _ (tx.asMessage fromAddr baseFee) _ _ _ hpre
    (by simpa [Transaction.asMessage, hto] using hintr) hgas (by simp [Transaction.asMessage, hunstake, canTransfer,
      hval, hpay])
  refine ⟨⟨r, hr, ?_⟩, pool.validateTx_ne_accepted hsender
    (pool.validateFunds_stake_unbacked hwh h3 hto hne hlow) isLocal⟩
  rw [herr]
  simp only [execute, Transaction.asMessage, hto]
  rw [hcall]

/-! A sender `0x0b` that holds `StakerBase` and gas stakes `StakerBase` on
`0x0c`, which no account holds, with a legacy transaction whose payload is the
JSON text of a type-3 `Wormholes`, at a block after London. -/

def unbackedGenesis : StateDB :=
  ⟨fun a => if a = 11 then some { balance := StakerBase + 10 ^ 18, worm := some {} } else none⟩

def stakeTx : Transaction where
  txType := LegacyTxType
  size := 120
  nonce := 0
  gas := 100000
  gasPrice := 10 ^ 9
  gasFeeCap := 10 ^ 9
  gasTipCap := 10 ^ 9
  toAddr := some 12
  value := StakerBase
  data := Wormholes.input { type := 3 }

def stakeContext : BlockContext where
  coinbase := 0
  homestead := true
  istanbul := true
  london := true
  noBaseFee := false
  baseFee := 10 ^ 9

/-- A pool at the same state, whose signer recovers `0x0b`. -/
def stakePool : TxPool where
  eip2718 := true
  eip1559 := true
  istanbul := true
  currentMaxGas := 30000000
  gasPrice := 1
  currentState := unbackedGenesis
  unmarshal := stakingEvm.unmarshal
  sender _ := some 11

/-- The transaction executes with no VM error, and the pool rejects it for
the pledge of its target. -/
theorem unbacked_stake_executes_but_is_not_admitted :
    stakePool.validateTx stakeTx false = .rejected ⟨"from pledge balance not more than 700 ERB"⟩ ∧
      (∃ r, transitionDb stakeContext (stakeTxEnv 1) 30000000 unbackedGenesis (stakeTx.asMessage 11 (some (10 ^ 9))) = .ok r ∧
        r.2.2.err = none) ∧
      stakePool.validateTx stakeTx false ≠ .accepted := by
  have hpre : preCheck stakeContext (stakeTxEnv 1).evm.unmarshal stakePool.currentState (stakeTx.asMessage 11 (some (10 ^ 9)))
      30000000 = .ok (unbackedGenesis.subBalance 11 (10 ^ 14), 29900000) := by
    with_unfolding_all rfl
  have hintr : intrinsicGas (stakeTxEnv 1).evm.unmarshal stakeTx.data stakeTx.accessList false true true =
      .ok (WormholesTx3 + 16 * 16) := by decide +kernel
  exact ⟨by decide +kernel, transitionDb_admits_stake_the_pool_rejects stakeContext (stakeTxEnv 1) stakePool 30000000
    (some (10 ^ 9)) rfl rfl (show getWormholes stakePool.unmarshal stakeTx.data = some { type := 3 } by decide +kernel) rfl
    rfl (by decide) hpre hintr (by decide) (by decide) (by decide)
    (by decide) (by decide +kernel) (by decide) (by decide +kernel) (by decide +kernel) (by decide +kernel) false⟩

/-- `validateTx` panics exactly on an Erbie stake that creates a contract, and
on an Erbie unstake that creates a contract and whose sender can pay its gas,
once the checks before the funds check pass. -/
theorem TxPool.validateTx_panics_on_erbie_contract_creation (pool : TxPool) (tx : Transaction) (isLocal : Bool) :
    pool.validateTx tx isLocal = .panic ↔ ∃ fromAddr, pool.Prechecks tx isLocal fromAddr ∧ tx.toAddr = none ∧
      ∃ wh, getWormholes pool.unmarshal tx.data = some wh ∧
        (wh.type = 3 ∨ wh.type = 4 ∧ tx.gasFee ≤ pool.currentState.getBalance fromAddr) := by
  rw [pool.validateTx_eq_panic isLocal]
  simp only [pool.validateFunds_eq_panic]

/-- The stake above, sent as a contract creation, panics the pool. -/
theorem stake_creating_a_contract_panics_the_pool :
    stakePool.validateTx { stakeTx with toAddr := none } false = .panic :=
  (stakePool.validateTx_panics_on_erbie_contract_creation _ false).mpr
    ⟨11, by decide +kernel, rfl, { type := 3 }, by decide +kernel, Or.inl rfl⟩

end Erbie
