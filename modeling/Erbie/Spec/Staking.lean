import Erbie.Spec.Common
import Erbie.Spec.State

/-! Staking, as `core/state/statedb.go` and `core/evm.go` do it. A stake of
`amount` by `from` on `address` is recorded three times: in the staker
extension of `from`, in the validator extension of `address`, and in the
pledged balance of `address`. `ResetMinerBecome` then rebuilds the entry of
`address` in the validator list from its pledged balance. An unstake removes
the three records and lowers the list entry; when a validator withdraws all of
its own stake, `RevocateAllStakers` refunds every other staker of it.

The functions return the state they leave and, where the source returns an
`error`, that error; a function that fails has still made the writes it made
before the failing check. -/

namespace Erbie
namespace StateDB

/-- `StakerPledge(from, address, amount, blocknumber, wh)`; `proxyAddress` is
`wh.ProxyAddress`. The source's only error is a nil object, which
`GetOrNewAccountStateObject` never returns. -/
def stakerPledge (s : StateDB) (fromAddr address : Address) (amount : Int) (blocknumber : Nat)
    (proxyAddress : String) : StateDB :=
  let s := (s.getOrNewAccountStateObject address).getOrNewAccountStateObject fromAddr
  let newProxy := if proxyAddress = "" then zeroAddress else hexToAddress proxyAddress
  let s := s.updateAccount fromAddr (·.subBalance amount)
  let s := s.updateAccount fromAddr (·.stakerPledge address amount blocknumber)
  let s := s.updateAccount address (·.addPledgedBalance amount)
  -- a validator staking on itself also sets, or clears, its proxy
  let s := if fromAddr = address then s.updateAccount address (·.setValidatorProxy newProxy) else s
  let s := s.updateAccount address (·.addValidatorExtension fromAddr amount blocknumber)
  s.updateAccount fromAddr (·.setPledgedBlockNumber blocknumber)

/-- `ResetMinerBecome(address)`: the entry of `address` leaves the validator
list and comes back with its pledged balance when that reaches
`ValidatorBase`. -/
def resetMinerBecome (s : StateDB) (address : Address) : StateDB × Option Error :=
  let s := (s.getOrNewAccountStateObject address).getOrNewStakerStateObject ValidatorStorageAddress
  let s := s.updateValidators (ValidatorList.resetRemoveValidator · address)
  if s.getPledgedBalance address < ValidatorBase then (s, none)
  else
    let proxy := (s.worm address).validatorProxy
    -- the entry of `address` is already out, so a match is another validator's
    if proxy ≠ zeroAddress ∧ ValidatorList.exist s.validators proxy = true then
      (s, some ⟨"cannot have the same proxy"⟩)
    else
      let s := if s.getValidatorCoefficient address = 0 then
          s.addValidatorCoefficient address VALIDATOR_COEFFICIENT
        else s
      (s.updateValidators
        (ValidatorList.setValidatorAmount · address (s.getPledgedBalance address) proxy), none)

/-- The four writes every branch of `NewCancelStakerPledge` ends with. -/
def removePledge (s : StateDB) (fromAddr address : Address) (amount : Int) : StateDB :=
  let s := s.updateAccount fromAddr (·.removeStakerPledge address amount)
  let s := s.updateAccount address (·.removeValidatorExtension fromAddr amount)
  let s := s.updateAccount address (·.subPledgedBalance amount)
  s.updateValidators (ValidatorList.removeValidator · address amount)

/-- One round of the loop of `RevocateAllStakers`: the staker gets its stake
on `addr` back. -/
def revocateStaker (addr : Address) (s : StateDB) (staker : ValidatorExtension) : StateDB :=
  let s := s.updateAccount staker.addr (·.removeStakerPledge addr staker.balance)
  let s := s.updateAccount staker.addr (·.addBalance staker.balance)
  let s := s.updateAccount addr (·.subPledgedBalance staker.balance)
  s.updateValidators (ValidatorList.removeValidator · addr staker.balance)

/-- `RevocateAllStakers(addr, blocknumber)`. The loop runs over the validator
extension as it was on entry, and the extension is emptied after it. -/
def revocateAllStakers (s : StateDB) (addr : Address) (_blocknumber : Nat) : StateDB :=
  let s := s.getOrNewAccountStateObject addr
  let stakers := (s.worm addr).validatorExtension
  let s := s.getOrNewStakerStateObject ValidatorStorageAddress
  let s := stakers.foldl (revocateStaker addr) s
  s.updateAccount addr (·.setValidatorExtension [])

/-- The punishment of a validator that unstakes from itself: a tenth of an
ERB for every point its coefficient lacks, nothing for a coefficient of zero. -/
def punishErb (coefficient : UInt8) : Int :=
  if coefficient ≠ 0 then 70 - (coefficient.toNat : Int) else 0

/-- `NewCancelStakerPledge(from, address, amount, blocknumber)`. -/
def newCancelStakerPledge (s : StateDB) (fromAddr address : Address) (amount : Int)
    (blocknumber : Nat) : StateDB × Option Error :=
  let s := (s.getOrNewAccountStateObject address).getOrNewAccountStateObject fromAddr
  let s := s.getOrNewStakerStateObject ValidatorStorageAddress
  if fromAddr = address then
    let punish := punishErb (s.getValidatorCoefficient address)
    if 0 < punish ∧ amount < punish * 10 ^ 17 then
      (s, some ⟨"cancel pledge for insufficient punish amount"⟩)
    else
      let s :=
        if 0 < punish then
          let s := s.updateAccount fromAddr (·.addBalance (amount - punish * 10 ^ 17))
          let s := s.updateAccount zeroAddress (·.addBalance (punish * 10 ^ 17))
          s.updateAccount fromAddr (·.setCoefficient VALIDATOR_COEFFICIENT)
        else s.updateAccount fromAddr (·.addBalance amount)
      let pledgedAmount := BalanceList.balanceOf (s.worm fromAddr).stakerExtension fromAddr
      if pledgedAmount = amount then
        -- withdraw all pledged amount, and refund the other stakers
        (revocateAllStakers (s.removePledge fromAddr address amount) address blocknumber, none)
      else (s.removePledge fromAddr address amount, none)
  else
    let s := s.updateAccount fromAddr (·.addBalance amount)
    (s.removePledge fromAddr address amount, none)

/-- `RecoverValidatorCoefficient(address)` (`core/evm.go`): the validator buys
its coefficient back to `VALIDATOR_COEFFICIENT`, paying the zero address.
`VALIDATOR_COEFFICIENT - coe` is a `uint8` subtraction. -/
def recoverValidatorCoefficient (s : StateDB) (address : Address) : StateDB × Option Error :=
  let s := s.getOrNewAccountStateObject address
  if s.getPledgedBalance address ≤ 0 then (s, some ⟨"not a validator"⟩)
  else
    let coe := s.getValidatorCoefficient address
    if coe = 0 then (s, some ⟨"Get validator coefficient error"⟩)
    else
      let needRecoverCoe : UInt8 := VALIDATOR_COEFFICIENT - coe
      if 0 < needRecoverCoe then
        let recoverAmount : Int := needRecoverCoe.toNat * 10 ^ 17
        if s.getBalance address < recoverAmount then
          (s, some ⟨"insufficient balance for transfer"⟩)
        else
          let s := s.subBalance address recoverAmount
          let s := s.addBalance zeroAddress recoverAmount
          (s.addValidatorCoefficient address needRecoverCoe, none)
      else (s, none)

/-! ### The staking writes, field by field

One lemma per function says what it writes: the staking records of the
accounts it touches, the validator list and the balances. -/

section Spec

variable (s : StateDB)

theorem worm_stakerPledge (fromAddr address b : Address) (amount : Int) (blocknumber : Nat)
    (proxyAddress : String) :
    (s.stakerPledge fromAddr address amount blocknumber proxyAddress).worm b =
      { s.worm b with
        stakerExtension := if b = fromAddr then
            addStakerPledge (s.worm b).stakerExtension address amount blocknumber
          else (s.worm b).stakerExtension
        validatorExtension := if b = address then
            addValidatorPledge (s.worm b).validatorExtension fromAddr amount blocknumber
          else (s.worm b).validatorExtension
        pledgedBalance := if b = address then (s.worm b).pledgedBalance + amount
          else (s.worm b).pledgedBalance
        pledgedBlockNumber := if b = fromAddr then blocknumber else (s.worm b).pledgedBlockNumber
        validatorProxy := if b = address ∧ fromAddr = address then
            (if proxyAddress = "" then zeroAddress else hexToAddress proxyAddress)
          else (s.worm b).validatorProxy } := by
  by_cases hfa : fromAddr = address
  · subst hfa
    by_cases hb : b = fromAddr
    · subst hb
      simp [stakerPledge, Account.stakerPledge, Account.addPledgedBalance, Account.setValidatorProxy,
        Account.addValidatorExtension, Account.setPledgedBlockNumber]
    · simp [stakerPledge, Account.stakerPledge, Account.addPledgedBalance, Account.setValidatorProxy,
        Account.addValidatorExtension, Account.setPledgedBlockNumber, hb]
  · by_cases hbf : b = fromAddr
    · subst hbf
      simp [stakerPledge, Account.stakerPledge, Account.addPledgedBalance,
        Account.addValidatorExtension, Account.setPledgedBlockNumber, hfa]
    · by_cases hba : b = address
      · subst hba
        simp [stakerPledge, Account.stakerPledge, Account.addPledgedBalance,
          Account.addValidatorExtension, Account.setPledgedBlockNumber, hbf, hfa]
      · simp [stakerPledge, Account.stakerPledge, Account.addPledgedBalance,
          Account.addValidatorExtension, Account.setPledgedBlockNumber, hfa, hbf, hba]

@[simp] theorem validators_stakerPledge (fromAddr address : Address) (amount : Int)
    (blocknumber : Nat) (proxyAddress : String) :
    (s.stakerPledge fromAddr address amount blocknumber proxyAddress).validators = s.validators := by
  by_cases hfa : fromAddr = address <;>
    simp [stakerPledge, Account.stakerPledge, Account.addPledgedBalance, Account.setValidatorProxy,
      Account.addValidatorExtension, Account.setPledgedBlockNumber, hfa]

@[simp] theorem getBalance_stakerPledge (fromAddr address b : Address) (amount : Int)
    (blocknumber : Nat) (proxyAddress : String) :
    (s.stakerPledge fromAddr address amount blocknumber proxyAddress).getBalance b =
      if b = fromAddr then s.getBalance fromAddr - amount else s.getBalance b := by
  by_cases hfa : fromAddr = address <;>
    simp [stakerPledge, Account.stakerPledge, Account.addPledgedBalance, Account.setValidatorProxy,
      Account.addValidatorExtension, Account.setPledgedBlockNumber, hfa]

@[simp] theorem getCode_stakerPledge (fromAddr address b : Address) (amount : Int)
    (blocknumber : Nat) (proxyAddress : String) :
    (s.stakerPledge fromAddr address amount blocknumber proxyAddress).getCode b = s.getCode b := by
  unfold stakerPledge
  dsimp only
  -- every method the stake applies keeps the code, which `rfl` sees
  split_ifs <;> repeat (first | rw [getCode_updateAccount] | rw [getCode_getOrNewAccountStateObject])
  all_goals exact fun _ => rfl

/-- `ResetMinerBecome` writes the coefficient of `address` and no other field
of any account's extension. -/
theorem worm_resetMinerBecome (address b : Address) :
    ∃ c, (s.resetMinerBecome address).1.worm b = { s.worm b with coefficient := c } := by
  unfold resetMinerBecome
  dsimp only
  split_ifs
  · exact ⟨(s.worm b).coefficient, by simp⟩
  · exact ⟨(s.worm b).coefficient, by simp⟩
  · -- a validator without a coefficient gets the full one
    by_cases hb : b = address
    · subst hb
      exact ⟨VALIDATOR_COEFFICIENT, by
        simp [addValidatorCoefficient, Account.addCoefficient, Account.setCoefficient]⟩
    · exact ⟨(s.worm b).coefficient, by
        simp [addValidatorCoefficient, Account.addCoefficient, Account.setCoefficient, hb]⟩
  · exact ⟨(s.worm b).coefficient, by simp⟩

/-- The entry of `address` leaves the list, and comes back with the pledged
balance when that reaches `ValidatorBase` and its proxy is no other
validator's. -/
theorem validators_resetMinerBecome (address : Address) :
    (s.resetMinerBecome address).1.validators =
      if s.getPledgedBalance address < ValidatorBase then
        ValidatorList.resetRemoveValidator s.validators address
      else if (s.worm address).validatorProxy ≠ zeroAddress ∧
          ValidatorList.exist (ValidatorList.resetRemoveValidator s.validators address)
            (s.worm address).validatorProxy = true then
        ValidatorList.resetRemoveValidator s.validators address
      else
        ValidatorList.setValidatorAmount (ValidatorList.resetRemoveValidator s.validators address)
          address (s.getPledgedBalance address) (s.worm address).validatorProxy := by
  unfold resetMinerBecome
  dsimp only
  simp only [getPledgedBalance, worm_updateValidators, worm_getOrNewStakerStateObject,
    worm_getOrNewAccountStateObject, validators_updateValidators, validators_getOrNewStakerStateObject,
    validators_getOrNewAccountStateObject]
  split_ifs <;> simp [*, addValidatorCoefficient, Account.addCoefficient, Account.setCoefficient]

@[simp] theorem getBalance_resetMinerBecome (address b : Address) :
    (s.resetMinerBecome address).1.getBalance b = s.getBalance b := by
  unfold resetMinerBecome
  dsimp only
  split_ifs <;> simp [addValidatorCoefficient, Account.addCoefficient, Account.setCoefficient]

@[simp] theorem getCode_resetMinerBecome (address b : Address) :
    (s.resetMinerBecome address).1.getCode b = s.getCode b := by
  unfold resetMinerBecome
  dsimp only
  split_ifs <;> repeat
    (first
      | rw [getCode_updateAccount]
      | rw [getCode_getOrNewAccountStateObject]
      | rw [getCode_updateValidators]
      | rw [getCode_getOrNewStakerStateObject]
      | rw [addValidatorCoefficient])
  all_goals exact fun _ => rfl

theorem worm_removePledge (fromAddr address b : Address) (amount : Int) :
    (s.removePledge fromAddr address amount).worm b =
      { s.worm b with
        stakerExtension := if b = fromAddr then
            Erbie.removeStakerPledge (s.worm b).stakerExtension address amount
          else (s.worm b).stakerExtension
        validatorExtension := if b = address then
            removeValidatorPledge (s.worm b).validatorExtension fromAddr amount
          else (s.worm b).validatorExtension
        pledgedBalance := if b = address then (s.worm b).pledgedBalance - amount
          else (s.worm b).pledgedBalance } := by
  by_cases hbf : b = fromAddr
  · subst hbf
    by_cases hba : b = address
    · subst hba
      simp [removePledge, Account.removeStakerPledge, Account.removeValidatorExtension,
        Account.subPledgedBalance]
    · simp [removePledge, Account.removeStakerPledge, Account.removeValidatorExtension,
        Account.subPledgedBalance, hba]
  · by_cases hba : b = address
    · subst hba
      simp [removePledge, Account.removeStakerPledge, Account.removeValidatorExtension,
        Account.subPledgedBalance, hbf]
    · simp [removePledge, Account.removeStakerPledge, Account.removeValidatorExtension,
        Account.subPledgedBalance, hbf, hba]

@[simp] theorem validators_removePledge (fromAddr address : Address) (amount : Int) :
    (s.removePledge fromAddr address amount).validators =
      ValidatorList.removeValidator s.validators address amount := by
  simp [removePledge, Account.removeStakerPledge, Account.removeValidatorExtension,
    Account.subPledgedBalance]

@[simp] theorem getBalance_removePledge (fromAddr address b : Address) (amount : Int) :
    (s.removePledge fromAddr address amount).getBalance b = s.getBalance b := by
  simp [removePledge, Account.removeStakerPledge, Account.removeValidatorExtension,
    Account.subPledgedBalance]

theorem worm_revocateStaker (addr b : Address) (staker : ValidatorExtension) :
    (revocateStaker addr s staker).worm b =
      { s.worm b with
        stakerExtension := if b = staker.addr then
            Erbie.removeStakerPledge (s.worm b).stakerExtension addr staker.balance
          else (s.worm b).stakerExtension
        pledgedBalance := if b = addr then (s.worm b).pledgedBalance - staker.balance
          else (s.worm b).pledgedBalance } := by
  obtain ⟨sa, sb, sn⟩ := staker
  by_cases hbs : b = sa
  · subst hbs
    by_cases hba : b = addr
    · subst hba
      simp [revocateStaker, Account.removeStakerPledge, Account.subPledgedBalance]
    · simp [revocateStaker, Account.removeStakerPledge, Account.subPledgedBalance, hba]
  · by_cases hba : b = addr
    · subst hba
      simp [revocateStaker, Account.removeStakerPledge, Account.subPledgedBalance, hbs]
    · simp [revocateStaker, Account.removeStakerPledge, Account.subPledgedBalance, hbs, hba]

@[simp] theorem validators_revocateStaker (addr : Address) (staker : ValidatorExtension) :
    (revocateStaker addr s staker).validators =
      ValidatorList.removeValidator s.validators addr staker.balance := by
  simp [revocateStaker, Account.removeStakerPledge, Account.subPledgedBalance]

@[simp] theorem getBalance_revocateStaker (addr b : Address) (staker : ValidatorExtension) :
    (revocateStaker addr s staker).getBalance b =
      if b = staker.addr then s.getBalance staker.addr + staker.balance else s.getBalance b := by
  simp [revocateStaker, Account.removeStakerPledge, Account.subPledgedBalance]

end Spec

end StateDB
end Erbie
