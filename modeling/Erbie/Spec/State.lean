import Erbie.Spec.Types

/-! Accounts and the state database (`core/state`). An account carries the
fields the modelled code reads: balance, nonce and code of an Ethereum account,
and the three optional Erbie extensions `Worm` (staking), `Csbt` (NFT owner and
creator) and `Staker` (mint counters and the validator list). A `nil` pointer
extension is `none`; a `nil` `*big.Int` inside `Worm` reads as zero, as
`PledgedBalance()` does, and is zero here.

`stateObject` methods are functions `Account → Account`. The state maps every
address to its object, if any; `GetOrNewAccountStateObject`,
`GetOrNewStakerStateObject` and `GetOrNewNFTStateObject` create the object, or
the missing extension, before returning it, and so change the state even when
the caller only reads. -/

namespace Erbie

structure WormholesExtension where
  pledgedBalance : Int := 0
  pledgedBlockNumber : Nat := 0
  coefficient : UInt8 := 0
  stakerExtension : List StakerExtension := []
  validatorExtension : List ValidatorExtension := []
  validatorProxy : Address := zeroAddress
deriving DecidableEq, Repr

structure AccountCSBT where
  owner : Address := zeroAddress
  creator : Address := zeroAddress
deriving DecidableEq, Repr

structure MintDeep where
  userMint : Option Nat := none
  officialMint : Option Nat := none
deriving DecidableEq, Repr

/-- `types.Staker`, an entry of the `StakerList` kept at `StakerStorageAddress`. -/
structure Staker where
  addr : Address
  balance : Int
deriving DecidableEq, Repr

structure AccountStaker where
  mint : MintDeep := {}
  validators : List Validator := []
  csbtCreators : List Staker := []
deriving DecidableEq, Repr

structure Account where
  nonce : Nat := 0
  balance : Int := 0
  code : List UInt8 := []
  worm : Option WormholesExtension := none
  csbt : Option AccountCSBT := none
  staker : Option AccountStaker := none
deriving DecidableEq, Repr

namespace Account

def updateWorm (acc : Account) (f : WormholesExtension → WormholesExtension) : Account :=
  { acc with worm := some (f (acc.worm.getD {})) }

def addBalance (acc : Account) (amount : Int) : Account :=
  { acc with balance := acc.balance + amount }

def subBalance (acc : Account) (amount : Int) : Account :=
  { acc with balance := acc.balance - amount }

def stakerPledge (acc : Account) (addr : Address) (amount : Int) (blocknumber : Nat) : Account :=
  acc.updateWorm fun w =>
    { w with stakerExtension := addStakerPledge w.stakerExtension addr amount blocknumber }

def removeStakerPledge (acc : Account) (addr : Address) (amount : Int) : Account :=
  acc.updateWorm fun w =>
    { w with stakerExtension := Erbie.removeStakerPledge w.stakerExtension addr amount }

def addValidatorExtension (acc : Account) (addr : Address) (amount : Int)
    (blocknumber : Nat) : Account :=
  acc.updateWorm fun w =>
    { w with validatorExtension := addValidatorPledge w.validatorExtension addr amount blocknumber }

def removeValidatorExtension (acc : Account) (addr : Address) (amount : Int) : Account :=
  acc.updateWorm fun w =>
    { w with validatorExtension := removeValidatorPledge w.validatorExtension addr amount }

def setValidatorExtension (acc : Account) (l : List ValidatorExtension) : Account :=
  acc.updateWorm fun w => { w with validatorExtension := l }

def addPledgedBalance (acc : Account) (amount : Int) : Account :=
  acc.updateWorm fun w => { w with pledgedBalance := w.pledgedBalance + amount }

def subPledgedBalance (acc : Account) (amount : Int) : Account :=
  acc.updateWorm fun w => { w with pledgedBalance := w.pledgedBalance - amount }

def setPledgedBlockNumber (acc : Account) (blocknumber : Nat) : Account :=
  acc.updateWorm fun w => { w with pledgedBlockNumber := blocknumber }

def setValidatorProxy (acc : Account) (proxy : Address) : Account :=
  acc.updateWorm fun w => { w with validatorProxy := proxy }

def setCoefficient (acc : Account) (coe : UInt8) : Account :=
  acc.updateWorm fun w => { w with coefficient := coe }

/-- `AddCoefficient` ignores its argument and restores the full coefficient. -/
def addCoefficient (acc : Account) (_coe : UInt8) : Account :=
  acc.setCoefficient VALIDATOR_COEFFICIENT

/-- `SubCoefficient` never goes below one. -/
def subCoefficient (acc : Account) (coe : UInt8) : Account :=
  let cur := (acc.worm.getD {}).coefficient
  acc.setCoefficient (if cur < coe then 1 else if 1 ≤ cur - coe then cur - coe else 1)

def updateStaker (acc : Account) (f : AccountStaker → AccountStaker) : Account :=
  { acc with staker := some (f (acc.staker.getD {})) }

def setValidators (acc : Account) (vl : List Validator) : Account :=
  acc.updateStaker fun st => { st with validators := vl }

def setNFTInfo (acc : Account) (owner creator : Address) : Account :=
  { acc with csbt := some { owner := owner, creator := creator } }

/-- `ChangeNFTOwner` writes only when the owner changes. -/
def changeNFTOwner (acc : Account) (newOwner : Address) : Account :=
  let c := acc.csbt.getD {}
  if c.owner = newOwner then acc else { acc with csbt := some { c with owner := newOwner } }

def addOfficialMint (acc : Account) (amount : Nat) : Account :=
  if amount = 0 then acc
  else acc.updateStaker fun st =>
    { st with mint := { st.mint with officialMint := some (st.mint.officialMint.getD 0 + amount) } }

end Account

structure StateDB where
  accounts : Address → Option Account

namespace StateDB

/-- The state of no account. -/
def empty : StateDB := ⟨fun _ => none⟩

def exist (s : StateDB) (a : Address) : Bool := (s.accounts a).isSome

def setAccount (s : StateDB) (a : Address) (acc : Account) : StateDB :=
  ⟨Function.update s.accounts a (some acc)⟩

/-- The object `GetOrNewAccountStateObject(a)` returns. -/
def accountObject (s : StateDB) (a : Address) : Account :=
  match s.accounts a with
  | none => { worm := some {} }
  | some acc => { acc with worm := some (acc.worm.getD {}) }

/-- The object `GetOrNewStakerStateObject(a)` returns; the mint counters start
at one and at the first official NFT address on `MintDeepStorageAddress`. -/
def stakerObject (s : StateDB) (a : Address) : Account :=
  let fresh : AccountStaker :=
    if a = MintDeepStorageAddress then { mint := { userMint := some 1, officialMint := some (2 ^ 159) } }
    else {}
  match s.accounts a with
  | none => { staker := some fresh }
  | some acc => { acc with staker := some (acc.staker.getD fresh) }

/-- The object `GetOrNewNFTStateObject(a)` returns. -/
def nftObject (s : StateDB) (a : Address) : Account :=
  match s.accounts a with
  | none => { csbt := some {} }
  | some acc => { acc with csbt := some (acc.csbt.getD {}) }

def getOrNewAccountStateObject (s : StateDB) (a : Address) : StateDB :=
  s.setAccount a (s.accountObject a)

def getOrNewStakerStateObject (s : StateDB) (a : Address) : StateDB :=
  s.setAccount a (s.stakerObject a)

def getOrNewNFTStateObject (s : StateDB) (a : Address) : StateDB :=
  s.setAccount a (s.nftObject a)

/-- Apply a `stateObject` method to the object `GetOrNewAccountStateObject(a)`. -/
def updateAccount (s : StateDB) (a : Address) (f : Account → Account) : StateDB :=
  s.setAccount a (f (s.accountObject a))

/-- Apply a method to the validator list object at `ValidatorStorageAddress`. -/
def updateValidators (s : StateDB) (f : List Validator → List Validator) : StateDB :=
  let o := s.stakerObject ValidatorStorageAddress
  s.setAccount ValidatorStorageAddress (o.setValidators (f (o.staker.getD {}).validators))

/-! Reads. `worm s a` is what any `GetOrNewAccountStateObject(a)` accessor sees. -/

def worm (s : StateDB) (a : Address) : WormholesExtension :=
  ((s.accounts a).bind Account.worm).getD {}

def getBalance (s : StateDB) (a : Address) : Int :=
  ((s.accounts a).map Account.balance).getD 0

def getCode (s : StateDB) (a : Address) : List UInt8 :=
  ((s.accounts a).map Account.code).getD []

def getPledgedBalance (s : StateDB) (a : Address) : Int := (s.worm a).pledgedBalance

def getValidatorCoefficient (s : StateDB) (a : Address) : UInt8 := (s.worm a).coefficient

/-- `GetStakerPledged(from, addr)`: what `from` staked on `addr`, a zero entry
when it staked nothing. -/
def getStakerPledged (s : StateDB) (fromAddr addr : Address) : StakerExtension :=
  ((s.worm fromAddr).stakerExtension.find? (·.addr = addr)).getD ⟨zeroAddress, 0, 0⟩

def getStakerPledgedBalance (s : StateDB) (fromAddr addr : Address) : Int :=
  (s.getStakerPledged fromAddr addr).balance

/-- The validator list at `ValidatorStorageAddress`, as `GetValidators` reads it. -/
def validators (s : StateDB) (a : Address := ValidatorStorageAddress) : List Validator :=
  ((s.stakerObject a).staker.getD {}).validators

/-- The `StakerList` at `StakerStorageAddress`, as `GetStakerStorageAddress` reads it. -/
def stakers (s : StateDB) : List Staker :=
  ((s.stakerObject StakerStorageAddress).staker.getD {}).csbtCreators

def getNFTOwner16 (s : StateDB) (a : Address) : Address := ((s.nftObject a).csbt.getD {}).owner

/-! Writes through `GetOrNewAccountStateObject`. -/

def addBalance (s : StateDB) (a : Address) (amount : Int) : StateDB :=
  s.updateAccount a (·.addBalance amount)

def subBalance (s : StateDB) (a : Address) (amount : Int) : StateDB :=
  s.updateAccount a (·.subBalance amount)

def addValidatorCoefficient (s : StateDB) (a : Address) (coe : UInt8) : StateDB :=
  s.updateAccount a (·.addCoefficient coe)

def subValidatorCoefficient (s : StateDB) (a : Address) (coe : UInt8) : StateDB :=
  s.updateAccount a (·.subCoefficient coe)

end StateDB

/-! ### Reading a state after a write

Every write goes through `setAccount`, and every read is a function of
`accounts` at one address, so a read after a write is the old read at every
other address. -/

namespace Account

variable (acc : Account)

@[simp] theorem updateWorm_worm (f : WormholesExtension → WormholesExtension) :
    (acc.updateWorm f).worm = some (f (acc.worm.getD {})) := rfl

@[simp] theorem updateWorm_balance (f : WormholesExtension → WormholesExtension) :
    (acc.updateWorm f).balance = acc.balance := rfl

@[simp] theorem updateWorm_staker (f : WormholesExtension → WormholesExtension) :
    (acc.updateWorm f).staker = acc.staker := rfl

@[simp] theorem updateWorm_csbt (f : WormholesExtension → WormholesExtension) :
    (acc.updateWorm f).csbt = acc.csbt := rfl

@[simp] theorem addBalance_worm (x : Int) : (acc.addBalance x).worm = acc.worm := rfl
@[simp] theorem addBalance_balance (x : Int) : (acc.addBalance x).balance = acc.balance + x := rfl
@[simp] theorem addBalance_staker (x : Int) : (acc.addBalance x).staker = acc.staker := rfl
@[simp] theorem addBalance_csbt (x : Int) : (acc.addBalance x).csbt = acc.csbt := rfl
@[simp] theorem subBalance_worm (x : Int) : (acc.subBalance x).worm = acc.worm := rfl
@[simp] theorem subBalance_balance (x : Int) : (acc.subBalance x).balance = acc.balance - x := rfl
@[simp] theorem subBalance_staker (x : Int) : (acc.subBalance x).staker = acc.staker := rfl
@[simp] theorem subBalance_csbt (x : Int) : (acc.subBalance x).csbt = acc.csbt := rfl

@[simp] theorem updateStaker_worm (f : AccountStaker → AccountStaker) :
    (acc.updateStaker f).worm = acc.worm := rfl
@[simp] theorem updateStaker_balance (f : AccountStaker → AccountStaker) :
    (acc.updateStaker f).balance = acc.balance := rfl
@[simp] theorem setNFTInfo_worm (o c : Address) : (acc.setNFTInfo o c).worm = acc.worm := rfl
@[simp] theorem setNFTInfo_balance (o c : Address) : (acc.setNFTInfo o c).balance = acc.balance := rfl
@[simp] theorem setNFTInfo_staker (o c : Address) : (acc.setNFTInfo o c).staker = acc.staker := rfl

@[simp] theorem changeNFTOwner_worm (o : Address) : (acc.changeNFTOwner o).worm = acc.worm := by
  unfold changeNFTOwner; dsimp only; split_ifs <;> rfl
@[simp] theorem changeNFTOwner_balance (o : Address) :
    (acc.changeNFTOwner o).balance = acc.balance := by
  unfold changeNFTOwner; dsimp only; split_ifs <;> rfl
@[simp] theorem changeNFTOwner_staker (o : Address) :
    (acc.changeNFTOwner o).staker = acc.staker := by
  unfold changeNFTOwner; dsimp only; split_ifs <;> rfl

@[simp] theorem addOfficialMint_worm (n : Nat) : (acc.addOfficialMint n).worm = acc.worm := by
  unfold addOfficialMint; split_ifs <;> rfl
@[simp] theorem addOfficialMint_balance (n : Nat) :
    (acc.addOfficialMint n).balance = acc.balance := by
  unfold addOfficialMint; split_ifs <;> rfl

end Account

namespace StateDB

variable (s : StateDB)

theorem accounts_setAccount (a b : Address) (acc : Account) :
    (s.setAccount a acc).accounts b = if b = a then some acc else s.accounts b := by
  simp [setAccount, Function.update_apply]

@[simp] theorem accountObject_worm (a : Address) : (s.accountObject a).worm = some (s.worm a) := by
  unfold accountObject worm
  cases s.accounts a <;> rfl

@[simp] theorem accountObject_balance (a : Address) :
    (s.accountObject a).balance = s.getBalance a := by
  unfold accountObject getBalance
  cases s.accounts a <;> rfl

@[simp] theorem accountObject_staker (a : Address) :
    (s.accountObject a).staker = (s.accounts a).bind Account.staker := by
  unfold accountObject
  cases s.accounts a <;> rfl

@[simp] theorem accountObject_csbt (a : Address) :
    (s.accountObject a).csbt = (s.accounts a).bind Account.csbt := by
  unfold accountObject
  cases s.accounts a <;> rfl

theorem worm_setAccount (a b : Address) (acc : Account) :
    (s.setAccount a acc).worm b = if b = a then acc.worm.getD {} else s.worm b := by
  unfold worm
  rw [accounts_setAccount]
  split_ifs <;> rfl

theorem getBalance_setAccount (a b : Address) (acc : Account) :
    (s.setAccount a acc).getBalance b = if b = a then acc.balance else s.getBalance b := by
  unfold getBalance
  rw [accounts_setAccount]
  split_ifs <;> rfl

theorem exist_setAccount (a b : Address) (acc : Account) :
    (s.setAccount a acc).exist b = (b = a || s.exist b) := by
  unfold exist
  rw [accounts_setAccount]
  by_cases h : b = a <;> simp [h]

theorem validators_eq (a : Address) :
    s.validators a = (((s.accounts a).bind Account.staker).map AccountStaker.validators).getD [] := by
  unfold validators stakerObject
  cases s.accounts a with
  | none => split_ifs <;> rfl
  | some acc => split_ifs <;> cases h : acc.staker <;> simp [h]

theorem validators_setAccount (a b : Address) (acc : Account) :
    (s.setAccount a acc).validators b =
      if b = a then ((acc.staker.map AccountStaker.validators).getD []) else s.validators b := by
  rw [validators_eq, validators_eq, accounts_setAccount]
  split_ifs <;> rfl

/-! Creating an object changes no read: the fresh object reads as the defaults
that the reads return for a missing one. -/

theorem stakerObject_worm (a : Address) :
    (s.stakerObject a).worm = (s.accounts a).bind Account.worm := by
  unfold stakerObject
  cases s.accounts a <;> rfl

theorem stakerObject_staker_isSome (a : Address) : (s.stakerObject a).staker.isSome := by
  unfold stakerObject
  cases s.accounts a <;> rfl

@[simp] theorem worm_getOrNewAccountStateObject (a b : Address) :
    (s.getOrNewAccountStateObject a).worm b = s.worm b := by
  rw [getOrNewAccountStateObject, worm_setAccount]
  split_ifs with h
  · subst h
    simp
  · rfl

@[simp] theorem worm_getOrNewStakerStateObject (a b : Address) :
    (s.getOrNewStakerStateObject a).worm b = s.worm b := by
  rw [getOrNewStakerStateObject, worm_setAccount, stakerObject_worm]
  split_ifs with h
  · subst h
    rfl
  · rfl

@[simp] theorem validators_getOrNewAccountStateObject (a b : Address) :
    (s.getOrNewAccountStateObject a).validators b = s.validators b := by
  rw [getOrNewAccountStateObject, validators_setAccount]
  split_ifs with h
  · subst h
    rw [accountObject_staker, validators_eq]
  · rfl

@[simp] theorem validators_getOrNewStakerStateObject (a b : Address) :
    (s.getOrNewStakerStateObject a).validators b = s.validators b := by
  rw [getOrNewStakerStateObject, validators_setAccount]
  split_ifs with h
  · subst h
    obtain ⟨st, hst⟩ := Option.isSome_iff_exists.mp (s.stakerObject_staker_isSome b)
    simp [validators, hst]
  · rfl

@[simp] theorem nftObject_worm (a : Address) :
    (s.nftObject a).worm = (s.accounts a).bind Account.worm := by
  unfold nftObject
  cases s.accounts a <;> rfl

@[simp] theorem nftObject_staker (a : Address) :
    (s.nftObject a).staker = (s.accounts a).bind Account.staker := by
  unfold nftObject
  cases s.accounts a <;> rfl

@[simp] theorem nftObject_balance (a : Address) : (s.nftObject a).balance = s.getBalance a := by
  unfold nftObject getBalance
  cases s.accounts a <;> rfl

/-- Writing back an object with the extension and balance it had reads the
same. -/
theorem worm_setAccount_of {a : Address} {acc : Account} (h : acc.worm.getD {} = s.worm a)
    (b : Address) : (s.setAccount a acc).worm b = s.worm b := by
  rw [worm_setAccount]
  split_ifs with hb
  · subst hb; exact h
  · rfl

theorem getBalance_setAccount_of {a : Address} {acc : Account} (h : acc.balance = s.getBalance a)
    (b : Address) : (s.setAccount a acc).getBalance b = s.getBalance b := by
  rw [getBalance_setAccount]
  split_ifs with hb
  · subst hb; exact h
  · rfl

theorem validators_setAccount_of {a : Address} {acc : Account}
    (h : acc.staker = (s.accounts a).bind Account.staker) (b : Address) :
    (s.setAccount a acc).validators b = s.validators b := by
  rw [validators_setAccount, h, validators_eq s b]
  split_ifs with hb
  · subst hb; rfl
  · rfl

@[simp] theorem stakerObject_balance (a : Address) :
    (s.stakerObject a).balance = s.getBalance a := by
  unfold stakerObject getBalance
  cases s.accounts a <;> rfl

@[simp] theorem getBalance_getOrNewAccountStateObject (a b : Address) :
    (s.getOrNewAccountStateObject a).getBalance b = s.getBalance b :=
  s.getBalance_setAccount_of (s.accountObject_balance a) b

@[simp] theorem getBalance_getOrNewStakerStateObject (a b : Address) :
    (s.getOrNewStakerStateObject a).getBalance b = s.getBalance b :=
  s.getBalance_setAccount_of (s.stakerObject_balance a) b

@[simp] theorem getBalance_getOrNewNFTStateObject (a b : Address) :
    (s.getOrNewNFTStateObject a).getBalance b = s.getBalance b :=
  s.getBalance_setAccount_of (s.nftObject_balance a) b

/-! No object creation and no Erbie write changes an account's code. -/

@[simp] theorem accountObject_code (a : Address) : (s.accountObject a).code = s.getCode a := by
  unfold accountObject getCode
  cases s.accounts a <;> rfl

@[simp] theorem stakerObject_code (a : Address) : (s.stakerObject a).code = s.getCode a := by
  unfold stakerObject getCode
  cases s.accounts a <;> rfl

theorem getCode_setAccount_of {a : Address} {acc : Account} (h : acc.code = s.getCode a) (b : Address) :
    (s.setAccount a acc).getCode b = s.getCode b := by
  unfold getCode
  rw [accounts_setAccount]
  split_ifs with hb
  · subst hb
    exact h
  · rfl

@[simp] theorem getCode_getOrNewAccountStateObject (a b : Address) :
    (s.getOrNewAccountStateObject a).getCode b = s.getCode b :=
  s.getCode_setAccount_of (s.accountObject_code a) b

@[simp] theorem getCode_getOrNewStakerStateObject (a b : Address) :
    (s.getOrNewStakerStateObject a).getCode b = s.getCode b :=
  s.getCode_setAccount_of (s.stakerObject_code a) b

theorem getCode_updateAccount (a b : Address) {f : Account → Account}
    (hf : ∀ acc, (f acc).code = acc.code) : (s.updateAccount a f).getCode b = s.getCode b :=
  s.getCode_setAccount_of (by rw [hf, accountObject_code]) b

@[simp] theorem getCode_updateValidators (g : List Validator → List Validator) (b : Address) :
    (s.updateValidators g).getCode b = s.getCode b := by
  refine s.getCode_setAccount_of ?_ b
  exact s.stakerObject_code _

@[simp] theorem getCode_addBalance (a b : Address) (x : Int) : (s.addBalance a x).getCode b = s.getCode b :=
  s.getCode_updateAccount a b fun _ => rfl

@[simp] theorem getCode_subBalance (a b : Address) (x : Int) : (s.subBalance a x).getCode b = s.getCode b :=
  s.getCode_updateAccount a b fun _ => rfl

/-! Writes through `updateAccount` and `updateValidators`. -/

theorem worm_updateAccount (a b : Address) (f : Account → Account) :
    (s.updateAccount a f).worm b = if b = a then (f (s.accountObject a)).worm.getD {} else s.worm b :=
  worm_setAccount ..

theorem getBalance_updateAccount (a b : Address) (f : Account → Account) :
    (s.updateAccount a f).getBalance b =
      if b = a then (f (s.accountObject a)).balance else s.getBalance b :=
  getBalance_setAccount ..

@[simp] theorem worm_updateAccount_updateWorm (a b : Address)
    (g : WormholesExtension → WormholesExtension) :
    (s.updateAccount a (·.updateWorm g)).worm b = if b = a then g (s.worm a) else s.worm b := by
  rw [worm_updateAccount]
  simp

@[simp] theorem worm_updateAccount_addBalance (a b : Address) (x : Int) :
    (s.updateAccount a (·.addBalance x)).worm b = s.worm b := by
  rw [worm_updateAccount]
  split_ifs with h
  · subst h; simp
  · rfl

@[simp] theorem worm_updateAccount_subBalance (a b : Address) (x : Int) :
    (s.updateAccount a (·.subBalance x)).worm b = s.worm b := by
  rw [worm_updateAccount]
  split_ifs with h
  · subst h; simp
  · rfl

/-- A method that leaves the staker extension alone leaves the validator list
alone. -/
theorem validators_updateAccount (a b : Address) (f : Account → Account)
    (hf : ∀ acc, (f acc).staker = acc.staker) : (s.updateAccount a f).validators b = s.validators b := by
  rw [updateAccount, validators_setAccount, hf, accountObject_staker, validators_eq s b]
  split_ifs with h
  · subst h; rfl
  · rfl

@[simp] theorem validators_updateAccount_updateWorm (a b : Address)
    (g : WormholesExtension → WormholesExtension) :
    (s.updateAccount a (·.updateWorm g)).validators b = s.validators b :=
  s.validators_updateAccount a b _ fun _ => rfl

@[simp] theorem validators_updateAccount_addBalance (a b : Address) (x : Int) :
    (s.updateAccount a (·.addBalance x)).validators b = s.validators b :=
  s.validators_updateAccount a b _ fun _ => rfl

@[simp] theorem validators_updateAccount_subBalance (a b : Address) (x : Int) :
    (s.updateAccount a (·.subBalance x)).validators b = s.validators b :=
  s.validators_updateAccount a b _ fun _ => rfl

@[simp] theorem getBalance_updateAccount_updateWorm (a b : Address)
    (g : WormholesExtension → WormholesExtension) :
    (s.updateAccount a (·.updateWorm g)).getBalance b = s.getBalance b := by
  rw [getBalance_updateAccount]
  split_ifs with h
  · subst h; simp
  · rfl

@[simp] theorem getBalance_updateAccount_addBalance (a b : Address) (x : Int) :
    (s.updateAccount a (·.addBalance x)).getBalance b =
      if b = a then s.getBalance a + x else s.getBalance b := by
  rw [getBalance_updateAccount]
  simp

@[simp] theorem getBalance_updateAccount_subBalance (a b : Address) (x : Int) :
    (s.updateAccount a (·.subBalance x)).getBalance b =
      if b = a then s.getBalance a - x else s.getBalance b := by
  rw [getBalance_updateAccount]
  simp

@[simp] theorem worm_updateValidators (g : List Validator → List Validator) (b : Address) :
    (s.updateValidators g).worm b = s.worm b := by
  rw [updateValidators, worm_setAccount]
  split_ifs with h
  · subst h
    simp only [Account.setValidators, Account.updateStaker, stakerObject_worm]
    rfl
  · rfl

@[simp] theorem getBalance_updateValidators (g : List Validator → List Validator) (b : Address) :
    (s.updateValidators g).getBalance b = s.getBalance b := by
  rw [updateValidators, getBalance_setAccount]
  split_ifs with h
  · subst h
    exact s.stakerObject_balance _
  · rfl

@[simp] theorem validators_updateValidators (g : List Validator → List Validator) :
    (s.updateValidators g).validators = g s.validators := by
  rw [updateValidators, validators_setAccount, if_pos rfl]
  rfl

theorem worm_foldl_getOrNewAccountStateObject {α : Type} (l : List α) (f : α → Address)
    (b : Address) :
    (l.foldl (fun s x => s.getOrNewAccountStateObject (f x)) s).worm b = s.worm b := by
  induction l generalizing s with
  | nil => rfl
  | cons x l ih => rw [List.foldl_cons, ih, worm_getOrNewAccountStateObject]

end StateDB

/-- `CanTransfer`. -/
def canTransfer (s : StateDB) (a : Address) (amount : Int) : Bool := amount ≤ s.getBalance a

/-- `Transfer`. -/
def transfer (s : StateDB) (sender recipient : Address) (amount : Int) : StateDB :=
  (s.subBalance sender amount).addBalance recipient amount

end Erbie
