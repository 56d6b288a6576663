import Erbie.Lib.BalanceList

/-! The data model of the chain: addresses, the constants of
`core/types/economic_params.go`, the staker and validator extension lists every
account keeps, and the validator list stored at `ValidatorStorageAddress` with
the mutators of `core/types/validator_account.go`. A `*big.Int` amount is an
`Int`. Every mutator of the list ends in `sort.Sort(vl)`, which is
`sortValidators` below: the order `Less` defines, by balance and then by
address, both descending. -/

namespace Erbie

abbrev Address := BitVec 160

/-- A Go `error`, by its text. -/
structure Error where
  text : String
deriving DecidableEq, Repr

/-- `common.Address{}`. -/
def zeroAddress : Address := 0

def MintDeepStorageAddress : Address := 1
def ValidatorStorageAddress : Address := 2
def StakerStorageAddress : Address := 3

def StakerBase : Int := 350 * 10 ^ 18
def ValidatorBase : Int := 35000 * 10 ^ 18
def VALIDATOR_COEFFICIENT : UInt8 := 70
def DEFAULT_VALIDATOR_COEFFICIENT : Int := 70
def CancelDayPledgedInterval : Int := 720 * 24 * 30
def PercentageValidatorReward : Int := 7

/-- Go's slice expression `s[i:]`, which panics (`none`) when `i` exceeds the
length. -/
def sliceFrom {α : Type} (s : List α) (i : Nat) : Option (List α) :=
  if i ≤ s.length then some (s.drop i) else none

@[simp] theorem sliceFrom_nil_one {α : Type} : sliceFrom ([] : List α) 1 = none := rfl

@[simp] theorem sliceFrom_cons_one {α : Type} (a : α) (s : List α) :
    sliceFrom (a :: s) 1 = some s := by
  simp [sliceFrom]

theorem stakerBase_pos : 0 < StakerBase := by decide

/-! ### Staker and validator extensions

`StakersExtensionList` records, on a staker, what it staked on each validator;
`ValidatorsExtensionList` records, on a validator, what each staker staked on
it. Both are the keyed balance list of `BalanceList`. -/

abbrev StakerExtension := BalanceList.Entry Address
abbrev ValidatorExtension := BalanceList.Entry Address

def addStakerPledge (l : List StakerExtension) (addr : Address) (balance : Int)
    (blocknumber : Nat) : List StakerExtension :=
  BalanceList.credit l addr balance blocknumber

def removeStakerPledge (l : List StakerExtension) (addr : Address) (balance : Int) :
    List StakerExtension :=
  BalanceList.debit l addr balance

def addValidatorPledge (l : List ValidatorExtension) (addr : Address) (balance : Int)
    (blocknumber : Nat) : List ValidatorExtension :=
  BalanceList.credit l addr balance blocknumber

def removeValidatorPledge (l : List ValidatorExtension) (addr : Address) (balance : Int) :
    List ValidatorExtension :=
  BalanceList.debit l addr balance

def getAllBalance (l : List ValidatorExtension) : Int := BalanceList.total l

/-! ### The validator list -/

structure Validator where
  addr : Address
  balance : Int
  proxy : Address
  weight : List Int
deriving DecidableEq, Repr

/-- `ValidatorList.Less`: `a` sorts before `b`. -/
def Validator.less (a b : Validator) : Bool :=
  if a.balance = b.balance then b.addr.toNat < a.addr.toNat else b.balance < a.balance

/-- `sort.Sort(vl)`. -/
def sortValidators (vl : List Validator) : List Validator :=
  vl.mergeSort (fun a b => !b.less a)

def ValidatorList.addValidator (vl : List Validator) (addr : Address) (balance : Int)
    (proxy : Address) : List Validator :=
  sortValidators (go vl)
where
  go : List Validator → List Validator
    | [] => [⟨addr, balance, proxy, []⟩]
    | v :: vs =>
        if v.addr = addr then
          { v with balance := v.balance + balance,
                   proxy := if proxy ≠ zeroAddress then proxy else v.proxy } :: vs
        else v :: go vs

/-- `RemoveValidator` lowers the first entry of `addr` and drops it below
`ValidatorBase`; when `addr` is absent the list is left as it was. -/
def ValidatorList.removeValidator (vl : List Validator) (addr : Address) (balance : Int) :
    List Validator :=
  match go vl with
  | some vl' => sortValidators vl'
  | none => vl
where
  go : List Validator → Option (List Validator)
    | [] => none
    | v :: vs =>
        if v.addr = addr then
          if v.balance - balance < ValidatorBase then some vs
          else some ({ v with balance := v.balance - balance } :: vs)
        else (go vs).map (v :: ·)

def ValidatorList.setValidatorAmount (vl : List Validator) (addr : Address) (balance : Int)
    (proxy : Address) : List Validator :=
  sortValidators (go vl)
where
  go : List Validator → List Validator
    | [] => [⟨addr, balance, proxy, []⟩]
    | v :: vs =>
        if v.addr = addr then
          { v with balance := balance,
                   proxy := if proxy ≠ zeroAddress then proxy else v.proxy } :: vs
        else v :: go vs

def ValidatorList.resetRemoveValidator (vl : List Validator) (addr : Address) :
    List Validator :=
  match go vl with
  | some vl' => sortValidators vl'
  | none => vl
where
  go : List Validator → Option (List Validator)
    | [] => none
    | v :: vs => if v.addr = addr then some vs else (go vs).map (v :: ·)

/-- The first entry whose address or proxy is `a`. -/
def ValidatorList.find? (vl : List Validator) (a : Address) : Option Validator :=
  vl.find? (fun v => v.addr = a || v.proxy = a)

def ValidatorList.exist (vl : List Validator) (a : Address) : Bool :=
  vl.any (fun v => v.addr = a || v.proxy = a)

def ValidatorList.stakeBalance (vl : List Validator) (a : Address) : Int :=
  ((ValidatorList.find? vl a).map Validator.balance).getD 0

def ValidatorList.getValidatorAddr (vl : List Validator) (a : Address) : Address :=
  ((ValidatorList.find? vl a).map Validator.addr).getD zeroAddress

/-- `GetProxy(delegate)`: the proxy of the first entry of `delegate` that has
one. -/
def ValidatorList.getProxy (vl : List Validator) (delegate : Address) : Option Address :=
  (vl.find? fun v => v.addr = delegate ∧ v.proxy ≠ zeroAddress).map Validator.proxy

def ValidatorList.totalStakeBalance (vl : List Validator) : Int :=
  (vl.map Validator.balance).sum

def ValidatorList.convertToAddress (vl : List Validator) : List Address :=
  vl.map Validator.addr

end Erbie
