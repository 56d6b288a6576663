import Erbie.Spec.Transition

/-! The genesis state (`core/genesis.go`). `ToBlock` runs three loops over Go
maps, in an order the runtime picks: it funds the `Alloc` accounts, adds the
`Stake` entries to the staker list at `StakerStorageAddress`, and makes each
`Validator` entry stake its balance on itself, join the validator list and
take the full coefficient. The root of the block is a hash of this state.

A Go map is a list of entries with distinct addresses, and the order of a loop
over it is any permutation of that list. Contract storage (`SetState`) is left
out: nothing else of the model reads it. -/

namespace Erbie

/-- `GenesisAccount`, the fields `ToBlock` reads. -/
structure GenesisAccount where
  code : List UInt8 := []
  balance : Int := 0
  proxy : String := ""
  nonce : Nat := 0
deriving DecidableEq, Repr

/-- `GenesisAlloc`: a map with one entry per address. -/
structure GenesisAlloc where
  entries : List (Address × GenesisAccount)
  nodup : (entries.map Prod.fst).Nodup

/-- The maps of `Genesis` that `ToBlock` writes into the state. -/
structure Genesis where
  alloc : GenesisAlloc
  stake : GenesisAlloc
  validator : GenesisAlloc

/-- `StakerList.Less`: by address, ascending. -/
def Staker.less (a b : Staker) : Bool := a.addr.toNat < b.addr.toNat

/-- `sort.Sort(sl)` on a `StakerList`. -/
def sortStakers (sl : List Staker) : List Staker :=
  sl.mergeSort (fun a b => !b.less a)

/-- `StakerList.AddStaker(addr, balance)`. -/
def StakerList.addStaker (sl : List Staker) (addr : Address) (balance : Int) : List Staker :=
  sortStakers (go sl)
where
  go : List Staker → List Staker
    | [] => [⟨addr, balance⟩]
    | v :: vs => if v.addr = addr then { v with balance := v.balance + balance } :: vs else v :: go vs

namespace StateDB

/-- `SetCode`, through `GetOrNewAccountStateObject`. -/
def setCode (s : StateDB) (a : Address) (code : List UInt8) : StateDB :=
  s.updateAccount a fun acc => { acc with code := code }

/-- Apply a method to the staker list object at `StakerStorageAddress`. -/
def updateStakers (s : StateDB) (f : List Staker → List Staker) : StateDB :=
  let o := s.stakerObject StakerStorageAddress
  s.setAccount StakerStorageAddress (o.updateStaker fun st => { st with csbtCreators := f st.csbtCreators })

/-- `MinerBecome(address, proxy)`: the validator joins the list with its
pledged balance. -/
def minerBecome (s : StateDB) (address proxy : Address) : StateDB :=
  let s := (s.getOrNewAccountStateObject address).getOrNewStakerStateObject ValidatorStorageAddress
  s.updateValidators (ValidatorList.addValidator · address (s.getPledgedBalance address) proxy)

end StateDB

namespace Genesis

/-- One round of the `Alloc` loop of `ToBlock`, without the `SetState` writes
of its storage: the accounts here keep no contract storage. -/
def allocAccount (s : StateDB) (e : Address × GenesisAccount) : StateDB :=
  ((s.addBalance e.1 e.2.balance).setCode e.1 e.2.code).setNonce e.1 e.2.nonce

/-- One round of the `Stake` loop. -/
def stakeAccount (s : StateDB) (e : Address × GenesisAccount) : StateDB :=
  (s.getOrNewStakerStateObject StakerStorageAddress).updateStakers (StakerList.addStaker · e.1 e.2.balance)

/-- One round of the `Validator` loop. -/
def validatorAccount (s : StateDB) (e : Address × GenesisAccount) : StateDB :=
  let s := s.stakerPledge e.1 e.1 e.2.balance 0 e.2.proxy
  let s := s.minerBecome e.1 (hexToAddress e.2.proxy)
  s.addValidatorCoefficient e.1 VALIDATOR_COEFFICIENT

/-- The state `ToBlock` builds, when its loops visit the maps in the orders
`alloc`, `stake` and `validator`. -/
def toBlockState (alloc stake validator : List (Address × GenesisAccount)) : StateDB :=
  let s := alloc.foldl allocAccount StateDB.empty
  let s := stake.foldl stakeAccount s
  let s := validator.foldl validatorAccount s
  s.getOrNewStakerStateObject MintDeepStorageAddress

end Genesis

end Erbie
