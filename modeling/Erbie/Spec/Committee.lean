import Erbie.Spec.Selection
import Erbie.Spec.Genesis
import Erbie.Lib.Keccak
import Erbie.Lib.Sampling

/-! The committee draw of `core/types/validator_account.go` and the staker draw
of `core/types/stake_account.go`: weighted sampling without replacement over a
copy of the list, the weights the balances and the seed of each draw the
Keccak-256 hash of the seed before it.

After a draw the validator list takes the drawn address out by
`RemoveValidator(addr, StakeBalance(addr))`. `StakeBalance` answers for the
first entry whose address or proxy is `addr`, and `RemoveValidator` keeps the
entry of `addr` when its balance stays at `ValidatorBase` or more. The staker
list takes a staker out with all of its balance.

`RandomValidatorV4` collects the validators whose arcs hold the drop point,
makes up the missing ones, looks the addresses up in the list and draws the
committee from them. The drop point is the address whose private key is the
random hash: the key derivation is the parameter `pubkeyToAddress`. -/

namespace Erbie

/-- `new(big.Int).SetBytes(b)`: big-endian. -/
def setBytes (b : List UInt8) : Nat := b.foldl (fun acc x => 256 * acc + x.toNat) 0

namespace ValidatorList

/-- `selectAddress(rand)`: the first validator at which the running sum of the
balances reaches `rand`. -/
def selectAddress (vl : List Validator) (rand : Int) : Except Error Address :=
  Sampling.select Validator.balance Validator.addr ⟨"select address error"⟩ vl rand

/-- `SelectRandom11AddressV2(num, hash)`; `none` is the panic of `Mod` by a
zero total. -/
def selectRandom11AddressV2 (vl : List Validator) (num : Int) (hash : List UInt8) :
    Option (Except Error (List Address)) :=
  if vl.length < num then some (.ok (vl.map Validator.addr))
  else
    Sampling.draws Keccak.keccak256 setBytes totalStakeBalance selectAddress
      (fun vl address => removeValidator vl address (stakeBalance vl address)) num.toNat hash vl

/-- `RandomValidatorV4(k, randomHash, weights)`. `pubkeyToAddress` is
`crypto.HexToECDSA` of the hash's digits followed by `PubkeyToAddress`, with
the error of a hash that is no private key. An error of
`SelectRandom11AddressV2` is dropped, and the committee is then empty. -/
def randomValidatorV4 (pubkeyToAddress : Hash → Except Error Address) (vl : List Validator) (k : Int)
    (randomHash : Hash) (weights : List UInt8) : Option (Except Error (List Address)) :=
  if vl.length ≠ weights.length then some (.error ⟨"RandomValidatorV4 invalid length"⟩)
  else
    match pubkeyToAddress randomHash with
    | .error err => some (.error err)
    | .ok addr =>
      let validators := collectValidatorsV3 vl addr.toNat
      let diffCount := k - validators.length
      let validators :=
        if 0 < diffCount then makeUpValidators vl validators weights randomHash diffCount else validators
      let tempList := validators.filterMap fun validatorAddress => List.find? (·.addr = validatorAddress) vl
      (selectRandom11AddressV2 tempList k randomHash.bytes).map fun
        | .ok selectedValidators => .ok selectedValidators
        | .error _ => .ok []

end ValidatorList

namespace StakerList

def totalStakeBalance (sl : List Staker) : Int := (sl.map Staker.balance).sum

def stakeBalance (sl : List Staker) (address : Address) : Int :=
  ((sl.find? (·.addr = address)).map Staker.balance).getD 0

/-- `RemoveStaker(addr, balance)`: the first entry of `addr` is lowered, and
dropped unless it keeps more than nothing; when `addr` is absent the list is
left as it was. -/
def removeStaker (sl : List Staker) (addr : Address) (balance : Int) : List Staker :=
  match go sl with
  | some sl' => sortStakers sl'
  | none => sl
where
  go : List Staker → Option (List Staker)
    | [] => none
    | v :: vs =>
        if v.addr = addr then
          if balance < v.balance then some ({ v with balance := v.balance - balance } :: vs)
          else some vs
        else (go vs).map (v :: ·)

def selectAddress (sl : List Staker) (rand : Int) : Except Error Address :=
  Sampling.select Staker.balance Staker.addr ⟨"select address error"⟩ sl rand

/-- `SelectRandom4Address(num, hash)`; `none` is the panic of `Mod` by a zero
total. -/
def selectRandom4Address (sl : List Staker) (num : Int) (hash : List UInt8) :
    Option (Except Error (List Address)) :=
  if sl.length < num then some (.ok (sl.map Staker.addr))
  else
    Sampling.draws Keccak.keccak256 setBytes totalStakeBalance selectAddress
      (fun sl address => removeStaker sl address (stakeBalance sl address)) num.toNat hash sl

end StakerList

end Erbie
