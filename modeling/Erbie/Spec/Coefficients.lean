import Erbie.Spec.State

/-! The coefficient cache of the chain (`core/blockchain.go`). Every block that
`writeBlockWithState` stores leaves the coefficients of the validators of its
state under its block number, and `DeleteExpiredCoefficents` then trims the
cache to `expired` entries. `Random11ValidatorFromPool` and
`Random11ValidatorWithOutProxy` weigh the validator list of the header's state
by the cached coefficients when the cache holds the header's number, and by
the state's own otherwise. Only a block that moves the head onto another
branch empties the cache (`DeleteCoefficients`).

A Go map is a list of entries with distinct keys. The order in which `range`
visits the keys is random in Go, so it is a parameter here: `order pass keys`
is the order of the pass numbered `pass`. The trimming loop runs on fuel. -/

namespace Erbie

/-- `map[common.Address]uint8`: the coefficient of each validator of a block's state. -/
abbrev Coefficients := List (Address × UInt8)

namespace BlockChain

/-- `expired` in `DeleteExpiredCoefficents`. -/
def expired : Nat := 3

/-- The body of the inner loop of `DeleteExpiredCoefficents` on the key `k`.
The minimum `0` stands for "no minimum yet", and is not reset between passes. -/
def minBlockNumberStep (minBlockNumber k : Nat) : Nat :=
  if minBlockNumber = 0 then k
  else if minBlockNumber > k then k
  else minBlockNumber

/-- The outer loop of `DeleteExpiredCoefficents`, at the pass numbered `pass`,
with the minimum the earlier passes left. -/
def deleteExpiredLoop {β : Type} (order : Nat → List Nat → List Nat) :
    Nat → Nat → Nat → List (Nat × β) → Option (List (Nat × β))
  | 0, _, _, _ => none
  | fuel + 1, pass, minBlockNumber, coefficients =>
    if coefficients.length ≤ expired then some coefficients
    else
      let minBlockNumber := (order pass (coefficients.map Prod.fst)).foldl minBlockNumberStep minBlockNumber
      deleteExpiredLoop order fuel (pass + 1) minBlockNumber (coefficients.filter fun e => e.1 ≠ minBlockNumber)

/-- `DeleteExpiredCoefficents()`. -/
def deleteExpiredCoefficents {β : Type} (order : Nat → List Nat → List Nat) (fuel : Nat)
    (coefficients : List (Nat × β)) : Option (List (Nat × β)) :=
  deleteExpiredLoop order fuel 0 0 coefficients

/-- `validatorsCoe` of `writeBlockWithState`: each validator of the state's
list with its coefficient. -/
def validatorsCoe (state : StateDB) : Coefficients :=
  state.validators.map fun account => (account.addr, state.getValidatorCoefficient account.addr)

/-- `bc.coefficients[number] = c`. -/
def setCoefficients {β : Type} (coefficients : List (Nat × β)) (number : Nat) (c : β) : List (Nat × β) :=
  (number, c) :: coefficients.filter fun e => e.1 ≠ number

/-- `reorg` of `writeBlockWithState`: the block's total difficulty against the
head's, then its number against the head's, and last the preferences of
`shouldPreserve` and a coin (`mrand.Float64() < 0.5`). -/
def reorg (externTd localTd number currentNumber : Nat) (currentPreserve blockPreserve coin : Bool) : Bool :=
  if localTd < externTd then true
  else if externTd = localTd then
    if number < currentNumber then true
    else if number = currentNumber then !currentPreserve && (blockPreserve || coin)
    else false
  else false

/-- What `writeBlockWithState` does to the cache for a block with its number
and its state, given its `reorg` and whether its parent is the head. -/
def writeBlockCoefficients (order : Nat → List Nat → List Nat) (fuel : Nat)
    (coefficients : List (Nat × Coefficients)) (number : Nat) (state : StateDB) (reorg parentIsHead : Bool) :
    Option (List (Nat × Coefficients)) :=
  (deleteExpiredCoefficents order fuel (setCoefficients coefficients number (validatorsCoe state))).map fun c =>
    -- `DeleteCoefficients` after the head moves onto another branch
    if reorg && !parentIsHead then [] else c

/-- The weights `Random11ValidatorFromPool` and `Random11ValidatorWithOutProxy`
pass to `RandomValidatorV4` for a header with its number and its state `db`:
a validator missing from the cached map weighs `0`. -/
def validatorWeights (coefficients : List (Nat × Coefficients)) (number : Nat) (db : StateDB) : List UInt8 :=
  match coefficients.lookup number with
  | some validatorsCoe => db.validators.map fun v => (validatorsCoe.lookup v.addr).getD 0
  | none => db.validators.map fun v => db.getValidatorCoefficient v.addr

end BlockChain

end Erbie
