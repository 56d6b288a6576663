import Erbie.Spec.Staking

/-! Erbie transactions in the EVM (`core/vm/evm.go`). A call whose input is
`erbie:` followed by a JSON `Wormholes` object is an Erbie transaction: `Call`
checks the value, creates the callee, and hands the transaction to
`HandleCSBT`, which dispatches on its type (1 transfers a CSBT, 2 pays its
owner, 3 stakes, 4 unstakes, 5 buys back the coefficient). An error of
`HandleCSBT` is returned at once, before the snapshot revert that every other
failing call goes through.

What the model takes as given: the JSON decoder, the precompiled contracts and
the interpreter that runs contract code (`EVM` below). Reads that the source
makes through `GetOrNew*StateObject` appear as the writes they are. -/

namespace Erbie

/-- `types.Wormholes`, the JSON payload after `erbie:`. -/
structure Wormholes where
  type : UInt8
  csbtAddress : String := ""
  proxyAddress : String := ""
  proxySign : String := ""
  creator : String := ""
  version : String := ""
deriving DecidableEq, Repr

/-- `Wormholes.CheckFormat`. -/
def Wormholes.checkFormat (w : Wormholes) : Option Error :=
  if w.type ∈ [1, 2, 3, 4, 5] then none else some ⟨"not exist nft type"⟩

def ErrDepth : Error := ⟨"max call depth exceeded"⟩
def ErrOutOfGas : Error := ⟨"out of gas"⟩
def ErrInsufficientBalance : Error := ⟨"insufficient balance for transfer"⟩
def ErrExecutionReverted : Error := ⟨"execution reverted"⟩
def ErrNotOwner : Error := ⟨"not the owner of the csbt"⟩
def ErrNotExistNFTType : Error := ⟨"not exist nft type"⟩
def ErrWormholesFormat : Error := ⟨"wormholes format error, can\x27t unmarshal"⟩
def ErrNotMoreThan100ERB : Error := ⟨"not more than 700 ERB"⟩
def ErrTooCloseToCancel : Error := ⟨"too close to cancel"⟩
def ErrNotCreator : Error := ⟨"not csbt creator"⟩

/-- `params.CallCreateDepth`. -/
def CallCreateDepth : Nat := 1024

/-- `types.TransactionType`. -/
def TransactionType : List UInt8 := "erbie:".toUTF8.toList

/-- `GetNftAddressAndLevel`: a CSBT address is a `0x` prefix and up to forty
hex digits; the missing digits are zeros and their count is the level. -/
def getNftAddressAndLevel (nftAddress : String) : Except Error (Address × Nat) :=
  let b := nftAddress.toUTF8.toList
  if 42 < b.length then .error ⟨"nft address is too long"⟩
  else if has0xPrefix b then
    let level := 42 - b.length
    .ok (bytesToAddress (fromHex (b ++ List.replicate level 48)), level)
  else .error ⟨"nft address is not to start with 0x"⟩

namespace StateDB

/-- `GetNFTOwner16`, with the object it creates. -/
def readNFTOwner16 (s : StateDB) (nftAddr : Address) : StateDB × Address :=
  (s.getOrNewNFTStateObject nftAddr, s.getNFTOwner16 nftAddr)

/-- `GetStakerPledged(from, addr)`, with the object it creates. -/
def readStakerPledged (s : StateDB) (fromAddr addr : Address) : StateDB × StakerExtension :=
  (s.getOrNewAccountStateObject fromAddr, s.getStakerPledged fromAddr addr)

/-- `GetStakerPledgedBalance(from, addr)`, with the object it creates. -/
def readStakerPledgedBalance (s : StateDB) (fromAddr addr : Address) : StateDB × Int :=
  (s.getOrNewAccountStateObject fromAddr, s.getStakerPledgedBalance fromAddr addr)

end StateDB

/-- `VerifyCSBTOwner(db, nftAddr, owner)`. -/
def verifyCSBTOwner (s : StateDB) (nftAddr : String) (owner : Address) : StateDB × Bool :=
  match getNftAddressAndLevel nftAddr with
  | .error _ => (s, false)
  | .ok (address, _) =>
    let (s, returnOwner) := s.readNFTOwner16 address
    (s, returnOwner = owner)

/-- `IsExistStakerStorageAddress(db, address)`. -/
def isExistStakerStorageAddress (s : StateDB) (address : Address) : StateDB × Bool :=
  (s.getOrNewStakerStateObject StakerStorageAddress, s.stakers.any (·.addr = address))

/-- `TransferCSBT(db, nftAddr, newOwner, blocknumber)`. -/
def transferCSBT (s : StateDB) (nftAddr : String) (newOwner : Address) : Except Error StateDB :=
  match getNftAddressAndLevel nftAddr with
  | .error e => .error e
  | .ok (address, _) =>
    let s := s.getOrNewNFTStateObject address
    .ok (s.setAccount address ((s.nftObject address).changeNFTOwner newOwner))

/-- What the EVM takes from outside the model: its call depth and
configuration, the block number, the JSON decoder, the precompiled contracts,
and the interpreter, which runs `code` for `caller` at `addr` on a state and
returns the state it leaves, the return data, the gas left and the error. -/
structure EVM where
  depth : Nat
  noRecursion : Bool
  blockNumber : Nat
  unmarshal : List UInt8 → Option Wormholes
  precompile : Address → Bool
  runPrecompiled : Address → List UInt8 → Nat → List UInt8 × Nat × Option Error
  run : StateDB → Address → Address → List UInt8 → List UInt8 → Nat → Nat →
    StateDB × List UInt8 × Nat × Option Error

namespace EVM

variable (evm : EVM)

/-- `EVM.HandleCSBT`. On every exit the return data is empty and the gas is
the gas it was given, so only the state and the error are returned. -/
def handleCSBT (s : StateDB) (caller addr : Address) (wormholes : Wormholes) (value : Nat) :
    StateDB × Option Error :=
  match wormholes.checkFormat with
  | some formatErr => (s, some formatErr)
  | none =>
  match wormholes.type with
  | 1 =>
    let (s, isOwner) := verifyCSBTOwner s wormholes.csbtAddress caller
    if isOwner then
      let (s, isCreator) := isExistStakerStorageAddress s caller
      if isCreator then
        match transferCSBT s wormholes.csbtAddress addr with
        | .error err => (s, some err)
        | .ok s => (s, none)
      else (s, some ErrNotCreator)
    else (s, some ErrNotOwner)
  | 2 =>
    let (s, isOwner) := verifyCSBTOwner s wormholes.csbtAddress addr
    if isOwner then (transfer s caller addr value, none) else (s, some ErrNotOwner)
  | 3 =>
    let (s, stakerpledged) := s.readStakerPledged caller addr
    if stakerpledged.balance < StakerBase ∧ (value : Int) < StakerBase then
      (s, some ErrNotMoreThan100ERB)
    else if canTransfer s caller value then
      let s := s.stakerPledge caller addr value evm.blockNumber wormholes.proxyAddress
      s.resetMinerBecome addr
    else (s, some ErrInsufficientBalance)
  | 4 =>
    let (s, stakerpledged) := s.readStakerPledged caller addr
    let pledgedBalance := stakerpledged.balance
    if pledgedBalance ≠ value ∧ pledgedBalance - value < StakerBase then
      (s, some ⟨"the after revocation is less than 700ERB"⟩)
    else if CancelDayPledgedInterval ≤ (evm.blockNumber : Int) - stakerpledged.blockNumber then
      s.newCancelStakerPledge caller addr value evm.blockNumber
    else (s, some ErrTooCloseToCancel)
  | 5 => s.recoverValidatorCoefficient caller
  | _ => (s, some ErrNotExistNFTType)

/-- The value check of `Call`. For an unstake it reads the stake of `caller`
on `addr`, and that read creates the caller's object. -/
def checkValue (s : StateDB) (caller addr : Address) (value : Nat) (nft : Option Wormholes) :
    StateDB × Option Error :=
  match nft with
  | some wh =>
    if wh.type = 4 then
      let (s, pledgedBalance) := s.readStakerPledgedBalance caller addr
      if pledgedBalance ≠ value ∧ 0 < value ∧ pledgedBalance < value + StakerBase then
        (s, some ErrInsufficientBalance)
      else (s, none)
    else if value ≠ 0 ∧ !canTransfer s caller value then (s, some ErrInsufficientBalance)
    else (s, none)
  | none =>
    if value ≠ 0 ∧ !canTransfer s caller value then (s, some ErrInsufficientBalance)
    else (s, none)

/-- `EVM.Call`: the state it leaves, the return data, the gas left and the
error. -/
def call (s : StateDB) (caller addr : Address) (input : List UInt8) (gas value : Nat) :
    StateDB × List UInt8 × Nat × Option Error :=
  if evm.noRecursion ∧ 0 < evm.depth then (s, [], gas, none)
  else if CallCreateDepth < evm.depth then (s, [], gas, some ErrDepth)
  else
  -- `erbie:` and a payload that does not decode is an error; any other input is a plain call
  let parsed : Except Error (Option Wormholes) :=
    if TransactionType.length < input.length ∧ input.take TransactionType.length = TransactionType then
      match evm.unmarshal (input.drop TransactionType.length) with
      | some wh => .ok (some wh)
      | none => .error ErrWormholesFormat
    else .ok none
  match parsed with
  | .error err => (s, [], gas, some err)
  | .ok nft =>
  match checkValue s caller addr value nft with
  | (s, some err) => (s, [], gas, some err)
  | (s, none) =>
  let snapshot := s
  let s := if s.exist addr then s else s.getOrNewAccountStateObject addr
  -- an error of `HandleCSBT` returns here, without the revert below
  let handled : Except (StateDB × Error) StateDB :=
    match nft with
    | some wh =>
      match evm.handleCSBT s caller addr wh value with
      | (s, some err) => .error (s, err)
      | (s, none) => .ok s
    | none => .ok (transfer s caller addr value)
  match handled with
  | .error (s, err) => (s, [], gas, some err)
  | .ok s =>
  let (s, ret, gas, err) :=
    if evm.precompile addr then
      let (ret, gas, err) := evm.runPrecompiled addr input gas
      (s, ret, gas, err)
    else
      let code := s.getCode addr
      if code = [] then (s, [], gas, none)
      else evm.run s caller addr code input gas value
  match err with
  | some err => (snapshot, ret, if err = ErrExecutionReverted then gas else 0, some err)
  | none => (s, ret, gas, none)

end EVM
end Erbie
