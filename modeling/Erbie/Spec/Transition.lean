import Erbie.Spec.Evm
import Erbie.Spec.Finalize

/-! Applying a block (`core/state_transition.go`, `core/state_processor.go`).
`StateProcessor.Process` applies the messages of a block in order, each with
`TransitionDb`, and ends with `Engine.Finalize`; a message that fails makes the
block invalid. `TransitionDb` checks the message, buys its gas from the sender
at the gas price, checks the intrinsic gas and the value, calls the recipient
or creates a contract, returns the gas left and the refund to the sender at
the same price, and pays the gas used to the coinbase.

Gas counts are `uint64` where `TransitionDb` subtracts them, and `UInt64`
here; an amount of ERB is an `Int`. What the model takes as given: contract
creation (`EVM.Create`, which runs init code through the interpreter), the
refund counter that execution leaves in the state (`GetRefund`), and the chain
configuration. -/

namespace Erbie

/-! ### Constants of `params/protocol_params.go` and errors of `core/error.go` -/

def TxGas : Nat := 21000
def TxGasContractCreation : Nat := 53000
def TxDataZeroGas : Nat := 4
def TxDataNonZeroGasFrontier : Nat := 68
def TxDataNonZeroGasEIP2028 : Nat := 16
def TxAccessListAddressGas : Nat := 2400
def TxAccessListStorageKeyGas : Nat := 1900
def WormholesTx1 : Nat := 42000
def WormholesTx2 : Nat := 42000
def WormholesTx3 : Nat := 63000
def WormholesTx4 : Nat := 42000
def WormholesTx5 : Nat := 42000
def RefundQuotient : UInt64 := 2
def RefundQuotientEIP3529 : UInt64 := 5

/-- `math.MaxUint64`. -/
def MaxUint64 : Nat := 2 ^ 64 - 1

def ErrNonceTooLow : Error := ⟨"nonce too low"⟩
def ErrNonceTooHigh : Error := ⟨"nonce too high"⟩
def ErrGasLimitReached : Error := ⟨"gas limit reached"⟩
def ErrInsufficientFundsForTransfer : Error := ⟨"insufficient funds for transfer"⟩
def ErrInsufficientFunds : Error := ⟨"insufficient funds for gas * price + value"⟩
def ErrGasUintOverflow : Error := ⟨"gas uint64 overflow"⟩
def ErrIntrinsicGas : Error := ⟨"intrinsic gas too low"⟩
def ErrTipAboveFeeCap : Error := ⟨"max priority fee per gas higher than max fee per gas"⟩
def ErrTipVeryHigh : Error := ⟨"max priority fee per gas higher than 2^256-1"⟩
def ErrFeeCapVeryHigh : Error := ⟨"max fee per gas higher than 2^256-1"⟩
def ErrFeeCapTooLow : Error := ⟨"max fee per gas less than block base fee"⟩
def ErrSenderNoEOA : Error := ⟨"sender not an eoa"⟩

/-! ### Messages and their context -/

/-- `types.Message`, as `AsMessage` builds it from a transaction whose sender
has been recovered. `toAddr = none` creates a contract; the access list holds each
address with its storage keys. -/
structure Message where
  fromAddr : Address
  toAddr : Option Address
  nonce : Nat
  gas : UInt64
  gasPrice : Nat
  gasFeeCap : Nat
  gasTipCap : Nat
  value : Nat
  data : List UInt8
  accessList : List (Address × List Hash) := []
  isFake : Bool := false

/-- What `TransitionDb` reads of the block and the chain configuration:
`Context.Coinbase` (the block's author, the zero address for an empty block),
the forks in force at the block, `Config.NoBaseFee` and `Context.BaseFee`. -/
structure BlockContext where
  coinbase : Address
  homestead : Bool
  istanbul : Bool
  london : Bool
  noBaseFee : Bool
  baseFee : Nat

/-- What a transaction runs on besides the state: the EVM, `EVM.Create`, and
the refund counter `GetRefund` of the state execution leaves. -/
structure TxEnv where
  evm : EVM
  create : StateDB → Address → List UInt8 → Nat → Nat → StateDB × List UInt8 × Nat × Option Error
  getRefund : StateDB → UInt64

/-- `ExecutionResult`. -/
structure ExecutionResult where
  usedGas : Nat
  err : Option Error
  returnData : List UInt8

/-- `types.Receipt`, the fields `applyTransaction` sets from the result. -/
structure Receipt where
  status : Bool
  cumulativeGasUsed : Nat
  gasUsed : Nat

namespace StateDB

def getNonce (s : StateDB) (a : Address) : Nat := ((s.accounts a).map Account.nonce).getD 0

/-- `SetNonce`, through `GetOrNewAccountStateObject`. -/
def setNonce (s : StateDB) (a : Address) (nonce : Nat) : StateDB :=
  s.updateAccount a fun acc => { acc with nonce := nonce }

@[simp] theorem getCode_setNonce (s : StateDB) (a b : Address) (n : Nat) :
    (s.setNonce a n).getCode b = s.getCode b :=
  s.getCode_updateAccount a b fun _ => rfl

@[simp] theorem getBalance_setNonce (s : StateDB) (a b : Address) (n : Nat) :
    (s.setNonce a n).getBalance b = s.getBalance b := by
  rw [setNonce, getBalance_updateAccount]
  split_ifs with h
  · subst h
    simp
  · rfl

/-- `Suicide(addr)`: an existing object loses its balance and is marked for
deletion at the end of the transaction; the mark is not modelled. -/
def suicide (s : StateDB) (addr : Address) : StateDB :=
  match s.accounts addr with
  | none => s
  | some acc => s.setAccount addr { acc with balance := 0 }

end StateDB

/-- `opSuicide` (`core/vm/instructions.go`): the contract's balance goes to the
beneficiary, then the contract destroys itself. -/
def opSuicide (s : StateDB) (contract beneficiary : Address) : StateDB :=
  let balance := s.getBalance contract
  (s.addBalance beneficiary balance).suicide contract

/-! ### `TransitionDb` -/

/-- `GetWormholes`: the Erbie payload of a message's data. -/
def getWormholes (unmarshal : List UInt8 → Option Wormholes) (data : List UInt8) :
    Option Wormholes :=
  if TransactionType.length < data.length ∧ data.take TransactionType.length = TransactionType then
    unmarshal (data.drop TransactionType.length)
  else none

/-- The switch of `buyGas` and of `TransitionDb` on `GetWormholes`: a message
whose payload decodes to type 4 is an unstake. -/
def isUnstake (unmarshal : List UInt8 → Option Wormholes) (data : List UInt8) : Bool :=
  match getWormholes unmarshal data with
  | some wh => wh.type = 4
  | none => false

/-- `Wormholes.TxGas`: the base gas of an Erbie transaction, by its type. -/
def Wormholes.txGas (w : Wormholes) : Except Error Nat :=
  match w.type with
  | 1 => .ok WormholesTx1
  | 2 => .ok WormholesTx2
  | 3 => .ok WormholesTx3
  | 4 => .ok WormholesTx4
  | 5 => .ok WormholesTx5
  | _ => .error ⟨"not exist nft type"⟩

/-- `IntrinsicGas(data, accessList, isContractCreation, isHomestead, isEIP2028)`. -/
def intrinsicGas (unmarshal : List UInt8 → Option Wormholes) (data : List UInt8)
    (accessList : List (Address × List Hash)) (isContractCreation isHomestead isEIP2028 : Bool) :
    Except Error Nat := do
  let gas := if isContractCreation ∧ isHomestead then TxGasContractCreation else TxGas
  -- an `erbie:` payload sets the base gas by its type, and must decode
  let gas ←
    if TransactionType.length < data.length ∧ data.take TransactionType.length = TransactionType then
      match unmarshal (data.drop TransactionType.length) with
      | some wh => wh.txGas
      | none => throw ⟨"wormholes format error!"⟩
    else pure gas
  let gas ←
    if data = [] then pure gas
    else do
      let nz := data.countP (· ≠ 0)
      let nonZeroGas := if isEIP2028 then TxDataNonZeroGasEIP2028 else TxDataNonZeroGasFrontier
      if (MaxUint64 - gas) / nonZeroGas < nz then throw ErrGasUintOverflow
      let gas := gas + nz * nonZeroGas
      let z := data.length - nz
      if (MaxUint64 - gas) / TxDataZeroGas < z then throw ErrGasUintOverflow
      pure (gas + z * TxDataZeroGas)
  -- the access list is added without an overflow check
  pure ((gas + accessList.length * TxAccessListAddressGas +
    (accessList.map fun e => e.2.length).sum * TxAccessListStorageKeyGas) % 2 ^ 64)

/-- `buyGas`: the sender must hold the gas at the fee cap and the value (only
the gas at the gas price for an unstake), the block must have the gas left,
and the sender pays the gas at the gas price. Returns the state and the gas
pool. -/
def buyGas (unmarshal : List UInt8 → Option Wormholes) (s : StateDB) (msg : Message) (gp : Nat) :
    Except Error (StateDB × Nat) :=
  let mgval : Int := msg.gas.toNat * msg.gasPrice
  let balanceCheck : Int :=
    if isUnstake unmarshal msg.data then mgval else msg.gas.toNat * msg.gasFeeCap + msg.value
  if s.getBalance msg.fromAddr < balanceCheck then .error ErrInsufficientFunds
  else if gp < msg.gas.toNat then .error ErrGasLimitReached
  else .ok (s.subBalance msg.fromAddr mgval, gp - msg.gas.toNat)

/-- `preCheck`: the nonce and the sender of a real message, the fee caps after
London, then `buyGas`. -/
def preCheck (ctx : BlockContext) (unmarshal : List UInt8 → Option Wormholes) (s : StateDB)
    (msg : Message) (gp : Nat) : Except Error (StateDB × Nat) :=
  let stNonce := s.getNonce msg.fromAddr
  if !msg.isFake ∧ stNonce < msg.nonce then .error ErrNonceTooHigh
  else if !msg.isFake ∧ msg.nonce < stNonce then .error ErrNonceTooLow
  -- a sender with code is a contract
  else if !msg.isFake ∧ s.getCode msg.fromAddr ≠ [] then .error ErrSenderNoEOA
  -- the fee checks are skipped only with the base fee off and no fees at all
  else if ctx.london ∧ (!ctx.noBaseFee ∨ 0 < msg.gasFeeCap ∨ 0 < msg.gasTipCap) then
    if 2 ^ 256 ≤ msg.gasFeeCap then .error ErrFeeCapVeryHigh
    else if 2 ^ 256 ≤ msg.gasTipCap then .error ErrTipVeryHigh
    else if msg.gasFeeCap < msg.gasTipCap then .error ErrTipAboveFeeCap
    else if msg.gasFeeCap < ctx.baseFee then .error ErrFeeCapTooLow
    else buyGas unmarshal s msg gp
  else buyGas unmarshal s msg gp

/-- The execution step of `TransitionDb`: `EVM.Create` for a creation, else
the sender's nonce goes up and `EVM.Call` runs. -/
def execute (env : TxEnv) (s : StateDB) (msg : Message) (gas : Nat) :
    StateDB × List UInt8 × Nat × Option Error :=
  match msg.toAddr with
  | none => env.create s msg.fromAddr msg.data gas msg.value
  | some toAddr =>
    let s := s.setNonce msg.fromAddr (s.getNonce msg.fromAddr + 1)
    env.evm.call s msg.fromAddr toAddr msg.data gas msg.value

/-- `refundGas(refundQuotient)`: the refund counter, capped at a share of the
gas used, is added to the gas left, which goes back to the sender at the gas
price and to the block's pool. Returns the state, the pool and the gas left. -/
def refundGas (s : StateDB) (msg : Message) (gp : Nat) (refundQuotient getRefund stGas : UInt64) :
    StateDB × Nat × UInt64 :=
  let refund := min ((msg.gas - stGas) / refundQuotient) getRefund
  let stGas := stGas + refund
  let remaining : Int := stGas.toNat * msg.gasPrice
  (s.addBalance msg.fromAddr remaining, gp + stGas.toNat, stGas)

/-- `StateTransition.TransitionDb` on the gas pool `gp`: the state, the pool
and the execution result, or the error that makes the message invalid. -/
def transitionDb (ctx : BlockContext) (env : TxEnv) (gp : Nat) (s : StateDB) (msg : Message) :
    Except Error (StateDB × Nat × ExecutionResult) :=
  match preCheck ctx env.evm.unmarshal s msg gp with
  | .error err => .error err
  | .ok (s, gp) =>
  match intrinsicGas env.evm.unmarshal msg.data msg.accessList msg.toAddr.isNone ctx.homestead
      ctx.istanbul with
  | .error err => .error err
  | .ok gas =>
  if msg.gas.toNat < gas then .error ErrIntrinsicGas
  else
  -- the value of an unstake is the stake to withdraw, not a transfer
  if !isUnstake env.evm.unmarshal msg.data ∧ 0 < msg.value ∧ !canTransfer s msg.fromAddr msg.value then
    .error ErrInsufficientFundsForTransfer
  else
  let (s, ret, stGas, vmerr) := execute env s msg (msg.gas.toNat - gas)
  let refundQuotient := if ctx.london then RefundQuotientEIP3529 else RefundQuotient
  let (s, gp, stGas) := refundGas s msg gp refundQuotient (env.getRefund s) (UInt64.ofNat stGas)
  let gasUsed := msg.gas - stGas
  -- the tip is the whole gas price
  let s := s.addBalance ctx.coinbase (gasUsed.toNat * msg.gasPrice)
  .ok (s, gp, { usedGas := gasUsed.toNat, err := vmerr, returnData := ret })

/-! ### `StateProcessor.Process` -/

/-- `applyTransaction`: `ApplyMessage`, and the receipt with the block's gas
used so far, a `uint64`. -/
def applyTransaction (ctx : BlockContext) (env : TxEnv) (gp usedGas : Nat) (s : StateDB)
    (msg : Message) : Except Error (StateDB × Nat × Nat × Receipt) := do
  let (s, gp, result) ← transitionDb ctx env gp s msg
  let usedGas := (usedGas + result.usedGas) % 2 ^ 64
  pure (s, gp, usedGas,
    { status := result.err.isNone, cumulativeGasUsed := usedGas, gasUsed := result.usedGas })

/-- One round of the loop of `Process`: the state, the gas pool, the receipts
and the gas used so far. -/
def processStep (ctx : BlockContext) (env : TxEnv) (acc : StateDB × Nat × List Receipt × Nat)
    (msg : Message) : Except Error (StateDB × Nat × List Receipt × Nat) := do
  let (s, gp, receipts, usedGas) := acc
  let (s, gp, usedGas, receipt) ← applyTransaction ctx env gp usedGas s msg
  pure (s, gp, receipts ++ [receipt], usedGas)

/-- `StateProcessor.Process` on a block with header `h`, gas limit `gasLimit`
and messages `msgs`: the outcome of `Engine.Finalize`, the receipts and the
gas used. -/
def process (c : Crypto) (view : ChainView) (codec : EmptyCodec) (ctx : BlockContext) (env : TxEnv)
    (h : Header) (gasLimit : Nat) (msgs : List Message) (s : StateDB) :
    Except Error (Finalized × List Receipt × Nat) := do
  let (s, _, receipts, usedGas) ← msgs.foldlM (processStep ctx env) (s, gasLimit, [], 0)
  pure (c.finalize view codec h s, receipts, usedGas)

end Erbie
