import Erbie.Spec.Transition

/-! Admission to the transaction pool (`core/tx_pool.go`). `validateTx`
checks a transaction against the pool's head state before the pool keeps it:
the transaction type and size, the fees and gas, the signature, the nonce,
and the funds. For an Erbie transaction the funds check is Erbie's own: a
stake must go to a target that already holds `StakerBase` of stakes, or to
the sender itself; an unstake must withdraw at most what the sender staked
on a target that holds it, and leave nothing or at least `StakerBase`.

The transaction carries what `validateTx` and `AsMessage` read of it; its
signature is the pool's signer, which recovers the sender or fails. -/

namespace Erbie

def LegacyTxType : Nat := 0
def DynamicFeeTxType : Nat := 2

def txSlotSize : Nat := 32 * 1024
def txMaxSize : Nat := 4 * txSlotSize

def ErrTxTypeNotSupported : Error := ⟨"transaction type not supported"⟩
def ErrOversizedData : Error := ⟨"oversized data"⟩
def ErrNegativeValue : Error := ⟨"negative value"⟩
def ErrGasLimit : Error := ⟨"exceeds block gas limit"⟩
def ErrInvalidSender : Error := ⟨"invalid sender"⟩
def ErrUnderpriced : Error := ⟨"transaction underpriced"⟩

/-- A signed transaction as the pool sees it. `gasPrice` is `GasPrice()`, the
fee cap of a dynamic-fee transaction. -/
structure Transaction where
  txType : Nat
  size : Nat
  nonce : Nat
  gas : UInt64
  gasPrice : Nat
  gasFeeCap : Nat
  gasTipCap : Nat
  toAddr : Option Address
  value : Int
  data : List UInt8
  accessList : List (Address × List Hash) := []

namespace Transaction

/-- `GasFee()`: the gas at the gas price. -/
def gasFee (tx : Transaction) : Int := tx.gasPrice * tx.gas.toNat

/-- `Cost()`: the gas at the gas price, and the value. -/
def cost (tx : Transaction) : Int := tx.gasFee + tx.value

/-- `AsMessage(signer, baseFee)` for the sender the signer recovered: with a
base fee, the gas price is the tip over the base fee, capped at the fee cap. -/
def asMessage (tx : Transaction) (fromAddr : Address) (baseFee : Option Nat) : Message where
  fromAddr := fromAddr
  toAddr := tx.toAddr
  nonce := tx.nonce
  gas := tx.gas
  gasPrice := match baseFee with
    | some baseFee => min (tx.gasTipCap + baseFee) tx.gasFeeCap
    | none => tx.gasPrice
  gasFeeCap := tx.gasFeeCap
  gasTipCap := tx.gasTipCap
  value := tx.value.toNat
  data := tx.data
  accessList := tx.accessList

end Transaction

/-- What `validateTx` reads of the pool: the forks in force at the next block,
the gas limit of the head, the minimal tip, the head state, the JSON decoder
of Erbie payloads and the signer. -/
structure TxPool where
  eip2718 : Bool
  eip1559 : Bool
  istanbul : Bool
  currentMaxGas : UInt64
  gasPrice : Nat
  currentState : StateDB
  unmarshal : List UInt8 → Option Wormholes
  sender : Transaction → Option Address

/-- What `validateTx` does with a transaction: it accepts it, rejects it with
an error, or panics, as it does on an Erbie stake or unstake that creates a
contract, whose `*tx.To()` is a nil pointer. -/
inductive Validated where
  | accepted
  | rejected (err : Error)
  | panic
deriving DecidableEq, Repr

namespace TxPool

variable (pool : TxPool)

/-- The funds check of `validateTx` for the sender `fromAddr`: Erbie's own for
a stake (type 3) and an unstake (type 4), the cost otherwise. -/
def validateFunds (tx : Transaction) (fromAddr : Address) : Validated :=
  let st := pool.currentState
  let costCheck : Validated :=
    if st.getBalance fromAddr < tx.cost then .rejected ErrInsufficientFunds else .accepted
  match getWormholes pool.unmarshal tx.data with
  | some wormholes =>
    if wormholes.type = 3 then
      match tx.toAddr with
      | none => .panic
      | some toAddr =>
        if st.getPledgedBalance toAddr < StakerBase ∧ fromAddr ≠ toAddr then
          .rejected ⟨"from pledge balance not more than 700 ERB"⟩
        else if st.getBalance fromAddr < tx.gasFee + tx.value then .rejected ErrInsufficientFunds
        else .accepted
    else if wormholes.type = 4 then
      if st.getBalance fromAddr < tx.gasFee then .rejected ErrInsufficientFunds
      else
      match tx.toAddr with
      | none => .panic
      | some toAddr =>
        let stakerBalance := st.getStakerPledgedBalance fromAddr toAddr
        if tx.value ≤ st.getPledgedBalance toAddr then
          if stakerBalance < tx.value then .rejected ErrInsufficientFunds
          else if stakerBalance ≠ tx.value ∧ 0 < tx.value ∧ stakerBalance < tx.value + StakerBase then
            .rejected ErrInsufficientFundsForTransfer
          else .accepted
        else .rejected ErrInsufficientFunds
    else costCheck
  | none => costCheck

/-- `validateTx(tx, local)`. -/
def validateTx (tx : Transaction) (isLocal : Bool) : Validated :=
  if !pool.eip2718 ∧ tx.txType ≠ LegacyTxType then .rejected ErrTxTypeNotSupported
  else if !pool.eip1559 ∧ tx.txType = DynamicFeeTxType then .rejected ErrTxTypeNotSupported
  else if txMaxSize < tx.size then .rejected ErrOversizedData
  else if tx.value < 0 then .rejected ErrNegativeValue
  else if pool.currentMaxGas < tx.gas then .rejected ErrGasLimit
  -- a bit length above 256
  else if 2 ^ 256 ≤ tx.gasFeeCap then .rejected ErrFeeCapVeryHigh
  else if 2 ^ 256 ≤ tx.gasTipCap then .rejected ErrTipVeryHigh
  else if tx.gasFeeCap < tx.gasTipCap then .rejected ErrTipAboveFeeCap
  else
  match pool.sender tx with
  | none => .rejected ErrInvalidSender
  | some fromAddr =>
  if !isLocal ∧ tx.gasTipCap < pool.gasPrice then .rejected ErrUnderpriced
  else if tx.nonce < pool.currentState.getNonce fromAddr then .rejected ErrNonceTooLow
  else
  match pool.validateFunds tx fromAddr with
  | .accepted =>
    match intrinsicGas pool.unmarshal tx.data tx.accessList tx.toAddr.isNone true pool.istanbul with
    | .error err => .rejected err
    | .ok intrGas => if tx.gas.toNat < intrGas then .rejected ErrIntrinsicGas else .accepted
  | other => other

end TxPool

end Erbie
