import Erbie.Spec.TxCodec

/-! Transaction signatures (`core/types/transaction_signing.go`,
`crypto/crypto.go`). A signer computes the hash a sender signs, turns a
65-byte signature `[R || S || V]` into the values `V`, `R`, `S` a transaction
carries, and recovers the sender from them. Each of the five signers extends
the one before: `FrontierSigner` signs the six payment fields of a legacy
transaction, `HomesteadSigner` also rejects the upper half of `S`,
`EIP155Signer` adds the chain id to the signed fields and to `V`,
`eip2930Signer` adds the access-list transaction and `londonSigner` the
dynamic-fee one; a signer hands a transaction it does not know to the one it
extends.

The secp256k1 recovery `crypto.Ecrecover` is the parameter `ecrecover`; the
rest of `recoverPlain`, with `ValidateSignatureValues`, is modelled. A
`*big.Int` of a transaction is a `Nat` (a `nil` one is zero); the arithmetic
that `Sender` does on `V` is on `Int`, where `BitLen` and `Uint64` read the
absolute value. `decodeSignature` panics on a signature that is not 65 bytes
long, and a function that can reach it returns `none`. -/

namespace Erbie

open Rlp

def ErrInvalidSig : Error := ⟨"invalid transaction v, r, s values"⟩
def ErrInvalidChainId : Error := ⟨"invalid chain id for signer"⟩
def errInvalidPublicKey : Error := ⟨"invalid public key"⟩

def secp256k1N : Nat := 0xfffffffffffffffffffffffffffffffebaaedce6af48a03bbfd25e8cd0364141
def secp256k1halfN : Nat := secp256k1N / 2

/-- `crypto.ValidateSignatureValues`. -/
def validateSignatureValues (v : UInt8) (r s : Nat) (homestead : Bool) : Bool :=
  if r < 1 || s < 1 then false
  else if homestead && secp256k1halfN < s then false
  else r < secp256k1N && s < secp256k1N && (v == 0 || v == 1)

/-- `copy(sig[k-len(b):k], b)`: the bytes `b` right-aligned in `k` zero bytes. -/
def padBytes (k : Nat) (b : List UInt8) : List UInt8 := List.replicate (k - b.length) 0 ++ b

/-- The address of an uncompressed public key without its `0x04` prefix:
the last 20 bytes of its Keccak-256 hash. -/
def pubkeyAddress (key : List UInt8) : Address :=
  BitVec.ofNat 160 (ofBigEndian ((Keccak.keccak256 key).drop 12))

section Recover

variable (ecrecover : Hash → List UInt8 → Except Error (List UInt8))

/-- `recoverPlain`: `V` is brought back to a recovery id by `byte(V - 27)`,
and `R`, `S` are written back into a 65-byte signature for `Ecrecover`. -/
def recoverPlain (sighash : Hash) (R S : Nat) (Vb : Int) (homestead : Bool) : Except Error Address :=
  if 256 ≤ Vb.natAbs then .error ErrInvalidSig
  else
    let V := UInt8.ofNat Vb.natAbs - 27
    if !validateSignatureValues V R S homestead then .error ErrInvalidSig
    else do
      let pub ← ecrecover sighash (padBytes 32 (bigEndian R) ++ padBytes 32 (bigEndian S) ++ [V])
      match pub with
      | 4 :: key => .ok (pubkeyAddress key)
      | _ => .error errInvalidPublicKey

/-- What a signature proves by itself: the address of the key that
`ecrecover` finds for a hash and the signature bytes, when
`ValidateSignatureValues` admits its values. This is the specification that
`Sender` is compared with. -/
def signatureAddress (h : Hash) (sig : List UInt8) (homestead : Bool) : Except Error Address :=
  if !validateSignatureValues (sig.getD 64 0) (ofBigEndian (sig.take 32))
      (ofBigEndian ((sig.drop 32).take 32)) homestead then .error ErrInvalidSig
  else do
    let pub ← ecrecover h sig
    match pub with
    | 4 :: key => .ok (pubkeyAddress key)
    | _ => .error errInvalidPublicKey

end Recover

/-- `decodeSignature`: `R`, `S` and `V = sig[64] + 27`, a byte addition. -/
def decodeSignature (sig : List UInt8) : Option (Nat × Nat × Nat) :=
  if sig.length ≠ 65 then none
  else some (ofBigEndian (sig.take 32), ofBigEndian ((sig.drop 32).take 32), (sig.getD 64 0 + 27).toNat)

/-- `deriveChainId`: the chain id an EIP-155 `V` carries, `(V - 35) / 2`,
with the subtraction of `uint64` when `V` fits in 64 bits. -/
def deriveChainId (v : Nat) : Nat :=
  if v < 2 ^ 64 then
    if v = 27 ∨ v = 28 then 0 else (v + 2 ^ 64 - 35) % 2 ^ 64 / 2
  else (v - 35) / 2

/-- `isProtectedV`. -/
def isProtectedV (v : Nat) : Bool :=
  if v < 256 then v != 27 && v != 28 && v != 1 && v != 0 else true

namespace TxData

/-! The accessors of `Transaction` that the signers read. -/

def nonce : TxData → UInt64
  | .legacy tx => tx.nonce
  | .accessList tx => tx.nonce
  | .dynamicFee tx => tx.nonce

/-- `GasPrice()`: the fee cap of a dynamic-fee transaction. -/
def gasPrice : TxData → Nat
  | .legacy tx => tx.gasPrice
  | .accessList tx => tx.gasPrice
  | .dynamicFee tx => tx.gasFeeCap

def gas : TxData → UInt64
  | .legacy tx => tx.gas
  | .accessList tx => tx.gas
  | .dynamicFee tx => tx.gas

def toAddr : TxData → Option Address
  | .legacy tx => tx.toAddr
  | .accessList tx => tx.toAddr
  | .dynamicFee tx => tx.toAddr

def value : TxData → Nat
  | .legacy tx => tx.value
  | .accessList tx => tx.value
  | .dynamicFee tx => tx.value

def data : TxData → List UInt8
  | .legacy tx => tx.data
  | .accessList tx => tx.data
  | .dynamicFee tx => tx.data

/-- `AccessList()`. -/
def accessTuples : TxData → List AccessTuple
  | .legacy _ => []
  | .accessList tx => tx.accessList
  | .dynamicFee tx => tx.accessList

/-- `RawSignatureValues()`: `V`, `R`, `S`. -/
def rawSignatureValues : TxData → Nat × Nat × Nat
  | .legacy tx => (tx.v, tx.r, tx.s)
  | .accessList tx => (tx.v, tx.r, tx.s)
  | .dynamicFee tx => (tx.v, tx.r, tx.s)

/-- `ChainId()`: a legacy transaction carries it in `V`. -/
def chainId : TxData → Nat
  | .legacy tx => deriveChainId tx.v
  | .accessList tx => tx.chainID
  | .dynamicFee tx => tx.chainID

/-- `Protected()`; a `nil` `V` is zero, which `isProtectedV` rejects as `V != nil` does. -/
def isProtected : TxData → Bool
  | .legacy tx => isProtectedV tx.v
  | _ => true

/-- `setSignatureValues` of the copy `WithSignature` makes: a typed
transaction also takes the signer's chain id. -/
def setSignatureValues (chainID : Option Nat) (v r s : Nat) : TxData → TxData
  | .legacy tx => .legacy { tx with v := v, r := r, s := s }
  | .accessList tx => .accessList { tx with chainID := chainID.getD 0, v := v, r := r, s := s }
  | .dynamicFee tx => .dynamicFee { tx with chainID := chainID.getD 0, v := v, r := r, s := s }

/-- The six fields `FrontierSigner.Hash` signs. -/
def frontierFields (tx : TxData) : List Item :=
  [uint64Rlp tx.nonce, uint tx.gasPrice, uint64Rlp tx.gas, writeNilPtr .string addressRlp tx.toAddr,
    uint tx.value, .str tx.data]

/-- The nine fields `EIP155Signer.Hash` signs: the six, the chain id and two zeros. -/
def eip155Fields (chainId : Nat) (tx : TxData) : List Item :=
  tx.frontierFields ++ [uint chainId, uint 0, uint 0]

end TxData

/-- The signers of the source, with the chain id of those that have one. -/
inductive Signer where
  | london (chainId : Nat)
  | eip2930 (chainId : Nat)
  | eip155 (chainId : Nat)
  | homestead
  | frontier
deriving DecidableEq, Repr

namespace Signer

open TxData

/-! ### `Hash` -/

def frontierHash (tx : TxData) : Hash := keccakHash (encode (.list tx.frontierFields))

def eip155Hash (chainId : Nat) (tx : TxData) : Hash := keccakHash (encode (.list (tx.eip155Fields chainId)))

/-- `eip2930Signer.Hash`: a legacy transaction signs the fields of
`EIP155Signer.Hash`, and a type it does not know signs the zero hash. -/
def eip2930Hash (chainId : Nat) (tx : TxData) : Hash :=
  match tx with
  | .legacy _ => eip155Hash chainId tx
  | .accessList _ =>
    keccakHash (UInt8.ofNat tx.type :: encode (.list [uint chainId, uint64Rlp tx.nonce, uint tx.gasPrice,
      uint64Rlp tx.gas, writeNilPtr .string addressRlp tx.toAddr, uint tx.value, .str tx.data,
      .list (tx.accessTuples.map AccessTuple.rlp)]))
  | .dynamicFee _ => 0

def londonHash (chainId : Nat) (tx : TxData) : Hash :=
  match tx with
  | .dynamicFee d =>
    keccakHash (UInt8.ofNat tx.type :: encode (.list [uint chainId, uint64Rlp tx.nonce, uint d.gasTipCap,
      uint d.gasFeeCap, uint64Rlp tx.gas, writeNilPtr .string addressRlp tx.toAddr, uint tx.value,
      .str tx.data, .list (tx.accessTuples.map AccessTuple.rlp)]))
  | _ => eip2930Hash chainId tx

def hash : Signer → TxData → Hash
  | london c => londonHash c
  | eip2930 c => eip2930Hash c
  | eip155 c => eip155Hash c
  | homestead => frontierHash
  | frontier => frontierHash

/-- `ChainID()`. -/
def chainID : Signer → Option Nat
  | london c => some c
  | eip2930 c => some c
  | eip155 c => some c
  | homestead => none
  | frontier => none

/-- Whether `Sender` rejects the upper half of `S`: all but `FrontierSigner`. -/
def homesteadRules : Signer → Bool
  | frontier => false
  | _ => true

/-! ### `Sender` -/

section Sender

variable (ecrecover : Hash → List UInt8 → Except Error (List UInt8))

def frontierSender (tx : TxData) : Except Error Address :=
  if tx.type ≠ LegacyTxType then .error ErrTxTypeNotSupported
  else
    let (v, r, s) := tx.rawSignatureValues
    recoverPlain ecrecover (frontierHash tx) r s v false

def homesteadSender (tx : TxData) : Except Error Address :=
  if tx.type ≠ LegacyTxType then .error ErrTxTypeNotSupported
  else
    let (v, r, s) := tx.rawSignatureValues
    recoverPlain ecrecover (frontierHash tx) r s v true

def eip155Sender (chainId : Nat) (tx : TxData) : Except Error Address :=
  if tx.type ≠ LegacyTxType then .error ErrTxTypeNotSupported
  else if !tx.isProtected then homesteadSender ecrecover tx
  else if tx.chainId ≠ chainId then .error ErrInvalidChainId
  else
    let (v, r, s) := tx.rawSignatureValues
    recoverPlain ecrecover (eip155Hash chainId tx) r s ((v : Int) - 2 * chainId - 8) true

/-- `eip2930Signer.Sender`: `V` is normalised by the type, and the chain id
is checked after. -/
def eip2930Sender (chainId : Nat) (tx : TxData) : Except Error Address :=
  let (v, r, s) := tx.rawSignatureValues
  match tx with
  | .legacy _ =>
    if !tx.isProtected then homesteadSender ecrecover tx
    else if tx.chainId ≠ chainId then .error ErrInvalidChainId
    else recoverPlain ecrecover (eip2930Hash chainId tx) r s ((v : Int) - 2 * chainId - 8) true
  | .accessList _ =>
    if tx.chainId ≠ chainId then .error ErrInvalidChainId
    else recoverPlain ecrecover (eip2930Hash chainId tx) r s ((v : Int) + 27) true
  | .dynamicFee _ => .error ErrTxTypeNotSupported

def londonSender (chainId : Nat) (tx : TxData) : Except Error Address :=
  match tx with
  | .dynamicFee _ =>
    let (v, r, s) := tx.rawSignatureValues
    if tx.chainId ≠ chainId then .error ErrInvalidChainId
    else recoverPlain ecrecover (londonHash chainId tx) r s ((v : Int) + 27) true
  | _ => eip2930Sender ecrecover chainId tx

def sender : Signer → TxData → Except Error Address
  | london c => londonSender ecrecover c
  | eip2930 c => eip2930Sender ecrecover c
  | eip155 c => eip155Sender ecrecover c
  | homestead => homesteadSender ecrecover
  | frontier => frontierSender ecrecover

end Sender

/-! ### `SignatureValues`, as `(R, S, V)` -/

def frontierSignatureValues (tx : TxData) (sig : List UInt8) : Option (Except Error (Nat × Nat × Nat)) :=
  if tx.type ≠ LegacyTxType then some (.error ErrTxTypeNotSupported)
  else (decodeSignature sig).map .ok

/-- `EIP155Signer.SignatureValues`: with a chain id, `V` is
`sig[64] + 35` (a byte addition) plus twice the chain id. -/
def eip155SignatureValues (chainId : Nat) (tx : TxData) (sig : List UInt8) :
    Option (Except Error (Nat × Nat × Nat)) :=
  if tx.type ≠ LegacyTxType then some (.error ErrTxTypeNotSupported)
  else (decodeSignature sig).map fun (R, S, V) =>
    .ok (R, S, if chainId ≠ 0 then (sig.getD 64 0 + 35).toNat + 2 * chainId else V)

/-- `eip2930Signer.SignatureValues`: an access-list transaction may carry the
signer's chain id or none, and takes the recovery id itself as `V`. -/
def eip2930SignatureValues (chainId : Nat) (tx : TxData) (sig : List UInt8) :
    Option (Except Error (Nat × Nat × Nat)) :=
  match tx with
  | .legacy _ => eip155SignatureValues chainId tx sig
  | .accessList a =>
    if a.chainID ≠ 0 ∧ a.chainID ≠ chainId then some (.error ErrInvalidChainId)
    else (decodeSignature sig).map fun (R, S, _) => .ok (R, S, (sig.getD 64 0).toNat)
  | .dynamicFee _ => some (.error ErrTxTypeNotSupported)

def londonSignatureValues (chainId : Nat) (tx : TxData) (sig : List UInt8) :
    Option (Except Error (Nat × Nat × Nat)) :=
  match tx with
  | .dynamicFee d =>
    if d.chainID ≠ 0 ∧ d.chainID ≠ chainId then some (.error ErrInvalidChainId)
    else (decodeSignature sig).map fun (R, S, _) => .ok (R, S, (sig.getD 64 0).toNat)
  | _ => eip2930SignatureValues chainId tx sig

def signatureValues : Signer → TxData → List UInt8 → Option (Except Error (Nat × Nat × Nat))
  | london c => londonSignatureValues c
  | eip2930 c => eip2930SignatureValues c
  | eip155 c => eip155SignatureValues c
  | homestead => frontierSignatureValues
  | frontier => frontierSignatureValues

/-- `Transaction.WithSignature`. -/
def withSignature (s : Signer) (tx : TxData) (sig : List UInt8) : Option (Except Error TxData) :=
  (s.signatureValues tx sig).map fun r => r.map fun (R, S, V) => tx.setSignatureValues s.chainID V R S

/-- `SignTx`: the key signs the signer's hash, and the signature is set. -/
def signTx (sign : Hash → Except Error (List UInt8)) (s : Signer) (tx : TxData) :
    Option (Except Error TxData) :=
  match sign (s.hash tx) with
  | .error err => some (.error err)
  | .ok sig => s.withSignature tx sig

end Signer

end Erbie
