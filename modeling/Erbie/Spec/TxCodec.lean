import Erbie.Spec.ExtraData
import Erbie.Spec.TxPool

/-! Transactions as bytes (`core/types/transaction.go`, `legacy_tx.go`,
`access_list_tx.go`, `dynamic_fee_tx.go`). A legacy transaction is the RLP
list of its nine fields; a typed one (EIP-2718) is its type byte followed by
the RLP list of its fields. `MarshalBinary` writes these bytes, and
`UnmarshalBinary` reads them, taking a first byte above `0x7f`, which only a
list header has, for a legacy transaction. Inside a block `EncodeRLP` writes a
typed transaction as an RLP string of those bytes, and `DecodeRLP` tells the
two forms by the kind of the item. `Hash` is the Keccak-256 hash of the
RLP of the fields, behind the type byte for a typed transaction.

A `*big.Int` field is a `Nat`: RLP writes a `nil` one as zero, fails on a
negative one, and reads back only non-negative values. A `Transaction` is its
inner `TxData`; the time it was first seen and the caches of its hash, size
and sender are left out. -/

namespace Erbie

open Rlp

/-- A `uint64` field. -/
def decodeUint64 (i : Item) : Except String UInt64 :=
  (decodeUint 64 i).map UInt64.ofNat

def uint64Rlp (n : UInt64) : Item := uint n.toNat

def AccessListTxType : Nat := 1

def errEmptyTypedTx : Error := ⟨"empty typed transaction bytes"⟩

/-- `types.AccessTuple`. -/
structure AccessTuple where
  address : Address
  storageKeys : List Hash
deriving DecidableEq, Repr

def AccessTuple.rlp (t : AccessTuple) : Item :=
  .list [addressRlp t.address, .list (t.storageKeys.map hashRlp)]

def AccessTuple.ofRlp : Item → Except String AccessTuple
  | .list xs => do
    let (address, xs) ← decodeField decodeAddress xs
    let (storageKeys, xs) ← decodeField (decodeListSlice decodeHash) xs
    listEnd xs
    pure ⟨address, storageKeys⟩
  | .str _ => .error errExpectedList

/-- `types.LegacyTx`; `To` is tagged `rlp:"nil"`, and `nil` is a contract
creation. -/
structure LegacyTx where
  nonce : UInt64
  gasPrice : Nat
  gas : UInt64
  toAddr : Option Address
  value : Nat
  data : List UInt8
  v : Nat
  r : Nat
  s : Nat
deriving DecidableEq, Repr

def LegacyTx.rlp (tx : LegacyTx) : Item :=
  .list [uint64Rlp tx.nonce, uint tx.gasPrice, uint64Rlp tx.gas, writeNilPtr .string addressRlp tx.toAddr,
    uint tx.value, .str tx.data, uint tx.v, uint tx.r, uint tx.s]

def LegacyTx.ofRlp : Item → Except String LegacyTx
  | .list xs => do
    let (nonce, xs) ← decodeField decodeUint64 xs
    let (gasPrice, xs) ← decodeField decodeBigInt xs
    let (gas, xs) ← decodeField decodeUint64 xs
    let (toAddr, xs) ← decodeField (decodeNilString decodeAddress) xs
    let (value, xs) ← decodeField decodeBigInt xs
    let (data, xs) ← decodeField decodeByteSlice xs
    let (v, xs) ← decodeField decodeBigInt xs
    let (r, xs) ← decodeField decodeBigInt xs
    let (s, xs) ← decodeField decodeBigInt xs
    listEnd xs
    pure ⟨nonce, gasPrice, gas, toAddr, value, data, v, r, s⟩
  | .str _ => .error errExpectedList

/-- `types.AccessListTx` (EIP-2930). -/
structure AccessListTx where
  chainID : Nat
  nonce : UInt64
  gasPrice : Nat
  gas : UInt64
  toAddr : Option Address
  value : Nat
  data : List UInt8
  accessList : List AccessTuple
  v : Nat
  r : Nat
  s : Nat
deriving DecidableEq, Repr

def AccessListTx.rlp (tx : AccessListTx) : Item :=
  .list [uint tx.chainID, uint64Rlp tx.nonce, uint tx.gasPrice, uint64Rlp tx.gas,
    writeNilPtr .string addressRlp tx.toAddr, uint tx.value, .str tx.data,
    .list (tx.accessList.map AccessTuple.rlp), uint tx.v, uint tx.r, uint tx.s]

def AccessListTx.ofRlp : Item → Except String AccessListTx
  | .list xs => do
    let (chainID, xs) ← decodeField decodeBigInt xs
    let (nonce, xs) ← decodeField decodeUint64 xs
    let (gasPrice, xs) ← decodeField decodeBigInt xs
    let (gas, xs) ← decodeField decodeUint64 xs
    let (toAddr, xs) ← decodeField (decodeNilString decodeAddress) xs
    let (value, xs) ← decodeField decodeBigInt xs
    let (data, xs) ← decodeField decodeByteSlice xs
    let (accessList, xs) ← decodeField (decodeListSlice AccessTuple.ofRlp) xs
    let (v, xs) ← decodeField decodeBigInt xs
    let (r, xs) ← decodeField decodeBigInt xs
    let (s, xs) ← decodeField decodeBigInt xs
    listEnd xs
    pure ⟨chainID, nonce, gasPrice, gas, toAddr, value, data, accessList, v, r, s⟩
  | .str _ => .error errExpectedList

/-- `types.DynamicFeeTx` (EIP-1559). -/
structure DynamicFeeTx where
  chainID : Nat
  nonce : UInt64
  gasTipCap : Nat
  gasFeeCap : Nat
  gas : UInt64
  toAddr : Option Address
  value : Nat
  data : List UInt8
  accessList : List AccessTuple
  v : Nat
  r : Nat
  s : Nat
deriving DecidableEq, Repr

def DynamicFeeTx.rlp (tx : DynamicFeeTx) : Item :=
  .list [uint tx.chainID, uint64Rlp tx.nonce, uint tx.gasTipCap, uint tx.gasFeeCap, uint64Rlp tx.gas,
    writeNilPtr .string addressRlp tx.toAddr, uint tx.value, .str tx.data,
    .list (tx.accessList.map AccessTuple.rlp), uint tx.v, uint tx.r, uint tx.s]

def DynamicFeeTx.ofRlp : Item → Except String DynamicFeeTx
  | .list xs => do
    let (chainID, xs) ← decodeField decodeBigInt xs
    let (nonce, xs) ← decodeField decodeUint64 xs
    let (gasTipCap, xs) ← decodeField decodeBigInt xs
    let (gasFeeCap, xs) ← decodeField decodeBigInt xs
    let (gas, xs) ← decodeField decodeUint64 xs
    let (toAddr, xs) ← decodeField (decodeNilString decodeAddress) xs
    let (value, xs) ← decodeField decodeBigInt xs
    let (data, xs) ← decodeField decodeByteSlice xs
    let (accessList, xs) ← decodeField (decodeListSlice AccessTuple.ofRlp) xs
    let (v, xs) ← decodeField decodeBigInt xs
    let (r, xs) ← decodeField decodeBigInt xs
    let (s, xs) ← decodeField decodeBigInt xs
    listEnd xs
    pure ⟨chainID, nonce, gasTipCap, gasFeeCap, gas, toAddr, value, data, accessList, v, r, s⟩
  | .str _ => .error errExpectedList

/-- The consensus contents of a transaction, `TxData`. -/
inductive TxData where
  | legacy (tx : LegacyTx)
  | accessList (tx : AccessListTx)
  | dynamicFee (tx : DynamicFeeTx)
deriving DecidableEq, Repr

namespace TxData

/-- `Type()`. -/
def type : TxData → Nat
  | .legacy _ => LegacyTxType
  | .accessList _ => AccessListTxType
  | .dynamicFee _ => DynamicFeeTxType

/-- The RLP of the inner transaction, `rlp.Encode(w, tx.inner)`. -/
def inner : TxData → Item
  | .legacy tx => tx.rlp
  | .accessList tx => tx.rlp
  | .dynamicFee tx => tx.rlp

/-- `encodeTyped`: the type byte, then the RLP of the fields. -/
def encodeTyped (tx : TxData) : List UInt8 := UInt8.ofNat tx.type :: Rlp.encode tx.inner

/-- `MarshalBinary`. -/
def marshalBinary (tx : TxData) : List UInt8 :=
  if tx.type = LegacyTxType then Rlp.encode tx.inner else tx.encodeTyped

/-- `decodeTyped`: the type byte selects the decoder of the rest. -/
def decodeTyped : List UInt8 → Except Error TxData
  | [] => .error errEmptyTypedTx
  | t :: b =>
    if t.toNat = AccessListTxType then (decodeBytesAs AccessListTx.ofRlp b).map .accessList
    else if t.toNat = DynamicFeeTxType then (decodeBytesAs DynamicFeeTx.ofRlp b).map .dynamicFee
    else .error ErrTxTypeNotSupported

/-- `UnmarshalBinary`. -/
def unmarshalBinary (b : List UInt8) : Except Error TxData :=
  match b with
  | b₀ :: _ => if 0x7f < b₀ then (decodeBytesAs LegacyTx.ofRlp b).map .legacy else decodeTyped b
  | [] => decodeTyped b

/-- `EncodeRLP`: a legacy transaction as its list, a typed one as a string of
its typed encoding. -/
def encodeRLP (tx : TxData) : Item :=
  if tx.type = LegacyTxType then tx.inner else .str tx.encodeTyped

/-- `DecodeRLP`: a list is a legacy transaction, a string a typed one, and a
single byte below `0x80` neither. -/
def decodeRLP : Item → Except Error TxData
  | .list xs =>
    match LegacyTx.ofRlp (.list xs) with
    | .ok tx => .ok (.legacy tx)
    | .error err => .error ⟨err⟩
  | .str bs =>
    match bs with
    | [b] => if b < 0x80 then .error ⟨errExpectedList⟩ else decodeTyped bs
    | _ => decodeTyped bs

/-- Keccak-256 of bytes, as a hash. -/
def keccakHash (b : List UInt8) : Hash := BitVec.ofNat 256 (ofBigEndian (Keccak.keccak256 b))

/-- `Hash`: `rlpHash` of a legacy transaction, `prefixedRlpHash` of a typed
one. -/
def hash (tx : TxData) : Hash :=
  if tx.type = LegacyTxType then keccakHash (Rlp.encode tx.inner)
  else keccakHash (UInt8.ofNat tx.type :: Rlp.encode tx.inner)

end TxData

end Erbie
