import Erbie.Spec.Istanbul
import Erbie.Spec.Journal
import Erbie.Spec.RlpDecode
import Erbie.Lib.Keccak

/-! The extra data of Istanbul headers as bytes (`core/types/istanbul.go`,
`core/types/block.go`). `IstanbulExtra.EncodeRLP` writes the eight fields as a
list, a `nil` evil action as the empty list, and `DecodeRLP` reads them back
through a struct whose evil action is tagged `rlp:"nil"`. The headers of an
evil action are written and read by the header's own codec, which the fields
this model keeps of a header do not determine: `encodeHeader` and
`decodeHeader` are parameters, and so is the hash of a header through them.

`IstanbulFilteredHeader` re-encodes the extra data with the seals cleared, and
`Header.Hash` hashes that copy when the mix digest is `IstanbulDigest`;
`FilteredHeader` falls back to the QBFT layout when the extra data is no
`IstanbulExtra`. -/

namespace Erbie

open Rlp

/-- A `common.Address` from its 20 bytes. -/
def decodeAddress (i : Item) : Except String Address :=
  (decodeByteArray 20 i).map fun bs => BitVec.ofNat 160 (ofBigEndian bs)

def addressRlp (a : Address) : Item := .str (addressBytes a)

/-- A `common.Hash` from its 32 bytes. -/
def decodeHash (i : Item) : Except String Hash :=
  (decodeByteArray 32 i).map fun bs => BitVec.ofNat 256 (ofBigEndian bs)

def hashRlp (h : Hash) : Item := .str h.bytes

/-- `rlp.DecodeBytes` into a value whose decoder on the item is `ofRlp`. -/
def decodeBytesAs {α : Type} (ofRlp : Item → Except String α) (b : List UInt8) : Except Error α :=
  match decodeBytes b >>= ofRlp with
  | .ok a => .ok a
  | .error err => .error ⟨err⟩

section Istanbul

variable (encodeHeader : Header → Item) (decodeHeader : Item → Except String Header)

/-- `EvilAction` as a struct: `Handled`, then the headers. -/
def EvilAction.rlp (ea : EvilAction) : Item :=
  .list [writeBool ea.handled, .list (ea.evilHeaders.map encodeHeader)]

def EvilAction.ofRlp : Item → Except String EvilAction
  | .list xs => do
    let (handled, xs) ← decodeField decodeBool xs
    let (evilHeaders, xs) ← decodeField (decodeListSlice decodeHeader) xs
    listEnd xs
    pure ⟨handled, evilHeaders⟩
  | .str _ => .error errExpectedList

/-- `IstanbulExtra.EncodeRLP`. -/
def IstanbulExtra.rlp (e : IstanbulExtra) : Item :=
  .list [.list (e.validators.map addressRlp), .str e.proposerSeal, .list (e.committedSeal.map .str),
    .list (e.exchangerAddr.map addressRlp), .list (e.validatorAddr.map addressRlp),
    .list (e.rewardSeal.map .str), .list (e.emptyBlockMessages.map .str),
    nilRlp (EvilAction.rlp encodeHeader) e.evilAction]

/-- `IstanbulExtra.DecodeRLP`. -/
def IstanbulExtra.ofRlp : Item → Except String IstanbulExtra
  | .list xs => do
    let (validators, xs) ← decodeField (decodeListSlice decodeAddress) xs
    let (proposerSeal, xs) ← decodeField decodeByteSlice xs
    let (committedSeal, xs) ← decodeField (decodeListSlice decodeByteSlice) xs
    let (exchangerAddr, xs) ← decodeField (decodeListSlice decodeAddress) xs
    let (validatorAddr, xs) ← decodeField (decodeListSlice decodeAddress) xs
    let (rewardSeal, xs) ← decodeField (decodeListSlice decodeByteSlice) xs
    let (emptyBlockMessages, xs) ← decodeField (decodeListSlice decodeByteSlice) xs
    let (evilAction, xs) ← decodeField (decodeNilList (EvilAction.ofRlp decodeHeader)) xs
    listEnd xs
    pure ⟨validators, proposerSeal, committedSeal, exchangerAddr, validatorAddr, rewardSeal,
      emptyBlockMessages, evilAction⟩
  | .str _ => .error errExpectedList

/-- `rlp.EncodeToBytes(&istanbulExtra)`. -/
def IstanbulExtra.encode (e : IstanbulExtra) : List UInt8 := Rlp.encode (e.rlp encodeHeader)

/-- `rlp.DecodeBytes(b, &istanbulExtra)`. -/
def IstanbulExtra.decode : List UInt8 → Except Error IstanbulExtra :=
  decodeBytesAs (IstanbulExtra.ofRlp decodeHeader)

/-- The chain's primitives with `rlp.DecodeBytes` for the extra data. -/
def Crypto.withRlp (c : Crypto) : Crypto := { c with decodeExtra := IstanbulExtra.decode decodeHeader }

/-- The extra data with the fields an empty block's hash leaves out cleared. -/
def IstanbulExtra.clearEmpty (e : IstanbulExtra) : IstanbulExtra :=
  { e with
    proposerSeal := [], committedSeal := [], validators := [], validatorAddr := [],
    exchangerAddr := [], rewardSeal := [], emptyBlockMessages := [] }

/-- The extra data with the committed seals cleared, and the proposer's seal
unless `keepSeal`. -/
def IstanbulExtra.clearSeals (e : IstanbulExtra) (keepSeal : Bool) : IstanbulExtra :=
  let e := if keepSeal then e else { e with proposerSeal := [] }
  { e with committedSeal := [] }

/-- `IstanbulFilteredHeader(h, keepSeal)`, with `c`'s `ExtractIstanbulExtra`:
the copy of `h` whose extra data after the vanity is the cleared extra,
re-encoded; `nil` when the extra data does not decode. -/
def Crypto.istanbulFilteredHeader (c : Crypto) (h : Header) (keepSeal : Bool) : Option Header :=
  match c.extractIstanbulExtra h with
  | .error _ => none
  | .ok istanbulExtra =>
    if h.coinbase = zeroAddress ∧ 0 < h.number then
      some { h with extra := h.extra.take IstanbulExtraVanity ++ (istanbulExtra.clearEmpty).encode encodeHeader }
    else
      some { h with extra := h.extra.take IstanbulExtraVanity ++ (istanbulExtra.clearSeals keepSeal).encode encodeHeader }

end Istanbul

/-! ### The QBFT layout -/

structure ValidatorVote where
  recipientAddress : Address
  voteType : UInt8
deriving DecidableEq, Repr

structure QBFTExtra where
  vanityData : List UInt8
  validators : List Address
  vote : Option ValidatorVote
  round : UInt32
  committedSeal : List (List UInt8)
deriving DecidableEq, Repr

/-- `ValidatorVote.EncodeRLP`. -/
def ValidatorVote.rlp (v : ValidatorVote) : Item := .list [addressRlp v.recipientAddress, uint v.voteType.toNat]

def ValidatorVote.ofRlp : Item → Except String ValidatorVote
  | .list xs => do
    let (recipientAddress, xs) ← decodeField decodeAddress xs
    let (voteType, xs) ← decodeField (decodeUint 8) xs
    listEnd xs
    pure ⟨recipientAddress, voteType.toUInt8⟩
  | .str _ => .error errExpectedList

/-- `QBFTExtra.EncodeRLP`. -/
def QBFTExtra.rlp (q : QBFTExtra) : Item :=
  .list [.str q.vanityData, .list (q.validators.map addressRlp), nilRlp ValidatorVote.rlp q.vote,
    uint q.round.toNat, .list (q.committedSeal.map .str)]

/-- `QBFTExtra.DecodeRLP`. -/
def QBFTExtra.ofRlp : Item → Except String QBFTExtra
  | .list xs => do
    let (vanityData, xs) ← decodeField decodeByteSlice xs
    let (validators, xs) ← decodeField (decodeListSlice decodeAddress) xs
    let (vote, xs) ← decodeField (decodeNilList ValidatorVote.ofRlp) xs
    let (round, xs) ← decodeField (decodeUint 32) xs
    let (committedSeal, xs) ← decodeField (decodeListSlice decodeByteSlice) xs
    listEnd xs
    pure ⟨vanityData, validators, vote, round.toUInt32, committedSeal⟩
  | .str _ => .error errExpectedList

/-- `ExtractQBFTExtra`: the whole extra data. -/
def extractQBFTExtra (h : Header) : Except Error QBFTExtra := decodeBytesAs QBFTExtra.ofRlp h.extra

/-- `QBFTFilteredHeaderWithRound(h, round)`. -/
def qbftFilteredHeaderWithRound (h : Header) (round : UInt32) : Option Header :=
  match extractQBFTExtra h with
  | .error _ => none
  | .ok qbftExtra => some { h with extra := Rlp.encode ({ qbftExtra with committedSeal := [], round }.rlp) }

/-- `QBFTFilteredHeader`. -/
def qbftFilteredHeader (h : Header) : Option Header := qbftFilteredHeaderWithRound h 0

/-! ### Hashes -/

section Hash

variable (encodeHeader : Header → Item)

/-- `FilteredHeader`: the Istanbul copy with the proposer's seal kept, or the
QBFT one when the extra data is no `IstanbulExtra`. -/
def Crypto.filteredHeader (c : Crypto) (h : Header) : Option Header :=
  match c.extractIstanbulExtra h with
  | .error _ => qbftFilteredHeader h
  | .ok _ => c.istanbulFilteredHeader encodeHeader h true

/-- `rlpHash(h)`: the Keccak-256 hash of the header's encoding. -/
def rlpHash (h : Header) : Hash :=
  BitVec.ofNat 256 (ofBigEndian (Keccak.keccak256 (Rlp.encode (encodeHeader h))))

/-- `Header.Hash`. -/
def Crypto.headerHash (c : Crypto) (h : Header) : Hash :=
  if h.mixDigest = IstanbulDigest then
    match c.filteredHeader encodeHeader h with
    | some istanbulHeader => rlpHash encodeHeader istanbulHeader
    | none => rlpHash encodeHeader h
  else rlpHash encodeHeader h

end Hash

end Erbie
