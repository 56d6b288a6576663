import Erbie.Lib.Quorum
import Erbie.Spec.Types

/-! Istanbul block headers and their verification
(`consensus/istanbul/ibft/engine/engine.go`, `consensus/istanbul/backend/engine.go`).
The consensus fields of a header sit in its extra data, after 32 bytes of
vanity, as an RLP-encoded `IstanbulExtra`: the validators, the proposer's
seal, the committed seals, the reward lists and the empty-block votes.

Headers carry the fields the checks read; the hashes, the RLP decoder and
signature recovery are parameters (`Crypto`). A validator set is the list of
its addresses: `NewSet` also sorts it, and only the proposer choice, which no
check here makes, reads the order. -/

namespace Erbie

abbrev Hash := BitVec 256

/-- `Hash.Bytes()`, big-endian. -/
def Hash.bytes (h : Hash) : List UInt8 :=
  (List.range 32).map fun i => (h.toNat / 256 ^ (31 - i) % 256).toUInt8

structure Header where
  parentHash : Hash
  coinbase : Address
  root : Hash
  difficulty : Option Nat
  number : Nat
  time : Nat
  extra : List UInt8
  mixDigest : Hash
  nonce : BitVec 64
deriving DecidableEq, Repr

/-- `Header.EmptyBlock`: a block without a coinbase. -/
def Header.emptyBlock (h : Header) : Bool := h.coinbase = zeroAddress

structure EvilAction where
  handled : Bool
  evilHeaders : List Header
deriving DecidableEq, Repr

structure IstanbulExtra where
  validators : List Address := []
  /-- `Seal`, the proposer's signature. -/
  proposerSeal : List UInt8 := []
  committedSeal : List (List UInt8) := []
  exchangerAddr : List Address := []
  validatorAddr : List Address := []
  rewardSeal : List (List UInt8) := []
  emptyBlockMessages : List (List UInt8) := []
  evilAction : Option EvilAction := none
deriving DecidableEq, Repr

def IstanbulExtraVanity : Nat := 32
def IstanbulExtraSeal : Nat := 65
def IstanbulDigest : Hash := 0x63746963616c2062797a616e74696e65206661756c7420746f6c6572616e6365#256
def EmptyBlockNonce : BitVec 64 := 0
def nonceAuthVote : BitVec 64 := 0xffffffffffffffff#64
def nonceDropVote : BitVec 64 := 0
def DefaultDifficulty : Nat := 1
/-- The difficulty of an empty block. -/
def EmptyBlockDifficulty : Nat := 24
/-- `ibfttypes.MsgCommit`. -/
def MsgCommit : UInt8 := 2

def ErrInvalidIstanbulHeaderExtra : Error := ⟨"invalid istanbul header extra-data"⟩
def ErrInvalidSignature : Error := ⟨"invalid signature"⟩
def ErrUnknownBlock : Error := ⟨"unknown block"⟩
def ErrUnauthorized : Error := ⟨"unauthorized"⟩
def ErrInvalidDifficulty : Error := ⟨"invalid difficulty"⟩
def ErrInvalidExtraDataFormat : Error := ⟨"invalid extra data format"⟩
def ErrInvalidMixDigest : Error := ⟨"invalid Istanbul mix digest"⟩
def ErrInvalidNonce : Error := ⟨"invalid nonce"⟩
def ErrInvalidTimestamp : Error := ⟨"invalid timestamp"⟩
def ErrInvalidCommittedSeals : Error := ⟨"invalid committed seals"⟩
def ErrEmptyCommittedSeals : Error := ⟨"zero committed seals"⟩
def ErrUnknownAncestor : Error := ⟨"unknown ancestor"⟩
def ErrFutureBlock : Error := ⟨"block in the future"⟩

/-- What the chain takes from hashing, encoding and signatures: the RLP
decoder of `IstanbulExtra`, the block hash, the seal hash `sigHash`, and
`GetSignatureAddress(data, sig)`, which hashes `data` and recovers the signer
of `sig`. -/
structure Crypto where
  decodeExtra : List UInt8 → Except Error IstanbulExtra
  hash : Header → Hash
  sigHash : Header → Hash
  getSignatureAddress : List UInt8 → List UInt8 → Except Error Address

/-- `PrepareCommittedSeal(hash)`: what a committed seal signs. -/
def prepareCommittedSeal (hash : Hash) : List UInt8 := hash.bytes ++ [MsgCommit]

/-- The lawful `==` of addresses, by which a validator set is searched. -/
instance : LawfulBEq Address := inferInstance

/-- The validator set of a header check, by its addresses. -/
abbrev ValidatorSet := List Address

namespace ValidatorSet

/-- `defaultSet.F`. -/
def F (vs : ValidatorSet) : Int := Quorum.faulty vs.length

/-- `GetByAddress(addr)` finds a validator. -/
def getByAddress (vs : ValidatorSet) (a : Address) : Option Address := vs.find? (· = a)

/-- `RemoveValidator(addr)` on a copy: the set without the first `addr`, if
there is one. -/
def removeValidator (vs : ValidatorSet) (a : Address) : Option ValidatorSet :=
  if a ∈ vs then some (vs.erase a) else none

end ValidatorSet

/-- The committee `Random11ValidatorFromPool(parent)`, from `picked`, the
addresses that `RandomValidatorV4` drew from the parent state's validator
list: each one, or its proxy when it has one, with the stake of that address.
It is the set `Backend.VerifySeal` and `Backend.Prepare` check against. -/
def random11ValidatorFromPool (validatorList : List Validator) (picked : List Address) :
    List Validator :=
  picked.foldl (fun elevenValidator addr =>
    match ValidatorList.getProxy validatorList addr with
    | some proxy =>
      ValidatorList.addValidator elevenValidator proxy
        (ValidatorList.stakeBalance validatorList proxy) zeroAddress
    | none =>
      ValidatorList.addValidator elevenValidator addr
        (ValidatorList.stakeBalance validatorList addr) zeroAddress) []

/-- `Engine.QuorumSize(valSize)`. -/
def quorumSize (valSize : Nat) : Int := Quorum.size valSize

namespace Crypto

variable (c : Crypto)

/-- `ExtractIstanbulExtra`. -/
def extractIstanbulExtra (h : Header) : Except Error IstanbulExtra :=
  if h.extra.length < IstanbulExtraVanity then .error ErrInvalidIstanbulHeaderExtra
  else c.decodeExtra (h.extra.drop IstanbulExtraVanity)

/-- The signers of `seals` over the commit of the header with hash `hash`;
one seal that does not recover fails them all. -/
def recoverSeals (hash : Hash) (seals : List (List UInt8)) : Except Error (List Address) :=
  seals.mapM fun sig =>
    match c.getSignatureAddress (prepareCommittedSeal hash) sig with
    | .ok addr => .ok addr
    | .error _ => .error ErrInvalidSignature

/-- `Engine.Signers`: the signers of the committed seals. -/
def signers (h : Header) : Except Error (List Address) := do
  let extra ← c.extractIstanbulExtra h
  c.recoverSeals (c.hash h) extra.committedSeal

/-- `Engine.RecoverRewards`: the signers of reward seals, which are copies of
the committed seals of `h`. -/
def recoverRewards (h : Header) (rewardSeal : List (List UInt8)) : Except Error (List Address) :=
  c.recoverSeals (c.hash h) rewardSeal

/-- `Engine.Author`: the signer of the proposer's seal; the zero address for
an empty block. -/
def author (h : Header) : Except Error Address := do
  let extra ← c.extractIstanbulExtra h
  if h.coinbase = zeroAddress ∧ 0 < h.number then pure zeroAddress
  else c.getSignatureAddress (c.sigHash h).bytes extra.proposerSeal

/-- `Engine.verifySigner`. -/
def verifySigner (h : Header) (validators : ValidatorSet) : Option Error :=
  if h.number = 0 then some ErrUnknownBlock
  else
    match c.author h with
    | .error err => some err
    | .ok signer => if (validators.getByAddress signer).isNone then some ErrUnauthorized else none

/-- The loop of `verifyCommittedSeals`: every committer is removed from a copy
of the set, and the count of removals is returned; a committer that cannot be
removed, because it is no validator or is one already counted, fails it. -/
def countSeals : ValidatorSet → List Address → Option Nat
  | _, [] => some 0
  | vs, a :: rest =>
    match vs.removeValidator a with
    | some vs' => (countSeals vs' rest).map (· + 1)
    | none => none

/-- `Engine.verifyCommittedSeals`. -/
def verifyCommittedSeals (h : Header) (validators : ValidatorSet) : Option Error :=
  if h.number = 0 then none
  else
    match c.extractIstanbulExtra h with
    | .error err => some err
    | .ok extra =>
      if h.coinbase = zeroAddress ∧ 0 < h.number then none
      else if extra.committedSeal = [] then some ErrEmptyCommittedSeals
      else
        match c.signers h with
        | .error err => some err
        | .ok committers =>
          match countSeals validators committers with
          | none => some ErrInvalidCommittedSeals
          | some validSeal =>
            if (validSeal : Int) ≤ validators.F then some ErrInvalidCommittedSeals else none

end Crypto

/-- The engine's configuration and the chain's header lookup
`GetHeader(hash, number)`. -/
structure Chain where
  blockPeriod : Nat
  allowedFutureBlockTime : Nat
  getHeader : Hash → Nat → Option Header

namespace Crypto

variable (c : Crypto) (chain : Chain)

/-- `Engine.verifyCascadingFields`: the parent, the block period, and for a
block with a coinbase the proposer seal and the committed seals. -/
def verifyCascadingFields (h : Header) (validators : ValidatorSet) (parents : List Header) :
    Option Error :=
  if h.number = 0 then none
  else
    let parent := match parents.getLast? with
      | some p => some p
      | none => chain.getHeader h.parentHash (h.number - 1)
    match parent with
    | none => some ErrUnknownAncestor
    | some p =>
      if p.number ≠ h.number - 1 ∨ c.hash p ≠ h.parentHash then some ErrUnknownAncestor
      else if h.time < p.time + chain.blockPeriod then some ErrInvalidTimestamp
      -- an empty block has neither a proposer seal nor committed seals
      else if h.coinbase = zeroAddress ∧ 0 < h.number then none
      else
        match c.verifySigner h validators with
        | some err => some err
        | none => c.verifyCommittedSeals h validators

/-- `Engine.verifyHeader`, at the wall-clock time `now`. -/
def verifyHeader (now : Nat) (h : Header) (parents : List Header) (validators : ValidatorSet) :
    Option Error :=
  if now + chain.allowedFutureBlockTime < h.time then some ErrFutureBlock
  else if (c.extractIstanbulExtra h).toOption.isNone then some ErrInvalidExtraDataFormat
  else if h.nonce ≠ EmptyBlockNonce ∧ h.nonce ≠ nonceAuthVote ∧ h.nonce ≠ nonceDropVote then
    some ErrInvalidNonce
  else if h.mixDigest ≠ IstanbulDigest then some ErrInvalidMixDigest
  else if (if h.coinbase = zeroAddress ∧ 0 < h.number then h.difficulty ≠ some EmptyBlockDifficulty
      else h.difficulty ≠ some DefaultDifficulty) then some ErrInvalidDifficulty
  else c.verifyCascadingFields chain h validators parents

/-- `Backend.verifyHeader`. The validator set is built from the header's own
`Validators` field: `NewEmptySet` for an empty block, `NewSet` otherwise.
`stateDb` is the outcome of `sb.stateDb()`, whose state only orders the set;
`genesis` is the chain's block 0. -/
def backendVerifyHeader (now : Nat) (stateDb : Option Error) (genesis : Header)
    (h : Header) (parents : List Header) : Option Error :=
  if h.number = 0 then c.verifyHeader chain now genesis [] []
  else
    match c.extractIstanbulExtra h with
    | .error _ => some ErrInvalidExtraDataFormat
    | .ok istanbulExtra =>
      match stateDb with
      | some err => some err
      | none => c.verifyHeader chain now h parents istanbulExtra.validators

end Crypto
end Erbie
