import Erbie.Spec.Istanbul
import Erbie.Spec.State

/-! Empty blocks. A block without a coinbase carries, in place of committed
seals, the signed votes of validators that found no proposer
(`core/types/emptyblock.go`). `BlockChain.verifyEmptyVote` admits such a block
when the stake behind its votes, after the first, outweighs half of the
validators' stake weighted by their coefficients (`core/blockchain.go`);
header verification checks nothing else about it.

A vote is an RLP-encoded `EmptyMsg` whose `Msg` is an RLP-encoded
`SignatureData`; the two decoders and the encoding the signature covers are
parameters (`EmptyCodec`). A slice `[1:]` of an empty list panics, and a
function that can reach one returns `none` for the panic. -/

namespace Erbie

structure EmptyMsg where
  code : Nat
  msg : List UInt8
  address : Address
  signature : List UInt8
deriving DecidableEq, Repr

structure SignatureData where
  vote : Address
  height : Nat
  round : Nat
deriving DecidableEq, Repr

/-- `EmptyMsg.FromPayload`, `EmptyMsg.PayloadNoSig` and `EmptyMsg.Decode` into
a `SignatureData`. -/
structure EmptyCodec where
  fromPayload : List UInt8 → Except Error EmptyMsg
  payloadNoSig : EmptyMsg → List UInt8
  decodeSignatureData : List UInt8 → Except Error SignatureData

namespace EmptyCodec

variable (codec : EmptyCodec) (c : Crypto)

/-- `EmptyMsg.RecoverAddress(b)`: the signer of the vote. -/
def recoverAddress (b : List UInt8) : Except Error Address := do
  let m ← codec.fromPayload b
  c.getSignatureAddress (codec.payloadNoSig m) m.signature

/-- `CheckHeight(header, emptyMsg)`: whether the vote is for this height. -/
def checkHeight (h : Header) (emptyMsg : List UInt8) : Bool × Option Nat :=
  match codec.fromPayload emptyMsg with
  | .error _ => (false, none)
  | .ok m =>
    match codec.decodeSignatureData m.msg with
    | .error _ => (false, none)
    | .ok signature => (h.number = signature.height, some signature.height)

/-- The vote loop of `verifyEmptyVote`: the signers of the votes, in order,
repeats included; a vote for another height or without a signer fails it. -/
def collectVotes (h : Header) : List (List UInt8) → Except Error (List Address)
  | [] => .ok []
  | emptyBlockMessage :: rest =>
    if !(codec.checkHeight h emptyBlockMessage).1 then
      .error ⟨"the vote height doesn\x60t match the block height"⟩
    else
      match codec.recoverAddress c emptyBlockMessage with
      | .error err => .error err
      | .ok sender => (collectVotes h rest).map (sender :: ·)

/-- The vote loop of `Engine.Finalize` for an empty block: every vote that
decodes and has a signer counts for the first validator whose address or
proxy is the signer, and the others are skipped. -/
def voteAddrs (pValidators : List Validator) : List (List UInt8) → List Address
  | [] => []
  | emptyMessage :: rest =>
    match codec.fromPayload emptyMessage, codec.recoverAddress c emptyMessage with
    | .ok _, .ok sender =>
      match ValidatorList.find? pValidators sender with
      | some val => val.addr :: voteAddrs pValidators rest
      | none => voteAddrs pValidators rest
    | _, _ => voteAddrs pValidators rest

end EmptyCodec

/-- The stake of the validator list weighted by the coefficients: the
denominator of the empty-block vote. -/
def allWeightBalance (s : StateDB) (validatorList : List Validator) : Int :=
  (validatorList.map fun v => v.balance * ((s.getValidatorCoefficient v.addr).toNat : Int)).sum

/-- The stake behind a list of votes, each weighted by
`DEFAULT_VALIDATOR_COEFFICIENT`: the numerator of the vote. -/
def blockWeightBalance (validatorList : List Validator) (votes : List Address) : Int :=
  (votes.map fun v => ValidatorList.stakeBalance validatorList v * DEFAULT_VALIDATOR_COEFFICIENT).sum

@[simp] theorem blockWeightBalance_nil (vl : List Validator) : blockWeightBalance vl [] = 0 := rfl

@[simp] theorem blockWeightBalance_cons (vl : List Validator) (v : Address) (votes : List Address) :
    blockWeightBalance vl (v :: votes) =
      ValidatorList.stakeBalance vl v * DEFAULT_VALIDATOR_COEFFICIENT + blockWeightBalance vl votes := by
  simp [blockWeightBalance]

namespace EmptyCodec

variable (codec : EmptyCodec) (c : Crypto)

/-- `BlockChain.verifyEmptyVote(header, stateDB)`: the state (the reads
create objects) and the error, or `none` when it panics. -/
def verifyEmptyVote (h : Header) (s : StateDB) : Option (StateDB × Option Error) :=
  let s := s.getOrNewStakerStateObject ValidatorStorageAddress
  let validatorList := s.validators
  match c.extractIstanbulExtra h with
  | .error err => some (s, some err)
  | .ok extra =>
    let s := validatorList.foldl (fun s v => s.getOrNewAccountStateObject v.addr) s
    let allWeightBalance50 := 50 * allWeightBalance s validatorList / 100
    -- the first message is the proposer's and is not counted
    match sliceFrom extra.emptyBlockMessages 1 with
    | none => none
    | some votes =>
      match codec.collectVotes c h votes with
      | .error err => some (s, some err)
      | .ok votevValidators =>
        if allWeightBalance50 < blockWeightBalance validatorList votevValidators then some (s, none)
        else some (s, some ⟨"verify validators of empty block error"⟩)

end EmptyCodec
end Erbie
