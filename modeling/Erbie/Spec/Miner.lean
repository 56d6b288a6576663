import Erbie.Spec.Finalize

/-! The miner's side of an empty block (`miner/certify.go`,
`miner/signatureProcess.go`, `miner/proof_state.go`). When no proposal comes
in time, the validators vote for a proposer. The proposer gathers, per height,
the votes addressed to it in a `ProofState`: the voters and their messages,
behind its own message. The `VoteResult` it hands to `PrepareEmpty` is that
state read against the validator list `stakers` of the chain's head: every
voter mapped to its validator, and every message.

`HandleMsg` decides which network messages become votes: one that decodes,
is for the next height, has a signer that is a validator (or its proxy) of
`stakers`, and votes for this node. The proposer's own vote is its own signed
message. Forwarding of messages to other peers and the cache of seen messages
are left out. -/

namespace Erbie

structure ProofState where
  proposer : Address
  proposerMessage : List UInt8
  onlineValidator : List Address
  emptyBlockMessages : List (List UInt8)
deriving DecidableEq, Repr

def newProofState (proposer : Address) (proposerMessage : List UInt8) : ProofState :=
  ⟨proposer, proposerMessage, [], []⟩

namespace ProofState

/-- `GetAllAddress(validators)`: the proposer and the voters, each mapped to the
validator whose address or proxy it is. -/
def getAllAddress (ps : ProofState) (validators : List Validator) : List Address :=
  ValidatorList.getValidatorAddr validators ps.proposer ::
    ps.onlineValidator.map (ValidatorList.getValidatorAddr validators)

/-- `GetAllEmptyMessage()`: the proposer's message, then the votes. -/
def getAllEmptyMessage (ps : ProofState) : List (List UInt8) :=
  ps.proposerMessage :: ps.emptyBlockMessages

end ProofState

/-- `GatherOtherPeerSignature(validator, height, encQues)` on the proof state of
the height: the first vote opens it with the proposer's own message, a voter
already counted is refused. -/
def gatherOtherPeerSignature (self : Address) (proposerMessage : List UInt8)
    (ps : Option ProofState) (validator : Address) (encQues : List UInt8) :
    Except Error ProofState :=
  match ps with
  | none => .ok { newProofState self proposerMessage with
      onlineValidator := [validator], emptyBlockMessages := [encQues] }
  | some ps =>
    if ps.onlineValidator.contains validator then .error ⟨"GatherOtherPeerSignature: validator exist"⟩
    else .ok { ps with onlineValidator := ps.onlineValidator ++ [validator],
                       emptyBlockMessages := ps.emptyBlockMessages ++ [encQues] }

/-- The event loop of `handleEvents` over the votes of one height; a refused
vote leaves the proof state as it was. -/
def gatherVotes (self : Address) (proposerMessage : List UInt8) :
    Option ProofState → List (Address × List UInt8) → Option ProofState
  | ps, [] => ps
  | ps, (validator, encQues) :: rest =>
    match gatherOtherPeerSignature self proposerMessage ps validator encQues with
    | .ok ps' => gatherVotes self proposerMessage (some ps') rest
    | .error _ => gatherVotes self proposerMessage ps rest

/-- `Certify.HandleMsg` on a worker message `data` from peer `addr`, at chain
height `currentHeight`: the vote it posts to this node's event loop, if any. -/
def handleMsg (codec : EmptyCodec) (c : Crypto) (stakers : Option (List Validator))
    (self : Address) (currentHeight : Nat) (addr : Address) (data : List UInt8) :
    Except Error (Option (Address × List UInt8)) :=
  match codec.fromPayload data with
  | .error err => .error err
  | .ok msg =>
    match codec.decodeSignatureData msg.msg with
    | .error err => .error err
    | .ok signature =>
      if currentHeight + 1 ≠ signature.height then .ok none
      else
        match codec.recoverAddress c data with
        | .error err => .error err
        | .ok sender =>
          match stakers with
          | none => .ok none
          | some stakers =>
            if ValidatorList.getValidatorAddr stakers sender = zeroAddress then
              if addr = sender then .error ⟨"Certify.handleEvents the vote is not a miner"⟩
              else .ok none
            else if self = signature.vote then .ok (some (sender, data))
            else .ok none

/-- A vote the proposer may count against `stakers`: its message decodes, its
signer is the voter, and the voter is a validator or a validator's proxy. The
votes `HandleMsg` posts are such votes, and so is the proposer's own signed
message when the proposer is a validator, which the worker checks before it
votes. -/
def ValidVote (codec : EmptyCodec) (c : Crypto) (stakers : List Validator)
    (voter : Address) (message : List UInt8) : Prop :=
  (∃ m, codec.fromPayload message = .ok m) ∧ codec.recoverAddress c message = .ok voter ∧
    ValidatorList.getValidatorAddr stakers voter ≠ zeroAddress

/-- The proof state the proposer gathered from valid votes. -/
structure ProofState.Valid (codec : EmptyCodec) (c : Crypto) (stakers : List Validator)
    (ps : ProofState) : Prop where
  proposer : ValidVote codec c stakers ps.proposer ps.proposerMessage
  votes : List.Forall₂ (ValidVote codec c stakers) ps.onlineValidator ps.emptyBlockMessages

namespace Crypto

/-- The headers a producer makes on the parent that `view` describes, with
consensus fields `E`: a normal block by `Prepare`, or an empty block by
`PrepareEmpty` from the `VoteResult` of valid votes, read against the
parent's validator list. -/
inductive Produces (c : Crypto) (view : ChainView) (codec : EmptyCodec) (h : Header) :
    IstanbulExtra → Prop
  | prepare {E : IstanbulExtra} (validators : List Address) (exchangers : Except Error (List Address))
      (evilAction : EvilAction) (hp : c.prepare view h validators exchangers evilAction = some (.ok E)) :
      Produces c view codec h E
  | prepareEmpty {E : IstanbulExtra} {pValidators : List Validator} (ps : ProofState)
      (hpv : view.parentValidators = .ok pValidators) (hps : ps.Valid codec c pValidators)
      (hp : Crypto.prepareEmpty h (ps.getAllAddress pValidators) ps.getAllEmptyMessage = .ok E) :
      Produces c view codec h E

/-- Signature recovery accepts only 65-byte signatures, as `secp256k1`'s
`checkSignature` does. -/
def SealLength (c : Crypto) : Prop :=
  ∀ data sig addr, c.getSignatureAddress data sig = .ok addr → sig.length = IstanbulExtraSeal

end Crypto
end Erbie
