import Erbie.Spec.Istanbul

/-! The IBFT core (`consensus/istanbul/ibft/core`): the per-node state machine
that agrees on one block per sequence. In a round, the proposer broadcasts a
PRE-PREPARE with its proposal; a node that accepts it broadcasts a PREPARE for
the proposal's hash; a node that holds `QuorumSize` PREPAREs and COMMITs for
its subject locks it and broadcasts a COMMIT; a node that holds `QuorumSize`
COMMITs hands the proposal to the backend. Messages are kept per sender, one
each, and a message for another view or subject is refused.

A proposal is its hash; `verify` is the backend's check of a proposal and
`proposer` the validator whose PRE-PREPARE the current round accepts. A
message that arrives too early is refused here where the source stores it in
the backlog and replays it later: the network below may deliver it again.
Round changes and timeouts, which no run below needs, are not modelled. -/

namespace Erbie
namespace Ibft

/-- `ibfttypes.State`, in the order `Cmp` compares. -/
inductive State where
  | acceptRequest
  | preprepared
  | prepared
  | committed
deriving DecidableEq, Repr

def State.toNat : State → Nat
  | .acceptRequest => 0
  | .preprepared => 1
  | .prepared => 2
  | .committed => 3

structure View where
  sequence : Nat
  round : Nat
deriving DecidableEq, Repr

/-- `View.Cmp`: by sequence, then round. -/
def View.cmp (a b : View) : Ordering :=
  if a.sequence ≠ b.sequence then compare a.sequence b.sequence else compare a.round b.round

structure Subject where
  view : View
  digest : Hash
deriving DecidableEq, Repr

inductive Payload where
  /-- A PRE-PREPARE; a proposal of `none` is the empty one a non-proposer sends. -/
  | preprepare (view : View) (proposal : Option Hash)
  | prepare (sub : Subject)
  | commit (sub : Subject)
deriving DecidableEq, Repr

/-- `ibfttypes.Message`: a payload signed by `address`. -/
structure Message where
  address : Address
  payload : Payload
deriving DecidableEq, Repr

def ErrFutureMessage : Error := ⟨"future message"⟩
def ErrOldMessage : Error := ⟨"old message"⟩
def ErrNotFromProposer : Error := ⟨"message does not come from proposer"⟩
def ErrInconsistentSubject : Error := ⟨"inconsistent subjects"⟩
def ErrUnauthorizedAddress : Error := ⟨"unauthorized address"⟩

/-- `messageSet`: the last message of each sender. -/
abbrev MessageSet := List (Address × Subject)

/-- `messageSet.Add`: a message of a validator replaces that sender's. -/
def MessageSet.add (ms : MessageSet) (valSet : ValidatorSet) (src : Address) (sub : Subject) :
    Except Error MessageSet :=
  if src ∈ valSet then .ok ((src, sub) :: ms.filter (·.1 ≠ src)) else .error ErrUnauthorizedAddress

def MessageSet.senders (ms : MessageSet) : List Address := ms.map (·.1)

/-- The state of one node: `core` with its `roundState`. `committed` lists the
proposals it handed to `backend.Commit`, with their sequence. -/
structure Core where
  address : Address
  valSet : ValidatorSet
  sequence : Nat
  round : Nat
  state : State
  proposal : Option Hash
  prepares : MessageSet
  commits : MessageSet
  lockedHash : Option Hash
  commitHeight : Nat
  waitingForRoundChange : Bool
  committed : List (Nat × Hash)
deriving DecidableEq, Repr

namespace Core

variable (c : Core)

def currentView : View := ⟨c.sequence, c.round⟩

/-- `roundState.Subject`. -/
def subject : Option Subject := c.proposal.map fun p => ⟨c.currentView, p⟩

/-- `core.QuorumSize`: `2F + 1` over the validator set. -/
def quorumSize : Int := Quorum.size c.valSet.length

/-- `roundState.GetPrepareOrCommitSize`: the senders of PREPAREs or COMMITs. -/
def prepareOrCommitSize : Nat :=
  c.prepares.length + c.commits.length -
    (c.prepares.filter fun m => m.1 ∈ c.commits.senders).length

/-- `roundState.LockHash`. -/
def lockHash : Core := { c with lockedHash := c.proposal.orElse fun _ => c.lockedHash }

/-- `core.checkMessage` for a message other than a round change. -/
def checkMessage (isPreprepare : Bool) (view : View) : Option Error :=
  match view.cmp c.currentView with
  | .gt => some ErrFutureMessage
  | .lt => some ErrOldMessage
  | .eq =>
    if c.waitingForRoundChange then some ErrFutureMessage
    else if c.state = .acceptRequest ∧ !isPreprepare then some ErrFutureMessage
    else none

/-- `core.sendCommit`: one COMMIT per sequence at most. -/
def sendCommit : Core × List Payload :=
  match c.subject with
  | none => (c, [])
  | some sub =>
    if sub.view.sequence ≤ c.commitHeight then (c, [])
    else ({ c with commitHeight := sub.view.sequence }, [.commit sub])

/-- `core.commit`: the node enters `Committed` and hands its proposal on. -/
def commit : Core :=
  let c := { c with state := .committed }
  match c.proposal with
  | none => c
  | some p => { c with committed := c.committed ++ [(c.sequence, p)] }

/-- `core.handlePreprepare`. -/
def handlePreprepare (verify : Hash → Bool) (proposer : Address) (src : Address) (view : View)
    (proposal : Option Hash) : Except Error (Core × List Payload) :=
  match proposal with
  | none => .ok (c, [])
  | some p =>
    match c.checkMessage true view with
    | some err => .error err
    | none =>
      if src ≠ proposer then .error ErrNotFromProposer
      else if !verify p then .error ⟨"invalid proposal"⟩
      else if c.state = .acceptRequest then
        match c.lockedHash with
        | some locked =>
          -- a locked node takes only its locked proposal, and commits to it at once
          if p = locked then
            .ok ({ c with proposal := some p, state := .prepared }.sendCommit)
          else .ok (c, [])
        | none =>
          let c := { c with proposal := some p, state := .preprepared }
          .ok (c, [.prepare ⟨c.currentView, p⟩])
      else .ok (c, [])

/-- `core.handlePrepare`. -/
def handlePrepare (src : Address) (prepare : Subject) : Except Error (Core × List Payload) :=
  match c.checkMessage false prepare.view with
  | some err => .error err
  | none =>
    if c.subject ≠ some prepare then .error ErrInconsistentSubject
    else
      -- a sender outside the set is logged and dropped
      let c := match c.prepares.add c.valSet src prepare with
        | .ok ms => { c with prepares := ms }
        | .error _ => c
      if ((c.lockedHash.isSome ∧ c.lockedHash = some prepare.digest) ∨
          c.quorumSize ≤ c.prepareOrCommitSize) ∧ c.state.toNat < State.prepared.toNat then
        .ok ({ c.lockHash with state := .prepared }.sendCommit)
      else .ok (c, [])

/-- `core.handleCommit`. -/
def handleCommit (src : Address) (commit : Subject) : Except Error (Core × List Payload) :=
  match c.checkMessage false commit.view with
  | some err => .error err
  | none =>
    if c.subject ≠ some commit then .error ErrInconsistentSubject
    else
      let c := match c.commits.add c.valSet src commit with
        | .ok ms => { c with commits := ms }
        | .error _ => c
      if c.quorumSize ≤ c.commits.length ∧ c.state.toNat < State.committed.toNat then
        .ok (c.lockHash.commit, [])
      else .ok (c, [])

/-- `core.handleMsg`: a message from outside the validator set is refused,
the others go to their handler. -/
def handleMsg (verify : Hash → Bool) (proposer : Address) (msg : Message) :
    Except Error (Core × List Payload) :=
  if msg.address ∉ c.valSet then .error ErrUnauthorizedAddress
  else
    match msg.payload with
    | .preprepare view proposal => c.handlePreprepare verify proposer msg.address view proposal
    | .prepare sub => c.handlePrepare msg.address sub
    | .commit sub => c.handleCommit msg.address sub

/-- A node at the start of `sequence`, round 0. -/
def init (address : Address) (valSet : ValidatorSet) (sequence : Nat) : Core :=
  { address := address, valSet := valSet, sequence := sequence, round := 0,
    state := .acceptRequest, proposal := none, prepares := [], commits := [],
    lockedHash := none, commitHeight := sequence - 1, waitingForRoundChange := false,
    committed := [] }

end Core

/-- The network: every node's core and every message broadcast so far. -/
structure Net where
  nodes : Address → Core
  sent : List Message

/-- One delivery: an honest node handles a message that was broadcast, or any
message signed by a Byzantine member, and what it broadcasts joins the sent
messages. A refused message changes nothing. -/
def Net.deliver (n : Net) (verify : Hash → Bool) (proposer : Address) (dst : Address) (msg : Message) :
    Net :=
  match (n.nodes dst).handleMsg verify proposer msg with
  | .error _ => n
  | .ok (c, out) =>
    { nodes := Function.update n.nodes dst c,
      sent := n.sent ++ out.map fun p => ⟨dst, p⟩ }

/-- The network at the start of `sequence`: every node fresh, nothing sent. -/
def Net.init (valSet : ValidatorSet) (sequence : Nat) : Net :=
  ⟨fun d => Core.init d valSet sequence, []⟩

/-- The runs of a committee whose members outside `honest` are Byzantine. -/
inductive Step (honest : Address → Prop) (verify : Hash → Bool) (proposer : Address) :
    Net → Net → Prop
  | deliver (n : Net) (dst : Address) (msg : Message) (hdst : honest dst)
      (hmsg : msg ∈ n.sent ∨ ¬ honest msg.address) :
      Step honest verify proposer n (n.deliver verify proposer dst msg)

end Ibft
end Erbie
