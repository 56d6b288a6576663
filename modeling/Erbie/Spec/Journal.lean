import Erbie.Lib.Journal
import Erbie.Lib.Rlp
import Erbie.Spec.State

/-! The journal of `core/state/journal.go`, and `StateDB.Snapshot` and
`RevertToSnapshot`. Every setter of a `stateObject` appends an entry that holds
the old value of the field it writes, and reverting the entry writes that value
back into the object. `createObject` journals the new object, and reverting
that entry deletes it.

`GetOrNewAccountStateObject`, `GetOrNewNFTStateObject` and
`GetOrNewStakerStateObject` create a missing object through `createObject`, but
the extension they add to an object that has none is written with no entry.
The reads `GetPledgedBalance`, `GetValidatorCoefficient`, `GetStakerPledged`
and `GetNFTOwner16` go through them.

A Go setter dereferences the extension it writes, which its callers have
created; here a setter leaves a missing extension missing. A `nil` big integer
in an extension is zero, as RLP writes it. The account's storage root, code
hash and `Extra` are no field of `Account`: no modelled write changes them, and
the encoding takes their items as they are. -/

namespace Erbie

open Journal

inductive JournalEntry where
  | createObjectChange (account : Address)
  | balanceChange (account : Address) (prev : Int)
  | nonceChange (account : Address) (prev : Nat)
  | nftOwnerChange (nftAddr : Address) (oldOwner : Address)
  | nftInfoChange (address : Address) (oldOwner oldCreator : Address)
  | pledgedBalanceChange (account : Address) (prev : Int)
  | pledgedBlockNumberChange (account : Address) (prev : Nat)
  | coefficientChange (account : Address) (prev : UInt8)
  | userMintChange (account : Address) (prev : Option Nat)
  | officialMintChange (account : Address) (prev : Option Nat)
  | validatorsChange (account : Address) (oldValidators : List Validator)
  | stakersChange (account : Address) (oldStakers : List Staker)
  | stakerExtensionChange (account : Address) (oldStakerExtension : List StakerExtension)
  | validatorExtensionChange (account : Address) (oldValidatorExtension : List ValidatorExtension)
  | validatorProxyChange (account : Address) (oldValidatorProxy : Address)
deriving DecidableEq, Repr

/-! ### The fields the entries restore -/

namespace WormholesExtension

def pledgedBalanceLens : Lens WormholesExtension Int :=
  ⟨(·.pledgedBalance), fun v w => { w with pledgedBalance := v }, fun _ => rfl, fun _ _ _ => rfl⟩

def pledgedBlockNumberLens : Lens WormholesExtension Nat :=
  ⟨(·.pledgedBlockNumber), fun v w => { w with pledgedBlockNumber := v }, fun _ => rfl, fun _ _ _ => rfl⟩

def coefficientLens : Lens WormholesExtension UInt8 :=
  ⟨(·.coefficient), fun v w => { w with coefficient := v }, fun _ => rfl, fun _ _ _ => rfl⟩

def stakerExtensionLens : Lens WormholesExtension (List StakerExtension) :=
  ⟨(·.stakerExtension), fun v w => { w with stakerExtension := v }, fun _ => rfl, fun _ _ _ => rfl⟩

def validatorExtensionLens : Lens WormholesExtension (List ValidatorExtension) :=
  ⟨(·.validatorExtension), fun v w => { w with validatorExtension := v }, fun _ => rfl, fun _ _ _ => rfl⟩

def validatorProxyLens : Lens WormholesExtension Address :=
  ⟨(·.validatorProxy), fun v w => { w with validatorProxy := v }, fun _ => rfl, fun _ _ _ => rfl⟩

end WormholesExtension

namespace AccountCSBT

def ownerLens : Lens AccountCSBT Address :=
  ⟨(·.owner), fun v c => { c with owner := v }, fun _ => rfl, fun _ _ _ => rfl⟩

/-- Owner and creator, as `setJournalNFTInfo` writes them. -/
def infoLens : Lens AccountCSBT (Address × Address) :=
  ⟨fun c => (c.owner, c.creator), fun v _ => { owner := v.1, creator := v.2 }, fun _ => rfl,
    fun _ _ _ => rfl⟩

end AccountCSBT

namespace AccountStaker

def userMintLens : Lens AccountStaker (Option Nat) :=
  ⟨(·.mint.userMint), fun v st => { st with mint := { st.mint with userMint := v } }, fun _ => rfl,
    fun _ _ _ => rfl⟩

def officialMintLens : Lens AccountStaker (Option Nat) :=
  ⟨(·.mint.officialMint), fun v st => { st with mint := { st.mint with officialMint := v } },
    fun _ => rfl, fun _ _ _ => rfl⟩

def validatorsLens : Lens AccountStaker (List Validator) :=
  ⟨(·.validators), fun v st => { st with validators := v }, fun _ => rfl, fun _ _ _ => rfl⟩

def csbtCreatorsLens : Lens AccountStaker (List Staker) :=
  ⟨(·.csbtCreators), fun v st => { st with csbtCreators := v }, fun _ => rfl, fun _ _ _ => rfl⟩

end AccountStaker

namespace Account

def balanceLens : Lens Account Int :=
  ⟨(·.balance), fun v acc => { acc with balance := v }, fun _ => rfl, fun _ _ _ => rfl⟩

def nonceLens : Lens Account Nat :=
  ⟨(·.nonce), fun v acc => { acc with nonce := v }, fun _ => rfl, fun _ _ _ => rfl⟩

variable {β : Type}

/-- A field of the `Worm` extension, read as the empty extension has it when
there is none. -/
def wormLens (ℓ : Lens WormholesExtension β) : Lens Account β where
  get acc := (ℓ.onSome (ℓ.get {})).get acc.worm
  set v acc := { acc with worm := (ℓ.onSome (ℓ.get {})).set v acc.worm }
  set_get acc := by simp only [(ℓ.onSome _).set_get]
  set_set v v' acc := by simp only [(ℓ.onSome _).set_set]

def csbtLens (ℓ : Lens AccountCSBT β) : Lens Account β where
  get acc := (ℓ.onSome (ℓ.get {})).get acc.csbt
  set v acc := { acc with csbt := (ℓ.onSome (ℓ.get {})).set v acc.csbt }
  set_get acc := by simp only [(ℓ.onSome _).set_get]
  set_set v v' acc := by simp only [(ℓ.onSome _).set_set]

def stakerLens (ℓ : Lens AccountStaker β) : Lens Account β where
  get acc := (ℓ.onSome (ℓ.get {})).get acc.staker
  set v acc := { acc with staker := (ℓ.onSome (ℓ.get {})).set v acc.staker }
  set_get acc := by simp only [(ℓ.onSome _).set_get]
  set_set v v' acc := by simp only [(ℓ.onSome _).set_set]

end Account

/-! ### Reverting an entry -/

namespace StateDB

/-- Apply `f` to the object at `a`, as `s.getStateObject(a).set…` does; there
is nothing to write without an object. -/
def modifyObject (s : StateDB) (a : Address) (f : Account → Account) : StateDB :=
  match s.accounts a with
  | none => s
  | some acc => s.setAccount a (f acc)

/-- `delete(s.stateObjects, a)`. -/
def deleteObject (s : StateDB) (a : Address) : StateDB := ⟨Function.update s.accounts a none⟩

end StateDB

namespace JournalEntry

/-- `revert(*StateDB)` of each entry. -/
def revert : JournalEntry → StateDB → StateDB
  | createObjectChange a, s => s.deleteObject a
  | balanceChange a prev, s => s.modifyObject a (Account.balanceLens.set prev)
  | nonceChange a prev, s => s.modifyObject a (Account.nonceLens.set prev)
  | nftOwnerChange a oldOwner, s => s.modifyObject a ((Account.csbtLens AccountCSBT.ownerLens).set oldOwner)
  | nftInfoChange a oldOwner oldCreator, s =>
    s.modifyObject a ((Account.csbtLens AccountCSBT.infoLens).set (oldOwner, oldCreator))
  | pledgedBalanceChange a prev, s =>
    s.modifyObject a ((Account.wormLens WormholesExtension.pledgedBalanceLens).set prev)
  | pledgedBlockNumberChange a prev, s =>
    s.modifyObject a ((Account.wormLens WormholesExtension.pledgedBlockNumberLens).set prev)
  | coefficientChange a prev, s =>
    s.modifyObject a ((Account.wormLens WormholesExtension.coefficientLens).set prev)
  | userMintChange a prev, s => s.modifyObject a ((Account.stakerLens AccountStaker.userMintLens).set prev)
  | officialMintChange a prev, s =>
    s.modifyObject a ((Account.stakerLens AccountStaker.officialMintLens).set prev)
  | validatorsChange a old, s => s.modifyObject a ((Account.stakerLens AccountStaker.validatorsLens).set old)
  | stakersChange a old, s => s.modifyObject a ((Account.stakerLens AccountStaker.csbtCreatorsLens).set old)
  | stakerExtensionChange a old, s =>
    s.modifyObject a ((Account.wormLens WormholesExtension.stakerExtensionLens).set old)
  | validatorExtensionChange a old, s =>
    s.modifyObject a ((Account.wormLens WormholesExtension.validatorExtensionLens).set old)
  | validatorProxyChange a old, s =>
    s.modifyObject a ((Account.wormLens WormholesExtension.validatorProxyLens).set old)

end JournalEntry

/-! ### Journaled writes -/

namespace StateObject

variable {β : Type}

/-- A setter of `stateObject`: journal the field's old value, then write it. -/
def journaledSet (ℓ : Lens Account β) (entry : Address → β → JournalEntry) (a : Address) (v : β)
    (s : StateDB) : StateDB × List JournalEntry :=
  match s.accounts a with
  | none => (s, [])
  | some acc => (s.setAccount a (ℓ.set v acc), [entry a (ℓ.get acc)])

def setBalance := journaledSet Account.balanceLens .balanceChange
def setNonce := journaledSet Account.nonceLens .nonceChange
def setOwner := journaledSet (Account.csbtLens AccountCSBT.ownerLens) .nftOwnerChange
def setNFTInfo := journaledSet (Account.csbtLens AccountCSBT.infoLens) fun a v => .nftInfoChange a v.1 v.2
def setPledgedBalance := journaledSet (Account.wormLens WormholesExtension.pledgedBalanceLens) .pledgedBalanceChange
def setPledgedBlockNumber :=
  journaledSet (Account.wormLens WormholesExtension.pledgedBlockNumberLens) .pledgedBlockNumberChange
def setCoefficient := journaledSet (Account.wormLens WormholesExtension.coefficientLens) .coefficientChange
def setUserMint := journaledSet (Account.stakerLens AccountStaker.userMintLens) .userMintChange
def setOfficialMint := journaledSet (Account.stakerLens AccountStaker.officialMintLens) .officialMintChange
def setValidators := journaledSet (Account.stakerLens AccountStaker.validatorsLens) .validatorsChange
def setStakers := journaledSet (Account.stakerLens AccountStaker.csbtCreatorsLens) .stakersChange
def setStakerPledge :=
  journaledSet (Account.wormLens WormholesExtension.stakerExtensionLens) .stakerExtensionChange
def setValidatorExtension :=
  journaledSet (Account.wormLens WormholesExtension.validatorExtensionLens) .validatorExtensionChange
def setValidatorProxy :=
  journaledSet (Account.wormLens WormholesExtension.validatorProxyLens) .validatorProxyChange

end StateObject

/-- The entry of `createObject(a)` when there is no object at `a`. -/
def StateDB.createObjectEntries (s : StateDB) (a : Address) : List JournalEntry :=
  match s.accounts a with
  | none => [.createObjectChange a]
  | some _ => []

/-- The writes of the state database below its compound operations: the three
`GetOrNew…StateObject` helpers and the journaled setters of `stateObject`. -/
inductive StateOp where
  | getOrNewAccountStateObject (a : Address)
  | getOrNewNFTStateObject (a : Address)
  | getOrNewStakerStateObject (a : Address)
  | setBalance (a : Address) (v : Int)
  | setNonce (a : Address) (v : Nat)
  | setOwner (a : Address) (owner : Address)
  | setNFTInfo (a : Address) (owner creator : Address)
  | setPledgedBalance (a : Address) (v : Int)
  | setPledgedBlockNumber (a : Address) (v : Nat)
  | setCoefficient (a : Address) (v : UInt8)
  | setUserMint (a : Address) (v : Option Nat)
  | setOfficialMint (a : Address) (v : Option Nat)
  | setValidators (a : Address) (v : List Validator)
  | setStakers (a : Address) (v : List Staker)
  | setStakerPledge (a : Address) (v : List StakerExtension)
  | setValidatorExtension (a : Address) (v : List ValidatorExtension)
  | setValidatorProxy (a : Address) (v : Address)

namespace StateOp

/-- The state a write leaves and the entries it journals. -/
def write : StateOp → StateDB → StateDB × List JournalEntry
  | getOrNewAccountStateObject a, s => (s.getOrNewAccountStateObject a, s.createObjectEntries a)
  | getOrNewNFTStateObject a, s => (s.getOrNewNFTStateObject a, s.createObjectEntries a)
  | getOrNewStakerStateObject a, s => (s.getOrNewStakerStateObject a, s.createObjectEntries a)
  | setBalance a v, s => StateObject.setBalance a v s
  | setNonce a v, s => StateObject.setNonce a v s
  | setOwner a v, s => StateObject.setOwner a v s
  | setNFTInfo a o c, s => StateObject.setNFTInfo a (o, c) s
  | setPledgedBalance a v, s => StateObject.setPledgedBalance a v s
  | setPledgedBlockNumber a v, s => StateObject.setPledgedBlockNumber a v s
  | setCoefficient a v, s => StateObject.setCoefficient a v s
  | setUserMint a v, s => StateObject.setUserMint a v s
  | setOfficialMint a v, s => StateObject.setOfficialMint a v s
  | setValidators a v, s => StateObject.setValidators a v s
  | setStakers a v, s => StateObject.setStakers a v s
  | setStakerPledge a v, s => StateObject.setStakerPledge a v s
  | setValidatorExtension a v, s => StateObject.setValidatorExtension a v s
  | setValidatorProxy a v, s => StateObject.setValidatorProxy a v s

end StateOp

/-! ### Snapshots -/

/-- The state database with its journal and its valid revisions, each an id
and the journal length when it was taken. Ids are handed out in increasing
order, so every valid one is below the next. -/
structure JournaledDB where
  db : StateDB
  entries : List JournalEntry
  validRevisions : List (Nat × Nat)
  nextRevisionId : Nat
  ids_lt : ∀ r ∈ validRevisions, r.1 < nextRevisionId

namespace JournaledDB

/-- A state with an empty journal, as at the start of a block. -/
def ofState (s : StateDB) : JournaledDB := ⟨s, [], [], 0, fun _ h => by cases h⟩

def apply (j : JournaledDB) (op : StateOp) : JournaledDB :=
  { j with db := (op.write j.db).1, entries := j.entries ++ (op.write j.db).2 }

def applyAll (j : JournaledDB) (ops : List StateOp) : JournaledDB := ops.foldl apply j

/-- `Snapshot()`. -/
def snapshot (j : JournaledDB) : Nat × JournaledDB :=
  (j.nextRevisionId,
    { j with validRevisions := j.validRevisions ++ [(j.nextRevisionId, j.entries.length)]
             nextRevisionId := j.nextRevisionId + 1
             ids_lt := fun r hr => by
               rcases List.mem_append.mp hr with hr | hr
               · exact Nat.lt_succ_of_lt (j.ids_lt r hr)
               · rw [List.mem_singleton.mp hr]
                 exact Nat.lt_succ_self _ })

/-- `RevertToSnapshot(revid)`: the first valid revision whose id is at least
`revid`, which `sort.Search` finds in the sorted list; `none` is the panic
on an id that is not valid. -/
def revertToSnapshot (j : JournaledDB) (revid : Nat) : Option JournaledDB :=
  let idx := j.validRevisions.findIdx fun r => revid ≤ r.1
  match j.validRevisions[idx]? with
  | none => none
  | some (id, snapshot) =>
    if id ≠ revid then none
    else some
      { db := revert JournalEntry.revert (j.entries.drop snapshot) j.db
        entries := j.entries.take snapshot
        validRevisions := j.validRevisions.take idx
        nextRevisionId := j.nextRevisionId
        ids_lt := fun r hr => j.ids_lt r (List.mem_of_mem_take hr) }

/-- `GetPledgedBalance(addr)`. -/
def getPledgedBalance (j : JournaledDB) (a : Address) : JournaledDB × Int :=
  let j := j.apply (.getOrNewAccountStateObject a)
  (j, j.db.getPledgedBalance a)

/-- `GetValidatorCoefficient(addr)`. -/
def getValidatorCoefficient (j : JournaledDB) (a : Address) : JournaledDB × UInt8 :=
  let j := j.apply (.getOrNewAccountStateObject a)
  (j, j.db.getValidatorCoefficient a)

/-- `GetStakerPledged(from, addr)`. -/
def getStakerPledged (j : JournaledDB) (fromAddr addr : Address) : JournaledDB × StakerExtension :=
  let j := j.apply (.getOrNewAccountStateObject fromAddr)
  (j, j.db.getStakerPledged fromAddr addr)

/-- `GetNFTOwner16(nftAddr)`. -/
def getNFTOwner16 (j : JournaledDB) (a : Address) : JournaledDB × Address :=
  let j := j.apply (.getOrNewNFTStateObject a)
  (j, j.db.getNFTOwner16 a)

end JournaledDB

/-! ### The account's encoding

`stateObject.EncodeRLP` writes `Account` field by field. An extension is a
pointer tagged `rlp:"nil"`: a `nil` one is the empty list. Amounts are
nonnegative in the states the ledger reaches; RLP refuses a negative one,
which is not modelled. -/

section Encoding

open Rlp

/-- A 20-byte address, big-endian. -/
def addressBytes (a : Address) : List UInt8 :=
  (List.range 20).map fun i => UInt8.ofNat (a.toNat / 256 ^ (19 - i))

def entryRlp (e : BalanceList.Entry Address) : Item :=
  .list [.str (addressBytes e.addr), uint e.balance.toNat, uint e.blockNumber]

def WormholesExtension.rlp (w : WormholesExtension) : Item :=
  .list [uint w.pledgedBalance.toNat, uint w.pledgedBlockNumber, uint w.coefficient.toNat,
    .list [.list (w.stakerExtension.map entryRlp)], .list [.list (w.validatorExtension.map entryRlp)],
    .str (addressBytes w.validatorProxy)]

def AccountCSBT.rlp (c : AccountCSBT) : Item :=
  .list [.str (addressBytes c.owner), .str (addressBytes c.creator)]

def Validator.rlp (v : Validator) : Item :=
  .list [.str (addressBytes v.addr), uint v.balance.toNat, .str (addressBytes v.proxy),
    .list (v.weight.map fun w => uint w.toNat)]

def Staker.rlp (st : Staker) : Item := .list [.str (addressBytes st.addr), uint st.balance.toNat]

def AccountStaker.rlp (st : AccountStaker) : Item :=
  .list [.list [uint (st.mint.userMint.getD 0), uint (st.mint.officialMint.getD 0)],
    .list [.list (st.validators.map Validator.rlp)], .list [.list (st.csbtCreators.map Staker.rlp)]]

/-- A pointer tagged `rlp:"nil"`. -/
def nilRlp {α : Type} (f : α → Item) : Option α → Item
  | none => .list []
  | some x => f x

/-- The encoding of an account, with the items of its storage root, code hash
and `Extra`. -/
def Account.rlp (root codeHash extra : Item) (acc : Account) : Item :=
  .list [uint acc.nonce, uint acc.balance.toNat, root, codeHash, nilRlp WormholesExtension.rlp acc.worm,
    nilRlp AccountCSBT.rlp acc.csbt, nilRlp AccountStaker.rlp acc.staker, extra]

end Encoding

end Erbie
