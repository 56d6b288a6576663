import Erbie.Spec.Journal

/-! What `RevertToSnapshot` restores. Every setter journals the old value of
the field it writes and every object `createObject` adds is journaled, so a
run of writes in which no `GetOrNew…StateObject` adds an extension to an
object that exists without one is reverted exactly. That write is the one the
journal misses: after `GetPledgedBalance` on an account with no `Worm`, such as
one that has only ever received ERB, a revert leaves the account an empty
`Worm`, and its encoding is not the one it had at the snapshot. -/

namespace Erbie

open Journal

namespace StateDB

variable (s : StateDB)

theorem setAccount_eq_self_iff {a : Address} {acc : Account} (h : s.accounts a = some acc) (x : Account) :
    s.setAccount a x = s ↔ x = acc := by
  constructor
  · intro hx
    have := congrArg (fun t : StateDB => t.accounts a) hx
    rw [accounts_setAccount, if_pos rfl, h] at this
    exact Option.some.inj this
  · rintro rfl
    cases s with
    | mk accounts =>
      simp only [setAccount, StateDB.mk.injEq]
      rw [← h, Function.update_eq_self]

theorem deleteObject_setAccount {a : Address} (h : s.accounts a = none) (acc : Account) :
    (s.setAccount a acc).deleteObject a = s := by
  cases s with
  | mk accounts =>
    simp only [deleteObject, setAccount, Function.update_idem, StateDB.mk.injEq]
    rw [← h, Function.update_eq_self]

@[simp] theorem modifyObject_setAccount (a : Address) (acc : Account) (f : Account → Account) :
    (s.setAccount a acc).modifyObject a f = s.setAccount a (f acc) := by
  simp [modifyObject, setAccount, Function.update_idem]

theorem createObjectEntries_of_none {a : Address} (h : s.accounts a = none) :
    s.createObjectEntries a = [.createObjectChange a] := by
  rw [createObjectEntries, h]

theorem createObjectEntries_of_some {a : Address} {acc : Account} (h : s.accounts a = some acc) :
    s.createObjectEntries a = [] := by
  rw [createObjectEntries, h]

end StateDB

/-! ### One write -/

section Write

variable {β : Type}

theorem undoes_journaledSet (ℓ : Lens Account β) (entry : Address → β → JournalEntry)
    (hrev : ∀ a b s, (entry a b).revert s = s.modifyObject a (ℓ.set b)) (a : Address) (v : β)
    (s : StateDB) : Undoes JournalEntry.revert (StateObject.journaledSet ℓ entry a v) s := by
  unfold Undoes StateObject.journaledSet
  cases h : s.accounts a with
  | none => rfl
  | some acc =>
    simp only [revert, List.foldr_cons, List.foldr_nil, hrev, StateDB.modifyObject_setAccount,
      Lens.set_get_set]
    exact (s.setAccount_eq_self_iff h acc).mpr rfl

/-- A `GetOrNew…StateObject` helper that writes `obj` at `a` is undone exactly
when it creates the object, or writes back the object that is there. -/
theorem undoes_getOrNew_iff (obj : StateDB → Address → Account) (a : Address) (s : StateDB) :
    Undoes JournalEntry.revert (fun s => (s.setAccount a (obj s a), s.createObjectEntries a)) s ↔
      ∀ acc, s.accounts a = some acc → obj s a = acc := by
  unfold Undoes
  dsimp only
  cases h : s.accounts a with
  | none =>
    rw [s.createObjectEntries_of_none h]
    simp only [revert, List.foldr_cons, List.foldr_nil, JournalEntry.revert, s.deleteObject_setAccount h]
    exact ⟨fun _ _ hacc => (by cases hacc), fun _ => trivial⟩
  | some acc =>
    rw [s.createObjectEntries_of_some h, revert_nil, s.setAccount_eq_self_iff h]
    exact ⟨fun hobj _ hacc => Option.some.inj hacc ▸ hobj, fun hobj => hobj acc rfl⟩

end Write

namespace StateDB

variable (s : StateDB) {a : Address} {acc : Account}

theorem accountObject_eq_self_iff (h : s.accounts a = some acc) :
    s.accountObject a = acc ↔ acc.worm.isSome := by
  unfold accountObject
  rw [h]
  cases acc with
  | mk nonce balance code worm csbt staker => cases worm <;> simp

theorem nftObject_eq_self_iff (h : s.accounts a = some acc) :
    s.nftObject a = acc ↔ acc.csbt.isSome := by
  unfold nftObject
  rw [h]
  cases acc with
  | mk nonce balance code worm csbt staker => cases csbt <;> simp

theorem stakerObject_eq_self_iff (h : s.accounts a = some acc) :
    s.stakerObject a = acc ↔ acc.staker.isSome := by
  unfold stakerObject
  rw [h]
  cases acc with
  | mk nonce balance code worm csbt staker => cases staker <;> simp

end StateDB

namespace StateOp

/-- The write adds no extension to an object that exists without it. -/
def AddsNoExtension : StateOp → StateDB → Prop
  | getOrNewAccountStateObject a, s => ∀ acc, s.accounts a = some acc → acc.worm.isSome
  | getOrNewNFTStateObject a, s => ∀ acc, s.accounts a = some acc → acc.csbt.isSome
  | getOrNewStakerStateObject a, s => ∀ acc, s.accounts a = some acc → acc.staker.isSome
  | _, _ => True

/-- The entries of a write undo it exactly when it adds no extension to an
existing object. -/
theorem undoes_write_iff (op : StateOp) (s : StateDB) :
    Undoes JournalEntry.revert op.write s ↔ op.AddsNoExtension s := by
  cases op
  case getOrNewAccountStateObject a =>
    exact (undoes_getOrNew_iff StateDB.accountObject a s).trans
      (forall₂_congr fun _ h => s.accountObject_eq_self_iff h)
  case getOrNewNFTStateObject a =>
    exact (undoes_getOrNew_iff StateDB.nftObject a s).trans
      (forall₂_congr fun _ h => s.nftObject_eq_self_iff h)
  case getOrNewStakerStateObject a =>
    exact (undoes_getOrNew_iff StateDB.stakerObject a s).trans
      (forall₂_congr fun _ h => s.stakerObject_eq_self_iff h)
  case setNFTInfo a o c =>
    exact iff_of_true (undoes_journaledSet (Account.csbtLens AccountCSBT.infoLens) _
      (fun _ _ _ => rfl) a (o, c) s) trivial
  -- every other write is a setter
  all_goals exact iff_of_true (undoes_journaledSet _ _ (fun _ _ _ => rfl) _ _ s) trivial

/-- No write of a run adds an extension to an existing object, each at the
state it meets. -/
def NoExtensionAlong : List StateOp → StateDB → Prop
  | [], _ => True
  | op :: ops, s => op.AddsNoExtension s ∧ NoExtensionAlong ops (op.write s).1

theorem undoneAlong_of_noExtensionAlong :
    ∀ (ops : List StateOp) (s : StateDB), NoExtensionAlong ops s →
      UndoneAlong JournalEntry.revert (ops.map StateOp.write) s
  | [], _, _ => trivial
  | op :: ops, s, ⟨hop, hops⟩ =>
    ⟨(undoes_write_iff op s).2 hop, undoneAlong_of_noExtensionAlong ops (op.write s).1 hops⟩

end StateOp

/-! ### A run of writes between a snapshot and its revert -/

namespace JournaledDB

theorem applyAll_eq (ops : List StateOp) (j : JournaledDB) :
    (j.applyAll ops).db = (run (ops.map StateOp.write) j.db).1 ∧
      (j.applyAll ops).entries = j.entries ++ (run (ops.map StateOp.write) j.db).2 ∧
      (j.applyAll ops).validRevisions = j.validRevisions := by
  induction ops generalizing j with
  | nil => simp [applyAll, run]
  | cons op ops ih =>
    obtain ⟨hdb, hentries, hrev⟩ := ih (j.apply op)
    refine ⟨hdb, ?_, hrev⟩
    rw [show j.applyAll (op :: ops) = (j.apply op).applyAll ops from rfl, hentries]
    simp [apply, run, List.append_assoc]

/-- Reverting to the last revision, whose id exceeds every other. -/
theorem revertToSnapshot_of_last (j : JournaledDB) {l : List (Nat × Nat)} {n k : Nat}
    (hv : j.validRevisions = l ++ [(n, k)]) (hl : ∀ r ∈ l, r.1 < n) :
    ∃ j', j.revertToSnapshot n = some j' ∧ j'.db = revert JournalEntry.revert (j.entries.drop k) j.db ∧
      j'.entries = j.entries.take k ∧ j'.validRevisions = l := by
  have hidx : j.validRevisions.findIdx (fun r => decide (n ≤ r.1)) = l.length := by
    rw [hv, List.findIdx_append, if_neg]
    · simp
    · rw [List.findIdx_eq_length.mpr fun r hr => decide_eq_false (Nat.not_le.mpr (hl r hr))]
      exact lt_irrefl _
  have hget : j.validRevisions[l.length]? = some (n, k) := by
    rw [hv, List.getElem?_concat_length]
  unfold revertToSnapshot
  simp only [hidx, hget, ne_eq, not_true_eq_false, if_false]
  refine ⟨_, rfl, rfl, rfl, ?_⟩
  show j.validRevisions.take l.length = l
  rw [hv, List.take_left]

/-- Whatever runs after a snapshot, reverting to it takes back the journal and
the revisions, and undoes the run's entries. -/
theorem revertToSnapshot_snapshot_applyAll (j : JournaledDB) (ops : List StateOp) :
    ∃ j', (j.snapshot.2.applyAll ops).revertToSnapshot j.snapshot.1 = some j' ∧
      j'.db = revert JournalEntry.revert (run (ops.map StateOp.write) j.db).2
        (run (ops.map StateOp.write) j.db).1 ∧
      j'.entries = j.entries ∧ j'.validRevisions = j.validRevisions := by
  obtain ⟨hdb, hentries, hrev⟩ := applyAll_eq ops j.snapshot.2
  obtain ⟨j', hj', hdb', hentries', hrev'⟩ := revertToSnapshot_of_last (j.snapshot.2.applyAll ops)
    (l := j.validRevisions) (k := j.entries.length) hrev (fun r hr => j.ids_lt r hr)
  refine ⟨j', hj', ?_, ?_, hrev'⟩
  · rw [hdb', hentries, hdb]
    exact congrArg (revert JournalEntry.revert · _) List.drop_left
  · rw [hentries', hentries]
    exact List.take_left

end JournaledDB

/-- A run of writes none of which adds an extension to an existing object is
reverted exactly: the revert gives back the state, the journal and the
revisions the snapshot saw. -/
theorem revertToSnapshot_restores (j : JournaledDB) (ops : List StateOp)
    (h : StateOp.NoExtensionAlong ops j.db) :
    ∃ j', (j.snapshot.2.applyAll ops).revertToSnapshot j.snapshot.1 = some j' ∧
      j'.db = j.db ∧ j'.entries = j.entries ∧ j'.validRevisions = j.validRevisions := by
  obtain ⟨j', hj', hdb, hentries, hrev⟩ := j.revertToSnapshot_snapshot_applyAll ops
  have hundo := StateOp.undoneAlong_of_noExtensionAlong ops j.db h
  exact ⟨j', hj', hdb.trans (revert_run _ _ _ hundo), hentries, hrev⟩

/-- After a snapshot, `GetPledgedBalance` on an account without a `Worm` adds
an empty one and journals nothing: the revert keeps it, and the account's
encoding is not the one it had. -/
theorem revertToSnapshot_keeps_lazy_worm (j : JournaledDB) {a : Address} {acc : Account}
    (ha : j.db.accounts a = some acc) (hw : acc.worm = none) (root codeHash extra : Rlp.Item) :
    ∃ j', (j.snapshot.2.getPledgedBalance a).1.revertToSnapshot j.snapshot.1 = some j' ∧
      j'.db.accounts a = some { acc with worm := some {} } ∧
      Rlp.encode ({ acc with worm := some {} }.rlp root codeHash extra) ≠
        Rlp.encode (acc.rlp root codeHash extra) := by
  obtain ⟨j', hj', hdb, -, -⟩ := j.revertToSnapshot_snapshot_applyAll [.getOrNewAccountStateObject a]
  refine ⟨j', hj', ?_, ?_⟩
  · have hentries : j.db.createObjectEntries a = [] := by
      rw [StateDB.createObjectEntries, ha]
    simp only [hdb, List.map_cons, List.map_nil, run, StateOp.write, hentries, List.append_nil, revert_nil,
      StateDB.getOrNewAccountStateObject, StateDB.accounts_setAccount, if_true, StateDB.accountObject, ha,
      hw, Option.getD_none]
  · -- the `Worm` item grows from the empty list to the six fields of an empty extension
    cases acc with
    | mk nonce balance code worm csbt staker =>
      subst hw
      have hworm : (Rlp.encode (nilRlp WormholesExtension.rlp none)).length <
          (Rlp.encode (nilRlp WormholesExtension.rlp (some {}))).length :=
        Rlp.length_encode_list_nil_lt
      have hlt := Rlp.length_encode_list_lt_of_item [Rlp.uint nonce, Rlp.uint balance.toNat, root, codeHash]
        [nilRlp AccountCSBT.rlp csbt, nilRlp AccountStaker.rlp staker, extra] hworm
      exact fun henc => absurd (congrArg List.length henc) (Nat.ne_of_gt hlt)

/-- An NFT address that `GetNFTOwner16` reads in an empty state: its object,
which `GetOrNewNFTStateObject` creates, has a `Csbt` and no `Worm`. -/
def nftTouched : JournaledDB := ((JournaledDB.ofState StateDB.empty).getNFTOwner16 12).1

theorem revertToSnapshot_keeps_lazy_worm_of_nft_account :
    ∃ j', (nftTouched.snapshot.2.getPledgedBalance 12).1.revertToSnapshot nftTouched.snapshot.1 = some j' ∧
      j'.db.accounts 12 = some { worm := some {}, csbt := some {} } ∧
      Rlp.encode (({ worm := some {}, csbt := some {} } : Account).rlp (.str []) (.str []) (.str [])) ≠
        Rlp.encode (({ csbt := some {} } : Account).rlp (.str []) (.str []) (.str [])) :=
  @revertToSnapshot_keeps_lazy_worm nftTouched 12 { csbt := some {} } (by decide) rfl (.str []) (.str []) (.str [])

end Erbie
