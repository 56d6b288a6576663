import Erbie.Spec.Genesis
import Erbie.Proofs.ValidatorList
import Erbie.Proofs.NftFrame
import Erbie.Lib.Fold

/-! The genesis state does not depend on the order of the loops of `ToBlock`.
Each round writes the account of its own entry and, for stakes and
validators, one list, the staker list or the validator list, by an upsert then
a sort. Two rounds on distinct entries commute: their account writes touch
distinct accounts, and their list writes are upserts on distinct addresses
into a list with one entry per address, which the sort then orders alike.
`Fold.foldl_perm_of_rightComm` turns that into the independence of the whole
loop from its order. -/

namespace Erbie
namespace StateDB

variable (s : StateDB)

/-! ### Writes to distinct accounts, and to one account -/

theorem setAccount_comm {a b : Address} (hab : a ≠ b) (x y : Account) :
    (s.setAccount a x).setAccount b y = (s.setAccount b y).setAccount a x := by
  unfold setAccount
  rw [Function.update_comm hab]

theorem setAccount_setAccount (a : Address) (x y : Account) : (s.setAccount a x).setAccount a y = s.setAccount a y := by
  unfold setAccount
  rw [Function.update_idem]

theorem accountObject_setAccount_of {a b : Address} (h : b ≠ a) (x : Account) :
    (s.setAccount a x).accountObject b = s.accountObject b := by
  unfold accountObject
  rw [accounts_setAccount, if_neg h]

theorem stakerObject_setAccount_of {a b : Address} (h : b ≠ a) (x : Account) :
    (s.setAccount a x).stakerObject b = s.stakerObject b := by
  unfold stakerObject
  rw [accounts_setAccount, if_neg h]

theorem updateAccount_comm {a b : Address} (hab : a ≠ b) (f g : Account → Account) :
    (s.updateAccount a f).updateAccount b g = (s.updateAccount b g).updateAccount a f := by
  unfold updateAccount
  rw [accountObject_setAccount_of _ (Ne.symm hab), accountObject_setAccount_of _ hab, setAccount_comm _ hab]

theorem accountObject_setAccount_self (a : Address) {x : Account} (hx : x.worm.isSome) :
    (s.setAccount a x).accountObject a = x := by
  unfold accountObject
  rw [accounts_setAccount, if_pos rfl]
  obtain ⟨w, hw⟩ := Option.isSome_iff_exists.1 hx
  cases x
  simp only at hw
  simp [hw]

theorem updateAccount_updateAccount (a : Address) {f : Account → Account} (hf : ∀ acc, acc.worm.isSome → (f acc).worm.isSome)
    (g : Account → Account) : (s.updateAccount a f).updateAccount a g = s.updateAccount a (g ∘ f) := by
  unfold updateAccount
  rw [setAccount_setAccount, accountObject_setAccount_self _ _ (hf _ (by simp))]
  rfl

/-- A method of the staker object at `a`, as `updateValidators` and
`updateStakers` apply one. -/
def updateStakerObject (a : Address) (h : AccountStaker → AccountStaker) : StateDB :=
  s.setAccount a ((s.stakerObject a).updateStaker h)

theorem updateValidators_eq (g : List Validator → List Validator) :
    s.updateValidators g = s.updateStakerObject ValidatorStorageAddress fun st => { st with validators := g st.validators } :=
  rfl

theorem updateStakers_eq (g : List Staker → List Staker) :
    s.updateStakers g = s.updateStakerObject StakerStorageAddress fun st => { st with csbtCreators := g st.csbtCreators } :=
  rfl

theorem updateStakerObject_updateStakerObject (a : Address) (h₁ h₂ : AccountStaker → AccountStaker) :
    (s.updateStakerObject a h₁).updateStakerObject a h₂ = s.updateStakerObject a (h₂ ∘ h₁) := by
  unfold updateStakerObject
  rw [setAccount_setAccount]
  congr 1
  cases hs : s.accounts a <;> simp [stakerObject, accounts_setAccount, hs, Account.updateStaker]

theorem getOrNewStakerStateObject_updateStakerObject (a : Address) (h : AccountStaker → AccountStaker) :
    (s.getOrNewStakerStateObject a).updateStakerObject a h = s.updateStakerObject a h := by
  unfold updateStakerObject getOrNewStakerStateObject
  rw [setAccount_setAccount]
  congr 1
  cases hs : s.accounts a <;> simp [stakerObject, accounts_setAccount, hs]

/-- A write through `GetOrNewAccountStateObject` that leaves the staker object
alone commutes with a method of the staker object, at the same address too. -/
theorem updateAccount_updateStakerObject_comm (a b : Address) {f : Account → Account}
    (hf : ∀ acc st, f { acc with staker := st } = { f acc with staker := st }) (h : AccountStaker → AccountStaker) :
    (s.updateAccount b f).updateStakerObject a h = (s.updateStakerObject a h).updateAccount b f := by
  have hfs : ∀ acc, (f acc).staker = acc.staker := fun acc =>
    calc (f acc).staker = (f { acc with staker := acc.staker }).staker := rfl
      _ = acc.staker := by rw [hf]
  unfold updateStakerObject updateAccount
  by_cases hab : b = a
  · subst hab
    rw [setAccount_setAccount, setAccount_setAccount]
    -- both orders write the object of `f`, with the staker object `h` makes
    have hobj : (s.setAccount b ((s.stakerObject b).updateStaker h)).accountObject b =
        { s.accountObject b with staker := some (h ((s.stakerObject b).staker.getD {})) } := by
      unfold accountObject stakerObject
      rw [accounts_setAccount, if_pos rfl]
      cases s.accounts b <;> rfl
    have hstk : ((s.setAccount b (f (s.accountObject b))).stakerObject b).updateStaker h =
        { f (s.accountObject b) with staker := some (h ((s.stakerObject b).staker.getD {})) } := by
      have hA := hfs (s.accountObject b)
      rw [accountObject_staker] at hA
      unfold stakerObject
      rw [accounts_setAccount, if_pos rfl]
      simp only [Account.updateStaker, hA, Option.getD_some]
      cases s.accounts b <;> rfl
    rw [hobj, hstk, hf (s.accountObject b) (some (h ((s.stakerObject b).staker.getD {})))]
  · rw [stakerObject_setAccount_of _ (Ne.symm hab), accountObject_setAccount_of _ hab, setAccount_comm _ hab]

theorem updateStakerObject_congr (a : Address) {h₁ h₂ : AccountStaker → AccountStaker}
    (h : h₁ ((s.stakerObject a).staker.getD {}) = h₂ ((s.stakerObject a).staker.getD {})) :
    s.updateStakerObject a h₁ = s.updateStakerObject a h₂ := by
  unfold updateStakerObject Account.updateStaker
  rw [h]

theorem getOrNewAccountStateObject_eq (a : Address) : s.getOrNewAccountStateObject a = s.updateAccount a id := rfl

/-- What `StakerPledge(x, x, b, n, p)`, a validator's stake on itself, writes
into the account of `x`. -/
def pledgeSelf (x : Address) (b : Int) (n : Nat) (p : String) (acc : Account) : Account :=
  (((((acc.subBalance b).stakerPledge x b n).addPledgedBalance b).setValidatorProxy
    (if p = "" then zeroAddress else hexToAddress p)).addValidatorExtension x b n).setPledgedBlockNumber n

theorem pledgedBalance_pledgeSelf (x : Address) (b : Int) (n : Nat) (p : String) (acc : Account) :
    ((pledgeSelf x b n p acc).worm.getD {}).pledgedBalance = (acc.worm.getD {}).pledgedBalance + b :=
  rfl

theorem stakerPledge_self (x : Address) (b : Int) (n : Nat) (p : String) :
    s.stakerPledge x x b n p = s.updateAccount x (pledgeSelf x b n p) := by
  simp only [stakerPledge, if_true, getOrNewAccountStateObject_eq]
  repeat rw [updateAccount_updateAccount]
  · rfl
  all_goals intro acc h
  all_goals first | exact h | rfl

/-! ### The staker and validator lists -/

theorem stakers_updateAccount (a : Address) {f : Account → Account} (hf : ∀ acc, (f acc).staker = acc.staker) :
    (s.updateAccount a f).stakers = s.stakers :=
  s.stakers_setAccount (Or.inr (by rw [hf, accountObject_staker]))

theorem stakers_updateStakers (g : List Staker → List Staker) : (s.updateStakers g).stakers = g s.stakers := by
  unfold updateStakers stakers
  rw [stakerObject_staker_of_eq_some _ (by rw [accounts_setAccount, if_pos rfl]; rfl)]
  rfl

theorem validators_updateStakers (g : List Staker → List Staker) : (s.updateStakers g).validators = s.validators := by
  rw [updateStakers, validators_setAccount, if_neg (by decide)]

theorem stakers_empty : empty.stakers = [] := rfl

theorem validators_empty : empty.validators = [] := rfl

end StateDB

namespace StakerList

theorem not_less_trans (a b c : Staker) (hab : (!b.less a) = true) (hbc : (!c.less b) = true) :
    (!c.less a) = true := by
  simp only [Staker.less, Bool.not_eq_eq_eq_not, Bool.not_true, decide_eq_false_iff_not, not_lt] at hab hbc ⊢
  omega

theorem not_less_total (a b : Staker) : ((!b.less a) || (!a.less b)) = true := by
  simp only [Staker.less, Bool.or_eq_true, Bool.not_eq_eq_eq_not, Bool.not_true, decide_eq_false_iff_not, not_lt]
  omega

theorem addr_eq_of_not_less (a b : Staker) (hab : (!b.less a) = true) (hba : (!a.less b) = true) :
    a.addr = b.addr := by
  simp only [Staker.less, Bool.not_eq_eq_eq_not, Bool.not_true, decide_eq_false_iff_not, not_lt] at hab hba
  exact BitVec.eq_of_toNat_eq (by omega)

theorem addStaker_go_eq (sl : List Staker) (addr : Address) (balance : Int) :
    addStaker.go addr balance sl =
      Upsert.upsert Staker.addr addr (fun v => { v with balance := v.balance + balance }) ⟨addr, balance⟩ sl := by
  induction sl with
  | nil => rfl
  | cons v vs ih =>
    rw [addStaker.go, Upsert.upsert, ih]

theorem nodup_addStaker {sl : List Staker} (hnd : (sl.map Staker.addr).Nodup) (x : Address) (b : Int) :
    ((addStaker sl x b).map Staker.addr).Nodup := by
  rw [addStaker, sortStakers, ((List.mergeSort_perm _ _).map _).nodup_iff, addStaker_go_eq]
  refine Upsert.nodup_upsert ?_ ?_ hnd
  all_goals intros; rfl

theorem addStaker_comm {sl : List Staker} (hnd : (sl.map Staker.addr).Nodup) {x y : Address} (hxy : x ≠ y)
    (bx by' : Int) : addStaker (addStaker sl x bx) y by' = addStaker (addStaker sl y by') x bx := by
  simp only [addStaker, addStaker_go_eq, sortStakers]
  refine Upsert.mergeSort_upsert_comm _ not_less_trans not_less_total addr_eq_of_not_less ?_ ?_ ?_ ?_ hxy hnd
  all_goals intros; rfl

end StakerList

namespace Genesis

open StateDB

/-! ### One round of each loop -/

theorem allocAccount_eq (s : StateDB) (e : Address × GenesisAccount) :
    allocAccount s e = s.updateAccount e.1 fun acc => { acc.addBalance e.2.balance with code := e.2.code, nonce := e.2.nonce } := by
  unfold allocAccount StateDB.addBalance setCode setNonce
  rw [updateAccount_updateAccount, updateAccount_updateAccount]
  · rfl
  all_goals exact fun _ h => h

theorem stakeAccount_eq (s : StateDB) (e : Address × GenesisAccount) :
    stakeAccount s e = s.updateStakers (StakerList.addStaker · e.1 e.2.balance) := by
  unfold stakeAccount
  rw [updateStakers_eq, updateStakers_eq, getOrNewStakerStateObject_updateStakerObject]

/-- What a `Validator` entry writes into its own account: the stake on itself,
then the full coefficient. -/
def selfStake (e : Address × GenesisAccount) (acc : Account) : Account :=
  (pledgeSelf e.1 e.2.balance 0 e.2.proxy acc).addCoefficient VALIDATOR_COEFFICIENT

theorem validatorAccount_eq (s : StateDB) (e : Address × GenesisAccount) :
    validatorAccount s e = (s.updateAccount e.1 (selfStake e)).updateValidators
      (ValidatorList.addValidator · e.1 ((s.worm e.1).pledgedBalance + e.2.balance) (hexToAddress e.2.proxy)) := by
  simp only [validatorAccount, minerBecome, addValidatorCoefficient, stakerPledge_self, getOrNewAccountStateObject_eq]
  rw [updateAccount_updateAccount _ _ (fun _ _ => rfl),
    updateValidators_eq, updateValidators_eq, getOrNewStakerStateObject_updateStakerObject,
    ← updateAccount_updateStakerObject_comm _ _ _ (fun _ _ => rfl), updateAccount_updateAccount _ _ (fun _ _ => rfl)]
  -- the list reads the pledged balance after the stake
  rw [getPledgedBalance, worm_getOrNewStakerStateObject, worm_updateAccount, if_pos rfl, Function.comp_apply, id_eq,
    pledgedBalance_pledgeSelf, accountObject_worm, Option.getD_some]
  rfl

/-! ### Two rounds on distinct entries commute -/

theorem allocAccount_comm (s : StateDB) {e e' : Address × GenesisAccount} (h : e.1 ≠ e'.1) :
    allocAccount (allocAccount s e) e' = allocAccount (allocAccount s e') e := by
  simp only [allocAccount_eq]
  exact updateAccount_comm _ h _ _

theorem stakeAccount_comm {s : StateDB} (hnd : (s.stakers.map Staker.addr).Nodup) {e e' : Address × GenesisAccount}
    (h : e.1 ≠ e'.1) : stakeAccount (stakeAccount s e) e' = stakeAccount (stakeAccount s e') e := by
  simp only [stakeAccount_eq, updateStakers_eq, updateStakerObject_updateStakerObject]
  apply updateStakerObject_congr
  simp only [Function.comp_apply]
  rw [← stakers.eq_1, StakerList.addStaker_comm hnd h]

theorem validatorAccount_comm {s : StateDB} (hnd : (s.validators.map Validator.addr).Nodup)
    {e e' : Address × GenesisAccount} (h : e.1 ≠ e'.1) :
    validatorAccount (validatorAccount s e) e' = validatorAccount (validatorAccount s e') e := by
  -- each round reads the pledged balance of its own entry, which the other round leaves alone
  have hw : ∀ {e e' : Address × GenesisAccount}, e.1 ≠ e'.1 → (validatorAccount s e).worm e'.1 = s.worm e'.1 := by
    intro e e' h
    rw [validatorAccount_eq, worm_updateValidators, worm_updateAccount, if_neg (Ne.symm h)]
  rw [validatorAccount_eq (validatorAccount s e), hw h, validatorAccount_eq (validatorAccount s e'), hw (Ne.symm h),
    validatorAccount_eq s e, validatorAccount_eq s e']
  simp only [updateValidators_eq]
  rw [← updateAccount_updateStakerObject_comm _ _ _ (fun _ _ => rfl),
    ← updateAccount_updateStakerObject_comm _ _ _ (fun _ _ => rfl), updateStakerObject_updateStakerObject,
    updateStakerObject_updateStakerObject, updateAccount_comm _ h]
  apply updateStakerObject_congr
  simp only [Function.comp_apply]
  rw [← validators.eq_1, validators_updateAccount _ e.1 _ (selfStake e) fun _ => rfl,
    validators_updateAccount _ e'.1 _ (selfStake e') fun _ => rfl, ValidatorList.addValidator_comm hnd h]

/-! ### What each round keeps -/

theorem stakers_allocAccount (s : StateDB) (e : Address × GenesisAccount) : (allocAccount s e).stakers = s.stakers := by
  rw [allocAccount_eq]
  exact stakers_updateAccount _ _ fun _ => rfl

theorem validators_allocAccount (s : StateDB) (e : Address × GenesisAccount) :
    (allocAccount s e).validators = s.validators := by
  rw [allocAccount_eq]
  exact validators_updateAccount _ _ _ _ fun _ => rfl

theorem validators_stakeAccount (s : StateDB) (e : Address × GenesisAccount) :
    (stakeAccount s e).validators = s.validators := by
  rw [stakeAccount_eq, validators_updateStakers]

theorem nodup_stakers_stakeAccount {s : StateDB} (hnd : (s.stakers.map Staker.addr).Nodup)
    (e : Address × GenesisAccount) : ((stakeAccount s e).stakers.map Staker.addr).Nodup := by
  rw [stakeAccount_eq, stakers_updateStakers]
  exact StakerList.nodup_addStaker hnd _ _

theorem nodup_validators_validatorAccount {s : StateDB} (hnd : (s.validators.map Validator.addr).Nodup)
    (e : Address × GenesisAccount) : ((validatorAccount s e).validators.map Validator.addr).Nodup := by
  rw [validatorAccount_eq, validators_updateValidators, validators_updateAccount _ e.1 _ (selfStake e) fun _ => rfl]
  exact ValidatorList.nodup_addValidator hnd _ _ _

/-! ### Whole loops -/

theorem fst_ne_of_mem {l : List (Address × GenesisAccount)} (hnd : (l.map Prod.fst).Nodup) {x y : Address × GenesisAccount}
    (hx : x ∈ l) (hy : y ∈ l) (hxy : x ≠ y) : x.1 ≠ y.1 :=
  fun h => hxy (List.inj_on_of_nodup_map hnd hx hy h)

section
variable {l l' : List (Address × GenesisAccount)} (hp : l.Perm l') (hnd : (l.map Prod.fst).Nodup)
include hp hnd

theorem foldl_allocAccount_perm (s : StateDB) : l.foldl allocAccount s = l'.foldl allocAccount s :=
  Fold.foldl_perm_of_rightComm allocAccount (fun _ => True) (fun _ _ _ => trivial) hp hnd.of_map
    (fun t _ _ hx _ hy hxy => allocAccount_comm t (fst_ne_of_mem hnd hx hy hxy)) s trivial

theorem foldl_stakeAccount_perm {s : StateDB} (hs : (s.stakers.map Staker.addr).Nodup) :
    l.foldl stakeAccount s = l'.foldl stakeAccount s :=
  Fold.foldl_perm_of_rightComm stakeAccount (fun t => (t.stakers.map Staker.addr).Nodup)
    (fun _ e ht => nodup_stakers_stakeAccount ht e) hp hnd.of_map
    (fun _ ht _ hx _ hy hxy => stakeAccount_comm ht (fst_ne_of_mem hnd hx hy hxy)) s hs

theorem foldl_validatorAccount_perm {s : StateDB} (hs : (s.validators.map Validator.addr).Nodup) :
    l.foldl validatorAccount s = l'.foldl validatorAccount s :=
  Fold.foldl_perm_of_rightComm validatorAccount (fun t => (t.validators.map Validator.addr).Nodup)
    (fun _ e ht => nodup_validators_validatorAccount ht e) hp hnd.of_map
    (fun _ ht _ hx _ hy hxy => validatorAccount_comm ht (fst_ne_of_mem hnd hx hy hxy)) s hs

end

/-! The stake loop starts from the empty staker list, and the validator loop
from the empty validator list. -/

theorem stakers_foldl_allocAccount (l : List (Address × GenesisAccount)) (s : StateDB) :
    (l.foldl allocAccount s).stakers = s.stakers := by
  induction l generalizing s with
  | nil => rfl
  | cons e l ih => rw [List.foldl_cons, ih, stakers_allocAccount]

theorem validators_foldl_allocAccount (l : List (Address × GenesisAccount)) (s : StateDB) :
    (l.foldl allocAccount s).validators = s.validators := by
  induction l generalizing s with
  | nil => rfl
  | cons e l ih => rw [List.foldl_cons, ih, validators_allocAccount]

theorem validators_foldl_stakeAccount (l : List (Address × GenesisAccount)) (s : StateDB) :
    (l.foldl stakeAccount s).validators = s.validators := by
  induction l generalizing s with
  | nil => rfl
  | cons e l ih => rw [List.foldl_cons, ih, validators_stakeAccount]

theorem nodup_of_perm {l : List (Address × GenesisAccount)} {m : GenesisAlloc} (hp : l.Perm m.entries) :
    (l.map Prod.fst).Nodup :=
  (hp.map Prod.fst).nodup_iff.2 m.nodup

/-- `ToBlock` builds the same state, hence the same root and the same staker
and validator lists, whatever the order in which its loops visit the maps
`Alloc`, `Stake` and `Validator` of the genesis. -/
theorem toBlockState_independent_of_order (g : Genesis) {alloc stake validator : List (Address × GenesisAccount)}
    (ha : alloc.Perm g.alloc.entries) (hs : stake.Perm g.stake.entries) (hv : validator.Perm g.validator.entries) :
    toBlockState alloc stake validator = toBlockState g.alloc.entries g.stake.entries g.validator.entries := by
  have hs₀ : ((g.alloc.entries.foldl allocAccount empty).stakers.map Staker.addr).Nodup := by
    rw [stakers_foldl_allocAccount, stakers_empty]
    exact List.nodup_nil
  have hv₀ : (((g.stake.entries.foldl stakeAccount (g.alloc.entries.foldl allocAccount empty)).validators).map
      Validator.addr).Nodup := by
    rw [validators_foldl_stakeAccount, validators_foldl_allocAccount, validators_empty]
    exact List.nodup_nil
  simp only [toBlockState]
  rw [foldl_allocAccount_perm ha (nodup_of_perm ha), foldl_stakeAccount_perm hs (nodup_of_perm hs) hs₀,
    foldl_validatorAccount_perm hv (nodup_of_perm hv) hv₀]

/-- A genesis with one funded account, two stakers and two validators. -/
def twoValidatorGenesis : Genesis where
  alloc := ⟨[(5, { balance := 1000 })], by decide⟩
  stake := ⟨[(6, { balance := 10 }), (7, { balance := 20 })], by decide⟩
  validator := ⟨[(8, { balance := 100 }), (9, { balance := 200 })], by decide⟩

/-- Its `Stake` and `Validator` loops, run backwards, build the same state. -/
theorem genesis_loops_in_reverse_order :
    toBlockState [(5, { balance := 1000 })] [(7, { balance := 20 }), (6, { balance := 10 })]
        [(9, { balance := 200 }), (8, { balance := 100 })] =
      toBlockState twoValidatorGenesis.alloc.entries twoValidatorGenesis.stake.entries
        twoValidatorGenesis.validator.entries :=
  toBlockState_independent_of_order twoValidatorGenesis (List.Perm.refl _) (List.Perm.swap _ _ [])
    (List.Perm.swap _ _ [])

end Genesis

end Erbie
