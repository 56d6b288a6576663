import Erbie.Proofs.Frame

/-! What leaves NFTs alone. The owner of every NFT address, the official mint
counter at `MintDeepStorageAddress` and the CSBT creator list at
`StakerStorageAddress` are read off the `Csbt` extension of each account and
the `Staker` extension of two fixed accounts. The staking writes, the balance
and coefficient writes and the validator list writes touch neither:
`NftFrame s s'` says so, and it composes like `LedgerFrame`. -/

namespace Erbie

/-- `s'` reads the NFT owners, the official mint counter and the CSBT
creators of `s`. -/
structure NftFrame (s s' : StateDB) : Prop where
  owners : ∀ a, s'.getNFTOwner16 a = s.getNFTOwner16 a
  mint : s'.officialMint = s.officialMint
  creators : s'.stakers = s.stakers

namespace NftFrame

theorem refl (s : StateDB) : NftFrame s s := ⟨fun _ => rfl, rfl, rfl⟩

theorem trans {s₁ s₂ s₃ : StateDB} (h₁ : NftFrame s₁ s₂) (h₂ : NftFrame s₂ s₃) : NftFrame s₁ s₃ :=
  ⟨fun a => (h₂.owners a).trans (h₁.owners a), h₂.mint.trans h₁.mint, h₂.creators.trans h₁.creators⟩

theorem foldl {β : Type} (f : StateDB → β → StateDB) (l : List β) (s : StateDB)
    (hf : ∀ t x, x ∈ l → NftFrame t (f t x)) : NftFrame s (l.foldl f s) :=
  Fold.foldl_rel NftFrame refl (fun _ _ _ => trans) f l s hf

theorem foldlM {β : Type} (f : StateDB → β → Option StateDB) (l : List β) {s s' : StateDB}
    (hf : ∀ t x t', x ∈ l → f t x = some t' → NftFrame t t')
    (h : l.foldlM f s = some s') : NftFrame s s' :=
  Fold.foldlM_rel NftFrame refl (fun _ _ _ => trans) f l hf h

end NftFrame

namespace StateDB

variable (s : StateDB)

/-! ### Reads of the NFT extension and of the staker objects -/

theorem getNFTOwner16_eq (a : Address) :
    s.getNFTOwner16 a = (((s.accounts a).bind Account.csbt).getD {}).owner := by
  unfold getNFTOwner16 nftObject
  cases s.accounts a <;> rfl

theorem getNFTOwner16_setAccount (a b : Address) (acc : Account) :
    (s.setAccount a acc).getNFTOwner16 b = if b = a then (acc.csbt.getD {}).owner else s.getNFTOwner16 b := by
  rw [getNFTOwner16_eq, getNFTOwner16_eq, accounts_setAccount]
  split_ifs <;> rfl

@[simp] theorem stakerObject_csbt (a : Address) : (s.stakerObject a).csbt = (s.accounts a).bind Account.csbt := by
  unfold stakerObject
  cases s.accounts a <;> rfl

theorem stakerObject_staker_congr {t : StateDB} {a : Address}
    (h : (t.accounts a).bind Account.staker = (s.accounts a).bind Account.staker) :
    (t.stakerObject a).staker = (s.stakerObject a).staker := by
  unfold stakerObject
  cases ht : t.accounts a <;> cases hs : s.accounts a <;> rw [ht, hs] at h <;>
    simp only [Option.bind_none, Option.bind_some] at h
  · simp [← h]
  · simp [h]
  · simp [h]

theorem stakerObject_staker_of_eq_some {a : Address} {st : AccountStaker}
    (h : (s.accounts a).bind Account.staker = some st) : (s.stakerObject a).staker = some st := by
  unfold stakerObject
  cases ha : s.accounts a <;> rw [ha] at h <;> simp_all

/-- A write of an object with its own staker extension, or of the validator
list's, keeps every other staker object. -/
theorem stakerObject_staker_setAccount {a b : Address} {acc : Account}
    (hst : a = ValidatorStorageAddress ∨ acc.staker = (s.accounts a).bind Account.staker)
    (hb : b ≠ ValidatorStorageAddress) :
    ((s.setAccount a acc).stakerObject b).staker = (s.stakerObject b).staker := by
  refine stakerObject_staker_congr s ?_
  rw [accounts_setAccount]
  split_ifs with hba
  · subst hba
    rcases hst with hst | hst
    · exact absurd hst hb
    · exact hst
  · rfl

theorem officialMint_setAccount {a : Address} {acc : Account}
    (hst : a = ValidatorStorageAddress ∨ acc.staker = (s.accounts a).bind Account.staker) :
    (s.setAccount a acc).officialMint = s.officialMint := by
  simp only [officialMint, stakerObject_staker_setAccount s (b := MintDeepStorageAddress) hst (by decide)]

theorem stakers_setAccount {a : Address} {acc : Account}
    (hst : a = ValidatorStorageAddress ∨ acc.staker = (s.accounts a).bind Account.staker) :
    (s.setAccount a acc).stakers = s.stakers := by
  simp only [stakers, stakerObject_staker_setAccount s (b := StakerStorageAddress) hst (by decide)]

theorem stakerObject_staker_getOrNewStakerStateObject (a b : Address) :
    ((s.getOrNewStakerStateObject a).stakerObject b).staker = (s.stakerObject b).staker := by
  by_cases hb : b = a
  · subst hb
    obtain ⟨st, hst⟩ := Option.isSome_iff_exists.mp (s.stakerObject_staker_isSome b)
    rw [hst]
    refine stakerObject_staker_of_eq_some _ ?_
    rw [getOrNewStakerStateObject, accounts_setAccount, if_pos rfl, Option.bind_some, hst]
  · refine stakerObject_staker_congr s ?_
    rw [getOrNewStakerStateObject, accounts_setAccount, if_neg hb]

/-! ### The writes that keep the NFT reads -/

theorem nftFrame_setAccount {a : Address} {acc : Account}
    (ho : (acc.csbt.getD {}).owner = s.getNFTOwner16 a)
    (hst : a = ValidatorStorageAddress ∨ acc.staker = (s.accounts a).bind Account.staker) :
    NftFrame s (s.setAccount a acc) := by
  refine ⟨fun b => ?_, s.officialMint_setAccount hst, s.stakers_setAccount hst⟩
  rw [getNFTOwner16_setAccount]
  split_ifs with hb
  · rw [hb, ho]
  · rfl

theorem nftFrame_getOrNewAccountStateObject (a : Address) : NftFrame s (s.getOrNewAccountStateObject a) :=
  s.nftFrame_setAccount (by rw [accountObject_csbt, getNFTOwner16_eq]) (.inr (accountObject_staker s a))

theorem nftFrame_getOrNewNFTStateObject (a : Address) : NftFrame s (s.getOrNewNFTStateObject a) := by
  refine s.nftFrame_setAccount ?_ (.inr (nftObject_staker s a))
  rw [getNFTOwner16_eq]
  unfold nftObject
  cases s.accounts a <;> rfl

theorem nftFrame_getOrNewStakerStateObject (a : Address) : NftFrame s (s.getOrNewStakerStateObject a) := by
  refine ⟨fun b => ?_, ?_, ?_⟩
  · rw [getOrNewStakerStateObject, getNFTOwner16_setAccount]
    split_ifs with hb
    · rw [hb, stakerObject_csbt, getNFTOwner16_eq]
    · rfl
  · simp only [officialMint, stakerObject_staker_getOrNewStakerStateObject]
  · simp only [stakers, stakerObject_staker_getOrNewStakerStateObject]

theorem nftFrame_updateAccount (a : Address) (f : Account → Account) (hc : ∀ acc, (f acc).csbt = acc.csbt)
    (hst : ∀ acc, (f acc).staker = acc.staker) : NftFrame s (s.updateAccount a f) :=
  s.nftFrame_setAccount (by rw [hc, accountObject_csbt, getNFTOwner16_eq])
    (.inr (by rw [hst, accountObject_staker]))

theorem nftFrame_updateValidators (g : List Validator → List Validator) : NftFrame s (s.updateValidators g) :=
  s.nftFrame_setAccount (by simp [Account.setValidators, Account.updateStaker, getNFTOwner16_eq]) (.inl rfl)

end StateDB

theorem NftFrame.updateAccount {s t : StateDB} (h : NftFrame s t) (a : Address) (f : Account → Account)
    (hc : ∀ acc, (f acc).csbt = acc.csbt) (hst : ∀ acc, (f acc).staker = acc.staker) :
    NftFrame s (t.updateAccount a f) :=
  h.trans (t.nftFrame_updateAccount a f hc hst)

namespace StateDB

variable (s : StateDB)

theorem nftFrame_addBalance (a : Address) (x : Int) : NftFrame s (s.addBalance a x) :=
  s.nftFrame_updateAccount a _ (fun _ => rfl) (fun _ => rfl)

theorem nftFrame_subBalance (a : Address) (x : Int) : NftFrame s (s.subBalance a x) :=
  s.nftFrame_updateAccount a _ (fun _ => rfl) (fun _ => rfl)

theorem nftFrame_addValidatorCoefficient (a : Address) (c : UInt8) :
    NftFrame s (s.addValidatorCoefficient a c) :=
  s.nftFrame_updateAccount a _ (fun _ => rfl) (fun _ => rfl)

theorem nftFrame_subValidatorCoefficient (a : Address) (c : UInt8) :
    NftFrame s (s.subValidatorCoefficient a c) :=
  s.nftFrame_updateAccount a _ (fun _ => rfl) (fun _ => rfl)

theorem nftFrame_transfer (a b : Address) (x : Int) : NftFrame s (transfer s a b x) :=
  (s.nftFrame_subBalance a x).trans (nftFrame_addBalance _ b x)

/-! ### Staking -/

theorem nftFrame_stakerPledge (fromAddr address : Address) (amount : Int) (blocknumber : Nat)
    (proxyAddress : String) : NftFrame s (s.stakerPledge fromAddr address amount blocknumber proxyAddress) := by
  unfold stakerPledge
  dsimp only
  -- every write goes through the worm or the balance of an account object,
  -- and so does the creation of one
  repeat refine NftFrame.updateAccount ?_ _ _ (fun _ => rfl) (fun _ => rfl)
  split_ifs
  all_goals
    repeat refine NftFrame.updateAccount ?_ _ _ (fun _ => rfl) (fun _ => rfl)
    exact .refl s

theorem nftFrame_resetMinerBecome (address : Address) : NftFrame s (s.resetMinerBecome address).1 := by
  have h₀ := (s.nftFrame_getOrNewAccountStateObject address).trans
    (nftFrame_getOrNewStakerStateObject _ ValidatorStorageAddress)
  have h₁ := h₀.trans (nftFrame_updateValidators _ (ValidatorList.resetRemoveValidator · address))
  unfold resetMinerBecome
  dsimp only
  split_ifs <;> dsimp only
  · exact h₁
  · exact h₁
  · exact (h₁.trans (nftFrame_addValidatorCoefficient _ address VALIDATOR_COEFFICIENT)).trans
      (nftFrame_updateValidators _ _)
  · exact h₁.trans (nftFrame_updateValidators _ _)

theorem nftFrame_removePledge (fromAddr address : Address) (amount : Int) :
    NftFrame s (s.removePledge fromAddr address amount) := by
  unfold removePledge
  refine NftFrame.trans ?_ (nftFrame_updateValidators _ _)
  repeat refine NftFrame.updateAccount ?_ _ _ (fun _ => rfl) (fun _ => rfl)
  exact .refl s

theorem nftFrame_revocateStaker (addr : Address) (staker : ValidatorExtension) :
    NftFrame s (revocateStaker addr s staker) := by
  unfold revocateStaker
  refine NftFrame.trans ?_ (nftFrame_updateValidators _ _)
  repeat refine NftFrame.updateAccount ?_ _ _ (fun _ => rfl) (fun _ => rfl)
  exact .refl s

theorem nftFrame_revocateAllStakers (addr : Address) (bn : Nat) : NftFrame s (s.revocateAllStakers addr bn) := by
  unfold revocateAllStakers
  refine NftFrame.updateAccount ?_ _ _ (fun _ => rfl) (fun _ => rfl)
  exact ((s.nftFrame_getOrNewAccountStateObject addr).trans (nftFrame_getOrNewStakerStateObject _ _)).trans
    (NftFrame.foldl _ _ _ fun t x _ => t.nftFrame_revocateStaker addr x)

theorem nftFrame_newCancelStakerPledge (fromAddr address : Address) (amount : Int) (bn : Nat) :
    NftFrame s (s.newCancelStakerPledge fromAddr address amount bn).1 := by
  have h₀ := ((s.nftFrame_getOrNewAccountStateObject address).trans
    (nftFrame_getOrNewAccountStateObject _ fromAddr)).trans (nftFrame_getOrNewStakerStateObject _ ValidatorStorageAddress)
  unfold newCancelStakerPledge
  dsimp only
  split_ifs <;> dsimp only
  · exact h₀
  -- the refund of the other stakers, then the pledge, then the payment
  all_goals
    try refine NftFrame.trans ?_ (nftFrame_revocateAllStakers _ _ _)
    refine NftFrame.trans ?_ (nftFrame_removePledge _ _ _ _)
    repeat refine NftFrame.updateAccount ?_ _ _ (fun _ => rfl) (fun _ => rfl)
    exact h₀

theorem nftFrame_recoverValidatorCoefficient (a : Address) : NftFrame s (s.recoverValidatorCoefficient a).1 := by
  have h₀ := s.nftFrame_getOrNewAccountStateObject a
  unfold recoverValidatorCoefficient
  dsimp only
  split_ifs
  all_goals
    try refine (NftFrame.trans ?_ (nftFrame_addBalance _ _ _)).trans (nftFrame_addValidatorCoefficient _ _ _)
    try refine NftFrame.trans ?_ (nftFrame_subBalance _ _ _)
    exact h₀

/-! ### Finalisation, but for the mint -/

theorem nftFrame_payStakers (owner : Address) (x y : Int) :
    ∀ (s : StateDB) (l : List ValidatorExtension) {s' : StateDB} {paid : Int},
      payStakers owner x y s l = some (s', paid) → NftFrame s s'
  | s, [], s', paid, h => by
    simp only [payStakers, Option.some.injEq, Prod.mk.injEq] at h
    rw [← h.1]
    exact .refl s
  | s, e :: l, s', paid, h => by
    unfold payStakers at h
    split_ifs at h
    · exact nftFrame_payStakers owner x y s l h
    · obtain ⟨⟨t, p⟩, ht, heq⟩ := Option.map_eq_some_iff.mp h
      cases heq
      exact (s.nftFrame_addBalance _ _).trans (nftFrame_payStakers owner x y _ l ht)

theorem nftFrame_distributeRewardsToStakers {validators : List Address} {rewardAmount : Int}
    {s' : StateDB} (h : s.distributeRewardsToStakers validators rewardAmount = some s') : NftFrame s s' := by
  refine NftFrame.foldlM _ validators (fun t x t' _ ht => ?_) h
  obtain ⟨⟨u, paid⟩, hu, rfl⟩ := Option.map_eq_some_iff.mp ht
  exact ((t.nftFrame_getOrNewAccountStateObject x).trans (nftFrame_payStakers x _ _ _ _ hu)).trans
    (nftFrame_subBalance _ _ _)

theorem nftFrame_recalculateWeights {s' : StateDB} (h : s.recalculateWeights = some s') : NftFrame s s' := by
  unfold recalculateWeights at h
  obtain ⟨⟨u, vl⟩, hfold, rfl⟩ := Option.map_eq_some_iff.mp h
  -- the loop creates account objects and carries the list it rewrites
  have hloop : NftFrame (s.getOrNewStakerStateObject ValidatorStorageAddress) u :=
    Fold.foldlM_rel (fun p q : StateDB × List Validator => NftFrame p.1 q.1) (fun _ => .refl _)
      (fun _ _ _ h₁ h₂ => h₁.trans h₂) _ _ (fun p _ q _ hq => by
        obtain ⟨_, _, rfl⟩ := Option.map_eq_some_iff.mp hq
        exact p.1.nftFrame_getOrNewAccountStateObject _) hfold
  exact ((s.nftFrame_getOrNewStakerStateObject _).trans hloop).trans (nftFrame_updateValidators _ _)

end StateDB

theorem NftFrame.of_coefficientSteps {s t : StateDB} (h : Relation.ReflTransGen CoefficientStep s t) :
    NftFrame s t := by
  induction h with
  | refl => exact .refl s
  | tail _ hstep ih =>
    cases hstep with
    | sub a k => exact ih.trans (StateDB.nftFrame_subValidatorCoefficient _ a k)
    | add a k => exact ih.trans (StateDB.nftFrame_addValidatorCoefficient _ a k)
    | staker a => exact ih.trans (StateDB.nftFrame_getOrNewStakerStateObject _ a)

end Erbie
