import Erbie.Lib.Fold
import Erbie.Spec.Transition

/-! What finalisation and the Erbie transactions other than a stake and an
unstake leave alone. They move balances, coefficients, NFT owners, mint
counters and the weights of the validator list, and nothing else: the staking
ledger of every account (its staker extension, its validator extension and its
pledged balance) and the addresses and balances of the validator list, in
order, stay as they were. `LedgerFrame s s'` says so, and it is reflexive and
transitive, so that a loop whose steps keep it keeps it. -/

namespace Erbie

/-- The staking ledger of an account. -/
def WormholesExtension.stakes (w : WormholesExtension) :
    List StakerExtension × List ValidatorExtension × Int :=
  (w.stakerExtension, w.validatorExtension, w.pledgedBalance)

/-- The validator list without its proxies and weights. -/
def ValidatorList.entries (vl : List Validator) : List (Address × Int) :=
  vl.map fun v => (v.addr, v.balance)

/-- `s'` keeps the staking ledger of `s` and the addresses and balances of its
validator list. -/
structure LedgerFrame (s s' : StateDB) : Prop where
  stakes : ∀ a, (s'.worm a).stakes = (s.worm a).stakes
  entries : ValidatorList.entries s'.validators = ValidatorList.entries s.validators

namespace LedgerFrame

theorem refl (s : StateDB) : LedgerFrame s s := ⟨fun _ => rfl, rfl⟩

theorem trans {s₁ s₂ s₃ : StateDB} (h₁ : LedgerFrame s₁ s₂) (h₂ : LedgerFrame s₂ s₃) :
    LedgerFrame s₁ s₃ :=
  ⟨fun a => (h₂.stakes a).trans (h₁.stakes a), h₂.entries.trans h₁.entries⟩

theorem of_eq {s s' : StateDB} (hw : ∀ a, s'.worm a = s.worm a)
    (hv : s'.validators = s.validators) : LedgerFrame s s' :=
  ⟨fun a => by rw [hw a], by rw [hv]⟩

theorem foldl {β : Type} (f : StateDB → β → StateDB) (l : List β) (s : StateDB)
    (hf : ∀ t x, x ∈ l → LedgerFrame t (f t x)) : LedgerFrame s (l.foldl f s) :=
  Fold.foldl_rel LedgerFrame refl (fun _ _ _ => trans) f l s hf

theorem foldlM {β : Type} (f : StateDB → β → Option StateDB) (l : List β) {s s' : StateDB}
    (hf : ∀ t x t', x ∈ l → f t x = some t' → LedgerFrame t t')
    (h : l.foldlM f s = some s') : LedgerFrame s s' :=
  Fold.foldlM_rel LedgerFrame refl (fun _ _ _ => trans) f l hf h

end LedgerFrame

namespace StateDB

variable (s : StateDB)

/-! ### The writes that keep the ledger -/

theorem ledgerFrame_getOrNewAccountStateObject (a : Address) :
    LedgerFrame s (s.getOrNewAccountStateObject a) :=
  .of_eq (s.worm_getOrNewAccountStateObject a) (s.validators_getOrNewAccountStateObject a _)

theorem ledgerFrame_getOrNewStakerStateObject (a : Address) :
    LedgerFrame s (s.getOrNewStakerStateObject a) :=
  .of_eq (s.worm_getOrNewStakerStateObject a) (s.validators_getOrNewStakerStateObject a _)

theorem ledgerFrame_setAccount {a : Address} {acc : Account} (hw : acc.worm.getD {} = s.worm a)
    (hst : acc.staker = (s.accounts a).bind Account.staker) : LedgerFrame s (s.setAccount a acc) :=
  .of_eq (s.worm_setAccount_of hw) (s.validators_setAccount_of hst _)

theorem ledgerFrame_setAccount_of_ne {a : Address} {acc : Account}
    (hw : acc.worm.getD {} = s.worm a) (ha : a ≠ ValidatorStorageAddress) :
    LedgerFrame s (s.setAccount a acc) :=
  .of_eq (s.worm_setAccount_of hw) (by rw [validators_setAccount, if_neg (Ne.symm ha)])

theorem ledgerFrame_getOrNewNFTStateObject (a : Address) :
    LedgerFrame s (s.getOrNewNFTStateObject a) :=
  s.ledgerFrame_setAccount (by simp [worm]) (s.nftObject_staker a)

theorem ledgerFrame_updateAccount (a : Address) (f : Account → Account)
    (hw : ∀ acc, ((f acc).worm.getD {}).stakes = (acc.worm.getD {}).stakes)
    (hst : ∀ acc, (f acc).staker = acc.staker) : LedgerFrame s (s.updateAccount a f) := by
  refine ⟨fun b => ?_, by rw [s.validators_updateAccount a _ f hst]⟩
  rw [worm_updateAccount]
  split_ifs with hb
  · subst hb
    rw [hw, accountObject_worm, Option.getD_some]
  · rfl

theorem ledgerFrame_addBalance (a : Address) (x : Int) : LedgerFrame s (s.addBalance a x) :=
  s.ledgerFrame_updateAccount a _ (fun _ => rfl) (fun _ => rfl)

theorem ledgerFrame_subBalance (a : Address) (x : Int) : LedgerFrame s (s.subBalance a x) :=
  s.ledgerFrame_updateAccount a _ (fun _ => rfl) (fun _ => rfl)

theorem ledgerFrame_setNonce (a : Address) (n : Nat) : LedgerFrame s (s.setNonce a n) :=
  s.ledgerFrame_updateAccount a _ (fun _ => rfl) (fun _ => rfl)

/-- `Call` creates its callee when no account holds it. -/
theorem ledgerFrame_createMissing (a : Address) :
    LedgerFrame s (if s.exist a then s else s.getOrNewAccountStateObject a) := by
  split_ifs
  · exact .refl s
  · exact s.ledgerFrame_getOrNewAccountStateObject a

theorem ledgerFrame_addValidatorCoefficient (a : Address) (c : UInt8) :
    LedgerFrame s (s.addValidatorCoefficient a c) :=
  s.ledgerFrame_updateAccount a _ (fun _ => rfl) (fun _ => rfl)

theorem ledgerFrame_subValidatorCoefficient (a : Address) (c : UInt8) :
    LedgerFrame s (s.subValidatorCoefficient a c) :=
  s.ledgerFrame_updateAccount a _ (fun _ => rfl) (fun _ => rfl)

theorem ledgerFrame_setCoefficient (a : Address) (c : UInt8) :
    LedgerFrame s (s.updateAccount a (·.setCoefficient c)) :=
  s.ledgerFrame_updateAccount a _ (fun _ => rfl) (fun _ => rfl)

theorem ledgerFrame_updateValidators (g : List Validator → List Validator)
    (hg : ValidatorList.entries (g s.validators) = ValidatorList.entries s.validators) :
    LedgerFrame s (s.updateValidators g) :=
  ⟨fun a => by rw [worm_updateValidators], by rw [validators_updateValidators, hg]⟩

theorem ledgerFrame_transfer (a b : Address) (x : Int) : LedgerFrame s (transfer s a b x) :=
  (s.ledgerFrame_subBalance a x).trans (ledgerFrame_addBalance _ b x)

/-! ### Finalisation -/

theorem entries_addAddrRange (vl : List Validator) (a : Address) (w : List Int) :
    ValidatorList.entries (ValidatorList.addAddrRange vl a w) = ValidatorList.entries vl := by
  unfold ValidatorList.entries ValidatorList.addAddrRange
  rw [List.map_map]
  refine List.map_congr_left fun v _ => ?_
  dsimp only [Function.comp_apply]
  split_ifs <;> rfl

theorem entries_calculateAddressRangeV2 {vl vl' : List Validator} {a : Address} {x w : Int}
    (h : ValidatorList.calculateAddressRangeV2 vl a x w = some vl') :
    ValidatorList.entries vl' = ValidatorList.entries vl := by
  unfold ValidatorList.calculateAddressRangeV2 at h
  dsimp only at h
  -- the range may first be widened to the whole space, and is then set
  split_ifs at h
  all_goals
    cases h
    simp only [entries_addAddrRange]

theorem ledgerFrame_createNFTByOfficial16 {validators exchangers : List Address}
    {rewardAmount : Int} {s' : StateDB}
    (h : s.createNFTByOfficial16 validators exchangers rewardAmount = some s') :
    LedgerFrame s s' := by
  unfold createNFTByOfficial16 at h
  have hpaid := LedgerFrame.foldl (fun s owner => s.addBalance owner rewardAmount) validators s
    fun t x _ => t.ledgerFrame_addBalance x rewardAmount
  refine (hpaid.trans (ledgerFrame_getOrNewStakerStateObject _ _)).trans
    (LedgerFrame.foldlM _ exchangers (fun t x t' _ ht => ?_) h)
  -- one awarded NFT: a fresh NFT object, its owner, and the counter
  split at ht
  · cases ht
  · rename_i mint _
    cases ht
    have h₁ := t.ledgerFrame_getOrNewNFTStateObject (BitVec.ofNat 160 mint)
    refine (h₁.trans (ledgerFrame_setAccount _ ?_ ?_)).trans (ledgerFrame_setAccount_of_ne _ ?_ ?_)
    · simp [worm]
    · simp
    · simp [stakerObject_worm, worm]
    · decide

theorem ledgerFrame_payStakers (owner : Address) (x y : Int) :
    ∀ (s : StateDB) (l : List ValidatorExtension) {s' : StateDB} {paid : Int},
      payStakers owner x y s l = some (s', paid) → LedgerFrame s s'
  | s, [], s', paid, h => by
    simp only [payStakers, Option.some.injEq, Prod.mk.injEq] at h
    rw [← h.1]
    exact .refl s
  | s, e :: l, s', paid, h => by
    unfold payStakers at h
    split_ifs at h
    · exact ledgerFrame_payStakers owner x y s l h
    · obtain ⟨⟨t, p⟩, ht, heq⟩ := Option.map_eq_some_iff.mp h
      cases heq
      exact (s.ledgerFrame_addBalance _ _).trans (ledgerFrame_payStakers owner x y _ l ht)

theorem ledgerFrame_distributeRewardsToStakers {validators : List Address} {rewardAmount : Int}
    {s' : StateDB} (h : s.distributeRewardsToStakers validators rewardAmount = some s') :
    LedgerFrame s s' := by
  refine LedgerFrame.foldlM _ validators (fun t x t' _ ht => ?_) h
  obtain ⟨⟨u, paid⟩, hu, rfl⟩ := Option.map_eq_some_iff.mp ht
  exact ((t.ledgerFrame_getOrNewAccountStateObject x).trans
    (ledgerFrame_payStakers x _ _ _ _ hu)).trans (ledgerFrame_subBalance _ _ _)

theorem ledgerFrame_recalculateWeights {s' : StateDB} (h : s.recalculateWeights = some s') :
    LedgerFrame s s' := by
  unfold recalculateWeights at h
  obtain ⟨⟨u, vl⟩, hfold, rfl⟩ := Option.map_eq_some_iff.mp h
  set s₀ := s.getOrNewStakerStateObject ValidatorStorageAddress
  -- the loop keeps the ledger of its state and the entries of its list
  have hloop : LedgerFrame s₀ u ∧ ValidatorList.entries vl = ValidatorList.entries s₀.validators := by
    refine Fold.foldlM_rel (fun p q => LedgerFrame p.1 q.1 ∧
        ValidatorList.entries q.2 = ValidatorList.entries p.2)
      (fun p => ⟨.refl _, rfl⟩)
      (fun (a b c : StateDB × List Validator)
          (h₁ : LedgerFrame a.1 b.1 ∧ ValidatorList.entries b.2 = ValidatorList.entries a.2)
          (h₂ : LedgerFrame b.1 c.1 ∧ ValidatorList.entries c.2 = ValidatorList.entries b.2) =>
        ⟨h₁.1.trans h₂.1, h₂.2.trans h₁.2⟩) _ _
      (fun p acc q _ hq => ?_) hfold
    obtain ⟨vl', hvl', rfl⟩ := Option.map_eq_some_iff.mp hq
    exact ⟨p.1.ledgerFrame_getOrNewAccountStateObject _, entries_calculateAddressRangeV2 hvl'⟩
  have hs₀ := s.ledgerFrame_getOrNewStakerStateObject ValidatorStorageAddress
  refine hs₀.trans (hloop.1.trans (u.ledgerFrame_updateValidators _ ?_))
  rw [hloop.2, hloop.1.entries]

end StateDB

namespace ChainView

variable (view : ChainView) (s : StateDB)

theorem ledgerFrame_finalizeTail {validatorAddr exchangerAddr : List Address} {s' : StateDB}
    (h : view.finalizeTail s validatorAddr exchangerAddr = some s') : LedgerFrame s s' := by
  unfold finalizeTail at h
  obtain ⟨s₁, h₁, h⟩ := Option.bind_eq_some_iff.mp h
  obtain ⟨s₂, h₂, h₃⟩ := Option.bind_eq_some_iff.mp h
  exact ((s.ledgerFrame_createNFTByOfficial16 h₁).trans
    (s₁.ledgerFrame_distributeRewardsToStakers h₂)).trans (s₂.ledgerFrame_recalculateWeights h₃)

end ChainView

/-! ### What finalisation does before its tail

Before the mint, finalisation writes coefficients only: the sampled committee
of an empty block loses some and its voters gain some, the rewarded validators
of a normal block gain some and its evil validators lose all. -/

/-- One write of finalisation before its tail. -/
inductive CoefficientStep : StateDB → StateDB → Prop
  | sub (s : StateDB) (a : Address) (k : UInt8) : CoefficientStep s (s.subValidatorCoefficient a k)
  | add (s : StateDB) (a : Address) (k : UInt8) : CoefficientStep s (s.addValidatorCoefficient a k)
  | staker (s : StateDB) (a : Address) : CoefficientStep s (s.getOrNewStakerStateObject a)

theorem coefficientSteps_foldl_sub (k : UInt8) :
    ∀ (l : List Address) (s : StateDB),
      Relation.ReflTransGen CoefficientStep s (l.foldl (fun s v => s.subValidatorCoefficient v k) s)
  | [], _ => .refl
  | v :: l, s => .head (.sub s v k) (coefficientSteps_foldl_sub k l _)

theorem coefficientSteps_foldl_add (k : UInt8) :
    ∀ (l : List Address) (s : StateDB),
      Relation.ReflTransGen CoefficientStep s (l.foldl (fun s v => s.addValidatorCoefficient v k) s)
  | [], _ => .refl
  | v :: l, s => .head (.add s v k) (coefficientSteps_foldl_add k l _)

theorem coefficientSteps_punishEvilValidators (view : ChainView) (s : StateDB) (extra : IstanbulExtra)
    (h : Header) : Relation.ReflTransGen CoefficientStep s (view.punishEvilValidators s extra h) := by
  unfold ChainView.punishEvilValidators
  dsimp only
  split
  · exact .refl
  · split_ifs
    · exact .refl
    · exact .head (.staker s _) (coefficientSteps_foldl_sub 70 _ _)

theorem LedgerFrame.of_coefficientSteps {s t : StateDB}
    (h : Relation.ReflTransGen CoefficientStep s t) : LedgerFrame s t := by
  induction h with
  | refl => exact .refl s
  | tail _ hstep ih =>
    cases hstep with
    | sub a k => exact ih.trans (StateDB.ledgerFrame_subValidatorCoefficient _ a k)
    | add a k => exact ih.trans (StateDB.ledgerFrame_addValidatorCoefficient _ a k)
    | staker a => exact ih.trans (StateDB.ledgerFrame_getOrNewStakerStateObject _ a)

namespace Crypto

variable (c : Crypto) (view : ChainView)

/-- What a finalisation that does not panic leaves: coefficient writes, then
either the tail on the list `finalizeValidatorAddr` names, or nothing more
when that list is empty. -/
theorem finalize_cases (codec : EmptyCodec) (h : Header) {s s' : StateDB}
    (hs : c.finalize view codec h s = .done s' ∨ c.finalize view codec h s = .stopped s') :
    ∃ t, Relation.ReflTransGen CoefficientStep s t ∧
      ((∃ exchangerAddr, view.finalizeTail t (c.finalizeValidatorAddr view h) exchangerAddr = some s') ∨
        (s' = t ∧ c.finalizeValidatorAddr view h = [])) := by
  unfold finalize at hs
  dsimp only at hs
  split at hs
  · rename_i random11 istanbulExtra pValidators _ h₁ h₂ h₃ h₄
    split_ifs at hs with hcoin
    · -- an empty block: the committee loses coefficient, the voters gain it, then the tail
      have hva : c.finalizeValidatorAddr view h = istanbulExtra.validatorAddr := by
        simp only [finalizeValidatorAddr, h₁, h₂, h₃, h₄, if_pos hcoin]
      split at hs
      · simp at hs
      · rename_i votes _
        refine ⟨_, (coefficientSteps_foldl_sub 20 random11 s).trans (coefficientSteps_foldl_add 70 votes _),
          .inl ⟨istanbulExtra.exchangerAddr, ?_⟩⟩
        rw [hva]
        -- the tail is the only way to `.done`, and never stops
        split at hs
        · rcases hs with hs | hs <;> cases hs
        · rcases hs with hs | hs <;> cases hs
          assumption
    · -- a normal block: the rewarded validators gain coefficient, then maybe the tail
      have hadd := coefficientSteps_foldl_add 20 istanbulExtra.validatorAddr s
      split at hs
      · simp at hs
      · rename_i hr
        have hva : c.finalizeValidatorAddr view h = [] := by
          simp only [finalizeValidatorAddr, h₁, h₂, h₃, h₄, if_neg hcoin, hr]
        rcases hs with hs | hs
        · cases hs
        · cases hs
          exact ⟨_, hadd, .inr ⟨rfl, hva⟩⟩
      · rename_i validatorAddr hr
        have hva : c.finalizeValidatorAddr view h = validatorAddr := by
          simp only [finalizeValidatorAddr, h₁, h₂, h₃, h₄, if_neg hcoin, hr]
        refine ⟨_, hadd.trans (coefficientSteps_punishEvilValidators view _ istanbulExtra h),
          .inl ⟨istanbulExtra.exchangerAddr, ?_⟩⟩
        rw [hva]
        -- the tail is the only way to `.done`, and never stops
        split at hs
        · rcases hs with hs | hs <;> cases hs
        · rcases hs with hs | hs <;> cases hs
          assumption
  · rename_i hnot
    rcases hs with hs | hs
    · cases hs
    · cases hs
      refine ⟨s, .refl, .inr ⟨rfl, ?_⟩⟩
      unfold finalizeValidatorAddr
      split
      · rename_i h₁ h₂ h₃ h₄
        exact absurd h₄ (hnot _ _ _ _ h₁ h₂ h₃)
      · rfl

theorem ledgerFrame_finalize (codec : EmptyCodec) (h : Header) {s s' : StateDB}
    (hs : c.finalize view codec h s = .done s' ∨ c.finalize view codec h s = .stopped s') :
    LedgerFrame s s' := by
  obtain ⟨t, ht, hfin⟩ := c.finalize_cases view codec h hs
  have h₀ := LedgerFrame.of_coefficientSteps ht
  rcases hfin with ⟨_, htail⟩ | ⟨rfl, -⟩
  · exact h₀.trans (view.ledgerFrame_finalizeTail t htail)
  · exact h₀

end Crypto

namespace EVM

variable (evm : EVM) (s : StateDB)

theorem ledgerFrame_verifyCSBTOwner (nftAddr : String) (owner : Address) :
    LedgerFrame s (verifyCSBTOwner s nftAddr owner).1 := by
  unfold verifyCSBTOwner
  split
  · exact .refl s
  · exact s.ledgerFrame_getOrNewNFTStateObject _

theorem ledgerFrame_transferCSBT {nftAddr : String} {newOwner : Address} {s' : StateDB}
    (h : transferCSBT s nftAddr newOwner = .ok s') : LedgerFrame s s' := by
  unfold transferCSBT at h
  split at h
  · cases h
  · cases h
    refine (s.ledgerFrame_getOrNewNFTStateObject _).trans (StateDB.ledgerFrame_setAccount _ ?_ ?_)
    · simp [StateDB.worm]
    · simp

theorem ledgerFrame_recoverValidatorCoefficient (a : Address) :
    LedgerFrame s (s.recoverValidatorCoefficient a).1 := by
  unfold StateDB.recoverValidatorCoefficient
  have h₀ := s.ledgerFrame_getOrNewAccountStateObject a
  dsimp only
  split_ifs
  all_goals first
    | exact h₀
    | exact (((h₀.trans (StateDB.ledgerFrame_subBalance _ _ _)).trans
        (StateDB.ledgerFrame_addBalance _ _ _)).trans (StateDB.ledgerFrame_addValidatorCoefficient _ _ _))

/-- What an Erbie transaction of type 1, 2 or 5 leaves, on each of its exits:
the state it was given (a bad format or type), the state after the owner check
or the creator check, the state after the CSBT transfer, the state after a
payment to the owner, or the state after a coefficient buy-back. -/
theorem handleCSBT_cases_of_ne (caller addr : Address) (wh : Wormholes) (value : Nat)
    (htype : wh.type ≠ 3 ∧ wh.type ≠ 4) :
    (evm.handleCSBT s caller addr wh value).1 = s ∨
    (evm.handleCSBT s caller addr wh value).1 = (verifyCSBTOwner s wh.csbtAddress caller).1 ∨
    (evm.handleCSBT s caller addr wh value).1 =
      (verifyCSBTOwner s wh.csbtAddress caller).1.getOrNewStakerStateObject StakerStorageAddress ∨
    transferCSBT ((verifyCSBTOwner s wh.csbtAddress caller).1.getOrNewStakerStateObject
      StakerStorageAddress) wh.csbtAddress addr = .ok (evm.handleCSBT s caller addr wh value).1 ∨
    (evm.handleCSBT s caller addr wh value).1 = (verifyCSBTOwner s wh.csbtAddress addr).1 ∨
    (evm.handleCSBT s caller addr wh value).1 =
      transfer (verifyCSBTOwner s wh.csbtAddress addr).1 caller addr value ∨
    (evm.handleCSBT s caller addr wh value).1 = (s.recoverValidatorCoefficient caller).1 := by
  unfold handleCSBT
  split
  · exact .inl rfl
  · split
    · -- type 1: the owner passes the CSBT on
      rcases hv : verifyCSBTOwner s wh.csbtAddress caller with ⟨t, isOwner⟩
      simp only [isExistStakerStorageAddress]
      by_cases hown : isOwner = true
      · by_cases hcreator : (t.stakers.any fun x => decide (x.addr = caller)) = true
        · simp only [hown, hcreator, ↓reduceIte]
          split
          · exact .inr (.inr (.inl rfl))
          · exact .inr (.inr (.inr (.inl ‹_›)))
        · simp only [hown, hcreator, ↓reduceIte]
          exact .inr (.inr (.inl rfl))
      · simp only [hown]
        exact .inr (.inl rfl)
    · -- type 2: a payment to the owner
      rcases hv : verifyCSBTOwner s wh.csbtAddress addr with ⟨t, isOwner⟩
      dsimp only
      split_ifs
      · exact .inr (.inr (.inr (.inr (.inr (.inl rfl)))))
      · exact .inr (.inr (.inr (.inr (.inl rfl))))
    · exact absurd ‹wh.type = 3› htype.1
    · exact absurd ‹wh.type = 4› htype.2
    · exact .inr (.inr (.inr (.inr (.inr (.inr rfl)))))
    · exact .inl rfl

theorem ledgerFrame_handleCSBT (caller addr : Address) (wh : Wormholes) (value : Nat)
    (htype : wh.type ≠ 3 ∧ wh.type ≠ 4) :
    LedgerFrame s (evm.handleCSBT s caller addr wh value).1 := by
  have h₁ := ledgerFrame_verifyCSBTOwner s wh.csbtAddress caller
  have h₂ := h₁.trans (StateDB.ledgerFrame_getOrNewStakerStateObject _ StakerStorageAddress)
  have h₃ := ledgerFrame_verifyCSBTOwner s wh.csbtAddress addr
  rcases evm.handleCSBT_cases_of_ne s caller addr wh value htype with h | h | h | h | h | h | h
  · rw [h]; exact .refl s
  · rw [h]; exact h₁
  · rw [h]; exact h₂
  · exact h₂.trans (ledgerFrame_transferCSBT _ h)
  · rw [h]; exact h₃
  · rw [h]; exact h₃.trans (StateDB.ledgerFrame_transfer _ _ _ _)
  · rw [h]; exact ledgerFrame_recoverValidatorCoefficient s caller

/-! ### What `Call` leaves

Before `HandleCSBT` or the plain transfer, `Call` only creates objects: the
caller's, when the value check of an unstake reads its stake, and the
callee's, when it is missing. A failing precompile or interpreter run goes
back to the snapshot taken between the two. So a relation that every object
creation keeps holds between the state `Call` is given and every state it can
leave but the one after `HandleCSBT` or the transfer, and after a run. -/

/-- The contract code the interpreter runs writes nothing: it returns data,
uses gas and may fail. -/
def Inert : Prop :=
  ∀ t caller addr code input gas value, (evm.run t caller addr code input gas value).1 = t

section CallCases

variable (R : StateDB → StateDB → Prop) (caller addr : Address)

theorem checkValue_rel (hrefl : ∀ t, R t t) (hobj : ∀ t a, R t (t.getOrNewAccountStateObject a))
    (value : Nat) (nft : Option Wormholes) : R s (checkValue s caller addr value nft).1 := by
  unfold checkValue StateDB.readStakerPledgedBalance
  split
  · dsimp only
    split_ifs
    · exact hobj s caller
    · exact hobj s caller
    · exact hrefl s
    · exact hrefl s
  · split_ifs
    · exact hrefl s
    · exact hrefl s

/-- A payment the caller can make passes the value check and writes nothing. -/
theorem checkValue_of_canTransfer {value : Nat} {wh : Wormholes} (h4 : wh.type ≠ 4)
    (hpay : canTransfer s caller value = true) : checkValue s caller addr value (some wh) = (s, none) := by
  have hv : ¬(value ≠ 0 ∧ (!canTransfer s caller value) = true) := by
    rintro ⟨-, h⟩
    rw [hpay] at h
    cases h
  unfold checkValue
  dsimp only
  rw [if_neg h4, if_neg hv]

theorem getWormholes_of_parse {input : List UInt8} {nft : Option Wormholes}
    (h : (if TransactionType.length < input.length ∧ input.take TransactionType.length = TransactionType then
      match evm.unmarshal (input.drop TransactionType.length) with
      | some wh => Except.ok (some wh)
      | none => Except.error ErrWormholesFormat
      else Except.ok none) = Except.ok nft) :
    getWormholes evm.unmarshal input = nft := by
  unfold getWormholes
  split_ifs at h ⊢
  · split at h
    · cases h
      assumption
    · cases h
  · cases h
    rfl

/-- A call with an Erbie payload that passes the value check, to an account
that is no precompile, whose `HandleCSBT` succeeds and leaves no code at the
callee, returns `HandleCSBT`'s state with no error. -/
theorem call_eq_handleCSBT (input : List UInt8) (gas value : Nat) (wh : Wormholes) (t : StateDB)
    (hrec : ¬(evm.noRecursion = true ∧ 0 < evm.depth)) (hdepth : ¬CallCreateDepth < evm.depth)
    (hwh : getWormholes evm.unmarshal input = some wh) (hcheck : checkValue s caller addr value (some wh) = (t, none))
    (hok : (evm.handleCSBT (if t.exist addr then t else t.getOrNewAccountStateObject addr) caller addr wh value).2 =
      none)
    (hpre : evm.precompile addr = false)
    (hcode : (evm.handleCSBT (if t.exist addr then t else t.getOrNewAccountStateObject addr) caller addr wh
      value).1.getCode addr = []) :
    evm.call s caller addr input gas value =
      ((evm.handleCSBT (if t.exist addr then t else t.getOrNewAccountStateObject addr) caller addr wh value).1,
        [], gas, none) := by
  unfold call
  rw [if_neg hrec, if_neg hdepth]
  dsimp only
  unfold getWormholes at hwh
  split_ifs at hwh with hp
  rw [if_pos hp, hwh]
  dsimp only
  rw [hcheck]
  dsimp only
  rcases hh : evm.handleCSBT (if t.exist addr then t else t.getOrNewAccountStateObject addr) caller addr wh value
    with ⟨u, e⟩
  rw [hh] at hok hcode
  subst hok
  dsimp only
  rw [hpre, if_neg Bool.false_ne_true, if_pos hcode]

/-- What `Call` leaves: a state `R`-related to the one it was given, that
state after `HandleCSBT` of the decoded payload or after the plain transfer,
or one run of the interpreter on the latter. -/
theorem call_cases_of (hrefl : ∀ t, R t t) (htrans : ∀ {t₁ t₂ t₃}, R t₁ t₂ → R t₂ t₃ → R t₁ t₃)
    (hobj : ∀ t a, R t (t.getOrNewAccountStateObject a)) (input : List UInt8) (gas value : Nat) :
    ∃ t, R s t ∧ ((evm.call s caller addr input gas value).1 = t ∨
      ∃ u, (u = transfer t caller addr value ∨
          ∃ wh, getWormholes evm.unmarshal input = some wh ∧ u = (evm.handleCSBT t caller addr wh value).1) ∧
        ((evm.call s caller addr input gas value).1 = u ∨
          (evm.call s caller addr input gas value).1 = (evm.run u caller addr (u.getCode addr) input gas value).1)) := by
  unfold call
  by_cases h1 : evm.noRecursion = true ∧ 0 < evm.depth
  · rw [if_pos h1]
    exact ⟨s, hrefl s, .inl rfl⟩
  rw [if_neg h1]
  by_cases h2 : CallCreateDepth < evm.depth
  · rw [if_pos h2]
    exact ⟨s, hrefl s, .inl rfl⟩
  rw [if_neg h2]
  dsimp only
  split
  · exact ⟨s, hrefl s, .inl rfl⟩
  rename_i nft hparse
  have hnft := evm.getWormholes_of_parse hparse
  have hcv := checkValue_rel s R caller addr hrefl hobj value nft
  split
  · rename_i t err hcv'
    rw [hcv'] at hcv
    exact ⟨t, hcv, .inl rfl⟩
  rename_i t hcv'
  rw [hcv'] at hcv
  -- the callee is created if it is missing, then the transaction or the transfer runs
  have ht₁ : R s (if t.exist addr = true then t else t.getOrNewAccountStateObject addr) := by
    split_ifs
    · exact hcv
    · exact htrans hcv (hobj t addr)
  set t₁ := if t.exist addr = true then t else t.getOrNewAccountStateObject addr
  split
  · -- a failing Erbie transaction returns at once, with its writes
    rename_i u err heq
    cases nft with
    | none => cases heq
    | some wh =>
      dsimp only at heq
      split at heq
      · rename_i hh
        cases heq
        exact ⟨t₁, ht₁, .inr ⟨_, .inr ⟨wh, hnft, rfl⟩, .inl (by rw [hh])⟩⟩
      · cases heq
  rename_i u heq
  have hu : u = transfer t₁ caller addr value ∨
      ∃ wh, getWormholes evm.unmarshal input = some wh ∧ u = (evm.handleCSBT t₁ caller addr wh value).1 := by
    cases nft with
    | none =>
      cases heq
      exact .inl rfl
    | some wh =>
      dsimp only at heq
      split at heq
      · cases heq
      · rename_i hh
        cases heq
        exact .inr ⟨wh, hnft, by rw [hh]⟩
  split
  · -- a failing execution goes back to the snapshot taken after the value check
    exact ⟨t, hcv, .inl rfl⟩
  · -- a precompiled contract and a missing code leave the state, the interpreter runs the code
    refine ⟨t₁, ht₁, .inr ⟨u, hu, ?_⟩⟩
    split_ifs
    · exact .inl rfl
    · exact .inl rfl
    · exact .inr rfl

/-- With an interpreter that writes nothing, `Call` leaves a state
`R`-related to the one it was given, or that state after the plain transfer or
after `HandleCSBT` of the decoded payload. -/
theorem call_cases_of_inert (hinert : evm.Inert) (hrefl : ∀ t, R t t)
    (htrans : ∀ {t₁ t₂ t₃}, R t₁ t₂ → R t₂ t₃ → R t₁ t₃) (hobj : ∀ t a, R t (t.getOrNewAccountStateObject a))
    (input : List UInt8) (gas value : Nat) :
    ∃ t, R s t ∧ ((evm.call s caller addr input gas value).1 = t ∨
      (evm.call s caller addr input gas value).1 = transfer t caller addr value ∨
      ∃ wh, getWormholes evm.unmarshal input = some wh ∧
        (evm.call s caller addr input gas value).1 = (evm.handleCSBT t caller addr wh value).1) := by
  obtain ⟨t, ht, hcall⟩ := evm.call_cases_of s R caller addr hrefl htrans hobj input gas value
  refine ⟨t, ht, ?_⟩
  rcases hcall with hcall | ⟨u, hu, hcall⟩
  · exact .inl hcall
  -- the run of the interpreter leaves the state it was given
  have hu' : (evm.call s caller addr input gas value).1 = u := by
    rcases hcall with hcall | hcall
    · exact hcall
    · rw [hcall, hinert]
  rcases hu with rfl | ⟨wh, hwh, rfl⟩
  · exact .inr (.inl hu')
  · exact .inr (.inr ⟨wh, hwh, hu'⟩)

/-- With an interpreter that writes nothing, a relation that the object
creations, `HandleCSBT` and the transfer keep holds across a whole `Call`. -/
theorem call_rel (hinert : evm.Inert) (hrefl : ∀ t, R t t)
    (htrans : ∀ {t₁ t₂ t₃}, R t₁ t₂ → R t₂ t₃ → R t₁ t₃) (hobj : ∀ t a, R t (t.getOrNewAccountStateObject a))
    (hhandle : ∀ t wh value, R t (evm.handleCSBT t caller addr wh value).1)
    (htransfer : ∀ t value, R t (transfer t caller addr value)) (input : List UInt8) (gas value : Nat) :
    R s (evm.call s caller addr input gas value).1 := by
  obtain ⟨t, ht, hcall | hcall | ⟨wh, -, hcall⟩⟩ :=
    evm.call_cases_of_inert s R caller addr hinert hrefl htrans hobj input gas value <;> rw [hcall]
  · exact ht
  · exact htrans ht (htransfer t value)
  · exact htrans ht (hhandle t wh value)

/-- A property that the writes keeping the ledger keep, and `HandleCSBT` keeps,
a whole `Call` keeps. -/
theorem call_keeps {P : StateDB → Prop} (hinert : evm.Inert) (hframe : ∀ {t u}, LedgerFrame t u → P t → P u)
    (hhandle : ∀ t wh value, P t → P (evm.handleCSBT t caller addr wh value).1) (input : List UInt8)
    (gas value : Nat) (h : P s) : P (evm.call s caller addr input gas value).1 :=
  evm.call_rel s (fun t u => P t → P u) caller addr hinert (fun _ => id) (fun h₁ h₂ h => h₂ (h₁ h))
    (fun t a => hframe (t.ledgerFrame_getOrNewAccountStateObject a)) hhandle
    (fun t value => hframe (t.ledgerFrame_transfer caller addr value)) input gas value h

end CallCases

end EVM
end Erbie
