import Erbie.Proofs.NftFrame
import Erbie.Proofs.Ledger

/-! Who may change the owner of an NFT. Two writes set an owner: the official
mint of `CreateNFTByOfficial16`, which hands out the address the counter at
`MintDeepStorageAddress` names and moves the counter on, and a type-1 Erbie
transaction, which checks that the caller owns the address its string names
and then writes that address. Every other transition keeps the owners
(`Erbie.Proofs.NftFrame`).

The mint takes the counter to an address by `BytesToAddress`, which keeps the
low 160 bits: past `2 ^ 160` the counter names the addresses it named before.
So the invariant that every address at or past the counter is unowned, and
with it the fact that a mint never takes an owned address, holds while the
counter stays within the address space. -/

namespace Erbie

/-- `s'` differs from `s` by official mints: the creators stay, a counter only
grows, and, while it stays within the address space, an owner changes only at
an address from the old counter up to the new one. Without a counter nothing
can be minted. -/
structure OfficialMints (s s' : StateDB) : Prop where
  creators : s'.stakers = s.stakers
  counter : ∀ c, s.officialMint = some c → ∃ c', s'.officialMint = some c' ∧ c ≤ c' ∧
    (c' ≤ 2 ^ 160 → ∀ b : Address, s'.getNFTOwner16 b ≠ s.getNFTOwner16 b → c ≤ b.toNat ∧ b.toNat < c')
  frozen : s.officialMint = none → NftFrame s s'

namespace OfficialMints

theorem of_nftFrame {s s' : StateDB} (h : NftFrame s s') : OfficialMints s s' where
  creators := h.creators
  counter c hc := ⟨c, h.mint.trans hc, le_rfl, fun _ b hb => absurd (h.owners b) hb⟩
  frozen _ := h

theorem refl (s : StateDB) : OfficialMints s s := of_nftFrame (.refl s)

theorem trans {s₁ s₂ s₃ : StateDB} (h₁ : OfficialMints s₁ s₂) (h₂ : OfficialMints s₂ s₃) :
    OfficialMints s₁ s₃ where
  creators := h₂.creators.trans h₁.creators
  counter c hc := by
    obtain ⟨c₂, hc₂, hle₂, hown₂⟩ := h₁.counter c hc
    obtain ⟨c₃, hc₃, hle₃, hown₃⟩ := h₂.counter c₂ hc₂
    refine ⟨c₃, hc₃, hle₂.trans hle₃, fun hbound b hb => ?_⟩
    -- the owner changed in the first stretch or in the second
    by_cases h₁₂ : s₂.getNFTOwner16 b = s₁.getNFTOwner16 b
    · have := hown₃ hbound b (by rwa [h₁₂])
      omega
    · have := hown₂ (hle₃.trans hbound) b h₁₂
      omega
  frozen hnone := (h₁.frozen hnone).trans (h₂.frozen ((h₁.frozen hnone).mint.trans hnone))

theorem counter_le {s s' : StateDB} (h : OfficialMints s s') {c : Nat} (hc : s.officialMint = some c) :
    ∃ c', s'.officialMint = some c' ∧ c ≤ c' :=
  let ⟨c', hc', hle, _⟩ := h.counter c hc
  ⟨c', hc', hle⟩

end OfficialMints

namespace Account

@[simp] theorem addOfficialMint_csbt (acc : Account) (n : Nat) : (acc.addOfficialMint n).csbt = acc.csbt := by
  unfold addOfficialMint
  split_ifs <;> rfl

theorem changeNFTOwner_owner (acc : Account) (o : Address) : ((acc.changeNFTOwner o).csbt.getD {}).owner = o := by
  unfold changeNFTOwner
  dsimp only
  split_ifs with h
  · exact h
  · rfl

end Account

namespace StateDB

variable (s : StateDB)

/-- One round of the loop of `CreateNFTByOfficial16`: the awardee gets the NFT
at the counter, and the counter moves on by one. -/
def awardOfficialNFT (s : StateDB) (awardee : Address) : Option StateDB :=
  match s.officialMint with
  | none => none
  | some mint =>
    let nftAddr : Address := BitVec.ofNat 160 mint
    let s := s.getOrNewNFTStateObject nftAddr
    let s := s.setAccount nftAddr ((s.nftObject nftAddr).setNFTInfo awardee awardee)
    some (s.setAccount MintDeepStorageAddress ((s.stakerObject MintDeepStorageAddress).addOfficialMint 1))

theorem createNFTByOfficial16_eq (validators exchangers : List Address) (rewardAmount : Int) :
    s.createNFTByOfficial16 validators exchangers rewardAmount =
      exchangers.foldlM awardOfficialNFT
        ((validators.foldl (fun s owner => s.addBalance owner rewardAmount) s).getOrNewStakerStateObject
          MintDeepStorageAddress) := rfl

theorem officialMint_addOfficialMint :
    (s.setAccount MintDeepStorageAddress ((s.stakerObject MintDeepStorageAddress).addOfficialMint 1)).officialMint =
      some (s.officialMint.getD 0 + 1) := by
  obtain ⟨st, hst⟩ := Option.isSome_iff_exists.mp (s.stakerObject_staker_isSome MintDeepStorageAddress)
  have hnew : ((s.setAccount MintDeepStorageAddress ((s.stakerObject MintDeepStorageAddress).addOfficialMint 1)).stakerObject
      MintDeepStorageAddress).staker =
      some { st with mint := { st.mint with officialMint := some (st.mint.officialMint.getD 0 + 1) } } :=
    stakerObject_staker_of_eq_some _ (by simp [accounts_setAccount, Account.addOfficialMint, Account.updateStaker, hst])
  unfold officialMint
  rw [hnew, hst]
  rfl

theorem nftOwners_addOfficialMint (b : Address) :
    (s.setAccount MintDeepStorageAddress ((s.stakerObject MintDeepStorageAddress).addOfficialMint 1)).getNFTOwner16 b =
      s.getNFTOwner16 b := by
  rw [getNFTOwner16_setAccount]
  split_ifs with hb
  · rw [hb, Account.addOfficialMint_csbt, stakerObject_csbt, ← getNFTOwner16_eq]
  · rfl

theorem stakers_addOfficialMint :
    (s.setAccount MintDeepStorageAddress ((s.stakerObject MintDeepStorageAddress).addOfficialMint 1)).stakers =
      s.stakers := by
  have hne : StakerStorageAddress ≠ MintDeepStorageAddress := by decide
  unfold stakers
  rw [stakerObject_staker_congr s (by rw [accounts_setAccount, if_neg hne])]

theorem awardOfficialNFT_none {x : Address} (h : s.officialMint = none) : s.awardOfficialNFT x = none := by
  unfold awardOfficialNFT
  rw [h]

theorem awardOfficialNFT_some {m : Nat} (h : s.officialMint = some m) (x : Address) :
    ∃ t, s.awardOfficialNFT x = some t ∧ t.officialMint = some (m + 1) ∧ t.stakers = s.stakers ∧
      ∀ b, t.getNFTOwner16 b = if b = BitVec.ofNat 160 m then x else s.getNFTOwner16 b := by
  set a : Address := BitVec.ofNat 160 m
  set t₁ := s.getOrNewNFTStateObject a
  have h₁ := s.nftFrame_getOrNewNFTStateObject a
  set t₂ := t₁.setAccount a ((t₁.nftObject a).setNFTInfo x x)
  -- the owner write keeps the staker extension of its object
  have hst₂ : a = ValidatorStorageAddress ∨ ((t₁.nftObject a).setNFTInfo x x).staker =
      (t₁.accounts a).bind Account.staker := .inr (nftObject_staker t₁ a)
  have hmint₂ : t₂.officialMint = some m := (t₁.officialMint_setAccount hst₂).trans (h₁.mint.trans h)
  refine ⟨t₂.setAccount MintDeepStorageAddress ((t₂.stakerObject MintDeepStorageAddress).addOfficialMint 1),
    ?_, ?_, ?_, fun b => ?_⟩
  · unfold awardOfficialNFT
    rw [h]
  · rw [officialMint_addOfficialMint, hmint₂, Option.getD_some]
  · rw [stakers_addOfficialMint, t₁.stakers_setAccount hst₂, h₁.creators]
  · rw [nftOwners_addOfficialMint, getNFTOwner16_setAccount]
    split_ifs
    · rfl
    · exact h₁.owners b

/-- The loop of awards from a counter `m`: the counter moves on by the number
of awardees, and an address that none of the counters it passes names keeps
its owner. -/
theorem awardOfficialNFT_foldlM :
    ∀ (l : List Address) (t : StateDB) (m : Nat), t.officialMint = some m →
      ∃ t', l.foldlM awardOfficialNFT t = some t' ∧ t'.officialMint = some (m + l.length) ∧
        ∀ b, (∀ i < l.length, BitVec.ofNat 160 (m + i) ≠ b) → t'.getNFTOwner16 b = t.getNFTOwner16 b
  | [], t, m, h => ⟨t, rfl, h, fun _ _ => rfl⟩
  | x :: l, t, m, h => by
    obtain ⟨t₁, h₁, hm₁, -, hown₁⟩ := t.awardOfficialNFT_some h x
    obtain ⟨t', h', hm', hown'⟩ := awardOfficialNFT_foldlM l t₁ (m + 1) hm₁
    refine ⟨t', by rw [List.foldlM_cons, h₁]; exact h', by rw [hm', List.length_cons, Nat.add_assoc,
      Nat.add_comm 1], fun b hb => ?_⟩
    -- the first award names `m`, the rest name `m + 1` onwards
    have hrest : ∀ i < l.length, BitVec.ofNat 160 (m + 1 + i) ≠ b := fun i hi => by
      rw [Nat.add_assoc, Nat.add_comm 1]
      exact hb (i + 1) (by simp [hi])
    have hfirst : b ≠ BitVec.ofNat 160 m := fun hbm => hb 0 (by simp) (by rw [Nat.add_zero, hbm])
    rw [hown' b hrest, hown₁, if_neg hfirst]

theorem officialMints_awardOfficialNFT {x : Address} {t : StateDB} (h : s.awardOfficialNFT x = some t) :
    OfficialMints s t := by
  cases hm : s.officialMint with
  | none => rw [s.awardOfficialNFT_none hm] at h; cases h
  | some m =>
    obtain ⟨t', ht', hmint, hcre, hown⟩ := s.awardOfficialNFT_some hm x
    rw [ht'] at h
    cases h
    refine ⟨hcre, fun c hc => ?_, fun hnone => absurd (hm.symm.trans hnone) (by simp)⟩
    obtain rfl : m = c := Option.some.inj (hm.symm.trans hc)
    refine ⟨m + 1, hmint, Nat.le_succ m, fun hbound b hb => ?_⟩
    -- only the counter's address changed owner, and it is the counter itself
    have hb' : b = BitVec.ofNat 160 m := by
      by_contra hne
      exact hb (by rw [hown, if_neg hne])
    rw [hb', BitVec.toNat_ofNat, Nat.mod_eq_of_lt (by omega)]
    omega

theorem officialMints_createNFTByOfficial16 {validators exchangers : List Address} {rewardAmount : Int}
    {s' : StateDB} (h : s.createNFTByOfficial16 validators exchangers rewardAmount = some s') :
    OfficialMints s s' := by
  rw [createNFTByOfficial16_eq] at h
  have hpaid := NftFrame.foldl (fun s owner => s.addBalance owner rewardAmount) validators s
    fun t x _ => t.nftFrame_addBalance x rewardAmount
  exact (OfficialMints.of_nftFrame (hpaid.trans (nftFrame_getOrNewStakerStateObject _ _))).trans
    (Fold.foldlM_rel OfficialMints OfficialMints.refl (fun _ _ _ => OfficialMints.trans) _ exchangers
      (fun t _ _ _ ht => t.officialMints_awardOfficialNFT ht) h)

end StateDB

theorem ChainView.officialMints_finalizeTail (view : ChainView) (s : StateDB)
    {validatorAddr exchangerAddr : List Address} {s' : StateDB}
    (h : view.finalizeTail s validatorAddr exchangerAddr = some s') : OfficialMints s s' := by
  unfold ChainView.finalizeTail at h
  obtain ⟨s₁, h₁, h⟩ := Option.bind_eq_some_iff.mp h
  obtain ⟨s₂, h₂, h₃⟩ := Option.bind_eq_some_iff.mp h
  exact (s.officialMints_createNFTByOfficial16 h₁).trans (.of_nftFrame
    ((s₁.nftFrame_distributeRewardsToStakers h₂).trans (s₂.nftFrame_recalculateWeights h₃)))

theorem Crypto.officialMints_finalize (c : Crypto) (view : ChainView) (codec : EmptyCodec) (h : Header)
    {s s' : StateDB} (hs : c.finalize view codec h s = .done s' ∨ c.finalize view codec h s = .stopped s') :
    OfficialMints s s' := by
  obtain ⟨t, ht, hfin⟩ := c.finalize_cases view codec h hs
  have h₀ := NftFrame.of_coefficientSteps ht
  rcases hfin with ⟨_, htail⟩ | ⟨rfl, -⟩
  · exact (OfficialMints.of_nftFrame h₀).trans (view.officialMints_finalizeTail t htail)
  · exact .of_nftFrame h₀

/-! ### The CSBT transactions -/

/-- `caller`, a CSBT creator and the owner of `A`, hands `A` to `addr`; the
counter and the creators stay. -/
structure OwnerTransfer (s s' : StateDB) (caller addr A : Address) : Prop where
  owner : s.getNFTOwner16 A = caller
  creator : (s.stakers.any (·.addr = caller)) = true
  owners : ∀ b, s'.getNFTOwner16 b = if b = A then addr else s.getNFTOwner16 b
  mint : s'.officialMint = s.officialMint
  creators : s'.stakers = s.stakers

/-- `VerifyCSBTOwner` compares the owner of the address that
`GetNftAddressAndLevel` makes of the string. -/
theorem verifyCSBTOwner_of_ok (s : StateDB) {str : String} {A : Address} {level : Nat}
    (h : getNftAddressAndLevel str = .ok (A, level)) (owner : Address) :
    verifyCSBTOwner s str owner = (s.getOrNewNFTStateObject A, decide (s.getNFTOwner16 A = owner)) := by
  unfold verifyCSBTOwner
  rw [h]
  rfl

theorem nftFrame_verifyCSBTOwner (s : StateDB) (str : String) (owner : Address) :
    NftFrame s (verifyCSBTOwner s str owner).1 := by
  unfold verifyCSBTOwner
  split
  · exact .refl s
  · exact s.nftFrame_getOrNewNFTStateObject _

/-- `TransferCSBT` writes the owner of the address that `GetNftAddressAndLevel`
makes of the string, and nothing else that an NFT read sees. -/
theorem transferCSBT_ok {t t' : StateDB} {str : String} {newOwner : Address}
    (h : transferCSBT t str newOwner = .ok t') :
    ∃ A level, getNftAddressAndLevel str = .ok (A, level) ∧
      (∀ b, t'.getNFTOwner16 b = if b = A then newOwner else t.getNFTOwner16 b) ∧
      t'.officialMint = t.officialMint ∧ t'.stakers = t.stakers := by
  unfold transferCSBT at h
  split at h
  · cases h
  · rename_i A level hA
    cases h
    have h₁ := t.nftFrame_getOrNewNFTStateObject A
    have hst : A = ValidatorStorageAddress ∨ (((t.getOrNewNFTStateObject A).nftObject A).changeNFTOwner newOwner).staker =
        ((t.getOrNewNFTStateObject A).accounts A).bind Account.staker := by
      rw [Account.changeNFTOwner_staker, StateDB.nftObject_staker]
      exact .inr rfl
    refine ⟨A, level, hA, fun b => ?_, (StateDB.officialMint_setAccount _ hst).trans h₁.mint,
      (StateDB.stakers_setAccount _ hst).trans h₁.creators⟩
    rw [StateDB.getNFTOwner16_setAccount]
    split_ifs
    · exact Account.changeNFTOwner_owner _ _
    · exact h₁.owners b

namespace EVM

variable (evm : EVM) (s : StateDB)

/-- An Erbie transaction keeps the NFT reads, or it is a CSBT transfer whose
caller passed the owner check and the creator check. -/
theorem handleCSBT_nft_cases (caller addr : Address) (wh : Wormholes) (value : Nat) :
    NftFrame s (evm.handleCSBT s caller addr wh value).1 ∨
      (wh.type = 1 ∧ (verifyCSBTOwner s wh.csbtAddress caller).2 = true ∧
        (s.stakers.any (·.addr = caller)) = true ∧
        transferCSBT ((verifyCSBTOwner s wh.csbtAddress caller).1.getOrNewStakerStateObject
          StakerStorageAddress) wh.csbtAddress addr = .ok (evm.handleCSBT s caller addr wh value).1) := by
  have hacc := s.nftFrame_getOrNewAccountStateObject caller
  unfold handleCSBT
  split
  · exact .inl (.refl s)
  · split
    · -- type 1: the owner check, the creator check, then the transfer
      rcases hv : verifyCSBTOwner s wh.csbtAddress caller with ⟨t, isOwner⟩
      have ht : NftFrame s t := by
        have := nftFrame_verifyCSBTOwner s wh.csbtAddress caller
        rwa [hv] at this
      have ht₀ := ht.trans (t.nftFrame_getOrNewStakerStateObject StakerStorageAddress)
      simp only [isExistStakerStorageAddress]
      by_cases hown : isOwner = true
      · by_cases hcreator : (t.stakers.any fun x => decide (x.addr = caller)) = true
        · simp only [hown, hcreator, ↓reduceIte]
          split
          · exact .inl ht₀
          · exact .inr ⟨‹_›, trivial, ht.creators ▸ hcreator, ‹_›⟩
        · simp only [hown, hcreator, Bool.false_eq_true, ↓reduceIte]
          exact .inl ht₀
      · simp only [hown, Bool.false_eq_true, ↓reduceIte]
        exact .inl ht
    · -- type 2: a payment to the owner
      rcases hv : verifyCSBTOwner s wh.csbtAddress addr with ⟨t, isOwner⟩
      have ht : NftFrame s t := by
        have := nftFrame_verifyCSBTOwner s wh.csbtAddress addr
        rwa [hv] at this
      dsimp only
      split_ifs
      · exact .inl (ht.trans (StateDB.nftFrame_transfer _ _ _ _))
      · exact .inl ht
    · -- type 3: a stake
      dsimp only [StateDB.readStakerPledged]
      split_ifs
      · exact .inl hacc
      · exact .inl ((hacc.trans (StateDB.nftFrame_stakerPledge _ _ _ _ _ _)).trans
          (StateDB.nftFrame_resetMinerBecome _ _))
      · exact .inl hacc
    · -- type 4: an unstake
      dsimp only [StateDB.readStakerPledged]
      split_ifs
      · exact .inl hacc
      · exact .inl (hacc.trans (StateDB.nftFrame_newCancelStakerPledge _ _ _ _ _))
      · exact .inl hacc
    · exact .inl (s.nftFrame_recoverValidatorCoefficient caller)
    · exact .inl (.refl s)

theorem handleCSBT_ownerTransfer (caller addr : Address) (wh : Wormholes) (value : Nat) :
    NftFrame s (evm.handleCSBT s caller addr wh value).1 ∨
      ∃ A level, wh.type = 1 ∧ getNftAddressAndLevel wh.csbtAddress = .ok (A, level) ∧
        OwnerTransfer s (evm.handleCSBT s caller addr wh value).1 caller addr A := by
  rcases evm.handleCSBT_nft_cases s caller addr wh value with hf | ⟨h1, hown, hcreator, htr⟩
  · exact .inl hf
  · obtain ⟨A, level, hA, howners, hmint, hcre⟩ := transferCSBT_ok htr
    -- the transfer starts after the owner check's object and the creator list's
    have h₀ := (nftFrame_verifyCSBTOwner s wh.csbtAddress caller).trans
      (StateDB.nftFrame_getOrNewStakerStateObject _ StakerStorageAddress)
    rw [verifyCSBTOwner_of_ok s hA, decide_eq_true_eq] at hown
    refine .inr ⟨A, level, h1, hA, hown, hcreator, fun b => ?_, hmint.trans h₀.mint, hcre.trans h₀.creators⟩
    rw [howners, h₀.owners]

end EVM

theorem OwnerTransfer.of_nftFrame {s t u : StateDB} {caller addr A : Address} (hf : NftFrame s t)
    (ht : OwnerTransfer t u caller addr A) : OwnerTransfer s u caller addr A where
  owner := (hf.owners A).symm.trans ht.owner
  creator := hf.creators ▸ ht.creator
  owners b := by rw [ht.owners, hf.owners]
  mint := ht.mint.trans hf.mint
  creators := ht.creators.trans hf.creators

/-- A step mints, or is a call whose Erbie payload is a CSBT transfer by the
owner of the address its string names. Before `HandleCSBT` a call only creates
objects, and its revert goes back to a state after them. -/
theorem StakingStep.nft_cases {s s' : StateDB} (h : StakingStep s s') :
    OfficialMints s s' ∨
      ∃ (evm : EVM) (caller addr : Address) (input : List UInt8) (gas value : Nat) (wh : Wormholes)
        (A : Address) (level : Nat),
        s' = (evm.call s caller addr input gas value).1 ∧ getWormholes evm.unmarshal input = some wh ∧
        wh.type = 1 ∧ getNftAddressAndLevel wh.csbtAddress = .ok (A, level) ∧ OwnerTransfer s s' caller addr A := by
  cases h with
  | finalize c view codec hd hs => exact .inl (c.officialMints_finalize view codec hd hs)
  | call evm hinert s caller addr input gas value =>
    obtain ⟨t, ht, hcall | hcall | ⟨wh, hwh, hcall⟩⟩ := evm.call_cases_of_inert s NftFrame caller addr hinert
      NftFrame.refl (fun h₁ h₂ => h₁.trans h₂) StateDB.nftFrame_getOrNewAccountStateObject input gas value
    · exact .inl (.of_nftFrame (hcall ▸ ht))
    · exact .inl (.of_nftFrame (hcall ▸ ht.trans (t.nftFrame_transfer caller addr value)))
    · rcases evm.handleCSBT_ownerTransfer t caller addr wh value with hf | ⟨A, level, h1, hA, htr⟩
      · exact .inl (.of_nftFrame (hcall ▸ ht.trans hf))
      · exact .inr ⟨evm, caller, addr, input, gas, value, wh, A, level, rfl, hwh, h1, hA, hcall ▸ htr.of_nftFrame ht⟩

theorem StakingStep.officialMint_le {s s' : StateDB} (h : StakingStep s s') {c : Nat}
    (hc : s.officialMint = some c) : ∃ c', s'.officialMint = some c' ∧ c ≤ c' := by
  rcases h.nft_cases with hm | ⟨_, _, _, _, _, _, _, _, _, _, _, _, _, ht⟩
  · exact hm.counter_le hc
  · exact ⟨c, ht.mint.trans hc, le_rfl⟩

/-! ### Minted addresses are not minted again -/

/-- Every address at or past the official mint counter is unowned, and the
zero address, the owner of an unowned NFT, is no CSBT creator. -/
structure NftInv (s : StateDB) : Prop where
  unminted : ∀ c, s.officialMint = some c → ∀ b : Address, c ≤ b.toNat → s.getNFTOwner16 b = zeroAddress
  creators : ∀ x ∈ s.stakers, x.addr ≠ zeroAddress

namespace NftInv

variable {s s' : StateDB}

/-- The counter of `s` stays within the address space. -/
def Bounded (s : StateDB) : Prop := ∀ c, s.officialMint = some c → c ≤ 2 ^ 160

theorem officialMints (h : NftInv s) (hm : OfficialMints s s') (hbound : Bounded s') : NftInv s' := by
  refine ⟨fun c' hc' b hb => ?_, fun x hx => h.creators x (hm.creators ▸ hx)⟩
  cases hc : s.officialMint with
  | none => rw [(hm.frozen hc).mint, hc] at hc'; cases hc'
  | some c =>
    obtain ⟨c₂, hc₂, hle, hown⟩ := hm.counter c hc
    obtain rfl : c₂ = c' := Option.some.inj (hc₂.symm.trans hc')
    -- an address past the new counter kept its owner, unowned past the old one
    by_cases hb' : s'.getNFTOwner16 b = s.getNFTOwner16 b
    · rw [hb']
      exact h.unminted c hc b (hle.trans hb)
    · have := hown (hbound c₂ hc₂) b hb'
      omega

theorem ownerTransfer (h : NftInv s) {caller addr A : Address} (ht : OwnerTransfer s s' caller addr A) :
    NftInv s' := by
  refine ⟨fun c hc b hb => ?_, fun x hx => h.creators x (ht.creators ▸ hx)⟩
  rw [ht.mint] at hc
  rw [ht.owners]
  split_ifs with hbA
  · -- the caller owns `A` and is a creator, so `A` is not past the counter
    subst hbA
    obtain ⟨x, hx, hxa⟩ := List.any_eq_true.mp ht.creator
    have hcaller : caller ≠ zeroAddress := (of_decide_eq_true hxa) ▸ h.creators x hx
    exact absurd (ht.owner ▸ h.unminted c hc b hb) hcaller
  · exact h.unminted c hc b hb

theorem step (h : NftInv s) (hs : StakingStep s s') (hbound : Bounded s') : NftInv s' := by
  rcases hs.nft_cases with hm | ⟨_, _, _, _, _, _, _, _, _, _, _, _, _, ht⟩
  · exact h.officialMints hm hbound
  · exact h.ownerTransfer ht

theorem Bounded.of_step (hs : StakingStep s s') (hbound : Bounded s') : Bounded s := by
  intro c hc
  obtain ⟨c', hc', hle⟩ := hs.officialMint_le hc
  exact hle.trans (hbound c' hc')

/-- The invariant holds along every run whose counter stays within the address
space; the counter only grows, so the bound at the end bounds the whole run. -/
theorem of_reachable {s₀ : StateDB} (h₀ : NftInv s₀) (hrun : Relation.ReflTransGen StakingStep s₀ s)
    (hbound : Bounded s) : NftInv s := by
  induction hrun with
  | refl => exact h₀
  | tail _ hstep ih => exact (ih (Bounded.of_step hstep hbound)).step hstep hbound

end NftInv

/-- NFT ownership along the runs of calls and finalisations, from a genesis
where every address at or past the official mint counter is unowned and the
zero address is no creator, while the counter stays within the address space:
an owner changes only by an official mint of an unowned address at or past the
counter, which the counter then passes, or by a call with a type-1 Erbie
payload whose caller owns the address its string names and which writes that
address. Both `VerifyCSBTOwner` and `TransferCSBT` resolve a string to one
address. -/
theorem nft_owner_changes_only_by_mint_or_owner_transfer {s₀ s s' : StateDB} (h₀ : NftInv s₀)
    (hrun : Relation.ReflTransGen StakingStep s₀ s) (hstep : StakingStep s s') (hbound : NftInv.Bounded s') :
    (∀ b : Address, s'.getNFTOwner16 b ≠ s.getNFTOwner16 b →
      (s.getNFTOwner16 b = zeroAddress ∧
        ∃ c c', s.officialMint = some c ∧ s'.officialMint = some c' ∧ c ≤ b.toNat ∧ b.toNat < c') ∨
      ∃ (evm : EVM) (caller addr : Address) (input : List UInt8) (gas value : Nat) (wh : Wormholes) (level : Nat),
        s' = (evm.call s caller addr input gas value).1 ∧ getWormholes evm.unmarshal input = some wh ∧
        wh.type = 1 ∧ getNftAddressAndLevel wh.csbtAddress = .ok (b, level) ∧
        (verifyCSBTOwner s wh.csbtAddress caller).2 = true ∧
        s.getNFTOwner16 b = caller ∧ s'.getNFTOwner16 b = addr) ∧
    ∀ (t t' : StateDB) (str : String) (owner newOwner : Address), transferCSBT t str newOwner = .ok t' →
      ∃ A level, getNftAddressAndLevel str = .ok (A, level) ∧
        (verifyCSBTOwner t str owner).2 = decide (t.getNFTOwner16 A = owner) ∧
        ∀ b, t'.getNFTOwner16 b = if b = A then newOwner else t.getNFTOwner16 b := by
  have hs := h₀.of_reachable hrun (NftInv.Bounded.of_step hstep hbound)
  refine ⟨fun b hb => ?_, fun t t' str owner newOwner htr => ?_⟩
  · rcases hstep.nft_cases with hm | ⟨evm, caller, addr, input, gas, value, wh, A, level, hcall, hwh, h1, hA, ht⟩
    · -- a mint: the address is past the old counter, so it had no owner
      cases hc : s.officialMint with
      | none => exact absurd ((hm.frozen hc).owners b) hb
      | some c =>
        obtain ⟨c', hc', -, hown⟩ := hm.counter c hc
        have hrange := hown (hbound c' hc') b hb
        exact .inl ⟨hs.unminted c hc b hrange.1, c, c', rfl, hc', hrange⟩
    · -- a transfer: only the address the string names changes owner
      have hbA : b = A := by
        by_contra hne
        exact hb (by rw [ht.owners, if_neg hne])
      subst hbA
      refine .inr ⟨evm, caller, addr, input, gas, value, wh, level, hcall, hwh, h1, hA, ?_, ht.owner,
        by rw [ht.owners, if_pos rfl]⟩
      rw [verifyCSBTOwner_of_ok s hA, ht.owner, decide_eq_true_eq]
  · obtain ⟨A, level, hA, howners, -, -⟩ := transferCSBT_ok htr
    exact ⟨A, level, hA, by rw [verifyCSBTOwner_of_ok t hA], howners⟩

/-! A genesis where `0x0a` is the one CSBT creator and owns the NFT at `0x0c`,
and hands it to `0x0b` through `Call`. -/

def csbtGenesis : StateDB := ⟨fun a =>
  if a = StakerStorageAddress then some { staker := some { csbtCreators := [⟨10, 0⟩] } }
  else if a = 10 then some { worm := some {} }
  else if a = 12 then some { csbt := some { owner := 10, creator := 10 } }
  else none⟩

theorem NftInv.csbtGenesis : NftInv csbtGenesis := by
  refine ⟨fun c hc b hb => ?_, by decide⟩
  obtain rfl : c = 2 ^ 159 := Option.some.inj (hc.symm.trans (by decide))
  -- the accounts of the genesis lie below the counter
  have h3 : b ≠ StakerStorageAddress := fun h => absurd hb (by rw [h]; decide)
  have h10 : b ≠ 10 := fun h => absurd hb (by rw [h]; decide)
  have h12 : b ≠ 12 := fun h => absurd hb (by rw [h]; decide)
  rw [StateDB.getNFTOwner16_eq]
  simp only [Erbie.csbtGenesis, if_neg h3, if_neg h10, if_neg h12]
  rfl

/-- The type-1 payload for the NFT at `0x0c`. -/
def csbtTransfer : Wormholes := { type := 1, csbtAddress := "0x000000000000000000000000000000000000000c" }

/-- The state after `0x0a` calls `0x0b` with the transfer. -/
def csbtHandedOn : StateDB := (stakingEvm.call csbtGenesis 10 11 csbtTransfer.input 100000 0).1

/-- The owner of the NFT at `0x0c` hands it on, and the change is the one the
theorem allows. -/
theorem csbt_owner_hands_on_nft :
    csbtHandedOn.getNFTOwner16 12 = 11 ∧ csbtGenesis.getNFTOwner16 12 = 10 ∧
      ((∀ b : Address, csbtHandedOn.getNFTOwner16 b ≠ csbtGenesis.getNFTOwner16 b →
        (csbtGenesis.getNFTOwner16 b = zeroAddress ∧
          ∃ c c', csbtGenesis.officialMint = some c ∧ csbtHandedOn.officialMint = some c' ∧
            c ≤ b.toNat ∧ b.toNat < c') ∨
        ∃ (evm : EVM) (caller addr : Address) (input : List UInt8) (gas value : Nat) (wh : Wormholes)
          (level : Nat),
          csbtHandedOn = (evm.call csbtGenesis caller addr input gas value).1 ∧
          getWormholes evm.unmarshal input = some wh ∧ wh.type = 1 ∧
          getNftAddressAndLevel wh.csbtAddress = .ok (b, level) ∧
          (verifyCSBTOwner csbtGenesis wh.csbtAddress caller).2 = true ∧
          csbtGenesis.getNFTOwner16 b = caller ∧ csbtHandedOn.getNFTOwner16 b = addr) ∧
      ∀ (t t' : StateDB) (str : String) (owner newOwner : Address), transferCSBT t str newOwner = .ok t' →
        ∃ A level, getNftAddressAndLevel str = .ok (A, level) ∧
          (verifyCSBTOwner t str owner).2 = decide (t.getNFTOwner16 A = owner) ∧
          ∀ b, t'.getNFTOwner16 b = if b = A then newOwner else t.getNFTOwner16 b) := by
  have hmint : csbtHandedOn.officialMint = some (2 ^ 159) := by decide +kernel
  refine ⟨by decide +kernel, by decide, nft_owner_changes_only_by_mint_or_owner_transfer NftInv.csbtGenesis .refl
    (.call stakingEvm stakingEvm_inert csbtGenesis 10 11 csbtTransfer.input 100000 0) fun c hc => ?_⟩
  obtain rfl : c = 2 ^ 159 := Option.some.inj (hc.symm.trans hmint)
  decide

end Erbie
