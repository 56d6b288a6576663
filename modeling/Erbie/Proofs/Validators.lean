import Erbie.Proofs.Ledger
import Erbie.Proofs.ValidatorList

/-! The validator list at `ValidatorStorageAddress` against the pledged
balances. The list is kept in step with the pledged balances in two ways: an
unstake and each refund of `RevocateAllStakers` lower the pledged balance and
the list entry by the same amount (`RemoveValidator`), and a stake raises the
pledged balance and then rebuilds the entry from it (`ResetMinerBecome`).
Finalisation only rewrites weights. So a list with one entry per address, in
the order of `Less`, whose entries hold their pledged balances of at least
`ValidatorBase`, stays so along every run of `StakingStep`. -/

namespace Erbie

/-- The validator list of a state is well formed against its pledged balances. -/
def ValidatorsInv (s : StateDB) : Prop :=
  ValidatorList.WellFormed s.getPledgedBalance s.validators

namespace ValidatorList

theorem WellFormed.of_entries {pledged : Address → Int} {vl vl' : List Validator}
    (h : WellFormed pledged vl) (he : entries vl' = entries vl) : WellFormed pledged vl' := by
  have haddr : ∀ l : List Validator, l.map Validator.addr = (entries l).map Prod.fst := by
    intro l
    simp [entries]
  have hsorted : ∀ l : List Validator, l.Pairwise (fun v w => v.less w = true) ↔
      (entries l).Pairwise fun p q => q.2 < p.2 ∨ (p.2 = q.2 ∧ q.1.toNat < p.1.toNat) := by
    intro l
    simp only [entries, List.pairwise_map, less_iff]
  refine ⟨⟨?_, fun v hv => ?_⟩, ?_⟩
  · rw [haddr, he, ← haddr]
    exact h.nodup
  · have hmem : (v.addr, v.balance) ∈ entries vl := he ▸ List.mem_map_of_mem hv
    obtain ⟨w, hw, hwv⟩ := List.mem_map.mp hmem
    obtain ⟨hwa, hwb⟩ := Prod.mk.inj hwv
    rw [← hwa, ← hwb]
    exact h.balance w hw
  · rw [hsorted, he, ← hsorted]
    exact h.sorted

end ValidatorList

namespace ValidatorsInv

variable {s : StateDB}

theorem of_eq (h : ValidatorsInv s) {s' : StateDB}
    (hp : s'.getPledgedBalance = s.getPledgedBalance) (hv : s'.validators = s.validators) :
    ValidatorsInv s' := by
  unfold ValidatorsInv
  rw [hp, hv]
  exact h

theorem of_frame (h : ValidatorsInv s) {s' : StateDB} (hf : LedgerFrame s s') : ValidatorsInv s' := by
  have hp : s'.getPledgedBalance = s.getPledgedBalance :=
    funext fun a => congrArg (·.2.2) (hf.stakes a)
  unfold ValidatorsInv
  rw [hp]
  exact h.of_entries hf.entries

theorem of_validators_nil (h : s.validators = []) : ValidatorsInv s := by
  unfold ValidatorsInv
  rw [h]
  exact ⟨⟨List.nodup_nil, by simp⟩, List.Pairwise.nil⟩

theorem empty : ValidatorsInv StateDB.empty := of_validators_nil rfl

theorem fundedGenesis : ValidatorsInv Erbie.fundedGenesis := of_validators_nil rfl

/-! ### The writes of an unstake -/

theorem removePledge (h : ValidatorsInv s) (f a : Address) (amount : Int) :
    ValidatorsInv (s.removePledge f a amount) := by
  have hp : (s.removePledge f a amount).getPledgedBalance =
      Function.update s.getPledgedBalance a (s.getPledgedBalance a - amount) := by
    funext b
    rw [StateDB.getPledgedBalance, StateDB.worm_removePledge]
    dsimp only
    split_ifs with hb
    · subst hb
      simp [StateDB.getPledgedBalance]
    · simp [Function.update_of_ne hb, StateDB.getPledgedBalance]
  unfold ValidatorsInv
  rw [hp, StateDB.validators_removePledge]
  exact h.removeValidator a amount

theorem revocateStaker (h : ValidatorsInv s) (addr : Address) (e : ValidatorExtension) :
    ValidatorsInv (StateDB.revocateStaker addr s e) := by
  have hp : (StateDB.revocateStaker addr s e).getPledgedBalance =
      Function.update s.getPledgedBalance addr (s.getPledgedBalance addr - e.balance) := by
    funext b
    rw [StateDB.getPledgedBalance, StateDB.worm_revocateStaker]
    dsimp only
    split_ifs with hb
    · subst hb
      simp [StateDB.getPledgedBalance]
    · simp [Function.update_of_ne hb, StateDB.getPledgedBalance]
  unfold ValidatorsInv
  rw [hp, StateDB.validators_revocateStaker]
  exact h.removeValidator addr e.balance

theorem foldl_revocateStaker (addr : Address) :
    ∀ (l : List ValidatorExtension) {s : StateDB}, ValidatorsInv s →
      ValidatorsInv (l.foldl (StateDB.revocateStaker addr) s)
  | [], _, h => h
  | e :: l, _, h => foldl_revocateStaker addr l (h.revocateStaker addr e)

theorem revocateAllStakers (h : ValidatorsInv s) (addr : Address) (bn : Nat) :
    ValidatorsInv (s.revocateAllStakers addr bn) := by
  unfold StateDB.revocateAllStakers
  dsimp only
  have h₀ := h.of_frame ((s.ledgerFrame_getOrNewAccountStateObject addr).trans
    (StateDB.ledgerFrame_getOrNewStakerStateObject _ ValidatorStorageAddress))
  -- every refund keeps the list in step, and emptying the extension touches neither
  have h₁ := foldl_revocateStaker addr ((s.getOrNewAccountStateObject addr).worm addr).validatorExtension h₀
  refine h₁.of_eq (funext fun b => ?_) ?_
  · by_cases hb : b = addr
    · subst hb
      simp [StateDB.getPledgedBalance, Account.setValidatorExtension]
    · simp [StateDB.getPledgedBalance, Account.setValidatorExtension, hb]
  · simp [Account.setValidatorExtension]

theorem newCancelStakerPledge (h : ValidatorsInv s) (f a : Address) (amount : Int) (bn : Nat) :
    ValidatorsInv (s.newCancelStakerPledge f a amount bn).1 := by
  obtain ⟨t, hft, ht⟩ := s.newCancelStakerPledge_cases f a amount bn
  have ht₀ := h.of_frame hft
  rcases ht with ht | ht | ht <;> rw [ht]
  · exact ht₀
  · exact ht₀.removePledge f a amount
  · exact (ht₀.removePledge f a amount).revocateAllStakers a bn

/-! ### The writes of a stake -/

/-- `ResetMinerBecome` on a state whose list, without the entry of `a`, is
well formed. -/
theorem resetMinerBecome {a : Address}
    (h : ValidatorList.WellFormed s.getPledgedBalance (ValidatorList.resetRemoveValidator s.validators a))
    (ha : a ∉ (ValidatorList.resetRemoveValidator s.validators a).map Validator.addr) :
    ValidatorsInv (s.resetMinerBecome a).1 := by
  have hp : (s.resetMinerBecome a).1.getPledgedBalance = s.getPledgedBalance := by
    funext b
    obtain ⟨c, hc⟩ := s.worm_resetMinerBecome a b
    rw [StateDB.getPledgedBalance, hc]
    rfl
  unfold ValidatorsInv
  rw [hp, StateDB.validators_resetMinerBecome]
  split_ifs with hlow
  · exact h
  · exact h
  · exact h.setValidatorAmount ha (by omega) _

theorem stake (h : ValidatorsInv s) (f a : Address) (amount : Int) (bn : Nat) (px : String) :
    ValidatorsInv ((s.stakerPledge f a amount bn px).resetMinerBecome a).1 := by
  set s₁ := s.stakerPledge f a amount bn px
  have hp : s₁.getPledgedBalance =
      Function.update s.getPledgedBalance a (s.getPledgedBalance a + amount) := by
    funext b
    rw [StateDB.getPledgedBalance, StateDB.worm_stakerPledge]
    dsimp only
    split_ifs with hb
    · subst hb
      simp [StateDB.getPledgedBalance]
    · simp [Function.update_of_ne hb, StateDB.getPledgedBalance]
  -- the entry of `a` goes before its pledged balance is read again
  obtain ⟨hwf, hnot⟩ := ValidatorList.WellFormed.resetRemoveValidator h a
  have hv : s₁.validators = s.validators := StateDB.validators_stakerPledge ..
  refine resetMinerBecome ?_ (by rw [hv]; exact hnot)
  rw [hv, hp]
  exact hwf.congr hnot fun b hb => Function.update_of_ne hb _ _

/-! ### Every step -/

theorem handleCSBT (h : ValidatorsInv s) (evm : EVM) (caller addr : Address) (wh : Wormholes)
    (value : Nat) : ValidatorsInv (evm.handleCSBT s caller addr wh value).1 := by
  have h₀ := h.of_frame (s.ledgerFrame_getOrNewAccountStateObject caller)
  by_cases h3 : wh.type = 3
  · rcases EVM.handleCSBT_stake_cases evm s caller addr wh value h3 with he | ⟨_, he⟩
    · rw [he]; exact h₀
    · rw [he]; exact h₀.stake caller addr value evm.blockNumber wh.proxyAddress
  · by_cases h4 : wh.type = 4
    · rcases EVM.handleCSBT_unstake_cases evm s caller addr wh value h4 with he | ⟨_, he⟩
      · rw [he]; exact h₀
      · rw [he]; exact h₀.newCancelStakerPledge caller addr value evm.blockNumber
    · exact h.of_frame (EVM.ledgerFrame_handleCSBT evm s caller addr wh value ⟨h3, h4⟩)

theorem step (h : ValidatorsInv s) {s' : StateDB} (hs : StakingStep s s') : ValidatorsInv s' := by
  cases hs with
  | call evm hinert s caller addr input gas value =>
    exact evm.call_keeps s caller addr hinert (fun hf h => h.of_frame hf)
      (fun _ wh value h => h.handleCSBT evm caller addr wh value) input gas value h
  | finalize c view codec hd hs => exact h.of_frame (c.ledgerFrame_finalize view codec hd hs)

theorem of_reachable {s₀ : StateDB} (h₀ : ValidatorsInv s₀)
    (hrun : Relation.ReflTransGen StakingStep s₀ s) : ValidatorsInv s := by
  induction hrun with
  | refl => exact h₀
  | tail _ hstep ih => exact ih.step hstep

end ValidatorsInv

/-- In every state that stakes, unstakes, coefficient buy-backs and
finalisations reach from a well-formed validator list, the list has one entry
per address, is sorted by balance and then by address, both descending, and
every entry holds its address's pledged balance, at least `ValidatorBase`. -/
theorem validatorList_consistent {s₀ s : StateDB} (h₀ : ValidatorsInv s₀)
    (hrun : Relation.ReflTransGen StakingStep s₀ s) :
    (s.validators.map Validator.addr).Nodup ∧
    s.validators.Pairwise (fun v w =>
      w.balance < v.balance ∨ (v.balance = w.balance ∧ w.addr.toNat < v.addr.toNat)) ∧
    ∀ v ∈ s.validators, v.balance = s.getPledgedBalance v.addr ∧ ValidatorBase ≤ v.balance := by
  have h := h₀.of_reachable hrun
  refine ⟨h.nodup, h.sorted.imp fun {v w} hvw => ?_, h.balance⟩
  exact (ValidatorList.less_iff v w).mp hvw

theorem validatorList_consistent_after_self_stake :
    (selfStaked.validators.map Validator.addr).Nodup ∧
    selfStaked.validators.Pairwise (fun v w =>
      w.balance < v.balance ∨ (v.balance = w.balance ∧ w.addr.toNat < v.addr.toNat)) ∧
    ∀ v ∈ selfStaked.validators, v.balance = selfStaked.getPledgedBalance v.addr ∧ ValidatorBase ≤ v.balance :=
  validatorList_consistent ValidatorsInv.fundedGenesis
    (.single (.call stakingEvm stakingEvm_inert fundedGenesis 10 10 (Wormholes.input { type := 3 }) 100000
      ValidatorBase.toNat))

end Erbie
