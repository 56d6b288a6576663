import Erbie.Proofs.Validators

/-! Proxies in the validator list. `StakeBalance`, `GetValidatorAddr`, `Exist`
and the mapping of proxies to validators in `Prepare` and `Finalize` resolve an
address to the first entry whose address or proxy it is, which names one
validator only while no address is both an entry's address and a proxy, or the
proxy of two entries. `ResetMinerBecome` refuses an entry whose proxy is on
another entry, but never looks at the entry it adds: a validator may name itself
as its proxy, and the proxy of a validator may become a validator itself. -/

namespace Erbie

namespace ValidatorList

/-- The addresses and the nonzero proxies of the entries are all distinct. -/
def ProxiesUnique (vl : List Validator) : Prop :=
  (vl.map Validator.addr ++ (vl.map Validator.proxy).filter (· ≠ zeroAddress)).Nodup

instance (vl : List Validator) : Decidable (ProxiesUnique vl) :=
  inferInstanceAs (Decidable (List.Nodup _))

theorem proxiesUnique_nil : ProxiesUnique [] := List.nodup_nil

/-- An entry whose proxy is the address of an entry, itself or another. -/
theorem not_proxiesUnique_of_proxy_eq_addr {vl : List Validator} {v w : Validator} (hv : v ∈ vl)
    (hw : w ∈ vl) (hp : w.proxy = v.addr) (h0 : w.proxy ≠ zeroAddress) : ¬ ProxiesUnique vl := by
  unfold ProxiesUnique
  rw [List.nodup_append]
  rintro ⟨-, -, hdisj⟩
  have hmem : w.proxy ∈ (vl.map Validator.proxy).filter (· ≠ zeroAddress) :=
    List.mem_filter.mpr ⟨List.mem_map_of_mem hw, decide_eq_true h0⟩
  exact hdisj v.addr (List.mem_map_of_mem hv) w.proxy hmem hp.symm

theorem mem_setValidatorAmount (vl : List Validator) (addr : Address) (balance : Int) (proxy : Address) :
    ∃ v ∈ setValidatorAmount vl addr balance proxy, v.addr = addr ∧ (proxy ≠ zeroAddress → v.proxy = proxy) := by
  have hgo : ∀ l : List Validator, ∃ v ∈ setValidatorAmount.go addr balance proxy l,
      v.addr = addr ∧ (proxy ≠ zeroAddress → v.proxy = proxy) := by
    intro l
    induction l with
    | nil => exact ⟨_, List.mem_singleton_self _, rfl, fun _ => rfl⟩
    | cons w ws ih =>
      rw [setValidatorAmount.go]
      by_cases hw : w.addr = addr
      · rw [if_pos hw]
        exact ⟨_, List.mem_cons_self, hw, fun hp => by simp [hp]⟩
      · rw [if_neg hw]
        obtain ⟨v, hv, ha, hp⟩ := ih
        exact ⟨v, List.mem_cons_of_mem w hv, ha, hp⟩
  obtain ⟨v, hv, ha, hp⟩ := hgo vl
  exact ⟨v, (sortValidators_perm _).mem_iff.mpr hv, ha, hp⟩

theorem mem_setValidatorAmount_of_ne {vl : List Validator} {w : Validator} (hw : w ∈ vl) {addr : Address}
    (hne : w.addr ≠ addr) (balance : Int) (proxy : Address) : w ∈ setValidatorAmount vl addr balance proxy := by
  have hgo : ∀ l : List Validator, w ∈ l → w ∈ setValidatorAmount.go addr balance proxy l := by
    intro l
    induction l with
    | nil => intro h; cases h
    | cons u us ih =>
      intro h
      rw [setValidatorAmount.go]
      by_cases hu : u.addr = addr
      · rw [if_pos hu]
        rcases List.mem_cons.mp h with rfl | h
        · exact absurd hu hne
        · exact List.mem_cons_of_mem _ h
      · rw [if_neg hu]
        rcases List.mem_cons.mp h with rfl | h
        · exact List.mem_cons_self
        · exact List.mem_cons_of_mem _ (ih h)
  exact (sortValidators_perm _).mem_iff.mpr (hgo vl hw)

theorem mem_resetRemoveValidator_of_ne {vl : List Validator} {w : Validator} (hw : w ∈ vl) {addr : Address}
    (hne : w.addr ≠ addr) : w ∈ resetRemoveValidator vl addr := by
  have hgo : ∀ l l' : List Validator, resetRemoveValidator.go addr l = some l' → w ∈ l → w ∈ l' := by
    intro l
    induction l with
    | nil => intro l' h; cases h
    | cons u us ih =>
      intro l' h hmem
      unfold resetRemoveValidator.go at h
      split_ifs at h with hu
      · cases h
        rcases List.mem_cons.mp hmem with rfl | hmem
        · exact absurd hu hne
        · exact hmem
      · obtain ⟨us', hus', rfl⟩ := Option.map_eq_some_iff.mp h
        rcases List.mem_cons.mp hmem with rfl | hmem
        · exact List.mem_cons_self
        · exact List.mem_cons_of_mem _ (ih us' hus' hmem)
  unfold resetRemoveValidator
  split
  · exact (sortValidators_perm _).mem_iff.mpr (hgo vl _ ‹_› hw)
  · exact hw

end ValidatorList

/-! ### A validator that names itself as its proxy -/

/-- A stake of `V` on itself whose proxy reads as `V`, that reaches
`ValidatorBase` and whose proxy no other entry holds, adds an entry whose
proxy is its own address. -/
theorem handleCSBT_admits_self_proxy (evm : EVM) (s : StateDB) {V : Address} {proxy : String}
    {value : Nat} (hproxy : proxy ≠ "") (hV : hexToAddress proxy = V) (hV0 : V ≠ zeroAddress)
    (hstake : StakerBase ≤ (value : Int)) (hpay : (value : Int) ≤ s.getBalance V)
    (hbase : ValidatorBase ≤ s.getPledgedBalance V + value)
    (hfree : ValidatorList.exist (ValidatorList.resetRemoveValidator s.validators V) V = false) :
    ¬ ValidatorList.ProxiesUnique
      (evm.handleCSBT s V V { type := 3, proxyAddress := proxy } value).1.validators := by
  have hcheck : ¬((s.getStakerPledged V V).balance < StakerBase ∧ (value : Int) < StakerBase) :=
    fun h => absurd h.2 (not_lt.mpr hstake)
  rw [EVM.handleCSBT_stake_eq evm s V V _ value rfl hcheck hpay]
  set s₁ := (s.getOrNewAccountStateObject V).stakerPledge V V value evm.blockNumber proxy
  have hv₁ : s₁.validators = s.validators := by
    simp only [s₁, StateDB.validators_stakerPledge, StateDB.validators_getOrNewAccountStateObject]
  have hw₁ := (s.getOrNewAccountStateObject V).worm_stakerPledge V V V value evm.blockNumber proxy
  have hpx : (s₁.worm V).validatorProxy = V := by
    rw [hw₁]
    simp [hproxy, hV]
  have hpl : s₁.getPledgedBalance V = s.getPledgedBalance V + value := by
    rw [StateDB.getPledgedBalance, hw₁]
    simp [StateDB.getPledgedBalance]
  rw [StateDB.validators_resetMinerBecome, if_neg (by omega), if_neg (by rw [hpx, hv₁, hfree]; simp), hpx]
  obtain ⟨v, hv, haddr, hprox⟩ := ValidatorList.mem_setValidatorAmount
    (ValidatorList.resetRemoveValidator s₁.validators V) V (s₁.getPledgedBalance V) V
  exact ValidatorList.not_proxiesUnique_of_proxy_eq_addr hv hv (by rw [hprox hV0, haddr])
    (by rw [hprox hV0]; exact hV0)

/-- From the funded genesis, where the list is empty, account `0x0a` stakes all
it has on itself with proxy `0x0a`, through `Call` at an account that is no
precompile and has no code. -/
theorem self_proxy_after_one_stake :
    ValidatorList.ProxiesUnique fundedGenesis.validators ∧
      Relation.ReflTransGen StakingStep fundedGenesis
        (stakingEvm.call fundedGenesis 10 10 (Wormholes.input { type := 3, proxyAddress := "0x0a" }) 100000
          ValidatorBase.toNat).1 ∧
      ¬ ValidatorList.ProxiesUnique
        (stakingEvm.call fundedGenesis 10 10 (Wormholes.input { type := 3, proxyAddress := "0x0a" }) 100000
          ValidatorBase.toNat).1.validators := by
  have hcall := stakingEvm.call_eq_handleCSBT fundedGenesis 10 10
    (Wormholes.input { type := 3, proxyAddress := "0x0a" }) 100000 ValidatorBase.toNat
    { type := 3, proxyAddress := "0x0a" } fundedGenesis
    (by decide) (by decide) (by decide +kernel) rfl (by decide +kernel) (by decide) (by decide +kernel)
  refine ⟨ValidatorList.proxiesUnique_nil, .single (.call _ stakingEvm_inert _ _ _ _ _ _), ?_⟩
  rw [hcall, if_pos (show fundedGenesis.exist 10 = true by decide)]
  exact handleCSBT_admits_self_proxy stakingEvm fundedGenesis (by decide) (by decide +kernel) (by decide)
    (by decide) (by decide) (by decide) rfl

/-! ### A proxy that becomes a validator -/

/-- An address that is the proxy of an entry and becomes a validator without a
proxy of its own passes the check, and its entry's address is the other's
proxy. -/
theorem resetMinerBecome_admits_proxy_as_validator (s : StateDB) {P : Address} {w : Validator}
    (hw : w ∈ s.validators) (hwp : w.proxy = P) (hwP : w.addr ≠ P) (hP0 : P ≠ zeroAddress)
    (hpx : (s.worm P).validatorProxy = zeroAddress) (hbase : ValidatorBase ≤ s.getPledgedBalance P) :
    ¬ ValidatorList.ProxiesUnique (s.resetMinerBecome P).1.validators := by
  rw [StateDB.validators_resetMinerBecome, if_neg (by omega), if_neg (by rw [hpx]; simp)]
  obtain ⟨v, hv, haddr, -⟩ := ValidatorList.mem_setValidatorAmount
    (ValidatorList.resetRemoveValidator s.validators P) P (s.getPledgedBalance P) (s.worm P).validatorProxy
  have hw' := ValidatorList.mem_setValidatorAmount_of_ne
    (ValidatorList.mem_resetRemoveValidator_of_ne hw hwP) hwP (s.getPledgedBalance P) (s.worm P).validatorProxy
  exact ValidatorList.not_proxiesUnique_of_proxy_eq_addr hv hw' (by rw [hwp, haddr]) (by rw [hwp]; exact hP0)

end Erbie
