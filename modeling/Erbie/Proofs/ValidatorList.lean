import Erbie.Spec.Types
import Erbie.Lib.Upsert

/-! The validator list under its mutators. Every mutator edits one entry and
then sorts, and sorting permutes: so what a mutator does to the set of
addresses, and to the entry of each address, is read off its `go` loop. -/

namespace Erbie
namespace ValidatorList

theorem sortValidators_perm (vl : List Validator) : (sortValidators vl).Perm vl :=
  List.mergeSort_perm _ _

theorem mem_addrs_sortValidators (vl : List Validator) (a : Address) :
    a ∈ (sortValidators vl).map Validator.addr ↔ a ∈ vl.map Validator.addr :=
  ((sortValidators_perm vl).map _).mem_iff

theorem mem_addrs_addValidator (vl : List Validator) (addr a proxy : Address) (balance : Int) :
    a ∈ (addValidator vl addr balance proxy).map Validator.addr ↔
      a = addr ∨ a ∈ vl.map Validator.addr := by
  rw [addValidator, mem_addrs_sortValidators]
  induction vl with
  | nil => simp [addValidator.go]
  | cons v vs ih =>
    by_cases hv : v.addr = addr
    · -- the entry of `addr` is updated in place
      simp [addValidator.go, hv]
    · simp only [addValidator.go, hv, if_false, List.map_cons, List.mem_cons, ih]
      tauto

theorem getProxy_eq_some {vl : List Validator} {delegate proxy : Address}
    (h : getProxy vl delegate = some proxy) :
    ∃ v ∈ vl, v.addr = delegate ∧ v.proxy = proxy := by
  obtain ⟨v, hfind, rfl⟩ := Option.map_eq_some_iff.mp h
  have hv := List.find?_some hfind
  simp only [decide_eq_true_eq] at hv
  exact ⟨v, List.mem_of_find?_eq_some hfind, hv.1, rfl⟩

/-! ### Well-formed lists

A list is well formed against a map of pledged balances when it has one entry
per address, is in the order of `Less`, and every entry holds its address's
pledged balance, at least `ValidatorBase`. Every mutator edits a list with one
entry per address and sorts it; the sort gives the order, and one entry per
address turns the order the sort gives, in which equal keys may stand side by
side, into the strict one. -/

theorem less_iff (v w : Validator) :
    v.less w = true ↔
      w.balance < v.balance ∨ (v.balance = w.balance ∧ w.addr.toNat < v.addr.toNat) := by
  unfold Validator.less
  split_ifs with h <;> simp [h]

theorem not_less_trans (a b c : Validator) (hab : (!b.less a) = true) (hbc : (!c.less b) = true) :
    (!c.less a) = true := by
  simp only [Bool.not_eq_eq_eq_not, Bool.not_true, Bool.eq_false_iff, ne_eq] at hab hbc ⊢
  rw [less_iff] at hab hbc ⊢
  omega

theorem not_less_total (a b : Validator) : ((!b.less a) || (!a.less b)) = true := by
  have h : ¬(b.less a = true ∧ a.less b = true) := by
    rw [less_iff, less_iff]
    omega
  cases hba : b.less a <;> cases hab : a.less b <;> simp_all

theorem addr_eq_of_not_less (a b : Validator) (hab : (!b.less a) = true) (hba : (!a.less b) = true) :
    a.addr = b.addr := by
  simp only [Bool.not_eq_eq_eq_not, Bool.not_true, Bool.eq_false_iff, ne_eq] at hab hba
  rw [less_iff] at hab hba
  exact BitVec.eq_of_toNat_eq (by omega)

theorem sortValidators_pairwise (vl : List Validator) :
    (sortValidators vl).Pairwise fun v w => (!w.less v) = true :=
  List.pairwise_mergeSort not_less_trans not_less_total vl

/-- A list with one entry per address and the stake rule, before its sort. -/
structure Consistent (pledged : Address → Int) (vl : List Validator) : Prop where
  nodup : (vl.map Validator.addr).Nodup
  balance : ∀ v ∈ vl, v.balance = pledged v.addr ∧ ValidatorBase ≤ v.balance

/-- The list `ValidatorStorageAddress` should hold. -/
structure WellFormed (pledged : Address → Int) (vl : List Validator) : Prop
    extends Consistent pledged vl where
  sorted : vl.Pairwise fun v w => v.less w = true

theorem Consistent.sort {pledged : Address → Int} {vl : List Validator}
    (h : Consistent pledged vl) : WellFormed pledged (sortValidators vl) := by
  have hperm := sortValidators_perm vl
  have hnd : ((sortValidators vl).map Validator.addr).Nodup := (hperm.map _).nodup_iff.mpr h.nodup
  refine ⟨⟨hnd, fun v hv => h.balance v (hperm.mem_iff.mp hv)⟩, ?_⟩
  -- entries with distinct addresses are never equal under `Less`
  have hne : (sortValidators vl).Pairwise fun v w => v.addr ≠ w.addr := List.pairwise_map.mp hnd
  refine ((sortValidators_pairwise vl).and hne).imp fun {v w} ⟨hle, hvw⟩ => ?_
  have hnat : v.addr.toNat ≠ w.addr.toNat := fun h => hvw (BitVec.eq_of_toNat_eq h)
  have : ¬w.less v = true := by simpa using hle
  rw [less_iff] at this ⊢
  omega

theorem Consistent.sublist {pledged : Address → Int} {vl vl' : List Validator}
    (h : Consistent pledged vl) (hs : vl'.Sublist vl) : Consistent pledged vl' :=
  ⟨(hs.map _).nodup h.nodup, fun v hv => h.balance v (hs.subset hv)⟩

/-- The pledged balance of an address without an entry does not matter. -/
theorem Consistent.congr {pledged pledged' : Address → Int} {vl : List Validator} {a : Address}
    (h : Consistent pledged vl) (ha : a ∉ vl.map Validator.addr)
    (hp : ∀ b, b ≠ a → pledged' b = pledged b) : Consistent pledged' vl := by
  refine ⟨h.nodup, fun v hv => ?_⟩
  have hva : v.addr ≠ a := fun hva => ha (hva ▸ List.mem_map_of_mem hv)
  rw [hp v.addr hva]
  exact h.balance v hv

theorem WellFormed.congr {pledged pledged' : Address → Int} {vl : List Validator} {a : Address}
    (h : WellFormed pledged vl) (ha : a ∉ vl.map Validator.addr)
    (hp : ∀ b, b ≠ a → pledged' b = pledged b) : WellFormed pledged' vl :=
  ⟨h.toConsistent.congr ha hp, h.sorted⟩

/-! ### The mutators on well-formed lists -/

theorem resetRemoveValidator_go_some {vl vl' : List Validator} {addr : Address}
    (h : resetRemoveValidator.go addr vl = some vl') :
    vl'.Sublist vl ∧ ((vl.map Validator.addr).Nodup → addr ∉ vl'.map Validator.addr) := by
  induction vl generalizing vl' with
  | nil => simp [resetRemoveValidator.go] at h
  | cons v vs ih =>
    unfold resetRemoveValidator.go at h
    split_ifs at h with hv
    · cases h
      refine ⟨List.sublist_cons_self v vs, fun hnd => ?_⟩
      rw [← hv]
      exact (List.nodup_cons.mp hnd).1
    · obtain ⟨vs', hvs', rfl⟩ := Option.map_eq_some_iff.mp h
      obtain ⟨hsub, hnot⟩ := ih hvs'
      refine ⟨hsub.cons_cons v, fun hnd => ?_⟩
      simp only [List.map_cons, List.mem_cons, not_or]
      exact ⟨Ne.symm hv, hnot (List.nodup_cons.mp hnd).2⟩

theorem resetRemoveValidator_go_none {vl : List Validator} {addr : Address}
    (h : resetRemoveValidator.go addr vl = none) : addr ∉ vl.map Validator.addr := by
  induction vl with
  | nil => simp
  | cons v vs ih =>
    unfold resetRemoveValidator.go at h
    split_ifs at h with hv
    simp only [Option.map_eq_none_iff] at h
    simp only [List.map_cons, List.mem_cons, not_or]
    exact ⟨Ne.symm hv, ih h⟩

theorem WellFormed.resetRemoveValidator {pledged : Address → Int} {vl : List Validator}
    (h : WellFormed pledged vl) (addr : Address) :
    WellFormed pledged (resetRemoveValidator vl addr) ∧
      addr ∉ (resetRemoveValidator vl addr).map Validator.addr := by
  unfold ValidatorList.resetRemoveValidator
  split
  · rename_i vl' hgo
    obtain ⟨hsub, hnot⟩ := resetRemoveValidator_go_some hgo
    refine ⟨(h.toConsistent.sublist hsub).sort, ?_⟩
    rw [mem_addrs_sortValidators]
    exact hnot h.nodup
  · exact ⟨h, resetRemoveValidator_go_none ‹_›⟩

/-- The loop of `RemoveValidator`: the entry of `addr` loses `balance` and stays
while it holds `ValidatorBase`. -/
theorem removeValidator_go_some {pledged : Address → Int} {vl vl' : List Validator}
    {addr : Address} {balance : Int} (h : Consistent pledged vl)
    (hgo : removeValidator.go addr balance vl = some vl') :
    Consistent (Function.update pledged addr (pledged addr - balance)) vl' ∧
      (vl'.map Validator.addr).Sublist (vl.map Validator.addr) := by
  induction vl generalizing vl' with
  | nil => simp [removeValidator.go] at hgo
  | cons v vs ih =>
    have hvs : Consistent pledged vs := h.sublist (List.sublist_cons_self v vs)
    have hnot : v.addr ∉ vs.map Validator.addr := (List.nodup_cons.mp h.nodup).1
    unfold removeValidator.go at hgo
    split_ifs at hgo with hv hlow
    · -- the entry drops out below `ValidatorBase`
      cases hgo
      rw [← hv]
      exact ⟨hvs.congr hnot fun b hb => Function.update_of_ne hb _ _, List.sublist_cons_self _ _⟩
    · cases hgo
      rw [← hv]
      refine ⟨⟨by simpa using h.nodup, fun w hw => ?_⟩, by simp⟩
      rcases List.mem_cons.mp hw with rfl | hw
      · have := (h.balance v List.mem_cons_self).1
        simp only [Function.update_self]
        constructor <;> omega
      · have hwv : w.addr ≠ v.addr := fun heq => hnot (heq ▸ List.mem_map_of_mem hw)
        rw [Function.update_of_ne hwv]
        exact hvs.balance w hw
    · obtain ⟨vs', hvs', rfl⟩ := Option.map_eq_some_iff.mp hgo
      obtain ⟨hc, hsub⟩ := ih hvs hvs'
      have hvnot : v.addr ∉ vs'.map Validator.addr := fun hm => hnot (hsub.subset hm)
      refine ⟨⟨by rw [List.map_cons]; exact List.nodup_cons.mpr ⟨hvnot, hc.nodup⟩, fun w hw => ?_⟩,
        hsub.cons_cons _⟩
      rcases List.mem_cons.mp hw with rfl | hw
      · rw [Function.update_of_ne hv]
        exact h.balance w List.mem_cons_self
      · exact hc.balance w hw

theorem removeValidator_go_none {vl : List Validator} {addr : Address} {balance : Int}
    (h : removeValidator.go addr balance vl = none) : addr ∉ vl.map Validator.addr := by
  induction vl with
  | nil => simp
  | cons v vs ih =>
    unfold removeValidator.go at h
    split_ifs at h with hv
    simp only [Option.map_eq_none_iff] at h
    simp only [List.map_cons, List.mem_cons, not_or]
    exact ⟨Ne.symm hv, ih h⟩

theorem WellFormed.removeValidator {pledged : Address → Int} {vl : List Validator}
    (h : WellFormed pledged vl) (addr : Address) (balance : Int) :
    WellFormed (Function.update pledged addr (pledged addr - balance))
      (removeValidator vl addr balance) := by
  unfold ValidatorList.removeValidator
  split
  · exact (removeValidator_go_some h.toConsistent ‹_›).1.sort
  · exact h.congr (removeValidator_go_none ‹_›) fun b hb => Function.update_of_ne hb _ _

theorem setValidatorAmount_go_of_not_mem {vl : List Validator} {addr proxy : Address}
    {balance : Int} (h : addr ∉ vl.map Validator.addr) :
    setValidatorAmount.go addr balance proxy vl = vl ++ [⟨addr, balance, proxy, []⟩] := by
  induction vl with
  | nil => rfl
  | cons v vs ih =>
    simp only [List.map_cons, List.mem_cons, not_or] at h
    simp [setValidatorAmount.go, Ne.symm h.1, ih h.2]

theorem WellFormed.setValidatorAmount {pledged : Address → Int} {vl : List Validator}
    {addr : Address} (h : WellFormed pledged vl) (ha : addr ∉ vl.map Validator.addr)
    (hbase : ValidatorBase ≤ pledged addr) (proxy : Address) :
    WellFormed pledged (setValidatorAmount vl addr (pledged addr) proxy) := by
  unfold ValidatorList.setValidatorAmount
  rw [setValidatorAmount_go_of_not_mem ha]
  refine Consistent.sort ⟨?_, fun v hv => ?_⟩
  · rw [List.map_append, List.nodup_append]
    refine ⟨h.nodup, by simp, fun b hb c hc hbc => ?_⟩
    simp only [List.map_cons, List.map_nil, List.mem_singleton] at hc
    exact ha (hc ▸ hbc ▸ hb)
  · rcases List.mem_append.mp hv with hv | hv
    · exact h.balance v hv
    · obtain rfl := List.mem_singleton.mp hv
      exact ⟨rfl, hbase⟩

/-! ### `AddValidator` as an upsert

The `go` loop of `AddValidator` is an upsert keyed by address, and the sort
separates distinct addresses: so `AddValidator` on two distinct addresses
commutes. -/

theorem addValidator_go_eq (vl : List Validator) (addr : Address) (balance : Int) (proxy : Address) :
    addValidator.go addr balance proxy vl =
      Upsert.upsert Validator.addr addr
        (fun v => { v with balance := v.balance + balance, proxy := if proxy ≠ zeroAddress then proxy else v.proxy })
        ⟨addr, balance, proxy, []⟩ vl := by
  induction vl with
  | nil => rfl
  | cons v vs ih =>
    rw [addValidator.go, Upsert.upsert, ih]

theorem nodup_addValidator {vl : List Validator} (hnd : (vl.map Validator.addr).Nodup) (x : Address) (b : Int)
    (p : Address) : ((addValidator vl x b p).map Validator.addr).Nodup := by
  rw [addValidator, ((sortValidators_perm _).map _).nodup_iff, addValidator_go_eq]
  refine Upsert.nodup_upsert ?_ ?_ hnd
  all_goals intros; rfl

theorem addValidator_comm {vl : List Validator} (hnd : (vl.map Validator.addr).Nodup) {x y : Address} (hxy : x ≠ y)
    (bx by' : Int) (px py : Address) :
    addValidator (addValidator vl x bx px) y by' py = addValidator (addValidator vl y by' py) x bx px := by
  simp only [addValidator, addValidator_go_eq, sortValidators]
  refine Upsert.mergeSort_upsert_comm _ not_less_trans not_less_total addr_eq_of_not_less ?_ ?_ ?_ ?_ hxy hnd
  all_goals intros; rfl

end ValidatorList
end Erbie
