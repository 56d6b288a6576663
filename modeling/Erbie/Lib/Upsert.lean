import Mathlib

/-! Lists kept as maps: one entry per key, every write an upsert (the entry of
the key is updated, or a new entry appended), and the list sorted after each
write. When the order sorts entries of distinct keys strictly, a sorted list
is determined by its entries, so upserts on distinct keys commute. -/

namespace Upsert

variable {α κ : Type} [DecidableEq κ] (key : α → κ)

/-- Update the first entry of key `k` by `upd`, or append `new` when there is none. -/
def upsert (k : κ) (upd : α → α) (new : α) : List α → List α
  | [] => [new]
  | v :: vs => if key v = k then upd v :: vs else v :: upsert k upd new vs

variable {key} {k k' : κ} {upd upd' : α → α} {new new' : α}

theorem upsert_eq_of_not_mem {l : List α} (hk : k ∉ l.map key) : upsert key k upd new l = l ++ [new] := by
  induction l with
  | nil => rfl
  | cons v vs ih =>
    rw [List.map_cons, List.mem_cons, not_or] at hk
    rw [upsert, if_neg (Ne.symm hk.1), ih hk.2, List.cons_append]

theorem upsert_eq_of_mem {l : List α} (hnd : (l.map key).Nodup) (hk : k ∈ l.map key) :
    upsert key k upd new l = l.map fun v => if key v = k then upd v else v := by
  induction l with
  | nil => exact absurd hk List.not_mem_nil
  | cons v vs ih =>
    rw [List.map_cons, List.nodup_cons] at hnd
    rw [upsert, List.map_cons]
    by_cases hv : key v = k
    · -- no other entry has the key
      have hvs : ∀ w ∈ vs, key w ≠ k := fun w hw h => hnd.1 (hv ▸ h ▸ List.mem_map_of_mem hw)
      rw [if_pos hv, if_pos hv, List.map_congr_left (fun w hw => if_neg (hvs w hw)), List.map_id']
    · rw [if_neg hv, if_neg hv, ih hnd.2 ((List.mem_cons.1 hk).resolve_left (Ne.symm hv))]

theorem upsert_perm {l₁ l₂ : List α} (hnd : (l₁.map key).Nodup) (hp : l₁.Perm l₂) :
    (upsert key k upd new l₁).Perm (upsert key k upd new l₂) := by
  have hkeys := hp.map key
  by_cases hk : k ∈ l₁.map key
  · rw [upsert_eq_of_mem hnd hk, upsert_eq_of_mem (hkeys.nodup_iff.1 hnd) (hkeys.mem_iff.1 hk)]
    exact hp.map _
  · rw [upsert_eq_of_not_mem hk, upsert_eq_of_not_mem (fun h => hk (hkeys.mem_iff.2 h))]
    exact hp.append_right _

section
variable (hupd : ∀ v, key (upd v) = key v) (hnew : key new = k)
include hupd hnew

theorem nodup_upsert {l : List α} (hnd : (l.map key).Nodup) : ((upsert key k upd new l).map key).Nodup := by
  by_cases hk : k ∈ l.map key
  · rw [upsert_eq_of_mem hnd hk, List.map_map]
    have : (key ∘ fun v => if key v = k then upd v else v) = key := by
      funext v
      simp only [Function.comp_apply]
      split_ifs
      · exact hupd v
      · rfl
    rwa [this]
  · rw [upsert_eq_of_not_mem hk, List.map_append, List.map_singleton, hnew]
    exact hnd.append (List.nodup_singleton k) (List.disjoint_singleton.2 hk)

variable (hupd' : ∀ v, key (upd' v) = key v) (hnew' : key new' = k')
include hupd' hnew'

theorem upsert_comm (hkk : k ≠ k') (l : List α) :
    (upsert key k' upd' new' (upsert key k upd new l)).Perm (upsert key k upd new (upsert key k' upd' new' l)) := by
  induction l with
  | nil =>
    simp only [upsert, hnew, if_neg hkk, hnew', if_neg (Ne.symm hkk)]
    exact List.Perm.swap new' new []
  | cons v vs ih =>
    by_cases hv : key v = k
    · -- the entry of `k` is updated first or last, and no upsert of `k'` touches it
      have hv' : key v ≠ k' := hv ▸ hkk
      simp only [upsert, hv, hupd, hkk, if_true, if_false]
      rfl
    · by_cases hv' : key v = k'
      · simp only [upsert, hv', hupd', Ne.symm hkk, if_true, if_false]
        rfl
      · simp only [upsert, hv, hv', if_false]
        exact ih.cons v

end

/-! Sorting a list with one entry per key, by an order that is strict across keys. -/

section Sorting
variable (le : α → α → Bool) (htrans : ∀ a b c, le a b → le b c → le a c)
  (htotal : ∀ a b, (le a b || le b a) = true) (hanti : ∀ a b, le a b → le b a → key a = key b)
include htrans htotal hanti

omit [DecidableEq κ] in
theorem mergeSort_eq_of_perm {l₁ l₂ : List α} (hnd : (l₁.map key).Nodup) (hp : l₁.Perm l₂) :
    l₁.mergeSort le = l₂.mergeSort le := by
  have hp' : (l₁.mergeSort le).Perm (l₂.mergeSort le) :=
    ((List.mergeSort_perm l₁ le).trans hp).trans (List.mergeSort_perm l₂ le).symm
  refine hp'.eq_of_pairwise (fun a b ha hb hab hba => ?_) (List.pairwise_mergeSort htrans htotal l₁)
    (List.pairwise_mergeSort htrans htotal l₂)
  have ha' : a ∈ l₁ := (List.mergeSort_perm l₁ le).mem_iff.1 ha
  have hb' : b ∈ l₁ := hp.mem_iff.2 ((List.mergeSort_perm l₂ le).mem_iff.1 hb)
  exact List.inj_on_of_nodup_map hnd ha' hb' (hanti a b hab hba)

variable (hupd : ∀ v, key (upd v) = key v) (hnew : key new = k)
  (hupd' : ∀ v, key (upd' v) = key v) (hnew' : key new' = k')
include hupd hnew hupd' hnew'

theorem mergeSort_upsert_comm (hkk : k ≠ k') {l : List α} (hnd : (l.map key).Nodup) :
    (upsert key k' upd' new' ((upsert key k upd new l).mergeSort le)).mergeSort le =
      (upsert key k upd new ((upsert key k' upd' new' l).mergeSort le)).mergeSort le := by
  have hnd₁ := nodup_upsert hupd hnew hnd
  have hnd₂ := nodup_upsert hupd' hnew' hnd
  have hs₁ := List.mergeSort_perm (upsert key k upd new l) le
  have hs₂ := List.mergeSort_perm (upsert key k' upd' new' l) le
  -- the lists fed to the outer sorts hold the same entries
  have hp : (upsert key k' upd' new' ((upsert key k upd new l).mergeSort le)).Perm
      (upsert key k upd new ((upsert key k' upd' new' l).mergeSort le)) :=
    ((upsert_perm ((hs₁.map key).nodup_iff.2 hnd₁) hs₁).trans (upsert_comm hupd hnew hupd' hnew' hkk l)).trans
      (upsert_perm hnd₂ hs₂.symm)
  exact mergeSort_eq_of_perm le htrans htotal hanti
    (nodup_upsert hupd' hnew' ((hs₁.map key).nodup_iff.2 hnd₁)) hp

end Sorting

end Upsert
