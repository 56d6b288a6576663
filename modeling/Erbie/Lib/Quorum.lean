import Mathlib

/-! Quorum arithmetic of Byzantine fault-tolerant committees. A committee of
`n` members tolerates `faulty n = ⌈n/3⌉ - 1` faults and decides with quorums
of `size n = 2 * faulty n + 1` members. Two quorums of one committee share at
least `2 * size n - n` members, and that is more than `faulty n` exactly when
`n % 3 = 1`: for the other committee sizes two quorums can meet in faulty
members only. -/

namespace Quorum

/-- `⌈n/3⌉ - 1`, which is `-1` for the empty committee. -/
def faulty (n : Nat) : Int := ((n + 2) / 3 : Nat) - 1

/-- `2 * faulty n + 1`. -/
def size (n : Nat) : Int := 2 * faulty n + 1

theorem faulty_nonneg {n : Nat} (hn : 0 < n) : 0 ≤ faulty n := by
  unfold faulty; omega

/-- Two quorums overlap in more than the fault bound exactly for committee
sizes `1 mod 3`. -/
theorem faulty_lt_overlap_iff (n : Nat) :
    (n : Int) + faulty n < 2 * size n ↔ n % 3 = 1 := by
  unfold size faulty; omega

theorem card_add_card_le {α : Type} [DecidableEq α] {A B U : Finset α}
    (hA : A ⊆ U) (hB : B ⊆ U) : A.card + B.card ≤ U.card + (A ∩ B).card := by
  have hunion := Finset.card_union_add_card_inter A B
  have hsub : (A ∪ B).card ≤ U.card := Finset.card_le_card (Finset.union_subset hA hB)
  omega

/-- Two quorums of a committee meet in more than `faulty n` members when
`n % 3 = 1`. -/
theorem faulty_lt_card_inter {α : Type} [DecidableEq α] {A B U : Finset α}
    (hA : A ⊆ U) (hB : B ⊆ U) (hn : U.card % 3 = 1)
    (hAq : size U.card ≤ A.card) (hBq : size U.card ≤ B.card) :
    faulty U.card < (A ∩ B).card := by
  have hover := (faulty_lt_overlap_iff U.card).mpr hn
  have hmeet := card_add_card_le hA hB
  omega

/-- Two quorums of a committee of `1 mod 3` members share a member outside any
set of at most `faulty n` members. -/
theorem exists_mem_inter_not_mem {α : Type} [DecidableEq α] {A B U Z : Finset α}
    (hA : A ⊆ U) (hB : B ⊆ U) (hn : U.card % 3 = 1)
    (hAq : size U.card ≤ A.card) (hBq : size U.card ≤ B.card) (hZ : (Z.card : Int) ≤ faulty U.card) :
    ∃ s ∈ A ∩ B, s ∉ Z := by
  by_contra hne
  have hsub : A ∩ B ⊆ Z := fun s hs => by
    by_contra hsZ
    exact hne ⟨s, hs, hsZ⟩
  have hcard := Finset.card_le_card hsub
  have hlt := faulty_lt_card_inter hA hB hn hAq hBq
  omega

/-! Counting the members of a certificate by removing each from a copy of the
committee succeeds exactly on a sub-multiset of the committee; the step of
that count is the lemma below. -/

theorem cons_subperm_iff {α : Type} [DecidableEq α] (a : α) (l vs : List α) :
    (a :: l).Subperm vs ↔ a ∈ vs ∧ l.Subperm (vs.erase a) := by
  constructor
  · intro h
    refine ⟨h.subset List.mem_cons_self, ?_⟩
    simpa using h.erase a
  · rintro ⟨ha, hl⟩
    exact ((List.subperm_cons a).mpr hl).trans (List.perm_cons_erase ha).symm.subperm

theorem disjoint_of_append_subperm {α : Type} [DecidableEq α] {l₁ l₂ vs : List α}
    (hvs : vs.Nodup) (h : (l₁ ++ l₂).Subperm vs) : l₁.toFinset ∩ l₂.toFinset = ∅ := by
  obtain ⟨l, hperm, hsub⟩ := h
  have hnd : (l₁ ++ l₂).Nodup := hperm.nodup_iff.mp (hvs.sublist hsub)
  rw [List.nodup_append] at hnd
  ext a
  simp only [Finset.mem_inter, List.mem_toFinset, Finset.notMem_empty, iff_false, not_and]
  intro h₁ h₂
  exact hnd.2.2 a h₁ a h₂ rfl

end Quorum
