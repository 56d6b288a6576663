import Erbie.Spec.RandomDrop

/-! Where the neighbours of `getSurroundingChainNo` fall. With `Nr = 4` and a
chain of `Nt = 4 * Np` slots, the middle block and the block of the last row
give slots of the chain for every index they handle, whatever the blocks
before them left. The block of the first row is the last to run, and for the
index `3` it gives `i - 5 = -2` and `j = i - 4 = -1`; for the index `1` it
gives `j = 5`, past a chain of one row. Nothing else leaves the chain. -/

namespace Erbie

section
variable {i Np : Int}

theorem surroundingMiddle_mem (h4 : 4 ≤ i) (hi : i ≤ 4 * Np - 5) (st : Int × List Int) :
    ∀ x ∈ (surroundingMiddle i 4 st).2, 0 ≤ x ∧ x < 4 * Np := by
  have hi0 : 0 ≤ i := by omega
  have hq0 : 0 ≤ i / 4 := Int.ediv_nonneg hi0 (by decide)
  simp only [surroundingMiddle, Int.tmod_eq_emod_of_nonneg hi0, Int.tdiv_eq_ediv_of_nonneg hi0,
    Int.tmod_eq_emod_of_nonneg hq0]
  -- one branch per residue of `i` and parity of its row; the others are contradictory
  split_ifs <;> first
    | (exfalso; omega)
    | (simp only [List.mem_cons, List.not_mem_nil, or_false]; rintro x (rfl | rfl | rfl | rfl) <;> omega)

theorem surroundingEnd_mem (h4 : 4 ≤ i) (hlo : 4 * Np - 4 ≤ i) (hhi : i ≤ 4 * Np - 1) (st : Int × List Int) :
    ∀ x ∈ (surroundingEnd i st).2, 0 ≤ x ∧ x < 4 * Np := by
  have hi0 : 0 ≤ i := by omega
  have hq0 : 0 ≤ i / 4 := Int.ediv_nonneg hi0 (by decide)
  simp only [surroundingEnd, Int.tmod_eq_emod_of_nonneg hi0, Int.tdiv_eq_ediv_of_nonneg hi0,
    Int.tmod_eq_emod_of_nonneg hq0]
  split_ifs <;> first
    | (exfalso; omega)
    | (simp only [List.mem_cons, List.not_mem_nil, or_false]; rintro x (rfl | rfl | rfl | rfl) <;> omega)

/-- The block of the first row leaves the chain exactly at the index `3`, and
at the index `1` on a chain of one row. -/
theorem surroundingStart_mem_iff (hNp : 1 ≤ Np) (h0 : 0 ≤ i) (h3 : i ≤ 3) (st : Int × List Int) :
    (∀ x ∈ (surroundingStart i (4 * Np) st).2, 0 ≤ x ∧ x < 4 * Np) ↔ i ≠ 3 ∧ ¬(i = 1 ∧ Np < 2) := by
  have hrow : (4 * Np).tdiv 4 = Np := by
    rw [Int.tdiv_eq_ediv_of_nonneg (by omega), Int.mul_ediv_cancel_left _ (by decide)]
  simp only [surroundingStart, hrow, Int.tmod_eq_emod_of_nonneg h0, Int.tdiv_eq_ediv_of_nonneg h0,
    Int.tmod_eq_emod_of_nonneg (show (0 : Int) ≤ Np by omega)]
  interval_cases i
  · simp
    omega
  · simp
    omega
  · split_ifs <;> simp <;> omega
  · simp

/-- Before the first slot, no block runs: three zeros. -/
theorem getSurroundingChainNo_of_neg (hNp : 1 ≤ Np) (hi : i < 0) : getSurroundingChainNo i 4 Np = [0, 0, 0] := by
  simp only [getSurroundingChainNo]
  rw [if_neg (by omega), if_neg (by omega), if_neg (by omega)]

end

/-- For `n ≥ 1` validators and the coinbase index `-1 ≤ i < n` of
`random3Index`, the slots `getSurroundingChainNo(i, 4, n/4+1)` all lie on the
chain exactly when `i` is not `3`, and not `1` with fewer than four
validators. -/
theorem getSurroundingChainNo_in_range_iff {n : Int} (hn : 1 ≤ n) {i : Int} (hi : -1 ≤ i) (hin : i < n) :
    (∀ x ∈ getSurroundingChainNo i 4 (n.tdiv 4 + 1), 0 ≤ x ∧ x < 4 * (n.tdiv 4 + 1)) ↔
      i ≠ 3 ∧ ¬(i = 1 ∧ n < 4) := by
  have hq : n.tdiv 4 = n / 4 := Int.tdiv_eq_ediv_of_nonneg (by omega)
  have hNp : 1 ≤ n.tdiv 4 + 1 := by omega
  have hNt : n < 4 * (n.tdiv 4 + 1) := by omega
  rcases lt_or_ge i 0 with hneg | h0
  · -- `i = -1`: the coinbase is not in the list
    rw [getSurroundingChainNo_of_neg hNp hneg]
    simp only [List.mem_cons, List.not_mem_nil, or_false]
    constructor
    · intro _
      omega
    · rintro - x (rfl | rfl | rfl)
      all_goals omega
  rcases le_or_gt i 3 with h3 | h4
  · -- the first row: its block runs last
    simp only [getSurroundingChainNo]
    rw [if_pos ⟨h0, h3⟩, surroundingStart_mem_iff hNp h0 h3]
    omega
  · -- past the first row: the block of the last row, or else the middle one
    simp only [getSurroundingChainNo]
    rw [if_neg (by omega)]
    refine iff_of_true ?_ ⟨by omega, by omega⟩
    by_cases hend : 4 * (n.tdiv 4 + 1) - 4 ≤ i ∧ i ≤ 4 * (n.tdiv 4 + 1) - 1
    · rw [if_pos hend]
      exact surroundingEnd_mem (by omega) hend.1 hend.2 _
    · rw [if_neg hend, if_pos ⟨by omega, by omega⟩]
      exact surroundingMiddle_mem (by omega) (by omega) _

/-- Four validators of equal stake, in the order of the list: by address, descending. -/
def fourValidators : List Validator :=
  [⟨13, ValidatorBase, zeroAddress, []⟩, ⟨12, ValidatorBase, zeroAddress, []⟩,
    ⟨11, ValidatorBase, zeroAddress, []⟩, ⟨10, ValidatorBase, zeroAddress, []⟩]

/-- A block sealed by `10`, the fourth validator. -/
def fourthSealedHeader : Header where
  parentHash := 0
  coinbase := 10
  root := 0
  difficulty := none
  number := 1
  time := 0
  extra := []
  mixDigest := 0
  nonce := 0

/-- After a block sealed by the fourth of four validators, `random3Index`
gives the slots `[3, 2, -2, -1]`. `opOnValidators` reads the two negative
slots as no validator, so only two validators enter the hash. -/
theorem fourth_coinbase_drops_two_neighbours :
    random3Index fourValidators fourthSealedHeader = getSurroundingChainNo 3 4 ((4 : Int).tdiv 4 + 1) ∧
      ¬(∀ x ∈ getSurroundingChainNo 3 4 ((4 : Int).tdiv 4 + 1), 0 ≤ x ∧ x < 4 * ((4 : Int).tdiv 4 + 1)) ∧
      opOnValidators fourValidators (random3Index fourValidators fourthSealedHeader) = [10, 11] :=
  ⟨by decide, fun h => ((getSurroundingChainNo_in_range_iff (by decide) (by decide) (by decide)).1 h).1 rfl,
    by decide⟩

end Erbie
