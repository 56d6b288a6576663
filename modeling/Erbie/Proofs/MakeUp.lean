import Erbie.Spec.Selection

/-! The order in which `MakeUpValidators` fills the committee. The tie-break
pass swaps an entry behind its neighbour of equal amount when the entry is the
closer of the two to the random hash, and carries it on. It is one pass of a
bubble sort by distance, descending: the amounts stay where they were, each run
of equal amounts stays in place, and within a run a closest entry is carried to
its end. The comment of the pass asks for the closer entry in front. -/

namespace Erbie

section
variable (randomAmt : Int)

theorem tieBreakFrom_perm (a : Validator) (l : List Validator) : (tieBreakFrom randomAmt a l).Perm (a :: l) := by
  induction l generalizing a with
  | nil => exact List.Perm.refl _
  | cons b rest ih =>
    unfold tieBreakFrom
    split_ifs
    · exact ((ih a).cons b).trans (List.Perm.swap a b rest)
    · exact (ih b).cons a

theorem tieBreak_perm (l : List Validator) : (tieBreak randomAmt l).Perm l := by
  cases l with
  | nil => exact List.Perm.refl _
  | cons a rest => exact tieBreakFrom_perm randomAmt a rest

/-- Over a run of equal amounts, the pass carries a closest entry to the end. -/
theorem tieBreakFrom_decompose (a : Validator) (l : List Validator) (hrun : ∀ v ∈ l, v.balance = a.balance) :
    ∃ front last, tieBreakFrom randomAmt a l = front ++ [last] ∧
      ∀ z ∈ a :: l, last.distance randomAmt ≤ z.distance randomAmt := by
  induction l generalizing a with
  | nil => exact ⟨[], a, rfl, by simp⟩
  | cons b rest ih =>
    have hb : a.balance = b.balance := (hrun b List.mem_cons_self).symm
    unfold tieBreakFrom
    split_ifs with h
    · -- `a` is the closer: it moves behind `b` and is carried on
      obtain ⟨front, last, hres, hmin⟩ := ih a fun v hv => hrun v (List.mem_cons_of_mem _ hv)
      refine ⟨b :: front, last, by rw [hres, List.cons_append], fun z hz => ?_⟩
      rcases List.mem_cons.1 hz with rfl | hz
      · exact hmin z List.mem_cons_self
      rcases List.mem_cons.1 hz with rfl | hz
      · exact (hmin a List.mem_cons_self).trans h.2.le
      · exact hmin z (List.mem_cons_of_mem _ hz)
    · -- `b` is as close as `a` or closer: it is carried on
      have hba : b.distance randomAmt ≤ a.distance randomAmt := not_lt.1 fun hlt => h ⟨hb, hlt⟩
      obtain ⟨front, last, hres, hmin⟩ := ih b fun v hv => (hrun v (List.mem_cons_of_mem _ hv)).trans hb
      refine ⟨a :: front, last, by rw [hres, List.cons_append], fun z hz => ?_⟩
      rcases List.mem_cons.1 hz with rfl | hz
      · exact (hmin b List.mem_cons_self).trans hba
      · exact hmin z hz

/-- Where the amount changes, the pass starts afresh: what it carries out of
the run before has another amount than the next entry, so they do not swap. -/
theorem tieBreakFrom_append (a b : Validator) (l rest : List Validator)
    (hb : ((a :: l).getLast (List.cons_ne_nil a l)).balance ≠ b.balance) :
    tieBreakFrom randomAmt a (l ++ b :: rest) = tieBreakFrom randomAmt a l ++ tieBreakFrom randomAmt b rest := by
  induction l generalizing a with
  | nil =>
    rw [List.nil_append, tieBreakFrom.eq_2, if_neg fun h : a.balance = b.balance ∧ _ => hb h.1]
    rfl
  | cons c l ih =>
    rw [List.cons_append, tieBreakFrom, tieBreakFrom]
    split_ifs with h
    · -- `a` is carried past `c`, and has its amount
      have hlast : ((a :: l).getLast (List.cons_ne_nil a l)).balance ≠ b.balance := by
        cases l with
        | nil => simpa [h.1] using hb
        | cons d l => simpa using hb
      rw [ih a hlast, List.cons_append]
    · rw [ih c (by simpa using hb), List.cons_append]

theorem tieBreak_append (l₁ l₂ : List Validator)
    (h : ∀ x ∈ l₁.getLast?, ∀ y ∈ l₂.head?, x.balance ≠ y.balance) :
    tieBreak randomAmt (l₁ ++ l₂) = tieBreak randomAmt l₁ ++ tieBreak randomAmt l₂ := by
  match l₁, l₂ with
  | [], l₂ => rfl
  | a :: l, [] => rw [List.append_nil, tieBreak, List.append_nil]
  | a :: l, b :: rest =>
    rw [List.cons_append, tieBreak, tieBreak, tieBreak]
    exact tieBreakFrom_append randomAmt a b l rest
      (h _ (List.getLast?_eq_some_getLast (List.cons_ne_nil a l)) b rfl)

/-- The tie-break pass keeps every maximal run of equal amounts in place, as a
permutation of itself that ends at a closest entry of the run: the closer of
two entries of equal amount goes behind, not in front. -/
theorem tieBreak_puts_closest_last (l₁ run l₂ : List Validator) (hne : run ≠ [])
    (hrun : ∀ v ∈ run, ∀ w ∈ run, v.balance = w.balance)
    (h₁ : ∀ x ∈ l₁.getLast?, ∀ y ∈ run.head?, x.balance ≠ y.balance)
    (h₂ : ∀ x ∈ run.getLast?, ∀ y ∈ l₂.head?, x.balance ≠ y.balance) :
    ∃ run', tieBreak randomAmt (l₁ ++ run ++ l₂) = tieBreak randomAmt l₁ ++ run' ++ tieBreak randomAmt l₂ ∧
      run'.Perm run ∧ ∀ w ∈ run'.getLast?, ∀ v ∈ run, w.distance randomAmt ≤ v.distance randomAmt := by
  obtain ⟨a, l, rfl⟩ := List.exists_cons_of_ne_nil hne
  have hlast : (l₁ ++ a :: l).getLast? = (a :: l).getLast? :=
    List.getLast?_append_of_ne_nil _ (List.cons_ne_nil a l)
  rw [tieBreak_append randomAmt (l₁ ++ a :: l) l₂ (by rwa [hlast]), tieBreak_append randomAmt l₁ (a :: l) h₁]
  obtain ⟨front, last, hres, hmin⟩ :=
    tieBreakFrom_decompose randomAmt a l fun v hv => hrun v (List.mem_cons_of_mem _ hv) a List.mem_cons_self
  refine ⟨tieBreak randomAmt (a :: l), rfl, tieBreakFrom_perm randomAmt a l, fun w hw v hv => ?_⟩
  rw [tieBreak, hres, List.getLast?_concat, Option.mem_some_iff] at hw
  exact hw ▸ hmin v hv

end

/-- Two validators of equal stake, `200` and `100`, in the order of the list. -/
def twoTied : List Validator := [⟨200, ValidatorBase, zeroAddress, []⟩, ⟨100, ValidatorBase, zeroAddress, []⟩]

/-- With the random hash `110`, closer to `100`, and both coefficients `70`,
the pass leaves `200` in front, and `MakeUpValidators` fills one missing slot
with `200`, the farther one. -/
theorem makeUp_fills_with_the_farther_of_two_tied :
    ValidatorList.makeUpOrder twoTied [70, 70] 110 =
        [⟨200, ValidatorBase * 70, zeroAddress, []⟩, ⟨100, ValidatorBase * 70, zeroAddress, []⟩] ∧
      ValidatorList.makeUpValidators twoTied [] [70, 70] 110 1 = [200] ∧
      ∃ run', tieBreak 110 ([] ++ [⟨200, ValidatorBase * 70, zeroAddress, []⟩,
          ⟨100, ValidatorBase * 70, zeroAddress, []⟩] ++ []) = tieBreak 110 [] ++ run' ++ tieBreak 110 [] ∧
        run'.Perm [⟨200, ValidatorBase * 70, zeroAddress, []⟩, ⟨100, ValidatorBase * 70, zeroAddress, []⟩] ∧
        ∀ w ∈ run'.getLast?, ∀ v ∈ [(⟨200, ValidatorBase * 70, zeroAddress, []⟩ : Validator),
          ⟨100, ValidatorBase * 70, zeroAddress, []⟩], w.distance 110 ≤ v.distance 110 := by
  -- `sort.Sort` is a merge sort here, which `decide` does not unfold: `simp` runs it
  have horder : ValidatorList.makeUpOrder twoTied [70, 70] 110 =
      [⟨200, ValidatorBase * 70, zeroAddress, []⟩, ⟨100, ValidatorBase * 70, zeroAddress, []⟩] := by
    simp [ValidatorList.makeUpOrder, twoTied, ValidatorList.addValidator, ValidatorList.addValidator.go,
      sortValidators, List.mergeSort, Validator.less, tieBreak, tieBreakFrom, Validator.distance]
  refine ⟨horder, ?_, tieBreak_puts_closest_last 110 [] _ [] (List.cons_ne_nil _ _) (by decide) (by simp) (by simp)⟩
  rw [ValidatorList.makeUpValidators, horder]
  decide

end Erbie
