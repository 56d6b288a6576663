import Mathlib

/-! Conservation of a quantity that a map spreads over its keys. A step from
`f` to `g` changes the total by `m` when, over every finite set of keys that
holds the keys the step touched, the sum of `g` is the sum of `f` plus `m`.
That is the change of the total over all keys, for maps of finite support,
without asking the maps for one. Steps compose by adding their changes, a
write to one key changes the total by what it added there, and a loop changes
it by the sum of the changes of its rounds. The change of a step is unique. -/

namespace Conserve

variable {α : Type}

/-- `g` holds `m` more than `f` in total: some finite set of keys holds every
change. -/
def Moves (f g : α → Int) (m : Int) : Prop :=
  ∃ T : Finset α, ∀ U : Finset α, T ⊆ U → ∑ a ∈ U, g a = ∑ a ∈ U, f a + m

namespace Moves

variable {f g h : α → Int} {m n : Int}

theorem refl (f : α → Int) : Moves f f 0 :=
  ⟨∅, fun U _ => by rw [add_zero]⟩

theorem of_eq (hfg : g = f) : Moves f g 0 := hfg ▸ refl f

theorem congr (hfg : Moves f g m) (hm : m = n) : Moves f g n := hm ▸ hfg

variable [DecidableEq α]

theorem trans (hfg : Moves f g m) (hgh : Moves g h n) : Moves f h (m + n) := by
  obtain ⟨T₁, hT₁⟩ := hfg
  obtain ⟨T₂, hT₂⟩ := hgh
  refine ⟨T₁ ∪ T₂, fun U hU => ?_⟩
  rw [hT₂ U (Finset.union_subset_right hU), hT₁ U (Finset.union_subset_left hU), add_assoc]

theorem single (a : α) (hg : ∀ b, b ≠ a → g b = f b) : Moves f g (g a - f a) := by
  refine ⟨{a}, fun U hU => ?_⟩
  have ha : a ∈ U := Finset.singleton_subset_iff.mp hU
  have hrest : ∑ b ∈ U.erase a, g b = ∑ b ∈ U.erase a, f b :=
    Finset.sum_congr rfl fun b hb => hg b (Finset.ne_of_mem_erase hb)
  rw [← Finset.add_sum_erase U g ha, ← Finset.add_sum_erase U f ha, hrest]
  omega

theorem add_single (f : α → Int) (a : α) (x : Int) :
    Moves f (fun b => f b + if b = a then x else 0) x := by
  refine (single a fun b hb => ?_).congr ?_
  · rw [if_neg hb, add_zero]
  · rw [if_pos rfl, add_sub_cancel_left]

theorem add {f₁ g₁ f₂ g₂ : α → Int} {m₁ m₂ : Int} (h₁ : Moves f₁ g₁ m₁) (h₂ : Moves f₂ g₂ m₂) :
    Moves (fun a => f₁ a + f₂ a) (fun a => g₁ a + g₂ a) (m₁ + m₂) := by
  obtain ⟨T₁, hT₁⟩ := h₁
  obtain ⟨T₂, hT₂⟩ := h₂
  refine ⟨T₁ ∪ T₂, fun U hU => ?_⟩
  rw [Finset.sum_add_distrib, Finset.sum_add_distrib, hT₁ U (Finset.union_subset_left hU),
    hT₂ U (Finset.union_subset_right hU)]
  omega

theorem unique (h₁ : Moves f g m) (h₂ : Moves f g n) : m = n := by
  obtain ⟨T₁, hT₁⟩ := h₁
  obtain ⟨T₂, hT₂⟩ := h₂
  have e₁ := hT₁ (T₁ ∪ T₂) Finset.subset_union_left
  have e₂ := hT₂ (T₁ ∪ T₂) Finset.subset_union_right
  rw [e₁] at e₂
  exact add_left_cancel e₂

section Loop

variable {σ β : Type} (V : σ → α → Int) (μ : β → Int)

/-- A loop whose round on `x` changes the total by `μ x` changes it by the sum
of `μ` over the loop. -/
theorem foldl (step : σ → β → σ) (hstep : ∀ s x, Moves (V s) (V (step s x)) (μ x)) :
    ∀ (l : List β) (s : σ), Moves (V s) (V (l.foldl step s)) (l.map μ).sum
  | [], s => refl (V s)
  | x :: l, s => ((hstep s x).trans (foldl step hstep l (step s x))).congr (by simp)

theorem foldlM (step : σ → β → Option σ)
    (hstep : ∀ s x s', step s x = some s' → Moves (V s) (V s') (μ x)) :
    ∀ (l : List β) {s s' : σ}, l.foldlM step s = some s' → Moves (V s) (V s') (l.map μ).sum
  | [], s, s', h => by
    cases h
    exact refl (V s)
  | x :: l, s, s', h => by
    rw [List.foldlM_cons] at h
    obtain ⟨t, ht, hl⟩ := Option.bind_eq_some_iff.mp h
    exact ((hstep s x t ht).trans (foldlM step hstep l hl)).congr (by simp)

end Loop

end Moves

end Conserve
