import Mathlib

/-! Invariants of loops written as folds. A step invariant of `List.foldl` is
core's `List.foldlRecOn`; here are its forms for a loop in `Option`, where a
`none` is a loop that stopped, and in `Except`, and for a relation between the state before a
loop and every state after it, which a loop keeps when the relation is
reflexive and transitive and each step establishes it. -/

namespace Fold

variable {α β : Type}

/-- An invariant that every step keeps holds of whatever a loop in `Option`
returns. -/
theorem foldlM_induction (P : α → Prop) (f : α → β → Option α) :
    ∀ (l : List β) {a a' : α}, P a →
      (∀ b x b', x ∈ l → P b → f b x = some b' → P b') → l.foldlM f a = some a' → P a'
  | [], a, a', ha, _, h => by
    have : a = a' := Option.some.inj h
    exact this ▸ ha
  | x :: l, a, a', ha, hf, h => by
    rw [List.foldlM_cons] at h
    obtain ⟨b, hb, hl⟩ := Option.bind_eq_some_iff.mp h
    exact foldlM_induction P f l (hf a x b List.mem_cons_self ha hb)
      (fun c y c' hy => hf c y c' (List.mem_cons_of_mem x hy)) hl

theorem foldlM_except_induction {ε : Type} (P : α → Prop) (f : α → β → Except ε α) :
    ∀ (l : List β) {a a' : α}, P a →
      (∀ b x b', x ∈ l → P b → f b x = .ok b' → P b') → l.foldlM f a = .ok a' → P a'
  | [], a, a', ha, _, h => by
    cases h
    exact ha
  | x :: l, a, a', ha, hf, h => by
    rw [List.foldlM_cons] at h
    cases hx : f a x with
    | error e =>
      rw [hx] at h
      cases h
    | ok b =>
      rw [hx] at h
      exact foldlM_except_induction P f l (hf a x b List.mem_cons_self ha hx)
        (fun c y c' hy => hf c y c' (List.mem_cons_of_mem x hy)) h

theorem mapM_except_eq_ok_iff {ε : Type} (f : α → Except ε β) (l : List α) :
    ∀ r : List β, l.mapM f = .ok r ↔ List.Forall₂ (fun a b => f a = .ok b) l r := by
  induction l with
  | nil =>
    intro r
    cases r <;> simp [pure, Except.pure, List.forall₂_nil_left_iff]
  | cons a l ih =>
    intro r
    rw [List.mapM_cons]
    cases hf : f a with
    | error e => cases r <;> simp [bind, Except.bind, hf, List.forall₂_nil_right_iff]
    | ok b =>
      cases hl : l.mapM f with
      | error e => cases r <;> simp [bind, Except.bind, ← ih, hl, hf, List.forall₂_nil_right_iff]
      | ok r' => cases r <;> simp [bind, Except.bind, pure, Except.pure, ← ih, hl, hf, List.forall₂_nil_right_iff]

theorem mapM_option_eq_some {f : α → Option β} {g : α → β} :
    ∀ l : List α, (∀ a ∈ l, f a = some (g a)) → l.mapM f = some (l.map g)
  | [], _ => rfl
  | a :: l, h => by
    rw [List.mapM_cons, h a List.mem_cons_self,
      mapM_option_eq_some l fun b hb => h b (List.mem_cons_of_mem a hb)]
    rfl

section Relation

variable (R : α → α → Prop) (hrefl : ∀ a, R a a) (htrans : ∀ a b c, R a b → R b c → R a c)
include hrefl htrans

theorem foldl_rel (f : α → β → α) (l : List β) (a : α) (hf : ∀ b x, x ∈ l → R b (f b x)) :
    R a (l.foldl f a) :=
  List.foldlRecOn l f (hrefl a) fun b hb x hx => htrans _ _ _ hb (hf b x hx)

theorem foldlM_rel (f : α → β → Option α) (l : List β) {a a' : α}
    (hf : ∀ b x b', x ∈ l → f b x = some b' → R b b') (h : l.foldlM f a = some a') : R a a' :=
  foldlM_induction (R a) f l (hrefl a) (fun b x b' hx hb hs => htrans _ _ _ hb (hf b x b' hx hs)) h

end Relation

/-! Order independence. A loop over a Go map visits its entries in an order
the runtime picks. Its result does not depend on the order when each step
keeps an invariant and two steps on distinct entries commute from every state
that keeps it. -/

/-- A fold over a list without repeats ends in the same state over every
permutation of the list, when each step keeps `P` and two steps on distinct
elements commute from every state that keeps `P`. -/
theorem foldl_perm_of_rightComm (f : α → β → α) (P : α → Prop) (hP : ∀ a x, P a → P (f a x))
    {l₁ l₂ : List β} (hp : l₁.Perm l₂) (hnd : l₁.Nodup)
    (hcomm : ∀ a, P a → ∀ x ∈ l₁, ∀ y ∈ l₁, x ≠ y → f (f a x) y = f (f a y) x) :
    ∀ a, P a → l₁.foldl f a = l₂.foldl f a := by
  induction hp with
  | nil => exact fun _ _ => rfl
  | cons x _ ih =>
    intro a ha
    exact ih (List.nodup_cons.1 hnd).2
      (fun b hb y hy z hz => hcomm b hb y (List.mem_cons_of_mem x hy) z (List.mem_cons_of_mem x hz)) (f a x)
      (hP a x ha)
  | swap x y l =>
    -- the two first steps, on distinct elements, commute
    intro a ha
    have hyx : y ≠ x := fun h => (List.nodup_cons.1 hnd).1 (h ▸ List.mem_cons_self)
    simp only [List.foldl_cons]
    rw [hcomm a ha y List.mem_cons_self x (List.mem_cons_of_mem y List.mem_cons_self) hyx]
  | trans p₁ _ ih₁ ih₂ =>
    intro a ha
    rw [ih₁ hnd hcomm a ha]
    exact ih₂ (p₁.nodup_iff.1 hnd) (fun b hb x hx y hy => hcomm b hb x (p₁.mem_iff.2 hx) y (p₁.mem_iff.2 hy)) a ha

end Fold
