import Mathlib

/-! Codecs. A decoder is lawful for an encoder when it inverts it on the values
the format admits and accepts nothing the encoder does not write: decoding
then determines the bytes, and two encodings decode alike only when they are
equal. Lawfulness passes to lists decoded element by element and to a decoder
run after another. -/

namespace Codec

variable {α β γ ε : Type}

theorem mapM_eq_ok_iff (f : α → Except ε β) (xs : List α) (ys : List β) :
    xs.mapM f = .ok ys ↔ List.Forall₂ (fun x y => f x = .ok y) xs ys := by
  induction xs generalizing ys with
  | nil => cases ys <;> simp [pure, Except.pure]
  | cons x xs ih =>
    rw [List.mapM_cons]
    cases hx : f x with
    | error e => cases ys <;> simp [bind, Except.bind, hx]
    | ok y =>
      cases ht : xs.mapM f with
      | error e => cases ys <;> simp [bind, Except.bind, ← ih, ht, hx]
      | ok ys' => cases ys <;> simp [bind, Except.bind, pure, Except.pure, ← ih, ht, hx]

@[simp] theorem ok_bind (a : α) (f : α → Except ε β) : (Except.ok a >>= f) = f a := rfl

theorem bind_eq_ok {x : Except ε α} {f : α → Except ε β} {b : β} :
    x >>= f = .ok b ↔ ∃ a, x = .ok a ∧ f a = .ok b := by
  cases x <;> simp [bind, Except.bind]

/-- `dec` inverts `enc` on the values `valid` admits, and accepts only what
`enc` writes. -/
structure Lawful (enc : α → β) (dec : β → Except ε α) (valid : α → Prop) : Prop where
  dec_enc : ∀ a, valid a → dec (enc a) = .ok a
  enc_dec : ∀ b a, dec b = .ok a → enc a = b

variable {enc : α → β} {dec : β → Except ε α} {valid : α → Prop}

theorem Lawful.mapM (h : Lawful enc dec valid) :
    Lawful (List.map enc) (fun bs => bs.mapM dec) (fun as => ∀ a ∈ as, valid a) where
  dec_enc as has := by
    rw [mapM_eq_ok_iff, List.forall₂_map_left_iff]
    induction as with
    | nil => exact .nil
    | cons a as ih =>
      exact .cons (h.dec_enc a (has a List.mem_cons_self))
        (ih fun a' ha' => has a' (List.mem_cons_of_mem _ ha'))
  enc_dec bs as hd := by
    rw [mapM_eq_ok_iff] at hd
    induction hd with
    | nil => rfl
    | cons hb _ ih => rw [List.map_cons, h.enc_dec _ _ hb, ih]

/-- A decoder run on what another decoded, for the encoders in the other order. -/
theorem Lawful.comp {enc₂ : β → γ} {dec₂ : γ → Except ε β} {valid₂ : β → Prop}
    (h₁ : Lawful enc dec valid) (h₂ : Lawful enc₂ dec₂ valid₂) :
    Lawful (enc₂ ∘ enc) (fun c => dec₂ c >>= dec) (fun a => valid a ∧ valid₂ (enc a)) where
  dec_enc a ha := by
    simp only [Function.comp_apply, h₂.dec_enc _ ha.2, bind, Except.bind, h₁.dec_enc a ha.1]
  enc_dec c a hd := by
    cases hc : dec₂ c with
    | error e => simp [hc, bind, Except.bind] at hd
    | ok b =>
      simp only [hc, bind, Except.bind] at hd
      rw [Function.comp_apply, h₁.enc_dec b a hd, h₂.enc_dec c b hc]

end Codec
