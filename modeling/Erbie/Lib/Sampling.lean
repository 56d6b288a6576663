import Mathlib

/-! Weighted sampling without replacement. A draw takes a number `r` below the
total weight and picks the first entry at which the running sum of the weights
reaches `r`; the entry is then taken out, and the next draw is made from what
is left, with a fresh seed.

`n` draws from at least `n` entries give `n` keys of the list when each
removal takes out at most one entry and the total stays positive; the keys are
distinct when each removal takes out exactly the entry drawn. -/

namespace Sampling

variable {α κ σ ε : Type}

section Select
variable (w : α → Int) (key : α → κ)

/-- The key of the first entry at which the running sum, from `sum`, reaches `r`. -/
def selectFrom (r : Int) : Int → List α → Option κ
  | _, [] => none
  | sum, a :: l => if r ≤ sum + w a then some (key a) else selectFrom r (sum + w a) l

variable {w key}

theorem selectFrom_mem {r : Int} {l : List α} {k : κ} :
    ∀ {sum : Int}, selectFrom w key r sum l = some k → k ∈ l.map key := by
  induction l with
  | nil => intro sum h; cases h
  | cons a l ih =>
    intro sum h
    rw [selectFrom] at h
    split_ifs at h
    · cases h
      exact List.mem_cons_self
    · exact List.mem_cons_of_mem _ (ih h)

variable (w key)

theorem selectFrom_isSome {r : Int} {l : List α} (hl : l ≠ []) :
    ∀ {sum : Int}, r ≤ sum + (l.map w).sum → ∃ k, selectFrom w key r sum l = some k := by
  induction l with
  | nil => exact absurd rfl hl
  | cons a l ih =>
    intro sum hr
    rw [selectFrom]
    split_ifs with ha
    · exact ⟨key a, rfl⟩
    · -- the draw lies past `a`, so something follows it
      have hne : l ≠ [] := by
        rintro rfl
        simp at hr
        exact ha hr
      rw [List.map_cons, List.sum_cons, ← add_assoc] at hr
      exact ih hne hr

/-- A draw of `r` from `l`, or `err` when the running sum never reaches it. -/
def select (err : ε) (l : List α) (r : Int) : Except ε κ :=
  match selectFrom w key r 0 l with
  | some k => .ok k
  | none => .error err

variable {w key}

theorem mem_of_select_eq_ok {err : ε} {l : List α} {r : Int} {k : κ} (h : select w key err l r = .ok k) :
    k ∈ l.map key := by
  unfold select at h
  split at h
  · rename_i hk
    cases h
    exact selectFrom_mem hk
  · cases h

theorem select_eq_ok_of_lt {err : ε} {l : List α} {r : Int} (hl : l ≠ []) (hr : r < (l.map w).sum) :
    ∃ k, select w key err l r = .ok k := by
  have h0 : r ≤ 0 + (l.map w).sum := by omega
  obtain ⟨k, hk⟩ := selectFrom_isSome w key hl h0
  exact ⟨k, by rw [select, hk]⟩

end Select

section Draws
variable (next : σ → σ) (value : σ → Nat) (total : List α → Int)
  (pick : List α → Int → Except ε κ) (remove : List α → κ → List α)

/-- `n` draws, each from the entries the draws before it left. Before each
draw the seed is replaced by `next seed`, and the draw is `value seed` modulo
the total; `none` is a total of zero, where the modulus panics. -/
def draws : Nat → σ → List α → Option (Except ε (List κ))
  | 0, _, _ => some (.ok [])
  | n + 1, seed, l =>
    let seed := next seed
    let t := total l
    if t = 0 then none
    else
      match pick l ((value seed : Int) % t) with
      | .error err => some (.error err)
      | .ok a =>
        match draws n seed (remove l a) with
        | some (.ok rest) => some (.ok (a :: rest))
        | r => r

variable {next value total pick remove}

theorem draws_succ_of_ok {n : Nat} {seed : σ} {l : List α} {a : κ} {rest : List κ}
    (ht : total l ≠ 0) (hs : pick l ((value (next seed) : Int) % total l) = .ok a)
    (hr : draws next value total pick remove n (next seed) (remove l a) = some (.ok rest)) :
    draws next value total pick remove (n + 1) seed l = some (.ok (a :: rest)) := by
  rw [draws, if_neg ht]
  simp only [hs, hr]

theorem eq_of_draws_succ {n : Nat} {seed : σ} {l : List α} {r : List κ}
    (h : draws next value total pick remove (n + 1) seed l = some (.ok r)) :
    ∃ a rest, pick l ((value (next seed) : Int) % total l) = .ok a ∧
      draws next value total pick remove n (next seed) (remove l a) = some (.ok rest) ∧ r = a :: rest := by
  rw [draws] at h
  split_ifs at h
  split at h
  · cases h
  · rename_i a hs
    split at h
    · rename_i rest hr
      cases h
      exact ⟨a, rest, hs, hr, rfl⟩
    · rename_i hne
      exact absurd h (hne r)

/-! The invariant `Inv` of the entries left: every step keeps it, and on it
the total of a non-empty list is positive and a draw below it succeeds. -/

variable (key : α → κ) (Inv : List α → Prop) (hmem : ∀ l r a, pick l r = .ok a → a ∈ l.map key)

section Count
variable (hsome : ∀ l r, Inv l → l ≠ [] → 0 ≤ r → r < total l → ∃ a, pick l r = .ok a)
  (htot : ∀ l, Inv l → l ≠ [] → 0 < total l)
include hmem hsome htot

/-- Where each removal takes out at most one entry, `n` draws from at least
`n` entries give `n` keys of the list. -/
theorem draws_ok
    (hrem : ∀ l a, Inv l → a ∈ l.map key →
      Inv (remove l a) ∧ l.length ≤ (remove l a).length + 1 ∧ ∀ b ∈ (remove l a).map key, b ∈ l.map key)
    {n : Nat} : ∀ {seed : σ} {l : List α}, Inv l → n ≤ l.length →
      ∃ r, draws next value total pick remove n seed l = some (.ok r) ∧ r.length = n ∧
        ∀ b ∈ r, b ∈ l.map key := by
  induction n with
  | zero => intro seed l _ _; exact ⟨[], rfl, rfl, by simp⟩
  | succ n ih =>
    intro seed l hl hn
    have hne : l ≠ [] := List.ne_nil_of_length_pos (by omega)
    have ht := htot l hl hne
    obtain ⟨a, ha⟩ := hsome l _ hl hne (Int.emod_nonneg _ ht.ne') (Int.emod_lt_of_pos _ ht)
    have hka := hmem l _ a ha
    obtain ⟨hl', hlen, hsub⟩ := hrem l a hl hka
    obtain ⟨rest, hr, hlen', hrest⟩ := @ih (next seed) _ hl' (by omega)
    refine ⟨a :: rest, draws_succ_of_ok ht.ne' ha hr, by rw [List.length_cons, hlen'], ?_⟩
    rintro b (_ | ⟨_, hb⟩)
    · exact hka
    · exact hsub b (hrest b hb)

end Count

section Distinct
variable [DecidableEq κ]
include hmem

/-- Where each removal takes out exactly the entry drawn, the keys drawn are
distinct keys of the list. -/
theorem nodup_of_draws
    (hrem : ∀ l a, Inv l → a ∈ l.map key → Inv (remove l a) ∧ ((remove l a).map key).Perm ((l.map key).erase a))
    {n : Nat} : ∀ {seed : σ} {l : List α} {r : List κ}, Inv l → (l.map key).Nodup →
      draws next value total pick remove n seed l = some (.ok r) → r.Nodup ∧ ∀ b ∈ r, b ∈ l.map key := by
  induction n with
  | zero =>
    intro seed l r _ _ h
    cases h
    exact ⟨List.nodup_nil, by simp⟩
  | succ n ih =>
    intro seed l r hl hnd h
    obtain ⟨a, rest, ha, hr, rfl⟩ := eq_of_draws_succ h
    have hka := hmem l _ a ha
    obtain ⟨hl', hp⟩ := hrem l a hl hka
    have hnd' : ((remove l a).map key).Nodup := hp.nodup_iff.2 (hnd.erase a)
    obtain ⟨hrn, hrest⟩ := ih hl' hnd' hr
    -- what the later draws give lies in the list without `a`
    have hsub : ∀ b ∈ rest, b ∈ (l.map key).erase a := fun b hb => hp.subset (hrest b hb)
    refine ⟨List.nodup_cons.2 ⟨fun har => (hnd.not_mem_erase) (hsub a har), hrn⟩, ?_⟩
    rintro b (_ | ⟨_, hb⟩)
    · exact hka
    · exact List.mem_of_mem_erase (hsub b hb)

end Distinct

section Exact
variable [DecidableEq κ]
  (hsome : ∀ l r, Inv l → l ≠ [] → 0 ≤ r → r < total l → ∃ a, pick l r = .ok a)
  (htot : ∀ l, Inv l → l ≠ [] → 0 < total l)
include hmem hsome htot

/-- Where each removal takes out exactly the entry drawn, `n` draws from at
least `n` entries of distinct keys give `n` distinct keys of the list. -/
theorem draws_ok_nodup
    (hrem : ∀ l a, Inv l → a ∈ l.map key → Inv (remove l a) ∧ ((remove l a).map key).Perm ((l.map key).erase a))
    {n : Nat} {seed : σ} {l : List α} (hl : Inv l) (hnd : (l.map key).Nodup) (hn : n ≤ l.length) :
    ∃ r, draws next value total pick remove n seed l = some (.ok r) ∧ r.length = n ∧ r.Nodup ∧
      ∀ b ∈ r, b ∈ l.map key := by
  -- an exact removal takes out one entry and adds no key
  have hrem' : ∀ l a, Inv l ∧ (l.map key).Nodup → a ∈ l.map key →
      (Inv (remove l a) ∧ ((remove l a).map key).Nodup) ∧ l.length ≤ (remove l a).length + 1 ∧
        ∀ b ∈ (remove l a).map key, b ∈ l.map key := by
    rintro l a ⟨hl, hnd⟩ ha
    obtain ⟨hl', hp⟩ := hrem l a hl ha
    have hlen := hp.length_eq
    rw [List.length_map, List.length_erase_of_mem ha, List.length_map] at hlen
    exact ⟨⟨hl', hp.nodup_iff.2 (hnd.erase a)⟩, by omega, fun b hb => List.mem_of_mem_erase (hp.subset hb)⟩
  obtain ⟨r, hr, hlen, -⟩ := draws_ok key (fun l => Inv l ∧ (l.map key).Nodup) hmem
    (fun l r h => hsome l r h.1) (fun l h => htot l h.1) hrem' ⟨hl, hnd⟩ hn
  obtain ⟨hrn, hsub⟩ := nodup_of_draws key Inv hmem hrem hl hnd hr
  exact ⟨r, hr, hlen, hrn, hsub⟩

end Exact

end Draws

end Sampling
