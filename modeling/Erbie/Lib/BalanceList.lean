import Mathlib

/-! A keyed balance list. Each entry carries a key, an integer balance and the
block number of its last credit. Crediting a present key adds to the first
entry with that key and crediting an absent key appends a new entry; debiting
subtracts from the first entry with the key and drops the entry once the debit
reaches its balance. Lookups read the first entry with the key, so with
duplicate-free keys the list is a finite map from keys to balances. -/

namespace BalanceList

structure Entry (κ : Type) where
  addr : κ
  balance : Int
  blockNumber : Nat
deriving DecidableEq, Repr

variable {κ : Type}

def keys (l : List (Entry κ)) : List κ := l.map Entry.addr

def total (l : List (Entry κ)) : Int := (l.map Entry.balance).sum

@[simp] theorem keys_nil : keys ([] : List (Entry κ)) = [] := rfl

@[simp] theorem keys_cons (e : Entry κ) (l : List (Entry κ)) : keys (e :: l) = e.addr :: keys l := rfl

@[simp] theorem total_nil : total ([] : List (Entry κ)) = 0 := rfl

@[simp] theorem total_cons (e : Entry κ) (l : List (Entry κ)) :
    total (e :: l) = e.balance + total l := by
  simp [total]

theorem total_nonneg {l : List (Entry κ)} (h : ∀ e ∈ l, 0 ≤ e.balance) : 0 ≤ total l := by
  induction l with
  | nil => simp
  | cons e l ih =>
    rw [total_cons]
    have he := h e List.mem_cons_self
    have hl := ih fun e' he' => h e' (List.mem_cons_of_mem e he')
    omega

theorem le_total_of_mem {l : List (Entry κ)} (h : ∀ e ∈ l, 0 ≤ e.balance) {e : Entry κ} (he : e ∈ l) :
    e.balance ≤ total l := by
  induction l with
  | nil => cases he
  | cons e' l ih =>
    have hl : ∀ e ∈ l, 0 ≤ e.balance := fun e'' he'' => h e'' (List.mem_cons_of_mem e' he'')
    rw [total_cons]
    rcases List.mem_cons.mp he with rfl | he
    · have := total_nonneg hl
      omega
    · have := ih hl he
      have := h e' List.mem_cons_self
      omega

theorem ediv_add_ediv_le (x y d : Int) (hd : 0 < d) : x / d + y / d ≤ (x + y) / d := by
  rw [Int.le_ediv_iff_mul_le hd, Int.add_mul]
  have hx := Int.ediv_mul_le x (Int.ne_of_gt hd)
  have hy := Int.ediv_mul_le y (Int.ne_of_gt hd)
  omega

/-- Shares of `x` in proportion to the balances, each rounded down, add up to
at most the rounded share of the total. -/
theorem sum_ediv_le (x d : Int) (hd : 0 < d) (l : List (Entry κ)) :
    (l.map fun e => x * e.balance / d).sum ≤ x * total l / d := by
  induction l with
  | nil => simp
  | cons e l ih =>
    calc (List.map (fun e => x * e.balance / d) (e :: l)).sum
        = x * e.balance / d + (l.map fun e => x * e.balance / d).sum := List.sum_cons
      _ ≤ x * e.balance / d + x * total l / d := Int.add_le_add_left ih _
      _ ≤ (x * e.balance + x * total l) / d := ediv_add_ediv_le _ _ _ hd
      _ = x * total (e :: l) / d := by rw [total_cons, Int.mul_add]

variable [DecidableEq κ]

def credit : List (Entry κ) → κ → Int → Nat → List (Entry κ)
  | [], a, b, n => [⟨a, b, n⟩]
  | e :: l, a, b, n =>
      if e.addr = a then { e with balance := e.balance + b, blockNumber := n } :: l
      else e :: credit l a b n

def debit : List (Entry κ) → κ → Int → List (Entry κ)
  | [], _, _ => []
  | e :: l, a, b =>
      if e.addr = a then (if b < e.balance then { e with balance := e.balance - b } :: l else l)
      else e :: debit l a b

/-- The balance of the first entry with key `a`, if there is one. -/
def lookup : List (Entry κ) → κ → Option Int
  | [], _ => none
  | e :: l, a => if e.addr = a then some e.balance else lookup l a

def balanceOf (l : List (Entry κ)) (a : κ) : Int := (lookup l a).getD 0

@[simp] theorem lookup_nil (a : κ) : lookup ([] : List (Entry κ)) a = none := rfl

theorem lookup_cons (e : Entry κ) (l : List (Entry κ)) (a : κ) :
    lookup (e :: l) a = if e.addr = a then some e.balance else lookup l a := rfl

theorem lookup_isSome_iff (l : List (Entry κ)) (a : κ) : (lookup l a).isSome ↔ a ∈ keys l := by
  induction l with
  | nil => simp
  | cons e l ih =>
    by_cases h : e.addr = a
    · simp [lookup_cons, h]
    · simp [lookup_cons, h, ih, Ne.symm h]

theorem lookup_eq_none_iff (l : List (Entry κ)) (a : κ) : lookup l a = none ↔ a ∉ keys l := by
  rw [← lookup_isSome_iff, Option.not_isSome_iff_eq_none]

theorem find?_map_balance (l : List (Entry κ)) (a : κ) :
    (l.find? fun e => e.addr = a).map Entry.balance = lookup l a := by
  induction l with
  | nil => rfl
  | cons e l ih =>
    by_cases h : e.addr = a
    · simp [lookup_cons, h]
    · simp [lookup_cons, h, ih]

theorem lookup_of_mem {l : List (Entry κ)} (h : (keys l).Nodup) {e : Entry κ} (he : e ∈ l) :
    lookup l e.addr = some e.balance := by
  induction l with
  | nil => simp at he
  | cons e' l ih =>
    rw [lookup_cons]
    rcases List.mem_cons.mp he with rfl | he
    · simp
    · have hne : e'.addr ≠ e.addr := fun heq =>
        (List.nodup_cons.mp h).1 (heq ▸ List.mem_map_of_mem he)
      rw [if_neg hne]
      exact ih (List.nodup_cons.mp h).2 he

theorem lookup_credit (l : List (Entry κ)) (a c : κ) (b : Int) (n : Nat) :
    lookup (credit l a b n) c = if c = a then some ((lookup l a).getD 0 + b) else lookup l c := by
  induction l with
  | nil => by_cases h : c = a <;> simp [credit, lookup, h, Ne.symm]
  | cons e l ih =>
    by_cases hea : e.addr = a
    · by_cases hca : c = a
      · subst hca; simp [credit, lookup, hea]
      · simp [credit, lookup, hea, hca, Ne.symm hca]
    · simp only [credit, hea, if_false, lookup_cons, ih]
      by_cases hca : c = a
      · subst hca; simp [hea]
      · simp [hca]

theorem keys_credit (l : List (Entry κ)) (a : κ) (b : Int) (n : Nat) :
    keys (credit l a b n) = if a ∈ keys l then keys l else keys l ++ [a] := by
  induction l with
  | nil => simp [credit]
  | cons e l ih =>
    by_cases hea : e.addr = a
    · simp [credit, hea]
    · by_cases hmem : a ∈ keys l
      · simp [credit, hea, ih, hmem]
      · simp [credit, hea, ih, hmem, Ne.symm hea]

theorem nodup_credit {l : List (Entry κ)} (h : (keys l).Nodup) (a : κ) (b : Int) (n : Nat) :
    (keys (credit l a b n)).Nodup := by
  rw [keys_credit]
  split_ifs with hmem
  · exact h
  · rw [← List.concat_eq_append]
    exact h.concat hmem

theorem total_credit (l : List (Entry κ)) (a : κ) (b : Int) (n : Nat) :
    total (credit l a b n) = total l + b := by
  induction l with
  | nil => simp [credit]
  | cons e l ih =>
    by_cases hea : e.addr = a
    · simp only [credit, hea, if_true, total_cons]; omega
    · simp only [credit, hea, if_false, total_cons, ih]; omega

theorem keys_debit_sublist (l : List (Entry κ)) (a : κ) (b : Int) :
    (keys (debit l a b)).Sublist (keys l) := by
  induction l with
  | nil => simp [debit]
  | cons e l ih =>
    by_cases hea : e.addr = a
    · by_cases hb : b < e.balance
      · simp [debit, hea, hb]
      · simp only [debit, hea, hb, if_true, if_false, keys_cons]
        exact List.sublist_cons_self _ _
    · simp only [debit, hea, if_false, keys_cons]
      exact ih.cons_cons _

theorem nodup_debit {l : List (Entry κ)} (h : (keys l).Nodup) (a : κ) (b : Int) :
    (keys (debit l a b)).Nodup :=
  (keys_debit_sublist l a b).nodup h

/-- Debiting a key present once lowers its balance, or drops the entry when
the debit reaches the balance; other keys keep their balances. -/
theorem lookup_debit {l : List (Entry κ)} (h : (keys l).Nodup) (a c : κ) (b : Int) :
    lookup (debit l a b) c =
      if c = a then (lookup l a).bind (fun x => if b < x then some (x - b) else none)
      else lookup l c := by
  induction l with
  | nil => simp [debit]
  | cons e l ih =>
    have hnd : (keys l).Nodup := (List.nodup_cons.mp h).2
    have hnot : e.addr ∉ keys l := (List.nodup_cons.mp h).1
    by_cases hea : e.addr = a
    · subst hea
      by_cases hca : c = e.addr
      · subst hca
        have hnone : lookup l e.addr = none := (lookup_eq_none_iff l e.addr).mpr hnot
        by_cases hb : b < e.balance <;> simp [debit, lookup_cons, hb, hnone]
      · have hce : e.addr ≠ c := Ne.symm hca
        by_cases hb : b < e.balance <;> simp [debit, lookup_cons, hb, hca, hce]
    · simp only [debit, hea, if_false, lookup_cons, ih hnd]
      by_cases hca : c = a
      · subst hca; simp [hea]
      · simp [hca]

theorem total_debit {l : List (Entry κ)} (h : (keys l).Nodup) (a : κ) (b : Int) :
    total (debit l a b) =
      total l - ((lookup l a).elim 0 (fun x => if b < x then b else x)) := by
  induction l with
  | nil => simp [debit]
  | cons e l ih =>
    have hnd : (keys l).Nodup := (List.nodup_cons.mp h).2
    by_cases hea : e.addr = a
    · by_cases hb : b < e.balance
      · simp only [debit, hea, hb, if_true, total_cons, lookup_cons, Option.elim]; omega
      · simp only [debit, hea, hb, if_true, if_false, total_cons, lookup_cons, Option.elim]; omega
    · simp only [debit, hea, if_false, total_cons, lookup_cons, ih hnd]; omega

theorem total_eq_balanceOf_add {l : List (Entry κ)} (h : (keys l).Nodup) (a : κ) :
    total l = balanceOf l a + total (l.filter (·.addr ≠ a)) := by
  induction l with
  | nil => rfl
  | cons e l ih =>
    have hnd : (keys l).Nodup := (List.nodup_cons.mp h).2
    by_cases hea : e.addr = a
    · -- the other keys are all of `l`'s, for `a` is `e`'s key and `l` does not hold it
      have hrest : l.filter (·.addr ≠ a) = l := List.filter_eq_self.mpr fun e' he' => by
        have hne : e'.addr ≠ e.addr := fun heq =>
          (List.nodup_cons.mp h).1 (heq ▸ List.mem_map_of_mem he')
        simpa [← hea] using hne
      rw [List.filter_cons_of_neg (by simpa using hea), hrest, total_cons, balanceOf, lookup_cons,
        if_pos hea]
      rfl
    · rw [List.filter_cons_of_pos (by simpa using hea), total_cons, total_cons, balanceOf, lookup_cons,
        if_neg hea, ← balanceOf, ih hnd]
      omega

theorem filter_addr_eq_of_mem {l : List (Entry κ)} (h : (keys l).Nodup) {e : Entry κ} (he : e ∈ l) :
    l.filter (·.addr = e.addr) = [e] := by
  induction l with
  | nil => cases he
  | cons e' l ih =>
    have hnot : e'.addr ∉ keys l := (List.nodup_cons.mp h).1
    rcases List.mem_cons.mp he with rfl | he
    · -- no later entry has the key of the first
      have hrest : l.filter (·.addr = e.addr) = [] := List.filter_eq_nil_iff.mpr fun e'' he'' heq =>
        hnot ((of_decide_eq_true heq) ▸ List.mem_map_of_mem he'')
      rw [List.filter_cons_of_pos (by simp), hrest]
    · have hne : e'.addr ≠ e.addr := fun heq => hnot (heq ▸ List.mem_map_of_mem he)
      rw [List.filter_cons_of_neg (by simpa using hne), ih (List.nodup_cons.mp h).2 he]

end BalanceList
