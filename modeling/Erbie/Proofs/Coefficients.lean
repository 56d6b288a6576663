import Erbie.Spec.Coefficients

/-! What the coefficient cache holds. One pass of `DeleteExpiredCoefficents`
finds the least key only while no key is `0`, and deletes it. The next pass
starts from that key, which is gone and smaller than every key left, so it
finds it again and deletes nothing: from five entries on, the loop never ends.
From at most four entries it ends at once and drops only the oldest, so a
cache that `writeBlockWithState` fills from empty keeps at most three entries
with distinct non-zero numbers. The cache is keyed by the number alone: a
second block written at a number replaces the coefficients of the first, and a
header of the first then reads the second block's coefficients. -/

namespace Erbie

namespace BlockChain

variable {β : Type} {order : Nat → List Nat → List Nat}

theorem minBlockNumberStep_of_ne_zero {m : Nat} (hm : m ≠ 0) (k : Nat) : minBlockNumberStep m k = min m k := by
  unfold minBlockNumberStep
  rw [if_neg hm]
  split_ifs <;> omega

theorem foldl_minBlockNumberStep_of_le {m : Nat} (hm : m ≠ 0) {ks : List Nat} (h : ∀ k ∈ ks, m ≤ k) :
    ks.foldl minBlockNumberStep m = m := by
  induction ks with
  | nil => rfl
  | cons k ks ih =>
    rw [List.foldl_cons, minBlockNumberStep_of_ne_zero hm, Nat.min_eq_left (h k List.mem_cons_self)]
    exact ih fun k' hk' => h k' (List.mem_cons_of_mem _ hk')

/-- From a minimum already found, a pass over keys none of which is `0` ends at
the least of that minimum and the keys. -/
theorem foldl_minBlockNumberStep_spec {m : Nat} (hm : m ≠ 0) {ks : List Nat} (h0 : 0 ∉ ks) :
    ks.foldl minBlockNumberStep m ≠ 0 ∧ (ks.foldl minBlockNumberStep m = m ∨ ks.foldl minBlockNumberStep m ∈ ks) ∧
      ks.foldl minBlockNumberStep m ≤ m ∧ ∀ k ∈ ks, ks.foldl minBlockNumberStep m ≤ k := by
  induction ks generalizing m with
  | nil => exact ⟨hm, Or.inl rfl, le_rfl, fun _ h => absurd h List.not_mem_nil⟩
  | cons k ks ih =>
    have hk : k ≠ 0 := fun h => h0 (h ▸ List.mem_cons_self)
    rw [List.foldl_cons, minBlockNumberStep_of_ne_zero hm]
    obtain ⟨hr0, hrmem, hrle, hrks⟩ := ih (m := min m k) (by omega) fun h => h0 (List.mem_cons_of_mem _ h)
    refine ⟨hr0, ?_, by omega, ?_⟩
    · rcases hrmem with hr | hr
      · rcases le_total m k with hmk | hmk
        · exact Or.inl (by omega)
        · exact Or.inr (List.mem_cons.2 (Or.inl (by omega)))
      · exact Or.inr (List.mem_cons_of_mem _ hr)
    · intro k' hk'
      rcases List.mem_cons.1 hk' with rfl | hk'
      · omega
      · exact hrks k' hk'

theorem foldl_minBlockNumberStep_zero {ks : List Nat} (h0 : 0 ∉ ks) (hne : ks ≠ []) :
    ks.foldl minBlockNumberStep 0 ∈ ks ∧ ∀ k ∈ ks, ks.foldl minBlockNumberStep 0 ≤ k := by
  obtain ⟨k, ks, rfl⟩ := List.exists_cons_of_ne_nil hne
  have hk : k ≠ 0 := fun h => h0 (h ▸ List.mem_cons_self)
  rw [List.foldl_cons, show minBlockNumberStep 0 k = k from if_pos rfl]
  obtain ⟨-, hrmem, hrle, hrks⟩ := foldl_minBlockNumberStep_spec hk fun h => h0 (List.mem_cons_of_mem _ h)
  refine ⟨?_, ?_⟩
  · rcases hrmem with hr | hr
    · exact List.mem_cons.2 (Or.inl hr)
    · exact List.mem_cons_of_mem _ hr
  · intro k' hk'
    rcases List.mem_cons.1 hk' with rfl | hk'
    · exact hrle
    · exact hrks k' hk'

/-! Deleting a key from a map. -/

theorem filter_key_ne_of_forall {c : List (Nat × β)} {m : Nat} (h : ∀ e ∈ c, e.1 ≠ m) :
    c.filter (fun e => e.1 ≠ m) = c :=
  List.filter_eq_self.2 fun e he => decide_eq_true (h e he)

theorem length_filter_key_ne {c : List (Nat × β)} (hnd : (c.map Prod.fst).Nodup) {r : Nat}
    (hr : r ∈ c.map Prod.fst) : (c.filter fun e => e.1 ≠ r).length + 1 = c.length := by
  induction c with
  | nil => exact absurd hr List.not_mem_nil
  | cons e c ih =>
    rw [List.map_cons, List.nodup_cons] at hnd
    by_cases he : e.1 = r
    · have hc : ∀ e' ∈ c, e'.1 ≠ r := fun e' he' h => hnd.1 (he ▸ h ▸ List.mem_map_of_mem he')
      rw [List.filter_cons_of_neg (by simpa using he), filter_key_ne_of_forall hc, List.length_cons]
    · have hr' : r ∈ c.map Prod.fst := by
        rcases List.mem_cons.1 hr with h | h
        · exact absurd h.symm he
        · exact h
      rw [List.filter_cons_of_pos (by simpa using he), List.length_cons, List.length_cons, ih hnd.2 hr']

theorem lookup_of_mem {c : List (Nat × β)} (hnd : (c.map Prod.fst).Nodup) {k : Nat} {b : β} (h : (k, b) ∈ c) :
    c.lookup k = some b := by
  induction c with
  | nil => exact absurd h List.not_mem_nil
  | cons e c ih =>
    rw [List.map_cons, List.nodup_cons] at hnd
    obtain ⟨k', b'⟩ := e
    rcases List.mem_cons.1 h with heq | hmem
    · cases heq
      simp
    · have hne : k ≠ k' := fun hk => hnd.1 (List.mem_map.2 ⟨(k, b), hmem, hk⟩)
      rw [List.lookup_cons, beq_false_of_ne hne]
      exact ih hnd.2 hmem

/-! The trimming loop, one pass at a time. -/

theorem deleteExpiredLoop_of_le {c : List (Nat × β)} (h : c.length ≤ expired) (fuel pass m : Nat) :
    deleteExpiredLoop order (fuel + 1) pass m c = some c := by
  rw [deleteExpiredLoop, if_pos h]

theorem deleteExpiredLoop_of_lt {c : List (Nat × β)} (h : expired < c.length) (fuel pass m : Nat) :
    deleteExpiredLoop order (fuel + 1) pass m c =
      deleteExpiredLoop order fuel (pass + 1) ((order pass (c.map Prod.fst)).foldl minBlockNumberStep m)
        (c.filter fun e => e.1 ≠ (order pass (c.map Prod.fst)).foldl minBlockNumberStep m) := by
  rw [deleteExpiredLoop, if_neg (by omega)]

section
variable (horder : ∀ pass ks, (order pass ks).Perm ks)
include horder

theorem firstPass_spec {c : List (Nat × β)} (h0 : 0 ∉ c.map Prod.fst) (hne : c ≠ []) (pass : Nat) :
    (order pass (c.map Prod.fst)).foldl minBlockNumberStep 0 ∈ c.map Prod.fst ∧
      ∀ e ∈ c, (order pass (c.map Prod.fst)).foldl minBlockNumberStep 0 ≤ e.1 := by
  have hp := horder pass (c.map Prod.fst)
  obtain ⟨hmem, hle⟩ := @foldl_minBlockNumberStep_zero (order pass (c.map Prod.fst))
    (fun h => h0 (hp.mem_iff.1 h)) (fun h => hne (by simpa [h] using hp.length_eq.symm))
  exact ⟨hp.mem_iff.1 hmem, fun e he => hle e.1 (hp.mem_iff.2 (List.mem_map_of_mem he))⟩

/-- Once the carried minimum is below every key left and more than `expired`
entries are left, no pass deletes anything, whatever the fuel. -/
theorem deleteExpiredLoop_stuck {c : List (Nat × β)} {m : Nat} (hm : m ≠ 0) (hlt : ∀ e ∈ c, m < e.1)
    (hlen : expired < c.length) : ∀ fuel pass, deleteExpiredLoop order fuel pass m c = none
  | 0, _ => rfl
  | fuel + 1, pass => by
    have hfold : (order pass (c.map Prod.fst)).foldl minBlockNumberStep m = m :=
      foldl_minBlockNumberStep_of_le hm fun k hk => by
        obtain ⟨e, he, rfl⟩ := List.mem_map.1 ((horder pass _).mem_iff.1 hk)
        exact (hlt e he).le
    rw [deleteExpiredLoop_of_lt hlen, hfold, filter_key_ne_of_forall fun e he => (hlt e he).ne']
    exact deleteExpiredLoop_stuck hm hlt hlen fuel (pass + 1)

/-- `DeleteExpiredCoefficents` on a map of at most four entries with distinct
keys none of which is `0` returns within two passes: a map of at most three
entries as it is, and otherwise the map without its least key, so every entry
with an older one beside it stays. -/
theorem deleteExpiredCoefficents_of_length_le {c : List (Nat × β)} (hnd : (c.map Prod.fst).Nodup)
    (h0 : 0 ∉ c.map Prod.fst) (hlen : c.length ≤ expired + 1) {fuel : Nat} (hfuel : 2 ≤ fuel) :
    ∃ c', deleteExpiredCoefficents order fuel c = some c' ∧ c'.Sublist c ∧ c'.length = min expired c.length ∧
      (c.length ≤ expired → c' = c) ∧ ∀ e ∈ c, (∃ e' ∈ c, e'.1 < e.1) → e ∈ c' := by
  obtain ⟨fuel, rfl⟩ : ∃ f, fuel = f + 2 := ⟨fuel - 2, by omega⟩
  unfold deleteExpiredCoefficents
  by_cases hle : c.length ≤ expired
  · rw [deleteExpiredLoop_of_le hle]
    exact ⟨c, rfl, List.Sublist.refl c, (Nat.min_eq_right hle).symm, fun _ => rfl, fun e he _ => he⟩
  · have hne : c ≠ [] := fun h => by simp [h] at hle
    rw [deleteExpiredLoop_of_lt (by omega)]
    obtain ⟨hmem, hminle⟩ := firstPass_spec horder h0 hne 0
    set r := (order 0 (c.map Prod.fst)).foldl minBlockNumberStep 0
    have hrest := length_filter_key_ne hnd hmem
    rw [deleteExpiredLoop_of_le (by omega)]
    refine ⟨_, rfl, List.filter_sublist, by omega, fun h => absurd h hle, fun e he ⟨e', he', hlt⟩ => ?_⟩
    -- the deleted key is the least, so a key with an older one beside it is not it
    have hre : e.1 ≠ r := fun h => absurd (hminle e' he') (by omega)
    exact List.mem_filter.2 ⟨he, decide_eq_true hre⟩

/-- `DeleteExpiredCoefficents` never returns on a map of five or more entries
with distinct keys none of which is `0`, whatever order each pass visits the
keys in: the first pass deletes the least key, and no later pass deletes
anything. -/
theorem deleteExpiredCoefficents_never_returns {c : List (Nat × β)} (hnd : (c.map Prod.fst).Nodup)
    (h0 : 0 ∉ c.map Prod.fst) (hlen : expired + 2 ≤ c.length) (fuel : Nat) :
    deleteExpiredCoefficents order fuel c = none := by
  cases fuel with
  | zero => rfl
  | succ fuel =>
    have hne : c ≠ [] := fun h => by simp [h] at hlen
    unfold deleteExpiredCoefficents
    rw [deleteExpiredLoop_of_lt (by omega)]
    obtain ⟨hmem, hle⟩ := firstPass_spec horder h0 hne 0
    set r := (order 0 (c.map Prod.fst)).foldl minBlockNumberStep 0
    have hr0 : r ≠ 0 := fun h => h0 (h ▸ hmem)
    have hrest := length_filter_key_ne hnd hmem
    refine deleteExpiredLoop_stuck horder hr0 (fun e he => ?_) (by omega) fuel 1
    rw [List.mem_filter, decide_eq_true_iff] at he
    exact lt_of_le_of_ne (hle e he.1) (Ne.symm he.2)

end

/-! The cache over a run of `writeBlockWithState`. Block numbers start at `1`:
the genesis block is never written through it. -/

/-- What the cache keeps between writes: distinct non-zero numbers, at most
`expired` of them. -/
structure CacheInv (coefficients : List (Nat × β)) : Prop where
  nodup : (coefficients.map Prod.fst).Nodup
  pos : 0 ∉ coefficients.map Prod.fst
  length : coefficients.length ≤ expired

theorem CacheInv.nil : CacheInv ([] : List (Nat × β)) := ⟨List.nodup_nil, List.not_mem_nil, Nat.zero_le _⟩

theorem map_fst_setCoefficients (c : List (Nat × β)) (number : Nat) (b : β) :
    (setCoefficients c number b).map Prod.fst = number :: (c.map Prod.fst).filter (· ≠ number) := by
  simp only [setCoefficients, List.map_cons, List.filter_map]
  rfl

theorem CacheInv.setCoefficients {c : List (Nat × β)} (hinv : CacheInv c) {number : Nat} (hn : number ≠ 0) (b : β) :
    ((setCoefficients c number b).map Prod.fst).Nodup ∧ 0 ∉ (setCoefficients c number b).map Prod.fst ∧
      (setCoefficients c number b).length ≤ expired + 1 := by
  rw [map_fst_setCoefficients]
  refine ⟨List.nodup_cons.2 ⟨by simp, hinv.nodup.filter _⟩, ?_, ?_⟩
  · simp only [List.mem_cons, List.mem_filter, not_or]
    exact ⟨Ne.symm hn, fun h => hinv.pos h.1⟩
  · have := hinv.length
    have := List.length_filter_le (fun e : Nat × β => decide (e.1 ≠ number)) c
    simp only [BlockChain.setCoefficients, List.length_cons]
    omega

/-- What the trimming keeps of a map with distinct keys none of which is `0`
keeps `CacheInv`. -/
theorem CacheInv.of_sublist {c c' : List (Nat × β)} (hnd : (c.map Prod.fst).Nodup) (h0 : 0 ∉ c.map Prod.fst)
    (hsub : c'.Sublist c) (hlen : c'.length = min expired c.length) : CacheInv c' :=
  ⟨hnd.sublist (hsub.map _), fun h => h0 ((hsub.map _).subset h), hlen ▸ Nat.min_le_left _ _⟩

/-- One write of `writeBlockWithState`, at a block number from `1`. -/
def CacheWrite (order : Nat → List Nat → List Nat) (fuel : Nat) (c c' : List (Nat × Coefficients)) : Prop :=
  ∃ number state reorg parentIsHead, number ≠ 0 ∧
    writeBlockCoefficients order fuel c number state reorg parentIsHead = some c'

section
variable (horder : ∀ pass ks, (order pass ks).Perm ks)
include horder

/-- A write to a cache that keeps `CacheInv` returns, with two passes of fuel,
and keeps it. -/
theorem CacheInv.writeBlockCoefficients {c : List (Nat × Coefficients)} (hinv : CacheInv c) {number : Nat}
    (hn : number ≠ 0) (state : StateDB) {fuel : Nat} (hfuel : 2 ≤ fuel) (reorg parentIsHead : Bool) :
    ∃ c', writeBlockCoefficients order fuel c number state reorg parentIsHead = some c' ∧ CacheInv c' := by
  obtain ⟨hnd, h0, hlen⟩ := hinv.setCoefficients hn (validatorsCoe state)
  obtain ⟨c', hc', hsub, hlen', -⟩ := deleteExpiredCoefficents_of_length_le horder hnd h0 hlen hfuel
  have hinv' : CacheInv c' := .of_sublist hnd h0 hsub hlen'
  rw [BlockChain.writeBlockCoefficients, hc', Option.map_some]
  split_ifs
  · exact ⟨_, rfl, CacheInv.nil⟩
  · exact ⟨_, rfl, hinv'⟩

theorem CacheInv.of_run {fuel : Nat} (hfuel : 2 ≤ fuel) {c : List (Nat × Coefficients)}
    (hrun : Relation.ReflTransGen (CacheWrite order fuel) [] c) : CacheInv c := by
  induction hrun with
  | refl => exact CacheInv.nil
  | tail _ hstep ih =>
    obtain ⟨number, state, reorg, parentIsHead, hn, hw⟩ := hstep
    obtain ⟨c', hc', hinv'⟩ := ih.writeBlockCoefficients horder hn state hfuel reorg parentIsHead
    rw [hw, Option.some.injEq] at hc'
    exact hc' ▸ hinv'

/-- Over every run of `writeBlockWithState` from the empty cache, with block
numbers from `1` and any order of the passes, `DeleteExpiredCoefficents`
returns within two passes on the map the next write hands it, and keeps
exactly its `min 3 n` entries with the largest keys: a sublist of that length,
and every entry it drops is older than every entry it keeps. -/
theorem deleteExpiredCoefficents_keeps_newest {fuel : Nat} (hfuel : 2 ≤ fuel) {c : List (Nat × Coefficients)}
    (hrun : Relation.ReflTransGen (CacheWrite order fuel) [] c) {number : Nat} (hn : number ≠ 0)
    (b : Coefficients) :
    ∃ c', deleteExpiredCoefficents order fuel (setCoefficients c number b) = some c' ∧
      c'.Sublist (setCoefficients c number b) ∧ c'.length = min expired (setCoefficients c number b).length ∧
      ∀ e ∈ setCoefficients c number b, e ∉ c' → ∀ e' ∈ c', e.1 < e'.1 := by
  obtain ⟨hnd, h0, hlen⟩ := (CacheInv.of_run horder hfuel hrun).setCoefficients hn b
  obtain ⟨c', hc', hsub, hlen', -, hold⟩ := deleteExpiredCoefficents_of_length_le horder hnd h0 hlen hfuel
  refine ⟨c', hc', hsub, hlen', fun e he hnot e' he' => ?_⟩
  -- a dropped entry has no older one beside it, and no other entry shares its key
  have hmin : e.1 ≤ e'.1 := not_lt.1 fun hlt => hnot (hold e he ⟨e', hsub.subset he', hlt⟩)
  have hne : e.1 ≠ e'.1 := fun heq => hnot (List.inj_on_of_nodup_map hnd he (hsub.subset he') heq ▸ he')
  exact lt_of_le_of_ne hmin hne

/-- A block written at a number no older than any in the cache, without moving
the head onto another branch, leaves its own coefficients under that number,
and every header with that number, whatever its state, is then weighed by
them: the weights of a block's validators come from the last block written at
its number, not from its own state. -/
theorem validatorWeights_after_write {c : List (Nat × Coefficients)} (hinv : CacheInv c) {number : Nat}
    (hn : number ≠ 0) (hnewest : ∀ k ∈ c.map Prod.fst, k ≤ number) (state : StateDB) {fuel : Nat}
    (hfuel : 2 ≤ fuel) {reorg parentIsHead : Bool} (hside : reorg = false ∨ parentIsHead = true) :
    ∃ c', writeBlockCoefficients order fuel c number state reorg parentIsHead = some c' ∧ CacheInv c' ∧
      ∀ db : StateDB, validatorWeights c' number db =
        db.validators.map fun v => ((validatorsCoe state).lookup v.addr).getD 0 := by
  obtain ⟨hnd, h0, hlen⟩ := hinv.setCoefficients hn (validatorsCoe state)
  obtain ⟨c', hc', hsub, hlen', hkeep, hold⟩ := deleteExpiredCoefficents_of_length_le horder hnd h0 hlen hfuel
  have hinv' : CacheInv c' := .of_sublist hnd h0 hsub hlen'
  -- the new entry stays: either nothing is deleted, or an older entry is beside it
  have hmem : (number, validatorsCoe state) ∈ c' := by
    by_cases hold' : ∃ e' ∈ c, e'.1 ≠ number
    · obtain ⟨e', he', hne'⟩ := hold'
      refine hold _ List.mem_cons_self ⟨e', List.mem_cons_of_mem _ (List.mem_filter.2 ⟨he', by simpa using hne'⟩), ?_⟩
      exact lt_of_le_of_ne (hnewest e'.1 (List.mem_map_of_mem he')) hne'
    · simp only [not_exists, not_and, not_not] at hold'
      have hnil : (c.filter fun e => e.1 ≠ number) = [] := List.filter_eq_nil_iff.2 fun e he => by simpa using hold' e he
      rw [hkeep (by rw [setCoefficients, List.length_cons, hnil]; decide)]
      exact List.mem_cons_self
  have hwrite : writeBlockCoefficients order fuel c number state reorg parentIsHead = some c' := by
    rw [BlockChain.writeBlockCoefficients, hc', Option.map_some, if_neg (by cases hside <;> simp [*])]
  refine ⟨c', hwrite, hinv', fun db => ?_⟩
  rw [validatorWeights, lookup_of_mem hinv'.nodup hmem]

end

/-- The cache after blocks `1`, `2` and `3`, with no validators. -/
def threeBlockCache : List (Nat × Coefficients) := [(3, []), (2, []), (1, [])]

/-- Blocks `1`, `2` and `3` written in turn, each as the new head, build it. -/
theorem three_writes_build_a_cache : Relation.ReflTransGen (CacheWrite (fun _ ks => ks) 2) [] threeBlockCache :=
  .tail (.tail (.single ⟨1, StateDB.empty, false, true, one_ne_zero, rfl⟩)
    ⟨2, StateDB.empty, false, true, two_ne_zero, rfl⟩) ⟨3, StateDB.empty, false, true, three_ne_zero, rfl⟩

/-- The write of block `4` hands the trimming four entries; it keeps the
three newest. -/
theorem fourth_write_keeps_the_newest_three :
    ∃ c', deleteExpiredCoefficents (fun _ ks => ks) 2 (setCoefficients threeBlockCache 4 []) = some c' ∧
      c'.Sublist (setCoefficients threeBlockCache 4 []) ∧
      c'.length = min expired (setCoefficients threeBlockCache 4 []).length ∧
      ∀ e ∈ setCoefficients threeBlockCache 4 [], e ∉ c' → ∀ e' ∈ c', e.1 < e'.1 :=
  deleteExpiredCoefficents_keeps_newest (fun _ _ => List.Perm.refl _) le_rfl three_writes_build_a_cache
    four_ne_zero []

/-- A state whose validator list holds `10`, with the coefficient `coe`. -/
def oneValidatorState (coe : UInt8) : StateDB :=
  ⟨fun a => if a = ValidatorStorageAddress then
      some { staker := some { validators := [⟨10, ValidatorBase, zeroAddress, []⟩] } }
    else if a = 10 then some { worm := some { coefficient := coe } } else none⟩

/-- Block `A` at number `1`, where `10` keeps the coefficient `70`, extends the
head and is written first. Its sibling `B`, where `10` has `20`, has the same
total difficulty and loses the coin, so it stays on a side branch and the head
is still `A`. The header of `A` is then weighed by `B`'s coefficient, where an
empty cache weighs it by `A`'s own. -/
theorem side_block_reweighs_the_canonical_block :
    writeBlockCoefficients (fun _ ks => ks) 2 [] 1 (oneValidatorState 70) true true =
        some [(1, validatorsCoe (oneValidatorState 70))] ∧
      reorg 2 2 1 1 false false false = false ∧
      ∃ c, writeBlockCoefficients (fun _ ks => ks) 2 [(1, validatorsCoe (oneValidatorState 70))] 1
          (oneValidatorState 20) false false = some c ∧
        validatorWeights c 1 (oneValidatorState 70) = [20] ∧ validatorWeights [] 1 (oneValidatorState 70) = [70] := by
  obtain ⟨c, hc, -, hw⟩ := validatorWeights_after_write (fun _ _ => List.Perm.refl _)
    (c := [(1, validatorsCoe (oneValidatorState 70))]) ⟨by decide, by decide, by decide⟩ one_ne_zero (by decide) (oneValidatorState 20) (le_refl 2) (Or.inl rfl)
  exact ⟨by decide +kernel, by decide, c, hc, by rw [hw]; decide +kernel, by decide +kernel⟩

end BlockChain

end Erbie
