import Erbie.Spec.Committee
import Erbie.Proofs.ValidatorList
import Erbie.Proofs.MakeUp
import Erbie.Lib.Fold

/-! The size of the committee and of the staker draw. `RandomValidatorV4`
hands the draw a list of `min k n` validators or more, all of the list and one
entry each, and the draw of `k` from it gives `k` addresses of the list, every
removal taking out at most the entry drawn. The staker draw takes out exactly
the staker drawn, so its addresses are distinct. So are the validators' when
no entry has another's address as its proxy: `StakeBalance` of the drawn
address then reads its own entry, and `RemoveValidator` takes all of it. -/

namespace Erbie

theorem find?_key_eq {α κ : Type} [DecidableEq κ] {key : α → κ} {l : List α} (hnd : (l.map key).Nodup)
    {v : α} (hv : v ∈ l) : l.find? (fun u => key u = key v) = some v := by
  induction l with
  | nil => cases hv
  | cons u us ih =>
    rw [List.map_cons, List.nodup_cons] at hnd
    by_cases hu : key u = key v
    · -- `u` holds the key, and no later entry does
      have huv : u = v := by
        rcases List.mem_cons.1 hv with rfl | hv
        · rfl
        · exact absurd (hu ▸ List.mem_map_of_mem hv) hnd.1
      rw [List.find?_cons_of_pos (by simpa using hu), huv]
    · have hv' : v ∈ us := (List.mem_cons.1 hv).resolve_left fun h => hu (h ▸ rfl)
      rw [List.find?_cons_of_neg (by simpa using hu)]
      exact ih hnd.2 hv'

namespace ValidatorList

/-- No entry has another entry's address as its proxy. -/
def ProxiesApart (vl : List Validator) : Prop :=
  ∀ v ∈ vl, ∀ w ∈ vl, v.proxy = w.addr → v.addr = w.addr

theorem ProxiesApart.of_subset {vl vl' : List Validator} (h : ProxiesApart vl) (hsub : ∀ v ∈ vl', v ∈ vl) :
    ProxiesApart vl' :=
  fun v hv w hw => h v (hsub v hv) w (hsub w hw)

theorem find?_eq_of_proxiesApart {vl : List Validator} (hnd : (vl.map Validator.addr).Nodup) {v : Validator}
    (hv : v ∈ vl) (hp : ∀ w ∈ vl, w.proxy = v.addr → w.addr = v.addr) : find? vl v.addr = some v := by
  induction vl with
  | nil => cases hv
  | cons u us ih =>
    rw [List.map_cons, List.nodup_cons] at hnd
    rcases List.mem_cons.1 hv with rfl | hv'
    · exact List.find?_cons_of_pos (by simp)
    · -- `u` is another entry: neither its address nor its proxy is `v`'s address
      have hu : u.addr ≠ v.addr := fun h => hnd.1 (h ▸ List.mem_map_of_mem hv')
      have hup : u.proxy ≠ v.addr := fun h => hu (hp u List.mem_cons_self h)
      rw [find?, List.find?_cons_of_neg (by simp [hu, hup])]
      exact ih hnd.2 hv' fun w hw => hp w (List.mem_cons_of_mem _ hw)

theorem stakeBalance_of_proxiesApart {vl : List Validator} (hnd : (vl.map Validator.addr).Nodup)
    (hap : ProxiesApart vl) {v : Validator} (hv : v ∈ vl) : stakeBalance vl v.addr = v.balance := by
  rw [stakeBalance, find?_eq_of_proxiesApart hnd hv fun w hw h => hap w hw v hv h]
  rfl

/-- The loop of `RemoveValidator` finds `addr`, takes out one entry at most,
and what it keeps of the entry of `addr` holds `ValidatorBase`. -/
theorem removeValidator_go_entries {vl vl' : List Validator} {addr : Address} {balance : Int}
    (hgo : removeValidator.go addr balance vl = some vl') :
    addr ∈ vl.map Validator.addr ∧ vl.length ≤ vl'.length + 1 ∧
      ∀ v ∈ vl', v ∈ vl ∨ (v.addr = addr ∧ ValidatorBase ≤ v.balance) := by
  induction vl generalizing vl' with
  | nil => simp [removeValidator.go] at hgo
  | cons v vs ih =>
    unfold removeValidator.go at hgo
    split_ifs at hgo with hv hlow
    · cases hgo
      exact ⟨by simp [hv], by simp, fun w hw => Or.inl (List.mem_cons_of_mem _ hw)⟩
    · -- the entry of `addr` is lowered and kept
      cases hgo
      refine ⟨by simp [hv], by simp, fun w hw => ?_⟩
      rcases List.mem_cons.1 hw with rfl | hw
      · exact Or.inr ⟨hv, by simp only; omega⟩
      · exact Or.inl (List.mem_cons_of_mem _ hw)
    · obtain ⟨vs', hvs', rfl⟩ := Option.map_eq_some_iff.mp hgo
      obtain ⟨ha, hlen, hmem⟩ := ih hvs'
      refine ⟨List.mem_cons_of_mem _ ha, by simp only [List.length_cons]; omega, fun w hw => ?_⟩
      rcases List.mem_cons.1 hw with rfl | hw
      · exact Or.inl List.mem_cons_self
      · exact (hmem w hw).imp_left (List.mem_cons_of_mem _)

theorem removeValidator_go_erase {vl : List Validator} {addr : Address} {balance : Int}
    (hlow : ∀ v ∈ vl, v.addr = addr → v.balance - balance < ValidatorBase) (ha : addr ∈ vl.map Validator.addr) :
    ∃ vl', removeValidator.go addr balance vl = some vl' ∧ vl'.Sublist vl ∧
      vl'.map Validator.addr = (vl.map Validator.addr).erase addr := by
  induction vl with
  | nil => simp at ha
  | cons v vs ih =>
    by_cases hv : v.addr = addr
    · refine ⟨vs, ?_, List.sublist_cons_self v vs, ?_⟩
      · rw [removeValidator.go, if_pos hv, if_pos (hlow v List.mem_cons_self hv)]
      · rw [List.map_cons, hv, List.erase_cons_head]
    · have ha' : addr ∈ vs.map Validator.addr := by
        rw [List.map_cons, List.mem_cons] at ha
        exact ha.resolve_left fun h => hv h.symm
      obtain ⟨vs', hgo, hsub, hmap⟩ := ih (fun w hw => hlow w (List.mem_cons_of_mem _ hw)) ha'
      refine ⟨v :: vs', ?_, hsub.cons_cons v, ?_⟩
      · rw [removeValidator.go, if_neg hv, hgo]
        rfl
      · rw [List.map_cons, List.map_cons, hmap, List.erase_cons_tail (by simpa using hv)]

/-- The removal after a draw keeps positive balances, takes out one entry at
most and adds no address. -/
theorem removeValidator_weak {vl : List Validator} (hpos : ∀ v ∈ vl, 0 < v.balance) (addr : Address)
    (balance : Int) :
    (∀ v ∈ removeValidator vl addr balance, 0 < v.balance) ∧
      vl.length ≤ (removeValidator vl addr balance).length + 1 ∧
      ∀ b ∈ (removeValidator vl addr balance).map Validator.addr, b ∈ vl.map Validator.addr := by
  unfold removeValidator
  split
  · rename_i vl' hgo
    obtain ⟨ha, hlen, hmem⟩ := removeValidator_go_entries hgo
    have hp := sortValidators_perm vl'
    refine ⟨fun v hv => ?_, by rw [hp.length_eq]; exact hlen, fun b hb => ?_⟩
    · rcases hmem v (hp.subset hv) with hv | ⟨-, hv⟩
      · exact hpos v hv
      · exact lt_of_lt_of_le (by decide) hv
    · obtain ⟨v, hv, rfl⟩ := List.mem_map.1 hb
      rcases hmem v (hp.subset hv) with hv | ⟨hva, -⟩
      · exact List.mem_map_of_mem hv
      · exact hva ▸ ha
  · exact ⟨hpos, by omega, fun b hb => hb⟩

theorem totalStakeBalance_pos {vl : List Validator} (hpos : ∀ v ∈ vl, 0 < v.balance) (hne : vl ≠ []) :
    0 < totalStakeBalance vl :=
  List.sum_pos _ (fun x hx => by obtain ⟨v, hv, rfl⟩ := List.mem_map.1 hx; exact hpos v hv) (by simpa using hne)

theorem removeValidator_stakeBalance {vl : List Validator} (hnd : (vl.map Validator.addr).Nodup)
    (hap : ProxiesApart vl) {a : Address} (ha : a ∈ vl.map Validator.addr) :
    (∀ v ∈ removeValidator vl a (stakeBalance vl a), v ∈ vl) ∧
      ((removeValidator vl a (stakeBalance vl a)).map Validator.addr).Perm ((vl.map Validator.addr).erase a) := by
  obtain ⟨v, hv, rfl⟩ := List.mem_map.1 ha
  rw [stakeBalance_of_proxiesApart hnd hap hv]
  -- the entry of `v.addr` is `v` itself, and loses all of its balance
  have hlow : ∀ w ∈ vl, w.addr = v.addr → w.balance - v.balance < ValidatorBase := by
    intro w hw hwv
    rw [List.inj_on_of_nodup_map hnd hw hv hwv, sub_self]
    decide
  obtain ⟨vl', hgo, hsub, hmap⟩ := removeValidator_go_erase hlow ha
  have hp := sortValidators_perm vl'
  rw [removeValidator, hgo]
  exact ⟨fun w hw => hsub.subset (hp.subset hw), hmap ▸ hp.map _⟩

/-- `SelectRandom11AddressV2(num, hash)` on a list of positive balances, one
entry per address, gives `min num n` addresses of the list, distinct when the
proxies are apart. -/
theorem selectRandom11AddressV2_ok {vl : List Validator} (hnd : (vl.map Validator.addr).Nodup)
    (hpos : ∀ v ∈ vl, 0 < v.balance) {num : Int} (hnum : 0 ≤ num) (hash : List UInt8) :
    ∃ r, selectRandom11AddressV2 vl num hash = some (.ok r) ∧ r.length = min num.toNat vl.length ∧
      (∀ a ∈ r, a ∈ vl.map Validator.addr) ∧ (ProxiesApart vl → r.Nodup) := by
  unfold selectRandom11AddressV2
  split_ifs with hlt
  · -- fewer validators than asked for: all of them
    exact ⟨vl.map Validator.addr, rfl, by rw [List.length_map]; omega, fun a ha => ha, fun _ => hnd⟩
  · have hdraw : ∃ r, Sampling.draws Keccak.keccak256 setBytes totalStakeBalance selectAddress
        (fun vl address => removeValidator vl address (stakeBalance vl address)) num.toNat hash vl = some (.ok r) ∧
        r.length = num.toNat ∧ ∀ b ∈ r, b ∈ vl.map Validator.addr :=
      Sampling.draws_ok Validator.addr (fun l => ∀ v ∈ l, 0 < v.balance)
        (fun _ _ _ h => Sampling.mem_of_select_eq_ok h) (fun _ _ _ hl _ hr => Sampling.select_eq_ok_of_lt hl hr)
        (fun _ hl hne => totalStakeBalance_pos hl hne) (fun _ a hl _ => removeValidator_weak hl a _) hpos (by omega)
    obtain ⟨r, hr, hlen, hmem⟩ := hdraw
    refine ⟨r, hr, by omega, hmem, fun hap => ?_⟩
    -- with proxies apart, every removal is exact
    have hexact : ∀ l a, ProxiesApart l ∧ (l.map Validator.addr).Nodup → a ∈ l.map Validator.addr →
        (ProxiesApart (removeValidator l a (stakeBalance l a)) ∧
          ((removeValidator l a (stakeBalance l a)).map Validator.addr).Nodup) ∧
        ((removeValidator l a (stakeBalance l a)).map Validator.addr).Perm ((l.map Validator.addr).erase a) := by
      rintro l a ⟨hl, hl'⟩ ha
      obtain ⟨hsub, hp⟩ := removeValidator_stakeBalance hl' hl ha
      exact ⟨⟨hl.of_subset hsub, hp.nodup_iff.2 (hl'.erase a)⟩, hp⟩
    exact (Sampling.nodup_of_draws Validator.addr _ (fun _ _ _ h => Sampling.mem_of_select_eq_ok h) hexact
      ⟨hap, hnd⟩ hnd hr).1

end ValidatorList

namespace StakerList

theorem stakeBalance_of_mem {sl : List Staker} (hnd : (sl.map Staker.addr).Nodup) {s : Staker} (hs : s ∈ sl) :
    stakeBalance sl s.addr = s.balance := by
  rw [stakeBalance, find?_key_eq hnd hs]
  rfl

theorem removeStaker_go_erase {sl : List Staker} {addr : Address} {balance : Int}
    (hlow : ∀ s ∈ sl, s.addr = addr → s.balance ≤ balance) (ha : addr ∈ sl.map Staker.addr) :
    ∃ sl', removeStaker.go addr balance sl = some sl' ∧ sl'.Sublist sl ∧
      sl'.map Staker.addr = (sl.map Staker.addr).erase addr := by
  induction sl with
  | nil => simp at ha
  | cons s ss ih =>
    by_cases hs : s.addr = addr
    · refine ⟨ss, ?_, List.sublist_cons_self s ss, ?_⟩
      · rw [removeStaker.go, if_pos hs, if_neg (not_lt.2 (hlow s List.mem_cons_self hs))]
      · rw [List.map_cons, hs, List.erase_cons_head]
    · have ha' : addr ∈ ss.map Staker.addr := by
        rw [List.map_cons, List.mem_cons] at ha
        exact ha.resolve_left fun h => hs h.symm
      obtain ⟨ss', hgo, hsub, hmap⟩ := ih (fun w hw => hlow w (List.mem_cons_of_mem _ hw)) ha'
      refine ⟨s :: ss', ?_, hsub.cons_cons s, ?_⟩
      · rw [removeStaker.go, if_neg hs, hgo]
        rfl
      · rw [List.map_cons, List.map_cons, hmap, List.erase_cons_tail (by simpa using hs)]

theorem removeStaker_stakeBalance {sl : List Staker} (hnd : (sl.map Staker.addr).Nodup) {a : Address}
    (ha : a ∈ sl.map Staker.addr) :
    (∀ s ∈ removeStaker sl a (stakeBalance sl a), s ∈ sl) ∧
      ((removeStaker sl a (stakeBalance sl a)).map Staker.addr).Perm ((sl.map Staker.addr).erase a) := by
  obtain ⟨s, hs, rfl⟩ := List.mem_map.1 ha
  rw [stakeBalance_of_mem hnd hs]
  have hlow : ∀ w ∈ sl, w.addr = s.addr → w.balance ≤ s.balance := by
    intro w hw hws
    rw [List.inj_on_of_nodup_map hnd hw hs hws]
  obtain ⟨sl', hgo, hsub, hmap⟩ := removeStaker_go_erase hlow ha
  have hp : (sortStakers sl').Perm sl' := List.mergeSort_perm _ _
  rw [removeStaker, hgo]
  exact ⟨fun w hw => hsub.subset (hp.subset hw), hmap ▸ hp.map _⟩

theorem totalStakeBalance_pos {sl : List Staker} (hpos : ∀ s ∈ sl, 0 < s.balance) (hne : sl ≠ []) :
    0 < totalStakeBalance sl :=
  List.sum_pos _ (fun x hx => by obtain ⟨s, hs, rfl⟩ := List.mem_map.1 hx; exact hpos s hs) (by simpa using hne)

/-- `SelectRandom4Address(num, hash)` on a list of positive balances, one entry
per address, gives `min num n` distinct addresses of the list, and never takes
a modulus by a zero total. -/
theorem selectRandom4Address_ok {sl : List Staker} (hnd : (sl.map Staker.addr).Nodup)
    (hpos : ∀ s ∈ sl, 0 < s.balance) {num : Int} (hnum : 0 ≤ num) (hash : List UInt8) :
    ∃ r, selectRandom4Address sl num hash = some (.ok r) ∧ r.length = min num.toNat sl.length ∧ r.Nodup ∧
      ∀ a ∈ r, a ∈ sl.map Staker.addr := by
  unfold selectRandom4Address
  split_ifs with hlt
  · exact ⟨sl.map Staker.addr, rfl, by rw [List.length_map]; omega, hnd, fun a ha => ha⟩
  · have hexact : ∀ l a, (∀ s ∈ l, 0 < s.balance) ∧ (l.map Staker.addr).Nodup → a ∈ l.map Staker.addr →
        ((∀ s ∈ removeStaker l a (stakeBalance l a), 0 < s.balance) ∧
          ((removeStaker l a (stakeBalance l a)).map Staker.addr).Nodup) ∧
        ((removeStaker l a (stakeBalance l a)).map Staker.addr).Perm ((l.map Staker.addr).erase a) := by
      rintro l a ⟨hl, hl'⟩ ha
      obtain ⟨hsub, hp⟩ := removeStaker_stakeBalance hl' ha
      exact ⟨⟨fun s hs => hl s (hsub s hs), hp.nodup_iff.2 (hl'.erase a)⟩, hp⟩
    have hdraw : ∃ r, Sampling.draws Keccak.keccak256 setBytes totalStakeBalance selectAddress
        (fun sl address => removeStaker sl address (stakeBalance sl address)) num.toNat hash sl = some (.ok r) ∧
        r.length = num.toNat ∧ r.Nodup ∧ ∀ b ∈ r, b ∈ sl.map Staker.addr :=
      Sampling.draws_ok_nodup Staker.addr (fun l => (∀ s ∈ l, 0 < s.balance) ∧ (l.map Staker.addr).Nodup)
        (fun _ _ _ h => Sampling.mem_of_select_eq_ok h) (fun _ _ _ hl _ hr => Sampling.select_eq_ok_of_lt hl hr)
        (fun _ hl hne => totalStakeBalance_pos hl.1 hne) hexact ⟨hpos, hnd⟩ hnd (by omega)
    obtain ⟨r, hr, hlen, hrn, hmem⟩ := hdraw
    exact ⟨r, hr, by omega, hrn, hmem⟩

end StakerList

/-! ### The list `RandomValidatorV4` draws from -/

namespace ValidatorList

theorem addValidator_fresh_addrs {vl : List Validator} {addr : Address} (ha : addr ∉ vl.map Validator.addr)
    (balance : Int) (proxy : Address) :
    ((addValidator vl addr balance proxy).map Validator.addr).Perm (vl.map Validator.addr ++ [addr]) := by
  rw [addValidator, addValidator_go_eq, Upsert.upsert_eq_of_not_mem ha]
  exact ((sortValidators_perm _).map _).trans (by simp)

theorem foldl_addValidator_addrs (ps : List (Validator × UInt8)) :
    ∀ acc : List Validator, (acc.map Validator.addr ++ ps.map (·.1.addr)).Nodup →
      ((ps.foldl (fun newValSet vw => addValidator newValSet vw.1.addr (vw.1.balance * vw.2.toNat) zeroAddress)
        acc).map Validator.addr).Perm (acc.map Validator.addr ++ ps.map (·.1.addr)) := by
  induction ps with
  | nil => intro acc _; simp
  | cons p ps ih =>
    intro acc hnd
    rw [List.foldl_cons]
    have hp : p.1.addr ∉ acc.map Validator.addr := by
      intro h
      exact (List.nodup_append.1 hnd).2.2 _ h _ List.mem_cons_self rfl
    have hacc := addValidator_fresh_addrs hp (p.1.balance * p.2.toNat) zeroAddress
    have hsplit : acc.map Validator.addr ++ [p.1.addr] ++ ps.map (·.1.addr) =
        acc.map Validator.addr ++ (p :: ps).map (·.1.addr) := by simp
    refine (ih _ ?_).trans ?_
    · exact ((hacc.append_right _).nodup_iff.2 (hsplit ▸ hnd))
    · exact hsplit ▸ hacc.append_right _

theorem makeUpOrder_addrs {vl : List Validator} (hnd : (vl.map Validator.addr).Nodup) {weights : List UInt8}
    (hw : vl.length ≤ weights.length) (randomHash : Hash) :
    ((makeUpOrder vl weights randomHash).map Validator.addr).Perm (vl.map Validator.addr) := by
  have hzip : (vl.zip weights).map (·.1.addr) = vl.map Validator.addr := by
    have h := congrArg (List.map Validator.addr) (List.map_fst_zip hw)
    rwa [List.map_map] at h
  simp only [makeUpOrder]
  refine ((tieBreak_perm _ _).map _).trans ?_
  simpa [hzip] using foldl_addValidator_addrs (vl.zip weights) [] (by simpa [hzip] using hnd)

/-- The loop body of `MakeUpValidators`. -/
def makeUpStep (st : List Address × Int) (v : Validator) : List Address × Int :=
  if v.addr ∉ st.1 ∧ 0 < st.2 then (st.1 ++ [v.addr], st.2 - 1) else st

theorem makeUpValidators_eq (vl : List Validator) (validators : List Address) (weights : List UInt8)
    (randomHash : Hash) (diffCount : Int) :
    makeUpValidators vl validators weights randomHash diffCount =
      ((makeUpOrder vl weights randomHash).foldl makeUpStep (validators, diffCount)).1 := rfl

theorem makeUpStep_cases (st : List Address × Int) (v : Validator) :
    makeUpStep st v = st ∨ (v.addr ∉ st.1 ∧ 0 < st.2 ∧ makeUpStep st v = (st.1 ++ [v.addr], st.2 - 1)) := by
  unfold makeUpStep
  split_ifs with h
  · exact .inr ⟨h.1, h.2, rfl⟩
  · exact .inl rfl

/-- What the make-up loop keeps: no address twice, the addresses and the slots
still to fill adding up to the target, and no negative count of slots. -/
structure MakeUpInv (target : Int) (st : List Address × Int) : Prop where
  nodup : st.1.Nodup
  count : st.1.length + st.2 = target
  nonneg : 0 ≤ st.2

theorem MakeUpInv.step {target : Int} {st : List Address × Int} (h : MakeUpInv target st) (v : Validator) :
    MakeUpInv target (makeUpStep st v) := by
  rcases makeUpStep_cases st v with hs | ⟨hv, hpos, hs⟩
  · rw [hs]
    exact h
  · rw [hs]
    refine ⟨h.nodup.append (List.nodup_singleton _) (by simpa using hv), ?_, by simp only; omega⟩
    have := h.count
    simp only [List.length_append, List.length_singleton, Nat.cast_add, Nat.cast_one]
    omega

theorem MakeUpInv.foldl {target : Int} {st : List Address × Int} (h : MakeUpInv target st) (L : List Validator) :
    MakeUpInv target (L.foldl makeUpStep st) :=
  List.foldlRecOn L makeUpStep h fun _ hst' v _ => hst'.step v

theorem mem_foldl_makeUpStep (L : List Validator) :
    ∀ (st : List Address × Int), ∀ a ∈ (L.foldl makeUpStep st).1, a ∈ st.1 ∨ a ∈ L.map Validator.addr := by
  induction L with
  | nil => intro st a ha; exact .inl ha
  | cons v L ih =>
    intro st a ha
    rcases ih _ a ha with ha | ha
    · rcases makeUpStep_cases st v with hs | ⟨-, -, hs⟩
      · rw [hs] at ha
        exact .inl ha
      · rw [hs, List.mem_append, List.mem_singleton] at ha
        rcases ha with ha | rfl
        · exact .inl ha
        · exact .inr List.mem_cons_self
    · exact .inr (List.mem_cons_of_mem _ ha)

theorem foldl_makeUpStep_grows (L : List Validator) (st : List Address × Int) :
    (∀ a ∈ st.1, a ∈ (L.foldl makeUpStep st).1) ∧ (L.foldl makeUpStep st).2 ≤ st.2 := by
  refine Fold.foldl_rel (fun st st' : List Address × Int => (∀ a ∈ st.1, a ∈ st'.1) ∧ st'.2 ≤ st.2)
    (fun _ => ⟨fun _ ha => ha, le_refl _⟩)
    (fun _ _ _ h₁ h₂ => ⟨fun a ha => h₂.1 a (h₁.1 a ha), h₂.2.trans h₁.2⟩) makeUpStep L st ?_
  intro st' v _
  rcases makeUpStep_cases st' v with hs | ⟨-, -, hs⟩
  · rw [hs]
    exact ⟨fun _ ha => ha, le_refl _⟩
  · rw [hs]
    exact ⟨fun a ha => List.mem_append_left _ ha, by simp only; omega⟩

theorem foldl_makeUpStep_complete (L : List Validator) :
    ∀ st : List Address × Int, 0 < (L.foldl makeUpStep st).2 →
      ∀ a ∈ L.map Validator.addr, a ∈ (L.foldl makeUpStep st).1 := by
  induction L with
  | nil => intro st _ a ha; cases ha
  | cons v L ih =>
    intro st hpos a ha
    rw [List.foldl_cons] at hpos ⊢
    rcases List.mem_cons.1 ha with rfl | ha
    · -- the step at `v` had a slot, so `v` is in after it
      have hgrow := foldl_makeUpStep_grows L (makeUpStep st v)
      have hslot : 0 < (makeUpStep st v).2 := lt_of_lt_of_le hpos hgrow.2
      refine hgrow.1 _ ?_
      rcases makeUpStep_cases st v with hs | ⟨-, -, hs⟩
      · rw [hs] at hslot ⊢
        by_contra hv
        rw [makeUpStep, if_pos ⟨hv, hslot⟩] at hs
        have := congrArg Prod.snd hs
        simp only at this
        omega
      · rw [hs]
        exact List.mem_append_right _ (List.mem_singleton_self _)
    · exact ih _ hpos a ha

/-- The addresses `MakeUpValidators` returns: distinct, of the list or already
collected, and every validator of the list once a slot stays unfilled. -/
theorem makeUpValidators_spec {vl : List Validator} (hnd : (vl.map Validator.addr).Nodup) {weights : List UInt8}
    (hw : vl.length ≤ weights.length) (randomHash : Hash) {validators : List Address} (hc : validators.Nodup)
    {diffCount : Int} (hd : 0 ≤ diffCount) :
    (makeUpValidators vl validators weights randomHash diffCount).Nodup ∧
      (∀ a ∈ makeUpValidators vl validators weights randomHash diffCount,
        a ∈ validators ∨ a ∈ vl.map Validator.addr) ∧
      (((makeUpValidators vl validators weights randomHash diffCount).length : Int) < validators.length + diffCount →
        ∀ a ∈ vl.map Validator.addr, a ∈ makeUpValidators vl validators weights randomHash diffCount) := by
  have hperm := makeUpOrder_addrs hnd hw randomHash
  have hinv := (⟨hc, rfl, hd⟩ : MakeUpInv (validators.length + diffCount) (validators, diffCount)).foldl
    (makeUpOrder vl weights randomHash)
  rw [makeUpValidators_eq]
  refine ⟨hinv.nodup, fun a ha => ?_, fun hlt a ha => ?_⟩
  · exact (mem_foldl_makeUpStep _ _ a ha).imp_right fun h => hperm.subset h
  · have := hinv.count
    exact foldl_makeUpStep_complete _ _ (by omega) a (hperm.symm.subset ha)

theorem lookup_addrs {vl : List Validator} (hnd : (vl.map Validator.addr).Nodup) {as : List Address}
    (has : ∀ a ∈ as, a ∈ vl.map Validator.addr) :
    (as.filterMap fun a => List.find? (·.addr = a) vl).map Validator.addr = as ∧
      ∀ v ∈ as.filterMap (fun a => List.find? (·.addr = a) vl), v ∈ vl := by
  induction as with
  | nil => simp
  | cons a as ih =>
    obtain ⟨v, hv, rfl⟩ := List.mem_map.1 (has a List.mem_cons_self)
    obtain ⟨hmap, hmem⟩ := ih fun b hb => has b (List.mem_cons_of_mem _ hb)
    have hf : List.find? (fun x => decide (x.addr = v.addr)) vl = some v := find?_key_eq hnd hv
    simp only [List.filterMap_cons, hf]
    refine ⟨by rw [List.map_cons, hmap], fun w hw => ?_⟩
    rcases List.mem_cons.1 hw with rfl | hw
    · exact hv
    · exact hmem w hw

/-- The addresses `RandomValidatorV4` looks up and draws from: those collected
at the drop point `point`, made up towards `k`. -/
def drawAddresses (vl : List Validator) (weights : List UInt8) (randomHash : Hash) (k point : Int) :
    List Address :=
  let collected := collectValidatorsV3 vl point
  if 0 < k - collected.length then makeUpValidators vl collected weights randomHash (k - collected.length)
  else collected

/-- The addresses `RandomValidatorV4` looks up are distinct, of the list, and
fewer than `k` only when they are all of it. -/
theorem drawAddresses_spec {vl : List Validator} (hnd : (vl.map Validator.addr).Nodup) {weights : List UInt8}
    (hw : vl.length ≤ weights.length) (randomHash : Hash) (k point : Int) :
    (drawAddresses vl weights randomHash k point).Nodup ∧
      (∀ a ∈ drawAddresses vl weights randomHash k point, a ∈ vl.map Validator.addr) ∧
      (((drawAddresses vl weights randomHash k point).length : Int) < k →
        ∀ a ∈ vl.map Validator.addr, a ∈ drawAddresses vl weights randomHash k point) := by
  have hcnd : (collectValidatorsV3 vl point).Nodup := (List.filter_sublist.map Validator.addr).nodup hnd
  have hcmem : ∀ a ∈ collectValidatorsV3 vl point, a ∈ vl.map Validator.addr := by
    intro a ha
    obtain ⟨v, hv, -, rfl⟩ := mem_collectValidatorsV3.1 ha
    exact List.mem_map_of_mem hv
  simp only [drawAddresses]
  split_ifs with hd
  · -- too few collected: the make-up fills the slots
    obtain ⟨h1, h2, h3⟩ := makeUpValidators_spec hnd hw randomHash hcnd hd.le
    exact ⟨h1, fun a ha => (h2 a ha).elim (hcmem a) id, fun hlt => h3 (by omega)⟩
  · exact ⟨hcnd, hcmem, fun hlt => absurd hlt (by omega)⟩

/-- `RandomValidatorV4(k, randomHash, weights)` on a list of positive balances,
one entry per address, with one weight per validator and a random hash that is
a private key, gives `min k n` addresses of the list; they are distinct when
the proxies are apart. -/
theorem randomValidatorV4_ok {pubkeyToAddress : Hash → Except Error Address} {vl : List Validator}
    (hnd : (vl.map Validator.addr).Nodup) (hpos : ∀ v ∈ vl, 0 < v.balance) {k : Int} (hk : 0 ≤ k)
    {randomHash : Hash} {weights : List UInt8} (hw : weights.length = vl.length) {addr : Address}
    (hkey : pubkeyToAddress randomHash = .ok addr) :
    ∃ r, randomValidatorV4 pubkeyToAddress vl k randomHash weights = some (.ok r) ∧
      r.length = min k.toNat vl.length ∧ (∀ a ∈ r, a ∈ vl.map Validator.addr) ∧ (ProxiesApart vl → r.Nodup) := by
  obtain ⟨hvnd, hvmem, hvall⟩ := drawAddresses_spec hnd hw.ge randomHash k addr.toNat
  obtain ⟨hmap, hsub⟩ := lookup_addrs hnd hvmem
  have htnd := hmap ▸ hvnd
  obtain ⟨r, hr, hlen, hmem, hrnd⟩ :=
    selectRandom11AddressV2_ok htnd (fun v hv => hpos v (hsub v hv)) hk randomHash.bytes
  refine ⟨r, ?_, ?_, fun a ha => hvmem a (hmap ▸ hmem a ha), fun hap => hrnd (hap.of_subset hsub)⟩
  · simp only [drawAddresses] at hr
    rw [randomValidatorV4, if_neg (by omega)]
    simp only [hkey, hr]
    rfl
  · -- the draw takes `min k m` of `m ≤ n` addresses, and `m < k` only when `m = n`
    have hm := congrArg List.length hmap
    rw [List.length_map] at hm
    have hle := (hvnd.subperm hvmem).length_le
    rw [List.length_map] at hle
    rw [hlen, hm]
    by_cases hlt : ((drawAddresses vl weights randomHash k addr.toNat).length : Int) < k
    · have hge := (hnd.subperm (hvall hlt)).length_le
      rw [List.length_map] at hge
      omega
    · omega

end ValidatorList

/-! ### The committee and the staker draw -/

/-- For a validator list of positive balances, one entry per address, one
weight per validator and a random hash that is a private key,
`RandomValidatorV4` returns `min k n` addresses of the list, distinct when no
entry has another's address as its proxy; for a staker list of positive
balances, one entry per address, `SelectRandom4Address` returns `min num n`
distinct addresses of the list and never divides by a zero total. -/
theorem committee_draws_min_k_addresses (pubkeyToAddress : Hash → Except Error Address) (vl : List Validator)
    (hnd : (vl.map Validator.addr).Nodup) (hpos : ∀ v ∈ vl, 0 < v.balance) (k : Int) (hk : 0 ≤ k)
    (weights : List UInt8) (hw : weights.length = vl.length) (randomHash : Hash) (addr : Address)
    (hkey : pubkeyToAddress randomHash = .ok addr) (sl : List Staker) (hsnd : (sl.map Staker.addr).Nodup)
    (hspos : ∀ s ∈ sl, 0 < s.balance) (num : Int) (hnum : 0 ≤ num) (hash : List UInt8) :
    (∃ r, ValidatorList.randomValidatorV4 pubkeyToAddress vl k randomHash weights = some (.ok r) ∧
      r.length = min k.toNat vl.length ∧ (∀ a ∈ r, a ∈ vl.map Validator.addr) ∧
      (ValidatorList.ProxiesApart vl → r.Nodup)) ∧
    (∃ r, StakerList.selectRandom4Address sl num hash = some (.ok r) ∧ r.length = min num.toNat sl.length ∧
      r.Nodup ∧ ∀ a ∈ r, a ∈ sl.map Staker.addr) :=
  ⟨ValidatorList.randomValidatorV4_ok hnd hpos hk hw hkey, StakerList.selectRandom4Address_ok hsnd hspos hnum hash⟩

/-- `0xb` holds 5,000,000 ERB; `0xa` holds 100,000 ERB and names `0xb` as its proxy. -/
def proxiedPair : List Validator :=
  [⟨11, 5000000 * 10 ^ 18, zeroAddress, []⟩, ⟨10, 100000 * 10 ^ 18, 11, []⟩]

/-- The address of the private key `1`. -/
def keyOneAddress : Address := 0x7E5F4552091A69125d5DfCb7b8C2659029395Bdf#160

def twoStakers : List Staker := [⟨3, StakerBase⟩, ⟨4, StakerBase⟩]

/-- With the weights `[1, 70]`, `0xa` comes first in the make-up, and the random
hash `1` draws `0xb` first. `StakeBalance(0xb)` then reads `0xa`'s entry, which
names `0xb` as its proxy, and `RemoveValidator` lowers `0xb` by 100,000 ERB and
keeps it: the second draw gives `0xb` again. -/
theorem proxied_validator_drawn_twice :
    ValidatorList.randomValidatorV4 (fun _ => .ok keyOneAddress) proxiedPair 2 1 [1, 70] = some (.ok [11, 11]) ∧
      ¬ValidatorList.ProxiesApart proxiedPair ∧
      ∃ r, StakerList.selectRandom4Address twoStakers 2 (Hash.bytes 1) = some (.ok r) ∧ r.length = 2 ∧ r.Nodup := by
  obtain ⟨-, r, hr, hlen, hrnd, -⟩ := committee_draws_min_k_addresses (fun _ => .ok keyOneAddress) proxiedPair
    (by decide) (by decide) 2 (by decide) [1, 70] rfl 1 keyOneAddress rfl twoStakers (by decide) (by decide) 2
    (by decide) (Hash.bytes 1)
  have hcol : ValidatorList.collectValidatorsV3 proxiedPair keyOneAddress.toNat = [] := by decide
  -- `sort.Sort` is a merge sort, which `decide` does not unfold: `simp` runs it
  have horder : ValidatorList.makeUpOrder proxiedPair [1, 70] 1 =
      [⟨10, 100000 * 10 ^ 18 * 70, zeroAddress, []⟩, ⟨11, 5000000 * 10 ^ 18, zeroAddress, []⟩] := by
    simp [ValidatorList.makeUpOrder, proxiedPair, ValidatorList.addValidator, ValidatorList.addValidator.go,
      sortValidators, List.mergeSort, Validator.less, tieBreak, tieBreakFrom, Validator.distance]
  have hmake : ValidatorList.makeUpValidators proxiedPair [] [1, 70] 1 2 = [10, 11] := by
    rw [ValidatorList.makeUpValidators, horder]
    decide
  have hlookup : ([10, 11] : List Address).filterMap (fun a => List.find? (·.addr = a) proxiedPair) =
      [⟨10, 100000 * 10 ^ 18, 11, []⟩, ⟨11, 5000000 * 10 ^ 18, zeroAddress, []⟩] := by decide
  -- the two seeds, `Keccak256(randomHash)` and its hash
  have hk1 : Keccak.keccak256 (Hash.bytes 1) = [0xb1, 0x0e, 0x2d, 0x52, 0x76, 0x12, 0x07, 0x3b, 0x26, 0xee, 0xcd,
      0xfd, 0x71, 0x7e, 0x6a, 0x32, 0x0c, 0xf4, 0x4b, 0x4a, 0xfa, 0xc2, 0xb0, 0x73, 0x2d, 0x9f, 0xcb, 0xe2, 0xb7,
      0xfa, 0x0c, 0xf6] := by decide +kernel
  have hk2 : Keccak.keccak256 [0xb1, 0x0e, 0x2d, 0x52, 0x76, 0x12, 0x07, 0x3b, 0x26, 0xee, 0xcd,
      0xfd, 0x71, 0x7e, 0x6a, 0x32, 0x0c, 0xf4, 0x4b, 0x4a, 0xfa, 0xc2, 0xb0, 0x73, 0x2d, 0x9f, 0xcb, 0xe2, 0xb7,
      0xfa, 0x0c, 0xf6] = [0xb5, 0xd9, 0xd8, 0x94, 0x13, 0x3a, 0x73, 0x0a, 0xa6, 0x51, 0xef, 0x62, 0xd2, 0x6b, 0x0f,
      0xfa, 0x84, 0x62, 0x33, 0xc7, 0x41, 0x77, 0xa5, 0x91, 0xa4, 0xa8, 0x96, 0xad, 0xfd, 0xa9, 0x7d, 0x22] := by
    decide +kernel
  have hrem : ValidatorList.removeValidator [⟨10, 100000 * 10 ^ 18, 11, []⟩, ⟨11, 5000000 * 10 ^ 18, zeroAddress, []⟩]
      11 (ValidatorList.stakeBalance [⟨10, 100000 * 10 ^ 18, 11, []⟩, ⟨11, 5000000 * 10 ^ 18, zeroAddress, []⟩] 11) =
      [⟨11, 4900000 * 10 ^ 18, zeroAddress, []⟩, ⟨10, 100000 * 10 ^ 18, 11, []⟩] := by
    simp [ValidatorList.removeValidator, ValidatorList.removeValidator.go, ValidatorList.stakeBalance,
      ValidatorList.find?, sortValidators, List.mergeSort, Validator.less, ValidatorBase]
  have hsel : ValidatorList.selectRandom11AddressV2
      [⟨10, 100000 * 10 ^ 18, 11, []⟩, ⟨11, 5000000 * 10 ^ 18, zeroAddress, []⟩] 2 (Hash.bytes 1) =
      some (.ok [11, 11]) := by
    rw [ValidatorList.selectRandom11AddressV2, if_neg (by decide)]
    refine Sampling.draws_succ_of_ok (by decide) ?_ ?_
    · rw [hk1]
      decide +kernel
    · rw [hk1, hrem]
      exact Sampling.draws_succ_of_ok (by decide) (by rw [hk2]; decide +kernel) rfl
  refine ⟨?_, fun h => absurd (h _ (List.mem_cons_of_mem _ List.mem_cons_self) _ List.mem_cons_self rfl) (by decide),
    r, hr, hlen, hrnd⟩
  rw [ValidatorList.randomValidatorV4, if_neg (by decide)]
  simp only [hcol, List.length_nil, Nat.cast_zero, sub_zero]
  rw [if_pos (by decide), hmake, hlookup, hsel]
  rfl

end Erbie
