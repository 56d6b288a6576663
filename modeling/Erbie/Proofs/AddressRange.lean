import Erbie.Spec.Selection

/-! The arc a validator covers. `CalculateAddressRangeV2` gives the validator
at address `a` an arc of length `L`, its weighted share of the ring times ten,
starting at `a`: one interval when the arc ends before `maxValue`, and the
piece up to `maxValue` and the piece from `0` otherwise. When `L` exceeds
`maxValue` it first writes the whole ring, and then overwrites it with the
wrapped pieces, whose arc has length `L` modulo `maxValue`: the ring is not
covered, and with a third of the stake and the full coefficient a validator
high on the ring covers a third of it. -/

namespace Erbie

namespace ValidatorList

/-- `rangeLength` of `CalculateAddressRangeV2`. -/
def rangeLength (vl : List Validator) (stakeAmt weight : Int) : Int :=
  weight * (stakeAmt * maxValue) / totalStakeBalance vl * 10

/-- The weight `CalculateAddressRangeV2` leaves on the entries of `address`. -/
def addressRange (vl : List Validator) (address : Address) (stakeAmt weight : Int) : List Int :=
  let addrNo : Int := address.toNat
  let rangeLength := rangeLength vl stakeAmt weight
  if addrNo + rangeLength < maxValue then [addrNo, addrNo + rangeLength]
  else [addrNo, maxValue, 0, (addrNo + rangeLength) % maxValue]

theorem weight_addAddrRange {vl : List Validator} {addr : Address} {weight : List Int} {v : Validator}
    (hv : v ∈ addAddrRange vl addr weight) (ha : v.addr = addr ∨ v.proxy = addr) : v.weight = weight := by
  obtain ⟨u, -, rfl⟩ := List.mem_map.mp hv
  by_cases hu : u.addr = addr ∨ u.proxy = addr
  · rw [if_pos hu]
  · rw [if_neg hu] at ha ⊢
    exact absurd ha hu

/-- The second write of `CalculateAddressRangeV2` decides the weight of the
entries of `address`, whatever the first wrote. -/
theorem weight_calculateAddressRangeV2 {vl vl' : List Validator} {address : Address} {stakeAmt weight : Int}
    (h : calculateAddressRangeV2 vl address stakeAmt weight = some vl') {v : Validator} (hv : v ∈ vl')
    (ha : v.addr = address ∨ v.proxy = address) : v.weight = addressRange vl address stakeAmt weight := by
  unfold calculateAddressRangeV2 at h
  dsimp only at h
  split_ifs at h with h0 hfit hfit
  all_goals
    cases h
    rw [weight_addAddrRange hv ha]
    simp [addressRange, rangeLength, *]

theorem exists_mem_calculateAddressRangeV2 {vl vl' : List Validator} {address : Address} {stakeAmt weight : Int}
    (h : calculateAddressRangeV2 vl address stakeAmt weight = some vl') {u : Validator} (hu : u ∈ vl) :
    ∃ v ∈ vl', v.addr = u.addr := by
  have hkeep : ∀ (l : List Validator) (w : List Int) (u : Validator), u ∈ l →
      ∃ v ∈ addAddrRange l address w, v.addr = u.addr := by
    intro l w u hul
    refine ⟨_, List.mem_map_of_mem hul, ?_⟩
    split_ifs <;> rfl
  unfold calculateAddressRangeV2 at h
  dsimp only at h
  -- the list after the first write, which happens only for an arc longer than the ring
  set vl₁ := if maxValue < weight * (stakeAmt * maxValue) / totalStakeBalance vl * 10 then
    addAddrRange vl address [0, maxValue] else vl with hvl₁
  have hmid : ∃ u' ∈ vl₁, u'.addr = u.addr := by
    rw [hvl₁]
    split_ifs
    · exact hkeep _ _ u hu
    · exact ⟨u, hu, rfl⟩
  obtain ⟨u', hu', hua⟩ := hmid
  split_ifs at h with h0 hfit <;> cases h
  · obtain ⟨v, hv, hva⟩ := hkeep _ _ u' hu'
    exact ⟨v, hv, hva.trans hua⟩
  · obtain ⟨v, hv, hva⟩ := hkeep _ _ u' hu'
    exact ⟨v, hv, hva.trans hua⟩

end ValidatorList

/-- The points the entry of `a` accepts after `CalculateAddressRangeV2`: an arc
of length `L` from `a` that ends before `maxValue`, or the piece above `a` and
the piece below `(a + L) % maxValue`. -/
theorem accepts_after_calculateAddressRangeV2 {vl vl' : List Validator} {a : Address} {s w : Int}
    (h : ValidatorList.calculateAddressRangeV2 vl a s w = some vl') {v : Validator} (hv : v ∈ vl')
    (ha : v.addr = a) (p : Int) :
    v.accepts p = true ↔
      if (a.toNat : Int) + ValidatorList.rangeLength vl s w < maxValue then
        a.toNat < p ∧ p < a.toNat + ValidatorList.rangeLength vl s w
      else (a.toNat < p ∧ p < maxValue) ∨ (0 < p ∧ p < (a.toNat + ValidatorList.rangeLength vl s w) % maxValue) := by
  rw [Validator.accepts, ValidatorList.weight_calculateAddressRangeV2 h hv (.inl ha), ValidatorList.addressRange]
  split_ifs <;> simp

/-- When the arc is longer than the ring, the whole ring written first is
overwritten: the entry of `a` takes the wrapped pieces, and every point from
`(a + L) % maxValue` up to `a` is refused. -/
theorem calculateAddressRangeV2_overwrites_full_range {vl vl' : List Validator} {a : Address} {s w : Int}
    (h : ValidatorList.calculateAddressRangeV2 vl a s w = some vl')
    (hL : maxValue < ValidatorList.rangeLength vl s w) {v : Validator} (hv : v ∈ vl') (ha : v.addr = a) :
    v.weight = [(a.toNat : Int), maxValue, 0, (a.toNat + ValidatorList.rangeLength vl s w) % maxValue] ∧
      ∀ p : Int, (a.toNat + ValidatorList.rangeLength vl s w) % maxValue ≤ p → p ≤ a.toNat →
        v.accepts p = false := by
  have hwrap : ¬ (a.toNat : Int) + ValidatorList.rangeLength vl s w < maxValue := by omega
  refine ⟨?_, fun p hlo hhi => ?_⟩
  · rw [ValidatorList.weight_calculateAddressRangeV2 h hv (.inl ha), ValidatorList.addressRange, if_neg hwrap]
  · have hacc := accepts_after_calculateAddressRangeV2 h hv ha p
    rw [if_neg hwrap] at hacc
    cases hv' : v.accepts p with
    | false => rfl
    | true =>
      rcases hacc.mp hv' with ⟨hp, -⟩ | ⟨-, hp⟩ <;> omega

/-! Three validators of equal stake, one of them at `2 ^ 160 - 2 ^ 20`, near
the top of the ring. With the full coefficient its arc is `700 / 3` rings
long, and after the call it covers the third of the ring from its address. -/

def highAddress : Address := BitVec.ofNat 160 (2 ^ 160 - 2 ^ 20)

def thirdsList : List Validator :=
  [⟨highAddress, ValidatorBase, zeroAddress, []⟩, ⟨8, ValidatorBase, zeroAddress, []⟩,
    ⟨7, ValidatorBase, zeroAddress, []⟩]

theorem high_validator_misses_the_middle_of_the_ring :
    ∃ vl', ValidatorList.calculateAddressRangeV2 thirdsList highAddress ValidatorBase 70 = some vl' ∧
      highAddress ∈ vl'.map Validator.addr ∧
      highAddress ∉ ValidatorList.collectValidatorsV3 vl' (2 ^ 159) := by
  obtain ⟨vl', h⟩ := Option.isSome_iff_exists.mp
    (show (ValidatorList.calculateAddressRangeV2 thirdsList highAddress ValidatorBase 70).isSome by decide)
  obtain ⟨v, hv, ha⟩ := ValidatorList.exists_mem_calculateAddressRangeV2 h List.mem_cons_self
  refine ⟨vl', h, List.mem_map.mpr ⟨v, hv, ha⟩, fun hmem => ?_⟩
  obtain ⟨u, hu, hacc, hua⟩ := ValidatorList.mem_collectValidatorsV3.mp hmem
  have hrefuse := (calculateAddressRangeV2_overwrites_full_range h (by decide) hu hua).2 (2 ^ 159)
    (by decide) (by decide)
  rw [hacc] at hrefuse
  cases hrefuse

end Erbie
