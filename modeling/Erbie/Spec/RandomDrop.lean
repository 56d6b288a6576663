import Erbie.Spec.Istanbul

/-! The three validators around the previous block's coinbase that
`GetRandomDropV2` hashes into the random drop (`core/blockchain.go`).
`random3Index` finds the coinbase in the validator list and asks
`getSurroundingChainNo` for its neighbours on a chain of `Np` rows of `Nr = 4`
slots. The slots are numbered in a snake, so the neighbour one row up or down
depends on `i % 4` and on the parity of the row `i / 4`. Go's `%` and `/`
truncate toward zero, as `Int.tmod` and `Int.tdiv` do.

`getSurroundingChainNo` runs three blocks one after the other, for the middle
of the chain, its last row and its first row. Each block may set `j` and
`chainNoSet`, and a later block sees what an earlier one set. -/

namespace Erbie

/-- The empty validator `GetByIndex` returns past the end of the list. -/
def emptyValidator : Validator := ⟨zeroAddress, 0, zeroAddress, []⟩

namespace ValidatorList

/-- `GetByAddress(addr)`: the index of the first validator with the address or
the proxy `addr`, and `-1` when there is none. -/
def getByAddress (vl : List Validator) (addr : Address) : Int :=
  match vl.findIdx? (fun v => v.addr = addr ∨ v.proxy = addr) with
  | some i => i
  | none => -1

/-- `GetByIndex(i)`. -/
def getByIndex (vl : List Validator) (i : Nat) : Validator := vl.getD i emptyValidator

end ValidatorList

/-- The block of `getSurroundingChainNo` for `4 <= i <= Nt - 5`. -/
def surroundingMiddle (i Nr : Int) (st : Int × List Int) : Int × List Int :=
  let st := if i.tmod 4 = 0 then
      let j := if (i.tdiv 4).tmod 2 = 0 then i - 4 else st.1
      let j := if (i.tdiv 4).tmod 2 = 1 then i + 4 else j
      (j, [i, i + 1, i + Nr - 1, j])
    else st
  let st := if i.tmod 4 = 3 then
      let j := if (i.tdiv 4).tmod 2 = 0 then i + 4 else st.1
      let j := if (i.tdiv 4).tmod 2 = 1 then i - 4 else j
      (j, [i, i - 1, i - Nr - 1, j])
    else st
  if i.tmod 4 ≠ 0 ∧ i.tmod 4 ≠ 3 then
    let j := if (i.tmod 2 = 0 ∧ (i.tdiv 4).tmod 2 = 0) ∨ (i.tmod 2 = 1 ∧ (i.tdiv 4).tmod 2 = 1) then i - 4
      else st.1
    let j := if (i.tmod 2 = 0 ∧ (i.tdiv 4).tmod 2 = 1) ∨ (i.tmod 2 = 1 ∧ (i.tdiv 4).tmod 2 = 0) then i + 4
      else j
    (j, [i, i - 1, i + 1, j])
  else st

/-- The block of `getSurroundingChainNo` for `Nt - 4 <= i <= Nt - 1`. -/
def surroundingEnd (i : Int) (st : Int × List Int) : Int × List Int :=
  let st := if i.tmod 4 = 0 then
      let j := if (i.tdiv 4).tmod 2 = 1 then 0 else st.1
      let j := if (i.tdiv 4).tmod 2 = 0 then i - 4 else j
      (j, [i, i + 1, i + 3, j])
    else st
  let st := if i.tmod 4 = 3 then
      let j := if (i.tdiv 4).tmod 2 = 0 then 2 else st.1
      let j := if (i.tdiv 4).tmod 2 = 1 then i - 4 else j
      (j, [i, i - 1, i - 3, j])
    else st
  if i.tmod 4 ≠ 0 ∧ i.tmod 4 ≠ 3 then
    let j := if i.tmod 2 = 0 ∧ (i.tdiv 4).tmod 2 = 1 then i.tmod 4 else st.1
    let j := if i.tmod 2 = 1 ∧ (i.tdiv 4).tmod 2 = 0 then i.tmod 4 - 1 else j
    let j := if (i.tmod 2 = 0 ∧ (i.tdiv 4).tmod 2 = 0) ∨ (i.tmod 2 = 1 ∧ (i.tdiv 4).tmod 2 = 1) then i - 4
      else j
    (j, [i, i - 1, i + 1, j])
  else st

/-- The block of `getSurroundingChainNo` for `0 <= i <= 3`. -/
def surroundingStart (i Nt : Int) (st : Int × List Int) : Int × List Int :=
  let st := if i = 0 then
      let j := if (i.tdiv 4).tmod 2 = 0 then Nt - 3 else st.1
      let j := if (i.tdiv 4).tmod 2 = 1 then Nt - 4 else j
      (j, [i, i + 1, i + 3, j])
    else st
  let st := if i.tmod 4 = 3 then (i - 4, [i, i - 1, i - 5, i - 4]) else st
  if i.tmod 4 ≠ 0 ∧ i.tmod 4 ≠ 3 then
    let j := if i.tmod 2 = 0 ∧ (Nt.tdiv 4).tmod 2 = 0 then Nt - 3 + i else st.1
    let j := if i.tmod 2 = 0 ∧ (Nt.tdiv 4).tmod 2 = 1 then Nt - 4 + i else j
    let j := if i.tmod 2 = 1 then i + 4 else j
    (j, [i, i - 1, i + 1, j])
  else st

/-- `getSurroundingChainNo(i, Nr, Np)`: `chainNoSet` starts as three zeros. -/
def getSurroundingChainNo (i Nr Np : Int) : List Int :=
  let Nt := Nr * Np
  let st : Int × List Int := (0, [0, 0, 0])
  let st := if 4 ≤ i ∧ i ≤ Nt - 5 then surroundingMiddle i Nr st else st
  let st := if Nt - 4 ≤ i ∧ i ≤ Nt - 1 then surroundingEnd i st else st
  (if 0 ≤ i ∧ i ≤ 3 then surroundingStart i Nt st else st).2

/-- `random3Index(v, prevHeader)`: the coinbase is looked up after block `0` only. -/
def random3Index (vl : List Validator) (prevHeader : Header) : List Int :=
  let i : Int := if prevHeader.number > 0 then ValidatorList.getByAddress vl prevHeader.coinbase else 0
  let np := (vl.length : Int).tdiv 4 + 1
  getSurroundingChainNo i 4 np

/-- `opOnValidators`: the address at each index, converted with `uint64(v)`;
an empty validator adds nothing. -/
def opOnValidators (vl : List Validator) (randomIndex : List Int) : List Address :=
  randomIndex.filterMap fun v =>
    let val := ValidatorList.getByIndex vl (v % 2 ^ 64).toNat
    if val.addr = zeroAddress then none else some val.addr

end Erbie
