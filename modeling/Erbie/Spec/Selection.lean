import Erbie.Spec.Finalize

/-! Drawing the committee from the validator list (`core/types/validator_account.go`).
Each validator covers one arc of the ring of 160-bit numbers, or two pieces of
it, written into its `Weight` by `CalculateAddressRangeV2`.
`CollectValidatorsV3` collects the validators whose arcs hold the drop point,
the address whose private key is the random hash. When it collects fewer than
the committee needs, `MakeUpValidators` appends validators in the order of
their stake times their coefficient, with a tie-break pass over equal amounts
by the distance of the address from the random hash. -/

namespace Erbie

/-- The test of `CollectValidatorsV3` on one entry: the drop point lies in the
open interval of a two-number weight, or in one of the two of a four-number
weight. Any other weight collects nothing. -/
def Validator.accepts (v : Validator) (point : Int) : Bool :=
  match v.weight with
  | [w0, w1] => w0 < point ∧ point < w1
  | [w0, w1, w2, w3] => (w0 < point ∧ point < w1) ∨ (w2 < point ∧ point < w3)
  | _ => false

/-- `CollectValidatorsV3(randomHash)` with the drop point `point`. -/
def ValidatorList.collectValidatorsV3 (vl : List Validator) (point : Int) : List Address :=
  (vl.filter (·.accepts point)).map Validator.addr

theorem ValidatorList.mem_collectValidatorsV3 {vl : List Validator} {point : Int} {a : Address} :
    a ∈ collectValidatorsV3 vl point ↔ ∃ v ∈ vl, v.accepts point = true ∧ v.addr = a := by
  simp [collectValidatorsV3, and_assoc]

/-- `|randomHash - Addr.Hash()|` in the tie-break of `MakeUpValidators`:
`Addr.Hash().Big()` is the address read as a number. -/
def Validator.distance (randomAmt : Int) (v : Validator) : Int := |randomAmt - v.addr.toNat|

/-- The tie-break pass of `MakeUpValidators` from index `i`, where `a` stands:
`a` and the entry after it swap when their amounts are equal and `a` is the
closer one, and the pass goes on at index `i + 1`, where `a` then stands. -/
def tieBreakFrom (randomAmt : Int) (a : Validator) : List Validator → List Validator
  | [] => [a]
  | b :: rest =>
    if a.balance = b.balance ∧ a.distance randomAmt < b.distance randomAmt then b :: tieBreakFrom randomAmt a rest
    else a :: tieBreakFrom randomAmt b rest

/-- The tie-break pass of `MakeUpValidators` over `newValSet`. -/
def tieBreak (randomAmt : Int) : List Validator → List Validator
  | [] => []
  | a :: rest => tieBreakFrom randomAmt a rest

namespace ValidatorList

/-- `newValSet` of `MakeUpValidators` after its tie-break pass: each validator
with the amount `Balance * weight`, inserted by `AddValidator`. -/
def makeUpOrder (vl : List Validator) (weights : List UInt8) (randomHash : Hash) : List Validator :=
  let newValSet := (vl.zip weights).foldl (fun newValSet vw =>
      addValidator newValSet vw.1.addr (vw.1.balance * vw.2.toNat) zeroAddress) []
  tieBreak randomHash.toNat newValSet

/-- `MakeUpValidators(validators, weights, randomHash, diffCount)`: the
entries of `makeUpOrder` not yet collected, while `diffCount` lasts. -/
def makeUpValidators (vl : List Validator) (validators : List Address) (weights : List UInt8) (randomHash : Hash)
    (diffCount : Int) : List Address :=
  ((makeUpOrder vl weights randomHash).foldl (fun (st : List Address × Int) v =>
      if v.addr ∉ st.1 ∧ 0 < st.2 then (st.1 ++ [v.addr], st.2 - 1) else st) (validators, diffCount)).1

end ValidatorList

end Erbie
