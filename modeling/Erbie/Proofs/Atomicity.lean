import Erbie.Proofs.Ledger

/-! Which failed calls leave a trace. `Call` returns the error of `HandleCSBT`
before it reaches the revert, so the callee it created and the writes the
handler made before its failing check stay, and `TransitionDb` keeps them. -/

namespace Erbie
namespace EVM

variable (evm : EVM)

theorem handleCSBT_of_checkFormat (s : StateDB) (caller addr : Address) (wh : Wormholes)
    (value : Nat) (err : Error) (h : wh.checkFormat = some err) :
    evm.handleCSBT s caller addr wh value = (s, some err) := by
  simp [handleCSBT, h]

/-- An Erbie call whose handler fails returns the handler's state with its
error: the reads of the value check, the creation of the callee and the writes
the handler made before the failing check all stay. -/
theorem call_erbie_of_handleCSBT_error (s s₁ s₂ : StateDB) (caller addr : Address)
    (payload : List UInt8) (wh : Wormholes) (gas value : Nat) (err : Error)
    (hrec : evm.noRecursion = false) (hdepth : evm.depth ≤ CallCreateDepth)
    (hpayload : payload ≠ []) (hwh : evm.unmarshal payload = some wh)
    (hvalue : checkValue s caller addr value (some wh) = (s₁, none))
    (hh : evm.handleCSBT (if s₁.exist addr then s₁ else s₁.getOrNewAccountStateObject addr)
      caller addr wh value = (s₂, some err)) :
    evm.call s caller addr (TransactionType ++ payload) gas value = (s₂, [], gas, some err) := by
  have hlen : 0 < payload.length := List.length_pos_iff.mpr hpayload
  simp [call, hrec, Nat.not_lt.mpr hdepth, hlen, hwh, hvalue, hh]

/-- An Erbie call of an unknown type to an address that does not exist fails,
and leaves the address existing. -/
theorem call_unknown_type_creates_callee (s : StateDB) (caller addr : Address)
    (payload : List UInt8) (wh : Wormholes) (gas : Nat)
    (hrec : evm.noRecursion = false) (hdepth : evm.depth ≤ CallCreateDepth)
    (hpayload : payload ≠ []) (hwh : evm.unmarshal payload = some wh)
    (htype : wh.type ∉ [1, 2, 3, 4, 5]) (hnew : s.exist addr = false) :
    ∃ s', evm.call s caller addr (TransactionType ++ payload) gas 0 =
      (s', [], gas, some ErrNotExistNFTType) ∧ s'.exist addr = true := by
  have h4 : wh.type ≠ 4 := fun h => htype (by simp [h])
  have hvalue : checkValue s caller addr 0 (some wh) = (s, none) := by simp [checkValue, h4]
  have hfmt : wh.checkFormat = some ErrNotExistNFTType := by
    simp [Wormholes.checkFormat, htype, ErrNotExistNFTType]
  refine ⟨s.getOrNewAccountStateObject addr, ?_, ?_⟩
  · apply call_erbie_of_handleCSBT_error evm s s _ caller addr payload wh gas 0 _ hrec hdepth
      hpayload hwh hvalue
    rw [hnew, if_neg Bool.false_ne_true]
    exact handleCSBT_of_checkFormat evm _ caller addr wh 0 _ hfmt
  · simp [StateDB.getOrNewAccountStateObject, StateDB.exist_setAccount]

end EVM

/-! An Erbie transaction of type 9 to an address no account holds. -/

/-- The staking EVM with a decoder that reads the JSON text of a type-9
`Wormholes`. -/
def unknownTypeEVM : EVM := { stakingEvm with unmarshal := jsonDecoder [{ type := 9 }] }

theorem call_unknown_type_creates_callee_at_empty :
    ∃ s', unknownTypeEVM.call StateDB.empty 0x1#160 0x2#160 (Wormholes.input { type := 9 }) 21000 0 =
      (s', [], 21000, some ErrNotExistNFTType) ∧ s'.exist 0x2#160 = true :=
  EVM.call_unknown_type_creates_callee unknownTypeEVM StateDB.empty 0x1#160 0x2#160 (Wormholes.jsonText { type := 9 })
    { type := 9 } 21000 rfl (by decide) (by decide +kernel) (by decide +kernel) (by decide) rfl

end Erbie
