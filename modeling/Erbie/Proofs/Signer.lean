import Erbie.Spec.Signer
import Erbie.Proofs.TxCodec

/-! What a signer signs, it recovers. `WithSignature` writes a 65-byte
signature into a transaction as `V`, `R`, `S`, and `Sender` reads them back:
`recoverPlain` rebuilds the very signature bytes, and the hash it checks them
against is the hash that was signed, since no signer hashes `V`, `R` or `S`.
So `Sender` of a signed transaction is the address `Ecrecover` finds for the
signed hash and the signature, for every signer and every transaction type it
accepts, with one exception: a legacy transaction signed at chain id zero
carries an unprotected `V`, and is recovered against the Homestead hash.

A signature made for one chain id is refused by the signers of every other
(EIP-155 replay protection). -/

namespace Erbie

open Rlp

/-! ### Bytes of a signature -/

theorem fixedBytes_zero (k : Nat) : fixedBytes k 0 = List.replicate k 0 := by
  simp [fixedBytes, List.map_const']

theorem padBytes_snoc {k : Nat} {xs : List UInt8} (h : xs.length ≤ k) (b : UInt8) :
    padBytes (k + 1) (xs ++ [b]) = padBytes k xs ++ [b] := by
  simp only [padBytes, List.length_append, List.length_singleton, List.append_assoc]
  congr 2
  omega

theorem padBytes_bigEndian {k n : Nat} (hn : n < 256 ^ k) : padBytes k (bigEndian n) = fixedBytes k n := by
  induction k generalizing n with
  | zero =>
    have : n = 0 := by simpa using hn
    subst this
    rw [bigEndian, if_pos rfl]
    rfl
  | succ k ih =>
    by_cases h0 : n = 0
    · subst h0
      rw [fixedBytes_zero, bigEndian, if_pos rfl]
      simp [padBytes]
    · have hlt : n / 256 < 256 ^ k := by
        rw [pow_succ] at hn
        omega
      rw [bigEndian, if_neg h0, padBytes_snoc (length_bigEndian_le_of_lt hlt), ih hlt, fixedBytes_succ,
        UInt8.ofNat_mod_size']

/-- `R.Bytes()` copied into its 32-byte slot gives back the 32 bytes `R` was read from. -/
theorem padBytes_bigEndian_ofBigEndian {bs : List UInt8} {k : Nat} (h : bs.length = k) :
    padBytes k (bigEndian (ofBigEndian bs)) = bs := by
  subst h
  rw [padBytes_bigEndian (ofBigEndian_lt bs), fixedBytes_ofBigEndian]

theorem take_append_take_drop_getD {sig : List UInt8} (h : sig.length = 65) :
    sig.take 32 ++ (sig.drop 32).take 32 ++ [sig.getD 64 0] = sig := by
  have hd : (sig.drop 32).drop 32 = [sig.getD 64 0] := by
    rw [List.drop_drop, List.drop_eq_getElem_cons (by omega), List.drop_eq_nil_of_le (by omega),
      List.getD_eq_getElem _ _ (by omega)]
  calc sig.take 32 ++ (sig.drop 32).take 32 ++ [sig.getD 64 0]
      = sig.take 32 ++ ((sig.drop 32).take 32 ++ (sig.drop 32).drop 32) := by rw [hd, List.append_assoc]
    _ = sig := by rw [List.take_append_drop, List.take_append_drop]

theorem ofNat_toNat_add_sub (b : UInt8) : UInt8.ofNat (b.toNat + 27) - 27 = b := by
  apply UInt8.toNat_inj.mp
  simp

section Recover

variable (ecrecover : Hash → List UInt8 → Except Error (List UInt8))

/-- `recoverPlain` of the values of a signature whose `V` is its recovery id
plus 27 hands `Ecrecover` the signature itself. -/
theorem recoverPlain_signature {sig : List UInt8} (hlen : sig.length = 65) (hv : sig.getD 64 0 < 2)
    (h : Hash) (homestead : Bool) :
    recoverPlain ecrecover h (ofBigEndian (sig.take 32)) (ofBigEndian ((sig.drop 32).take 32))
      ((sig.getD 64 0).toNat + 27 : Nat) homestead = signatureAddress ecrecover h sig homestead := by
  have hb : (sig.getD 64 0).toNat < 2 := hv
  have hR : padBytes 32 (bigEndian (ofBigEndian (sig.take 32))) = sig.take 32 :=
    padBytes_bigEndian_ofBigEndian (by simp [hlen])
  have hS : padBytes 32 (bigEndian (ofBigEndian ((sig.drop 32).take 32))) = (sig.drop 32).take 32 :=
    padBytes_bigEndian_ofBigEndian (by simp [hlen])
  unfold recoverPlain signatureAddress
  dsimp only
  rw [Int.natAbs_natCast, if_neg (by omega), ofNat_toNat_add_sub, hR, hS, take_append_take_drop_getD hlen]

end Recover

/-! ### The values of `V` -/

theorem toNat_add_of_lt {b k : UInt8} (hb : b < 2) (hk : k.toNat < 250) :
    (b + k).toNat = b.toNat + k.toNat := by
  have : b.toNat < 2 := hb
  rw [UInt8.toNat_add, Nat.mod_eq_of_lt (by simp; omega)]

theorem isProtectedV_recoveryId {b : Nat} (hb : b < 2) : isProtectedV (b + 27) = false := by
  unfold isProtectedV
  rw [if_pos (by omega)]
  rcases (show b = 0 ∨ b = 1 by omega) with rfl | rfl <;> rfl

theorem isProtectedV_of_le {v : Nat} (h : 29 ≤ v) : isProtectedV v = true := by
  unfold isProtectedV
  split
  · simp
    omega
  · rfl

theorem deriveChainId_eip155 {b : Nat} (hb : b < 2) (c : Nat) : deriveChainId (b + 35 + 2 * c) = c := by
  unfold deriveChainId
  split_ifs with h h'
  · omega
  · have hv : b + 35 + 2 * c + 2 ^ 64 - 35 = b + 2 * c + 2 ^ 64 := by omega
    rw [hv, Nat.add_mod_right, Nat.mod_eq_of_lt (by omega)]
    omega
  · omega

/-! ### Setting the signature values -/

namespace TxData

variable (c : Option Nat) (v r s : Nat) (tx : TxData)

@[simp] theorem type_setSignatureValues : (tx.setSignatureValues c v r s).type = tx.type := by
  cases tx <;> rfl

@[simp] theorem rawSignatureValues_setSignatureValues :
    (tx.setSignatureValues c v r s).rawSignatureValues = (v, r, s) := by
  cases tx <;> rfl

@[simp] theorem frontierFields_setSignatureValues :
    (tx.setSignatureValues c v r s).frontierFields = tx.frontierFields := by
  cases tx <;> rfl

@[simp] theorem eip155Fields_setSignatureValues (chainId : Nat) :
    (tx.setSignatureValues c v r s).eip155Fields chainId = tx.eip155Fields chainId := by
  simp only [eip155Fields, frontierFields_setSignatureValues]

end TxData

namespace Signer

open TxData

/-- No signer hashes `V`, `R` or `S`, nor the chain id a typed transaction
carries: the signed hash is the same before and after `WithSignature`. -/
@[simp] theorem hash_setSignatureValues (sg : Signer) (c : Option Nat) (v r s : Nat) (tx : TxData) :
    sg.hash (tx.setSignatureValues c v r s) = sg.hash tx := by
  cases sg <;> cases tx <;> rfl

/-! ### `Sender` on each kind of transaction -/

section Sender

variable (ecrecover : Hash → List UInt8 → Except Error (List UInt8))

/-- The chain-id signers all treat a legacy transaction as `EIP155Signer` does. -/
theorem legacy_of_chainID {sg : Signer} {c : Nat} (hs : sg.chainID = some c) (tx : LegacyTx) :
    sg.sender ecrecover (.legacy tx) = eip155Sender ecrecover c (.legacy tx) ∧
      sg.hash (.legacy tx) = eip155Hash c (.legacy tx) := by
  cases sg <;> simp only [chainID, reduceCtorEq, Option.some.injEq] at hs
  all_goals
    subst hs
    exact ⟨rfl, rfl⟩

theorem eip155Sender_protected {c : Nat} {tx : LegacyTx} (hp : isProtectedV tx.v = true)
    (hc : deriveChainId tx.v = c) :
    eip155Sender ecrecover c (.legacy tx) =
      recoverPlain ecrecover (eip155Hash c (.legacy tx)) tx.r tx.s ((tx.v : Int) - 2 * c - 8) true := by
  simp [eip155Sender, TxData.type, LegacyTxType, isProtected, hp, TxData.chainId, hc, rawSignatureValues]

theorem eip155Sender_unprotected (c : Nat) {tx : LegacyTx} (hp : isProtectedV tx.v = false) :
    eip155Sender ecrecover c (.legacy tx) = homesteadSender ecrecover (.legacy tx) := by
  simp [eip155Sender, TxData.type, LegacyTxType, isProtected, hp]

theorem eip155Sender_of_chainId_ne {c : Nat} {tx : LegacyTx} (hp : isProtectedV tx.v = true)
    (hc : deriveChainId tx.v ≠ c) : eip155Sender ecrecover c (.legacy tx) = .error ErrInvalidChainId := by
  simp [eip155Sender, TxData.type, LegacyTxType, isProtected, hp, TxData.chainId, hc]

/-- Frontier and Homestead recover a legacy transaction from its own `V`,
against the hash of the six payment fields. -/
theorem legacy_of_chainID_none {sg : Signer} (hs : sg.chainID = none) (tx : LegacyTx) :
    sg.sender ecrecover (.legacy tx) =
      recoverPlain ecrecover (sg.hash (.legacy tx)) tx.r tx.s tx.v sg.homesteadRules ∧
      sg.hash (.legacy tx) = frontierHash (.legacy tx) := by
  cases sg <;> simp only [chainID, reduceCtorEq] at hs
  all_goals exact ⟨rfl, rfl⟩

end Sender

/-! ### `SignatureValues` and `WithSignature` -/

theorem signatureValues_legacy_of_chainID {sg : Signer} {c : Nat} (hs : sg.chainID = some c) (tx : LegacyTx)
    (sig : List UInt8) : sg.signatureValues (.legacy tx) sig = eip155SignatureValues c (.legacy tx) sig := by
  cases sg <;> simp only [chainID, reduceCtorEq, Option.some.injEq] at hs
  all_goals
    subst hs
    rfl

theorem signatureValues_legacy_of_chainID_none {sg : Signer} (hs : sg.chainID = none) (tx : LegacyTx)
    (sig : List UInt8) : sg.signatureValues (.legacy tx) sig = frontierSignatureValues (.legacy tx) sig := by
  cases sg <;> simp only [chainID, reduceCtorEq] at hs
  all_goals rfl

theorem decodeSignature_of_length {sig : List UInt8} (h : sig.length = 65) :
    decodeSignature sig = some (ofBigEndian (sig.take 32), ofBigEndian ((sig.drop 32).take 32),
      (sig.getD 64 0 + 27).toNat) :=
  if_neg (not_not.mpr h)

theorem length_of_decodeSignature_map {α : Type} {sig : List UInt8} {f : Nat × Nat × Nat → α} {y : α}
    (h : (decodeSignature sig).map f = some y) : sig.length = 65 := by
  by_contra hne
  simp [decodeSignature, hne] at h

theorem frontierSignatureValues_eq_ok {tx : LegacyTx} {sig : List UInt8} {R S V : Nat}
    (h : frontierSignatureValues (.legacy tx) sig = some (.ok (R, S, V))) :
    sig.length = 65 ∧ R = ofBigEndian (sig.take 32) ∧ S = ofBigEndian ((sig.drop 32).take 32) ∧
      V = (sig.getD 64 0 + 27).toNat := by
  rw [frontierSignatureValues, if_neg (by simp [TxData.type, LegacyTxType])] at h
  have hlen := length_of_decodeSignature_map h
  rw [decodeSignature_of_length hlen] at h
  simp only [Option.map_some, Option.some.injEq, Except.ok.injEq, Prod.mk.injEq] at h
  obtain ⟨rfl, rfl, rfl⟩ := h
  exact ⟨hlen, rfl, rfl, rfl⟩

theorem eip155SignatureValues_eq_ok {c : Nat} {tx : LegacyTx} {sig : List UInt8} {R S V : Nat}
    (h : eip155SignatureValues c (.legacy tx) sig = some (.ok (R, S, V))) :
    sig.length = 65 ∧ R = ofBigEndian (sig.take 32) ∧ S = ofBigEndian ((sig.drop 32).take 32) ∧
      V = if c ≠ 0 then (sig.getD 64 0 + 35).toNat + 2 * c else (sig.getD 64 0 + 27).toNat := by
  rw [eip155SignatureValues, if_neg (by simp [TxData.type, LegacyTxType])] at h
  have hlen := length_of_decodeSignature_map h
  rw [decodeSignature_of_length hlen] at h
  simp only [Option.map_some, Option.some.injEq, Except.ok.injEq, Prod.mk.injEq] at h
  obtain ⟨rfl, rfl, rfl⟩ := h
  exact ⟨hlen, rfl, rfl, rfl⟩

theorem withSignature_eq_ok {sg : Signer} {tx tx' : TxData} {sig : List UInt8}
    (h : sg.withSignature tx sig = some (.ok tx')) :
    ∃ R S V, sg.signatureValues tx sig = some (.ok (R, S, V)) ∧ tx' = tx.setSignatureValues sg.chainID V R S := by
  unfold withSignature at h
  cases hv : sg.signatureValues tx sig with
  | none => simp [hv] at h
  | some e =>
    cases e with
    | error err => simp only [hv, Option.map_some, Except.map, Option.some.injEq, reduceCtorEq] at h
    | ok x =>
      obtain ⟨R, S, V⟩ := x
      simp only [hv, Option.map_some, Except.map, Option.some.injEq, Except.ok.injEq] at h
      exact ⟨R, S, V, rfl, h.symm⟩

theorem typedValues_eq_ok {cid c : Nat} {sig : List UInt8} {R S V : Nat}
    (h : (if cid ≠ 0 ∧ cid ≠ c then some (Except.error ErrInvalidChainId) else
      (decodeSignature sig).map fun (R, S, _) => Except.ok (R, S, (sig.getD 64 0).toNat)) =
        some (Except.ok (R, S, V))) :
    sig.length = 65 ∧ R = ofBigEndian (sig.take 32) ∧ S = ofBigEndian ((sig.drop 32).take 32) ∧
      V = (sig.getD 64 0).toNat := by
  split at h
  · cases h
  · have hlen := length_of_decodeSignature_map h
    rw [decodeSignature_of_length hlen] at h
    simp only [Option.map_some, Option.some.injEq, Except.ok.injEq, Prod.mk.injEq] at h
    obtain ⟨rfl, rfl, rfl⟩ := h
    exact ⟨hlen, rfl, rfl, rfl⟩

/-- Only `eip2930Signer` and `londonSigner` sign an access-list transaction,
and only `londonSigner` a dynamic-fee one. They take the recovery id itself
as `V`, give the transaction their chain id, and recover it with `V + 27`. -/
theorem typed_signatureValues_eq_ok (ecrecover : Hash → List UInt8 → Except Error (List UInt8))
    {sg : Signer} {tx : TxData} (ht : tx.type ≠ LegacyTxType) {sig : List UInt8} {R S V : Nat}
    (h : sg.signatureValues tx sig = some (.ok (R, S, V))) :
    ∃ c, sg.chainID = some c ∧ sig.length = 65 ∧ R = ofBigEndian (sig.take 32) ∧
      S = ofBigEndian ((sig.drop 32).take 32) ∧ V = (sig.getD 64 0).toNat ∧
      sg.sender ecrecover (tx.setSignatureValues (some c) V R S) =
        recoverPlain ecrecover (sg.hash tx) R S ((V : Int) + 27) true := by
  cases sg with
  | london c =>
    cases tx with
    | legacy l => exact absurd rfl ht
    | accessList a =>
      obtain ⟨hlen, hR, hS, hV⟩ := typedValues_eq_ok h
      refine ⟨c, rfl, hlen, hR, hS, hV, ?_⟩
      rw [← hash_setSignatureValues (london c) (some c) V R S]
      simp [sender, londonSender, eip2930Sender, hash, londonHash, setSignatureValues, TxData.chainId,
        rawSignatureValues]
    | dynamicFee d =>
      obtain ⟨hlen, hR, hS, hV⟩ := typedValues_eq_ok h
      refine ⟨c, rfl, hlen, hR, hS, hV, ?_⟩
      rw [← hash_setSignatureValues (london c) (some c) V R S]
      simp [sender, londonSender, hash, setSignatureValues, TxData.chainId, rawSignatureValues]
  | eip2930 c =>
    cases tx with
    | legacy l => exact absurd rfl ht
    | accessList a =>
      obtain ⟨hlen, hR, hS, hV⟩ := typedValues_eq_ok h
      refine ⟨c, rfl, hlen, hR, hS, hV, ?_⟩
      rw [← hash_setSignatureValues (eip2930 c) (some c) V R S]
      simp [sender, eip2930Sender, hash, setSignatureValues, TxData.chainId, rawSignatureValues]
    | dynamicFee d => cases h
  | eip155 c =>
    rw [signatureValues, eip155SignatureValues, if_pos ht] at h
    cases h
  | homestead | frontier =>
    rw [signatureValues, frontierSignatureValues, if_pos ht] at h
    cases h

/-! ### Recovering what was signed -/

section Recover

variable (ecrecover : Hash → List UInt8 → Except Error (List UInt8))

theorem homesteadRules_of_chainID {sg : Signer} {c : Nat} (hs : sg.chainID = some c) :
    sg.homesteadRules = true := by
  cases sg <;> simp_all [chainID, homesteadRules]

/-- A legacy transaction with an EIP-155 `V` for the signer's chain id is
recovered with the recovery id, against the signer's hash. -/
theorem sender_legacy_eip155 {sg : Signer} {c : Nat} (hs : sg.chainID = some c) {b : Nat} (hb : b < 2)
    (l : LegacyTx) (cid : Option Nat) (R S : Nat) :
    sg.sender ecrecover ((TxData.legacy l).setSignatureValues cid (b + 35 + 2 * c) R S) =
      recoverPlain ecrecover (sg.hash (.legacy l)) R S (b + 27 : Nat) true := by
  rw [← hash_setSignatureValues sg cid (b + 35 + 2 * c) R S]
  obtain ⟨hsend, hhash⟩ := legacy_of_chainID ecrecover hs { l with v := b + 35 + 2 * c, r := R, s := S }
  have hV : ((b + 35 + 2 * c : Nat) : Int) - 2 * c - 8 = (b + 27 : Nat) := by omega
  rw [setSignatureValues, hsend, hhash, eip155Sender_protected ecrecover (isProtectedV_of_le (show 29 ≤ b + 35 + 2 * c by omega))
    (deriveChainId_eip155 hb c), hV]

theorem sender_legacy_unprotected {sg : Signer} (hs : sg.chainID = none) (l : LegacyTx) (cid : Option Nat)
    (V R S : Nat) :
    sg.sender ecrecover ((TxData.legacy l).setSignatureValues cid V R S) =
      recoverPlain ecrecover (sg.hash (.legacy l)) R S V sg.homesteadRules := by
  rw [← hash_setSignatureValues sg cid V R S]
  exact (legacy_of_chainID_none ecrecover hs { l with v := V, r := R, s := S }).1

/-- Signing, then recovering: for every signer, every transaction it signs
and every signature with a recovery id, `Sender` of the signed transaction is
the address `Ecrecover` finds for the signed hash and the signature bytes,
unless a legacy transaction was signed at chain id zero. -/
theorem sender_withSignature {sg : Signer} {tx tx' : TxData} {sig : List UInt8}
    (hw : sg.withSignature tx sig = some (.ok tx')) (hv : sig.getD 64 0 < 2)
    (hc : tx.type = LegacyTxType → sg.chainID ≠ some 0) :
    sg.sender ecrecover tx' = signatureAddress ecrecover (sg.hash tx) sig sg.homesteadRules := by
  obtain ⟨R, S, V, hsv, rfl⟩ := withSignature_eq_ok hw
  have hb : (sig.getD 64 0).toNat < 2 := hv
  cases tx with
  | legacy l =>
    cases hs : sg.chainID with
    | none =>
      obtain ⟨hlen, rfl, rfl, rfl⟩ :=
        frontierSignatureValues_eq_ok (signatureValues_legacy_of_chainID_none hs l sig ▸ hsv)
      rw [sender_legacy_unprotected ecrecover hs, toNat_add_of_lt hv (by decide)]
      exact recoverPlain_signature ecrecover hlen hv _ _
    | some c =>
      have hc0 : c ≠ 0 := fun h0 => hc rfl (h0 ▸ hs)
      obtain ⟨hlen, rfl, rfl, rfl⟩ :=
        eip155SignatureValues_eq_ok (signatureValues_legacy_of_chainID hs l sig ▸ hsv)
      rw [if_pos hc0, toNat_add_of_lt hv (by decide), show (35 : UInt8).toNat = 35 from rfl,
        sender_legacy_eip155 ecrecover hs hb,
        homesteadRules_of_chainID hs]
      exact recoverPlain_signature ecrecover hlen hv _ _
  | accessList _ | dynamicFee _ =>
    obtain ⟨c, hs, hlen, rfl, rfl, rfl, hsend⟩ :=
      typed_signatureValues_eq_ok ecrecover (by simp [TxData.type, LegacyTxType, AccessListTxType,
        DynamicFeeTxType]) hsv
    have hV : ((sig.getD 64 0).toNat : Int) + 27 = ((sig.getD 64 0).toNat + 27 : Nat) := by push_cast; rfl
    rw [hs, hsend, homesteadRules_of_chainID hs, hV]
    exact recoverPlain_signature ecrecover hlen hv _ _

/-- A legacy transfer and a signature with recovery id 1, signed and recovered
by a recovery that finds the empty key. -/
def sampleTransfer : TxData := .legacy ⟨0, 1, 21000, none, 0, [], 0, 0, 0⟩

def sampleSignature : List UInt8 := List.replicate 65 1

def sampleRecover : Hash → List UInt8 → Except Error (List UInt8) := fun _ _ => .ok [4]

theorem sampleTransfer_recovers :
    ∃ tx', (eip155 1).withSignature sampleTransfer sampleSignature = some (.ok tx') ∧
      sampleSignature.getD 64 0 < 2 ∧ (sampleTransfer.type = LegacyTxType → (eip155 1).chainID ≠ some 0) ∧
      (eip155 1).sender sampleRecover tx' =
        signatureAddress sampleRecover ((eip155 1).hash sampleTransfer) sampleSignature true :=
  ⟨_, rfl, by decide, by decide, sender_withSignature sampleRecover rfl (by decide) (by decide)⟩

theorem length_encode_frontierFields_lt (tx : TxData) (c : Nat) :
    (encode (.list tx.frontierFields)).length < (encode (.list (tx.eip155Fields c))).length := by
  apply length_encode_list_lt
  have hpos : 0 < (encodeAll [uint c, uint 0, uint 0]).length := by
    rw [length_encodeAll_cons]
    have := encode_ne_nil (uint c)
    have := List.length_pos_of_ne_nil this
    omega
  rw [eip155Fields, length_encodeAll_append]
  omega

/-- At chain id zero a chain-id signer writes the unprotected `V = 27 + id`
into a legacy transaction. `Sender` then takes the Homestead path and
recovers against the hash of the six payment fields, while the signer signed
the nine fields of EIP-155, a longer encoding: the address it finds is not
the signer's, unless Keccak-256 collides. -/
theorem sender_withSignature_chainId_zero {sg : Signer} (hs : sg.chainID = some 0) {l : LegacyTx}
    {tx' : TxData} {sig : List UInt8} (hw : sg.withSignature (.legacy l) sig = some (.ok tx'))
    (hv : sig.getD 64 0 < 2) :
    sg.sender ecrecover tx' = signatureAddress ecrecover (frontierHash (.legacy l)) sig true ∧
      sg.hash (.legacy l) = eip155Hash 0 (.legacy l) ∧
      (encode (.list (TxData.legacy l).frontierFields)).length <
        (encode (.list ((TxData.legacy l).eip155Fields 0))).length := by
  obtain ⟨R, S, V, hsv, rfl⟩ := withSignature_eq_ok hw
  obtain ⟨hlen, rfl, rfl, rfl⟩ := eip155SignatureValues_eq_ok (signatureValues_legacy_of_chainID hs l sig ▸ hsv)
  have hb : (sig.getD 64 0).toNat < 2 := hv
  refine ⟨?_, (legacy_of_chainID ecrecover hs l).2, length_encode_frontierFields_lt _ 0⟩
  rw [if_neg (not_not.mpr rfl), toNat_add_of_lt hv (by decide), hs]
  calc sg.sender ecrecover ((TxData.legacy l).setSignatureValues (some 0) ((sig.getD 64 0).toNat + 27)
        (ofBigEndian (sig.take 32)) (ofBigEndian ((sig.drop 32).take 32)))
      = homesteadSender ecrecover ((TxData.legacy l).setSignatureValues (some 0) ((sig.getD 64 0).toNat + 27)
        (ofBigEndian (sig.take 32)) (ofBigEndian ((sig.drop 32).take 32))) := by
        rw [setSignatureValues, (legacy_of_chainID ecrecover hs _).1,
          eip155Sender_unprotected ecrecover 0 (isProtectedV_recoveryId hb)]
    _ = recoverPlain ecrecover (frontierHash (.legacy l)) (ofBigEndian (sig.take 32))
          (ofBigEndian ((sig.drop 32).take 32)) ((sig.getD 64 0).toNat + 27 : Nat) true :=
        sender_legacy_unprotected ecrecover (show homestead.chainID = none from rfl) l (some 0) _ _ _
    _ = signatureAddress ecrecover (frontierHash (.legacy l)) sig true := recoverPlain_signature ecrecover hlen hv _ _

theorem sampleTransfer_chainId_zero :
    ∃ tx', (eip155 0).chainID = some 0 ∧
      (eip155 0).withSignature sampleTransfer sampleSignature = some (.ok tx') ∧ sampleSignature.getD 64 0 < 2 ∧
      ((eip155 0).sender sampleRecover tx' =
          signatureAddress sampleRecover (frontierHash sampleTransfer) sampleSignature true ∧
        (eip155 0).hash sampleTransfer = eip155Hash 0 sampleTransfer ∧
        (encode (.list sampleTransfer.frontierFields)).length <
          (encode (.list (sampleTransfer.eip155Fields 0))).length) :=
  ⟨_, rfl, rfl, by decide, sender_withSignature_chainId_zero sampleRecover rfl rfl (by decide)⟩

/-- The chain id a chain-id signer leaves in what it signs, and that the
signed transaction is protected. -/
theorem chainId_withSignature {sg : Signer} {c : Nat} (hs : sg.chainID = some c) {tx tx' : TxData}
    {sig : List UInt8} (hw : sg.withSignature tx sig = some (.ok tx')) (hv : sig.getD 64 0 < 2)
    (hc : tx.type = LegacyTxType → c ≠ 0) : tx'.chainId = c ∧ tx'.isProtected = true := by
  obtain ⟨R, S, V, hsv, rfl⟩ := withSignature_eq_ok hw
  have hb : (sig.getD 64 0).toNat < 2 := hv
  cases tx with
  | legacy l =>
    obtain ⟨-, -, -, rfl⟩ := eip155SignatureValues_eq_ok (signatureValues_legacy_of_chainID hs l sig ▸ hsv)
    rw [if_pos (hc rfl), toNat_add_of_lt hv (by decide), show (35 : UInt8).toNat = 35 from rfl]
    exact ⟨deriveChainId_eip155 hb c, isProtectedV_of_le (show 29 ≤ (sig.getD 64 0).toNat + 35 + 2 * c by omega)⟩
  -- a typed transaction takes the signer's chain id
  | accessList a | dynamicFee d =>
    rw [hs]
    exact ⟨rfl, rfl⟩

/-- A protected transaction for another chain id is refused: for its chain
id, or for its type by a signer that does not know it. -/
theorem sender_of_chainId_ne {sg : Signer} {c : Nat} (hs : sg.chainID = some c) {tx : TxData}
    (hp : tx.isProtected = true) (hc : tx.chainId ≠ c) :
    sg.sender ecrecover tx = .error ErrInvalidChainId ∨ sg.sender ecrecover tx = .error ErrTxTypeNotSupported := by
  cases tx with
  | legacy l =>
    left
    rw [(legacy_of_chainID ecrecover hs l).1]
    exact eip155Sender_of_chainId_ne ecrecover hp hc
  | accessList a =>
    have hc' : a.chainID ≠ c := hc
    cases sg <;> simp only [chainID, reduceCtorEq, Option.some.injEq] at hs <;> subst hs
    · left
      simp [sender, londonSender, eip2930Sender, TxData.chainId, hc']
    · left
      simp [sender, eip2930Sender, TxData.chainId, hc']
    · right
      rfl
  | dynamicFee d =>
    have hc' : d.chainID ≠ c := hc
    cases sg <;> simp only [chainID, reduceCtorEq, Option.some.injEq] at hs <;> subst hs
    · left
      simp [sender, londonSender, TxData.chainId, hc']
    · right
      rfl
    · right
      rfl

/-- Replay protection: a transaction signed by a signer of one chain id,
with a protected `V`, is refused by every signer of another chain id. -/
theorem sender_other_chain_rejected {sg sg' : Signer} {c c' : Nat} (hs : sg.chainID = some c)
    (hs' : sg'.chainID = some c') (hne : c ≠ c') {tx tx' : TxData} {sig : List UInt8}
    (hw : sg.withSignature tx sig = some (.ok tx')) (hv : sig.getD 64 0 < 2)
    (hc : tx.type = LegacyTxType → c ≠ 0) :
    sg'.sender ecrecover tx' = .error ErrInvalidChainId ∨ sg'.sender ecrecover tx' = .error ErrTxTypeNotSupported := by
  obtain ⟨hcid, hp⟩ := chainId_withSignature hs hw hv hc
  exact sender_of_chainId_ne ecrecover hs' hp (hcid ▸ hne)

theorem sampleTransfer_replay_rejected :
    ∃ tx', (eip155 1).chainID = some 1 ∧ (london 2).chainID = some 2 ∧ (1 : Nat) ≠ 2 ∧
      (eip155 1).withSignature sampleTransfer sampleSignature = some (.ok tx') ∧ sampleSignature.getD 64 0 < 2 ∧
      (sampleTransfer.type = LegacyTxType → (1 : Nat) ≠ 0) ∧
      ((london 2).sender sampleRecover tx' = .error ErrInvalidChainId ∨
        (london 2).sender sampleRecover tx' = .error ErrTxTypeNotSupported) :=
  ⟨_, rfl, rfl, by decide, rfl, by decide, by decide,
    sender_other_chain_rejected sampleRecover (show (eip155 1).chainID = some 1 from rfl) rfl (by decide)
      (show (eip155 1).withSignature sampleTransfer sampleSignature = some (.ok _) from rfl) (by decide)
      (by decide)⟩

end Recover

end Signer

end Erbie
