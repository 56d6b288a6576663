import Erbie.Spec.TxCodec
import Erbie.Proofs.ExtraData

/-! The transaction codec is lawful: each kind of transaction decodes from its
encoding and from nothing else, and `UnmarshalBinary` and `DecodeRLP` tell the
kinds apart by the first byte and by the kind of the item. So the bytes of a
transaction are determined by the transaction, and its hash by the bytes it
was read from. -/

namespace Erbie

open Rlp Codec

/-! ### Fields -/

theorem decodeUint64_lawful : Lawful uint64Rlp decodeUint64 fun _ => True where
  dec_enc n _ := by
    have hn : n.toNat < 256 ^ (64 / 8) := by simpa using n.toNat_lt
    simp [decodeUint64, uint64Rlp, (decodeUint_lawful 64).dec_enc _ hn, Except.map]
  enc_dec i n h := by
    cases hd : decodeUint 64 i with
    | error e => simp [decodeUint64, hd, Except.map] at h
    | ok m =>
      simp only [decodeUint64, hd, Except.map, Except.ok.injEq] at h
      subst h
      have hm : m < 2 ^ 64 := by simpa using decodeUint_lt (by norm_num) hd
      rw [uint64Rlp, UInt64.toNat_ofNat_of_lt' hm]
      exact (decodeUint_lawful 64).enc_dec i m hd

/-- `To`, `nil` as the empty string. -/
theorem toAddr_lawful :
    Lawful (writeNilPtr .string addressRlp) (decodeNilString decodeAddress) fun _ => True := by
  have h := decodeNilPtr_lawful .string (by decide) decodeAddress_lawful fun a =>
    ⟨by simp [addressRlp], by simp [addressRlp, addressBytes]⟩
  exact ⟨fun o _ => h.dec_enc o fun _ _ => trivial, h.enc_dec⟩

/-! ### Transactions -/

theorem accessTuple_lawful : Lawful AccessTuple.rlp AccessTuple.ofRlp fun _ => True where
  dec_enc t _ := by
    simp only [AccessTuple.rlp, AccessTuple.ofRlp, ok_bind,
      decodeField_of_eq_ok (decodeAddress_lawful.dec_enc _ trivial),
      decodeField_of_eq_ok ((decodeListSlice_lawful decodeHash_lawful).dec_enc _ fun _ _ => trivial)]
    rfl
  enc_dec i t hd := by
    match i with
    | .str _ => cases hd
    | .list xs =>
      obtain ⟨x₁, xs, address, rfl, h₁, hd⟩ := decodeField_bind_eq_ok hd
      obtain ⟨x₂, xs, storageKeys, rfl, h₂, hd⟩ := decodeField_bind_eq_ok hd
      obtain ⟨rfl, hd⟩ := listEnd_bind_eq_ok hd
      cases hd
      obtain rfl := decodeAddress_lawful.enc_dec _ _ h₁
      obtain rfl := (decodeListSlice_lawful decodeHash_lawful).enc_dec _ _ h₂
      rfl

theorem legacyTx_lawful : Lawful LegacyTx.rlp LegacyTx.ofRlp fun _ => True where
  dec_enc tx _ := by
    simp only [LegacyTx.rlp, LegacyTx.ofRlp, ok_bind,
      decodeField_of_eq_ok (decodeUint64_lawful.dec_enc _ trivial),
      decodeField_of_eq_ok (decodeBigInt_lawful.dec_enc _ trivial),
      decodeField_of_eq_ok (toAddr_lawful.dec_enc _ trivial),
      decodeField_of_eq_ok (decodeByteSlice_lawful.dec_enc _ trivial)]
    rfl
  enc_dec i tx hd := by
    match i with
    | .str _ => cases hd
    | .list xs =>
      obtain ⟨x₁, xs, nonce, rfl, h₁, hd⟩ := decodeField_bind_eq_ok hd
      obtain ⟨x₂, xs, gasPrice, rfl, h₂, hd⟩ := decodeField_bind_eq_ok hd
      obtain ⟨x₃, xs, gas, rfl, h₃, hd⟩ := decodeField_bind_eq_ok hd
      obtain ⟨x₄, xs, toAddr, rfl, h₄, hd⟩ := decodeField_bind_eq_ok hd
      obtain ⟨x₅, xs, value, rfl, h₅, hd⟩ := decodeField_bind_eq_ok hd
      obtain ⟨x₆, xs, data, rfl, h₆, hd⟩ := decodeField_bind_eq_ok hd
      obtain ⟨x₇, xs, v, rfl, h₇, hd⟩ := decodeField_bind_eq_ok hd
      obtain ⟨x₈, xs, r, rfl, h₈, hd⟩ := decodeField_bind_eq_ok hd
      obtain ⟨x₉, xs, s, rfl, h₉, hd⟩ := decodeField_bind_eq_ok hd
      obtain ⟨rfl, hd⟩ := listEnd_bind_eq_ok hd
      cases hd
      obtain rfl := decodeUint64_lawful.enc_dec _ _ h₁
      obtain rfl := decodeBigInt_lawful.enc_dec _ _ h₂
      obtain rfl := decodeUint64_lawful.enc_dec _ _ h₃
      obtain rfl := toAddr_lawful.enc_dec _ _ h₄
      obtain rfl := decodeBigInt_lawful.enc_dec _ _ h₅
      obtain rfl := decodeByteSlice_lawful.enc_dec _ _ h₆
      obtain rfl := decodeBigInt_lawful.enc_dec _ _ h₇
      obtain rfl := decodeBigInt_lawful.enc_dec _ _ h₈
      obtain rfl := decodeBigInt_lawful.enc_dec _ _ h₉
      rfl

theorem accessListTx_lawful : Lawful AccessListTx.rlp AccessListTx.ofRlp fun _ => True where
  dec_enc tx _ := by
    simp only [AccessListTx.rlp, AccessListTx.ofRlp, ok_bind,
      decodeField_of_eq_ok (decodeUint64_lawful.dec_enc _ trivial),
      decodeField_of_eq_ok (decodeBigInt_lawful.dec_enc _ trivial),
      decodeField_of_eq_ok (toAddr_lawful.dec_enc _ trivial),
      decodeField_of_eq_ok (decodeByteSlice_lawful.dec_enc _ trivial),
      decodeField_of_eq_ok ((decodeListSlice_lawful accessTuple_lawful).dec_enc _ fun _ _ => trivial)]
    rfl
  enc_dec i tx hd := by
    match i with
    | .str _ => cases hd
    | .list xs =>
      obtain ⟨x₁, xs, chainID, rfl, h₁, hd⟩ := decodeField_bind_eq_ok hd
      obtain ⟨x₂, xs, nonce, rfl, h₂, hd⟩ := decodeField_bind_eq_ok hd
      obtain ⟨x₃, xs, gasPrice, rfl, h₃, hd⟩ := decodeField_bind_eq_ok hd
      obtain ⟨x₄, xs, gas, rfl, h₄, hd⟩ := decodeField_bind_eq_ok hd
      obtain ⟨x₅, xs, toAddr, rfl, h₅, hd⟩ := decodeField_bind_eq_ok hd
      obtain ⟨x₆, xs, value, rfl, h₆, hd⟩ := decodeField_bind_eq_ok hd
      obtain ⟨x₇, xs, data, rfl, h₇, hd⟩ := decodeField_bind_eq_ok hd
      obtain ⟨x₈, xs, accessList, rfl, h₈, hd⟩ := decodeField_bind_eq_ok hd
      obtain ⟨x₉, xs, v, rfl, h₉, hd⟩ := decodeField_bind_eq_ok hd
      obtain ⟨x₁₀, xs, r, rfl, h₁₀, hd⟩ := decodeField_bind_eq_ok hd
      obtain ⟨x₁₁, xs, s, rfl, h₁₁, hd⟩ := decodeField_bind_eq_ok hd
      obtain ⟨rfl, hd⟩ := listEnd_bind_eq_ok hd
      cases hd
      obtain rfl := decodeBigInt_lawful.enc_dec _ _ h₁
      obtain rfl := decodeUint64_lawful.enc_dec _ _ h₂
      obtain rfl := decodeBigInt_lawful.enc_dec _ _ h₃
      obtain rfl := decodeUint64_lawful.enc_dec _ _ h₄
      obtain rfl := toAddr_lawful.enc_dec _ _ h₅
      obtain rfl := decodeBigInt_lawful.enc_dec _ _ h₆
      obtain rfl := decodeByteSlice_lawful.enc_dec _ _ h₇
      obtain rfl := (decodeListSlice_lawful accessTuple_lawful).enc_dec _ _ h₈
      obtain rfl := decodeBigInt_lawful.enc_dec _ _ h₉
      obtain rfl := decodeBigInt_lawful.enc_dec _ _ h₁₀
      obtain rfl := decodeBigInt_lawful.enc_dec _ _ h₁₁
      rfl

theorem dynamicFeeTx_lawful : Lawful DynamicFeeTx.rlp DynamicFeeTx.ofRlp fun _ => True where
  dec_enc tx _ := by
    simp only [DynamicFeeTx.rlp, DynamicFeeTx.ofRlp, ok_bind,
      decodeField_of_eq_ok (decodeUint64_lawful.dec_enc _ trivial),
      decodeField_of_eq_ok (decodeBigInt_lawful.dec_enc _ trivial),
      decodeField_of_eq_ok (toAddr_lawful.dec_enc _ trivial),
      decodeField_of_eq_ok (decodeByteSlice_lawful.dec_enc _ trivial),
      decodeField_of_eq_ok ((decodeListSlice_lawful accessTuple_lawful).dec_enc _ fun _ _ => trivial)]
    rfl
  enc_dec i tx hd := by
    match i with
    | .str _ => cases hd
    | .list xs =>
      obtain ⟨x₁, xs, chainID, rfl, h₁, hd⟩ := decodeField_bind_eq_ok hd
      obtain ⟨x₂, xs, nonce, rfl, h₂, hd⟩ := decodeField_bind_eq_ok hd
      obtain ⟨x₃, xs, gasTipCap, rfl, h₃, hd⟩ := decodeField_bind_eq_ok hd
      obtain ⟨x₄, xs, gasFeeCap, rfl, h₄, hd⟩ := decodeField_bind_eq_ok hd
      obtain ⟨x₅, xs, gas, rfl, h₅, hd⟩ := decodeField_bind_eq_ok hd
      obtain ⟨x₆, xs, toAddr, rfl, h₆, hd⟩ := decodeField_bind_eq_ok hd
      obtain ⟨x₇, xs, value, rfl, h₇, hd⟩ := decodeField_bind_eq_ok hd
      obtain ⟨x₈, xs, data, rfl, h₈, hd⟩ := decodeField_bind_eq_ok hd
      obtain ⟨x₉, xs, accessList, rfl, h₉, hd⟩ := decodeField_bind_eq_ok hd
      obtain ⟨x₁₀, xs, v, rfl, h₁₀, hd⟩ := decodeField_bind_eq_ok hd
      obtain ⟨x₁₁, xs, r, rfl, h₁₁, hd⟩ := decodeField_bind_eq_ok hd
      obtain ⟨x₁₂, xs, s, rfl, h₁₂, hd⟩ := decodeField_bind_eq_ok hd
      obtain ⟨rfl, hd⟩ := listEnd_bind_eq_ok hd
      cases hd
      obtain rfl := decodeBigInt_lawful.enc_dec _ _ h₁
      obtain rfl := decodeUint64_lawful.enc_dec _ _ h₂
      obtain rfl := decodeBigInt_lawful.enc_dec _ _ h₃
      obtain rfl := decodeBigInt_lawful.enc_dec _ _ h₄
      obtain rfl := decodeUint64_lawful.enc_dec _ _ h₅
      obtain rfl := toAddr_lawful.enc_dec _ _ h₆
      obtain rfl := decodeBigInt_lawful.enc_dec _ _ h₇
      obtain rfl := decodeByteSlice_lawful.enc_dec _ _ h₈
      obtain rfl := (decodeListSlice_lawful accessTuple_lawful).enc_dec _ _ h₉
      obtain rfl := decodeBigInt_lawful.enc_dec _ _ h₁₀
      obtain rfl := decodeBigInt_lawful.enc_dec _ _ h₁₁
      obtain rfl := decodeBigInt_lawful.enc_dec _ _ h₁₂
      rfl

/-! ### Bytes -/

theorem decodeBytesAs_encode {α : Type} {enc : α → Item} {ofRlp : Item → Except String α}
    (h : Lawful enc ofRlp fun _ => True) (a : α) (hl : (encode (enc a)).length < 2 ^ 64) :
    decodeBytesAs ofRlp (encode (enc a)) = .ok a :=
  decodeBytesAs_eq_ok.2 ((h.comp decodeBytes_lawful).dec_enc a ⟨trivial, hl⟩)

theorem encode_of_decodeBytesAs {α : Type} {enc : α → Item} {ofRlp : Item → Except String α}
    {valid : α → Prop} (h : Lawful enc ofRlp valid) {b : List UInt8} {a : α}
    (hd : decodeBytesAs ofRlp b = .ok a) : encode (enc a) = b :=
  (h.comp decodeBytes_lawful).enc_dec b a (decodeBytesAs_eq_ok.1 hd)

theorem map_eq_ok {α β ε : Type} {f : α → β} {x : Except ε α} {b : β} (h : x.map f = .ok b) :
    ∃ a, x = .ok a ∧ f a = b := by
  cases x with
  | error e => cases h
  | ok a => exact ⟨a, rfl, Except.ok.inj h⟩

namespace TxData

theorem marshalBinary_typed {tx : TxData} (h : tx.type ≠ LegacyTxType) :
    tx.marshalBinary = UInt8.ofNat tx.type :: encode tx.inner := by
  rw [marshalBinary, if_neg h, encodeTyped]

theorem hash_eq (tx : TxData) : tx.hash = keccakHash tx.marshalBinary := by
  unfold hash marshalBinary encodeTyped
  split_ifs <;> rfl

theorem decodeTyped_eq_ok {b : List UInt8} {tx : TxData} (h : decodeTyped b = .ok tx) :
    tx.type ≠ LegacyTxType ∧ tx.marshalBinary = b := by
  match b with
  | [] => cases h
  | t :: b =>
    simp only [decodeTyped] at h
    split_ifs at h with h₁ h₂
    · obtain ⟨a, ha, rfl⟩ := map_eq_ok h
      have ht : UInt8.ofNat AccessListTxType = t := UInt8.toNat_inj.1 (by simp [← h₁])
      have hty : (accessList a).type ≠ LegacyTxType := by simp [type, AccessListTxType, LegacyTxType]
      refine ⟨hty, ?_⟩
      rw [marshalBinary_typed hty, type, ht, inner, encode_of_decodeBytesAs accessListTx_lawful ha]
    · obtain ⟨a, ha, rfl⟩ := map_eq_ok h
      have ht : UInt8.ofNat DynamicFeeTxType = t := UInt8.toNat_inj.1 (by simp [← h₂])
      have hty : (dynamicFee a).type ≠ LegacyTxType := by simp [type, DynamicFeeTxType, LegacyTxType]
      refine ⟨hty, ?_⟩
      rw [marshalBinary_typed hty, type, ht, inner, encode_of_decodeBytesAs dynamicFeeTx_lawful ha]

theorem marshalBinary_of_unmarshalBinary {b : List UInt8} {tx : TxData} (h : unmarshalBinary b = .ok tx) :
    tx.marshalBinary = b := by
  match b with
  | [] =>
    simp only [unmarshalBinary] at h
    exact (decodeTyped_eq_ok h).2
  | b₀ :: bs =>
    simp only [unmarshalBinary] at h
    split_ifs at h
    · obtain ⟨a, ha, rfl⟩ := map_eq_ok h
      exact encode_of_decodeBytesAs legacyTx_lawful ha
    · exact (decodeTyped_eq_ok h).2

theorem decodeTyped_marshalBinary (tx : TxData) (hty : tx.type ≠ LegacyTxType)
    (h : tx.marshalBinary.length < 2 ^ 64) : decodeTyped tx.marshalBinary = .ok tx := by
  rw [marshalBinary_typed hty] at h ⊢
  have hl : (encode tx.inner).length < 2 ^ 64 := by
    simp only [List.length_cons] at h
    omega
  cases tx with
  | legacy a => exact absurd rfl hty
  | accessList a =>
    rw [type, decodeTyped, if_pos (show (UInt8.ofNat AccessListTxType).toNat = AccessListTxType by decide),
      inner, decodeBytesAs_encode accessListTx_lawful a hl]
    rfl
  | dynamicFee a =>
    rw [type, decodeTyped, if_neg (show ¬ (UInt8.ofNat DynamicFeeTxType).toNat = AccessListTxType by decide),
      if_pos (show (UInt8.ofNat DynamicFeeTxType).toNat = DynamicFeeTxType by decide),
      inner, decodeBytesAs_encode dynamicFeeTx_lawful a hl]
    rfl

theorem unmarshalBinary_marshalBinary (tx : TxData) (h : tx.marshalBinary.length < 2 ^ 64) :
    unmarshalBinary tx.marshalBinary = .ok tx := by
  by_cases hty : tx.type = LegacyTxType
  · -- a list header starts the bytes, so they are read as a legacy transaction
    cases tx with
    | legacy a =>
      have hl : (encode a.rlp).length < 2 ^ 64 := h
      obtain ⟨c, rest, he, hc⟩ := encode_list_eq_cons _ (lt_trans (length_encodeAll_lt_encode_list _) hl)
      have hm : (TxData.legacy a).marshalBinary = encode a.rlp := rfl
      rw [hm, LegacyTx.rlp, he, unmarshalBinary, if_pos hc, ← he, ← LegacyTx.rlp,
        decodeBytesAs_encode legacyTx_lawful a hl]
      rfl
    | accessList a => exact absurd hty (by simp [type, AccessListTxType, LegacyTxType])
    | dynamicFee a => exact absurd hty (by simp [type, DynamicFeeTxType, LegacyTxType])
  · -- the type byte is below `0x80`
    have hle : tx.type ≤ 2 := by cases tx <;> simp [type, LegacyTxType, AccessListTxType, DynamicFeeTxType]
    have hb : ¬ (0x7f : UInt8) < UInt8.ofNat tx.type := by
      rw [UInt8.lt_iff_toNat_lt, UInt8.toNat_ofNat_of_lt' (by simp [UInt8.size]; omega)]
      simp only [UInt8.reduceToNat]
      omega
    have hd := decodeTyped_marshalBinary tx hty h
    rw [marshalBinary_typed hty] at hd ⊢
    rw [unmarshalBinary, if_neg hb, hd]

/-- The bytes of a transaction decode to it, and nothing else does:
`UnmarshalBinary` accepts exactly what `MarshalBinary` writes. -/
theorem unmarshalBinary_eq_ok_iff {b : List UInt8} {tx : TxData} (hb : b.length < 2 ^ 64) :
    unmarshalBinary b = .ok tx ↔ tx.marshalBinary = b := by
  constructor
  · exact marshalBinary_of_unmarshalBinary
  · rintro rfl
    exact unmarshalBinary_marshalBinary tx hb

/-- A contract creation of EIP-1559 with gas 21000, and its bytes. -/
def dynamicFeeSample : TxData := .dynamicFee ⟨1, 0, 1, 2, 21000, none, 0, [], [], 0, 1, 1⟩

def dynamicFeeSampleBytes : List UInt8 :=
  [0x02, 0xCE, 0x01, 0x80, 0x01, 0x02, 0x82, 0x52, 0x08, 0x80, 0x80, 0x80, 0xC0, 0x80, 0x01, 0x01]

theorem dynamicFeeSample_unmarshals :
    dynamicFeeSampleBytes.length < 2 ^ 64 ∧ dynamicFeeSample.marshalBinary = dynamicFeeSampleBytes ∧
      unmarshalBinary dynamicFeeSampleBytes = .ok dynamicFeeSample := by
  have hm : dynamicFeeSample.marshalBinary = dynamicFeeSampleBytes := by
    simp only [dynamicFeeSample, dynamicFeeSampleBytes]
    simp [TxData.marshalBinary, TxData.encodeTyped, TxData.type, TxData.inner, DynamicFeeTx.rlp, LegacyTxType,
      DynamicFeeTxType, bigEndian, uint, uint64Rlp, writeNilPtr, encode, encodeAll, header]
  exact ⟨by decide, hm, (unmarshalBinary_eq_ok_iff (by decide)).2 hm⟩

/-- A transaction read from bytes has the Keccak-256 hash of those bytes as its
hash. -/
theorem hash_of_unmarshalBinary {b : List UInt8} {tx : TxData} (h : unmarshalBinary b = .ok tx) :
    tx.hash = keccakHash b := by
  rw [hash_eq, marshalBinary_of_unmarshalBinary h]

/-- A legacy transfer-less contract creation, and its bytes. -/
def legacySample : TxData := .legacy ⟨0, 1, 21000, none, 0, [], 27, 1, 1⟩

def legacySampleBytes : List UInt8 := [0xCB, 0x80, 0x01, 0x82, 0x52, 0x08, 0x80, 0x80, 0x80, 0x1B, 0x01, 0x01]

theorem legacySample_hash :
    unmarshalBinary legacySampleBytes = .ok legacySample ∧ legacySample.hash = keccakHash legacySampleBytes := by
  have hm : legacySample.marshalBinary = legacySampleBytes := by
    simp only [legacySample, legacySampleBytes]
    simp [TxData.marshalBinary, TxData.type, TxData.inner, LegacyTx.rlp, LegacyTxType, bigEndian, uint, uint64Rlp, writeNilPtr, encode, encodeAll, header]
  have hd : unmarshalBinary legacySampleBytes = .ok legacySample := by
    rw [← hm]
    exact unmarshalBinary_marshalBinary _ (by rw [hm]; decide)
  exact ⟨hd, hash_of_unmarshalBinary hd⟩

theorem encodeRLP_typed {tx : TxData} (h : tx.type ≠ LegacyTxType) : tx.encodeRLP = .str tx.marshalBinary := by
  rw [encodeRLP, if_neg h, marshalBinary, if_neg h]

theorem encodeRLP_of_decodeRLP {i : Item} {tx : TxData} (h : decodeRLP i = .ok tx) : tx.encodeRLP = i := by
  match i with
  | .list xs =>
    simp only [decodeRLP] at h
    split at h
    · rename_i a ha
      cases h
      exact legacyTx_lawful.enc_dec _ a ha
    · cases h
  | .str bs =>
    -- a string holds a typed transaction
    have htyped : decodeTyped bs = .ok tx → tx.encodeRLP = .str bs := fun hd => by
      obtain ⟨hty, hm⟩ := decodeTyped_eq_ok hd
      rw [encodeRLP_typed hty, hm]
    simp only [decodeRLP] at h
    split at h
    · split_ifs at h
      exact htyped h
    · exact htyped h

theorem decodeRLP_encodeRLP (tx : TxData) (h : tx.marshalBinary.length < 2 ^ 64) :
    decodeRLP tx.encodeRLP = .ok tx := by
  by_cases hty : tx.type = LegacyTxType
  · cases tx with
    | legacy a =>
      have hd := legacyTx_lawful.dec_enc a trivial
      simp only [encodeRLP, type, inner, if_true, LegacyTx.rlp] at hd ⊢
      simp only [decodeRLP, hd]
    | accessList a => exact absurd hty (by simp [type, AccessListTxType, LegacyTxType])
    | dynamicFee a => exact absurd hty (by simp [type, DynamicFeeTxType, LegacyTxType])
  · -- the typed bytes are longer than one byte
    have hd := decodeTyped_marshalBinary tx hty h
    obtain ⟨c, rest, he⟩ := List.exists_cons_of_ne_nil (encode_ne_nil tx.inner)
    rw [encodeRLP_typed hty]
    rw [marshalBinary_typed hty, he] at hd ⊢
    exact hd

/-- Inside a block, a transaction decodes from its item and from nothing else. -/
theorem decodeRLP_eq_ok_iff {i : Item} {tx : TxData} (h : tx.marshalBinary.length < 2 ^ 64) :
    decodeRLP i = .ok tx ↔ tx.encodeRLP = i := by
  constructor
  · exact encodeRLP_of_decodeRLP
  · rintro rfl
    exact decodeRLP_encodeRLP tx h

/-- An EIP-2930 contract creation with an empty access list, and its item. -/
def accessListSample : TxData := .accessList ⟨1, 0, 1, 21000, none, 0, [], [], 0, 1, 1⟩

def accessListSampleItem : Item :=
  .str [0x01, 0xCD, 0x01, 0x80, 0x01, 0x82, 0x52, 0x08, 0x80, 0x80, 0x80, 0xC0, 0x80, 0x01, 0x01]

theorem accessListSample_decodes :
    accessListSample.marshalBinary.length < 2 ^ 64 ∧ accessListSample.encodeRLP = accessListSampleItem ∧
      decodeRLP accessListSampleItem = .ok accessListSample := by
  have hm : accessListSample.encodeRLP = accessListSampleItem := by
    simp only [accessListSample, accessListSampleItem]
    simp [TxData.encodeRLP, TxData.encodeTyped, TxData.type, TxData.inner, AccessListTx.rlp, LegacyTxType,
      AccessListTxType, bigEndian, uint, uint64Rlp, writeNilPtr, encode, encodeAll, header]
  have hl : accessListSample.marshalBinary.length < 2 ^ 64 := by
    simp only [accessListSample]
    simp [TxData.marshalBinary, TxData.encodeTyped, TxData.type, TxData.inner, AccessListTx.rlp, LegacyTxType,
      AccessListTxType, bigEndian, uint, uint64Rlp, writeNilPtr, encode, encodeAll, header]
  exact ⟨hl, hm, (decodeRLP_eq_ok_iff hl).2 hm⟩

end TxData

end Erbie
