import Erbie.Spec.ExtraData
import Erbie.Proofs.RlpDecode

/-! The extra data's codec is lawful when the header codec is: `IstanbulExtra`
decodes from its encoding and from nothing else. Hence a header's filtered copy
decodes to the cleared extra data, filtering twice is filtering once, and the
block hash of a filtered copy is the block hash. The codec of the header
fields this model keeps is such a header codec. -/

namespace Erbie

open Rlp Codec

/-! ### Addresses -/

/-- The `k` big-endian bytes of `n`, as `addressBytes` writes twenty. -/
def fixedBytes (k n : Nat) : List UInt8 := (List.range k).map fun i => UInt8.ofNat (n / 256 ^ (k - 1 - i))

theorem fixedBytes_succ (k n : Nat) : fixedBytes (k + 1) n = fixedBytes k (n / 256) ++ [UInt8.ofNat n] := by
  simp only [fixedBytes, List.range_succ, List.map_append, List.map_singleton, Nat.add_sub_cancel,
    Nat.sub_self, pow_zero, Nat.div_one, List.append_cancel_right_eq]
  apply List.map_congr_left
  intro i hi
  rw [List.mem_range] at hi
  rw [Nat.div_div_eq_div_mul, ← pow_succ']
  congr 3
  omega

theorem ofBigEndian_fixedBytes (k n : Nat) : ofBigEndian (fixedBytes k n) = n % 256 ^ k := by
  induction k generalizing n with
  | zero => simp [fixedBytes, ofBigEndian, Nat.mod_one]
  | succ k ih =>
    have hp : 256 ^ (k + 1) = 256 * 256 ^ k := pow_succ' 256 k
    rw [fixedBytes_succ, ofBigEndian_append_singleton, ih, UInt8.toNat_ofNat', hp, Nat.mod_mul]
    omega

theorem fixedBytes_ofBigEndian {bs : List UInt8} : fixedBytes bs.length (ofBigEndian bs) = bs := by
  induction bs using List.reverseRecOn with
  | nil => rfl
  | append_singleton init b ih =>
    have hb := b.toNat_lt
    rw [List.length_append, List.length_singleton, fixedBytes_succ, ofBigEndian_append_singleton]
    have hq : (256 * ofBigEndian init + b.toNat) / 256 = ofBigEndian init := by omega
    rw [hq, ih]
    congr 2
    apply UInt8.toNat_inj.1
    rw [UInt8.toNat_ofNat']
    omega

/-- A `[k]byte` array read as a number of `8 * k` bits. -/
theorem fixedWord_lawful (k : Nat) :
    Lawful (fun x : BitVec (8 * k) => Item.str (fixedBytes k x.toNat))
      (fun i => (decodeByteArray k i).map fun bs => BitVec.ofNat (8 * k) (ofBigEndian bs)) fun _ => True where
  dec_enc x _ := by
    have hlen : (fixedBytes k x.toNat).length = k := by simp [fixedBytes]
    have hlt : x.toNat < 256 ^ k := by
      have := x.isLt
      rwa [pow_mul] at this
    have hval : ofBigEndian (fixedBytes k x.toNat) = x.toNat := by
      rw [ofBigEndian_fixedBytes, Nat.mod_eq_of_lt hlt]
    simp [(decodeByteArray_lawful k).dec_enc _ hlen, Except.map, hval]
  enc_dec i x h := by
    cases hd : decodeByteArray k i with
    | error e => simp [hd, Except.map] at h
    | ok bs =>
      simp only [hd, Except.map, Except.ok.injEq] at h
      subst h
      have hi := (decodeByteArray_lawful k).enc_dec i bs hd
      have hlen : bs.length = k := by
        subst hi
        simp only [decodeByteArray] at hd
        split_ifs at hd with h1 h2
        omega
      have hlt : ofBigEndian bs < 2 ^ (8 * k) := by
        have h256 : (256 : Nat) ^ k = 2 ^ (8 * k) := by
          rw [pow_mul]
          norm_num
        have := ofBigEndian_lt bs
        rwa [hlen, h256] at this
      rw [BitVec.toNat_ofNat, Nat.mod_eq_of_lt hlt, ← hlen, fixedBytes_ofBigEndian, hi]

theorem decodeAddress_lawful : Lawful addressRlp decodeAddress fun _ => True :=
  fixedWord_lawful 20

/-! ### Structs -/

theorem decodeField_of_eq_ok {α : Type} {dec : Item → Except String α} {x : Item} {a : α} (h : dec x = .ok a)
    (xs : List Item) : decodeField dec (x :: xs) = .ok (a, xs) := by
  simp [h, Except.map]

/-- A struct's decoder past one field: the field was the next element. -/
theorem decodeField_bind_eq_ok {α β : Type} {dec : Item → Except String α} {xs : List Item}
    {f : α × List Item → Except String β} {b : β} (h : decodeField dec xs >>= f = .ok b) :
    ∃ x rest a, xs = x :: rest ∧ dec x = .ok a ∧ f (a, rest) = .ok b := by
  obtain ⟨⟨a, rest⟩, h₁, h₂⟩ := bind_eq_ok.1 h
  obtain ⟨x, rfl, hx⟩ := decodeField_eq_ok h₁
  exact ⟨x, rest, a, rfl, hx, h₂⟩

theorem listEnd_bind_eq_ok {β : Type} {xs : List Item} {f : Unit → Except String β} {b : β}
    (h : listEnd xs >>= f = .ok b) : xs = [] ∧ f () = .ok b := by
  obtain ⟨u, h₁, h₂⟩ := bind_eq_ok.1 h
  exact ⟨listEnd_eq_ok h₁, h₂⟩

theorem nilRlp_eq_writeNilPtr {α : Type} (f : α → Item) : nilRlp f = writeNilPtr .list f := by
  funext o
  cases o <;> rfl

/-- A pointer to a struct tagged `rlp:"nil"`, for values that never encode as
an empty string or list. -/
theorem decodeNilList_lawful {α : Type} {enc : α → Item} {dec : Item → Except String α} {valid : α → Prop}
    (h : Lawful enc dec valid) (hne : ∀ a, enc a ≠ .list [] ∧ enc a ≠ .str []) :
    Lawful (nilRlp enc) (decodeNilList dec) fun o => ∀ a ∈ o, valid a := by
  rw [nilRlp_eq_writeNilPtr]
  exact decodeNilPtr_lawful .list (by decide) h hne

section Codec

variable {encodeHeader : Header → Item} {decodeHeader : Item → Except String Header}
  {validHeader : Header → Prop}

theorem evilAction_lawful (hh : Lawful encodeHeader decodeHeader validHeader) :
    Lawful (EvilAction.rlp encodeHeader) (EvilAction.ofRlp decodeHeader)
      fun ea => ∀ h ∈ ea.evilHeaders, validHeader h where
  dec_enc ea hv := by
    simp only [EvilAction.rlp, EvilAction.ofRlp, decodeField_of_eq_ok (decodeBool_lawful.dec_enc _ trivial),
      ok_bind, decodeField_of_eq_ok ((decodeListSlice_lawful hh).dec_enc _ hv)]
    rfl
  enc_dec i ea hd := by
    match i with
    | .str _ => cases hd
    | .list xs =>
      obtain ⟨x₁, xs, handled, rfl, h₁, hd⟩ := decodeField_bind_eq_ok hd
      obtain ⟨x₂, xs, evilHeaders, rfl, h₂, hd⟩ := decodeField_bind_eq_ok hd
      obtain ⟨rfl, hd⟩ := listEnd_bind_eq_ok hd
      cases hd
      obtain rfl := decodeBool_lawful.enc_dec _ _ h₁
      obtain rfl := (decodeListSlice_lawful hh).enc_dec _ _ h₂
      rfl

theorem evilActionPtr_lawful (hh : Lawful encodeHeader decodeHeader validHeader) :
    Lawful (nilRlp (EvilAction.rlp encodeHeader)) (decodeNilList (EvilAction.ofRlp decodeHeader))
      fun o => ∀ ea ∈ o, ∀ h ∈ ea.evilHeaders, validHeader h :=
  decodeNilList_lawful (evilAction_lawful hh) fun _ => ⟨by simp [EvilAction.rlp], by simp [EvilAction.rlp]⟩

/-- The extra data whose evil headers the header codec admits. -/
def ValidExtra (validHeader : Header → Prop) (e : IstanbulExtra) : Prop :=
  ∀ ea ∈ e.evilAction, ∀ h ∈ ea.evilHeaders, validHeader h

theorem istanbulExtra_lawful (hh : Lawful encodeHeader decodeHeader validHeader) :
    Lawful (IstanbulExtra.rlp encodeHeader) (IstanbulExtra.ofRlp decodeHeader) (ValidExtra validHeader) where
  dec_enc e he := by
    have haddr := decodeListSlice_lawful decodeAddress_lawful
    have hseals := decodeListSlice_lawful decodeByteSlice_lawful
    simp only [IstanbulExtra.rlp, IstanbulExtra.ofRlp, ok_bind,
      decodeField_of_eq_ok (haddr.dec_enc _ fun _ _ => trivial),
      decodeField_of_eq_ok (decodeByteSlice_lawful.dec_enc _ trivial),
      decodeField_of_eq_ok (hseals.dec_enc _ fun _ _ => trivial),
      decodeField_of_eq_ok ((evilActionPtr_lawful hh).dec_enc _ he)]
    rfl
  enc_dec i e hd := by
    match i with
    | .str _ => cases hd
    | .list xs =>
      obtain ⟨x₁, xs, validators, rfl, h₁, hd⟩ := decodeField_bind_eq_ok hd
      obtain ⟨x₂, xs, proposerSeal, rfl, h₂, hd⟩ := decodeField_bind_eq_ok hd
      obtain ⟨x₃, xs, committedSeal, rfl, h₃, hd⟩ := decodeField_bind_eq_ok hd
      obtain ⟨x₄, xs, exchangerAddr, rfl, h₄, hd⟩ := decodeField_bind_eq_ok hd
      obtain ⟨x₅, xs, validatorAddr, rfl, h₅, hd⟩ := decodeField_bind_eq_ok hd
      obtain ⟨x₆, xs, rewardSeal, rfl, h₆, hd⟩ := decodeField_bind_eq_ok hd
      obtain ⟨x₇, xs, emptyBlockMessages, rfl, h₇, hd⟩ := decodeField_bind_eq_ok hd
      obtain ⟨x₈, xs, evilAction, rfl, h₈, hd⟩ := decodeField_bind_eq_ok hd
      obtain ⟨rfl, hd⟩ := listEnd_bind_eq_ok hd
      cases hd
      have haddr := decodeListSlice_lawful decodeAddress_lawful
      have hseals := decodeListSlice_lawful decodeByteSlice_lawful
      obtain rfl := haddr.enc_dec _ _ h₁
      obtain rfl := decodeByteSlice_lawful.enc_dec _ _ h₂
      obtain rfl := hseals.enc_dec _ _ h₃
      obtain rfl := haddr.enc_dec _ _ h₄
      obtain rfl := haddr.enc_dec _ _ h₅
      obtain rfl := hseals.enc_dec _ _ h₆
      obtain rfl := hseals.enc_dec _ _ h₇
      obtain rfl := (evilActionPtr_lawful hh).enc_dec _ _ h₈
      rfl

theorem decodeBytesAs_eq_ok {α : Type} {ofRlp : Item → Except String α} {b : List UInt8} {a : α} :
    decodeBytesAs ofRlp b = .ok a ↔ (decodeBytes b >>= ofRlp) = .ok a := by
  unfold decodeBytesAs
  split <;> simp_all

theorem istanbulExtra_bytes_lawful (hh : Lawful encodeHeader decodeHeader validHeader) :
    Lawful (IstanbulExtra.encode encodeHeader) (IstanbulExtra.decode decodeHeader)
      fun e => ValidExtra validHeader e ∧ (IstanbulExtra.encode encodeHeader e).length < 2 ^ 64 where
  dec_enc e he := decodeBytesAs_eq_ok.2 (((istanbulExtra_lawful hh).comp decodeBytes_lawful).dec_enc e he)
  enc_dec b e hd := ((istanbulExtra_lawful hh).comp decodeBytes_lawful).enc_dec b e (decodeBytesAs_eq_ok.1 hd)

/-- The extra data decodes from its encoding, and from nothing else. -/
theorem istanbulExtra_decode_eq_ok_iff (hh : Lawful encodeHeader decodeHeader validHeader)
    {e : IstanbulExtra} (he : ValidExtra validHeader e) {b : List UInt8} (hb : b.length < 2 ^ 64) :
    IstanbulExtra.decode decodeHeader b = .ok e ↔ IstanbulExtra.encode encodeHeader e = b := by
  constructor
  · exact (istanbulExtra_bytes_lawful hh).enc_dec b e
  · rintro rfl
    exact (istanbulExtra_bytes_lawful hh).dec_enc e ⟨he, hb⟩

/-! ### A header codec

The header fields this model keeps, in the order of `Header`'s RLP list with
the others left out: hashes and the nonce as byte arrays, the difficulty and
the number as big integers, the time as a `uint64`. A decoded header always
has a difficulty, so the codec admits the headers that have one. -/

theorem hashRlp_eq (h : Hash) : hashRlp h = .str (fixedBytes 32 h.toNat) := by
  simp only [hashRlp, Hash.bytes, fixedBytes, Item.str.injEq]
  apply List.map_congr_left
  intro i _
  apply UInt8.toNat_inj.1
  simp [Nat.toUInt8, UInt8.toNat_ofNat']

theorem decodeHash_lawful : Lawful hashRlp decodeHash fun _ => True := by
  have h := fixedWord_lawful 32
  rwa [show hashRlp = fun h => Item.str (fixedBytes 32 h.toNat) from funext hashRlp_eq]

def nonceRlp (x : BitVec 64) : Item := .str (fixedBytes 8 x.toNat)

def decodeNonce (i : Item) : Except String (BitVec 64) :=
  (decodeByteArray 8 i).map fun bs => BitVec.ofNat 64 (ofBigEndian bs)

theorem decodeNonce_lawful : Lawful nonceRlp decodeNonce fun _ => True :=
  fixedWord_lawful 8

def headerRlp (h : Header) : Item :=
  .list [hashRlp h.parentHash, addressRlp h.coinbase, hashRlp h.root, uint (h.difficulty.getD 0),
    uint h.number, uint h.time, .str h.extra, hashRlp h.mixDigest, nonceRlp h.nonce]

def decodeHeaderRlp : Item → Except String Header
  | .list xs => do
    let (parentHash, xs) ← decodeField decodeHash xs
    let (coinbase, xs) ← decodeField decodeAddress xs
    let (root, xs) ← decodeField decodeHash xs
    let (difficulty, xs) ← decodeField decodeBigInt xs
    let (number, xs) ← decodeField decodeBigInt xs
    let (time, xs) ← decodeField (decodeUint 64) xs
    let (extra, xs) ← decodeField decodeByteSlice xs
    let (mixDigest, xs) ← decodeField decodeHash xs
    let (nonce, xs) ← decodeField decodeNonce xs
    listEnd xs
    pure ⟨parentHash, coinbase, root, some difficulty, number, time, extra, mixDigest, nonce⟩
  | .str _ => .error errExpectedList

/-- The headers `headerRlp` writes faithfully: with a difficulty, and a time
that fits 64 bits. -/
def ValidHeader (h : Header) : Prop := h.difficulty.isSome ∧ h.time < 256 ^ (64 / 8)

theorem headerRlp_lawful : Lawful headerRlp decodeHeaderRlp ValidHeader where
  dec_enc h hv := by
    obtain ⟨d, hd⟩ := Option.isSome_iff_exists.1 hv.1
    simp only [headerRlp, decodeHeaderRlp, ok_bind, hd, Option.getD_some,
      decodeField_of_eq_ok (decodeHash_lawful.dec_enc _ trivial),
      decodeField_of_eq_ok (decodeAddress_lawful.dec_enc _ trivial),
      decodeField_of_eq_ok (decodeBigInt_lawful.dec_enc _ trivial),
      decodeField_of_eq_ok ((decodeUint_lawful 64).dec_enc _ hv.2),
      decodeField_of_eq_ok (decodeByteSlice_lawful.dec_enc _ trivial),
      decodeField_of_eq_ok (decodeNonce_lawful.dec_enc _ trivial)]
    cases h
    cases hd
    rfl
  enc_dec i h hd := by
    match i with
    | .str _ => cases hd
    | .list xs =>
      obtain ⟨x₁, xs, parentHash, rfl, h₁, hd⟩ := decodeField_bind_eq_ok hd
      obtain ⟨x₂, xs, coinbase, rfl, h₂, hd⟩ := decodeField_bind_eq_ok hd
      obtain ⟨x₃, xs, root, rfl, h₃, hd⟩ := decodeField_bind_eq_ok hd
      obtain ⟨x₄, xs, difficulty, rfl, h₄, hd⟩ := decodeField_bind_eq_ok hd
      obtain ⟨x₅, xs, number, rfl, h₅, hd⟩ := decodeField_bind_eq_ok hd
      obtain ⟨x₆, xs, time, rfl, h₆, hd⟩ := decodeField_bind_eq_ok hd
      obtain ⟨x₇, xs, extra, rfl, h₇, hd⟩ := decodeField_bind_eq_ok hd
      obtain ⟨x₈, xs, mixDigest, rfl, h₈, hd⟩ := decodeField_bind_eq_ok hd
      obtain ⟨x₉, xs, nonce, rfl, h₉, hd⟩ := decodeField_bind_eq_ok hd
      obtain ⟨rfl, hd⟩ := listEnd_bind_eq_ok hd
      cases hd
      obtain rfl := decodeHash_lawful.enc_dec _ _ h₁
      obtain rfl := decodeAddress_lawful.enc_dec _ _ h₂
      obtain rfl := decodeHash_lawful.enc_dec _ _ h₃
      obtain rfl := decodeBigInt_lawful.enc_dec _ _ h₄
      obtain rfl := decodeBigInt_lawful.enc_dec _ _ h₅
      obtain rfl := (decodeUint_lawful 64).enc_dec _ _ h₆
      obtain rfl := decodeByteSlice_lawful.enc_dec _ _ h₇
      obtain rfl := decodeHash_lawful.enc_dec _ _ h₈
      obtain rfl := decodeNonce_lawful.enc_dec _ _ h₉
      rfl

/-! Extra data with every field set, an evil action of one header among
them, and a header of block 2 whose extra data is the zero vanity followed by
its encoding. -/

def evilHeader : Header where
  parentHash := 0
  coinbase := 11
  root := 0
  difficulty := some DefaultDifficulty
  number := 1
  time := 0
  extra := List.replicate IstanbulExtraVanity 0
  mixDigest := IstanbulDigest
  nonce := 0

def filledExtra : IstanbulExtra where
  validators := [10, 11]
  proposerSeal := List.replicate IstanbulExtraSeal 1
  committedSeal := [List.replicate IstanbulExtraSeal 10, List.replicate IstanbulExtraSeal 11]
  exchangerAddr := [12]
  validatorAddr := [10]
  rewardSeal := [List.replicate IstanbulExtraSeal 10]
  emptyBlockMessages := [List.replicate IstanbulExtraSeal 11]
  evilAction := some ⟨false, [evilHeader]⟩

theorem filledExtra_valid : ValidExtra ValidHeader filledExtra := by
  intro ea hea h hh
  cases hea
  rw [List.mem_singleton.mp hh]
  exact ⟨rfl, by decide⟩

theorem filledExtra_decodes :
    (IstanbulExtra.encode headerRlp filledExtra).length < 2 ^ 64 ∧
      IstanbulExtra.decode decodeHeaderRlp (IstanbulExtra.encode headerRlp filledExtra) = .ok filledExtra := by
  have hlen : (IstanbulExtra.encode headerRlp filledExtra).length < 2 ^ 64 := by decide +kernel
  exact ⟨hlen, (istanbulExtra_decode_eq_ok_iff headerRlp_lawful filledExtra_valid hlen).2 rfl⟩

def filledHeader : Header where
  parentHash := 0
  coinbase := 10
  root := 0
  difficulty := some DefaultDifficulty
  number := 2
  time := 0
  extra := List.replicate IstanbulExtraVanity 0 ++ IstanbulExtra.encode headerRlp filledExtra
  mixDigest := IstanbulDigest
  nonce := 0

def plainCrypto : Crypto where
  decodeExtra _ := .error ErrInvalidIstanbulHeaderExtra
  hash _ := 0
  sigHash _ := 0
  getSignatureAddress _ _ := .error ErrInvalidSignature

theorem filledHeader_extract :
    (plainCrypto.withRlp decodeHeaderRlp).extractIstanbulExtra filledHeader = .ok filledExtra := by
  have hvan : (List.replicate IstanbulExtraVanity (0 : UInt8)).length = IstanbulExtraVanity := List.length_replicate
  have hshort : ¬filledHeader.extra.length < IstanbulExtraVanity := by simp [filledHeader]
  unfold Crypto.extractIstanbulExtra
  rw [if_neg hshort]
  simp only [Crypto.withRlp, filledHeader, List.drop_left' hvan]
  exact filledExtra_decodes.2

/-! ### The filtered header -/

theorem length_encode_clearEmpty_le (e : IstanbulExtra) :
    (IstanbulExtra.encode encodeHeader e.clearEmpty).length ≤ (IstanbulExtra.encode encodeHeader e).length := by
  simp only [IstanbulExtra.encode, IstanbulExtra.rlp, IstanbulExtra.clearEmpty, List.map_nil]
  apply length_encode_list_le
  refine .cons (length_encode_list_nil_le _) (.cons (length_encode_str_nil_le _) ?_)
  refine .cons (length_encode_list_nil_le _) (.cons (length_encode_list_nil_le _) ?_)
  refine .cons (length_encode_list_nil_le _) (.cons (length_encode_list_nil_le _) ?_)
  exact .cons (length_encode_list_nil_le _) (.cons le_rfl .nil)

theorem length_encode_clearSeals_le (e : IstanbulExtra) (keepSeal : Bool) :
    (IstanbulExtra.encode encodeHeader (e.clearSeals keepSeal)).length ≤
      (IstanbulExtra.encode encodeHeader e).length := by
  have hrest : ∀ l : List Item, List.Forall₂ (fun x y => (encode x).length ≤ (encode y).length) l l :=
    fun l => List.forall₂_same.2 fun _ _ => le_rfl
  simp only [IstanbulExtra.encode, IstanbulExtra.rlp]
  apply length_encode_list_le
  cases keepSeal
  · simp only [IstanbulExtra.clearSeals, Bool.false_eq_true, ↓reduceIte, List.map_nil]
    exact .cons le_rfl (.cons (length_encode_str_nil_le _) (.cons (length_encode_list_nil_le _) (hrest _)))
  · simp only [IstanbulExtra.clearSeals, ↓reduceIte, List.map_nil]
    exact .cons le_rfl (.cons le_rfl (.cons (length_encode_list_nil_le _) (hrest _)))

variable (c : Crypto)

theorem extractIstanbulExtra_withRlp (h : Header) :
    (c.withRlp decodeHeader).extractIstanbulExtra h =
      if h.extra.length < IstanbulExtraVanity then .error ErrInvalidIstanbulHeaderExtra
      else IstanbulExtra.decode decodeHeader (h.extra.drop IstanbulExtraVanity) := rfl

/-- A header whose extra data is its vanity followed by an encoding decodes to
what was encoded. -/
theorem extract_withExtra (hh : Lawful encodeHeader decodeHeader validHeader) {h : Header}
    (hv : IstanbulExtraVanity ≤ h.extra.length) {e : IstanbulExtra} (he : ValidExtra validHeader e)
    (hlen : (IstanbulExtra.encode encodeHeader e).length < 2 ^ 64) :
    (c.withRlp decodeHeader).extractIstanbulExtra
      { h with extra := h.extra.take IstanbulExtraVanity ++ IstanbulExtra.encode encodeHeader e } = .ok e := by
  have htake : (h.extra.take IstanbulExtraVanity).length = IstanbulExtraVanity := by simp; omega
  rw [extractIstanbulExtra_withRlp, if_neg (by simp; omega)]
  simp only
  rw [List.drop_left' htake]
  exact (istanbulExtra_bytes_lawful hh).dec_enc e ⟨he, hlen⟩

theorem encode_of_extract (hh : Lawful encodeHeader decodeHeader validHeader) {h : Header} {e : IstanbulExtra}
    (hd : (c.withRlp decodeHeader).extractIstanbulExtra h = .ok e) (hlen : h.extra.length < 2 ^ 64) :
    IstanbulExtraVanity ≤ h.extra.length ∧
      IstanbulExtra.encode encodeHeader e = h.extra.drop IstanbulExtraVanity := by
  rw [extractIstanbulExtra_withRlp] at hd
  split_ifs at hd with hv
  refine ⟨by omega, ?_⟩
  have hb : (h.extra.drop IstanbulExtraVanity).length < 2 ^ 64 := by simp; omega
  exact (istanbulExtra_bytes_lawful hh).enc_dec _ _ hd

theorem istanbulFilteredHeader_eq {h : Header} {e : IstanbulExtra}
    (hd : (c.withRlp decodeHeader).extractIstanbulExtra h = .ok e) (keepSeal : Bool) :
    (c.withRlp decodeHeader).istanbulFilteredHeader encodeHeader h keepSeal =
      some { h with
        extra := h.extra.take IstanbulExtraVanity ++ IstanbulExtra.encode encodeHeader
          (if h.coinbase = zeroAddress ∧ 0 < h.number then e.clearEmpty else e.clearSeals keepSeal) } := by
  simp only [Crypto.istanbulFilteredHeader, hd]
  split_ifs <;> rfl

theorem length_encode_filtered_le (encodeHeader : Header → Item) (h : Header) (e : IstanbulExtra) (keepSeal : Bool) :
    (IstanbulExtra.encode encodeHeader
      (if h.coinbase = zeroAddress ∧ 0 < h.number then e.clearEmpty else e.clearSeals keepSeal)).length ≤
      (IstanbulExtra.encode encodeHeader e).length := by
  split_ifs
  · exact length_encode_clearEmpty_le e
  · exact length_encode_clearSeals_le e keepSeal

theorem extract_filtered (hh : Lawful encodeHeader decodeHeader validHeader) {h : Header}
    {e : IstanbulExtra} (hd : (c.withRlp decodeHeader).extractIstanbulExtra h = .ok e)
    (he : ValidExtra validHeader e) (hlen : h.extra.length < 2 ^ 64) (keepSeal : Bool) :
    (c.withRlp decodeHeader).extractIstanbulExtra
      { h with
        extra := h.extra.take IstanbulExtraVanity ++ IstanbulExtra.encode encodeHeader
          (if h.coinbase = zeroAddress ∧ 0 < h.number then e.clearEmpty else e.clearSeals keepSeal) } =
      .ok (if h.coinbase = zeroAddress ∧ 0 < h.number then e.clearEmpty else e.clearSeals keepSeal) := by
  obtain ⟨hv, henc⟩ := encode_of_extract c hh hd hlen
  have hsize := length_encode_filtered_le encodeHeader h e keepSeal
  rw [henc, List.length_drop] at hsize
  -- the cleared extra keeps the evil action, so the header codec still admits it
  have he' : ValidExtra validHeader
      (if h.coinbase = zeroAddress ∧ 0 < h.number then e.clearEmpty else e.clearSeals keepSeal) := by
    split_ifs
    · exact he
    · cases keepSeal <;> exact he
  exact extract_withExtra c hh hv he' (by omega)

/-- The copy `IstanbulFilteredHeader` makes of a decodable header keeps every
field but the extra data, whose vanity stays and whose `IstanbulExtra` is the
header's with the seals cleared; for an empty block, all but the evil action. -/
theorem istanbulFilteredHeader_extract (hh : Lawful encodeHeader decodeHeader validHeader) {h : Header}
    {e : IstanbulExtra} (hd : (c.withRlp decodeHeader).extractIstanbulExtra h = .ok e)
    (he : ValidExtra validHeader e) (hlen : h.extra.length < 2 ^ 64) (keepSeal : Bool) :
    ∃ h', (c.withRlp decodeHeader).istanbulFilteredHeader encodeHeader h keepSeal = some h' ∧
      h' = { h with extra := h'.extra } ∧
      h'.extra.take IstanbulExtraVanity = h.extra.take IstanbulExtraVanity ∧
      (c.withRlp decodeHeader).extractIstanbulExtra h' =
        .ok (if h.coinbase = zeroAddress ∧ 0 < h.number then e.clearEmpty else e.clearSeals keepSeal) := by
  have hv := (encode_of_extract c hh hd hlen).1
  have htake : (h.extra.take IstanbulExtraVanity).length = IstanbulExtraVanity := by simp; omega
  exact ⟨_, istanbulFilteredHeader_eq c hd keepSeal, rfl, List.take_left' htake,
    extract_filtered c hh hd he hlen keepSeal⟩

theorem filledHeader_filtered :
    (plainCrypto.withRlp decodeHeaderRlp).extractIstanbulExtra filledHeader = .ok filledExtra ∧
      ∃ h', (plainCrypto.withRlp decodeHeaderRlp).istanbulFilteredHeader headerRlp filledHeader false = some h' ∧
        h' = { filledHeader with extra := h'.extra } ∧
        h'.extra.take IstanbulExtraVanity = filledHeader.extra.take IstanbulExtraVanity ∧
        (plainCrypto.withRlp decodeHeaderRlp).extractIstanbulExtra h' =
          .ok (if filledHeader.coinbase = zeroAddress ∧ 0 < filledHeader.number then filledExtra.clearEmpty
            else filledExtra.clearSeals false) :=
  ⟨filledHeader_extract, istanbulFilteredHeader_extract plainCrypto headerRlp_lawful filledHeader_extract
    filledExtra_valid (by decide +kernel) false⟩

theorem clear_clear (h : Header) (e : IstanbulExtra) (keepSeal : Bool) :
    (if h.coinbase = zeroAddress ∧ 0 < h.number then
      (if h.coinbase = zeroAddress ∧ 0 < h.number then e.clearEmpty else e.clearSeals keepSeal).clearEmpty
    else (if h.coinbase = zeroAddress ∧ 0 < h.number then e.clearEmpty else e.clearSeals keepSeal).clearSeals keepSeal) =
      (if h.coinbase = zeroAddress ∧ 0 < h.number then e.clearEmpty else e.clearSeals keepSeal) := by
  split_ifs
  · rfl
  · cases keepSeal <;> rfl

/-- Filtering a filtered header changes nothing. -/
theorem istanbulFilteredHeader_idem (hh : Lawful encodeHeader decodeHeader validHeader) {h : Header}
    {e : IstanbulExtra} (hd : (c.withRlp decodeHeader).extractIstanbulExtra h = .ok e)
    (he : ValidExtra validHeader e) (hlen : h.extra.length < 2 ^ 64) (keepSeal : Bool) :
    ((c.withRlp decodeHeader).istanbulFilteredHeader encodeHeader h keepSeal).bind
        (fun h' => (c.withRlp decodeHeader).istanbulFilteredHeader encodeHeader h' keepSeal) =
      (c.withRlp decodeHeader).istanbulFilteredHeader encodeHeader h keepSeal := by
  have hv := (encode_of_extract c hh hd hlen).1
  have htake : (h.extra.take IstanbulExtraVanity).length = IstanbulExtraVanity := by simp; omega
  rw [istanbulFilteredHeader_eq c hd keepSeal, Option.bind_some,
    istanbulFilteredHeader_eq c (extract_filtered c hh hd he hlen keepSeal) keepSeal]
  simp only [List.take_left' htake, clear_clear]

theorem filledHeader_filtered_idem :
    (plainCrypto.withRlp decodeHeaderRlp).extractIstanbulExtra filledHeader = .ok filledExtra ∧
      ((plainCrypto.withRlp decodeHeaderRlp).istanbulFilteredHeader headerRlp filledHeader true).bind
          (fun h' => (plainCrypto.withRlp decodeHeaderRlp).istanbulFilteredHeader headerRlp h' true) =
        (plainCrypto.withRlp decodeHeaderRlp).istanbulFilteredHeader headerRlp filledHeader true :=
  ⟨filledHeader_extract, istanbulFilteredHeader_idem plainCrypto headerRlp_lawful filledHeader_extract
    filledExtra_valid (by decide +kernel) true⟩

/-- Where the mix digest is `IstanbulDigest`, the block hash of a header is
the hash of its filtered copy, and that copy has the same block hash. -/
theorem headerHash_filteredHeader (hh : Lawful encodeHeader decodeHeader validHeader) {h : Header}
    {e : IstanbulExtra} (hd : (c.withRlp decodeHeader).extractIstanbulExtra h = .ok e)
    (he : ValidExtra validHeader e) (hlen : h.extra.length < 2 ^ 64) (hmix : h.mixDigest = IstanbulDigest) :
    ∃ h', (c.withRlp decodeHeader).filteredHeader encodeHeader h = some h' ∧
      (c.withRlp decodeHeader).headerHash encodeHeader h = rlpHash encodeHeader h' ∧
      (c.withRlp decodeHeader).headerHash encodeHeader h' = (c.withRlp decodeHeader).headerHash encodeHeader h := by
  obtain ⟨h', hf, hrest, -, hd'⟩ := istanbulFilteredHeader_extract c hh hd he hlen true
  have hidem := istanbulFilteredHeader_idem c hh hd he hlen true
  rw [hf, Option.bind_some] at hidem
  have hfil : (c.withRlp decodeHeader).filteredHeader encodeHeader h = some h' := by
    simp only [Crypto.filteredHeader, hd, hf]
  -- the copy decodes too, so it is filtered as an Istanbul header, to itself
  have hfil' : (c.withRlp decodeHeader).filteredHeader encodeHeader h' = some h' := by
    simp only [Crypto.filteredHeader, hd', hidem]
  have hmix' : h'.mixDigest = IstanbulDigest := by
    rw [hrest]
    exact hmix
  have hhash : (c.withRlp decodeHeader).headerHash encodeHeader h = rlpHash encodeHeader h' := by
    simp only [Crypto.headerHash, hmix, hfil, if_true]
  refine ⟨h', hfil, hhash, ?_⟩
  rw [hhash]
  simp only [Crypto.headerHash, hmix', hfil', if_true]

theorem filledHeader_hash :
    (plainCrypto.withRlp decodeHeaderRlp).extractIstanbulExtra filledHeader = .ok filledExtra ∧
      filledHeader.mixDigest = IstanbulDigest ∧
      ∃ h', (plainCrypto.withRlp decodeHeaderRlp).filteredHeader headerRlp filledHeader = some h' ∧
        (plainCrypto.withRlp decodeHeaderRlp).headerHash headerRlp filledHeader = rlpHash headerRlp h' ∧
        (plainCrypto.withRlp decodeHeaderRlp).headerHash headerRlp h' =
          (plainCrypto.withRlp decodeHeaderRlp).headerHash headerRlp filledHeader :=
  ⟨filledHeader_extract, rfl, headerHash_filteredHeader plainCrypto headerRlp_lawful filledHeader_extract
    filledExtra_valid (by decide +kernel) rfl⟩

end Codec

end Erbie
