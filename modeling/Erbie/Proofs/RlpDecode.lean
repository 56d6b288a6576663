import Erbie.Spec.RlpDecode
import Erbie.Lib.Codec

/-! Decoding inverts encoding, and only encodings decode: `decodeBytes b = .ok x`
exactly when `b = encode x`, for every input shorter than `2 ^ 64` bytes, the
sizes a header can carry. `readKind` is inverted once (`readKind_eq_ok`), and
both directions of the item decoder are inductions on its fuel over one spec
lemma, `decodeAll_succ_eq_ok`. -/

namespace Rlp

/-! ### Big-endian numbers -/

theorem foldl_ofBigEndian (bs : List UInt8) (acc : Nat) :
    bs.foldl (fun acc b => 256 * acc + b.toNat) acc = acc * 256 ^ bs.length + ofBigEndian bs := by
  induction bs generalizing acc with
  | nil => simp [ofBigEndian]
  | cons b bs ih =>
    simp only [ofBigEndian, List.foldl_cons] at ih ⊢
    rw [ih, ih (256 * 0 + b.toNat), List.length_cons, pow_succ]
    ring

theorem ofBigEndian_cons (b : UInt8) (bs : List UInt8) :
    ofBigEndian (b :: bs) = b.toNat * 256 ^ bs.length + ofBigEndian bs := by
  rw [ofBigEndian, List.foldl_cons, foldl_ofBigEndian]
  simp

theorem ofBigEndian_append_singleton (bs : List UInt8) (b : UInt8) :
    ofBigEndian (bs ++ [b]) = 256 * ofBigEndian bs + b.toNat := by
  simp [ofBigEndian, List.foldl_append]

theorem ofBigEndian_lt (bs : List UInt8) : ofBigEndian bs < 256 ^ bs.length := by
  induction bs with
  | nil => simp [ofBigEndian]
  | cons b bs ih =>
    rw [ofBigEndian_cons, List.length_cons, pow_succ]
    have hb := b.toNat_lt
    have : b.toNat * 256 ^ bs.length ≤ 255 * 256 ^ bs.length := Nat.mul_le_mul_right _ (by omega)
    nlinarith

theorem ofBigEndian_bigEndian (n : Nat) : ofBigEndian (bigEndian n) = n := by
  induction n using Nat.strong_induction_on with
  | _ n ih =>
    by_cases hn : n = 0
    · rw [hn, bigEndian, if_pos rfl]
      rfl
    · rw [bigEndian, if_neg hn, ofBigEndian_append_singleton, ih _ (Nat.div_lt_self (by omega) (by omega))]
      simp
      omega

theorem bigEndian_eq_nil_iff {n : Nat} : bigEndian n = [] ↔ n = 0 := by
  constructor
  · intro h
    have := ofBigEndian_bigEndian n
    rw [h] at this
    exact this.symm
  · rintro rfl
    rw [bigEndian, if_pos rfl]

theorem head?_bigEndian_ne_zero (n : Nat) : (bigEndian n).head? ≠ some 0 := by
  induction n using Nat.strong_induction_on with
  | _ n ih =>
    by_cases hn : n = 0
    · rw [hn, bigEndian, if_pos rfl]
      simp
    · rw [bigEndian, if_neg hn]
      by_cases hq : n / 256 = 0
      · -- one byte: `n` itself, which is not zero
        rw [hq, bigEndian, if_pos rfl, List.nil_append, List.head?_singleton]
        intro h
        have := congrArg UInt8.toNat (Option.some.inj h)
        simp [UInt8.toNat_ofNat] at this
        omega
      · have hne : bigEndian (n / 256) ≠ [] := fun h => hq (bigEndian_eq_nil_iff.1 h)
        rw [List.head?_append_of_ne_nil _ hne]
        exact ih _ (Nat.div_lt_self (by omega) (by omega))

theorem length_bigEndian_le_of_lt {n k : Nat} (h : n < 256 ^ k) : (bigEndian n).length ≤ k := by
  induction k generalizing n with
  | zero =>
    have : n = 0 := by simpa using h
    rw [this, bigEndian, if_pos rfl]
    simp
  | succ k ih =>
    by_cases hn : n = 0
    · rw [hn, bigEndian, if_pos rfl]
      simp
    · rw [bigEndian, if_neg hn, List.length_append, List.length_singleton]
      have : n / 256 < 256 ^ k := by
        rw [pow_succ] at h
        omega
      exact Nat.succ_le_succ (ih this)

theorem bigEndian_ofBigEndian {bs : List UInt8} (h : bs.head? ≠ some 0) : bigEndian (ofBigEndian bs) = bs := by
  induction bs using List.reverseRecOn with
  | nil => rw [ofBigEndian, List.foldl_nil, bigEndian, if_pos rfl]
  | append_singleton init b ih =>
    rw [ofBigEndian_append_singleton]
    by_cases hinit : init = []
    · -- one byte, which is not zero
      subst hinit
      have hb : b.toNat ≠ 0 := fun hb => h (by simp [UInt8.toNat_inj.1 (hb.trans UInt8.toNat_zero.symm)])
      rw [ofBigEndian, List.foldl_nil, bigEndian, if_neg (by omega)]
      have hq : (256 * 0 + b.toNat) / 256 = 0 := by have := b.toNat_lt; omega
      rw [hq, bigEndian, if_pos rfl]
      simp
    · have hhead : init.head? ≠ some 0 := by rwa [List.head?_append_of_ne_nil _ hinit] at h
      -- the leading byte is not zero, so the number of `init` is positive
      have hpos : 0 < ofBigEndian init := by
        obtain ⟨c, cs, rfl⟩ := List.exists_cons_of_ne_nil hinit
        rw [ofBigEndian_cons]
        have hc : c.toNat ≠ 0 := fun hc => hhead (by simp [UInt8.toNat_inj.1 (hc.trans UInt8.toNat_zero.symm)])
        exact Nat.add_pos_left (Nat.mul_pos (Nat.pos_of_ne_zero hc) (pow_pos (by norm_num) _)) _
      have hb := b.toNat_lt
      rw [bigEndian, if_neg (by omega)]
      have hq : (256 * ofBigEndian init + b.toNat) / 256 = ofBigEndian init := by omega
      have hr : (256 * ofBigEndian init + b.toNat) % 256 = b.toNat := by omega
      rw [hq, hr, ih hhead]
      simp

/-! ### Headers -/

theorem toNat_add_ofNat {a : UInt8} {m : Nat} (h : a.toNat + m < 256) :
    (a + UInt8.ofNat m).toNat = a.toNat + m := by
  rw [UInt8.toNat_add, UInt8.toNat_ofNat_of_lt' (by simp [UInt8.size]; omega)]
  exact Nat.mod_eq_of_lt h

theorem length_bigEndian_mem {len : Nat} (h : 56 ≤ len) (hlen : len < 2 ^ 64) :
    1 ≤ (bigEndian len).length ∧ (bigEndian len).length ≤ 8 := by
  have hne : bigEndian len ≠ [] := fun h' => by have := bigEndian_eq_nil_iff.1 h'; omega
  exact ⟨List.length_pos_of_ne_nil hne, length_bigEndian_le_of_lt (by simpa using hlen)⟩

theorem header_short_eq (offset c : UInt8) {cs : Nat} (hcs : cs < 56) (hc : c.toNat = offset.toNat + cs) :
    header offset cs = [c] := by
  have hoff : offset + UInt8.ofNat cs = c := by
    apply UInt8.toNat_inj.1
    rw [toNat_add_ofNat (by have := c.toNat_lt; omega)]
    exact hc.symm
  rw [header, if_pos hcs, hoff]

theorem header_long_eq (offset c : UInt8) {cs : Nat} (hcs : 56 ≤ cs)
    (hc : c.toNat = (offset + 55).toNat + (bigEndian cs).length) : header offset cs = c :: bigEndian cs := by
  have hoff : offset + 55 + UInt8.ofNat (bigEndian cs).length = c := by
    apply UInt8.toNat_inj.1
    rw [toNat_add_ofNat (by have := c.toNat_lt; omega)]
    exact hc.symm
  rw [header, if_neg (by omega), hoff]

theorem readSize_bigEndian {len : Nat} (h : 56 ≤ len) (q : List UInt8) :
    readSize (bigEndian len ++ q) (bigEndian len).length = .ok len := by
  have hne : bigEndian len ≠ [] := fun h' => by have := bigEndian_eq_nil_iff.1 h'; omega
  rw [readSize, if_neg (by simp), List.take_left, ofBigEndian_bigEndian, List.head?_append_of_ne_nil _ hne,
    if_neg (by simpa [Nat.not_lt.2 h] using head?_bigEndian_ne_zero len)]

theorem readSize_eq_ok {t : List UInt8} {m cs : Nat} (h : readSize t m = .ok cs) (hm : 1 ≤ m) :
    56 ≤ cs ∧ bigEndian cs = t.take m ∧ m ≤ t.length := by
  unfold readSize at h
  split_ifs at h with h1 h2
  cases h
  have hhead : (t.take m).head? ≠ some 0 := by
    rw [List.head?_take, if_neg (by omega)]
    exact fun h0 => h2 (Or.inr h0)
  exact ⟨by omega, bigEndian_ofBigEndian hhead, by omega⟩

/-! ### The first value: `readKind` and `Split` -/

theorem readKind_byte {b : UInt8} (hb : b < 0x80) (rest : List UInt8) :
    readKind (b :: rest) = .ok (.byte, 0, 1) := by
  have hb' : b.toNat < 128 := UInt8.lt_iff_toNat_lt.1 hb
  simp only [readKind, hb', ↓reduceIte]
  rw [if_neg (by omega)]

theorem readKind_header_string {len : Nat} (hlen : len < 2 ^ 64) {q : List UInt8} (hq : len ≤ q.length)
    (hc : len = 1 → ∀ b ∈ q.head?, 0x80 ≤ b) :
    readKind (header 0x80 len ++ q) = .ok (.string, (header 0x80 len).length, len) := by
  unfold header
  split_ifs with hs
  · have hb : (0x80 + UInt8.ofNat len).toNat = 128 + len := toNat_add_ofNat (by simp; omega)
    have hcanon : ¬(len = 1 ∧ q.head?.any (· < 0x80) = true) := by
      rintro ⟨h1, h2⟩
      obtain ⟨b, hb, hlt⟩ := (Option.any_eq_true _ _).1 h2
      exact absurd (hc h1 b hb) (by simpa using hlt)
    simp only [List.singleton_append, readKind, hb, Nat.add_sub_cancel_left]
    rw [if_neg (by omega), if_pos (by omega), if_neg hcanon]
    simp only [List.length_singleton]
    rw [if_neg (by omega)]
  · obtain ⟨hk1, hk8⟩ := length_bigEndian_mem (by omega) hlen
    have hb : (0x80 + 55 + UInt8.ofNat (bigEndian len).length).toNat = 183 + (bigEndian len).length :=
      toNat_add_ofNat (by simp; omega)
    simp only [List.cons_append, readKind, hb, Nat.add_sub_cancel_left]
    rw [if_neg (by omega), if_neg (by omega), if_pos (by omega), readSize_bigEndian (by omega)]
    simp only [Except.map, List.length_append, List.length_cons]
    rw [if_neg (by omega)]

theorem readKind_header_list {len : Nat} (hlen : len < 2 ^ 64) {q : List UInt8} (hq : len ≤ q.length) :
    readKind (header 0xC0 len ++ q) = .ok (.list, (header 0xC0 len).length, len) := by
  unfold header
  split_ifs with hs
  · have hb : (0xC0 + UInt8.ofNat len).toNat = 192 + len := toNat_add_ofNat (by simp; omega)
    simp only [List.singleton_append, readKind, hb, Nat.add_sub_cancel_left]
    rw [if_neg (by omega), if_neg (by omega), if_neg (by omega), if_pos (by omega)]
    simp only [List.length_singleton]
    rw [if_neg (by omega)]
  · obtain ⟨hk1, hk8⟩ := length_bigEndian_mem (by omega) hlen
    have hb : (0xC0 + 55 + UInt8.ofNat (bigEndian len).length).toNat = 247 + (bigEndian len).length :=
      toNat_add_ofNat (by simp; omega)
    simp only [List.cons_append, readKind, hb, Nat.add_sub_cancel_left]
    rw [if_neg (by omega), if_neg (by omega), if_neg (by omega), if_neg (by omega), readSize_bigEndian (by omega)]
    simp only [Except.map, List.length_append, List.length_cons]
    rw [if_neg (by omega)]

/-- What `readKind` accepts: a byte below `0x80`, or the header of a string
or of a list with at least its payload after it. -/
theorem readKind_eq_ok {b : List UInt8} {k : Kind} {ts cs : Nat} (h : readKind b = .ok (k, ts, cs)) :
    (∃ c t, b = c :: t ∧ c < 0x80 ∧ k = .byte ∧ ts = 0 ∧ cs = 1) ∨
    (∃ t, b = header 0x80 cs ++ t ∧ k = .string ∧ ts = (header 0x80 cs).length ∧ cs ≤ t.length ∧
      (cs = 1 → ∀ d ∈ t.head?, 0x80 ≤ d)) ∨
    (∃ t, b = header 0xC0 cs ++ t ∧ k = .list ∧ ts = (header 0xC0 cs).length ∧ cs ≤ t.length) := by
  obtain _ | ⟨c, t⟩ := b
  · cases h
  have hlt := c.toNat_lt
  simp only [readKind] at h
  split_ifs at h with hbyte hshort hcanon hstr hlist
  · simp only at h
    rw [if_neg (by omega)] at h
    cases h
    exact .inl ⟨c, t, rfl, UInt8.lt_iff_toNat_lt.2 hbyte, rfl, rfl, rfl⟩
  · -- a short string, whose one byte is not one that stands for itself
    simp only at h
    split_ifs at h with hfit
    cases h
    have hhdr : header 0x80 (c.toNat - 128) = [c] := header_short_eq 0x80 c (by omega) (by simp; omega)
    refine .inr (.inl ⟨t, by rw [hhdr]; rfl, rfl, by rw [hhdr, List.length_singleton], by omega, ?_⟩)
    intro h1 d hd
    exact UInt8.not_lt.1 fun hd' => hcanon ⟨h1, (Option.any_eq_true _ _).2 ⟨d, hd, by simpa using hd'⟩⟩
  · -- a long string: the size's bytes follow the first
    cases hs : readSize t (c.toNat - 183) with
    | error e => simp [hs, Except.map] at h
    | ok cs' =>
      simp only [hs, Except.map] at h
      split_ifs at h with hfit
      cases h
      obtain ⟨h56, hbe, hm⟩ := readSize_eq_ok hs (by omega)
      have hhdr : header 0x80 cs = c :: t.take (c.toNat - 183) := by
        rw [header_long_eq _ c h56 (by rw [hbe, List.length_take]; simp; omega), hbe]
      refine .inr (.inl ⟨t.drop (c.toNat - 183), by rw [hhdr, List.cons_append, List.take_append_drop], rfl,
        by rw [hhdr, List.length_cons, List.length_take]; omega, by simp; omega, by omega⟩)
  · simp only at h
    split_ifs at h with hfit
    cases h
    have hhdr : header 0xC0 (c.toNat - 192) = [c] := header_short_eq 0xC0 c (by omega) (by simp; omega)
    exact .inr (.inr ⟨t, by rw [hhdr]; rfl, rfl, by rw [hhdr, List.length_singleton], by omega⟩)
  · cases hs : readSize t (c.toNat - 247) with
    | error e => simp [hs, Except.map] at h
    | ok cs' =>
      simp only [hs, Except.map] at h
      split_ifs at h with hfit
      cases h
      obtain ⟨h56, hbe, hm⟩ := readSize_eq_ok hs (by omega)
      have hhdr : header 0xC0 cs = c :: t.take (c.toNat - 247) := by
        rw [header_long_eq _ c h56 (by rw [hbe, List.length_take]; simp; omega), hbe]
      refine .inr (.inr ⟨t.drop (c.toNat - 247), by rw [hhdr, List.cons_append, List.take_append_drop], rfl,
        by rw [hhdr, List.length_cons, List.length_take]; omega, by simp; omega⟩)

theorem encode_list (ys : List Item) : encode (.list ys) = header 0xC0 (encodeAll ys).length ++ encodeAll ys := by
  rw [encode]

theorem encode_str_eq_header {bs : List UInt8} (h : ∀ b, bs = [b] → 0x80 ≤ b) :
    encode (.str bs) = header 0x80 bs.length ++ bs := by
  match bs with
  | [b] => rw [encode, if_neg (UInt8.not_lt.2 (h b rfl))]; rfl
  | [] => simp [encode]
  | _ :: _ :: _ => simp [encode]

theorem split_of_readKind {pre p rest : List UInt8} {k : Kind}
    (h : readKind (pre ++ (p ++ rest)) = .ok (k, pre.length, p.length)) :
    split (pre ++ (p ++ rest)) = .ok (k, p, rest) := by
  simp [split, h]

theorem split_encode_str (bs rest : List UInt8) (h : bs.length < 2 ^ 64) :
    ∃ k, k ≠ .list ∧ split (encode (.str bs) ++ rest) = .ok (k, bs, rest) := by
  by_cases hb : ∃ b, bs = [b] ∧ b < 0x80
  · obtain ⟨b, rfl, hb⟩ := hb
    refine ⟨.byte, by decide, ?_⟩
    rw [encode, if_pos hb]
    simp [split, readKind_byte hb]
  · have hc : ∀ b, bs = [b] → 0x80 ≤ b := fun b hbs => UInt8.not_lt.1 fun hlt => hb ⟨b, hbs, hlt⟩
    refine ⟨.string, by decide, ?_⟩
    rw [encode_str_eq_header hc, List.append_assoc]
    apply split_of_readKind
    apply readKind_header_string h (by simp)
    intro h1 d hd
    obtain ⟨b, rfl⟩ := List.length_eq_one_iff.1 h1
    simp only [List.cons_append, List.nil_append, List.head?_cons, Option.mem_def, Option.some.injEq] at hd
    exact hd ▸ hc b rfl

theorem split_encode_list (ys : List Item) (rest : List UInt8) (h : (encodeAll ys).length < 2 ^ 64) :
    split (encode (.list ys) ++ rest) = .ok (.list, encodeAll ys, rest) := by
  rw [encode_list, List.append_assoc]
  exact split_of_readKind (readKind_header_list h (by simp))

theorem encode_list_eq_cons (ys : List Item) (h : (encodeAll ys).length < 2 ^ 64) :
    ∃ c rest, encode (.list ys) = c :: rest ∧ 0x7f < c := by
  rw [encode_list]
  unfold header
  split_ifs with hs
  · have hb : (0xC0 + UInt8.ofNat (encodeAll ys).length).toNat = 192 + (encodeAll ys).length :=
      toNat_add_ofNat (by simp; omega)
    exact ⟨_, _, rfl, UInt8.lt_iff_toNat_lt.2 (by rw [hb]; simp; omega)⟩
  · obtain ⟨hk1, hk8⟩ := length_bigEndian_mem (by omega) h
    have hb : (0xC0 + 55 + UInt8.ofNat (bigEndian (encodeAll ys).length).length).toNat =
        247 + (bigEndian (encodeAll ys).length).length := toNat_add_ofNat (by simp; omega)
    exact ⟨_, _, rfl, UInt8.lt_iff_toNat_lt.2 (by rw [hb]; simp; omega)⟩

/-- What `Split` cuts off is an encoding: of a string, or a list header before
its payload. -/
theorem split_eq_ok {b content rest : List UInt8} {k : Kind} (h : split b = .ok (k, content, rest)) :
    (k ≠ .list ∧ encode (.str content) ++ rest = b) ∨
    (k = .list ∧ header 0xC0 content.length ++ content ++ rest = b) := by
  unfold split at h
  split at h
  · cases h
  rename_i k' ts cs hk
  cases h
  rcases readKind_eq_ok hk with ⟨c, t, rfl, hc, rfl, rfl, rfl⟩ | ⟨t, rfl, rfl, rfl, hcs, hcanon⟩ |
    ⟨t, rfl, rfl, rfl, hcs⟩
  · refine .inl ⟨by decide, ?_⟩
    simp [encode, hc]
  · refine .inl ⟨by decide, ?_⟩
    have hlen : (t.take cs).length = cs := by simp; omega
    rw [List.drop_left, List.drop_length_add_append, encode_str_eq_header, hlen, List.append_assoc,
      List.take_append_drop]
    · intro d hd
      have h1 : cs = 1 := by rw [← hlen, hd, List.length_singleton]
      obtain _ | ⟨e, t'⟩ := t
      · simp at hd
      · subst h1
        simp only [List.take_succ_cons, List.take_zero, List.cons.injEq, and_true] at hd
        exact hd ▸ hcanon rfl e rfl
  · refine .inr ⟨rfl, ?_⟩
    have hlen : (t.take cs).length = cs := by simp; omega
    rw [List.drop_left, List.drop_length_add_append, hlen, List.append_assoc, List.take_append_drop]

/-! ### Items -/

@[simp] theorem decodeAll_nil (fuel : Nat) : decodeAll fuel [] = .ok [] := by
  cases fuel <;> rfl

theorem decodeAll_succ_eq_ok {fuel : Nat} {b : List UInt8} {xs : List Item} (hb : b ≠ []) :
    decodeAll (fuel + 1) b = .ok xs ↔ ∃ k content rest, split b = .ok (k, content, rest) ∧
      ((k ≠ .list ∧ ∃ xs', decodeAll fuel rest = .ok xs' ∧ xs = .str content :: xs') ∨
       (k = .list ∧ ∃ ys xs', decodeAll fuel content = .ok ys ∧ decodeAll fuel rest = .ok xs' ∧
         xs = .list ys :: xs')) := by
  rw [decodeAll.eq_3 _ _ hb]
  constructor
  · intro h
    split at h
    · cases h
    rename_i k content rest hs
    refine ⟨k, content, rest, hs, ?_⟩
    cases k with
    | list =>
      cases hc : decodeAll fuel content with
      | error e => simp [hc, Except.map] at h
      | ok ys =>
        cases hr : decodeAll fuel rest with
        | error e => simp [hc, hr, Except.map] at h
        | ok xs' =>
          simp only [hc, hr, Except.map, Except.ok.injEq] at h
          exact .inr ⟨rfl, ys, xs', rfl, rfl, h.symm⟩
    | byte | string =>
      cases hr : decodeAll fuel rest with
      | error e => simp [hr, Except.map] at h
      | ok xs' =>
        simp only [hr, Except.map, Except.ok.injEq] at h
        exact .inl ⟨by decide, xs', rfl, h.symm⟩
  · rintro ⟨k, content, rest, hs, ⟨hk, xs', hr, rfl⟩ | ⟨rfl, ys, xs', hc, hr, rfl⟩⟩
    · cases k with
      | list => exact absurd rfl hk
      | byte | string => simp [hs, hr, Except.map]
    · simp [hs, hc, hr, Except.map]

theorem length_le_encode_str (bs : List UInt8) : bs.length ≤ (encode (.str bs)).length := by
  by_cases hb : ∃ b, bs = [b] ∧ b < 0x80
  · obtain ⟨b, rfl, hb⟩ := hb
    simp [encode, hb]
  · rw [encode_str_eq_header fun b hbs => UInt8.not_lt.1 fun hlt => hb ⟨b, hbs, hlt⟩]
    simp

theorem length_encodeAll_lt_encode_list (ys : List Item) :
    (encodeAll ys).length < (encode (.list ys)).length := by
  rw [encode_list, List.length_append]
  have := List.length_pos_of_ne_nil (header_ne_nil 0xC0 (encodeAll ys).length)
  omega

/-- Decoding the concatenated encodings of items, with as much fuel as there
are bytes, gives the items back. The induction is on the fuel: each value and
each payload is shorter than what it was cut from. -/
theorem decodeAll_encodeAll {fuel : Nat} :
    ∀ {xs : List Item}, (encodeAll xs).length ≤ fuel → (encodeAll xs).length < 2 ^ 64 →
      decodeAll fuel (encodeAll xs) = .ok xs := by
  induction fuel with
  | zero =>
    rintro (_ | ⟨x, xs⟩) hf _
    · simp [encodeAll]
    · have := List.length_pos_of_ne_nil (encode_ne_nil x)
      simp only [length_encodeAll_cons] at hf
      omega
  | succ fuel ih =>
    rintro (_ | ⟨x, xs⟩) hf hb
    · simp [encodeAll]
    have hx := List.length_pos_of_ne_nil (encode_ne_nil x)
    have hlen := length_encodeAll_cons x xs
    have hne : encodeAll (x :: xs) ≠ [] := by
      rw [encodeAll]
      exact List.append_ne_nil_of_left_ne_nil (encode_ne_nil x) _
    have hrest : decodeAll fuel (encodeAll xs) = .ok xs := ih (by omega) (by omega)
    rw [decodeAll_succ_eq_ok hne, encodeAll]
    cases x with
    | str bs =>
      have := length_le_encode_str bs
      obtain ⟨k, hk, hs⟩ := split_encode_str bs (encodeAll xs) (by omega)
      exact ⟨k, bs, encodeAll xs, hs, .inl ⟨hk, xs, hrest, rfl⟩⟩
    | list ys =>
      have := length_encodeAll_lt_encode_list ys
      refine ⟨.list, encodeAll ys, encodeAll xs, split_encode_list ys _ (by omega), .inr ⟨rfl, ys, xs, ?_, hrest, rfl⟩⟩
      exact ih (by omega) (by omega)

/-- Only encodings decode: whatever `decodeAll` accepts is the concatenation
of the encodings of the items it gives. -/
theorem encodeAll_of_decodeAll {fuel : Nat} :
    ∀ {b : List UInt8} {xs : List Item}, decodeAll fuel b = .ok xs → encodeAll xs = b := by
  induction fuel with
  | zero =>
    rintro (_ | ⟨c, t⟩) xs h
    · cases h
      rfl
    · cases h
  | succ fuel ih =>
    rintro (_ | ⟨c, t⟩) xs h
    · rw [decodeAll_nil] at h
      cases h
      rfl
    obtain ⟨k, content, rest, hs, ⟨hk, xs', hr, rfl⟩ | ⟨rfl, ys, xs', hc, hr, rfl⟩⟩ :=
      (decodeAll_succ_eq_ok (List.cons_ne_nil c t)).1 h
    · rcases split_eq_ok hs with ⟨-, henc⟩ | ⟨hk', -⟩
      · rw [encodeAll, ih hr, henc]
      · exact absurd hk' hk
    · rcases split_eq_ok hs with ⟨hk', -⟩ | ⟨-, henc⟩
      · exact absurd rfl hk'
      · rw [encodeAll, ih hr, encode_list, ih hc, henc]

/-! ### One value -/

theorem decodeBytes_encode (x : Item) (h : (encode x).length < 2 ^ 64) : decodeBytes (encode x) = .ok x := by
  obtain ⟨c, t, hct⟩ := List.exists_cons_of_ne_nil (encode_ne_nil x)
  have hsplit : ∀ {k content}, split (encode x ++ []) = .ok (k, content, []) →
      decodeItem (encode x) = .ok (x, []) → decodeBytes (encode x) = .ok x := by
    intro _ _ _ hd
    rw [hct] at hd ⊢
    simp [decodeBytes, hd]
  cases x with
  | str bs =>
    obtain ⟨k, hk, hs⟩ := split_encode_str bs [] (lt_of_le_of_lt (length_le_encode_str bs) h)
    refine hsplit hs ?_
    rw [List.append_nil] at hs
    cases k with
    | list => exact absurd rfl hk
    | byte | string => simp [decodeItem, hs]
  | list ys =>
    have hlt := length_encodeAll_lt_encode_list ys
    have hs := split_encode_list ys [] (by omega)
    refine hsplit hs ?_
    rw [List.append_nil] at hs
    have hd : decodeAll (encodeAll ys).length (encodeAll ys) = .ok ys := decodeAll_encodeAll le_rfl (by omega)
    simp [decodeItem, hs, hd, Except.map]

theorem encode_of_decodeBytes {b : List UInt8} {x : Item} (h : decodeBytes b = .ok x) : encode x = b := by
  obtain _ | ⟨c, t⟩ := b
  · cases h
  simp only [decodeBytes] at h
  split at h
  · cases h
  · rename_i hd
    cases h
    unfold decodeItem at hd
    split at hd
    · cases hd
    · rename_i content rest hs
      cases hc : decodeAll content.length content with
      | error e => simp [hc, Except.map] at hd
      | ok ys =>
        simp only [hc, Except.map, Except.ok.injEq, Prod.mk.injEq] at hd
        obtain ⟨rfl, rfl⟩ := hd
        rcases split_eq_ok hs with ⟨hk, -⟩ | ⟨-, henc⟩
        · exact absurd rfl hk
        · rw [encode_list, encodeAll_of_decodeAll hc, ← henc, List.append_nil]
    · rename_i k content rest hk hs
      cases hd
      rcases split_eq_ok hs with ⟨-, henc⟩ | ⟨hk', -⟩
      · rw [← henc, List.append_nil]
      · exact absurd hk' hk
  · cases h

/-- Decoding one value and encoding are inverse: an input decodes to `x`
exactly when it is the encoding of `x`. -/
theorem decodeBytes_eq_ok_iff {b : List UInt8} {x : Item} (h : b.length < 2 ^ 64) :
    decodeBytes b = .ok x ↔ encode x = b := by
  constructor
  · exact encode_of_decodeBytes
  · rintro rfl
    exact decodeBytes_encode x h

theorem nestedList_decodes :
    [0xC2, 0x80, 0xC0].length < 2 ^ 64 ∧ encode (.list [.str [], .list []]) = [0xC2, 0x80, 0xC0] ∧
      decodeBytes [0xC2, 0x80, 0xC0] = .ok (.list [.str [], .list []]) :=
  ⟨by decide, rfl, (decodeBytes_eq_ok_iff (by decide)).2 rfl⟩

theorem decodeBytes_lawful : Codec.Lawful encode decodeBytes fun x => (encode x).length < 2 ^ 64 where
  dec_enc := decodeBytes_encode
  enc_dec _ _ := encode_of_decodeBytes

/-! ### Values of Go types -/

theorem decodeByteSlice_lawful : Codec.Lawful Item.str decodeByteSlice fun _ => True where
  dec_enc _ _ := rfl
  enc_dec i bs h := by
    cases i with
    | str bs' => cases h; rfl
    | list _ => cases h

theorem decodeByteArray_lawful (n : Nat) : Codec.Lawful Item.str (decodeByteArray n) (·.length = n) where
  dec_enc bs h := by simp [decodeByteArray, h]
  enc_dec i bs h := by
    cases i with
    | str bs' =>
      simp only [decodeByteArray] at h
      split_ifs at h
      cases h
      rfl
    | list _ => cases h

/-- What `Stream.uint` accepts is a string without a leading zero, of the
number it reads. -/
theorem decodeUint_eq_ok {maxbits n : Nat} {i : Item} (h : decodeUint maxbits i = .ok n) :
    ∃ bs, i = .str bs ∧ bs.head? ≠ some 0 ∧ ofBigEndian bs = n := by
  match i with
  | .str [b] =>
    simp only [decodeUint] at h
    have hb : b ≠ 0 := by
      rintro rfl
      simp at h
    split_ifs at h
    all_goals
      cases h
      exact ⟨[b], rfl, by simpa using hb, by simp [ofBigEndian]⟩
  | .str [] =>
    simp only [decodeUint] at h
    cases h
    exact ⟨[], rfl, by simp, rfl⟩
  | .str (b :: c :: bs) =>
    simp only [decodeUint] at h
    split_ifs at h with h1 h2
    cases h
    exact ⟨b :: c :: bs, rfl, h2, rfl⟩
  | .list _ => cases h

theorem decodeUint_lt {maxbits n : Nat} {i : Item} (hw : 1 ≤ maxbits / 8) (h : decodeUint maxbits i = .ok n) :
    n < 256 ^ (maxbits / 8) := by
  have hpow : 256 ≤ 256 ^ (maxbits / 8) := by
    calc 256 = 256 ^ 1 := by norm_num
      _ ≤ 256 ^ (maxbits / 8) := Nat.pow_le_pow_right (by norm_num) hw
  match i with
  | .str [b] =>
    simp only [decodeUint] at h
    have hb := b.toNat_lt
    split_ifs at h <;> cases h <;> omega
  | .str [] =>
    cases h
    exact Nat.pos_of_ne_zero (by positivity)
  | .str (b :: c :: bs) =>
    simp only [decodeUint] at h
    split_ifs at h with h1 h2
    cases h
    calc ofBigEndian (b :: c :: bs) < 256 ^ (b :: c :: bs).length := ofBigEndian_lt _
      _ ≤ 256 ^ (maxbits / 8) := Nat.pow_le_pow_right (by norm_num) (Nat.not_lt.1 h1)
  | .list _ => cases h

theorem decodeUint_lawful (maxbits : Nat) :
    Codec.Lawful uint (decodeUint maxbits) (· < 256 ^ (maxbits / 8)) where
  dec_enc n hn := by
    have hlen := length_bigEndian_le_of_lt hn
    have hhead := head?_bigEndian_ne_zero n
    have hval := ofBigEndian_bigEndian n
    unfold uint
    match hbe : bigEndian n with
    | [] => rw [hbe] at hval; simp [decodeUint, ← hval, ofBigEndian]
    | [b] =>
      rw [hbe] at hval hhead hlen
      have hval' : b.toNat = n := by simpa [ofBigEndian] using hval
      have hb : b ≠ 0 := by simpa using hhead
      have hw : 1 ≤ maxbits / 8 := by simpa using hlen
      rw [← hval']
      by_cases hlt : b < 0x80
      · simp [decodeUint, hlt, hb]
      · simp [decodeUint, hlt, Nat.not_lt.2 hw]
    | b :: c :: bs =>
      rw [hbe] at hval hhead hlen
      simp only [decodeUint, ← hval]
      rw [if_neg (Nat.not_lt.2 hlen), if_neg hhead]
  enc_dec i n h := by
    obtain ⟨bs, rfl, hhead, rfl⟩ := decodeUint_eq_ok h
    rw [uint, bigEndian_ofBigEndian hhead]

theorem decodeBool_lawful : Codec.Lawful writeBool decodeBool fun _ => True where
  dec_enc b _ := by cases b <;> rfl
  enc_dec i b h := by
    unfold decodeBool at h
    split at h
    · cases h
    all_goals
      rename_i hu
      obtain ⟨bs, rfl, hhead, hval⟩ := decodeUint_eq_ok hu
    · -- zero is the empty string
      cases h
      have := bigEndian_ofBigEndian hhead
      rw [hval] at this
      simp [writeBool, ← this, bigEndian]
    · cases h
      have := bigEndian_ofBigEndian hhead
      rw [hval] at this
      simp [writeBool, ← this, bigEndian]
    · cases h

theorem decodeListSlice_lawful {α : Type} {enc : α → Item} {dec : Item → Except String α} {valid : α → Prop}
    (h : Codec.Lawful enc dec valid) :
    Codec.Lawful (fun as => .list (as.map enc)) (decodeListSlice dec) fun as => ∀ a ∈ as, valid a where
  dec_enc as has := h.mapM.dec_enc as has
  enc_dec i as hd := by
    cases i with
    | list xs => rw [h.mapM.enc_dec xs as hd]
    | str _ => cases hd

theorem decodeNilPtr_of_ne {α : Type} {k : Kind} {dec : Item → Except String α} {i : Item}
    (h₁ : i ≠ .list []) (h₂ : i ≠ .str []) : decodeNilPtr k dec i = (dec i).map some := by
  unfold decodeNilPtr
  split <;> simp_all

/-- A pointer tagged `rlp:"nil"`, for values that never encode as an empty
string or list. -/
theorem decodeNilPtr_lawful {α : Type} {enc : α → Item} {dec : Item → Except String α}
    {valid : α → Prop} (k : Kind) (hk : k ≠ .byte) (h : Codec.Lawful enc dec valid)
    (hne : ∀ a, enc a ≠ .list [] ∧ enc a ≠ .str []) :
    Codec.Lawful (writeNilPtr k enc) (decodeNilPtr k dec) fun o => ∀ a ∈ o, valid a where
  dec_enc o ho := by
    cases o with
    | none => cases k <;> first | exact absurd rfl hk | rfl
    | some a =>
      rw [writeNilPtr, decodeNilPtr_of_ne (hne a).1 (hne a).2, h.dec_enc a (ho a rfl)]
      rfl
  enc_dec i o hd := by
    by_cases h₁ : i = .list []
    · subst h₁
      cases k <;> cases hd
      rfl
    by_cases h₂ : i = .str []
    · subst h₂
      cases k <;> first | exact absurd rfl hk | cases hd
      rfl
    rw [decodeNilPtr_of_ne h₁ h₂] at hd
    cases hi : dec i with
    | error e => simp [hi, Except.map] at hd
    | ok a =>
      simp only [hi, Except.map, Except.ok.injEq] at hd
      subst hd
      exact h.enc_dec i a hi

theorem decodeBigInt_lawful : Codec.Lawful uint decodeBigInt fun _ => True where
  dec_enc n _ := by
    simp [uint, decodeBigInt, head?_bigEndian_ne_zero, ofBigEndian_bigEndian]
  enc_dec i n h := by
    match i with
    | .list _ => cases h
    | .str bs =>
      simp only [decodeBigInt] at h
      split_ifs at h with hz
      cases h
      rw [uint, bigEndian_ofBigEndian hz]

@[simp] theorem decodeField_cons {α : Type} (dec : Item → Except String α) (x : Item) (xs : List Item) :
    decodeField dec (x :: xs) = (dec x).map fun a => (a, xs) := rfl

theorem decodeField_eq_ok {α : Type} {dec : Item → Except String α} {xs rest : List Item} {a : α}
    (h : decodeField dec xs = .ok (a, rest)) : ∃ x, xs = x :: rest ∧ dec x = .ok a := by
  match xs with
  | [] => cases h
  | x :: xs =>
    cases hx : dec x with
    | error e => simp [hx, Except.map] at h
    | ok a' =>
      simp only [decodeField_cons, hx, Except.map, Except.ok.injEq, Prod.mk.injEq] at h
      obtain ⟨rfl, rfl⟩ := h
      exact ⟨x, rfl, hx⟩

theorem listEnd_eq_ok {xs : List Item} (h : listEnd xs = .ok ()) : xs = [] := by
  cases xs with
  | nil => rfl
  | cons _ _ => cases h

/-! ### Lengths -/

theorem length_encodeAll_le {xs ys : List Item}
    (h : List.Forall₂ (fun x y => (encode x).length ≤ (encode y).length) xs ys) :
    (encodeAll xs).length ≤ (encodeAll ys).length := by
  induction h with
  | nil => exact le_rfl
  | cons hxy _ ih =>
    rw [length_encodeAll_cons, length_encodeAll_cons]
    omega

theorem length_encode_list_le {xs ys : List Item}
    (h : List.Forall₂ (fun x y => (encode x).length ≤ (encode y).length) xs ys) :
    (encode (.list xs)).length ≤ (encode (.list ys)).length := by
  have hle := length_encodeAll_le h
  rw [encode_list, encode_list, List.length_append, List.length_append]
  have := length_header_le 0xC0 hle
  omega

theorem length_encode_str_nil_le (y : Item) : (encode (.str [])).length ≤ (encode y).length := by
  have := List.length_pos_of_ne_nil (encode_ne_nil y)
  simp [encode, header]
  omega

theorem length_encode_list_nil_le (y : Item) : (encode (.list [])).length ≤ (encode y).length := by
  have := List.length_pos_of_ne_nil (encode_ne_nil y)
  simp only [encode_list_nil, List.length_singleton]
  omega

end Rlp
