import Mathlib

/-! Recursive Length Prefix, the serialisation of Ethereum's data. An item is a
byte string or a list of items. A string is its bytes behind a header, except
that one byte below `0x80` stands for itself; a list is the concatenation of
its items' encodings behind a header. A header carries the payload's length,
in its first byte when that is below 56, and in big-endian bytes after it
otherwise.

Only lengths are needed of it here: an encoding is never empty, and a list
whose payload is longer has a longer encoding. -/

namespace Rlp

inductive Item where
  | str (bytes : List UInt8)
  | list (items : List Item)
deriving Repr

/-- The big-endian bytes of `n`, without leading zeros; `0` has none. -/
def bigEndian (n : Nat) : List UInt8 :=
  if n = 0 then [] else bigEndian (n / 256) ++ [UInt8.ofNat (n % 256)]
decreasing_by omega

/-- The header of a payload of `len` bytes, for strings at `offset = 0x80` and
for lists at `offset = 0xC0`. -/
def header (offset : UInt8) (len : Nat) : List UInt8 :=
  if len < 56 then [offset + UInt8.ofNat len]
  else (offset + 55 + UInt8.ofNat (bigEndian len).length) :: bigEndian len

mutual

def encode : Item → List UInt8
  | .str [b] => if b < 0x80 then [b] else header 0x80 1 ++ [b]
  | .str bytes => header 0x80 bytes.length ++ bytes
  | .list items => header 0xC0 (encodeAll items).length ++ encodeAll items

def encodeAll : List Item → List UInt8
  | [] => []
  | x :: xs => encode x ++ encodeAll xs

end

/-- An unsigned integer: its big-endian bytes as a string, as `writeUint` and
`writeBigInt` write them. -/
def uint (n : Nat) : Item := .str (bigEndian n)

theorem length_bigEndian_le {m n : Nat} (h : m ≤ n) : (bigEndian m).length ≤ (bigEndian n).length := by
  induction m using Nat.strong_induction_on generalizing n with
  | _ m ih =>
    by_cases hm : m = 0
    · rw [hm, bigEndian, if_pos rfl]
      exact Nat.zero_le _
    · have hn : n ≠ 0 := by omega
      have hm' : bigEndian m = bigEndian (m / 256) ++ [UInt8.ofNat (m % 256)] := by
        rw [bigEndian, if_neg hm]
      have hn' : bigEndian n = bigEndian (n / 256) ++ [UInt8.ofNat (n % 256)] := by
        rw [bigEndian, if_neg hn]
      rw [hm', hn', List.length_append, List.length_append]
      have hlt : m / 256 < m := Nat.div_lt_self (by omega) (by omega)
      exact Nat.add_le_add_right (ih _ hlt (Nat.div_le_div_right h)) 1

theorem length_header_le (offset : UInt8) {m n : Nat} (h : m ≤ n) :
    (header offset m).length ≤ (header offset n).length := by
  unfold header
  split_ifs with hm hn hn
  · exact le_rfl
  · simp
  · omega
  · simpa using length_bigEndian_le h

theorem header_ne_nil (offset : UInt8) (len : Nat) : header offset len ≠ [] := by
  unfold header
  split_ifs <;> simp

theorem encode_ne_nil : ∀ x : Item, encode x ≠ []
  | .str [b] => by
    unfold encode
    split_ifs <;> simp
  | .str [] => by simp [encode, header_ne_nil]
  | .str (_ :: _ :: _) => by simp [encode]
  | .list items => by simp [encode, header_ne_nil]

@[simp] theorem encode_list_nil : encode (.list []) = [0xC0] := by
  simp [encode, encodeAll, header]

theorem length_encodeAll_append (xs ys : List Item) :
    (encodeAll (xs ++ ys)).length = (encodeAll xs).length + (encodeAll ys).length := by
  induction xs with
  | nil => simp [encodeAll]
  | cons x xs ih => simp [encodeAll, ih, Nat.add_assoc]

theorem length_encodeAll_cons (x : Item) (xs : List Item) :
    (encodeAll (x :: xs)).length = (encode x).length + (encodeAll xs).length := by
  simp [encodeAll]

theorem length_encode_list_lt {xs ys : List Item} (h : (encodeAll xs).length < (encodeAll ys).length) :
    (encode (.list xs)).length < (encode (.list ys)).length := by
  simp only [encode, List.length_append]
  have := length_header_le 0xC0 h.le
  omega

/-- Replacing one item of a list by an item with a longer encoding makes the
list's encoding longer. -/
theorem length_encode_list_lt_of_item (pre post : List Item) {x y : Item}
    (h : (encode x).length < (encode y).length) :
    (encode (.list (pre ++ x :: post))).length < (encode (.list (pre ++ y :: post))).length := by
  apply length_encode_list_lt
  simp only [length_encodeAll_append, length_encodeAll_cons]
  omega

theorem length_encode_list_nil_lt {x : Item} {xs : List Item} :
    (encode (.list [])).length < (encode (.list (x :: xs))).length := by
  have hlen : (encode (.list (x :: xs))).length =
      (header 0xC0 (encodeAll (x :: xs)).length).length + (encodeAll (x :: xs)).length := by
    simp only [encode, List.length_append]
  have h₁ : 0 < (header 0xC0 (encodeAll (x :: xs)).length).length :=
    List.length_pos_of_ne_nil (header_ne_nil _ _)
  have h₂ : 0 < (encodeAll (x :: xs)).length := by
    rw [length_encodeAll_cons]
    have := List.length_pos_of_ne_nil (encode_ne_nil x)
    omega
  rw [encode_list_nil, hlen, List.length_singleton]
  omega

end Rlp
