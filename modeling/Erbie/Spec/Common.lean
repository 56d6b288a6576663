import Erbie.Spec.Types

/-! Hex strings to addresses, as `common.HexToAddress` does it: an optional
`0x` prefix is dropped, an odd number of digits gets a leading `0`, the digits
are decoded pairwise up to the first pair that is not hexadecimal (the prefix
`hex.DecodeString` returns with its error, which `Hex2Bytes` drops), and the
last twenty bytes are the address. A Go string is its UTF-8 bytes. -/

namespace Erbie

def hexDigit? (c : UInt8) : Option Nat :=
  if 48 ≤ c ∧ c ≤ 57 then some (c.toNat - 48)
  else if 97 ≤ c ∧ c ≤ 102 then some (c.toNat - 87)
  else if 65 ≤ c ∧ c ≤ 70 then some (c.toNat - 55)
  else none

/-- `Hex2Bytes` on an even-length string. -/
def hex2Bytes : List UInt8 → List Nat
  | p :: q :: rest =>
      match hexDigit? p, hexDigit? q with
      | some a, some b => (16 * a + b) :: hex2Bytes rest
      | _, _ => []
  | _ => []

def has0xPrefix : List UInt8 → Bool
  | 48 :: c :: _ => c = 120 || c = 88
  | _ => false

def fromHex (s : List UInt8) : List Nat :=
  let s := if has0xPrefix s then s.drop 2 else s
  hex2Bytes (if s.length % 2 = 1 then 48 :: s else s)

/-- `BytesToAddress`: big-endian, cropped from the left to twenty bytes. -/
def bytesToAddress (b : List Nat) : Address :=
  BitVec.ofNat 160 ((b.drop (b.length - 20)).foldl (fun acc x => 256 * acc + x) 0)

def hexToAddress (s : String) : Address := bytesToAddress (fromHex s.toUTF8.toList)

end Erbie
