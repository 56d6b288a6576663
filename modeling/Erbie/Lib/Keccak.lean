import Mathlib

/-! Keccak-256, the hash of Ethereum: the sponge over the permutation
Keccak-f[1600], with a rate of 136 bytes, the padding `pad10*1` with the
domain bit of the original Keccak (the first pad byte is `0x01`, not the
`0x06` of SHA-3), and 32 bytes of output. A state is 25 lanes of 64 bits,
lane `(x, y)` at index `x + 5 * y`, each a number below `2 ^ 64`; bytes enter
and leave a lane little-endian. -/

namespace Keccak

def laneMask : Nat := 2 ^ 64 - 1

/-- The round constants of `ι`. -/
def roundConstants : List Nat :=
  [0x0000000000000001, 0x0000000000008082, 0x800000000000808A, 0x8000000080008000,
   0x000000000000808B, 0x0000000080000001, 0x8000000080008081, 0x8000000000008009,
   0x000000000000008A, 0x0000000000000088, 0x0000000080008009, 0x000000008000000A,
   0x000000008000808B, 0x800000000000008B, 0x8000000000008089, 0x8000000000008003,
   0x8000000000008002, 0x8000000000000080, 0x000000000000800A, 0x800000008000000A,
   0x8000000080008081, 0x8000000000008080, 0x0000000080000001, 0x8000000080008008]

/-- The rotation of lane `(x, y)` in `ρ`, at index `x + 5 * y`. -/
def rotationOffsets : List Nat :=
  [0, 1, 62, 28, 27, 36, 44, 6, 55, 20, 3, 10, 43, 25, 39, 41, 45, 15, 21, 8, 18, 2, 61, 56, 14]

/-- Rotation of a lane to the left. -/
def rotl (x n : Nat) : Nat := ((x <<< n) ||| (x >>> (64 - n))) &&& laneMask

abbrev State := List Nat

def lane (a : State) (x y : Nat) : Nat := a.getD (x % 5 + 5 * (y % 5)) 0

/-- `θ`: every lane takes the parities of the two neighbouring columns. -/
def theta (a : State) : State :=
  let c (x : Nat) := lane a x 0 ^^^ lane a x 1 ^^^ lane a x 2 ^^^ lane a x 3 ^^^ lane a x 4
  (List.range 25).map fun i => a.getD i 0 ^^^ c ((i + 4) % 5) ^^^ rotl (c ((i + 1) % 5)) 1

/-- `ρ` and `π`: lane `(x, y)` is rotated and moves to `(y, 2x + 3y)`. Lane
`(X, Y)` of the result comes from `(x, X)` with `x = 3 (Y - 3X) mod 5`. -/
def rhoPi (a : State) : State :=
  (List.range 25).map fun i =>
    let x := (3 * (i / 5 + 15 - 3 * (i % 5))) % 5
    rotl (lane a x (i % 5)) (rotationOffsets.getD (x + 5 * (i % 5)) 0)

/-- `χ`: the only non-linear step, along each row. -/
def chi (b : State) : State :=
  (List.range 25).map fun i =>
    lane b (i % 5) (i / 5) ^^^ ((lane b (i % 5 + 1) (i / 5) ^^^ laneMask) &&& lane b (i % 5 + 2) (i / 5))

/-- `ι`: the round constant enters lane `(0, 0)`. -/
def iota (rc : Nat) : State → State
  | [] => []
  | l :: rest => (l ^^^ rc) :: rest

def round (a : State) (rc : Nat) : State := iota rc (chi (rhoPi (theta a)))

/-- Keccak-f[1600]: 24 rounds. -/
def permute (a : State) : State := roundConstants.foldl round a

/-- `pad10*1` with the Keccak domain bit, to a multiple of `rate` bytes. -/
def pad (rate : Nat) (m : List UInt8) : List UInt8 :=
  let q := rate - m.length % rate
  if q = 1 then m ++ [0x81] else m ++ [0x01] ++ List.replicate (q - 2) 0 ++ [0x80]

/-- A little-endian number of bytes. -/
def ofBytesLE (bs : List UInt8) : Nat := bs.foldr (fun b acc => b.toNat + 256 * acc) 0

/-- The eight bytes of a lane, little-endian. -/
def bytesOfLane (l : Nat) : List UInt8 := (List.range 8).map fun k => ((l >>> (8 * k)) % 256).toUInt8

/-- A block XORed into the first lanes of the state, then the permutation. -/
def absorbBlock (a : State) (block : List UInt8) : State :=
  let lanes := (List.range 25).map fun j => ofBytesLE ((block.drop (8 * j)).take 8)
  permute (List.zipWith (· ^^^ ·) a lanes)

/-- The blocks of `rate` bytes of a padded message, `n` of them at most. -/
def blocks (rate : Nat) : Nat → List UInt8 → List (List UInt8)
  | 0, _ => []
  | _, [] => []
  | n + 1, m => m.take rate :: blocks rate n (m.drop rate)

def keccak256 (m : List UInt8) : List UInt8 :=
  let p := pad 136 m
  let a := (blocks 136 p.length p).foldl absorbBlock (List.replicate 25 0)
  (a.take 4).flatMap bytesOfLane

example : keccak256 [] =
    [0xc5, 0xd2, 0x46, 0x01, 0x86, 0xf7, 0x23, 0x3c, 0x92, 0x7e, 0x7d, 0xb2, 0xdc, 0xc7, 0x03, 0xc0,
     0xe5, 0x00, 0xb6, 0x53, 0xca, 0x82, 0x27, 0x3b, 0x7b, 0xfa, 0xd8, 0x04, 0x5d, 0x85, 0xa4, 0x70] := by
  decide +kernel

example : keccak256 [0x61, 0x62, 0x63] =
    [0x4e, 0x03, 0x65, 0x7a, 0xea, 0x45, 0xa9, 0x4f, 0xc7, 0xd4, 0x7b, 0xa8, 0x26, 0xc8, 0xd6, 0x67,
     0xc0, 0xd1, 0xe6, 0xe3, 0x3a, 0x64, 0xa0, 0x36, 0xec, 0x44, 0xf5, 0x8f, 0xa1, 0x2d, 0x6c, 0x45] := by
  decide +kernel

end Keccak
