import Waybill.Bytes.BigEndian
/-!
# Keccak-256

The sponge over the permutation of 1600 bits with a rate of 136 bytes and the first padding byte
`0x01`. Lanes are 64-bit words, read from the input with the least significant byte first; the
lane in column `x` and row `y` stands at index `x + 5 * y`.
-/

namespace Waybill.Keccak

/-- The 25 lanes of the permutation. -/
abbrev State := Array UInt64

/-- The lane in a column and a row, both modulo five. -/
def lane (a : State) (x y : Nat) : UInt64 := a.getD (x % 5 + 5 * (y % 5)) 0

/-- The lanes given by a function of column and row. -/
def build (f : Nat → Nat → UInt64) : State :=
  (List.range 25).foldl (fun a i => a.push (f (i % 5) (i / 5))) #[]

/-- Rotation towards the most significant bit, by an amount below 64. -/
def rotate (w : UInt64) (n : Nat) : UInt64 :=
  if n = 0 then w else (w <<< UInt64.ofNat n) ||| (w >>> UInt64.ofNat (64 - n))

/-- How far each lane is rotated. -/
def rotations : Array Nat :=
  #[0, 1, 62, 28, 27, 36, 44, 6, 55, 20, 3, 10, 43, 25, 39, 41, 45, 15, 21, 8, 18, 2, 61, 56, 14]

/-- The constants added to the first lane, one a round. -/
def roundConstants : List UInt64 :=
  [0x0000000000000001, 0x0000000000008082, 0x800000000000808A, 0x8000000080008000,
   0x000000000000808B, 0x0000000080000001, 0x8000000080008081, 0x8000000000008009,
   0x000000000000008A, 0x0000000000000088, 0x0000000080008009, 0x000000008000000A,
   0x000000008000808B, 0x800000000000008B, 0x8000000000008089, 0x8000000000008003,
   0x8000000000008002, 0x8000000000000080, 0x000000000000800A, 0x800000008000000A,
   0x8000000080008081, 0x8000000000008080, 0x0000000080000001, 0x8000000080008008]

/-- Adds to each lane the parities of two neighbouring columns. -/
def mixColumns (a : State) : State :=
  let parity := build fun x _ => lane a x 0 ^^^ lane a x 1 ^^^ lane a x 2 ^^^ lane a x 3 ^^^ lane a x 4
  build fun x y => lane a x y ^^^ lane parity (x + 4) 0 ^^^ rotate (lane parity (x + 1) 0) 1

/-- Rotates the lanes and moves them to their new places. -/
def moveLanes (a : State) : State :=
  build fun x y =>
    let i := (x + 3 * y) % 5 + 5 * x
    rotate (a.getD i 0) (rotations.getD i 0)

/-- Combines each lane with the next two of its row. -/
def combineRows (a : State) : State :=
  build fun x y => lane a x y ^^^ (~~~(lane a (x + 1) y) &&& lane a (x + 2) y)

/-- One round of the permutation. -/
def round (a : State) (c : UInt64) : State :=
  let b := combineRows (moveLanes (mixColumns a))
  b.set! 0 (lane b 0 0 ^^^ c)

/-- All rounds. -/
def permute (a : State) : State := roundConstants.foldl round a

/-- The number of input bytes taken before each permutation. -/
def rate : Nat := 136

/-- The lane that eight bytes spell, least significant first. -/
def laneOfBytes (bs : Bytes) : UInt64 := UInt64.ofNat (Bytes.toNat bs.reverse)

/-- Adds one block to the state and permutes it. -/
def absorb (a : State) (block : Bytes) : State :=
  permute (build fun x y => lane a x y ^^^ laneOfBytes ((block.drop (8 * (x + 5 * y))).take 8))

/-- The input filled up to a multiple of the rate. -/
def pad (input : Bytes) : Bytes :=
  let free := rate - input.length % rate
  if free = 1 then input ++ [0x81]
  else input ++ 0x01 :: List.replicate (free - 2) 0 ++ [0x80]

/-- Absorbs the given number of blocks. -/
def absorbBlocks : Nat → State → Bytes → State
  | 0, a, _ => a
  | n + 1, a, input => absorbBlocks n (absorb a (input.take rate)) (input.drop rate)

/-- The 32-byte digest of an input. -/
def digest (input : Bytes) : Bytes :=
  let padded := pad input
  let a := absorbBlocks (padded.length / rate) (build fun _ _ => 0) padded
  (List.range 4).flatMap fun i => (Bytes.ofNat 8 (lane a i 0).toNat).reverse

end Waybill.Keccak
