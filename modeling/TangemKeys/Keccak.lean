import Mathlib

/-!
# Keccak-256

`eth_utils.keccak`, the hash behind every address the scripts derive: the Keccak sponge of rate
1088 bits over the permutation Keccak-f[1600], with Keccak's own padding `0x01 … 0x80` (not the
`0x06` of SHA-3), squeezed to 32 bytes.  A lane is a 64-bit word kept as a natural number below
`2 ^ 64`; bytes enter and leave the lanes little-endian.

Every definition is structurally recursive, so the kernel evaluates the hash of a one-block
message by `decide`; the address theorems of `TangemKeys.Derive` use that on fixed keys.

## Main definitions

* `keccakF` — the permutation, 24 rounds of `theta`, `rhoPi`, `chi` and `iota`.
* `keccak` — the hash of a byte string.
-/

namespace TangemKeys

/-! ### The permutation -/

/-- All sixty-four bits of a lane. -/
def laneMask : Nat := 2 ^ 64 - 1

/-- Rotation of a lane left by `r < 64` bits. -/
def rotl (x r : Nat) : Nat := ((x <<< r) ||| (x >>> (64 - r))) &&& laneMask

/-- The rotation offsets of the ρ step, lane `x + 5 * y` at index `x + 5 * y`. -/
def rhoOffsets : List Nat :=
  [0, 1, 62, 28, 27, 36, 44, 6, 55, 20, 3, 10, 43, 25, 39, 41, 45, 15, 21, 8, 18, 2, 61, 56, 14]

/-- The round constants of the ι step. -/
def roundConstants : List Nat :=
  [0x0000000000000001, 0x0000000000008082, 0x800000000000808A, 0x8000000080008000,
    0x000000000000808B, 0x0000000080000001, 0x8000000080008081, 0x8000000000008009,
    0x000000000000008A, 0x0000000000000088, 0x0000000080008009, 0x000000008000000A,
    0x000000008000808B, 0x800000000000008B, 0x8000000000008089, 0x8000000000008003,
    0x8000000000008002, 0x8000000000000080, 0x000000000000800A, 0x800000008000000A,
    0x8000000080008081, 0x8000000000008080, 0x0000000080000001, 0x8000000080008008]

/-- Lane `(x, y)` of a state of 25 lanes, both coordinates taken mod 5. -/
def lane (a : List Nat) (x y : Nat) : Nat := a.getD (x % 5 + 5 * (y % 5)) 0

/-- The lane coordinates in state order. -/
def lanePositions : List (Nat × Nat) :=
  (List.range 5).flatMap fun y => (List.range 5).map fun x => (x, y)

/-- θ: each lane takes the parities of two neighbouring columns. -/
def theta (a : List Nat) : List Nat :=
  let c := (List.range 5).map fun x =>
    lane a x 0 ^^^ lane a x 1 ^^^ lane a x 2 ^^^ lane a x 3 ^^^ lane a x 4
  let d := (List.range 5).map fun x =>
    c.getD ((x + 4) % 5) 0 ^^^ rotl (c.getD ((x + 1) % 5) 0) 1
  lanePositions.map fun (x, y) => lane a x y ^^^ d.getD x 0

/-- ρ and π: lane `(x, y)` receives lane `((x + 3y) mod 5, x)`, rotated by that lane's offset. -/
def rhoPi (a : List Nat) : List Nat :=
  lanePositions.map fun (x, y) =>
    rotl (lane a ((x + 3 * y) % 5) x) (rhoOffsets.getD ((x + 3 * y) % 5 + 5 * x) 0)

/-- χ: the non-linear step along rows. -/
def chi (b : List Nat) : List Nat :=
  lanePositions.map fun (x, y) => lane b x y ^^^ ((laneMask ^^^ lane b (x + 1) y) &&& lane b (x + 2) y)

/-- ι: the round constant enters lane `(0, 0)`. -/
def iota (rc : Nat) : List Nat → List Nat
  | [] => []
  | l :: ls => (l ^^^ rc) :: ls

/-- One round of Keccak-f[1600]. -/
def keccakRound (a : List Nat) (rc : Nat) : List Nat := iota rc (chi (rhoPi (theta a)))

/-- Keccak-f[1600]: the 24 rounds. -/
def keccakF (a : List Nat) : List Nat := roundConstants.foldl keccakRound a

/-! ### The sponge -/

/-- The rate of Keccak-256 in bytes. -/
def rate : Nat := 136

/-- A lane read little-endian from (at most) eight bytes. -/
def laneOfBytes (bs : List UInt8) : Nat := bs.foldr (fun b acc => b.toNat + 256 * acc) 0

/-- The eight bytes of a lane, little-endian. -/
def bytesOfLane (l : Nat) : List UInt8 := (List.range 8).map fun i => UInt8.ofNat (l >>> (8 * i))

/-- The first `k` lanes of a block. -/
def lanesOfBlock : List UInt8 → Nat → List Nat
  | _, 0 => []
  | bs, k + 1 => laneOfBytes (bs.take 8) :: lanesOfBlock (bs.drop 8) k

/-- One block enters the first seventeen lanes of the state, then the permutation runs. -/
def absorbBlock (st : List Nat) (blk : List UInt8) : List Nat :=
  keccakF (st.zipWith (· ^^^ ·) (lanesOfBlock blk 17 ++ List.replicate 8 0))

/-- Keccak's padding: `0x01`, zeros, and a final `0x80`, up to a multiple of the rate. -/
def pad (m : List UInt8) : List UInt8 :=
  let k := rate - m.length % rate
  if k = 1 then m ++ [0x81] else m ++ [0x01] ++ List.replicate (k - 2) 0 ++ [0x80]

/-- The absorbing phase over `n` blocks. -/
def absorb : Nat → List Nat → List UInt8 → List Nat
  | 0, st, _ => st
  | n + 1, st, m => absorb n (absorbBlock st (m.take rate)) (m.drop rate)

/-- `keccak(m)`: the 32-byte Keccak-256 digest of a byte string. -/
def keccak (m : List UInt8) : List UInt8 :=
  let p := pad m
  ((absorb (p.length / rate) (List.replicate 25 0) p).take 4).flatMap bytesOfLane

theorem length_lanePositions : lanePositions.length = 25 := rfl

theorem length_keccakRound (a : List Nat) (rc : Nat) : (keccakRound a rc).length = 25 := by
  have : (chi (rhoPi (theta a))).length = 25 := by simp [chi, length_lanePositions]
  unfold keccakRound
  cases h : chi (rhoPi (theta a)) <;> simp_all [iota]

theorem length_foldl_keccakRound (rcs : List Nat) {a : List Nat} (h : a.length = 25) :
    (rcs.foldl keccakRound a).length = 25 := by
  induction rcs generalizing a with
  | nil => exact h
  | cons rc rcs ih => exact ih (length_keccakRound a rc)

theorem length_keccakF (a : List Nat) : (keccakF a).length = 25 := by
  rw [keccakF, roundConstants, List.foldl_cons]
  exact length_foldl_keccakRound _ (length_keccakRound _ _)

theorem length_absorb (n : Nat) (st : List Nat) (m : List UInt8) (h : st.length = 25) :
    (absorb n st m).length = 25 := by
  induction n generalizing st m with
  | zero => exact h
  | succ n ih => exact ih _ _ (length_keccakF _)

theorem length_squeeze {st : List Nat} (h : st.length = 25) :
    ((st.take 4).flatMap bytesOfLane).length = 32 := by
  match st, h with
  | l0 :: l1 :: l2 :: l3 :: _, _ => simp [bytesOfLane]

/-- The digest has 32 bytes. -/
theorem length_keccak (m : List UInt8) : (keccak m).length = 32 :=
  length_squeeze (length_absorb _ _ _ (by simp))

set_option maxRecDepth 10000 in
/-- The Keccak-256 digest of the empty message, `c5d2…a470`. -/
example : keccak [] =
    [0xc5, 0xd2, 0x46, 0x01, 0x86, 0xf7, 0x23, 0x3c, 0x92, 0x7e, 0x7d, 0xb2, 0xdc, 0xc7, 0x03, 0xc0,
      0xe5, 0x00, 0xb6, 0x53, 0xca, 0x82, 0x27, 0x3b, 0x7b, 0xfa, 0xd8, 0x04, 0x5d, 0x85, 0xa4, 0x70] := by
  decide

end TangemKeys
