import TangemKeys.Py.Text

/-!
# secp256k1 in eth_keys' native backend

eth_keys does its curve arithmetic through a backend: `coincurve` (libsecp256k1) when that package
is installed, and otherwise its own pure-Python code in `eth_keys.backends.native`.  This module
models the pure-Python backend: the big-endian integer codecs of `eth_utils`, the Jacobian point
arithmetic, key decompression and public-key recovery.  Integers are Python's, so a coordinate is
an `Int` and `%` is `Int.emod`, which agrees with Python's `%` for a positive modulus.

The two recursive helpers that Python runs by recursion and by a `while` loop,
`jacobian_multiply` and `inv`, take an explicit bound on their depth, so that the kernel can run
them; the bound each caller passes is never reached.

## Main definitions

* `secpk1P`, `secpk1N`, `secpk1Gx`, `secpk1Gy` — the curve constants.
* `bigEndianToInt`, `intToBigEndian`, `pad32`, `encodeRawPublicKey` — the byte codecs.
* `powMod` — three-argument `pow`, by square-and-multiply; `powMod_eq` gives its value.
* `jacobianDouble`, `jacobianAdd`, `jacobianMultiply`, `isIdentity`, `inv`, `fromJacobian`.
* `decompressPublicKey`, `ecdsaRawRecover` — the two backend operations the scripts reach.

## Main results

* `encodeRawPublicKey_roundTrip` — `encode_raw_public_key` and `big_endian_to_int` of the two
  halves are inverse to each other.
* `decompressPublicKey_spec` — decompression keeps `X`, picks the root with the prefix's parity,
  and gives a point of the curve wherever Euler's criterion accepts `x^3 + 7`.
-/

namespace TangemKeys.Secp256k1

open TangemKeys.Py

/-! ### Constants -/

/-- `SECPK1_P`: the field prime. -/
def secpk1P : Nat := 2 ^ 256 - 2 ^ 32 - 977

/-- `SECPK1_N`: the order of the generator. -/
def secpk1N : Nat :=
  115792089237316195423570985008687907852837564279074904382605163141518161494337

/-- `SECPK1_A`: the curve is `y^2 = x^3 + A x + B`. -/
def secpk1A : Nat := 0

/-- `SECPK1_B`. -/
def secpk1B : Nat := 7

/-- `SECPK1_Gx`: the generator's `x`. -/
def secpk1Gx : Nat :=
  55066263022277343669578718895168534326250603453777594175500187360389116729240

/-- `SECPK1_Gy`: the generator's `y`. -/
def secpk1Gy : Nat :=
  32670510020758816978083085130507043184471273380659243275938904335757337482424

/-- `(x, y)` is an affine point of the curve: coordinates below `P`, and `y^2 = x^3 + A x + B`
modulo `P`. -/
def OnCurve (x y : Nat) : Prop :=
  x < secpk1P ∧ y < secpk1P ∧ y ^ 2 % secpk1P = (x ^ 3 + secpk1A * x + secpk1B) % secpk1P

instance (x y : Nat) : Decidable (OnCurve x y) := inferInstanceAs (Decidable (_ ∧ _ ∧ _))

/-! ### Byte codecs -/

/-- `big_endian_to_int`. -/
def bigEndianToInt (bs : List UInt8) : Nat := bs.foldl (fun acc b => 256 * acc + b.toNat) 0

/-- The `k` low bytes of `n`, big-endian. -/
def toBytesBE : Nat → Nat → List UInt8
  | 0, _ => []
  | k + 1, n => toBytesBE k (n / 256) ++ [UInt8.ofNat (n % 256)]

/-- The number of base-256 digits of `n`, counting at most `fuel` of them. -/
def byteCount : Nat → Nat → Nat
  | 0, _ => 0
  | fuel + 1, n => if n = 0 then 0 else byteCount fuel (n / 256) + 1

/-- `int_to_big_endian`: `n.to_bytes((n.bit_length() + 7) // 8 or 1, "big")`, the shortest
big-endian encoding, and one zero byte for zero. -/
def intToBigEndian (n : Nat) : List UInt8 := toBytesBE (max 1 (byteCount n n)) n

/-- `pad32`: left-padding with zero bytes to 32 bytes. -/
def pad32 (bs : List UInt8) : List UInt8 := List.replicate (32 - bs.length) 0 ++ bs

/-- `encode_raw_public_key`: the 64 bytes `X ‖ Y`. -/
def encodeRawPublicKey (x y : Nat) : List UInt8 :=
  pad32 (intToBigEndian x) ++ pad32 (intToBigEndian y)

@[simp] theorem length_toBytesBE (k n : Nat) : (toBytesBE k n).length = k := by
  induction k generalizing n with
  | zero => rfl
  | succ k ih => simp [toBytesBE, ih]

theorem foldl_bigEndian_lt (acc : Nat) :
    ∀ bs : List UInt8, bs.foldl (fun acc b => 256 * acc + b.toNat) acc < (acc + 1) * 256 ^ bs.length
  | [] => by simp
  | b :: bs => by
    have hb : b.toNat < 256 := b.val.isLt
    calc _ < (256 * acc + b.toNat + 1) * 256 ^ bs.length := foldl_bigEndian_lt _ bs
      _ ≤ (256 * acc + 256) * 256 ^ bs.length := Nat.mul_le_mul_right _ (by omega)
      _ = (acc + 1) * (256 * 256 ^ bs.length) := by
        rw [← Nat.mul_assoc, show 256 * acc + 256 = (acc + 1) * 256 by omega]
      _ = (acc + 1) * 256 ^ (b :: bs).length := by rw [List.length_cons, Nat.pow_succ']

theorem bigEndianToInt_lt (bs : List UInt8) : bigEndianToInt bs < 256 ^ bs.length := by
  simpa using foldl_bigEndian_lt 0 bs

theorem byteCount_le {k : Nat} : ∀ {fuel n : Nat}, n < 256 ^ k → byteCount fuel n ≤ k := by
  induction k with
  | zero => intro fuel n h; cases fuel <;> simp_all [byteCount]
  | succ k ih =>
    intro fuel n h
    cases fuel with
    | zero => exact Nat.zero_le _
    | succ fuel =>
      unfold byteCount
      split_ifs
      · exact Nat.zero_le _
      · have : n / 256 < 256 ^ k := by rw [Nat.pow_succ] at h; omega
        exact Nat.succ_le_succ (ih this)

theorem length_pad32_intToBigEndian {n : Nat} (h : n < 2 ^ 256) :
    (pad32 (intToBigEndian n)).length = 32 := by
  have : byteCount n n ≤ 32 := byteCount_le (by simpa using h)
  simp only [pad32, intToBigEndian, List.length_append, List.length_replicate, length_toBytesBE]
  omega

theorem length_encodeRawPublicKey {x y : Nat} (hx : x < 2 ^ 256) (hy : y < 2 ^ 256) :
    (encodeRawPublicKey x y).length = 64 := by
  rw [encodeRawPublicKey, List.length_append, length_pad32_intToBigEndian hx,
    length_pad32_intToBigEndian hy]

/-! ### The codec round trip -/

theorem bigEndianToInt_append_singleton (bs : List UInt8) (b : UInt8) :
    bigEndianToInt (bs ++ [b]) = 256 * bigEndianToInt bs + b.toNat := by
  simp [bigEndianToInt, List.foldl_append]

/-- Reading `k` bytes of `n` back gives `n` modulo `256 ^ k`. -/
theorem bigEndianToInt_toBytesBE (k n : Nat) : bigEndianToInt (toBytesBE k n) = n % 256 ^ k := by
  induction k generalizing n with
  | zero => simp [toBytesBE, bigEndianToInt, Nat.mod_one]
  | succ k ih =>
    rw [toBytesBE, bigEndianToInt_append_singleton, ih,
      UInt8.toNat_ofNat_of_lt (show n % 256 < UInt8.size from Nat.mod_lt _ (by decide)),
      Nat.pow_succ', Nat.mod_mul]
    omega

/-- Writing the value of `bs` on `bs.length` bytes gives `bs` back. -/
theorem toBytesBE_bigEndianToInt {bs : List UInt8} {k : Nat} (h : bs.length = k) :
    toBytesBE k (bigEndianToInt bs) = bs := by
  subst h
  induction bs using List.reverseRecOn with
  | nil => rfl
  | append_singleton bs b ih =>
    have hb : b.toNat < 256 := b.val.isLt
    rw [List.length_append, List.length_singleton, toBytesBE, bigEndianToInt_append_singleton,
      show (256 * bigEndianToInt bs + b.toNat) / 256 = bigEndianToInt bs by omega,
      show (256 * bigEndianToInt bs + b.toNat) % 256 = b.toNat by omega, ih, uint8_ofNat_toNat]

theorem toBytesBE_zero (k : Nat) : toBytesBE k 0 = List.replicate k 0 := by
  induction k with
  | zero => rfl
  | succ k ih => rw [toBytesBE, ih, List.replicate_succ']; rfl

/-- Writing a value on more bytes than it needs puts zero bytes in front. -/
theorem toBytesBE_add {k n : Nat} (j : Nat) (h : n < 256 ^ k) :
    toBytesBE (j + k) n = List.replicate j 0 ++ toBytesBE k n := by
  induction k generalizing n with
  | zero =>
    obtain rfl : n = 0 := by simpa using h
    simp [toBytesBE_zero]
  | succ k ih =>
    rw [← Nat.add_assoc, toBytesBE, toBytesBE, ih (by rw [Nat.pow_succ] at h; omega),
      List.append_assoc]

theorem lt_pow_byteCount : ∀ {fuel n : Nat}, n ≤ fuel → n < 256 ^ byteCount fuel n
  | 0, n, h => by simp [byteCount, Nat.le_zero.mp h]
  | fuel + 1, n, h => by
    unfold byteCount
    split_ifs with hn
    · simp [hn]
    · have : n / 256 < 256 ^ byteCount fuel (n / 256) := lt_pow_byteCount (by omega)
      rw [Nat.pow_succ]
      omega

/-- `pad32(int_to_big_endian(n))` is `n` on 32 bytes. -/
theorem pad32_intToBigEndian {n : Nat} (h : n < 2 ^ 256) :
    pad32 (intToBigEndian n) = toBytesBE 32 n := by
  have hle : byteCount n n ≤ 32 := byteCount_le (by simpa using h)
  have hlt : n < 256 ^ max 1 (byteCount n n) :=
    lt_of_lt_of_le (lt_pow_byteCount le_rfl) (Nat.pow_le_pow_right (by decide) (le_max_right _ _))
  rw [pad32, intToBigEndian, length_toBytesBE, ← toBytesBE_add _ hlt]
  congr 1
  omega

theorem encodeRawPublicKey_eq {x y : Nat} (hx : x < 2 ^ 256) (hy : y < 2 ^ 256) :
    encodeRawPublicKey x y = toBytesBE 32 x ++ toBytesBE 32 y := by
  rw [encodeRawPublicKey, pad32_intToBigEndian hx, pad32_intToBigEndian hy]

/-- **`encode_raw_public_key` round trip.**  Two coordinates below `2 ^ 256` are read back from
their 64 bytes by `big_endian_to_int` of the two halves, and any 64 bytes are the encoding of the
values of their two halves. -/
theorem encodeRawPublicKey_roundTrip :
    (∀ x y : Nat, x < 2 ^ 256 → y < 2 ^ 256 →
      bigEndianToInt ((encodeRawPublicKey x y).take 32) = x ∧
        bigEndianToInt ((encodeRawPublicKey x y).drop 32) = y) ∧
    ∀ bs : List UInt8, bs.length = 64 →
      encodeRawPublicKey (bigEndianToInt (bs.take 32)) (bigEndianToInt (bs.drop 32)) = bs := by
  refine ⟨fun x y hx hy => ?_, fun bs hbs => ?_⟩
  · rw [encodeRawPublicKey_eq hx hy, List.take_left' (length_toBytesBE _ _),
      List.drop_left' (length_toBytesBE _ _), bigEndianToInt_toBytesBE, bigEndianToInt_toBytesBE,
      Nat.mod_eq_of_lt (by simpa using hx), Nat.mod_eq_of_lt (by simpa using hy)]
    exact ⟨rfl, rfl⟩
  · have h1 : (bs.take 32).length = 32 := by simp [hbs]
    have h2 : (bs.drop 32).length = 32 := by simp [hbs]
    rw [encodeRawPublicKey_eq (by simpa [h1] using bigEndianToInt_lt (bs.take 32))
      (by simpa [h2] using bigEndianToInt_lt (bs.drop 32)), toBytesBE_bigEndianToInt h1,
      toBytesBE_bigEndianToInt h2, List.take_append_drop]

/-- The generator's coordinates read back from its encoding, and 64 zero bytes encode `(0, 0)`. -/
theorem encodeRawPublicKey_roundTrip_generator :
    secpk1Gx < 2 ^ 256 ∧ secpk1Gy < 2 ^ 256 ∧
      (bigEndianToInt ((encodeRawPublicKey secpk1Gx secpk1Gy).take 32) = secpk1Gx ∧
        bigEndianToInt ((encodeRawPublicKey secpk1Gx secpk1Gy).drop 32) = secpk1Gy) ∧
      (List.replicate 64 (0 : UInt8)).length = 64 ∧
      encodeRawPublicKey (bigEndianToInt ((List.replicate 64 0).take 32))
        (bigEndianToInt ((List.replicate 64 0).drop 32)) = List.replicate 64 0 :=
  have hx : secpk1Gx < 2 ^ 256 := by decide
  have hy : secpk1Gy < 2 ^ 256 := by decide
  ⟨hx, hy, encodeRawPublicKey_roundTrip.1 _ _ hx hy, List.length_replicate _ _,
    encodeRawPublicKey_roundTrip.2 _ (List.length_replicate _ _)⟩

/-! ### Modular arithmetic -/

/-- Square-and-multiply for `a ^ n % m`, halving the exponent at most `fuel` times. -/
def powModAux (m : Nat) : Nat → Nat → Nat → Nat
  | 0, _, _ => 1 % m
  | fuel + 1, a, n =>
    if n = 0 then 1 % m
    else
      let r := powModAux m fuel (a * a % m) (n / 2)
      if n % 2 = 1 then r * a % m else r

/-- Python's `pow(a, e, m)`. -/
def powMod (a e m : Nat) : Nat := powModAux m e a e

theorem powModAux_eq (m : Nat) : ∀ (fuel a n : Nat), n ≤ fuel → powModAux m fuel a n = a ^ n % m
  | 0, a, n, h => by simp [powModAux, Nat.le_zero.mp h]
  | fuel + 1, a, n, h => by
    unfold powModAux
    dsimp only
    split_ifs with h0 h1
    · simp [h0]
    · rw [powModAux_eq m fuel _ _ (by omega), ← Nat.pow_mod, ← Nat.pow_two, ← Nat.pow_mul,
        Nat.mod_mul_mod, ← Nat.pow_succ, show (2 * (n / 2)).succ = n by omega]
    · rw [powModAux_eq m fuel _ _ (by omega), ← Nat.pow_mod, ← Nat.pow_two, ← Nat.pow_mul,
        show 2 * (n / 2) = n by omega]

/-- `pow(a, e, m)` is `a ^ e % m`. -/
theorem powMod_eq (a e m : Nat) : powMod a e m = a ^ e % m := powModAux_eq m e a e le_rfl

/-- `inv`'s `while low > 1` loop, the extended Euclidean algorithm on `(low, high)`, at most
`fuel` rounds; `low` decreases each round, so `low` rounds suffice. -/
def invLoop : Nat → Int → Int → Nat → Nat → Int
  | 0, lm, _, _, _ => lm
  | fuel + 1, lm, hm, low, high =>
    if low ≤ 1 then lm
    else
      let r := high / low
      invLoop fuel (hm - lm * r) lm (high - low * r) low

/-- `inv(a, n)`: the inverse of `a` modulo `n`, and `0` for `a = 0`. -/
def inv (a : Int) (n : Nat) : Int :=
  if a = 0 then 0 else invLoop (a % n).toNat 1 0 (a % n).toNat n % n

/-! ### Jacobian points -/

/-- `jacobian_double`. -/
def jacobianDouble (p : Int × Int × Int) : Int × Int × Int :=
  if p.2.1 = 0 then (0, 0, 0)
  else
    let ysq := p.2.1 ^ 2 % secpk1P
    let s := 4 * p.1 * ysq % secpk1P
    let m := (3 * p.1 ^ 2 + secpk1A * p.2.2 ^ 4) % secpk1P
    let nx := (m ^ 2 - 2 * s) % secpk1P
    let ny := (m * (s - nx) - 8 * ysq ^ 2) % secpk1P
    let nz := 2 * p.2.1 * p.2.2 % secpk1P
    (nx, ny, nz)

/-- `jacobian_add`. -/
def jacobianAdd (p q : Int × Int × Int) : Int × Int × Int :=
  if p.2.1 = 0 then q
  else if q.2.1 = 0 then p
  else
    let u1 := p.1 * q.2.2 ^ 2 % secpk1P
    let u2 := q.1 * p.2.2 ^ 2 % secpk1P
    let s1 := p.2.1 * q.2.2 ^ 3 % secpk1P
    let s2 := q.2.1 * p.2.2 ^ 3 % secpk1P
    if u1 = u2 then (if s1 ≠ s2 then (0, 0, 1) else jacobianDouble p)
    else
      let h := u2 - u1
      let r := s2 - s1
      let h2 := h * h % secpk1P
      let h3 := h * h2 % secpk1P
      let u1h2 := u1 * h2 % secpk1P
      let nx := (r ^ 2 - h3 - 2 * u1h2) % secpk1P
      let ny := (r * (u1h2 - nx) - s1 * h3) % secpk1P
      let nz := h * p.2.2 * q.2.2 % secpk1P
      (nx, ny, nz)

/-- `jacobian_multiply(a, n)`'s recursion, at most `fuel` levels deep.  Every caller passes
`n ≥ 0`, so Python's `n < 0` case is left out; `n` decreases at each level, so `n` levels
suffice. -/
def jacobianMultiplyAux : Nat → Int × Int × Int → Nat → Int × Int × Int
  | 0, _, _ => (0, 0, 1)
  | fuel + 1, a, n =>
    if a.2.1 = 0 ∨ n = 0 then (0, 0, 1)
    else if n = 1 then a
    else if secpk1N ≤ n then jacobianMultiplyAux fuel a (n % secpk1N)
    else if n % 2 = 0 then jacobianDouble (jacobianMultiplyAux fuel a (n / 2))
    else jacobianAdd (jacobianDouble (jacobianMultiplyAux fuel a (n / 2))) a

/-- `jacobian_multiply(a, n)`. -/
def jacobianMultiply (a : Int × Int × Int) (n : Nat) : Int × Int × Int :=
  jacobianMultiplyAux n a n

/-- `is_identity`: the point at infinity, which the Jacobian functions mark by `Y = 0`. -/
def isIdentity (p : Int × Int × Int) : Bool := p.2.1 = 0

/-- `from_jacobian`: the affine point. -/
def fromJacobian (p : Int × Int × Int) : Int × Int :=
  let z := inv p.2.2 secpk1P
  (p.1 * z ^ 2 % secpk1P, p.2.1 * z ^ 3 % secpk1P)

/-! ### The backend operations -/

/-- The `ValueError` of `decompress_public_key`. -/
def invalidCompressedPublicKey : PyException := ⟨"Invalid compressed public key".toList⟩

/-- `decompress_public_key`: the `X ‖ Y` bytes of a 33-byte compressed key.  The root
`y_squared ^ ((P + 1) / 4)` is never checked against `y_squared`, so an `X` off the curve still
decompresses, to a point off the curve. -/
def decompressPublicKey (b : List UInt8) : Except PyException (List UInt8) :=
  match b with
  | [] => .error invalidCompressedPublicKey
  | pfx :: xBytes =>
    if b.length ≠ 33 ∨ (pfx ≠ 2 ∧ pfx ≠ 3) then .error invalidCompressedPublicKey
    else
      let x := bigEndianToInt xBytes
      let ySquared := (x ^ 3 + secpk1A * x + secpk1B) % secpk1P
      let yAbs := powMod ySquared ((secpk1P + 1) / 4) secpk1P
      -- `(-y_abs) % P`, with `0 ≤ y_abs < P`
      let y := if (pfx = 2 ∧ yAbs % 2 = 1) ∨ (pfx = 3 ∧ yAbs % 2 = 0) then (secpk1P - yAbs) % secpk1P
        else yAbs
      .ok (encodeRawPublicKey x y)

/-- `ecdsa_raw_recover(msg_hash, (v, r, s))`, `none` where it raises `BadSignature`: the point
`R` with `x = r` and the parity of `v` must lie on the curve, and `r`, `s` must be nonzero
modulo `N`; then `Q = r⁻¹ (s R - z G)` with `z` the digest read big-endian, and `Q` may not be
the point at infinity. -/
def ecdsaRawRecover (msgHash : List UInt8) (v r s : Nat) : Option (List UInt8) :=
  let v := v + 27
  if ¬(27 ≤ v ∧ v ≤ 34) then none
  else
    let x := r
    let xcubedaxb := (x * x * x + secpk1A * x + secpk1B) % secpk1P
    let beta := powMod xcubedaxb ((secpk1P + 1) / 4) secpk1P
    let y := if v % 2 ^^^ beta % 2 ≠ 0 then beta else secpk1P - beta
    if ((xcubedaxb : Int) - y * y) % secpk1P ≠ 0 ∨ r % secpk1N = 0 ∨ s % secpk1N = 0 then none
    else
      let z := bigEndianToInt msgHash
      let gz := jacobianMultiply (secpk1Gx, secpk1Gy, 1) ((secpk1N - z : Int) % secpk1N).toNat
      let xy := jacobianMultiply (x, y, 1) s
      let qr := jacobianAdd gz xy
      let q := jacobianMultiply qr (inv r secpk1N).toNat
      if isIdentity q then none
      else
        let raw := fromJacobian q
        some (encodeRawPublicKey raw.1.toNat raw.2.toNat)

/-! ### Decompression -/

theorem secpk1P_lt : secpk1P < 2 ^ 256 := by decide

theorem secpk1P_mod_four : secpk1P % 4 = 3 := by decide

/-- `(P - a) % P`, Python's `(-a) % P`, has the square of `a` modulo `P`. -/
theorem sq_sub_mod {a : Nat} (h : a ≤ secpk1P) :
    ((secpk1P - a) % secpk1P) ^ 2 % secpk1P = a ^ 2 % secpk1P := by
  rw [← ZMod.natCast_eq_natCast_iff']
  push_cast [ZMod.natCast_mod, Nat.cast_sub h, ZMod.natCast_self]
  ring

/-- Since `P ≡ 3 (mod 4)`, the `(P + 1) / 4`-th power is a square root of `a` modulo `P` wherever
Euler's criterion `a ^ ((P - 1) / 2) ≡ 1` holds, and of course where `a ≡ 0`. -/
theorem sq_powMod_root (a : Nat)
    (h : a % secpk1P = 0 ∨ a ^ ((secpk1P - 1) / 2) % secpk1P = 1) :
    powMod a ((secpk1P + 1) / 4) secpk1P ^ 2 % secpk1P = a % secpk1P := by
  have he : (secpk1P + 1) / 4 * 2 = (secpk1P - 1) / 2 + 1 := by
    have := secpk1P_mod_four
    omega
  rw [powMod_eq, ← Nat.pow_mod, ← Nat.pow_mul, he, Nat.pow_succ, Nat.mul_mod]
  rcases h with h | h
  · rw [h, Nat.mul_zero, Nat.zero_mod]
  · rw [h, Nat.one_mul, Nat.mod_mod]

/-- **`decompress_public_key`.**  A 33-byte key with prefix `0x02` or `0x03` decompresses to its own
`X` bytes followed by a `y < P` with the prefix's parity (or `y = 0`); and `(x, y)` is on the curve
wherever `x < P` and Euler's criterion accepts `x^3 + 7`.  Where the criterion rejects it, the
point is still returned, off the curve. -/
theorem decompressPublicKey_spec (pfx : UInt8) (xs : List UInt8) (hlen : xs.length = 32)
    (hp : pfx = 2 ∨ pfx = 3) :
    ∃ y, decompressPublicKey (pfx :: xs) = .ok (xs ++ toBytesBE 32 y) ∧ y < secpk1P ∧
      (y % 2 = pfx.toNat % 2 ∨ y = 0) ∧
      (bigEndianToInt xs < secpk1P →
        (bigEndianToInt xs ^ 3 + secpk1A * bigEndianToInt xs + secpk1B) % secpk1P = 0 ∨
          (bigEndianToInt xs ^ 3 + secpk1A * bigEndianToInt xs + secpk1B) ^ ((secpk1P - 1) / 2) %
            secpk1P = 1 →
        OnCurve (bigEndianToInt xs) y) := by
  have hx : bigEndianToInt xs < 2 ^ 256 := by simpa [hlen] using bigEndianToInt_lt xs
  have hodd : secpk1P % 2 = 1 := by have := secpk1P_mod_four; omega
  generalize hr : powMod ((bigEndianToInt xs ^ 3 + secpk1A * bigEndianToInt xs + secpk1B) %
    secpk1P) ((secpk1P + 1) / 4) secpk1P = r
  have hrP : r < secpk1P := by rw [← hr, powMod_eq]; exact Nat.mod_lt _ (by decide)
  have hd : decompressPublicKey (pfx :: xs) = .ok (encodeRawPublicKey (bigEndianToInt xs)
      (if (pfx = 2 ∧ r % 2 = 1) ∨ (pfx = 3 ∧ r % 2 = 0) then (secpk1P - r) % secpk1P else r)) := by
    rw [decompressPublicKey, if_neg (by rcases hp with rfl | rfl <;> simp [hlen]), ← hr]
  have hy : (if (pfx = 2 ∧ r % 2 = 1) ∨ (pfx = 3 ∧ r % 2 = 0) then (secpk1P - r) % secpk1P
      else r) < secpk1P := by
    split_ifs
    · exact Nat.mod_lt _ (by decide)
    · exact hrP
  refine ⟨_, ?_, hy, ?_, fun hxP ha => ⟨hxP, hy, ?_⟩⟩
  · rw [hd, encodeRawPublicKey_eq hx (lt_trans hy secpk1P_lt), toBytesBE_bigEndianToInt hlen]
  · have hcond : ((pfx = 2 ∧ r % 2 = 1) ∨ (pfx = 3 ∧ r % 2 = 0)) ↔ r % 2 ≠ pfx.toNat % 2 := by
      have h23 : (2 : UInt8) ≠ 3 := by decide
      rcases hp with rfl | rfl <;>
        simp only [true_and, false_and, or_false, false_or, h23, h23.symm,
          show (2 : UInt8).toNat = 2 from rfl, show (3 : UInt8).toNat = 3 from rfl] <;> omega
    have hq : pfx.toNat % 2 < 2 := Nat.mod_lt _ (by decide)
    split_ifs with hc
    · rcases Nat.eq_zero_or_pos r with rfl | hr0
      · exact .inr (by rw [Nat.sub_zero, Nat.mod_self])
      · rw [Nat.mod_eq_of_lt (by omega : secpk1P - r < secpk1P)]
        exact .inl (by have := hcond.mp hc; omega)
    · exact .inl (by have := mt hcond.mpr hc; omega)
  · have hroot := sq_powMod_root ((bigEndianToInt xs ^ 3 + secpk1A * bigEndianToInt xs +
      secpk1B) % secpk1P) (by rwa [Nat.mod_mod, ← Nat.pow_mod])
    rw [hr, Nat.mod_mod] at hroot
    split_ifs
    · rw [sq_sub_mod hrP.le, hroot]
    · exact hroot

end TangemKeys.Secp256k1
