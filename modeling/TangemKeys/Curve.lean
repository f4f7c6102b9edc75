import TangemKeys.Secp256k1

/-!
# What the native backend's curve arithmetic keeps

`ecdsa_raw_recover` computes in Jacobian coordinates: a triple `(X, Y, Z)` stands for the affine
point `(X / Z^2, Y / Z^3)`, and `Y = 0` for the point at infinity.  `from_jacobian` converts back
with `inv`, the extended Euclidean algorithm.  This module proves that the arithmetic never leaves
the curve: doubling, addition and double-and-add multiplication keep `Y^2 = X^3 + 7 Z^6` modulo
`P`, and `inv` inverts every unit.  None of that needs `P` to be prime: the curve equation is an
equation in the ring `ZMod P`, and each formula keeps it by a polynomial identity.

Dividing by `Z` does need a field.  With `P` prime, the loops never make `Z` zero at a finite
point, `-7` has no cube root so the point `R` recovery starts from is finite, and so every key
`ecdsa_raw_recover` returns, past its check that `Q` is not at infinity, is a point of the curve.
The primality of `P` is the one fact taken as given; it is a premise of the statements that use it.

## Main definitions

* `OnCurveJ` — a Jacobian triple of the curve, or the point at infinity.
* `ZNonzero` — a triple with `Y` reduced and, at a finite point, `Z` nonzero modulo `P`.
* `Represents` — the affine point a Jacobian triple stands for.

## Main results

* `inv_mul_cancel` — `inv(a, n)` is an inverse of every unit `a` modulo `n`.
* `jacobianDouble_onCurveJ`, `jacobianAdd_onCurveJ`, `jacobianMultiply_onCurveJ` — the Jacobian
  operations keep `OnCurveJ`.
* `jacobianDouble_zNonzero`, `jacobianAdd_zNonzero`, `jacobianMultiply_zNonzero` — with `P` prime
  they keep `ZNonzero`.
* `fromJacobian_onCurve` — `from_jacobian` takes a finite point with an invertible `Z` to an
  affine point of the curve.
* `fromJacobian_chord_tangent` — Jacobian addition and doubling compute the affine chord and
  tangent laws.
* `ecdsaRawRecover_onCurve` — every key `ecdsa_raw_recover` returns is the affine form of a finite
  Jacobian point of the curve, and, `P` being prime, a point of the curve.
-/

namespace TangemKeys.Secp256k1

/-! ### `inv` -/

/-- A round of `inv`'s loop keeps `low` and `high` coprime and `lm * a ≡ low`, `hm * a ≡ high`
modulo `n`; `low` drops at each round, so the fuel `low` is never used up.  When the loop stops,
`low = 1` and `lm` is the inverse. -/
theorem invLoop_mul (a : Int) (n : Nat) : ∀ (fuel : Nat) (lm hm : Int) (low high : Nat),
    low ≤ fuel + 1 → 0 < low → Nat.Coprime low high →
    (lm : ZMod n) * a = low → (hm : ZMod n) * a = high →
    (invLoop fuel lm hm low high : ZMod n) * a = 1
  | 0, lm, hm, low, high, hf, h0, _, hl, _ => by
    rw [invLoop, hl, show low = 1 by omega, Nat.cast_one]
  | fuel + 1, lm, hm, low, high, hf, h0, hg, hl, hh => by
    unfold invLoop
    split_ifs with h1
    · rw [hl, show low = 1 by omega, Nat.cast_one]
    · have hle : low * (high / low) ≤ high := Nat.mul_div_le high low
      have hmod : high - low * (high / low) = high % low := by
        have := Nat.mod_add_div high low
        omega
      -- a remainder `0` would make `low` a common divisor of `low` and `high`
      have hpos : 0 < high % low := by
        refine Nat.pos_of_ne_zero fun h => h1 ?_
        have : low ∣ Nat.gcd low high := Nat.dvd_gcd dvd_rfl (Nat.dvd_of_mod_eq_zero h)
        rw [hg] at this
        exact (Nat.le_of_dvd one_pos this)
      have hlt : high % low < low := Nat.mod_lt _ h0
      refine invLoop_mul a n fuel _ _ _ _ (by omega) (by omega) ?_ ?_ hl
      · rw [hmod, Nat.Coprime, ← Nat.gcd_rec]
        exact hg
      · simp only [Int.cast_sub, Int.cast_mul, Int.cast_natCast, Nat.cast_sub hle, Nat.cast_mul]
        linear_combination hh - ((high / low : Nat) : ZMod n) * hl

/-- **`inv`.**  `inv(a, n)` is an inverse of `a` modulo `n` whenever `a` has one. -/
theorem inv_mul_cancel {a : Int} {n : Nat} (hn : 0 < n) (ha : IsUnit (a : ZMod n)) :
    (inv a n : ZMod n) * a = 1 := by
  have hmod : ((a % n).toNat : Int) = a % n := Int.toNat_of_nonneg (Int.emod_nonneg _ (by omega))
  have hcast : (((a % n).toNat : Nat) : ZMod n) = a := by
    rw [← Int.cast_natCast, hmod, ZMod.intCast_mod]
  have hcop : Nat.Coprime (a % n).toNat n := (ZMod.isUnit_iff_coprime _ _).mp (hcast ▸ ha)
  -- `a ≢ 0`, since `0` is no unit of a nontrivial ring; in `ZMod 1` everything is `1`
  rcases Nat.lt_or_ge 1 n with h1 | h1
  · have hpos : 0 < (a % n).toNat := by
      refine Nat.pos_of_ne_zero fun h => ?_
      rw [h, Nat.coprime_zero_left] at hcop
      omega
    have ha0 : a ≠ 0 := by
      rintro rfl
      simp at hpos
    rw [inv, if_neg ha0, ZMod.intCast_mod]
    exact invLoop_mul a n _ 1 0 _ n (by omega) hpos hcop (by rw [hcast]; push_cast; ring)
      (by simp)
  · obtain rfl : n = 1 := by omega
    exact Subsingleton.elim _ _

/-! ### Jacobian points of the curve -/

/-- The triple `(X, Y, Z)` is a point of the curve in Jacobian coordinates,
`Y^2 = X^3 + A X Z^4 + B Z^6` modulo `P`, or it is the point at infinity, `Y = 0`. -/
def OnCurveJ (p : Int × Int × Int) : Prop :=
  p.2.1 = 0 ∨ (p.2.1 : ZMod secpk1P) ^ 2 =
    (p.1 : ZMod secpk1P) ^ 3 + (secpk1A : ZMod secpk1P) * p.1 * p.2.2 ^ 4 +
      (secpk1B : ZMod secpk1P) * p.2.2 ^ 6

theorem secpk1P_pos : 0 < secpk1P := by decide

@[simp] theorem cast_secpk1A : (secpk1A : ZMod secpk1P) = 0 := by simp [secpk1A]

@[simp] theorem cast_secpk1B : (secpk1B : ZMod secpk1P) = 7 := by simp [secpk1B]

/-- An affine point of the curve is the Jacobian point `(x, y, 1)`. -/
theorem onCurveJ_of_onCurve {x y : Nat} (h : OnCurve x y) : OnCurveJ (x, y, 1) := by
  right
  have := (ZMod.natCast_eq_natCast_iff' _ _ _).mpr h.2.2
  push_cast at this
  simpa using this

/-- Doubling keeps the curve: its result satisfies the curve equation times `64 Y^6`. -/
theorem jacobianDouble_onCurveJ {p : Int × Int × Int} (hp : OnCurveJ p) :
    OnCurveJ (jacobianDouble p) := by
  obtain ⟨X, Y, Z⟩ := p
  unfold jacobianDouble
  split_ifs with hy
  · exact .inl rfl
  · have hc := hp.resolve_left hy
    right
    simp only [cast_secpk1A, cast_secpk1B, zero_mul, add_zero] at hc ⊢
    push_cast [ZMod.intCast_mod, cast_secpk1A]
    linear_combination 64 * (Y : ZMod secpk1P) ^ 6 * hc

/-- The chord step of Jacobian addition keeps the curve.  In the terms of `jacobian_add`,
`u_i = X_i Z_j^2` and `s_i = Y_i Z_j^3`, so the two curve equations read
`s_i^2 = u_i^3 + 7 (Z_1 Z_2)^6`; `h = u_2 - u_1` and `r = s_2 - s_1`. -/
theorem chord_onCurve {R : Type} [CommRing R] (u1 u2 s1 s2 Z1 Z2 : R)
    (h1 : s1 ^ 2 = u1 ^ 3 + 7 * (Z1 * Z2) ^ 6) (h2 : s2 ^ 2 = u2 ^ 3 + 7 * (Z1 * Z2) ^ 6) :
    ((s2 - s1) * (u1 * ((u2 - u1) * (u2 - u1)) -
        ((s2 - s1) ^ 2 - (u2 - u1) * ((u2 - u1) * (u2 - u1)) - 2 * (u1 * ((u2 - u1) * (u2 - u1))))) -
        s1 * ((u2 - u1) * ((u2 - u1) * (u2 - u1)))) ^ 2 =
      ((s2 - s1) ^ 2 - (u2 - u1) * ((u2 - u1) * (u2 - u1)) - 2 * (u1 * ((u2 - u1) * (u2 - u1)))) ^ 3 +
        7 * ((u2 - u1) * Z1 * Z2) ^ 6 := by
  linear_combination
    (u2 - u1) ^ 3 * (-u1 ^ 3 - 3 * u1 ^ 2 * (u2 - u1) - s1 ^ 2 + 2 * s1 * s2 - 7 * (Z1 * Z2) ^ 6 +
      (u2 - u1) ^ 3) * h1 +
    (u2 - u1) ^ 3 * (u1 ^ 3 - 3 * u1 * (u2 - u1) ^ 2 - 2 * s1 * s2 + 7 * (Z1 * Z2) ^ 6 + s2 ^ 2 -
      (u2 - u1) ^ 3) * h2

/-- Addition keeps the curve: the point at infinity is the identity, equal points are doubled,
opposite points give infinity, and the chord step is `chord_onCurve`. -/
theorem jacobianAdd_onCurveJ {p q : Int × Int × Int} (hp : OnCurveJ p) (hq : OnCurveJ q) :
    OnCurveJ (jacobianAdd p q) := by
  obtain ⟨X1, Y1, Z1⟩ := p
  obtain ⟨X2, Y2, Z2⟩ := q
  unfold jacobianAdd
  dsimp only
  split_ifs with hy1 hy2 hu hs
  · exact hq
  · exact hp
  · exact .inl rfl
  · exact jacobianDouble_onCurveJ hp
  · have hc1 := hp.resolve_left hy1
    have hc2 := hq.resolve_left hy2
    right
    simp only [cast_secpk1A, cast_secpk1B, zero_mul, add_zero] at hc1 hc2 ⊢
    push_cast [ZMod.intCast_mod]
    exact chord_onCurve ((X1 : ZMod secpk1P) * Z2 ^ 2) (X2 * Z1 ^ 2) (Y1 * Z2 ^ 3) (Y2 * Z1 ^ 3) Z1 Z2
      (by linear_combination (Z2 : ZMod secpk1P) ^ 6 * hc1)
      (by linear_combination (Z1 : ZMod secpk1P) ^ 6 * hc2)

/-- Double-and-add keeps the curve, at every depth of its recursion. -/
theorem jacobianMultiplyAux_onCurveJ {a : Int × Int × Int} (ha : OnCurveJ a) :
    ∀ fuel n, OnCurveJ (jacobianMultiplyAux fuel a n)
  | 0, _ => .inl rfl
  | fuel + 1, n => by
    have ih := jacobianMultiplyAux_onCurveJ ha fuel
    unfold jacobianMultiplyAux
    split_ifs
    · exact .inl rfl
    · exact ha
    · exact ih _
    · exact jacobianDouble_onCurveJ (ih _)
    · exact jacobianAdd_onCurveJ (jacobianDouble_onCurveJ (ih _)) ha

theorem jacobianMultiply_onCurveJ {a : Int × Int × Int} (ha : OnCurveJ a) (n : Nat) :
    OnCurveJ (jacobianMultiply a n) :=
  jacobianMultiplyAux_onCurveJ ha n n

/-! ### Back to affine coordinates -/

/-- A coordinate reduced modulo `P`, read as a natural number, is the same element of `ZMod P`. -/
theorem cast_toNat_emod (t : Int) :
    (((t % secpk1P).toNat : Nat) : ZMod secpk1P) = (t : ZMod secpk1P) := by
  rw [← Int.cast_natCast, Int.toNat_of_nonneg (Int.emod_nonneg _ (by
    have := secpk1P_pos
    omega)), ZMod.intCast_mod]

theorem toNat_emod_lt (t : Int) : (t % secpk1P).toNat < secpk1P := by
  have := secpk1P_pos
  have := Int.emod_lt_of_pos t (b := secpk1P) (by omega)
  omega

/-- `from_jacobian` takes a finite point of the curve whose `Z` has an inverse modulo `P` to an
affine point of the curve. -/
theorem fromJacobian_onCurve {p : Int × Int × Int} (hp : OnCurveJ p) (hy : p.2.1 ≠ 0)
    (hz : IsUnit (p.2.2 : ZMod secpk1P)) :
    OnCurve (fromJacobian p).1.toNat (fromJacobian p).2.toNat := by
  obtain ⟨X, Y, Z⟩ := p
  have hc := hp.resolve_left hy
  have hinv := inv_mul_cancel secpk1P_pos hz
  refine ⟨toNat_emod_lt _, toNat_emod_lt _, (ZMod.natCast_eq_natCast_iff' _ _ _).mp ?_⟩
  simp only [cast_secpk1A, cast_secpk1B, zero_mul, add_zero] at hc
  have hz6 : ((inv Z secpk1P : ZMod secpk1P) * Z) ^ 6 = 1 := by rw [hinv, one_pow]
  push_cast [fromJacobian, cast_toNat_emod, cast_secpk1A, cast_secpk1B]
  linear_combination (inv Z secpk1P : ZMod secpk1P) ^ 6 * hc + 7 * hz6

/-! ### The affine points Jacobian triples stand for -/

/-- The triple `p = (X, Y, Z)` stands for the affine point `(x, y)`: `Z` is invertible modulo `P`,
`X = x Z^2` and `Y = y Z^3`. -/
def Represents (p : Int × Int × Int) (x y : ZMod secpk1P) : Prop :=
  IsUnit (p.2.2 : ZMod secpk1P) ∧ (p.1 : ZMod secpk1P) = x * p.2.2 ^ 2 ∧
    (p.2.1 : ZMod secpk1P) = y * p.2.2 ^ 3

/-- `from_jacobian` returns the coordinates of the point a triple stands for. -/
theorem fromJacobian_of_represents {p : Int × Int × Int} {x y : ZMod secpk1P}
    (hp : Represents p x y) : fromJacobian p = ((x.val : Int), (y.val : Int)) := by
  have : NeZero secpk1P := ⟨secpk1P_pos.ne'⟩
  obtain ⟨X, Y, Z⟩ := p
  obtain ⟨hz, hX, hY⟩ := hp
  have hinv := inv_mul_cancel secpk1P_pos hz
  simp only [fromJacobian, Prod.mk.injEq, ← ZMod.val_intCast]
  constructor
  · congr 2
    push_cast
    linear_combination x * (inv Z secpk1P * Z + 1 : ZMod secpk1P) * hinv + (inv Z secpk1P : ZMod secpk1P) ^ 2 * hX
  · congr 2
    push_cast
    linear_combination
      y * ((inv Z secpk1P * Z) ^ 2 + inv Z secpk1P * Z + 1 : ZMod secpk1P) * hinv +
        (inv Z secpk1P : ZMod secpk1P) ^ 3 * hY

/-- **Jacobian doubling is the tangent law.**  A triple standing for `(x, y)` with `2 y` invertible
doubles to a triple standing for `(l^2 - 2 x, l (x - x') - y)`, `l` the slope of the tangent. -/
theorem jacobianDouble_represents {p : Int × Int × Int} {x y l : ZMod secpk1P}
    (hp : Represents p x y) (hy : IsUnit (2 * y)) (hl : l * (2 * y) = 3 * x ^ 2 + secpk1A) :
    Represents (jacobianDouble p) (l ^ 2 - 2 * x) (l * (x - (l ^ 2 - 2 * x)) - y) := by
  have : Fact (1 < secpk1P) := ⟨by decide⟩
  obtain ⟨X, Y, Z⟩ := p
  obtain ⟨hz, hX, hY⟩ := hp
  dsimp only at hz hX hY
  -- the code's test `Y == 0` fails: `Y = y Z^3` with `2 y` and `Z` invertible
  have hY0 : Y ≠ 0 := by
    rintro rfl
    have h0 : (2 * y) * Z ^ 3 = 0 := by
      simp only [Int.cast_zero] at hY
      linear_combination -2 * hY
    exact not_isUnit_zero (h0 ▸ hy.mul (hz.pow 3))
  unfold jacobianDouble
  simp only [if_neg hY0]
  refine ⟨?_, ?_, ?_⟩ <;> push_cast [ZMod.intCast_mod]
  · rw [hY]
    convert hy.mul (hz.pow 4) using 1
    ring
  · rw [hX, hY]
    linear_combination (-(3 * x ^ 2 + 2 * y * l + secpk1A) * Z ^ 8 : ZMod secpk1P) * hl
  · rw [hX, hY]
    linear_combination (Z ^ 12 * (9 * x ^ 4 + 6 * x ^ 2 * y * l + 6 * x ^ 2 * secpk1A -
      12 * x * y ^ 2 + 4 * y ^ 2 * l ^ 2 + 2 * y * l * secpk1A + secpk1A ^ 2) : ZMod secpk1P) * hl

/-- **Jacobian addition is the chord law.**  Triples standing for finite points `(x₁, y₁)` and
`(x₂, y₂)` with `x₂ - x₁` invertible add to a triple standing for
`(l^2 - x₁ - x₂, l (x₁ - x₃) - y₁)`, `l` the slope of the chord. -/
theorem jacobianAdd_represents {p q : Int × Int × Int} {x1 y1 x2 y2 l : ZMod secpk1P}
    (hp : Represents p x1 y1) (hq : Represents q x2 y2) (hy1 : p.2.1 ≠ 0) (hy2 : q.2.1 ≠ 0)
    (hx : IsUnit (x2 - x1)) (hl : l * (x2 - x1) = y2 - y1) :
    Represents (jacobianAdd p q) (l ^ 2 - x1 - x2) (l * (x1 - (l ^ 2 - x1 - x2)) - y1) := by
  have : Fact (1 < secpk1P) := ⟨by decide⟩
  obtain ⟨X1, Y1, Z1⟩ := p
  obtain ⟨X2, Y2, Z2⟩ := q
  obtain ⟨hz1, hX1, hY1⟩ := hp
  obtain ⟨hz2, hX2, hY2⟩ := hq
  dsimp only at hz1 hX1 hY1 hz2 hX2 hY2 hy1 hy2
  obtain rfl : y2 = y1 + l * (x2 - x1) := by linear_combination -hl
  have hunit : IsUnit ((x2 - x1) * Z1 ^ 2 * Z2 ^ 2) := (hx.mul (hz1.pow 2)).mul (hz2.pow 2)
  -- `u1 = u2` would make `(x₂ - x₁) Z₁^2 Z₂^2` zero
  have hu : X1 * Z2 ^ 2 % secpk1P ≠ X2 * Z1 ^ 2 % secpk1P := fun h => by
    have h' := congrArg (fun t : Int => (t : ZMod secpk1P)) h
    push_cast [ZMod.intCast_mod] at h'
    rw [hX1, hX2] at h'
    exact not_isUnit_zero ((by linear_combination -h' : (x2 - x1) * Z1 ^ 2 * Z2 ^ 2 = 0) ▸ hunit)
  unfold jacobianAdd
  simp only [if_neg hy1, if_neg hy2, if_neg hu]
  refine ⟨?_, ?_, ?_⟩ <;> push_cast [ZMod.intCast_mod] <;> rw [hX1, hX2]
  · convert hunit.mul (hz1.mul hz2) using 1
    ring
  · rw [hY1, hY2]
    ring
  · rw [hY1, hY2]
    ring

/-- `ecdsa_raw_recover` lifts an affine point `(x, y)` to the triple `(x, y, 1)`. -/
theorem represents_lift (x y : Nat) : Represents ((x : Int), (y : Int), 1) x y :=
  ⟨by simp, by simp, by simp⟩

/-- **The Jacobian arithmetic computes the chord-and-tangent law.**  For affine points `(x₁, y₁)`
and `(x₂, y₂)` with `y₁, y₂ ≠ 0`, lifted to `(x, y, 1)`: `from_jacobian(jacobian_add(…))` is the
chord sum `(l^2 - x₁ - x₂, l (x₁ - x₃) - y₁)` when `x₂ - x₁` is invertible with slope `l`, and
`from_jacobian(jacobian_double(…))` is the tangent double `(m^2 - 2 x₁, m (x₁ - x₃) - y₁)` when
`2 y₁` is invertible with slope `m`.  Coordinates are read as residues modulo `P`. -/
theorem fromJacobian_chord_tangent (x1 y1 x2 y2 : Nat) (l m : ZMod secpk1P) :
    (y1 ≠ 0 → y2 ≠ 0 → IsUnit ((x2 : ZMod secpk1P) - x1) → l * (x2 - x1) = y2 - y1 →
      fromJacobian (jacobianAdd (x1, y1, 1) (x2, y2, 1)) =
        (((l ^ 2 - x1 - x2 : ZMod secpk1P).val : Int),
          ((l * (x1 - (l ^ 2 - x1 - x2)) - y1 : ZMod secpk1P).val : Int))) ∧
    (IsUnit (2 * (y1 : ZMod secpk1P)) → m * (2 * y1) = 3 * x1 ^ 2 + secpk1A →
      fromJacobian (jacobianDouble (x1, y1, 1)) =
        (((m ^ 2 - 2 * x1 : ZMod secpk1P).val : Int),
          ((m * (x1 - (m ^ 2 - 2 * x1)) - y1 : ZMod secpk1P).val : Int))) :=
  ⟨fun hy1 hy2 hx hl => fromJacobian_of_represents (jacobianAdd_represents (represents_lift x1 y1)
      (represents_lift x2 y2) (by simpa using hy1) (by simpa using hy2) hx hl),
    fun hy hm => fromJacobian_of_represents (jacobianDouble_represents (represents_lift x1 y1) hy hm)⟩

/-- The chord through `(0, 1)` and `(1, 2)`, of slope `1`, and the tangent at `(0, 1)`, of slope
`0`. -/
theorem fromJacobian_chord_tangent_unit :
    IsUnit (((1 : Nat) : ZMod secpk1P) - (0 : Nat)) ∧
      (1 : ZMod secpk1P) * ((1 : Nat) - (0 : Nat)) = (2 : Nat) - (1 : Nat) ∧
      IsUnit (2 * ((1 : Nat) : ZMod secpk1P)) ∧
      (0 : ZMod secpk1P) * (2 * (1 : Nat)) = 3 * (0 : Nat) ^ 2 + secpk1A ∧
      fromJacobian (jacobianAdd (((0 : Nat) : Int), ((1 : Nat) : Int), 1)
          (((1 : Nat) : Int), ((2 : Nat) : Int), 1)) =
        ((((1 : ZMod secpk1P) ^ 2 - (0 : Nat) - (1 : Nat) : ZMod secpk1P).val : Int),
          (((1 : ZMod secpk1P) * ((0 : Nat) - ((1 : ZMod secpk1P) ^ 2 - (0 : Nat) - (1 : Nat))) -
            (1 : Nat) : ZMod secpk1P).val : Int)) ∧
      fromJacobian (jacobianDouble (((0 : Nat) : Int), ((1 : Nat) : Int), 1)) =
        ((((0 : ZMod secpk1P) ^ 2 - 2 * (0 : Nat) : ZMod secpk1P).val : Int),
          (((0 : ZMod secpk1P) * ((0 : Nat) - ((0 : ZMod secpk1P) ^ 2 - 2 * (0 : Nat))) -
            (1 : Nat) : ZMod secpk1P).val : Int)) :=
  have hx : IsUnit (((1 : Nat) : ZMod secpk1P) - (0 : Nat)) := by simp
  have hl : (1 : ZMod secpk1P) * ((1 : Nat) - (0 : Nat)) = (2 : Nat) - (1 : Nat) := by
    push_cast
    ring
  have hy : IsUnit (2 * ((1 : Nat) : ZMod secpk1P)) := by
    simpa using (ZMod.isUnit_iff_coprime 2 secpk1P).mpr (by decide)
  have hm : (0 : ZMod secpk1P) * (2 * (1 : Nat)) = 3 * (0 : Nat) ^ 2 + secpk1A := by simp
  ⟨hx, hl, hy, hm, (fromJacobian_chord_tangent 0 1 1 2 1 0).1 (by decide) (by decide) hx hl,
    (fromJacobian_chord_tangent 0 1 1 2 1 0).2 hy hm⟩

/-! ### Nonzero `Z` -/

/-- The triple has `Y` reduced modulo `P` and, unless it is the point at infinity (`Y = 0`), a `Z`
that is nonzero modulo `P`: then `from_jacobian` can divide by `Z`. -/
def ZNonzero (p : Int × Int × Int) : Prop :=
  0 ≤ p.2.1 ∧ p.2.1 < secpk1P ∧ (p.2.1 ≠ 0 → (p.2.2 : ZMod secpk1P) ≠ 0)

theorem emod_bounds (t : Int) : 0 ≤ t % secpk1P ∧ t % secpk1P < secpk1P := by
  have := secpk1P_pos
  exact ⟨Int.emod_nonneg _ (by omega), Int.emod_lt_of_pos _ (by omega)⟩

theorem zNonzero_infinity (z : Int) : ZNonzero (0, 0, z) :=
  ⟨le_rfl, Int.natCast_pos.mpr secpk1P_pos, fun h => absurd rfl h⟩

/-- A lifted affine point `(x, y, 1)` with `y` reduced has its `Z = 1` nonzero. -/
theorem zNonzero_lift (x : Int) {y : Nat} (hy : y < secpk1P) : ZNonzero (x, y, 1) := by
  have : Fact (1 < secpk1P) := ⟨by decide⟩
  exact ⟨Int.natCast_nonneg y, Int.ofNat_lt.mpr hy, fun _ => by rw [Int.cast_one]; exact one_ne_zero⟩

/-- A reduced nonzero coordinate is nonzero modulo `P`. -/
theorem cast_ne_zero_of_lt {t : Int} (h0 : 0 ≤ t) (hlt : t < secpk1P) (hne : t ≠ 0) :
    (t : ZMod secpk1P) ≠ 0 := by
  rw [Ne, ZMod.intCast_zmod_eq_zero_iff_dvd]
  exact fun hd => hne (Int.eq_zero_of_dvd_of_nonneg_of_lt h0 hlt hd)

/-- Two coordinates that differ modulo `P` have a nonzero difference there. -/
theorem cast_sub_ne_zero {a b : Int} (h : ¬a % secpk1P = b % secpk1P) :
    (b : ZMod secpk1P) - a ≠ 0 := by
  rw [sub_ne_zero, Ne, ZMod.intCast_eq_intCast_iff']
  exact fun h' => h h'.symm

set_option maxRecDepth 10000 in
/-- `pow(-7, (P - 1) // 3, P)` is not `1`. -/
theorem powMod_neg_seven : powMod (secpk1P - 7) ((secpk1P - 1) / 3) secpk1P ≠ 1 % secpk1P := by
  decide

section Prime

/-! With `P` prime, `ZMod P` is a field: a product of nonzero factors is nonzero. -/

variable [Fact (Nat.Prime secpk1P)]

/-- Doubling multiplies `Z` by `2 Y`, nonzero at a finite point. -/
theorem jacobianDouble_zNonzero {p : Int × Int × Int} (hp : ZNonzero p) :
    ZNonzero (jacobianDouble p) := by
  obtain ⟨X, Y, Z⟩ := p
  obtain ⟨hy0, hyP, hz⟩ := hp
  unfold jacobianDouble
  dsimp only
  split_ifs with hy
  · exact zNonzero_infinity 0
  · refine ⟨(emod_bounds _).1, (emod_bounds _).2, fun _ => ?_⟩
    have h2 : ((2 : Int) : ZMod secpk1P) ≠ 0 := cast_ne_zero_of_lt (by decide) (by decide) (by decide)
    push_cast [ZMod.intCast_mod] at h2 ⊢
    exact mul_ne_zero (mul_ne_zero h2 (cast_ne_zero_of_lt hy0 hyP hy)) (hz hy)

/-- The chord step multiplies `Z_1 Z_2` by `h = u_2 - u_1`, nonzero since `u_1 ≠ u_2`. -/
theorem jacobianAdd_zNonzero {p q : Int × Int × Int} (hp : ZNonzero p) (hq : ZNonzero q) :
    ZNonzero (jacobianAdd p q) := by
  obtain ⟨X1, Y1, Z1⟩ := p
  obtain ⟨X2, Y2, Z2⟩ := q
  unfold jacobianAdd
  dsimp only
  split_ifs with hy1 hy2 hu hs
  · exact hq
  · exact hp
  · exact zNonzero_infinity 1
  · exact jacobianDouble_zNonzero hp
  · refine ⟨(emod_bounds _).1, (emod_bounds _).2, fun _ => ?_⟩
    have hh := cast_sub_ne_zero hu
    push_cast [ZMod.intCast_mod] at hh ⊢
    exact mul_ne_zero (mul_ne_zero hh (hp.2.2 hy1)) (hq.2.2 hy2)

theorem jacobianMultiplyAux_zNonzero {a : Int × Int × Int} (ha : ZNonzero a) :
    ∀ fuel n, ZNonzero (jacobianMultiplyAux fuel a n)
  | 0, _ => zNonzero_infinity 1
  | fuel + 1, n => by
    have ih := jacobianMultiplyAux_zNonzero ha fuel
    unfold jacobianMultiplyAux
    split_ifs
    · exact zNonzero_infinity 1
    · exact ha
    · exact ih _
    · exact jacobianDouble_zNonzero (ih _)
    · exact jacobianAdd_zNonzero (jacobianDouble_zNonzero (ih _)) ha

theorem jacobianMultiply_zNonzero {a : Int × Int × Int} (ha : ZNonzero a) (n : Nat) :
    ZNonzero (jacobianMultiply a n) :=
  jacobianMultiplyAux_zNonzero ha n n

/-- `-7` has no cube root modulo `P`: by Fermat it would make `(-7) ^ ((P - 1) / 3)` equal to `1`,
and `pow` computes another value.  So the curve has no point with `y = 0`. -/
theorem cube_add_seven_ne_zero (x : ZMod secpk1P) : x ^ 3 + 7 ≠ 0 := by
  intro h
  have hx : x ≠ 0 := by
    rintro rfl
    have h7 : ((7 : Nat) : ZMod secpk1P) = 0 := by simpa using h
    rw [ZMod.natCast_zmod_eq_zero_iff_dvd] at h7
    exact absurd h7 (by decide)
  have hpow : (((secpk1P - 7) ^ ((secpk1P - 1) / 3) : Nat) : ZMod secpk1P) = ((1 : Nat) : ZMod secpk1P) := by
    rw [Nat.cast_pow, Nat.cast_sub (by decide), ZMod.natCast_self, Nat.cast_one,
      show (0 : ZMod secpk1P) - ((7 : Nat) : ZMod secpk1P) = x ^ 3 by push_cast; linear_combination -h,
      ← pow_mul, show 3 * ((secpk1P - 1) / 3) = secpk1P - 1 by decide]
    exact ZMod.pow_card_sub_one_eq_one hx
  rw [ZMod.natCast_eq_natCast_iff', ← powMod_eq] at hpow
  exact powMod_neg_seven hpow

/-- `ecdsa_raw_recover`'s point `R = (x, y, 1)`, `y ≤ P`, passed the curve check: its `y` is
reduced, since `y = P` would make `x^3 + 7` vanish. -/
theorem zNonzero_of_onCurveJ {x y : Nat} (hc : OnCurveJ (x, y, 1)) (hy : y ≤ secpk1P) :
    ZNonzero (x, y, 1) := by
  have hne : y ≠ secpk1P := by
    rintro rfl
    have hc := hc.resolve_left (by have := secpk1P_pos; dsimp only; omega)
    simp only [Int.cast_natCast, ZMod.natCast_self, cast_secpk1A, cast_secpk1B] at hc
    exact cube_add_seven_ne_zero (x : ZMod secpk1P) (by linear_combination -hc)
  exact zNonzero_lift x (lt_of_le_of_ne hy hne)

end Prime

/-! ### Public-key recovery -/

/-- `ecdsa_raw_recover`'s check `(x^3 + A x + B - y^2) % P == 0` puts `(x, y, 1)` on the curve. -/
theorem onCurveJ_of_check {x y : Nat}
    (h : (((x * x * x + secpk1A * x + secpk1B) % secpk1P : Nat) - (y : Int) * y) % secpk1P = 0) :
    OnCurveJ (x, y, 1) := by
  have hz := (ZMod.intCast_eq_intCast_iff' _ 0 secpk1P).mpr (by rw [h, Int.zero_emod])
  push_cast [ZMod.natCast_mod, cast_secpk1A, cast_secpk1B] at hz
  right
  push_cast [cast_secpk1A, cast_secpk1B]
  linear_combination -hz

theorem ne_zero_of_not_isIdentity {q : Int × Int × Int} (h : ¬isIdentity q = true) : q.2.1 ≠ 0 := by
  simpa [isIdentity] using h

theorem powMod_lt (a e : Nat) : powMod a e secpk1P < secpk1P := by
  rw [powMod_eq]
  exact Nat.mod_lt _ secpk1P_pos

/-- **What `ecdsa_raw_recover` returns.**  Every key it recovers is `X ‖ Y` for the affine form
`(x, y)` of a finite Jacobian point `Q` of the curve, and `(x, y)` is a point of the curve.  The
last part rests on the primality of `P`, the one fact taken as given: with it `ZMod P` is a field,
`-7` has no cube root, so `R` is finite, and no `Z` the double-and-add loops compute is zero. -/
theorem ecdsaRawRecover_onCurve {msgHash key : List UInt8} {v r s : Nat}
    (h : ecdsaRawRecover msgHash v r s = some key) :
    ∃ q : Int × Int × Int, q.2.1 ≠ 0 ∧ OnCurveJ q ∧
      key = encodeRawPublicKey (fromJacobian q).1.toNat (fromJacobian q).2.toNat ∧
      (Nat.Prime secpk1P → OnCurve (fromJacobian q).1.toNat (fromJacobian q).2.toNat) := by
  have hG : OnCurveJ (secpk1Gx, secpk1Gy, 1) := onCurveJ_of_onCurve (by decide)
  unfold ecdsaRawRecover at h
  dsimp only at h
  -- two cases, one for each choice of `y` by the parity of `v`
  split_ifs at h <;> cases h
  all_goals
    have hR := onCurveJ_of_check (not_not.mp (not_or.mp ‹¬(_ ∨ _)›).1)
    have hq := jacobianMultiply_onCurveJ (jacobianAdd_onCurveJ (jacobianMultiply_onCurveJ hG
      ((secpk1N - bigEndianToInt msgHash : Int) % secpk1N).toNat) (jacobianMultiply_onCurveJ hR s))
      (inv r secpk1N).toNat
    have hy := ne_zero_of_not_isIdentity ‹¬isIdentity _ = true›
    refine ⟨_, hy, hq, rfl, fun hP => ?_⟩
    haveI := Fact.mk hP
    have hGz : ZNonzero (secpk1Gx, secpk1Gy, 1) := zNonzero_lift _ (by decide)
    have hRz := zNonzero_of_onCurveJ hR (by first | exact (powMod_lt _ _).le | exact Nat.sub_le _ _)
    have hz := jacobianMultiply_zNonzero (jacobianAdd_zNonzero (jacobianMultiply_zNonzero hGz
      ((secpk1N - bigEndianToInt msgHash : Int) % secpk1N).toNat) (jacobianMultiply_zNonzero hRz s))
      (inv r secpk1N).toNat
    exact fromJacobian_onCurve hq hy (isUnit_iff_ne_zero.mpr (hz.2.2 hy))

set_option maxRecDepth 10000 in
/-- `r = s = 1` at parity `0` and the zero digest recover `R = (1, y)` itself. -/
theorem ecdsaRawRecover_onCurve_unit :
    ecdsaRawRecover (List.replicate 32 0) 0 1 1 = some (toBytesBE 32 1 ++
        toBytesBE 32 0x4218f20ae6c646b363db68605822fb14264ca8d2587fdd6fbc750d587e76a7ee) ∧
      ∃ q : Int × Int × Int, q.2.1 ≠ 0 ∧ OnCurveJ q ∧ toBytesBE 32 1 ++
          toBytesBE 32 0x4218f20ae6c646b363db68605822fb14264ca8d2587fdd6fbc750d587e76a7ee =
            encodeRawPublicKey (fromJacobian q).1.toNat (fromJacobian q).2.toNat ∧
        (Nat.Prime secpk1P → OnCurve (fromJacobian q).1.toNat (fromJacobian q).2.toNat) :=
  have h : ecdsaRawRecover (List.replicate 32 0) 0 1 1 = some (toBytesBE 32 1 ++
      toBytesBE 32 0x4218f20ae6c646b363db68605822fb14264ca8d2587fdd6fbc750d587e76a7ee) := by
    rfl
  ⟨h, ecdsaRawRecover_onCurve h⟩

end TangemKeys.Secp256k1
