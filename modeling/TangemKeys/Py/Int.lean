import TangemKeys.Py.Text

/-!
# `int(s, 16)`

`verify_signature_recovery` reads the `r` and `s` fields of a signature with `int(r_hex, 16)`.
CPython's parser accepts more than hexadecimal digits: it first maps non-ASCII whitespace to a
space and non-ASCII decimal digits to ASCII ones (`PyLong_FromUnicodeObject`), then reads
surrounding whitespace, a sign, a `0x` prefix and single underscores between digits
(`PyLong_FromString` and `long_from_binary_base`).  This module models that parser, as CPython
3.11 runs it with the Unicode 14.0 tables, and proves that it ignores letter case.

## Main definitions

* `transformDecimalAndSpace` — the Unicode-to-ASCII pass.
* `readSign`, `skipHexPrefix`, `hexRun` — the stages of `PyLong_FromString` for base 16.
* `intBase16` — `int(s, 16)`, `none` where CPython raises `ValueError`.

## Main results

* `intBase16_lower` — `int(s.lower(), 16) == int(s, 16)`, failures included.
* `intBase16_hex` — `int(b.hex(), 16)` is the big-endian value of a non-empty byte string `b`.
-/

namespace TangemKeys.Py

/-! ### The Unicode-to-ASCII pass -/

/-- Code points beyond ASCII that CPython counts as whitespace. -/
def unicodeSpaces : List Nat :=
  [0x85, 0xa0, 0x1680, 0x2000, 0x2001, 0x2002, 0x2003, 0x2004, 0x2005, 0x2006, 0x2007, 0x2008,
    0x2009, 0x200a, 0x2028, 0x2029, 0x202f, 0x205f, 0x3000]

/-- The first code point of each run `0`–`9` of decimal digits beyond ASCII. -/
def unicodeDecimalStarts : List Nat :=
  [0x660, 0x6f0, 0x7c0, 0x966, 0x9e6, 0xa66, 0xae6, 0xb66, 0xbe6, 0xc66, 0xce6, 0xd66, 0xde6,
    0xe50, 0xed0, 0xf20, 0x1040, 0x1090, 0x17e0, 0x1810, 0x1946, 0x19d0, 0x1a80, 0x1a90, 0x1b50,
    0x1bb0, 0x1c40, 0x1c50, 0xa620, 0xa8d0, 0xa900, 0xa9d0, 0xa9f0, 0xaa50, 0xabf0, 0xff10,
    0x104a0, 0x10d30, 0x11066, 0x110f0, 0x11136, 0x111d0, 0x112f0, 0x11450, 0x114d0, 0x11650,
    0x116c0, 0x11730, 0x118e0, 0x11950, 0x11c50, 0x11d50, 0x11da0, 0x16a60, 0x16ac0, 0x16b50,
    0x1d7ce, 0x1d7d8, 0x1d7e2, 0x1d7ec, 0x1d7f6, 0x1e140, 0x1e2f0, 0x1e950, 0x1fbf0]

/-- `_PyUnicode_TransformDecimalAndSpaceToASCII` on one character: a character below `127` is
kept, other whitespace becomes a space and other decimal digits their ASCII digit.  Any other
character makes the text unreadable: CPython writes `?` there, which no later stage accepts. -/
def toAsciiChar (c : Char) : Option Char :=
  if c.toNat < 127 then some c
  else if c.toNat ∈ unicodeSpaces then some ' '
  else (unicodeDecimalStarts.find? fun s => s ≤ c.toNat ∧ c.toNat < s + 10).map
    fun s => Char.ofNat (48 + (c.toNat - s))

/-- `_PyUnicode_TransformDecimalAndSpaceToASCII` on a text. -/
def transformDecimalAndSpace : List Char → Option (List Char)
  | [] => some []
  | c :: cs => do
    let d ← toAsciiChar c
    let ds ← transformDecimalAndSpace cs
    pure (d :: ds)

/-! ### `PyLong_FromString` for base 16 -/

/-- The optional sign, as a factor. -/
def readSign : List Char → Int × List Char
  | [] => (1, [])
  | c :: cs => if c = '+' then (1, cs) else if c = '-' then (-1, cs) else (1, c :: cs)

/-- The optional base prefix `0x` or `0X`, and one underscore allowed after it. -/
def skipHexPrefix : List Char → List Char
  | c :: x :: cs =>
    if c = '0' ∧ (x = 'x' ∨ x = 'X') then (if cs.head? = some '_' then cs.tail else cs)
    else c :: x :: cs
  | cs => cs

/-- `long_from_binary_base` for base 16: read hexadecimal digits and underscores, keeping the
value `acc` and the count `n` of digits; `prev` says the last character read was `_`.  Two
underscores in a row, or one at the end of the run, fail. -/
def hexRun (acc n : Nat) (prev : Bool) : List Char → Option (Nat × Nat × List Char)
  | [] => if prev then none else some (acc, n, [])
  | c :: cs =>
    if c = '_' then (if prev then none else hexRun acc n true cs)
    else if digitValue c < 16 then hexRun (16 * acc + digitValue c) (n + 1) false cs
    else if prev then none else some (acc, n, c :: cs)

/-- `int(s, 16)`, `none` where CPython raises `ValueError`: after the Unicode pass, leading
whitespace, a sign and a base prefix, the digits may not start with `_`, at least one digit must
be read, and only whitespace may follow them. -/
def intBase16 (s : List Char) : Option Int := do
  let t ← transformDecimalAndSpace s
  let (sign, t) := readSign (t.dropWhile isSpace)
  let t := skipHexPrefix t
  if t.head? = some '_' then none else
  let (value, digits, rest) ← hexRun 0 0 false t
  if digits = 0 ∨ rest.dropWhile isSpace ≠ [] then none else some (sign * value)

/-! ### Letter case -/

theorem toLower_eq_self {d : Char} (hd : ¬(65 ≤ d.toNat ∧ d.toNat ≤ 90)) : d.toLower = d :=
  char_eq_of_toNat_eq (by rw [toNat_toLower, if_neg hd])

/-- Lowering gives a character that is no letter only from that character itself. -/
theorem lowerChar_eq_iff {c d : Char} (hd : d.toNat < 65 ∨ 90 < d.toNat ∧ d.toNat < 97) :
    lowerChar c = d ↔ c = d := by
  by_cases hk : c = kelvinSign
  · subst hk
    have hk : kelvinSign.toNat = 8490 ∧ ('k' : Char).toNat = 107 := by decide
    rw [lowerChar_kelvinSign]
    exact iff_of_false (fun h => by have := congrArg Char.toNat h; omega)
      (fun h => by have := congrArg Char.toNat h; omega)
  rw [lowerChar_of_ne hk]
  refine ⟨fun h => ?_, fun h => by subst h; exact toLower_eq_self (by omega)⟩
  have h' := congrArg Char.toNat h
  rw [toNat_toLower] at h'
  split_ifs at h'
  · omega
  · exact char_eq_of_toNat_eq h'

theorem lowerChar_eq_x_iff (c : Char) : lowerChar c = 'x' ↔ c = 'x' ∨ c = 'X' := by
  by_cases hk : c = kelvinSign
  · subst hk
    decide
  rw [lowerChar_of_ne hk]
  constructor
  · intro h
    have h' := congrArg Char.toNat h
    have hx : ('x' : Char).toNat = 120 ∧ ('X' : Char).toNat = 88 := ⟨rfl, rfl⟩
    rw [toNat_toLower] at h'
    split_ifs at h'
    · exact .inr (char_eq_of_toNat_eq (by omega))
    · exact .inl (char_eq_of_toNat_eq h')
  · rintro (rfl | rfl) <;> decide

theorem lowerChar_ne_X (c : Char) : lowerChar c ≠ 'X' := fun h => by
  by_cases hk : c = kelvinSign
  · subst hk
    exact absurd h (by decide)
  have h' := congrArg Char.toNat h
  rw [lowerChar_of_ne hk, toNat_toLower] at h'
  split_ifs at h' <;> simp at h' <;> omega

/-- Beyond ASCII, the Unicode pass only produces a space or an ASCII digit, which lowering
keeps. -/
theorem toAsciiChar_lowerChar {c : Char} (hk : c ≠ kelvinSign) :
    toAsciiChar (lowerChar c) = (toAsciiChar c).map lowerChar := by
  rw [lowerChar_of_ne hk]
  by_cases hc : c.toNat < 127
  · have : c.toLower.toNat < 127 := by rw [toNat_toLower]; split_ifs <;> omega
    simp [toAsciiChar, hc, this, lowerChar_of_ne hk]
  · rw [toLower_eq_self (by omega)]
    unfold toAsciiChar
    rw [if_neg hc]
    split_ifs
    · rfl
    · cases h : unicodeDecimalStarts.find? (fun s => decide (s ≤ c.toNat ∧ c.toNat < s + 10)) with
      | none => rfl
      | some s =>
        have hs := List.find?_some h
        simp only [decide_eq_true_eq] at hs
        have hd : (Char.ofNat (48 + (c.toNat - s))).toNat = 48 + (c.toNat - s) :=
          toNat_ofNat_of_lt (by omega)
        simp only [Option.map_some']
        rw [lowerChar_of_toNat_lt (by omega), toLower_eq_self (by omega)]

theorem transformDecimalAndSpace_lower {s : List Char} (hk : kelvinSign ∉ s) :
    transformDecimalAndSpace (lower s) = (transformDecimalAndSpace s).map lower := by
  induction s with
  | nil => rfl
  | cons c cs ih =>
    rw [List.mem_cons, not_or] at hk
    simp only [lower, List.map_cons] at ih ⊢
    simp only [transformDecimalAndSpace, toAsciiChar_lowerChar (Ne.symm hk.1), ih hk.2]
    cases toAsciiChar c <;> cases transformDecimalAndSpace cs <;> rfl

theorem dropWhile_isSpace_lower (t : List Char) :
    (lower t).dropWhile isSpace = lower (t.dropWhile isSpace) := by
  induction t with
  | nil => rfl
  | cons c cs ih =>
    simp only [lower, List.map_cons, List.dropWhile_cons, isSpace_lowerChar] at ih ⊢
    split <;> simp [ih]

theorem readSign_lower (t : List Char) :
    readSign (lower t) = ((readSign t).1, lower (readSign t).2) := by
  cases t with
  | nil => rfl
  | cons c cs =>
    simp only [lower, List.map_cons, readSign, lowerChar_eq_iff (by decide : '+'.toNat < 65 ∨ _),
      lowerChar_eq_iff (by decide : '-'.toNat < 65 ∨ _)]
    split_ifs <;> rfl

theorem head?_lower_eq_underscore (t : List Char) :
    (lower t).head? = some '_' ↔ t.head? = some '_' := by
  cases t with
  | nil => simp [lower]
  | cons c cs => simp [lower, lowerChar_eq_iff (by decide : '_'.toNat < 65 ∨ 90 < '_'.toNat ∧ _)]

theorem skipHexPrefix_lower (t : List Char) : skipHexPrefix (lower t) = lower (skipHexPrefix t) := by
  match t with
  | [] => rfl
  | [c] => rfl
  | c :: x :: cs =>
    simp only [lower, List.map_cons, skipHexPrefix, lowerChar_eq_x_iff, lowerChar_ne_X, or_false,
      lowerChar_eq_iff (by decide : '0'.toNat < 65 ∨ _)]
    have hh := head?_lower_eq_underscore cs
    simp only [lower] at hh
    split_ifs <;> simp_all [List.map_tail]

theorem hexRun_lower (acc n : Nat) (prev : Bool) (t : List Char) :
    hexRun acc n prev (lower t) = (hexRun acc n prev t).map fun r => (r.1, r.2.1, lower r.2.2) := by
  induction t generalizing acc n prev with
  | nil => cases prev <;> rfl
  | cons c cs ih =>
    simp only [lower, List.map_cons] at ih ⊢
    by_cases hk : c = kelvinSign
    · -- the Kelvin sign and its `k` both end the run of digits
      subst hk
      have : kelvinSign ≠ '_' ∧ 'k' ≠ '_' ∧ ¬digitValue kelvinSign < 16 ∧ ¬digitValue 'k' < 16 := by
        decide
      simp only [hexRun, lowerChar_kelvinSign, this, if_false]
      cases prev <;> rfl
    simp only [hexRun, lowerChar_eq_iff (by decide : '_'.toNat < 65 ∨ 90 < '_'.toNat ∧ _), ih]
    simp only [lowerChar_of_ne hk, digitValue_toLower]
    split_ifs <;> simp [lowerChar_of_ne hk]

/-! ### Text `int` cannot read -/

theorem mem_dropWhile_of_not {p : Char → Bool} {c : Char} {t : List Char} (hc : c ∈ t)
    (hp : p c = false) : c ∈ t.dropWhile p := by
  induction t with
  | nil => cases hc
  | cons d ds ih =>
    rw [List.dropWhile_cons]
    split
    · rcases List.mem_cons.mp hc with rfl | hc
      · simp_all
      · exact ih hc
    · exact hc

/-- A `k` survives the sign. -/
theorem k_mem_readSign {t : List Char} (hk : 'k' ∈ t) : 'k' ∈ (readSign t).2 := by
  match t, hk with
  | d :: ds, hk =>
    rcases List.mem_cons.mp hk with rfl | hk
    · simp [readSign]
    · simp only [readSign]
      split_ifs <;> simp [hk]

/-- A `k` survives the base prefix. -/
theorem k_mem_skipHexPrefix {t : List Char} (hk : 'k' ∈ t) : 'k' ∈ skipHexPrefix t := by
  match t, hk with
  | [c], hk => exact hk
  | c :: x :: cs, hk =>
    simp only [skipHexPrefix]
    split_ifs with hp hu
    · obtain ⟨rfl, hx⟩ := hp
      match cs, hu with
      | _ :: ds, hu =>
        simp only [List.head?_cons, Option.some.injEq] at hu
        subst hu
        rcases hx with rfl | rfl <;> simpa using hk
    · obtain ⟨rfl, hx⟩ := hp
      rcases hx with rfl | rfl <;> simpa using hk
    · exact hk

/-- A `k` ends the run of digits and stays in what follows it. -/
theorem k_mem_hexRun {acc n : Nat} {prev : Bool} {t : List Char} {r : Nat × Nat × List Char}
    (h : hexRun acc n prev t = some r) (hk : 'k' ∈ t) : 'k' ∈ r.2.2 := by
  induction t generalizing acc n prev with
  | nil => cases hk
  | cons c cs ih =>
    rcases List.mem_cons.mp hk with rfl | hk
    · cases prev <;> simp [hexRun, show ¬digitValue 'k' < 16 by decide] at h
      subst h
      exact List.mem_cons_self _ _
    simp only [hexRun] at h
    split_ifs at h
    · exact ih h hk
    · exact ih h hk
    · cases h
      exact List.mem_cons_of_mem _ hk

/-- Text that the Unicode pass turns into text with a `k` is not a number. -/
theorem intBase16_eq_none_of_k_mem {s t : List Char} (ht : transformDecimalAndSpace s = some t)
    (hk : 'k' ∈ t) : intBase16 s = none := by
  simp only [intBase16, ht, Option.bind_eq_bind, Option.some_bind]
  split_ifs
  · rfl
  · cases hr : hexRun 0 0 false (skipHexPrefix (readSign (List.dropWhile isSpace t)).2) with
    | none => rfl
    | some r =>
      have := mem_dropWhile_of_not (k_mem_hexRun hr (k_mem_skipHexPrefix (k_mem_readSign
        (mem_dropWhile_of_not hk (p := isSpace) rfl)))) (p := isSpace) rfl
      simp only [Option.some_bind]
      rw [if_pos (.inr (List.ne_nil_of_mem this))]

theorem transformDecimalAndSpace_eq_none {s : List Char} {c : Char} (hc : c ∈ s)
    (h : toAsciiChar c = none) : transformDecimalAndSpace s = none := by
  induction s with
  | nil => cases hc
  | cons d ds ih =>
    rcases List.mem_cons.mp hc with rfl | hc
    · simp [transformDecimalAndSpace, h]
    · simp [transformDecimalAndSpace, ih hc]

theorem mem_transformDecimalAndSpace {s t : List Char} {c : Char}
    (h : transformDecimalAndSpace s = some t) (hc : c ∈ s) (ha : toAsciiChar c = some c) : c ∈ t := by
  induction s generalizing t with
  | nil => cases hc
  | cons d ds ih =>
    simp only [transformDecimalAndSpace, Option.bind_eq_bind, Option.bind_eq_some,
      Option.pure_def, Option.some.injEq] at h
    obtain ⟨e, he, es, hes, rfl⟩ := h
    rcases List.mem_cons.mp hc with rfl | hc
    · rw [ha] at he
      cases he
      exact List.mem_cons_self _ _
    · exact List.mem_cons_of_mem _ (ih hes hc)

/-- **`int` ignores letter case**: `int(s.lower(), 16)` and `int(s, 16)` agree, and fail
together.  A Kelvin sign makes both fail: `int` cannot read it, nor the `k` it lowers to. -/
theorem intBase16_lower (s : List Char) : intBase16 (lower s) = intBase16 s := by
  by_cases hk : kelvinSign ∈ s
  · have hnone : toAsciiChar kelvinSign = none := by decide
    have hs : intBase16 s = none := by
      simp [intBase16, transformDecimalAndSpace_eq_none hk hnone]
    rw [hs]
    cases ht : transformDecimalAndSpace (lower s) with
    | none => simp [intBase16, ht]
    | some t =>
      refine intBase16_eq_none_of_k_mem ht (mem_transformDecimalAndSpace ht ?_ (by decide))
      exact lowerChar_kelvinSign ▸ List.mem_map_of_mem _ hk
  simp only [intBase16, transformDecimalAndSpace_lower hk]
  cases transformDecimalAndSpace s with
  | none => rfl
  | some t =>
    simp only [Option.map_some', Option.bind_eq_bind, Option.some_bind, dropWhile_isSpace_lower,
      readSign_lower, skipHexPrefix_lower, head?_lower_eq_underscore, hexRun_lower]
    split_ifs
    · rfl
    · cases hexRun 0 0 false (skipHexPrefix (readSign (List.dropWhile isSpace t)).2) with
      | none => rfl
      | some r => simp [dropWhile_isSpace_lower, lower]

/-! ### Hexadecimal digits -/

theorem hexDigitChar_int_facts : ∀ n < 16, toAsciiChar (hexDigitChar n) = some (hexDigitChar n) ∧
    hexDigitChar n ≠ '+' ∧ hexDigitChar n ≠ '-' ∧ hexDigitChar n ≠ '_' ∧ hexDigitChar n ≠ 'X' := by
  decide

theorem transformDecimalAndSpace_of_forall {s : List Char} (h : ∀ c ∈ s, toAsciiChar c = some c) :
    transformDecimalAndSpace s = some s := by
  induction s with
  | nil => rfl
  | cons c cs ih =>
    simp only [List.mem_cons, forall_eq_or_imp] at h
    simp [transformDecimalAndSpace, h.1, ih h.2]

theorem hexRun_digit {c : Char} (hc : c ≠ '_') (hd : digitValue c < 16) (acc n : Nat)
    (prev : Bool) (cs : List Char) :
    hexRun acc n prev (c :: cs) = hexRun (16 * acc + digitValue c) (n + 1) false cs := by
  simp [hexRun, hc, hd]

/-- Reading the digits of `hex bs` appends the bytes of `bs` to the value, big-endian. -/
theorem hexRun_hex (acc n : Nat) (bs : List UInt8) :
    hexRun acc n false (hex bs) =
      some (bs.foldl (fun a b => 256 * a + b.toNat) acc, n + 2 * bs.length, []) := by
  induction bs generalizing acc n with
  | nil => rfl
  | cons b bs ih =>
    obtain ⟨-, hhi, -⟩ := hexDigitChar_facts _ (hi_lt b)
    obtain ⟨-, hlo, -⟩ := hexDigitChar_facts _ (lo_lt b)
    rw [hex_cons, hexRun_digit (hexDigitChar_int_facts _ (hi_lt b)).2.2.2.1 (by rw [hhi]; exact hi_lt b),
      hexRun_digit (hexDigitChar_int_facts _ (lo_lt b)).2.2.2.1 (by rw [hlo]; exact lo_lt b), hhi, hlo,
      show 16 * (16 * acc + b.toNat / 16) + b.toNat % 16 = 256 * acc + b.toNat by omega, ih]
    simp only [List.foldl_cons, List.length_cons, Option.some.injEq, Prod.mk.injEq, and_true,
      true_and]
    omega

/-- Hexadecimal text has no whitespace, sign or base prefix in front of its digits. -/
theorem readSign_hex (b : UInt8) (bs : List UInt8) :
    readSign ((hex (b :: bs)).dropWhile isSpace) = (1, hex (b :: bs)) ∧
      skipHexPrefix (hex (b :: bs)) = hex (b :: bs) := by
  obtain ⟨-, hplus, hminus, -, -⟩ := hexDigitChar_int_facts _ (hi_lt b)
  obtain ⟨-, -, -, -, hX⟩ := hexDigitChar_int_facts _ (lo_lt b)
  have hx : hexDigitChar (b.toNat % 16) ≠ 'x' := (hexDigitChar_facts _ (lo_lt b)).2.2.2.2
  simp [hex_cons, (hexDigitChar_facts _ (hi_lt b)).1, readSign, skipHexPrefix, hplus, hminus, hx, hX]

/-- **`int` reads hexadecimal text back**: `int(b.hex(), 16)` is the big-endian value of `b`. -/
theorem intBase16_hex (b : UInt8) (bs : List UInt8) :
    intBase16 (hex (b :: bs)) = some ((b :: bs).foldl (fun a b => 256 * a + b.toNat) 0 : Nat) := by
  have hascii : transformDecimalAndSpace (hex (b :: bs)) = some (hex (b :: bs)) :=
    transformDecimalAndSpace_of_forall fun c hc => by
      obtain ⟨n, hn, rfl⟩ := mem_hex hc
      exact (hexDigitChar_int_facts n hn).1
  have hhead : (hex (b :: bs)).head? ≠ some '_' := by
    simpa [hex_cons] using (hexDigitChar_int_facts _ (hi_lt b)).2.2.2.1
  simp only [intBase16, hascii, Option.bind_eq_bind, Option.some_bind, (readSign_hex b bs).1,
    (readSign_hex b bs).2, hhead, if_false, hexRun_hex, List.length_cons, List.dropWhile_nil, ne_eq,
    not_true_eq_false, or_false, Int.one_mul]
  rw [if_neg (by omega)]
  rfl

end TangemKeys.Py
