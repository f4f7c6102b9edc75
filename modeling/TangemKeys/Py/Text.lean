import Mathlib

/-!
# Python text and bytes

The scripts read public keys, signatures and addresses as Python `str`, and hand byte strings to
the hashing and curve code.  This module models the builtins they use, as CPython 3.11 implements
them: a `str` is a list of characters and a `bytes` value a list of bytes.

* `dropPrefix0x` — the `if s.startswith('0x'): s = s[2:]` step every script begins with.
* `lower` — `str.lower`.
* `hex` — `bytes.hex()`.
* `fromhex` — `bytes.fromhex`, with CPython's whitespace skipping and error positions.
* `PyException` — an exception, by the text `f"Error: {e}"` shows of it.

## Main results

* `fromhex_hex` — `bytes.fromhex(b.hex()) == b`, hence `hex_injective`.
* `fromhex_eq_ok` — what `bytes.fromhex` accepts is well formed: the bytes it returns are the
  text's own digits, whitespace removed.
* `isHexForm_iff` — the text forms of a byte string, with or without `0x` and in any letter case.
* `lower_hex` — hexadecimal text is already lower case.
* `fromhex_zero_four` — `bytes.fromhex("04" + h)` is `0x04` followed by `bytes.fromhex(h)`.
* `fromhex_error` — the position in an error of `bytes.fromhex` is that of a character that is no
  hexadecimal digit, or the end of the text.
-/

namespace TangemKeys.Py

/-! ### Exceptions -/

/-- A Python exception, by its text `str(e)`. -/
structure PyException where
  /-- `str(e)`. -/
  message : List Char
  deriving DecidableEq, Repr

/-! ### Characters -/

/-- `Py_ISSPACE`: CPython's ASCII whitespace — tab, line feed, vertical tab, form feed, carriage
return and space. -/
def isSpace (c : Char) : Bool := c.toNat = 32 || (9 ≤ c.toNat && c.toNat ≤ 13)

/-- `_PyLong_DigitValue`: the value of an ASCII digit or letter as a digit of a base up to 36,
and 37 for every other character. -/
def digitValue (c : Char) : Nat :=
  if 48 ≤ c.toNat ∧ c.toNat ≤ 57 then c.toNat - 48
  else if 97 ≤ c.toNat ∧ c.toNat ≤ 122 then c.toNat - 87
  else if 65 ≤ c.toNat ∧ c.toNat ≤ 90 then c.toNat - 55
  else 37

/-- The lower-case hexadecimal digit of `n < 16`. -/
def hexDigitChar (n : Nat) : Char := "0123456789abcdef".toList.getD n '0'

theorem toNat_ofNat_of_lt {n : Nat} (h : n < 55296) : (Char.ofNat n).toNat = n := by
  simp [Char.ofNat, Nat.isValidChar, h, Char.ofNatAux, Char.toNat, UInt32.toNat]

theorem toNat_toLower (c : Char) :
    c.toLower.toNat = if 65 ≤ c.toNat ∧ c.toNat ≤ 90 then c.toNat + 32 else c.toNat := by
  simp only [Char.toLower, ge_iff_le]
  split_ifs with h
  · exact toNat_ofNat_of_lt (by omega)
  · rfl

@[simp] theorem isSpace_toLower (c : Char) : isSpace c.toLower = isSpace c := by
  rw [Bool.eq_iff_iff]
  simp only [isSpace, Bool.or_eq_true, Bool.and_eq_true, decide_eq_true_eq, toNat_toLower]
  split_ifs <;> omega

@[simp] theorem digitValue_toLower (c : Char) : digitValue c.toLower = digitValue c := by
  simp only [digitValue, toNat_toLower]
  split_ifs <;> omega

theorem char_eq_of_toNat_eq {c d : Char} (h : c.toNat = d.toNat) : c = d :=
  Char.ext (UInt32.eq_of_val_eq (Fin.ext h))

/-! ### `str` operations -/

/-- U+212A KELVIN SIGN, the one character beyond ASCII whose lower case is ASCII: `k`. -/
def kelvinSign : Char := Char.ofNat 0x212A

/-- `str.lower` on one character: `A`–`Z` and the Kelvin sign become `a`–`z` and `k`.  CPython
also lowers the other cased characters beyond ASCII, but each of them, and its lower case, holds
a character beyond ASCII (`İ` becomes `i` and U+0307), and none is a digit or whitespace.  The
scripts compare lowered text only with the ASCII text they produce and read digits only through
`int`, so keeping those characters as they are changes no result. -/
def lowerChar (c : Char) : Char := if c = kelvinSign then 'k' else c.toLower

/-- `str.lower`. -/
def lower (s : List Char) : List Char := s.map lowerChar

theorem lowerChar_of_ne {c : Char} (h : c ≠ kelvinSign) : lowerChar c = c.toLower := if_neg h

theorem lowerChar_kelvinSign : lowerChar kelvinSign = 'k' := if_pos rfl

theorem lowerChar_of_toNat_lt {c : Char} (h : c.toNat < 128) : lowerChar c = c.toLower :=
  lowerChar_of_ne fun hk => absurd (hk ▸ h) (by decide)

@[simp] theorem isSpace_lowerChar (c : Char) : isSpace (lowerChar c) = isSpace c := by
  unfold lowerChar
  split_ifs with h
  · subst h
    decide
  · exact isSpace_toLower c

theorem hexDigitChar_facts : ∀ n < 16, isSpace (hexDigitChar n) = false ∧
    digitValue (hexDigitChar n) = n ∧ lowerChar (hexDigitChar n) = hexDigitChar n ∧
    (hexDigitChar n).toNat < 128 ∧ hexDigitChar n ≠ 'x' := by
  decide

@[simp] theorem length_lower (s : List Char) : (lower s).length = s.length := List.length_map _ _

@[simp] theorem lower_append (s t : List Char) : lower (s ++ t) = lower s ++ lower t :=
  List.map_append _ _ _

/-- `if s.startswith('0x'): s = s[2:]`. -/
def dropPrefix0x (s : List Char) : List Char := if s.take 2 = ['0', 'x'] then s.drop 2 else s

@[simp] theorem dropPrefix0x_cons_cons (s : List Char) : dropPrefix0x ('0' :: 'x' :: s) = s := by
  simp [dropPrefix0x]

/-! ### `bytes.hex()` -/

/-- `bytes.hex()`: two lower-case hexadecimal digits per byte. -/
def hex (bs : List UInt8) : List Char :=
  bs.flatMap fun b => [hexDigitChar (b.toNat / 16), hexDigitChar (b.toNat % 16)]

@[simp] theorem hex_nil : hex [] = [] := rfl

@[simp] theorem hex_cons (b : UInt8) (bs : List UInt8) :
    hex (b :: bs) = hexDigitChar (b.toNat / 16) :: hexDigitChar (b.toNat % 16) :: hex bs := rfl

@[simp] theorem hex_append (as bs : List UInt8) : hex (as ++ bs) = hex as ++ hex bs :=
  List.flatMap_append _ _ _

@[simp] theorem length_hex (bs : List UInt8) : (hex bs).length = 2 * bs.length := by
  induction bs with
  | nil => rfl
  | cons b bs ih => simp [ih]; omega

theorem take_hex (k : Nat) (bs : List UInt8) : (hex bs).take (2 * k) = hex (bs.take k) := by
  induction bs generalizing k with
  | nil => simp
  | cons b bs ih => cases k <;> simp [Nat.mul_succ, ih]

theorem drop_hex (k : Nat) (bs : List UInt8) : (hex bs).drop (2 * k) = hex (bs.drop k) := by
  induction bs generalizing k with
  | nil => simp
  | cons b bs ih => cases k <;> simp [Nat.mul_succ, ih]

theorem hi_lt (b : UInt8) : b.toNat / 16 < 16 := by
  have : b.toNat < 256 := b.toNat_lt_size
  omega

theorem lo_lt (b : UInt8) : b.toNat % 16 < 16 := Nat.mod_lt _ (by decide)

theorem mem_hex {c : Char} {bs : List UInt8} (h : c ∈ hex bs) : ∃ n < 16, c = hexDigitChar n := by
  induction bs with
  | nil => simp at h
  | cons b bs ih =>
    rcases List.mem_cons.mp h with rfl | h
    · exact ⟨_, hi_lt b, rfl⟩
    rcases List.mem_cons.mp h with rfl | h
    · exact ⟨_, lo_lt b, rfl⟩
    exact ih h

@[simp] theorem lower_hex (bs : List UInt8) : lower (hex bs) = hex bs := by
  induction bs with
  | nil => rfl
  | cons b bs ih =>
    simp only [hex_cons, lower, List.map_cons] at ih ⊢
    rw [ih, (hexDigitChar_facts _ (hi_lt b)).2.2.1, (hexDigitChar_facts _ (lo_lt b)).2.2.1]

theorem x_not_mem_hex (bs : List UInt8) : 'x' ∉ hex bs := fun h => by
  obtain ⟨n, hn, hx⟩ := mem_hex h
  exact (hexDigitChar_facts n hn).2.2.2.2 hx.symm

/-- Text that lowers to hexadecimal text does not start with `0x`. -/
theorem dropPrefix0x_of_lower_eq_hex {s : List Char} {bs : List UInt8} (h : lower s = hex bs) :
    dropPrefix0x s = s := by
  unfold dropPrefix0x
  rw [if_neg]
  intro h2
  obtain ⟨c, d, rest, rfl⟩ : ∃ c d rest, s = c :: d :: rest := by
    match s, h2 with
    | c :: d :: rest, _ => exact ⟨c, d, rest, rfl⟩
  simp only [List.take_succ_cons, List.take_zero, List.cons.injEq, and_true] at h2
  obtain ⟨rfl, rfl⟩ := h2
  apply x_not_mem_hex bs
  rw [← h]
  simp [lower, show lowerChar 'x' = 'x' by decide]

theorem dropPrefix0x_hex (bs : List UInt8) : dropPrefix0x (hex bs) = hex bs :=
  dropPrefix0x_of_lower_eq_hex (lower_hex bs)

/-- `t` is a text form of the bytes `bs`: their hexadecimal digits in any letter case, with or
without a leading `0x`. -/
def IsHexForm (bs : List UInt8) (t : List Char) : Prop :=
  ∃ d, lower d = hex bs ∧ (t = d ∨ t = "0x".toList ++ d)

theorem isHexForm_iff {bs : List UInt8} {t : List Char} :
    IsHexForm bs t ↔ lower (dropPrefix0x t) = hex bs := by
  constructor
  · rintro ⟨d, hd, rfl | rfl⟩
    · rwa [dropPrefix0x_of_lower_eq_hex hd]
    · exact hd
  · intro h
    unfold dropPrefix0x at h
    split_ifs at h with hp
    · exact ⟨t.drop 2, h, .inr (by rw [show "0x".toList = ['0', 'x'] from rfl, ← hp,
        List.take_append_drop])⟩
    · exact ⟨t, h, .inl rfl⟩

instance (bs : List UInt8) (t : List Char) : Decidable (IsHexForm bs t) :=
  decidable_of_iff _ isHexForm_iff.symm

/-! ### `bytes.fromhex` -/

/-- The loop of `bytes.fromhex` from position `i`: whitespace is skipped between bytes, each byte
is two hexadecimal digits of either case, and a failure gives the position of the offending
character — the end of the text, when a second digit is missing. -/
def fromhexLoop : Nat → List Char → Except Nat (List UInt8)
  | _, [] => .ok []
  | i, c :: cs =>
    if isSpace c then fromhexLoop (i + 1) cs
    else if digitValue c < 16 then
      match cs with
      | [] => .error (i + 1)
      | d :: ds =>
        if digitValue d < 16 then
          (UInt8.ofNat (16 * digitValue c + digitValue d) :: ·) <$> fromhexLoop (i + 2) ds
        else .error (i + 1)
    else .error i

/-- The `ValueError` of `bytes.fromhex` at position `i`. -/
def fromhexError (i : Nat) : PyException :=
  ⟨"non-hexadecimal number found in fromhex() arg at position ".toList ++ (toString i).toList⟩

/-- The position of the first non-ASCII character of a text, if it has one. -/
def firstNonAscii : List Char → Option Nat
  | [] => none
  | c :: cs => if 128 ≤ c.toNat then some 0 else (· + 1) <$> firstNonAscii cs

/-- `bytes.fromhex(s)`.  CPython rejects a text holding a non-ASCII character at the first such
character, before it reads any digit. -/
def fromhex (s : List Char) : Except PyException (List UInt8) :=
  match firstNonAscii s with
  | some i => .error (fromhexError i)
  | none => (fromhexLoop 0 s).mapError fromhexError

theorem firstNonAscii_eq_none {s : List Char} (h : ∀ c ∈ s, c.toNat < 128) :
    firstNonAscii s = none := by
  induction s with
  | nil => rfl
  | cons c cs ih =>
    rw [firstNonAscii, if_neg (by have := h c (List.mem_cons_self _ _); omega),
      ih fun d hd => h d (List.mem_cons_of_mem _ hd)]
    rfl

theorem uint8_ofNat_toNat (b : UInt8) : UInt8.ofNat b.toNat = b :=
  UInt8.eq_of_val_eq (Fin.ext (UInt8.toNat_ofNat_of_lt b.toNat_lt_size))

theorem toOption_map {ε α β : Type} (f : α → β) (x : Except ε α) :
    (f <$> x).toOption = f <$> x.toOption := by
  cases x <;> rfl

theorem toOption_eq_some_iff {ε α : Type} {x : Except ε α} {a : α} :
    x.toOption = some a ↔ x = .ok a := by
  cases x <;> simp [Except.toOption]

theorem toOption_mapError {ε ε' α : Type} (f : ε → ε') (x : Except ε α) :
    (x.mapError f).toOption = x.toOption := by
  cases x <;> rfl

theorem fromhexLoop_hex (i : Nat) (bs : List UInt8) : fromhexLoop i (hex bs) = .ok bs := by
  induction bs generalizing i with
  | nil => rfl
  | cons b bs ih =>
    obtain ⟨hs, hv, -⟩ := hexDigitChar_facts _ (hi_lt b)
    obtain ⟨-, hv', -⟩ := hexDigitChar_facts _ (lo_lt b)
    rw [hex_cons, fromhexLoop, if_neg (by simp [hs]), if_pos (by rw [hv]; exact hi_lt b)]
    simp only [hv, hv', lo_lt, if_true, ih, Nat.div_add_mod, uint8_ofNat_toNat]
    rfl

theorem fromhex_hex (bs : List UInt8) : fromhex (hex bs) = .ok bs := by
  have hascii : firstNonAscii (hex bs) = none := firstNonAscii_eq_none fun c hc => by
    obtain ⟨n, hn, rfl⟩ := mem_hex hc
    exact (hexDigitChar_facts n hn).2.2.2.1
  simp only [fromhex, hascii, fromhexLoop_hex]
  rfl

theorem hex_injective {as bs : List UInt8} (h : hex as = hex bs) : as = bs := by
  have := fromhex_hex as
  rw [h, fromhex_hex] at this
  exact (Except.ok.inj this).symm

theorem fromhexLoop_space {c : Char} (h : isSpace c) (i : Nat) (cs : List Char) :
    fromhexLoop i (c :: cs) = fromhexLoop (i + 1) cs := by
  cases cs <;> simp [fromhexLoop, h]

theorem fromhexLoop_nondigit {c : Char} (h : ¬isSpace c) (hc : ¬digitValue c < 16) (i : Nat)
    (cs : List Char) : fromhexLoop i (c :: cs) = .error i := by
  cases cs <;> simp [fromhexLoop, h, hc]

/-- Whether `bytes.fromhex` succeeds, and with what, does not depend on where its loop starts
counting positions. -/
theorem fromhexLoop_toOption (i j : Nat) (s : List Char) :
    (fromhexLoop i s).toOption = (fromhexLoop j s).toOption := by
  induction i, s using fromhexLoop.induct generalizing j with
  | case1 => rfl
  | case2 i c cs h ih => rw [fromhexLoop_space h, fromhexLoop_space h, ih (j + 1)]
  | case3 i c h hc => simp [fromhexLoop, h, hc, Except.toOption]
  | case4 i c h hc d ds hd ih => simp [fromhexLoop, h, hc, hd, toOption_map, ih (j + 2)]
  | case5 i c h hc d ds hd => simp [fromhexLoop, h, hc, hd, Except.toOption]
  | case6 i c cs h hc => rw [fromhexLoop_nondigit h hc, fromhexLoop_nondigit h hc]; rfl

theorem toNat_hexDigitChar : ∀ n < 16,
    (hexDigitChar n).toNat = if n < 10 then n + 48 else n + 87 := by
  decide

/-- A hexadecimal digit is written back, lower-cased, by `hexDigitChar`. -/
theorem hexDigitChar_digitValue {c : Char} (h : digitValue c < 16) :
    hexDigitChar (digitValue c) = lowerChar c := by
  have hk : c ≠ kelvinSign := by
    rintro rfl
    exact absurd h (by decide)
  apply char_eq_of_toNat_eq
  rw [toNat_hexDigitChar _ h, lowerChar_of_ne hk, toNat_toLower]
  unfold digitValue at h ⊢
  split_ifs at h ⊢ <;> omega

theorem isSpace_eq_false_of_digitValue_lt {c : Char} (h : digitValue c < 16) : isSpace c = false := by
  unfold digitValue at h
  simp only [isSpace, Bool.or_eq_false_iff, decide_eq_false_iff_not, Bool.and_eq_false_imp,
    decide_eq_true_eq]
  split_ifs at h <;> omega

/-- **`bytes.fromhex` accepts only well-formed text**: the bytes it returns are written by
`bytes.hex()` as the text's own digits, whitespace removed and lower-cased. -/
theorem fromhexLoop_eq_ok {i : Nat} {s : List Char} {bs : List UInt8}
    (h : fromhexLoop i s = .ok bs) : hex bs = lower (s.filter fun c => !isSpace c) := by
  induction i, s using fromhexLoop.induct generalizing bs with
  | case1 => cases h; rfl
  | case2 i c cs hc ih =>
    rw [fromhexLoop_space hc] at h
    simpa [List.filter_cons, hc] using ih h
  | case3 i c hc hd => simp [fromhexLoop, hc, hd] at h
  | case4 i c hc hd d ds hd' ih =>
    simp only [fromhexLoop, hc, hd, hd', if_false, if_true, Bool.false_eq_true] at h
    cases hrest : fromhexLoop (i + 2) ds with
    | error e => rw [hrest] at h; cases h
    | ok rest =>
      rw [hrest] at h
      cases h
      have hv : (UInt8.ofNat (16 * digitValue c + digitValue d)).toNat =
          16 * digitValue c + digitValue d :=
        UInt8.toNat_ofNat_of_lt (by rw [show UInt8.size = 256 from rfl]; omega)
      simp only [hex_cons, hv, List.filter_cons, hc, isSpace_eq_false_of_digitValue_lt hd',
        Bool.not_false, if_true, lower, List.map_cons, ← hexDigitChar_digitValue hd,
        ← hexDigitChar_digitValue hd']
      rw [show (16 * digitValue c + digitValue d) / 16 = digitValue c by omega,
        show (16 * digitValue c + digitValue d) % 16 = digitValue d by omega]
      exact congrArg _ (congrArg _ (ih hrest))
  | case5 i c hc hd d ds hd' => simp [fromhexLoop, hc, hd, hd'] at h
  | case6 i c cs hc hd => rw [fromhexLoop_nondigit hc hd] at h; cases h

theorem fromhex_eq_ok {s : List Char} {bs : List UInt8} (h : fromhex s = .ok bs) :
    hex bs = lower (s.filter fun c => !isSpace c) := by
  unfold fromhex at h
  split at h
  · cases h
  · cases hloop : fromhexLoop 0 s with
    | error e => rw [hloop] at h; cases h
    | ok r => rw [hloop] at h; cases h; exact fromhexLoop_eq_ok hloop

/-- `bytes.fromhex('04' + s)` is `b'\x04' + bytes.fromhex(s)`, when either succeeds. -/
theorem fromhex_zero_four (s : List Char) :
    (fromhex ('0' :: '4' :: s)).toOption = List.cons 4 <$> (fromhex s).toOption := by
  have h0 : isSpace '0' = false ∧ digitValue '0' = 0 ∧ digitValue '4' = 4 ∧
    ¬128 ≤ '0'.toNat ∧ ¬128 ≤ '4'.toNat := by decide
  simp only [fromhex, firstNonAscii, h0, if_false]
  cases firstNonAscii s with
  | some i => rfl
  | none =>
    simp only [Option.map_eq_map, Option.map_none', toOption_mapError, fromhexLoop, h0]
    simp [toOption_map, fromhexLoop_toOption 2 0]

theorem fromhex_zero_four_of_ok {s : List Char} {bs : List UInt8} (h : fromhex s = .ok bs) :
    fromhex ('0' :: '4' :: s) = .ok (4 :: bs) := by
  have h04 := fromhex_zero_four s
  rw [h] at h04
  exact toOption_eq_some_iff.mp h04

end TangemKeys.Py
