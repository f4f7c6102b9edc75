import TangemKeys.EthKeys

/-!
# `derive_address_from_public_key`, three times

Three scripts carry their own copy of `derive_address_from_public_key`: `test_all_wallets`,
`test_derivation_paths`, and `test_key_derivation` with its `compressed` flag.  Each strips `0x`,
decodes the text by its length, drops a leading `0x04` byte, hashes, and returns `0x` and the
last 20 bytes of the hash in hexadecimal; anything raised becomes `Error: …`.  They differ only in
the lengths they accept and in the text of their length error, so `deriveWith` is the shared
body and each copy is `deriveWith` at its own table of lengths.

## Main definitions

* `KeyForm` — the three decodings: compressed, 64 raw bytes, and 65 bytes with a prefix.
* `deriveWith` — the body the copies share.
* `TestAllWallets.deriveAddressFromPublicKey`, `TestDerivationPaths.deriveAddressFromPublicKey`,
  `TestKeyDerivation.deriveAddressFromPublicKey` — the copies.
* `TestDerivationPaths.testAddressTransformations` — the comparison `test_derivation_paths` makes
  with the derived text.

## Main results

* `deriveAddressFromPublicKey_agree` — where two copies both return an address they return the
  same one, and `test_all_wallets` returns one wherever another copy does.
* `allWallets_derives_iff` — the texts of the forms the script's comments describe that
  `test_all_wallets` returns an address for: no path looks at the curve.
* `allWallets_uncompressed` — the uncompressed paths return the key's address; `allWallets_raw`
  says which bytes the 128-character path hashes for any text it reads.
* `Script.deriveAddressFromPublicKey_of_isAddress` — every address a copy returns is that of the
  bytes its decoding gives, less a leading `0x04`.
* `allWallets_compressed_eq` — the compressed path drops the first byte of `X` when it is `0x04`;
  `allWallets_compressed_fourX` is a point of the curve where that changes the address.
* `allWallets_compressed_native` — on the native backend, the compressed path hashes `X` and the
  `y` that decompression computes.
* `Script.deriveAddressFromPublicKey_compressed_error`, `allWallets_fromhex_error` — the error
  texts of rejected keys, and where a `bytes.fromhex` error points.
* `TestDerivationPaths.testAddressTransformations_iff` — the comparison accepts exactly the
  target's address.
-/

namespace TangemKeys

open TangemKeys.Py TangemKeys.Secp256k1

/-! ### The shared body -/

/-- The decodings of a public-key text, chosen by its length. -/
inductive KeyForm
  /-- 66 characters: `keys.PublicKey.from_compressed_bytes(bytes.fromhex(h)).to_bytes()`. -/
  | compressed
  /-- 128 characters: `bytes.fromhex('04' + h)`. -/
  | raw
  /-- 130 characters: `bytes.fromhex(h)`. -/
  | prefixed
  deriving DecidableEq, Repr

/-- `uncompressed_bytes`, as a decoding computes it. -/
def KeyForm.uncompressedBytes (be : EccBackend) : KeyForm → List Char →
    Except PyException (List UInt8)
  | .compressed, h => do
    let publicKeyObj ← PublicKey.fromCompressedBytes be (← fromhex h)
    pure publicKeyObj.toBytes
  | .raw, h => fromhex ('0' :: '4' :: h)
  | .prefixed, h => fromhex h

/-- `IndexError` of `uncompressed_bytes[0]` on an empty byte string. -/
def indexError : PyException := ⟨"index out of range".toList⟩

/-- The tail every copy shares: drop a leading `0x04`, hash, keep `hash_result[-20:]`. -/
def addressOfUncompressed : List UInt8 → Except PyException (List UInt8)
  | [] => .error indexError
  | b :: rest =>
    let hashResult := keccak (if b = 4 then rest else b :: rest)
    .ok (hashResult.drop (hashResult.length - 20))

/-- What a copy returns for the outcome of its `try` block. -/
def renderOutcome : Except PyException (List UInt8) → List Char
  | .ok address => "0x".toList ++ hex address
  | .error e => "Error: ".toList ++ e.message

/-- The body of every copy: strip `0x`, decode by the table `keyForm` of accepted lengths, and
answer any other length with the copy's `invalidLength` text. -/
def deriveWith (be : EccBackend) (keyForm : Nat → Option KeyForm)
    (invalidLength : Nat → List Char) (publicKeyHex : List Char) : List Char :=
  let h := dropPrefix0x publicKeyHex
  match keyForm h.length with
  | some form => renderOutcome (form.uncompressedBytes be h >>= addressOfUncompressed)
  | none => invalidLength h.length

/-- A returned text is an address: it starts with `0x`. -/
def IsAddress (out : List Char) : Prop := out.take 2 = ['0', 'x']

instance (out : List Char) : Decidable (IsAddress out) := inferInstanceAs (Decidable (_ = _))

theorem isAddress_renderOutcome (r : Except PyException (List UInt8)) :
    IsAddress (renderOutcome r) ↔ ∃ a, r = .ok a := by
  cases r <;> simp [renderOutcome, IsAddress]

/-- The outcome of a copy that returns an address, read off the table. -/
theorem deriveWith_of_isAddress {be : EccBackend} {keyForm : Nat → Option KeyForm}
    {invalidLength : Nat → List Char} (hmsg : ∀ n, ¬IsAddress (invalidLength n))
    {s : List Char} (h : IsAddress (deriveWith be keyForm invalidLength s)) :
    ∃ form, keyForm (dropPrefix0x s).length = some form ∧
      deriveWith be keyForm invalidLength s = renderOutcome
        (form.uncompressedBytes be (dropPrefix0x s) >>= addressOfUncompressed) := by
  simp only [deriveWith] at h ⊢
  split at h
  · next form hform => exact ⟨form, hform, rfl⟩
  · exact absurd h (hmsg _)

/-! ### The three copies -/

namespace TestAllWallets

/-- The lengths `test_all_wallets` accepts. -/
def keyForm : Nat → Option KeyForm
  | 66 => some .compressed
  | 128 => some .raw
  | 130 => some .prefixed
  | _ => none

/-- `test_all_wallets.derive_address_from_public_key`. -/
def deriveAddressFromPublicKey (be : EccBackend) (publicKeyHex : List Char) : List Char :=
  deriveWith be keyForm (fun n => ("Invalid length: " ++ toString n ++ " chars").toList)
    publicKeyHex

end TestAllWallets

namespace TestDerivationPaths

/-- The lengths `test_derivation_paths` accepts. -/
def keyForm : Nat → Option KeyForm
  | 66 => some .compressed
  | _ => none

/-- `test_derivation_paths.derive_address_from_public_key`. -/
def deriveAddressFromPublicKey (be : EccBackend) (publicKeyHex : List Char) : List Char :=
  deriveWith be keyForm (fun n => ("Invalid length: " ++ toString n).toList) publicKeyHex

/-- `test_derivation_paths.test_address_transformations(base_public_key, target_address)`: whether
the derived text and the target agree up to letter case.  The other derivations it runs are only
printed. -/
def testAddressTransformations (be : EccBackend) (basePublicKey targetAddress : List Char) : Bool :=
  let directAddr := deriveAddressFromPublicKey be basePublicKey
  decide (lower directAddr = lower targetAddress)

end TestDerivationPaths

namespace TestKeyDerivation

/-- The lengths `test_key_derivation` accepts: `compressed and len == 66`, then `len == 130`. -/
def keyForm (compressed : Bool) (n : Nat) : Option KeyForm :=
  if compressed ∧ n = 66 then some .compressed else if n = 130 then some .prefixed else none

/-- `test_key_derivation.derive_address_from_public_key(public_key_hex, compressed)`; the
script's default is `compressed=True`. -/
def deriveAddressFromPublicKey (be : EccBackend) (publicKeyHex : List Char) (compressed : Bool) :
    List Char :=
  deriveWith be (keyForm compressed)
    (fun n => ("Invalid public key length: " ++ toString n).toList) publicKeyHex

end TestKeyDerivation

/-- The copies of `derive_address_from_public_key`, `test_key_derivation`'s with either value of
`compressed`. -/
inductive Script
  | allWallets
  | derivationPaths
  | keyDerivation (compressed : Bool)
  deriving DecidableEq, Repr

/-- The table of lengths of a copy. -/
def Script.keyForm : Script → Nat → Option KeyForm
  | .allWallets => TestAllWallets.keyForm
  | .derivationPaths => TestDerivationPaths.keyForm
  | .keyDerivation compressed => TestKeyDerivation.keyForm compressed

/-- The length error of a copy. -/
def Script.invalidLength : Script → Nat → List Char
  | .allWallets => fun n => ("Invalid length: " ++ toString n ++ " chars").toList
  | .derivationPaths => fun n => ("Invalid length: " ++ toString n).toList
  | .keyDerivation _ => fun n => ("Invalid public key length: " ++ toString n).toList

/-- A copy's `derive_address_from_public_key`. -/
def Script.deriveAddressFromPublicKey (be : EccBackend) (script : Script) (s : List Char) :
    List Char :=
  match script with
  | .allWallets => TestAllWallets.deriveAddressFromPublicKey be s
  | .derivationPaths => TestDerivationPaths.deriveAddressFromPublicKey be s
  | .keyDerivation compressed => TestKeyDerivation.deriveAddressFromPublicKey be s compressed

theorem Script.deriveAddressFromPublicKey_eq (be : EccBackend) (script : Script) (s : List Char) :
    script.deriveAddressFromPublicKey be s = deriveWith be script.keyForm script.invalidLength s := by
  cases script <;> rfl

theorem Script.not_isAddress_invalidLength (script : Script) (n : Nat) :
    ¬IsAddress (script.invalidLength n) := by
  cases script <;> simp [Script.invalidLength, IsAddress, String.toList, String.append]

/-- Every table is part of `test_all_wallets`' table. -/
theorem Script.keyForm_sub {script : Script} {n : Nat} {form : KeyForm}
    (h : script.keyForm n = some form) : TestAllWallets.keyForm n = some form := by
  cases script with
  | allWallets => exact h
  | derivationPaths =>
    change TestDerivationPaths.keyForm n = some form at h
    unfold TestDerivationPaths.keyForm at h
    split at h <;> cases h
    rfl
  | keyDerivation compressed =>
    change TestKeyDerivation.keyForm compressed n = some form at h
    unfold TestKeyDerivation.keyForm at h
    split_ifs at h with h66 h130 <;> cases h
    · rw [h66.2]; rfl
    · rw [h130]; rfl

/-- A copy that returns an address returns `test_all_wallets`' answer. -/
theorem Script.deriveAddressFromPublicKey_eq_allWallets {be : EccBackend} {script : Script}
    {s : List Char} (h : IsAddress (script.deriveAddressFromPublicKey be s)) :
    script.deriveAddressFromPublicKey be s = Script.allWallets.deriveAddressFromPublicKey be s := by
  rw [Script.deriveAddressFromPublicKey_eq] at h ⊢
  obtain ⟨form, hform, heq⟩ := deriveWith_of_isAddress script.not_isAddress_invalidLength h
  rw [heq, Script.deriveAddressFromPublicKey_eq]
  simp only [deriveWith]
  rw [show Script.allWallets.keyForm = TestAllWallets.keyForm from rfl, Script.keyForm_sub hform]

/-- **The copies drift only in what they accept.**  Where two copies of
`derive_address_from_public_key` both return an address they return the same one, and
`test_all_wallets` returns an address wherever any copy does. -/
theorem deriveAddressFromPublicKey_agree (be : EccBackend) (s : List Char) :
    (∀ i j : Script, IsAddress (i.deriveAddressFromPublicKey be s) →
      IsAddress (j.deriveAddressFromPublicKey be s) →
        i.deriveAddressFromPublicKey be s = j.deriveAddressFromPublicKey be s) ∧
    ∀ i : Script, IsAddress (i.deriveAddressFromPublicKey be s) →
      IsAddress (Script.allWallets.deriveAddressFromPublicKey be s) := by
  refine ⟨fun i j hi hj => ?_, fun i hi => ?_⟩
  · rw [Script.deriveAddressFromPublicKey_eq_allWallets hi,
      Script.deriveAddressFromPublicKey_eq_allWallets hj]
  · rwa [← Script.deriveAddressFromPublicKey_eq_allWallets hi]

/-! ### The decodings -/

theorem bind_ok_iff {α : Type} {x : Except PyException α} {f : α → Except PyException (List UInt8)}
    {a : List UInt8} : (x >>= f) = .ok a ↔ ∃ y, x = .ok y ∧ f y = .ok a := by
  cases x <;> simp [bind, Except.bind]

theorem addressOfUncompressed_ok_iff (b : List UInt8) :
    (∃ a, addressOfUncompressed b = .ok a) ↔ b ≠ [] := by
  cases b <;> simp [addressOfUncompressed]

/-- A decoding followed by the shared tail succeeds exactly when the decoding yields bytes. -/
theorem outcome_ok_iff (be : EccBackend) (form : KeyForm) (h : List Char) :
    (∃ a, (form.uncompressedBytes be h >>= addressOfUncompressed) = .ok a) ↔
      ∃ b, form.uncompressedBytes be h = .ok b ∧ b ≠ [] := by
  simp only [bind_ok_iff]
  exact ⟨fun ⟨_, b, hb, ha⟩ => ⟨b, hb, (addressOfUncompressed_ok_iff b).mp ⟨_, ha⟩⟩,
    fun ⟨b, hb, hne⟩ => let ⟨a, ha⟩ := (addressOfUncompressed_ok_iff b).mpr hne; ⟨a, b, hb, ha⟩⟩

theorem compressed_ok_iff (be : EccBackend) (h : List Char) :
    (∃ b, KeyForm.compressed.uncompressedBytes be h = .ok b ∧ b ≠ []) ↔
      ∃ b pk, fromhex h = .ok b ∧ PublicKey.fromCompressedBytes be b = .ok pk := by
  simp only [KeyForm.uncompressedBytes, bind_ok_iff, pure, Except.pure, Except.ok.injEq]
  constructor
  · rintro ⟨_, ⟨b, hb, pk, hpk, -⟩, -⟩
    exact ⟨b, pk, hb, hpk⟩
  · rintro ⟨b, pk, hb, hpk⟩
    -- the key has 64 bytes, so the tail can index it
    refine ⟨pk.toBytes, ⟨b, hb, pk, hpk, rfl⟩, fun h0 => ?_⟩
    simpa [h0] using pk.length_toBytes

theorem raw_ok_iff (be : EccBackend) (h : List Char) :
    (∃ b, KeyForm.raw.uncompressedBytes be h = .ok b ∧ b ≠ []) ↔ ∃ b, fromhex h = .ok b := by
  have h04 := fromhex_zero_four h
  simp only [KeyForm.uncompressedBytes]
  constructor
  · rintro ⟨b, hb, -⟩
    rw [hb] at h04
    cases hh : fromhex h
    · simp [hh, Except.toOption] at h04
    · exact ⟨_, rfl⟩
  · rintro ⟨b, hb⟩
    exact ⟨4 :: b, fromhex_zero_four_of_ok hb, List.cons_ne_nil _ _⟩

/-- Every address a copy returns is the address of the bytes its decoding gives, less a leading
`0x04`: `0x` followed by the 40 lower-case hexadecimal digits of the last 20 bytes of their
Keccak-256 hash. -/
theorem Script.deriveAddressFromPublicKey_of_isAddress {be : EccBackend} {script : Script}
    {s : List Char} (h : IsAddress (script.deriveAddressFromPublicKey be s)) :
    ∃ form b, script.keyForm (dropPrefix0x s).length = some form ∧
      form.uncompressedBytes be (dropPrefix0x s) = .ok b ∧
      script.deriveAddressFromPublicKey be s =
        "0x".toList ++ hex (publicKeyBytesToAddress (if b.head? = some 4 then b.tail else b)) := by
  rw [Script.deriveAddressFromPublicKey_eq] at h ⊢
  obtain ⟨form, hform, heq⟩ := deriveWith_of_isAddress script.not_isAddress_invalidLength h
  rw [heq] at h ⊢
  obtain ⟨a, ha⟩ := (isAddress_renderOutcome _).mp h
  obtain ⟨b, hb, hab⟩ := bind_ok_iff.mp ha
  refine ⟨form, b, hform, hb, ?_⟩
  rw [ha]
  match b, hab with
  | c :: rest, hab => by_cases hc : c = 4 <;> cases hab <;> simp [hc, renderOutcome,
      publicKeyBytesToAddress]

/-! ### What `test_all_wallets` accepts -/

/-- **What `test_all_wallets` derives an address from.**  Take a text whose part `h` after an
optional `0x` holds no whitespace and, at 130 characters, starts with `04`: the forms the script's
comments describe.  It gets an address exactly when `h` has 66 characters that decode to bytes
eth_keys accepts as a compressed key, or 128 or 130 characters that decode at all.  No path looks
at the curve.  Every text gets an address, an `Invalid length: N chars` or an `Error: …` text, and
`test_key_derivation`'s 130-character path answers as `test_all_wallets` does. -/
theorem allWallets_derives_iff (be : EccBackend) (s : List Char) :
    ((∀ c ∈ dropPrefix0x s, isSpace c = false) →
      ((dropPrefix0x s).length = 130 → (dropPrefix0x s).take 2 = ['0', '4']) →
      (IsAddress (TestAllWallets.deriveAddressFromPublicKey be s) ↔
        ((dropPrefix0x s).length = 66 ∧
            ∃ b pk, fromhex (dropPrefix0x s) = .ok b ∧ PublicKey.fromCompressedBytes be b = .ok pk) ∨
          ((dropPrefix0x s).length = 128 ∧ ∃ b, fromhex (dropPrefix0x s) = .ok b) ∨
          ((dropPrefix0x s).length = 130 ∧ ∃ b, fromhex (dropPrefix0x s) = .ok b))) ∧
    (IsAddress (TestAllWallets.deriveAddressFromPublicKey be s) ∨
      (∃ n : Nat, TestAllWallets.deriveAddressFromPublicKey be s =
        ("Invalid length: " ++ toString n ++ " chars").toList) ∨
      ∃ e : PyException, TestAllWallets.deriveAddressFromPublicKey be s =
        "Error: ".toList ++ e.message) ∧
    ∀ compressed : Bool, (dropPrefix0x s).length = 130 →
      TestKeyDerivation.deriveAddressFromPublicKey be s compressed =
        TestAllWallets.deriveAddressFromPublicKey be s := by
  simp only [TestAllWallets.deriveAddressFromPublicKey, TestKeyDerivation.deriveAddressFromPublicKey,
    deriveWith]
  generalize dropPrefix0x s = h
  refine ⟨fun hws _ => ?_, ?_, fun compressed h130 => ?_⟩
  · by_cases h66 : h.length = 66
    · simp [h66, TestAllWallets.keyForm, isAddress_renderOutcome, outcome_ok_iff, compressed_ok_iff]
    by_cases h128 : h.length = 128
    · simp [h128, TestAllWallets.keyForm, isAddress_renderOutcome, outcome_ok_iff, raw_ok_iff]
    by_cases h130 : h.length = 130
    · simp only [h130, TestAllWallets.keyForm, isAddress_renderOutcome, outcome_ok_iff]
      simp only [KeyForm.uncompressedBytes, show (130 : Nat) ≠ 66 by decide,
        show (130 : Nat) ≠ 128 by decide, false_and, true_and, false_or]
      -- without whitespace, 130 characters decode to 65 bytes
      refine ⟨fun ⟨b, hb, _⟩ => ⟨b, hb⟩, fun ⟨b, hb⟩ => ⟨b, hb, fun h0 => ?_⟩⟩
      have hlen := congrArg List.length (fromhex_eq_ok hb)
      rw [List.filter_eq_self.mpr (by simpa using hws), length_hex, length_lower, h0, h130] at hlen
      cases hlen
    have hnone : TestAllWallets.keyForm h.length = none := by
      unfold TestAllWallets.keyForm
      split <;> simp_all
    simp [hnone, h66, h128, h130, IsAddress, String.toList, String.append]
  · split
    · next form _ =>
      cases form.uncompressedBytes be h >>= addressOfUncompressed with
      | ok a => exact .inl (by simp [renderOutcome, IsAddress])
      | error e => exact .inr (.inr ⟨e, rfl⟩)
    · exact .inr (.inl ⟨_, rfl⟩)
  · simp [h130, TestKeyDerivation.keyForm, TestAllWallets.keyForm]

set_option maxRecDepth 10000 in
/-- Sixty-four zero bytes, `(0, 0)`, are no curve point, yet `test_all_wallets` derives an
address from their 128 hexadecimal digits. -/
theorem allWallets_offCurve_zero :
    IsAddress (TestAllWallets.deriveAddressFromPublicKey EccBackend.native (List.replicate 128 '0')) ∧
      fromhex (List.replicate 128 '0') = .ok (List.replicate 64 0) ∧ ¬OnCurve 0 0 :=
  ⟨by decide, rfl, by decide⟩

/-! ### The bytes each path hashes -/

/-- The 128-character path hashes the bytes its text decodes to. -/
theorem allWallets_raw_eq {be : EccBackend} {s : List Char} {B : List UInt8}
    (hlen : (dropPrefix0x s).length = 128) (hB : fromhex (dropPrefix0x s) = .ok B) :
    TestAllWallets.deriveAddressFromPublicKey be s = "0x".toList ++ hex (publicKeyBytesToAddress B) := by
  simp only [TestAllWallets.deriveAddressFromPublicKey, deriveWith, hlen, TestAllWallets.keyForm,
    KeyForm.uncompressedBytes, fromhex_zero_four_of_ok hB]
  rfl

/-- The 130-character path hashes the bytes its text decodes to, less a first byte `0x04`. -/
theorem allWallets_prefixed_eq {be : EccBackend} {s : List Char} {B : List UInt8}
    (hlen : (dropPrefix0x s).length = 130) (hB : fromhex (dropPrefix0x s) = .ok (4 :: B)) :
    TestAllWallets.deriveAddressFromPublicKey be s = "0x".toList ++ hex (publicKeyBytesToAddress B) := by
  simp only [TestAllWallets.deriveAddressFromPublicKey, deriveWith, hlen, TestAllWallets.keyForm,
    KeyForm.uncompressedBytes, hB]
  rfl

/-- **The uncompressed paths hash `X ‖ Y`.**  For every key `X ‖ Y`, `test_all_wallets` returns the
lower-cased checksum address of the key from the 128 digits of `X ‖ Y` and from the 130 digits of
`0x04 ‖ X ‖ Y`, each with or without `0x`. -/
theorem allWallets_uncompressed (be : EccBackend) (pk : PublicKey) {s : List Char}
    (hs : dropPrefix0x s = hex pk.toBytes ∨ dropPrefix0x s = hex (4 :: pk.toBytes)) :
    TestAllWallets.deriveAddressFromPublicKey be s = lower pk.toChecksumAddress := by
  rw [lower_publicKey_toChecksumAddress]
  rcases hs with h | h
  · exact allWallets_raw_eq (by simp [h, pk.length_toBytes]) (h ▸ fromhex_hex _)
  · exact allWallets_prefixed_eq (by simp [h, pk.length_toBytes]) (h ▸ fromhex_hex _)

theorem allWallets_uncompressed_zero :
    (dropPrefix0x (hex (List.replicate 64 0)) = hex (List.replicate 64 0) ∨
        dropPrefix0x (hex (List.replicate 64 0)) = hex (4 :: List.replicate 64 0)) ∧
      TestAllWallets.deriveAddressFromPublicKey EccBackend.native (hex (List.replicate 64 0)) =
        lower (PublicKey.toChecksumAddress ⟨List.replicate 64 0, rfl⟩) :=
  ⟨.inl (dropPrefix0x_hex _), allWallets_uncompressed _ ⟨List.replicate 64 0, rfl⟩ (.inl (dropPrefix0x_hex _))⟩

/-- **The raw path hashes the digits of its text.**  From 128 characters that `bytes.fromhex`
reads, `test_all_wallets` returns the address of the bytes `B` they decode to, and `bytes.hex()`
writes `B` as those characters with their whitespace removed, lower-cased: whitespace in the text
shortens the bytes hashed. -/
theorem allWallets_raw {be : EccBackend} {s : List Char} {B : List UInt8}
    (hlen : (dropPrefix0x s).length = 128) (hB : fromhex (dropPrefix0x s) = .ok B) :
    TestAllWallets.deriveAddressFromPublicKey be s = "0x".toList ++ hex (publicKeyBytesToAddress B) ∧
      hex B = lower ((dropPrefix0x s).filter fun c => !isSpace c) :=
  ⟨allWallets_raw_eq hlen hB, fromhex_eq_ok hB⟩

set_option maxRecDepth 10000 in
theorem allWallets_raw_zero :
    (dropPrefix0x (List.replicate 128 '0')).length = 128 ∧
      fromhex (dropPrefix0x (List.replicate 128 '0')) = .ok (List.replicate 64 0) ∧
      (TestAllWallets.deriveAddressFromPublicKey EccBackend.native (List.replicate 128 '0') =
          "0x".toList ++ hex (publicKeyBytesToAddress (List.replicate 64 0)) ∧
        hex (List.replicate 64 0) =
          lower ((dropPrefix0x (List.replicate 128 '0')).filter fun c => !isSpace c)) :=
  have hlen : (dropPrefix0x (List.replicate 128 '0')).length = 128 := rfl
  have hB : fromhex (dropPrefix0x (List.replicate 128 '0')) = .ok (List.replicate 64 0) := rfl
  ⟨hlen, hB, allWallets_raw hlen hB⟩

/-- The compressed path hashes the decompressed key `X ‖ Y`, less its first byte when that byte is
`0x04`: the step meant for the prefix of the 65-byte form also runs on the 64 bytes eth_keys
returns, and cuts the first byte of `X` off whenever it is `0x04`. -/
theorem allWallets_compressed_eq {be : EccBackend} {s : List Char} {b : List UInt8}
    {pk : PublicKey} (hlen : (dropPrefix0x s).length = 66) (hb : fromhex (dropPrefix0x s) = .ok b)
    (hpk : PublicKey.fromCompressedBytes be b = .ok pk) :
    TestAllWallets.deriveAddressFromPublicKey be s =
      if pk.toBytes.head? = some 4 then "0x".toList ++ hex (publicKeyBytesToAddress pk.toBytes.tail)
      else lower pk.toChecksumAddress := by
  rw [lower_publicKey_toChecksumAddress]
  simp only [TestAllWallets.deriveAddressFromPublicKey, deriveWith, hlen, TestAllWallets.keyForm,
    KeyForm.uncompressedBytes, hb]
  obtain ⟨bs, hbs⟩ := pk
  match bs, hbs with
  | c :: rest, _ => by_cases hc : c = 4 <;> simp [hpk, hc, bind, Except.bind, pure, Except.pure,
      addressOfUncompressed, renderOutcome, publicKeyBytesToAddress, PublicKey.toCanonicalAddress]

/-- The `x` of a point of the curve whose first byte is `0x04`. -/
def fourX : Nat := 0x0400000000000000000000000000000000000000000000000000000000000004

/-- The even `y` that goes with `fourX`. -/
def fourY : Nat := 0x64cf321098a67cb15bbbb88b6f6f0a44916d3b5ad574c25ed48399ecfa93dd86

set_option maxRecDepth 10000 in
theorem fromCompressedBytes_fourX :
    PublicKey.fromCompressedBytes EccBackend.native (2 :: toBytesBE 32 fourX) =
      .ok ⟨toBytesBE 32 fourX ++ toBytesBE 32 fourY, by simp⟩ := by
  rfl

set_option maxRecDepth 10000 in
/-- The point `(fourX, fourY)` is on the curve, and its `x` starts with the byte `0x04`.  From its
compressed form `02 ‖ X` `test_all_wallets` derives the address of the 63 bytes after that byte;
from its raw form `X ‖ Y`, the address of the key.  The two addresses differ. -/
theorem allWallets_compressed_fourX :
    OnCurve fourX fourY ∧
    TestAllWallets.deriveAddressFromPublicKey EccBackend.native (hex (2 :: toBytesBE 32 fourX)) =
      "0x".toList ++ hex (publicKeyBytesToAddress ((toBytesBE 32 fourX).tail ++ toBytesBE 32 fourY)) ∧
    TestAllWallets.deriveAddressFromPublicKey EccBackend.native
        (hex (toBytesBE 32 fourX ++ toBytesBE 32 fourY)) =
      "0x".toList ++ hex (publicKeyBytesToAddress (toBytesBE 32 fourX ++ toBytesBE 32 fourY)) ∧
    publicKeyBytesToAddress ((toBytesBE 32 fourX).tail ++ toBytesBE 32 fourY) ≠
      publicKeyBytesToAddress (toBytesBE 32 fourX ++ toBytesBE 32 fourY) := by
  refine ⟨by decide, ?_, ?_, by decide⟩
  · rw [allWallets_compressed_eq (by rw [dropPrefix0x_hex]; simp) (by rw [dropPrefix0x_hex, fromhex_hex])
      fromCompressedBytes_fourX, if_pos (by decide)]
    rfl
  · exact allWallets_raw_eq (by rw [dropPrefix0x_hex]; simp) (by rw [dropPrefix0x_hex, fromhex_hex])

/-- **The compressed path on the native backend.**  From 66 characters that `bytes.fromhex` reads
as `pfx ‖ X`, with prefix `0x02` or `0x03` and a 32-byte `X`, `test_all_wallets` returns the
address of `X ‖ Y`, less the first byte of `X` when that byte is `0x04`.  `Y` holds the `y < P`
that `decompress_public_key` computes: it has the prefix's parity (or is `0`), and `(x, y)` is a
point of the curve wherever `x < P` and Euler's criterion accepts `x^3 + 7`. -/
theorem allWallets_compressed_native {s : List Char} {pfx : UInt8} {xs : List UInt8}
    (h66 : (dropPrefix0x s).length = 66) (hb : fromhex (dropPrefix0x s) = .ok (pfx :: xs))
    (hlen : xs.length = 32) (hp : pfx = 2 ∨ pfx = 3) :
    ∃ y, y < secpk1P ∧ (y % 2 = pfx.toNat % 2 ∨ y = 0) ∧
      (bigEndianToInt xs < secpk1P →
        (bigEndianToInt xs ^ 3 + secpk1A * bigEndianToInt xs + secpk1B) % secpk1P = 0 ∨
          (bigEndianToInt xs ^ 3 + secpk1A * bigEndianToInt xs + secpk1B) ^ ((secpk1P - 1) / 2) %
            secpk1P = 1 →
        OnCurve (bigEndianToInt xs) y) ∧
      TestAllWallets.deriveAddressFromPublicKey EccBackend.native s =
        "0x".toList ++ hex (publicKeyBytesToAddress
          (if xs.head? = some 4 then xs.tail ++ toBytesBE 32 y else xs ++ toBytesBE 32 y)) := by
  obtain ⟨y, hd, hyP, hpar, hon⟩ := decompressPublicKey_spec pfx xs hlen hp
  refine ⟨y, hyP, hpar, hon, ?_⟩
  rw [allWallets_compressed_eq h66 hb (fromCompressedBytes_native_eq hlen hp hd),
    lower_publicKey_toChecksumAddress]
  obtain ⟨c, cs, rfl⟩ := List.exists_cons_of_length_eq_add_one hlen
  by_cases hc : c = 4 <;> simp [hc, PublicKey.toCanonicalAddress]

theorem allWallets_compressed_native_zero :
    (dropPrefix0x (hex (2 :: List.replicate 32 0))).length = 66 ∧
      fromhex (dropPrefix0x (hex (2 :: List.replicate 32 0))) = .ok (2 :: List.replicate 32 0) ∧
      (List.replicate 32 (0 : UInt8)).length = 32 ∧ ((2 : UInt8) = 2 ∨ (2 : UInt8) = 3) ∧
      ∃ y, y < secpk1P ∧ (y % 2 = (2 : UInt8).toNat % 2 ∨ y = 0) ∧
        (bigEndianToInt (List.replicate 32 0) < secpk1P →
          (bigEndianToInt (List.replicate 32 0) ^ 3 + secpk1A * bigEndianToInt (List.replicate 32 0) +
              secpk1B) % secpk1P = 0 ∨
            (bigEndianToInt (List.replicate 32 0) ^ 3 + secpk1A * bigEndianToInt (List.replicate 32 0) +
              secpk1B) ^ ((secpk1P - 1) / 2) % secpk1P = 1 →
          OnCurve (bigEndianToInt (List.replicate 32 0)) y) ∧
        TestAllWallets.deriveAddressFromPublicKey EccBackend.native (hex (2 :: List.replicate 32 0)) =
          "0x".toList ++ hex (publicKeyBytesToAddress
            (if (List.replicate 32 (0 : UInt8)).head? = some 4 then
              (List.replicate 32 0).tail ++ toBytesBE 32 y
            else List.replicate 32 0 ++ toBytesBE 32 y)) :=
  have h66 : (dropPrefix0x (hex (2 :: List.replicate 32 0))).length = 66 := by
    rw [dropPrefix0x_hex]
    simp
  have hb : fromhex (dropPrefix0x (hex (2 :: List.replicate 32 0))) = .ok (2 :: List.replicate 32 0) := by
    rw [dropPrefix0x_hex, fromhex_hex]
  ⟨h66, hb, List.length_replicate _ _, .inl rfl, allWallets_compressed_native h66 hb (List.length_replicate _ _) (.inl rfl)⟩

/-- The card's secp256k1 wallet key, `Wallet[0]` of the scripts. -/
def cardKey : List Char := "032c6f575345bafa41227d802afaa251f9fd1d5613a0f729b46a200ac90a92f6df".toList

/-- The address `0x9fe13b…` of `cardKey`. -/
def cardAddress : List UInt8 :=
  [0x9f, 0xe1, 0x3b, 0x04, 0x1b, 0x68, 0x11, 0xb7, 0x17, 0xb3, 0x11, 0xfc, 0xe8, 0x87, 0x14, 0x69,
    0x72, 0xb2, 0x0d, 0x6a]

set_option maxRecDepth 10000 in
/-- The card key the scripts run on, and the address they print for it. -/
example : TestAllWallets.deriveAddressFromPublicKey EccBackend.native cardKey =
    "0x".toList ++ hex cardAddress := by
  decide

/-- **Compressed and uncompressed forms agree where the `0x04` step does not bite.**  On the native
backend, for a compressed key `pfx ‖ X` whose `X` does not start with `0x04`, `test_all_wallets`
returns the same address for the compressed text as for the 128- and 130-character texts of the
key `X ‖ Y` it decompresses to. -/
theorem allWallets_compressed_agrees {pfx : UInt8} {xs : List UInt8} (hlen : xs.length = 32)
    (hp : pfx = 2 ∨ pfx = 3) (h4 : xs.head? ≠ some 4) :
    ∃ y, decompressPublicKey (pfx :: xs) = .ok (xs ++ toBytesBE 32 y) ∧
      TestAllWallets.deriveAddressFromPublicKey EccBackend.native (hex (pfx :: xs)) =
        TestAllWallets.deriveAddressFromPublicKey EccBackend.native (hex (xs ++ toBytesBE 32 y)) ∧
      TestAllWallets.deriveAddressFromPublicKey EccBackend.native (hex (pfx :: xs)) =
        TestAllWallets.deriveAddressFromPublicKey EccBackend.native
          (hex (4 :: (xs ++ toBytesBE 32 y))) := by
  obtain ⟨y, hd, -⟩ := decompressPublicKey_spec pfx xs hlen hp
  have h66 : (dropPrefix0x (hex (pfx :: xs))).length = 66 := by rw [dropPrefix0x_hex]; simp [hlen]
  have hc := allWallets_compressed_eq h66
    (by rw [dropPrefix0x_hex, fromhex_hex]) (fromCompressedBytes_native_eq hlen hp hd)
  have h4' : (xs ++ toBytesBE 32 y).head? ≠ some 4 := by
    obtain ⟨c, cs, rfl⟩ := List.exists_cons_of_length_eq_add_one hlen
    simpa using h4
  rw [hc, if_neg h4', lower_publicKey_toChecksumAddress]
  refine ⟨y, hd, (allWallets_raw_eq ?_ (by rw [dropPrefix0x_hex, fromhex_hex])).symm,
    (allWallets_prefixed_eq ?_ (by rw [dropPrefix0x_hex, fromhex_hex])).symm⟩
  all_goals
    rw [dropPrefix0x_hex]
    simp [hlen]

theorem allWallets_compressed_agrees_zero :
    (List.replicate 32 (0 : UInt8)).length = 32 ∧ ((2 : UInt8) = 2 ∨ (2 : UInt8) = 3) ∧
      (List.replicate 32 (0 : UInt8)).head? ≠ some 4 ∧
      ∃ y, decompressPublicKey (2 :: List.replicate 32 0) =
          .ok (List.replicate 32 0 ++ toBytesBE 32 y) ∧
        TestAllWallets.deriveAddressFromPublicKey EccBackend.native (hex (2 :: List.replicate 32 0)) =
          TestAllWallets.deriveAddressFromPublicKey EccBackend.native
            (hex (List.replicate 32 0 ++ toBytesBE 32 y)) ∧
        TestAllWallets.deriveAddressFromPublicKey EccBackend.native (hex (2 :: List.replicate 32 0)) =
          TestAllWallets.deriveAddressFromPublicKey EccBackend.native
            (hex (4 :: (List.replicate 32 0 ++ toBytesBE 32 y))) :=
  have h4 : (List.replicate 32 (0 : UInt8)).head? ≠ some 4 := by decide
  ⟨List.length_replicate _ _, .inl rfl, h4,
    allWallets_compressed_agrees (List.length_replicate _ _) (.inl rfl) h4⟩

/-! ### Errors and comparisons -/

/-- What a rejected compressed key gets.  On 66 characters, every copy that reads them as a
compressed key answers `Error: ` and CPython's `bytes.fromhex` message when the text does not
decode, and `Error: ` and eth_keys' validation message when the bytes are no compressed key: their
length when whitespace left fewer than 33, and else their first byte when it is not `0x02` or
`0x03`.  No backend is reached on these paths. -/
theorem Script.deriveAddressFromPublicKey_compressed_error (be : EccBackend) {script : Script}
    {s : List Char} (hform : script.keyForm 66 = some .compressed)
    (h66 : (dropPrefix0x s).length = 66) :
    (∀ e, fromhex (dropPrefix0x s) = .error e →
      script.deriveAddressFromPublicKey be s = "Error: ".toList ++ e.message) ∧
    ∀ b, fromhex (dropPrefix0x s) = .ok b →
      (b.length ≠ 33 → script.deriveAddressFromPublicKey be s =
        "Error: ".toList ++ (lengthError "compressed public key" 33 b.length).message) ∧
      (b.length = 33 → b.take 1 ≠ [2] → b.take 1 ≠ [3] → script.deriveAddressFromPublicKey be s =
        "Error: ".toList ++ (compressedFormatError (b.take 1)).message) := by
  have hd : script.deriveAddressFromPublicKey be s = renderOutcome
      (KeyForm.compressed.uncompressedBytes be (dropPrefix0x s) >>= addressOfUncompressed) := by
    rw [Script.deriveAddressFromPublicKey_eq, deriveWith]
    simp only [h66, hform]
  refine ⟨fun e he => ?_, fun b hb => ⟨fun hlen => ?_, fun hlen h2 h3 => ?_⟩⟩
  all_goals
    rw [hd]
    simp [KeyForm.uncompressedBytes, PublicKey.fromCompressedBytes, validateCompressedPublicKeyBytes,
      bind, Except.bind, renderOutcome, *]

/-- **`test_address_transformations` compares addresses only.**  Against a target that lowers to
`0x` and the digits of `A`, it answers `True` exactly when the derivation returns the address `A`:
the error texts start with `Error` or `Invalid`, and never pass for an address. -/
theorem TestDerivationPaths.testAddressTransformations_iff (be : EccBackend)
    (basePublicKey targetAddress : List Char) {A : List UInt8}
    (hA : lower targetAddress = "0x".toList ++ hex A) :
    TestDerivationPaths.testAddressTransformations be basePublicKey targetAddress = true ↔
      TestDerivationPaths.deriveAddressFromPublicKey be basePublicKey = "0x".toList ++ hex A := by
  rw [TestDerivationPaths.testAddressTransformations, decide_eq_true_iff, hA,
    TestDerivationPaths.deriveAddressFromPublicKey, deriveWith]
  split
  · cases KeyForm.uncompressedBytes be _ (dropPrefix0x basePublicKey) >>= addressOfUncompressed with
    | ok a => rw [renderOutcome, lower_append, lower_hex, show lower "0x".toList = "0x".toList by decide]
    | error e => simp [renderOutcome, lower, String.toList, String.append,
        show lowerChar 'E' ≠ '0' by decide]
  · simp [lower, String.toList, String.append, show lowerChar 'I' ≠ '0' by decide]

theorem TestDerivationPaths.testAddressTransformations_iff_cardKey :
    lower "0x9fe13b041b6811b717b311fce887146972b20d6a".toList = "0x".toList ++ hex cardAddress ∧
      (TestDerivationPaths.testAddressTransformations EccBackend.native cardKey
          "0x9fe13b041b6811b717b311fce887146972b20d6a".toList = true ↔
        TestDerivationPaths.deriveAddressFromPublicKey EccBackend.native cardKey =
          "0x".toList ++ hex cardAddress) :=
  have hA : lower "0x9fe13b041b6811b717b311fce887146972b20d6a".toList =
      "0x".toList ++ hex cardAddress := by
    decide
  ⟨hA, TestDerivationPaths.testAddressTransformations_iff _ _ _ hA⟩

end TangemKeys
