import TangemKeys.Keccak
import TangemKeys.Secp256k1

/-!
# eth_keys and eth_utils

The objects the scripts build with `eth_keys.keys` and the address functions of `eth_utils`:

* `PublicKey` — 64 raw bytes `X ‖ Y`; the length is a field, as `PublicKey.__init__` checks it.
* `Signature` — `(v, r, s)` with `v ∈ {0, 1}` and `0 ≤ r, s < N`, as `Signature(vrs=…)` checks.
* `EccBackend` — the two curve operations the scripts reach, abstract: eth_keys runs `coincurve`
  when it is installed and its native code otherwise.  `EccBackend.native` is the latter.
* `toChecksumAddress` — EIP-55 mixed-case hexadecimal.

## Main results

* `lower_toChecksumAddress` — lowering a checksum address gives `0x` and the plain hexadecimal
  address bytes.
* `fromCompressedBytes_native_ok` — the native backend decompresses every 33-byte string that
  starts with `0x02` or `0x03`, on the curve or not.
-/

namespace TangemKeys

open TangemKeys.Py TangemKeys.Secp256k1

/-! ### Validation errors -/

/-- `validate_bytes_length`'s `ValidationError`. -/
def lengthError (name : String) (expected actual : Nat) : PyException :=
  ⟨("Unexpected " ++ name ++ " length: Expected " ++ toString expected ++ ", but got " ++
    toString actual ++ " bytes").toList⟩

/-- `validate_compressed_public_key_bytes`'s `ValidationError` for a wrong first byte. -/
def compressedFormatError (firstByte : List UInt8) : PyException :=
  ⟨"Unexpected compressed public key format: Must start with 0x02 or 0x03, but starts with 0x".toList
    ++ hex firstByte⟩

/-- `validate_compressed_public_key_bytes`. -/
def validateCompressedPublicKeyBytes (b : List UInt8) : Except PyException Unit :=
  if b.length ≠ 33 then .error (lengthError "compressed public key" 33 b.length)
  else if b.take 1 ≠ [2] ∧ b.take 1 ≠ [3] then .error (compressedFormatError (b.take 1))
  else .ok ()

/-! ### Public keys -/

/-- `keys.PublicKey`: the raw 64 bytes `X ‖ Y`. -/
structure PublicKey where
  /-- `to_bytes()`. -/
  toBytes : List UInt8
  length_toBytes : toBytes.length = 64

/-- `PublicKey(public_key_bytes)`, which checks the length. -/
def PublicKey.ofBytes (b : List UInt8) : Except PyException PublicKey :=
  if h : b.length = 64 then .ok ⟨b, h⟩
  else .error (lengthError "uncompressed public key" 64 b.length)

/-- `public_key_bytes_to_address`: the last 20 bytes of the hash. -/
def publicKeyBytesToAddress (b : List UInt8) : List UInt8 :=
  let h := keccak b
  h.drop (h.length - 20)

/-- `PublicKey.to_canonical_address()`: the 20 address bytes. -/
def PublicKey.toCanonicalAddress (pk : PublicKey) : List UInt8 := publicKeyBytesToAddress pk.toBytes

theorem publicKeyBytesToAddress_eq (b : List UInt8) :
    publicKeyBytesToAddress b = (keccak b).drop 12 := by
  rw [publicKeyBytesToAddress, length_keccak]

theorem length_publicKeyBytesToAddress (b : List UInt8) :
    (publicKeyBytesToAddress b).length = 20 := by
  rw [publicKeyBytesToAddress_eq, List.length_drop, length_keccak]

/-! ### Checksum addresses -/

/-- The UTF-8 bytes of ASCII text. -/
def asciiBytes (s : List Char) : List UInt8 := s.map fun c => UInt8.ofNat c.toNat

/-- `eth_utils.to_checksum_address` of 20 address bytes: the hexadecimal address, each letter
upper-cased where the matching digit of the hash of the lower-case text is above 7. -/
def toChecksumAddress (a : List UInt8) : List Char :=
  let normAddress := hex a
  let addressHash := hex (keccak (asciiBytes normAddress))
  "0x".toList ++ List.zipWith (fun c h => if digitValue h > 7 then c.toUpper else c)
    normAddress addressHash

/-- `PublicKey.to_checksum_address()`. -/
def PublicKey.toChecksumAddress (pk : PublicKey) : List Char :=
  TangemKeys.toChecksumAddress pk.toCanonicalAddress

theorem lowerChar_hexDigitChar_toUpper : ∀ n < 16, lowerChar (hexDigitChar n).toUpper = hexDigitChar n := by
  decide

theorem zipWith_eq_left {α β : Type} {g : α → β → α} :
    ∀ {l : List α} {l' : List β}, l.length ≤ l'.length → (∀ a ∈ l, ∀ b, g a b = a) →
      List.zipWith g l l' = l
  | [], _, _, _ => rfl
  | _ :: _, [], h, _ => absurd h (by simp)
  | a :: l, b :: l', h, hg => by
    rw [List.zipWith_cons_cons, hg a (List.mem_cons_self _ _),
      zipWith_eq_left (by simpa using h) fun a ha => hg a (List.mem_cons_of_mem _ ha)]

/-- **Lowering a checksum address** gives `0x` and the plain hexadecimal address: the checksum
only changes letter case. -/
theorem lower_toChecksumAddress {a : List UInt8} (ha : a.length = 20) :
    lower (toChecksumAddress a) = "0x".toList ++ hex a := by
  rw [toChecksumAddress, lower_append, show lower "0x".toList = "0x".toList by decide, lower,
    List.map_zipWith]
  congr 1
  refine zipWith_eq_left (by simp [length_keccak, ha]) fun c hc h => ?_
  obtain ⟨n, hn, rfl⟩ := mem_hex hc
  split_ifs
  · exact lowerChar_hexDigitChar_toUpper n hn
  · exact (hexDigitChar_facts n hn).2.2.1

set_option maxRecDepth 10000 in
/-- The first example address of EIP-55. -/
example : toChecksumAddress [0x5a, 0xae, 0xb6, 0x05, 0x3f, 0x3e, 0x94, 0xc9, 0xb9, 0xa0, 0x9f, 0x33,
    0x66, 0x94, 0x35, 0xe7, 0xef, 0x1b, 0xea, 0xed] =
    "0x5aAeb6053F3E94C9b9A09f33669435E7Ef1BeAed".toList := by
  decide

theorem lower_publicKey_toChecksumAddress (pk : PublicKey) :
    lower pk.toChecksumAddress = "0x".toList ++ hex pk.toCanonicalAddress :=
  lower_toChecksumAddress (length_publicKeyBytesToAddress _)

/-! ### Signatures -/

/-- `keys.Signature`, built from `vrs`. -/
structure Signature where
  /-- The recovery parity. -/
  v : Nat
  r : Nat
  s : Nat
  v_le : v ≤ 1
  r_lt : r < secpk1N
  s_lt : s < secpk1N

/-- `Signature(vrs=(v, r, s))`: `v` must be `0` or `1` and `r`, `s` in `[0, N)`; `none` where it
raises `BadSignature`. -/
def Signature.ofVrs (v : Nat) (r s : Int) : Option Signature :=
  if h : v ≤ 1 ∧ 0 ≤ r ∧ r < secpk1N ∧ 0 ≤ s ∧ s < secpk1N then
    some ⟨v, r.toNat, s.toNat, h.1, by omega, by omega⟩
  else none

/-- An eth_keys curve backend, by the two operations the scripts reach. -/
structure EccBackend where
  /-- `decompress_public_key_bytes`: the raw `X ‖ Y` bytes of a compressed key. -/
  decompressPublicKeyBytes : List UInt8 → Except PyException (List UInt8)
  /-- `ecdsa_recover`, by the raw bytes of the recovered key; `none` where it raises. -/
  ecdsaRecover : List UInt8 → Signature → Option (List UInt8)

/-- The pure-Python backend, `eth_keys.backends.native`. -/
def EccBackend.native : EccBackend where
  decompressPublicKeyBytes := decompressPublicKey
  ecdsaRecover msgHash sig := ecdsaRawRecover msgHash sig.v sig.r sig.s

/-- `PublicKey.from_compressed_bytes`. -/
def PublicKey.fromCompressedBytes (be : EccBackend) (b : List UInt8) :
    Except PyException PublicKey := do
  validateCompressedPublicKeyBytes b
  let raw ← be.decompressPublicKeyBytes b
  PublicKey.ofBytes raw

/-- `Signature.recover_public_key_from_msg_hash`; `none` where it raises. -/
def Signature.recoverPublicKeyFromMsgHash (be : EccBackend) (sig : Signature)
    (messageHash : List UInt8) : Option PublicKey := do
  let raw ← be.ecdsaRecover messageHash sig
  (PublicKey.ofBytes raw).toOption

/-! ### Decompression in the native backend -/

theorem length_decompressPublicKey {b raw : List UInt8} (h : decompressPublicKey b = .ok raw) :
    raw.length = 64 := by
  have hmod : ∀ a, a % secpk1P < 2 ^ 256 := fun a => lt_trans (Nat.mod_lt _ (by decide)) secpk1P_lt
  match b, h with
  | pfx :: xBytes, h =>
    simp only [decompressPublicKey] at h
    by_cases hb : (pfx :: xBytes).length ≠ 33 ∨ pfx ≠ 2 ∧ pfx ≠ 3
    · rw [if_pos hb] at h
      cases h
    rw [if_neg hb] at h
    cases h
    have hx : bigEndianToInt xBytes < 2 ^ 256 := by
      have hlen : xBytes.length = 32 := by simp at hb; exact hb.1
      simpa [hlen] using bigEndianToInt_lt xBytes
    refine length_encodeRawPublicKey hx ?_
    split_ifs
    · exact hmod _
    · exact powMod_eq _ _ _ ▸ hmod _

/-- Past the length and prefix checks, the native backend's `from_compressed_bytes` is the key of
the decompressed bytes. -/
theorem fromCompressedBytes_native_eq {pfx : UInt8} {xs raw : List UInt8} (hlen : xs.length = 32)
    (hp : pfx = 2 ∨ pfx = 3) (hraw : decompressPublicKey (pfx :: xs) = .ok raw) :
    PublicKey.fromCompressedBytes EccBackend.native (pfx :: xs) =
      .ok ⟨raw, length_decompressPublicKey hraw⟩ := by
  have hv : validateCompressedPublicKeyBytes (pfx :: xs) = .ok () := by
    rcases hp with rfl | rfl <;> simp [validateCompressedPublicKeyBytes, hlen]
  simp [PublicKey.fromCompressedBytes, hv, EccBackend.native, hraw, PublicKey.ofBytes,
    length_decompressPublicKey hraw, bind, Except.bind]

/-- **The native backend decompresses every `0x02`/`0x03` key**: each 33-byte string that starts
with `0x02` or `0x03` gives a public key, whether or not its `X` is the `x` of a curve point. -/
theorem fromCompressedBytes_native_ok {b : List UInt8} (hlen : b.length = 33)
    (hpfx : b.head? = some 2 ∨ b.head? = some 3) :
    ∃ pk, PublicKey.fromCompressedBytes EccBackend.native b = .ok pk := by
  match b, hpfx with
  | pfx :: xBytes, hpfx =>
    have hp : pfx = 2 ∨ pfx = 3 := by simpa using hpfx
    have hv : validateCompressedPublicKeyBytes (pfx :: xBytes) = .ok () := by
      rcases hp with rfl | rfl <;> simp [validateCompressedPublicKeyBytes, hlen]
    have hd : ∃ raw, decompressPublicKey (pfx :: xBytes) = .ok raw := by
      simp only [decompressPublicKey, hlen]
      rcases hp with rfl | rfl <;> simp
    obtain ⟨raw, hraw⟩ := hd
    exact ⟨⟨raw, length_decompressPublicKey hraw⟩, by
      simp [PublicKey.fromCompressedBytes, hv, EccBackend.native, hraw, PublicKey.ofBytes,
        length_decompressPublicKey hraw, bind, Except.bind]⟩

theorem fromCompressedBytes_native_zero :
    (2 :: List.replicate 32 (0 : UInt8)).length = 33 ∧
      ((2 :: List.replicate 32 (0 : UInt8)).head? = some 2 ∨
        (2 :: List.replicate 32 (0 : UInt8)).head? = some 3) ∧
      ∃ pk, PublicKey.fromCompressedBytes EccBackend.native (2 :: List.replicate 32 0) = .ok pk :=
  ⟨rfl, .inl rfl, fromCompressedBytes_native_ok rfl (.inl rfl)⟩

end TangemKeys
