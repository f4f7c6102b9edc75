import TangemKeys.EthKeys
import TangemKeys.Py.Int

/-!
# `verify_signature_recovery`

`verify_tangem_signature.verify_signature_recovery(signature_hex, hash_candidates,
expected_address)` looks for the message a 65-byte signature `r ‖ s ‖ v` signs.  For each candidate
digest in order, and for `v_int = 27` and then `28`, it reads `r` and `s` with `int(…, 16)`,
recovers the signer's key with eth_keys, and compares the lower-cased checksum address of that key
with the lower-cased expected address.  The first match is returned as
`(name, v_int, recovered_address)`, and `None` when nothing matches.  Whatever a trial raises is
caught and the search goes on.  The function prints as it goes; the printing reads nothing the
result depends on and is left out.

## Main definitions

* `tryVInt` — one trial, the body of the inner `try`.
* `tryVInts`, `tryCandidates` — the loop over `v_int` and the loop over the candidates.
* `verifySignatureRecovery` — the function.
* `firstMatch` — the search as the specification describes it, over pairs of a candidate and a
  parity.

## Main results

* `verifySignatureRecovery_eq_firstMatch` — on a signature of 130 hexadecimal digits and an address
  written `0x…`, the function is the specified search.
* `verifySignatureRecovery_forms` — only the bytes of the signature matter, and the expected
  address must be written with `0x`: with it a recovered key with the address matches, without it
  nothing ever matches.
* `verifySignatureRecovery_isSome` — a signature the function reports a match for has 130
  characters whose two 64-character fields `int(…, 16)` reads as `r, s ∈ [0, N)`; on every such
  text the function is the specified search with those `r` and `s`, however `int` spelled them,
  and its last two characters are never read.
* `verifySignatureRecovery_sound`, `verifySignatureRecovery_ne_none_iff` — a match is reported
  exactly when one exists, and every reported match is genuine.
* `verifySignatureRecovery_append` — the search over a dictionary can be run in parts.
-/

namespace TangemKeys

open TangemKeys.Py TangemKeys.Secp256k1

/-! ### The function -/

/-- One pass of the inner `try` block, for `v_int`: `r = int(r_hex, 16)`, `s = int(s_hex, 16)`,
`Signature(vrs=(v_int - 27, r, s))`, recovery from `hash_bytes`, and the comparison
`recovered_address.lower() == expected_address.lower()`.  `none` where the block raises or the
addresses differ; either way the loop goes on.  `v_int` is `27` or `28`, so `v_int - 27` does not
truncate; `lower` decides the comparison as `str.lower` does. -/
def tryVInt (be : EccBackend) (rHex sHex : List Char) (hashBytes : List UInt8)
    (expectedAddress : List Char) (vInt : Nat) : Option (List Char) := do
  let r ← intBase16 rHex
  let s ← intBase16 sHex
  let recoveryId := vInt - 27
  let signature ← Signature.ofVrs recoveryId r s
  let publicKey ← signature.recoverPublicKeyFromMsgHash be hashBytes
  let recoveredAddress := publicKey.toChecksumAddress
  if lower recoveredAddress = lower expectedAddress then some recoveredAddress else none

/-- The loop `for v_int in [27, 28]` around one trial: the first `v_int` whose trial matches. -/
def tryVInts (trial : Nat → Option (List Char)) : List Nat → Option (Nat × List Char)
  | [] => none
  | vInt :: vInts =>
    match trial vInt with
    | some recoveredAddress => some (vInt, recoveredAddress)
    | none => tryVInts trial vInts

/-- The loop over `hash_candidates.items()`: the first candidate with a matching trial, as
`(name, v_int, recovered_address)`. -/
def tryCandidates (be : EccBackend) (rHex sHex expectedAddress : List Char) :
    List (List Char × List UInt8) → Option (List Char × Nat × List Char)
  | [] => none
  | (name, hashBytes) :: candidates =>
    match tryVInts (tryVInt be rHex sHex hashBytes expectedAddress) [27, 28] with
    | some (vInt, recoveredAddress) => some (name, vInt, recoveredAddress)
    | none => tryCandidates be rHex sHex expectedAddress candidates

/-- `verify_signature_recovery(signature_hex, hash_candidates, expected_address)`, the dictionary
`hash_candidates` given by its items in order.  `v_hex = signature_hex[128:130]` is only printed. -/
def verifySignatureRecovery (be : EccBackend) (signatureHex : List Char)
    (hashCandidates : List (List Char × List UInt8)) (expectedAddress : List Char) :
    Option (List Char × Nat × List Char) :=
  let signatureHex := dropPrefix0x signatureHex
  if signatureHex.length ≠ 130 then none
  else
    let rHex := signatureHex.take 64
    let sHex := (signatureHex.drop 64).take 64
    tryCandidates be rHex sHex expectedAddress hashCandidates

/-! ### One trial -/

/-- eth_keys' recovery with parity `p` from `r`, `s` and a digest: `none` where the signature is
rejected or recovery raises. -/
def recoverWith (be : EccBackend) (r s : Int) (digest : List UInt8) (p : Nat) : Option PublicKey := do
  let signature ← Signature.ofVrs p r s
  signature.recoverPublicKeyFromMsgHash be digest

/-! ### A signature with a known key -/

/-- The 65 bytes `r ‖ s ‖ v` with `r = s = 1`. -/
def unitSignature (v : UInt8) : List UInt8 := toBytesBE 32 1 ++ toBytesBE 32 1 ++ [v]

/-- One candidate, 32 zero bytes: its digest reads as `z = 0`, so the key recovered from
`unitSignature` is the point `R` with `x = r = 1` itself. -/
def zeroCandidate : List (List Char × List UInt8) := [("zero".toList, List.replicate 32 0)]

/-- The even `y` with `y ^ 2 = 1 ^ 3 + 7` modulo `P`. -/
def unitY : Nat := 0x4218f20ae6c646b363db68605822fb14264ca8d2587fdd6fbc750d587e76a7ee

/-- The key `(1, unitY)`. -/
def unitKey : PublicKey := ⟨toBytesBE 32 1 ++ toBytesBE 32 unitY, by simp⟩

/-- The address of `unitKey`. -/
def unitAddress : List UInt8 :=
  [0x33, 0x44, 0xc6, 0xf6, 0xee, 0xca, 0x58, 0x8b, 0xe1, 0x32, 0x14, 0x2d, 0xb0, 0xa3, 0x2c, 0x71,
    0xab, 0xfa, 0xae, 0x7b]

set_option maxRecDepth 10000 in
/-- At parity `0`, `r = s = 1` and `z = 0` recover `R = (1, unitY)`: `Q = r⁻¹ (s R - z G) = R`. -/
theorem recoverWith_unit : recoverWith EccBackend.native 1 1 (List.replicate 32 0) 0 = some unitKey := by
  rfl

set_option maxRecDepth 10000 in
theorem toCanonicalAddress_unitKey : unitKey.toCanonicalAddress = unitAddress := by
  decide

set_option maxRecDepth 10000 in
theorem toChecksumAddress_unitAddress :
    toChecksumAddress unitAddress = "0x3344c6f6eeCA588be132142DB0a32C71ABFAAe7B".toList := by
  decide

section Trial

variable {be : EccBackend} {rHex sHex rHex' sHex' e e' : List Char}

/-- A trial reads its texts only through `int(…, 16)` and `lower`. -/
theorem tryVInt_congr (hr : intBase16 rHex = intBase16 rHex') (hs : intBase16 sHex = intBase16 sHex')
    (he : lower e = lower e') (d : List UInt8) :
    tryVInt be rHex sHex d e = tryVInt be rHex' sHex' d e' := by
  funext v
  simp only [tryVInt, hr, hs, he]

/-- Comparing with a `0x` address compares the address bytes. -/
theorem lower_checksum_eq_iff {A : List UInt8} (hA : lower e = "0x".toList ++ hex A)
    (key : PublicKey) : lower key.toChecksumAddress = lower e ↔ key.toCanonicalAddress = A := by
  rw [lower_publicKey_toChecksumAddress, hA, List.append_cancel_left_eq]
  exact ⟨hex_injective, congrArg hex⟩

/-- An address written without `0x` never equals a lower-cased checksum address. -/
theorem lower_checksum_ne_bare {A : List UInt8} (hA : lower e = hex A) (key : PublicKey) :
    lower key.toChecksumAddress ≠ lower e := by
  rw [lower_publicKey_toChecksumAddress, hA]
  intro h
  exact x_not_mem_hex A (h ▸ by simp)

/-- A trial against an address written without `0x` never matches. -/
theorem tryVInt_bare {A : List UInt8} (hA : lower e = hex A) (d : List UInt8) (vInt : Nat) :
    tryVInt be rHex sHex d e vInt = none := by
  simp only [tryVInt, Option.bind_eq_bind, Option.bind_eq_none]
  intro r _ s _ sig _ key _
  exact if_neg (lower_checksum_ne_bare hA key)

theorem tryVInt_eq {r s : Int} (hr : intBase16 rHex = some r) (hs : intBase16 sHex = some s)
    (d : List UInt8) (vInt : Nat) : tryVInt be rHex sHex d e vInt =
      (recoverWith be r s d (vInt - 27)).bind fun key =>
        if lower key.toChecksumAddress = lower e then some key.toChecksumAddress else none := by
  simp only [tryVInt, recoverWith, hr, hs, Option.bind_eq_bind, Option.some_bind, Option.bind_assoc]

end Trial

/-! ### The two loops -/

section Loops

variable {be : EccBackend} {rHex sHex rHex' sHex' e e' : List Char}

theorem tryCandidates_congr
    (h : ∀ d, tryVInt be rHex sHex d e = tryVInt be rHex' sHex' d e')
    (candidates : List (List Char × List UInt8)) :
    tryCandidates be rHex sHex e candidates = tryCandidates be rHex' sHex' e' candidates := by
  induction candidates with
  | nil => rfl
  | cons c candidates ih =>
    obtain ⟨name, d⟩ := c
    simp only [tryCandidates, h, ih]

theorem tryCandidates_eq_none (h : ∀ d vInt, tryVInt be rHex sHex d e vInt = none)
    (candidates : List (List Char × List UInt8)) :
    tryCandidates be rHex sHex e candidates = none := by
  induction candidates with
  | nil => rfl
  | cons c candidates ih =>
    obtain ⟨name, d⟩ := c
    simp only [tryCandidates, tryVInts, h, ih]

theorem tryVInts_ne_none {trial : Nat → Option (List Char)} {vInts : List Nat} {vInt : Nat}
    (hv : vInt ∈ vInts) (h : trial vInt ≠ none) : tryVInts trial vInts ≠ none := by
  induction vInts with
  | nil => cases hv
  | cons v vInts ih =>
    simp only [tryVInts]
    split
    · exact Option.some_ne_none _
    · next hnone =>
      rcases List.mem_cons.mp hv with rfl | hv
      · exact absurd hnone h
      · exact ih hv

theorem tryCandidates_ne_none {be : EccBackend} {rHex sHex e : List Char}
    {candidates : List (List Char × List UInt8)} {name : List Char} {d : List UInt8} {vInt : Nat}
    (hc : (name, d) ∈ candidates) (hv : vInt ∈ [27, 28])
    (h : tryVInt be rHex sHex d e vInt ≠ none) : tryCandidates be rHex sHex e candidates ≠ none := by
  induction candidates with
  | nil => cases hc
  | cons c candidates ih =>
    obtain ⟨name', d'⟩ := c
    simp only [tryCandidates]
    split
    · exact Option.some_ne_none _
    · next hnone =>
      rcases List.mem_cons.mp hc with hc | hc
      · cases hc
        exact absurd hnone (tryVInts_ne_none hv h)
      · exact ih hc

end Loops

/-! ### The specified search -/

/-- The search the specification describes: over the pairs of a candidate and a parity, candidates
outer and parity `0` before `1`, the first pair whose recovered key has the address bytes
`address`, as `(name, 27 + p, checksum address of the key)`. -/
def firstMatch (be : EccBackend) (r s : Int) (candidates : List (List Char × List UInt8))
    (address : List UInt8) : Option (List Char × Nat × List Char) :=
  (candidates.flatMap fun c => [(c, 0), (c, 1)]).findSome? fun ((name, digest), p) => do
    let key ← recoverWith be r s digest p
    if key.toCanonicalAddress = address then some (name, 27 + p, key.toChecksumAddress) else none

/-- The search stops at the first candidate when its parity-`0` trial matches. -/
theorem firstMatch_cons_of_eq_some {be : EccBackend} {r s : Int} {name : List Char}
    {d : List UInt8} {candidates : List (List Char × List UInt8)} {A : List UInt8}
    {x : List Char × Nat × List Char}
    (h : ((recoverWith be r s d 0).bind fun key =>
      if key.toCanonicalAddress = A then some (name, 27, key.toChecksumAddress) else none) = some x) :
    firstMatch be r s ((name, d) :: candidates) A = some x := by
  simp only [firstMatch, List.flatMap_cons, List.cons_append, List.findSome?_cons,
    Option.bind_eq_bind, Nat.add_zero, h]

/-- The two loops are the specified search. -/
theorem tryCandidates_eq_firstMatch {be : EccBackend} {rHex sHex e : List Char} {r s : Int}
    {A : List UInt8} (hr : intBase16 rHex = some r) (hs : intBase16 sHex = some s)
    (hA : lower e = "0x".toList ++ hex A) (candidates : List (List Char × List UInt8)) :
    tryCandidates be rHex sHex e candidates = firstMatch be r s candidates A := by
  induction candidates with
  | nil => rfl
  | cons c candidates ih =>
    obtain ⟨name, d⟩ := c
    simp only [tryCandidates, tryVInts, tryVInt_eq hr hs, lower_checksum_eq_iff hA, firstMatch,
      List.flatMap_cons, List.cons_append, List.nil_append, List.findSome?_cons]
    rw [firstMatch] at ih
    cases recoverWith be r s d 0 <;> cases recoverWith be r s d 1 <;> simp [ih] <;> split_ifs <;> simp

/-! ### The function as a whole -/

theorem verifySignatureRecovery_of_length_ne {be : EccBackend} {sig e : List Char}
    (h : (dropPrefix0x sig).length ≠ 130) (candidates : List (List Char × List UInt8)) :
    verifySignatureRecovery be sig candidates e = none := by
  simp [verifySignatureRecovery, h]

theorem verifySignatureRecovery_of_length_eq {be : EccBackend} {sig e : List Char}
    (h : (dropPrefix0x sig).length = 130) (candidates : List (List Char × List UInt8)) :
    verifySignatureRecovery be sig candidates e = tryCandidates be ((dropPrefix0x sig).take 64)
      (((dropPrefix0x sig).drop 64).take 64) e candidates := by
  simp [verifySignatureRecovery, h]

/-- Text that lowers to the digits of a non-empty byte string is read by `int` as their value. -/
theorem intBase16_of_lower_eq_hex {t : List Char} {bs : List UInt8} (h : lower t = hex bs)
    (hne : bs ≠ []) : intBase16 t = some (bigEndianToInt bs : Nat) := by
  rw [← intBase16_lower, h]
  match bs, hne with
  | b :: bs, _ => exact intBase16_hex b bs

theorem lower_take (n : Nat) (t : List Char) : lower (t.take n) = (lower t).take n :=
  List.map_take _ _ _

theorem lower_drop (n : Nat) (t : List Char) : lower (t.drop n) = (lower t).drop n :=
  List.map_drop _ _ _

/-- A signature written as the digits of 65 bytes `S` has 130 characters, and `int` reads its
fields as `S[0:32]` and `S[32:64]`. -/
theorem fields_of_lower_eq_hex {sig : List Char} {S : List UInt8}
    (hS : lower (dropPrefix0x sig) = hex S) (hlen : S.length = 65) :
    (dropPrefix0x sig).length = 130 ∧
      intBase16 ((dropPrefix0x sig).take 64) = some (bigEndianToInt (S.take 32) : Nat) ∧
      intBase16 (((dropPrefix0x sig).drop 64).take 64) =
        some (bigEndianToInt ((S.drop 32).take 32) : Nat) := by
  have hr : lower ((dropPrefix0x sig).take 64) = hex (S.take 32) := by
    rw [lower_take, hS, ← take_hex]
  have hs : lower (((dropPrefix0x sig).drop 64).take 64) = hex ((S.drop 32).take 32) := by
    rw [lower_take, lower_drop, hS, ← take_hex, ← drop_hex]
  exact ⟨by rw [← length_lower, hS, length_hex, hlen],
    intBase16_of_lower_eq_hex hr (List.ne_nil_of_length_pos (by simp [hlen])),
    intBase16_of_lower_eq_hex hs (List.ne_nil_of_length_pos (by simp [hlen]))⟩

/-- Any signature text of 130 characters whose fields `int` reads as `r = s = 1` matches the zero
digest at `v = 27`, against `unitAddress` written with `0x`. -/
theorem verifySignatureRecovery_of_unit_fields {sig : List Char}
    (hlen : (dropPrefix0x sig).length = 130) (hr : intBase16 ((dropPrefix0x sig).take 64) = some 1)
    (hs : intBase16 (((dropPrefix0x sig).drop 64).take 64) = some 1) :
    verifySignatureRecovery EccBackend.native sig zeroCandidate ("0x".toList ++ hex unitAddress) =
      some ("zero".toList, 27, "0x3344c6f6eeCA588be132142DB0a32C71ABFAAe7B".toList) := by
  have hA : lower ("0x".toList ++ hex unitAddress) = "0x".toList ++ hex unitAddress := by
    rw [lower_append, lower_hex]
    rfl
  have htrial : ((recoverWith EccBackend.native 1 1 (List.replicate 32 0) 0).bind fun key =>
      if key.toCanonicalAddress = unitAddress then
        some ("zero".toList, 27, key.toChecksumAddress) else none) =
      some ("zero".toList, 27, "0x3344c6f6eeCA588be132142DB0a32C71ABFAAe7B".toList) := by
    rw [recoverWith_unit, Option.some_bind, toCanonicalAddress_unitKey, if_pos rfl,
      PublicKey.toChecksumAddress, toCanonicalAddress_unitKey, toChecksumAddress_unitAddress]
  rw [verifySignatureRecovery_of_length_eq hlen, tryCandidates_eq_firstMatch hr hs hA zeroCandidate]
  exact firstMatch_cons_of_eq_some htrial

/-- Whatever its `v` byte, the signature `r = s = 1` matches the zero digest at `v = 27`, against
`unitAddress` written with `0x`. -/
theorem verifySignatureRecovery_unit (v : UInt8) :
    verifySignatureRecovery EccBackend.native (hex (unitSignature v)) zeroCandidate
        ("0x".toList ++ hex unitAddress) =
      some ("zero".toList, 27, "0x3344c6f6eeCA588be132142DB0a32C71ABFAAe7B".toList) := by
  obtain ⟨hlen, hr, hs⟩ := fields_of_lower_eq_hex (by rw [dropPrefix0x_hex, lower_hex])
    (by simp [unitSignature] : (unitSignature v).length = 65)
  exact verifySignatureRecovery_of_unit_fields hlen (hr.trans rfl) (hs.trans rfl)

/-- **The function is the specified search.**  On a signature whose text after an optional `0x`
is 130 hexadecimal digits in any letter case, the digits of 65 bytes `S`, and an expected address
written `0x` and the digits of `A` in any letter case, `verify_signature_recovery` returns the first
pair of a candidate and a parity, candidates outer, whose recovery from `r = S[0:32]` and
`s = S[32:64]` gives a key with address bytes `A`, as `(name, 27 + p, checksum address)`; `None`
when there is none.  Any signature text of another length gives `None`. -/
theorem verifySignatureRecovery_eq_firstMatch (be : EccBackend) {sig expected : List Char}
    {S A : List UInt8} (hS : lower (dropPrefix0x sig) = hex S) (hlen : S.length = 65)
    (hA : lower expected = "0x".toList ++ hex A) (candidates : List (List Char × List UInt8)) :
    verifySignatureRecovery be sig candidates expected =
      firstMatch be (bigEndianToInt (S.take 32) : Nat) (bigEndianToInt ((S.drop 32).take 32) : Nat)
        candidates A ∧
    ∀ sig', (dropPrefix0x sig').length ≠ 130 →
      verifySignatureRecovery be sig' candidates expected = none := by
  refine ⟨?_, fun sig' h => verifySignatureRecovery_of_length_ne h candidates⟩
  obtain ⟨h130, hr, hs⟩ := fields_of_lower_eq_hex hS hlen
  rw [verifySignatureRecovery_of_length_eq h130]
  exact tryCandidates_eq_firstMatch hr hs hA candidates

theorem verifySignatureRecovery_eq_firstMatch_unit :
    lower (dropPrefix0x (hex (unitSignature 0x1b))) = hex (unitSignature 0x1b) ∧
      (unitSignature 0x1b).length = 65 ∧
      lower ("0x".toList ++ hex unitAddress) = "0x".toList ++ hex unitAddress ∧
      verifySignatureRecovery EccBackend.native (hex (unitSignature 0x1b)) zeroCandidate
          ("0x".toList ++ hex unitAddress) =
        firstMatch EccBackend.native 1 1 zeroCandidate unitAddress :=
  have h1 : lower (dropPrefix0x (hex (unitSignature 0x1b))) = hex (unitSignature 0x1b) := by
    rw [dropPrefix0x_hex, lower_hex]
  have h3 : lower ("0x".toList ++ hex unitAddress) = "0x".toList ++ hex unitAddress := by
    rw [lower_append, lower_hex]
    rfl
  ⟨h1, rfl, h3, (verifySignatureRecovery_eq_firstMatch EccBackend.native h1 rfl h3 zeroCandidate).1⟩

/-- The result reads the signature only through its lower-cased digits and the address only
through its lower-cased text. -/
theorem verifySignatureRecovery_congr {be : EccBackend} {sig sig' e e' : List Char}
    (hs : lower (dropPrefix0x sig) = lower (dropPrefix0x sig')) (he : lower e = lower e')
    (candidates : List (List Char × List UInt8)) :
    verifySignatureRecovery be sig candidates e = verifySignatureRecovery be sig' candidates e' := by
  have hlen : (dropPrefix0x sig).length = (dropPrefix0x sig').length := by
    rw [← length_lower, hs, length_lower]
  by_cases h : (dropPrefix0x sig).length = 130
  · rw [verifySignatureRecovery_of_length_eq h, verifySignatureRecovery_of_length_eq (hlen ▸ h)]
    refine tryCandidates_congr (tryVInt_congr ?_ ?_ he) candidates
    · rw [← intBase16_lower, lower_take, hs, ← lower_take, intBase16_lower]
    · rw [← intBase16_lower, lower_take, lower_drop, hs, ← lower_drop, ← lower_take, intBase16_lower]
  · rw [verifySignatureRecovery_of_length_ne h, verifySignatureRecovery_of_length_ne (hlen ▸ h)]

/-- Against an address written without `0x`, nothing matches. -/
theorem verifySignatureRecovery_bare {be : EccBackend} {e : List Char} {A : List UInt8}
    (hA : lower e = hex A) (sig : List Char) (candidates : List (List Char × List UInt8)) :
    verifySignatureRecovery be sig candidates e = none := by
  by_cases h : (dropPrefix0x sig).length = 130
  · rw [verifySignatureRecovery_of_length_eq h]
    exact tryCandidates_eq_none (tryVInt_bare hA) candidates
  · exact verifySignatureRecovery_of_length_ne h candidates

/-- A trial that recovers a key with the expected address makes the candidate loop report a
match. -/
theorem tryCandidates_ne_none_of_recover {be : EccBackend} {rHex sHex e : List Char} {r s : Int}
    {candidates : List (List Char × List UInt8)} {name : List Char} {d : List UInt8} {p : Nat}
    {key : PublicKey} (hr : intBase16 rHex = some r) (hs : intBase16 sHex = some s)
    (hd : (name, d) ∈ candidates) (hp : p ≤ 1) (hkey : recoverWith be r s d p = some key)
    (heq : lower key.toChecksumAddress = lower e) : tryCandidates be rHex sHex e candidates ≠ none := by
  have hv : p + 27 ∈ [27, 28] := by
    rcases Nat.le_one_iff_eq_zero_or_eq_one.mp hp with rfl | rfl <;> simp
  refine tryCandidates_ne_none hd hv ?_
  rw [tryVInt_eq hr hs, Nat.add_sub_cancel, hkey, Option.some_bind, if_pos heq]
  exact Option.some_ne_none _

/-- **Only the bytes of the signature matter, and the address needs its `0x`.**  Every text form of
the same signature bytes (digits in any letter case, with or without `0x`) gives the same result, and
so does every way of writing the expected address as `0x` and its digits in any letter case.  With
such an address, a candidate and a parity whose recovered key has the address bytes `A` make the
function report a match.  The address written as its digits alone never matches: the result is then
`None`, whatever the signature and the candidates. -/
theorem verifySignatureRecovery_forms (be : EccBackend)
    (candidates : List (List Char × List UInt8)) (S A : List UInt8) :
    (∀ sig sig' e e', IsHexForm S sig → IsHexForm S sig' →
      lower e = "0x".toList ++ hex A → lower e' = "0x".toList ++ hex A →
        verifySignatureRecovery be sig candidates e = verifySignatureRecovery be sig' candidates e') ∧
    (∀ sig e name digest p key, S.length = 65 → IsHexForm S sig → lower e = "0x".toList ++ hex A →
      (name, digest) ∈ candidates → p ≤ 1 →
      recoverWith be (bigEndianToInt (S.take 32) : Nat) (bigEndianToInt ((S.drop 32).take 32) : Nat)
        digest p = some key →
      key.toCanonicalAddress = A → verifySignatureRecovery be sig candidates e ≠ none) ∧
    ∀ sig e, lower e = hex A → verifySignatureRecovery be sig candidates e = none := by
  refine ⟨fun _ _ _ _ hs hs' he he' => verifySignatureRecovery_congr
      ((isHexForm_iff.mp hs).trans (isHexForm_iff.mp hs').symm) (he.trans he'.symm) candidates,
    fun sig e name d p key hlen hS hA hd hp hkey haddr => ?_,
    fun sig _ he => verifySignatureRecovery_bare he sig candidates⟩
  obtain ⟨h130, hr, hs⟩ := fields_of_lower_eq_hex (isHexForm_iff.mp hS) hlen
  rw [verifySignatureRecovery_of_length_eq h130]
  exact tryCandidates_ne_none_of_recover hr hs hd hp hkey ((lower_checksum_eq_iff hA key).mpr haddr)

theorem verifySignatureRecovery_forms_unit :
    lower (hex unitAddress) = hex unitAddress ∧
      verifySignatureRecovery EccBackend.native (hex (unitSignature 0x1b)) zeroCandidate
        (hex unitAddress) = none ∧
      verifySignatureRecovery EccBackend.native (hex (unitSignature 0x1b)) zeroCandidate
        ("0x".toList ++ hex unitAddress) ≠ none :=
  have hforms := verifySignatureRecovery_forms EccBackend.native zeroCandidate (unitSignature 0x1b)
    unitAddress
  ⟨lower_hex _, hforms.2.2 _ _ (lower_hex _),
    hforms.2.1 _ _ _ _ 0 unitKey (by simp [unitSignature]) (isHexForm_iff.mpr (by
      rw [dropPrefix0x_hex, lower_hex])) (by rw [lower_append, lower_hex]; rfl)
      (List.mem_singleton_self _) (Nat.zero_le 1) recoverWith_unit toCanonicalAddress_unitKey⟩

/-- With the address written `0x…` the signature `r = s = 1`, `v = 0x1b` matches the zero digest at
`v = 27`; with the same address written without `0x` it matches nothing. -/
theorem verifySignatureRecovery_unprefixed_unit :
    verifySignatureRecovery EccBackend.native (hex (unitSignature 0x1b)) zeroCandidate
        ("0x".toList ++ hex unitAddress) =
      some ("zero".toList, 27, "0x3344c6f6eeCA588be132142DB0a32C71ABFAAe7B".toList) ∧
    verifySignatureRecovery EccBackend.native (hex (unitSignature 0x1b)) zeroCandidate
      (hex unitAddress) = none :=
  ⟨verifySignatureRecovery_unit 0x1b, verifySignatureRecovery_bare (lower_hex _) _ _⟩

theorem tryVInts_eq_some {trial : Nat → Option (List Char)} {vInts : List Nat} {vInt : Nat}
    {a : List Char} (h : tryVInts trial vInts = some (vInt, a)) : vInt ∈ vInts ∧ trial vInt = some a := by
  induction vInts with
  | nil => cases h
  | cons v vInts ih =>
    simp only [tryVInts] at h
    split at h
    · next a' ha => cases h; exact ⟨List.mem_cons_self _ _, ha⟩
    · exact ⟨List.mem_cons_of_mem _ (ih h).1, (ih h).2⟩

theorem tryCandidates_eq_some {be : EccBackend} {rHex sHex e : List Char}
    {candidates : List (List Char × List UInt8)} {name : List Char} {vInt : Nat} {a : List Char}
    (h : tryCandidates be rHex sHex e candidates = some (name, vInt, a)) :
    ∃ d, (name, d) ∈ candidates ∧ vInt ∈ [27, 28] ∧ tryVInt be rHex sHex d e vInt = some a := by
  induction candidates with
  | nil => cases h
  | cons c candidates ih =>
    obtain ⟨name', d⟩ := c
    simp only [tryCandidates] at h
    split at h
    · next v a' hv =>
      cases h
      exact ⟨d, List.mem_cons_self _ _, tryVInts_eq_some hv⟩
    · obtain ⟨d', hd', hv⟩ := ih h
      exact ⟨d', List.mem_cons_of_mem _ hd', hv⟩

theorem tryVInt_eq_some {be : EccBackend} {rHex sHex e : List Char} {d : List UInt8} {vInt : Nat}
    {a : List Char} (h : tryVInt be rHex sHex d e vInt = some a) :
    ∃ r s key, intBase16 rHex = some r ∧ intBase16 sHex = some s ∧
      recoverWith be r s d (vInt - 27) = some key ∧ a = key.toChecksumAddress ∧ lower a = lower e := by
  simp only [tryVInt, Option.bind_eq_bind, Option.bind_eq_some] at h
  obtain ⟨r, hr, s, hs, sig, hsig, key, hkey, hmatch⟩ := h
  split_ifs at hmatch with heq
  cases hmatch
  exact ⟨r, s, key, hr, hs, by simp [recoverWith, hsig, hkey], rfl, heq⟩

/-- **Every reported match is genuine.**  Whatever the texts, a result `(name, v, addr)` names a
candidate, `v` is `27` or `28`, the two fields of the signature read as `r` and `s`, eth_keys
recovers from them, parity `v - 27` and the candidate's digest a key whose checksum address is
`addr`, and `addr` equals the expected address up to letter case. -/
theorem verifySignatureRecovery_sound {be : EccBackend} {sig e : List Char}
    {candidates : List (List Char × List UInt8)} {name : List Char} {vInt : Nat} {addr : List Char}
    (h : verifySignatureRecovery be sig candidates e = some (name, vInt, addr)) :
    (vInt = 27 ∨ vInt = 28) ∧ ∃ digest r s key, (name, digest) ∈ candidates ∧
      intBase16 ((dropPrefix0x sig).take 64) = some r ∧
      intBase16 (((dropPrefix0x sig).drop 64).take 64) = some s ∧
      recoverWith be r s digest (vInt - 27) = some key ∧ addr = key.toChecksumAddress ∧
      lower addr = lower e := by
  by_cases hlen : (dropPrefix0x sig).length = 130
  · rw [verifySignatureRecovery_of_length_eq hlen] at h
    obtain ⟨d, hd, hv, htry⟩ := tryCandidates_eq_some h
    obtain ⟨r, s, key, hr, hs, hkey, rfl, heq⟩ := tryVInt_eq_some htry
    exact ⟨by simpa using hv, d, r, s, key, hd, hr, hs, hkey, rfl, heq⟩
  · rw [verifySignatureRecovery_of_length_ne hlen] at h
    cases h

theorem verifySignatureRecovery_sound_unit :
    verifySignatureRecovery EccBackend.native (hex (unitSignature 0x1b)) zeroCandidate
        ("0x".toList ++ hex unitAddress) =
      some ("zero".toList, 27, "0x3344c6f6eeCA588be132142DB0a32C71ABFAAe7B".toList) ∧
    ((27 = 27 ∨ 27 = 28) ∧ ∃ digest r s key, ("zero".toList, digest) ∈ zeroCandidate ∧
      intBase16 ((dropPrefix0x (hex (unitSignature 0x1b))).take 64) = some r ∧
      intBase16 (((dropPrefix0x (hex (unitSignature 0x1b))).drop 64).take 64) = some s ∧
      recoverWith EccBackend.native r s digest (27 - 27) = some key ∧
      "0x3344c6f6eeCA588be132142DB0a32C71ABFAAe7B".toList = key.toChecksumAddress ∧
      lower "0x3344c6f6eeCA588be132142DB0a32C71ABFAAe7B".toList =
        lower ("0x".toList ++ hex unitAddress)) :=
  ⟨verifySignatureRecovery_unit 0x1b, verifySignatureRecovery_sound (verifySignatureRecovery_unit 0x1b)⟩

/-! ### Completeness -/

/-- **A match is reported exactly when there is one.**  `verify_signature_recovery` reports a match
if and only if the signature text after an optional `0x` has 130 characters whose two fields
`int(…, 16)` reads as `r` and `s`, and eth_keys recovers from `r`, `s`, a parity `p ∈ {0, 1}` and
some candidate's digest a key whose checksum address equals the expected address up to letter
case. -/
theorem verifySignatureRecovery_ne_none_iff (be : EccBackend) (sig e : List Char)
    (candidates : List (List Char × List UInt8)) :
    verifySignatureRecovery be sig candidates e ≠ none ↔
      (dropPrefix0x sig).length = 130 ∧ ∃ name digest r s p key, (name, digest) ∈ candidates ∧
        p ≤ 1 ∧ intBase16 ((dropPrefix0x sig).take 64) = some r ∧
        intBase16 (((dropPrefix0x sig).drop 64).take 64) = some s ∧
        recoverWith be r s digest p = some key ∧ lower key.toChecksumAddress = lower e := by
  constructor
  · intro h
    by_cases hlen : (dropPrefix0x sig).length = 130
    · rw [verifySignatureRecovery_of_length_eq hlen] at h
      obtain ⟨⟨name, vInt, a⟩, hx⟩ := Option.ne_none_iff_exists'.mp h
      obtain ⟨d, hd, hv, htry⟩ := tryCandidates_eq_some hx
      obtain ⟨r, s, key, hr, hs, hkey, rfl, heq⟩ := tryVInt_eq_some htry
      have hv' : vInt - 27 ≤ 1 := by
        have : vInt = 27 ∨ vInt = 28 := by simpa using hv
        omega
      exact ⟨hlen, name, d, r, s, vInt - 27, key, hd, hv', hr, hs, hkey, heq⟩
    · exact absurd (verifySignatureRecovery_of_length_ne hlen candidates) h
  · rintro ⟨hlen, name, d, r, s, p, key, hd, hp, hr, hs, hkey, heq⟩
    rw [verifySignatureRecovery_of_length_eq hlen]
    exact tryCandidates_ne_none_of_recover hr hs hd hp hkey heq

/-- The candidate loop over `C ++ D` is the loop over `C`, then, if nothing matched, over `D`. -/
theorem tryCandidates_append {be : EccBackend} {rHex sHex e : List Char}
    (C D : List (List Char × List UInt8)) :
    tryCandidates be rHex sHex e (C ++ D) =
      (tryCandidates be rHex sHex e C).or (tryCandidates be rHex sHex e D) := by
  induction C with
  | nil => rfl
  | cons c C ih =>
    obtain ⟨name, d⟩ := c
    simp only [List.cons_append, tryCandidates]
    split
    · rfl
    · exact ih

/-- **Splitting the candidates.**  Running `verify_signature_recovery` on the items of `C` followed
by those of `D` gives the result on `C`, and the result on `D` only when `C` has no match: the
search over a dictionary can be run in parts, in order. -/
theorem verifySignatureRecovery_append (be : EccBackend) (sig e : List Char)
    (C D : List (List Char × List UInt8)) :
    verifySignatureRecovery be sig (C ++ D) e =
      (verifySignatureRecovery be sig C e).or (verifySignatureRecovery be sig D e) := by
  by_cases hlen : (dropPrefix0x sig).length = 130
  · simp only [verifySignatureRecovery_of_length_eq hlen, tryCandidates_append]
  · simp only [verifySignatureRecovery_of_length_ne hlen, Option.or]

end TangemKeys
