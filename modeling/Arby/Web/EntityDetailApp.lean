import Arby.Entity.EntityKey
import Arby.Kit.Hex
import Mathlib.Data.String.Basic

/-! The digest in the route of an entity. The page reads it from hexadecimal digits, as the key of the
entity wrote it. -/

namespace Arby.Web

open Kit Entity

/-- What ends a call that does not return: `std::invalid_argument`, or undefined behaviour. -/
inductive Fault
  | invalidArgument (what : String)
  | undefined
deriving DecidableEq

def toValue : Char → Except Fault ℕ
  | '0' => .ok 0
  | '1' => .ok 1
  | '2' => .ok 2
  | '3' => .ok 3
  | '4' => .ok 4
  | '5' => .ok 5
  | '6' => .ok 6
  | '7' => .ok 7
  | '8' => .ok 8
  | '9' => .ok 9
  | 'a' => .ok 10
  | 'b' => .ok 11
  | 'c' => .ok 12
  | 'd' => .ok 13
  | 'e' => .ok 14
  | 'f' => .ok 15
  | 'A' => .ok 10
  | 'B' => .ok 11
  | 'C' => .ok 12
  | 'D' => .ok 13
  | 'E' => .ok 14
  | 'F' => .ok 15
  | _ => .error (.invalidArgument "invalid hex digit")

/-- `*dest = byte`. -/
def store (result : Digest) (dest : ℕ) (byte : UInt8) : Except Fault Digest :=
  if h : dest < 20 then .ok (result.set dest byte h) else .error .undefined

/-- The loop of `to_sha1_digest`, with what is left of the text. The end of the text is compared
before the first of two characters only. -/
def readDigits : List Char → ℕ → Digest → Except Fault Digest
  | [], _, result => .ok result
  | [c], _, _ => do
    let _ ← toValue c
    .error .undefined
  | c :: c' :: first, dest, result => do
    let h ← toValue c
    let l ← toValue c'
    let result ← store result dest (UInt8.ofNat (h * 16 + l))
    readDigits first (dest + 1) result

/-- `to_sha1_digest`. The array has the values `result` before it is filled. -/
def toSha1Digest (result : Digest) (s : String) : Except Fault Digest :=
  if s.length ≠ 40 then .error (.invalidArgument "to_sha1_digest: invalid arg")
  else readDigits s.toList 0 result

theorem toValue_eq (c : Char) :
    toValue c = (hexValue? c).elim (.error (.invalidArgument "invalid hex digit")) .ok := by
  cases hDigit : isHexDigit c with
  | true =>
    refine forall_hexDigit (p := fun c => toValue c =
      (hexValue? c).elim (.error (.invalidArgument "invalid hex digit")) .ok) ?_ hDigit
    decide +kernel
  | false =>
    rw [hexValue?_eq_none.mpr hDigit]
    unfold toValue
    split <;> first | rfl | cases hDigit

theorem toList_stringify (digest : Digest) :
    (stringify digest).toList = hexEncode digest.toList := by
  have hByte : ∀ n : Fin 256, [toHex (UInt8.ofNat n >>> 4), toHex (UInt8.ofNat n &&& 0xf)] =
      [Nat.digitChar (n / 16), Nat.digitChar (n % 16)] := by
    decide +kernel
  rw [stringify, String.toList_ofList, hexEncode]
  congr 1
  funext byte
  have hLt : byte.toNat < 256 := byte.toNat_lt
  have hSame := hByte ⟨byte.toNat, hLt⟩
  rwa [UInt8.ofNat_toNat] at hSame

theorem take_set {α : Type} {xs : List α} {n : ℕ} (h : n < xs.length) (x : α) :
    (xs.set n x).take (n + 1) = xs.take n ++ [x] := by
  rw [List.take_add_one, List.take_set_of_le le_rfl, List.getElem?_set_self h]
  rfl

/-- A step of the loop on two digits. -/
theorem readDigits_step {c c' : Char} {h l dest : ℕ} (hHigh : hexValue? c = some h)
    (hLow : hexValue? c' = some l) (hRoom : dest < 20) (cs : List Char) (result : Digest) :
    readDigits (c :: c' :: cs) dest result =
      readDigits cs (dest + 1) (result.set dest (UInt8.ofNat (h * 16 + l)) hRoom) := by
  have hStore : store result dest (UInt8.ofNat (h * 16 + l)) =
      .ok (result.set dest (UInt8.ofNat (h * 16 + l)) hRoom) := dif_pos hRoom
  rw [readDigits, toValue_eq, toValue_eq, hHigh, hLow]
  show (store result dest (UInt8.ofNat (h * 16 + l)) >>= fun result =>
    readDigits cs (dest + 1) result) = _
  rw [hStore]
  rfl

/-- The loop fills the rest of the array with the bytes of the digits, or refuses them. -/
theorem readDigits_eq {cs : List Char} {dest : ℕ} (hLength : cs.length = 2 * (20 - dest))
    (hDest : dest ≤ 20) (result : Digest) :
    match hexDecode cs with
    | some bytes => ∃ result', readDigits cs dest result = .ok result' ∧
        result'.toList = result.toList.take dest ++ bytes
    | none => readDigits cs dest result = .error (.invalidArgument "invalid hex digit") := by
  induction cs using hexDecode.induct generalizing dest result with
  | case1 =>
    refine ⟨result, rfl, ?_⟩
    have hFull : result.toList.length ≤ dest := by
      rw [Vector.length_toList]
      rw [List.length_nil] at hLength
      omega
    rw [List.take_of_length_le hFull, List.append_nil]
  | case2 c =>
    rw [List.length_singleton] at hLength
    omega
  | case3 c c' cs ih =>
    rw [List.length_cons, List.length_cons] at hLength
    have hRoom : dest < 20 := by omega
    have hRest : cs.length = 2 * (20 - (dest + 1)) := by omega
    rw [hexDecode]
    cases hHigh : hexValue? c with
    | none =>
      show readDigits (c :: c' :: cs) dest result = _
      rw [readDigits, toValue_eq, hHigh]
      rfl
    | some h =>
      cases hLow : hexValue? c' with
      | none =>
        show readDigits (c :: c' :: cs) dest result = _
        rw [readDigits, toValue_eq, toValue_eq, hHigh, hLow]
        rfl
      | some l =>
        have hIh := ih hRest hRoom (result.set dest (UInt8.ofNat (h * 16 + l)) hRoom)
        rw [readDigits_step hHigh hLow hRoom]
        cases hDecode : hexDecode cs with
        | none =>
          rw [hDecode] at hIh
          exact hIh
        | some bytes =>
          rw [hDecode] at hIh
          obtain ⟨result', hLoop, hBytes⟩ := hIh
          refine ⟨result', hLoop, ?_⟩
          rw [hBytes, Vector.toList_set, take_set (by rwa [Vector.length_toList]), List.append_assoc]
          rfl

variable {s : String} {digest : Digest}

/-- What comes of a text of the right length. -/
theorem toSha1Digest_eq (result : Digest) (hLength : s.length = 40) :
    match hexDecode s.toList with
    | some bytes => ∃ digest, toSha1Digest result s = .ok digest ∧ digest.toList = bytes
    | none => toSha1Digest result s = .error (.invalidArgument "invalid hex digit") := by
  have hDigits : s.toList.length = 2 * (20 - 0) := by rwa [String.length_toList]
  have hLoop := readDigits_eq hDigits (Nat.zero_le 20) result
  rw [toSha1Digest, if_neg (not_not.mpr hLength)]
  exact hLoop

/-- A text is a digest exactly when it has 40 digits. -/
theorem toSha1Digest_ok_iff (result : Digest) (s : String) :
    (∃ digest, toSha1Digest result s = .ok digest) ↔
      s.length = 40 ∧ ∀ c ∈ s.toList, isHexDigit c = true := by
  by_cases hLength : s.length = 40
  · have hDigits : s.toList.length = 2 * 20 := by rwa [String.length_toList]
    have hRead := toSha1Digest_eq result hLength
    rw [and_iff_right hLength, ← exists_hexDecode_iff hDigits]
    cases hDecode : hexDecode s.toList with
    | none =>
      rw [hDecode] at hRead
      refine iff_of_false ?_ nofun
      rintro ⟨digest, hDigest⟩
      cases hRead.symm.trans hDigest
    | some bytes =>
      rw [hDecode] at hRead
      obtain ⟨digest, hDigest, -⟩ := hRead
      exact iff_of_true ⟨digest, hDigest⟩ ⟨bytes, rfl⟩
  · refine iff_of_false ?_ fun h => hLength h.1
    rintro ⟨digest, hDigest⟩
    rw [toSha1Digest, if_pos hLength] at hDigest
    cases hDigest

/-- Any other text is refused, and nothing is read past its end. -/
theorem toSha1Digest_throws (result : Digest) (s : String)
    (hRefused : ¬∃ digest, toSha1Digest result s = .ok digest) :
    toSha1Digest result s = .error (.invalidArgument
      (if s.length = 40 then "invalid hex digit" else "to_sha1_digest: invalid arg")) := by
  by_cases hLength : s.length = 40
  · have hRead := toSha1Digest_eq result hLength
    rw [if_pos hLength]
    cases hDecode : hexDecode s.toList with
    | none =>
      rw [hDecode] at hRead
      exact hRead
    | some bytes =>
      rw [hDecode] at hRead
      obtain ⟨digest, hDigest, -⟩ := hRead
      exact absurd ⟨digest, hDigest⟩ hRefused
  · rw [if_neg hLength, toSha1Digest, if_pos hLength]

/-- A digest that is read is written as its text, in lower case. -/
theorem stringify_toSha1Digest {result : Digest} (hRead : toSha1Digest result s = .ok digest) :
    stringify digest = s.toLower := by
  obtain ⟨hLength, -⟩ := (toSha1Digest_ok_iff result s).mp ⟨digest, hRead⟩
  have hBytes := toSha1Digest_eq result hLength
  cases hDecode : hexDecode s.toList with
  | none =>
    rw [hDecode] at hBytes
    cases hBytes.symm.trans hRead
  | some bytes =>
    rw [hDecode] at hBytes
    obtain ⟨digest', hRead', rfl⟩ := hBytes
    obtain rfl := Except.ok.inj (hRead'.symm.trans hRead)
    rw [← String.toList_inj, toList_stringify, hexEncode_of_hexDecode hDecode]
    exact String.toList_map.symm

/-- A digest that is written is read back. -/
theorem toSha1Digest_stringify (result digest : Digest) :
    toSha1Digest result (stringify digest) = .ok digest := by
  have hDecode : hexDecode (stringify digest).toList = some digest.toList := by
    rw [toList_stringify, hexDecode_hexEncode]
  have hLength : (stringify digest).length = 40 := by
    rw [← String.length_toList, toList_stringify, hexEncode, List.length_flatMap]
    simp
  have hRead := toSha1Digest_eq result hLength
  rw [hDecode] at hRead
  obtain ⟨digest', hDigest, hBytes⟩ := hRead
  rw [hDigest, Vector.toList_inj.mp hBytes]

/-- The two codecs are inverse to each other. -/
theorem digest_codec :
    (∀ result digest, toSha1Digest result (stringify digest) = .ok digest) ∧
    ∀ result s,
      ((∃ digest, toSha1Digest result s = .ok digest) ↔
        s.length = 40 ∧ ∀ c ∈ s.toList, isHexDigit c = true) ∧
      (∀ digest, toSha1Digest result s = .ok digest → stringify digest = s.toLower) ∧
      ((¬∃ digest, toSha1Digest result s = .ok digest) →
        ∃ what, toSha1Digest result s = .error (.invalidArgument what)) :=
  ⟨toSha1Digest_stringify, fun result s => ⟨toSha1Digest_ok_iff result s,
    fun _ => stringify_toSha1Digest, fun hRefused => ⟨_, toSha1Digest_throws result s hRefused⟩⟩⟩

end Arby.Web
