import Mathlib.Data.List.Basic
import Mathlib.Data.Nat.Notation
import Mathlib.Order.Lattice

/-! Bytes as hexadecimal digits, two for each byte. Digits of either case are read, and those in lower
case are written. -/

namespace Kit

def isHexDigit (c : Char) : Bool :=
  c.isDigit || 'a' ≤ c && c ≤ 'f' || 'A' ≤ c && c ≤ 'F'

/-- The value of a digit. -/
def hexValue? (c : Char) : Option ℕ :=
  if c.isDigit then some (c.toNat - '0'.toNat)
  else if 'a' ≤ c && c ≤ 'f' then some (c.toNat - 'a'.toNat + 10)
  else if 'A' ≤ c && c ≤ 'F' then some (c.toNat - 'A'.toNat + 10)
  else none

/-- The two digits of each byte. -/
def hexEncode (bytes : List UInt8) : List Char :=
  bytes.flatMap fun byte => [Nat.digitChar (byte.toNat / 16), Nat.digitChar (byte.toNat % 16)]

/-- The bytes of pairs of digits. -/
def hexDecode : List Char → Option (List UInt8)
  | [] => some []
  | [_] => none
  | h :: l :: rest => do
    let high ← hexValue? h
    let low ← hexValue? l
    let bytes ← hexDecode rest
    return UInt8.ofNat (high * 16 + low) :: bytes

variable {c : Char} {cs : List Char} {bytes : List UInt8} {n : ℕ}

theorem hexValue?_digitChar (h : n < 16) : hexValue? (Nat.digitChar n) = some n := by
  have hAll : ∀ n : Fin 16, hexValue? (Nat.digitChar n) = some (n : ℕ) := by decide
  exact hAll ⟨n, h⟩

/-- What holds of every hexadecimal digit holds of all characters that are one. -/
theorem forall_hexDigit {p : Char → Prop} (h : ∀ n : Fin 128, isHexDigit (Char.ofNat n) = true →
    p (Char.ofNat n)) (hDigit : isHexDigit c = true) : p c := by
  have hLt : c.toNat < 128 := by
    simp only [isHexDigit, Char.isDigit, Bool.or_eq_true, Bool.and_eq_true, decide_eq_true_eq,
      Char.le_def, UInt32.le_iff_toNat_le] at hDigit
    show c.val.toNat < 128
    have hNine : '9'.val.toNat = 57 := rfl
    have hF : 'f'.val.toNat = 102 := rfl
    have hF' : 'F'.val.toNat = 70 := rfl
    omega
  have hChar : Char.ofNat c.toNat = c := Char.ofNat_toNat c
  exact hChar ▸ h ⟨c.toNat, hLt⟩ (hChar.symm ▸ hDigit)

theorem hexValue?_eq_none : hexValue? c = none ↔ isHexDigit c = false := by
  unfold hexValue? isHexDigit
  cases c.isDigit <;> cases decide ('a' ≤ c) <;> cases decide (c ≤ 'f') <;> simp

/-- A digit is written as it was, in lower case. -/
theorem digitChar_of_hexValue? (h : hexValue? c = some n) :
    n < 16 ∧ Nat.digitChar n = c.toLower := by
  have hDigit : isHexDigit c = true := by
    by_contra hNone
    rw [hexValue?_eq_none.mpr (Bool.eq_false_iff.mpr hNone)] at h
    cases h
  have hAll : ∀ c, isHexDigit c = true →
      ∀ n ∈ hexValue? c, n < 16 ∧ Nat.digitChar n = c.toLower := by
    intro c hDigit
    refine forall_hexDigit
      (p := fun c => ∀ n ∈ hexValue? c, n < 16 ∧ Nat.digitChar n = c.toLower) ?_
      hDigit
    decide +kernel
  exact hAll c hDigit n h

theorem hexDecode_cons_cons {h l : Char} (cs : List Char) : hexDecode (h :: l :: cs) = some bytes ↔
    ∃ high low rest, hexValue? h = some high ∧ hexValue? l = some low ∧ hexDecode cs = some rest ∧
      UInt8.ofNat (high * 16 + low) :: rest = bytes := by
  simp only [hexDecode, Option.bind_eq_bind, Option.bind_eq_some_iff, Option.pure_def,
    Option.some.injEq]
  constructor
  · rintro ⟨high, hHigh, low, hLow, rest, hRest, hBytes⟩
    exact ⟨high, low, rest, hHigh, hLow, hRest, hBytes⟩
  · rintro ⟨high, low, rest, hHigh, hLow, hRest, hBytes⟩
    exact ⟨high, hHigh, low, hLow, rest, hRest, hBytes⟩

/-- What is written is read back. -/
theorem hexDecode_hexEncode (bytes : List UInt8) : hexDecode (hexEncode bytes) = some bytes := by
  induction bytes with
  | nil => rfl
  | cons byte bytes ih =>
    have hByte : byte.toNat < 256 := byte.toNat_lt
    refine (hexDecode_cons_cons _).mpr ⟨_, _, bytes, hexValue?_digitChar (by omega),
      hexValue?_digitChar (by omega), ih, ?_⟩
    rw [Nat.div_add_mod', UInt8.ofNat_toNat]

/-- What is read is written as it was, in lower case. -/
theorem hexEncode_of_hexDecode (h : hexDecode cs = some bytes) :
    hexEncode bytes = cs.map Char.toLower := by
  induction cs using hexDecode.induct generalizing bytes with
  | case1 =>
    obtain rfl := Option.some.inj h
    rfl
  | case2 => cases h
  | case3 c c' cs ih =>
    obtain ⟨high, low, rest, hHigh, hLow, hRest, rfl⟩ := (hexDecode_cons_cons cs).mp h
    obtain ⟨hHighLt, hHighDigit⟩ := digitChar_of_hexValue? hHigh
    obtain ⟨hLowLt, hLowDigit⟩ := digitChar_of_hexValue? hLow
    have hByte : (UInt8.ofNat (high * 16 + low)).toNat = high * 16 + low := by
      rw [UInt8.toNat_ofNat']
      exact Nat.mod_eq_of_lt (by omega)
    have hSplit : (high * 16 + low) / 16 = high ∧ (high * 16 + low) % 16 = low := by omega
    rw [hexEncode, List.flatMap_cons, hByte, hSplit.1, hSplit.2, hHighDigit, hLowDigit, ← hexEncode,
      ih hRest]
    rfl

/-- Pairs of digits are what can be read. -/
theorem exists_hexDecode_iff {n : ℕ} (hLength : cs.length = 2 * n) :
    (∃ bytes, hexDecode cs = some bytes) ↔ ∀ c ∈ cs, isHexDigit c = true := by
  induction cs using hexDecode.induct generalizing n with
  | case1 => exact iff_of_true ⟨[], rfl⟩ nofun
  | case2 c =>
    rw [List.length_singleton] at hLength
    omega
  | case3 c c' cs ih =>
    have hRest : cs.length = 2 * (n - 1) := by
      rw [List.length_cons, List.length_cons] at hLength
      omega
    have hDigit : ∀ c : Char, (∃ n, hexValue? c = some n) ↔ isHexDigit c = true := by
      intro c
      rw [← Option.ne_none_iff_exists', ne_eq, hexValue?_eq_none, Bool.not_eq_false]
    rw [List.forall_mem_cons, List.forall_mem_cons, ← ih hRest, ← hDigit, ← hDigit]
    constructor
    · rintro ⟨bytes, hDecode⟩
      obtain ⟨high, low, rest, hHigh, hLow, hRest, -⟩ := (hexDecode_cons_cons cs).mp hDecode
      exact ⟨⟨high, hHigh⟩, ⟨low, hLow⟩, rest, hRest⟩
    · rintro ⟨⟨high, hHigh⟩, ⟨low, hLow⟩, rest, hRest⟩
      exact ⟨_, (hexDecode_cons_cons cs).mpr ⟨high, low, rest, hHigh, hLow, hRest, rfl⟩⟩

end Kit
