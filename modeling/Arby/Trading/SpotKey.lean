import Arby.Trading.MarketKey
import Mathlib

/-! Reading a spot market key from its text. A character of the text is a byte of the code's. -/

namespace Arby.Trading

def commonSeparator : Char → Bool
  | '/' | '-' | ' ' | '_' => true
  | _ => false

/-- The text of the exception that refuses `sv`. -/
def invalidInput (sv : String) : String := "trading::spot_key: invalid input [" ++ sv ++ "]"

/-- `spot_key_impl`. -/
def spotKeyImpl (sv : String) : Except String (Option SpotMarketKey) :=
  let base := sv.toList.takeWhile (fun x => !commonSeparator x)
  match sv.toList.dropWhile (fun x => !commonSeparator x) with
  | [] => .error (invalidInput sv)
  | _ :: term =>
    .ok (some { base := (String.ofList base).toLower, term := (String.ofList term).toLower })

/-- `spot_key`, which its four overloads all come to. -/
def spotKey (sv : String) : Except String SpotMarketKey :=
  match spotKeyImpl sv with
  | .ok (some o) => .ok o
  | .ok none => .error (invalidInput sv)
  | .error what => .error what

theorem commonSeparator_iff {c : Char} :
    commonSeparator c = true ↔ c = '/' ∨ c = '-' ∨ c = ' ' ∨ c = '_' := by
  unfold commonSeparator
  split <;> simp_all

/-- A character that is no letter is what it was before its case was changed. -/
theorem toLower_eq_iff {c d : Char} (hOther : d.isAlpha = false) : c.toLower = d ↔ c = d := by
  by_cases hUpper : c.isUpper
  · have hAlpha : c.isAlpha = true := by simp [Char.isAlpha, hUpper]
    refine iff_of_false ?_ ?_
    · rintro rfl
      rw [Char.isAlpha_toLower_eq_isAlpha, hAlpha] at hOther
      cases hOther
    · rintro rfl
      cases hAlpha.symm.trans hOther
  · rw [Char.toLower_eq_of_not_isUpper hUpper]

theorem toUpper_eq_iff {c d : Char} (hOther : d.isAlpha = false) : c.toUpper = d ↔ c = d := by
  by_cases hLower : c.isLower
  · have hAlpha : c.isAlpha = true := by simp [Char.isAlpha, hLower]
    refine iff_of_false ?_ ?_
    · rintro rfl
      rw [Char.isAlpha_toUpper_eq_isAlpha, hAlpha] at hOther
      cases hOther
    · rintro rfl
      cases hAlpha.symm.trans hOther
  · rw [Char.toUpper_eq_of_not_isLower hLower]

theorem commonSeparator_toLower (c : Char) : commonSeparator c.toLower = commonSeparator c := by
  rw [Bool.eq_iff_iff, commonSeparator_iff, commonSeparator_iff]
  repeat rw [toLower_eq_iff (by decide)]

theorem commonSeparator_toUpper (c : Char) : commonSeparator c.toUpper = commonSeparator c := by
  rw [Bool.eq_iff_iff, commonSeparator_iff, commonSeparator_iff]
  repeat rw [toUpper_eq_iff (by decide)]

/-- The text of a base, a separator and a term is read as that base and that term. -/
theorem spotKey_join {base term : List Char} {c : Char} (hSeparator : commonSeparator c = true)
    (hBase : ∀ x ∈ base, commonSeparator x = false) {s : String}
    (hText : s.toList = base ++ c :: term) :
    spotKey s =
      .ok { base := (String.ofList base).toLower, term := (String.ofList term).toLower } := by
  have hHead : base.takeWhile (fun x => !commonSeparator x) = base := by
    rw [List.takeWhile_eq_self_iff]
    intro x hx
    rw [hBase x hx]
    rfl
  have hTail : base.dropWhile (fun x => !commonSeparator x) = [] := by
    rw [List.dropWhile_eq_nil_iff]
    intro x hx
    rw [hBase x hx]
    rfl
  simp [spotKey, spotKeyImpl, hText, List.takeWhile_append, List.dropWhile_append, hHead, hTail,
    hSeparator]

/-- A text with no separator is refused, and any other is a base, a separator and a term. -/
theorem spotKey_cases (s : String) :
    ((∀ x ∈ s.toList, commonSeparator x = false) ∧ spotKey s = .error (invalidInput s)) ∨
    ∃ base c term, s.toList = base ++ c :: term ∧ commonSeparator c = true ∧
      ∀ x ∈ base, commonSeparator x = false := by
  cases hRest : s.toList.dropWhile (fun x => !commonSeparator x) with
  | nil =>
    left
    refine ⟨?_, by simp [spotKey, spotKeyImpl, hRest]⟩
    rw [List.dropWhile_eq_nil_iff] at hRest
    intro x hx
    simpa using hRest x hx
  | cons c term =>
    right
    refine ⟨s.toList.takeWhile (fun x => !commonSeparator x), c, term, ?_, ?_, ?_⟩
    · rw [← hRest, List.takeWhile_append_dropWhile]
    · have hFirst := List.head?_dropWhile_not (fun x => !commonSeparator x) s.toList
      rw [hRest] at hFirst
      simpa using hFirst
    · intro x hx
      simpa using List.mem_takeWhile_imp hx

/-- A text is read exactly when it has a separator. -/
theorem spotKey_isOk_iff (s : String) :
    (∃ key, spotKey s = .ok key) ↔ ∃ c ∈ s.toList, commonSeparator c = true := by
  rcases spotKey_cases s with ⟨hNone, hRefused⟩ | ⟨base, c, term, hText, hSeparator, hBase⟩
  · refine iff_of_false ?_ ?_
    · rintro ⟨key, hKey⟩
      cases hRefused.symm.trans hKey
    · rintro ⟨c, hMem, hSeparator⟩
      cases (hNone c hMem).symm.trans hSeparator
  · refine iff_of_true ⟨_, spotKey_join hSeparator hBase hText⟩ ⟨c, ?_, hSeparator⟩
    simp [hText]

theorem spotKey_eq_error {s : String} (hRefused : ¬ ∃ key, spotKey s = .ok key) :
    spotKey s = .error (invalidInput s) := by
  rcases spotKey_cases s with ⟨-, hError⟩ | ⟨base, c, term, hText, hSeparator, hBase⟩
  · exact hError
  · exact absurd ⟨_, spotKey_join hSeparator hBase hText⟩ hRefused

/-- Texts that are read as different keys differ. -/
theorem spotKey_text_ne {s₁ s₂ : String} {key₁ key₂ : SpotMarketKey} (h₁ : spotKey s₁ = .ok key₁)
    (h₂ : spotKey s₂ = .ok key₂) (hNe : key₁ ≠ key₂) : s₁ ≠ s₂ := by
  rintro rfl
  exact hNe (Except.ok.inj (h₁.symm.trans h₂))

end Arby.Trading
