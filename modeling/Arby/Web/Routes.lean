import Arby.Kit.Regex
import Arby.Trading.SpotKey
import Arby.Web.EntityDetailApp

/-! The routes of the two pages: which targets they match, and what they capture. -/

namespace Arby.Web

open Kit Regex Trading

/-- Characters are compared without regard to case. -/
def icase (c x : Char) : Bool := x.toLower = c.toLower

def text (s : String) : Regex := .word icase s.toList

/-- `[0123456789abcdef]`. -/
def hexDigit (c : Char) : Bool := "0123456789abcdef".toList.any fun d => icase d c

/-- `.`. -/
def anyCharacter (c : Char) : Bool := c ≠ '\n' && c ≠ '\r'

/-- `^/entities/?$`. -/
def summaryRoute : Regex :=
  .seq .start (.seq (text "/entities") (.seq (.opt (text "/")) .finish))

/-- `^/entities/([0123456789abcdef]{40})(?:.([0-9]+))?/?$`. -/
def detailRoute : Regex :=
  .seq .start (.seq (text "/entities/") (.seq (.group 1 (.rep (.atom hexDigit) 40))
    (.seq (.opt (.seq (.atom anyCharacter) (.group 2 (.plus (.atom Char.isDigit)))))
      (.seq (.opt (text "/")) .finish))))

/-- The end of a target: a slash or nothing. -/
def Slash (w : List Char) : Prop := w = [] ∨ w = ['/']

/-- A target of the summary. -/
structure SummaryTarget where
  word : List Char
  slash : List Char
  word_eq : word.map Char.toLower = "/entities".toList
  slash_eq : Slash slash

def SummaryTarget.text (t : SummaryTarget) : List Char := t.word ++ t.slash

/-- The number of an entity in its target, after a character of any kind. -/
structure NumberSuffix where
  separator : Char
  number : List Char
  separator_ok : anyCharacter separator = true
  number_ne : number ≠ []
  number_digits : ∀ c ∈ number, c.isDigit = true

def NumberSuffix.text (s : NumberSuffix) : List Char := s.separator :: s.number

/-- A target of a detail page. -/
structure DetailTarget where
  word : List Char
  digest : List Char
  suffix : Option NumberSuffix
  slash : List Char
  word_eq : word.map Char.toLower = "/entities/".toList
  digest_length : digest.length = 40
  digest_digits : ∀ c ∈ digest, isHexDigit c = true
  slash_eq : Slash slash

namespace DetailTarget

def text (t : DetailTarget) : List Char :=
  t.word ++ (t.digest ++ (t.suffix.elim [] NumberSuffix.text ++ t.slash))

def captures (t : DetailTarget) : ℕ → Option (List Char)
  | 1 => some t.digest
  | 2 => t.suffix.map NumberSuffix.number
  | _ => none

end DetailTarget

/-! ### The parts of the routes -/

theorem isHexDigit_toLower (c : Char) : isHexDigit c.toLower = isHexDigit c := by
  cases hUpper : c.isUpper with
  | false => rw [Char.toLower_eq_of_not_isUpper (by simp [hUpper])]
  | true =>
    have hAll : ∀ n : Fin 128, isHexDigit (Char.ofNat n).toLower = isHexDigit (Char.ofNat n) := by
      decide +kernel
    have hLt : c.toNat < 128 := by
      simp only [Char.isUpper, decide_eq_true_eq, UInt32.le_iff_toNat_le] at hUpper
      have hZ : 'Z'.val.toNat = 90 := rfl
      show c.val.toNat < 128
      omega
    have hSame := hAll ⟨c.toNat, hLt⟩
    rwa [Char.ofNat_toNat] at hSame

theorem hexDigit_eq (c : Char) : hexDigit c = isHexDigit c := by
  cases hDigit : isHexDigit c with
  | true =>
    refine forall_hexDigit (p := fun c => hexDigit c = true) ?_ hDigit
    decide +kernel
  | false =>
    refine Bool.eq_false_iff.mpr fun hSome => ?_
    obtain ⟨d, hd, hLetter⟩ := List.any_eq_true.mp hSome
    have hAll : "0123456789abcdef".toList.all (fun d => isHexDigit d.toLower) = true := by
      decide +kernel
    rw [← isHexDigit_toLower, of_decide_eq_true hLetter, List.all_eq_true.mp hAll d hd] at hDigit
    cases hDigit

theorem mem_spellings {cs w : List Char} :
    w ∈ spellings icase cs ↔ w.map Char.toLower = cs.map Char.toLower := by
  change List.Forall₂ (fun c x => decide (x.toLower = c.toLower) = true) cs w ↔ _
  simp only [decide_eq_true_eq]
  induction cs generalizing w with
  | nil => simp
  | cons c cs ih => cases w <;> simp [ih]

theorem mem_slash {w : List Char} : w ∈ spellings icase "/".toList + 1 ↔ Slash w := by
  have hSlash : w.map Char.toLower = ['/'] ↔ w = ['/'] := by
    cases w with
    | nil => simp
    | cons c w => simp [toLower_eq_iff (show '/'.isAlpha = false by decide)]
  rw [Language.mem_add, Language.mem_one, mem_spellings, or_comm]
  exact or_congr_right hSlash

theorem reads_text (s : String) : Reads (Web.text s) (spellings icase s.toList) := reads_word _ _

theorem reads_slash : Reads (.opt (Web.text "/")) {w | Slash w} := by
  have hReads := (reads_text "/").opt
  rwa [show spellings icase "/".toList + 1 = {w | Slash w} from Set.ext fun _ => mem_slash] at hReads

theorem reads_digest :
    Reads (.rep (.atom hexDigit) 40) {w | w.length = 40 ∧ ∀ c ∈ w, isHexDigit c = true} := by
  have hReads := (reads_atom hexDigit).rep 40
  have hDigits : (letters hexDigit ^ 40 : Language Char) =
      {w | w.length = 40 ∧ ∀ c ∈ w, isHexDigit c = true} :=
    Set.ext fun w => by
      change w ∈ letters hexDigit ^ 40 ↔ _
      simp only [mem_letters_pow, hexDigit_eq]
      rfl
  rwa [hDigits] at hReads

theorem reads_number :
    Reads (.plus (.atom Char.isDigit)) {w | w ≠ [] ∧ ∀ c ∈ w, c.isDigit = true} := by
  have hReads := (reads_atom Char.isDigit).plus
  rwa [show letters Char.isDigit * KStar.kstar (letters Char.isDigit) =
    {w | w ≠ [] ∧ ∀ c ∈ w, c.isDigit = true} from Set.ext fun _ => mem_letters_plus] at hReads

variable {t read rest : List Char} {st st' : State} {captures : ℕ → Option (List Char)}

/-- What `?` takes of a number after the digest, and its capture. -/
theorem matches_suffix :
    (Regex.opt (.seq (.atom anyCharacter) (.group 2 (.plus (.atom Char.isDigit))))).Matches
        ⟨read, rest, captures⟩ st' ↔
      ∃ (suffix : Option NumberSuffix) (rest' : List Char),
        rest = suffix.elim [] NumberSuffix.text ++ rest' ∧
        st' = ⟨read ++ suffix.elim [] NumberSuffix.text, rest', suffix.elim captures fun s =>
          Function.update captures 2 (some s.number)⟩ := by
  constructor
  · rintro (⟨st₁, ⟨c, rest₁, rfl, hc, rfl⟩, hNumber⟩ | rfl)
    · obtain ⟨w, rest', rfl, ⟨hNe, hDigits⟩, rfl⟩ := reads_number.group_iff.mp hNumber
      refine ⟨some ⟨c, w, hc, hNe, hDigits⟩, rest', rfl, ?_⟩
      simp [NumberSuffix.text]
    · exact ⟨none, rest, rfl, by simp⟩
  · rintro ⟨suffix, rest', rfl, rfl⟩
    cases suffix with
    | none => exact .inr (by simp [matches_empty])
    | some s =>
      refine .inl ⟨_, ⟨s.separator, s.number ++ rest', rfl, s.separator_ok, rfl⟩,
        reads_number.group_iff.mpr ⟨s.number, rest', rfl, ⟨s.number_ne, s.number_digits⟩, ?_⟩⟩
      simp [NumberSuffix.text]

/-! ### The routes -/

theorem matches_summaryRoute :
    summaryRoute.Matches { read := [], rest := t } st ∧ st.rest = [] ↔
      (∃ target : SummaryTarget, target.text = t) ∧ st = { read := t, rest := [] } := by
  constructor
  · rintro ⟨⟨st₁, ⟨-, rfl⟩, st₂, hWord, st₃, hEnd, -, rfl⟩, hRest⟩
    obtain ⟨w, rest, rfl, hw, rfl⟩ := (reads_text _).matches_iff.mp hWord
    obtain ⟨slash, rest', rfl, hSlash, rfl⟩ := reads_slash.matches_iff.mp hEnd
    obtain rfl : rest' = [] := hRest
    refine ⟨⟨⟨w, slash, mem_spellings.mp hw, hSlash⟩, ?_⟩, ?_⟩
    · simp [SummaryTarget.text]
    · simp
  · rintro ⟨⟨target, rfl⟩, rfl⟩
    refine ⟨⟨_, ⟨rfl, rfl⟩, _, (reads_text _).matches_iff.mpr ⟨target.word, target.slash, rfl, ?_, rfl⟩,
      _, reads_slash.matches_iff.mpr ⟨target.slash, [], ?_, target.slash_eq, rfl⟩, rfl, rfl⟩, rfl⟩
    · exact mem_spellings.mpr target.word_eq
    · simp

theorem DetailTarget.captures_eq (target : DetailTarget) :
    (target.suffix.elim (Function.update (fun _ => none) 1 (some target.digest)) fun s =>
      Function.update (Function.update (fun _ => none) 1 (some target.digest)) 2 (some s.number)) =
    target.captures := by
  funext i
  unfold captures
  match i with
  | 0 | 1 | 2 => cases target.suffix <;> rfl
  | n + 3 => cases target.suffix <;> simp [Function.update]

theorem matches_detailRoute :
    detailRoute.Matches { read := [], rest := t } st ∧ st.rest = [] ↔
      ∃ target : DetailTarget, target.text = t ∧
        st = { read := t, rest := [], captures := target.captures } := by
  constructor
  · rintro ⟨⟨st₁, ⟨-, rfl⟩, st₂, hWord, st₃, hDigest, st₄, hSuffix, st₅, hEnd, -, rfl⟩, hRest⟩
    obtain ⟨w, rest, rfl, hw, rfl⟩ := (reads_text _).matches_iff.mp hWord
    obtain ⟨digest, rest, rfl, ⟨hLength, hDigits⟩, rfl⟩ := reads_digest.group_iff.mp hDigest
    rw [matches_suffix] at hSuffix
    obtain ⟨suffix, rest, rfl, rfl⟩ := hSuffix
    obtain ⟨slash, rest, rfl, hSlash, rfl⟩ := reads_slash.matches_iff.mp hEnd
    obtain rfl : rest = [] := hRest
    let target : DetailTarget :=
      ⟨w, digest, suffix, slash, mem_spellings.mp hw, hLength, hDigits, hSlash⟩
    refine ⟨target, ?_, ?_⟩
    · simp [DetailTarget.text, target]
    · rw [← target.captures_eq]
      simp [target]
  · rintro ⟨target, rfl, rfl⟩
    refine ⟨⟨_, ⟨rfl, rfl⟩, _, (reads_text _).matches_iff.mpr ⟨target.word, _, rfl, ?_, rfl⟩,
      _, reads_digest.group_iff.mpr
        ⟨target.digest, _, rfl, ⟨target.digest_length, target.digest_digits⟩, rfl⟩,
      _, matches_suffix.mpr ⟨target.suffix, target.slash, rfl, rfl⟩,
      _, reads_slash.matches_iff.mpr ⟨target.slash, [], ?_, target.slash_eq, rfl⟩, rfl, ?_⟩, rfl⟩
    · exact mem_spellings.mpr target.word_eq
    · simp
    · rw [← target.captures_eq]
      simp [DetailTarget.text]

/-- A target is read in one way only: the digits of a number end at a slash or at the end. -/
theorem DetailTarget.captures_unique {target target' : DetailTarget}
    (h : target.text = target'.text) : target.captures = target'.captures := by
  have hWords : ∀ t : DetailTarget, t.word.length = 10 := fun t => by
    rw [← List.length_map, t.word_eq]
    rfl
  obtain ⟨-, hRest⟩ := List.append_inj h ((hWords target).trans (hWords target').symm)
  obtain ⟨hDigest, hEnd⟩ :=
    List.append_inj hRest (target.digest_length.trans target'.digest_length.symm)
  have hShort : ∀ {w : List Char}, Slash w → w.length ≤ 1 := by
    rintro w (rfl | rfl) <;> simp
  have hLong : ∀ s : NumberSuffix, 1 < s.text.length := fun s => by
    have := List.length_pos_of_ne_nil s.number_ne
    rw [NumberSuffix.text, List.length_cons]
    omega
  have hNumber : ∀ (s : NumberSuffix) {w : List Char}, Slash w →
      (s.number ++ w).takeWhile Char.isDigit = s.number := by
    rintro s w (rfl | rfl)
    · rw [List.takeWhile_append_of_pos s.number_digits, List.takeWhile_nil, List.append_nil]
    · rw [List.takeWhile_append_of_pos s.number_digits]
      simp
  have hSuffix : target.suffix.map NumberSuffix.number = target'.suffix.map NumberSuffix.number := by
    have hLengths := congrArg List.length hEnd
    cases hFirst : target.suffix with
    | none =>
      cases hSecond : target'.suffix with
      | none => rfl
      | some s' =>
        have := hLong s'
        have := hShort target.slash_eq
        simp [hFirst, hSecond] at hLengths
        omega
    | some s =>
      cases hSecond : target'.suffix with
      | none =>
        have := hLong s
        have := hShort target'.slash_eq
        simp [hFirst, hSecond] at hLengths
        omega
      | some s' =>
        rw [hFirst, hSecond] at hEnd
        have hEnd : s.number ++ target.slash = s'.number ++ target'.slash := (List.cons.inj hEnd).2
        have hSame := congrArg (List.takeWhile Char.isDigit) hEnd
        rw [hNumber s target.slash_eq, hNumber s' target'.slash_eq] at hSame
        exact congrArg some hSame
  funext i
  unfold captures
  rw [hDigest, hSuffix]

theorem fullMatch_summaryRoute : summaryRoute.fullMatch t = some captures ↔
    (∃ target : SummaryTarget, target.text = t) ∧ captures = fun _ => none := by
  rw [fullMatch_eq_some fun _ => matches_summaryRoute]
  · constructor
    · rintro ⟨_, ⟨hTarget, rfl⟩, rfl⟩
      exact ⟨hTarget, rfl⟩
    · rintro ⟨hTarget, rfl⟩
      exact ⟨_, ⟨hTarget, rfl⟩, rfl⟩
  · rintro _ _ ⟨-, rfl⟩ ⟨-, rfl⟩
    rfl

theorem fullMatch_detailRoute : detailRoute.fullMatch t = some captures ↔
    ∃ target : DetailTarget, target.text = t ∧ target.captures = captures := by
  rw [fullMatch_eq_some fun _ => matches_detailRoute]
  · constructor
    · rintro ⟨_, ⟨target, hText, rfl⟩, rfl⟩
      exact ⟨target, hText, rfl⟩
    · rintro ⟨target, hText, rfl⟩
      exact ⟨_, ⟨target, hText, rfl⟩, rfl⟩
  · rintro _ _ ⟨target₁, hText₁, rfl⟩ ⟨target₂, hText₂, rfl⟩
    exact DetailTarget.captures_unique (hText₁.trans hText₂.symm)

/-- No target has both pages. -/
theorem SummaryTarget.text_ne (target : SummaryTarget) (target' : DetailTarget) :
    target.text ≠ target'.text := by
  intro hText
  have hLengths := congrArg List.length hText
  have hWord : target.word.length = 9 := by
    rw [← List.length_map, target.word_eq]
    rfl
  have hSlash : target.slash.length ≤ 1 := by
    rcases target.slash_eq with h | h <;> simp [h]
  have hDigest := target'.digest_length
  rw [SummaryTarget.text, DetailTarget.text] at hLengths
  simp only [List.length_append] at hLengths
  omega

end Arby.Web
