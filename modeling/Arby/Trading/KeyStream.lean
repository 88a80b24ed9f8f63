import Arby.Kit.InputStream
import Arby.PowerTrade.NativeSymbol

/-! Spot market keys on streams. A key is written as its text, and read from the next word of the
stream. -/

namespace Arby.Trading

open Kit
open PowerTrade (toList_toLower readable_of_spotKey)

namespace SpotMarketKey

/-- `operator<<`, on a stream that has written `os`. -/
def insert (os : String) (key : SpotMarketKey) : String := os ++ key.toString

/-- What `operator>>` leaves: the stream, the key that it reads into, and the exception that it
throws. -/
structure Extraction where
  stream : InputStream
  key : SpotMarketKey
  thrown : Option String := none
deriving DecidableEq

/-- `operator>>`, into `key`. -/
def extract (is : InputStream) (key : SpotMarketKey) : Extraction :=
  let (is, buffer) := is.readWord
  match spotKeyImpl buffer with
  | .ok (some o) => { stream := is, key := o }
  | .ok none => { stream := is.setFail, key }
  | .error what => { stream := is, key, thrown := some what }

/-- A key that is written is read back, whatever it is read into. -/
def RoundTrips (key : SpotMarketKey) : Prop :=
  ∀ target, (extract (.ofString (insert "" key)) target).thrown = none ∧
    (extract (.ofString (insert "" key)) target).stream.failbit = false ∧
    (extract (.ofString (insert "" key)) target).key = key

/-- The stream fails, and nothing else happens. -/
def Refuses (content : String) : Prop :=
  ∀ target, (extract (.ofString content) target).thrown = none ∧
    (extract (.ofString content) target).stream.failbit = true ∧
    (extract (.ofString content) target).key = target

variable {key target : SpotMarketKey} {is : InputStream} {s : String}

/-- A word that is a key is read as `spot_key` reads it. -/
theorem extract_of_key (hKey : spotKey is.readWord.2 = .ok key) :
    extract is target = { stream := is.readWord.1, key } := by
  unfold spotKey at hKey
  unfold extract
  dsimp only
  cases hImpl : spotKeyImpl is.readWord.2 with
  | error what =>
    rw [hImpl] at hKey
    cases hKey
  | ok o =>
    rw [hImpl] at hKey
    cases o with
    | none => cases hKey
    | some o =>
      cases hKey
      rfl

/-- A word that is none is refused by the exception of `spot_key`, past the test of `operator>>`. -/
theorem extract_of_error (hRefused : ¬∃ key, spotKey is.readWord.2 = .ok key) :
    extract is target = {
      stream := is.readWord.1
      key := target
      thrown := some (invalidInput is.readWord.2) } := by
  have hError := spotKey_eq_error hRefused
  unfold spotKey at hError
  unfold extract
  dsimp only
  cases hImpl : spotKeyImpl is.readWord.2 with
  | error what =>
    rw [hImpl] at hError
    cases hError
    rfl
  | ok o =>
    rw [hImpl] at hError
    cases o with
    | some o => cases hError
    | none =>
      -- the helper never answers with no key
      unfold spotKeyImpl at hImpl
      dsimp only at hImpl
      split at hImpl <;> cases hImpl

theorem refuses_iff (content : String) :
    ((¬∃ key, spotKey (InputStream.nextWord content) = .ok key) → Refuses content) ↔
      ∃ key, spotKey (InputStream.nextWord content) = .ok key := by
  refine ⟨fun h => ?_, fun h hRefused => absurd h hRefused⟩
  by_contra hRefused
  have hThrown := (h hRefused ⟨"", ""⟩).1
  rw [extract_of_error hRefused] at hThrown
  cases hThrown

/-! ### White space in keys -/

theorem isSpace_iff {c : Char} : isSpace c = true ↔
    c = ' ' ∨ c = '\t' ∨ c = '\n' ∨ c = '\x0b' ∨ c = '\x0c' ∨ c = '\r' := by
  unfold isSpace
  split <;> simp_all

theorem isSpace_toLower (c : Char) : isSpace c.toLower = isSpace c := by
  rw [Bool.eq_iff_iff, isSpace_iff, isSpace_iff]
  repeat rw [toLower_eq_iff (by decide)]

theorem unspaced_toLower (hText : Unspaced s.toList) : Unspaced s.toLower.toList := by
  intro c hc
  rw [toList_toLower, List.mem_map] at hc
  obtain ⟨d, hd, rfl⟩ := hc
  rw [isSpace_toLower]
  exact hText d hd

theorem toList_toString (key : SpotMarketKey) :
    key.toString.toList = key.base.toList ++ '/' :: key.term.toList := by
  simp [SpotMarketKey.toString]

/-- A key that is read from a text without white space has none in its own text. -/
theorem unspaced_of_spotKey (hText : Unspaced s.toList) (hKey : spotKey s = .ok key) :
    Unspaced key.toString.toList := by
  rcases spotKey_cases s with ⟨-, hRefused⟩ | ⟨base, c, term, hSplit, hSeparator, hBase⟩
  · rw [hRefused] at hKey
    cases hKey
  · rw [spotKey_join hSeparator hBase hSplit] at hKey
    cases hKey
    rw [hSplit] at hText
    have hBase' : Unspaced (String.ofList base).toLower.toList := by
      refine unspaced_toLower fun d hd => hText d ?_
      rw [String.toList_ofList] at hd
      exact List.mem_append_left _ hd
    have hTerm' : Unspaced (String.ofList term).toLower.toList := by
      refine unspaced_toLower fun d hd => hText d ?_
      rw [String.toList_ofList] at hd
      exact List.mem_append_right _ (List.mem_cons_of_mem _ hd)
    intro d hd
    rw [toList_toString] at hd
    rcases List.mem_append.mp hd with hd | hd
    · exact hBase' d hd
    · rcases List.mem_cons.mp hd with rfl | hd
      · rfl
      · exact hTerm' d hd

/-- A key of a text is read back exactly when its own text is one word. -/
theorem roundTrips_iff (hKey : spotKey s = .ok key) :
    RoundTrips key ↔ Unspaced key.toString.toList := by
  have hWritten : insert "" key = key.toString := String.empty_append
  have hBack := (readable_of_spotKey hKey).spotKey_toString
  constructor
  · intro h
    obtain ⟨hThrown, -, hSame⟩ := h key
    rw [hWritten] at hThrown hSame
    by_cases hRead : ∃ key', spotKey (InputStream.nextWord key.toString) = .ok key'
    · obtain ⟨key', hKey'⟩ := hRead
      rw [extract_of_key hKey'] at hSame
      rw [← hSame]
      exact unspaced_of_spotKey (InputStream.unspaced_word _) hKey'
    · rw [extract_of_error hRead] at hThrown
      cases hThrown
  · intro hText target
    have hWord := InputStream.readWord_unspaced hText fun h => by
      have hNil := congrArg String.toList h
      rw [toList_toString] at hNil
      simp at hNil
    have hKey : spotKey (InputStream.ofString key.toString).readWord.2 = .ok key := by
      rw [hWord]
      exact hBack
    rw [hWritten, extract_of_key hKey, hWord]
    exact ⟨rfl, rfl, rfl⟩

/-- A written key is read back exactly when its text has no white space, and a stream is refused as
it should be exactly when there is nothing to refuse. -/
theorem stream_contract_iff (s content : String) :
    (∀ key, spotKey s = .ok key → (RoundTrips key ↔ Unspaced key.toString.toList)) ∧
    (((¬∃ key, spotKey (InputStream.nextWord content) = .ok key) → Refuses content) ↔
      ∃ c ∈ (InputStream.nextWord content).toList, commonSeparator c = true) :=
  ⟨fun _ hKey => roundTrips_iff hKey, (refuses_iff content).trans (spotKey_isOk_iff _)⟩

/-- A pair of a word without a separator, and a key whose term has a space. -/
theorem stream_contract_fails :
    (spotKey "usd/jpy perp" = .ok ⟨"usd", "jpy perp"⟩ ∧ ¬RoundTrips ⟨"usd", "jpy perp"⟩) ∧
    (¬∃ key, spotKey (InputStream.nextWord "btcusd") = .ok key) ∧ ¬Refuses "btcusd" := by
  have hNone : ¬∃ key, spotKey (InputStream.nextWord "btcusd") = .ok key := by
    have hText : Unspaced "btcusd".toList := by
      simp [Unspaced, isSpace]
    have hWord : InputStream.nextWord "btcusd" = "btcusd" :=
      congrArg Prod.snd (InputStream.readWord_unspaced hText (by decide))
    rw [hWord, spotKey_isOk_iff]
    simp [commonSeparator_iff]
  refine ⟨⟨by decide +kernel, fun h => ?_⟩, hNone, fun h => ?_⟩
  · exact absurd (h ⟨"", ""⟩).2.2 (by decide +kernel)
  · exact hNone ((refuses_iff "btcusd").mp fun _ => h)

end SpotMarketKey

end Arby.Trading
