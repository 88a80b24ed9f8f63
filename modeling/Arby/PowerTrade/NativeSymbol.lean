import Arby.PowerTrade.OrderbookListenerImpl
import Arby.Trading.SpotKey

/-! The keys that are read from a text, and the texts that the exchange and the subscriptions have
for them. -/

namespace Arby.PowerTrade

open Trading Kit OrderbookListenerImpl

/-- What holds of a key that was read from a text: it is in lower case, and its base ends at the
first separator. The term may have separators of its own. -/
structure Readable (key : SpotMarketKey) : Prop where
  base : ∀ x ∈ key.base.toList, commonSeparator x = false
  lowerBase : key.base.toLower = key.base
  lowerTerm : key.term.toLower = key.term

theorem toList_toLower (s : String) : s.toLower.toList = s.toList.map Char.toLower :=
  String.toList_map

theorem toList_toUpper (s : String) : s.toUpper.toList = s.toList.map Char.toUpper :=
  String.toList_map

theorem toLower_toLower (s : String) : s.toLower.toLower = s.toLower := by
  rw [← String.toList_inj]
  simp only [toList_toLower, List.map_map, Function.comp_def, Char.toLower_toLower_eq_toLower]

theorem readable_of_spotKey {s : String} {key : SpotMarketKey} (hKey : spotKey s = .ok key) :
    Readable key := by
  rcases spotKey_cases s with ⟨-, hRefused⟩ | ⟨base, c, term, hText, hSeparator, hBase⟩
  · rw [hRefused] at hKey
    cases hKey
  · rw [spotKey_join hSeparator hBase hText] at hKey
    cases hKey
    refine ⟨?_, toLower_toLower _, toLower_toLower _⟩
    intro x hx
    rw [toList_toLower, String.toList_ofList, List.mem_map] at hx
    obtain ⟨y, hy, rfl⟩ := hx
    rw [commonSeparator_toLower]
    exact hBase y hy

theorem Readable.spotKey_toString {key : SpotMarketKey} (hKey : Readable key) :
    spotKey key.toString = .ok key := by
  have hText : key.toString.toList = key.base.toList ++ '/' :: key.term.toList := by
    simp [SpotMarketKey.toString]
  rw [spotKey_join rfl hKey.base hText, String.ofList_toList, String.ofList_toList, hKey.lowerBase,
    hKey.lowerTerm]

theorem toLower_ofList_toUpper (s : String) :
    (String.ofList (s.toList.map Char.toUpper)).toLower = s.toLower := by
  rw [← String.toList_inj]
  simp only [toList_toLower, String.toList_ofList, List.map_map, Function.comp_def,
    Char.toLower_toUpper_eq_toLower]

theorem Readable.spotKey_nativeSymbol {key : SpotMarketKey} (hKey : Readable key) :
    spotKey (nativeSymbol (.spot key)) = .ok key := by
  have hText : (nativeSymbol (.spot key)).toList =
      key.base.toList.map Char.toUpper ++ '-' :: key.term.toList.map Char.toUpper := by
    have hDash : '-'.toUpper = '-' := by decide
    simp [nativeSymbol, toList_toUpper, hDash]
  have hBase : ∀ x ∈ key.base.toList.map Char.toUpper, commonSeparator x = false := by
    intro x hx
    rw [List.mem_map] at hx
    obtain ⟨y, hy, rfl⟩ := hx
    rw [commonSeparator_toUpper]
    exact hKey.base y hy
  rw [spotKey_join rfl hBase hText, toLower_ofList_toUpper, toLower_ofList_toUpper, hKey.lowerBase,
    hKey.lowerTerm]

/-- The text of a subscription is that of its key behind a fixed word. -/
theorem buildSubscribeId_inj {k₁ k₂ : MarketKey} :
    buildSubscribeId k₁ = buildSubscribeId k₂ ↔ k₁.toString = k₂.toString := by
  unfold buildSubscribeId
  rw [← String.toList_inj, String.toList_append, String.toList_append,
    List.append_cancel_left_eq, String.toList_inj]

/-- A text is read exactly when it has a separator. Both texts of a key that was read are read back
as that key, so that no two keys share a subscription or a symbol of the exchange. -/
theorem spotKey_reads_back :
    (∀ s : String,
      ((∃ key, spotKey s = .ok key) ↔ ∃ c ∈ s.toList, c = '/' ∨ c = '-' ∨ c = ' ' ∨ c = '_') ∧
      ((¬ ∃ key, spotKey s = .ok key) → spotKey s = .error (invalidInput s))) ∧
    (∀ s key, spotKey s = .ok key →
      spotKey key.toString = .ok key ∧ spotKey (nativeSymbol (.spot key)) = .ok key) ∧
    (∀ s₁ s₂ key₁ key₂, spotKey s₁ = .ok key₁ → spotKey s₂ = .ok key₂ → key₁ ≠ key₂ →
      buildSubscribeId (.spot key₁) ≠ buildSubscribeId (.spot key₂) ∧
      nativeSymbol (.spot key₁) ≠ nativeSymbol (.spot key₂)) := by
  refine ⟨?_, ?_, ?_⟩
  · intro s
    refine ⟨?_, spotKey_eq_error⟩
    rw [spotKey_isOk_iff]
    simp only [commonSeparator_iff]
  · intro s key hKey
    have hReadable := readable_of_spotKey hKey
    exact ⟨hReadable.spotKey_toString, hReadable.spotKey_nativeSymbol⟩
  · intro s₁ s₂ key₁ key₂ hKey₁ hKey₂ hNe
    have hReadable₁ := readable_of_spotKey hKey₁
    have hReadable₂ := readable_of_spotKey hKey₂
    refine ⟨?_, ?_⟩
    · rw [ne_eq, buildSubscribeId_inj]
      exact spotKey_text_ne hReadable₁.spotKey_toString hReadable₂.spotKey_toString hNe
    · exact spotKey_text_ne hReadable₁.spotKey_nativeSymbol hReadable₂.spotKey_nativeSymbol hNe

example : spotKey "uSd/Jpy-Perp" = .ok { base := "usd", term := "jpy-perp" } := by
  decide +kernel

end Arby.PowerTrade
