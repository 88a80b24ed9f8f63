import Arby.Kit.OrdMap
import Arby.PowerTrade.TickRecord
import Mathlib.Data.List.Sort

/-! The history of the ticks of a generation. Watermarks are the sequence numbers from which it may
be replayed: what lies below the least of them is dropped. -/

namespace Arby.PowerTrade

open Kit

theorem pairwise_le_nil : ([] : List ℕ).Pairwise (· ≤ ·) := List.Pairwise.nil

/-- `tick_history`. The multiset of watermarks is the list of its elements in order. -/
structure TickHistory where
  nextSequence : ℕ := 0
  history : OrdMap ℕ TickRecord := ∅
  watermarks : List ℕ := []
  watermarks_sorted : watermarks.Pairwise (· ≤ ·) := by exact pairwise_le_nil

namespace TickHistory

def reset (_ : TickHistory) : TickHistory := {}

def addTick (h : TickHistory) (tick : TickRecord) : TickHistory :=
  { h with
    history := h.history.emplace h.nextSequence tick
    nextSequence := h.nextSequence + 1 }

/-- `next_sequence - 1`, which wraps when there was no tick. -/
def highestSequence (h : TickHistory) : ℕ :=
  if h.nextSequence = 0 then 2 ^ 64 - 1 else h.nextSequence - 1

def addWatermark (h : TickHistory) (wm : ℕ) : TickHistory :=
  { h with
    watermarks := h.watermarks.orderedInsert (· ≤ ·) wm
    watermarks_sorted := h.watermarks_sorted.orderedInsert wm _ }

/-- `erase` takes every copy of the watermark away. Without watermarks the whole history goes. -/
def removeWatermark (h : TickHistory) (wm : ℕ) : TickHistory :=
  { h with
    watermarks := h.watermarks.filter (· ≠ wm)
    watermarks_sorted := h.watermarks_sorted.filter _
    history :=
      match h.watermarks.filter (· ≠ wm) with
      | [] => ∅
      | first :: _ => h.history.dropBelow first }

/-- `ticks` are all ticks since the last reset, and the history holds those from some point on,
each under its sequence number. -/
def Keeps (h : TickHistory) (ticks : List TickRecord) : Prop :=
  h.nextSequence = ticks.length ∧
    ∃ a ≤ ticks.length, h.history.entries = OrdMap.indexed a (ticks.drop a)

variable {h : TickHistory} {ticks : List TickRecord}

theorem keeps_reset (h : TickHistory) : h.reset.Keeps [] := ⟨rfl, 0, le_rfl, rfl⟩

theorem Keeps.find? (hk : h.Keeps ticks) {k : ℕ} (hSome : (h.history.find? k).isSome) :
    k < ticks.length ∧ h.history.after k = ticks.drop (k + 1) := by
  obtain ⟨-, a, ha, hEntries⟩ := hk
  have hk := (OrdMap.find?_of_indexed hEntries k).mp hSome
  rw [List.length_drop] at hk
  refine ⟨by omega, ?_⟩
  rw [OrdMap.after_of_indexed hEntries hk.1, List.drop_drop]
  congr 1
  omega

/-- From any tick that it has on, the history has all that came. -/
theorem Keeps.from (hk : h.Keeps ticks) {w k : ℕ} (hSome : (h.history.find? w).isSome)
    (hLe : w ≤ k) : h.history.find? k = ticks[k]? := by
  obtain ⟨-, a, -, hEntries⟩ := hk
  have hw := (OrdMap.find?_of_indexed hEntries w).mp hSome
  rw [OrdMap.getElem?_of_indexed hEntries (by omega), List.getElem?_drop]
  congr 1
  omega

theorem Keeps.addTick (hk : h.Keeps ticks) (tick : TickRecord) :
    (h.addTick tick).Keeps (ticks ++ [tick]) := by
  obtain ⟨hNext, a, ha, hEntries⟩ := hk
  have hNew : h.history.find? h.nextSequence = none := by
    rw [← Option.not_isSome_iff_eq_none, OrdMap.find?_of_indexed hEntries, List.length_drop]
    omega
  refine ⟨by simp [TickHistory.addTick, hNext], a, by simp; omega, ?_⟩
  have hInsert := OrdMap.insert_of_indexed hEntries tick
  rw [List.length_drop, show a + (ticks.length - a) = h.nextSequence by omega] at hInsert
  rw [List.drop_append_of_le_length ha, ← hInsert]
  simp only [TickHistory.addTick, OrdMap.emplace, hNew]

theorem Keeps.find?_addTick (hk : h.Keeps ticks) (tick : TickRecord) {k : ℕ} :
    ((h.addTick tick).history.find? k).isSome ↔
      (h.history.find? k).isSome ∨ k = ticks.length := by
  obtain ⟨hNext, a, ha, hEntries⟩ := hk
  have hNew : h.history.find? h.nextSequence = none := by
    rw [← Option.not_isSome_iff_eq_none, OrdMap.find?_of_indexed hEntries, List.length_drop]
    omega
  have hAdd : (h.addTick tick).history = h.history.insert h.nextSequence tick := by
    simp only [TickHistory.addTick, OrdMap.emplace, hNew]
  rw [hAdd, ← hNext]
  by_cases hk : k = h.nextSequence
  · subst hk
    simp
  · rw [OrdMap.find?_insert_ne _ hk]
    simp [hk]

theorem Keeps.addWatermark (hk : h.Keeps ticks) (wm : ℕ) : (h.addWatermark wm).Keeps ticks := hk

theorem mem_removeWatermark {w wm : ℕ} :
    w ∈ (h.removeWatermark wm).watermarks ↔ w ∈ h.watermarks ∧ w ≠ wm := by
  simp [TickHistory.removeWatermark]

theorem mem_addWatermark {w wm : ℕ} :
    w ∈ (h.addWatermark wm).watermarks ↔ w = wm ∨ w ∈ h.watermarks :=
  List.mem_orderedInsert _

theorem history_removeWatermark_last {wm : ℕ} (hLast : (h.removeWatermark wm).watermarks = []) :
    (h.removeWatermark wm).history = ∅ := by
  have hRest : h.watermarks.filter (· ≠ wm) = [] := hLast
  simp only [TickHistory.removeWatermark, hRest]

/-- What the history holds after a watermark is removed: nothing, when that was the last one, and
otherwise what it held from the least watermark on. -/
theorem Keeps.removeWatermark (hk : h.Keeps ticks) (hw : ∀ w ∈ h.watermarks, w ≤ ticks.length)
    (wm : ℕ) : (h.removeWatermark wm).Keeps ticks ∧
      (∀ k, (∃ w ∈ (h.removeWatermark wm).watermarks, w ≤ k) → (h.history.find? k).isSome →
        ((h.removeWatermark wm).history.find? k).isSome) ∧
      ∀ k, ((h.removeWatermark wm).history.find? k).isSome → (h.history.find? k).isSome := by
  obtain ⟨hNext, a, ha, hEntries⟩ := hk
  unfold TickHistory.removeWatermark Keeps
  dsimp only
  cases hRest : h.watermarks.filter (· ≠ wm) with
  | nil => exact ⟨⟨hNext, ticks.length, le_rfl, by simp [OrdMap.indexed]⟩, by simp, by simp⟩
  | cons first rest =>
    have hMem : first ∈ h.watermarks :=
      (List.mem_filter.mp (hRest ▸ List.mem_cons_self)).1
    have hFirst := hw first hMem
    have hDrop := OrdMap.dropBelow_of_indexed hEntries (k := first)
      (by rw [List.length_drop]; omega)
    have hDropped : (ticks.drop a).drop (first - a) = ticks.drop (max a first) := by
      rw [List.drop_drop]
      congr 1
      omega
    rw [hDropped] at hDrop
    refine ⟨⟨hNext, max a first, by omega, hDrop⟩, fun k hBelow hFind => ?_,
      fun k hFind => ?_⟩
    swap
    · rw [OrdMap.find?_of_indexed hDrop, List.length_drop] at hFind
      rw [OrdMap.find?_of_indexed hEntries, List.length_drop]
      omega
    have hSorted : ∀ w ∈ first :: rest, first ≤ w := by
      have hPairwise := h.watermarks_sorted.filter (p := fun w => decide (w ≠ wm))
      rw [hRest] at hPairwise
      intro w hw
      rcases List.mem_cons.mp hw with rfl | hw
      · exact le_rfl
      · exact List.rel_of_pairwise_cons hPairwise hw
    obtain ⟨w, hwMem, hwk⟩ := hBelow
    have hle := hSorted w hwMem
    rw [OrdMap.find?_of_indexed hEntries, List.length_drop] at hFind
    rw [OrdMap.find?_of_indexed hDrop, List.length_drop]
    omega

/-- What is left of the history starts at a watermark that is left. -/
theorem Keeps.mark_le (hk : h.Keeps ticks) (hw : ∀ w ∈ h.watermarks, w ≤ ticks.length) {wm k : ℕ}
    (hFind : ((h.removeWatermark wm).history.find? k).isSome) :
    ∃ w ∈ (h.removeWatermark wm).watermarks, w ≤ k := by
  cases hRest : (h.removeWatermark wm).watermarks with
  | nil =>
    rw [history_removeWatermark_last hRest, OrdMap.find?_empty] at hFind
    cases hFind
  | cons first rest =>
    obtain ⟨-, a, ha, hEntries⟩ := hk
    have hMem : first ∈ (h.removeWatermark wm).watermarks := hRest ▸ List.mem_cons_self
    have hLe := hw first (mem_removeWatermark.mp hMem).1
    have hDrop := OrdMap.dropBelow_of_indexed hEntries (k := first)
      (by rw [List.length_drop]; omega)
    have hHistory : (h.removeWatermark wm).history = h.history.dropBelow first := by
      have hMarks : h.watermarks.filter (· ≠ wm) = first :: rest := hRest
      simp only [TickHistory.removeWatermark, hMarks]
    rw [hHistory, OrdMap.find?_of_indexed hDrop] at hFind
    exact ⟨first, List.mem_cons_self, (le_max_right _ _).trans hFind.1⟩

theorem Keeps.highestSequence (hk : h.Keeps ticks) (hne : ticks ≠ []) :
    h.highestSequence + 1 = ticks.length := by
  have := List.length_pos_iff.mpr hne
  rw [TickHistory.highestSequence, hk.1, if_neg (by omega)]
  omega

end TickHistory

end Arby.PowerTrade
