import Arby.Kit.Run
import Arby.PowerTrade.TickHistory

/-! Runs of operations on a history, with the watermarks that its users count on. The multiset of the
history loses every copy of a watermark that is removed once. -/

namespace Arby.PowerTrade

open Kit

/-- A history, the watermarks that were added more often than removed, each as many times, and all
ticks that were added. -/
structure HistoryRun where
  history : TickHistory := {}
  outstanding : List ℕ := []
  ticks : List TickRecord := []

inductive HistoryOp
  | addTick (tick : TickRecord)
  | addWatermark (wm : ℕ)
  | removeWatermark (wm : ℕ)

namespace HistoryRun

def step (st : HistoryRun) : HistoryOp → HistoryRun
  | .addTick tick => { st with history := st.history.addTick tick, ticks := st.ticks ++ [tick] }
  | .addWatermark wm =>
    { st with history := st.history.addWatermark wm, outstanding := wm :: st.outstanding }
  | .removeWatermark wm =>
    { st with
      history := st.history.removeWatermark wm
      outstanding := st.outstanding.erase wm }

/-- A watermark is added for a tick of the history, and removed only when it is outstanding. -/
def Admissible (st : HistoryRun) : HistoryOp → Prop
  | .addTick _ => True
  | .addWatermark wm => (st.history.history.find? wm).isSome
  | .removeWatermark wm => wm ∈ st.outstanding

/-- The history has every tick from each outstanding watermark on. -/
def Retains (st : HistoryRun) : Prop :=
  ∀ w ∈ st.outstanding, ∀ k, w ≤ k → k ≤ st.history.highestSequence →
    ∃ tick, st.ticks[k]? = some tick ∧ st.history.history.find? k = some tick

/-- The history has no tick below the least outstanding watermark, and none when there is no
watermark. -/
def Trimmed (st : HistoryRun) : Prop :=
  ∀ k, (st.history.history.find? k).isSome → ∃ w ∈ st.outstanding, w ≤ k

/-- What holds after an operation. -/
def Serves (_ : HistoryRun) (op : HistoryOp) (st : HistoryRun) : Prop :=
  st.Retains ∧
    match op with
    | .removeWatermark _ => st.Trimmed
    | .addTick _ | .addWatermark _ => True

/-- The least watermark that stays outstanding is in the multiset, and is not the one removed. -/
def LeavesLeast (st : HistoryRun) : HistoryOp → Prop
  | .removeWatermark wm => ∀ w ∈ st.outstanding.erase wm,
      (∀ u ∈ st.outstanding.erase wm, w ≤ u) → w ≠ wm ∧ w ∈ st.history.watermarks
  | .addTick _ | .addWatermark _ => True

instance (st : HistoryRun) (op : HistoryOp) : Decidable (st.Admissible op) :=
  match op with
  | .addTick _ | .addWatermark _ | .removeWatermark _ => by
    dsimp only [Admissible]
    infer_instance

instance (st : HistoryRun) (op : HistoryOp) : Decidable (st.LeavesLeast op) :=
  match op with
  | .addTick _ | .addWatermark _ | .removeWatermark _ => by
    dsimp only [LeavesLeast]
    infer_instance

/-- The invariant: the history ends with the last tick and has the tick of every outstanding
watermark. Only outstanding watermarks are in the multiset. -/
structure Sound (st : HistoryRun) : Prop where
  keeps : st.history.Keeps st.ticks
  found : ∀ w ∈ st.outstanding, (st.history.history.find? w).isSome
  marks : ∀ w ∈ st.history.watermarks, w ∈ st.outstanding

variable {st : HistoryRun} {op : HistoryOp} {wm : ℕ}

theorem Sound.lt (h : st.Sound) {w : ℕ} (hw : w ∈ st.outstanding) : w < st.ticks.length :=
  (h.keeps.find? (h.found w hw)).1

theorem Sound.retains (h : st.Sound) : st.Retains := by
  intro w hw k hLe hHighest
  have hLt := h.lt hw
  have hEnd := h.keeps.highestSequence (List.ne_nil_of_length_pos (by omega))
  have hTick : st.ticks[k]? = some st.ticks[k] := List.getElem?_eq_getElem (by omega)
  exact ⟨_, hTick, (h.keeps.from (h.found w hw) hLe).trans hTick⟩

theorem Retains.found (h : st.Retains) (hKeeps : st.history.Keeps st.ticks)
    (hLt : ∀ w ∈ st.outstanding, w < st.ticks.length) {w : ℕ} (hw : w ∈ st.outstanding) :
    (st.history.history.find? w).isSome := by
  have hEnd := hKeeps.highestSequence (List.ne_nil_of_length_pos (by have := hLt w hw; omega))
  obtain ⟨tick, -, hFind⟩ := h w hw w le_rfl (by have := hLt w hw; omega)
  rw [hFind]
  rfl

theorem Sound.addTick (h : st.Sound) (tick : TickRecord) : (st.step (.addTick tick)).Sound where
  keeps := h.keeps.addTick tick
  found w hw := (h.keeps.find?_addTick tick).mpr (.inl (h.found w hw))
  marks := h.marks

theorem Sound.addWatermark (h : st.Sound) (hFound : (st.history.history.find? wm).isSome) :
    (st.step (.addWatermark wm)).Sound where
  keeps := h.keeps.addWatermark wm
  found w hw := by
    rcases List.mem_cons.mp hw with rfl | hw
    · exact hFound
    · exact h.found w hw
  marks w hw := by
    rcases TickHistory.mem_addWatermark.mp hw with rfl | hw
    · exact List.mem_cons_self
    · exact List.mem_cons_of_mem _ (h.marks w hw)

theorem Sound.keeps_remove (h : st.Sound) (wm : ℕ) :
    (st.history.removeWatermark wm).Keeps st.ticks ∧
      (∀ k, (∃ w ∈ (st.history.removeWatermark wm).watermarks, w ≤ k) →
        (st.history.history.find? k).isSome →
        ((st.history.removeWatermark wm).history.find? k).isSome) ∧
      ∀ k, ((st.history.removeWatermark wm).history.find? k).isSome →
        (st.history.history.find? k).isSome :=
  h.keeps.removeWatermark (fun w hw => (h.lt (h.marks w hw)).le) wm

theorem mem_rest (hMarks : ∀ w ∈ st.history.watermarks, w ∈ st.outstanding) {w : ℕ}
    (hw : w ∈ (st.history.removeWatermark wm).watermarks) : w ∈ st.outstanding.erase wm := by
  obtain ⟨hMem, hNe⟩ := TickHistory.mem_removeWatermark.mp hw
  exact (List.mem_erase_of_ne hNe).mpr (hMarks w hMem)

theorem Sound.removeWatermark (h : st.Sound) (hLeast : st.LeavesLeast (.removeWatermark wm)) :
    (st.step (.removeWatermark wm)).Sound where
  keeps := (h.keeps_remove wm).1
  found w hw := by
    refine (h.keeps_remove wm).2.1 w ?_ (h.found w (List.mem_of_mem_erase hw))
    have hSome : ∃ u, u ∈ st.outstanding.erase wm := ⟨w, hw⟩
    refine ⟨Nat.find hSome, TickHistory.mem_removeWatermark.mpr ?_, Nat.find_min' hSome hw⟩
    obtain ⟨hNe, hMark⟩ := hLeast _ (Nat.find_spec hSome) fun u hu => Nat.find_min' hSome hu
    exact ⟨hMark, hNe⟩
  marks _ hw := mem_rest h.marks hw

/-- The step lemma. -/
theorem Sound.serves_iff (h : st.Sound) (hOp : st.Admissible op) :
    st.LeavesLeast op ↔ Serves st op (st.step op) := by
  cases op with
  | addTick tick => exact ⟨fun _ => ⟨(h.addTick tick).retains, trivial⟩, fun _ => trivial⟩
  | addWatermark wm => exact ⟨fun _ => ⟨(h.addWatermark hOp).retains, trivial⟩, fun _ => trivial⟩
  | removeWatermark wm =>
    have hBelow : ∀ w ∈ st.history.watermarks, w ≤ st.ticks.length :=
      fun w hw => (h.lt (h.marks w hw)).le
    constructor
    · intro hLeast
      refine ⟨(h.removeWatermark hLeast).retains, ?_⟩
      intro k hFind
      obtain ⟨w, hw, hLe⟩ := h.keeps.mark_le hBelow hFind
      exact ⟨w, mem_rest h.marks hw, hLe⟩
    · rintro ⟨hRetains, -⟩ w hw hMin
      have hFind := hRetains.found (h.keeps_remove wm).1
        (fun u hu => h.lt (List.mem_of_mem_erase hu)) hw
      -- The history starts at a watermark that is left, which is then the least one.
      obtain ⟨u, hu, hLe⟩ := h.keeps.mark_le hBelow hFind
      obtain rfl : u = w := le_antisymm hLe (hMin u (mem_rest h.marks hu))
      obtain ⟨hMark, hNe⟩ := TickHistory.mem_removeWatermark.mp hu
      exact ⟨hNe, hMark⟩

theorem Sound.step (h : st.Sound) (hOp : st.Admissible op) (hLeast : st.LeavesLeast op) :
    (st.step op).Sound := by
  cases op with
  | addTick tick => exact h.addTick tick
  | addWatermark wm => exact h.addWatermark hOp
  | removeWatermark wm => exact h.removeWatermark hLeast

theorem sound_empty : Sound {} where
  keeps := TickHistory.keeps_reset {}
  found := by simp
  marks := by simp

/-- The history has what its users need and no more after every operation exactly when every removal
leaves the least outstanding watermark in the multiset. -/
theorem serves_run_iff {ops : List HistoryOp} (hOps : Along (always step) Admissible {} ops) :
    Safe (always step) Serves {} ops ↔ Along (always step) LeavesLeast {} ops := by
  refine safe_iff_along (I := Sound) ?_ ?_ sound_empty hOps
  · intro st op h hOp
    rw [h.serves_iff hOp]
    constructor
    · intro hServes
      exact ⟨_, rfl, hServes⟩
    · rintro ⟨st', hStep, hServes⟩
      obtain rfl := Option.some.inj hStep
      exact hServes
  · intro st op st' h hOp hLeast hStep
    obtain rfl := Option.some.inj hStep
    exact h.step hOp hLeast

/-- Four snapshots, whose watermarks go in another order. -/
def fourMarks : List HistoryOp :=
  let tick := .addTick (.remove ⟨"1", 1, .buy⟩)
  [tick, .addWatermark 0, tick, .addWatermark 1, .removeWatermark 0, tick, .addWatermark 2, tick,
    .addWatermark 3, .removeWatermark 3, .removeWatermark 1, .removeWatermark 2]

theorem fourMarks_serves : Safe (always step) Serves {} fourMarks :=
  (serves_run_iff (by decide)).mpr (by decide)

/-- Two snapshots of one tick, the first of which is let go. -/
def equalMarks : List HistoryOp :=
  [.addTick (.remove ⟨"1", 1, .buy⟩), .addWatermark 0, .addWatermark 0, .removeWatermark 0]

/-- The tick of the second snapshot is gone. -/
theorem equalMarks_lost : Along (always step) Admissible {} equalMarks ∧
    ¬ Safe (always step) Serves {} equalMarks := by
  refine ⟨by decide, ?_⟩
  rintro ⟨st₁, h₁, -, st₂, h₂, -, st₃, h₃, -, st₄, h₄, ⟨hRetains, -⟩, -⟩
  obtain rfl := Option.some.inj h₁
  obtain rfl := Option.some.inj h₂
  obtain rfl := Option.some.inj h₃
  obtain rfl := Option.some.inj h₄
  obtain ⟨tick, -, hFind⟩ := hRetains 0 (by decide) 0 le_rfl (by decide)
  cases hFind

end HistoryRun

end Arby.PowerTrade
