import Arby.Kit.OrdMap
import Mathlib.Algebra.Ring.Nat
import Mathlib.Data.String.Basic

/-! Tables of texts, printed with a line for each row and the cells of a column in the middle of as
much room as its longest text takes. -/

namespace Arby.Util

open Kit

/-- `table`. -/
structure Table where
  data : OrdMap ℕ (OrdMap ℕ String) := ∅
  rows : ℕ := 0

def spaces (n : ℕ) : String := String.ofList (List.replicate n ' ')

/-- `a - b` of unsigned numbers, `none` when it underflows. -/
def minus (a b : ℕ) : Option ℕ := if b ≤ a then some (a - b) else none

/-- The items of a loop that prints `now` before the first and `sep` before each other. -/
def printSeparated (sep : String) (now : String) : List (Option String) → Option String
  | [] => some ""
  | item :: items => do
    let first ← item
    let rest ← printSeparated sep sep items
    return now ++ first ++ rest

namespace Table

def set (tab : Table) (row col : ℕ) (s : String) : Table where
  data := tab.data.insert row (((tab.data.find? row).getD ∅).insert col s)
  rows := max tab.rows row

/-- The body of the loops of `calc_widths`. -/
def widen (result : List ℕ) (c : ℕ) (str : String) : List ℕ :=
  let result :=
    if c ≥ result.length then result ++ List.replicate (c + 1 - result.length) 0 else result
  result.set c (max (result.getD c 0) str.length)

def calcWidths (tab : Table) : List ℕ :=
  tab.data.values.foldl (fun result cdata =>
    cdata.entries.foldl (fun result e => widen result e.1 e.2) result) []

def pad (s : String) (field : ℕ) : Option String := do
  let pre ← minus field s.length
  let s := spaces (pre / 2) ++ s
  let post ← minus field s.length
  return s ++ spaces post

/-- The inner loop of `operator<<`. -/
def printRow (widths : List ℕ) (cdata : OrdMap ℕ String) : Option String :=
  printSeparated " | " "" (widths.mapIdx fun col width =>
    match cdata.find? col with
    | none => pad "" width
    | some s => pad s width)

/-- `operator<<`. -/
def print (tab : Table) : Option String :=
  printSeparated "\n" "" (tab.data.values.map (printRow tab.calcWidths))

/-! ### What is printed -/

/-- A text in the middle of a field. -/
def padded (s : String) (field : ℕ) : String :=
  spaces ((field - s.length) / 2) ++ s ++
    spaces (field - s.length - (field - s.length) / 2)

/-- The text of a row, with no text where it has no cell. -/
def rowText (widths : List ℕ) (cell : ℕ → Option String) : String :=
  " | ".intercalate (widths.mapIdx fun col width => padded ((cell col).getD "") width)

/-- Each cell has its column among the widths, and fits in. -/
def Fits (widths : List ℕ) (cell : ℕ → Option String) : Prop :=
  ∀ col s, cell col = some s → col < widths.length ∧ s.length ≤ widths.getD col 0

variable {tab : Table} {widths : List ℕ} {cell : ℕ → Option String} {cdata : OrdMap ℕ String}
  {s : String} {c row col field : ℕ}

theorem length_spaces (n : ℕ) : (spaces n).length = n := by
  rw [spaces, String.length_ofList, List.length_replicate]

theorem pad_eq (h : s.length ≤ field) : pad s field = some (padded s field) := by
  have hPost : minus field (spaces ((field - s.length) / 2) ++ s).length =
      some (field - s.length - (field - s.length) / 2) := by
    rw [String.length_append, length_spaces, minus, if_pos (by omega)]
    congr 1
    omega
  rw [pad, minus, if_pos h]
  dsimp only [Option.bind_eq_bind, Option.bind_some]
  rw [hPost]
  rfl

theorem length_padded (h : s.length ≤ field) : (padded s field).length = field := by
  rw [padded, String.length_append, String.length_append, length_spaces, length_spaces]
  omega

theorem printSeparated_some (sep now : String) (items : List String) :
    printSeparated sep now (items.map some) =
      some (if items = [] then "" else now ++ sep.intercalate items) := by
  induction items generalizing now with
  | nil => rfl
  | cons item items ih =>
    rw [List.map_cons, printSeparated, ih, if_neg (List.cons_ne_nil item items)]
    dsimp only [Option.bind_eq_bind, Option.bind_some]
    cases items with
    | nil => simp
    | cons next items =>
      rw [if_neg (List.cons_ne_nil next items), String.intercalate_cons_cons]
      simp [String.append_assoc]

theorem printSeparated_start (sep : String) (items : List String) :
    printSeparated sep "" (items.map some) = some (sep.intercalate items) := by
  rw [printSeparated_some]
  split
  · rename_i hNone
    rw [hNone, String.intercalate_nil]
  · rw [String.empty_append]

theorem length_intercalate (sep : String) (items : List String) :
    (sep.intercalate items).length =
      (items.map String.length).sum + sep.length * (items.length - 1) := by
  induction items with
  | nil => simp
  | cons item items ih =>
    cases items with
    | nil => simp
    | cons next items =>
      rw [String.intercalate_cons_cons, String.length_append, String.length_append, ih]
      simp only [List.map_cons, List.sum_cons, List.length_cons, Nat.add_sub_cancel, Nat.mul_succ]
      omega

/-! ### The widths -/

/-- More columns, or wider ones. -/
structure Wider (widths widths' : List ℕ) : Prop where
  length : widths.length ≤ widths'.length
  width : ∀ col, widths.getD col 0 ≤ widths'.getD col 0

theorem Wider.refl (widths : List ℕ) : Wider widths widths := ⟨le_rfl, fun _ => le_rfl⟩

theorem Wider.trans {widths' widths'' : List ℕ} (h : Wider widths widths')
    (h' : Wider widths' widths'') : Wider widths widths'' :=
  ⟨h.length.trans h'.length, fun col => (h.width col).trans (h'.width col)⟩

theorem Fits.wider {widths' : List ℕ} (hFits : Fits widths cell) (h : Wider widths widths') :
    Fits widths' cell := fun col s hCell =>
  ⟨(hFits col s hCell).1.trans_le h.length, (hFits col s hCell).2.trans (h.width col)⟩

theorem length_widen (widths : List ℕ) (c : ℕ) (s : String) :
    (widen widths c s).length = max widths.length (c + 1) := by
  unfold widen
  rw [List.length_set]
  split
  · rw [List.length_append, List.length_replicate]
    omega
  · omega

theorem getD_widen (widths : List ℕ) (c : ℕ) (s : String) (col : ℕ) :
    (widen widths c s).getD col 0 =
      if col = c then max (widths.getD c 0) s.length else widths.getD col 0 := by
  have hLonger : ∀ n col, (widths ++ List.replicate n 0).getD col 0 = widths.getD col 0 := by
    intro n col
    simp only [List.getD_eq_getElem?_getD, List.getElem?_append, List.getElem?_replicate]
    split
    · rfl
    · rename_i hLe
      rw [List.getElem?_eq_none (not_lt.mp hLe)]
      split <;> rfl
  have hSet : ∀ (result : List ℕ) v, c < result.length → (result.set c v).getD col 0 =
      if col = c then v else result.getD col 0 := by
    intro result v hc
    rw [List.getD_eq_getElem?_getD, List.getElem?_set, List.getD_eq_getElem?_getD]
    by_cases hCol : col = c
    · subst hCol
      simp [hc]
    · simp [hCol, Ne.symm hCol]
  unfold widen
  dsimp only
  split
  · rw [hSet _ _ (by rw [List.length_append, List.length_replicate]; omega), hLonger, hLonger]
  · rw [hSet _ _ (by omega)]

theorem wider_widen (widths : List ℕ) (c : ℕ) (s : String) : Wider widths (widen widths c s) := by
  refine ⟨(length_widen widths c s).symm ▸ le_max_left _ _, fun col => ?_⟩
  rw [getD_widen]
  split
  · rename_i hCol
    exact hCol ▸ le_max_left _ _
  · exact le_rfl

/-- The inner loop of `calc_widths`. -/
theorem widen_row (widths : List ℕ) (es : List (ℕ × String)) :
    Wider widths (es.foldl (fun result e => widen result e.1 e.2) widths) ∧
      ∀ e ∈ es, e.1 < (es.foldl (fun result e => widen result e.1 e.2) widths).length ∧
        e.2.length ≤ (es.foldl (fun result e => widen result e.1 e.2) widths).getD e.1 0 := by
  induction es generalizing widths with
  | nil => exact ⟨.refl widths, nofun⟩
  | cons e es ih =>
    obtain ⟨hWider, hRest⟩ := ih (widen widths e.1 e.2)
    refine ⟨(wider_widen widths e.1 e.2).trans hWider, fun e' he' => ?_⟩
    rcases List.mem_cons.mp he' with rfl | he'
    · constructor
      · refine lt_of_lt_of_le ?_ hWider.length
        rw [length_widen]
        exact Nat.lt_succ_self _ |>.trans_le (le_max_right _ _)
      · refine le_trans ?_ (hWider.width e'.1)
        rw [getD_widen, if_pos rfl]
        exact le_max_right _ _
    · exact hRest e' he'

/-- Every cell of a table fits in. -/
theorem fits_calcWidths (h : cdata ∈ tab.data.values) : Fits tab.calcWidths cdata.find? := by
  have hRows : ∀ (rows : List (OrdMap ℕ String)) (widths : List ℕ),
      Wider widths (rows.foldl (fun result cdata =>
        cdata.entries.foldl (fun result e => widen result e.1 e.2) result) widths) ∧
      ∀ cdata ∈ rows, Fits (rows.foldl (fun result cdata =>
        cdata.entries.foldl (fun result e => widen result e.1 e.2) result) widths) cdata.find? := by
    intro rows
    induction rows with
    | nil => exact fun widths => ⟨.refl widths, nofun⟩
    | cons row rows ih =>
      intro widths
      obtain ⟨hWiderRow, hRow⟩ := widen_row widths row.entries
      obtain ⟨hWider, hRest⟩ := ih (row.entries.foldl (fun result e => widen result e.1 e.2) widths)
      refine ⟨hWiderRow.trans hWider, fun cdata hMem => ?_⟩
      rcases List.mem_cons.mp hMem with rfl | hMem
      · refine Fits.wider (fun col s hCell => ?_) hWider
        exact hRow (col, s) (OrdMap.find?_eq_some.mp hCell)
      · exact hRest cdata hMem
  exact (hRows tab.data.values []).2 cdata h

/-! ### The lines -/

theorem Fits.length_le (hFits : Fits widths cell) (hCol : widths[col]? = some field) :
    ((cell col).getD "").length ≤ field := by
  cases hCell : cell col with
  | none => exact Nat.zero_le field
  | some s =>
    obtain ⟨-, hLe⟩ := hFits col s hCell
    rwa [List.getD_eq_getElem?_getD, hCol] at hLe

theorem printRow_eq (hFits : Fits widths cdata.find?) :
    printRow widths cdata = some (rowText widths cdata.find?) := by
  rw [printRow, rowText, ← printSeparated_start]
  congr 1
  refine List.ext_getElem (by simp) fun col hCol _ => ?_
  rw [List.length_mapIdx] at hCol
  rw [List.getElem_mapIdx, List.getElem_map, List.getElem_mapIdx,
    ← pad_eq (hFits.length_le (List.getElem?_eq_getElem hCol))]
  cases cdata.find? col <;> rfl

/-- A table is printed without an underflow, a line for each row. -/
theorem print_eq (tab : Table) : tab.print = some ("\n".intercalate
    (tab.data.values.map fun cdata => rowText tab.calcWidths cdata.find?)) := by
  rw [print, ← printSeparated_start, List.map_map]
  congr 1
  exact List.map_congr_left fun cdata h => printRow_eq (fits_calcWidths h)

/-- All rows are as long as the columns and the gaps between them. -/
theorem length_rowText (hFits : Fits widths cell) :
    (rowText widths cell).length = widths.sum + 3 * (widths.length - 1) := by
  have hGap : " | ".length = 3 := by decide
  have hCells : (widths.mapIdx fun col width => padded ((cell col).getD "") width).map
      String.length = widths := by
    refine List.ext_getElem (by simp) fun col _ hCol => ?_
    rw [List.getElem_map, List.getElem_mapIdx,
      length_padded (hFits.length_le (List.getElem?_eq_getElem hCol))]
  rw [rowText, length_intercalate, hCells, List.length_mapIdx, hGap]

end Table

end Arby.Util
