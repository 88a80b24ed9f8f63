import Arby.PowerTrade.OrderBook
import Arby.Util.Table

/-! The book as a table: the best levels of both sides, with the depth of each in the column of its
side. -/

namespace Arby.PowerTrade

open Trading Kit Util

/-- How the numbers are written: time points and depths in the header, and what `to_string` makes of
the numbers of the levels. -/
structure Formats where
  timePoint : TimestampType → String
  depth : QtyType → String
  toString : QtyType → String

namespace OrderBook

def maxLevels : ℕ := 10

def header (fmt : Formats) (book : OrderBook) : String :=
  "last_update: " ++ fmt.timePoint book.lastUpdate ++ ", bid depth: " ++
    fmt.depth book.bids.aggregate ++ ", offer depth: " ++ fmt.depth book.offers.aggregate ++ "\n"

/-- The body of both loops, for the column of the side, with the table and `row`. -/
def setLevel (fmt : Formats) (col : ℕ) (state : Table × ℕ) (price : PriceType)
    (detail : LevelData) : Table × ℕ :=
  let (tab, row) := state
  let tab := tab.set row 1 (fmt.toString price)
  let tab := tab.set row col (fmt.toString detail.aggregateDepth)
  (tab, row + 1)

/-- The levels of a ladder up to the tenth. -/
def firstLevels {κ : Type} [LinearOrder κ] (ladder : Ladder κ) : List (κ × Node LevelData) :=
  ladder.entries.take (min ladder.entries.length maxLevels)

def tabulate (fmt : Formats) (book : OrderBook) : Table :=
  let state := (firstLevels book.offers.ladder).reverse.foldl
    (fun state e => setLevel fmt 2 state e.1 e.2.val) ({}, 0)
  let state := (firstLevels book.bids.ladder).foldl
    (fun state e => setLevel fmt 0 state (OrderDual.ofDual e.1) e.2.val) state
  state.1

/-- `operator<<`. There is no text when the padding underflows. -/
def print (fmt : Formats) (book : OrderBook) : Option String := do
  let tab ← (tabulate fmt book).print
  return header fmt book ++ tab ++ "\n"

end OrderBook

/-- A level as it is shown: its price, its depth, and the column of its side. -/
structure BookLine where
  price : PriceType
  depth : QtyType
  column : ℕ

namespace BookLine

/-- The texts of a line: prices are in column 1. -/
def cell (fmt : Formats) (line : BookLine) (col : ℕ) : Option String :=
  if col = line.column then some (fmt.toString line.depth)
  else if col = 1 then some (fmt.toString line.price)
  else none

/-- The row of a line in the table. -/
def row (fmt : Formats) (line : BookLine) : OrdMap ℕ String :=
  ((∅ : OrdMap ℕ String).insert 1 (fmt.toString line.price)).insert line.column
    (fmt.toString line.depth)

theorem find?_row (fmt : Formats) (line : BookLine) :
    (line.row fmt).find? = line.cell fmt := by
  funext col
  unfold row cell
  by_cases hDepth : col = line.column
  · rw [if_pos hDepth, hDepth, OrdMap.find?_insert_self]
  · rw [if_neg hDepth, OrdMap.find?_insert_ne _ hDepth]
    by_cases hPrice : col = 1
    · rw [if_pos hPrice, hPrice, OrdMap.find?_insert_self]
    · rw [if_neg hPrice, OrdMap.find?_insert_ne _ hPrice, OrdMap.find?_empty]

end BookLine

namespace OrderBook

/-- The best ten offers from the worst to the best. -/
def offerLines (book : OrderBook) : List BookLine :=
  (book.offers.ladder.entries.take 10).reverse.map fun e =>
    { price := e.1, depth := e.2.val.aggregateDepth, column := 2 }

/-- The best ten bids from the best to the worst. -/
def bidLines (book : OrderBook) : List BookLine :=
  (book.bids.ladder.entries.take 10).map fun e =>
    { price := OrderDual.ofDual e.1, depth := e.2.val.aggregateDepth, column := 0 }

def lines (book : OrderBook) : List BookLine := book.offerLines ++ book.bidLines

variable {fmt : Formats} {book : OrderBook} {tab : Table} {rows : List (OrdMap ℕ String)}

/-- The bids are below the offers. -/
def Uncrossed (book : OrderBook) : Prop :=
  ∀ bid ∈ book.bids.ladder.first?, ∀ offer ∈ book.offers.ladder.first?,
    OrderDual.ofDual bid.1 < offer.1

instance (book : OrderBook) : Decidable book.Uncrossed := by
  dsimp only [Uncrossed]
  infer_instance

theorem firstLevels_eq {κ : Type} [LinearOrder κ] (ladder : Ladder κ) :
    firstLevels ladder = ladder.entries.take 10 := by
  rw [firstLevels, maxLevels]
  rcases Nat.le_total ladder.entries.length 10 with h | h
  · rw [Nat.min_eq_left h, List.take_of_length_le h, List.take_length]
  · rw [Nat.min_eq_right h]

/-- A level that is set makes a new row under the others. -/
theorem setLevel_data (fmt : Formats) (hRows : tab.data.entries = OrdMap.indexed 0 rows) (col : ℕ)
    (price : PriceType) (detail : LevelData) :
    (setLevel fmt col (tab, rows.length) price detail).1.data.entries = OrdMap.indexed 0
      (rows ++ [BookLine.row fmt { price, depth := detail.aggregateDepth, column := col }]) := by
  have hNew : tab.data.find? rows.length = none := by
    rw [← Option.not_isSome_iff_eq_none, OrdMap.find?_of_indexed hRows]
    omega
  have hSet : (setLevel fmt col (tab, rows.length) price detail).1.data =
      tab.data.insert rows.length
        (BookLine.row fmt { price, depth := detail.aggregateDepth, column := col }) := by
    simp only [setLevel, Table.set, hNew, OrdMap.find?_insert_self, Option.getD_none,
      Option.getD_some, OrdMap.insert_insert, BookLine.row]
  have hLast := OrdMap.insert_of_indexed hRows
    (BookLine.row fmt { price, depth := detail.aggregateDepth, column := col })
  rw [Nat.zero_add] at hLast
  rw [hSet, hLast]

/-- The loop over the levels of one side. -/
theorem foldl_setLevel {α : Type} (fmt : Formats) (col : ℕ) (price : α → PriceType)
    (detail : α → LevelData) (es : List α) (hRows : tab.data.entries = OrdMap.indexed 0 rows) :
    ∃ tab' rows', es.foldl (fun state e => setLevel fmt col state (price e) (detail e))
        (tab, rows.length) = (tab', rows'.length) ∧
      tab'.data.entries = OrdMap.indexed 0 rows' ∧
      rows' = rows ++ es.map fun e => BookLine.row fmt
        { price := price e, depth := (detail e).aggregateDepth, column := col } := by
  induction es generalizing tab rows with
  | nil => exact ⟨tab, rows, rfl, hRows, (List.append_nil rows).symm⟩
  | cons e es ih =>
    have hFirst := setLevel_data fmt hRows col (price e) (detail e)
    obtain ⟨tab', rows', hLoop, hRows', hAll⟩ := ih hFirst
    refine ⟨tab', rows', ?_, hRows', ?_⟩
    · rw [List.foldl_cons, ← hLoop, List.length_append, List.length_singleton]
      rfl
    · rw [hAll, List.append_assoc]
      rfl

/-- The rows of the table are the lines of the book. -/
theorem values_tabulate (fmt : Formats) (book : OrderBook) :
    (tabulate fmt book).data.values = book.lines.map (BookLine.row fmt) := by
  have hStart : ({} : Table).data.entries = OrdMap.indexed 0 [] := rfl
  obtain ⟨tab, rows, hOffers, hRows, hAll⟩ := foldl_setLevel fmt 2
    (fun e : PriceType × Node LevelData => e.1) (fun e => e.2.val)
    (firstLevels book.offers.ladder).reverse hStart
  obtain ⟨tab', rows', hBids, hRows', hAll'⟩ := foldl_setLevel fmt 0
    (fun e : PriceTypeᵒᵈ × Node LevelData => OrderDual.ofDual e.1) (fun e => e.2.val)
    (firstLevels book.bids.ladder) hRows
  have hTable : tabulate fmt book = tab' := by
    have hState := congrArg (fun state => (firstLevels book.bids.ladder).foldl
      (fun state e => setLevel fmt 0 state (OrderDual.ofDual e.1) e.2.val) state) hOffers
    exact congrArg Prod.fst (hState.trans hBids)
  rw [hTable, OrdMap.values_of_indexed hRows', hAll', hAll, List.nil_append, lines, offerLines,
    bidLines, firstLevels_eq, firstLevels_eq, List.map_append, List.map_map, List.map_map]
  rfl

/-! ### The order of the lines -/

theorem offerLines_pairwise (book : OrderBook) :
    book.offerLines.Pairwise fun above below => below.price < above.price := by
  rw [offerLines, List.pairwise_map, List.pairwise_reverse]
  exact book.offers.ladder.sorted.sublist (List.take_sublist _ _)

theorem bidLines_pairwise (book : OrderBook) :
    book.bidLines.Pairwise fun above below => below.price < above.price := by
  rw [bidLines, List.pairwise_map]
  exact book.bids.ladder.sorted.sublist (List.take_sublist _ _)

/-- The first level of a ladder comes before each other. -/
theorem exists_first {κ : Type} [LinearOrder κ] {ladder : Ladder κ} {e : κ × Node LevelData}
    (he : e ∈ ladder.entries) : ∃ best, ladder.first? = some best ∧ best.1 ≤ e.1 := by
  cases hFirst : ladder.first? with
  | none =>
    rw [OrdMap.first?, List.head?_eq_none_iff] at hFirst
    rw [hFirst] at he
    cases he
  | some best => exact ⟨best, rfl, OrdMap.first?_le hFirst (OrdMap.find?_eq_some.mpr he)⟩

/-- In an uncrossed book prices decrease from the top of the table to its bottom. -/
theorem Uncrossed.lines_pairwise (hUncrossed : book.Uncrossed) :
    book.lines.Pairwise fun above below => below.price < above.price := by
  refine List.pairwise_append.mpr ⟨book.offerLines_pairwise, book.bidLines_pairwise, ?_⟩
  intro offerLine hOfferLine bidLine hBidLine
  obtain ⟨offer, hOffer, rfl⟩ := List.mem_map.mp hOfferLine
  obtain ⟨bid, hBid, rfl⟩ := List.mem_map.mp hBidLine
  obtain ⟨bestOffer, hBestOffer, hOfferLe⟩ :=
    exists_first (List.mem_of_mem_take (List.mem_reverse.mp hOffer))
  obtain ⟨bestBid, hBestBid, hBidLe⟩ := exists_first (List.mem_of_mem_take hBid)
  calc OrderDual.ofDual bid.1
    _ ≤ OrderDual.ofDual bestBid.1 := hBidLe
    _ < bestOffer.1 := hUncrossed bestBid hBestBid bestOffer hBestOffer
    _ ≤ offer.1 := hOfferLe

theorem length_lines (book : OrderBook) : book.lines.length =
    min 10 book.offers.ladder.entries.length + min 10 book.bids.ladder.entries.length := by
  rw [lines, List.length_append, offerLines, bidLines, List.length_map, List.length_map,
    List.length_reverse, List.length_take, List.length_take]

/-- The text of a line in the columns of the table. -/
def lineText (fmt : Formats) (book : OrderBook) (line : BookLine) : String :=
  Table.rowText (tabulate fmt book).calcWidths (line.cell fmt)

theorem fits_lines (fmt : Formats) {line : BookLine} (hLine : line ∈ book.lines) :
    Table.Fits (tabulate fmt book).calcWidths (line.cell fmt) := by
  rw [← line.find?_row fmt]
  refine Table.fits_calcWidths ?_
  rw [values_tabulate]
  exact List.mem_map_of_mem hLine

/-- A book is printed without an underflow, a row for each line. -/
theorem print_eq (fmt : Formats) (book : OrderBook) : print fmt book =
    some (header fmt book ++ "\n".intercalate (book.lines.map (lineText fmt book)) ++ "\n") := by
  rw [print, Table.print_eq, values_tabulate, List.map_map]
  simp only [Function.comp_def, BookLine.find?_row]
  rfl

/-- An uncrossed book is printed as its lines: prices decrease from line to line, the texts of each
line fit in their columns, and all rows have one length. -/
theorem print_lines (fmt : Formats) (hUncrossed : book.Uncrossed) :
    print fmt book =
        some (header fmt book ++ "\n".intercalate (book.lines.map (lineText fmt book)) ++ "\n") ∧
      book.lines.length =
        min 10 book.offers.ladder.entries.length + min 10 book.bids.ladder.entries.length ∧
      (book.lines.Pairwise fun above below => below.price < above.price) ∧
      ∀ line ∈ book.lines, Table.Fits (tabulate fmt book).calcWidths (line.cell fmt) ∧
        (lineText fmt book line).length = (tabulate fmt book).calcWidths.sum +
          3 * ((tabulate fmt book).calcWidths.length - 1) := by
  refine ⟨print_eq fmt book, book.length_lines, hUncrossed.lines_pairwise, fun line hLine => ?_⟩
  exact ⟨fits_lines fmt hLine, Table.length_rowText (fits_lines fmt hLine)⟩

/-- A book with an offer above a bid. -/
def twoLevels : OrderBook :=
  (({} : OrderBook).add ⟨"1", 39628, 1, 1, .buy⟩).add ⟨"2", 39631, 2, 2, .sell⟩

def plainFormats : Formats where
  timePoint t := ToString.toString t
  depth q := ToString.toString q.num
  toString q := ToString.toString q.num

theorem twoLevels_printed : twoLevels.lines.length = 2 ∧
    ∀ line ∈ twoLevels.lines, (lineText plainFormats twoLevels line).length =
      (tabulate plainFormats twoLevels).calcWidths.sum +
        3 * ((tabulate plainFormats twoLevels).calcWidths.length - 1) := by
  obtain ⟨-, hLength, -, hLines⟩ :=
    print_lines plainFormats (show twoLevels.Uncrossed by decide +kernel)
  exact ⟨hLength.trans (by decide +kernel), fun line hLine => (hLines line hLine).2⟩

end OrderBook

end Arby.PowerTrade
