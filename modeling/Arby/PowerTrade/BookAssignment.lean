import Arby.PowerTrade.CatchUp

/-! Several books that replay ticks and are assigned to one another. -/

namespace Arby.PowerTrade

open Trading Kit

/-! ### Sides with empty caches -/

namespace BookSide

variable {κ : Type} [LinearOrder κ] {s r : BookSide κ}

theorem Indexed.not_stale (h : s.Placed) (hi : s.Indexed) (id : String) : s.stale id = false := by
  rw [← Bool.not_eq_true, h.stale_iff]
  rintro ⟨entry, hEntry, hNot⟩
  obtain ⟨qty, hRests⟩ := (hi id entry).mp hEntry
  exact hNot _ hRests

/-- The source has an id once, so that the copy has it once. -/
theorem Indexed.assign_unique (hr : r.Indexed) {e f : CacheEntry} {id : String} {q q' : QtyType}
    (he : (s.assign r).RestsAt e ⟨id, q⟩) (hf : (s.assign r).RestsAt f ⟨id, q'⟩) : e = f := by
  obtain ⟨e', rfl, he'⟩ := restsAt_assign.mp he
  obtain ⟨f', rfl, hf'⟩ := restsAt_assign.mp hf
  rw [hr.unique he' hf']

/-- An index that starts empty holds the positions of the copied orders. -/
theorem Indexed.assign (hr : r.Indexed) (hEmpty : s.cache = ∅) : (s.assign r).Indexed := by
  intro id entry
  constructor
  · intro hEntry
    rcases cache_assign hEntry with hOld | ⟨-, hRests⟩
    · rw [hEmpty, Finmap.lookup_empty] at hOld
      cases hOld
    · exact hRests
  · rintro ⟨qty, hRests⟩
    have hMem : (id, entry) ∈ positions (s.assign r).ladder := mem_positions.mpr ⟨qty, hRests⟩
    change (reindex s.cache (s.assign r).ladder).lookup id = some entry
    rw [lookup_reindex, hEmpty, Finmap.lookup_empty, Option.none_or]
    cases hFind : (positions (s.assign r).ladder).find? (·.1 = id) with
    | none =>
      rw [List.find?_eq_none] at hFind
      exact absurd rfl (of_decide_eq_false (Bool.not_eq_true _ ▸ hFind _ hMem))
    | some p =>
      obtain ⟨id', first⟩ := p
      obtain rfl : id' = id := by simpa using List.find?_some hFind
      obtain ⟨qty', hFirst⟩ := mem_positions.mp (List.mem_of_find?_eq_some hFind)
      exact congrArg some (hr.assign_unique hFirst hRests)

/-- An entry that was in the cache before stays there and refers to a node that is gone. -/
theorem Placed.cache_eq_empty (hs : s.Placed) (hr : r.Placed) (hi : (s.assign r).Indexed) :
    s.cache = ∅ := by
  apply Finmap.ext_lookup
  intro id
  rw [Finmap.lookup_empty]
  cases hEntry : s.cache.lookup id with
  | none => rfl
  | some entry =>
    have hStale := hs.stale_assign hr hEntry
    rw [hi.not_stale (hs.assign hr)] at hStale
    cases hStale

/-- The index of a side that has one already is what it was when it is built again. -/
theorem Indexed.reindex_eq (hi : s.Indexed) : reindex s.cache s.ladder = s.cache := by
  apply Finmap.ext_lookup
  intro id
  rw [lookup_reindex]
  cases hEntry : s.cache.lookup id with
  | some entry => rfl
  | none =>
    rw [Option.none_or, Option.map_eq_none_iff, List.find?_eq_none]
    intro p hp hId
    obtain ⟨qty, hRests⟩ := mem_positions.mp hp
    have hCached := (hi p.1 p.2).mpr ⟨qty, hRests⟩
    rw [of_decide_eq_true hId, hEntry] at hCached
    cases hCached

end BookSide

namespace OrderBook

/-! ### Two books with the same ticks -/

/-- One tick on both books. -/
def replayBoth (books : OrderBook × OrderBook) (t : TickRecord) : Option (OrderBook × OrderBook) := do
  let book ← books.1.replayTick t
  let r ← books.2.replayTick t
  return (book, r)

/-- The two books can replay any later ticks, without executions, and are equal after each. -/
def StaysSame (book r : OrderBook) : Prop :=
  ∀ ticks : List TickRecord, (∀ t ∈ ticks, t.isExecute = false) →
    Safe replayBoth (fun _ _ books => books.1.same books.2) (book, r) ticks

variable {book r : OrderBook} {t : TickRecord}

theorem goodAfter_all (t : TickRecord) : goodAfter (fun _ _ => true) t = fun _ _ => true := by
  cases t <;> simp [goodAfter]

theorem namesGood_all (t : TickRecord) : namesGood (fun _ _ => true) t = true := by
  cases t <;> rfl

theorem not_emptiesLevel (ht : t.isExecute = false) : ¬ book.EmptiesLevel t := by
  cases t with
  | execute => cases ht
  | add | remove | snapshot => exact id

/-- Books that correspond on every id stay equal. -/
theorem InStep.staysSame (h : InStep (fun _ _ => true) book r) (hPlaced : r.Placed)
    (hLinked : r.Linked) : book.StaysSame r := by
  intro ticks hTicks
  induction ticks generalizing book r with
  | nil => trivial
  | cons t ticks ih =>
    have ht := hTicks t (by simp)
    obtain ⟨r', hr'⟩ := Option.isSome_iff_exists.mp
      ((hLinked.replayTick_isSome hPlaced t).mpr (not_emptiesLevel ht))
    obtain ⟨book', hBook', h'⟩ := h.replayTick (namesGood_all t) hr'
    rw [goodAfter_all] at h'
    refine ⟨(book', r'), by simp [replayBoth, hBook', hr'], h'.same, ?_⟩
    exact ih h' (hPlaced.replayTick hr') (hLinked.replayTick hPlaced hr')
      fun t ht => hTicks t (List.mem_cons_of_mem _ ht)

/-- A book stays equal to itself. -/
theorem staysSame_self (hPlaced : book.Placed) (hLinked : book.Linked) : book.StaysSame book := by
  intro ticks hTicks
  induction ticks generalizing book with
  | nil => trivial
  | cons t ticks ih =>
    have ht := hTicks t (by simp)
    obtain ⟨book', hBook⟩ := Option.isSome_iff_exists.mp
      ((hLinked.replayTick_isSome hPlaced t).mpr (not_emptiesLevel ht))
    refine ⟨(book', book'), by simp [replayBoth, hBook], ⟨rfl, rfl, rfl⟩, ?_⟩
    exact ih (hPlaced.replayTick hBook) (hLinked.replayTick hPlaced hBook)
      fun t ht => hTicks t (List.mem_cons_of_mem _ ht)

theorem notStale_of_indexed (h : book.Placed) (hi : book.Indexed) :
    book.notStale = fun _ _ => true := by
  funext d id
  rw [notStale, (hi d).not_stale (h d)]
  rfl

/-- `operator=` on the book itself: the members are assigned to themselves, and the loops find an
entry for every id. -/
def assignSelf (book : OrderBook) : OrderBook where
  lastUpdate := book.lastUpdate
  offers := { book.offers with cache := BookSide.reindex book.offers.cache book.offers.ladder }
  bids := { book.bids with cache := BookSide.reindex book.bids.cache book.bids.ladder }

theorem assignSelf_eq (hi : book.Indexed) : book.assignSelf = book := by
  have hBids : BookSide.reindex book.bids.cache book.bids.ladder = book.bids.cache :=
    (hi .buy).reindex_eq
  have hOffers : BookSide.reindex book.offers.cache book.offers.ladder = book.offers.cache :=
    (hi .sell).reindex_eq
  rw [assignSelf, hBids, hOffers]

end OrderBook

/-! ### Runs -/

/-- A tick on book `i`, or `book i = book j`. -/
inductive BooksOp (ι : Type)
  | tick (i : ι) (t : TickRecord)
  | assign (i j : ι)

namespace BooksOp

variable {ι : Type}

def step [DecidableEq ι] (books : ι → OrderBook) : BooksOp ι → Option (ι → OrderBook)
  | .tick i t => do
    let book ← (books i).replayTick t
    return Function.update books i book
  | .assign i j =>
    some <| Function.update books i <|
      if i = j then (books i).assignSelf else (books i).assign (books j)

/-- The ticks are no executions, and add no id that rests on its side. -/
def Admissible (books : ι → OrderBook) : BooksOp ι → Prop
  | .tick i t => t.isExecute = false ∧ (books i).FreshIds t
  | .assign _ _ => True

/-- After an assignment the caches have the ids that rest in the book, each with its own position
there, and the two books stay equal. -/
def Copies (_ : ι → OrderBook) (op : BooksOp ι) (books : ι → OrderBook) : Prop :=
  match op with
  | .tick _ _ => True
  | .assign i j => (books i).Indexed ∧ (books i).StaysSame (books j)

/-- The book that is assigned to has nothing in its caches, or is the source. -/
def IntoEmpty (books : ι → OrderBook) : BooksOp ι → Prop
  | .tick _ _ => True
  | .assign i j => i = j ∨ (books i).bids.cache = ∅ ∧ (books i).offers.cache = ∅

instance (books : ι → OrderBook) (op : BooksOp ι) : Decidable (Admissible books op) :=
  match op with
  | .tick _ _ | .assign _ _ => by
    dsimp only [Admissible]
    infer_instance

instance [DecidableEq ι] (books : ι → OrderBook) (op : BooksOp ι) :
    Decidable (IntoEmpty books op) :=
  match op with
  | .tick _ _ | .assign _ _ => by
    dsimp only [IntoEmpty]
    infer_instance

/-- The invariant: every book's caches are its own. -/
def AllIndexed (books : ι → OrderBook) : Prop := ∀ i, (books i).Placed ∧ (books i).Indexed

variable {books books' : ι → OrderBook} {op : BooksOp ι} {i j : ι}

theorem AllIndexed.linked (h : AllIndexed books) (i : ι) : (books i).Linked :=
  fun d => ((h i).2 d).linked

theorem AllIndexed.update [DecidableEq ι] (h : AllIndexed books) {book : OrderBook} (hPlaced : book.Placed)
    (hIndexed : book.Indexed) : AllIndexed (Function.update books i book) := by
  intro k
  by_cases hk : k = i
  · subst hk
    rw [Function.update_self]
    exact ⟨hPlaced, hIndexed⟩
  · rw [Function.update_of_ne hk]
    exact h k

/-- The book that is assigned to is indexed exactly when its caches were empty. -/
theorem AllIndexed.assign_iff (h : AllIndexed books) :
    ((books i).assign (books j)).Indexed ↔
      (books i).bids.cache = ∅ ∧ (books i).offers.cache = ∅ := by
  constructor
  · intro hIndexed
    exact ⟨((h i).1 .buy).cache_eq_empty ((h j).1 .buy) (hIndexed .buy),
      ((h i).1 .sell).cache_eq_empty ((h j).1 .sell) (hIndexed .sell)⟩
  · rintro ⟨hBids, hOffers⟩ d
    cases d with
    | buy => exact ((h j).2 .buy).assign hBids
    | sell => exact ((h j).2 .sell).assign hOffers

theorem AllIndexed.tick (h : AllIndexed books) {t : TickRecord}
    (hTick : Admissible books (.tick i t)) :
    ∃ book, (books i).replayTick t = some book ∧ book.Placed ∧ book.Indexed := by
  obtain ⟨hPlaced, hIndexed⟩ := h i
  obtain ⟨book, hBook⟩ := Option.isSome_iff_exists.mp
    (((h.linked i).replayTick_isSome hPlaced t).mpr (OrderBook.not_emptiesLevel hTick.1))
  exact ⟨book, hBook, hPlaced.replayTick hBook,
    OrderBook.Indexed.replayTick hPlaced (.inr hIndexed) hTick.2 hBook⟩

/-- The step lemma. -/
theorem AllIndexed.copies_iff [DecidableEq ι] (h : AllIndexed books) (hOp : Admissible books op) :
    IntoEmpty books op ↔ ∃ books', step books op = some books' ∧ Copies books op books' := by
  cases op with
  | tick i t =>
    obtain ⟨book, hBook, -⟩ := h.tick hOp
    exact ⟨fun _ => ⟨_, by simp only [step, hBook]; rfl, trivial⟩, fun _ => trivial⟩
  | assign i j =>
    by_cases hSelf : i = j
    · subst hSelf
      refine ⟨fun _ => ⟨_, rfl, ?_⟩, fun _ => .inl rfl⟩
      simp only [Copies, if_true, Function.update_self, OrderBook.assignSelf_eq (h i).2]
      exact ⟨(h i).2, OrderBook.staysSame_self (h i).1 (h.linked i)⟩
    · have hStep : step books (.assign i j) =
          some (Function.update books i ((books i).assign (books j))) := by
        rw [step, if_neg hSelf]
      have hOther : Function.update books i ((books i).assign (books j)) j = books j :=
        Function.update_of_ne (Ne.symm hSelf) _ _
      constructor
      · rintro (hSame | hEmpty)
        · exact absurd hSame hSelf
        · have hIndexed : ((books i).assign (books j)).Indexed := h.assign_iff.mpr hEmpty
          have hInStep := OrderBook.inStep_assign (h i).1 (h j).1 (h j).2
          rw [OrderBook.notStale_of_indexed (OrderBook.placed_assign (h i).1 (h j).1) hIndexed]
            at hInStep
          refine ⟨_, hStep, ?_⟩
          simp only [Copies, Function.update_self, hOther]
          exact ⟨hIndexed, hInStep.staysSame (h j).1 (h.linked j)⟩
      · rintro ⟨books', hBooks, hCopies⟩
        obtain rfl := Option.some.inj (hStep.symm.trans hBooks)
        simp only [Copies, Function.update_self] at hCopies
        exact .inr (h.assign_iff.mp hCopies.1)

theorem AllIndexed.step [DecidableEq ι] (h : AllIndexed books) (hOp : Admissible books op)
    (hEmpty : IntoEmpty books op) (hStep : step books op = some books') : AllIndexed books' := by
  cases op with
  | tick i t =>
    obtain ⟨book, hBook, hPlaced, hIndexed⟩ := h.tick hOp
    simp only [BooksOp.step, hBook] at hStep
    obtain rfl := Option.some.inj hStep
    exact h.update hPlaced hIndexed
  | assign i j =>
    obtain rfl := Option.some.inj hStep
    by_cases hSelf : i = j
    · rw [if_pos hSelf, OrderBook.assignSelf_eq (h i).2]
      exact h.update (h i).1 (h i).2
    · rw [if_neg hSelf]
      exact h.update (OrderBook.placed_assign (h i).1 (h j).1)
        (h.assign_iff.mpr (hEmpty.resolve_left hSelf))

/-- Every assignment of a run makes an equal and indexed book exactly when every one is to a book
with empty caches or to the source itself. -/
theorem copies_run_iff [DecidableEq ι] {ops : List (BooksOp ι)}
    (hOps : Along step Admissible (fun _ => {}) ops) :
    Safe step Copies (fun _ => {}) ops ↔ Along step IntoEmpty (fun _ => {}) ops :=
  safe_iff_along (I := AllIndexed) (fun _ _ h hOp => h.copies_iff hOp)
    (fun _ _ _ h hOp hEmpty hStep => h.step hOp hEmpty hStep)
    (fun _ => ⟨OrderBook.placed_empty, OrderBook.indexed_empty⟩) hOps

/-- A snapshot is built up in book 0, copied to the new book 1, and copied again there after both
had more ticks. -/
def recycledCopy : List (BooksOp ℕ) :=
  [.tick 0 (.add ⟨"1", 100, 1, 1, .buy⟩), .assign 1 0, .assign 1 1,
    .tick 0 (.add ⟨"2", 100, 2, 2, .buy⟩), .tick 1 (.remove ⟨"1", 3, .buy⟩), .assign 1 0]

theorem recycledCopy_copies : Safe step Copies (fun _ => {}) recycledCopy :=
  (copies_run_iff (by decide +kernel)).mpr (by decide +kernel)

/-- Book 1 has an order of its own when book 0 is assigned to it. The removal of that order looks up
the node that it had. -/
def staleCopy : List (BooksOp ℕ) :=
  [.tick 0 (.add ⟨"1", 100, 1, 1, .buy⟩), .tick 1 (.add ⟨"2", 100, 2, 2, .buy⟩), .assign 1 0]

theorem staleCopy_not_copies : Along step Admissible (fun _ => {}) staleCopy ∧
    ¬ Safe step Copies (fun _ => {}) staleCopy := by
  refine ⟨by decide +kernel, ?_⟩
  rintro ⟨books₁, h₁, -, books₂, h₂, -, books₃, h₃, ⟨-, hStays⟩, -⟩
  obtain ⟨books₄, h₄, -⟩ := hStays [.remove ⟨"2", 3, .buy⟩] (by decide)
  have hRun : run step (fun _ => {}) staleCopy = some books₃ := by
    simp only [staleCopy, run_cons, h₁, h₂, h₃, Option.bind_some, run_nil]
  have hRemove : (run step (fun _ => {}) staleCopy).bind
      (fun books => (OrderBook.replayBoth (books 1, books 0) (.remove ⟨"2", 3, .buy⟩)).map
        fun _ => ()) = none := by
    decide +kernel
  rw [hRun, Option.bind_some, h₄] at hRemove
  cases hRemove

end BooksOp

end Arby.PowerTrade
