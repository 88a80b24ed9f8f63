import Mathlib.Computability.Language
import Mathlib.Logic.Relation

/-! Regular expressions with captures, as a backtracking matcher tries them. `run` lists what an
expression can read, the preferred way first. `Matches` says the same without the order, and `Reads`
that what an expression reads are the words of a language. -/

namespace Kit

open Relation Computability

/-- The quantifiers are greedy. `group i` captures what its expression reads as number `i`. -/
inductive Regex
  | empty
  | atom (p : Char → Bool)
  | start
  | finish
  | seq (r s : Regex)
  | alt (r s : Regex)
  | star (r : Regex)
  | group (i : ℕ) (r : Regex)

namespace Regex

/-- The expression, or nothing. -/
def opt (r : Regex) : Regex := alt r empty

def plus (r : Regex) : Regex := seq r (star r)

/-- `n` times the expression. -/
def rep (r : Regex) : ℕ → Regex
  | 0 => empty
  | n + 1 => seq r (rep r n)

/-- One character after the other, each of the class that `p` gives it. -/
def word (p : Char → Char → Bool) : List Char → Regex
  | [] => empty
  | c :: cs => seq (atom (p c)) (word p cs)

/-- What was read, what is left, and the captures. -/
structure State where
  read : List Char
  rest : List Char
  captures : ℕ → Option (List Char) := fun _ => none

namespace State

def advance (st : State) (w rest : List Char) : State := { st with read := st.read ++ w, rest }

/-- What was read since `before` is capture `i`. -/
def capture (st : State) (i : ℕ) (before : State) : State :=
  { st with
    captures := Function.update st.captures i (some (st.read.drop before.read.length)) }

@[simp] theorem advance_nil (st : State) : st.advance [] st.rest = st := by
  simp [advance]

@[simp] theorem advance_advance (st : State) (w w' rest rest' : List Char) :
    (st.advance w rest).advance w' rest' = st.advance (w ++ w') rest' := by
  simp [advance]

end State

/-- Rounds of `f` for as long as they read something, `n` of them at most. -/
def iterate (f : State → List State) : ℕ → State → List State
  | 0, st => [st]
  | n + 1, st =>
    ((f st).filter fun st' => st'.rest.length < st.rest.length).flatMap (iterate f n) ++ [st]

def run : Regex → State → List State
  | empty, st => [st]
  | atom p, st =>
    match st.rest with
    | [] => []
    | c :: rest => if p c then [st.advance [c] rest] else []
  | start, st => if st.read = [] then [st] else []
  | finish, st => if st.rest = [] then [st] else []
  | seq r s, st => (run r st).flatMap (run s)
  | alt r s, st => run r st ++ run s st
  | star r, st => iterate (run r) st.rest.length st
  | group i r, st => (run r st).map fun st' => st'.capture i st

/-- The captures of the first way to read the whole text. -/
def fullMatch (r : Regex) (text : List Char) : Option (ℕ → Option (List Char)) :=
  ((r.run { read := [], rest := text }).find? fun st => st.rest.isEmpty).map State.captures

/-- The expression can take the matcher from the one state to the other. -/
def Matches : Regex → State → State → Prop
  | empty, st, st' => st' = st
  | atom p, st, st' => ∃ c rest, st.rest = c :: rest ∧ p c = true ∧ st' = st.advance [c] rest
  | start, st, st' => st.read = [] ∧ st' = st
  | finish, st, st' => st.rest = [] ∧ st' = st
  | seq r s, st, st' => ∃ st₁, Matches r st st₁ ∧ Matches s st₁ st'
  | alt r s, st, st' => Matches r st st' ∨ Matches s st st'
  | star r, st, st' =>
    ReflTransGen (fun a b => Matches r a b ∧ b.rest.length < a.rest.length) st st'
  | group i r, st, st' => ∃ st₁, Matches r st st₁ ∧ st' = st₁.capture i st

variable {r s : Regex} {st st' : State} {L M : Language Char} {p : Char → Bool} {n : ℕ}
  {w text : List Char}

theorem matches_empty : empty.Matches st st' ↔ st' = st := Iff.rfl

theorem matches_atom : (atom p).Matches st st' ↔
    ∃ c rest, st.rest = c :: rest ∧ p c = true ∧ st' = st.advance [c] rest := Iff.rfl

theorem matches_start : start.Matches st st' ↔ st.read = [] ∧ st' = st := Iff.rfl

theorem matches_finish : finish.Matches st st' ↔ st.rest = [] ∧ st' = st := Iff.rfl

theorem matches_seq :
    (seq r s).Matches st st' ↔ ∃ st₁, r.Matches st st₁ ∧ s.Matches st₁ st' := Iff.rfl

theorem matches_alt : (alt r s).Matches st st' ↔ r.Matches st st' ∨ s.Matches st st' := Iff.rfl

theorem matches_star : (star r).Matches st st' ↔
    ReflTransGen (fun a b => r.Matches a b ∧ b.rest.length < a.rest.length) st st' := Iff.rfl

theorem matches_group {i : ℕ} :
    (group i r).Matches st st' ↔ ∃ st₁, r.Matches st st₁ ∧ st' = st₁.capture i st := Iff.rfl

theorem mem_iterate {f : State → List State} (hn : st.rest.length ≤ n) : st' ∈ iterate f n st ↔
    ReflTransGen (fun a b => b ∈ f a ∧ b.rest.length < a.rest.length) st st' := by
  induction n generalizing st with
  | zero =>
    rw [iterate, List.mem_singleton, ReflTransGen.cases_head_iff]
    refine ⟨fun h => .inl h.symm, ?_⟩
    rintro (rfl | ⟨st₁, ⟨-, hLess⟩, -⟩)
    · rfl
    · omega
  | succ n ih =>
    rw [iterate, List.mem_append, List.mem_flatMap, List.mem_singleton, ReflTransGen.cases_head_iff,
      or_comm, eq_comm]
    refine or_congr_right (exists_congr fun st₁ => ?_)
    rw [List.mem_filter, decide_eq_true_eq]
    refine and_congr_right fun hStep => ih ?_
    omega

/-- The matcher finds what there is, and nothing else. -/
theorem mem_run : st' ∈ r.run st ↔ r.Matches st st' := by
  induction r generalizing st st' with
  | empty => exact List.mem_singleton
  | atom p =>
    rw [run, matches_atom]
    cases hRest : st.rest with
    | nil => simp
    | cons c rest => cases hp : p c <;> simp [hp]
  | start => by_cases h : st.read = [] <;> simp [run, matches_start, h]
  | finish => by_cases h : st.rest = [] <;> simp [run, matches_finish, h]
  | seq r s ihr ihs =>
    rw [run, matches_seq, List.mem_flatMap]
    exact exists_congr fun st₁ => and_congr ihr ihs
  | alt r s ihr ihs =>
    rw [run, matches_alt, List.mem_append]
    exact or_congr ihr ihs
  | star r ih =>
    rw [run, matches_star, mem_iterate le_rfl]
    simp only [ih]
  | group i r ih =>
    rw [run, matches_group, List.mem_map]
    exact exists_congr fun st₁ => and_congr ih eq_comm

theorem fullMatch_isSome : (r.fullMatch text).isSome ↔
    ∃ st, r.Matches { read := [], rest := text } st ∧ st.rest = [] := by
  rw [fullMatch, Option.isSome_map, List.find?_isSome]
  simp only [mem_run, List.isEmpty_iff]

/-- Where all ways to read the text capture the same, the order in which they are tried plays no
part. -/
theorem fullMatch_eq_some {captures : ℕ → Option (List Char)} {Way : State → Prop}
    (hWays : ∀ st, r.Matches { read := [], rest := text } st ∧ st.rest = [] ↔ Way st)
    (hAlike : ∀ st₁ st₂, Way st₁ → Way st₂ → st₁.captures = st₂.captures) :
    r.fullMatch text = some captures ↔ ∃ st, Way st ∧ st.captures = captures := by
  have hFound : ∀ {st : State}, (r.run { read := [], rest := text }).find?
      (fun st => st.rest.isEmpty) = some st → Way st := by
    intro st hFind
    have hEmpty : st.rest.isEmpty = true :=
      List.find?_some (p := fun st : State => st.rest.isEmpty) hFind
    rw [← hWays, ← mem_run]
    exact ⟨List.mem_of_find?_eq_some hFind, List.isEmpty_iff.mp hEmpty⟩
  constructor
  · intro hMatch
    obtain ⟨st, hFind, hCaptures⟩ := Option.map_eq_some_iff.mp hMatch
    exact ⟨st, hFound hFind, hCaptures⟩
  · rintro ⟨st, hWay, rfl⟩
    have hSome : (r.fullMatch text).isSome := by
      rw [fullMatch_isSome]
      exact ⟨st, (hWays st).mpr hWay⟩
    obtain ⟨captures, hMatch⟩ := Option.isSome_iff_exists.mp hSome
    obtain ⟨st₁, hFind, rfl⟩ := Option.map_eq_some_iff.mp hMatch
    rw [hMatch]
    exact congrArg some (hAlike _ _ (hFound hFind) hWay)

/-! ### Expressions without captures -/

/-- The expression reads the words of `L`, wherever it stands, and captures nothing. -/
def Reads (r : Regex) (L : Language Char) : Prop :=
  ∀ st st', r.Matches st st' ↔ ∃ w rest, st.rest = w ++ rest ∧ w ∈ L ∧ st' = st.advance w rest

/-- The one-letter words of a class. -/
def letters (p : Char → Bool) : Language Char := {w | ∃ c, w = [c] ∧ p c = true}

theorem mem_letters : w ∈ letters p ↔ ∃ c, w = [c] ∧ p c = true := Iff.rfl

theorem reads_empty : Reads empty 1 := by
  intro st st'
  simp only [matches_empty, Language.mem_one]
  constructor
  · rintro rfl
    exact ⟨[], st'.rest, rfl, rfl, st'.advance_nil.symm⟩
  · rintro ⟨w, rest, hRest, rfl, rfl⟩
    rw [List.nil_append] at hRest
    rw [← hRest, State.advance_nil]

theorem reads_atom (p : Char → Bool) : Reads (atom p) (letters p) := by
  intro st st'
  simp only [matches_atom, mem_letters]
  constructor
  · rintro ⟨c, rest, hRest, hp, rfl⟩
    exact ⟨[c], rest, hRest, ⟨c, rfl, hp⟩, rfl⟩
  · rintro ⟨w, rest, hRest, ⟨c, rfl, hp⟩, rfl⟩
    exact ⟨c, rest, hRest, hp, rfl⟩

section Fields

variable {read rest : List Char} {captures : ℕ → Option (List Char)} {i : ℕ}

theorem Reads.matches_iff (h : Reads r L) : r.Matches ⟨read, rest, captures⟩ st' ↔
    ∃ w rest', rest = w ++ rest' ∧ w ∈ L ∧ st' = ⟨read ++ w, rest', captures⟩ :=
  h _ _

/-- A group captures the word that its expression reads. -/
theorem Reads.group_iff (h : Reads r L) : (group i r).Matches ⟨read, rest, captures⟩ st' ↔
    ∃ w rest', rest = w ++ rest' ∧ w ∈ L ∧
      st' = ⟨read ++ w, rest', Function.update captures i (some w)⟩ := by
  rw [matches_group]
  constructor
  · rintro ⟨st₁, hMatches, rfl⟩
    obtain ⟨w, rest', rfl, hw, rfl⟩ := h.matches_iff.mp hMatches
    exact ⟨w, rest', rfl, hw, by simp [State.capture]⟩
  · rintro ⟨w, rest', rfl, hw, rfl⟩
    exact ⟨_, h.matches_iff.mpr ⟨w, rest', rfl, hw, rfl⟩, by simp [State.capture]⟩

end Fields

theorem Reads.seq (h : Reads r L) (h' : Reads s M) : Reads (seq r s) (L * M) := by
  intro st st'
  simp only [matches_seq, h st, Language.mem_mul]
  constructor
  · rintro ⟨st₁, ⟨w, rest, hRest, hw, rfl⟩, hNext⟩
    obtain ⟨w', rest', hRest', hw', rfl⟩ := (h' _ _).mp hNext
    refine ⟨w ++ w', rest', ?_, ⟨w, hw, w', hw', rfl⟩, State.advance_advance ..⟩
    rw [hRest, List.append_assoc]
    exact congrArg _ hRest'
  · rintro ⟨_, rest', hRest, ⟨w, hw, w', hw', rfl⟩, rfl⟩
    rw [List.append_assoc] at hRest
    refine ⟨st.advance w (w' ++ rest'), ⟨w, _, hRest, hw, rfl⟩, (h' _ _).mpr ?_⟩
    exact ⟨w', rest', rfl, hw', (State.advance_advance ..).symm⟩

theorem Reads.alt (h : Reads r L) (h' : Reads s M) : Reads (alt r s) (L + M) := by
  intro st st'
  simp only [matches_alt, h st, h' st, Language.mem_add]
  constructor
  · rintro (⟨w, rest, hRest, hw, rfl⟩ | ⟨w, rest, hRest, hw, rfl⟩)
    · exact ⟨w, rest, hRest, .inl hw, rfl⟩
    · exact ⟨w, rest, hRest, .inr hw, rfl⟩
  · rintro ⟨w, rest, hRest, hw | hw, rfl⟩
    · exact .inl ⟨w, rest, hRest, hw, rfl⟩
    · exact .inr ⟨w, rest, hRest, hw, rfl⟩

theorem Reads.opt (h : Reads r L) : Reads (opt r) (L + 1) := h.alt reads_empty

theorem Reads.rep (h : Reads r L) (n : ℕ) : Reads (rep r n) (L ^ n) := by
  induction n with
  | zero => exact reads_empty
  | succ n ih =>
    rw [pow_succ']
    exact h.seq ih

/-- The rounds of a quantifier read something each, which the words of `L∗` allow. -/
theorem Reads.star (h : Reads r L) : Reads (star r) L∗ := by
  intro st st'
  rw [matches_star]
  constructor
  · intro hRounds
    induction hRounds using ReflTransGen.head_induction_on with
    | refl => exact ⟨[], st'.rest, rfl, Language.nil_mem_kstar L, st'.advance_nil.symm⟩
    | head hRound _ ih =>
      rename_i a b
      obtain ⟨w, rest, hRest, hw, rfl⟩ := (h _ _).mp hRound.1
      obtain ⟨w', rest', hRest', hw', rfl⟩ := ih
      refine ⟨w ++ w', rest', ?_, ?_, State.advance_advance ..⟩
      · rw [hRest, List.append_assoc]
        exact congrArg _ hRest'
      · exact Set.mem_of_mem_of_subset (Language.append_mem_mul hw hw') (mul_kstar_le_kstar (a := L))
  · rintro ⟨w, rest, hRest, hw, rfl⟩
    obtain ⟨ws, rfl, hws⟩ := Language.mem_kstar_iff_exists_nonempty.mp hw
    clear hw
    induction ws generalizing st with
    | nil =>
      rw [List.flatten_nil, List.nil_append] at hRest
      rw [List.flatten_nil, ← hRest, State.advance_nil]
    | cons w ws ih =>
      obtain ⟨hw, hNe⟩ := hws w List.mem_cons_self
      rw [List.flatten_cons, List.append_assoc] at hRest
      have hRest' : (st.advance w (ws.flatten ++ rest)).rest = ws.flatten ++ rest := rfl
      have hLater := ih _ (fun y hy => hws y (List.mem_cons_of_mem _ hy)) hRest'
      rw [State.advance_advance] at hLater
      refine .head ⟨(h _ _).mpr ⟨w, _, hRest, hw, rfl⟩, ?_⟩ hLater
      have hPos := List.length_pos_of_ne_nil hNe
      rw [hRest', hRest]
      simp only [List.length_append]
      omega

theorem Reads.plus (h : Reads r L) : Reads (plus r) (L * L∗) := h.seq h.star

theorem mem_letters_pow : w ∈ letters p ^ n ↔ w.length = n ∧ ∀ c ∈ w, p c = true := by
  induction n generalizing w with
  | zero =>
    rw [pow_zero, Language.mem_one, List.length_eq_zero_iff]
    refine ⟨?_, And.left⟩
    rintro rfl
    simp
  | succ n ih =>
    rw [pow_succ', Language.mem_mul]
    constructor
    · rintro ⟨_, ⟨c, rfl, hc⟩, w, hw, rfl⟩
      obtain ⟨hLength, hAll⟩ := ih.mp hw
      exact ⟨congrArg Nat.succ hLength, List.forall_mem_cons.mpr ⟨hc, hAll⟩⟩
    · rintro ⟨hLength, hAll⟩
      cases w with
      | nil => cases hLength
      | cons c w =>
        obtain ⟨hc, hAll⟩ := List.forall_mem_cons.mp hAll
        exact ⟨[c], ⟨c, rfl, hc⟩, w, ih.mpr ⟨Nat.succ.inj hLength, hAll⟩, rfl⟩

theorem mem_letters_star : w ∈ (letters p)∗ ↔ ∀ c ∈ w, p c = true := by
  rw [Language.kstar_eq_iSup_pow, Language.mem_iSup]
  simp only [mem_letters_pow]
  exact ⟨fun ⟨_, _, hAll⟩ => hAll, fun hAll => ⟨_, rfl, hAll⟩⟩

theorem mem_letters_plus : w ∈ letters p * (letters p)∗ ↔ w ≠ [] ∧ ∀ c ∈ w, p c = true := by
  rw [Language.mem_mul]
  constructor
  · rintro ⟨_, ⟨c, rfl, hc⟩, w, hw, rfl⟩
    exact ⟨List.cons_ne_nil c w, List.forall_mem_cons.mpr ⟨hc, mem_letters_star.mp hw⟩⟩
  · rintro ⟨hNe, hAll⟩
    cases w with
    | nil => exact absurd rfl hNe
    | cons c w =>
      obtain ⟨hc, hAll⟩ := List.forall_mem_cons.mp hAll
      exact ⟨[c], ⟨c, rfl, hc⟩, w, mem_letters_star.mpr hAll, rfl⟩

/-- The words that have a letter of the class of each of `cs`. -/
def spellings (p : Char → Char → Bool) (cs : List Char) : Language Char :=
  {w | List.Forall₂ (fun c x => p c x = true) cs w}

theorem reads_word (p : Char → Char → Bool) (cs : List Char) :
    Reads (word p cs) (spellings p cs) := by
  induction cs with
  | nil =>
    have hNil : spellings p [] = 1 := Set.ext fun w => List.forall₂_nil_left_iff
    rw [hNil]
    exact reads_empty
  | cons c cs ih =>
    have hCons : spellings p (c :: cs) = letters (p c) * spellings p cs := by
      refine Set.ext fun w => ?_
      change List.Forall₂ _ (c :: cs) w ↔ w ∈ letters (p c) * spellings p cs
      rw [List.forall₂_cons_left_iff, Language.mem_mul]
      constructor
      · rintro ⟨x, w', hx, hw', rfl⟩
        exact ⟨[x], ⟨x, rfl, hx⟩, w', hw', rfl⟩
      · rintro ⟨_, ⟨x, rfl, hx⟩, w', hw', rfl⟩
        exact ⟨x, w', hx, hw', rfl⟩
    rw [hCons]
    exact (reads_atom _).seq ih

end Regex

end Kit
