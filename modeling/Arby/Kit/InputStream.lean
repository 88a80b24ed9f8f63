import Mathlib.Data.List.Basic
import Mathlib.Data.List.TakeWhile
import Mathlib.Data.String.Basic

/-! Input streams that are read word by word. A word ends at the first white space after it, and
white space before it is skipped. -/

namespace Kit

/-- The white space of the classic locale. -/
def isSpace : Char → Bool
  | ' ' | '\t' | '\n' | '\x0b' | '\x0c' | '\r' => true
  | _ => false

/-- A text without white space. -/
def Unspaced (text : List Char) : Prop := ∀ c ∈ text, isSpace c = false

instance (text : List Char) : Decidable (Unspaced text) :=
  List.decidableBAll (fun c => isSpace c = false) text

/-- What is left to be read, and the flags. -/
structure InputStream where
  rest : List Char
  eofbit : Bool := false
  failbit : Bool := false
deriving DecidableEq

namespace InputStream

/-- A fresh stream of `content`. -/
def ofString (content : String) : InputStream := { rest := content.toList }

def setFail (is : InputStream) : InputStream := { is with failbit := true }

/-- The stream after the extraction of a word, and the word. It is empty, and the stream fails, when
there is none or the stream is not good. -/
def readWord (is : InputStream) : InputStream × String :=
  if is.eofbit || is.failbit then (is.setFail, "")
  else
    let start := is.rest.dropWhile isSpace
    let word := start.takeWhile fun c => !isSpace c
    let rest := start.dropWhile fun c => !isSpace c
    ({ rest, eofbit := rest.isEmpty, failbit := word.isEmpty }, String.ofList word)

/-- The next word of `content`. -/
def nextWord (content : String) : String := (ofString content).readWord.2

theorem unspaced_word (is : InputStream) : Unspaced is.readWord.2.toList := by
  unfold readWord
  split
  · nofun
  · intro c hc
    rw [String.toList_ofList] at hc
    simpa using List.mem_takeWhile_imp hc

/-- A text without white space is one word, and is read to its end. -/
theorem readWord_unspaced {text : String} (hText : Unspaced text.toList) (hne : text ≠ "") :
    (ofString text).readWord = ({ rest := [], eofbit := true }, text) := by
  have hNil : text.toList ≠ [] := fun h => hne (String.toList_eq_nil_iff.mp h)
  have hStart : text.toList.dropWhile isSpace = text.toList := by
    refine List.dropWhile_eq_self_iff.mpr fun hLength => ?_
    rw [hText _ (List.getElem_mem hLength)]
    simp
  have hWord : text.toList.takeWhile (fun c => !isSpace c) = text.toList :=
    List.takeWhile_eq_self_iff.mpr fun c hc => by rw [hText c hc]; rfl
  have hRest : text.toList.dropWhile (fun c => !isSpace c) = [] :=
    List.dropWhile_eq_nil_iff.mpr fun c hc => by rw [hText c hc]; rfl
  simp [readWord, ofString, hStart, hWord, hRest, hNil]

end InputStream

end Kit
