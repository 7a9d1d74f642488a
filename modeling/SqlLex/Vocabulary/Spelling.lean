import SqlLex.Text.Blank
import SqlLex.Text.Lowercase

namespace SqlLex

/-!
# Spellings of keywords

A keyword is looked up in one form only: lowercase words with single spaces between them.

* `splitSpaces` — the words of a text, cut at every space, so that two spaces in a row enclose an
  empty word.
* `wordCount` — how many words a spelling has.
* `IsCanonical` — the spelling is in the form that is looked up.
* `length_splitSpaces` — there is one word more than there are spaces.
-/

/-- The parts of a text between its spaces. -/
def splitSpaces : List Char → List (List Char)
  | [] => [[]]
  | c :: cs =>
    if c = ' ' then [] :: splitSpaces cs
    else match splitSpaces cs with
      | [] => [[c]]
      | w :: ws => (c :: w) :: ws

/-- The number of words of a spelling. -/
def wordCount (spelling : String) : Nat := (splitSpaces spelling.toList).length

/-- The spelling is its own lowercase form, and its words are neither empty nor hold a blank. -/
def IsCanonical (spelling : String) : Prop :=
  Text.lowercase spelling = spelling ∧
    ∀ w ∈ splitSpaces spelling.toList, w ≠ [] ∧ w.any Text.isBlank = false

instance (spelling : String) : Decidable (IsCanonical spelling) :=
  inferInstanceAs (Decidable (_ ∧ _))

/-! ### Laws -/

theorem splitSpaces_ne_nil (cs : List Char) : splitSpaces cs ≠ [] := by
  cases cs with
  | nil => simp [splitSpaces]
  | cons c cs =>
    simp only [splitSpaces]
    split
    · simp
    · split <;> simp

theorem length_splitSpaces (cs : List Char) : (splitSpaces cs).length = cs.count ' ' + 1 := by
  induction cs with
  | nil => rfl
  | cons c cs ih =>
    by_cases h : c = ' '
    · simp [splitSpaces, h, ih]
    · have hne := splitSpaces_ne_nil cs
      cases hs : splitSpaces cs with
      | nil => exact absurd hs hne
      | cons w ws =>
        rw [hs] at ih
        simp [splitSpaces, h, hs, ← ih]

theorem wordCount_eq (spelling : String) : wordCount spelling = spelling.toList.count ' ' + 1 :=
  length_splitSpaces _

end SqlLex
