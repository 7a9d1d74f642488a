import SqlLex.Span

namespace SqlLex

/-!
# Fragments

The pieces into which a query is cut before words are known.

* `Fragment` — a text and the span it was found under; `Fragment.ofChar` — that of one character.
* `Fragment.isNumeric` — the text reads as a number.
* `joinWords` — the texts of several fragments as one phrase.
-/

/-- A piece of a query. -/
structure Fragment where
  text : String
  span : Span
deriving DecidableEq, Repr

/-- The fragment of one character. -/
def Fragment.ofChar (position : Nat) (c : Char) : Fragment :=
  ⟨c.toString, ⟨position, position + c.utf8Size⟩⟩

/-- The fragment `n` bytes further to the right. -/
def Fragment.shift (n : Nat) (f : Fragment) : Fragment := ⟨f.text, f.span.shift n⟩

/-- The text is made of digits and points, and is not a point alone.  Neither the number of points
    nor the presence of a digit matters beyond that. -/
def Fragment.isNumeric (f : Fragment) : Bool :=
  let cs := f.text.toList
  !cs.isEmpty && cs != ['.'] && cs.all fun c => c.isDigit || c == '.'

/-- The words in order, with a single space between neighbours. -/
def joinWords (words : List String) : String := " ".intercalate words

@[simp] theorem joinWords_singleton (w : String) : joinWords [w] = w := by
  rw [← String.toList_inj]
  simp [joinWords]

theorem joinWords_cons_cons (w x : String) (ws : List String) :
    joinWords (w :: x :: ws) = w ++ " " ++ joinWords (x :: ws) := by
  rw [← String.toList_inj]
  simp [joinWords]

end SqlLex
