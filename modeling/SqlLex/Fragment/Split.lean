import SqlLex.Fragment.Scan

namespace SqlLex

/-!
# Splitting a query

* `bodyOf` — the part of a query that is read: no blanks around it, and no terminator at its end.
* `splitting` — the run over the body, with the fragments it completed even if it failed.
* `split` — the fragments of a query.
-/

/-- The character that may end a query. -/
def terminator : Char := ';'

/-- The text without one terminator at its end. -/
def dropTerminator (cs : List Char) : List Char :=
  if cs.getLast? = some terminator then cs.dropLast else cs

/-- The part of a query that is read.  What stands before a terminator is left as it is, blanks
    included. -/
def bodyOf (sql : List Char) : List Char := dropTerminator (Text.trim sql)

/-- The position of the body: the number of bytes of the blanks before it. -/
def bodyStart (sql : List Char) : Nat := Text.byteSize (sql.takeWhile Text.isBlank)

/-- Reads the body of a query to its end. -/
def splitting (v : Vocabulary) (sql : String) : Progress Unit :=
  ((Scanner.start (bodyStart sql.toList)).scan v (bodyOf sql.toList)).andThen Scanner.finish

/-- The fragments of a query, with their places in it. -/
def split (v : Vocabulary) (sql : String) : Except LexError (List Fragment) :=
  (splitting v sql).toExcept

/-! ### Laws -/

theorem dropTerminator_append (cs : List Char) : dropTerminator (cs ++ [terminator]) = cs := by
  simp [dropTerminator]

theorem dropTerminator_of_ne {cs : List Char} (h : cs.getLast? ≠ some terminator) :
    dropTerminator cs = cs := by
  simp [dropTerminator, h]

/-- A query that is read has all its completed fragments for an answer. -/
theorem split_eq_ok_iff {v : Vocabulary} {sql : String} {fs : List Fragment} :
    split v sql = .ok fs ↔ splitting v sql = ⟨fs, .ok ()⟩ := by
  unfold split Progress.toExcept
  obtain ⟨gs, e | ⟨⟩⟩ := splitting v sql <;> simp [Except.map]

theorem split_eq_error_iff {v : Vocabulary} {sql : String} {e : LexError} :
    split v sql = .error e ↔ (splitting v sql).outcome = .error e := by
  unfold split Progress.toExcept
  obtain ⟨gs, f | ⟨⟩⟩ := splitting v sql <;> simp [Except.map]

end SqlLex
