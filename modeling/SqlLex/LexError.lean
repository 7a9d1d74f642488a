import SqlLex.Vocabulary.Check

namespace SqlLex

/-!
# Lexical errors

Why a query has no fragments, or why there is no vocabulary to read it with.

* `LexError` — the causes.
* `LexError.message` — their wording; characters and texts stand in it as they are.
* `LexError.shift` — the same error further to the right.
-/

/-- Why a query cannot be read.  Positions count bytes from the start of the query. -/
inductive LexError where
  /-- A literal that was opened at `position` does not end. -/
  | unterminatedContainer (opener closer : Char) (position : Nat)
  /-- The query ends behind an escape character, which protects nothing. -/
  | unterminatedEscape (position : Nat)
  /-- The number `fragment` already has a point, and a further one follows at `position`. -/
  | invalidNumeric (character : Char) (fragment : String) (position : Nat)
  /-- The tables of the vocabulary have a defect. -/
  | invalidVocabulary (fault : VocabularyError)
deriving DecidableEq, Repr

namespace LexError

/-- The wording of an error. -/
def message : LexError → String
  | .unterminatedContainer opener closer position =>
    "Unexpected end of input: \x60" ++ opener.toString ++ "\x60 opened at byte " ++
      toString position ++ " was never closed by \x60" ++ closer.toString ++ "\x60"
  | .unterminatedEscape position =>
    "Unexpected end of input: dangling escape at byte " ++ toString position
  | .invalidNumeric character fragment position =>
    "Invalid character \x60" ++ character.toString ++ "\x60 at byte " ++ toString position ++
      " after numeric \x60" ++ fragment ++ "\x60: not expecting another . in a numeric"
  | .invalidVocabulary fault => "Invalid vocabulary: " ++ fault.message

/-- The error of a query that stands `n` bytes further to the right. -/
def shift (n : Nat) : LexError → LexError
  | .unterminatedContainer opener closer position =>
    .unterminatedContainer opener closer (n + position)
  | .unterminatedEscape position => .unterminatedEscape (n + position)
  | .invalidNumeric character fragment position =>
    .invalidNumeric character fragment (n + position)
  | .invalidVocabulary fault => .invalidVocabulary fault

end LexError

end SqlLex
