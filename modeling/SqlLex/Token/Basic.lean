import SqlLex.Span
import SqlLex.Token.Kind

namespace SqlLex

/-!
# Tokens

* `Token` — a kind, the words it was read from, and the span they cover.
* `Token.agrees` — equal up to the place in the query.
* `Token.display` — the one-line form.
-/

/-- A classified part of a query. -/
structure Token where
  kind : TokenKind
  raw : String
  span : Span
deriving DecidableEq, Repr

namespace Token

/-- The tokens say the same, wherever they stand. -/
def agrees (t u : Token) : Bool := t.kind == u.kind && t.raw == u.raw

/-- The vocabulary has no word for the token. -/
def isUnknown (t : Token) : Bool := t.kind == .unknown

/-- The token is a literal, a number or an expression. -/
def isValue (t : Token) : Bool := t.kind.category == .value

/-- The token `n` bytes further to the right. -/
def shift (n : Nat) (t : Token) : Token := ⟨t.kind, t.raw, t.span.shift n⟩

/-- The one-line form: the kind and the words as they were written. -/
def display (t : Token) : String := t.kind.name ++ " (Raw: " ++ t.raw ++ ")"

theorem agrees_iff {t u : Token} : t.agrees u = true ↔ t.kind = u.kind ∧ t.raw = u.raw := by
  simp [agrees]

end Token

end SqlLex
