import SqlLex.Fragment.Progress

namespace SqlLex

/-!
# Scanning characters

A query is read character by character.  Outside literals, the class of a character decides whether
it goes on with the piece being read, starts a new one, or stands alone; inside a literal only its
own closing delimiter counts, and an escape character takes that role from the character behind it.

* `CharClass`, `classOf` — what a character does outside literals.
* `Piece` — the fragment being read.
* `Scanner` — the position, the piece being read, and an escape that waits for its character.
* `Scanner.step` — reading one character; `Scanner.scan` — reading a list of them.
* `Scanner.finish` — the end of the query.
* `scan_append` — reading a text in two parts is reading it in one.
-/

/-! ### Classes of characters -/

/-- The characters that make up comparison operators. -/
def operatorChars : List Char := ['=', '<', '>', '!']

/-- The characters that stand alone between words. -/
def breakingChars : List Char := [',', '.']

/-- The character that takes the role of a delimiter from the one behind it. -/
def escapeChar : Char := '\\'

/-- What a run of characters outside literals is made of. -/
inductive RunKind where
  | word | number | operator
deriving DecidableEq, Repr

/-- What a character does outside literals. -/
inductive CharClass where
  /-- It separates fragments. -/
  | blank
  /-- It is a fragment on its own. -/
  | breaking
  /-- It belongs to a run with its neighbours of the same sort. -/
  | member (kind : RunKind)
deriving DecidableEq, Repr

/-- The class of a character. -/
def classOf (c : Char) : CharClass :=
  if Text.isBlank c then .blank
  else if c.isDigit then .member .number
  else if c ∈ operatorChars then .member .operator
  else if c ∈ breakingChars then .breaking
  else .member .word

/-! ### Pieces -/

/-- What the fragment being read is. -/
inductive PieceKind where
  | run (kind : RunKind)
  | literal (container : Container)
deriving DecidableEq, Repr

/-- The fragment being read, with the position of its first character. -/
structure Piece where
  kind : PieceKind
  start : Nat
  text : String
deriving DecidableEq, Repr

namespace Piece

/-- A piece of one character. -/
def singleton (kind : PieceKind) (position : Nat) (c : Char) : Piece :=
  ⟨kind, position, c.toString⟩

/-- The piece with one more character. -/
def push (p : Piece) (c : Char) : Piece := { p with text := p.text.push c }

/-- The fragment that the piece has become. -/
def toFragment (p : Piece) : Fragment := ⟨p.text, ⟨p.start, p.start + p.text.utf8ByteSize⟩⟩

end Piece

/-- The piece being read, if it is a literal, with its container. -/
def openLiteral? (pending : Option Piece) : Option (Piece × Container) :=
  match pending with
  | none => none
  | some p =>
    match p.kind with
    | .run _ => none
    | .literal k => some (p, k)

/-- The fragment that ends where the reading of a piece, if any, stops. -/
def completed (pending : Option Piece) : List Fragment := (pending.map Piece.toFragment).toList

/-! ### Reading one character -/

/-- A character joins the run being read if that is of its sort, and else starts a run. -/
def joinRun (pending : Option Piece) (kind : RunKind) (position : Nat) (c : Char) :
    Progress (Option Piece) :=
  match pending with
  | some p =>
    if p.kind = .run kind then .pure (some (p.push c))
    else ⟨[p.toFragment], .ok (some (.singleton (.run kind) position c))⟩
  | none => .pure (some (.singleton (.run kind) position c))

/-- A breaking character is a fragment on its own. -/
def standAlone (pending : Option Piece) (position : Nat) (c : Char) : Progress (Option Piece) :=
  ⟨completed pending ++ [.ofChar position c], .ok none⟩

/-- A point goes on with a number that has none yet, is an error behind one that has, and stands
    alone elsewhere. -/
def readPoint (pending : Option Piece) (position : Nat) : Progress (Option Piece) :=
  match pending with
  | some p =>
    if p.kind = .run .number then
      if '.' ∈ p.text.toList then .fail (.invalidNumeric '.' p.text position)
      else .pure (some (p.push '.'))
    else standAlone pending position '.'
  | none => standAlone pending position '.'

/-- Reads a character outside literals which opens none. -/
def readPlain (pending : Option Piece) (position : Nat) (c : Char) : Progress (Option Piece) :=
  match classOf c with
  | .blank => ⟨completed pending, .ok none⟩
  | .member kind => joinRun pending kind position c
  | .breaking => if c = '.' then readPoint pending position else standAlone pending position c

/-- Reads a character of the literal `p` of container `k`; an `escaped` one does not close it. -/
def readLiteral (k : Container) (p : Piece) (escaped : Bool) (c : Char) :
    Progress (Option Piece) :=
  if !escaped && c == k.closer then ⟨[(p.push c).toFragment], .ok none⟩
  else .pure (some (p.push c))

/-- Reads a character outside literals; an `escaped` one opens none. -/
def readOutside (v : Vocabulary) (pending : Option Piece) (escaped : Bool) (position : Nat)
    (c : Char) : Progress (Option Piece) :=
  match if escaped then none else v.containerOpenedBy? c with
  | some k => ⟨completed pending, .ok (some (.singleton (.literal k) position c))⟩
  | none => readPlain pending position c

/-- Reads a character behind the piece `pending`. -/
def readChar (v : Vocabulary) (pending : Option Piece) (escaped : Bool) (position : Nat)
    (c : Char) : Progress (Option Piece) :=
  match openLiteral? pending with
  | some (p, k) => readLiteral k p escaped c
  | none => readOutside v pending escaped position c

/-! ### Reading a text -/

/-- The state between two characters: the position of the next one, the piece being read, and the
    position of an escape character that waits for the one it protects. -/
structure Scanner where
  position : Nat
  pending : Option Piece
  escape? : Option Nat
deriving DecidableEq, Repr

namespace Scanner

/-- Nothing has been read, and the next character stands at `position`. -/
def start (position : Nat) : Scanner := ⟨position, none, none⟩

/-- The next character, `c`, cannot be a delimiter: an escape waits for it, or it is an escape
    character that starts one.  An escape character that is itself escaped can be a delimiter. -/
def isEscaped (s : Scanner) (c : Char) : Bool :=
  if c = escapeChar then s.escape?.isNone else s.escape?.isSome

/-- The escape that waits behind the character `c`. -/
def escapeAfter (s : Scanner) (c : Char) : Option Nat :=
  if c = escapeChar && s.escape?.isNone then some s.position else none

/-- Reads the character `c`. -/
def step (v : Vocabulary) (s : Scanner) (c : Char) : Progress Scanner :=
  (readChar v s.pending (s.isEscaped c) s.position c).andThen fun pending =>
    .pure ⟨s.position + c.utf8Size, pending, s.escapeAfter c⟩

/-- Reads the characters in order. -/
def scan (v : Vocabulary) (s : Scanner) : List Char → Progress Scanner
  | [] => .pure s
  | c :: cs => (s.step v c).andThen fun t => t.scan v cs

/-- The end of the query: a literal must not be open, and no escape may wait. -/
def finish (s : Scanner) : Progress Unit :=
  match openLiteral? s.pending with
  | some (p, k) => .fail (.unterminatedContainer k.opener k.closer p.start)
  | none =>
    match s.escape? with
    | some position => .fail (.unterminatedEscape position)
    | none => ⟨completed s.pending, .ok ()⟩

/-! ### Laws -/

@[simp] theorem scan_nil (v : Vocabulary) (s : Scanner) : s.scan v [] = .pure s := rfl

theorem scan_cons (v : Vocabulary) (s : Scanner) (c : Char) (cs : List Char) :
    s.scan v (c :: cs) = (s.step v c).andThen fun t => t.scan v cs := rfl

/-- Reading a text in two parts is reading it in one. -/
theorem scan_append (v : Vocabulary) (s : Scanner) (cs ds : List Char) :
    s.scan v (cs ++ ds) = (s.scan v cs).andThen fun t => t.scan v ds := by
  induction cs generalizing s with
  | nil => rfl
  | cons c cs ih =>
    rw [List.cons_append, scan_cons, scan_cons, Progress.andThen_assoc]
    congr 1
    funext t
    exact ih t

end Scanner

end SqlLex
