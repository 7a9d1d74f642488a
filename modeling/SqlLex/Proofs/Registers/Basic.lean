import SqlLex.Fragment.Split
import SqlLex.Proofs.Lexeme.Basic

namespace SqlLex

open Text

/-!
# Scanning by places

A scan need not hold the text that it reads.  It is enough to know where the piece being read
starts, and to cut its text out of the query where it ends.

* `cut?` — the text between two places of a query.
* `Registers` — what such a scan knows between two characters.
* `Registers.scanPlain`, `Registers.scan`, `Registers.step` — reading a character;
  `Registers.read`, `Registers.split` — reading a text, and a query.
* `Registers.scanPlain_number` and its likes — what a character outside literals comes to, for each
  class.
-/

/-- The text of the query from the byte `start` to the byte `stop`, if they are boundaries of
    characters with a character between them at least. -/
def cut? (sql : String) (start stop : Nat) : Option String :=
  if start < stop then Span.slice? ⟨start, stop⟩ sql else none

/-! ### Registers -/

/-- What a scan by places knows between two characters. -/
structure Registers where
  /-- The fragments that are complete. -/
  fragments : List Fragment
  /-- Where the piece being read starts, if there is one. -/
  start? : Option Nat
  /-- The container of the literal that is open, if one is, and where it was opened. -/
  container? : Option (Container × Nat)
  /-- An escape waits for its character. -/
  escaped : Bool
  /-- Where the last escape character stands. -/
  escapeAt : Nat
  /-- The sort of the run being read; inside literals, and where nothing is read, that of words. -/
  run : RunKind
deriving DecidableEq, Repr

/-- What a character delimits. -/
inductive Delimiter where
  | opener (container : Container)
  | closer
deriving DecidableEq, Repr

namespace Registers

/-- Nothing has been read. -/
def initial : Registers := ⟨[], none, none, false, 0, .word⟩

/-- The text of the piece being read, up to the byte `stop`; none if it cannot be cut out. -/
def pendingText? (sql : String) (r : Registers) (stop : Nat) : Option String :=
  match r.start? with
  | none => some ""
  | some start => cut? sql start stop

/-- The piece being read, if there is one, ends before the byte `stop`. -/
def flush (sql : String) (r : Registers) (stop : Nat) : Option Registers :=
  match r.start? with
  | none => some r
  | some start => (cut? sql start stop).map fun text =>
    { r with fragments := r.fragments ++ [⟨text, ⟨start, stop⟩⟩], start? := none }

/-- The character at `position` goes on with the piece being read, or else starts one. -/
def extend (r : Registers) (position : Nat) : Registers :=
  { r with start? := some (r.start?.getD position) }

/-- The piece being read ends at `position` unless it is a run of the sort, which is that of the run
    being read from there on. -/
def enter (sql : String) (kind : RunKind) (r : Registers) (position : Nat) : Option Registers :=
  if r.run = kind then some r else (r.flush sql position).map ({ · with run := kind })

/-- A run of the sort ends at `position`. -/
def leave (sql : String) (kind : RunKind) (r : Registers) (position : Nat) : Option Registers :=
  if r.run = kind then (r.flush sql position).map ({ · with run := .word }) else some r

/-- What the character delimits, if anything. -/
def delimiter? (v : Vocabulary) (r : Registers) (c : Char) : Option Delimiter :=
  if r.escaped then none
  else
    match r.container? with
    | some (k, _) => if c = k.closer then some .closer else none
    | none => (v.containerOpenedBy? c).map .opener

/-- Reads a character outside literals that is neither blank nor part of a number. -/
def scanOther (sql : String) (r : Registers) (position : Nat) (c : Char) :
    Option (Except LexError Registers) := do
  let r ← r.leave sql .number position
  if c ∈ operatorChars then
    let r ← r.enter sql .operator position
    return .ok (r.extend position)
  else
    let r ← r.leave sql .operator position
    if c ∈ breakingChars then
      let r ← r.flush sql position
      let r ← { r with start? := some position }.flush sql (position + c.utf8Size)
      return .ok r
    else return .ok (r.extend position)

/-- Reads a character outside literals which opens none. -/
def scanPlain (sql : String) (r : Registers) (position : Nat) (c : Char) :
    Option (Except LexError Registers) :=
  if isBlank c then do
    let r ← r.flush sql position
    return .ok { r with run := .word }
  else if c.isDigit then do
    let r ← r.enter sql .number position
    return .ok (r.extend position)
  else if r.run = .number ∧ c = '.' then do
    let text ← r.pendingText? sql position
    if '.' ∈ text.toList then return .error (.invalidNumeric c text position)
    else return .ok (r.extend position)
  else r.scanOther sql position c

/-- Reads a character, where it is known whether that is escaped. -/
def scan (v : Vocabulary) (sql : String) (r : Registers) (position : Nat) (c : Char) :
    Option (Except LexError Registers) :=
  match r.delimiter? v c with
  | some .closer => do
    let r ← { r with run := .word }.flush sql (position + c.utf8Size)
    return .ok { r with container? := none }
  | some (.opener k) => do
    let r ← { r with run := .word }.flush sql position
    return .ok { r with start? := some position, container? := some (k, position) }
  | none =>
    if r.container?.isSome then some (.ok (r.extend position)) else r.scanPlain sql position c

/-- Reads a character.  An escape character tells of its escape before it is read, and any other
    forgets one behind itself. -/
def step (v : Vocabulary) (sql : String) (r : Registers) (position : Nat) (c : Char) :
    Option (Except LexError Registers) :=
  if c = escapeChar then
    { r with escaped := !r.escaped, escapeAt := position }.scan v sql position c
  else (r.scan v sql position c).map (Except.map ({ · with escaped := false }))

/-- Reads the characters in order, the first of which stands at `position`. -/
def read (v : Vocabulary) (sql : String) (r : Registers) (position : Nat) :
    List Char → Option (Except LexError Registers)
  | [] => some (.ok r)
  | c :: cs =>
    (r.step v sql position c).bind fun
      | .error e => some (.error e)
      | .ok t => t.read v sql (position + c.utf8Size) cs

/-- The end of the query. -/
def finish (sql : String) (r : Registers) (stop : Nat) :
    Option (Except LexError (List Fragment)) :=
  match r.container? with
  | some (k, position) => some (.error (.unterminatedContainer k.opener k.closer position))
  | none =>
    if r.escaped then some (.error (.unterminatedEscape r.escapeAt))
    else (r.flush sql stop).map fun t => .ok t.fragments

/-- The fragments of a query; there is no answer at all if text is cut at a wrong place. -/
def split (v : Vocabulary) (sql : String) : Option (Except LexError (List Fragment)) :=
  (initial.read v sql (bodyStart sql.toList) (bodyOf sql.toList)).bind fun
    | .error e => some (.error e)
    | .ok r => r.finish sql (bodyStart sql.toList + byteSize (bodyOf sql.toList))

/-! ### Characters outside literals -/

section Plain

variable {sql : String} {r t u w x : Registers} {position : Nat} {c : Char}

theorem scanPlain_blank (hc : classOf c = .blank) (hflush : r.flush sql position = some t) :
    r.scanPlain sql position c = some (.ok { t with run := .word }) := by
  rw [scanPlain, if_pos (classOf_eq_blank_iff.1 hc), hflush]
  rfl

theorem scanPlain_number (hc : classOf c = .member .number)
    (henter : r.enter sql .number position = some t) :
    r.scanPlain sql position c = some (.ok (t.extend position)) := by
  have hdigit := classOf_eq_number_iff.1 hc
  rw [scanPlain, if_neg (by simp [isBlank_of_isDigit hdigit]), if_pos hdigit, henter]
  rfl

theorem scanPlain_point (hrun : r.run = .number) {text : String}
    (htext : r.pendingText? sql position = some text) :
    r.scanPlain sql position '.' =
      some (if '.' ∈ text.toList then .error (.invalidNumeric '.' text position)
        else .ok (r.extend position)) := by
  rw [scanPlain, if_neg (by decide), if_neg (by decide), if_pos ⟨hrun, rfl⟩, htext]
  by_cases hpoint : '.' ∈ text.toList <;> simp [hpoint]

/-- What is neither blank nor part of a number is read as such. -/
theorem scanPlain_other (hblank : classOf c ≠ .blank) (hdigit : classOf c ≠ .member .number)
    (hpoint : ¬(r.run = .number ∧ c = '.')) :
    r.scanPlain sql position c = r.scanOther sql position c := by
  rw [Ne, classOf_eq_blank_iff] at hblank
  rw [Ne, classOf_eq_number_iff] at hdigit
  rw [scanPlain, if_neg hblank, if_neg hdigit, if_neg hpoint]

theorem ne_point_of_classOf (hc : classOf c ≠ .breaking) : c ≠ '.' := by
  rintro rfl
  exact hc classOf_point

theorem scanPlain_operator (hc : classOf c = .member .operator)
    (hleave : r.leave sql .number position = some t)
    (henter : t.enter sql .operator position = some u) :
    r.scanPlain sql position c = some (.ok (u.extend position)) := by
  have hpoint := ne_point_of_classOf (c := c) (by simp [hc])
  rw [scanPlain_other (by simp [hc]) (by simp [hc]) (by simp [hpoint]), scanOther, hleave]
  simp [classOf_eq_operator_iff.1 hc, henter]

theorem scanPlain_breaking (hc : classOf c = .breaking) (hpoint : ¬(r.run = .number ∧ c = '.'))
    (hnumber : r.leave sql .number position = some t)
    (hoperator : t.leave sql .operator position = some u) (hflush : u.flush sql position = some w)
    (halone : { w with start? := some position }.flush sql (position + c.utf8Size) = some x) :
    r.scanPlain sql position c = some (.ok x) := by
  have hother : c ∉ operatorChars := by simp [← classOf_eq_operator_iff, hc]
  rw [scanPlain_other (by simp [hc]) (by simp [hc]) hpoint, scanOther, hnumber]
  simp [hother, hoperator, classOf_eq_breaking_iff.1 hc, hflush, halone]

theorem scanPlain_word (hc : classOf c = .member .word)
    (hnumber : r.leave sql .number position = some t)
    (hoperator : t.leave sql .operator position = some u) :
    r.scanPlain sql position c = some (.ok (u.extend position)) := by
  have hpoint := ne_point_of_classOf (c := c) (by simp [hc])
  have hother : c ∉ operatorChars := by simp [← classOf_eq_operator_iff, hc]
  have hbreaking : c ∉ breakingChars := by simp [← classOf_eq_breaking_iff, hc]
  rw [scanPlain_other (by simp [hc]) (by simp [hc]) (by simp [hpoint]), scanOther, hnumber]
  simp [hother, hoperator, hbreaking]

end Plain

end Registers

end SqlLex
