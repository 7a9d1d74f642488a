import SqlLex.Fragment.Split
import SqlLex.Proofs.Layout
import SqlLex.Proofs.Lexeme.Stop

namespace SqlLex

open Text

/-!
# Lexemes

The fragments of a query told from the text alone: the lexeme at a position is the longest piece
of text of its sort that starts there, and the next one starts behind it.

* `Vocabulary.PlainDelimiters` — the delimiters leave blanks, numbers, operators, breaking
  characters and escapes alone.
* `literalTail?`, `numeralTail`, `runTail` — what belongs to a literal, a number or any other run,
  behind its first character; `runFault?` — what is wrong with a run.
* `lexemeTail` — what belongs to the lexeme that starts with a given character.
* `munch` — the lexemes of a text, one after the other.
* `runTail_eq` — a run ends before the first character that does not go on with it.
-/

/-! ### Vocabularies with plain delimiters -/

/-- Outside literals the openers would be characters of words, and no delimiter is the escape
    character. -/
structure Vocabulary.PlainDelimiters (v : Vocabulary) : Prop where
  opener_word : ∀ k ∈ v.containers, classOf k.opener = .member .word
  opener_ne_escape : ∀ k ∈ v.containers, k.opener ≠ escapeChar
  closer_ne_escape : ∀ k ∈ v.containers, k.closer ≠ escapeChar

/-! ### Lexemes by their sort -/

/-- The character closes a literal whose text behind the opener is `before`. -/
def closes (k : Container) (before : List Char) (c : Char) : Bool :=
  c == k.closer && !endsEscaped before

/-- The literal of container `k` behind its opener: everything up to and including the first closer
    that is not escaped. -/
def literalTail? (k : Container) (cs : List Char) : Option (List Char) :=
  let x := runUntil (closes k) [] cs
  if x.length < cs.length then some (x ++ [k.closer]) else none

/-- A number behind its first digit: digits, and a point with the digits that follow it. -/
def numeralTail (cs : List Char) : List Char :=
  let digits := cs.takeWhile Char.isDigit
  match cs.drop digits.length with
  | '.' :: ds => digits ++ '.' :: ds.takeWhile Char.isDigit
  | _ => digits

/-- The character ends the word `before`: it is no character of words, or it opens a literal. -/
def endsWord (v : Vocabulary) (before : List Char) (c : Char) : Bool :=
  classOf c != .member .word || (!endsEscaped before && (v.containerOpenedBy? c).isSome)

/-- What belongs to a run that starts with `c`, behind that character. -/
def runTail (v : Vocabulary) (c : Char) (cs : List Char) : RunKind → List Char
  | .number => numeralTail cs
  | .operator => cs.takeWhile (· ∈ operatorChars)
  | .word => runUntil (endsWord v) [c] cs

/-- What is wrong with the run `w` at `position`, which `rest` follows: a number with a point is
    followed by another one, or a word ends the text with an escape. -/
def runFault? (kind : RunKind) (position : Nat) (w rest : List Char) : Option LexError :=
  match kind with
  | .number =>
    if '.' ∈ w ∧ rest.head? = some '.' then
      some (.invalidNumeric '.' (String.ofList w) (position + byteSize w))
    else none
  | .operator => none
  | .word =>
    if rest = [] ∧ endsEscaped w then some (.unterminatedEscape (position + byteSize w.dropLast))
    else none

/-- What belongs to the lexeme that starts with `c` at `position`, behind that character, which is
    not blank. -/
def lexemeTail (v : Vocabulary) (position : Nat) (c : Char) (cs : List Char) :
    Except LexError (List Char) :=
  match v.containerOpenedBy? c with
  | some k =>
    match literalTail? k cs with
    | some w => .ok w
    | none => .error (.unterminatedContainer k.opener k.closer position)
  | none =>
    match classOf c with
    | .member kind =>
      let w := runTail v c cs kind
      match runFault? kind position (c :: w) (cs.drop w.length) with
      | some e => .error e
      | none => .ok w
    | .breaking | .blank => .ok []

/-! ### The lexemes of a text -/

/-- One fragment is completed. -/
def Progress.emit (f : Fragment) : Progress Unit := ⟨[f], .ok ()⟩

/-- Passes over a blank, or completes the lexeme that starts with `c`; answers what has been read
    behind `c`. -/
@[irreducible] def readLexeme (v : Vocabulary) (position : Nat) (c : Char) (cs : List Char) :
    Progress (List Char) :=
  if isBlank c then .pure []
  else
    match lexemeTail v position c cs with
    | .error e => .fail e
    | .ok w => ⟨[.ofList position (c :: w)], .ok w⟩

/-- The lexemes of a text that starts at `position`, without the blanks between them. -/
def munch (v : Vocabulary) (position : Nat) : List Char → Progress Unit
  | [] => .pure ()
  | c :: cs =>
    (readLexeme v position c cs).andThen fun w =>
      munch v (position + byteSize (c :: w)) (cs.drop w.length)
termination_by cs => cs.length
decreasing_by simp only [List.length_drop, List.length_cons]; omega

/-! ### Classes of characters -/

theorem classOf_eq_blank_iff {c : Char} : classOf c = .blank ↔ isBlank c = true := by
  unfold classOf
  repeat' split
  all_goals simp_all

theorem isBlank_of_classOf_ne {c : Char} (h : classOf c ≠ .blank) : isBlank c = false := by
  rwa [Ne, classOf_eq_blank_iff, Bool.not_eq_true] at h

theorem isBlank_of_isDigit {c : Char} (h : c.isDigit = true) : isBlank c = false := by
  -- No blank stands among the digits.
  have hrange : 48 ≤ c.toNat ∧ c.toNat ≤ 57 := by
    simpa [Char.isDigit, UInt32.le_iff_toNat_le] using h
  simp only [isBlank, Bool.or_eq_false_iff, Bool.and_eq_false_iff, decide_eq_false_iff_not,
    beq_eq_false_iff_ne]
  omega

theorem classOf_eq_number_iff {c : Char} : classOf c = .member .number ↔ c.isDigit = true := by
  have := isBlank_of_isDigit (c := c)
  unfold classOf
  repeat' split
  all_goals simp_all

theorem classOf_eq_operator_iff {c : Char} :
    classOf c = .member .operator ↔ c ∈ operatorChars := by
  constructor
  · intro h
    unfold classOf at h
    repeat' split at h
    all_goals simp_all
  · intro h
    simp only [operatorChars, List.mem_cons, List.not_mem_nil, or_false] at h
    rcases h with rfl | rfl | rfl | rfl <;> decide

theorem classOf_eq_breaking_iff {c : Char} : classOf c = .breaking ↔ c ∈ breakingChars := by
  constructor
  · intro h
    unfold classOf at h
    repeat' split at h
    all_goals simp_all
  · intro h
    simp only [breakingChars, List.mem_cons, List.not_mem_nil, or_false] at h
    rcases h with rfl | rfl <;> decide

theorem classOf_point : classOf '.' = .breaking := by decide

theorem classOf_escapeChar : classOf escapeChar = .member .word := by decide

/-- Plain delimiters open nothing where a character has another role. -/
theorem Vocabulary.PlainDelimiters.containerOpenedBy?_eq_none {v : Vocabulary}
    (hv : v.PlainDelimiters) {c : Char} (h : classOf c ≠ .member .word ∨ c = escapeChar) :
    v.containerOpenedBy? c = none := by
  rw [Vocabulary.containerOpenedBy?_eq_none_iff]
  rintro k hk rfl
  rcases h with h | h
  · exact h (hv.opener_word k hk)
  · exact hv.opener_ne_escape k hk h

/-! ### Runs -/

/-- The character does not go on with the run `before` of the given sort. -/
def endsRun (v : Vocabulary) (kind : RunKind) (before : List Char) (c : Char) : Bool :=
  match kind with
  | .number => !(c.isDigit || (c == '.' && !before.contains '.'))
  | .operator => !decide (c ∈ operatorChars)
  | .word => endsWord v before c

theorem numeralTail_eq (v : Vocabulary) {before : List Char} (h : '.' ∉ before)
    (cs : List Char) : numeralTail cs = runUntil (endsRun v .number) before cs := by
  induction cs generalizing before with
  | nil => rfl
  | cons c cs ih =>
    cases hc : c.isDigit with
    | true =>
      -- A digit brings no point, so the rest of the number is of the same form.
      have hne : '.' ∉ before ++ [c] := by
        rintro hm
        rcases List.mem_append.1 hm with hm | hm
        · exact h hm
        · rw [List.mem_singleton] at hm
          exact absurd hc (by rw [← hm]; decide)
      rw [runUntil_of_not_stop (by simp [endsRun, hc]), ← ih hne]
      simp only [numeralTail, List.takeWhile_cons, hc, if_true, List.length_cons,
        List.drop_succ_cons]
      split <;> rfl
    | false =>
      by_cases hp : c = '.'
      · -- Behind the point only digits go on with the number.
        subst hp
        have hdigits : runUntil (endsRun v .number) (before ++ ['.']) cs =
            cs.takeWhile Char.isDigit := by
          rw [takeWhile_eq_runUntil _ []]
          apply runUntil_congr
          intro u d
          simp [endsRun]
        rw [runUntil_of_not_stop (by simp [endsRun, h]), hdigits]
        simp [numeralTail, hc]
      · rw [runUntil_of_stop (by simp [endsRun, hc, hp])]
        simp [numeralTail, hc, hp]

/-- A run goes on up to the first character that does not go on with it. -/
theorem runTail_eq (v : Vocabulary) {c : Char} {kind : RunKind} (h : classOf c = .member kind)
    (cs : List Char) : runTail v c cs kind = runUntil (endsRun v kind) [c] cs := by
  cases kind with
  | number =>
    refine numeralTail_eq v ?_ cs
    rw [List.mem_singleton]
    rintro rfl
    exact absurd h (by decide)
  | operator => exact takeWhile_eq_runUntil _ _ _
  | word => rfl

/-- The characters that go on with a run: those of its sort, an opener in a word only where it is
    escaped, and the first point of a number. -/
theorem endsRun_eq_false_iff {v : Vocabulary} {kind : RunKind} {before : List Char} {c : Char} :
    endsRun v kind before c = false ↔
      (classOf c = .member kind ∧
          (kind = .word → endsEscaped before = true ∨ v.containerOpenedBy? c = none)) ∨
        (kind = .number ∧ c = '.' ∧ '.' ∉ before) := by
  cases kind with
  | number => cases hd : c.isDigit <;> simp [endsRun, classOf_eq_number_iff, hd]
  | operator => simp [endsRun, classOf_eq_operator_iff]
  | word => cases hw : endsEscaped before <;> simp [endsRun, endsWord, hw]

/-- A blank goes on with no run. -/
theorem endsRun_of_isBlank (v : Vocabulary) {c : Char} (h : isBlank c = true) (kind : RunKind)
    (before : List Char) : endsRun v kind before c = true := by
  have hclass : classOf c = .blank := classOf_eq_blank_iff.2 h
  -- It is of no sort, and it is not a point.
  rw [← Bool.not_eq_false, endsRun_eq_false_iff]
  rintro (⟨hc, -⟩ | ⟨-, rfl, -⟩)
  · rw [hclass] at hc
    cases hc
  · exact absurd h (by decide)

theorem runFault?_eq_none_iff {kind : RunKind} {position : Nat} {w rest : List Char} :
    runFault? kind position w rest = none ↔
      ¬(kind = .number ∧ '.' ∈ w ∧ rest.head? = some '.') ∧
        ¬(kind = .word ∧ rest = [] ∧ endsEscaped w = true) := by
  cases kind <;> simp [runFault?]

/-! ### Reading lexemes -/

section Lexeme

variable {v : Vocabulary} {c : Char}

theorem lexemeTail_literal {k : Container} (h : v.containerOpenedBy? c = some k) (position : Nat)
    (cs : List Char) :
    lexemeTail v position c cs =
      match literalTail? k cs with
      | some w => .ok w
      | none => .error (.unterminatedContainer k.opener k.closer position) := by
  simp only [lexemeTail, h]

theorem lexemeTail_run {kind : RunKind} (ho : v.containerOpenedBy? c = none)
    (h : classOf c = .member kind) (position : Nat) (cs : List Char) :
    lexemeTail v position c cs =
      let w := runUntil (endsRun v kind) [c] cs
      match runFault? kind position (c :: w) (cs.drop w.length) with
      | some e => .error e
      | none => .ok w := by
  simp only [lexemeTail, ho, h, runTail_eq v h]

theorem lexemeTail_breaking (ho : v.containerOpenedBy? c = none)
    (h : ∀ kind, classOf c ≠ .member kind) (position : Nat) (cs : List Char) :
    lexemeTail v position c cs = .ok [] := by
  cases hc : classOf c with
  | member kind => exact absurd hc (h kind)
  | blank => simp only [lexemeTail, ho, hc]
  | breaking => simp only [lexemeTail, ho, hc]

theorem readLexeme_blank (h : isBlank c = true) (position : Nat) (cs : List Char) :
    readLexeme v position c cs = .pure [] := by
  unfold readLexeme
  rw [if_pos h]

theorem readLexeme_error (h : isBlank c = false) {position : Nat} {cs : List Char} {e : LexError}
    (he : lexemeTail v position c cs = .error e) : readLexeme v position c cs = .fail e := by
  unfold readLexeme
  rw [if_neg (by simp [h]), he]

theorem readLexeme_ok (h : isBlank c = false) {position : Nat} {cs w : List Char}
    (hw : lexemeTail v position c cs = .ok w) :
    readLexeme v position c cs = ⟨[.ofList position (c :: w)], .ok w⟩ := by
  unfold readLexeme
  rw [if_neg (by simp [h]), hw]

/-! ### Reading a text -/

@[simp] theorem munch_nil (v : Vocabulary) (position : Nat) :
    munch v position [] = .pure () := by rw [munch]

theorem munch_cons (v : Vocabulary) (position : Nat) (c : Char) (cs : List Char) :
    munch v position (c :: cs) =
      (readLexeme v position c cs).andThen fun w =>
        munch v (position + byteSize (c :: w)) (cs.drop w.length) := by rw [munch]

theorem munch_blank (h : isBlank c = true) (position : Nat) (cs : List Char) :
    munch v position (c :: cs) = munch v (position + c.utf8Size) cs := by
  rw [munch_cons, readLexeme_blank h]
  rfl

theorem munch_error (h : isBlank c = false) {position : Nat} {cs : List Char} {e : LexError}
    (he : lexemeTail v position c cs = .error e) : munch v position (c :: cs) = .fail e := by
  rw [munch_cons, readLexeme_error h he]
  rfl

theorem munch_ok (h : isBlank c = false) {position : Nat} {cs w : List Char}
    (hw : lexemeTail v position c cs = .ok w) :
    munch v position (c :: cs) =
      (Progress.emit (.ofList position (c :: w))).andThen fun _ =>
        munch v (position + byteSize (c :: w)) (cs.drop w.length) := by
  rw [munch_cons, readLexeme_ok h hw]
  rfl

/-- Blanks at the front are passed over. -/
theorem munch_blanks {g : List Char} (h : g.all isBlank = true) (position : Nat)
    (cs : List Char) : munch v position (g ++ cs) = munch v (position + byteSize g) cs := by
  induction g generalizing position with
  | nil => rfl
  | cons c g ih =>
    rw [List.all_cons, Bool.and_eq_true] at h
    rw [List.cons_append, munch_blank h.1, ih h.2, byteSize_cons, Nat.add_assoc]

end Lexeme

end SqlLex
