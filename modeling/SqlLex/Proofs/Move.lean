import SqlLex.Proofs.MaximalMunch

namespace SqlLex

open Text

/-!
# What a character does

A character does one of a few things to the piece being read.  Which one is told from the piece and
the character alone, not from where they stand; what it comes to is told from the move.

* `Move`, `moveOf` — the moves, and the move of a character; `Move.apply` — what a move comes to.
* `readChar_eq_apply` — reading a character is making its move.
* `Makes`, `makes_moveOf` — when a character makes a move, for each of them.
-/

variable {v : Vocabulary}

/-! ### Moves -/

/-- What a character does to the piece being read, if there is one. -/
inductive Move where
  /-- It goes on with the piece. -/
  | push
  /-- It ends the piece, as its last character. -/
  | close
  /-- It ends the piece and starts another one. -/
  | next (kind : PieceKind)
  /-- It ends the piece and is passed over. -/
  | skip
  /-- It ends the piece and is a fragment on its own. -/
  | alone
  /-- It cannot follow the piece. -/
  | fault
deriving DecidableEq, Repr

/-- The piece being read is of the given kind. -/
def isReading (kind : PieceKind) (pending : Option Piece) : Bool :=
  pending.any fun p => p.kind == kind

/-- The move of a character outside literals which opens none. -/
def plainMove (pending : Option Piece) (c : Char) : Move :=
  match classOf c with
  | .blank => .skip
  | .member kind => if isReading (.run kind) pending then .push else .next (.run kind)
  | .breaking =>
    if c = '.' ∧ isReading (.run .number) pending then
      if pending.any fun p => p.text.toList.contains '.' then .fault else .push
    else .alone

/-- The move of a character. -/
def moveOf (v : Vocabulary) (pending : Option Piece) (escaped : Bool) (c : Char) : Move :=
  match openLiteral? pending with
  | some (_, k) => if !escaped && c == k.closer then .close else .push
  | none =>
    match if escaped then none else v.containerOpenedBy? c with
    | some k => .next (.literal k)
    | none => plainMove pending c

/-- What a move comes to. -/
def Move.apply (pending : Option Piece) (position : Nat) (c : Char) :
    Move → Progress (Option Piece)
  | .push => .pure (pending.map (·.push c))
  | .close => ⟨completed (pending.map (·.push c)), .ok none⟩
  | .next kind => ⟨completed pending, .ok (some (.singleton kind position c))⟩
  | .skip => ⟨completed pending, .ok none⟩
  | .alone => ⟨completed pending ++ [.ofChar position c], .ok none⟩
  | .fault => .fail (.invalidNumeric c ((pending.map (·.text)).getD "") position)

theorem plainMove_blank {c : Char} (h : classOf c = .blank) (pending : Option Piece) :
    plainMove pending c = .skip := by
  unfold plainMove
  rw [h]

theorem plainMove_member {c : Char} {kind : RunKind} (h : classOf c = .member kind)
    (pending : Option Piece) :
    plainMove pending c = if isReading (.run kind) pending then .push else .next (.run kind) := by
  unfold plainMove
  rw [h]

theorem plainMove_breaking {c : Char} (h : classOf c = .breaking) (pending : Option Piece) :
    plainMove pending c =
      if c = '.' ∧ isReading (.run .number) pending then
        if pending.any fun p => p.text.toList.contains '.' then .fault else .push
      else .alone := by
  unfold plainMove
  rw [h]

theorem readPlain_eq_apply (pending : Option Piece) (position : Nat) (c : Char) :
    readPlain pending position c = (plainMove pending c).apply pending position c := by
  cases hc : classOf c with
  | blank => rw [readPlain_blank hc, plainMove_blank hc, Move.apply]
  | member kind =>
    rw [readPlain_member hc, plainMove_member hc]
    cases pending with
    | none => simp [joinRun, isReading, Move.apply, completed, Progress.pure]
    | some p => by_cases hk : p.kind = .run kind <;>
        simp [joinRun, isReading, hk, Move.apply, completed]
  | breaking =>
    rw [readPlain_breaking hc, plainMove_breaking hc]
    by_cases hdot : c = '.'
    · subst hdot
      cases pending with
      | none => simp [readPoint, isReading, Move.apply, standAlone]
      | some p =>
        by_cases hk : p.kind = .run .number <;> by_cases hp : '.' ∈ p.text.toList <;>
          simp [readPoint, isReading, hk, hp, Move.apply, standAlone]
    · simp [hdot, standAlone, Move.apply]

theorem openLiteral?_eq_some_iff {pending : Option Piece} {p : Piece} {k : Container} :
    openLiteral? pending = some (p, k) ↔ pending = some p ∧ p.kind = .literal k := by
  obtain _ | ⟨kind | l, position, text⟩ := pending
  · simp [openLiteral?]
  · simp only [openLiteral?, Option.some.injEq]
    constructor
    · intro h
      cases h
    · rintro ⟨rfl, h⟩
      cases h
  · simp only [openLiteral?, Option.some.injEq, Prod.mk.injEq]
    constructor
    · rintro ⟨rfl, rfl⟩
      exact ⟨rfl, rfl⟩
    · rintro ⟨rfl, h⟩
      exact ⟨rfl, PieceKind.literal.inj h⟩

/-- **Reading a character is making its move.** -/
theorem readChar_eq_apply (v : Vocabulary) (pending : Option Piece) (escaped : Bool)
    (position : Nat) (c : Char) :
    readChar v pending escaped position c =
      (moveOf v pending escaped c).apply pending position c := by
  unfold readChar moveOf
  cases hopen : openLiteral? pending with
  | some q =>
    obtain ⟨p, k⟩ := q
    obtain ⟨rfl, -⟩ := openLiteral?_eq_some_iff.1 hopen
    dsimp only [readLiteral]
    split <;> rfl
  | none =>
    dsimp only [readOutside]
    cases if escaped then none else v.containerOpenedBy? c with
    | some k => rfl
    | none => exact readPlain_eq_apply pending position c

/-! ### When a character makes a move -/

theorem isReading_eq_true_iff {kind : PieceKind} {pending : Option Piece} :
    isReading kind pending = true ↔ ∃ p, pending = some p ∧ p.kind = kind := by
  simp [isReading, Option.any_eq_true]

/-- The character is read outside literals, and opens none. -/
structure IsOutside (v : Vocabulary) (pending : Option Piece) (escaped : Bool) (c : Char) :
    Prop where
  not_open : openLiteral? pending = none
  opens_nothing : escaped = true ∨ v.containerOpenedBy? c = none

/-- When a character makes a move, for each move. -/
inductive Makes (v : Vocabulary) (pending : Option Piece) (escaped : Bool) (c : Char) :
    Move → Prop where
  /-- A character of a literal goes on with it. -/
  | inside {p : Piece} {k : Container} : pending = some p → p.kind = .literal k →
    escaped = true ∨ c ≠ k.closer → Makes v pending escaped c .push
  /-- The closer ends the literal. -/
  | close {p : Piece} {k : Container} : pending = some p → p.kind = .literal k →
    escaped = false → c = k.closer → Makes v pending escaped c .close
  /-- An opener starts a literal. -/
  | opener {k : Container} : openLiteral? pending = none → escaped = false →
    v.containerOpenedBy? c = some k → Makes v pending escaped c (.next (.literal k))
  /-- A character of the sort of a run goes on with it. -/
  | join {p : Piece} {kind : RunKind} : IsOutside v pending escaped c → pending = some p →
    p.kind = .run kind → classOf c = .member kind → Makes v pending escaped c .push
  /-- A character of a run starts one. -/
  | start {kind : RunKind} : IsOutside v pending escaped c →
    isReading (.run kind) pending = false → classOf c = .member kind →
      Makes v pending escaped c (.next (.run kind))
  /-- A blank is passed over. -/
  | blank : IsOutside v pending escaped c → classOf c = .blank → Makes v pending escaped c .skip
  /-- The first point of a number goes on with it. -/
  | point {p : Piece} : IsOutside v pending escaped c → pending = some p →
    p.kind = .run .number → c = '.' → '.' ∉ p.text.toList → Makes v pending escaped c .push
  /-- A further point cannot follow a number. -/
  | fault {p : Piece} : IsOutside v pending escaped c → pending = some p →
    p.kind = .run .number → c = '.' → '.' ∈ p.text.toList → Makes v pending escaped c .fault
  /-- A breaking character elsewhere stands alone. -/
  | alone : IsOutside v pending escaped c → classOf c = .breaking →
    ¬(c = '.' ∧ isReading (.run .number) pending = true) → Makes v pending escaped c .alone

theorem makes_plainMove {pending : Option Piece} {escaped : Bool} {c : Char}
    (h : IsOutside v pending escaped c) : Makes v pending escaped c (plainMove pending c) := by
  cases hc : classOf c with
  | blank =>
    rw [plainMove_blank hc]
    exact .blank h hc
  | member kind =>
    rw [plainMove_member hc]
    cases hreading : isReading (.run kind) pending with
    | true =>
      obtain ⟨p, hp, hk⟩ := isReading_eq_true_iff.1 hreading
      exact .join h hp hk hc
    | false => exact .start h hreading hc
  | breaking =>
    rw [plainMove_breaking hc]
    split
    · rename_i hpoint
      obtain ⟨p, rfl, hk⟩ := isReading_eq_true_iff.1 hpoint.2
      split
      · rename_i hsome
        exact .fault h rfl hk hpoint.1 (by simpa using hsome)
      · rename_i hnone
        exact .point h rfl hk hpoint.1 (by simpa using hnone)
    · rename_i hpoint
      exact .alone h hc hpoint

/-- There is no other occasion for a move. -/
theorem makes_moveOf (v : Vocabulary) (pending : Option Piece) (escaped : Bool) (c : Char) :
    Makes v pending escaped c (moveOf v pending escaped c) := by
  unfold moveOf
  cases hopen : openLiteral? pending with
  | some q =>
    obtain ⟨hp, hk⟩ := openLiteral?_eq_some_iff.1 hopen
    dsimp only
    split
    · rename_i hclose
      simp only [Bool.and_eq_true, Bool.not_eq_true', beq_iff_eq] at hclose
      exact .close hp hk hclose.1 hclose.2
    · rename_i hgoes
      refine .inside hp hk ?_
      cases escaped with
      | true => exact .inl rfl
      | false => exact .inr (by simpa using hgoes)
  | none =>
    dsimp only
    cases escaped with
    | true => exact makes_plainMove ⟨hopen, .inl rfl⟩
    | false =>
      rw [if_neg Bool.false_ne_true]
      cases hk : v.containerOpenedBy? c with
      | some k => exact .opener hopen rfl hk
      | none => exact makes_plainMove ⟨hopen, .inr hk⟩

end SqlLex
