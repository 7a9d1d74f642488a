import SqlLex.Proofs.Transfer

namespace SqlLex

open Text

/-!
# Texts further to the right

Nothing but positions tells where a text stands: moved to the right, it is read in the same way, and
all spans and errors move with it.

* `Progress.shiftWith`, `shiftAnswer` — a scan of the same text further to the right, and its
  answer.
* `Piece.shift`, `Scanner.shift` — what is being read, further to the right.
* `Move.apply_shift`, `readChar_shift` — one character; `Scanner.read_shift` — a text to its end, in
  any vocabulary.
* `munch_shift` — the lexemes of a text.
-/

variable {α β γ δ : Type} (n : Nat)

/-! ### Fragments -/

theorem Fragment.shift_ofChar (position : Nat) (c : Char) :
    (Fragment.ofChar position c).shift n = .ofChar (n + position) c := by
  simp [Fragment.shift, Fragment.ofChar, Span.shift, Nat.add_assoc]

/-! ### Scans -/

namespace Progress

/-- The scan of the same text `n` bytes further to the right, where `g` says what becomes of its
    value. -/
def shiftWith (g : α → β) (p : Progress α) : Progress β :=
  ⟨p.fragments.map (.shift n), (p.outcome.map g).mapError (.shift n)⟩

@[simp] theorem shiftWith_pure (g : α → β) (a : α) : (pure a).shiftWith n g = pure (g a) := rfl

/-- Of two scans one after the other, both move. -/
theorem shiftWith_andThen {p : Progress α} {f : α → Progress β} {f' : γ → Progress δ}
    {g : α → γ} {h : β → δ} (hf : ∀ a, (f a).shiftWith n h = f' (g a)) :
    (p.andThen f).shiftWith n h = (p.shiftWith n g).andThen f' :=
  mapWith_andThen fun a _ => hf a

end Progress

/-- The answer for the same query `n` bytes further to the right. -/
def shiftAnswer : Except LexError (List Fragment) → Except LexError (List Fragment)
  | .ok fs => .ok (fs.map (.shift n))
  | .error e => .error (e.shift n)

theorem Progress.toExcept_shiftWith (g : α → β) (p : Progress α) :
    (p.shiftWith n g).toExcept = shiftAnswer n p.toExcept := by
  obtain ⟨fs, e | a⟩ := p <;> rfl

/-! ### Pieces -/

/-- The piece `n` bytes further to the right. -/
def Piece.shift (p : Piece) : Piece := { p with start := n + p.start }

@[simp] theorem Piece.kind_shift (p : Piece) : (p.shift n).kind = p.kind := rfl

@[simp] theorem Piece.text_shift (p : Piece) : (p.shift n).text = p.text := rfl

theorem Piece.push_shift (p : Piece) (c : Char) : (p.shift n).push c = (p.push c).shift n := rfl

theorem Piece.toFragment_shift (p : Piece) :
    (p.shift n).toFragment = p.toFragment.shift n := by
  simp [Piece.toFragment, Piece.shift, Fragment.shift, Span.shift, Nat.add_assoc]

/-! ### Reading one character -/

section ReadChar

variable (pending : Option Piece) (position : Nat) (c : Char)

/-- A move does not depend on where the piece stands. -/
theorem moveOf_shift (v : Vocabulary) (escaped : Bool) :
    moveOf v (pending.map (.shift n)) escaped c = moveOf v pending escaped c := by
  obtain _ | ⟨kind | k, position, text⟩ := pending <;> rfl

/-- What a move comes to moves with the piece. -/
theorem Move.apply_shift (m : Move) :
    m.apply (pending.map (.shift n)) (n + position) c =
      (m.apply pending position c).shiftWith n (Option.map (.shift n)) := by
  apply Move.apply_map (Piece.toFragment_shift n) (fun p => Piece.push_shift n p c) (fun _ => rfl)
    (Fragment.shift_ofChar n position c).symm
  rintro rfl
  cases pending <;> rfl

/-- A character is read in the same way wherever it stands. -/
theorem readChar_shift (v : Vocabulary) (escaped : Bool) :
    readChar v (pending.map (.shift n)) escaped (n + position) c =
      (readChar v pending escaped position c).shiftWith n (Option.map (.shift n)) := by
  rw [readChar_eq_apply, readChar_eq_apply, moveOf_shift, Move.apply_shift]

end ReadChar

/-! ### Reading a text -/

namespace Scanner

/-- The scanner `n` bytes further to the right. -/
def shift (s : Scanner) : Scanner :=
  ⟨n + s.position, s.pending.map (.shift n), s.escape?.map (n + ·)⟩

variable (v : Vocabulary) (s : Scanner) (c : Char)

theorem isEscaped_shift : (s.shift n).isEscaped c = s.isEscaped c := by
  simp [isEscaped, shift]

theorem escapeAfter_shift : (s.shift n).escapeAfter c = (s.escapeAfter c).map (n + ·) := by
  unfold escapeAfter shift
  rw [Option.isNone_map]
  split <;> rfl

theorem step_shift : (s.shift n).step v c = (s.step v c).shiftWith n (shift n) := by
  rw [step, step, isEscaped_shift, escapeAfter_shift]
  show (readChar v (s.pending.map (.shift n)) _ (n + s.position) c).andThen _ = _
  rw [readChar_shift]
  symm
  apply Progress.shiftWith_andThen
  intro pending
  rw [Progress.shiftWith_pure, shift]
  show _ = Progress.pure (Scanner.mk (n + s.position + c.utf8Size) _ _)
  rw [Nat.add_assoc]

theorem finish_shift : (s.shift n).finish = s.finish.shiftWith n id := by
  have hpending : (s.shift n).pending = s.pending.map (.shift n) := rfl
  have hescape : (s.shift n).escape? = s.escape?.map (n + ·) := rfl
  unfold finish
  rw [hpending, hescape, openLiteral?_map (Piece.kind_shift n),
    completed_map (Piece.toFragment_shift n)]
  cases openLiteral? s.pending with
  | some q => rfl
  | none => cases s.escape? <;> rfl

/-- A text is read in the same way wherever it stands. -/
theorem read_shift (cs : List Char) : (s.shift n).read v cs = (s.read v cs).shiftWith n id := by
  have hread := read_map (I := fun _ => True) (fun s c _ => step_shift n v s c)
    (fun _ _ _ _ _ _ => trivial) (fun s => finish_shift n s) (s := s) trivial (χ := id) cs
  rwa [List.map_id] at hread

end Scanner

/-- The lexemes of a text are the same wherever it stands. -/
theorem munch_shift {v : Vocabulary} (hv : v.PlainDelimiters) (position : Nat) (cs : List Char) :
    munch v (n + position) cs = (munch v position cs).shiftWith n id := by
  rw [← Scanner.read_start_eq_munch hv, ← Scanner.read_start_eq_munch hv]
  exact Scanner.read_shift n v (.start position) cs

/-- A text without faults has none wherever it stands, and its fragments are those of the text
    alone, further to the right. -/
theorem munch_eq_ok_iff_shift {v : Vocabulary} (hv : v.PlainDelimiters) {cs : List Char}
    {fs : List Fragment} :
    munch v n cs = ⟨fs, .ok ()⟩ ↔
      ∃ gs, munch v 0 cs = ⟨gs, .ok ()⟩ ∧ fs = gs.map (.shift n) := by
  have hshift := munch_shift n hv 0 cs
  rw [Nat.add_zero] at hshift
  rw [hshift]
  obtain ⟨gs, e | ⟨⟩⟩ := munch v 0 cs
  · simp [Progress.shiftWith, Except.map, Except.mapError]
  · simp [Progress.shiftWith, Except.map, Except.mapError, eq_comm]

end SqlLex
