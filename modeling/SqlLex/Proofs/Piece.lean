import SqlLex.Proofs.Lexeme.Shape
import SqlLex.Proofs.Move

namespace SqlLex

open Text

/-!
# Pieces look like what they are

Whatever the vocabulary, the text of the piece being read has what is said of a piece of its kind.

* `PieceKind.Fits`, `Piece.Fits` — what is said of a piece.
* `Piece.Fits.push`, `Piece.fits_singleton` — characters that go on with a piece or start one keep
  to it.
* `Scanner.Sound`, `Scanner.step_sound` — so it holds behind every character.
* `Scanner.scan_keeps`, `Scanner.scan_sound` — and behind every text.
-/

variable {v : Vocabulary}

/-! ### What is said of a piece -/

/-- The text has what is said of a piece of the given kind. -/
def PieceKind.Fits (v : Vocabulary) (w : List Char) : PieceKind → Prop
  | .run .number => IsNumeral w
  | .run .operator => w ≠ [] ∧ ∀ c ∈ w, c ∈ operatorChars
  | .run .word => w ≠ [] ∧ ∀ c ∈ w, classOf c = .member .word
  | .literal k => k ∈ v.containers ∧ w.head? = some k.opener

/-- The piece looks like what it is. -/
def Piece.Fits (v : Vocabulary) (p : Piece) : Prop := p.kind.Fits v p.text.toList

theorem Piece.Fits.of_kind {p : Piece} (h : p.Fits v) {kind : PieceKind} (hk : p.kind = kind) :
    kind.Fits v p.text.toList :=
  hk ▸ h

theorem isNumeral_singleton {c : Char} (h : c.isDigit = true) : IsNumeral [c] :=
  ⟨[c], List.cons_ne_nil _ _, by simp [h], .inl rfl⟩

/-- A digit goes on with a number. -/
theorem IsNumeral.concat {w : List Char} (h : IsNumeral w) {c : Char} (hc : c.isDigit = true) :
    IsNumeral (w ++ [c]) := by
  obtain ⟨ds, hne, hds, rfl | ⟨es, hes, rfl⟩⟩ := h
  · exact ⟨w ++ [c], by simp, by simp [hds, hc], .inl rfl⟩
  · exact ⟨ds, hne, hds, .inr ⟨es ++ [c], by simp [hes, hc], by simp⟩⟩

/-- A point goes on with a number that has none. -/
theorem IsNumeral.concat_point {w : List Char} (h : IsNumeral w) (hp : '.' ∉ w) :
    IsNumeral (w ++ ['.']) := by
  obtain ⟨ds, hne, hds, rfl | ⟨es, -, rfl⟩⟩ := h
  · exact ⟨w, hne, hds, .inr ⟨[], rfl, rfl⟩⟩
  · simp at hp

theorem PieceKind.Fits.concat {kind : RunKind} {w : List Char} (h : (PieceKind.run kind).Fits v w)
    {c : Char} (hc : classOf c = .member kind) : (PieceKind.run kind).Fits v (w ++ [c]) := by
  cases kind with
  | number => exact IsNumeral.concat h (classOf_eq_number_iff.1 hc)
  | operator =>
    refine ⟨by simp, ?_⟩
    intro d hd
    rcases List.mem_append.1 hd with hd | hd
    · exact h.2 d hd
    · rw [List.mem_singleton.1 hd]
      exact classOf_eq_operator_iff.1 hc
  | word =>
    refine ⟨by simp, ?_⟩
    intro d hd
    rcases List.mem_append.1 hd with hd | hd
    · exact h.2 d hd
    · rw [List.mem_singleton.1 hd, hc]

theorem Piece.Fits.push {p : Piece} (hp : p.Fits v) {escaped : Bool} {c : Char}
    (h : Makes v (some p) escaped c .push) : (p.push c).Fits v := by
  have htext : (p.push c).text.toList = p.text.toList ++ [c] := by simp [Piece.push]
  have hkind : (p.push c).kind = p.kind := rfl
  unfold Piece.Fits at hp ⊢
  rw [htext, hkind]
  cases h with
  | inside hq hk _ =>
    obtain rfl := Option.some.inj hq
    rw [hk] at hp ⊢
    exact ⟨hp.1, by rw [List.head?_append, hp.2]; rfl⟩
  | join _ hq hk hc =>
    obtain rfl := Option.some.inj hq
    rw [hk] at hp ⊢
    exact hp.concat hc
  | point _ hq hk hc hpoint =>
    obtain rfl := Option.some.inj hq
    rw [hk] at hp ⊢
    rw [hc]
    exact IsNumeral.concat_point hp hpoint

theorem Piece.fits_singleton {pending : Option Piece} {escaped : Bool} {c : Char}
    {kind : PieceKind} (h : Makes v pending escaped c (.next kind)) (position : Nat) :
    (Piece.singleton kind position c).Fits v := by
  have htext : (Piece.singleton kind position c).text.toList = [c] := by simp [Piece.singleton]
  show kind.Fits v _
  rw [htext]
  cases h with
  | opener _ _ hopen =>
    obtain ⟨hk, rfl⟩ := Vocabulary.containerOpenedBy?_eq_some_iff.1 hopen
    exact ⟨hk, rfl⟩
  | @start run _ _ hc =>
    cases run with
    | number => exact isNumeral_singleton (classOf_eq_number_iff.1 hc)
    | operator => exact ⟨by simp, by simpa using classOf_eq_operator_iff.1 hc⟩
    | word => exact ⟨by simp, by simpa using hc⟩

namespace Scanner

/-- The piece being read looks like what it is. -/
def Sound (v : Vocabulary) (s : Scanner) : Prop := ∀ p ∈ s.pending, p.Fits v

theorem sound_start (v : Vocabulary) (position : Nat) : (start position).Sound v := by
  rintro p ⟨⟩

/-- **The piece being read looks like what it is** behind a character if it did so before. -/
theorem step_sound {s t : Scanner} (hs : s.Sound v) {c : Char} {fs : List Fragment}
    (h : s.step v c = ⟨fs, .ok t⟩) : t.Sound v := by
  obtain ⟨gs, pending, es, hread, hstate, -⟩ := Progress.andThen_eq_ok_iff.1 h
  cases hstate
  rw [readChar_eq_apply] at hread
  intro p hp
  have hmakes := makes_moveOf v s.pending (s.isEscaped c) c
  generalize moveOf v s.pending (s.isEscaped c) c = m at hread hmakes
  cases m with
  | push =>
    obtain ⟨-, hpending⟩ := Progress.mk.inj hread
    rw [Option.mem_def] at hp
    rw [← Except.ok.inj hpending, Option.map_eq_some_iff] at hp
    obtain ⟨q, hq, rfl⟩ := hp
    rw [hq] at hmakes
    exact (hs q hq).push hmakes
  | next kind =>
    cases hread
    obtain rfl := Option.some.inj hp
    exact Piece.fits_singleton hmakes _
  | close | skip | alone =>
    cases hread
    cases hp
  | fault => cases hread

/-- What is kept by every character that is read is kept by a text. -/
theorem scan_keeps {P : Scanner → Prop}
    (hstep : ∀ s t c fs, P s → s.step v c = ⟨fs, .ok t⟩ → P t) {s t : Scanner} (hs : P s)
    {cs : List Char} {fs : List Fragment} (h : s.scan v cs = ⟨fs, .ok t⟩) : P t := by
  induction cs generalizing s fs with
  | nil =>
    cases h
    exact hs
  | cons c cs ih =>
    rw [scan_cons] at h
    obtain ⟨gs, r, es, hread, hscan, -⟩ := Progress.andThen_eq_ok_iff.1 h
    exact ih (hstep s r c gs hs hread) hscan

/-- So it does behind every text. -/
theorem scan_sound {s t : Scanner} (hs : s.Sound v) {cs : List Char} {fs : List Fragment}
    (h : s.scan v cs = ⟨fs, .ok t⟩) : t.Sound v :=
  scan_keeps (fun _ _ _ _ hs h => step_sound hs h) hs h

end Scanner

end SqlLex
