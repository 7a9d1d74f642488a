import SqlLex.Proofs.Body
import SqlLex.Proofs.Lexeme.Basic

namespace SqlLex

open Text

/-!
# Blanks outside literals

Where no blank opens a literal, a blank outside literals completes the fragment being read and
leaves nothing behind, so the scanner goes on as at the start.

* `Vocabulary.BlanksSeparate` — no blank opens a literal.
* `Scanner.read` — the run over a text to its end.
* `Scanner.Settled` — no literal is open and no escape waits; `settled_of_finish` — where a query
  can end, the scanner is settled.
* `Scanner.step_blank`, `Scanner.read_blanks` — what a blank does, and several of them.
* `splitting_append` — what is read of a query behind given blanks.
* `splitting_eq_read_contentOf` — the blanks before the body of a query are read like those in it.
-/

variable {v : Vocabulary}

/-- No blank opens a literal. -/
def Vocabulary.BlanksSeparate (v : Vocabulary) : Prop :=
  ∀ k ∈ v.containers, isBlank k.opener = false

theorem Vocabulary.PlainDelimiters.blanksSeparate (hv : v.PlainDelimiters) : v.BlanksSeparate := by
  intro k hk
  have hword := hv.opener_word k hk
  rw [← Bool.not_eq_true, ← classOf_eq_blank_iff, hword]
  exact CharClass.noConfusion

theorem Vocabulary.BlanksSeparate.containerOpenedBy?_eq_none (hv : v.BlanksSeparate) {c : Char}
    (h : isBlank c = true) : v.containerOpenedBy? c = none := by
  rw [Vocabulary.containerOpenedBy?_eq_none_iff]
  rintro k hk rfl
  rw [hv k hk] at h
  cases h

theorem readPlain_blank {c : Char} (h : classOf c = .blank) (pending : Option Piece)
    (position : Nat) : readPlain pending position c = ⟨completed pending, .ok none⟩ := by
  unfold readPlain
  rw [h]

namespace Scanner

/-! ### Reading to the end -/

/-- Reads a text to its end. -/
def read (v : Vocabulary) (s : Scanner) (cs : List Char) : Progress Unit :=
  (s.scan v cs).andThen finish

theorem read_nil (v : Vocabulary) (s : Scanner) : s.read v [] = s.finish := rfl

theorem read_cons (v : Vocabulary) (s : Scanner) (c : Char) (cs : List Char) :
    s.read v (c :: cs) = (s.step v c).andThen fun t => t.read v cs := by
  rw [read, scan_cons, Progress.andThen_assoc]
  rfl

/-- Where the scan of a text leads, reading goes on with what follows it. -/
theorem read_append {s t : Scanner} {cs ds : List Char} {fs gs : List Fragment}
    {r : Except LexError Unit} (h : s.scan v cs = ⟨fs, .ok t⟩) (hr : t.read v ds = ⟨gs, r⟩) :
    s.read v (cs ++ ds) = ⟨fs ++ gs, r⟩ := by
  rw [read, scan_append, Progress.andThen_assoc]
  exact Progress.andThen_of_ok h hr

/-! ### Reading a blank -/

/-- No literal is open, and no escape waits for its character. -/
structure Settled (s : Scanner) : Prop where
  not_open : openLiteral? s.pending = none
  not_escaped : s.escape? = none

theorem settled_start (position : Nat) : (start position).Settled := ⟨rfl, rfl⟩

/-- Where a query can end, the scanner is settled. -/
theorem settled_of_finish {s : Scanner} {fs : List Fragment} (h : s.finish = ⟨fs, .ok ()⟩) :
    s.Settled := by
  unfold finish at h
  split at h
  · cases h
  · rename_i hopen
    split at h
    · cases h
    · rename_i hescape
      exact ⟨hopen, hescape⟩

/-- The end of a query completes the fragment being read, if any. -/
theorem Settled.finish_eq {s : Scanner} (hs : s.Settled) :
    s.finish = ⟨completed s.pending, .ok ()⟩ := by
  simp only [finish, hs.not_open, hs.not_escaped]

/-- A blank outside literals completes the fragment being read, if any, and the scanner goes on as
    at the start; an escape that waits is forgotten. -/
theorem step_blank (hv : v.BlanksSeparate) {s : Scanner} (hs : openLiteral? s.pending = none)
    {c : Char} (h : isBlank c = true) :
    s.step v c = ⟨completed s.pending, .ok (start (s.position + c.utf8Size))⟩ := by
  have hc : c ≠ escapeChar := by
    rintro rfl
    exact absurd h (by decide)
  have hafter : s.escapeAfter c = none := by simp [escapeAfter, hc]
  -- Whether or not it is escaped, a blank opens nothing.
  have hread : readChar v s.pending (s.isEscaped c) s.position c =
      ⟨completed s.pending, .ok none⟩ := by
    simp only [readChar, hs, readOutside, hv.containerOpenedBy?_eq_none h, ite_self]
    exact readPlain_blank (classOf_eq_blank_iff.2 h) _ _
  rw [step, hafter, hread]
  simp [Progress.andThen, Progress.pure, start]

/-- Blanks at the front are passed over. -/
theorem read_start_blanks (hv : v.BlanksSeparate) {b : List Char} (h : b.all isBlank = true)
    (position : Nat) (cs : List Char) :
    (start position).read v (b ++ cs) = (start (position + byteSize b)).read v cs := by
  induction b generalizing position with
  | nil => rfl
  | cons c b ih =>
    rw [List.all_cons, Bool.and_eq_true] at h
    rw [List.cons_append, read_cons, step_blank hv (settled_start position).not_open h.1]
    show (Progress.pure (start (position + c.utf8Size))).andThen _ = _
    rw [Progress.pure_andThen, ih h.2, byteSize_cons, Nat.add_assoc]

/-- Blanks outside literals complete the fragment being read, if any, and reading goes on behind
    them as at the start. -/
theorem read_blanks (hv : v.BlanksSeparate) {s : Scanner} (hs : openLiteral? s.pending = none)
    {b : List Char} (hne : b ≠ []) (hb : b.all isBlank = true) (cs : List Char) :
    s.read v (b ++ cs) = (⟨completed s.pending, .ok ()⟩ : Progress Unit).andThen fun _ =>
      (start (s.position + byteSize b)).read v cs := by
  obtain ⟨c, b, rfl⟩ := List.exists_cons_of_ne_nil hne
  rw [List.all_cons, Bool.and_eq_true] at hb
  rw [List.cons_append, read_cons, step_blank hv hs hb.1, byteSize_cons, ← Nat.add_assoc,
    ← read_start_blanks hv hb.2]
  rfl

end Scanner

/-! ### The blanks before the body -/

/-- In any vocabulary, a query is read from where the blanks before it end. -/
theorem splitting_append (v : Vocabulary) {g cs : List Char} (hg : g.all isBlank = true)
    (hcs : trimStart cs = cs) :
    splitting v (String.ofList (g ++ cs)) =
      (Scanner.start (byteSize g)).read v (contentOf cs) := by
  obtain ⟨hstart, hbody⟩ := body_append hg hcs
  show (Scanner.start (bodyStart (String.ofList (g ++ cs)).toList)).read v
    (bodyOf (String.ofList (g ++ cs)).toList) = _
  rw [String.toList_ofList, hstart, hbody]

/-- The blanks before the body of a query are passed over like those in it. -/
theorem splitting_eq_read_contentOf (hv : v.BlanksSeparate) (sql : String) :
    splitting v sql = (Scanner.start 0).read v (contentOf sql.toList) := by
  show (Scanner.start (bodyStart sql.toList)).read v (bodyOf sql.toList) = _
  rw [bodyOf_eq_contentOf, bodyStart]
  by_cases hb : sql.toList.all isBlank = true
  · -- There is no body.
    have hrest : (trimStart sql.toList).all isBlank = true := by
      rw [List.all_eq_true] at hb ⊢
      intro c hc
      exact hb c ((List.dropWhile_sublist _).subset hc)
    rw [contentOf_of_blanks hb, contentOf_of_blanks hrest]
    rfl
  · -- The body starts with a character that is not blank, so nothing is cut off before it.
    have hrest : trimEnd (trimStart sql.toList) ≠ [] := by
      rw [Ne, trimEnd_eq_nil_iff]
      intro h
      rw [← takeWhile_append_trimStart sql.toList, List.all_append, List.all_takeWhile, h] at hb
      exact hb rfl
    have hcontent : contentOf sql.toList =
        sql.toList.takeWhile isBlank ++ contentOf (trimStart sql.toList) := by
      rw [← contentOf_append _ hrest, takeWhile_append_trimStart]
    rw [hcontent, Scanner.read_start_blanks hv List.all_takeWhile, Nat.zero_add]

end SqlLex
