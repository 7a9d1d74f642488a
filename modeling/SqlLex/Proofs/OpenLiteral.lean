import SqlLex.Proofs.Fault

namespace SqlLex

open Text

/-!
# Literals without an end

A literal that is open at the end of a query takes in whatever is put behind the query, up to its
closer: the blanks and the terminator that are else cut off, too.

* `Piece.extend`, `Scanner.scan_literal` — an open literal goes on with a text that has no closer.
* `Scanner.step_closer` — a closer ends it, unless it is escaped.
* `Vocabulary.ClosersRemain` — no closer is cut off the end of a query.
* `split_append_closer` — the query of an unterminated literal, with the closer put behind it.
-/

variable {v : Vocabulary}

/-- The piece with the characters behind it. -/
def Piece.extend (p : Piece) (cs : List Char) : Piece :=
  { p with text := p.text ++ String.ofList cs }

theorem Piece.extend_nil (p : Piece) : p.extend [] = p := by
  simp [extend]

theorem Piece.extend_push (p : Piece) (c : Char) (cs : List Char) :
    (p.push c).extend cs = p.extend (c :: cs) := by
  simp only [extend, push, Piece.mk.injEq, true_and]
  rw [← String.toList_inj]
  simp

/-! ### Reading on in a literal -/

namespace Scanner

variable {s : Scanner} {p : Piece} {k : Container}

/-- A character that does not close the literal goes on with it. -/
theorem step_literal (hp : s.pending = some p) (hk : p.kind = .literal k) {c : Char}
    (hc : s.isEscaped c = true ∨ c ≠ k.closer) :
    s.step v c = .pure ⟨s.position + c.utf8Size, some (p.push c), s.escapeAfter c⟩ := by
  have hopen := openLiteral?_eq_some_iff.2 ⟨hp, hk⟩
  have hgoes : (!s.isEscaped c && c == k.closer) = false := by
    rcases hc with hc | hc <;> simp [hc]
  simp only [step, readChar, hopen, readLiteral, hgoes, if_neg Bool.false_ne_true,
    Progress.pure_andThen]

/-- The closer ends the literal, unless it is escaped. -/
theorem step_closer (hp : s.pending = some p) (hk : p.kind = .literal k)
    (hescaped : s.isEscaped k.closer = false) :
    s.step v k.closer =
      ⟨[(p.push k.closer).toFragment],
        .ok ⟨s.position + k.closer.utf8Size, none, s.escapeAfter k.closer⟩⟩ := by
  have hopen := openLiteral?_eq_some_iff.2 ⟨hp, hk⟩
  simp [step, readChar, hopen, readLiteral, hescaped, Progress.andThen, Progress.pure]

/-- The literal goes on with a text that has no closer. -/
theorem scan_literal (hp : s.pending = some p) (hk : p.kind = .literal k) {cs : List Char}
    (hcs : ∀ c ∈ cs, c ≠ k.closer) :
    ∃ t, s.scan v cs = .pure t ∧ t.pending = some (p.extend cs) := by
  induction cs generalizing s p with
  | nil => exact ⟨s, rfl, by rw [hp, Piece.extend_nil]⟩
  | cons c cs ih =>
    obtain ⟨hc, hcs⟩ := List.forall_mem_cons.1 hcs
    have hpush : (p.push c).kind = .literal k := hk
    rw [scan_cons, step_literal hp hk (.inr hc), Progress.pure_andThen, ← Piece.extend_push]
    exact ih rfl hpush hcs

/-- So does a literal in which a text ends. -/
theorem scan_append_literal {cs ds : List Char} {fs : List Fragment} {t : Scanner}
    (h : s.scan v cs = ⟨fs, .ok t⟩) (hp : t.pending = some p) (hk : p.kind = .literal k)
    (hds : ∀ c ∈ ds, c ≠ k.closer) :
    ∃ r, s.scan v (cs ++ ds) = ⟨fs, .ok r⟩ ∧ r.pending = some (p.extend ds) := by
  obtain ⟨r, hr, hpending⟩ := scan_literal (v := v) hp hk hds
  refine ⟨r, ?_, hpending⟩
  rw [scan_append, Progress.andThen_of_ok h hr, List.append_nil]

end Scanner

/-! ### Putting the closer behind a query -/

/-- No closer is cut off the end of a query, and none is the escape character. -/
def Vocabulary.ClosersRemain (v : Vocabulary) : Prop :=
  ∀ k ∈ v.containers, isBlank k.closer = false ∧ k.closer ≠ terminator ∧ k.closer ≠ escapeChar

/-- The closer behind an open literal ends it, and with it the text, unless the closer is escaped;
    then the literal is open as before. -/
theorem Scanner.read_closer {position : Nat} {cs : List Char} {fs : List Fragment} {t : Scanner}
    (h : (start position).scan v cs = ⟨fs, .ok t⟩) {p : Piece} (hp : t.pending = some p)
    {k : Container} (hk : p.kind = .literal k) (hcloser : k.closer ≠ escapeChar) :
    (start position).read v (cs ++ [k.closer]) =
      if endsEscaped cs then ⟨fs, .error (.unterminatedContainer k.opener k.closer p.start)⟩
      else ⟨fs ++ [(p.push k.closer).toFragment], .ok ()⟩ := by
  have hescaped : t.isEscaped k.closer = endsEscaped cs := by
    rw [isEscaped, if_neg hcloser, scan_start_escape? h, escapeBehind]
    cases endsEscaped cs <;> rfl
  have hafter : t.escapeAfter k.closer = none := by simp [escapeAfter, hcloser]
  cases he : endsEscaped cs with
  | true =>
    rw [he] at hescaped
    have hread : t.read v [k.closer] =
        .fail (.unterminatedContainer k.opener k.closer p.start) := by
      have hpush : (p.push k.closer).kind = .literal k := hk
      rw [read_cons, step_literal hp hk (.inl hescaped), Progress.pure_andThen, read_nil, finish,
        openLiteral?_eq_some_iff.2 ⟨rfl, hpush⟩]
      rfl
    rw [read_append h hread, List.append_nil, if_pos rfl]
  | false =>
    rw [he] at hescaped
    have hread : t.read v [k.closer] = ⟨[(p.push k.closer).toFragment], .ok ()⟩ := by
      rw [read_cons, step_closer hp hk hescaped, hafter]
      rfl
    rw [read_append h hread, if_neg Bool.false_ne_true]

/-- What is cut off the end of a text belongs to a literal that is open there, if a closer
    follows. -/
theorem Scanner.exists_read_closer (hv : v.ClosersRemain) {position : Nat} {cs : List Char}
    {fs : List Fragment} {t : Scanner} (h : (start position).scan v (contentOf cs) = ⟨fs, .ok t⟩)
    {p : Piece} (hp : t.pending = some p) {k : Container} (hk : p.kind = .literal k) :
    k ∈ v.containers ∧ ∃ used w, cs = used ++ k.opener :: w ∧
      p.start = position + byteSize used ∧
      (start position).read v (cs ++ [k.closer]) =
        if endsEscaped cs then ⟨fs, .error (.unterminatedContainer k.opener k.closer p.start)⟩
        else ⟨fs ++ [.ofList p.start (k.opener :: w ++ [k.closer])], .ok ()⟩ := by
  obtain ⟨hfits, used, hused, hstart⟩ := exists_append_of_pending h hp
  obtain ⟨hmem, hhead⟩ := hfits.of_kind hk
  obtain ⟨w, hw⟩ := List.head?_eq_some_iff.1 hhead
  obtain ⟨hblank, hterminator, hescape⟩ := hv k hmem
  obtain ⟨r, hr, hcs⟩ := exists_contentOf_append cs
  -- A trailer has no closer.
  have hopen : ∀ d ∈ r, d ≠ k.closer := by
    rintro d hd rfl
    rcases hr.isBlank_or_eq hd with hd | hd
    · rw [hblank] at hd
      cases hd
    · exact hterminator hd
  obtain ⟨t', hscan, hp'⟩ := scan_append_literal h hp hk hopen
  rw [← hcs] at hscan
  have hfragment : ((p.extend r).push k.closer).toFragment =
      .ofList p.start (k.opener :: (w ++ r) ++ [k.closer]) := by
    rw [Piece.toFragment_eq]
    simp [Piece.push, Piece.extend, hw]
  refine ⟨hmem, used, w ++ r, ?_, hstart, ?_⟩
  · rw [hcs, hused, hw]
    simp
  · rw [read_closer hscan hp' (k := k) hk hescape, hfragment]
    rfl

/-- **The closer that is missing.**  The error of an open literal names a container of the
    vocabulary and the position of its opener in the query.  With the closer behind the query, the
    literal ends there, with the blanks and the terminator that are else cut off, and before it
    stand the fragments that were complete before the error; but if an escape waits at the end of
    the query, then the error stays.  Nothing is asked of the openers. -/
theorem split_append_closer (hv : v.ClosersRemain) {sql : String} {o c : Char} {position : Nat}
    (h : split v sql = .error (.unterminatedContainer o c position)) :
    (∃ k ∈ v.containers, k.opener = o ∧ k.closer = c) ∧
      ∃ before rest, sql.toList = before ++ o :: rest ∧ position = byteSize before ∧
        split v (sql ++ c.toString) =
          if endsEscaped sql.toList then .error (.unterminatedContainer o c position)
          else .ok ((splitting v sql).fragments ++
            [⟨String.ofList (o :: rest ++ [c]), ⟨position, sql.utf8ByteSize + c.utf8Size⟩⟩]) := by
  obtain ⟨g, cs, hsql, hg, hcs, hfails⟩ := exists_fails_of_split h
  generalize (splitting v sql).fragments = fs at hfails
  cases hfails with
  | @openLiteral _ t p k hscan hp hk =>
    obtain ⟨hmem, used, w, hused, hstart, hread⟩ := Scanner.exists_read_closer hv hscan hp hk
    obtain ⟨hblank, hterminator, -⟩ := hv k hmem
    have hposition : p.start = byteSize (g ++ used) := by rw [hstart, byteSize_append]
    have hlist : sql.toList = g ++ used ++ k.opener :: w := by
      rw [hsql, hused, List.append_assoc]
    -- The closer keeps all that stands before it from being cut off.
    have hrun : splitting v (sql ++ k.closer.toString) =
        (Scanner.start (byteSize g)).read v (cs ++ [k.closer]) := by
      have hne : cs ≠ [] := by simp [hused]
      have htext : sql ++ k.closer.toString = String.ofList (g ++ (cs ++ [k.closer])) := by
        rw [← String.toList_inj, ← List.append_assoc, ← hsql]
        simp
      rw [← List.append_nil cs] at hcs
      rw [htext, splitting_append v hg (trimStart_append_congr hne hcs _),
        contentOf_concat hblank hterminator]
    have hescaped : endsEscaped sql.toList = endsEscaped cs := by
      rw [hsql]
      apply endsEscaped_append_of_forall_ne
      rintro d hd rfl
      exact absurd (List.all_eq_true.1 hg _ hd) (by decide)
    have hstop : p.start + byteSize (k.opener :: w ++ [k.closer]) =
        sql.utf8ByteSize + k.closer.utf8Size := by
      rw [← byteSize_toList, hlist, hposition]
      simp only [byteSize_append, byteSize_cons, byteSize_nil]
      omega
    refine ⟨⟨k, hmem, rfl, rfl⟩, g ++ used, w, hlist, hposition, ?_⟩
    rw [split, hrun, hread, hescaped, ← hstop]
    cases endsEscaped cs <;> rfl

/-- A literal with an escaped closer goes on over a terminator and blanks; then an escape waits at
    the end of the query. -/
theorem split_append_closer_standard :
    Vocabulary.standard.ClosersRemain ∧
      split .standard " π='a\\' ;\u2003" = .error (.unterminatedContainer '\x27' '\x27' 4) ∧
      (∃ before rest, " π='a\\' ;\u2003".toList = before ++ '\x27' :: rest ∧
        4 = byteSize before ∧
        split .standard (" π='a\\' ;\u2003" ++ '\x27'.toString) =
          .ok ([⟨"π", ⟨1, 3⟩⟩, ⟨"=", ⟨3, 4⟩⟩] ++
            [⟨String.ofList ('\x27' :: rest ++ ['\x27']), ⟨4, 14⟩⟩])) ∧
      split .standard "(a\\" = .error (.unterminatedContainer '(' ')' 0) ∧
      split .standard ("(a\\" ++ ')'.toString) = .error (.unterminatedContainer '(' ')' 0) := by
  have hv : Vocabulary.standard.ClosersRemain := by
    unfold Vocabulary.ClosersRemain
    decide
  have h₁ : split .standard " π='a\\' ;\u2003" =
      .error (.unterminatedContainer '\x27' '\x27' 4) := by
    decide +kernel
  have h₂ : split .standard "(a\\" = .error (.unterminatedContainer '(' ')' 0) := by
    decide +kernel
  have hflushed : (splitting .standard " π='a\\' ;\u2003").fragments =
      [⟨"π", ⟨1, 3⟩⟩, ⟨"=", ⟨3, 4⟩⟩] := by
    decide +kernel
  obtain ⟨-, before, rest, hlist, hposition, hclosed⟩ := split_append_closer hv h₁
  obtain ⟨-, _, _, -, -, hopen⟩ := split_append_closer hv h₂
  rw [if_neg (by decide), hflushed] at hclosed
  rw [if_pos (by decide)] at hopen
  exact ⟨hv, h₁, ⟨before, rest, hlist, hposition, hclosed⟩, h₂, hopen⟩

end SqlLex
