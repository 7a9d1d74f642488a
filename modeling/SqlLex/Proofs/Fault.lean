import SqlLex.Proofs.Lossless
import SqlLex.Proofs.Piece

namespace SqlLex

open Text

/-!
# Where a query is at fault

A query is at fault in one of three ways: a number goes on behind a second point, a literal has no
end, or the query ends with an escape.  The first is seen at the point, whatever follows it, and the
others at the end only.

* `Scanner.step_eq_error` — no character is at fault but a second point of a number.
* `Scanner.scan_eq_error_iff` — a scan fails at a character, without regard to what follows it.
* `Scanner.scan_start_escape?` — the escape that waits behind a text is told from the text alone.
* `Scanner.exists_laidOut_of_pending`, `Scanner.exists_append_of_pending` — the piece being read is
  what the text ends with.
* `Scanner.EscapeHeld`, `Scanner.exists_word_of_escape` — an escape that waits outside literals is
  that of the word being read.
* `Scanner.Fails`, `Scanner.read_eq_error_iff` — the faults of a text, and when it has each of them;
  `exists_fails_of_split` — the error of a query is one of its body.
-/

variable {v : Vocabulary}

namespace Scanner

variable {s t : Scanner} {cs : List Char} {fs : List Fragment} {e : LexError}

/-! ### Faults of a character -/

/-- The only character at fault is a point behind a number that has one. -/
theorem step_eq_error {c : Char} (h : s.step v c = ⟨fs, .error e⟩) :
    fs = [] ∧ c = '.' ∧ ∃ p, s.pending = some p ∧ p.kind = .run .number ∧ '.' ∈ p.text.toList ∧
      e = .invalidNumeric '.' p.text s.position := by
  have hmakes := makes_moveOf v s.pending (s.isEscaped c) c
  rw [step, readChar_eq_apply] at h
  rcases Progress.andThen_eq_error_iff.1 h with h | ⟨_, _, _, -, h, -⟩
  · generalize moveOf v s.pending (s.isEscaped c) c = m at h hmakes
    cases hmakes with
    | fault _ hp hk hc hpoint =>
      subst hc
      rw [hp] at h
      cases h
      exact ⟨rfl, rfl, _, hp, hk, hpoint, rfl⟩
    | inside | close | opener | join | start | blank | point | alone => cases h
  · cases h

/-- A scan fails iff the text has a character at fault, where the text before it is read without a
    failure. -/
theorem scan_eq_error_iff :
    s.scan v cs = ⟨fs, .error e⟩ ↔
      ∃ u c ds t, cs = u ++ c :: ds ∧ s.scan v u = ⟨fs, .ok t⟩ ∧ t.step v c = .fail e := by
  constructor
  · intro h
    induction cs generalizing s fs with
    | nil => cases h
    | cons c cs ih =>
      rw [scan_cons] at h
      rcases Progress.andThen_eq_error_iff.1 h with hstep | ⟨gs, t, hs, hstep, hscan, rfl⟩
      · obtain ⟨rfl, -⟩ := step_eq_error hstep
        exact ⟨[], c, cs, s, rfl, rfl, hstep⟩
      · obtain ⟨u, d, ds, r, rfl, hu, hd⟩ := ih hscan
        refine ⟨c :: u, d, ds, r, rfl, ?_, hd⟩
        rw [scan_cons, hstep]
        simp [Progress.andThen, hu]
  · rintro ⟨u, c, ds, t, rfl, hu, hc⟩
    rw [scan_append, hu, Progress.andThen_eq_error_iff]
    refine .inr ⟨fs, t, [], rfl, ?_, (List.append_nil fs).symm⟩
    rw [scan_cons, hc]
    rfl

/-! ### The end of a text -/

/-- Where the escape that waits is that of the text read so far, it remains so. -/
theorem scan_escape? {position : Nat} {w : List Char}
    (hposition : s.position = position + byteSize w) (hescape : s.escape? = escapeBehind position w)
    (h : s.scan v cs = ⟨fs, .ok t⟩) : t.escape? = escapeBehind position (w ++ cs) := by
  induction cs generalizing s w fs with
  | nil =>
    cases h
    rw [List.append_nil, hescape]
  | cons c cs ih =>
    rw [scan_cons] at h
    obtain ⟨gs, r, es, hstep, hscan, -⟩ := Progress.andThen_eq_ok_iff.1 h
    obtain ⟨_, pending, _, -, hr, -⟩ := Progress.andThen_eq_ok_iff.1 hstep
    cases hr
    rw [← List.singleton_append, ← List.append_assoc]
    refine ih ?_ (escapeAfter_eq hposition hescape c) hscan
    show s.position + c.utf8Size = _
    rw [byteSize_append, byteSize_cons, byteSize_nil]
    omega

/-- The escape that waits behind a text is told from the text alone. -/
theorem scan_start_escape? {position : Nat} (h : (start position).scan v cs = ⟨fs, .ok t⟩) :
    t.escape? = escapeBehind position cs :=
  scan_escape? (w := []) rfl rfl h

/-- The piece being read behind a text looks like what it is, and the fragments that are complete
    are laid out in what stands before it. -/
theorem exists_laidOut_of_pending {position : Nat} (h : (start position).scan v cs = ⟨fs, .ok t⟩)
    {p : Piece} (hp : t.pending = some p) :
    p.Fits v ∧ ∃ used, cs = used ++ p.text.toList ∧ p.start = position + byteSize used ∧
      LaidOut position used fs := by
  have hacc := scan_accounts v (aligned_start position) h
  obtain ⟨used, heq, hlaid⟩ := hacc.laidOut
  have horigin := (aligned_start position).origin_eq hacc.aligned hacc.position_eq heq
  simp only [origin, held, hp] at heq horigin
  exact ⟨scan_sound (sound_start v position) h p hp, used, heq, horigin, hlaid⟩

/-- The piece being read behind a text is what the text ends with. -/
theorem exists_append_of_pending {position : Nat} (h : (start position).scan v cs = ⟨fs, .ok t⟩)
    {p : Piece} (hp : t.pending = some p) :
    p.Fits v ∧ ∃ used, cs = used ++ p.text.toList ∧ p.start = position + byteSize used := by
  obtain ⟨hfits, used, heq, hstart, -⟩ := exists_laidOut_of_pending h hp
  exact ⟨hfits, used, heq, hstart⟩

/-! ### Where an escape waits -/

/-- The escape that waits behind a text is its last character. -/
theorem exists_of_escapeBehind {position p : Nat} (h : escapeBehind position cs = some p) :
    endsEscaped cs = true ∧ ∃ ds, cs = ds ++ [escapeChar] ∧ p = position + byteSize ds := by
  rw [escapeBehind] at h
  split at h
  · rename_i hends
    refine ⟨hends, ?_⟩
    rcases List.eq_nil_or_concat' cs with rfl | ⟨ds, c, rfl⟩
    · cases hends
    · rw [endsEscaped_concat, Bool.and_eq_true, beq_iff_eq] at hends
      rw [List.dropLast_concat] at h
      exact ⟨ds, by rw [hends.1], (Option.some.inj h).symm⟩
  · cases h

theorem ne_escapeChar_of_classOf {c : Char} (h : classOf c ≠ .member .word) : c ≠ escapeChar := by
  rintro rfl
  exact h classOf_escapeChar

theorem escapeAfter_of_ne {c : Char} (h : c ≠ escapeChar) : s.escapeAfter c = none := by
  simp [escapeAfter, h]

/-- What can be a delimiter is no escape that waits. -/
theorem escapeAfter_of_isEscaped {c : Char} (h : s.isEscaped c = false) :
    s.escapeAfter c = none := by
  by_cases hc : c = escapeChar
  · rw [isEscaped, if_pos hc] at h
    simp [escapeAfter, h]
  · exact escapeAfter_of_ne hc

/-- An escape waits only inside a literal and behind a word, where it is that of the word. -/
structure EscapeHeld (s : Scanner) : Prop where
  elsewhere : openLiteral? s.pending = none → isReading (.run .word) s.pending = false →
    s.escape? = none
  word : ∀ p, s.pending = some p → p.kind = .run .word →
    s.escape? = escapeBehind p.start p.text.toList

theorem escapeHeld_start (position : Nat) : (start position).EscapeHeld where
  elsewhere _ _ := rfl
  word p hp := by cases hp

theorem EscapeHeld.of_literal {p : Piece} {k : Container} (hk : p.kind = .literal k)
    (position : Nat) (escape? : Option Nat) : EscapeHeld ⟨position, some p, escape?⟩ where
  elsewhere hopen := by
    rw [openLiteral?_eq_some_iff.2 ⟨rfl, hk⟩] at hopen
    cases hopen
  word q hq hword := by
    obtain rfl := Option.some.inj hq
    rw [hk] at hword
    cases hword

theorem EscapeHeld.of_none {pending : Option Piece} {escape? : Option Nat}
    (hpending : isReading (.run .word) pending = false) (hescape : escape? = none)
    (position : Nat) : EscapeHeld ⟨position, pending, escape?⟩ where
  elsewhere _ _ := hescape
  word p hp hk := by
    rw [isReading_eq_true_iff.2 ⟨p, hp, hk⟩] at hpending
    cases hpending

theorem EscapeHeld.of_word {p : Piece} (hk : p.kind = .run .word) {escape? : Option Nat}
    (hescape : escape? = escapeBehind p.start p.text.toList) (position : Nat) :
    EscapeHeld ⟨position, some p, escape?⟩ where
  elsewhere _ hpending := by
    rw [isReading_eq_true_iff.2 ⟨p, rfl, hk⟩] at hpending
    cases hpending
  word q hq _ := Option.some.inj hq ▸ hescape

/-- **Where an escape waits** behind a character, if it waited nowhere else before. -/
theorem step_escapeHeld (ha : s.Aligned) (hs : s.EscapeHeld) {c : Char}
    (h : s.step v c = ⟨fs, .ok t⟩) : t.EscapeHeld := by
  obtain ⟨gs, pending, es, hread, hstate, -⟩ := Progress.andThen_eq_ok_iff.1 h
  cases hstate
  have hmakes := makes_moveOf v s.pending (s.isEscaped c) c
  rw [readChar_eq_apply] at hread
  generalize moveOf v s.pending (s.isEscaped c) c = m at hread hmakes
  cases hmakes with
  | @inside p k hp hk _ =>
    rw [hp] at hread
    cases hread
    exact .of_literal (p := p.push c) hk _ _
  | close _ _ hescaped _ =>
    cases hread
    exact .of_none rfl (escapeAfter_of_isEscaped hescaped) _
  | opener _ _ _ =>
    cases hread
    exact .of_literal rfl _ _
  | @join p kind _ hp hk hc =>
    rw [hp] at hread
    cases hread
    by_cases hword : kind = .word
    · subst hword
      have hposition := ha.origin_add
      simp only [origin, held, hp] at hposition
      refine .of_word (p := p.push c) hk ?_ _
      rw [Piece.toList_push]
      exact escapeAfter_eq hposition.symm (hs.word p hp hk) c
    · have hne := ne_escapeChar_of_classOf (c := c) (by simp [hc, hword])
      exact .of_none (by simp [isReading, Piece.push, hk, hword]) (escapeAfter_of_ne hne) _
  | @start kind hout hpending hc =>
    cases hread
    by_cases hword : kind = .word
    · subst hword
      -- Nothing waits where a word starts.
      have hnone := hs.elsewhere hout.not_open hpending
      refine .of_word rfl ?_ _
      have hposition : s.position = s.position + byteSize [] := rfl
      have := escapeAfter_eq hposition hnone c
      simpa [Piece.singleton] using this
    · have hne := ne_escapeChar_of_classOf (c := c) (by simp [hc, hword])
      exact .of_none (by simp [isReading, Piece.singleton, hword]) (escapeAfter_of_ne hne) _
  | blank _ hc | alone _ hc _ =>
    cases hread
    have hne := ne_escapeChar_of_classOf (c := c) (by simp [hc])
    exact .of_none rfl (escapeAfter_of_ne hne) _
  | @point p _ hp hk hc _ =>
    rw [hp] at hread
    cases hread
    have hne := ne_escapeChar_of_classOf (c := c) (by simp [hc, classOf_point])
    exact .of_none (by simp [isReading, Piece.push, hk]) (escapeAfter_of_ne hne) _
  | fault => cases hread

/-- An escape that waits outside literals is that of the word being read. -/
theorem exists_word_of_escape {position p : Nat} (h : (start position).scan v cs = ⟨fs, .ok t⟩)
    (hopen : openLiteral? t.pending = none) (hescape : t.escape? = some p) :
    ∃ q, t.pending = some q ∧ q.kind = .run .word ∧
      escapeBehind q.start q.text.toList = some p := by
  have hkept : ∀ (s t : Scanner) c fs, s.Aligned ∧ s.EscapeHeld → s.step v c = ⟨fs, .ok t⟩ →
      t.Aligned ∧ t.EscapeHeld := fun s t c fs hs hstep =>
    ⟨(step_accounts v hs.1 hstep).aligned, step_escapeHeld hs.1 hs.2 hstep⟩
  obtain ⟨-, hheld⟩ := scan_keeps hkept ⟨aligned_start position, escapeHeld_start position⟩ h
  cases hword : isReading (.run .word) t.pending with
  | false =>
    rw [hheld.elsewhere hopen hword] at hescape
    cases hescape
  | true =>
    obtain ⟨q, hq, hk⟩ := isReading_eq_true_iff.1 hword
    exact ⟨q, hq, hk, hheld.word q hq hk ▸ hescape⟩

/-! ### Faults of a text -/

/-- The faults of a text, each with the fragments that are complete before it is seen. -/
inductive Fails (v : Vocabulary) (s : Scanner) (cs : List Char) :
    List Fragment → LexError → Prop where
  /-- A point follows a number that has one. -/
  | secondPoint {u ds : List Char} {fs : List Fragment} {t : Scanner} {p : Piece} :
    cs = u ++ '.' :: ds → s.scan v u = ⟨fs, .ok t⟩ → t.pending = some p → p.kind = .run .number →
      '.' ∈ p.text.toList → t.step v '.' = .fail (.invalidNumeric '.' p.text t.position) →
        Fails v s cs fs (.invalidNumeric '.' p.text t.position)
  /-- The text ends in a literal. -/
  | openLiteral {fs : List Fragment} {t : Scanner} {p : Piece} {k : Container} :
    s.scan v cs = ⟨fs, .ok t⟩ → t.pending = some p → p.kind = .literal k →
      Fails v s cs fs (.unterminatedContainer k.opener k.closer p.start)
  /-- The text ends outside literals with an escape. -/
  | escape {fs : List Fragment} {t : Scanner} {position : Nat} :
    s.scan v cs = ⟨fs, .ok t⟩ → openLiteral? t.pending = none → t.escape? = some position →
      Fails v s cs fs (.unterminatedEscape position)

theorem finish_eq_error_iff :
    s.finish = ⟨fs, .error e⟩ ↔ fs = [] ∧
      ((∃ p k, s.pending = some p ∧ p.kind = .literal k ∧
          e = .unterminatedContainer k.opener k.closer p.start) ∨
        ∃ position, openLiteral? s.pending = none ∧ s.escape? = some position ∧
          e = .unterminatedEscape position) := by
  unfold finish
  cases hopen : openLiteral? s.pending with
  | some q =>
    obtain ⟨p, k⟩ := q
    have hp := openLiteral?_eq_some_iff.1 hopen
    simp [Progress.fail, hp.1, hp.2, eq_comm]
  | none =>
    have hnone : ¬∃ p k, s.pending = some p ∧ p.kind = .literal k ∧
        e = .unterminatedContainer k.opener k.closer p.start := by
      rintro ⟨p, k, hp, hk, -⟩
      rw [openLiteral?_eq_some_iff.2 ⟨hp, hk⟩] at hopen
      cases hopen
    rw [or_iff_right hnone]
    cases hescape : s.escape? with
    | some position => simp [Progress.fail, eq_comm]
    | none => simp

/-- **The faults of a text.**  Reading it to its end fails iff the text has one of these faults, and
    then with its error. -/
theorem read_eq_error_iff : s.read v cs = ⟨fs, .error e⟩ ↔ Fails v s cs fs e := by
  rw [read, Progress.andThen_eq_error_iff]
  constructor
  · rintro (h | ⟨gs, t, hs, hscan, hfinish, rfl⟩)
    · obtain ⟨u, c, ds, t, rfl, hu, hc⟩ := scan_eq_error_iff.1 h
      obtain ⟨-, rfl, p, hp, hk, hpoint, rfl⟩ := step_eq_error hc
      exact .secondPoint rfl hu hp hk hpoint hc
    · obtain ⟨rfl, ⟨p, k, hp, hk, rfl⟩ | ⟨position, hopen, hescape, rfl⟩⟩ :=
        finish_eq_error_iff.1 hfinish
      · rw [List.append_nil]
        exact .openLiteral hscan hp hk
      · rw [List.append_nil]
        exact .escape hscan hopen hescape
  · intro h
    cases h with
    | secondPoint hcs hu _ _ _ hstep =>
      exact .inl (scan_eq_error_iff.2 ⟨_, _, _, _, hcs, hu, hstep⟩)
    | @openLiteral _ t p k hscan hp hk =>
      refine .inr ⟨fs, t, [], hscan, ?_, (List.append_nil fs).symm⟩
      exact finish_eq_error_iff.2 ⟨rfl, .inl ⟨p, k, hp, hk, rfl⟩⟩
    | @escape _ t position hscan hopen hescape =>
      refine .inr ⟨fs, t, [], hscan, ?_, (List.append_nil fs).symm⟩
      exact finish_eq_error_iff.2 ⟨rfl, .inr ⟨position, hopen, hescape, rfl⟩⟩

end Scanner

/-- The error of a query is a fault of its body, seen behind the fragments that are complete. -/
theorem exists_fails_of_split {sql : String} {e : LexError} (h : split v sql = .error e) :
    ∃ g cs, sql.toList = g ++ cs ∧ g.all isBlank = true ∧ trimStart cs = cs ∧
      Scanner.Fails v (Scanner.start (byteSize g)) (contentOf cs)
        (splitting v sql).fragments e := by
  refine ⟨_, _, (takeWhile_append_trimStart sql.toList).symm, List.all_takeWhile,
    List.dropWhile_idempotent _ _, ?_⟩
  rw [← Scanner.read_eq_error_iff]
  show splitting v sql = _
  rw [← split_eq_error_iff.1 h]

end SqlLex
