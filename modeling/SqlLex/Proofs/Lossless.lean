import SqlLex.Proofs.Body
import SqlLex.Proofs.Lexeme.Basic
import SqlLex.Proofs.Move
import SqlLex.Vocabulary.Standard

namespace SqlLex

open Text

/-!
# No character is lost

Whatever the vocabulary, each character that the scanner reads ends up in the piece being read, in
a completed fragment, or is a blank between fragments.

* `Reads` — what reading a character can come to; `readChar_reads` — there is nothing else.
* `Scanner.origin`, `Scanner.held` — the text that is read but not yet part of a fragment.
* `Scanner.Aligned` — the piece being read ends where the scanner stands.
* `step_accounts`, `scan_accounts` — the completed fragments are laid out in the text up to the
  piece being read.
* `laidOut_of_splitting` — the fragments of a query are laid out in its body.
* `Lossless` — the fragments account for all characters of a query; `LaidOut.lossless` — those that
  are laid out in it do; `split_lossless` — so do those that it is split into.
-/

/-! ### What one character does -/

/-- What reading the character `c` at `position` behind `pending` can come to. -/
inductive Reads (pending : Option Piece) (position : Nat) (c : Char) :
    Progress (Option Piece) → Prop where
  /-- The piece goes on. -/
  | push {p : Piece} : pending = some p → Reads pending position c (.pure (some (p.push c)))
  /-- The piece ends with the character. -/
  | close {p : Piece} : pending = some p →
    Reads pending position c ⟨[(p.push c).toFragment], .ok none⟩
  /-- The piece, if any, ends before the character, which starts another one. -/
  | next (kind : PieceKind) :
    Reads pending position c ⟨completed pending, .ok (some (.singleton kind position c))⟩
  /-- The piece, if any, ends before the character, which is blank. -/
  | blank : isBlank c = true → Reads pending position c ⟨completed pending, .ok none⟩
  /-- The piece, if any, ends before the character, which is a fragment on its own. -/
  | alone : Reads pending position c ⟨completed pending ++ [.ofChar position c], .ok none⟩
  /-- The character cannot follow the piece. -/
  | fault {p : Piece} (e : LexError) : pending = some p → Reads pending position c (.fail e)

/-- There is nothing else that a character does. -/
theorem readChar_reads (v : Vocabulary) (pending : Option Piece) (escaped : Bool)
    (position : Nat) (c : Char) :
    Reads pending position c (readChar v pending escaped position c) := by
  have hmakes := makes_moveOf v pending escaped c
  rw [readChar_eq_apply]
  generalize moveOf v pending escaped c = m at hmakes
  cases hmakes with
  | inside hp _ _ | join _ hp _ _ | point _ hp _ _ _ =>
    subst hp
    exact .push rfl
  | close hp _ _ _ =>
    subst hp
    exact .close rfl
  | opener _ _ _ | start _ _ _ => exact .next _
  | blank _ hc => exact .blank (classOf_eq_blank_iff.1 hc)
  | fault _ hp _ _ _ => exact .fault _ hp
  | alone _ _ _ => exact .alone

/-! ### Text that is not yet part of a fragment -/

theorem Piece.toList_push (p : Piece) (c : Char) :
    (p.push c).text.toList = p.text.toList ++ [c] := by
  simp [Piece.push]

theorem Piece.toFragment_eq (p : Piece) : p.toFragment = .ofList p.start p.text.toList := by
  simp [Piece.toFragment, Fragment.ofList, byteSize_toList]

namespace Scanner

variable {v : Vocabulary} {s t : Scanner}

/-- The characters of the piece being read. -/
def held (s : Scanner) : List Char :=
  match s.pending with
  | some p => p.text.toList
  | none => []

/-- The position where the piece being read starts, or else the scanner stands. -/
def origin (s : Scanner) : Nat :=
  match s.pending with
  | some p => p.start
  | none => s.position

/-- The piece being read is not empty, and ends where the scanner stands. -/
structure Aligned (s : Scanner) : Prop where
  origin_add : s.origin + byteSize s.held = s.position
  held_ne_nil : s.pending ≠ none → s.held ≠ []

theorem aligned_start (position : Nat) : (start position).Aligned where
  origin_add := rfl
  held_ne_nil := fun h => absurd rfl h

/-- The piece being read is laid out as the fragment that it would become. -/
theorem Aligned.laidOut_completed (hs : s.Aligned) :
    LaidOut s.origin s.held (completed s.pending) := by
  have hne := hs.held_ne_nil
  cases hp : s.pending with
  | none =>
    simp only [origin, held, hp]
    exact .nil
  | some p =>
    simp only [hp, held, ne_eq, reduceCtorEq, not_false_eq_true, forall_const] at hne
    simp only [origin, held, hp, completed, Option.map_some, Option.toList_some,
      Piece.toFragment_eq]
    exact .singleton hne _

/-- What has been laid out between two states lies between their origins. -/
theorem Aligned.origin_eq (hs : s.Aligned) (ht : t.Aligned) {cs used : List Char}
    (hposition : t.position = s.position + byteSize cs) (h : s.held ++ cs = used ++ t.held) :
    t.origin = s.origin + byteSize used := by
  have hsize := congrArg byteSize h
  rw [byteSize_append, byteSize_append] at hsize
  have := hs.origin_add
  have := ht.origin_add
  omega

/-! ### Accounting for characters -/

/-- The fragments that are completed by reading `cs` from `s` to `t` are laid out in the text up to
    the piece being read in the end. -/
structure Accounts (s : Scanner) (cs : List Char) (fs : List Fragment) (t : Scanner) : Prop where
  aligned : t.Aligned
  position_eq : t.position = s.position + byteSize cs
  laidOut : ∃ used, s.held ++ cs = used ++ t.held ∧ LaidOut s.origin used fs

/-- Reading a character accounts for it. -/
theorem reads_accounts (hs : s.Aligned) {c : Char} {fs : List Fragment} {pending : Option Piece}
    (h : Reads s.pending s.position c ⟨fs, .ok pending⟩) (escape? : Option Nat) :
    Accounts s [c] fs ⟨s.position + c.utf8Size, pending, escape?⟩ := by
  have hdone := hs.laidOut_completed
  have hadd := hs.origin_add
  generalize hr : (⟨fs, .ok pending⟩ : Progress (Option Piece)) = r at h
  cases h with
  | @push p hp =>
    -- Nothing is completed, and the character is held.
    cases hr
    simp only [origin, held, hp] at hadd
    refine ⟨⟨?_, ?_⟩, rfl, [], ?_, .nil⟩
    · simp only [origin, held, Piece.toList_push, byteSize_append, byteSize_cons, byteSize_nil]
      simp only [Piece.push]
      omega
    · simp [held, Piece.toList_push]
    · simp [held, hp, Piece.toList_push]
  | @close p hp =>
    cases hr
    refine ⟨⟨rfl, fun h => absurd rfl h⟩, rfl, s.held ++ [c], by simp [held], ?_⟩
    simp only [origin, held, hp, Piece.toFragment_eq, Piece.toList_push]
    exact .singleton (by simp) _
  | next kind =>
    -- What was held is completed, and the character alone is held.
    cases hr
    refine ⟨⟨?_, ?_⟩, rfl, s.held, ?_, hdone⟩
    · simp [origin, held, Piece.singleton]
    · simp [held, Piece.singleton]
    · simp [held, Piece.singleton]
  | blank hc =>
    cases hr
    refine ⟨⟨rfl, fun h => absurd rfl h⟩, rfl, s.held ++ [c], by simp [held], ?_⟩
    have hone : [c].all isBlank = true := by simp [hc]
    have := hdone.append (.of_blanks hone _)
    rwa [List.append_nil] at this
  | alone =>
    cases hr
    refine ⟨⟨rfl, fun h => absurd rfl h⟩, rfl, s.held ++ [c], by simp [held], ?_⟩
    refine hdone.append ?_
    rw [hadd]
    have := LaidOut.singleton (w := [c]) (by simp) s.position
    simpa [Fragment.ofChar, Fragment.ofList] using this
  | fault e hp => cases hr

theorem step_accounts (v : Vocabulary) (hs : s.Aligned) {c : Char} {fs : List Fragment}
    (h : s.step v c = ⟨fs, .ok t⟩) : Accounts s [c] fs t := by
  have hreads := readChar_reads v s.pending (s.isEscaped c) s.position c
  obtain ⟨gs, pending, es, hread, hstate, rfl⟩ := Progress.andThen_eq_ok_iff.1 h
  cases hstate
  rw [hread] at hreads
  rw [List.append_nil]
  exact reads_accounts hs hreads _

theorem Accounts.trans {r : Scanner} {cs ds : List Char} {fs gs : List Fragment}
    (h₁ : Accounts s cs fs r) (hs : s.Aligned) (h₂ : Accounts r ds gs t) :
    Accounts s (cs ++ ds) (fs ++ gs) t := by
  obtain ⟨used₁, heq₁, hlaid₁⟩ := h₁.laidOut
  obtain ⟨used₂, heq₂, hlaid₂⟩ := h₂.laidOut
  refine ⟨h₂.aligned, ?_, used₁ ++ used₂, ?_, ?_⟩
  · rw [h₂.position_eq, h₁.position_eq, byteSize_append, Nat.add_assoc]
  · rw [← List.append_assoc, heq₁, List.append_assoc, heq₂, List.append_assoc]
  · rw [hs.origin_eq h₁.aligned h₁.position_eq heq₁] at hlaid₂
    exact hlaid₁.append hlaid₂

/-- **Accounting for a text.**  Reading it leaves its characters in completed fragments, between
    them as blanks, or in the piece being read. -/
theorem scan_accounts (v : Vocabulary) (hs : s.Aligned) {cs : List Char} {fs : List Fragment}
    (h : s.scan v cs = ⟨fs, .ok t⟩) : Accounts s cs fs t := by
  induction cs generalizing s fs with
  | nil =>
    cases h
    exact ⟨hs, rfl, [], by simp, .nil⟩
  | cons c cs ih =>
    rw [scan_cons] at h
    obtain ⟨gs, r, es, hstep, hscan, rfl⟩ := Progress.andThen_eq_ok_iff.1 h
    have hc := step_accounts v hs hstep
    exact hc.trans hs (ih hc.aligned hscan)

theorem scan_start_position {v : Vocabulary} {position : Nat} {cs : List Char}
    {fs : List Fragment} (h : (start position).scan v cs = ⟨fs, .ok t⟩) :
    t.position = position + byteSize cs :=
  (scan_accounts v (aligned_start position) h).position_eq

theorem finish_eq_ok {fs : List Fragment} (h : s.finish = ⟨fs, .ok ()⟩) :
    fs = completed s.pending := by
  rw [(settled_of_finish h).finish_eq] at h
  exact (Progress.mk.inj h).1.symm

end Scanner

/-- **The fragments of a body.**  They are laid out in it. -/
theorem laidOut_of_splitting {v : Vocabulary} {sql : String} {fs : List Fragment}
    (h : splitting v sql = ⟨fs, .ok ()⟩) :
    LaidOut (bodyStart sql.toList) (bodyOf sql.toList) fs := by
  obtain ⟨gs, t, es, hscan, hfinish, rfl⟩ := Progress.andThen_eq_ok_iff.1 h
  have hstart := Scanner.aligned_start (bodyStart sql.toList)
  have hacc := Scanner.scan_accounts v hstart hscan
  obtain ⟨used, heq, hlaid⟩ := hacc.laidOut
  have horigin := hstart.origin_eq hacc.aligned hacc.position_eq heq
  -- At the end, the piece being read becomes the last fragment.
  rw [Scanner.finish_eq_ok hfinish]
  have hbody : bodyOf sql.toList = used ++ t.held := heq
  rw [hbody]
  refine hlaid.append ?_
  have := hacc.aligned.laidOut_completed
  rwa [horigin] at this

/-! ### The fragments of a query -/

/-- The fragments of a query are laid out in it, up to a trailer. -/
theorem exists_laidOut_of_split {v : Vocabulary} {sql : String} {fs : List Fragment}
    (h : split v sql = .ok fs) :
    ∃ cs t, sql.toList = cs ++ t ∧ LaidOut 0 cs fs ∧ IsTrailer t := by
  obtain ⟨t, ht, hsql⟩ := exists_body_append sql.toList
  refine ⟨_, t, hsql, ?_, ht⟩
  have hbody := laidOut_of_splitting (split_eq_ok_iff.1 h)
  refine (LaidOut.of_blanks List.all_takeWhile 0).append ?_
  rwa [Nat.zero_add]

/-- The fragments account for all characters of the query. -/
structure Lossless (sql : String) (fs : List Fragment) : Prop where
  /-- A fragment is a part of the query that is not empty, and its span cuts it out. -/
  slices : ∀ f ∈ fs, f.text ≠ "" ∧ f.span.start < f.span.stop ∧ f.span.slice? sql = some f.text
  /-- The fragments stand in order and do not overlap. -/
  ordered : fs.Pairwise fun f g => f.span.stop ≤ g.span.start
  /-- Before the fragments and between them there are only blanks, and behind them a trailer. -/
  gaps : ∃ ps t, sql.toList = joinSpaced ps ++ t ∧ fs = placeSpaced 0 ps ∧
    (∀ p ∈ ps, p.gap.all isBlank = true) ∧ IsTrailer t
  /-- A character that is not blank lies in exactly one fragment, unless it is the terminator that
      is cut off. -/
  covered : ∀ u c ds, sql.toList = u ++ c :: ds → isBlank c = false →
    (∃! f, f ∈ fs ∧ f.span.Covers (byteSize u)) ∨
      (c = terminator ∧ ds.all isBlank = true ∧ ∀ f ∈ fs, f.span.stop ≤ byteSize u)

/-- What is laid out in a query is cut out of it by its spans. -/
theorem LaidOut.slices {sql : String} {fs : List Fragment} {cs ds : List Char}
    (hlaid : LaidOut 0 cs fs) (hsql : sql.toList = cs ++ ds) {f : Fragment} (hf : f ∈ fs) :
    f.text ≠ "" ∧ f.span.start < f.span.stop ∧ f.span.slice? sql = some f.text := by
  refine ⟨hlaid.text_ne_empty hf, (hlaid.bounds hf).2.1, ?_⟩
  have := hlaid.slice?_eq byteSize_nil.symm ds hf
  rwa [List.nil_append, ← hsql, String.ofList_toList] at this

/-- A character that is not blank and stands in what is laid out lies in exactly one fragment. -/
theorem LaidOut.existsUnique_covers {fs : List Fragment} {u es : List Char} {c : Char}
    (hlaid : LaidOut 0 (u ++ c :: es) fs) (hc : isBlank c = false) :
    ∃! f, f ∈ fs ∧ f.span.Covers (byteSize u) := by
  obtain ⟨f, hf, hcov⟩ := hlaid.covered rfl hc
  rw [Nat.zero_add] at hcov
  refine ⟨f, ⟨hf, hcov⟩, ?_⟩
  rintro g ⟨hg, hgcov⟩
  exact hlaid.covers_unique hg hf hgcov hcov

/-- What is laid out in a query up to a trailer accounts for its characters. -/
theorem LaidOut.lossless {sql : String} {fs : List Fragment} {cs t : List Char}
    (hlaid : LaidOut 0 cs fs) (hsql : sql.toList = cs ++ t) (ht : IsTrailer t) :
    Lossless sql fs := by
  refine ⟨fun f hf => hlaid.slices hsql hf, hlaid.pairwise, ?_, ?_⟩
  · obtain ⟨ps, g, hps, hg, rfl, rfl⟩ := hlaid.exists_spaced
    exact ⟨ps, g ++ t, by rw [hsql, List.append_assoc], rfl, fun p hp => (hps p hp).1,
      ht.blanks_append hg⟩
  · intro u c ds hu hc
    rw [hsql] at hu
    rcases List.append_eq_append_iff.1 hu with ⟨e, rfl, htail⟩ | ⟨e, rfl, htail⟩
    · -- The character stands in the trailer.
      obtain ⟨rfl, hds⟩ := ht.eq_terminator htail hc
      refine .inr ⟨rfl, hds, ?_⟩
      intro f hf
      have := (hlaid.bounds hf).2.2
      rw [byteSize_append]
      omega
    · cases e with
      | nil =>
        obtain ⟨rfl, hds⟩ := ht.eq_terminator (u := []) htail.symm hc
        refine .inr ⟨rfl, hds, ?_⟩
        intro f hf
        have := (hlaid.bounds hf).2.2
        rw [List.append_nil] at this
        omega
      | cons d e =>
        -- The character stands in the text that is laid out.
        obtain ⟨rfl, -⟩ := List.cons.inj htail
        exact .inl (hlaid.existsUnique_covers hc)

/-- **Lossless splitting.**  Whatever the vocabulary, the fragments of a query account for all its
    characters. -/
theorem split_lossless {v : Vocabulary} {sql : String} {fs : List Fragment}
    (h : split v sql = .ok fs) : Lossless sql fs := by
  obtain ⟨cs, t, hsql, hlaid, ht⟩ := exists_laidOut_of_split h
  exact hlaid.lossless hsql ht

/-- Blanks of several bytes, a blank and a terminator in a literal, and a terminator behind
    blanks. -/
theorem split_lossless_standard :
    split .standard "\u2003π'; '=1.5 ; " =
        .ok [⟨"π", ⟨3, 5⟩⟩, ⟨"'; '", ⟨5, 9⟩⟩, ⟨"=", ⟨9, 10⟩⟩, ⟨"1.5", ⟨10, 13⟩⟩] ∧
      Lossless "\u2003π'; '=1.5 ; "
        [⟨"π", ⟨3, 5⟩⟩, ⟨"'; '", ⟨5, 9⟩⟩, ⟨"=", ⟨9, 10⟩⟩, ⟨"1.5", ⟨10, 13⟩⟩] := by
  have h : split .standard "\u2003π'; '=1.5 ; " =
      .ok [⟨"π", ⟨3, 5⟩⟩, ⟨"'; '", ⟨5, 9⟩⟩, ⟨"=", ⟨9, 10⟩⟩, ⟨"1.5", ⟨10, 13⟩⟩] := by
    decide +kernel
  exact ⟨h, split_lossless h⟩

end SqlLex
