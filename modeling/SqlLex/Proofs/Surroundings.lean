import SqlLex.Proofs.Concatenation
import SqlLex.Proofs.OpenLiteral

namespace SqlLex

open Text

/-!
# What stands around a query

Where blanks are no delimiters, those around a query and a terminator behind it move its fragments
and errors and change nothing else.  Blanks before the terminator are read with the query: they
change nothing either, unless the query ends with an escape, which they put an end to.

* `Vocabulary.BlanksApart` — no blank opens or closes a literal.
* `Scanner.read_append_blanks_of_ne`, `Scanner.exists_read_append_blanks` — a text with blanks
  behind it, without a waiting escape and with it.
* `split_of_content` — what is read behind blanks.
* `split_spaced_of_ne`, `exists_split_spaced` — blanks before a terminator.
* `split_surrounded` — a query with blanks around it and a terminator.
-/

variable {v : Vocabulary}

/-- No blank opens or closes a literal. -/
structure Vocabulary.BlanksApart (v : Vocabulary) : Prop where
  separate : v.BlanksSeparate
  closer : ∀ k ∈ v.containers, isBlank k.closer = false

/-! ### Blanks behind a text -/

namespace Scanner

variable {position : Nat} {cs b : List Char} {fs : List Fragment}

/-- Blanks behind a text change nothing, unless an escape waits for them. -/
theorem read_append_blanks_of_ne (hv : v.BlanksApart)
    (h : ∀ p, ((start position).read v cs).outcome ≠ .error (.unterminatedEscape p))
    (hb : b.all isBlank = true) :
    (start position).read v (cs ++ b) = (start position).read v cs := by
  generalize hrun : (start position).read v cs = run at h
  obtain ⟨fs, e | ⟨⟩⟩ := run
  · -- The text is at fault before the blanks, or they belong to its last literal.
    rw [read_eq_error_iff] at hrun ⊢
    cases hrun with
    | @secondPoint u ds _ t p hcs hu hp hk hpoint hstep =>
      have hcs' : cs ++ b = u ++ '.' :: (ds ++ b) := by
        rw [hcs, List.append_assoc, List.cons_append]
      exact .secondPoint hcs' hu hp hk hpoint hstep
    | @openLiteral _ t p k hscan hp hk =>
      obtain ⟨hmem, -⟩ := (exists_append_of_pending hscan hp).1.of_kind hk
      have hopen : ∀ d ∈ b, d ≠ k.closer := by
        rintro d hd rfl
        have hblank := List.all_eq_true.1 hb _ hd
        rw [hv.closer k hmem] at hblank
        cases hblank
      obtain ⟨r, hr, hpr⟩ := scan_append_literal hscan hp hk hopen
      have hfails : Fails v (start position) (cs ++ b) fs
          (.unterminatedContainer k.opener k.closer (p.extend b).start) :=
        .openLiteral hr hpr hk
      exact hfails
    | escape => exact absurd rfl (h _)
  · by_cases hne : b = []
    · rw [hne, List.append_nil, hrun]
    · have hblanks := read_append_blanks hv.separate hrun hne hb []
      rw [List.append_nil] at hblanks
      rw [hblanks]
      show Progress.mk (fs ++ []) (.ok ()) = _
      rw [List.append_nil]

/-- An escape that waits behind a text is forgotten with the first blank, and what it belongs to is
    the last fragment. -/
theorem exists_read_append_blanks (hv : v.BlanksSeparate) {p : Nat}
    (h : (start position).read v cs = ⟨fs, .error (.unterminatedEscape p)⟩) (hne : b ≠ [])
    (hb : b.all isBlank = true) :
    p + 1 = position + byteSize cs ∧
      ∃ f : Fragment, (start position).read v (cs ++ b) = ⟨fs ++ [f], .ok ()⟩ ∧
        f.text.toList.getLast? = some escapeChar ∧ f.span.stop = position + byteSize cs := by
  rw [read_eq_error_iff] at h
  cases h with
  | @escape _ t _ hscan hopen hescape =>
    obtain ⟨q, hq, -, hbehind⟩ := exists_word_of_escape hscan hopen hescape
    obtain ⟨-, used, rfl, hstart⟩ := exists_append_of_pending hscan hq
    obtain ⟨-, ds, hds, rfl⟩ := exists_of_escapeBehind hbehind
    refine ⟨?_, q.toFragment, ?_, ?_, ?_⟩
    · rw [hds, byteSize_append, byteSize_append, hstart, Nat.add_assoc, Nat.add_assoc]
      rfl
    · have hblanks : t.read v b = ⟨[q.toFragment], .ok ()⟩ := by
        rw [← List.append_nil b, read_blanks hv hopen hne hb, hq]
        rfl
      exact read_append hscan hblanks
    · show q.text.toList.getLast? = some escapeChar
      rw [hds, List.getLast?_concat]
    · show q.start + q.text.utf8ByteSize = _
      rw [byteSize_append, byteSize_toList, hstart, Nat.add_assoc]

end Scanner

/-! ### Blanks around a query -/

/-- A query is read behind the blanks at its front as if they were not there, but further to the
    right. -/
theorem split_of_content (hv : v.BlanksSeparate) {sql g : String} {cs : List Char}
    (hg : g.toList.all isBlank = true) (h : contentOf sql.toList = g.toList ++ cs) :
    split v sql = shiftAnswer g.utf8ByteSize ((Scanner.start 0).read v cs).toExcept := by
  rw [split, splitting_eq_read_contentOf hv, h, Scanner.read_start_blanks hv hg, byteSize_toList,
    ← Progress.toExcept_shiftWith, ← Scanner.read_shift]
  simp [Scanner.shift, Scanner.start]

section Surrounded

variable {t a b c : String}

/-- Of a text with blanks around it, everything but the blanks behind it is read. -/
theorem contentOf_surrounded (ht : trimEnd t.toList = t.toList)
    (hlast : t.toList.getLast? ≠ some terminator) (hne : t.toList ≠ [])
    (hc : c.toList.all isBlank = true) :
    contentOf (a ++ t ++ c).toList = a.toList ++ t.toList := by
  rw [String.toList_append, String.toList_append, contentOf_append_blanks _ hc,
    contentOf_append _ (by rwa [ht]), contentOf, ht, dropTerminator_of_ne hlast]

/-- With a terminator behind it, the blanks before that are read, too. -/
theorem contentOf_terminated (hc : c.toList.all isBlank = true) :
    contentOf (t ++ ";" ++ c).toList = t.toList := by
  rw [String.toList_append, String.toList_append, contentOf_append_blanks _ hc]
  exact contentOf_concat_terminator _

theorem contentOf_spaced (hc : c.toList.all isBlank = true) :
    contentOf (a ++ t ++ b ++ ";" ++ c).toList = a.toList ++ (t.toList ++ b.toList) := by
  rw [contentOf_terminated hc, String.toList_append, String.toList_append, List.append_assoc]

/-- A text that ends neither with a blank nor with a terminator is read as it is. -/
theorem splitting_eq_read (hv : v.BlanksSeparate) (ht : trimEnd t.toList = t.toList)
    (hlast : t.toList.getLast? ≠ some terminator) :
    splitting v t = (Scanner.start 0).read v t.toList := by
  rw [splitting_eq_read_contentOf hv, contentOf, ht, dropTerminator_of_ne hlast]

/-- Blanks before the terminator change nothing, unless the text ends with an escape. -/
theorem split_spaced_of_ne (hv : v.BlanksApart) (ht : trimEnd t.toList = t.toList)
    (hlast : t.toList.getLast? ≠ some terminator) (ha : a.toList.all isBlank = true)
    (hb : b.toList.all isBlank = true) (hc : c.toList.all isBlank = true)
    (h : ∀ p, split v t ≠ .error (.unterminatedEscape p)) :
    split v (a ++ t ++ b ++ ";" ++ c) = shiftAnswer a.utf8ByteSize (split v t) := by
  have hread := splitting_eq_read hv.separate ht hlast
  have hend : ∀ p,
      ((Scanner.start 0).read v t.toList).outcome ≠ .error (.unterminatedEscape p) := by
    intro p hp
    rw [← hread] at hp
    exact h p (split_eq_error_iff.2 hp)
  rw [split_of_content hv.separate ha (contentOf_spaced hc),
    Scanner.read_append_blanks_of_ne hv hend hb, split, hread]

/-- An escape at the end of the text is forgotten with blanks before the terminator. -/
theorem exists_split_spaced (hv : v.BlanksSeparate) (ht : trimEnd t.toList = t.toList)
    (hlast : t.toList.getLast? ≠ some terminator) (ha : a.toList.all isBlank = true)
    (hb : b.toList.all isBlank = true) (hc : c.toList.all isBlank = true) (hne : b ≠ "") {p : Nat}
    (h : split v t = .error (.unterminatedEscape p)) :
    p + 1 = t.utf8ByteSize ∧
      ∃ f, split v (a ++ t ++ b ++ ";" ++ c) =
          .ok (((splitting v t).fragments ++ [f]).map (.shift a.utf8ByteSize)) ∧
        f.text.toList.getLast? = some escapeChar ∧ f.span.stop = t.utf8ByteSize := by
  have hfails : (Scanner.start 0).read v t.toList =
      ⟨(splitting v t).fragments, .error (.unterminatedEscape p)⟩ := by
    rw [← splitting_eq_read hv ht hlast, ← split_eq_error_iff.1 h]
  obtain ⟨hp, f, hf, htext, hstop⟩ :=
    Scanner.exists_read_append_blanks hv hfails (by simpa using hne) hb
  rw [Nat.zero_add, byteSize_toList] at hp hstop
  refine ⟨hp, f, ?_, htext, hstop⟩
  rw [split_of_content hv ha (contentOf_spaced hc), hf]
  rfl

/-- **Blanks and a terminator around a query.**  Where blanks are no delimiters, those around a text
    that ends neither with a blank nor with a terminator, and a terminator right behind it, change
    its answer only in that it moves to the right.  So do blanks before that terminator, unless the
    text ends with an escape.  Then they put an end to the escape: the query can be read, and its
    last fragment ends with the escape character, at the end of the text. -/
theorem split_surrounded (hv : v.BlanksApart) (ht : trimEnd t.toList = t.toList)
    (hlast : t.toList.getLast? ≠ some terminator) (ha : a.toList.all isBlank = true)
    (hb : b.toList.all isBlank = true) (hc : c.toList.all isBlank = true) :
    split v (a ++ t ++ c) = shiftAnswer a.utf8ByteSize (split v t) ∧
    split v (a ++ t ++ ";" ++ c) = shiftAnswer a.utf8ByteSize (split v t) ∧
    (b ≠ "" →
      (split v (a ++ t ++ b ++ ";" ++ c) = shiftAnswer a.utf8ByteSize (split v t) ↔
        ∀ p, split v t ≠ .error (.unterminatedEscape p)) ∧
      ∀ p, split v t = .error (.unterminatedEscape p) →
        p + 1 = t.utf8ByteSize ∧
        ∃ f, split v (a ++ t ++ b ++ ";" ++ c) =
            .ok (((splitting v t).fragments ++ [f]).map (.shift a.utf8ByteSize)) ∧
          f.text.toList.getLast? = some escapeChar ∧ f.span.stop = t.utf8ByteSize) := by
  have hread := splitting_eq_read hv.separate ht hlast
  have hsame {sql : String} (h : contentOf sql.toList = a.toList ++ t.toList) :
      split v sql = shiftAnswer a.utf8ByteSize (split v t) := by
    rw [split_of_content hv.separate ha h, split, hread]
  have hescaped {p : Nat} (hne : b ≠ "") (h : split v t = .error (.unterminatedEscape p)) :=
    exists_split_spaced hv.separate ht hlast ha hb hc hne h
  refine ⟨?_, hsame ?_, fun hne => ⟨⟨?_, ?_⟩, fun p => hescaped hne⟩⟩
  · by_cases hne : t.toList = []
    · -- Nothing is read.
      obtain rfl : t = "" := by rwa [← String.toList_inj]
      have hnil : contentOf (a ++ "" ++ c).toList = [] := by
        apply contentOf_of_blanks
        simp [ha, hc]
      rw [split, splitting_eq_read_contentOf hv.separate, hnil, split, hread]
      rfl
    · exact hsame (contentOf_surrounded ht hlast hne hc)
  · rw [contentOf_terminated hc, String.toList_append]
  · intro h p hp
    obtain ⟨-, f, hf, -⟩ := hescaped hne hp
    rw [h, hp] at hf
    cases hf
  · exact split_spaced_of_ne hv ht hlast ha hb hc

end Surrounded

theorem Vocabulary.standard_blanksApart : Vocabulary.standard.BlanksApart where
  separate := Vocabulary.standard_plainDelimiters.blanksSeparate
  closer := by decide

/-- A literal that goes on over the blanks, and an escape that they put an end to. -/
theorem split_surrounded_standard :
    Vocabulary.standard.BlanksApart ∧ trimEnd "x 'b".toList = "x 'b".toList ∧
      "x 'b".toList.getLast? ≠ some terminator ∧ trimEnd "x b\\".toList = "x b\\".toList ∧
      "x b\\".toList.getLast? ≠ some terminator ∧ "\u2003".toList.all isBlank = true ∧
      " \n".toList.all isBlank = true ∧ "\t".toList.all isBlank = true ∧ " \n" ≠ "" ∧
      split .standard "\u2003x 'b;\t" = .error (.unterminatedContainer '\x27' '\x27' 5) ∧
      split .standard "\u2003x 'b \n;\t" = .error (.unterminatedContainer '\x27' '\x27' 5) ∧
      split .standard "\u2003x b\\;\t" = .error (.unterminatedEscape 6) ∧
      ∃ f : Fragment, split .standard "\u2003x b\\ \n;\t" = .ok [⟨"x", ⟨3, 4⟩⟩, f.shift 3] ∧
        f.text.toList.getLast? = some escapeChar ∧ f.span.stop = 4 := by
  have hv := Vocabulary.standard_blanksApart
  have ht₁ : trimEnd "x 'b".toList = "x 'b".toList := by decide
  have ht₂ : trimEnd "x b\\".toList = "x b\\".toList := by decide
  have hlast₁ : "x 'b".toList.getLast? ≠ some terminator := by decide
  have hlast₂ : "x b\\".toList.getLast? ≠ some terminator := by decide
  have ha : "\u2003".toList.all isBlank = true := by decide
  have hb : " \n".toList.all isBlank = true := by decide
  have hc : "\t".toList.all isBlank = true := by decide
  have hne : " \n" ≠ "" := by decide
  have hopen : split .standard "x 'b" = .error (.unterminatedContainer '\x27' '\x27' 2) := by
    decide +kernel
  have hescape : split .standard "x b\\" = .error (.unterminatedEscape 3) := by decide +kernel
  obtain ⟨-, h₁, hspaced₁⟩ := split_surrounded hv ht₁ hlast₁ ha hb hc
  obtain ⟨-, h₂, hspaced₂⟩ := split_surrounded hv ht₂ hlast₂ ha hb hc
  have h₃ := (hspaced₁ hne).1.2 (by simp [hopen])
  obtain ⟨-, f, h₄, htext, hstop⟩ := (hspaced₂ hne).2 3 hescape
  have hflushed : (splitting .standard "x b\\").fragments = [⟨"x", ⟨0, 1⟩⟩] := by decide +kernel
  rw [hopen] at h₁ h₃
  rw [hescape] at h₂
  rw [hflushed] at h₄
  exact ⟨hv, ht₁, hlast₁, ht₂, hlast₂, ha, hb, hc, hne, h₁, h₃, h₂, f, h₄, htext, hstop⟩

end SqlLex
