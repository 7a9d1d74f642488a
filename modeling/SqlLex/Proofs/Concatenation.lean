import SqlLex.Proofs.Lossless
import SqlLex.Proofs.Shift
import SqlLex.Proofs.Grouping

namespace SqlLex

open Text

/-!
# Queries behind one another

Where no blank opens a literal, a blank behind a query that can be read brings the scanner back to
its start.  What follows is then read as if it stood alone, further to the right.

* `Scanner.read_append_blanks` — reading goes on behind blanks as at the start.
* `splitting_append_blank` — the run over two queries with a blank between them.
* `split_append_blank` — their fragments, their errors, and their tokens.
-/

variable {v : Vocabulary}

namespace Scanner

/-- Behind a text that can be read to its end, and blanks, reading goes on as at the start. -/
theorem read_append_blanks (hv : v.BlanksSeparate) {position : Nat} {cs : List Char}
    {fs : List Fragment} (h : (start position).read v cs = ⟨fs, .ok ()⟩) {b : List Char}
    (hne : b ≠ []) (hb : b.all isBlank = true) (ds : List Char) :
    (start position).read v (cs ++ (b ++ ds)) =
      (⟨fs, .ok ()⟩ : Progress Unit).andThen fun _ =>
        (start (position + byteSize (cs ++ b))).read v ds := by
  obtain ⟨gs, t, es, hscan, hfinish, rfl⟩ := Progress.andThen_eq_ok_iff.1 h
  have ht : t.Settled := settled_of_finish hfinish
  have hposition : t.position + byteSize b = position + byteSize (cs ++ b) := by
    rw [scan_start_position hscan, byteSize_append, Nat.add_assoc]
  -- The blanks complete what is being read, as the end of the text does.
  have hrest := read_blanks hv ht.not_open hne hb ds
  rw [← ht.finish_eq, hfinish, hposition] at hrest
  refine (read_append hscan hrest).trans ?_
  show Progress.mk (gs ++ (es ++ _)) _ = Progress.mk (gs ++ es ++ _) _
  rw [List.append_assoc]

end Scanner

/-- The run over two queries with a blank between them is the run over the first, if that can be
    read and has no terminator, and then the run over the second further to the right. -/
theorem splitting_append_blank (hv : v.BlanksSeparate) {sql₁ : String} {fs : List Fragment}
    (h : splitting v sql₁ = ⟨fs, .ok ()⟩) (hlast : (trim sql₁.toList).getLast? ≠ some terminator)
    {w : Char} (hw : isBlank w = true) (sql₂ : String) :
    splitting v (sql₁ ++ w.toString ++ sql₂) =
      (⟨fs, .ok ()⟩ : Progress Unit).andThen fun _ =>
        (splitting v sql₂).shiftWith (sql₁.utf8ByteSize + w.utf8Size) id := by
  have htext : (sql₁ ++ w.toString ++ sql₂).toList = sql₁.toList ++ [w] ++ sql₂.toList := by simp
  have hone : [w].all isBlank = true := by simp [hw]
  rw [splitting_eq_read_contentOf hv] at h ⊢
  rw [splitting_eq_read_contentOf hv, htext]
  by_cases hblank : trimEnd sql₂.toList = []
  · -- Only blanks follow the first query.
    rw [trimEnd_eq_nil_iff] at hblank
    have hall : ([w] ++ sql₂.toList).all isBlank = true := by
      rw [List.all_append, hone, hblank]
      rfl
    rw [List.append_assoc, contentOf_append_blanks _ hall, h, contentOf_of_blanks hblank]
    simp [Scanner.read_nil, Scanner.finish, Scanner.start, openLiteral?, completed,
      Progress.andThen, Progress.shiftWith, Except.map, Except.mapError]
  · obtain ⟨b, hb, hsql₁⟩ := exists_trimEnd_append sql₁.toList
    have hblanks : (b ++ [w]).all isBlank = true := by
      rw [List.all_append, hb, hone]
      rfl
    have hcontent : contentOf (sql₁.toList ++ [w] ++ sql₂.toList) =
        trimEnd sql₁.toList ++ (b ++ [w] ++ contentOf sql₂.toList) := by
      rw [contentOf_append _ hblank]
      conv => lhs; rw [hsql₁]
      simp only [List.append_assoc]
    have hsize : 0 + byteSize (trimEnd sql₁.toList ++ (b ++ [w])) =
        sql₁.utf8ByteSize + w.utf8Size := by
      rw [Nat.zero_add, ← List.append_assoc, ← hsql₁, byteSize_append, byteSize_toList]
      rfl
    rw [contentOf_of_ne hlast] at h
    rw [hcontent, Scanner.read_append_blanks hv h (by simp) hblanks, hsize, ← Scanner.read_shift]
    rfl

/-- **Queries behind one another.**  Of two queries with a blank between them, where the first can
    be read and has no terminator, the fragments are those of both, and an error of the second is
    the error of the whole, each as far to the right as the second query stands.  If a literal or a
    number stands at the border, then the same holds of the tokens. -/
theorem split_append_blank (hv : v.BlanksSeparate) {sql₁ : String} {fs : List Fragment}
    (h : split v sql₁ = .ok fs) (hlast : (trim sql₁.toList).getLast? ≠ some terminator)
    {w : Char} (hw : isBlank w = true) (sql₂ : String) :
    (split v (sql₁ ++ w.toString ++ sql₂) =
      match split v sql₂ with
      | .ok gs => .ok (fs ++ gs.map (.shift (sql₁.utf8ByteSize + w.utf8Size)))
      | .error e => .error (e.shift (sql₁.utf8ByteSize + w.utf8Size))) ∧
    ∀ gs, split v sql₂ = .ok gs → ValueBetween v fs gs →
      ∃ ts us, tokenize v sql₁ = .ok ts ∧ tokenize v sql₂ = .ok us ∧
        tokenize v (sql₁ ++ w.toString ++ sql₂) =
          .ok (ts ++ us.map (.shift (sql₁.utf8ByteSize + w.utf8Size))) := by
  have hrun := splitting_append_blank hv (split_eq_ok_iff.1 h) hlast hw sql₂
  generalize sql₁.utf8ByteSize + w.utf8Size = n at hrun ⊢
  have hsplit : split v (sql₁ ++ w.toString ++ sql₂) =
      match split v sql₂ with
      | .ok gs => .ok (fs ++ gs.map (.shift n))
      | .error e => .error (e.shift n) := by
    rw [split, hrun, split]
    obtain ⟨gs, e | ⟨⟩⟩ := splitting v sql₂ <;> rfl
  refine ⟨hsplit, ?_⟩
  intro gs hgs hborder
  refine ⟨_, _, tokenize_of_split h, tokenize_of_split hgs, ?_⟩
  rw [hgs] at hsplit
  rw [tokenize_of_split hsplit, tokensOf_append (hborder.shift n), tokensOf_map_shift]

/-- A phrase that the second query goes on with, behind a number; and a literal without an end. -/
theorem split_append_blank_standard :
    Vocabulary.standard.BlanksSeparate ∧
      split .standard "left 1.5 " = .ok [⟨"left", ⟨0, 4⟩⟩, ⟨"1.5", ⟨5, 8⟩⟩] ∧
      (trim "left 1.5 ".toList).getLast? ≠ some terminator ∧ isBlank '\u2003' = true ∧
      split .standard " join\nb ;" = .ok [⟨"join", ⟨1, 5⟩⟩, ⟨"b", ⟨6, 7⟩⟩] ∧
      ValueBetween .standard [⟨"left", ⟨0, 4⟩⟩, ⟨"1.5", ⟨5, 8⟩⟩]
        [⟨"join", ⟨1, 5⟩⟩, ⟨"b", ⟨6, 7⟩⟩] ∧
      split .standard "left 1.5 \u2003 join\nb ;" =
        .ok [⟨"left", ⟨0, 4⟩⟩, ⟨"1.5", ⟨5, 8⟩⟩, ⟨"join", ⟨13, 17⟩⟩, ⟨"b", ⟨18, 19⟩⟩] ∧
      (∃ ts us, tokenize .standard "left 1.5 " = .ok ts ∧ tokenize .standard " join\nb ;" = .ok us ∧
        tokenize .standard "left 1.5 \u2003 join\nb ;" = .ok (ts ++ us.map (.shift 12))) ∧
      split .standard "left 1.5 \u2003x 'b;" =
        .error (.unterminatedContainer '\'' '\'' 14) := by
  have hv := Vocabulary.standard_plainDelimiters.blanksSeparate
  have h₁ : split .standard "left 1.5 " = .ok [⟨"left", ⟨0, 4⟩⟩, ⟨"1.5", ⟨5, 8⟩⟩] := by
    decide +kernel
  have hlast : (trim "left 1.5 ".toList).getLast? ≠ some terminator := by decide
  have hw : isBlank '\u2003' = true := by decide
  have h₂ : split .standard " join\nb ;" = .ok [⟨"join", ⟨1, 5⟩⟩, ⟨"b", ⟨6, 7⟩⟩] := by
    decide +kernel
  have hopen : split .standard "x 'b;" = .error (.unterminatedContainer '\'' '\'' 2) := by
    decide +kernel
  have hborder : ValueBetween .standard [⟨"left", ⟨0, 4⟩⟩, ⟨"1.5", ⟨5, 8⟩⟩]
      [⟨"join", ⟨1, 5⟩⟩, ⟨"b", ⟨6, 7⟩⟩] := by
    refine .inl ?_
    rintro f ⟨⟩
    decide +kernel
  obtain ⟨hsplit, htokens⟩ := split_append_blank hv h₁ hlast hw " join\nb ;"
  obtain ⟨hfault, -⟩ := split_append_blank hv h₁ hlast hw "x 'b;"
  rw [h₂] at hsplit
  rw [hopen] at hfault
  exact ⟨hv, h₁, hlast, hw, h₂, hborder, hsplit, htokens _ h₂ hborder, hfault⟩

end SqlLex
