import SqlLex.Proofs.Fault

namespace SqlLex

open Text

/-!
# A second point in a number

A number that goes on behind a second point is at fault at that point.  What stands before the point
can be read, with the number at its end, and what stands behind it has no part in the error.

* `IsDecimal` — digits, a point, and the digits behind it.
* `MarksPoint` — what an error says of the query up to the second point.
* `split_eq_invalidNumeric` — every such error says it.
-/

variable {v : Vocabulary}

/-- Digits, a point, and the digits behind it. -/
def IsDecimal (w : List Char) : Prop :=
  ∃ ds es, ds ≠ [] ∧ ds.all Char.isDigit = true ∧ es.all Char.isDigit = true ∧ w = ds ++ '.' :: es

theorem IsNumeral.isDecimal {w : List Char} (h : IsNumeral w) (hpoint : '.' ∈ w) : IsDecimal w := by
  obtain ⟨ds, hne, hds, rfl | ⟨es, hes, rfl⟩⟩ := h
  · exact absurd (List.all_eq_true.1 hds _ hpoint) (by decide)
  · exact ⟨ds, es, hne, hds, hes, rfl⟩

/-- A number ends with a digit or a point. -/
theorem IsDecimal.exists_concat {w : List Char} (h : IsDecimal w) :
    ∃ u c, w = u ++ [c] ∧ (c.isDigit = true ∨ c = '.') := by
  obtain ⟨ds, es, -, -, hes, rfl⟩ := h
  rcases List.eq_nil_or_concat' es with rfl | ⟨fs, f, rfl⟩
  · exact ⟨ds, '.', rfl, .inr rfl⟩
  · exact ⟨ds ++ '.' :: fs, f, by simp, .inl (List.all_eq_true.1 hes f (by simp))⟩

/-! ### The error -/

/-- What the error of a second point says of a query that starts with `before` and the number `w`,
    and goes on with that point. -/
structure MarksPoint (v : Vocabulary) (before w : List Char) (fragment : String)
    (position : Nat) : Prop where
  decimal : IsDecimal w
  fragment_eq : fragment = String.ofList w
  position_eq : position = byteSize (before ++ w)
  /-- Up to the point the query can be read, and the number is its last fragment. -/
  split_before : ∃ fs, split v (String.ofList (before ++ w)) =
    .ok (fs ++ [⟨fragment, ⟨byteSize before, position⟩⟩])
  /-- Behind the point anything may stand. -/
  split_append : ∀ u : String, split v (String.ofList (before ++ w ++ ['.']) ++ u) =
    .error (.invalidNumeric '.' fragment position)

/-! ### Reading up to the point -/

section Reading

variable {position : Nat} {u : List Char} {fs : List Fragment} {t : Scanner} {p : Piece}
variable (hu : (Scanner.start position).scan v u = ⟨fs, .ok t⟩) (hp : t.pending = some p)
variable (hk : p.kind = .run .number) (hpoint : '.' ∈ p.text.toList)
include hu hp hk hpoint

/-- A number with a point at the end of a text is no part of a trailer, and nothing waits behind
    it. -/
theorem settled_of_decimal : IsDecimal p.text.toList ∧ contentOf u = u ∧ t.Settled := by
  obtain ⟨hfits, used, hused, -⟩ := Scanner.exists_append_of_pending hu hp
  have hdecimal := IsNumeral.isDecimal (hfits.of_kind hk) hpoint
  obtain ⟨w, c, hw, hc⟩ := hdecimal.exists_concat
  rw [hw, ← List.append_assoc] at hused
  -- A digit or a point is neither blank nor a terminator, and no escape.
  have hblank : isBlank c = false := by
    rcases hc with hc | rfl
    · exact isBlank_of_isDigit hc
    · decide
  have hterminator : c ≠ terminator := by
    rintro rfl
    exact absurd hc (by decide)
  have hescape : c ≠ escapeChar := by
    rintro rfl
    exact absurd hc (by decide)
  refine ⟨hdecimal, ?_, ?_, ?_⟩
  · rw [hused, contentOf_concat hblank hterminator]
  · simp only [hp, openLiteral?, hk]
  · rw [Scanner.scan_start_escape? hu, hused, escapeBehind, endsEscaped_concat_of_ne _ hescape]
    rfl

/-- At the point the number is complete. -/
theorem split_decimal {g : List Char} (hg : g.all isBlank = true)
    (hposition : position = byteSize g) (htrim : trimStart u = u) :
    split v (String.ofList (g ++ u)) = .ok (fs ++ [p.toFragment]) := by
  obtain ⟨-, hcontent, hsettled⟩ := settled_of_decimal hu hp hk hpoint
  rw [split_eq_ok_iff, splitting_append v hg htrim, hcontent, ← hposition, Scanner.read, hu]
  show Progress.andThen ⟨fs, .ok t⟩ Scanner.finish = _
  rw [Progress.andThen_eq_ok_iff]
  refine ⟨fs, t, _, rfl, hsettled.finish_eq, ?_⟩
  rw [hp]
  rfl

/-- The scan does not get beyond the point. -/
theorem split_decimal_append
    (hstep : t.step v '.' = .fail (.invalidNumeric '.' p.text t.position)) {g : List Char}
    (hg : g.all isBlank = true) (hposition : position = byteSize g)
    (htrim : ∀ x, trimStart (u ++ x) = u ++ x) (x : String) :
    split v (String.ofList (g ++ u ++ ['.']) ++ x) =
      .error (.invalidNumeric '.' p.text t.position) := by
  obtain ⟨x', hx'⟩ := exists_contentOf_append_of_ne (c := '.') (by decide) (by decide) x.toList
  have htext : String.ofList (g ++ u ++ ['.']) ++ x =
      String.ofList (g ++ (u ++ (['.'] ++ x.toList))) := by
    rw [← String.toList_inj]
    simp
  have hcontent : contentOf (u ++ (['.'] ++ x.toList)) = u ++ '.' :: x' := by
    rw [← List.append_assoc, hx', List.append_assoc]
    rfl
  have hfails : Scanner.Fails v (Scanner.start position) (u ++ '.' :: x') fs
      (.invalidNumeric '.' p.text t.position) :=
    .secondPoint rfl hu hp hk hpoint hstep
  rw [htext, split_eq_error_iff, splitting_append v hg (htrim _), hcontent, ← hposition,
    Scanner.read_eq_error_iff.2 hfails]

end Reading

/-- **A second point in a number.**  The error of a query names a number with one point and the
    position of a further one behind it.  Up to there the query can be read, with the number at its
    end, and the error is the same whatever follows the further point. -/
theorem split_eq_invalidNumeric {sql : String} {c : Char} {fragment : String} {position : Nat}
    (h : split v sql = .error (.invalidNumeric c fragment position)) :
    c = '.' ∧ ∃ before w after, sql.toList = before ++ w ++ '.' :: after ∧
      MarksPoint v before w fragment position := by
  obtain ⟨g, cs, hsql, hg, hcs, hfails⟩ := exists_fails_of_split h
  generalize (splitting v sql).fragments = fs at hfails
  cases hfails with
  | @secondPoint u ds _ t p hcontent hu hp hk hpoint hstep =>
    obtain ⟨hdecimal, -⟩ := settled_of_decimal hu hp hk hpoint
    obtain ⟨-, used, hused, hstart⟩ := Scanner.exists_append_of_pending hu hp
    obtain ⟨r, -, hrest⟩ := exists_contentOf_append cs
    rw [hcontent, List.append_assoc, List.cons_append] at hrest
    -- What is read starts with a character that is not blank, whatever follows the number.
    have htrim : ∀ x, trimStart (u ++ x) = u ++ x := by
      have hne : u ≠ [] := by
        obtain ⟨w, d, hw, -⟩ := hdecimal.exists_concat
        rw [hused, hw]
        simp
      exact trimStart_append_congr hne (hrest ▸ hcs)
    have hbefore : g ++ used ++ p.text.toList = g ++ u := by rw [hused, List.append_assoc]
    have hposition : t.position = byteSize (g ++ u) := by
      rw [Scanner.scan_start_position hu, byteSize_append]
    refine ⟨rfl, g ++ used, p.text.toList, ds ++ r, ?_, hdecimal, ?_, ?_, ⟨fs, ?_⟩, ?_⟩
    · rw [hbefore, hsql, hrest, List.append_assoc]
    · rw [String.ofList_toList]
    · rw [hbefore, hposition]
    · have hone := htrim []
      rw [List.append_nil] at hone
      have hfragment : p.toFragment = ⟨p.text, ⟨byteSize (g ++ used), t.position⟩⟩ := by
        rw [hposition, ← hbefore, byteSize_append _ p.text.toList, byteSize_append, ← hstart,
          byteSize_toList]
        rfl
      rw [hbefore, split_decimal hu hp hk hpoint hg rfl hone, hfragment]
    · intro x
      rw [hbefore, split_decimal_append hu hp hk hpoint hstep hg rfl htrim]

/-- A number behind a character of two bytes and a blank of three, and a literal without an end
    behind the further point. -/
theorem split_eq_invalidNumeric_standard :
    split .standard "π=\u20031.25.3 'x" = .error (.invalidNumeric '.' "1.25" 10) ∧
      ∃ before w after, "π=\u20031.25.3 'x".toList = before ++ w ++ '.' :: after ∧
        MarksPoint .standard before w "1.25" 10 := by
  have h : split .standard "π=\u20031.25.3 'x" = .error (.invalidNumeric '.' "1.25" 10) := by
    decide +kernel
  exact ⟨h, (split_eq_invalidNumeric h).2⟩

end SqlLex
