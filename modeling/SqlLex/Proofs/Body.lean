import Mathlib.Data.List.DropRight
import SqlLex.Fragment.Split

namespace SqlLex

open Text

/-!
# The part of a query that is read

What is cut off a query before it is read, and that this does not depend on what stands far from the
cut.

* `IsTrailer` — what may stand behind the last fragment.
* `contentOf` — a text up to its trailer; the body of a query is that of the query without the
  blanks before it.
* `exists_body_append` — a query is its body, with blanks before it and a trailer behind it.
* `contentOf_append`, `exists_contentOf_concat_append` — the trailer is cut off without regard to
  what stands before it.
* `body_append` — the body of a query behind given blanks.
-/

/-! ### Blanks at the end -/

/-- Only blanks are cut off the end. -/
theorem exists_trimEnd_append (cs : List Char) :
    ∃ b, b.all isBlank = true ∧ cs = trimEnd cs ++ b := by
  refine ⟨(cs.reverse.takeWhile isBlank).reverse, ?_, ?_⟩
  · rw [List.all_reverse]
    exact List.all_takeWhile
  · rw [trimEnd, ← List.reverse_append, List.takeWhile_append_dropWhile, List.reverse_reverse]

theorem trimEnd_eq_nil_iff {cs : List Char} : trimEnd cs = [] ↔ cs.all isBlank = true := by
  rw [List.all_eq_true]
  exact List.rdropWhile_eq_nil_iff

theorem trimEnd_concat (cs : List Char) (c : Char) :
    trimEnd (cs ++ [c]) = if isBlank c then trimEnd cs else cs ++ [c] :=
  List.rdropWhile_concat isBlank cs c

/-- Text that is not blank keeps what stands before it from being cut off. -/
theorem trimEnd_append (cs : List Char) {ds : List Char} (h : trimEnd ds ≠ []) :
    trimEnd (cs ++ ds) = cs ++ trimEnd ds := by
  induction ds using List.reverseRecOn with
  | nil => exact absurd rfl h
  | append_singleton ds d ih =>
    rw [trimEnd_concat] at h ⊢
    rw [← List.append_assoc, trimEnd_concat]
    split
    · rename_i hd
      rw [if_pos hd] at h
      exact ih h
    · rw [List.append_assoc]

theorem trimEnd_append_blanks (cs : List Char) {b : List Char} (h : b.all isBlank = true) :
    trimEnd (cs ++ b) = trimEnd cs := by
  induction b using List.reverseRecOn with
  | nil => rw [List.append_nil]
  | append_singleton b d ih =>
    rw [List.all_append, Bool.and_eq_true, List.all_cons, Bool.and_eq_true] at h
    rw [← List.append_assoc, trimEnd_concat, if_pos h.2.1, ih h.1]

/-! ### Trailers -/

/-- What may stand behind the last fragment: blanks, and among them one terminator at most. -/
def IsTrailer (cs : List Char) : Prop :=
  ∃ a b, a.all isBlank = true ∧ b.all isBlank = true ∧ (cs = a ∨ cs = a ++ terminator :: b)

theorem IsTrailer.blanks_append {g t : List Char} (hg : g.all isBlank = true)
    (ht : IsTrailer t) : IsTrailer (g ++ t) := by
  obtain ⟨a, b, ha, hb, rfl | rfl⟩ := ht
  · exact ⟨g ++ t, b, by rw [List.all_append, hg, ha]; rfl, hb, .inl rfl⟩
  · exact ⟨g ++ a, b, by rw [List.all_append, hg, ha]; rfl, hb, .inr (List.append_assoc ..).symm⟩

/-- A trailer holds blanks and terminators. -/
theorem IsTrailer.isBlank_or_eq {t : List Char} (ht : IsTrailer t) {c : Char} (hc : c ∈ t) :
    isBlank c = true ∨ c = terminator := by
  obtain ⟨a, b, ha, hb, rfl | rfl⟩ := ht
  · exact .inl (List.all_eq_true.1 ha c hc)
  · rcases List.mem_append.1 hc with hc | hc
    · exact .inl (List.all_eq_true.1 ha c hc)
    · rcases List.mem_cons.1 hc with hc | hc
      · exact .inr hc
      · exact .inl (List.all_eq_true.1 hb c hc)

/-- The only character of a trailer that is not blank is the terminator, with blanks behind it. -/
theorem IsTrailer.eq_terminator {t u ds : List Char} {c : Char} (ht : IsTrailer t)
    (h : t = u ++ c :: ds) (hc : isBlank c = false) : c = terminator ∧ ds.all isBlank = true := by
  obtain ⟨a, b, ha, hb, rfl | rfl⟩ := ht
  · rw [h, List.all_append, List.all_cons, hc] at ha
    simp at ha
  · rcases List.append_eq_append_iff.1 h with ⟨e, rfl, htail⟩ | ⟨e, rfl, htail⟩
    · cases e with
      | nil =>
        obtain ⟨rfl, rfl⟩ := List.cons.inj htail
        exact ⟨rfl, hb⟩
      | cons d e =>
        rw [List.cons_append] at htail
        obtain ⟨-, rfl⟩ := List.cons.inj htail
        rw [List.all_append, List.all_cons, hc] at hb
        simp at hb
    · cases e with
      | nil =>
        obtain ⟨rfl, rfl⟩ := List.cons.inj htail
        exact ⟨rfl, hb⟩
      | cons d e =>
        obtain ⟨rfl, -⟩ := List.cons.inj htail
        rw [List.all_append, List.all_cons, hc] at ha
        simp at ha

/-! ### Texts up to their trailers -/

/-- The text up to its trailer: without the blanks at its end, and without a terminator there. -/
def contentOf (cs : List Char) : List Char := dropTerminator (trimEnd cs)

theorem bodyOf_eq_contentOf (sql : List Char) : bodyOf sql = contentOf (trimStart sql) := rfl

/-- A text is its content, with a trailer behind it. -/
theorem exists_contentOf_append (cs : List Char) : ∃ t, IsTrailer t ∧ cs = contentOf cs ++ t := by
  obtain ⟨b, hb, htrim⟩ := exists_trimEnd_append cs
  by_cases hlast : (trimEnd cs).getLast? = some terminator
  · -- The trailer is the terminator and the blanks behind it.
    obtain ⟨ds, hds⟩ := List.getLast?_eq_some_iff.1 hlast
    refine ⟨terminator :: b, ⟨[], b, rfl, hb, .inr rfl⟩, ?_⟩
    rw [contentOf, hds, dropTerminator_append]
    rw [hds] at htrim
    simpa using htrim
  · refine ⟨b, ⟨b, [], hb, rfl, .inl rfl⟩, ?_⟩
    rwa [contentOf, dropTerminator_of_ne hlast]

/-- A query is its body, with blanks before it and a trailer behind it. -/
theorem exists_body_append (cs : List Char) :
    ∃ t, IsTrailer t ∧ cs = cs.takeWhile isBlank ++ bodyOf cs ++ t := by
  obtain ⟨t, ht, hcs⟩ := exists_contentOf_append (trimStart cs)
  refine ⟨t, ht, ?_⟩
  rw [bodyOf_eq_contentOf, List.append_assoc, ← hcs, takeWhile_append_trimStart]

theorem contentOf_of_blanks {cs : List Char} (h : cs.all isBlank = true) : contentOf cs = [] := by
  rw [contentOf, trimEnd_eq_nil_iff.2 h]
  rfl

theorem contentOf_append_blanks (cs : List Char) {b : List Char} (h : b.all isBlank = true) :
    contentOf (cs ++ b) = contentOf cs := by
  rw [contentOf, trimEnd_append_blanks cs h, contentOf]

theorem contentOf_concat_terminator (cs : List Char) : contentOf (cs ++ [terminator]) = cs := by
  rw [contentOf, trimEnd_concat, if_neg (by decide), dropTerminator_append]

theorem contentOf_concat {c : Char} (hb : isBlank c = false) (ht : c ≠ terminator)
    (cs : List Char) : contentOf (cs ++ [c]) = cs ++ [c] := by
  rw [contentOf, trimEnd_concat, if_neg (by simp [hb]), dropTerminator_of_ne (by simp [ht])]

/-- Text that is not blank keeps what stands before it from being cut off. -/
theorem contentOf_append (cs : List Char) {ds : List Char} (h : trimEnd ds ≠ []) :
    contentOf (cs ++ ds) = cs ++ contentOf ds := by
  rw [contentOf, trimEnd_append cs h, contentOf]
  obtain ⟨es, e, hes⟩ := (List.eq_nil_or_concat' (trimEnd ds)).resolve_left h
  rw [hes, ← List.append_assoc]
  by_cases he : e = terminator
  · rw [he, dropTerminator_append, dropTerminator_append]
  · rw [dropTerminator_of_ne (by simp [he]), dropTerminator_of_ne (by simp [he]),
      List.append_assoc]

/-- A text that has no terminator at its end keeps all but the blanks there. -/
theorem contentOf_of_ne {cs : List Char} (h : (trim cs).getLast? ≠ some terminator) :
    contentOf cs = trimEnd cs := by
  apply dropTerminator_of_ne
  by_cases htrim : trim cs = []
  · -- There are only blanks.
    have hblank : (trimStart cs).all isBlank = true := trimEnd_eq_nil_iff.1 htrim
    have hall : cs.all isBlank = true := by
      rw [← takeWhile_append_trimStart cs, List.all_append, List.all_takeWhile, hblank]
      rfl
    rw [trimEnd_eq_nil_iff.2 hall]
    simp
  · rw [← takeWhile_append_trimStart cs, trimEnd_append _ htrim]
    rw [trim] at h htrim
    rwa [List.getLast?_append_of_ne_nil _ htrim]

theorem byteSize_contentOf_le (cs : List Char) : byteSize (contentOf cs) ≤ byteSize cs := by
  obtain ⟨b, -, hb⟩ := exists_trimEnd_append cs
  have htrim : byteSize (trimEnd cs) ≤ byteSize cs := by
    conv => rhs; rw [hb]
    rw [byteSize_append]
    exact Nat.le_add_right _ _
  refine Nat.le_trans ?_ htrim
  rcases List.eq_nil_or_concat' (trimEnd cs) with hcs | ⟨ds, d, hds⟩
  · rw [contentOf, hcs]
    exact Nat.le_refl _
  · rw [contentOf, hds]
    by_cases hd : d = terminator
    · subst hd
      rw [dropTerminator_append, byteSize_append]
      exact Nat.le_add_right _ _
    · rw [dropTerminator_of_ne (by simp [hd])]

/-- Behind a character that is no part of a trailer, the trailer is cut off without regard to what
    stands before that character. -/
theorem exists_contentOf_append_of_ne {c : Char} (hblank : isBlank c = false) (hc : c ≠ terminator)
    (b : List Char) : ∃ b', ∀ w, contentOf (w ++ [c] ++ b) = w ++ [c] ++ b' := by
  by_cases hb : trimEnd b = []
  · rw [trimEnd_eq_nil_iff] at hb
    refine ⟨[], ?_⟩
    intro w
    rw [contentOf_append_blanks _ hb, contentOf_concat hblank hc, List.append_nil]
  · exact ⟨contentOf b, fun w => contentOf_append _ hb⟩

/-- If the trailer is cut off behind a character, then it is cut off there whatever stands before
    that character. -/
theorem exists_contentOf_concat_append {u b : List Char} {c : Char}
    (h : byteSize (u ++ [c]) ≤ byteSize (contentOf (u ++ [c] ++ b))) :
    ∃ b', ∀ w, contentOf (w ++ [c] ++ b) = w ++ [c] ++ b' := by
  by_cases hb : trimEnd b = []
  · -- Nothing but blanks follow, so the character decides for itself whether it stays.
    rw [trimEnd_eq_nil_iff] at hb
    have hpos := c.utf8Size_pos
    rw [contentOf_append_blanks _ hb, byteSize_append, byteSize_cons, byteSize_nil] at h
    cases hblank : isBlank c with
    | true =>
      have := byteSize_contentOf_le u
      rw [contentOf_append_blanks u (by simp [hblank])] at h
      omega
    | false =>
      by_cases hc : c = terminator
      · subst hc
        rw [contentOf_concat_terminator] at h
        omega
      · exact exists_contentOf_append_of_ne hblank hc b
  · exact ⟨contentOf b, fun w => contentOf_append _ hb⟩

/-! ### Blanks before the body -/

/-- The body of a query that starts with blanks is the content of what follows them, at the place
    where they end. -/
theorem body_append {g cs : List Char} (hg : g.all isBlank = true) (hcs : trimStart cs = cs) :
    bodyStart (g ++ cs) = byteSize g ∧ bodyOf (g ++ cs) = contentOf cs := by
  have hhead : cs.takeWhile isBlank = [] := by
    have := takeWhile_append_trimStart cs
    rw [hcs] at this
    exact List.append_left_eq_self.1 this
  have hall : ∀ c ∈ g, isBlank c = true := List.all_eq_true.1 hg
  constructor
  · rw [bodyStart, List.takeWhile_append_of_pos hall, hhead, List.append_nil]
  · rw [bodyOf_eq_contentOf, trimStart, List.dropWhile_append_of_pos hall]
    exact congrArg contentOf hcs

end SqlLex
