import SqlLex.Proofs.Grouping
import SqlLex.Proofs.Lexeme.Locality
import SqlLex.Proofs.MaximalMunch

namespace SqlLex

open Text

/-!
# Blanks between fragments

Which fragments and tokens a query has does not depend on how many blanks stand between its
fragments, nor on which, as long as there is one.

* `WellSpaced` — texts with blanks between any two of them and behind the last.
* `IsLexeme` — a text is a lexeme in front of a blank; `isLexeme_of_mem_munch` — every lexeme of a
  text is.
* `munch_joinSpaced` — lexemes with blanks between them are found again where they stand.
* `singleSpaced` — the texts with single blanks between them.
* `split_respaced` — the fragments and tokens of a query are those of any other spacing.
-/

variable {v : Vocabulary}

/-! ### Spacings -/

/-- The gaps are blank, and there is a blank between any two texts and behind the last. -/
structure WellSpaced (ps : List Spaced) (last : List Char) : Prop where
  blank : ∀ p ∈ ps, p.gap.all isBlank = true
  apart : ∀ p ∈ ps.tail, p.gap ≠ []
  last_blank : last.all isBlank = true
  last_apart : ps ≠ [] → last ≠ []

theorem WellSpaced.of_cons {p : Spaced} {ps : List Spaced} {last : List Char}
    (h : WellSpaced (p :: ps) last) : WellSpaced ps last where
  blank q hq := h.blank q (List.mem_cons_of_mem _ hq)
  apart q hq := h.apart q (List.mem_of_mem_tail hq)
  last_blank := h.last_blank
  last_apart _ := h.last_apart (List.cons_ne_nil _ _)

/-- A blank stands behind the first text. -/
theorem WellSpaced.exists_blank {p : Spaced} {ps : List Spaced} {last : List Char}
    (h : WellSpaced (p :: ps) last) :
    ∃ d ds, joinSpaced ps ++ last = d :: ds ∧ isBlank d = true := by
  have hfirst : ∀ {g : List Char}, g ≠ [] → g.all isBlank = true → ∀ rest,
      ∃ d ds, g ++ rest = d :: ds ∧ isBlank d = true := by
    intro g hne hg rest
    obtain ⟨d, ds, rfl⟩ := List.exists_cons_of_ne_nil hne
    rw [List.all_cons, Bool.and_eq_true] at hg
    exact ⟨d, ds ++ rest, rfl, hg.1⟩
  -- What follows the first text is the next gap, or the blanks at the end.
  cases ps with
  | nil =>
    obtain ⟨d, ds, hlast, hd⟩ := hfirst (h.last_apart (List.cons_ne_nil _ _)) h.last_blank []
    exact ⟨d, ds, by rw [← hlast, List.append_nil]; rfl, hd⟩
  | cons q ps =>
    have hq : q ∈ (p :: q :: ps).tail := List.mem_cons_self
    rw [joinSpaced_cons, List.append_assoc, List.append_assoc]
    exact hfirst (h.apart q hq) (h.blank q (List.mem_of_mem_tail hq)) _

/-! ### Lexemes in front of blanks -/

/-- In front of a blank, wherever that is, the text is a lexeme. -/
def IsLexeme (v : Vocabulary) (w : List Char) : Prop :=
  ∃ c u, w = c :: u ∧ isBlank c = false ∧
    ∀ position d ds, isBlank d = true → lexemeTail v position c (u ++ d :: ds) = .ok u

/-- Every lexeme of a text is one in front of a blank, whatever follows it in the text. -/
theorem isLexeme_of_mem_munch {position : Nat} {cs : List Char} {fs : List Fragment}
    (h : munch v position cs = ⟨fs, .ok ()⟩) {f : Fragment} (hf : f ∈ fs) :
    IsLexeme v f.text.toList := by
  induction position, cs using munch.induct generalizing fs with
  | case1 position =>
    rw [munch_nil] at h
    cases h
    cases hf
  | case2 position c cs ih =>
    cases hb : isBlank c with
    | true =>
      rw [munch_blank hb] at h
      exact ih [] h hf
    | false =>
      obtain ⟨w, rest, gs, rfl, hw, hrest, rfl⟩ := munch_cons_eq_ok hb h
      rcases List.mem_cons.1 hf with rfl | hf
      · refine ⟨c, w, by simp [Fragment.ofList], hb, ?_⟩
        intro position' d ds hd
        exact lexemeTail_congr hw (.inl hd) position' ds
      · exact ih w (by rwa [List.drop_left]) hf

/-- A lexeme is read in front of a blank. -/
theorem IsLexeme.munch_append {w : List Char} (hw : IsLexeme v w) {d : Char}
    (hd : isBlank d = true) (position : Nat) (ds : List Char) :
    munch v position (w ++ d :: ds) =
      (Progress.emit (.ofList position w)).andThen fun _ =>
        munch v (position + byteSize w) (d :: ds) := by
  obtain ⟨c, u, rfl, hb, htail⟩ := hw
  have := munch_ok hb (htail position d ds hd)
  rwa [List.drop_left] at this

/-- Lexemes with blanks between them are found again, at the places where they stand. -/
theorem munch_joinSpaced {ps : List Spaced} {last : List Char} (hps : WellSpaced ps last)
    (hlexemes : ∀ p ∈ ps, IsLexeme v p.text) (position : Nat) :
    munch v position (joinSpaced ps ++ last) = ⟨placeSpaced position ps, .ok ()⟩ := by
  induction ps generalizing position with
  | nil =>
    have := munch_blanks (v := v) hps.last_blank position []
    rwa [List.append_nil, munch_nil] at this
  | cons p ps ih =>
    -- The gap is passed over, the text is read as a lexeme, and the rest starts with a blank.
    obtain ⟨d, ds, hrest, hd⟩ := hps.exists_blank
    have hp := hlexemes p List.mem_cons_self
    have htail := ih hps.of_cons fun q hq => hlexemes q (List.mem_cons_of_mem _ hq)
    rw [hrest] at htail
    rw [joinSpaced_cons, List.append_assoc, List.append_assoc, hrest,
      munch_blanks (hps.blank p List.mem_cons_self), hp.munch_append hd, htail]
    rfl

/-! ### Single blanks -/

/-- The texts with single blanks between them. -/
def singleSpaced : List (List Char) → List Spaced
  | [] => []
  | w :: ws => ⟨[], w⟩ :: ws.map (Spaced.mk [' '])

theorem map_text_singleSpaced (ws : List (List Char)) :
    (singleSpaced ws).map (·.text) = ws := by
  cases ws with
  | nil => rfl
  | cons w ws => simp [singleSpaced, Function.comp_def]

theorem wellSpaced_singleSpaced (ws : List (List Char)) : WellSpaced (singleSpaced ws) [' '] where
  blank p hp := by
    cases ws with
    | nil => cases hp
    | cons w ws =>
      rcases List.mem_cons.1 hp with rfl | hp
      · rfl
      · obtain ⟨x, -, rfl⟩ := List.mem_map.1 hp
        show [' '].all isBlank = true
        decide
  apart p hp := by
    cases ws with
    | nil => cases hp
    | cons w ws =>
      obtain ⟨x, -, rfl⟩ := List.mem_map.1 hp
      exact List.cons_ne_nil _ _
  last_blank := by decide
  last_apart _ := List.cons_ne_nil _ _

theorem toList_joinWords (ws : List String) :
    (joinWords ws).toList = joinSpaced (singleSpaced (ws.map String.toList)) := by
  cases ws with
  | nil => rfl
  | cons w ws =>
    show _ = w.toList ++ joinSpaced ((ws.map String.toList).map (Spaced.mk [' ']))
    induction ws generalizing w with
    | nil => simp
    | cons x ws ih =>
      rw [joinWords_cons_cons, String.toList_append, String.toList_append, ih, List.map_cons,
        List.map_cons, joinSpaced_cons]
      simp

/-! ### Queries with other spacings -/

theorem map_text_placeSpaced (position : Nat) (ps : List Spaced) :
    (placeSpaced position ps).map (·.text) = ps.map (String.ofList ·.text) := by
  induction ps generalizing position with
  | nil => rfl
  | cons p ps ih => simp [placeSpaced, Fragment.ofList, ih]

/-- The fragments of a query are found again in any other spacing. -/
theorem split_joinSpaced (hv : v.PlainDelimiters) {sql : String} {fs : List Fragment}
    (h : split v sql = .ok fs) {ps : List Spaced} {last : List Char} (hps : WellSpaced ps last)
    (htexts : ps.map (·.text) = fs.map (·.text.toList)) :
    split v (String.ofList (joinSpaced ps ++ last ++ [terminator])) = .ok (placeSpaced 0 ps) := by
  rw [split_eq_ok_iff, splitting_eq_munch_contentOf hv] at h ⊢
  rw [String.toList_ofList, contentOf_concat_terminator]
  apply munch_joinSpaced hps
  -- Each text is one of the lexemes of the query.
  intro p hp
  have hmem : p.text ∈ fs.map (·.text.toList) := htexts ▸ List.mem_map_of_mem hp
  obtain ⟨f, hf, hfp⟩ := List.mem_map.1 hmem
  rw [← hfp]
  exact isLexeme_of_mem_munch h hf

/-- The query is read into tokens that say the same as the given ones. -/
def Reproduces (v : Vocabulary) (sql : String) (ts : List Token) : Prop :=
  ∃ us, tokenize v sql = .ok us ∧ List.Forall₂ (fun t u => t.agrees u = true) ts us

theorem reproduces_joinSpaced (hv : v.PlainDelimiters) {sql : String} {fs : List Fragment}
    (h : split v sql = .ok fs) {ps : List Spaced} {last : List Char} (hps : WellSpaced ps last)
    (htexts : ps.map (·.text) = fs.map (·.text.toList)) :
    Reproduces v (String.ofList (joinSpaced ps ++ last ++ [terminator])) (tokensOf v fs) := by
  refine ⟨_, tokenize_of_split (split_joinSpaced hv h hps htexts), tokensOf_agrees ?_⟩
  have := congrArg (List.map String.ofList) htexts
  rw [List.map_map, List.map_map] at this
  rw [map_text_placeSpaced]
  simpa [Function.comp_def] using this.symm

/-- **Re-spacing.**  Any other blanks around the fragments of a query leave its fragments and tokens
    as they are, but for their places.  The words of its tokens with single blanks between them are
    one such spacing. -/
theorem split_respaced (hv : v.PlainDelimiters) {sql : String} {fs : List Fragment}
    (h : split v sql = .ok fs) {ps : List Spaced} {last : List Char} (hps : WellSpaced ps last)
    (htexts : ps.map (·.text) = fs.map (·.text.toList)) :
    split v (String.ofList (joinSpaced ps ++ last ++ [terminator])) = .ok (placeSpaced 0 ps) ∧
      ∃ ts, tokenize v sql = .ok ts ∧
        Reproduces v (String.ofList (joinSpaced ps ++ last ++ [terminator])) ts ∧
        Reproduces v (joinWords (ts.map (·.raw)) ++ " ;") ts := by
  refine ⟨split_joinSpaced hv h hps htexts, _, tokenize_of_split h,
    reproduces_joinSpaced hv h hps htexts, ?_⟩
  have hwords : joinWords ((tokensOf v fs).map (·.raw)) ++ " ;" =
      String.ofList (joinSpaced (singleSpaced (fs.map (·.text.toList))) ++ [' '] ++
        [terminator]) := by
    rw [← String.toList_inj, joinWords_raws, String.toList_append, toList_joinWords, List.map_map,
      List.append_assoc, String.toList_ofList, String.toList_ofList]
    rfl
  rw [hwords]
  exact reproduces_joinSpaced hv h (wellSpaced_singleSpaced _) (map_text_singleSpaced _)

/-- A point before a digit and an escape at the end are moved away from their neighbours. -/
theorem split_respaced_standard :
    split .standard "a=.5\\ ;" =
        .ok [⟨"a", ⟨0, 1⟩⟩, ⟨"=", ⟨1, 2⟩⟩, ⟨".", ⟨2, 3⟩⟩, ⟨"5", ⟨3, 4⟩⟩, ⟨"\\", ⟨4, 5⟩⟩] ∧
      split .standard "\na =\u2003. \t5 \\\n;" =
        .ok [⟨"a", ⟨1, 2⟩⟩, ⟨"=", ⟨3, 4⟩⟩, ⟨".", ⟨7, 8⟩⟩, ⟨"5", ⟨10, 11⟩⟩, ⟨"\\", ⟨12, 13⟩⟩] ∧
      ∃ ts, tokenize .standard "a=.5\\ ;" = .ok ts ∧
        Reproduces .standard "\na =\u2003. \t5 \\\n;" ts ∧
        Reproduces .standard (joinWords (ts.map (·.raw)) ++ " ;") ts := by
  have h : split .standard "a=.5\\ ;" =
      .ok [⟨"a", ⟨0, 1⟩⟩, ⟨"=", ⟨1, 2⟩⟩, ⟨".", ⟨2, 3⟩⟩, ⟨"5", ⟨3, 4⟩⟩, ⟨"\\", ⟨4, 5⟩⟩] := by
    decide +kernel
  obtain ⟨ps, hps, htexts, hsql, hplaces⟩ : ∃ ps, WellSpaced ps ['\n'] ∧
      ps.map (·.text) = [['a'], ['='], ['.'], ['5'], ['\\']] ∧
      String.ofList (joinSpaced ps ++ ['\n'] ++ [terminator]) = "\na =\u2003. \t5 \\\n;" ∧
      placeSpaced 0 ps =
        [⟨"a", ⟨1, 2⟩⟩, ⟨"=", ⟨3, 4⟩⟩, ⟨".", ⟨7, 8⟩⟩, ⟨"5", ⟨10, 11⟩⟩, ⟨"\\", ⟨12, 13⟩⟩] := by
    refine ⟨[⟨['\n'], ['a']⟩, ⟨[' '], ['=']⟩, ⟨['\u2003'], ['.']⟩, ⟨[' ', '\t'], ['5']⟩,
      ⟨[' '], ['\\']⟩], ?_, by decide, by decide +kernel, by decide +kernel⟩
    constructor <;> decide
  have := split_respaced Vocabulary.standard_plainDelimiters h hps (by simp [htexts])
  rw [hsql, hplaces] at this
  exact ⟨h, this⟩

end SqlLex
