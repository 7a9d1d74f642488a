import SqlLex.Proofs.Extension
import SqlLex.Proofs.Extent
import SqlLex.Proofs.LetterCase

namespace SqlLex

open Text

/-!
# Phrases

A query that holds the words of a spelling and nothing else is one keyword, whatever the blanks
around the words are, and whichever of their letters are capitals.

* `IsPhraseWord` — what is cut out of a query as one fragment that may be part of a keyword.
* `Gapped` — texts behind blanks; `munch_phraseWords`, `split_phraseWords` — such words are found
  where they stand, with or without a blank behind the last.
* `groups_of_keyword?` — fragments that make up a spelling are one group.
* `ReadAsOne` — words that are one token in any spacing; `readAsOne_of_keyword?` — the words of a
  spelling are.
* `readAsOne_of_map_toLower` — the words of a spelling in other cases.
-/

variable {v : Vocabulary}

/-! ### Words that may be parts of a keyword -/

/-- The word is made of operator characters, is a breaking character, or is made of characters of
    words other than the escape character; and nothing in it opens a literal. -/
structure IsPhraseWord (v : Vocabulary) (w : List Char) : Prop where
  ne_nil : w ≠ []
  opens_nothing : ∀ c ∈ w, v.containerOpenedBy? c = none
  uniform : (∀ c ∈ w, classOf c = .member .operator) ∨
    (w.length = 1 ∧ ∀ c ∈ w, classOf c = .breaking) ∨
    ∀ c ∈ w, classOf c = .member .word ∧ c ≠ escapeChar

instance (v : Vocabulary) (w : List Char) : Decidable (IsPhraseWord v w) :=
  decidable_of_iff (w ≠ [] ∧ (w.all fun c => v.containerOpenedBy? c = none) = true ∧
    ((w.all fun c => classOf c = .member .operator) = true ∨
      (w.length = 1 ∧ (w.all fun c => classOf c = .breaking) = true) ∨
      (w.all fun c => classOf c = .member .word ∧ c ≠ escapeChar) = true)) <| by
    simp only [List.all_eq_true, decide_eq_true_iff]
    exact ⟨fun h => ⟨h.1, h.2.1, h.2.2⟩, fun h => ⟨h.ne_nil, h.opens_nothing, h.uniform⟩⟩

/-- Characters of one sort up to the end of a text are a lexeme, if no escape waits behind them. -/
theorem lexemeTail_of_member {c : Char} {u : List Char} {kind : RunKind}
    (hmember : ∀ d ∈ c :: u, classOf d = .member kind)
    (hopen : ∀ d ∈ c :: u, v.containerOpenedBy? d = none)
    (hescape : kind = .word → endsEscaped (c :: u) = false) (position : Nat) :
    lexemeTail v position c u = .ok u := by
  rw [lexemeTail_run_eq_ok_iff (hopen c List.mem_cons_self) (hmember c List.mem_cons_self)]
  constructor
  · rw [runUntil_eq_self_iff]
    rintro x d ds rfl
    have hd : d ∈ c :: (x ++ d :: ds) := by simp
    exact endsRun_eq_false_iff.2 (.inl ⟨hmember d hd, fun _ => .inr (hopen d hd)⟩)
  · rw [List.drop_length, runFault?_eq_none_iff]
    constructor
    · rintro ⟨-, -, hpoint⟩
      cases hpoint
    · rintro ⟨hword, -, hends⟩
      rw [hescape hword] at hends
      cases hends

namespace IsPhraseWord

variable {w : List Char}

theorem isBlank_eq_false (h : IsPhraseWord v w) {c : Char} (hc : c ∈ w) : isBlank c = false := by
  apply isBlank_of_classOf_ne
  rcases h.uniform with hw | ⟨-, hw⟩ | hw
  · simp [hw c hc]
  · simp [hw c hc]
  · simp [(hw c hc).1]

/-- At the end of a text, the word is a lexeme. -/
theorem lexemeTail_eq {c : Char} {u : List Char} (h : IsPhraseWord v (c :: u)) (position : Nat) :
    lexemeTail v position c u = .ok u := by
  rcases h.uniform with hw | ⟨hlen, hw⟩ | hw
  · exact lexemeTail_of_member hw h.opens_nothing (by rintro ⟨⟩) position
  · obtain rfl : u = [] := by simpa using hlen
    have hc := hw c List.mem_cons_self
    refine lexemeTail_breaking (h.opens_nothing c List.mem_cons_self) ?_ position []
    intro kind hk
    rw [hc] at hk
    cases hk
  · exact lexemeTail_of_member (fun d hd => (hw d hd).1) h.opens_nothing
      (fun _ => endsEscaped_of_forall_ne fun d hd => (hw d hd).2) position

/-- The word is read where a blank or nothing follows. -/
theorem munch_append (h : IsPhraseWord v w) {rest : List Char}
    (hrest : ∀ d, rest.head? = some d → isBlank d = true) (position : Nat) :
    munch v position (w ++ rest) =
      (Progress.emit (.ofList position w)).andThen fun _ =>
        munch v (position + byteSize w) rest := by
  obtain ⟨c, u, rfl⟩ := List.exists_cons_of_ne_nil h.ne_nil
  have hc : isBlank c = false := h.isBlank_eq_false List.mem_cons_self
  have htail : lexemeTail v position c (u ++ rest) = .ok u := by
    have hend : lexemeTail v position c (u ++ []) = .ok u := by
      rw [List.append_nil]
      exact h.lexemeTail_eq position
    cases rest with
    | nil => exact hend
    | cons d ds => exact lexemeTail_congr hend (.inl (hrest d rfl)) position ds
  have := munch_ok hc htail
  rwa [List.drop_left] at this

/-- The word is no number: it has no digit, and of words with a point there is only the point. -/
theorem isNumeric_eq_false {f : Fragment} (h : IsPhraseWord v f.text.toList) :
    f.isNumeric = false := by
  by_contra hnumeric
  obtain ⟨-, hpoint, hall⟩ := Fragment.isNumeric_iff.1 (Bool.not_eq_false _ ▸ hnumeric)
  obtain ⟨c, u, hcu⟩ := List.exists_cons_of_ne_nil h.ne_nil
  have hfirst := hall c (hcu ▸ List.mem_cons_self)
  rw [← classOf_eq_number_iff] at hfirst
  have hmem : c ∈ f.text.toList := hcu ▸ List.mem_cons_self
  rcases h.uniform with hw | ⟨hlen, hw⟩ | hw
  · rcases hfirst with hc | rfl
    · rw [hw c hmem] at hc
      cases hc
    · exact absurd (hw _ hmem) (by decide)
  · rcases hfirst with hc | rfl
    · rw [hw c hmem] at hc
      cases hc
    · rw [hcu] at hpoint hlen
      exact hpoint (by simpa using hlen)
  · rcases hfirst with hc | rfl
    · rw [(hw c hmem).1] at hc
      cases hc
    · exact absurd (hw _ hmem).1 (by decide)

/-- Grouping takes the word for a part of a keyword. -/
theorem isPlain_eq_true {f : Fragment} (h : IsPhraseWord v f.text.toList) : isPlain v f = true := by
  obtain ⟨c, u, hcu⟩ := List.exists_cons_of_ne_nil h.ne_nil
  have hliteral : literalKind? v f = none := by
    have hc := h.opens_nothing c (hcu ▸ List.mem_cons_self)
    rw [literalKind?, hcu]
    simp [hc]
  simp [isPlain, hliteral, h.isNumeric_eq_false]

end IsPhraseWord

/-! ### Words in a text -/

/-- The texts stand behind blanks, with at least one between any two, and blanks may follow. -/
structure Gapped (ps : List Spaced) (last : List Char) : Prop where
  blank : ∀ p ∈ ps, p.gap.all isBlank = true
  apart : ∀ p ∈ ps.tail, p.gap ≠ []
  last_blank : last.all isBlank = true

theorem Gapped.of_cons {p : Spaced} {ps : List Spaced} {last : List Char}
    (h : Gapped (p :: ps) last) : Gapped ps last where
  blank q hq := h.blank q (List.mem_cons_of_mem _ hq)
  apart q hq := h.apart q (List.mem_of_mem_tail hq)
  last_blank := h.last_blank

theorem isBlank_head_of_all {g : List Char} (h : g.all isBlank = true) {d : Char}
    (hd : g.head? = some d) : isBlank d = true :=
  List.all_eq_true.1 h d (List.mem_of_mem_head? hd)

/-- What follows the first text, if anything, starts with a blank. -/
theorem Gapped.isBlank_of_head? {p : Spaced} {ps : List Spaced} {last : List Char}
    (h : Gapped (p :: ps) last) {d : Char} (hd : (joinSpaced ps ++ last).head? = some d) :
    isBlank d = true := by
  cases ps with
  | nil => exact isBlank_head_of_all h.last_blank hd
  | cons q ps =>
    have hq : q ∈ (p :: q :: ps).tail := List.mem_cons_self
    rw [joinSpaced_cons, List.append_assoc, List.append_assoc,
      List.head?_append_of_ne_nil _ (h.apart q hq)] at hd
    exact isBlank_head_of_all (h.blank q (List.mem_of_mem_tail hq)) hd

/-- Words behind blanks are found where they stand. -/
theorem munch_phraseWords {ps : List Spaced} {last : List Char} (hps : Gapped ps last)
    (hwords : ∀ p ∈ ps, IsPhraseWord v p.text) (position : Nat) :
    munch v position (joinSpaced ps ++ last) = ⟨placeSpaced position ps, .ok ()⟩ := by
  induction ps generalizing position with
  | nil =>
    have := munch_blanks (v := v) hps.last_blank position []
    rwa [List.append_nil, munch_nil] at this
  | cons p ps ih =>
    obtain ⟨hword, hwords⟩ := List.forall_mem_cons.1 hwords
    rw [joinSpaced_cons, List.append_assoc, List.append_assoc,
      munch_blanks (hps.blank p List.mem_cons_self),
      hword.munch_append (fun d hd => hps.isBlank_of_head? hd), ih hps.of_cons hwords]
    rfl

/-- No blank stands at the end of words. -/
theorem isBlank_of_getLast?_joinSpaced {ps : List Spaced}
    (hwords : ∀ p ∈ ps, IsPhraseWord v p.text) {c : Char}
    (hc : (joinSpaced ps).getLast? = some c) : isBlank c = false := by
  rcases List.eq_nil_or_concat' ps with rfl | ⟨qs, q, rfl⟩
  · cases hc
  · have hq := hwords q (by simp)
    have hjoin : joinSpaced (qs ++ [q]) = joinSpaced qs ++ q.gap ++ q.text := by
      rw [joinSpaced_append, joinSpaced_cons]
      simp
    rw [hjoin, List.getLast?_append_of_ne_nil _ hq.ne_nil] at hc
    exact hq.isBlank_eq_false (List.mem_of_getLast? hc)

/-- The vocabulary that knows nothing. -/
def Vocabulary.bare : Vocabulary :=
  ⟨[], [], ⟨.nil, by simp, by simp [Unambiguous]⟩⟩

theorem Vocabulary.bare_plainDelimiters : bare.PlainDelimiters :=
  ⟨fun _ h => (List.not_mem_nil h).elim, fun _ h => (List.not_mem_nil h).elim,
    fun _ h => (List.not_mem_nil h).elim⟩

theorem IsPhraseWord.of_bare {w : List Char} (h : IsPhraseWord v w) :
    IsPhraseWord Vocabulary.bare w :=
  ⟨h.ne_nil, fun _ _ => rfl, h.uniform⟩

/-- The fragments of a query that holds such words and nothing else, in any vocabulary in which
    blanks open nothing. -/
theorem split_phraseWords (hv : v.BlanksSeparate) {ps : List Spaced} {last : List Char}
    (hps : Gapped ps last) (hwords : ∀ p ∈ ps, IsPhraseWord v p.text) {sql : String}
    (hsql : contentOf sql.toList = joinSpaced ps ++ last) :
    split v sql = .ok (placeSpaced 0 ps) := by
  -- Nothing in the query opens a literal, so it is read as if there were no containers.
  have hnone : ∀ c ∈ joinSpaced ps ++ last,
      v.containerOpenedBy? c = Vocabulary.bare.containerOpenedBy? c := by
    intro c hc
    have hbare : Vocabulary.bare.containerOpenedBy? c = none := rfl
    rw [hbare]
    rcases List.mem_append.1 hc with hc | hc
    · obtain ⟨p, hp, hc⟩ := List.mem_flatMap.1 hc
      rcases List.mem_append.1 hc with hc | hc
      · exact hv.containerOpenedBy?_eq_none (List.all_eq_true.1 (hps.blank p hp) c hc)
      · exact (hwords p hp).opens_nothing c hc
    · exact hv.containerOpenedBy?_eq_none (List.all_eq_true.1 hps.last_blank c hc)
  rw [split_eq_ok_iff, splitting_eq_read_contentOf hv, hsql, Scanner.read_congr hnone,
    Scanner.read_start_eq_munch Vocabulary.bare_plainDelimiters]
  exact munch_phraseWords hps (fun p hp => (hwords p hp).of_bare) 0

/-! ### Words that are one token -/

/-- Fragments that make up a spelling are one group, whatever shorter phrases they start with. -/
theorem groups_of_keyword? {f : Fragment} {fs : List Fragment} {k : TokenKind}
    (hplain : ∀ g ∈ f :: fs, isPlain v g = true) (hk : v.keyword? (phrase (f :: fs)) = some k) :
    groups v (f :: fs) = [⟨k, .keyword, f, fs⟩] := by
  have hrun : plainRun v (f :: fs) = f :: fs := List.takeWhile_eq_self_iff.2 hplain
  have hlongest : longestKeyword? v (f :: fs) (f :: fs).length = some (k, fs.length) := by
    rw [List.length_cons, longestKeyword?, ← List.length_cons (a := f), List.take_length, hk]
  have hfirst : firstGroup v f fs = ⟨k, .keyword, f, fs⟩ := by
    rw [firstGroup_plain (hplain f List.mem_cons_self), hrun, longestPhrase?_eq_longestKeyword?,
      hlongest]
    simp only [List.take_length]
  rw [groups_cons, hfirst, List.drop_length, groups_nil]

/-- The words are one token of the given kind, whatever the blanks around them, with a terminator
    behind them or, if they do not end in one, without it.  The token spans the words from the first
    to the last. -/
def ReadAsOne (v : Vocabulary) (k : TokenKind) (ws : List (List Char)) : Prop :=
  ∀ (p : Spaced) (ps : List Spaced) (last : List Char), (p :: ps).map (·.text) = ws →
    Gapped (p :: ps) last →
    let ts : List Token :=
      [⟨k, joinWords (ws.map String.ofList), ⟨byteSize p.gap, byteSize (joinSpaced (p :: ps))⟩⟩]
    tokenize v (String.ofList (joinSpaced (p :: ps) ++ last ++ [terminator])) = .ok ts ∧
      ((joinSpaced (p :: ps)).getLast? ≠ some terminator →
        tokenize v (String.ofList (joinSpaced (p :: ps) ++ last)) = .ok ts)

theorem tokensOf_placeSpaced {p : Spaced} {ps : List Spaced} {k : TokenKind}
    (hblank : ∀ q ∈ ps, q.gap.all isBlank = true)
    (hwords : ∀ q ∈ p :: ps, IsPhraseWord v q.text)
    (hk : v.keyword? (lowercase (joinWords ((p :: ps).map (String.ofList ·.text)))) = some k) :
    tokensOf v (placeSpaced 0 (p :: ps)) =
      [⟨k, joinWords ((p :: ps).map (String.ofList ·.text)),
        ⟨byteSize p.gap, byteSize (joinSpaced (p :: ps))⟩⟩] := by
  have hplain : ∀ f ∈ placeSpaced 0 (p :: ps), isPlain v f = true := by
    have hall : ∀ w ∈ (placeSpaced 0 (p :: ps)).map (·.text.toList), IsPhraseWord v w := by
      rw [map_toList_placeSpaced]
      exact List.forall_mem_map.2 hwords
    exact fun f hf => (List.forall_mem_map.1 hall f hf).isPlain_eq_true
  have hphrase : v.keyword? (phrase (placeSpaced 0 (p :: ps))) = some k := by
    rw [phrase, map_text_placeSpaced, hk]
  -- The group spans the part in which its fragments stand.
  have hextent : Extent (.ofList (byteSize p.gap) (p.text ++ joinSpaced ps))
      (placeSpaced 0 (p :: ps)) := by
    refine ⟨_, _, ps, rfl, ?_, fun q hq => ⟨hblank q hq, (hwords q (by simp [hq])).ne_nil⟩⟩
    rw [placeSpaced, Nat.zero_add]
  have hraw := map_text_placeSpaced 0 (p :: ps)
  obtain ⟨f, fs, hcons⟩ : ∃ f fs, placeSpaced 0 (p :: ps) = f :: fs := ⟨_, _, rfl⟩
  rw [hcons] at hplain hphrase hextent hraw ⊢
  have hspan := (Extent.span_eq (g := ⟨k, .keyword, f, fs⟩) hextent).1
  rw [tokensOf, groups_of_keyword? hplain hphrase, List.map_singleton, Group.token, hspan,
    Group.raw, Group.fragments, hraw, joinSpaced_cons, List.append_assoc, byteSize_append]
  rfl

/-- The words of a spelling, in whatever form, are one token of its kind. -/
theorem readAsOne_of_words (hv : v.BlanksSeparate) {k : TokenKind} {ws : List (List Char)}
    (hwords : ∀ w ∈ ws, IsPhraseWord v w)
    (hk : v.keyword? (lowercase (joinWords (ws.map String.ofList))) = some k) :
    ReadAsOne v k ws := by
  rintro p ps last rfl hps
  have hwords : ∀ q ∈ p :: ps, IsPhraseWord v q.text := List.forall_mem_map.1 hwords
  have hmap : ((p :: ps).map (·.text)).map String.ofList =
      (p :: ps).map (String.ofList ·.text) := List.map_map
  rw [hmap] at hk ⊢
  have hblank : ∀ q ∈ ps, q.gap.all isBlank = true :=
    fun q hq => hps.blank q (List.mem_cons_of_mem _ hq)
  have htokens := tokensOf_placeSpaced hblank hwords hk
  constructor
  · have hsplit : split v (String.ofList (joinSpaced (p :: ps) ++ last ++ [terminator])) =
        .ok (placeSpaced 0 (p :: ps)) := by
      apply split_phraseWords hv hps hwords
      rw [String.toList_ofList, contentOf_concat_terminator]
    rw [tokenize_of_split hsplit, htokens]
  · intro hend
    have hcontent : contentOf (joinSpaced (p :: ps) ++ last) = joinSpaced (p :: ps) := by
      rw [contentOf_append_blanks _ hps.last_blank]
      rcases List.eq_nil_or_concat' (joinSpaced (p :: ps)) with hnil | ⟨cs, c, hcs⟩
      · rw [hnil]
        rfl
      · have hlast : (joinSpaced (p :: ps)).getLast? = some c := by rw [hcs, List.getLast?_concat]
        have hc := isBlank_of_getLast?_joinSpaced hwords hlast
        rw [hcs, contentOf_concat hc (by rintro rfl; exact hend hlast)]
    have hnone : Gapped (p :: ps) [] := ⟨hps.blank, hps.apart, rfl⟩
    have hsplit : split v (String.ofList (joinSpaced (p :: ps) ++ last)) =
        .ok (placeSpaced 0 (p :: ps)) := by
      apply split_phraseWords hv hnone hwords
      rw [String.toList_ofList, hcontent, List.append_nil]
    rw [tokenize_of_split hsplit, htokens]

/-! ### Spellings in other cases -/

theorem joinWords_splitSpaces (cs : List Char) :
    joinWords ((splitSpaces cs).map String.ofList) = String.ofList cs := by
  rw [← String.toList_inj]
  induction cs with
  | nil => simp [splitSpaces]
  | cons c cs ih =>
    obtain ⟨w, ws, hsplit⟩ := List.exists_cons_of_ne_nil (splitSpaces_ne_nil cs)
    rw [hsplit] at ih
    by_cases hc : c = ' '
    · rw [List.map_cons] at ih
      simp [splitSpaces, hc, hsplit, joinWords_cons_cons, ih]
    · cases ws with
      | nil => simpa [splitSpaces, hc, hsplit] using ih
      | cons x ws => simpa [splitSpaces, hc, hsplit, joinWords_cons_cons] using ih

/-- What is a word of a phrase in small letters is one. -/
theorem IsPhraseWord.of_map_toLower (hv : v.CaselessDelimiters) {w : List Char}
    (h : IsPhraseWord v (w.map Char.toLower)) : IsPhraseWord v w := by
  have hclass : ∀ {s}, (∀ c ∈ w.map Char.toLower, classOf c = s) → ∀ c ∈ w, classOf c = s := by
    intro s hs c hc
    rw [← classOf_toLower]
    exact hs _ (List.mem_map_of_mem hc)
  refine ⟨fun hnil => h.ne_nil (by rw [hnil]; rfl), ?_, ?_⟩
  · intro c hc
    rw [← hv.containerOpenedBy?_toLower]
    exact h.opens_nothing _ (List.mem_map_of_mem hc)
  · rcases h.uniform with hw | ⟨hlen, hw⟩ | hw
    · exact .inl (hclass hw)
    · exact .inr (.inl ⟨by rwa [List.length_map] at hlen, hclass hw⟩)
    · refine .inr (.inr fun c hc => ⟨hclass (fun d hd => (hw d hd).1) c hc, ?_⟩)
      rintro rfl
      exact (hw _ (List.mem_map_of_mem hc)).2 (by decide)

/-- The words of a spelling are found in whichever case their letters are. -/
theorem readAsOne_of_map_toLower (hv : v.BlanksSeparate) (hcase : v.CaselessDelimiters) {e : Entry}
    (he : e ∈ v.entries) (hwords : ∀ w ∈ splitSpaces e.spelling.toList, IsPhraseWord v w)
    {ws : List (List Char)}
    (hws : ws.map (·.map Char.toLower) = splitSpaces e.spelling.toList) :
    ReadAsOne v e.kind ws := by
  apply readAsOne_of_words hv
  · intro w hw
    apply IsPhraseWord.of_map_toLower hcase
    apply hwords
    rw [← hws]
    exact List.mem_map_of_mem hw
  · -- In small letters the words are the spelling, which is its own lowercase form.
    have hlower : (joinWords (ws.map String.ofList)).toLower = e.spelling := by
      have hmap : (ws.map String.ofList).map String.toLower =
          (ws.map (·.map Char.toLower)).map String.ofList := by
        rw [List.map_map, List.map_map]
        apply List.map_congr_left
        intro w _
        rw [← String.toList_inj]
        simp
      rw [toLower_joinWords, hmap, hws, joinWords_splitSpaces, String.ofList_toList]
    rw [← lowercase_toLower, hlower, (v.consistent.canonical e he).1]
    exact Vocabulary.keyword?_eq_some_iff.2 he

/-- **A spelling is recognised however it is cased and spaced.**  Words that make up a spelling of
    the vocabulary when their lowercase forms have single spaces between them are one token of its
    kind, if each of them is one fragment.  The spellings of the standard vocabulary are made of
    such words, in whichever case their letters are. -/
theorem readAsOne_of_keyword? (hv : v.BlanksSeparate) {s : String} {k : TokenKind}
    (hk : v.keyword? s = some k) {ws : List (List Char)} (hwords : ∀ w ∈ ws, IsPhraseWord v w)
    (hs : lowercase (joinWords (ws.map String.ofList)) = s) :
    ReadAsOne v k ws ∧
      (v = .standard → ∀ e ∈ v.entries, ∀ us : List (List Char),
        us.map (·.map Char.toLower) = splitSpaces e.spelling.toList → ReadAsOne v e.kind us) := by
  refine ⟨readAsOne_of_words hv hwords (by rw [hs, hk]), ?_⟩
  rintro rfl e he us hus
  have hall : ∀ e ∈ Vocabulary.standard.entries, ∀ w ∈ splitSpaces e.spelling.toList,
      IsPhraseWord .standard w := by decide +kernel
  exact readAsOne_of_map_toLower hv (by decide) he (hall e he) hus

/-- A Kelvin sign in place of the letter; then three words in different cases, with blanks of two
    sorts between them. -/
theorem readAsOne_of_keyword?_standard :
    Vocabulary.standard.BlanksSeparate ∧ Vocabulary.standard.keyword? "like" = some .like ∧
      ReadAsOne .standard .like ["lI\u212Ae".toList] ∧
      ReadAsOne .standard .isNotNull ["Is".toList, "NOT".toList, "nulL".toList] ∧
      tokenize .standard "\u2003Is\t\nNOT nulL " = .ok [⟨.isNotNull, "Is NOT nulL", ⟨3, 15⟩⟩] := by
  have hv : Vocabulary.standard.BlanksSeparate := by
    unfold Vocabulary.BlanksSeparate
    decide
  have hk : Vocabulary.standard.keyword? "like" = some .like := by decide +kernel
  have hwords : ∀ w ∈ ["lI\u212Ae".toList], IsPhraseWord .standard w := by decide +kernel
  obtain ⟨hlike, hspellings⟩ := readAsOne_of_keyword? hv hk hwords (by decide +kernel)
  have hnull : ReadAsOne .standard .isNotNull ["Is".toList, "NOT".toList, "nulL".toList] :=
    hspellings rfl ⟨"is not null", .isNotNull⟩ (by decide +kernel) _ (by decide +kernel)
  refine ⟨hv, hk, hlike, hnull, ?_⟩
  exact (hnull ⟨['\u2003'], "Is".toList⟩
    [⟨['\t', '\n'], "NOT".toList⟩, ⟨[' '], "nulL".toList⟩] [' '] rfl
    ⟨by decide, by decide, by decide⟩).2 (by decide)

end SqlLex
