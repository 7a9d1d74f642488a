import SqlLex.Proofs.Classification
import SqlLex.Proofs.Extent
import SqlLex.Proofs.Lossless

namespace SqlLex

open Text

/-!
# Tokens in a query

A token keeps the place of its first and its last fragment.  As its fragments are consecutive, it
stands for the part of the query that goes from the one to the other, and the tokens account for
the query as the fragments do.

* `SpansCover` — spans that do not overlap lie over all characters that are not blank.
* `munch_apart` — words do not stand side by side.
* `Vocabulary.PhrasesOfWords` — what has several words has nothing else in it.
* `Token.MadeOf` — how a token comes from its fragments, and what the query says under it.
* `tokenize_accounted` — the tokens of a query.
-/

variable {v : Vocabulary}

/-! ### Spans over a query -/

/-- The spans stand in order, and lie over the characters of the query that are not blank. -/
structure SpansCover (sql : String) (ss : List Span) : Prop where
  nonempty : ∀ s ∈ ss, s.start < s.stop
  ordered : ss.Pairwise fun s t => s.stop ≤ t.start
  /-- A character that is not blank lies under exactly one span, unless it is the terminator that is
      cut off. -/
  covered : ∀ u c ds, sql.toList = u ++ c :: ds → isBlank c = false →
    (∃! s, s ∈ ss ∧ s.Covers (byteSize u)) ∨
      (c = terminator ∧ ds.all isBlank = true ∧ ∀ s ∈ ss, s.stop ≤ byteSize u)

theorem Lossless.spansCover {sql : String} {fs : List Fragment} (h : Lossless sql fs) :
    SpansCover sql (fs.map (·.span)) where
  nonempty := List.forall_mem_map.2 fun f hf => (h.slices f hf).2.1
  ordered := List.pairwise_map.2 h.ordered
  covered u c ds hsql hc := by
    refine (h.covered u c ds hsql hc).imp ?_ ?_
    · rintro ⟨f, ⟨hf, hcov⟩, hunique⟩
      refine ⟨f.span, ⟨List.mem_map_of_mem hf, hcov⟩, ?_⟩
      rintro s ⟨hs, hscov⟩
      obtain ⟨g, hg, rfl⟩ := List.mem_map.1 hs
      rw [hunique g ⟨hg, hscov⟩]
    · rintro ⟨hterm, hds, hstops⟩
      exact ⟨hterm, hds, List.forall_mem_map.2 hstops⟩

/-! ### Words side by side -/

/-- A word goes on with the characters of words behind it that open nothing. -/
theorem IsWord.endsRun_eq_false {d : Char} {u : List Char} (h : IsWord v (d :: u))
    (before : List Char) : endsRun v .word before d = false :=
  endsRun_eq_false_iff.2 (.inl ⟨h.member d List.mem_cons_self,
    fun _ => .inr h.containerOpenedBy?_eq_none⟩)

/-- What stands behind a word ends it. -/
theorem IsWord.endsRun_of_lexemeTail {position : Nat} {c d : Char} {w ds : List Char}
    (h : IsWord v (c :: w)) (hw : lexemeTail v position c (w ++ d :: ds) = .ok w) :
    endsRun v .word (c :: w) d = true := by
  obtain ⟨hrun, -⟩ := (lexemeTail_run_eq_ok_iff h.containerOpenedBy?_eq_none
    (h.member c List.mem_cons_self)).1 hw
  have hdrop : (w ++ d :: ds).drop (runUntil (endsRun v .word) [c] (w ++ d :: ds)).length =
      d :: ds := by
    rw [hrun, List.drop_left]
  have hstop := stop_of_drop_eq_cons hdrop
  rwa [hrun] at hstop

/-- **Words stand apart.**  A word takes in all characters of words behind it, so another one does
    not start where it stops. -/
theorem munch_apart {position : Nat} {cs : List Char} {fs : List Fragment}
    (h : munch v position cs = ⟨fs, .ok ()⟩) :
    fs.IsChain fun f g => IsWord v f.text.toList → IsWord v g.text.toList →
      f.span.stop ≠ g.span.start := by
  induction position, cs using munch.induct generalizing fs with
  | case1 position =>
    rw [munch_nil] at h
    cases h
    exact .nil
  | case2 position c cs ih =>
    cases hb : isBlank c with
    | true =>
      rw [munch_blank hb] at h
      exact ih [] h
    | false =>
      obtain ⟨w, rest, gs, rfl, hw, hrest, rfl⟩ := munch_cons_eq_ok hb h
      refine List.isChain_cons.2 ⟨?_, ih w (by rwa [List.drop_left])⟩
      intro g hg hfword hgword hstop
      obtain ⟨gs, rfl⟩ := List.head?_eq_some_iff.1 hg
      -- The first character of the second word stands behind the first one, and goes on with it.
      obtain ⟨ds, rfl⟩ := (laidOut_of_munch hrest).exists_append_of_start hstop.symm
      obtain ⟨d, u, hdu⟩ := List.exists_cons_of_ne_nil hgword.ne_nil
      rw [hdu] at hgword hw
      have hfirst : IsWord v (c :: w) := by simpa [Fragment.ofList] using hfword
      have hends := hfirst.endsRun_of_lexemeTail hw
      rw [hgword.endsRun_eq_false] at hends
      cases hends

/-! ### Phrases -/

/-- No spelling of several words holds an operator or a breaking character. -/
def Vocabulary.PhrasesOfWords (v : Vocabulary) : Prop :=
  ∀ e ∈ v.entries, ' ' ∈ e.spelling.toList →
    ∀ c ∈ operatorChars ++ breakingChars, c ∉ e.spelling.toList

theorem Vocabulary.standard_phrasesOfWords : Vocabulary.standard.PhrasesOfWords := by
  have hentries : ∀ e ∈ entriesOf standardKeywords, ' ' ∈ e.spelling.toList →
      (operatorChars ++ breakingChars).all (fun c => !e.spelling.toList.contains c) = true := by
    decide
  intro e he hspace c hc
  have := List.all_eq_true.1 (hentries e he hspace) c hc
  simpa using this

theorem mem_joinWords {ws : List String} {w : String} (hw : w ∈ ws) {c : Char}
    (hc : c ∈ w.toList) : c ∈ (joinWords ws).toList := by
  obtain ⟨p, hp, htext⟩ : ∃ p ∈ singleSpaced (ws.map String.toList), p.text = w.toList := by
    have := List.mem_map_of_mem (f := String.toList) hw
    rw [← map_text_singleSpaced (ws.map String.toList)] at this
    exact List.mem_map.1 this
  rw [toList_joinWords, joinSpaced, List.mem_flatMap]
  exact ⟨p, hp, List.mem_append_right _ (htext ▸ hc)⟩

/-- Operators and breaking characters of fragments are found in their phrase. -/
theorem mem_phrase {fs : List Fragment} {f : Fragment} (hf : f ∈ fs) {c : Char}
    (hc : c ∈ operatorChars ++ breakingChars) (hmem : c ∈ f.text.toList) :
    c ∈ (phrase fs).toList := by
  have hlower : (operatorChars ++ breakingChars).all
      (fun d => d.toNat < 0x80 && d.toLower == d) = true := by decide
  have hself := List.all_eq_true.1 hlower c hc
  rw [Bool.and_eq_true, decide_eq_true_iff, beq_iff_eq] at hself
  have hcount := count_le_count_lowerAfter hself.1 hself.2 [] (joinWords (fs.map (·.text))).toList
  have hjoin := mem_joinWords (List.mem_map_of_mem (f := (·.text)) hf) hmem
  rw [phrase, toList_lowercase]
  exact List.count_pos_iff.1 (Nat.lt_of_lt_of_le (List.count_pos_iff.2 hjoin) hcount)

/-- The fragments of a group of several are words. -/
theorem Group.Justified.isWord (hphrases : v.PhrasesOfWords) {g : Group} (h : g.Justified v)
    (hg : ∀ f ∈ g.fragments, Recognised v f) (htwo : 2 ≤ g.fragments.length) :
    ∀ f ∈ g.fragments, IsWord v f.text.toList := by
  obtain ⟨hplain, hkey⟩ := h.keyword_of_two_le htwo
  intro f hf
  have hspace : ' ' ∈ (phrase g.fragments).toList := by
    have := length_le_wordCount_phrase g.fragments
    rw [wordCount_eq] at this
    exact List.count_pos_iff.1 (by omega)
  have hnone := hphrases _ (Vocabulary.keyword?_eq_some_iff.1 hkey) hspace
  obtain ⟨s, hs, hfits⟩ := (hg f hf).exists_plain (hplain f hf)
  apply hfits.isWord hs
  intro c hc hmem
  exact hnone c hc (mem_phrase hf hc hmem)

/-! ### Tokens of a query -/

/-- The token is made of the fragments, and this is what the query says where it stands. -/
structure Token.MadeOf (v : Vocabulary) (sql : String) (t : Token) (fs : List Fragment) :
    Prop where
  raw_eq : t.raw = joinWords (fs.map (·.text))
  span_eq : ∃ f g, fs.head? = some f ∧ fs.getLast? = some g ∧ t.span = ⟨f.span.start, g.span.stop⟩
  slice_eq : fs.length = 1 → t.span.slice? sql = some t.raw
  /-- Neither a literal nor a number is one of several fragments. -/
  plain : 2 ≤ fs.length → ∀ f ∈ fs, literalKind? v f = none ∧ f.isNumeric = false
  /-- What the query says differs from the words in blanks only, and in the standard vocabulary only
      in how many they are. -/
  respaced : ∃ part, t.span.slice? sql = some part ∧
    withoutBlanks part.toList = withoutBlanks t.raw.toList ∧
    (v = .standard → 2 ≤ fs.length → t.raw.toList = squeeze part.toList)

/-- In a query that is split into plain lexemes and whose vocabulary has phrases of words only, the
    fragments of a group of several do not touch. -/
theorem Group.squeeze_eq (hv : v.PlainDelimiters) (hphrases : v.PhrasesOfWords) {sql : String}
    {fs : List Fragment} (h : split v sql = .ok fs) {g : Group} (hg : g ∈ groups v fs)
    (htwo : 2 ≤ g.fragments.length) {part : Fragment} (hextent : Extent part g.fragments) :
    squeeze part.text.toList = g.raw.toList := by
  have hwords : ∀ f ∈ g.fragments, IsWord v f.text.toList :=
    (justified_of_mem_groups hg).isWord hphrases
      (fun f hf => recognised_of_split hv h (mem_of_mem_groups hg hf)) htwo
  rw [split_eq_ok_iff, splitting_eq_munch_contentOf hv] at h
  have hchain := munch_apart h
  have hnil : [] ∉ (groups v fs).map Group.fragments := by simp [fragments]
  rw [← flatMap_fragments_groups v fs, List.flatMap, List.isChain_flatten hnil] at hchain
  have hapart := hchain.1 g.fragments (List.mem_map_of_mem hg)
  apply hextent.squeeze_eq
  · apply hapart.imp_of_mem_imp
    intro f f' hf hf' htouch
    exact htouch (hwords f hf) (hwords f' hf')
  · intro f hf c hc
    exact (hwords f hf).isBlank_eq_false hc

/-- A group of a query makes a token of its fragments. -/
theorem token_madeOf {sql : String} {fs : List Fragment} (h : split v sql = .ok fs) {g : Group}
    (hg : g ∈ groups v fs) {part : Fragment} (hextent : Extent part g.fragments)
    (hslice : part.span.slice? sql = some part.text) : g.token.MadeOf v sql g.fragments := by
  obtain ⟨hspan, hends⟩ := hextent.span_eq
  have hpart : g.token.span.slice? sql = some part.text := by
    rw [← hslice, ← hspan]
    rfl
  refine ⟨rfl, ?_, ?_, ?_, part.text, hpart, hextent.withoutBlanks_eq, ?_⟩
  · refine ⟨g.head, g.tail.getLastD g.head, rfl, ?_, hspan.trans hends⟩
    rw [Group.fragments, List.getLast?_cons, List.getLastD_eq_getLast?]
  · intro hone
    have htail : g.tail = [] := by simpa [Group.fragments] using hone
    rw [Group.fragments, htail] at hextent
    rw [hpart, hextent.text_eq, Group.token, Group.raw, Group.fragments, htail, List.map_singleton,
      joinWords_singleton]
  · intro htwo f hf
    simpa [isPlain] using ((justified_of_mem_groups hg).keyword_of_two_le htwo).1 f hf
  · rintro rfl htwo
    exact (Group.squeeze_eq Vocabulary.standard_plainDelimiters Vocabulary.standard_phrasesOfWords
      h hg htwo hextent).symm

/-- **Tokens account for a query.**  Whatever the vocabulary, the fragments of a query fall into
    blocks, one for each token, and the tokens lie over all characters that are not blank. -/
theorem tokenize_accounted {sql : String} {ts : List Token} (h : tokenize v sql = .ok ts) :
    ∃ fs blocks, split v sql = .ok fs ∧ blocks.flatten = fs ∧
      List.Forall₂ (Token.MadeOf v sql) ts blocks ∧ SpansCover sql (ts.map (·.span)) := by
  obtain ⟨fs, hfs, rfl⟩ : ∃ fs, split v sql = .ok fs ∧ tokensOf v fs = ts := by
    cases hsplit : split v sql with
    | error e =>
      rw [tokenize, hsplit] at h
      cases h
    | ok fs =>
      rw [tokenize_of_split hsplit] at h
      exact ⟨fs, rfl, Except.ok.inj h⟩
  obtain ⟨cs, t, hsql, hlaid, ht⟩ := exists_laidOut_of_split hfs
  obtain ⟨ps, gap, hps, hgap, rfl, hplace⟩ := hlaid.exists_spaced
  rw [← flatMap_fragments_groups v fs] at hplace
  obtain ⟨qs, hjoin, hqs, hspans, hparts⟩ := exists_parts hplace.symm hps
  -- The parts under the tokens are laid out in the query, as the fragments are.
  have hlossless : Lossless sql (placeSpaced 0 qs) := by
    rw [← hjoin, List.append_assoc] at hsql
    exact (LaidOut.of_spaced hqs 0).lossless hsql (ht.blanks_append hgap)
  refine ⟨fs, (groups v fs).map Group.fragments, hfs, flatMap_fragments_groups v fs, ?_, ?_⟩
  · rw [tokensOf, List.forall₂_map_left_iff, List.forall₂_map_right_iff, List.forall₂_same]
    intro g hg
    obtain ⟨part, hpart, hextent⟩ := hparts g hg
    exact token_madeOf hfs hg hextent (hlossless.slices part hpart).2.2
  · have hcover := hlossless.spansCover
    rw [hspans] at hcover
    rw [tokensOf, List.map_map]
    exact hcover

/-- A keyword of two words with blanks of several bytes between them, and tokens that touch. -/
theorem tokenize_accounted_standard :
    tokenize .standard "LEFT\u2003\n JOIN t='x y' ;" =
        .ok [⟨.leftJoin, "LEFT JOIN", ⟨0, 13⟩⟩, ⟨.unknown, "t", ⟨14, 15⟩⟩, ⟨.equals, "=", ⟨15, 16⟩⟩,
          ⟨.stringValue, "'x y'", ⟨16, 21⟩⟩] ∧
      (∃ fs blocks, split .standard "LEFT\u2003\n JOIN t='x y' ;" = .ok fs ∧ blocks.flatten = fs ∧
        List.Forall₂ (Token.MadeOf .standard "LEFT\u2003\n JOIN t='x y' ;")
          [⟨.leftJoin, "LEFT JOIN", ⟨0, 13⟩⟩, ⟨.unknown, "t", ⟨14, 15⟩⟩, ⟨.equals, "=", ⟨15, 16⟩⟩,
            ⟨.stringValue, "'x y'", ⟨16, 21⟩⟩] blocks ∧
        SpansCover "LEFT\u2003\n JOIN t='x y' ;" [⟨0, 13⟩, ⟨14, 15⟩, ⟨15, 16⟩, ⟨16, 21⟩]) ∧
      squeeze "LEFT\u2003\n JOIN".toList = "LEFT JOIN".toList := by
  have h : tokenize .standard "LEFT\u2003\n JOIN t='x y' ;" =
      .ok [⟨.leftJoin, "LEFT JOIN", ⟨0, 13⟩⟩, ⟨.unknown, "t", ⟨14, 15⟩⟩, ⟨.equals, "=", ⟨15, 16⟩⟩,
        ⟨.stringValue, "'x y'", ⟨16, 21⟩⟩] := by
    decide +kernel
  exact ⟨h, tokenize_accounted h, by decide⟩

end SqlLex
