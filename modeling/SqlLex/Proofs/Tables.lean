import SqlLex.Proofs.Phrase
import SqlLex.Vocabulary.Check

namespace SqlLex

open Text

/-!
# Tables that make a vocabulary

The check accepts tables iff they leave no choice.  A vocabulary answers from its tables alone, and
the order in which they list anything has no part in what is read with it.

* `MadeOf` — the words of a spelling; `isCanonical_iff` — the form that is looked up, said of them.
* `TablesFit` — what is asked of tables, said of their rows; `consistent_entriesOf_iff`.
* `Vocabulary.ofTables_eq_ok_iff` — the vocabulary that tables make.
* `Vocabulary.AnswersFor` — its answers, read off the rows.
* `Rearranged` — the same tables in another order; `entriesOf_perm`.
* `ofTables_exact` — what is accepted, what it answers, and that order does not matter.
-/

variable {v v' : Vocabulary} {ks ks' : List Container} {rows rows' : List KeywordRow}

/-! ### Spellings word by word -/

theorem splitSpaces_of_notMem {w : List Char} (h : ' ' ∉ w) : splitSpaces w = [w] := by
  induction w with
  | nil => rfl
  | cons c w ih =>
    rw [List.mem_cons, not_or] at h
    rw [splitSpaces, if_neg (Ne.symm h.1), ih h.2]

/-- The first space ends the first word. -/
theorem splitSpaces_append_space {w : List Char} (h : ' ' ∉ w) (cs : List Char) :
    splitSpaces (w ++ ' ' :: cs) = w :: splitSpaces cs := by
  induction w with
  | nil => simp [splitSpaces]
  | cons c w ih =>
    rw [List.mem_cons, not_or] at h
    rw [List.cons_append, splitSpaces, if_neg (Ne.symm h.1), ih h.2]

/-- Words without spaces are found again in their phrase. -/
theorem splitSpaces_joinWords {ws : List String} (hne : ws ≠ []) (h : ∀ w ∈ ws, ' ' ∉ w.toList) :
    splitSpaces (joinWords ws).toList = ws.map String.toList := by
  obtain ⟨w, ws, rfl⟩ := List.exists_cons_of_ne_nil hne
  induction ws generalizing w with
  | nil => rw [joinWords_singleton, splitSpaces_of_notMem (h w List.mem_cons_self)]; rfl
  | cons x ws ih =>
    obtain ⟨hw, hws⟩ := List.forall_mem_cons.1 h
    have htext : (joinWords (w :: x :: ws)).toList =
        w.toList ++ ' ' :: (joinWords (x :: ws)).toList := by
      rw [joinWords_cons_cons]
      simp
    rw [htext, splitSpaces_append_space hw, ih x (List.cons_ne_nil x ws) hws]
    rfl

/-- The spelling is made of the words: there are some, none is empty or holds a blank, and single
    spaces stand between them. -/
structure MadeOf (spelling : String) (ws : List String) : Prop where
  ne_nil : ws ≠ []
  words : ∀ w ∈ ws, w ≠ "" ∧ ∀ c ∈ w.toList, isBlank c = false
  eq_joinWords : spelling = joinWords ws

theorem MadeOf.splitSpaces_eq {s : String} {ws : List String} (h : MadeOf s ws) :
    splitSpaces s.toList = ws.map String.toList := by
  rw [h.eq_joinWords]
  apply splitSpaces_joinWords h.ne_nil
  intro w hw hspace
  have := (h.words w hw).2 ' ' hspace
  exact absurd this (by decide)

theorem MadeOf.wordCount_eq {s : String} {ws : List String} (h : MadeOf s ws) :
    wordCount s = ws.length := by
  rw [wordCount, h.splitSpaces_eq, List.length_map]

/-- A spelling is in the form that is looked up iff it is its own lowercase form and is made of
    words. -/
theorem isCanonical_iff {s : String} : IsCanonical s ↔ lowercase s = s ∧ ∃ ws, MadeOf s ws := by
  refine and_congr_right fun _ => ⟨?_, ?_⟩
  · intro h
    refine ⟨(splitSpaces s.toList).map String.ofList, ?_, ?_, ?_⟩
    · simpa using splitSpaces_ne_nil s.toList
    · intro w hw
      obtain ⟨u, hu, rfl⟩ := List.mem_map.1 hw
      obtain ⟨hne, hblank⟩ := h u hu
      rw [List.any_eq_false] at hblank
      refine ⟨fun hnil => hne (by simpa using hnil), ?_⟩
      intro c hc
      rw [String.toList_ofList] at hc
      simpa using hblank c hc
    · rw [joinWords_splitSpaces, String.ofList_toList]
  · rintro ⟨ws, hws⟩ u hu
    rw [hws.splitSpaces_eq] at hu
    obtain ⟨w, hw, rfl⟩ := List.mem_map.1 hu
    obtain ⟨hne, hblank⟩ := hws.words w hw
    refine ⟨fun hnil => hne (String.toList_inj.1 hnil), ?_⟩
    rw [List.any_eq_false]
    intro c hc
    simp [hblank c hc]

/-! ### What is asked of tables -/

theorem mem_entriesOf {e : Entry} :
    e ∈ entriesOf rows ↔ ∃ r ∈ rows, r.kind = e.kind ∧ e.spelling ∈ r.spellings := by
  obtain ⟨s, k⟩ := e
  rw [entriesOf, List.mem_flatMap]
  refine exists_congr fun r => and_congr_right fun _ => ?_
  simp [and_comm]

/-- What is asked of tables, said of their rows: no two containers have one opener, every spelling
    is its own lowercase form and made of words, and none is listed under two kinds. -/
structure TablesFit (ks : List Container) (rows : List KeywordRow) : Prop where
  openers_apart : ks.Pairwise fun k l => k.opener ≠ l.opener
  lowercase_eq : ∀ r ∈ rows, ∀ s ∈ r.spellings, lowercase s = s
  made : ∀ r ∈ rows, ∀ s ∈ r.spellings, ∃ ws, MadeOf s ws
  one_kind : ∀ r ∈ rows, ∀ r' ∈ rows, ∀ s ∈ r.spellings, s ∈ r'.spellings → r.kind = r'.kind

theorem consistent_entriesOf_iff : Consistent ks (entriesOf rows) ↔ TablesFit ks rows := by
  have hnodup : (ks.map (·.opener)).Nodup ↔ ks.Pairwise fun k l => k.opener ≠ l.opener :=
    List.pairwise_map
  constructor
  · intro h
    have hcanonical : ∀ r ∈ rows, ∀ s ∈ r.spellings, IsCanonical s := fun r hr s hs =>
      h.canonical ⟨s, r.kind⟩ (mem_entriesOf.2 ⟨r, hr, rfl, hs⟩)
    refine ⟨hnodup.1 h.openers_nodup, ?_, ?_, ?_⟩
    · exact fun r hr s hs => (isCanonical_iff.1 (hcanonical r hr s hs)).1
    · exact fun r hr s hs => (isCanonical_iff.1 (hcanonical r hr s hs)).2
    · intro r hr r' hr' s hs hs'
      exact h.unambiguous ⟨s, r.kind⟩ (mem_entriesOf.2 ⟨r, hr, rfl, hs⟩) ⟨s, r'.kind⟩
        (mem_entriesOf.2 ⟨r', hr', rfl, hs'⟩) rfl
  · intro h
    refine ⟨hnodup.2 h.openers_apart, ?_, ?_⟩
    · intro e he
      obtain ⟨r, hr, -, hs⟩ := mem_entriesOf.1 he
      exact isCanonical_iff.2 ⟨h.lowercase_eq r hr _ hs, h.made r hr _ hs⟩
    · intro e he f hf hef
      obtain ⟨r, hr, hrk, hs⟩ := mem_entriesOf.1 he
      obtain ⟨r', hr', hrk', hs'⟩ := mem_entriesOf.1 hf
      rw [← hrk, ← hrk']
      exact h.one_kind r hr r' hr' _ hs (hef ▸ hs')

/-! ### The vocabulary that tables make -/

namespace Vocabulary

/-- The vocabulary of accepted tables holds what they list. -/
theorem ofTables_eq_ok_iff :
    ofTables ks rows = .ok v ↔ v.containers = ks ∧ v.entries = entriesOf rows := by
  constructor
  · intro h
    unfold ofTables at h
    split at h
    · cases h
    · cases h
      exact ⟨rfl, rfl⟩
  · obtain ⟨ks', es, hconsistent⟩ := v
    rintro ⟨rfl, rfl⟩
    exact ofTables_of_consistent hconsistent

/-- Tables are accepted iff they are consistent. -/
theorem exists_ofTables_eq_ok_iff :
    (∃ v, ofTables ks rows = .ok v) ↔ Consistent ks (entriesOf rows) := by
  constructor
  · rintro ⟨v, h⟩
    obtain ⟨hks, hes⟩ := ofTables_eq_ok_iff.1 h
    rw [← hks, ← hes]
    exact v.consistent
  · exact fun h => ⟨_, ofTables_of_consistent h⟩

/-- Some spelling has as many words as the longest, if there is a spelling. -/
theorem exists_wordCount_eq_maxWords (h : v.entries ≠ []) :
    ∃ e ∈ v.entries, wordCount e.spelling = v.maxWords := by
  have hfold : v.maxWords = (v.entries.map (wordCount ·.spelling)).foldl max 0 := by
    rw [List.foldl_map]
    rfl
  have hmax : (0 :: v.entries.map (wordCount ·.spelling)).max? = some v.maxWords := by
    rw [List.max?_cons', hfold]
  rcases List.mem_cons.1 (List.max?_mem hmax) with hzero | hattained
  · -- A spelling has a word at least.
    obtain ⟨e, es, hes⟩ := List.exists_cons_of_ne_nil h
    have hle := wordCount_le_maxWords (v := v) (e := e) (hes ▸ List.mem_cons_self)
    rw [hzero, wordCount_eq] at hle
    omega
  · exact List.mem_map.1 hattained

/-- The vocabulary answers what the rows of the tables say. -/
structure AnswersFor (v : Vocabulary) (ks : List Container) (rows : List KeywordRow) : Prop where
  opened : ∀ c k, v.containerOpenedBy? c = some k ↔ k ∈ ks ∧ k.opener = c
  unopened : ∀ c, v.containerOpenedBy? c = none ↔ ∀ k ∈ ks, k.opener ≠ c
  keyword : ∀ s kind, v.keyword? s = some kind ↔ ∃ r ∈ rows, r.kind = kind ∧ s ∈ r.spellings
  length_le_maxWords : ∀ r ∈ rows, ∀ s ∈ r.spellings, ∀ ws, MadeOf s ws → ws.length ≤ v.maxWords
  maxWords_attained : (∃ r ∈ rows, ∃ s ∈ r.spellings, ∃ ws, MadeOf s ws ∧ ws.length = v.maxWords) ∨
    v.maxWords = 0 ∧ ∀ r ∈ rows, r.spellings = []

/-- The vocabulary of accepted tables answers what their rows say. -/
theorem answersFor (h : ofTables ks rows = .ok v) : v.AnswersFor ks rows := by
  obtain ⟨rfl, hes⟩ := ofTables_eq_ok_iff.1 h
  have hlisted {e : Entry} :
      e ∈ v.entries ↔ ∃ r ∈ rows, r.kind = e.kind ∧ e.spelling ∈ r.spellings := by
    rw [hes, mem_entriesOf]
  refine ⟨fun _ _ => containerOpenedBy?_eq_some_iff, fun _ => containerOpenedBy?_eq_none_iff,
    fun _ _ => keyword?_eq_some_iff.trans hlisted, ?_, ?_⟩
  · intro r hr s hs ws hws
    rw [← hws.wordCount_eq]
    exact wordCount_le_maxWords (hlisted (e := ⟨s, r.kind⟩).2 ⟨r, hr, rfl, hs⟩)
  · by_cases hnil : v.entries = []
    · refine .inr ⟨by rw [maxWords, hnil]; rfl, ?_⟩
      intro r hr
      rw [List.eq_nil_iff_forall_not_mem]
      intro s hs
      have := (hlisted (e := ⟨s, r.kind⟩)).2 ⟨r, hr, rfl, hs⟩
      rw [hnil] at this
      cases this
    · obtain ⟨e, he, hmax⟩ := exists_wordCount_eq_maxWords hnil
      obtain ⟨r, hr, -, hs⟩ := hlisted.1 he
      obtain ⟨-, ws, hws⟩ := isCanonical_iff.1 (v.consistent.canonical e he)
      exact .inl ⟨r, hr, e.spelling, hs, ws, hws, by rw [← hws.wordCount_eq, hmax]⟩

end Vocabulary

/-! ### Tables in another order -/

/-- The rows list the same spellings under the same kind, in some order. -/
structure KeywordRow.SameUpToOrder (r r' : KeywordRow) : Prop where
  kind_eq : r.kind = r'.kind
  spellings_perm : r.spellings.Perm r'.spellings

/-- The tables list the same: the containers in some order, and the rows in some order, each with
    its spellings in some order. -/
structure Rearranged (ks ks' : List Container) (rows rows' : List KeywordRow) : Prop where
  containers_perm : ks.Perm ks'
  rows_perm : ∃ between, rows.Perm between ∧
    List.Forall₂ KeywordRow.SameUpToOrder between rows'

/-- The tables list the same spellings under the same kinds, in some order. -/
theorem Rearranged.entriesOf_perm (h : Rearranged ks ks' rows rows') :
    (entriesOf rows).Perm (entriesOf rows') := by
  obtain ⟨between, hperm, hrows⟩ := h.rows_perm
  refine (hperm.flatMap_right _).trans ?_
  clear hperm h
  induction hrows with
  | nil => exact .refl _
  | cons hrow _ ih =>
    rw [entriesOf, List.flatMap_cons, List.flatMap_cons, hrow.kind_eq]
    exact (hrow.spellings_perm.map _).append ih

theorem Consistent.perm {es es' : List Entry} (h : Consistent ks es) (hks : ks.Perm ks')
    (hes : es.Perm es') : Consistent ks' es' where
  openers_nodup := (hks.map _).nodup_iff.1 h.openers_nodup
  canonical e he := h.canonical e (hes.mem_iff.2 he)
  unambiguous e he f hf := h.unambiguous e (hes.mem_iff.2 he) f (hes.mem_iff.2 hf)

/-- Vocabularies that hold the same in another order have nothing that the other lacks. -/
theorem Rearranged.extends (h : Rearranged ks ks' rows rows')
    (hv : Vocabulary.ofTables ks rows = .ok v) (hv' : Vocabulary.ofTables ks' rows' = .ok v') :
    v'.Extends v none none := by
  obtain ⟨rfl, hes⟩ := Vocabulary.ofTables_eq_ok_iff.1 hv
  obtain ⟨rfl, hes'⟩ := Vocabulary.ofTables_eq_ok_iff.1 hv'
  refine ⟨h.containers_perm.symm, ?_⟩
  rw [hes, hes']
  exact h.entriesOf_perm.symm

theorem Rearranged.exists_ofTables_eq_ok_iff (h : Rearranged ks ks' rows rows') :
    (∃ v, Vocabulary.ofTables ks rows = .ok v) ↔ ∃ v, Vocabulary.ofTables ks' rows' = .ok v := by
  rw [Vocabulary.exists_ofTables_eq_ok_iff, Vocabulary.exists_ofTables_eq_ok_iff]
  exact ⟨fun hc => hc.perm h.containers_perm h.entriesOf_perm,
    fun hc => hc.perm h.containers_perm.symm h.entriesOf_perm.symm⟩

/-- **Which tables are accepted, and what they come to.**  The check accepts tables iff no two
    containers have one opener, every spelling is its own lowercase form and is made of words, and
    none is listed under two kinds.  The vocabulary then answers what the rows say.  Tables that
    list the same in another order are accepted as well, and every query is cut into the same
    fragments and tokens with them, or has the same error, and all fragments make the same
    tokens. -/
theorem ofTables_exact (ks : List Container) (rows : List KeywordRow) :
    ((∃ v, Vocabulary.ofTables ks rows = .ok v) ↔ TablesFit ks rows) ∧
    (∀ v, Vocabulary.ofTables ks rows = .ok v → v.AnswersFor ks rows) ∧
    ∀ ks' rows', Rearranged ks ks' rows rows' →
      ((∃ v, Vocabulary.ofTables ks rows = .ok v) ↔
        ∃ v, Vocabulary.ofTables ks' rows' = .ok v) ∧
      ∀ v v', Vocabulary.ofTables ks rows = .ok v → Vocabulary.ofTables ks' rows' = .ok v' →
        (∀ sql, split v' sql = split v sql) ∧ (∀ fs, tokensOf v' fs = tokensOf v fs) ∧
          ∀ sql, tokenize v' sql = tokenize v sql := by
  refine ⟨Vocabulary.exists_ofTables_eq_ok_iff.trans consistent_entriesOf_iff,
    fun v => Vocabulary.answersFor, ?_⟩
  intro ks' rows' h
  refine ⟨h.exists_ofTables_eq_ok_iff, ?_⟩
  intro v v' hv hv'
  have hsame := h.extends hv hv'
  -- There is no further container or spelling that a query could make use of.
  refine ⟨fun sql => hsame.split_eq ?_, fun fs => hsame.tokensOf_eq ?_ ?_,
    fun sql => hsame.tokenize_eq ?_ ?_⟩
  · rintro k ⟨⟩
  · rintro f - k ⟨⟩
  · rintro e ⟨⟩
  · rintro k ⟨⟩
  · rintro fs - e ⟨⟩

/-- A spelling that is listed twice under one kind, in tables that are then rearranged; and one
    that is listed under two kinds. -/
theorem ofTables_exact_joins :
    (∃ v v', Vocabulary.ofTables [⟨'(', ')', .expression⟩, ⟨'[', ']', .escapedValue⟩]
        [⟨.innerJoin, ["join", "inner join"]⟩, ⟨.leftJoin, ["left join"]⟩,
          ⟨.innerJoin, ["join"]⟩] = .ok v ∧
      Vocabulary.ofTables [⟨'[', ']', .escapedValue⟩, ⟨'(', ')', .expression⟩]
        [⟨.innerJoin, ["join"]⟩, ⟨.innerJoin, ["inner join", "join"]⟩,
          ⟨.leftJoin, ["left join"]⟩] = .ok v' ∧
      v.keyword? "join" = some .innerJoin ∧ v.containerOpenedBy? ')' = none ∧
      2 ≤ v.maxWords ∧ ∀ sql, tokenize v' sql = tokenize v sql) ∧
    ¬∃ v, Vocabulary.ofTables [] [⟨.innerJoin, ["join"]⟩, ⟨.leftJoin, ["left join", "join"]⟩] =
      .ok v := by
  constructor
  · have hfit : TablesFit [⟨'(', ')', .expression⟩, ⟨'[', ']', .escapedValue⟩]
        [⟨.innerJoin, ["join", "inner join"]⟩, ⟨.leftJoin, ["left join"]⟩,
          ⟨.innerJoin, ["join"]⟩] := by
      refine consistent_entriesOf_iff.1 ⟨by decide, by decide +kernel, ?_⟩
      unfold Unambiguous
      decide +kernel
    have hrearranged : Rearranged
        [⟨'(', ')', .expression⟩, ⟨'[', ']', .escapedValue⟩]
        [⟨'[', ']', .escapedValue⟩, ⟨'(', ')', .expression⟩]
        [⟨.innerJoin, ["join", "inner join"]⟩, ⟨.leftJoin, ["left join"]⟩, ⟨.innerJoin, ["join"]⟩]
        [⟨.innerJoin, ["join"]⟩, ⟨.innerJoin, ["inner join", "join"]⟩,
          ⟨.leftJoin, ["left join"]⟩] := by
      refine ⟨.swap .., [⟨.innerJoin, ["join"]⟩, ⟨.innerJoin, ["join", "inner join"]⟩,
        ⟨.leftJoin, ["left join"]⟩], by decide, ?_⟩
      exact .cons ⟨rfl, .refl _⟩ (.cons ⟨rfl, .swap ..⟩ (.cons ⟨rfl, .refl _⟩ .nil))
    have hwords : MadeOf "inner join" ["inner", "join"] := by
      refine ⟨by decide, ?_, by decide⟩
      have hall : ["inner", "join"].all fun w => w != "" && w.toList.all (!isBlank ·) := by decide
      simpa using hall
    obtain ⟨haccepted, hanswers, horder⟩ := ofTables_exact _ _
    obtain ⟨v, hv⟩ := haccepted.2 hfit
    obtain ⟨hboth, hsame⟩ := horder _ _ hrearranged
    obtain ⟨v', hv'⟩ := hboth.1 ⟨v, hv⟩
    have h := hanswers v hv
    refine ⟨v, v', hv, hv', ?_, (h.unopened _).2 (by decide), ?_, (hsame v v' hv hv').2.2⟩
    · exact (h.keyword _ _).2 ⟨_, List.mem_cons_self, rfl, List.mem_cons_self⟩
    · exact h.length_le_maxWords _ List.mem_cons_self "inner join"
        (List.mem_cons_of_mem _ List.mem_cons_self) _ hwords
  · rw [(ofTables_exact _ _).1]
    intro hfit
    have hkind := hfit.one_kind _ List.mem_cons_self _ (List.mem_cons_of_mem _ List.mem_cons_self)
      "join" List.mem_cons_self (List.mem_cons_of_mem _ List.mem_cons_self)
    cases hkind

end SqlLex
