import SqlLex.Proofs.Accounting
import SqlLex.Proofs.Tables

namespace SqlLex

open Text

/-!
# Dead spellings

With plain delimiters a query is cut at every digit, around every breaking character and at either
end of a run of operators.  A spelling with a word that would be cut apart so is never made up by
fragments, and nothing is lost with it.

* `IsFixed`, `mem_lowerBetween_iff` — the characters that lowercase text has where, and only where,
  the text has them.
* `Lowers` — a text and what becomes of it in lowercase; `Lowers.splitSpaces` — word by word.
* `IsCutApart`, `IsDead` — words that are cut apart, and spellings that have one.
* `phrase_ne_of_isDead` — no fragments of a query make up a dead spelling.
* `KeywordRow.without`, `Vocabulary.IsWithout` — tables and vocabularies without a spelling.
* `tokenize_eq_of_isDead` — without a dead spelling, every query has the same tokens.
-/

variable {v : Vocabulary}

/-! ### Characters that lowercase text keeps -/

namespace Text

/-- The characters of ASCII from the space up to the letters. -/
def IsFixed (c : Char) : Prop := 0x20 ≤ c.toNat ∧ c.toNat < 0x41

theorem IsFixed.isAlpha_eq_false {d : Char} (hd : IsFixed d) : d.isAlpha = false := by
  have hcodes : ∀ n < 0x41, (Char.ofNat n).isAlpha = false := by decide
  have := hcodes d.toNat hd.2
  rwa [d.ofNat_toNat] at this

/-- Beyond ASCII, no lowercase image lies before the letters. -/
theorem le_lowerCode {n : Nat} (h : 0x80 ≤ n) : 0x41 ≤ lowerCode n := by
  have himages : ∀ r ∈ lowerRanges, 0x41 ≤ r.image := by decide +kernel
  unfold lowerCode
  cases hr : lowerRanges.find? (·.holds n) with
  | none => exact Nat.le_trans (by decide) h
  | some r =>
    exact Nat.le_trans (himages r (List.mem_of_find?_eq_some hr)) (Nat.le_add_right _ _)

/-- A number that is no code point stands for the null character. -/
theorem toNat_ofNat (n : Nat) : (Char.ofNat n).toNat = n ∨ (Char.ofNat n).toNat = 0 := by
  by_cases hn : n.isValidChar
  · have hchar : Char.ofNat n = Char.ofNatAux n hn := dif_pos hn
    exact .inl (hchar ▸ rfl)
  · have hchar : Char.ofNat n = '\x00' := dif_neg hn
    exact .inr (hchar ▸ rfl)

/-- Such a character is in the lowercase image of itself and of no other. -/
theorem mem_lowerBetween_iff {d : Char} (hd : IsFixed d) {c : Char} (before after : List Char) :
    d ∈ lowerBetween before c after ↔ c = d := by
  have hne {e : Char} (he : e.toNat < 0x20 ∨ 0x41 ≤ e.toNat) : d ≠ e := by
    rintro rfl
    obtain ⟨hlow, hhigh⟩ := hd
    omega
  unfold lowerBetween
  split
  · -- Both forms of the sigma lie beyond ASCII.
    rename_i hc
    subst hc
    have hsigma : d ∉ [if isFinalSigma before after then 'ς' else 'σ'] := by
      rw [List.mem_singleton]
      split <;> exact hne (.inr (by decide))
    exact iff_of_false hsigma (hne (.inr (by decide))).symm
  · unfold lowerChar
    split
    · rw [List.mem_singleton, eq_comm]
      exact toLower_eq_iff hd.isAlpha_eq_false
    · rename_i hascii
      have hcd : c ≠ d := (hne (.inr (by omega))).symm
      split
      · exact iff_of_false (by simp [hne (.inr (show 0x41 ≤ 'i'.toNat by decide)),
          hne (.inr (show 0x41 ≤ (Char.ofNat 0x307).toNat by decide))]) hcd
      · have himage := le_lowerCode (Nat.le_of_not_lt hascii)
        refine iff_of_false ?_ hcd
        rw [List.mem_singleton]
        apply hne
        rcases toNat_ofNat (lowerCode c.toNat) with hcode | hcode
        · exact .inr (by rwa [hcode])
        · exact .inl (by rw [hcode]; decide)

/-- It stays as it is. -/
theorem lowerBetween_of_isFixed {c : Char} (hc : IsFixed c) (before after : List Char) :
    lowerBetween before c after = [c] := by
  have hascii : c.toNat < 0x80 := Nat.lt_trans hc.2 (by decide)
  exact lowerBetween_of_toLower hascii ((toLower_eq_iff hc.isAlpha_eq_false).2 rfl) before after

/-! ### Texts and their lowercase forms -/

/-- The second text is what becomes of the first in lowercase, where each character stands between
    some others. -/
inductive Lowers : List Char → List Char → Prop where
  | nil : Lowers [] []
  | cons {c : Char} {cs ds : List Char} (before after : List Char) :
    Lowers cs ds → Lowers (c :: cs) (lowerBetween before c after ++ ds)

theorem lowers_lowerAfter (before cs : List Char) : Lowers cs (lowerAfter before cs) := by
  induction cs generalizing before with
  | nil => exact .nil
  | cons c cs ih => exact .cons before cs (ih (c :: before))

theorem Lowers.mem_iff {cs ds : List Char} (h : Lowers cs ds) {d : Char} (hd : IsFixed d) :
    d ∈ ds ↔ d ∈ cs := by
  induction h with
  | nil => rfl
  | cons before after _ ih =>
    rw [List.mem_append, mem_lowerBetween_iff hd, ih, List.mem_cons, eq_comm]

theorem Lowers.eq_of_isFixed {cs ds : List Char} (h : Lowers cs ds) (hcs : ∀ c ∈ cs, IsFixed c) :
    ds = cs := by
  induction h with
  | nil => rfl
  | cons before after _ ih =>
    obtain ⟨hc, hcs⟩ := List.forall_mem_cons.1 hcs
    rw [lowerBetween_of_isFixed hc, ih hcs]
    rfl

end Text

/-- Text without spaces at the front belongs to the first word. -/
theorem splitSpaces_append {x cs w : List Char} {ws : List (List Char)} (hx : ' ' ∉ x)
    (h : splitSpaces cs = w :: ws) : splitSpaces (x ++ cs) = (x ++ w) :: ws := by
  induction x with
  | nil => exact h
  | cons c x ih =>
    rw [List.mem_cons, not_or] at hx
    rw [List.cons_append, splitSpaces, if_neg (Ne.symm hx.1), ih hx.2]
    rfl

/-- The words of a text in lowercase are its words in lowercase. -/
theorem Text.Lowers.splitSpaces {cs ds : List Char} (h : Lowers cs ds) :
    List.Forall₂ Lowers (splitSpaces cs) (splitSpaces ds) := by
  have hspace : IsFixed ' ' := by unfold IsFixed; decide
  induction h with
  | nil => exact .cons .nil .nil
  | @cons c cs ds before after _ ih =>
    by_cases hc : c = ' '
    · subst hc
      rw [lowerBetween_of_isFixed hspace]
      exact .cons .nil ih
    · -- No space comes from the character, so its image belongs to the first word.
      have himage : ' ' ∉ lowerBetween before c after := by rwa [mem_lowerBetween_iff hspace]
      generalize hws : SqlLex.splitSpaces cs = ws at ih
      generalize hus : SqlLex.splitSpaces ds = us at ih
      cases ih with
      | nil => exact absurd hws (splitSpaces_ne_nil cs)
      | cons hw hrest =>
        have hcons := splitSpaces_append (x := [c]) (by simpa using Ne.symm hc) hws
        rw [List.singleton_append] at hcons
        rw [hcons, splitSpaces_append himage hus]
        exact .cons (.cons before after hw) hrest

/-! ### Words that are cut apart -/

/-- The word has a digit, or a breaking character beside another character, or operators beside
    other characters. -/
def IsCutApart (w : List Char) : Prop :=
  (∃ c ∈ w, c.isDigit = true) ∨ (2 ≤ w.length ∧ ∃ c ∈ w, c ∈ breakingChars) ∨
    (∃ c ∈ w, c ∈ operatorChars) ∧ ∃ c ∈ w, c ∉ operatorChars

/-- A word of the spelling is cut apart. -/
def IsDead (spelling : String) : Prop := ∃ w ∈ splitSpaces spelling.toList, IsCutApart w

/-- Lowercase text keeps the characters that are neither blank nor characters of words. -/
theorem isFixed_of_classOf {c : Char} (hb : classOf c ≠ .blank) (hw : classOf c ≠ .member .word) :
    IsFixed c := by
  have hlisted : ∀ d ∈ operatorChars ++ breakingChars, 0x20 ≤ d.toNat ∧ d.toNat < 0x41 := by
    simp [operatorChars, breakingChars]
  cases hc : classOf c with
  | blank => exact absurd hc hb
  | breaking => exact hlisted c (List.mem_append_right _ (classOf_eq_breaking_iff.1 hc))
  | member kind =>
    cases kind with
    | word => exact absurd hc hw
    | operator => exact hlisted c (List.mem_append_left _ (classOf_eq_operator_iff.1 hc))
    | number =>
      have hdigit : 48 ≤ c.toNat ∧ c.toNat ≤ 57 := by
        simpa [Char.isDigit, UInt32.le_iff_toNat_le] using classOf_eq_number_iff.1 hc
      unfold IsFixed
      omega

/-- Where a word is cut apart stands a character that is neither blank nor one of words. -/
theorem IsCutApart.exists_mem {w : List Char} (h : IsCutApart w) :
    ∃ c ∈ w, classOf c ≠ .blank ∧ classOf c ≠ .member .word := by
  rcases h with ⟨c, hc, hdigit⟩ | ⟨-, c, hc, hbreaking⟩ | ⟨⟨c, hc, hoperator⟩, -⟩
  · exact ⟨c, hc, by simp [classOf_eq_number_iff.2 hdigit]⟩
  · exact ⟨c, hc, by simp [classOf_eq_breaking_iff.2 hbreaking]⟩
  · exact ⟨c, hc, by simp [classOf_eq_operator_iff.2 hoperator]⟩

/-- What may be a part of a keyword is not cut apart, in lowercase neither. -/
theorem Shape.Fits.not_isCutApart {s : Shape} {w u : List Char} (h : s.Fits v w)
    (hs : s.isPlain = true) (hu : Lowers w u) : ¬IsCutApart u := by
  cases s with
  | literal k => cases hs
  | numeral => cases hs
  | operators =>
    have hclass : ∀ c ∈ w, classOf c = .member .operator := fun c hc =>
      classOf_eq_operator_iff.2 (h.2 c hc)
    obtain rfl := hu.eq_of_isFixed fun c hc =>
      isFixed_of_classOf (by simp [hclass c hc]) (by simp [hclass c hc])
    rintro (⟨c, hc, hdigit⟩ | ⟨-, c, hc, hbreaking⟩ | ⟨-, c, hc, hnot⟩)
    · rw [← classOf_eq_number_iff, hclass c hc] at hdigit
      cases hdigit
    · rw [← classOf_eq_breaking_iff, hclass c hc] at hbreaking
      cases hbreaking
    · exact hnot (h.2 c hc)
  | breaking =>
    obtain ⟨d, hd, rfl⟩ := h
    have hclass := classOf_eq_breaking_iff.2 hd
    obtain rfl := hu.eq_of_isFixed <| List.forall_mem_singleton.2 <|
      isFixed_of_classOf (by simp [hclass]) (by simp [hclass])
    rintro (⟨c, hc, hdigit⟩ | ⟨hlength, -⟩ | ⟨⟨c, hc, hoperator⟩, -⟩)
    · rw [← classOf_eq_number_iff, List.mem_singleton.1 hc, hclass] at hdigit
      cases hdigit
    · simp at hlength
    · rw [← classOf_eq_operator_iff, List.mem_singleton.1 hc, hclass] at hoperator
      cases hoperator
  | word =>
    intro hcut
    obtain ⟨c, hc, hb, hw⟩ := hcut.exists_mem
    -- Lowercase text keeps the character, and the word has none like it.
    exact hw (h.member c ((hu.mem_iff (isFixed_of_classOf hb hw)).1 hc))

/-- No fragments of a query make up a dead spelling. -/
theorem phrase_ne_of_isDead {s : String} (hs : IsDead s) {fs : List Fragment} (hne : fs ≠ [])
    (hfs : ∀ f ∈ fs, Recognised v f) (hplain : ∀ f ∈ fs, isPlain v f = true) : phrase fs ≠ s := by
  rintro rfl
  obtain ⟨u, hu, hcut⟩ := hs
  have hshape : ∀ f ∈ fs, ∃ s : Shape, s.isPlain = true ∧ s.Fits v f.text.toList := fun f hf =>
    (hfs f hf).exists_plain (hplain f hf)
  -- The words of the phrase are the fragments in lowercase, one for each.
  have hspaces : ∀ w ∈ fs.map (·.text), ' ' ∉ w.toList := by
    intro w hw
    obtain ⟨f, hf, rfl⟩ := List.mem_map.1 hw
    obtain ⟨s, hs, hfits⟩ := hshape f hf
    intro hspace
    have := hfits.isBlank_eq_false (by rintro k rfl; cases hs) hspace
    exact absurd this (by decide)
  have hwords : List.Forall₂ Lowers ((fs.map (·.text)).map String.toList)
      (splitSpaces (phrase fs).toList) := by
    rw [← splitSpaces_joinWords (by simpa using hne) hspaces, phrase, toList_lowercase]
    exact (lowers_lowerAfter [] _).splitSpaces
  obtain ⟨i, hi, rfl⟩ := List.getElem_of_mem hu
  have hi' : i < fs.length := by simpa [hwords.length_eq.symm] using hi
  have hlower := hwords.get (i := i) (by simpa using hi') hi
  obtain ⟨s, hs, hfits⟩ := hshape fs[i] (List.getElem_mem hi')
  refine hfits.not_isCutApart hs ?_ hcut
  simpa using hlower

/-! ### Tables without a spelling -/

/-- The row without the spelling. -/
def KeywordRow.without (r : KeywordRow) (spelling : String) : KeywordRow :=
  ⟨r.kind, r.spellings.filter (· ≠ spelling)⟩

theorem entriesOf_map_without (rows : List KeywordRow) (s : String) :
    entriesOf (rows.map (·.without s)) = (entriesOf rows).filter (·.spelling ≠ s) := by
  induction rows with
  | nil => rfl
  | cons r rows ih =>
    have hrow : (r.without s).spellings.map (Entry.mk · (r.without s).kind) =
        (r.spellings.map (Entry.mk · r.kind)).filter (·.spelling ≠ s) := by
      rw [List.filter_map]
      rfl
    rw [entriesOf] at ih
    rw [entriesOf, entriesOf, List.map_cons, List.flatMap_cons, ih, hrow, List.flatMap_cons,
      List.filter_append]
    rfl

theorem Consistent.of_subset {ks : List Container} {es es' : List Entry} (h : Consistent ks es)
    (hsub : es' ⊆ es) : Consistent ks es' where
  openers_nodup := h.openers_nodup
  canonical e he := h.canonical e (hsub he)
  unambiguous e he f hf := h.unambiguous e (hsub he) f (hsub hf)

namespace Vocabulary

/-- The vocabulary `v'` has the containers of `v`, and its spellings other than the given one. -/
structure IsWithout (v' v : Vocabulary) (spelling : String) : Prop where
  containers_eq : v'.containers = v.containers
  entries_eq : v'.entries = v.entries.filter (·.spelling ≠ spelling)

/-- Accepted tables are still accepted without a spelling. -/
theorem exists_ofTables_without {ks : List Container} {rows : List KeywordRow}
    (h : ofTables ks rows = .ok v) (s : String) :
    ∃ v', ofTables ks (rows.map (·.without s)) = .ok v' ∧ v'.IsWithout v s := by
  obtain ⟨rfl, hes⟩ := ofTables_eq_ok_iff.1 h
  have hconsistent : Consistent v.containers (entriesOf (rows.map (·.without s))) := by
    apply v.consistent.of_subset
    rw [entriesOf_map_without, hes]
    exact (List.filter_sublist).subset
  refine ⟨_, ofTables_of_consistent hconsistent, rfl, ?_⟩
  rw [hes]
  exact entriesOf_map_without rows s

namespace IsWithout

variable {v' : Vocabulary} {s : String}

theorem containerOpenedBy?_eq (h : v'.IsWithout v s) (c : Char) :
    v.containerOpenedBy? c = v'.containerOpenedBy? c := by
  rw [containerOpenedBy?, containerOpenedBy?, h.containers_eq]

theorem keyword?_eq (h : v'.IsWithout v s) (t : String) :
    v'.keyword? t = if t = s then none else v.keyword? t := by
  ext kind
  rw [keyword?_eq_some_iff, h.entries_eq, List.mem_filter]
  split <;> rename_i ht
  · simp [ht]
  · simp [ht, keyword?_eq_some_iff]

/-- What does not make up the spelling is looked up as before. -/
theorem spokenAlike (h : v'.IsWithout v s) {fs : List Fragment}
    (hs : ∀ w, Phrased v fs w → phrase w ≠ s) : SpokenAlike v v' fs where
  literalKind?_eq f _ := by
    unfold literalKind?
    simp only [h.containerOpenedBy?_eq]
  keyword?_eq w hw := by rw [h.keyword?_eq, if_neg (hs w hw)]

/-- A query has the same tokens without a dead spelling. -/
theorem tokenize_eq (h : v'.IsWithout v s) (hv : v.PlainDelimiters) (hs : IsDead s)
    (sql : String) : tokenize v' sql = tokenize v sql := by
  have hsplit : split v' sql = split v sql := by
    rw [split, split, splitting_congr fun c _ => h.containerOpenedBy?_eq c]
  cases hfs : split v sql with
  | error e => rw [tokenize_of_error hfs, tokenize_of_error (hsplit.trans hfs)]
  | ok fs =>
    have hrecognised : ∀ f ∈ fs, Recognised v f := fun f hf => recognised_of_split hv hfs hf
    have hspoken : SpokenAlike v v' fs := h.spokenAlike fun w hw =>
      phrase_ne_of_isDead hs hw.ne_nil (fun f hf => hrecognised f (hw.infix_of.subset hf)) hw.plain
    rw [tokenize_of_split hfs, tokenize_of_split (hsplit.trans hfs), tokensOf, tokensOf,
      groups_congr hspoken]

end IsWithout

end Vocabulary

/-- **Dead spellings change nothing.**  Accepted tables with plain delimiters are still accepted
    without a spelling of which some word is cut apart.  The spelling is then no keyword, the others
    are what they were, and every query has the same tokens, or the same error. -/
theorem tokenize_eq_of_isDead {ks : List Container} {rows : List KeywordRow} {s : String}
    (h : Vocabulary.ofTables ks rows = .ok v) (hv : v.PlainDelimiters) (hs : IsDead s) :
    ∃ v', Vocabulary.ofTables ks (rows.map (·.without s)) = .ok v' ∧
      (∀ t, v'.keyword? t = if t = s then none else v.keyword? t) ∧
      ∀ sql, tokenize v' sql = tokenize v sql := by
  obtain ⟨v', hv', hwithout⟩ := Vocabulary.exists_ofTables_without h s
  exact ⟨v', hv', hwithout.keyword?_eq, hwithout.tokenize_eq hv hs⟩

/-- A spelling that is longer than any other, so that with it more fragments are looked up
    together. -/
theorem tokenize_eq_of_isDead_longest :
    ∃ v, Vocabulary.ofTables [⟨'\x27', '\x27', .stringValue⟩]
        [⟨.like, ["like", "utf8 not like"]⟩] = .ok v ∧
      v.keyword? "utf8 not like" = some .like ∧ 3 ≤ v.maxWords ∧
      ∃ v', Vocabulary.ofTables [⟨'\x27', '\x27', .stringValue⟩] [⟨.like, ["like"]⟩] = .ok v' ∧
        (∀ t, v'.keyword? t = if t = "utf8 not like" then none else v.keyword? t) ∧
        ∀ sql, tokenize v' sql = tokenize v sql := by
  have hconsistent : Consistent [⟨'\x27', '\x27', .stringValue⟩]
      (entriesOf [⟨.like, ["like", "utf8 not like"]⟩]) := by
    refine ⟨by decide, by decide +kernel, ?_⟩
    unfold Unambiguous
    decide +kernel
  have hwords : splitSpaces "utf8 not like".toList =
      ["utf8".toList, "not".toList, "like".toList] := by decide +kernel
  have hdead : IsDead "utf8 not like" := by
    refine ⟨"utf8".toList, by rw [hwords]; exact List.mem_cons_self, .inl ⟨'8', ?_, rfl⟩⟩
    simp
  refine ⟨_, Vocabulary.ofTables_of_consistent hconsistent, ?_, ?_, ?_⟩
  · exact Vocabulary.keyword?_eq_some_iff.2 (List.mem_cons_of_mem _ List.mem_cons_self)
  · have hcount : wordCount "utf8 not like" = 3 := by
      rw [wordCount, hwords]
      rfl
    rw [← hcount]
    exact Vocabulary.wordCount_le_maxWords (v := ⟨_, _, hconsistent⟩)
      (e := ⟨"utf8 not like", .like⟩) (List.mem_cons_of_mem _ List.mem_cons_self)
  · refine tokenize_eq_of_isDead (Vocabulary.ofTables_of_consistent hconsistent) ?_ hdead
    constructor <;> exact List.forall_mem_singleton.2 (by decide)

end SqlLex
