import Mathlib.Data.List.TakeWhile
import SqlLex.Proofs.Grouping

namespace SqlLex

open Text

/-!
# The longest phrase

A vocabulary bounds the number of words that are looked up together.  The bound saves work and
decides nothing: a phrase of more words than any spelling is no keyword, whatever its words are.

* `count_le_count_lowerAfter` — lowercase text keeps its spaces.
* `keyword?_phrase_eq_none` — a phrase of more words than any spelling is no keyword.
* `longestKeyword?_eq_some_iff`, `longestKeyword?_eq_none_iff` — what the search answers.
* `exhaustiveTokens` — the tokens of fragments when phrases of every length are tried.
* `longestKeyword?_window` — the bound keeps the answer of the search.
* `Group.Justified` — why some fragments are a group; `justified_of_mem_groups` — each group has one
  of these reasons.
* `tokensOf_eq_exhaustiveTokens` — the bound keeps the tokens.
-/

variable {v : Vocabulary}

/-! ### Words of a phrase -/

/-- A character of ASCII that is its own lowercase form stays in lowercase text. -/
theorem lowerBetween_of_toLower {c : Char} (h : c.toNat < 0x80) (hc : c.toLower = c)
    (before after : List Char) : lowerBetween before c after = [c] := by
  have hsigma : c ≠ 'Σ' := by
    rintro rfl
    exact absurd h (by decide)
  rw [lowerBetween, if_neg hsigma, lowerChar_ascii h, hc]

/-- No such character gets lost; some may be added, as other characters may have them for an
    image. -/
theorem count_le_count_lowerAfter {c : Char} (h : c.toNat < 0x80) (hc : c.toLower = c)
    (before cs : List Char) : cs.count c ≤ (lowerAfter before cs).count c := by
  induction cs generalizing before with
  | nil => exact Nat.le_refl _
  | cons d cs ih =>
    have := ih (d :: before)
    rw [lowerAfter_cons, List.count_append]
    by_cases hd : d = c
    · subst hd
      rw [lowerBetween_of_toLower h hc, List.count_cons_self, List.count_singleton_self]
      omega
    · rw [List.count_cons_of_ne hd]
      omega

/-- There is a space between any two words, and there may be others in them. -/
theorem length_le_count_joinWords (ws : List String) :
    ws.length ≤ (joinWords ws).toList.count ' ' + 1 := by
  induction ws with
  | nil => exact Nat.zero_le _
  | cons w ws ih =>
    cases ws with
    | nil => exact Nat.le_add_left _ _
    | cons x ws =>
      rw [joinWords_cons_cons, String.toList_append, String.toList_append, List.count_append,
        List.count_append, List.length_cons]
      have hspace : " ".toList.count ' ' = 1 := by decide
      omega

theorem length_le_wordCount_phrase (fs : List Fragment) : fs.length ≤ wordCount (phrase fs) := by
  have hjoin := length_le_count_joinWords (fs.map (·.text))
  have hlower := count_le_count_lowerAfter (c := ' ') (by decide) (by decide) []
    (joinWords (fs.map (·.text))).toList
  rw [List.length_map] at hjoin
  rw [wordCount_eq, phrase, toList_lowercase]
  omega

/-- A phrase of more words than any spelling is no keyword. -/
theorem keyword?_phrase_eq_none {fs : List Fragment} (h : v.maxWords < fs.length) :
    v.keyword? (phrase fs) = none := by
  by_contra hne
  obtain ⟨k, hk⟩ := Option.ne_none_iff_exists'.1 hne
  have hspelling := Vocabulary.wordCount_le_maxWords (Vocabulary.keyword?_eq_some_iff.1 hk)
  have := length_le_wordCount_phrase fs
  dsimp only at hspelling
  omega

/-! ### Searching for the longest keyword -/

/-- The search answers the longest of the first parts that are keywords. -/
theorem longestKeyword?_eq_some_iff {fs : List Fragment} {n m : Nat} {k : TokenKind} :
    longestKeyword? v fs n = some (k, m) ↔
      m < n ∧ v.keyword? (phrase (fs.take (m + 1))) = some k ∧
        ∀ i, m < i → i < n → v.keyword? (phrase (fs.take (i + 1))) = none := by
  induction n with
  | zero => simp [longestKeyword?]
  | succ n ih =>
    rw [longestKeyword?]
    cases hn : v.keyword? (phrase (fs.take (n + 1))) with
    | some l =>
      -- The longest first part is a keyword, so no other is the answer.
      constructor
      · intro h
        cases h
        exact ⟨Nat.lt_succ_self _, hn, fun i hmi hin => absurd hin (by omega)⟩
      · rintro ⟨hm, hk, hlonger⟩
        have hmn : m = n := by
          by_contra hne
          have := hlonger n (by omega) (Nat.lt_succ_self n)
          rw [hn] at this
          cases this
        rw [hmn, hn] at hk
        rw [hmn, Option.some.inj hk]
    | none =>
      rw [ih]
      constructor
      · rintro ⟨hm, hk, hlonger⟩
        refine ⟨by omega, hk, ?_⟩
        intro i hmi hin
        by_cases hi : i = n
        · rw [hi, hn]
        · exact hlonger i hmi (by omega)
      · rintro ⟨hm, hk, hlonger⟩
        have hmn : m ≠ n := by
          rintro rfl
          rw [hn] at hk
          cases hk
        exact ⟨by omega, hk, fun i hmi hin => hlonger i hmi (by omega)⟩

theorem longestKeyword?_eq_none_iff {fs : List Fragment} {n : Nat} :
    longestKeyword? v fs n = none ↔ ∀ i < n, v.keyword? (phrase (fs.take (i + 1))) = none := by
  induction n with
  | zero => simp [longestKeyword?]
  | succ n ih =>
    rw [longestKeyword?]
    cases hn : v.keyword? (phrase (fs.take (n + 1))) with
    | some k =>
      simp only [reduceCtorEq, false_iff]
      intro h
      rw [h n (Nat.lt_succ_self n)] at hn
      cases hn
    | none =>
      rw [ih]
      constructor
      · intro h i hi
        by_cases hin : i = n
        · rw [hin, hn]
        · exact h i (by omega)
      · intro h i hi
        exact h i (by omega)

/-! ### The bound -/

/-- Fragments behind the ones that are looked at take no part in the search. -/
theorem longestKeyword?_take (fs : List Fragment) {n b : Nat} (h : n ≤ b) :
    longestKeyword? v (fs.take b) n = longestKeyword? v fs n := by
  induction n with
  | zero => rfl
  | succ n ih =>
    rw [longestKeyword?, longestKeyword?, List.take_take, Nat.min_eq_left h, ih (by omega)]

/-- Phrases of more words than any spelling add nothing to the search. -/
theorem longestKeyword?_add {fs : List Fragment} (n : Nat) (h : v.maxWords + n ≤ fs.length) :
    longestKeyword? v fs (v.maxWords + n) = longestKeyword? v fs v.maxWords := by
  induction n with
  | zero => rfl
  | succ n ih =>
    have hlen : v.maxWords < (fs.take (v.maxWords + n + 1)).length := by
      rw [List.length_take]
      omega
    rw [← Nat.add_assoc, longestKeyword?, keyword?_phrase_eq_none hlen]
    exact ih (by omega)

/-- The plain fragments at the front. -/
def plainRun (v : Vocabulary) (fs : List Fragment) : List Fragment := fs.takeWhile (isPlain v)

theorem window_eq_take (v : Vocabulary) (fs : List Fragment) :
    window v fs = (plainRun v fs).take v.maxWords := by
  rw [window, plainRun, List.take_takeWhile]

/-- **The bound keeps the answer.**  The longest keyword of all plain fragments at the front lies in
    the window. -/
theorem longestKeyword?_window (v : Vocabulary) (fs : List Fragment) :
    longestKeyword? v (window v fs) (window v fs).length =
      longestKeyword? v (plainRun v fs) (plainRun v fs).length := by
  rw [window_eq_take]
  generalize plainRun v fs = run
  rcases Nat.le_total run.length v.maxWords with hle | hle
  · rw [List.take_of_length_le hle]
  · obtain ⟨n, hn⟩ := Nat.exists_eq_add_of_le hle
    rw [List.length_take, Nat.min_eq_left hle, longestKeyword?_take run (Nat.le_refl _), hn,
      longestKeyword?_add n (Nat.le_of_eq hn.symm)]

/-! ### Trying every length -/

/-- The longest keyword that a run of fragments starts with, with the number of fragments behind its
    first: phrases of every length are tried, from the whole run down to one fragment. -/
def longestPhrase? (v : Vocabulary) (run : List Fragment) : Option (TokenKind × Nat) :=
  (List.range run.length).reverse.findSome? fun n =>
    (v.keyword? (phrase (run.take (n + 1)))).map (·, n)

/-- The tokens of the fragments when phrases of every length are tried. -/
def exhaustiveTokens (v : Vocabulary) : List Fragment → List Token
  | [] => []
  | f :: fs =>
    match literalKind? v f with
    | some k => ⟨k, f.text, f.span⟩ :: exhaustiveTokens v fs
    | none =>
      if f.isNumeric then ⟨.numeric, f.text, f.span⟩ :: exhaustiveTokens v fs
      else
        match longestPhrase? v (plainRun v (f :: fs)) with
        | some (k, n) =>
          let words := f :: fs.take n
          ⟨k, joinWords (words.map (·.text)), f.span.merge (words.getLastD f).span⟩ ::
            exhaustiveTokens v (fs.drop n)
        | none => ⟨.unknown, f.text, f.span⟩ :: exhaustiveTokens v fs
termination_by fs => fs.length
decreasing_by all_goals simp only [List.length_drop, List.length_cons]; omega

theorem longestPhrase?_eq_longestKeyword? (v : Vocabulary) (run : List Fragment) :
    longestPhrase? v run = longestKeyword? v run run.length := by
  unfold longestPhrase?
  generalize run.length = n
  induction n with
  | zero => rfl
  | succ n ih =>
    rw [List.range_succ, List.reverse_append, List.reverse_singleton, List.singleton_append,
      List.findSome?_cons, longestKeyword?, ih]
    cases v.keyword? (phrase (run.take (n + 1))) <;> rfl

/-- The group of a plain fragment is its longest keyword, however many words that has. -/
theorem firstGroup_plain {f : Fragment} (h : isPlain v f = true) (fs : List Fragment) :
    firstGroup v f fs =
      match longestPhrase? v (plainRun v (f :: fs)) with
      | some (k, n) => ⟨k, .keyword, f, fs.take n⟩
      | none => ⟨.unknown, .unmatched, f, []⟩ := by
  simp only [isPlain, Bool.and_eq_true, Option.isNone_iff_eq_none, Bool.not_eq_true'] at h
  rw [longestPhrase?_eq_longestKeyword?, ← longestKeyword?_window]
  unfold firstGroup
  rw [h.1, h.2]
  rfl

/-! ### What groups are -/

/-- Why some fragments are a group. -/
inductive Group.Justified (v : Vocabulary) : Group → Prop where
  | literal {f : Fragment} {k : TokenKind} :
    literalKind? v f = some k → Justified v ⟨k, .literal, f, []⟩
  | number {f : Fragment} :
    literalKind? v f = none → f.isNumeric = true → Justified v ⟨.numeric, .number, f, []⟩
  | keyword {f : Fragment} {fs : List Fragment} {k : TokenKind} :
    (∀ g ∈ f :: fs, isPlain v g = true) → v.keyword? (phrase (f :: fs)) = some k →
      Justified v ⟨k, .keyword, f, fs⟩
  | unmatched {f : Fragment} :
    isPlain v f = true → v.keyword? (phrase [f]) = none → Justified v ⟨.unknown, .unmatched, f, []⟩

theorem plainRun_cons {f : Fragment} (h : isPlain v f = true) (fs : List Fragment) :
    plainRun v (f :: fs) = f :: plainRun v fs := by
  rw [plainRun, List.takeWhile_cons, if_pos h, plainRun]

theorem plainRun_append_dropWhile (v : Vocabulary) (fs : List Fragment) :
    plainRun v fs ++ fs.dropWhile (isPlain v) = fs :=
  List.takeWhile_append_dropWhile

theorem firstGroup_justified (v : Vocabulary) (f : Fragment) (fs : List Fragment) :
    (firstGroup v f fs).Justified v := by
  cases hk : literalKind? v f with
  | some k =>
    rw [firstGroup_literal hk]
    exact .literal hk
  | none =>
    cases hn : f.isNumeric with
    | true =>
      rw [firstGroup_number hk hn]
      exact .number hk hn
    | false =>
      have hplain : isPlain v f = true := by simp [isPlain, hk, hn]
      rw [firstGroup_plain hplain, longestPhrase?_eq_longestKeyword?, plainRun_cons hplain]
      split
      · rename_i k n hlongest
        obtain ⟨hlen, hkey, -⟩ := longestKeyword?_eq_some_iff.1 hlongest
        -- The keyword does not reach beyond the plain fragments.
        have hrun : fs.take n = (plainRun v fs).take n := by
          conv => lhs; rw [← plainRun_append_dropWhile v fs]
          exact List.take_append_of_le_length (Nat.le_of_lt_succ hlen)
        rw [hrun]
        refine .keyword (List.forall_mem_cons.2 ⟨hplain, ?_⟩) hkey
        intro g hg
        exact List.mem_takeWhile_imp (List.mem_of_mem_take hg)
      · rename_i hnone
        exact .unmatched hplain (longestKeyword?_eq_none_iff.1 hnone 0 (Nat.zero_lt_succ _))

theorem justified_of_mem_groups {fs : List Fragment} {g : Group} (h : g ∈ groups v fs) :
    g.Justified v := by
  fun_induction groups v fs with
  | case1 => cases h
  | case2 f fs ih =>
    rcases List.mem_cons.1 h with rfl | h
    · exact firstGroup_justified v f fs
    · exact ih h

/-- A group of several fragments is a keyword. -/
theorem Group.Justified.keyword_of_two_le {g : Group} (h : g.Justified v)
    (htwo : 2 ≤ g.fragments.length) :
    (∀ f ∈ g.fragments, isPlain v f = true) ∧ v.keyword? (phrase g.fragments) = some g.kind := by
  cases h with
  | keyword hplain hkey => exact ⟨hplain, hkey⟩
  | literal _ => exact absurd htwo (by simp [fragments])
  | number _ _ => exact absurd htwo (by simp [fragments])
  | unmatched _ _ => exact absurd htwo (by simp [fragments])

/-! ### The bound decides nothing -/

/-- **Every length may as well be tried.**  The tokens of fragments, whatever their texts and spans,
    are those of the search that no bound cuts short. -/
theorem tokensOf_eq_exhaustiveTokens (v : Vocabulary) (fs : List Fragment) :
    tokensOf v fs = exhaustiveTokens v fs := by
  fun_induction exhaustiveTokens v fs with
  | case1 => rw [tokensOf, groups_nil, List.map_nil]
  | case2 f fs k hk ih =>
    rw [tokensOf_cons, firstGroup_literal hk, Group.token_singleton, ← ih]
    rfl
  | case3 f fs hk hn ih =>
    rw [tokensOf_cons, firstGroup_number hk hn, Group.token_singleton, ← ih]
    rfl
  | case4 f fs hk hn k n hm words ih =>
    have hplain : isPlain v f = true := by simp [isPlain, hk, hn]
    have hlast : words.getLastD f = (fs.take n).getLastD f := by
      cases h : fs.take n <;> simp [words, h]
    have hdrop : fs.drop (fs.take n).length = fs.drop n := by simp
    rw [tokensOf_cons, firstGroup_plain hplain, hm]
    dsimp only
    rw [hdrop, ih, hlast]
    rfl
  | case5 f fs hk hn hm ih =>
    have hplain : isPlain v f = true := by simp [isPlain, hk, hn]
    rw [tokensOf_cons, firstGroup_plain hplain, hm, ← ih]
    dsimp only
    rw [Group.token_singleton]
    rfl

end SqlLex
