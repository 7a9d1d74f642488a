import Mathlib.Data.List.Infix
import SqlLex.Proofs.Blanks
import SqlLex.Proofs.LongestPhrase
import SqlLex.Proofs.Lossless

namespace SqlLex

open Text

/-!
# Larger vocabularies

A vocabulary is asked two things of a query: what its characters open, and which of its phrases are
keywords.  Two vocabularies that give the same answers read the query alike, so a further container
or spelling changes nothing in a query that makes no use of it.

* `readChar_congr`, `Scanner.read_congr`, `splitting_congr` — the openers settle the fragments.
* `Phrased` — fragments that are looked up together; `SpokenAlike` — two vocabularies agree on
  these.
* `groups_congr` — what is looked up settles the groups.
* `Vocabulary.Extends` — a vocabulary with one container more, one spelling more, or both.
* `Unspoken` — no fragments make up a spelling.
* `tokenize_eq_of_extends` — what is not used changes nothing.
-/

variable {v v' : Vocabulary}

/-! ### Openers settle the fragments -/

/-- The vocabulary has a say in what a character does only by what that opens. -/
theorem readChar_congr {c : Char} (h : v.containerOpenedBy? c = v'.containerOpenedBy? c)
    (pending : Option Piece) (escaped : Bool) (position : Nat) :
    readChar v pending escaped position c = readChar v' pending escaped position c := by
  unfold readChar readOutside
  rw [h]

namespace Scanner

theorem scan_congr {cs : List Char}
    (h : ∀ c ∈ cs, v.containerOpenedBy? c = v'.containerOpenedBy? c) (s : Scanner) :
    s.scan v cs = s.scan v' cs := by
  induction cs generalizing s with
  | nil => rfl
  | cons c cs ih =>
    obtain ⟨hc, hcs⟩ := List.forall_mem_cons.1 h
    have hstep : s.step v c = s.step v' c := by
      rw [step, readChar_congr hc]
      rfl
    rw [scan_cons, scan_cons, hstep]
    congr 1
    funext t
    exact ih hcs t

theorem read_congr {cs : List Char}
    (h : ∀ c ∈ cs, v.containerOpenedBy? c = v'.containerOpenedBy? c) (s : Scanner) :
    s.read v cs = s.read v' cs := by
  rw [read, scan_congr h, read]

end Scanner

theorem mem_of_mem_bodyOf {cs : List Char} {c : Char} (h : c ∈ bodyOf cs) : c ∈ cs := by
  obtain ⟨t, -, hcs⟩ := exists_body_append cs
  rw [hcs]
  exact List.mem_append_left _ (List.mem_append_right _ h)

/-- Vocabularies in which the characters of a query open the same cut it into the same fragments. -/
theorem splitting_congr {sql : String}
    (h : ∀ c ∈ sql.toList, v.containerOpenedBy? c = v'.containerOpenedBy? c) :
    splitting v sql = splitting v' sql :=
  Scanner.read_congr (fun c hc => h c (mem_of_mem_bodyOf hc)) _

/-- The characters of a fragment are found in the text in which it stands. -/
theorem LaidOut.mem_of_mem_text {n : Nat} {cs : List Char} {fs : List Fragment}
    (h : LaidOut n cs fs) {f : Fragment} (hf : f ∈ fs) {c : Char} (hc : c ∈ f.text.toList) :
    c ∈ cs := by
  induction h with
  | nil => cases hf
  | blank _ _ ih => exact List.mem_cons_of_mem _ (ih hf)
  | fragment _ _ ih =>
    rcases List.mem_cons.1 hf with rfl | hf
    · rw [Fragment.ofList, String.toList_ofList] at hc
      exact List.mem_append_left _ hc
    · exact List.mem_append_right _ (ih hf)

/-! ### Phrases settle the groups -/

/-- The fragments `w` stand together among `fs` and may be parts of a keyword, so they are looked up
    together. -/
structure Phrased (v : Vocabulary) (fs w : List Fragment) : Prop where
  ne_nil : w ≠ []
  infix_of : w <:+: fs
  plain : ∀ f ∈ w, isPlain v f = true

theorem Phrased.of_suffix {fs gs w : List Fragment} (h : Phrased v gs w) (hgs : gs <:+ fs) :
    Phrased v fs w :=
  ⟨h.ne_nil, h.infix_of.trans hgs.isInfix, h.plain⟩

/-- In both vocabularies the fragments are the same literals, and their phrases the same
    keywords. -/
structure SpokenAlike (v v' : Vocabulary) (fs : List Fragment) : Prop where
  literalKind?_eq : ∀ f ∈ fs, literalKind? v f = literalKind? v' f
  keyword?_eq : ∀ w, Phrased v fs w → v.keyword? (phrase w) = v'.keyword? (phrase w)

theorem SpokenAlike.of_suffix {fs gs : List Fragment} (h : SpokenAlike v v' fs)
    (hgs : gs <:+ fs) : SpokenAlike v v' gs where
  literalKind?_eq f hf := h.literalKind?_eq f (hgs.subset hf)
  keyword?_eq w hw := h.keyword?_eq w (hw.of_suffix hgs)

theorem SpokenAlike.isPlain_eq {fs : List Fragment} (h : SpokenAlike v v' fs) {f : Fragment}
    (hf : f ∈ fs) : isPlain v f = isPlain v' f := by
  rw [isPlain, isPlain, h.literalKind?_eq f hf]

theorem plainRun_congr {fs : List Fragment} (h : ∀ f ∈ fs, isPlain v f = isPlain v' f) :
    plainRun v fs = plainRun v' fs := by
  induction fs with
  | nil => rfl
  | cons f fs ih =>
    obtain ⟨hf, hfs⟩ := List.forall_mem_cons.1 h
    have hrest : fs.takeWhile (isPlain v) = fs.takeWhile (isPlain v') := ih hfs
    rw [plainRun, plainRun, List.takeWhile_cons, List.takeWhile_cons, hf, hrest]

theorem longestKeyword?_congr {fs : List Fragment} {n : Nat}
    (h : ∀ i < n, v.keyword? (phrase (fs.take (i + 1))) =
      v'.keyword? (phrase (fs.take (i + 1)))) :
    longestKeyword? v fs n = longestKeyword? v' fs n := by
  induction n with
  | zero => rfl
  | succ n ih =>
    rw [longestKeyword?, longestKeyword?, h n (Nat.lt_succ_self n),
      ih fun i hi => h i (Nat.lt_succ_of_lt hi)]

/-- The first fragments of a plain run are looked up together. -/
theorem phrased_take_plainRun {fs : List Fragment} {n : Nat} (h : n < (plainRun v fs).length) :
    Phrased v fs ((plainRun v fs).take (n + 1)) where
  ne_nil := by
    intro hnil
    have := congrArg List.length hnil
    rw [List.length_take, List.length_nil] at this
    omega
  infix_of := ((List.take_prefix _ _).trans (List.takeWhile_prefix _)).isInfix
  plain f hf := List.mem_takeWhile_imp (List.mem_of_mem_take hf)

theorem SpokenAlike.firstGroup_eq {f : Fragment} {fs : List Fragment}
    (h : SpokenAlike v v' (f :: fs)) : firstGroup v f fs = firstGroup v' f fs := by
  have hliteral := h.literalKind?_eq f List.mem_cons_self
  cases hk : literalKind? v f with
  | some k => rw [firstGroup_literal hk, firstGroup_literal (hliteral ▸ hk)]
  | none =>
    cases hn : f.isNumeric with
    | true => rw [firstGroup_number hk hn, firstGroup_number (hliteral ▸ hk) hn]
    | false =>
      have hplain : isPlain v f = true := by simp [isPlain, hk, hn]
      have hplain' : isPlain v' f = true := h.isPlain_eq List.mem_cons_self ▸ hplain
      -- The plain fragments at the front are the same, and so are the keywords among them.
      have hrun := plainRun_congr fun g hg => h.isPlain_eq hg
      rw [firstGroup_plain hplain, firstGroup_plain hplain', ← hrun,
        longestPhrase?_eq_longestKeyword?, longestPhrase?_eq_longestKeyword?,
        longestKeyword?_congr fun i hi => h.keyword?_eq _ (phrased_take_plainRun hi)]

/-- **What is looked up settles the groups.**  The number of words of the longest spelling has no
    part in it. -/
theorem groups_congr {fs : List Fragment} (h : SpokenAlike v v' fs) :
    groups v fs = groups v' fs := by
  fun_induction groups v fs with
  | case1 => rw [groups_nil]
  | case2 f fs ih =>
    have hrest : fs.drop (firstGroup v f fs).tail.length <:+ f :: fs :=
      (List.drop_suffix _ _).trans (List.suffix_cons f fs)
    rw [groups_cons, ← h.firstGroup_eq, ih (h.of_suffix hrest)]

/-! ### Vocabularies with more in them -/

/-- The vocabulary `v'` has the containers and spellings of `v`, and those that are given. -/
structure Vocabulary.Extends (v' v : Vocabulary) (container? : Option Container)
    (spelled? : Option Entry) : Prop where
  containers_perm : v'.containers.Perm (container?.toList ++ v.containers)
  entries_perm : v'.entries.Perm (spelled?.toList ++ v.entries)

/-- No fragments that are looked up together make up the spelling. -/
def Unspoken (v : Vocabulary) (fs : List Fragment) (spelling : String) : Prop :=
  ∀ w, Phrased v fs w → phrase w ≠ spelling

instance (v : Vocabulary) (fs : List Fragment) (spelling : String) :
    Decidable (Unspoken v fs spelling) :=
  decidable_of_iff
    (∀ w ∈ fs.tails.flatMap List.inits, w ≠ [] → (∀ f ∈ w, isPlain v f = true) →
      phrase w ≠ spelling) <| by
    have hpart : ∀ w, w ∈ fs.tails.flatMap List.inits ↔ w <:+: fs := by
      intro w
      simp only [List.mem_flatMap, List.mem_tails, List.mem_inits, List.infix_iff_prefix_suffix,
        and_comm]
    simp only [hpart]
    exact ⟨fun h w hw => h w hw.infix_of hw.ne_nil hw.plain,
      fun h w hw hne hplain => h w ⟨hne, hw, hplain⟩⟩

namespace Vocabulary.Extends

variable {container? : Option Container} {spelled? : Option Entry}

theorem containerOpenedBy?_eq (h : v'.Extends v container? spelled?) {c : Char}
    (hc : ∀ k ∈ container?, k.opener ≠ c) : v'.containerOpenedBy? c = v.containerOpenedBy? c := by
  apply Option.ext
  intro k
  rw [containerOpenedBy?_eq_some_iff, containerOpenedBy?_eq_some_iff, h.containers_perm.mem_iff,
    List.mem_append, Option.mem_toList]
  constructor
  · rintro ⟨hk | hk, hopen⟩
    · exact absurd hopen (hc k hk)
    · exact ⟨hk, hopen⟩
  · rintro ⟨hk, hopen⟩
    exact ⟨.inr hk, hopen⟩

theorem keyword?_eq (h : v'.Extends v container? spelled?) {s : String}
    (hs : ∀ e ∈ spelled?, s ≠ e.spelling) : v'.keyword? s = v.keyword? s := by
  apply Option.ext
  intro k
  rw [keyword?_eq_some_iff, keyword?_eq_some_iff, h.entries_perm.mem_iff, List.mem_append,
    Option.mem_toList]
  constructor
  · rintro (hk | hk)
    · exact absurd rfl (hs _ hk)
    · exact hk
  · exact .inr

theorem spokenAlike (h : v'.Extends v container? spelled?) {fs : List Fragment}
    (hopeners : ∀ f ∈ fs, ∀ k ∈ container?, f.text.toList.head? ≠ some k.opener)
    (hspellings : ∀ e ∈ spelled?, Unspoken v fs e.spelling) : SpokenAlike v v' fs where
  literalKind?_eq f hf := by
    have hf := hopeners f hf
    unfold literalKind?
    cases hc : f.text.toList.head? with
    | none => rfl
    | some c =>
      have hne : ∀ k ∈ container?, k.opener ≠ c := by
        rintro k hk rfl
        exact hf k hk hc
      simp only [Option.bind_some, h.containerOpenedBy?_eq hne]
  keyword?_eq w hw := (h.keyword?_eq fun e he => hspellings e he w hw).symm

theorem tokensOf_eq (h : v'.Extends v container? spelled?) {fs : List Fragment}
    (hopeners : ∀ f ∈ fs, ∀ k ∈ container?, f.text.toList.head? ≠ some k.opener)
    (hspellings : ∀ e ∈ spelled?, Unspoken v fs e.spelling) : tokensOf v' fs = tokensOf v fs := by
  rw [tokensOf, tokensOf, groups_congr (h.spokenAlike hopeners hspellings)]

theorem split_eq (h : v'.Extends v container? spelled?) {sql : String}
    (hopeners : ∀ k ∈ container?, k.opener ∉ sql.toList) : split v' sql = split v sql := by
  rw [split, split]
  rw [splitting_congr fun c hc => h.containerOpenedBy?_eq fun k hk hopen =>
    hopeners k hk (hopen ▸ hc)]

theorem tokenize_eq (h : v'.Extends v container? spelled?) {sql : String}
    (hopeners : ∀ k ∈ container?, k.opener ∉ sql.toList)
    (hspellings : ∀ fs, split v sql = .ok fs → ∀ e ∈ spelled?, Unspoken v fs e.spelling) :
    tokenize v' sql = tokenize v sql := by
  have hsplit := h.split_eq hopeners
  cases hfs : split v sql with
  | error e => rw [tokenize_of_error hfs, tokenize_of_error (hsplit.trans hfs)]
  | ok fs =>
    obtain ⟨cs, t, hsql, hlaid, -⟩ := exists_laidOut_of_split hfs
    -- A fragment starts with a character of the query.
    have hfirst : ∀ f ∈ fs, ∀ k ∈ container?, f.text.toList.head? ≠ some k.opener := by
      intro f hf k hk hhead
      apply hopeners k hk
      rw [hsql]
      exact List.mem_append_left _ (hlaid.mem_of_mem_text hf (List.mem_of_mem_head? hhead))
    rw [tokenize_of_split hfs, tokenize_of_split (hsplit.trans hfs),
      h.tokensOf_eq hfirst (hspellings fs hfs)]

end Vocabulary.Extends

/-- **What is not used changes nothing.**  A further container, a further spelling or both leave the
    fragments and tokens of a query as they are, or its error, if the opener does not stand in it
    and no fragments make up the spelling.  The tokens of any other fragments stay as they are if
    none of these starts with the opener and none make up the spelling. -/
theorem tokenize_eq_of_extends {container? : Option Container} {spelled? : Option Entry}
    (h : v'.Extends v container? spelled?) :
    (∀ sql : String, (∀ k ∈ container?, k.opener ∉ sql.toList) →
      (∀ fs, split v sql = .ok fs → ∀ e ∈ spelled?, Unspoken v fs e.spelling) →
      split v' sql = split v sql ∧ tokenize v' sql = tokenize v sql) ∧
    ∀ fs : List Fragment,
      (∀ f ∈ fs, ∀ k ∈ container?, f.text.toList.head? ≠ some k.opener) →
      (∀ e ∈ spelled?, Unspoken v fs e.spelling) → tokensOf v' fs = tokensOf v fs := by
  refine ⟨?_, fun fs hopeners hspellings => h.tokensOf_eq hopeners hspellings⟩
  intro sql hopeners hspellings
  exact ⟨h.split_eq hopeners, h.tokenize_eq hopeners hspellings⟩

/-- A container with new delimiters, and a spelling of more words than any other, of which a query
    has all but one; then fragments that hold the opener behind their first character. -/
theorem tokenize_eq_of_extends_standard :
    ∃ v' : Vocabulary,
      v'.Extends .standard (some ⟨'«', '»', .stringValue⟩)
        (some ⟨"is not distinct from", .notEquals⟩) ∧
      Vocabulary.standard.maxWords = 3 ∧ v'.maxWords = 4 ∧
      (split v' "a IS\nNOT distinct 'x' from b;" =
          split .standard "a IS\nNOT distinct 'x' from b;" ∧
        tokenize v' "a IS\nNOT distinct 'x' from b;" =
          tokenize .standard "a IS\nNOT distinct 'x' from b;") ∧
      tokensOf v' [⟨"is not", ⟨9, 3⟩⟩, ⟨"null", ⟨0, 0⟩⟩, ⟨"x«", ⟨1, 4⟩⟩] =
        tokensOf .standard [⟨"is not", ⟨9, 3⟩⟩, ⟨"null", ⟨0, 0⟩⟩, ⟨"x«", ⟨1, 4⟩⟩] := by
  have hconsistent : Consistent (⟨'«', '»', .stringValue⟩ :: standardContainers)
      (⟨"is not distinct from", .notEquals⟩ :: entriesOf standardKeywords) := by
    refine ⟨by decide, by decide +kernel, ?_⟩
    unfold Unambiguous
    decide +kernel
  have hextends : Vocabulary.Extends ⟨_, _, hconsistent⟩ .standard
      (some ⟨'«', '»', .stringValue⟩) (some ⟨"is not distinct from", .notEquals⟩) :=
    ⟨.refl _, .refl _⟩
  obtain ⟨hsql, hfragments⟩ := tokenize_eq_of_extends hextends
  refine ⟨_, hextends, by decide +kernel, ?_, hsql _ ?_ ?_, hfragments _ ?_ ?_⟩
  · show (⟨"is not distinct from", .notEquals⟩ :: entriesOf standardKeywords).foldl
      (fun n e => max n (wordCount e.spelling)) 0 = 4
    decide +kernel
  · rintro k ⟨⟩
    decide
  · have hsplit : split .standard "a IS\nNOT distinct 'x' from b;" =
        .ok [⟨"a", ⟨0, 1⟩⟩, ⟨"IS", ⟨2, 4⟩⟩, ⟨"NOT", ⟨5, 8⟩⟩, ⟨"distinct", ⟨9, 17⟩⟩,
          ⟨"'x'", ⟨18, 21⟩⟩, ⟨"from", ⟨22, 26⟩⟩, ⟨"b", ⟨27, 28⟩⟩] := by
      decide +kernel
    rintro fs hfs e ⟨⟩
    rw [hsplit] at hfs
    cases hfs
    decide +kernel
  · rintro f hf k ⟨⟩
    revert f
    decide
  · rintro e ⟨⟩
    decide +kernel

end SqlLex
