import SqlLex.Token.Kind
import SqlLex.Vocabulary.Spelling

namespace SqlLex

/-!
# Vocabularies

A vocabulary says which characters enclose literals and which words are keywords.

* `Container` — a pair of delimiters and the kind of literal between them.
* `Entry` — a keyword spelling with its kind; `KeywordRow` — a kind with all its spellings.
* `Consistent` — the tables leave no choice: a character opens one container at most, spellings
  are canonical, and a spelling has one kind.
* `Vocabulary` — consistent tables.
* `Vocabulary.containerOpenedBy?`, `Vocabulary.keyword?`, `Vocabulary.maxWords` — the questions
  asked of it.
* `containerOpenedBy?_eq_some_iff`, `keyword?_eq_some_iff` — the answers are exactly the rows of
  the tables, whatever their order.
-/

/-- A pair of delimiters that encloses a literal. -/
structure Container where
  opener : Char
  closer : Char
  kind : TokenKind
deriving DecidableEq, Repr

/-- The same character opens and closes the container. -/
def Container.isSymmetric (k : Container) : Bool := k.opener == k.closer

/-- A kind of keyword with the spellings it is listed under. -/
structure KeywordRow where
  kind : TokenKind
  spellings : List String
deriving DecidableEq, Repr

/-- One spelling of a keyword. -/
structure Entry where
  spelling : String
  kind : TokenKind
deriving DecidableEq, Repr

/-- The spellings of a keyword table, in the order in which they are listed. -/
def entriesOf (rows : List KeywordRow) : List Entry :=
  rows.flatMap fun r => r.spellings.map (⟨·, r.kind⟩)

/-- No spelling is listed under two kinds. -/
def Unambiguous (entries : List Entry) : Prop :=
  ∀ e ∈ entries, ∀ f ∈ entries, e.spelling = f.spelling → e.kind = f.kind

/-- The tables leave no choice. -/
structure Consistent (containers : List Container) (entries : List Entry) : Prop where
  openers_nodup : (containers.map (·.opener)).Nodup
  canonical : ∀ e ∈ entries, IsCanonical e.spelling
  unambiguous : Unambiguous entries

/-- Tables of containers and keywords that can be relied on. -/
structure Vocabulary where
  containers : List Container
  entries : List Entry
  consistent : Consistent containers entries

namespace Vocabulary

/-- The container that a character opens. -/
def containerOpenedBy? (v : Vocabulary) (c : Char) : Option Container :=
  v.containers.find? (·.opener == c)

/-- The kind of the keyword with exactly this spelling. -/
def keyword? (v : Vocabulary) (spelling : String) : Option TokenKind :=
  (v.entries.find? (·.spelling == spelling)).map (·.kind)

/-- The number of words of the longest spelling, zero if there is none. -/
def maxWords (v : Vocabulary) : Nat := v.entries.foldl (fun n e => max n (wordCount e.spelling)) 0

/-- The spellings in alphabetical order, each once. -/
def listing (v : Vocabulary) : List Entry :=
  (v.entries.mergeSort fun e f => e.spelling ≤ f.spelling).eraseDups

/-! ### Laws -/

/-- The container opened by a character is the listed one. -/
theorem containerOpenedBy?_eq_some_iff {v : Vocabulary} {c : Char} {k : Container} :
    v.containerOpenedBy? c = some k ↔ k ∈ v.containers ∧ k.opener = c := by
  have hnd := v.consistent.openers_nodup
  unfold containerOpenedBy?
  generalize v.containers = ks at hnd
  induction ks with
  | nil => simp
  | cons k' ks ih =>
    simp only [List.map_cons, List.nodup_cons, List.mem_map, not_exists, not_and] at hnd
    by_cases h : k'.opener = c
    · simp only [List.find?_cons, h, beq_self_eq_true, Option.some.injEq, List.mem_cons]
      constructor
      · rintro rfl
        exact ⟨.inl rfl, h⟩
      · rintro ⟨rfl | hk, ho⟩
        · rfl
        · exact absurd (ho.trans h.symm) (hnd.1 k hk)
    · have hb : (k'.opener == c) = false := by simpa using h
      simp only [List.find?_cons, hb, ih hnd.2, List.mem_cons]
      constructor
      · exact fun ⟨hk, ho⟩ => ⟨.inr hk, ho⟩
      · rintro ⟨rfl | hk, ho⟩
        · exact absurd ho h
        · exact ⟨hk, ho⟩

/-- A character opens nothing iff no container is listed with it as its opener. -/
theorem containerOpenedBy?_eq_none_iff {v : Vocabulary} {c : Char} :
    v.containerOpenedBy? c = none ↔ ∀ k ∈ v.containers, k.opener ≠ c := by
  simp [containerOpenedBy?]

/-- The kind of a spelling is the one it is listed under. -/
theorem keyword?_eq_some_iff {v : Vocabulary} {s : String} {k : TokenKind} :
    v.keyword? s = some k ↔ ⟨s, k⟩ ∈ v.entries := by
  constructor
  · intro h
    obtain ⟨e, he, rfl⟩ := Option.map_eq_some_iff.1 h
    have hs : e.spelling = s := by simpa using List.find?_some he
    exact hs ▸ List.mem_of_find?_eq_some he
  · intro h
    cases hf : v.entries.find? (·.spelling == s) with
    | none =>
      exact absurd (List.find?_eq_none.1 hf _ h) (by simp)
    | some e =>
      have hs : e.spelling = s := by simpa using List.find?_some hf
      have hk := v.consistent.unambiguous e (List.mem_of_find?_eq_some hf) _ h hs
      simp [keyword?, hf, hk]

/-- No spelling is longer than `maxWords` words. -/
theorem wordCount_le_maxWords {v : Vocabulary} {e : Entry} (h : e ∈ v.entries) :
    wordCount e.spelling ≤ v.maxWords := by
  have grows : ∀ (es : List Entry) (n : Nat),
      n ≤ es.foldl (fun n e => max n (wordCount e.spelling)) n ∧
        ∀ e ∈ es, wordCount e.spelling ≤ es.foldl (fun n e => max n (wordCount e.spelling)) n := by
    intro es
    induction es with
    | nil => simp
    | cons f es ih =>
      intro n
      have := ih (max n (wordCount f.spelling))
      refine ⟨Nat.le_trans (Nat.le_max_left ..) this.1, ?_⟩
      rintro e (_ | ⟨_, he⟩)
      · exact Nat.le_trans (Nat.le_max_right ..) this.1
      · exact this.2 e he
  exact (grows v.entries 0).2 e h

end Vocabulary

end SqlLex
