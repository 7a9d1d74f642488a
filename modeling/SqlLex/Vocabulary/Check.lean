import SqlLex.Vocabulary.Basic

namespace SqlLex

/-!
# Checking tables

Tables are checked before they become a vocabulary, and the first defect is reported: the
containers in order, then the spellings in order.

* `VocabularyError` — what can be wrong with tables; `VocabularyError.message` — its wording.
* `tableFault?` — the first defect of the tables.
* `Vocabulary.ofTables` — the vocabulary of the tables, or their first defect.
* `tableFault?_eq_none_iff` — there is no defect iff the tables are `Consistent`.
-/

/-- A defect of the tables. -/
inductive VocabularyError where
  /-- A spelling is listed under two kinds. -/
  | ambiguousKeyword (spelling : String) (first second : TokenKind)
  /-- Two containers are opened by the same character. -/
  | duplicateContainer (opener : Char)
  /-- A spelling is not in the form that is looked up. -/
  | nonCanonicalSpelling (kind : TokenKind) (spelling : String)
deriving DecidableEq, Repr

/-- The wording of a defect. -/
def VocabularyError.message : VocabularyError → String
  | .ambiguousKeyword spelling first second =>
    "Keyword '" ++ spelling ++ "' is listed for both " ++ first.name ++ " and " ++ second.name
  | .duplicateContainer opener =>
    "Character \x60" ++ opener.toString ++ "\x60 opens more than one container"
  | .nonCanonicalSpelling kind spelling =>
    "Spelling '" ++ spelling ++ "' for " ++ kind.name ++
      " is not in canonical lowercase, single-spaced form"

/-- The first opener that occurs among the ones `seen` or opened an earlier container. -/
def repeatedOpener? (seen : List Char) : List Container → Option Char
  | [] => none
  | k :: ks => if k.opener ∈ seen then some k.opener else repeatedOpener? (k.opener :: seen) ks

/-- What is wrong with a spelling that follows the `recorded` ones. -/
def entryFault? (recorded : List Entry) (e : Entry) : Option VocabularyError :=
  if IsCanonical e.spelling then
    match recorded.find? (·.spelling == e.spelling) with
    | none => none
    | some r =>
      if r.kind = e.kind then none else some (.ambiguousKeyword e.spelling r.kind e.kind)
  else some (.nonCanonicalSpelling e.kind e.spelling)

/-- The first defect among spellings that follow the `recorded` ones. -/
def firstFault? (recorded : List Entry) : List Entry → Option VocabularyError
  | [] => none
  | e :: es => (entryFault? recorded e).or (firstFault? (e :: recorded) es)

/-- The first defect of the tables; a repeated opener comes before every defect of a spelling. -/
def tableFault? (containers : List Container) (entries : List Entry) : Option VocabularyError :=
  ((repeatedOpener? [] containers).map .duplicateContainer).or (firstFault? [] entries)

/-! ### Faultless tables are consistent -/

theorem repeatedOpener?_eq_none_iff {seen : List Char} {ks : List Container} :
    repeatedOpener? seen ks = none ↔
      (ks.map (·.opener)).Nodup ∧ ∀ k ∈ ks, k.opener ∉ seen := by
  induction ks generalizing seen with
  | nil => simp [repeatedOpener?]
  | cons k ks ih =>
    by_cases h : k.opener ∈ seen
    · simp [repeatedOpener?, h]
    · simp only [repeatedOpener?, if_neg h, ih, List.map_cons, List.nodup_cons, List.mem_map,
        List.mem_cons, not_or, not_exists, not_and]
      constructor
      · rintro ⟨hnd, hks⟩
        refine ⟨⟨fun l hl => (hks l hl).1, hnd⟩, ?_⟩
        rintro l (rfl | hl)
        · exact h
        · exact (hks l hl).2
      · rintro ⟨⟨hk, hnd⟩, hks⟩
        exact ⟨hnd, fun l hl => ⟨hk l hl, hks l (.inr hl)⟩⟩

theorem entryFault?_eq_none_iff {recorded : List Entry} (hr : Unambiguous recorded) {e : Entry} :
    entryFault? recorded e = none ↔
      IsCanonical e.spelling ∧ ∀ r ∈ recorded, r.spelling = e.spelling → r.kind = e.kind := by
  by_cases hc : IsCanonical e.spelling
  · cases hf : recorded.find? (·.spelling == e.spelling) with
    | none =>
      have hn : ∀ r ∈ recorded, r.spelling ≠ e.spelling := by simpa using hf
      simp only [entryFault?, hc, if_true, hf, true_and]
      exact ⟨fun _ r hm hs => absurd hs (hn r hm), fun _ => trivial⟩
    | some s =>
      have hm := List.mem_of_find?_eq_some hf
      have hs : s.spelling = e.spelling := by simpa using List.find?_some hf
      by_cases hk : s.kind = e.kind
      · simp only [entryFault?, hc, if_true, hf, hk, true_and]
        exact ⟨fun _ r hr' hrs => (hr r hr' s hm (hrs.trans hs.symm)).trans hk, fun _ => trivial⟩
      · simp only [entryFault?, hc, if_true, hf, hk, if_false, true_and]
        exact ⟨fun h => (Option.some_ne_none _ h).elim, fun h => absurd (h s hm hs) hk⟩
  · simp [entryFault?, hc]

theorem unambiguous_cons_iff {e : Entry} {es : List Entry} :
    Unambiguous (e :: es) ↔
      Unambiguous es ∧ ∀ r ∈ es, r.spelling = e.spelling → r.kind = e.kind := by
  constructor
  · intro h
    exact ⟨fun a ha b hb => h a (.tail _ ha) b (.tail _ hb),
      fun r hr hs => h r (.tail _ hr) e (.head _) hs⟩
  · rintro ⟨h, he⟩ a ha b hb hs
    rcases List.mem_cons.1 ha with hae | ha <;> rcases List.mem_cons.1 hb with hbe | hb
    · rw [hae, hbe]
    · rw [hae] at hs ⊢
      exact (he b hb hs.symm).symm
    · rw [hbe] at hs ⊢
      exact he a ha hs
    · exact h a ha b hb hs

theorem firstFault?_eq_none_iff {recorded es : List Entry} (hr : Unambiguous recorded) :
    firstFault? recorded es = none ↔
      (∀ e ∈ es, IsCanonical e.spelling) ∧ Unambiguous (es.reverse ++ recorded) := by
  induction es generalizing recorded with
  | nil => simp [firstFault?, hr]
  | cons e es ih =>
    rw [firstFault?, Option.or_eq_none_iff, entryFault?_eq_none_iff hr]
    constructor
    · rintro ⟨⟨hc, hk⟩, hf⟩
      have := (ih (unambiguous_cons_iff.2 ⟨hr, hk⟩)).1 hf
      exact ⟨List.forall_mem_cons.2 ⟨hc, this.1⟩, by simpa using this.2⟩
    · rintro ⟨hc, hu⟩
      have hu' : Unambiguous (es.reverse ++ e :: recorded) := by simpa using hu
      have he : Unambiguous (e :: recorded) := fun a ha b hb =>
        hu' a (List.mem_append_right _ ha) b (List.mem_append_right _ hb)
      have hc' := List.forall_mem_cons.1 hc
      exact ⟨⟨hc'.1, (unambiguous_cons_iff.1 he).2⟩, (ih he).2 ⟨hc'.2, hu'⟩⟩

/-- There is no defect iff the tables are consistent. -/
theorem tableFault?_eq_none_iff {containers : List Container} {entries : List Entry} :
    tableFault? containers entries = none ↔ Consistent containers entries := by
  have hnil : Unambiguous [] := fun _ h => absurd h List.not_mem_nil
  have hrev : Unambiguous entries.reverse ↔ Unambiguous entries := by simp [Unambiguous]
  rw [tableFault?, Option.or_eq_none_iff, Option.map_eq_none_iff, repeatedOpener?_eq_none_iff,
    firstFault?_eq_none_iff hnil, List.append_nil, hrev]
  exact ⟨fun ⟨h, hc, hu⟩ => ⟨h.1, hc, hu⟩,
    fun ⟨h, hc, hu⟩ => ⟨⟨h, fun _ _ => List.not_mem_nil⟩, hc, hu⟩⟩

/-! ### The vocabulary of tables -/

/-- The vocabulary of the tables, or their first defect. -/
def Vocabulary.ofTables (containers : List Container) (rows : List KeywordRow) :
    Except VocabularyError Vocabulary :=
  match h : tableFault? containers (entriesOf rows) with
  | some e => .error e
  | none => .ok ⟨containers, entriesOf rows, tableFault?_eq_none_iff.1 h⟩

theorem Vocabulary.ofTables_of_fault {containers : List Container} {rows : List KeywordRow}
    {e : VocabularyError} (h : tableFault? containers (entriesOf rows) = some e) :
    Vocabulary.ofTables containers rows = .error e := by
  unfold Vocabulary.ofTables
  split <;> simp_all

/-- Consistent tables are accepted as they are. -/
theorem Vocabulary.ofTables_of_consistent {containers : List Container} {rows : List KeywordRow}
    (h : Consistent containers (entriesOf rows)) :
    Vocabulary.ofTables containers rows = .ok ⟨containers, entriesOf rows, h⟩ := by
  have hn := tableFault?_eq_none_iff.2 h
  unfold Vocabulary.ofTables
  split <;> simp_all

end SqlLex
