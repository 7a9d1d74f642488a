import Mathlib.Data.List.Basic
import Mathlib.Data.List.Induction
import Mathlib.Data.List.Pairwise
import SqlLex.Vocabulary.Check

namespace SqlLex

/-!
# The first defect of tables

Tables that are no vocabulary may have many defects.  One of them is reported: a repeated opener if
there is one, and else a defect of a spelling, each the first of its sort in the order of the table.

* `IsFirst` — the first element of a list that has a property with regard to those before it;
  `exists_isFirst` — there is one if any element has it.
* `RepeatsOpener`, `Offends` — what is wrong with a container, and with a spelling.
* `FirstDefect` — the defect that tables are rejected for, said of the tables alone.
* `repeatedOpener?_eq_some`, `firstFault?_eq_some` — the check finds what is first.
* `ofTables_eq_error_iff` — the check reports the first defect.
-/

variable {ks : List Container} {es : List Entry} {rows : List KeywordRow}

/-! ### What comes first -/

section First

variable {α : Type} {P : List α → α → Prop} {xs before : List α} {x : α}

/-- The element `x` has the property with regard to those `before` it, and none of these has it with
    regard to those before itself. -/
structure IsFirst (P : List α → α → Prop) (xs before : List α) (x : α) : Prop where
  eq_append : ∃ after, xs = before ++ x :: after
  holds : P before x
  earliest : ∀ u y w, before = u ++ y :: w → ¬P u y

theorem IsFirst.mem (h : IsFirst P xs before x) : x ∈ xs := by
  obtain ⟨after, rfl⟩ := h.eq_append
  exact List.mem_append_right _ List.mem_cons_self

/-- Of the elements that have the property, one comes first. -/
theorem exists_isFirst (h : ∃ u y w, xs = u ++ y :: w ∧ P u y) :
    ∃ before x, IsFirst P xs before x := by
  induction xs using List.reverseRecOn with
  | nil =>
    obtain ⟨u, y, w, hnil, -⟩ := h
    simp at hnil
  | append_singleton xs z ih =>
    by_cases hxs : ∃ u y w, xs = u ++ y :: w ∧ P u y
    · obtain ⟨before, x, hfirst⟩ := ih hxs
      obtain ⟨after, rfl⟩ := hfirst.eq_append
      exact ⟨before, x, ⟨after ++ [z], by simp⟩, hfirst.holds, hfirst.earliest⟩
    · -- No element before the last one has the property, so it is the last one that has it.
      obtain ⟨u, y, w, heq, hy⟩ := h
      rcases List.eq_nil_or_concat' w with rfl | ⟨w, z', rfl⟩
      · obtain ⟨rfl, hz⟩ := List.append_inj' heq rfl
        obtain rfl := List.singleton_inj.1 hz
        refine ⟨xs, z, ⟨[], rfl⟩, hy, ?_⟩
        intro u' y' w' hsplit hy'
        exact hxs ⟨u', y', w', hsplit, hy'⟩
      · have hshort : xs = u ++ y :: w := by
          rw [← List.cons_append, ← List.append_assoc] at heq
          exact (List.append_inj' heq rfl).1
        exact absurd ⟨u, y, w, hshort, hy⟩ hxs

/-- Elements are related pairwise iff each is related to all before it. -/
theorem pairwise_iff_forall_append {R : α → α → Prop} :
    xs.Pairwise R ↔ ∀ u y w, xs = u ++ y :: w → ∀ x ∈ u, R x y := by
  constructor
  · rintro h u y w rfl x hx
    exact (List.pairwise_append.1 h).2.2 x hx y List.mem_cons_self
  · intro h
    rw [List.pairwise_iff_forall_sublist]
    intro x y hxy
    obtain ⟨u, v, rfl, hx, hy⟩ := List.cons_sublist_iff.1 hxy
    obtain ⟨v₁, v₂, rfl⟩ := List.append_of_mem (List.singleton_sublist.1 hy)
    exact h (u ++ v₁) y v₂ (List.append_assoc ..).symm x (List.mem_append_left _ hx)

end First

/-! ### Defects -/

/-- The opener of the container opens one before it. -/
def RepeatsOpener (before : List Container) (k : Container) : Prop :=
  ∃ l ∈ before, l.opener = k.opener

/-- The spelling is not canonical, or it is listed before under another kind. -/
def Offends (before : List Entry) (e : Entry) : Prop :=
  ¬IsCanonical e.spelling ∨ ∃ d ∈ before, d.spelling = e.spelling ∧ d.kind ≠ e.kind

/-- The defect for which tables are rejected. -/
inductive FirstDefect (ks : List Container) (es : List Entry) : VocabularyError → Prop where
  /-- The first container with the opener of an earlier one, whatever spellings are listed. -/
  | opener {before : List Container} {k : Container} :
    IsFirst RepeatsOpener ks before k → FirstDefect ks es (.duplicateContainer k.opener)
  /-- No opener is repeated, and the first spelling that offends is not canonical. -/
  | form {before : List Entry} {e : Entry} :
    (ks.map (·.opener)).Nodup → IsFirst Offends es before e → ¬IsCanonical e.spelling →
      FirstDefect ks es (.nonCanonicalSpelling e.kind e.spelling)
  /-- No opener is repeated, and the first spelling that offends is canonical: it is listed before
      under another kind, `first` is where it is listed for the first time, and it has the kind of
      that entry wherever it is listed in between. -/
  | kind {before earlier : List Entry} {e first : Entry} :
    (ks.map (·.opener)).Nodup → IsFirst Offends es before e → IsCanonical e.spelling →
      IsFirst (fun _ d => d.spelling = e.spelling) before earlier first → first.kind ≠ e.kind →
        (∀ d ∈ before, d.spelling = e.spelling → d.kind = first.kind) →
          FirstDefect ks es (.ambiguousKeyword e.spelling first.kind e.kind)

/-! ### Repeated openers -/

theorem repeatedOpener?_append (seen : List Char) (ks ls : List Container) :
    repeatedOpener? seen (ks ++ ls) =
      (repeatedOpener? seen ks).or (repeatedOpener? ((ks.map (·.opener)).reverse ++ seen) ls) := by
  induction ks generalizing seen with
  | nil => rfl
  | cons k ks ih =>
    rw [List.cons_append, repeatedOpener?, repeatedOpener?]
    split
    · rfl
    · rw [ih]
      simp

theorem nodup_openers_iff :
    (ks.map (·.opener)).Nodup ↔ ∀ u k w, ks = u ++ k :: w → ¬RepeatsOpener u k := by
  rw [List.Nodup, List.pairwise_map, pairwise_iff_forall_append]
  simp [RepeatsOpener]

/-- The check of the containers finds the first repeated opener. -/
theorem repeatedOpener?_eq_some {before : List Container} {k : Container}
    (h : IsFirst RepeatsOpener ks before k) : repeatedOpener? [] ks = some k.opener := by
  obtain ⟨after, rfl⟩ := h.eq_append
  have hbefore : repeatedOpener? [] before = none :=
    repeatedOpener?_eq_none_iff.2
      ⟨nodup_openers_iff.2 h.earliest, fun _ _ => List.not_mem_nil⟩
  have hseen : k.opener ∈ (before.map (·.opener)).reverse ++ [] := by
    obtain ⟨l, hl, hopener⟩ := h.holds
    simpa using ⟨l, hl, hopener⟩
  rw [repeatedOpener?_append, hbefore, Option.none_or, repeatedOpener?, if_pos hseen]

/-! ### Offending spellings -/

theorem firstFault?_append (recorded es fs : List Entry) :
    firstFault? recorded (es ++ fs) =
      (firstFault? recorded es).or (firstFault? (es.reverse ++ recorded) fs) := by
  induction es generalizing recorded with
  | nil => rfl
  | cons e es ih =>
    rw [List.cons_append, firstFault?, firstFault?, ih, Option.or_assoc]
    simp

/-- Where no spelling offends, all are canonical and have one kind each. -/
theorem forall_not_offends_iff :
    (∀ u e w, es = u ++ e :: w → ¬Offends u e) ↔
      (∀ e ∈ es, IsCanonical e.spelling) ∧ Unambiguous es := by
  have hunambiguous : Unambiguous es ↔
      es.Pairwise fun d e => d.spelling = e.spelling → d.kind = e.kind := by
    constructor
    · intro h
      exact List.pairwise_of_forall_mem_list fun d hd e he => h d hd e he
    · intro h d hd e he
      have : Std.Symm fun d e : Entry => d.spelling = e.spelling → d.kind = e.kind :=
        ⟨fun _ _ hkind hspelling => (hkind hspelling.symm).symm⟩
      exact h.forall_of_forall (fun _ _ _ => rfl) hd he
  rw [hunambiguous, pairwise_iff_forall_append]
  constructor
  · intro h
    constructor
    · intro e he
      obtain ⟨u, w, hes⟩ := List.append_of_mem he
      by_contra hform
      exact h u e w hes (.inl hform)
    · intro u e w hes d hd hspelling
      by_contra hkind
      exact h u e w hes (.inr ⟨d, hd, hspelling, hkind⟩)
  · rintro ⟨hform, hkind⟩ u e w hes (hoffends | ⟨d, hd, hspelling, hne⟩)
    · exact hoffends (hform e (by simp [hes]))
    · exact hne (hkind u e w hes d hd hspelling)

/-- The check of the spellings finds the fault of the first that offends. -/
theorem firstFault?_eq_some {before : List Entry} {e : Entry} (h : IsFirst Offends es before e)
    {err : VocabularyError} (hfault : entryFault? before.reverse e = some err) :
    firstFault? [] es = some err := by
  obtain ⟨after, rfl⟩ := h.eq_append
  have hnil : Unambiguous [] := fun _ h => absurd h List.not_mem_nil
  have hbefore : firstFault? [] before = none := by
    obtain ⟨hform, hkind⟩ := forall_not_offends_iff.1 h.earliest
    refine (firstFault?_eq_none_iff hnil).2 ⟨hform, ?_⟩
    simpa [Unambiguous] using hkind
  rw [firstFault?_append, hbefore, Option.none_or, firstFault?, List.append_nil, hfault,
    Option.some_or]

theorem entryFault?_of_not_canonical {recorded : List Entry} {e : Entry}
    (h : ¬IsCanonical e.spelling) :
    entryFault? recorded e = some (.nonCanonicalSpelling e.kind e.spelling) := by
  rw [entryFault?, if_neg h]

/-- The kind that is recorded last is that of every entry before, and so that of the first. -/
theorem entryFault?_of_canonical {before : List Entry} {e first : Entry}
    (hform : IsCanonical e.spelling) (hfirst : first ∈ before)
    (hspelling : first.spelling = e.spelling)
    (hkinds : ∀ d ∈ before, d.spelling = e.spelling → d.kind = first.kind)
    (hne : first.kind ≠ e.kind) :
    entryFault? before.reverse e = some (.ambiguousKeyword e.spelling first.kind e.kind) := by
  rw [entryFault?, if_pos hform]
  cases hfind : before.reverse.find? (·.spelling == e.spelling) with
  | none =>
    have := List.find?_eq_none.1 hfind first (List.mem_reverse.2 hfirst)
    simp [hspelling] at this
  | some r =>
    have hr : r ∈ before := List.mem_reverse.1 (List.mem_of_find?_eq_some hfind)
    have hrs : r.spelling = e.spelling := by simpa using List.find?_some hfind
    have hkind : r.kind = first.kind := hkinds r hr hrs
    simp only [hkind, if_neg hne]

/-! ### The report -/

/-- The check reports a defect that is the first. -/
theorem FirstDefect.tableFault?_eq {err : VocabularyError} (h : FirstDefect ks es err) :
    tableFault? ks es = some err := by
  have hopeners (hks : (ks.map (·.opener)).Nodup) : repeatedOpener? [] ks = none :=
    repeatedOpener?_eq_none_iff.2 ⟨hks, fun _ _ => List.not_mem_nil⟩
  cases h with
  | opener hfirst =>
    rw [tableFault?, repeatedOpener?_eq_some hfirst]
    rfl
  | form hks hfirst hform =>
    rw [tableFault?, hopeners hks, firstFault?_eq_some hfirst (entryFault?_of_not_canonical hform)]
    rfl
  | kind hks hfirst hform hearlier hne hkinds =>
    rw [tableFault?, hopeners hks, firstFault?_eq_some hfirst
      (entryFault?_of_canonical hform hearlier.mem hearlier.holds hkinds hne)]
    rfl

/-- Among the entries before the first that offends, the ones of its spelling have one kind. -/
theorem exists_firstDefect_of_isFirst {before : List Entry} {e : Entry}
    (hks : (ks.map (·.opener)).Nodup) (h : IsFirst Offends es before e) :
    ∃ err, FirstDefect ks es err := by
  by_cases hform : IsCanonical e.spelling
  · obtain ⟨d, hd, hspelling, hne⟩ := h.holds.resolve_left (not_not_intro hform)
    obtain ⟨u, w, hbefore⟩ := List.append_of_mem hd
    obtain ⟨earlier, first, hfirst⟩ := exists_isFirst (P := fun _ d => d.spelling = e.spelling)
      ⟨u, d, w, hbefore, hspelling⟩
    have hunambiguous : Unambiguous before := (forall_not_offends_iff.1 h.earliest).2
    have hkinds : ∀ r ∈ before, r.spelling = e.spelling → r.kind = first.kind :=
      fun r hr hrs => hunambiguous r hr first hfirst.mem (hrs.trans hfirst.holds.symm)
    refine ⟨_, .kind hks h hform hfirst ?_ hkinds⟩
    rw [← hkinds d hd hspelling]
    exact hne
  · exact ⟨_, .form hks h hform⟩

/-- Tables that leave a choice have a first defect. -/
theorem exists_firstDefect (h : ¬Consistent ks es) : ∃ err, FirstDefect ks es err := by
  by_cases hks : (ks.map (·.opener)).Nodup
  · have hoffends : ∃ u e w, es = u ++ e :: w ∧ Offends u e := by
      by_contra hnone
      have hnot : ∀ u e w, es = u ++ e :: w → ¬Offends u e :=
        fun u e w hes hoffends => hnone ⟨u, e, w, hes, hoffends⟩
      obtain ⟨hform, hkind⟩ := forall_not_offends_iff.1 hnot
      exact h ⟨hks, hform, hkind⟩
    obtain ⟨before, e, hfirst⟩ := exists_isFirst hoffends
    exact exists_firstDefect_of_isFirst hks hfirst
  · have hrepeats : ∃ u k w, ks = u ++ k :: w ∧ RepeatsOpener u k := by
      by_contra hnone
      exact hks (nodup_openers_iff.2 fun u k w hks' hrep => hnone ⟨u, k, w, hks', hrep⟩)
    obtain ⟨before, k, hfirst⟩ := exists_isFirst hrepeats
    exact ⟨_, .opener hfirst⟩

/-- **The first defect is reported.**  Tables are rejected with an error iff it names their first
    defect: the first repeated opener, whatever spellings are listed; and if no opener is repeated,
    the first spelling that is not canonical or is listed before under another kind, in the order of
    the rows, with the kinds of its first row and of the offending one. -/
theorem ofTables_eq_error_iff {err : VocabularyError} :
    Vocabulary.ofTables ks rows = .error err ↔ FirstDefect ks (entriesOf rows) err := by
  constructor
  · intro h
    have hinconsistent : ¬Consistent ks (entriesOf rows) := by
      intro hc
      rw [Vocabulary.ofTables_of_consistent hc] at h
      cases h
    obtain ⟨err', hfirst⟩ := exists_firstDefect hinconsistent
    rw [Vocabulary.ofTables_of_fault hfirst.tableFault?_eq] at h
    cases h
    exact hfirst
  · exact fun h => Vocabulary.ofTables_of_fault h.tableFault?_eq

/-- A spelling with a capital behind one that is listed under two kinds. -/
example : tableFault? [⟨'(', ')', .expression⟩]
    (entriesOf [⟨.innerJoin, ["join", "join"]⟩, ⟨.leftJoin, ["left join", "join", "Left"]⟩]) =
      some (.ambiguousKeyword "join" .innerJoin .leftJoin) := by
  decide +kernel

end SqlLex
