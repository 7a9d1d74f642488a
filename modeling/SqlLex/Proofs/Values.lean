import Mathlib.Data.List.SplitBy
import SqlLex.Proofs.LongestPhrase
import SqlLex.Vocabulary.Standard

namespace SqlLex

/-!
# Values between keywords

A literal or a number is a token on its own wherever it stands, and no keyword reaches over it.
Fragments can so be cut on either side of each value, and the parts make their tokens without one
another.

* `Fragment.IsValue` — what grouping takes for a value, told from the text; `isValue_iff`.
* `AtValue` — a border at which a value stands.
* `segments` — the values and the runs between them; `eq_singleton_of_mem_segments`.
* `tokensOf_flatten` — tokens over any number of borders.
* `tokensOf_around_values` — values are borders of all tokens.
-/

variable {v : Vocabulary}

/-! ### Values -/

/-- The fragment starts with the opener of a container, or it is a number. -/
def Fragment.IsValue (v : Vocabulary) (f : Fragment) : Prop :=
  (∃ c k, f.text.toList.head? = some c ∧ v.containerOpenedBy? c = some k) ∨ f.isNumeric = true

/-- The kind of a value: that of its container, or the kind of numbers. -/
def Fragment.valueKind (v : Vocabulary) (f : Fragment) : TokenKind :=
  (literalKind? v f).getD .numeric

theorem Fragment.exists_opener_iff {f : Fragment} :
    (∃ c k, f.text.toList.head? = some c ∧ v.containerOpenedBy? c = some k) ↔
      (literalKind? v f).isSome = true := by
  unfold literalKind?
  cases f.text.toList.head? <;> simp [Option.isSome_iff_exists]

/-- A value has no part in a keyword, and everything else may have one. -/
theorem Fragment.isValue_iff {f : Fragment} : f.IsValue v ↔ isPlain v f = false := by
  rw [IsValue, exists_opener_iff, isPlain, Bool.and_eq_false_iff, Bool.not_eq_false',
    Option.isNone_eq_false_iff]

/-- A value makes a token on its own, whatever stands around it. -/
theorem tokensOf_append_value {f : Fragment} (h : f.IsValue v) (xs ys : List Fragment) :
    tokensOf v (xs ++ f :: ys) =
      tokensOf v xs ++ ⟨f.valueKind v, f.text, f.span⟩ :: tokensOf v ys := by
  have hplain := Fragment.isValue_iff.1 h
  rw [tokensOf_append_of_not_isPlain hplain, Fragment.valueKind]
  cases hk : literalKind? v f with
  | some k =>
    rw [firstGroup_literal hk, Group.token_singleton]
    rfl
  | none =>
    have hn : f.isNumeric = true := by simpa [isPlain, hk] using hplain
    rw [firstGroup_number hk hn, Group.token_singleton]
    rfl

/-- A group that has a value has nothing else. -/
theorem fragments_eq_singleton {fs : List Fragment} {g : Group} (hg : g ∈ groups v fs)
    {f : Fragment} (hf : f ∈ g.fragments) (h : f.IsValue v) : g.fragments = [f] := by
  have hone : ¬2 ≤ g.fragments.length := by
    intro htwo
    have hplain := ((justified_of_mem_groups hg).keyword_of_two_le htwo).1 f hf
    rw [Fragment.isValue_iff.1 h] at hplain
    cases hplain
  have hlength : g.fragments.length = 1 := by
    have := List.length_pos_of_mem hf
    omega
  obtain ⟨e, he⟩ := List.length_eq_one_iff.1 hlength
  rw [he] at hf ⊢
  rw [List.mem_singleton.1 hf]

/-! ### Borders -/

/-- A value stands at the border between the lists, or there is nothing on one of its sides. -/
def AtValue (v : Vocabulary) (xs ys : List Fragment) : Prop :=
  xs = [] ∨ ys = [] ∨ (∃ f, xs.getLast? = some f ∧ f.IsValue v) ∨
    ∃ f, ys.head? = some f ∧ f.IsValue v

theorem AtValue.valueBetween {xs ys : List Fragment} (h : AtValue v xs ys) :
    ValueBetween v xs ys := by
  rcases h with rfl | rfl | ⟨f, hlast, hf⟩ | ⟨f, hhead, hf⟩
  · exact .inl fun f hf => by cases hf
  · exact .inr fun f hf => by cases hf
  · refine .inl fun g hg => ?_
    rw [hlast] at hg
    cases hg
    exact Fragment.isValue_iff.1 hf
  · refine .inr fun g hg => ?_
    rw [hhead] at hg
    cases hg
    exact Fragment.isValue_iff.1 hf

/-- Parts with a value at each border between them make their tokens without one another. -/
theorem tokensOf_flatten {parts : List (List Fragment)} (hnil : [] ∉ parts)
    (h : parts.IsChain (ValueBetween v)) :
    tokensOf v parts.flatten = parts.flatMap (tokensOf v) := by
  induction parts with
  | nil => rw [List.flatten_nil, tokensOf, groups_nil]; rfl
  | cons xs parts ih =>
    rw [List.mem_cons, not_or] at hnil
    obtain ⟨hborder, hparts⟩ := List.isChain_cons.1 h
    have hrest : ValueBetween v xs parts.flatten := by
      cases parts with
      | nil => exact .inr fun f hf => by cases hf
      | cons ys parts =>
        -- The next part is not empty, so it is at the border.
        have hys : ys ≠ [] := fun hys => hnil.2 (hys ▸ List.mem_cons_self)
        refine (hborder ys rfl).imp_right fun hvalue f hf => hvalue f ?_
        rwa [List.flatten_cons, List.head?_append_of_ne_nil _ hys] at hf
    rw [List.flatten_cons, tokensOf_append hrest, ih hnil.2 hparts, List.flatMap_cons]

/-! ### Segments -/

/-- The fragments, cut on either side of each value. -/
def segments (v : Vocabulary) (fs : List Fragment) : List (List Fragment) :=
  fs.splitBy fun f g => isPlain v f && isPlain v g

/-- A segment is a value on its own, or has none. -/
theorem eq_singleton_of_mem_segments {fs seg : List Fragment} (hseg : seg ∈ segments v fs)
    {f : Fragment} (hf : f ∈ seg) (h : f.IsValue v) : seg = [f] := by
  have hplain := Fragment.isValue_iff.1 h
  obtain ⟨xs, ys, rfl⟩ := List.append_of_mem hf
  obtain ⟨-, hright, hleft⟩ := List.isChain_append.1 (List.isChain_of_mem_splitBy hseg)
  -- A neighbour in the segment would make the fragment plain.
  have hxs : xs = [] := by
    by_contra hne
    have := hleft _ (List.getLast_mem_getLast? hne) f rfl
    rw [hplain, Bool.and_false] at this
    cases this
  have hys : ys = [] := by
    cases ys with
    | nil => rfl
    | cons g ys =>
      have := (List.isChain_cons_cons.1 hright).1
      rw [hplain] at this
      cases this
  rw [hxs, hys]
  rfl

theorem isChain_segments (fs : List Fragment) : (segments v fs).IsChain (ValueBetween v) := by
  apply (List.isChain_getLast_head_splitBy _ fs).imp
  rintro xs ys ⟨hxs, hys, hvalue⟩
  rcases Bool.and_eq_false_iff.1 hvalue with hvalue | hvalue
  · refine .inl fun f hf => ?_
    rw [List.getLast?_eq_some_getLast hxs] at hf
    exact Option.some.inj hf ▸ hvalue
  · refine .inr fun f hf => ?_
    rw [List.head?_eq_some_head hys] at hf
    exact Option.some.inj hf ▸ hvalue

/-- **Values are borders.**  Fragments on either side of a border at which a value stands make their
    tokens without one another, with the same spans.  A value is a token on its own, of the kind
    that its text says, and no group has anything beside it.  The tokens of fragments are those of
    their segments: of the values, and of what lies between them. -/
theorem tokensOf_around_values (v : Vocabulary) :
    (∀ xs ys, AtValue v xs ys → tokensOf v (xs ++ ys) = tokensOf v xs ++ tokensOf v ys) ∧
    (∀ f : Fragment, f.IsValue v → ∀ xs ys, tokensOf v (xs ++ f :: ys) =
      tokensOf v xs ++ ⟨f.valueKind v, f.text, f.span⟩ :: tokensOf v ys) ∧
    (∀ fs, ∀ g ∈ groups v fs, ∀ f ∈ g.fragments, f.IsValue v → g.fragments = [f]) ∧
    ∀ fs, tokensOf v fs = (segments v fs).flatMap (tokensOf v) ∧ (segments v fs).flatten = fs ∧
      ∀ seg ∈ segments v fs, ∀ f ∈ seg, f.IsValue v → seg = [f] := by
  refine ⟨fun xs ys h => tokensOf_append h.valueBetween,
    fun f hf xs ys => tokensOf_append_value hf xs ys,
    fun fs g hg f hf h => fragments_eq_singleton hg hf h, ?_⟩
  intro fs
  have hflatten : (segments v fs).flatten = fs := List.flatten_splitBy _ fs
  refine ⟨?_, hflatten, fun seg hseg f hf h => eq_singleton_of_mem_segments hseg hf h⟩
  have hparts : tokensOf v (segments v fs).flatten = (segments v fs).flatMap (tokensOf v) :=
    tokensOf_flatten (List.nil_notMem_splitBy _ fs) (isChain_segments fs)
  rwa [hflatten] at hparts

/-- A number among the words of a keyword; no query has such a number. -/
theorem tokensOf_around_values_standard :
    AtValue .standard [⟨"is", ⟨7, 3⟩⟩, ⟨"1..2", ⟨0, 0⟩⟩] [⟨"not", ⟨1, 4⟩⟩, ⟨"null", ⟨4, 8⟩⟩] ∧
      tokensOf .standard
          [⟨"is", ⟨7, 3⟩⟩, ⟨"1..2", ⟨0, 0⟩⟩, ⟨"not", ⟨1, 4⟩⟩, ⟨"null", ⟨4, 8⟩⟩] =
        tokensOf .standard [⟨"is", ⟨7, 3⟩⟩, ⟨"1..2", ⟨0, 0⟩⟩] ++
          tokensOf .standard [⟨"not", ⟨1, 4⟩⟩, ⟨"null", ⟨4, 8⟩⟩] ∧
      tokensOf .standard [⟨"is", ⟨7, 3⟩⟩, ⟨"not", ⟨1, 4⟩⟩, ⟨"null", ⟨4, 8⟩⟩] =
        [⟨.isNotNull, "is not null", ⟨4, 8⟩⟩] := by
  have hborder : AtValue .standard [⟨"is", ⟨7, 3⟩⟩, ⟨"1..2", ⟨0, 0⟩⟩]
      [⟨"not", ⟨1, 4⟩⟩, ⟨"null", ⟨4, 8⟩⟩] :=
    .inr (.inr (.inl ⟨⟨"1..2", ⟨0, 0⟩⟩, rfl, .inr (by decide +kernel)⟩))
  refine ⟨hborder, (tokensOf_around_values .standard).1 _ _ hborder, ?_⟩
  decide +kernel

end SqlLex
