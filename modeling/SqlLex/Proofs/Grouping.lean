import Mathlib.Data.List.Forall2
import SqlLex.Tokenize

namespace SqlLex

/-!
# What grouping depends on

Fragments are grouped by their texts alone, wherever they stand, and no group goes on over a literal
or a number.

* `Group.map` — the group of other fragments in place of its own; `WordsKept` — grouping takes these
  for the same.
* `groups_map` — then they make the same groups; those of fragments elsewhere do.
* `groups_append_of_not_isPlain` — what stands before a literal or a number is grouped as if it were
  alone.
* `ValueBetween`, `groups_append` — a border over which no group reaches.
* `tokensOf_map_shift`, `tokensOf_agrees`, `tokensOf_append` — the same for tokens.
* `joinWords_raws` — the words of all tokens are the fragments in order.
-/

variable {v : Vocabulary}

/-! ### Texts alone count -/

/-- The group of the fragments that `φ` puts in place of its own. -/
def Group.map (φ : Fragment → Fragment) (g : Group) : Group :=
  ⟨g.kind, g.basis, φ g.head, g.tail.map φ⟩

theorem literalKind?_congr (v : Vocabulary) {f g : Fragment} (h : f.text = g.text) :
    literalKind? v f = literalKind? v g := by
  rw [literalKind?, literalKind?, h]

theorem Fragment.isNumeric_congr {f g : Fragment} (h : f.text = g.text) :
    f.isNumeric = g.isNumeric := by
  rw [isNumeric, isNumeric, h]

theorem isPlain_congr (v : Vocabulary) {f g : Fragment} (h : f.text = g.text) :
    isPlain v f = isPlain v g := by
  rw [isPlain, isPlain, literalKind?_congr v h, Fragment.isNumeric_congr h]

/-- Grouping takes the fragments that `φ` puts in place of others for what these are. -/
structure WordsKept (v : Vocabulary) (φ : Fragment → Fragment) : Prop where
  literalKind?_eq : ∀ f, literalKind? v (φ f) = literalKind? v f
  isNumeric_eq : ∀ f, (φ f).isNumeric = f.isNumeric
  phrase_eq : ∀ fs : List Fragment, phrase (fs.map φ) = phrase fs

section Map

variable {φ : Fragment → Fragment}

theorem map_text_map (hφ : ∀ f, (φ f).text = f.text) (fs : List Fragment) :
    (fs.map φ).map (·.text) = fs.map (·.text) := by
  rw [List.map_map]
  apply List.map_congr_left
  intro f _
  exact hφ f

/-- Fragments of the same texts are taken for the same. -/
theorem WordsKept.of_text (hφ : ∀ f, (φ f).text = f.text) : WordsKept v φ where
  literalKind?_eq f := literalKind?_congr v (hφ f)
  isNumeric_eq f := Fragment.isNumeric_congr (hφ f)
  phrase_eq fs := by rw [phrase, phrase, map_text_map hφ]

variable (hφ : WordsKept v φ)
include hφ

theorem isPlain_map (f : Fragment) : isPlain v (φ f) = isPlain v f := by
  rw [isPlain, isPlain, hφ.literalKind?_eq, hφ.isNumeric_eq]

theorem longestKeyword?_map (fs : List Fragment) (n : Nat) :
    longestKeyword? v (fs.map φ) n = longestKeyword? v fs n := by
  induction n with
  | zero => rfl
  | succ n ih => rw [longestKeyword?, longestKeyword?, ← List.map_take, hφ.phrase_eq, ih]

theorem window_map (fs : List Fragment) : window v (fs.map φ) = (window v fs).map φ := by
  rw [window, window, ← List.map_take, List.takeWhile_map]
  congr 2
  funext f
  exact isPlain_map hφ f

theorem firstGroup_map (f : Fragment) (fs : List Fragment) :
    firstGroup v (φ f) (fs.map φ) = (firstGroup v f fs).map φ := by
  have hwindow := window_map hφ (f :: fs)
  rw [List.map_cons] at hwindow
  unfold firstGroup
  rw [hφ.literalKind?_eq, hφ.isNumeric_eq, hwindow]
  cases literalKind? v f with
  | some k => rfl
  | none =>
    cases f.isNumeric with
    | true => rfl
    | false =>
      dsimp only
      rw [longestKeyword?_map hφ, List.length_map]
      cases longestKeyword? v (window v (f :: fs)) (window v (f :: fs)).length with
      | none => rfl
      | some km => simp [Group.map, List.map_take]

/-- **Words alone count.**  Fragments that are taken for the same make the same groups. -/
theorem groups_map (fs : List Fragment) :
    groups v (fs.map φ) = (groups v fs).map (Group.map φ) := by
  fun_induction groups v fs with
  | case1 => rw [List.map_nil, groups_nil, List.map_nil]
  | case2 f fs ih =>
    -- The first group takes as many fragments, so both recursions go on from the same place.
    have hlen : ((firstGroup v f fs).map φ).tail.length = (firstGroup v f fs).tail.length := by
      simp [Group.map]
    rw [List.map_cons, groups_cons, firstGroup_map hφ, hlen, ← List.map_drop, ih, List.map_cons]

end Map

/-! ### Tokens elsewhere -/

@[simp] theorem Fragment.text_shift (n : Nat) (f : Fragment) : (f.shift n).text = f.text := rfl

/-- The fragment without its place. -/
def Fragment.bare (f : Fragment) : Fragment := ⟨f.text, ⟨0, 0⟩⟩

@[simp] theorem Fragment.text_bare (f : Fragment) : f.bare.text = f.text := rfl

theorem Span.merge_shift (n : Nat) (s t : Span) :
    (s.shift n).merge (t.shift n) = (s.merge t).shift n := by
  simp only [merge, shift, Span.mk.injEq]
  omega

theorem Group.raw_map {φ : Fragment → Fragment} (hφ : ∀ f, (φ f).text = f.text) (g : Group) :
    (g.map φ).raw = g.raw := by
  rw [raw, raw]
  show joinWords ((g.fragments.map φ).map (·.text)) = _
  rw [map_text_map hφ]

theorem Group.token_map_shift (n : Nat) (g : Group) :
    (g.map (.shift n)).token = g.token.shift n := by
  have hspan : (g.map (.shift n)).span = g.span.shift n := by
    show (g.head.span.shift n).merge ((g.tail.map (.shift n)).getLastD (g.head.shift n)).span = _
    rw [List.getLastD_map]
    exact Span.merge_shift n _ _
  rw [token, hspan, raw_map (Fragment.text_shift n)]
  rfl

/-- The tokens of fragments further to the right are the same tokens further to the right. -/
theorem tokensOf_map_shift (n : Nat) (fs : List Fragment) :
    tokensOf v (fs.map (.shift n)) = (tokensOf v fs).map (.shift n) := by
  rw [tokensOf, groups_map (.of_text (Fragment.text_shift n)), tokensOf, List.map_map, List.map_map]
  apply List.map_congr_left
  intro g _
  exact Group.token_map_shift n g

/-- Fragments of the same texts make tokens that say the same. -/
theorem tokensOf_agrees {fs gs : List Fragment} (h : fs.map (·.text) = gs.map (·.text)) :
    List.Forall₂ (fun t u => t.agrees u = true) (tokensOf v fs) (tokensOf v gs) := by
  -- Without their places the fragments are equal, and so are their groups.
  have hbare : fs.map Fragment.bare = gs.map Fragment.bare := by
    have := congrArg (List.map fun text => Fragment.mk text ⟨0, 0⟩) h
    rwa [List.map_map, List.map_map] at this
  have hgroups : (groups v fs).map (Group.map .bare) = (groups v gs).map (Group.map .bare) := by
    rw [← groups_map (.of_text Fragment.text_bare), hbare, groups_map (.of_text Fragment.text_bare)]
  rw [← List.forall₂_eq_eq_eq, List.forall₂_map_left_iff, List.forall₂_map_right_iff] at hgroups
  rw [tokensOf, tokensOf, List.forall₂_map_left_iff, List.forall₂_map_right_iff]
  apply hgroups.imp
  intro g g' hg
  have hkind : (g.map .bare).kind = (g'.map .bare).kind := congrArg Group.kind hg
  have hraw : g.raw = g'.raw := by
    rw [← Group.raw_map Fragment.text_bare g, hg, Group.raw_map Fragment.text_bare]
  exact Token.agrees_iff.2 ⟨hkind, hraw⟩

theorem tokenize_of_split {sql : String} {fs : List Fragment} (h : split v sql = .ok fs) :
    tokenize v sql = .ok (tokensOf v fs) := by
  rw [tokenize, h]
  rfl

theorem tokenize_of_error {sql : String} {e : LexError} (h : split v sql = .error e) :
    tokenize v sql = .error e := by
  rw [tokenize, h]
  rfl

/-! ### The words of all tokens -/

theorem joinWords_append {xs ys : List String} (hx : xs ≠ []) (hy : ys ≠ []) :
    joinWords (xs ++ ys) = joinWords xs ++ " " ++ joinWords ys := by
  obtain ⟨y, ys, rfl⟩ := List.exists_cons_of_ne_nil hy
  induction xs with
  | nil => exact absurd rfl hx
  | cons x xs ih =>
    cases xs with
    | nil => rw [List.singleton_append, joinWords_cons_cons, joinWords_singleton]
    | cons x' xs =>
      rw [List.cons_append, List.cons_append, joinWords_cons_cons, ← List.cons_append,
        ih (List.cons_ne_nil _ _), joinWords_cons_cons]
      simp only [String.append_assoc]

/-- The words of all tokens are the fragments in order. -/
theorem joinWords_raws (v : Vocabulary) (fs : List Fragment) :
    joinWords ((tokensOf v fs).map (·.raw)) = joinWords (fs.map (·.text)) := by
  have hraws : ∀ gs : List Group,
      joinWords (gs.map Group.raw) = joinWords ((gs.flatMap Group.fragments).map (·.text)) := by
    intro gs
    induction gs with
    | nil => rfl
    | cons g gs ih =>
      cases gs with
      | nil => simp [Group.raw]
      | cons g' gs =>
        have hg : g.fragments.map (·.text) ≠ [] := by simp [Group.fragments]
        have hrest : ((g' :: gs).flatMap Group.fragments).map (·.text) ≠ [] := by
          simp [Group.fragments]
        have hall : (g :: g' :: gs).flatMap Group.fragments =
            g.fragments ++ (g' :: gs).flatMap Group.fragments := List.flatMap_cons ..
        rw [List.map_cons, List.map_cons, joinWords_cons_cons, ← List.map_cons, ih, hall,
          List.map_append, joinWords_append hg hrest, Group.raw]
  rw [tokensOf, List.map_map]
  show joinWords ((groups v fs).map Group.raw) = _
  rw [hraws, flatMap_fragments_groups]

/-! ### Literals and numbers stand alone -/

theorem longestKeyword?_lt {fs : List Fragment} {n m : Nat} {k : TokenKind}
    (h : longestKeyword? v fs n = some (k, m)) : m < n := by
  induction n with
  | zero => cases h
  | succ n ih =>
    rw [longestKeyword?] at h
    split at h
    · cases h
      exact Nat.lt_succ_self _
    · exact Nat.lt_succ_of_lt (ih h)

theorem length_window_le (fs : List Fragment) : (window v fs).length ≤ fs.length :=
  Nat.le_trans (List.takeWhile_sublist _).length_le (List.take_sublist _ _).length_le

theorem window_append_of_not_isPlain {f : Fragment} (h : isPlain v f = false)
    (xs ys : List Fragment) : window v (xs ++ f :: ys) = window v xs := by
  unfold window
  generalize v.maxWords = n
  induction xs generalizing n with
  | nil => cases n <;> simp [h]
  | cons x xs ih =>
    cases n with
    | zero => rfl
    | succ n => simp [List.takeWhile_cons, ih]

theorem firstGroup_append_of_not_isPlain {f : Fragment} (h : isPlain v f = false) (g : Fragment)
    (xs ys : List Fragment) : firstGroup v g (xs ++ f :: ys) = firstGroup v g xs := by
  have hwindow := window_append_of_not_isPlain h (g :: xs) ys
  rw [List.cons_append] at hwindow
  unfold firstGroup
  rw [hwindow]
  split
  · rfl
  · split
    · rfl
    · dsimp only
      split
      · rename_i k m hk
        -- The keyword lies in the window, which the value ends.
        have hm := Nat.lt_of_lt_of_le (longestKeyword?_lt hk) (length_window_le _)
        rw [List.take_append_of_le_length (Nat.le_of_lt_succ hm)]
      · rfl

/-- **Values end the words before them.**  What stands before a literal or a number is grouped as if
    it were alone. -/
theorem groups_append_of_not_isPlain {f : Fragment} (h : isPlain v f = false)
    (xs ys : List Fragment) : groups v (xs ++ f :: ys) = groups v xs ++ groups v (f :: ys) := by
  fun_induction groups v xs with
  | case1 => rfl
  | case2 g xs ih =>
    -- The first group does not reach the value.
    have hlen : (firstGroup v g xs).tail.length ≤ xs.length := by
      rw [firstGroup_tail]
      exact (List.take_sublist _ _).length_le
    rw [List.cons_append, groups_cons, firstGroup_append_of_not_isPlain h,
      List.drop_append_of_le_length hlen, ih, List.cons_append]

theorem groups_cons_of_literalKind? {f : Fragment} {k : TokenKind} (h : literalKind? v f = some k)
    (fs : List Fragment) : groups v (f :: fs) = ⟨k, .literal, f, []⟩ :: groups v fs := by
  rw [groups_cons, firstGroup_literal h]
  rfl

theorem groups_cons_of_not_isPlain {f : Fragment} (h : isPlain v f = false) (fs : List Fragment) :
    groups v (f :: fs) = firstGroup v f [] :: groups v fs := by
  cases hk : literalKind? v f with
  | some k => rw [groups_cons_of_literalKind? hk, firstGroup_literal hk]
  | none =>
    have hn : f.isNumeric = true := by simpa [isPlain, hk] using h
    rw [groups_cons, firstGroup_number hk hn, firstGroup_number hk hn]
    rfl

/-- A literal or a number stands at the border, or one of the sides is empty. -/
def ValueBetween (v : Vocabulary) (xs ys : List Fragment) : Prop :=
  (∀ f, xs.getLast? = some f → isPlain v f = false) ∨ ∀ f, ys.head? = some f → isPlain v f = false

theorem ValueBetween.shift {xs ys : List Fragment} (h : ValueBetween v xs ys) (n : Nat) :
    ValueBetween v xs (ys.map (.shift n)) := by
  refine h.imp_right ?_
  intro hys f hf
  rw [List.head?_map, Option.map_eq_some_iff] at hf
  obtain ⟨g, hg, rfl⟩ := hf
  rw [isPlain_congr v (Fragment.text_shift n g)]
  exact hys g hg

/-- No group reaches over a border at which a literal or a number stands. -/
theorem groups_append {xs ys : List Fragment} (h : ValueBetween v xs ys) :
    groups v (xs ++ ys) = groups v xs ++ groups v ys := by
  rcases h with h | h
  · rcases List.eq_nil_or_concat' xs with rfl | ⟨xs, f, rfl⟩
    · rw [groups_nil]
      rfl
    · have hf : isPlain v f = false := h f List.getLast?_concat
      rw [List.append_assoc, List.singleton_append, groups_append_of_not_isPlain hf,
        groups_append_of_not_isPlain hf, groups_cons_of_not_isPlain hf,
        groups_cons_of_not_isPlain hf, groups_nil, List.append_assoc, List.singleton_append]
  · cases ys with
    | nil => rw [groups_nil, List.append_nil, List.append_nil]
    | cons f ys => exact groups_append_of_not_isPlain (h f rfl) xs ys

theorem tokensOf_append {xs ys : List Fragment} (h : ValueBetween v xs ys) :
    tokensOf v (xs ++ ys) = tokensOf v xs ++ tokensOf v ys := by
  rw [tokensOf, groups_append h, List.map_append]
  rfl

/-- A literal or a number is a token on its own, and those before and behind it are as if it were
    not there. -/
theorem tokensOf_append_of_not_isPlain {f : Fragment} (h : isPlain v f = false)
    (xs ys : List Fragment) :
    tokensOf v (xs ++ f :: ys) = tokensOf v xs ++ (firstGroup v f []).token :: tokensOf v ys := by
  rw [tokensOf, groups_append_of_not_isPlain h, groups_cons_of_not_isPlain h, List.map_append,
    List.map_cons]
  rfl

theorem tokensOf_append_literal {f : Fragment} {k : TokenKind} (h : literalKind? v f = some k)
    (xs ys : List Fragment) :
    tokensOf v (xs ++ f :: ys) = tokensOf v xs ++ ⟨k, f.text, f.span⟩ :: tokensOf v ys := by
  have hplain : isPlain v f = false := by simp [isPlain, h]
  rw [tokensOf_append_of_not_isPlain hplain, firstGroup_literal h, Group.token_singleton]

end SqlLex
