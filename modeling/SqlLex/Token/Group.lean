import SqlLex.Fragment.Basic
import SqlLex.Token.Basic
import SqlLex.Vocabulary.Basic

namespace SqlLex

/-!
# Grouping fragments into tokens

A token is made of consecutive fragments: a literal or a number is a token on its own, the longest
phrase that the vocabulary knows is a keyword, and a fragment that starts no such phrase is unknown.

* `Group` — the fragments of a token, its kind, and the `Basis` on which it has that kind.
* `longestKeyword?` — the longest keyword at the start of some fragments.
* `firstGroup` — the token that starts with a fragment; `groups` — the tokens of all fragments.
* `flatMap_fragments_groups` — no fragment is lost, doubled or moved.
-/

/-- Why a group has its kind. -/
inductive Basis where
  | literal | number | keyword | unmatched
deriving DecidableEq, Repr

/-- Consecutive fragments that make up one token. -/
structure Group where
  kind : TokenKind
  basis : Basis
  head : Fragment
  tail : List Fragment
deriving DecidableEq, Repr

namespace Group

/-- The fragments of the group. -/
def fragments (g : Group) : List Fragment := g.head :: g.tail

/-- The words of the group as they were written, with single spaces between them. -/
def raw (g : Group) : String := joinWords (g.fragments.map (·.text))

/-- The span from the first fragment to the last. -/
def span (g : Group) : Span := g.head.span.merge (g.tail.getLastD g.head).span

/-- The token that the group makes. -/
def token (g : Group) : Token := ⟨g.kind, g.raw, g.span⟩

end Group

/-- The kind of literal that a fragment is, told by its first character. -/
def literalKind? (v : Vocabulary) (f : Fragment) : Option TokenKind :=
  f.text.toList.head?.bind fun c => (v.containerOpenedBy? c).map (·.kind)

/-- The fragment is neither a literal nor a number, and may be part of a keyword. -/
def isPlain (v : Vocabulary) (f : Fragment) : Bool :=
  (literalKind? v f).isNone && !f.isNumeric

/-- The form in which some words are looked up. -/
def phrase (fs : List Fragment) : String := Text.lowercase (joinWords (fs.map (·.text)))

/-- The longest keyword that the first fragments make, `n` of them at most, with the number of
    fragments behind its first. -/
def longestKeyword? (v : Vocabulary) (fs : List Fragment) : Nat → Option (TokenKind × Nat)
  | 0 => none
  | n + 1 =>
    match v.keyword? (phrase (fs.take (n + 1))) with
    | some k => some (k, n)
    | none => longestKeyword? v fs n

/-- The plain fragments at the front, no more of them than a spelling has words. -/
def window (v : Vocabulary) (fs : List Fragment) : List Fragment :=
  (fs.take v.maxWords).takeWhile (isPlain v)

/-- The group that starts with the fragment `f`, which `fs` follow. -/
def firstGroup (v : Vocabulary) (f : Fragment) (fs : List Fragment) : Group :=
  match literalKind? v f with
  | some k => ⟨k, .literal, f, []⟩
  | none =>
    if f.isNumeric then ⟨.numeric, .number, f, []⟩
    else
      let w := window v (f :: fs)
      match longestKeyword? v w w.length with
      | some (k, n) => ⟨k, .keyword, f, fs.take n⟩
      | none => ⟨.unknown, .unmatched, f, []⟩

/-- The groups of the fragments, from the first to the last. -/
def groups (v : Vocabulary) : List Fragment → List Group
  | [] => []
  | f :: fs => firstGroup v f fs :: groups v (fs.drop (firstGroup v f fs).tail.length)
termination_by fs => fs.length
decreasing_by simp only [List.length_drop, List.length_cons]; omega

/-- The tokens of the fragments. -/
def tokensOf (v : Vocabulary) (fs : List Fragment) : List Token := (groups v fs).map Group.token

/-! ### Laws -/

@[simp] theorem groups_nil (v : Vocabulary) : groups v [] = [] := by rw [groups]

theorem groups_cons (v : Vocabulary) (f : Fragment) (fs : List Fragment) :
    groups v (f :: fs) =
      firstGroup v f fs :: groups v (fs.drop (firstGroup v f fs).tail.length) := by rw [groups]

theorem tokensOf_cons (v : Vocabulary) (f : Fragment) (fs : List Fragment) :
    tokensOf v (f :: fs) =
      (firstGroup v f fs).token :: tokensOf v (fs.drop (firstGroup v f fs).tail.length) := by
  rw [tokensOf, groups_cons]
  rfl

theorem Group.token_singleton (k : TokenKind) (b : Basis) (f : Fragment) :
    (Group.mk k b f []).token = ⟨k, f.text, f.span⟩ := by
  simp [token, raw, fragments, span]

theorem firstGroup_literal {v : Vocabulary} {f : Fragment} {k : TokenKind}
    (h : literalKind? v f = some k) (fs : List Fragment) :
    firstGroup v f fs = ⟨k, .literal, f, []⟩ := by
  unfold firstGroup
  rw [h]

theorem firstGroup_number {v : Vocabulary} {f : Fragment} (h : literalKind? v f = none)
    (hn : f.isNumeric = true) (fs : List Fragment) :
    firstGroup v f fs = ⟨.numeric, .number, f, []⟩ := by
  unfold firstGroup
  rw [h, hn]
  rfl

@[simp] theorem firstGroup_head (v : Vocabulary) (f : Fragment) (fs : List Fragment) :
    (firstGroup v f fs).head = f := by
  unfold firstGroup
  split
  · rfl
  · split
    · rfl
    · dsimp only
      split <;> rfl

/-- The fragments of a group are the first ones that there are. -/
theorem firstGroup_tail (v : Vocabulary) (f : Fragment) (fs : List Fragment) :
    (firstGroup v f fs).tail = fs.take (firstGroup v f fs).tail.length := by
  unfold firstGroup
  split
  · rfl
  · split
    · rfl
    · dsimp only
      split
      · simp
      · rfl

/-- No fragment is lost, doubled or moved. -/
theorem flatMap_fragments_groups (v : Vocabulary) (fs : List Fragment) :
    (groups v fs).flatMap Group.fragments = fs := by
  fun_induction groups v fs with
  | case1 => rfl
  | case2 f fs ih =>
    rw [List.flatMap_cons, ih, Group.fragments, firstGroup_head, firstGroup_tail,
      List.cons_append, List.length_take, List.take_eq_take_min]
    simp [Nat.min_comm]

theorem mem_of_mem_groups {v : Vocabulary} {fs : List Fragment} {g : Group} (hg : g ∈ groups v fs)
    {f : Fragment} (hf : f ∈ g.fragments) : f ∈ fs := by
  rw [← flatMap_fragments_groups v fs]
  exact List.mem_flatMap.2 ⟨g, hg, hf⟩

end SqlLex
