import SqlLex.Proofs.Grouping
import SqlLex.Proofs.Lexeme.Locality
import SqlLex.Proofs.Shift

namespace SqlLex

open Text

/-!
# Literals keep their contents to themselves

What stands between the delimiters of a literal has no influence on the fragments and tokens outside
the literal, apart from moving those behind it.

* `Container.enclose` — the literal with a given interior.
* `ReadsAround` — the fragments and tokens around a literal.
* `munch_enclose`, `exists_interior_of_munch` — a literal is a lexeme, and a lexeme that starts with
  an opener is a literal.
* `exists_readsAround` — with any interior the same is read around a literal.
* `exists_readsAround_replace` — the two texts before and after the interior is replaced.
-/

variable {v : Vocabulary} {k : Container}

/-! ### Literals as lexemes -/

/-- The literal of container `k` with `x` between its delimiters. -/
def Container.enclose (k : Container) (x : List Char) : List Char := k.opener :: x ++ [k.closer]

theorem lexemeTail_opener (hk : k ∈ v.containers) (position : Nat) (cs : List Char) :
    lexemeTail v position k.opener cs =
      match literalTail? k cs with
      | some w => .ok w
      | none => .error (.unterminatedContainer k.opener k.closer position) :=
  lexemeTail_literal (Vocabulary.containerOpenedBy?_eq_some_iff.2 ⟨hk, rfl⟩) position cs

/-- A literal is a lexeme, whatever follows it. -/
theorem munch_enclose (hv : v.PlainDelimiters) (hk : k ∈ v.containers) {x : List Char}
    (hx : k.IsInterior x) (position : Nat) (cs : List Char) :
    munch v position (k.enclose x ++ cs) =
      (Progress.emit (.ofList position (k.enclose x))).andThen fun _ =>
        munch v (position + byteSize (k.enclose x)) cs := by
  have htail : lexemeTail v position k.opener (x ++ [k.closer] ++ cs) = .ok (x ++ [k.closer]) := by
    rw [lexemeTail_opener hk, literalTail?_eq_some_iff.2 ⟨x, cs, hx, rfl, by simp⟩]
  have := munch_ok (hv.blanksSeparate k hk) htail
  rwa [List.drop_left] at this

/-- A lexeme that starts with an opener is a literal. -/
theorem exists_interior_of_munch (hv : v.PlainDelimiters) (hk : k ∈ v.containers)
    {position : Nat} {cs : List Char} {fs : List Fragment}
    (h : munch v position (k.opener :: cs) = ⟨fs, .ok ()⟩) :
    ∃ x, k.IsInterior x ∧ .ofList position (k.enclose x) ∈ fs := by
  obtain ⟨w, rest, gs, -, hw, -, rfl⟩ := munch_cons_eq_ok (hv.blanksSeparate k hk) h
  rw [lexemeTail_opener hk] at hw
  split at hw
  · rename_i w' hw'
    cases hw
    obtain ⟨x, -, hx, rfl, -⟩ := literalTail?_eq_some_iff.1 hw'
    exact ⟨x, hx, List.mem_cons_self⟩
  · cases hw

/-! ### The text around a literal -/

/-- What the text reads like in which the literal with interior `x` stands between `a` and `b`: it
    has the fragments and tokens `before` the literal, the literal as a fragment and a token, and
    those of `after`, which are counted from the end of the literal. -/
structure ReadsAround (v : Vocabulary) (k : Container) (a x b : List Char)
    (before after : List Fragment) : Prop where
  split_eq : split v (String.ofList (a ++ k.enclose x ++ b)) =
    .ok (before ++ .ofList (byteSize a) (k.enclose x) ::
      after.map (.shift (byteSize (a ++ k.enclose x))))
  tokenize_eq : tokenize v (String.ofList (a ++ k.enclose x ++ b)) =
    .ok (tokensOf v before ++
      ⟨k.kind, String.ofList (k.enclose x), ⟨byteSize a, byteSize (a ++ k.enclose x)⟩⟩ ::
      (tokensOf v after).map (.shift (byteSize (a ++ k.enclose x))))

/-- A literal is a token of its own, so the fragments around it settle the tokens. -/
theorem ReadsAround.of_split (hk : k ∈ v.containers) {a x b : List Char}
    {before after : List Fragment}
    (h : split v (String.ofList (a ++ k.enclose x ++ b)) =
      .ok (before ++ .ofList (byteSize a) (k.enclose x) ::
        after.map (.shift (byteSize (a ++ k.enclose x))))) :
    ReadsAround v k a x b before after := by
  have hkind : literalKind? v (.ofList (byteSize a) (k.enclose x)) = some k.kind := by
    have hopen := Vocabulary.containerOpenedBy?_eq_some_iff.2 ⟨hk, rfl⟩
    simp [literalKind?, Fragment.ofList, Container.enclose, hopen]
  refine ⟨h, ?_⟩
  rw [tokenize_of_split h, tokensOf_append_literal hkind, tokensOf_map_shift, byteSize_append]
  rfl

/-- If what is read of a text goes beyond a literal, then it does so with any interior. -/
theorem exists_contentOf_enclose {a x b : List Char}
    (h : byteSize (a ++ k.enclose x) ≤ byteSize (contentOf (a ++ k.enclose x ++ b))) :
    ∃ b', ∀ y, contentOf (a ++ k.enclose y ++ b) = a ++ (k.enclose y ++ b') := by
  have hassoc : ∀ y, a ++ k.enclose y = (a ++ k.opener :: y) ++ [k.closer] := by
    intro y
    simp [Container.enclose]
  rw [hassoc] at h
  obtain ⟨b', hb'⟩ := exists_contentOf_concat_append h
  refine ⟨b', ?_⟩
  intro y
  rw [hassoc, hb', ← hassoc, List.append_assoc]

/-- At one place there is one literal only. -/
theorem enclose_injective_of_mem {n position : Nat} {cs : List Char} {fs : List Fragment}
    (h : LaidOut n cs fs) {x y : List Char} (hx : .ofList position (k.enclose x) ∈ fs)
    (hy : .ofList position (k.enclose y) ∈ fs) : x = y := by
  -- Both fragments cover the opener.
  have hcovers : ∀ z, (Fragment.ofList position (k.enclose z)).span.Covers position := by
    intro z
    have := k.opener.utf8Size_pos
    simp only [Span.Covers, Fragment.ofList, Container.enclose, byteSize_append, byteSize_cons]
    omega
  have heq := h.covers_unique hx hy (hcovers x) (hcovers y)
  have htext := congrArg (fun f => f.text.toList) heq
  simpa [Fragment.ofList, Container.enclose] using htext

/-- Around a literal the same is read with any interior. -/
theorem exists_readsAround (hv : v.PlainDelimiters) (hk : k ∈ v.containers) {a x b : List Char}
    {fs : List Fragment} (h : split v (String.ofList (a ++ k.enclose x ++ b)) = .ok fs)
    (hf : .ofList (byteSize a) (k.enclose x) ∈ fs) :
    k.IsInterior x ∧
      ∃ before after, ∀ y, k.IsInterior y → ReadsAround v k a y b before after := by
  rw [split_eq_ok_iff, splitting_eq_munch_contentOf hv, String.toList_ofList] at h
  have hlaid := laidOut_of_munch h
  -- The fragment lies in what is read.
  obtain ⟨b', hcontent⟩ := exists_contentOf_enclose (k := k) (a := a) (x := x) (b := b) (by
    have := (hlaid.bounds hf).2.2
    rwa [Nat.zero_add, Fragment.ofList, ← byteSize_append] at this)
  rw [hcontent] at h hlaid
  -- Up to the opener the text is read in the same way with any interior.
  obtain ⟨before, hbefore⟩ := exists_munch_append h hf (Nat.zero_add _).symm
  have hrun : ∀ y, munch v 0 (a ++ (k.enclose y ++ b')) =
      (⟨before, .ok ()⟩ : Progress Unit).andThen fun _ =>
        munch v (byteSize a) (k.enclose y ++ b') := by
    intro y
    have := hbefore (y ++ [k.closer] ++ b')
    rwa [Nat.zero_add] at this
  rw [hrun, Progress.andThen_eq_ok_iff] at h
  obtain ⟨_, _, gs, hgs, hliteral, rfl⟩ := h
  cases hgs
  have hx : k.IsInterior x := by
    obtain ⟨y, hy, hmem⟩ := exists_interior_of_munch hv hk hliteral
    rwa [enclose_injective_of_mem hlaid hf (List.mem_append_right _ hmem)]
  -- The rest of the text is read from the closer on, so it moves with the closer.
  rw [munch_enclose hv hk hx, Progress.andThen_eq_ok_iff] at hliteral
  obtain ⟨_, _, hs, -, hrest, -⟩ := hliteral
  obtain ⟨after, hafter, -⟩ := (munch_eq_ok_iff_shift _ hv).1 hrest
  refine ⟨hx, before, after, ?_⟩
  intro y hy
  apply ReadsAround.of_split hk
  have hrest' := (munch_eq_ok_iff_shift (byteSize (a ++ k.enclose y)) hv).2 ⟨after, hafter, rfl⟩
  rw [split_eq_ok_iff, splitting_eq_munch_contentOf hv, String.toList_ofList, hcontent, hrun,
    munch_enclose hv hk hy, ← byteSize_append, hrest']
  rfl

/-- **Literals keep their contents to themselves.**  If the interior of a literal is replaced, then
    the query is still read without a fault, and outside the literal nothing changes but the
    distance from its end. -/
theorem exists_readsAround_replace (hv : v.PlainDelimiters) (hk : k ∈ v.containers)
    {a x x' b : List Char} {fs : List Fragment}
    (h : split v (String.ofList (a ++ k.enclose x ++ b)) = .ok fs)
    (hf : .ofList (byteSize a) (k.enclose x) ∈ fs) (hx' : k.IsInterior x') :
    ∃ before after, ReadsAround v k a x b before after ∧ ReadsAround v k a x' b before after := by
  obtain ⟨hx, before, after, hreads⟩ := exists_readsAround hv hk h hf
  exact ⟨before, after, hreads x hx, hreads x' hx'⟩

/-- A quotation gets an interior with its own delimiter, a terminator, an opener and a keyword. -/
theorem exists_readsAround_replace_standard :
    split .standard (String.ofList ("x=".toList ++
        Container.enclose ⟨'\x27', '\x27', .stringValue⟩ "y".toList ++ " and (z)".toList)) =
      .ok [⟨"x", ⟨0, 1⟩⟩, ⟨"=", ⟨1, 2⟩⟩, ⟨"'y'", ⟨2, 5⟩⟩, ⟨"and", ⟨6, 9⟩⟩, ⟨"(z)", ⟨10, 13⟩⟩] ∧
    Container.IsInterior ⟨'\x27', '\x27', .stringValue⟩ "it\\'s; (SELECT".toList ∧
    ∃ before after,
      ReadsAround .standard ⟨'\x27', '\x27', .stringValue⟩ "x=".toList "y".toList
        " and (z)".toList before after ∧
      ReadsAround .standard ⟨'\x27', '\x27', .stringValue⟩ "x=".toList
        "it\\'s; (SELECT".toList " and (z)".toList before after := by
  have hsplit : split .standard (String.ofList ("x=".toList ++
      Container.enclose ⟨'\x27', '\x27', .stringValue⟩ "y".toList ++ " and (z)".toList)) =
        .ok [⟨"x", ⟨0, 1⟩⟩, ⟨"=", ⟨1, 2⟩⟩, ⟨"'y'", ⟨2, 5⟩⟩, ⟨"and", ⟨6, 9⟩⟩,
          ⟨"(z)", ⟨10, 13⟩⟩] := by
    decide +kernel
  have hinterior : Container.IsInterior ⟨'\x27', '\x27', .stringValue⟩
      "it\\'s; (SELECT".toList := by decide
  exact ⟨hsplit, hinterior, exists_readsAround_replace Vocabulary.standard_plainDelimiters
    (by decide) hsplit (by decide +kernel) hinterior⟩

end SqlLex
