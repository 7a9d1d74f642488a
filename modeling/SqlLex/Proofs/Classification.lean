import SqlLex.Proofs.Lexeme.Shape
import SqlLex.Proofs.LongestPhrase

namespace SqlLex

open Text

/-!
# Splitting and grouping agree

Grouping is given the texts of the fragments and nothing else, and tells from them again what each
fragment is.  With plain delimiters it takes none for what it is not.

* `Recognised` — grouping takes a fragment for what it is.
* `Basis.Explains` — the words of a token have what the reason for its kind requires;
  `Basis.Explains.eq_ofRaw` — they leave no other reason.
* `existsUnique_explains` — each token has exactly one reason for its kind.
* `Basis.ofKind` — the reason that the standard vocabulary leaves for a kind.
* `split_recognised` — the fragments and tokens of a query.
-/

variable {v : Vocabulary}

/-! ### Fragments -/

/-- The fragment has one shape, and grouping takes it for a literal or a number iff that is its
    shape. -/
structure Recognised (v : Vocabulary) (f : Fragment) : Prop where
  existsUnique_shape : ∃! s : Shape, s.Fits v f.text.toList
  literalKind?_eq_some_iff : ∀ kind, literalKind? v f = some kind ↔
    ∃ k, (Shape.literal k).Fits v f.text.toList ∧ k.kind = kind
  isNumeric_iff : f.isNumeric = true ↔ Shape.numeral.Fits v f.text.toList

theorem IsLexeme.recognised (hv : v.PlainDelimiters) {f : Fragment}
    (h : IsLexeme v f.text.toList) : Recognised v f where
  existsUnique_shape := by
    obtain ⟨s, hs⟩ := h.exists_fits
    obtain ⟨c, u, hcu, -⟩ := h
    refine ⟨s, hs, ?_⟩
    intro t ht
    -- The first character leaves one shape.
    rw [hcu] at hs ht
    have := ht.startingWith?_eq hv
    rw [hs.startingWith?_eq hv] at this
    exact (Option.some.inj this).symm
  literalKind?_eq_some_iff _ := h.literalKind?_eq_some_iff hv
  isNumeric_iff := h.isNumeric_iff hv

/-- What grouping takes for a part of a keyword is neither a literal nor a number. -/
theorem Recognised.exists_plain {f : Fragment} (h : Recognised v f) (hf : isPlain v f = true) :
    ∃ s : Shape, s.isPlain = true ∧ s.Fits v f.text.toList := by
  simp only [isPlain, Bool.and_eq_true, Option.isNone_iff_eq_none, Bool.not_eq_true'] at hf
  obtain ⟨s, hs, -⟩ := h.existsUnique_shape
  refine ⟨s, ?_, hs⟩
  cases s with
  | literal k =>
    have := (h.literalKind?_eq_some_iff k.kind).2 ⟨k, hs, rfl⟩
    rw [hf.1] at this
    cases this
  | numeral =>
    have := h.isNumeric_iff.2 hs
    rw [hf.2] at this
    cases this
  | operators => rfl
  | breaking => rfl
  | word => rfl

/-! ### Tokens -/

/-- The words of the token have what the reason for its kind requires. -/
def Basis.Explains (v : Vocabulary) (t : Token) : Basis → Prop
  | .literal => ∃ k, (Shape.literal k).Fits v t.raw.toList ∧ t.kind = k.kind
  | .number => Shape.numeral.Fits v t.raw.toList ∧ t.kind = .numeric
  | .keyword => v.keyword? (lowercase t.raw) = some t.kind ∧
    ∃ ws, ws ≠ [] ∧ t.raw = joinWords ws ∧
      ∀ w ∈ ws, ∃ s : Shape, s.isPlain = true ∧ s.Fits v w.toList
  | .unmatched => v.keyword? (lowercase t.raw) = none ∧ t.kind = .unknown ∧
    ∃ s : Shape, s.isPlain = true ∧ s.Fits v t.raw.toList

/-- The shape that the first character of some words leaves for the first of them. -/
def firstShape? (v : Vocabulary) (raw : String) : Option Shape :=
  raw.toList.head?.bind (Shape.startingWith? v)

theorem Shape.Fits.firstShape?_eq (hv : v.PlainDelimiters) {s : Shape} {raw : String}
    (h : s.Fits v raw.toList) : firstShape? v raw = some s := by
  obtain ⟨c, u, hcu⟩ := List.exists_cons_of_ne_nil h.ne_nil
  rw [hcu] at h
  rw [firstShape?, hcu]
  exact h.startingWith?_eq hv

theorem firstShape?_joinWords {w : String} (h : w.toList ≠ []) (ws : List String) :
    firstShape? v (joinWords (w :: ws)) = firstShape? v w := by
  obtain ⟨c, u, hcu⟩ := List.exists_cons_of_ne_nil h
  rw [firstShape?, firstShape?, toList_joinWords, List.map_cons, singleSpaced, joinSpaced_cons, hcu]
  rfl

/-- The only reason that the words of a token leave for its kind: the shape of the first of them,
    and whether they are a keyword, settle it. -/
def Basis.ofRaw (v : Vocabulary) (raw : String) : Basis :=
  match firstShape? v raw with
  | some (.literal _) => .literal
  | some .numeral => .number
  | _ => if (v.keyword? (lowercase raw)).isSome then .keyword else .unmatched

theorem Basis.ofRaw_of_isPlain {raw : String} {s : Shape} (h : firstShape? v raw = some s)
    (hs : s.isPlain = true) :
    ofRaw v raw = if (v.keyword? (lowercase raw)).isSome then .keyword else .unmatched := by
  unfold ofRaw
  rw [h]
  cases s with
  | literal k => cases hs
  | numeral => cases hs
  | operators => rfl
  | breaking => rfl
  | word => rfl

/-- There is no other reason. -/
theorem Basis.Explains.eq_ofRaw (hv : v.PlainDelimiters) {t : Token} {b : Basis}
    (h : b.Explains v t) : b = .ofRaw v t.raw := by
  cases b with
  | literal =>
    obtain ⟨k, hk, -⟩ := h
    rw [Basis.ofRaw, hk.firstShape?_eq hv]
  | number => rw [Basis.ofRaw, Shape.Fits.firstShape?_eq hv h.1]
  | keyword =>
    obtain ⟨hkey, ws, hne, hraw, hws⟩ := h
    obtain ⟨w, ws, rfl⟩ := List.exists_cons_of_ne_nil hne
    obtain ⟨s, hplain, hs⟩ := hws w List.mem_cons_self
    have hfirst : firstShape? v t.raw = some s := by
      rw [hraw, firstShape?_joinWords hs.ne_nil, hs.firstShape?_eq hv]
    rw [Basis.ofRaw_of_isPlain hfirst hplain, hkey]
    rfl
  | unmatched =>
    obtain ⟨hkey, -, s, hplain, hs⟩ := h
    rw [Basis.ofRaw_of_isPlain (hs.firstShape?_eq hv) hplain, hkey]
    rfl

theorem Group.Justified.explains {g : Group} (h : g.Justified v)
    (hg : ∀ f ∈ g.fragments, Recognised v f) : g.basis.Explains v g.token := by
  cases h with
  | @literal f k hk =>
    obtain ⟨c, hc, rfl⟩ := ((hg f List.mem_cons_self).literalKind?_eq_some_iff k).1 hk
    rw [Group.token_singleton]
    exact ⟨c, hc, rfl⟩
  | @number f hk hn =>
    rw [Group.token_singleton]
    exact ⟨(hg f List.mem_cons_self).isNumeric_iff.1 hn, rfl⟩
  | @keyword f fs k hplain hkey =>
    refine ⟨hkey, (f :: fs).map (·.text), by simp, rfl, ?_⟩
    intro w hw
    obtain ⟨g, hmem, rfl⟩ := List.mem_map.1 hw
    exact (hg g hmem).exists_plain (hplain g hmem)
  | @unmatched f hplain hkey =>
    rw [phrase, List.map_singleton, joinWords_singleton] at hkey
    rw [Group.token_singleton]
    exact ⟨hkey, rfl, (hg f List.mem_cons_self).exists_plain hplain⟩

/-- Each token has exactly one reason for its kind. -/
theorem existsUnique_explains (hv : v.PlainDelimiters) {fs : List Fragment}
    (hfs : ∀ f ∈ fs, Recognised v f) {t : Token} (ht : t ∈ tokensOf v fs) :
    ∃! b : Basis, b.Explains v t := by
  obtain ⟨g, hg, rfl⟩ := List.mem_map.1 ht
  have hsub : ∀ f ∈ g.fragments, Recognised v f := fun f hf => hfs f (mem_of_mem_groups hg hf)
  refine ⟨g.basis, (justified_of_mem_groups hg).explains hsub, ?_⟩
  intro b hb
  have := (justified_of_mem_groups hg).explains hsub
  rw [hb.eq_ofRaw hv, this.eq_ofRaw hv]

/-! ### Kinds of the standard vocabulary -/

/-- The reason for which a token of the standard vocabulary has the kind. -/
def Basis.ofKind : TokenKind → Basis
  | .stringValue | .escapedValue | .placeholderValue | .expression => .literal
  | .numeric => .number
  | .unknown => .unmatched
  | _ => .keyword

/-- The standard vocabulary gives each kind for one reason only. -/
theorem Basis.Explains.ofKind_eq {t : Token} {b : Basis} (h : b.Explains .standard t) :
    ofKind t.kind = b := by
  cases b with
  | literal =>
    have hcontainers : ∀ k ∈ standardContainers, ofKind k.kind = .literal := by decide
    obtain ⟨k, ⟨hk, -⟩, hkind⟩ := h
    rw [hkind]
    exact hcontainers k hk
  | number =>
    rw [h.2]
    rfl
  | keyword =>
    have hentries : ∀ e ∈ entriesOf standardKeywords, ofKind e.kind = .keyword := by decide
    exact hentries _ (Vocabulary.keyword?_eq_some_iff.1 h.1)
  | unmatched =>
    rw [h.2.1]
    rfl

/-! ### Fragments and tokens of a query -/

theorem recognised_of_split (hv : v.PlainDelimiters) {sql : String} {fs : List Fragment}
    (h : split v sql = .ok fs) {f : Fragment} (hf : f ∈ fs) : Recognised v f := by
  rw [split_eq_ok_iff, splitting_eq_munch_contentOf hv] at h
  exact (isLexeme_of_mem_munch h hf).recognised hv

/-- **Splitting and grouping agree.**  Each fragment of a query has one shape, grouping takes it for
    what it is, and each token has one reason for its kind.  In the standard vocabulary the kind of
    a token tells what its words are. -/
theorem split_recognised (hv : v.PlainDelimiters) {sql : String} {fs : List Fragment}
    (h : split v sql = .ok fs) :
    (∀ f ∈ fs, Recognised v f) ∧
      ∃ ts, tokenize v sql = .ok ts ∧ (∀ t ∈ ts, ∃! b : Basis, b.Explains v t) ∧
        (v = .standard → ∀ t ∈ ts, (Basis.ofKind t.kind).Explains v t) := by
  have hfs : ∀ f ∈ fs, Recognised v f := fun f hf => recognised_of_split hv h hf
  refine ⟨hfs, _, tokenize_of_split h, fun t ht => existsUnique_explains hv hfs ht, ?_⟩
  rintro rfl t ht
  obtain ⟨b, hb, -⟩ := existsUnique_explains hv hfs ht
  rwa [hb.ofKind_eq]

/-- A word and a literal with escaped delimiters, points beside numbers, and a keyword of two
    words. -/
theorem split_recognised_standard :
    Vocabulary.standard.PlainDelimiters ∧
      split .standard "f\\'s'it\\'s'5.,. is\n NOT >=" =
        .ok [⟨"f\\'s", ⟨0, 4⟩⟩, ⟨"'it\\'s'", ⟨4, 11⟩⟩, ⟨"5.", ⟨11, 13⟩⟩, ⟨",", ⟨13, 14⟩⟩,
          ⟨".", ⟨14, 15⟩⟩, ⟨"is", ⟨16, 18⟩⟩, ⟨"NOT", ⟨20, 23⟩⟩, ⟨">=", ⟨24, 26⟩⟩] ∧
      Recognised .standard ⟨"f\\'s", ⟨0, 4⟩⟩ ∧ Recognised .standard ⟨"'it\\'s'", ⟨4, 11⟩⟩ ∧
      Recognised .standard ⟨"5.", ⟨11, 13⟩⟩ ∧ Recognised .standard ⟨".", ⟨14, 15⟩⟩ ∧
      ∃ ts, tokenize .standard "f\\'s'it\\'s'5.,. is\n NOT >=" = .ok ts ∧
        (∀ t ∈ ts, ∃! b : Basis, b.Explains .standard t) ∧
        ∀ t ∈ ts, (Basis.ofKind t.kind).Explains .standard t := by
  have hv := Vocabulary.standard_plainDelimiters
  have h : split .standard "f\\'s'it\\'s'5.,. is\n NOT >=" =
      .ok [⟨"f\\'s", ⟨0, 4⟩⟩, ⟨"'it\\'s'", ⟨4, 11⟩⟩, ⟨"5.", ⟨11, 13⟩⟩, ⟨",", ⟨13, 14⟩⟩,
        ⟨".", ⟨14, 15⟩⟩, ⟨"is", ⟨16, 18⟩⟩, ⟨"NOT", ⟨20, 23⟩⟩, ⟨">=", ⟨24, 26⟩⟩] := by
    decide +kernel
  obtain ⟨hfs, ts, hts, hbasis, hkind⟩ := split_recognised hv h
  exact ⟨hv, h, hfs _ (by simp), hfs _ (by simp), hfs _ (by simp), hfs _ (by simp), ts, hts, hbasis,
    hkind rfl⟩

end SqlLex
