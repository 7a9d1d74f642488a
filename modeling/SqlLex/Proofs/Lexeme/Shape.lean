import SqlLex.Proofs.Interior
import SqlLex.Proofs.Respacing

namespace SqlLex

open Text

/-!
# The shape of a lexeme

What a lexeme looks like is told from its text alone, and which shape it has from its first
character.

* `Shape`, `Shape.Fits` — the shapes of a lexeme, and what they say of its text.
* `Shape.startingWith?` — the only shape of a lexeme with a given first character;
  `Shape.Fits.startingWith?_eq` — there is no other.
* `Shape.Fits.isWord` — what is plain and holds no operator or breaking character is a word.
* `IsLexeme.exists_fits` — every lexeme has a shape.
* `IsLexeme.literalKind?_eq_some_iff`, `IsLexeme.isNumeric_iff` — what grouping takes for a literal
  or a number is one.
-/

variable {v : Vocabulary}

/-! ### Shapes -/

/-- What a lexeme can be. -/
inductive Shape where
  | literal (container : Container)
  | numeral
  | operators
  | breaking
  | word
deriving DecidableEq, Repr

/-- The text is a number: digits, and behind them a point at most with the digits that follow. -/
def IsNumeral (w : List Char) : Prop :=
  ∃ ds, ds ≠ [] ∧ ds.all Char.isDigit = true ∧
    (w = ds ∨ ∃ es, es.all Char.isDigit = true ∧ w = ds ++ '.' :: es)

/-- The text is a word: it holds no blank, digit, operator or breaking character, and an opener only
    where that is escaped. -/
structure IsWord (v : Vocabulary) (w : List Char) : Prop where
  ne_nil : w ≠ []
  member : ∀ c ∈ w, classOf c = .member .word
  escaped : ∀ u c ds, w = u ++ c :: ds → (v.containerOpenedBy? c).isSome → endsEscaped u = true

/-- A word does not start with an opener: nothing stands before it that could escape it. -/
theorem IsWord.containerOpenedBy?_eq_none {c : Char} {u : List Char} (h : IsWord v (c :: u)) :
    v.containerOpenedBy? c = none := by
  by_contra ho
  have := h.escaped [] c u rfl (Option.ne_none_iff_isSome.1 ho)
  rw [endsEscaped_nil] at this
  cases this

theorem IsWord.isBlank_eq_false {w : List Char} (h : IsWord v w) {c : Char} (hc : c ∈ w) :
    isBlank c = false :=
  isBlank_of_classOf_ne (by simp [h.member c hc])

namespace Shape

/-- The shape is that of the text. -/
def Fits (v : Vocabulary) (w : List Char) : Shape → Prop
  | literal k => k ∈ v.containers ∧ ∃ x, k.IsInterior x ∧ w = k.enclose x
  | numeral => IsNumeral w
  | operators => w ≠ [] ∧ ∀ c ∈ w, c ∈ operatorChars
  | breaking => ∃ c ∈ breakingChars, w = [c]
  | word => IsWord v w

/-- The shape is neither that of a literal nor that of a number. -/
def isPlain : Shape → Bool
  | literal _ | numeral => false
  | operators | breaking | word => true

/-- The shape of a lexeme that starts with `c`; a blank starts none. -/
def startingWith? (v : Vocabulary) (c : Char) : Option Shape :=
  match v.containerOpenedBy? c with
  | some k => some (literal k)
  | none =>
    match classOf c with
    | .member .number => some numeral
    | .member .operator => some operators
    | .member .word => some word
    | .breaking => some breaking
    | .blank => none

theorem startingWith?_of_opener {c : Char} {k : Container} (h : v.containerOpenedBy? c = some k) :
    startingWith? v c = some (literal k) := by
  unfold startingWith?
  rw [h]

theorem Fits.ne_nil {s : Shape} {w : List Char} (h : s.Fits v w) : w ≠ [] := by
  cases s with
  | literal k =>
    obtain ⟨-, x, -, rfl⟩ := h
    exact List.cons_ne_nil _ _
  | numeral =>
    obtain ⟨ds, hne, -, rfl | ⟨es, -, rfl⟩⟩ := h
    · exact hne
    · simp
  | operators => exact h.1
  | breaking =>
    obtain ⟨c, -, rfl⟩ := h
    exact List.cons_ne_nil _ _
  | word => exact IsWord.ne_nil h

/-- What is plain and holds no operator or breaking character is a word. -/
theorem Fits.isWord {s : Shape} {w : List Char} (h : s.Fits v w) (hs : s.isPlain = true)
    (hnone : ∀ c ∈ operatorChars ++ breakingChars, c ∉ w) : IsWord v w := by
  cases s with
  | literal k => cases hs
  | numeral => cases hs
  | operators =>
    obtain ⟨c, u, rfl⟩ := List.exists_cons_of_ne_nil h.1
    have hc := h.2 c List.mem_cons_self
    exact absurd List.mem_cons_self (hnone c (List.mem_append_left _ hc))
  | breaking =>
    obtain ⟨c, hc, rfl⟩ := h
    exact absurd List.mem_cons_self (hnone c (List.mem_append_right _ hc))
  | word => exact h

/-- A lexeme that is no literal holds no blank. -/
theorem Fits.isBlank_eq_false {s : Shape} {w : List Char} (h : s.Fits v w)
    (hs : ∀ k, s ≠ literal k) {c : Char} (hc : c ∈ w) : isBlank c = false := by
  cases s with
  | literal k => exact absurd rfl (hs k)
  | numeral =>
    obtain ⟨ds, -, hds, rfl | ⟨es, hes, rfl⟩⟩ := h
    · exact isBlank_of_isDigit (List.all_eq_true.1 hds c hc)
    · rcases List.mem_append.1 hc with hc | hc
      · exact isBlank_of_isDigit (List.all_eq_true.1 hds c hc)
      · rcases List.mem_cons.1 hc with rfl | hc
        · decide
        · exact isBlank_of_isDigit (List.all_eq_true.1 hes c hc)
  | operators => exact isBlank_of_classOf_ne (by simp [classOf_eq_operator_iff.2 (h.2 c hc)])
  | breaking =>
    obtain ⟨d, hd, rfl⟩ := h
    obtain rfl := List.mem_singleton.1 hc
    exact isBlank_of_classOf_ne (by simp [classOf_eq_breaking_iff.2 hd])
  | word => exact IsWord.isBlank_eq_false h hc

/-- The first character settles the shape. -/
theorem Fits.startingWith?_eq (hv : v.PlainDelimiters) {s : Shape} {c : Char} {w : List Char}
    (h : s.Fits v (c :: w)) : startingWith? v c = some s := by
  have hnone : classOf c ≠ .member .word → v.containerOpenedBy? c = none := by
    intro hc
    exact hv.containerOpenedBy?_eq_none (.inl hc)
  cases s with
  | literal k =>
    obtain ⟨hk, x, -, hw⟩ := h
    obtain ⟨rfl, -⟩ := List.cons.inj hw
    exact startingWith?_of_opener (Vocabulary.containerOpenedBy?_eq_some_iff.2 ⟨hk, rfl⟩)
  | numeral =>
    obtain ⟨ds, hne, hds, hw⟩ := h
    obtain ⟨d, ds, rfl⟩ := List.exists_cons_of_ne_nil hne
    have hc : c = d := by
      rcases hw with hw | ⟨es, -, hw⟩ <;> exact (List.cons.inj hw).1
    rw [List.all_cons, Bool.and_eq_true] at hds
    have hclass := classOf_eq_number_iff.2 hds.1
    simp [startingWith?, hc ▸ hnone, hc, hclass]
  | operators =>
    have hclass := classOf_eq_operator_iff.2 (h.2 c List.mem_cons_self)
    simp [startingWith?, hnone, hclass]
  | breaking =>
    obtain ⟨d, hd, hw⟩ := h
    obtain ⟨rfl, -⟩ := List.cons.inj hw
    have hclass : classOf c = .breaking := classOf_eq_breaking_iff.2 hd
    simp [startingWith?, hnone, hclass]
  | word =>
    have hclass := h.member c List.mem_cons_self
    simp [startingWith?, IsWord.containerOpenedBy?_eq_none h, hclass]

end Shape

/-! ### Shapes of lexemes -/

theorem isNumeral_cons_numeralTail {c : Char} (h : c.isDigit = true) (cs : List Char) :
    IsNumeral (c :: numeralTail cs) := by
  have hdigits : (c :: cs.takeWhile Char.isDigit).all Char.isDigit = true := by
    rw [List.all_cons, h, List.all_takeWhile]
    rfl
  refine ⟨_, List.cons_ne_nil _ _, hdigits, ?_⟩
  unfold numeralTail
  dsimp only
  split
  · exact .inr ⟨_, List.all_takeWhile, rfl⟩
  · exact .inl rfl

theorem isWord_cons_runUntil {c : Char} (ho : v.containerOpenedBy? c = none)
    (h : classOf c = .member .word) (cs : List Char) :
    IsWord v (c :: runUntil (endsWord v) [c] cs) := by
  -- No character of the word ends it.
  have hself : runUntil (endsWord v) [c] (runUntil (endsWord v) [c] cs) =
      runUntil (endsWord v) [c] cs := runUntil_runUntil [c] cs
  have hgoes := runUntil_eq_self_iff.1 hself
  generalize runUntil (endsWord v) [c] cs = w at hgoes
  refine ⟨List.cons_ne_nil _ _, ?_, ?_⟩
  · intro d hd
    rcases List.mem_cons.1 hd with rfl | hd
    · exact h
    · obtain ⟨u, ds, rfl⟩ := List.append_of_mem hd
      have := hgoes u d ds rfl
      simp only [endsWord, Bool.or_eq_false_iff, bne_eq_false_iff_eq] at this
      exact this.1
  · intro u d ds hw hopen
    cases u with
    | nil =>
      obtain ⟨rfl, -⟩ := List.cons.inj hw
      rw [ho] at hopen
      cases hopen
    | cons e u =>
      obtain ⟨rfl, rfl⟩ := List.cons.inj hw
      have := hgoes u d ds rfl
      simpa [endsWord, hopen] using (Bool.or_eq_false_iff.1 this).2

/-- What is read as a lexeme has a shape. -/
theorem exists_fits_of_lexemeTail {position : Nat} {c : Char} {cs w : List Char}
    (hb : isBlank c = false) (h : lexemeTail v position c cs = .ok w) :
    ∃ s : Shape, s.Fits v (c :: w) := by
  cases ho : v.containerOpenedBy? c with
  | some k =>
    rw [lexemeTail_literal ho] at h
    split at h
    · rename_i w' hw'
      cases h
      obtain ⟨x, -, hx, rfl, -⟩ := literalTail?_eq_some_iff.1 hw'
      obtain ⟨hk, rfl⟩ := Vocabulary.containerOpenedBy?_eq_some_iff.1 ho
      exact ⟨.literal k, hk, x, hx, rfl⟩
    · cases h
  | none =>
    cases hclass : classOf c with
    | blank =>
      rw [classOf_eq_blank_iff, hb] at hclass
      cases hclass
    | breaking =>
      rw [lexemeTail_breaking ho (by simp [hclass])] at h
      cases h
      exact ⟨.breaking, c, classOf_eq_breaking_iff.1 hclass, rfl⟩
    | member kind =>
      obtain ⟨hw, -⟩ := (lexemeTail_run_eq_ok_iff ho hclass).1 h
      rw [← runTail_eq v hclass] at hw
      subst hw
      cases kind with
      | number => exact ⟨.numeral, isNumeral_cons_numeralTail (classOf_eq_number_iff.1 hclass) cs⟩
      | operator =>
        refine ⟨.operators, List.cons_ne_nil _ _, List.forall_mem_cons.2 ⟨?_, ?_⟩⟩
        · exact classOf_eq_operator_iff.1 hclass
        · intro d hd
          simpa using List.mem_takeWhile_imp hd
      | word => exact ⟨.word, isWord_cons_runUntil ho hclass cs⟩

theorem IsLexeme.exists_fits {w : List Char} (h : IsLexeme v w) : ∃ s : Shape, s.Fits v w := by
  obtain ⟨c, u, rfl, hb, htail⟩ := h
  have hspace : isBlank ' ' = true := by decide
  exact exists_fits_of_lexemeTail hb (htail 0 ' ' [] hspace)

/-! ### What grouping takes for a literal or a number -/

section Grouping

variable {f : Fragment}

/-- What grouping takes for a literal is one, of the container that it is taken for. -/
theorem IsLexeme.literalKind?_eq_some_iff (hv : v.PlainDelimiters) (hf : IsLexeme v f.text.toList)
    {kind : TokenKind} :
    literalKind? v f = some kind ↔
      ∃ k, (Shape.literal k).Fits v f.text.toList ∧ k.kind = kind := by
  obtain ⟨s, hs⟩ := hf.exists_fits
  obtain ⟨c, u, hcu, -⟩ := hf
  rw [literalKind?, hcu, List.head?_cons, Option.bind_some, Option.map_eq_some_iff]
  rw [hcu] at hs
  constructor
  · rintro ⟨k, hopen, rfl⟩
    have := hs.startingWith?_eq hv
    rw [Shape.startingWith?_of_opener hopen] at this
    exact ⟨k, Option.some.inj this ▸ hs, rfl⟩
  · rintro ⟨k, ⟨hk, x, -, hx⟩, rfl⟩
    obtain ⟨rfl, -⟩ := List.cons.inj hx
    exact ⟨k, Vocabulary.containerOpenedBy?_eq_some_iff.2 ⟨hk, rfl⟩, rfl⟩

theorem Fragment.isNumeric_iff :
    f.isNumeric = true ↔ f.text.toList ≠ [] ∧ f.text.toList ≠ ['.'] ∧
      ∀ c ∈ f.text.toList, c.isDigit = true ∨ c = '.' := by
  simp [isNumeric, and_assoc]

theorem IsNumeral.isNumeric (h : IsNumeral f.text.toList) : f.isNumeric = true := by
  obtain ⟨ds, hne, hds, hw⟩ := h
  obtain ⟨d, ds, rfl⟩ := List.exists_cons_of_ne_nil hne
  rw [List.all_eq_true] at hds
  have hd : d ≠ '.' := by
    rintro rfl
    exact absurd (hds _ List.mem_cons_self) (by decide)
  rw [Fragment.isNumeric_iff]
  rcases hw with hw | ⟨es, hes, hw⟩
  · rw [hw]
    exact ⟨by simp, by simp [hd], fun c hc => .inl (hds c hc)⟩
  · rw [hw]
    refine ⟨by simp, by simp, ?_⟩
    intro c hc
    rcases List.mem_append.1 hc with hc | hc
    · exact .inl (hds c hc)
    · rcases List.mem_cons.1 hc with hc | hc
      · exact .inr hc
      · exact .inl (List.all_eq_true.1 hes c hc)

/-- What grouping takes for a number is one: a lexeme that starts with a point is that point. -/
theorem IsLexeme.isNumeric_iff (hv : v.PlainDelimiters) (hf : IsLexeme v f.text.toList) :
    f.isNumeric = true ↔ IsNumeral f.text.toList := by
  refine ⟨?_, IsNumeral.isNumeric⟩
  intro h
  obtain ⟨s, hs⟩ := hf.exists_fits
  obtain ⟨c, u, hcu, -⟩ := hf
  rw [Fragment.isNumeric_iff] at h
  rw [hcu] at hs h ⊢
  have hstart := hs.startingWith?_eq hv
  rcases h.2.2 c List.mem_cons_self with hc | rfl
  · have hclass := classOf_eq_number_iff.2 hc
    have ho := hv.containerOpenedBy?_eq_none (c := c) (.inl (by simp [hclass]))
    simp only [Shape.startingWith?, ho, hclass, Option.some.injEq] at hstart
    subst hstart
    exact hs
  · have ho := hv.containerOpenedBy?_eq_none (c := '.') (.inl (by simp [classOf_point]))
    simp only [Shape.startingWith?, ho, classOf_point, Option.some.injEq] at hstart
    subst hstart
    obtain ⟨d, -, hd⟩ := hs
    obtain ⟨rfl, rfl⟩ := List.cons.inj hd
    exact absurd rfl h.2.1

end Grouping

end SqlLex
