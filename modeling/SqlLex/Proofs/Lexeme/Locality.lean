import SqlLex.Proofs.Lexeme.Basic

namespace SqlLex

open Text

/-!
# How much of the text settles a lexeme

* `Container.IsInterior` — what can stand between the delimiters of a literal.
* `literalTail?_eq_some_iff` — a literal is an interior, and the closer behind it.
* `exists_append_of_lexemeTail` — a lexeme is a first part of the text.
* `lexemeTail_congr` — a lexeme is the same wherever the same character follows it, and wherever a
  blank does.
* `munch_cons_eq_ok` — the first lexeme of a text and the others.
* `laidOut_of_munch` — the lexemes of a text are laid out in it.
* `exists_munch_append` — up to where a fragment starts, a text is read without regard to the rest.
-/

/-! ### Literals -/

/-- What can stand between the delimiters of a literal: each closer in it is escaped, and the one
    behind it is not. -/
structure Container.IsInterior (k : Container) (x : List Char) : Prop where
  escaped : ∀ u ds, x = u ++ k.closer :: ds → endsEscaped u = true
  closed : endsEscaped x = false

theorem runUntil_closes_eq_self_iff {k : Container} {x : List Char} :
    runUntil (closes k) [] x = x ↔ ∀ u ds, x = u ++ k.closer :: ds → endsEscaped u = true := by
  rw [runUntil_eq_self_iff]
  constructor
  · -- A closer that does not stop the literal is escaped.
    intro h u ds hx
    simpa [closes] using h u k.closer ds hx
  · intro h u d ds hx
    by_cases hd : d = k.closer
    · subst hd
      simp [closes, h u ds hx]
    · simp [closes, hd]

instance (k : Container) (x : List Char) : Decidable (k.IsInterior x) :=
  decidable_of_iff (runUntil (closes k) [] x = x ∧ endsEscaped x = false)
    ⟨fun h => ⟨runUntil_closes_eq_self_iff.1 h.1, h.2⟩,
      fun h => ⟨runUntil_closes_eq_self_iff.2 h.escaped, h.closed⟩⟩

/-- A literal ends with the first closer that is not escaped. -/
theorem literalTail?_eq_some_iff {k : Container} {cs w : List Char} :
    literalTail? k cs = some w ↔
      ∃ x rest, k.IsInterior x ∧ w = x ++ [k.closer] ∧ cs = x ++ k.closer :: rest := by
  constructor
  · intro h
    simp only [literalTail?] at h
    split at h
    · rename_i hlt
      -- What follows the interior starts with its stop, which is the closer.
      obtain ⟨d, rest, hrest⟩ := List.exists_cons_of_length_pos
        (l := cs.drop (runUntil (closes k) [] cs).length) (by rw [List.length_drop]; omega)
      have hd := stop_of_drop_eq_cons hrest
      simp only [closes, List.nil_append, Bool.and_eq_true, beq_iff_eq, Bool.not_eq_true'] at hd
      have hcs : runUntil (closes k) [] cs ++ cs.drop (runUntil (closes k) [] cs).length = cs :=
        runUntil_append_drop [] cs
      rw [hrest, hd.1] at hcs
      exact ⟨_, rest, ⟨runUntil_closes_eq_self_iff.1 (runUntil_runUntil [] cs), hd.2⟩,
        (Option.some.inj h).symm, hcs.symm⟩
    · cases h
  · rintro ⟨x, rest, hx, rfl, rfl⟩
    have hrun : runUntil (closes k) [] (x ++ k.closer :: rest) = x :=
      runUntil_append_stop (runUntil_closes_eq_self_iff.2 hx.escaped)
        (by simp [closes, hx.closed]) rest
    simp [literalTail?, hrun]

/-! ### Lexemes -/

section Lexeme

variable {v : Vocabulary} {c : Char}

theorem lexemeTail_run_eq_ok_iff {kind : RunKind} (ho : v.containerOpenedBy? c = none)
    (h : classOf c = .member kind) {position : Nat} {cs w : List Char} :
    lexemeTail v position c cs = .ok w ↔
      runUntil (endsRun v kind) [c] cs = w ∧
        runFault? kind position (c :: w) (cs.drop w.length) = none := by
  rw [lexemeTail_run ho h]
  dsimp only
  split
  · rename_i e he
    constructor
    · intro hw
      cases hw
    · rintro ⟨rfl, hn⟩
      rw [he] at hn
      cases hn
  · rename_i he
    constructor
    · intro hw
      cases hw
      exact ⟨rfl, he⟩
    · rintro ⟨hw, -⟩
      rw [hw]

/-- A lexeme is a first part of the text. -/
theorem exists_append_of_lexemeTail {position : Nat} {cs w : List Char}
    (h : lexemeTail v position c cs = .ok w) : ∃ rest, cs = w ++ rest := by
  cases ho : v.containerOpenedBy? c with
  | some k =>
    rw [lexemeTail_literal ho] at h
    split at h
    · rename_i x hx
      obtain ⟨y, rest, -, hw, rfl⟩ := literalTail?_eq_some_iff.1 hx
      cases h
      exact ⟨rest, by simp [hw]⟩
    · cases h
  | none =>
    by_cases hc : ∃ kind, classOf c = .member kind
    · obtain ⟨kind, hc⟩ := hc
      obtain ⟨rfl, -⟩ := (lexemeTail_run_eq_ok_iff ho hc).1 h
      exact ⟨_, (runUntil_append_drop [c] cs).symm⟩
    · rw [lexemeTail_breaking ho fun kind hk => hc ⟨kind, hk⟩] at h
      cases h
      exact ⟨cs, rfl⟩

/-- **Locality.**  Which lexeme stands at the front is settled by its own characters and the one
    that follows; a blank leaves every lexeme as it is. -/
theorem lexemeTail_congr {position : Nat} {w rest : List Char} {d : Char}
    (h : lexemeTail v position c (w ++ rest) = .ok w)
    (hd : isBlank d = true ∨ rest.head? = some d) (position' : Nat) (ds : List Char) :
    lexemeTail v position' c (w ++ d :: ds) = .ok w := by
  cases ho : v.containerOpenedBy? c with
  | some k =>
    rw [lexemeTail_literal ho] at h ⊢
    split at h
    · rename_i x hx
      cases h
      obtain ⟨y, -, hy, rfl, -⟩ := literalTail?_eq_some_iff.1 hx
      rw [literalTail?_eq_some_iff.2 ⟨y, d :: ds, hy, rfl, by simp⟩]
    · cases h
  | none =>
    by_cases hc : ∃ kind, classOf c = .member kind
    · obtain ⟨kind, hc⟩ := hc
      rw [lexemeTail_run_eq_ok_iff ho hc] at h ⊢
      obtain ⟨hrun, hfault⟩ := h
      -- The run goes on over its own characters in either text.
      have hself : runUntil (endsRun v kind) [c] w = w := by
        rw [← hrun, runUntil_runUntil]
      -- The character behind the run stops it in either text.
      have hstop : endsRun v kind ([c] ++ w) d = true := by
        rcases hd with hd | hd
        · exact endsRun_of_isBlank v hd kind _
        · obtain ⟨es, rfl⟩ : ∃ es, rest = d :: es := by
            cases rest with
            | nil => cases hd
            | cons e es => exact ⟨es, by rw [Option.some.inj hd]⟩
          have hdrop : (w ++ d :: es).drop (runUntil (endsRun v kind) [c] (w ++ d :: es)).length =
              d :: es := by rw [hrun, List.drop_left]
          have := stop_of_drop_eq_cons hdrop
          rwa [hrun] at this
      refine ⟨runUntil_append_stop hself hstop ds, ?_⟩
      -- A word is at fault at the end of a text only, and a number in front of a point, which is
      -- not blank.
      rw [List.drop_left] at hfault ⊢
      rw [runFault?_eq_none_iff] at hfault ⊢
      constructor
      · rintro ⟨hk, hm, hp⟩
        have hpoint : d = '.' := Option.some.inj hp
        subst hpoint
        rcases hd with hd | hd
        · exact absurd hd (by decide)
        · exact hfault.1 ⟨hk, hm, hd⟩
      · rintro ⟨-, hnil, -⟩
        exact List.cons_ne_nil _ _ hnil
    · have hb := lexemeTail_breaking (v := v) ho fun kind hk => hc ⟨kind, hk⟩
      rw [hb] at h ⊢
      exact h

/-- A lexeme stays as it is if the text changes behind a character that it does not reach. -/
theorem lexemeTail_append_congr {position : Nat} {w u ds : List Char} {d : Char}
    (h : lexemeTail v position c (w ++ (u ++ d :: ds)) = .ok w) (es : List Char) :
    lexemeTail v position c (w ++ (u ++ d :: es)) = .ok w := by
  cases u with
  | nil => exact lexemeTail_congr h (.inr rfl) position es
  | cons e u => exact lexemeTail_congr h (.inr rfl) position (u ++ d :: es)

end Lexeme

/-! ### Layout -/

section Munch

variable {v : Vocabulary} {position : Nat} {c : Char} {cs : List Char} {fs : List Fragment}

/-- The lexemes of a text start with the first one, and go on with those of the rest. -/
theorem munch_cons_eq_ok (h : isBlank c = false) (hm : munch v position (c :: cs) = ⟨fs, .ok ()⟩) :
    ∃ w rest gs, cs = w ++ rest ∧ lexemeTail v position c (w ++ rest) = .ok w ∧
      munch v (position + byteSize (c :: w)) rest = ⟨gs, .ok ()⟩ ∧
      fs = .ofList position (c :: w) :: gs := by
  cases hw : lexemeTail v position c cs with
  | error e =>
    rw [munch_error h hw] at hm
    cases hm
  | ok w =>
    obtain ⟨rest, rfl⟩ := exists_append_of_lexemeTail hw
    rw [munch_ok h hw, List.drop_left, Progress.andThen_eq_ok_iff] at hm
    obtain ⟨_, _, gs, hemit, hrest, rfl⟩ := hm
    cases hemit
    exact ⟨w, rest, gs, rfl, hw, hrest, rfl⟩

/-- The lexemes of a text are laid out in it. -/
theorem laidOut_of_munch (h : munch v position cs = ⟨fs, .ok ()⟩) : LaidOut position cs fs := by
  induction position, cs using munch.induct generalizing fs with
  | case1 position =>
    rw [munch_nil] at h
    cases h
    exact .nil
  | case2 position c cs ih =>
    cases hb : isBlank c with
    | true =>
      rw [munch_blank hb] at h
      exact .blank hb (ih [] h)
    | false =>
      obtain ⟨w, rest, gs, rfl, -, hrest, rfl⟩ := munch_cons_eq_ok hb h
      have := ih w (by rwa [List.drop_left])
      rw [List.drop_left] at this
      exact .fragment (List.cons_ne_nil c w) this

/-- A text is read in the same way up to where a fragment starts, whatever stands behind the first
    character of that fragment. -/
theorem exists_munch_append {ds : List Char}
    (h : munch v position (cs ++ c :: ds) = ⟨fs, .ok ()⟩) {f : Fragment} (hf : f ∈ fs)
    (hstart : f.span.start = position + byteSize cs) :
    ∃ gs, ∀ es, munch v position (cs ++ c :: es) =
      (⟨gs, .ok ()⟩ : Progress Unit).andThen fun _ =>
        munch v (position + byteSize cs) (c :: es) := by
  generalize hall : cs ++ c :: ds = all at h
  induction position, all using munch.induct generalizing cs fs with
  | case1 position => simp at hall
  | case2 position d all ih =>
    cases cs with
    | nil => exact ⟨[], fun es => rfl⟩
    | cons d' cs =>
      rw [List.cons_append] at hall
      obtain ⟨rfl, rfl⟩ := List.cons.inj hall
      rw [byteSize_cons, ← Nat.add_assoc] at hstart ⊢
      cases hb : isBlank d' with
      | true =>
        rw [munch_blank hb] at h
        obtain ⟨gs, hgs⟩ := ih [] hf hstart rfl h
        refine ⟨gs, ?_⟩
        intro es
        rw [List.cons_append, munch_blank hb]
        exact hgs es
      | false =>
        obtain ⟨w, rest, gs, hcs, hw, hrest, rfl⟩ := munch_cons_eq_ok hb h
        -- The fragment is not the first one, so it starts behind the first lexeme.
        have hpos := d'.utf8Size_pos
        have hmem : f ∈ gs := by
          rcases List.mem_cons.1 hf with rfl | hf
          · simp only [Fragment.ofList] at hstart
            omega
          · exact hf
        have hle := ((laidOut_of_munch hrest).bounds hmem).1
        rw [hstart, byteSize_cons] at hle
        obtain ⟨u, rfl, rfl⟩ := exists_append_of_byteSize_le hcs.symm (by omega)
        have hposition : position + d'.utf8Size + byteSize (w ++ u) =
            position + byteSize (d' :: w) + byteSize u := by
          rw [byteSize_append, byteSize_cons]
          omega
        rw [hposition] at hstart ⊢
        rw [hcs] at ih
        obtain ⟨hs, hhs⟩ := @ih w u gs hmem hstart List.drop_left.symm (by rwa [List.drop_left])
        refine ⟨.ofList position (d' :: w) :: hs, ?_⟩
        intro es
        have hlexeme := lexemeTail_append_congr hw es
        rw [List.cons_append, List.append_assoc, munch_ok hb hlexeme, List.drop_left, hhs,
          ← Progress.andThen_assoc]
        rfl

end Munch

end SqlLex
