import SqlLex.Proofs.Piece
import SqlLex.Proofs.Shift

namespace SqlLex

open Text

/-!
# The case of letters

A query is read in the same way whether the letters of ASCII in it are capitals or not, as long as
none of them is a delimiter: its fragments stand in the same places, and its words are the same
keywords.

* `congr_toLower` — what does not tell capitals from their small letters does not tell any character
  from its small form.
* `lowercase_toLower` — the lowercase form of a text, whichever of its letters are capitals.
* `Vocabulary.CaselessDelimiters` — no letter of ASCII is a delimiter.
* `Move.apply_lower`, `Scanner.step_lower`, `Scanner.read_lower` — a character and a text.
* `split_toLower`, `tokensOf_map_lower` — fragments and tokens.
* `SameUpToCase`, `tokenize_sameUpToCase` — two queries that differ in case only.
-/

variable {v : Vocabulary}

/-! ### Characters -/

namespace Text

/-- The capitals of ASCII. -/
def capitals : List Char := "ABCDEFGHIJKLMNOPQRSTUVWXYZ".toList

theorem toLower_eq_self_or_mem (c : Char) : c.toLower = c ∨ c ∈ capitals := by
  by_cases h : 65 ≤ c.toNat ∧ c.toNat ≤ 90
  · right
    have hcodes : ∀ n < 91, 65 ≤ n → Char.ofNat n ∈ capitals := by decide
    rw [← c.ofNat_toNat]
    exact hcodes _ (by omega) h.1
  · left
    have hrange : ¬(c.val ≥ 'A'.val ∧ c.val ≤ 'Z'.val) := by
      intro hc
      exact h ⟨UInt32.le_iff_toNat_le.1 hc.1, UInt32.le_iff_toNat_le.1 hc.2⟩
    exact dif_neg hrange

/-- What does not tell capitals from their small letters does not tell any characters from these. -/
theorem congr_toLower {α : Type} [DecidableEq α] {f : Char → α}
    (h : (capitals.all fun c => f c.toLower = f c) = true) (c : Char) : f c.toLower = f c := by
  rcases toLower_eq_self_or_mem c with hc | hc
  · rw [hc]
  · exact of_decide_eq_true (List.all_eq_true.1 h c hc)

/-- A character that is no letter of ASCII stands for itself alone. -/
theorem toLower_eq_iff {d : Char} (hd : d.isAlpha = false) {c : Char} :
    c.toLower = d ↔ c = d := by
  have hletters : (capitals.all fun e => e.isAlpha && e.toLower.isAlpha) = true := by decide
  rcases toLower_eq_self_or_mem c with hc | hc
  · rw [hc]
  · obtain ⟨hupper, hlower⟩ := (Bool.and_eq_true _ _).mp (List.all_eq_true.1 hletters c hc)
    constructor
    · rintro rfl
      rw [hd] at hlower
      cases hlower
    · rintro rfl
      rw [hd] at hupper
      cases hupper

@[simp] theorem isBlank_toLower (c : Char) : isBlank c.toLower = isBlank c :=
  congr_toLower (by decide) c

@[simp] theorem utf8Size_toLower (c : Char) : c.toLower.utf8Size = c.utf8Size :=
  congr_toLower (f := Char.utf8Size) (by decide) c

@[simp] theorem isCased_toLower (c : Char) : isCased c.toLower = isCased c :=
  congr_toLower (by decide) c

@[simp] theorem isCaseIgnorable_toLower (c : Char) :
    isCaseIgnorable c.toLower = isCaseIgnorable c :=
  congr_toLower (by decide) c

@[simp] theorem lowerChar_toLower (c : Char) : lowerChar c.toLower = lowerChar c :=
  congr_toLower (by decide) c

/-! ### Texts -/

@[simp] theorem toList_toLower (s : String) : s.toLower.toList = s.toList.map Char.toLower :=
  String.toList_map

@[simp] theorem byteSize_map_toLower (cs : List Char) :
    byteSize (cs.map Char.toLower) = byteSize cs := by
  induction cs with
  | nil => rfl
  | cons c cs ih => rw [List.map_cons, byteSize_cons, byteSize_cons, utf8Size_toLower, ih]

@[simp] theorem utf8ByteSize_toLower (s : String) : s.toLower.utf8ByteSize = s.utf8ByteSize := by
  rw [← byteSize_toList, toList_toLower, byteSize_map_toLower, byteSize_toList]

theorem toLower_singleton (c : Char) :
    (String.singleton c).toLower = String.singleton c.toLower := by
  rw [← String.toList_inj]
  simp

theorem toLower_push (s : String) (c : Char) : (s.push c).toLower = s.toLower.push c.toLower := by
  rw [← String.toList_inj]
  simp

theorem mem_map_toLower_iff {d : Char} (hd : d.isAlpha = false) {cs : List Char} :
    d ∈ cs.map Char.toLower ↔ d ∈ cs := by
  simp [toLower_eq_iff hd]

theorem meetsCased_map_toLower (cs : List Char) :
    meetsCased (cs.map Char.toLower) = meetsCased cs := by
  have hignored : isCaseIgnorable ∘ Char.toLower = isCaseIgnorable := funext isCaseIgnorable_toLower
  rw [meetsCased, meetsCased, List.dropWhile_map, hignored]
  cases cs.dropWhile isCaseIgnorable with
  | nil => rfl
  | cons c cs => exact isCased_toLower c

theorem lowerBetween_toLower (before : List Char) (c : Char) (after : List Char) :
    lowerBetween (before.map Char.toLower) c.toLower (after.map Char.toLower) =
      lowerBetween before c after := by
  have hfinal : isFinalSigma (before.map Char.toLower) (after.map Char.toLower) =
      isFinalSigma before after := by
    rw [isFinalSigma, meetsCased_map_toLower, meetsCased_map_toLower, isFinalSigma]
  rw [lowerBetween, lowerBetween, hfinal, lowerChar_toLower]
  exact if_congr (toLower_eq_iff (by decide)) rfl rfl

theorem lowerAfter_map_toLower (before cs : List Char) :
    lowerAfter (before.map Char.toLower) (cs.map Char.toLower) = lowerAfter before cs := by
  induction cs generalizing before with
  | nil => rfl
  | cons c cs ih =>
    have := ih (c :: before)
    rw [List.map_cons] at this
    rw [List.map_cons, lowerAfter_cons, lowerAfter_cons, lowerBetween_toLower, this]

/-- **The lowercase form of a text is the same whichever of its letters are capitals.**  A capital
    sigma in it sees letters on its sides in either case. -/
theorem lowercase_toLower (s : String) : lowercase s.toLower = lowercase s := by
  have hlower : lowerAfter [] (s.toList.map Char.toLower) = lowerAfter [] s.toList :=
    lowerAfter_map_toLower [] s.toList
  rw [lowercase, toList_toLower, hlower, lowercase]

end Text

theorem toLower_joinWords (ws : List String) :
    (joinWords ws).toLower = joinWords (ws.map String.toLower) := by
  rw [← String.toList_inj]
  induction ws with
  | nil => simp [joinWords]
  | cons w ws ih =>
    cases ws with
    | nil => simp
    | cons x ws =>
      rw [List.map_cons] at ih
      simp [joinWords_cons_cons, ← ih]

@[simp] theorem classOf_toLower (c : Char) : classOf c.toLower = classOf c :=
  congr_toLower (by decide) c

/-- No letter of ASCII is a delimiter. -/
def Vocabulary.CaselessDelimiters (v : Vocabulary) : Prop :=
  ∀ k ∈ v.containers, k.opener.isAlpha = false ∧ k.closer.isAlpha = false

instance (v : Vocabulary) : Decidable v.CaselessDelimiters :=
  inferInstanceAs (Decidable (∀ k ∈ v.containers, _))

theorem Vocabulary.CaselessDelimiters.containerOpenedBy?_toLower (hv : v.CaselessDelimiters)
    (c : Char) : v.containerOpenedBy? c.toLower = v.containerOpenedBy? c := by
  apply Option.ext
  intro k
  rw [containerOpenedBy?_eq_some_iff, containerOpenedBy?_eq_some_iff]
  apply and_congr_right
  intro hk
  rw [eq_comm, toLower_eq_iff (hv k hk).1, eq_comm]

/-! ### Fragments and pieces -/

/-- The fragment in small letters. -/
def Fragment.lower (f : Fragment) : Fragment := ⟨f.text.toLower, f.span⟩

/-- The piece in small letters. -/
def Piece.lower (p : Piece) : Piece := { p with text := p.text.toLower }

theorem Piece.kind_lower (p : Piece) : p.lower.kind = p.kind := rfl

theorem Fragment.lower_ofChar (position : Nat) (c : Char) :
    (Fragment.ofChar position c).lower = .ofChar position c.toLower := by
  simp [lower, ofChar, toLower_singleton]

theorem Piece.lower_push (p : Piece) (c : Char) : (p.push c).lower = p.lower.push c.toLower := by
  simp [lower, push, toLower_push]

theorem Piece.lower_singleton (kind : PieceKind) (position : Nat) (c : Char) :
    (singleton kind position c).lower = singleton kind position c.toLower := by
  simp [lower, singleton, toLower_singleton]

theorem Piece.toFragment_lower (p : Piece) : p.lower.toFragment = p.toFragment.lower := by
  simp [toFragment, lower, Fragment.lower]

/-- A number has no letters. -/
theorem IsNumeral.toLower_eq {s : String} (h : IsNumeral s.toList) : s.toLower = s := by
  have hdigit : ∀ c : Char, c.isDigit = true → c.toLower = c := by
    intro c hc
    have hnone : (capitals.all fun d => !d.isDigit) = true := by decide
    refine (toLower_eq_self_or_mem c).resolve_right ?_
    intro hmem
    have := List.all_eq_true.1 hnone c hmem
    rw [hc] at this
    cases this
  have hdigits : ∀ ds : List Char, ds.all Char.isDigit = true → ds.map Char.toLower = ds := by
    intro ds hds
    rw [List.map_congr_left fun c hc => hdigit c (List.all_eq_true.1 hds c hc), List.map_id']
  rw [← String.toList_inj, toList_toLower]
  obtain ⟨ds, -, hds, heq | ⟨es, hes, heq⟩⟩ := h
  · rw [heq, hdigits ds hds]
  · rw [heq, List.map_append, List.map_cons, hdigits ds hds, hdigits es hes]
    rfl

/-! ### Reading -/

theorem plainMove_lower (pending : Option Piece) (c : Char) :
    plainMove (pending.map .lower) c.toLower = plainMove pending c := by
  have hpoint : c.toLower = '.' ↔ c = '.' := toLower_eq_iff (by decide)
  have hpoints : ((pending.map Piece.lower).any fun p => p.text.toList.contains '.') =
      pending.any fun p => p.text.toList.contains '.' := by
    cases pending with
    | none => rfl
    | some p =>
      have hmem : '.' ∈ p.text.toList.map Char.toLower ↔ '.' ∈ p.text.toList :=
        mem_map_toLower_iff (by decide)
      simp [Piece.lower, hmem]
  cases hc : classOf c with
  | blank => rw [plainMove_blank hc, plainMove_blank ((classOf_toLower c).trans hc)]
  | member kind =>
    rw [plainMove_member hc, plainMove_member ((classOf_toLower c).trans hc),
      isReading_map Piece.kind_lower]
  | breaking =>
    rw [plainMove_breaking hc, plainMove_breaking ((classOf_toLower c).trans hc),
      isReading_map Piece.kind_lower, hpoints]
    simp only [hpoint]

/-- A letter does the same in either case. -/
theorem moveOf_lower (hv : v.CaselessDelimiters) {pending : Option Piece}
    (hpending : ∀ p ∈ pending, p.Fits v) (escaped : Bool) (c : Char) :
    moveOf v (pending.map .lower) escaped c.toLower = moveOf v pending escaped c := by
  unfold moveOf
  rw [openLiteral?_map Piece.kind_lower, hv.containerOpenedBy?_toLower, plainMove_lower]
  cases hopen : openLiteral? pending with
  | none => rfl
  | some q =>
    obtain ⟨p, k⟩ := q
    -- The literal that is open is one of the vocabulary, so no letter closes it.
    obtain ⟨rfl, hk⟩ := openLiteral?_eq_some_iff.1 hopen
    have hfits := hpending p rfl
    rw [Piece.Fits, hk] at hfits
    have hclose : (c.toLower == k.closer) = (c == k.closer) := by
      rw [Bool.eq_iff_iff, beq_iff_eq, beq_iff_eq]
      exact toLower_eq_iff (hv k hfits.1).2
    simp only [Option.map_some, hclose]

/-- What a move comes to is the same in small letters, if there is no letter in a number that is
    reported. -/
theorem Move.apply_lower {m : Move} {pending : Option Piece} {c : Char}
    (h : m = .fault → c.toLower = c ∧ ∀ p ∈ pending, p.text.toLower = p.text) (position : Nat) :
    m.apply (pending.map .lower) position c.toLower =
      (m.apply pending position c).mapWith .lower id (Option.map .lower) := by
  apply Move.apply_map Piece.toFragment_lower (fun p => (Piece.lower_push p c).symm)
    (fun kind => (Piece.lower_singleton kind position c).symm)
    (Fragment.lower_ofChar position c).symm
  intro hm
  obtain ⟨hc, htext⟩ := h hm
  subst hm
  cases pending with
  | none =>
    rw [hc]
    rfl
  | some p =>
    have hp : p.lower = p := by simp [Piece.lower, htext p rfl]
    rw [hc, Option.map_some, hp]
    rfl

theorem readChar_lower (hv : v.CaselessDelimiters) {pending : Option Piece}
    (hpending : ∀ p ∈ pending, p.Fits v) (escaped : Bool) (position : Nat) (c : Char) :
    readChar v (pending.map .lower) escaped position c.toLower =
      (readChar v pending escaped position c).mapWith .lower id (Option.map .lower) := by
  rw [readChar_eq_apply, readChar_eq_apply, moveOf_lower hv hpending]
  apply Move.apply_lower
  intro hfault
  have hmakes := makes_moveOf v pending escaped c
  rw [hfault] at hmakes
  cases hmakes with
  | @fault p _ hp hk hc _ =>
    subst hp hc
    have hfits := hpending p rfl
    rw [Piece.Fits, hk] at hfits
    refine ⟨by decide, ?_⟩
    rintro q ⟨⟩
    exact IsNumeral.toLower_eq hfits

namespace Scanner

/-- The scanner when what it reads is in small letters. -/
def lower (s : Scanner) : Scanner := ⟨s.position, s.pending.map .lower, s.escape?⟩

variable {s : Scanner}

theorem isEscaped_lower (s : Scanner) (c : Char) : s.lower.isEscaped c.toLower = s.isEscaped c := by
  have hescape : c.toLower = escapeChar ↔ c = escapeChar := toLower_eq_iff (by decide)
  simp [isEscaped, lower, hescape]

theorem escapeAfter_lower (s : Scanner) (c : Char) :
    s.lower.escapeAfter c.toLower = s.escapeAfter c := by
  have hescape : (c.toLower = escapeChar) = (c = escapeChar) :=
    propext (toLower_eq_iff (by decide))
  simp [escapeAfter, lower, hescape]

theorem step_lower (hv : v.CaselessDelimiters) (hs : s.Sound v) (c : Char) :
    s.lower.step v c.toLower = (s.step v c).mapWith .lower id lower := by
  rw [step, step, isEscaped_lower, escapeAfter_lower, utf8Size_toLower]
  show (readChar v (s.pending.map .lower) _ s.position c.toLower).andThen _ = _
  rw [readChar_lower hv hs]
  symm
  apply Progress.mapWith_andThen
  intro pending _
  rfl

theorem finish_lower (s : Scanner) : s.lower.finish = s.finish.mapWith .lower id id := by
  have hpending : s.lower.pending = s.pending.map .lower := rfl
  have hescape : s.lower.escape? = s.escape? := rfl
  unfold finish
  rw [hpending, hescape, openLiteral?_map Piece.kind_lower, completed_map Piece.toFragment_lower]
  cases openLiteral? s.pending with
  | some q => rfl
  | none => cases s.escape? <;> rfl

/-- In small letters the same pieces are read, in small letters. -/
theorem read_lower (hv : v.CaselessDelimiters) (hs : s.Sound v) (cs : List Char) :
    s.lower.read v (cs.map Char.toLower) = (s.read v cs).mapWith .lower id id :=
  read_map (fun _ c hs => step_lower hv hs c) (fun _ _ _ _ hs h => step_sound hs h) finish_lower hs
    cs

end Scanner

/-! ### Splitting and grouping -/

theorem bodyStart_map_toLower (cs : List Char) :
    bodyStart (cs.map Char.toLower) = bodyStart cs := by
  have hblank : isBlank ∘ Char.toLower = isBlank := funext isBlank_toLower
  rw [bodyStart, List.takeWhile_map, hblank, byteSize_map_toLower, bodyStart]

theorem bodyOf_map_toLower (cs : List Char) :
    bodyOf (cs.map Char.toLower) = (bodyOf cs).map Char.toLower := by
  have hblank : isBlank ∘ Char.toLower = isBlank := funext isBlank_toLower
  have htrim : trim (cs.map Char.toLower) = (trim cs).map Char.toLower := by
    rw [trim, trimEnd, trimStart, List.dropWhile_map, hblank, ← List.map_reverse,
      List.dropWhile_map, hblank, ← List.map_reverse]
    rfl
  have hlast : ((trim cs).map Char.toLower).getLast? = some terminator ↔
      (trim cs).getLast? = some terminator := by
    rw [List.getLast?_map]
    cases (trim cs).getLast? with
    | none => simp
    | some c => simpa using toLower_eq_iff (by decide)
  rw [bodyOf, bodyOf, htrim, dropTerminator, dropTerminator, ← List.map_dropLast, apply_ite
    (List.map Char.toLower)]
  exact if_congr hlast rfl rfl

theorem splitting_toLower (hv : v.CaselessDelimiters) (sql : String) :
    splitting v sql.toLower = (splitting v sql).mapWith .lower id id := by
  rw [splitting, toList_toLower, bodyStart_map_toLower, bodyOf_map_toLower]
  exact Scanner.read_lower hv (Scanner.sound_start v _) _

/-- The fragments of a query in small letters. -/
theorem split_toLower (hv : v.CaselessDelimiters) (sql : String) :
    split v sql.toLower = (split v sql).map (List.map .lower) := by
  rw [split, split, splitting_toLower hv]
  obtain ⟨fs, e | a⟩ := splitting v sql <;> rfl

theorem wordsKept_lower (hv : v.CaselessDelimiters) : WordsKept v .lower where
  literalKind?_eq f := by
    have hhead : f.lower.text.toList.head? = f.text.toList.head?.map Char.toLower := by
      rw [Fragment.lower, toList_toLower, List.head?_map]
    rw [literalKind?, literalKind?, hhead]
    cases f.text.toList.head? with
    | none => rfl
    | some c =>
      show (v.containerOpenedBy? c.toLower).map _ = (v.containerOpenedBy? c).map _
      rw [hv.containerOpenedBy?_toLower]
  isNumeric_eq f := by
    have hpoint : (f.text.toList.map Char.toLower != ['.']) = (f.text.toList != ['.']) := by
      rw [Bool.eq_iff_iff, bne_iff_ne, bne_iff_ne, ne_eq, List.map_eq_singleton_iff]
      simp [toLower_eq_iff (show '.'.isAlpha = false by decide)]
    have hpart : (fun c : Char => c.isDigit || c == '.') ∘ Char.toLower =
        fun c => c.isDigit || c == '.' :=
      funext (congr_toLower (f := fun c => c.isDigit || c == '.') (by decide))
    simp only [Fragment.isNumeric, Fragment.lower, toList_toLower, List.isEmpty_map, hpoint,
      List.all_map, hpart]
  phrase_eq fs := by
    have htexts : (fs.map Fragment.lower).map (·.text) = (fs.map (·.text)).map String.toLower := by
      rw [List.map_map, List.map_map]
      rfl
    rw [phrase, htexts, ← toLower_joinWords, lowercase_toLower, phrase]

/-- The token in small letters. -/
def Token.lower (t : Token) : Token := ⟨t.kind, t.raw.toLower, t.span⟩

theorem Group.token_map_lower (g : Group) : (g.map .lower).token = g.token.lower := by
  have hraw : (g.map .lower).raw = g.raw.toLower := by
    rw [raw, raw, toLower_joinWords, List.map_map]
    show joinWords ((g.fragments.map Fragment.lower).map (·.text)) = _
    rw [List.map_map]
    rfl
  have hspan : (g.map .lower).span = g.span := by
    show g.head.span.merge ((g.tail.map Fragment.lower).getLastD g.head.lower).span = _
    rw [List.getLastD_map]
    rfl
  rw [token, hraw, hspan]
  rfl

/-- The tokens of fragments in small letters. -/
theorem tokensOf_map_lower (hv : v.CaselessDelimiters) (fs : List Fragment) :
    tokensOf v (fs.map .lower) = (tokensOf v fs).map .lower := by
  rw [tokensOf, groups_map (wordsKept_lower hv), tokensOf, List.map_map, List.map_map]
  apply List.map_congr_left
  intro g _
  exact Group.token_map_lower g

/-! ### Queries that differ in case only -/

/-- The tokens are of the same kind, stand in the same place, and their words differ in the case of
    letters of ASCII only. -/
structure Token.EqualUpToCase (t u : Token) : Prop where
  kind_eq : t.kind = u.kind
  span_eq : t.span = u.span
  toLower_raw_eq : t.raw.toLower = u.raw.toLower

/-- Two queries have the same error, or tokens that differ in the case of letters of ASCII only. -/
inductive SameUpToCase : Except LexError (List Token) → Except LexError (List Token) → Prop where
  | error (e : LexError) : SameUpToCase (.error e) (.error e)
  | ok {ts us : List Token} :
    List.Forall₂ Token.EqualUpToCase ts us → SameUpToCase (.ok ts) (.ok us)

/-- **The case of letters tells nothing.**  If no letter of ASCII is a delimiter, two queries that
    differ in the case of such letters only have the same error, or tokens that differ so. -/
theorem tokenize_sameUpToCase (hv : v.CaselessDelimiters) {sql₁ sql₂ : String}
    (h : sql₁.toLower = sql₂.toLower) : SameUpToCase (tokenize v sql₁) (tokenize v sql₂) := by
  have hsplit : (split v sql₁).map (List.map Fragment.lower) =
      (split v sql₂).map (List.map Fragment.lower) := by
    rw [← split_toLower hv, h, split_toLower hv]
  rw [tokenize, tokenize]
  -- In small letters both have the same error, or the same fragments and so the same tokens.
  cases h₁ : split v sql₁ with
  | error e =>
    cases h₂ : split v sql₂ with
    | error e' =>
      rw [h₁, h₂] at hsplit
      obtain rfl := Except.error.inj hsplit
      exact .error e
    | ok gs =>
      rw [h₁, h₂] at hsplit
      cases hsplit
  | ok fs =>
    cases h₂ : split v sql₂ with
    | error e =>
      rw [h₁, h₂] at hsplit
      cases hsplit
    | ok gs =>
      rw [h₁, h₂] at hsplit
      have hfragments : fs.map Fragment.lower = gs.map .lower := Except.ok.inj hsplit
      have htokens : (tokensOf v fs).map Token.lower = (tokensOf v gs).map .lower := by
        rw [← tokensOf_map_lower hv, hfragments, tokensOf_map_lower hv]
      rw [← List.forall₂_eq_eq_eq, List.forall₂_map_left_iff, List.forall₂_map_right_iff] at htokens
      refine .ok (htokens.imp ?_)
      intro t u htu
      obtain ⟨hkind, hraw, hspan⟩ := Token.mk.inj htu
      exact ⟨hkind, hspan, hraw⟩

/-- A sigma between letters of either case, a literal and an escape; then a number that cannot go
    on. -/
theorem tokenize_sameUpToCase_standard :
    Vocabulary.standard.CaselessDelimiters ∧
      "Is nOt NuLl xΣY 'It\\'S'\\T".toLower = "iS NOT null XΣy 'iT\\'s'\\t".toLower ∧
      SameUpToCase (tokenize .standard "Is nOt NuLl xΣY 'It\\'S'\\T")
        (tokenize .standard "iS NOT null XΣy 'iT\\'s'\\t") ∧
      tokenize .standard "LIMIT 1.5.x" = .error (.invalidNumeric '.' "1.5" 9) ∧
      "LIMIT 1.5.x".toLower = "Limit 1.5.X".toLower ∧
      SameUpToCase (tokenize .standard "LIMIT 1.5.x") (tokenize .standard "Limit 1.5.X") := by
  have hv : Vocabulary.standard.CaselessDelimiters := by decide
  have hwords : "Is nOt NuLl xΣY 'It\\'S'\\T".toLower = "iS NOT null XΣy 'iT\\'s'\\t".toLower := by
    rw [← String.toList_inj, toList_toLower, toList_toLower]
    decide +kernel
  have hnumber : "LIMIT 1.5.x".toLower = "Limit 1.5.X".toLower := by
    rw [← String.toList_inj, toList_toLower, toList_toLower]
    decide +kernel
  have herror : tokenize .standard "LIMIT 1.5.x" = .error (.invalidNumeric '.' "1.5" 9) := by
    rw [tokenize, split_eq_error_iff.2]
    · rfl
    · decide +kernel
  exact ⟨hv, hwords, tokenize_sameUpToCase hv hwords, herror, hnumber,
    tokenize_sameUpToCase hv hnumber⟩

end SqlLex
