import SqlLex.Proofs.Classification
import SqlLex.Report.Basic

namespace SqlLex

open Text

/-!
# What the text report tells

A report shows tokens as lines, without a mark for where the words of a token end, and a literal may
hold line ends, brackets and what looks like further lines.  The tokens of a query are told from it
nonetheless: a literal ends by itself, and no other token holds a line end.

* `EndsItself` — words of which it is told from the text where they end.
* `EndsItself.eq_of_append`, `eq_of_line_append` — the words of a token, and its line, at the front
  of a report.
* `forall₂_of_flatMap_eq`, `forall₂_agrees_of_lines` — the items, and the tokens, of all lines.
* `Report.toList_lines`, `Report.lines_eq_empty_iff`, `Report.flatMap_eq_of_lines_eq` — a report is
  its lines, is empty without any, and tells them.
* `Basis.Explains.endsItself` — the words of every token of a query end by themselves.
* `textReport_eq_iff` — queries with the same report.
-/

variable {v : Vocabulary}

/-! ### Where words end -/

/-- It is told from the text where the words end, if a bracket and the end of the line follow them:
    they are a literal, or they start none and hold no line end. -/
inductive EndsItself (v : Vocabulary) : List Char → Prop where
  | literal {k : Container} {x : List Char} :
    k ∈ v.containers → k.IsInterior x → EndsItself v (k.enclose x)
  | line {c : Char} {u : List Char} :
    v.containerOpenedBy? c = none → '\n' ∉ c :: u → EndsItself v (c :: u)

/-- Texts up to the first place of a character, and behind it. -/
theorem eq_of_append_cons_eq {a b c d : List Char} {e : Char} (ha : e ∉ a) (hb : e ∉ b)
    (h : a ++ e :: c = b ++ e :: d) : a = b ∧ c = d := by
  -- Where one text went on behind the other, it would hold the character.
  rcases List.append_eq_append_iff.1 h with ⟨u, rfl, hu⟩ | ⟨u, rfl, hu⟩
  · cases u with
    | nil => exact ⟨(List.append_nil a).symm, (List.cons.inj hu).2⟩
    | cons f u =>
      obtain ⟨rfl, -⟩ := List.cons.inj hu
      exact absurd (by simp) hb
  · cases u with
    | nil => exact ⟨List.append_nil b, (List.cons.inj hu).2.symm⟩
    | cons f u =>
      obtain ⟨rfl, -⟩ := List.cons.inj hu
      exact absurd (by simp) ha

/-- A literal is a first part of a text in one way at most. -/
theorem Container.IsInterior.eq_of_append {k : Container} {x y r s : List Char}
    (hx : k.IsInterior x) (hy : k.IsInterior y) (h : x ++ k.closer :: r = y ++ k.closer :: s) :
    x = y ∧ r = s := by
  have htail := literalTail?_eq_some_iff.2 ⟨x, r, hx, rfl, rfl⟩
  rw [h, literalTail?_eq_some_iff.2 ⟨y, s, hy, rfl, rfl⟩] at htail
  obtain rfl : y = x := List.append_cancel_right (Option.some.inj htail)
  exact ⟨rfl, List.tail_eq_of_cons_eq (List.append_cancel_left h)⟩

/-- Words that end by themselves are found at the front of a report. -/
theorem EndsItself.eq_of_append {w x r s : List Char} (hw : EndsItself v w) (hx : EndsItself v x)
    (h : w ++ ')' :: '\n' :: r = x ++ ')' :: '\n' :: s) : w = x ∧ r = s := by
  cases hw with
  | @literal k y hk hy =>
    have hopen := Vocabulary.containerOpenedBy?_eq_some_iff.2 ⟨hk, rfl⟩
    cases hx with
    | @literal l z hl hz =>
      -- The opener tells the container, and that the closer.
      simp only [Container.enclose, List.cons_append, List.append_assoc, List.nil_append,
        List.cons.injEq] at h
      obtain ⟨hopener, hrest⟩ := h
      rw [hopener, Vocabulary.containerOpenedBy?_eq_some_iff.2 ⟨hl, rfl⟩] at hopen
      obtain rfl := Option.some.inj hopen
      obtain ⟨rfl, hbehind⟩ := hy.eq_of_append hz hrest
      exact ⟨rfl, by simpa using hbehind⟩
    | @line c u hc hu =>
      obtain ⟨rfl, -⟩ := List.cons.inj h
      rw [hopen] at hc
      cases hc
  | @line c u hc hu =>
    cases hx with
    | @literal l z hl hz =>
      obtain ⟨rfl, -⟩ := List.cons.inj h
      rw [Vocabulary.containerOpenedBy?_eq_some_iff.2 ⟨hl, rfl⟩] at hc
      cases hc
    | @line d y hd hy =>
      -- Both end with the bracket before the first line end.
      have hends : ∀ {w : List Char}, '\n' ∉ w → '\n' ∉ w ++ [')'] := by simp
      have hline : (c :: u ++ [')']) ++ '\n' :: r = (d :: y ++ [')']) ++ '\n' :: s := by
        simpa using h
      obtain ⟨hwords, hbehind⟩ := eq_of_append_cons_eq (hends hu) (hends hy) hline
      exact ⟨List.append_cancel_right hwords, hbehind⟩

/-! ### Lines -/

/-- The line of a token with its end. -/
def Token.line (t : Token) : List Char := t.display.toList ++ ['\n']

theorem Token.line_eq (t : Token) :
    t.line = t.kind.name.toList ++ ' ' :: ("(Raw: ".toList ++ (t.raw.toList ++ [')', '\n'])) := by
  simp [line, display]

theorem TokenKind.space_notMem_name (k : TokenKind) : ' ' ∉ k.name.toList := by
  cases k <;> decide

/-- The kind and words of a token are told from its line at the front of a report. -/
theorem eq_of_line_append {t u : Token} (ht : EndsItself v t.raw.toList)
    (hu : EndsItself v u.raw.toList) {r s : List Char} (h : t.line ++ r = u.line ++ s) :
    t.agrees u = true ∧ r = s := by
  rw [Token.line_eq, Token.line_eq, List.append_assoc, List.append_assoc, List.cons_append,
    List.cons_append] at h
  obtain ⟨hname, hrest⟩ := eq_of_append_cons_eq t.kind.space_notMem_name u.kind.space_notMem_name h
  simp only [List.append_assoc] at hrest
  obtain ⟨hraw, hbehind⟩ := ht.eq_of_append hu (List.append_cancel_left hrest)
  refine ⟨Token.agrees_iff.2 ⟨TokenKind.name_injective ?_, ?_⟩, hbehind⟩
  · rwa [String.toList_inj] at hname
  · rwa [String.toList_inj] at hraw

/-- Items are told from their lines one after the other, if each is told from its line at the front
    of a report. -/
theorem forall₂_of_flatMap_eq {α : Type} {line : α → List Char} {P : α → Prop} {R : α → α → Prop}
    (hne : ∀ a, line a ≠ [])
    (hfront : ∀ {a b r s}, P a → P b → line a ++ r = line b ++ s → R a b ∧ r = s)
    {as bs : List α} (has : ∀ a ∈ as, P a) (hbs : ∀ b ∈ bs, P b)
    (h : as.flatMap line = bs.flatMap line) : List.Forall₂ R as bs := by
  induction as generalizing bs with
  | nil =>
    cases bs with
    | nil => exact .nil
    | cons b bs => exact absurd (List.append_eq_nil_iff.1 h.symm).1 (hne b)
  | cons a as ih =>
    cases bs with
    | nil => exact absurd (List.append_eq_nil_iff.1 h).1 (hne a)
    | cons b bs =>
      obtain ⟨ha, has⟩ := List.forall_mem_cons.1 has
      obtain ⟨hb, hbs⟩ := List.forall_mem_cons.1 hbs
      obtain ⟨hab, hrest⟩ := hfront ha hb h
      exact .cons hab (ih has hbs hrest)

/-- Tokens whose words end by themselves are told from their lines. -/
theorem forall₂_agrees_of_lines {ts us : List Token} (hts : ∀ t ∈ ts, EndsItself v t.raw.toList)
    (hus : ∀ u ∈ us, EndsItself v u.raw.toList)
    (h : ts.flatMap Token.line = us.flatMap Token.line) :
    List.Forall₂ (fun t u => t.agrees u = true) ts us :=
  forall₂_of_flatMap_eq (by simp [Token.line]) (fun ha hb hab => eq_of_line_append ha hb hab)
    hts hus h

namespace Report

theorem lines_cons_cons (x y : String) (rest : List String) :
    lines (x :: y :: rest) = x ++ "\n" ++ lines (y :: rest) :=
  String.intercalate_cons_cons

/-- Each of the lines of a report has its end if one is put behind the last. -/
theorem toList_lines {xs : List String} (h : xs ≠ []) :
    (lines xs).toList ++ ['\n'] = xs.flatMap fun x => x.toList ++ ['\n'] := by
  induction xs with
  | nil => exact absurd rfl h
  | cons x xs ih =>
    cases xs with
    | nil => simp [lines]
    | cons y xs =>
      rw [List.flatMap_cons, ← ih (List.cons_ne_nil _ _), lines_cons_cons]
      simp

/-- A report whose items are not empty is empty iff it has none. -/
theorem lines_eq_empty_iff {xs : List String} (h : ∀ x ∈ xs, x ≠ "") :
    lines xs = "" ↔ xs = [] := by
  constructor
  · intro hempty
    by_contra hne
    obtain ⟨x, ys, rfl⟩ := List.exists_cons_of_ne_nil hne
    -- A line is more than its end.
    have hlen := congrArg List.length (toList_lines hne)
    have hx : x.toList ≠ [] := by simpa using h x List.mem_cons_self
    have := List.length_pos_of_ne_nil hx
    rw [hempty, List.flatMap_cons] at hlen
    simp only [String.toList_empty, List.nil_append, List.length_cons, List.length_nil,
      List.length_append] at hlen
    omega
  · rintro rfl
    rfl

/-- Items that are not empty and have the same report have the same lines, with their ends. -/
theorem flatMap_eq_of_lines_eq {xs ys : List String} (hxs : ∀ x ∈ xs, x ≠ "")
    (hys : ∀ y ∈ ys, y ≠ "") (h : lines xs = lines ys) :
    (xs.flatMap fun x => x.toList ++ ['\n']) = ys.flatMap fun y => y.toList ++ ['\n'] := by
  by_cases hnil : xs = []
  · -- Both reports are empty.
    have hnil' : ys = [] := (lines_eq_empty_iff hys).1 (by rw [← h, hnil]; rfl)
    rw [hnil, hnil']
  · have hnil' : ys ≠ [] := by rwa [Ne, ← lines_eq_empty_iff hys, ← h, lines_eq_empty_iff hxs]
    rw [← toList_lines hnil, ← toList_lines hnil', h]

/-- With the end of its last line, the report of some tokens is their lines. -/
theorem toList_tokens_text {ts : List Token} (h : ts ≠ []) :
    (tokens .text ts).toList ++ ['\n'] = ts.flatMap Token.line := by
  show (lines (ts.map Token.display)).toList ++ ['\n'] = _
  rw [toList_lines (by simpa using h), List.flatMap_map]
  rfl

theorem tokens_text_eq_empty_iff {ts : List Token} : tokens .text ts = "" ↔ ts = [] := by
  show lines (ts.map Token.display) = "" ↔ _
  rw [lines_eq_empty_iff, List.map_eq_nil_iff]
  intro x hx
  obtain ⟨t, -, rfl⟩ := List.mem_map.1 hx
  simp [Token.display]

/-- Tokens that say the same have the same report. -/
theorem tokens_text_congr {ts us : List Token}
    (h : List.Forall₂ (fun t u => t.agrees u = true) ts us) :
    tokens .text ts = tokens .text us := by
  have hdisplay : ts.map Token.display = us.map Token.display := by
    induction h with
    | nil => rfl
    | cons htu _ ih =>
      obtain ⟨hkind, hraw⟩ := Token.agrees_iff.1 htu
      rw [List.map_cons, List.map_cons, ih, Token.display, Token.display, hkind, hraw]
  show lines (ts.map Token.display) = lines (us.map Token.display)
  rw [hdisplay]

end Report

/-! ### Tokens of a query -/

/-- Words without line ends end by themselves if the first of them is no literal. -/
theorem endsItself_of_firstShape? {raw : String} {s : Shape} (h : firstShape? v raw = some s)
    (hs : ∀ k, s ≠ .literal k) (hline : '\n' ∉ raw.toList) : EndsItself v raw.toList := by
  obtain ⟨c, hc, hstart⟩ := Option.bind_eq_some_iff.1 h
  obtain ⟨u, hu⟩ := List.head?_eq_some_iff.1 hc
  rw [hu] at hline ⊢
  refine .line ?_ hline
  cases hopen : v.containerOpenedBy? c with
  | none => rfl
  | some k =>
    rw [Shape.startingWith?_of_opener hopen] at hstart
    exact absurd (Option.some.inj hstart).symm (hs k)

/-- What is not in a word stands between words, and is a space. -/
theorem eq_space_of_mem_joinWords {ws : List String} {c : Char} (hc : c ∈ (joinWords ws).toList)
    (hws : ∀ w ∈ ws, c ∉ w.toList) : c = ' ' := by
  induction ws with
  | nil => cases hc
  | cons w ws ih =>
    obtain ⟨hw, hws⟩ := List.forall_mem_cons.1 hws
    cases ws with
    | nil =>
      rw [joinWords_singleton] at hc
      exact absurd hc hw
    | cons x ws =>
      rw [joinWords_cons_cons, String.toList_append, String.toList_append, List.mem_append,
        List.mem_append] at hc
      rcases hc with (hc | hc) | hc
      · exact absurd hc hw
      · simpa using hc
      · exact ih hc hws

/-- The words of every token of a query end by themselves. -/
theorem Basis.Explains.endsItself (hv : v.PlainDelimiters) {t : Token} {b : Basis}
    (h : b.Explains v t) : EndsItself v t.raw.toList := by
  have hplain : ∀ {s : Shape}, s.isPlain = true → ∀ k, s ≠ .literal k := by
    rintro s hs k rfl
    cases hs
  have hblank : isBlank '\n' = true := by decide
  cases b with
  | literal =>
    obtain ⟨k, ⟨hk, x, hx, hraw⟩, -⟩ := h
    rw [hraw]
    exact .literal hk hx
  | number =>
    have hnone : ∀ k, Shape.numeral ≠ .literal k := by rintro k ⟨⟩
    refine endsItself_of_firstShape? (Shape.Fits.firstShape?_eq hv h.1) hnone ?_
    intro hline
    rw [h.1.isBlank_eq_false hnone hline] at hblank
    cases hblank
  | keyword =>
    obtain ⟨-, ws, hne, hraw, hws⟩ := h
    obtain ⟨w, ws, rfl⟩ := List.exists_cons_of_ne_nil hne
    obtain ⟨s, hs, hfits⟩ := hws w List.mem_cons_self
    have hfirst : firstShape? v t.raw = some s := by
      rw [hraw, firstShape?_joinWords hfits.ne_nil, hfits.firstShape?_eq hv]
    refine endsItself_of_firstShape? hfirst (hplain hs) ?_
    intro hline
    rw [hraw] at hline
    refine absurd (eq_space_of_mem_joinWords hline ?_) (by decide)
    intro x hx hmem
    obtain ⟨s, hs, hfits⟩ := hws x hx
    rw [hfits.isBlank_eq_false (hplain hs) hmem] at hblank
    cases hblank
  | unmatched =>
    obtain ⟨-, -, s, hs, hfits⟩ := h
    refine endsItself_of_firstShape? (hfits.firstShape?_eq hv) (hplain hs) ?_
    intro hline
    rw [hfits.isBlank_eq_false (hplain hs) hline] at hblank
    cases hblank

theorem endsItself_of_tokenize (hv : v.PlainDelimiters) {sql : String} {ts : List Token}
    (h : tokenize v sql = .ok ts) {t : Token} (ht : t ∈ ts) : EndsItself v t.raw.toList := by
  rw [tokenize] at h
  cases hsplit : split v sql with
  | error e =>
    rw [hsplit] at h
    cases h
  | ok fs =>
    rw [hsplit] at h
    cases h
    obtain ⟨b, hb, -⟩ := existsUnique_explains hv (fun f hf => recognised_of_split hv hsplit hf) ht
    exact hb.endsItself hv

/-- **The text report loses no token.**  Two queries have the same report iff their tokens are as
    many, and of the same kinds and words one by one; and the report is empty iff there are none. -/
theorem textReport_eq_iff (hv : v.PlainDelimiters) {sql₁ sql₂ : String} {ts us : List Token}
    (h₁ : tokenize v sql₁ = .ok ts) (h₂ : tokenize v sql₂ = .ok us) :
    (Report.tokens .text ts = Report.tokens .text us ↔
        List.Forall₂ (fun t u => t.agrees u = true) ts us) ∧
      (Report.tokens .text ts = "" ↔ ts = []) := by
  refine ⟨⟨?_, Report.tokens_text_congr⟩, Report.tokens_text_eq_empty_iff⟩
  intro h
  by_cases hts : ts = []
  · -- Both reports are empty.
    have hus : us = [] := by rw [← Report.tokens_text_eq_empty_iff, ← h, hts]; rfl
    rw [hts, hus]
    exact .nil
  · have hus : us ≠ [] := by
      rwa [Ne, ← Report.tokens_text_eq_empty_iff, ← h, Report.tokens_text_eq_empty_iff]
    apply forall₂_agrees_of_lines (fun t ht => endsItself_of_tokenize hv h₁ ht)
      (fun u hu => endsItself_of_tokenize hv h₂ hu)
    rw [← Report.toList_tokens_text hts, ← Report.toList_tokens_text hus, h]

/-- A literal that looks like the line of another token, and the two tokens that it looks like. -/
theorem textReport_eq_iff_standard :
    ∃ ts us : List Token, Vocabulary.standard.PlainDelimiters ∧
      tokenize .standard "'a)\nUnknown (Raw: b'" = .ok ts ∧
      tokenize .standard "'a)' b" = .ok us ∧
      ts = [⟨.stringValue, "'a)\nUnknown (Raw: b'", ⟨0, 20⟩⟩] ∧
      us = [⟨.stringValue, "'a)'", ⟨0, 4⟩⟩, ⟨.unknown, "b", ⟨5, 6⟩⟩] ∧
      (Report.tokens .text ts = Report.tokens .text us ↔
        List.Forall₂ (fun t u => t.agrees u = true) ts us) ∧
      (Report.tokens .text ts = "" ↔ ts = []) := by
  have hv := Vocabulary.standard_plainDelimiters
  have h₁ : tokenize .standard "'a)\nUnknown (Raw: b'" =
      .ok [⟨.stringValue, "'a)\nUnknown (Raw: b'", ⟨0, 20⟩⟩] := by decide +kernel
  have h₂ : tokenize .standard "'a)' b" =
      .ok [⟨.stringValue, "'a)'", ⟨0, 4⟩⟩, ⟨.unknown, "b", ⟨5, 6⟩⟩] := by decide +kernel
  exact ⟨_, _, hv, h₁, h₂, rfl, rfl, textReport_eq_iff hv h₁ h₂⟩

end SqlLex
