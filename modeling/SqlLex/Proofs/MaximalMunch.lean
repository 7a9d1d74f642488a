import SqlLex.Proofs.Blanks
import SqlLex.Vocabulary.Standard

namespace SqlLex

open Text

/-!
# The scanner reads lexemes

The scanner carries a piece and an escape from one character to the next; `munch` carries nothing.
With plain delimiters they agree on every text, errors included.

* `Scanner.within` — the scanner in the midst of a piece, told from the characters of the piece.
* `step_start`, `step_within_literal`, `step_within_run` — what one character does.
* `read_literal`, `read_run` — what the rest of a literal and of a run does.
* `read_start_cons` — from between two fragments, the run reads one lexeme first.
* `read_start_eq_munch` — from between two fragments, the run reads the lexemes of the text.
* `split_eq_munch` — splitting a query answers the lexemes of its body.
-/

variable {v : Vocabulary}

/-! ### Pieces as lists of characters -/

/-- The piece that has read `w` from `position` on. -/
def Piece.ofList (kind : PieceKind) (position : Nat) (w : List Char) : Piece :=
  ⟨kind, position, String.ofList w⟩

@[simp] theorem Piece.kind_ofList (kind : PieceKind) (position : Nat) (w : List Char) :
    (Piece.ofList kind position w).kind = kind := rfl

@[simp] theorem Piece.text_ofList (kind : PieceKind) (position : Nat) (w : List Char) :
    (Piece.ofList kind position w).text = String.ofList w := rfl

theorem Piece.push_ofList (kind : PieceKind) (position : Nat) (w : List Char) (c : Char) :
    (Piece.ofList kind position w).push c = Piece.ofList kind position (w ++ [c]) := by
  simp only [Piece.push, Piece.ofList, Piece.mk.injEq, true_and]
  rw [← String.toList_inj]
  simp

theorem Piece.singleton_eq_ofList (kind : PieceKind) (position : Nat) (c : Char) :
    Piece.singleton kind position c = Piece.ofList kind position [c] := by
  simp only [Piece.singleton, Piece.ofList, Piece.mk.injEq, true_and]
  rw [← String.toList_inj]
  simp

@[simp] theorem Piece.toFragment_ofList (kind : PieceKind) (position : Nat) (w : List Char) :
    (Piece.ofList kind position w).toFragment = Fragment.ofList position w := by
  simp [Piece.toFragment, Piece.ofList, Fragment.ofList, utf8ByteSize_ofList]

theorem Fragment.ofChar_eq_ofList (position : Nat) (c : Char) :
    Fragment.ofChar position c = Fragment.ofList position [c] := by
  simp [Fragment.ofChar, Fragment.ofList]

/-! ### The scanner in the midst of a piece -/

/-- The position of the escape character that waits behind `w`, which starts at `position`. -/
def escapeBehind (position : Nat) (w : List Char) : Option Nat :=
  if endsEscaped w then some (position + byteSize w.dropLast) else none

namespace Scanner

/-- The scanner that has read the characters `w` of a piece from `position` on. -/
def within (kind : PieceKind) (position : Nat) (w : List Char) : Scanner :=
  ⟨position + byteSize w, some (.ofList kind position w), escapeBehind position w⟩

theorem isEscaped_within_of_ne {c : Char} (h : c ≠ escapeChar) (kind : PieceKind)
    (position : Nat) (w : List Char) : (within kind position w).isEscaped c = endsEscaped w := by
  cases hw : endsEscaped w <;> simp [isEscaped, h, within, escapeBehind, hw]

/-- The escape that waits behind a text is told from the text alone. -/
theorem escapeAfter_eq {s : Scanner} {position : Nat} {w : List Char}
    (hposition : s.position = position + byteSize w) (hescape : s.escape? = escapeBehind position w)
    (c : Char) : s.escapeAfter c = escapeBehind position (w ++ [c]) := by
  by_cases hc : c = escapeChar <;> cases hw : endsEscaped w <;>
    simp [escapeAfter, hposition, hescape, escapeBehind, endsEscaped_concat, hc, hw]

theorem escapeAfter_within (kind : PieceKind) (position : Nat) (w : List Char) (c : Char) :
    (within kind position w).escapeAfter c = escapeBehind position (w ++ [c]) :=
  escapeAfter_eq rfl rfl c

theorem escapeAfter_start (position : Nat) (c : Char) :
    (start position).escapeAfter c = escapeBehind position [c] :=
  escapeAfter_eq (w := []) rfl rfl c

theorem step_within (v : Vocabulary) (kind : PieceKind) (position : Nat) (w : List Char)
    (c : Char) :
    (within kind position w).step v c =
      (readChar v (some (.ofList kind position w)) ((within kind position w).isEscaped c)
          (position + byteSize w) c).andThen fun pending =>
        .pure ⟨position + byteSize (w ++ [c]), pending, escapeBehind position (w ++ [c])⟩ := by
  rw [step, escapeAfter_within, byteSize_append, byteSize_cons, byteSize_nil, Nat.add_zero,
    ← Nat.add_assoc]
  rfl

end Scanner

/-! ### Reading a literal -/

namespace Scanner

/-- A literal takes the next character, and ends with it if that is its closer and not escaped. -/
theorem step_within_literal {k : Container} (hk : k.closer ≠ escapeChar) (position : Nat)
    (w : List Char) (c : Char) :
    (within (.literal k) position w).step v c =
      if closes k w c then
        ⟨[.ofList position (w ++ [c])], .ok (start (position + byteSize (w ++ [c])))⟩
      else .pure (within (.literal k) position (w ++ [c])) := by
  have hopen : openLiteral? (some (Piece.ofList (.literal k) position w)) =
      some (Piece.ofList (.literal k) position w, k) := rfl
  rw [step_within]
  simp only [readChar, hopen, readLiteral, Piece.push_ofList, Piece.toFragment_ofList]
  -- Only the closer can end the literal, and it is not an escape that could wait behind itself.
  by_cases hc : c = k.closer
  · subst hc
    have hescape : escapeBehind position (w ++ [k.closer]) = none := by
      simp [escapeBehind, endsEscaped_concat_of_ne w hk]
    rw [isEscaped_within_of_ne hk, hescape]
    cases hw : endsEscaped w with
    | true => simp [closes, hw, within, hescape]
    | false => simp [closes, hw, Progress.andThen, Progress.pure, start]
  · simp [closes, hc, within]

/-- **The rest of a literal.**  It goes up to the first closer that is not escaped, and without one
    it is not terminated. -/
theorem read_literal {k : Container} (hk : k.closer ≠ escapeChar) (position : Nat)
    (w cs : List Char) :
    (within (.literal k) position w).read v cs =
      let x := runUntil (closes k) w cs
      if x.length < cs.length then
        (Progress.emit (.ofList position (w ++ x ++ [k.closer]))).andThen fun _ =>
          (start (position + byteSize (w ++ x ++ [k.closer]))).read v (cs.drop (x.length + 1))
      else .fail (.unterminatedContainer k.opener k.closer position) := by
  -- Induction on the text; the characters read so far tell the state of the scanner.
  induction cs generalizing w with
  | nil => rfl
  | cons c cs ih =>
    rw [read_cons, step_within_literal hk]
    cases hc : closes k w c with
    | true =>
      have hcloser : c = k.closer := by
        simp only [closes, Bool.and_eq_true, beq_iff_eq] at hc
        exact hc.1
      rw [runUntil_of_stop hc, hcloser]
      simp [Progress.andThen, Progress.emit]
    | false =>
      rw [runUntil_of_not_stop hc, if_neg Bool.false_ne_true, Progress.pure_andThen, ih]
      simp

end Scanner

/-! ### Reading a run -/

theorem readPlain_member {c : Char} {kind : RunKind} (h : classOf c = .member kind)
    (pending : Option Piece) (position : Nat) :
    readPlain pending position c = joinRun pending kind position c := by
  unfold readPlain
  rw [h]

theorem readPlain_breaking {c : Char} (h : classOf c = .breaking) (pending : Option Piece)
    (position : Nat) :
    readPlain pending position c =
      if c = '.' then readPoint pending position else standAlone pending position c := by
  unfold readPlain
  rw [h]

/-- A character that does not go on with a run completes it and is then read on its own. -/
theorem readPlain_flush {p : Piece} {kind : RunKind} (hp : p.kind = .run kind) {c : Char}
    (hclass : classOf c ≠ .member kind) (hpoint : ¬(kind = .number ∧ c = '.'))
    (position : Nat) :
    readPlain (some p) position c =
      (Progress.emit p.toFragment).andThen fun _ => readPlain none position c := by
  cases hc : classOf c with
  | blank =>
    rw [readPlain_blank hc, readPlain_blank hc]
    rfl
  | member kind' =>
    have hne : kind ≠ kind' := fun h => hclass (by rw [hc, h])
    rw [readPlain_member hc, readPlain_member hc]
    simp [joinRun, hp, hne, Progress.andThen, Progress.emit, Progress.pure]
  | breaking =>
    rw [readPlain_breaking hc, readPlain_breaking hc]
    by_cases hdot : c = '.'
    · have hne : kind ≠ .number := fun h => hpoint ⟨h, hdot⟩
      simp [hdot, readPoint, hp, hne, standAlone, completed, Progress.andThen, Progress.emit]
    · simp [hdot, standAlone, completed, Progress.andThen, Progress.emit]

/-- An escape counts outside literals only for a character that would open one. -/
theorem readOutside_escaped {escaped : Bool} {c : Char}
    (h : escaped = true → v.containerOpenedBy? c = none) (pending : Option Piece)
    (position : Nat) :
    readOutside v pending escaped position c = readOutside v pending false position c := by
  cases escaped with
  | false => rfl
  | true => simp [readOutside, h rfl]

/-- A character that ends a run completes it and is then read as between two fragments. -/
theorem readOutside_flush {p : Piece} {kind : RunKind} (hp : p.kind = .run kind) {c : Char}
    (hends : v.containerOpenedBy? c = none → classOf c ≠ .member kind)
    (hpoint : ¬(kind = .number ∧ c = '.')) (position : Nat) :
    readOutside v (some p) false position c =
      (Progress.emit p.toFragment).andThen fun _ => readOutside v none false position c := by
  cases ho : v.containerOpenedBy? c with
  | some k => simp [readOutside, ho, completed, Progress.andThen, Progress.emit]
  | none =>
    simp only [readOutside, ho, if_neg Bool.false_ne_true]
    exact readPlain_flush hp (hends ho) hpoint position

/-- What is escaped behind a character is told from that character alone, unless it is an escape
    character and may be escaped itself. -/
theorem escapeBehind_concat {w : List Char} {c : Char}
    (h : c = escapeChar → endsEscaped w = false) (position : Nat) :
    escapeBehind position (w ++ [c]) = escapeBehind (position + byteSize w) [c] := by
  have hone := endsEscaped_concat [] c
  rw [List.nil_append] at hone
  by_cases hc : c = escapeChar
  · subst hc
    simp [escapeBehind, endsEscaped_concat, hone, h rfl]
  · simp [escapeBehind, endsEscaped_concat, hone, hc]

namespace Scanner

/-- With plain delimiters an escape character opens nothing, so between two fragments every
    character has its own role. -/
theorem step_start (hv : v.PlainDelimiters) (position : Nat) (c : Char) :
    (start position).step v c =
      (readOutside v none false position c).andThen fun pending =>
        .pure ⟨position + byteSize [c], pending, escapeBehind position [c]⟩ := by
  have hread : readChar v (start position).pending ((start position).isEscaped c)
      (start position).position c = readOutside v none false position c := by
    apply readOutside_escaped
    intro he
    have hc : c = escapeChar := by
      by_contra hc
      simp [isEscaped, start, hc] at he
    exact hv.containerOpenedBy?_eq_none (.inr hc)
  rw [step, escapeAfter_start, hread]
  rfl

/-- A run takes the next character as long as that goes on with it. -/
theorem step_within_run_of_goes (hv : v.PlainDelimiters) {kind : RunKind} {w : List Char}
    {c : Char} (hgoes : endsRun v kind w c = false) (position : Nat) :
    (within (.run kind) position w).step v c =
      .pure (within (.run kind) position (w ++ [c])) := by
  have hread : readOutside v (some (.ofList (.run kind) position w))
      ((within (.run kind) position w).isEscaped c) (position + byteSize w) c =
        .pure (some (.ofList (.run kind) position (w ++ [c]))) := by
    rcases endsRun_eq_false_iff.1 hgoes with ⟨hclass, hword⟩ | ⟨rfl, rfl, hpoint⟩
    · -- Only a word meets openers, and one that goes on with it is escaped.
      have hnone : (if (within (.run kind) position w).isEscaped c then none
          else v.containerOpenedBy? c) = none := by
        by_cases hc : classOf c ≠ .member .word ∨ c = escapeChar
        · simp [hv.containerOpenedBy?_eq_none hc]
        · rw [not_or, not_ne_iff] at hc
          rw [isEscaped_within_of_ne hc.2]
          have hkind : kind = .word := by simpa [hclass] using hc.1
          rcases hword hkind with hw | hw <;> simp [hw]
      rw [readOutside, hnone, readPlain_member hclass]
      simp [joinRun, Piece.push_ofList]
    · -- The first point of a number goes on with it.
      have hnone := hv.containerOpenedBy?_eq_none (c := '.') (.inl (by decide))
      simp [readOutside, hnone, readPlain_breaking classOf_point, readPoint, hpoint,
        Piece.push_ofList]
  rw [step_within]
  show (readOutside v _ _ _ _).andThen _ = _
  rw [hread]
  rfl

/-- No escape waits behind a run that ends before an opener or an escape character: a word would go
    on with the one, and with the other. -/
theorem endsEscaped_of_endsRun (hv : v.PlainDelimiters) {kind : RunKind} {w : List Char}
    (hw : kind ≠ .word → endsEscaped w = false) {c : Char} (hends : endsRun v kind w c = true)
    (hc : (v.containerOpenedBy? c).isSome ∨ c = escapeChar) : endsEscaped w = false := by
  by_cases hk : kind = .word
  · subst hk
    have hclass : classOf c = .member .word := by
      rcases hc with hc | rfl
      · obtain ⟨k, hk⟩ := Option.isSome_iff_exists.1 hc
        obtain ⟨hmem, rfl⟩ := Vocabulary.containerOpenedBy?_eq_some_iff.1 hk
        exact hv.opener_word k hmem
      · exact classOf_escapeChar
    by_contra he
    have hgoes : endsRun v .word w c = false :=
      endsRun_eq_false_iff.2 (.inl ⟨hclass, fun _ => .inl (by simpa using he)⟩)
    rw [hends] at hgoes
    cases hgoes
  · exact hw hk

/-- So a character that ends a run opens what it would open between two fragments. -/
theorem containerOpenedBy?_of_isEscaped (hv : v.PlainDelimiters) {kind : RunKind} {w : List Char}
    (hw : kind ≠ .word → endsEscaped w = false) {c : Char} (hends : endsRun v kind w c = true)
    (position : Nat) (he : (within (.run kind) position w).isEscaped c = true) :
    v.containerOpenedBy? c = none := by
  by_contra ho
  have hopen : (v.containerOpenedBy? c).isSome := Option.ne_none_iff_isSome.1 ho
  have hc : c ≠ escapeChar := fun hc => ho (hv.containerOpenedBy?_eq_none (.inr hc))
  rw [isEscaped_within_of_ne hc, endsEscaped_of_endsRun hv hw hends (.inl hopen)] at he
  cases he

/-- A run that the next character does not go on with is complete, and the character is read as
    between two fragments; but a number with a point takes no further one. -/
theorem step_within_run_of_ends (hv : v.PlainDelimiters) {kind : RunKind} {w : List Char}
    (hw : kind ≠ .word → endsEscaped w = false) {c : Char} (hends : endsRun v kind w c = true)
    (position : Nat) :
    (within (.run kind) position w).step v c =
      if kind = .number ∧ c = '.' then
        .fail (.invalidNumeric '.' (String.ofList w) (position + byteSize w))
      else
        (Progress.emit (.ofList position w)).andThen fun _ =>
          (start (position + byteSize w)).step v c := by
  have hgoes : ¬endsRun v kind w c = false := by simp [hends]
  rw [endsRun_eq_false_iff, not_or] at hgoes
  have hescaped := containerOpenedBy?_of_isEscaped hv hw hends position
  have hread : readOutside v (some (.ofList (.run kind) position w))
      ((within (.run kind) position w).isEscaped c) (position + byteSize w) c =
        if kind = .number ∧ c = '.' then
          .fail (.invalidNumeric '.' (String.ofList w) (position + byteSize w))
        else
          (Progress.emit (.ofList position w)).andThen fun _ =>
            readOutside v none false (position + byteSize w) c := by
    rw [readOutside_escaped hescaped]
    by_cases hpoint : kind = .number ∧ c = '.'
    · -- The number has a point already.
      obtain ⟨rfl, rfl⟩ := hpoint
      have hm : '.' ∈ w := by simpa using hgoes.2
      have hnone := hv.containerOpenedBy?_eq_none (c := '.') (.inl (by decide))
      simp [readOutside, hnone, readPlain_breaking classOf_point, readPoint, hm]
    · have hp : (Piece.ofList (.run kind) position w).kind = .run kind := rfl
      have hflush := readOutside_flush hp (fun ho hclass => hgoes.1 ⟨hclass, fun _ => .inr ho⟩)
        hpoint (position + byteSize w)
      rwa [if_neg hpoint, ← Piece.toFragment_ofList (.run kind)]
  rw [step_within, step_start hv, escapeBehind_concat fun hc =>
    endsEscaped_of_endsRun hv hw hends (.inr hc), byteSize_append, ← Nat.add_assoc]
  show (readOutside v _ _ _ _).andThen _ = _
  rw [hread]
  split
  · rfl
  · rw [Progress.andThen_assoc]

/-- **The rest of a run.**  It goes up to the first character that does not go on with it, and is
    then complete unless something is wrong with it. -/
theorem read_run (hv : v.PlainDelimiters) {kind : RunKind} {w : List Char}
    (hw : kind ≠ .word → endsEscaped w = false) (position : Nat) (cs : List Char) :
    (within (.run kind) position w).read v cs =
      let x := runUntil (endsRun v kind) w cs
      match runFault? kind position (w ++ x) (cs.drop x.length) with
      | some e => .fail e
      | none =>
        (Progress.emit (.ofList position (w ++ x))).andThen fun _ =>
          (start (position + byteSize (w ++ x))).read v (cs.drop x.length) := by
  -- Induction on the text; no escape waits behind a run other than a word.
  induction cs generalizing w with
  | nil =>
    cases he : endsEscaped w with
    | true =>
      have hk : kind = .word := by
        by_contra hk
        rw [hw hk] at he
        cases he
      subst hk
      simp [read_nil, finish, within, openLiteral?, escapeBehind, he, runFault?]
    | false =>
      have hfault : runFault? kind position w [] = none := by
        rw [runFault?_eq_none_iff]
        simp [he]
      simp [read_nil, finish, within, openLiteral?, escapeBehind, he, hfault, completed, start,
        Progress.andThen, Progress.emit]
  | cons c cs ih =>
    rw [read_cons]
    cases hc : endsRun v kind w c with
    | true =>
      rw [step_within_run_of_ends hv hw hc, runUntil_of_stop hc]
      by_cases hpoint : kind = .number ∧ c = '.'
      · obtain ⟨rfl, rfl⟩ := hpoint
        have hm : '.' ∈ w := by simpa [endsRun] using hc
        simp [runFault?, hm]
      · have hfault : runFault? kind position w (c :: cs) = none := by
          rw [runFault?_eq_none_iff]
          constructor
          · rintro ⟨hk, -, hd⟩
            exact hpoint ⟨hk, Option.some.inj hd⟩
          · rintro ⟨-, hnil, -⟩
            exact List.cons_ne_nil _ _ hnil
        rw [if_neg hpoint, Progress.andThen_assoc]
        simp only [List.append_nil, List.length_nil, List.drop_zero, hfault, read_cons]
    | false =>
      -- What goes on with a number or an operator is not an escape character.
      have hw' : kind ≠ .word → endsEscaped (w ++ [c]) = false := by
        intro hk
        refine endsEscaped_concat_of_ne w ?_
        rintro rfl
        rcases endsRun_eq_false_iff.1 hc with ⟨hclass, -⟩ | ⟨-, hpoint, -⟩
        · rw [classOf_escapeChar] at hclass
          exact hk (CharClass.member.inj hclass).symm
        · exact absurd hpoint (by decide)
      rw [step_within_run_of_goes hv hc, runUntil_of_not_stop hc, Progress.pure_andThen, ih hw']
      simp

/-! ### Between two fragments -/

theorem step_start_opener (hv : v.PlainDelimiters) {c : Char} {k : Container}
    (h : v.containerOpenedBy? c = some k) (position : Nat) :
    (start position).step v c = .pure (within (.literal k) position [c]) := by
  rw [step_start hv, readOutside, if_neg Bool.false_ne_true, h]
  simp only [Piece.singleton_eq_ofList]
  rfl

theorem step_start_member (hv : v.PlainDelimiters) {c : Char} {kind : RunKind}
    (ho : v.containerOpenedBy? c = none) (h : classOf c = .member kind) (position : Nat) :
    (start position).step v c = .pure (within (.run kind) position [c]) := by
  rw [step_start hv, readOutside, if_neg Bool.false_ne_true, ho]
  simp only [readPlain_member h, joinRun, Piece.singleton_eq_ofList]
  rfl

theorem step_start_breaking (hv : v.PlainDelimiters) {c : Char} (h : classOf c = .breaking)
    (position : Nat) :
    (start position).step v c =
      ⟨[.ofList position [c]], .ok (start (position + byteSize [c]))⟩ := by
  have hnone := hv.containerOpenedBy?_eq_none (c := c) (.inl (by simp [h]))
  have hc : c ≠ escapeChar := by
    rintro rfl
    rw [classOf_escapeChar] at h
    cases h
  have hescape : escapeBehind position [c] = none := by
    simp [escapeBehind, endsEscaped_cons_of_ne hc]
  have hread : readPlain none position c = ⟨[.ofList position [c]], .ok none⟩ := by
    rw [readPlain_breaking h, ← Fragment.ofChar_eq_ofList]
    split
    · rename_i hdot
      subst hdot
      rfl
    · rfl
  rw [step_start hv, readOutside, if_neg Bool.false_ne_true, hnone, hescape]
  simp only [hread]
  rfl

/-! ### Reading a lexeme -/

/-- What the scanner reads from between two fragments on: one lexeme, and then the rest. -/
def lexemeThen (v : Vocabulary) (position : Nat) (c : Char) (cs : List Char) : Progress Unit :=
  (readLexeme v position c cs).andThen fun w =>
    (start (position + byteSize (c :: w))).read v (cs.drop w.length)

theorem lexemeThen_error {c : Char} (h : isBlank c = false) {position : Nat} {cs : List Char}
    {e : LexError} (he : lexemeTail v position c cs = .error e) :
    lexemeThen v position c cs = .fail e := by
  rw [lexemeThen, readLexeme_error h he]
  rfl

theorem lexemeThen_ok {c : Char} (h : isBlank c = false) {position : Nat} {cs w : List Char}
    (hw : lexemeTail v position c cs = .ok w) :
    lexemeThen v position c cs =
      (Progress.emit (.ofList position (c :: w))).andThen fun _ =>
        (start (position + byteSize (c :: w))).read v (cs.drop w.length) := by
  rw [lexemeThen, readLexeme_ok h hw]
  rfl

theorem read_start_opener (hv : v.PlainDelimiters) {c : Char} {k : Container}
    (ho : v.containerOpenedBy? c = some k) (hb : isBlank c = false) (position : Nat)
    (cs : List Char) : (start position).read v (c :: cs) = lexemeThen v position c cs := by
  obtain ⟨hmem, rfl⟩ := Vocabulary.containerOpenedBy?_eq_some_iff.1 ho
  -- The scanner keeps the opener with the literal; the lexeme does not look at it again.
  have hx : runUntil (closes k) [k.opener] cs = runUntil (closes k) [] cs := by
    apply runUntil_congr
    intro u d
    simp [closes, endsEscaped_cons_of_ne (hv.opener_ne_escape k hmem) u]
  have htail := lexemeTail_literal ho position cs
  simp only [literalTail?] at htail
  rw [read_cons, step_start_opener hv ho, Progress.pure_andThen,
    read_literal (hv.closer_ne_escape k hmem), hx]
  dsimp only
  split
  · rename_i hlt
    rw [if_pos hlt] at htail
    rw [lexemeThen_ok hb htail, List.length_append, List.length_singleton]
    rfl
  · rename_i hlt
    rw [if_neg hlt] at htail
    rw [lexemeThen_error hb htail]

theorem read_start_member (hv : v.PlainDelimiters) {c : Char} {kind : RunKind}
    (ho : v.containerOpenedBy? c = none) (hclass : classOf c = .member kind)
    (hb : isBlank c = false) (position : Nat) (cs : List Char) :
    (start position).read v (c :: cs) = lexemeThen v position c cs := by
  -- The run starts with a character of its sort, so with an escape only if it is a word.
  have hw : kind ≠ .word → endsEscaped [c] = false := by
    intro hk
    rw [endsEscaped_cons_of_ne, endsEscaped_nil]
    rintro rfl
    rw [classOf_escapeChar] at hclass
    exact hk (CharClass.member.inj hclass).symm
  have htail := lexemeTail_run ho hclass position cs
  rw [read_cons, step_start_member hv ho hclass, Progress.pure_andThen, read_run hv hw]
  dsimp only [List.singleton_append] at htail ⊢
  split
  · rename_i e he
    rw [he] at htail
    rw [lexemeThen_error hb htail]
  · rename_i he
    rw [he] at htail
    rw [lexemeThen_ok hb htail]

theorem read_start_breaking (hv : v.PlainDelimiters) {c : Char} (hclass : classOf c = .breaking)
    (hb : isBlank c = false) (position : Nat) (cs : List Char) :
    (start position).read v (c :: cs) = lexemeThen v position c cs := by
  have ho := hv.containerOpenedBy?_eq_none (c := c) (.inl (by simp [hclass]))
  have htail := lexemeTail_breaking ho (by simp [hclass]) position cs
  rw [read_cons, step_start_breaking hv hclass, lexemeThen_ok hb htail]
  rfl

/-- From between two fragments the scanner passes over a blank, or reads one lexeme. -/
theorem read_start_cons (hv : v.PlainDelimiters) (position : Nat) (c : Char) (cs : List Char) :
    (start position).read v (c :: cs) = lexemeThen v position c cs := by
  cases hb : isBlank c with
  | true =>
    rw [read_cons, step_blank hv.blanksSeparate (settled_start position).not_open hb, lexemeThen,
      readLexeme_blank hb]
    rfl
  | false =>
    cases ho : v.containerOpenedBy? c with
    | some k => exact read_start_opener hv ho hb position cs
    | none =>
      cases hclass : classOf c with
      | blank =>
        rw [classOf_eq_blank_iff, hb] at hclass
        cases hclass
      | breaking => exact read_start_breaking hv hclass hb position cs
      | member kind => exact read_start_member hv ho hclass hb position cs

/-- **The scanner reads lexemes.**  From between two fragments it completes the lexemes of the text
    and fails where one of them is at fault. -/
theorem read_start_eq_munch (hv : v.PlainDelimiters) (position : Nat) (cs : List Char) :
    (start position).read v cs = munch v position cs := by
  induction position, cs using munch.induct with
  | case1 position =>
    rw [munch_nil]
    rfl
  | case2 position c cs ih =>
    rw [read_start_cons hv, lexemeThen, munch_cons]
    congr 1
    funext w
    exact ih w

end Scanner

/-! ### Splitting a query -/

theorem Vocabulary.standard_plainDelimiters : Vocabulary.standard.PlainDelimiters where
  opener_word := by decide
  opener_ne_escape := by decide
  closer_ne_escape := by decide

/-- The fragments of a query are the lexemes of its body. -/
theorem splitting_eq_munch (hv : v.PlainDelimiters) (sql : String) :
    splitting v sql = munch v (bodyStart sql.toList) (bodyOf sql.toList) :=
  Scanner.read_start_eq_munch hv _ _

/-- The blanks before the body are passed over like those in it. -/
theorem splitting_eq_munch_contentOf (hv : v.PlainDelimiters) (sql : String) :
    splitting v sql = munch v 0 (contentOf sql.toList) := by
  rw [splitting_eq_read_contentOf hv.blanksSeparate, Scanner.read_start_eq_munch hv]

/-- **Maximal munch.**  Splitting a query answers the lexemes of its body, or the error of the first
    one that is at fault. -/
theorem split_eq_munch (hv : v.PlainDelimiters) (sql : String) :
    split v sql = (munch v (bodyStart sql.toList) (bodyOf sql.toList)).toExcept := by
  rw [split, splitting_eq_munch hv]

/-- A word and a literal with escaped delimiters, and a number with two points. -/
theorem split_eq_munch_standard :
    Vocabulary.standard.PlainDelimiters ∧
      (munch .standard (bodyStart " a\\'b'it\\'s'1.5>=x,\\ ;".toList)
          (bodyOf " a\\'b'it\\'s'1.5>=x,\\ ;".toList)).toExcept =
        .ok [⟨"a\\'b", ⟨1, 5⟩⟩, ⟨"'it\\'s'", ⟨5, 12⟩⟩, ⟨"1.5", ⟨12, 15⟩⟩, ⟨">=", ⟨15, 17⟩⟩,
          ⟨"x", ⟨17, 18⟩⟩, ⟨",", ⟨18, 19⟩⟩, ⟨"\\", ⟨19, 20⟩⟩] ∧
      (munch .standard (bodyStart "x 1.5.2".toList) (bodyOf "x 1.5.2".toList)).toExcept =
        .error (.invalidNumeric '.' "1.5" 5) := by
  have hv := Vocabulary.standard_plainDelimiters
  refine ⟨hv, ?_, ?_⟩
  · rw [← split_eq_munch hv]
    decide +kernel
  · rw [← split_eq_munch hv]
    decide +kernel

end SqlLex
