import SqlLex.Proofs.Move
import SqlLex.Proofs.Registers.Basic

namespace SqlLex

open Text

/-!
# Places of a piece

Which registers stand for a piece being read, and that reading a character by places does to them
what it does to the piece.

* `Registers.ofPending`, `Registers.forRun` — the registers of a piece, and where a run goes on.
* `Registers.EndsAt` — the piece is what stands in the query before a place.
* `Registers.flush_eq`, `Registers.enter_ofPending`, `Registers.leave_ofPending` — what completes
  it.
* `Registers.scan_inside`, `Registers.scan_close`, `Registers.scan_opener` — characters that have to
  do with literals; `Registers.scanPlain_member`, `Registers.scanPlain_alone` — and those that have
  not.
* `Registers.scan_ofPending` — any character.
-/

namespace Registers

/-! ### The registers of a piece -/

/-- The sort of the run being read; inside literals, and where nothing is read, that of words. -/
def runOf (pending : Option Piece) : RunKind :=
  match pending with
  | none => .word
  | some p =>
    match p.kind with
    | .run kind => kind
    | .literal _ => .word

/-- What registers hold while the piece is read. -/
def ofPending (fs : List Fragment) (pending : Option Piece) (escaped : Bool) (escapeAt : Nat) :
    Registers where
  fragments := fs
  start? := pending.map (·.start)
  container? := (openLiteral? pending).map fun q => (q.2, q.1.start)
  escaped := escaped
  escapeAt := escapeAt
  run := runOf pending

/-- What registers hold where a character of a run of the sort is read: the piece goes on if it is
    such a run, and else it is complete. -/
def forRun (fs : List Fragment) (pending : Option Piece) (escaped : Bool) (escapeAt : Nat)
    (kind : RunKind) : Registers :=
  if isReading (.run kind) pending then ofPending fs pending escaped escapeAt
  else ⟨fs ++ completed pending, none, none, escaped, escapeAt, kind⟩

/-- The piece being read, if there is one, is what stands in the query between its start and the
    byte `stop`. -/
def EndsAt (sql : String) (pending : Option Piece) (stop : Nat) : Prop :=
  ∀ p ∈ pending, cut? sql p.start stop = some p.text ∧ stop = p.start + p.text.utf8ByteSize

theorem endsAt_none (sql : String) (stop : Nat) : EndsAt sql none stop := by rintro p ⟨⟩

variable {v : Vocabulary} {sql : String} {fs : List Fragment} {pending : Option Piece}
  {escaped : Bool} {escapeAt position : Nat} {c : Char}

/-! ### What completes a piece -/

theorem flush_eq {r : Registers} {stop : Nat} (hstart : r.start? = pending.map (·.start))
    (hends : EndsAt sql pending stop) :
    r.flush sql stop =
      some { r with fragments := r.fragments ++ completed pending, start? := none } := by
  cases pending with
  | none =>
    rw [flush, hstart]
    obtain ⟨fragments, start, container, escaped, escapeAt, run⟩ := r
    cases hstart
    simp [completed]
  | some p =>
    obtain ⟨hcut, hstop⟩ := hends p rfl
    rw [flush, hstart]
    simp only [Option.map_some, hcut]
    rw [hstop]
    rfl

theorem run_ofPending_eq_iff {kind : RunKind} (hk : kind ≠ .word) :
    (ofPending fs pending escaped escapeAt).run = kind ↔
      isReading (.run kind) pending = true := by
  obtain _ | ⟨_ | _, _, _⟩ := pending
  · simpa [ofPending, runOf, isReading] using hk.symm
  · simp [ofPending, runOf, isReading]
  · simpa [ofPending, runOf, isReading] using hk.symm

/-- A run of the sort is complete where it is left, and nothing else is. -/
theorem leave_ofPending {kind : RunKind} (hk : kind ≠ .word) (hopen : openLiteral? pending = none)
    (hends : EndsAt sql pending position) :
    (ofPending fs pending escaped escapeAt).leave sql kind position =
      some (if isReading (.run kind) pending then
          ofPending (fs ++ completed pending) none escaped escapeAt
        else ofPending fs pending escaped escapeAt) := by
  rw [leave]
  by_cases hreading : isReading (.run kind) pending = true
  · rw [if_pos ((run_ofPending_eq_iff hk).2 hreading), if_pos hreading, flush_eq rfl hends]
    simp only [ofPending, hopen]
    rfl
  · rw [if_neg (mt (run_ofPending_eq_iff hk).1 hreading), if_neg hreading]

/-- What is read is complete where a run of another sort is entered. -/
theorem enter_ofPending {kind : RunKind} (hk : kind ≠ .word) (hopen : openLiteral? pending = none)
    (hends : EndsAt sql pending position) :
    (ofPending fs pending escaped escapeAt).enter sql kind position =
      some (forRun fs pending escaped escapeAt kind) := by
  rw [enter, forRun]
  by_cases hreading : isReading (.run kind) pending = true
  · rw [if_pos ((run_ofPending_eq_iff hk).2 hreading), if_pos hreading]
  · rw [if_neg (mt (run_ofPending_eq_iff hk).1 hreading), if_neg hreading, flush_eq rfl hends]
    simp [ofPending, hopen]

/-- Only a word goes on where digits and operators are left. -/
theorem leave_leave (hopen : openLiteral? pending = none) (hends : EndsAt sql pending position) :
    ∃ t, (ofPending fs pending escaped escapeAt).leave sql .number position = some t ∧
      t.leave sql .operator position = some (forRun fs pending escaped escapeAt .word) := by
  have hoperator : RunKind.operator ≠ .word := by decide
  refine ⟨_, leave_ofPending (by decide) hopen hends, ?_⟩
  obtain _ | ⟨⟨_ | _ | _⟩ | _, _, _⟩ := pending
  · -- Nothing is read, so nothing is complete.
    rw [forRun, completed, Option.map_none, Option.toList_none, List.append_nil]
    exact leave_ofPending hoperator hopen hends
  · exact leave_ofPending hoperator hopen hends
  · exact leave_ofPending hoperator rfl (endsAt_none sql position)
  · exact leave_ofPending hoperator hopen hends
  · cases hopen

/-- Only operators go on where digits are left and operators entered. -/
theorem leave_enter (hopen : openLiteral? pending = none) (hends : EndsAt sql pending position) :
    ∃ t, (ofPending fs pending escaped escapeAt).leave sql .number position = some t ∧
      t.enter sql .operator position = some (forRun fs pending escaped escapeAt .operator) := by
  have hoperator : RunKind.operator ≠ .word := by decide
  refine ⟨_, leave_ofPending (by decide) hopen hends, ?_⟩
  obtain _ | ⟨⟨_ | _ | _⟩ | _, _, _⟩ := pending
  · exact enter_ofPending hoperator hopen hends
  · exact enter_ofPending hoperator hopen hends
  · -- The number is complete, and nothing else is read behind it.
    simp [isReading, forRun, enter_ofPending hoperator rfl (endsAt_none sql position), completed]
  · exact enter_ofPending hoperator hopen hends
  · cases hopen

/-- A word that goes on is complete where it is flushed, and else nothing is left to flush. -/
theorem flush_forRun (hopen : openLiteral? pending = none) (hends : EndsAt sql pending position) :
    (forRun fs pending escaped escapeAt .word).flush sql position =
      some ⟨fs ++ completed pending, none, none, escaped, escapeAt, .word⟩ := by
  unfold forRun
  split
  · rename_i hword
    obtain ⟨p, rfl, hk⟩ := isReading_eq_true_iff.1 hword
    rw [flush_eq rfl hends]
    simp [ofPending, hopen, runOf, hk]
  · rfl

/-! ### Characters outside literals -/

/-- A character goes on with the piece. -/
theorem extend_ofPending (p : Piece) (c : Char) :
    (ofPending fs (some p) escaped escapeAt).extend position =
      ofPending fs (some (p.push c)) escaped escapeAt := by
  obtain ⟨_ | _, _, _⟩ := p <;> rfl

/-- A character of a run goes on with one of its sort, and else starts one. -/
theorem scanPlain_member {kind : RunKind} (hc : classOf c = .member kind)
    (hopen : openLiteral? pending = none) (hends : EndsAt sql pending position) :
    (ofPending fs pending escaped escapeAt).scanPlain sql position c =
      some (.ok ((forRun fs pending escaped escapeAt kind).extend position)) := by
  cases kind with
  | word =>
    obtain ⟨t, hnumber, hoperator⟩ := leave_leave hopen hends
    exact scanPlain_word hc hnumber hoperator
  | number => exact scanPlain_number hc (enter_ofPending (by decide) hopen hends)
  | operator =>
    obtain ⟨t, hleave, henter⟩ := leave_enter hopen hends
    exact scanPlain_operator hc hleave henter

/-- A breaking character that is no point of a number is a fragment on its own. -/
theorem scanPlain_alone (hc : classOf c = .breaking)
    (hpoint : ¬(c = '.' ∧ isReading (.run .number) pending = true))
    (hopen : openLiteral? pending = none) (hends : EndsAt sql pending position)
    (hchar : cut? sql position (position + c.utf8Size) = some c.toString) :
    (ofPending fs pending escaped escapeAt).scanPlain sql position c =
      some (.ok (ofPending (fs ++ completed pending ++ [.ofChar position c]) none escaped
        escapeAt)) := by
  have hrun : ¬((ofPending fs pending escaped escapeAt).run = .number ∧ c = '.') := by
    rw [run_ofPending_eq_iff (by decide), and_comm]
    exact hpoint
  obtain ⟨t, hnumber, hoperator⟩ := leave_leave hopen hends
  refine scanPlain_breaking hc hrun hnumber hoperator (flush_forRun hopen hends) ?_
  simp only [flush, hchar, Option.map_some]
  rfl

/-! ### A character and its move -/

theorem delimiter?_of_literal {p : Piece} {k : Container} (hk : p.kind = .literal k) :
    (ofPending fs (some p) escaped escapeAt).delimiter? v c =
      if escaped then none else if c = k.closer then some .closer else none := by
  have hopen := openLiteral?_eq_some_iff.2 ⟨rfl, hk⟩
  simp [delimiter?, ofPending, hopen]

theorem delimiter?_of_none (hopen : openLiteral? pending = none) :
    (ofPending fs pending escaped escapeAt).delimiter? v c =
      if escaped then none else (v.containerOpenedBy? c).map .opener := by
  simp [delimiter?, ofPending, hopen]

/-- A character of a literal goes on with it. -/
theorem scan_inside {p : Piece} {k : Container} (hk : p.kind = .literal k)
    (hgoes : escaped = true ∨ c ≠ k.closer) :
    (ofPending fs (some p) escaped escapeAt).scan v sql position c =
      some (.ok (ofPending fs (some (p.push c)) escaped escapeAt)) := by
  have hnone : (ofPending fs (some p) escaped escapeAt).delimiter? v c = none := by
    rw [delimiter?_of_literal hk]
    rcases hgoes with rfl | hne
    · rfl
    · simp [hne]
  have hopen : (ofPending fs (some p) escaped escapeAt).container?.isSome = true := by
    simp [ofPending, openLiteral?_eq_some_iff.2 ⟨rfl, hk⟩]
  rw [scan, hnone]
  dsimp only
  rw [if_pos hopen, extend_ofPending]

/-- The closer of a literal completes it. -/
theorem scan_close {p : Piece} {k : Container} (hk : p.kind = .literal k) (hc : c = k.closer)
    (hpush : EndsAt sql (some (p.push c)) (position + c.utf8Size)) :
    (ofPending fs (some p) false escapeAt).scan v sql position c =
      some (.ok (ofPending (fs ++ completed (some (p.push c))) none false escapeAt)) := by
  have hcloser : (ofPending fs (some p) false escapeAt).delimiter? v c = some .closer := by
    rw [delimiter?_of_literal hk, if_neg Bool.false_ne_true, if_pos hc]
  rw [scan, hcloser]
  dsimp only
  rw [flush_eq rfl hpush]
  rfl

/-- An opener completes what is read before it, and starts a literal. -/
theorem scan_opener {k : Container} (hopen : openLiteral? pending = none)
    (hk : v.containerOpenedBy? c = some k) (hends : EndsAt sql pending position) :
    (ofPending fs pending false escapeAt).scan v sql position c =
      some (.ok (ofPending (fs ++ completed pending) (some (.singleton (.literal k) position c))
        false escapeAt)) := by
  have hopener : (ofPending fs pending false escapeAt).delimiter? v c = some (.opener k) := by
    rw [delimiter?_of_none hopen, if_neg Bool.false_ne_true, hk, Option.map_some]
  rw [scan, hopener]
  dsimp only
  rw [flush_eq rfl hends]
  rfl

/-- Other characters are read as outside literals. -/
theorem scan_of_isOutside (h : IsOutside v pending escaped c) :
    (ofPending fs pending escaped escapeAt).scan v sql position c =
      (ofPending fs pending escaped escapeAt).scanPlain sql position c := by
  have hnone : (ofPending fs pending escaped escapeAt).delimiter? v c = none := by
    rw [delimiter?_of_none h.not_open]
    rcases h.opens_nothing with rfl | hnone
    · rfl
    · simp [hnone]
  rw [scan, hnone]
  simp [ofPending, h.not_open]

/-- **Reading a character by places** tells what the scanner makes of the piece being read. -/
theorem scan_ofPending (hends : EndsAt sql pending position)
    (hpush : EndsAt sql (pending.map (·.push c)) (position + c.utf8Size))
    (hchar : cut? sql position (position + c.utf8Size) = some c.toString) :
    (ofPending fs pending escaped escapeAt).scan v sql position c =
      some ((readChar v pending escaped position c).outcome.map fun next =>
        ofPending (fs ++ (readChar v pending escaped position c).fragments) next escaped
          escapeAt) := by
  have hmakes := makes_moveOf v pending escaped c
  rw [readChar_eq_apply]
  generalize moveOf v pending escaped c = m at hmakes
  cases hmakes with
  | @inside p k hp hk hgoes =>
    subst hp
    rw [scan_inside hk hgoes]
    simp [Move.apply, Progress.pure, Except.map]
  | @close p k hp hk hescaped hc =>
    subst hp hescaped
    exact scan_close hk hc hpush
  | @opener k hopen hescaped hk =>
    subst hescaped
    exact scan_opener hopen hk hends
  | @join p kind hout hp hk hc =>
    subst hp
    rw [scan_of_isOutside hout, scanPlain_member hc hout.not_open hends, forRun,
      if_pos (isReading_eq_true_iff.2 ⟨p, rfl, hk⟩), extend_ofPending p c]
    simp [Move.apply, Progress.pure, Except.map]
  | @start kind hout hreading hc =>
    rw [scan_of_isOutside hout, scanPlain_member hc hout.not_open hends, forRun,
      if_neg (Bool.eq_false_iff.1 hreading)]
    rfl
  | blank hout hc =>
    rw [scan_of_isOutside hout, scanPlain_blank hc (flush_eq rfl hends)]
    simp only [ofPending, hout.not_open]
    rfl
  | @point p hout hp hk hc hpoint | @fault p hout hp hk hc hpoint =>
    subst hp hc
    have hrun : (ofPending fs (some p) escaped escapeAt).run = .number := by
      simp [ofPending, runOf, hk]
    have htext : (ofPending fs (some p) escaped escapeAt).pendingText? sql position =
        some p.text := (hends p rfl).1
    rw [scan_of_isOutside hout, scanPlain_point hrun htext, extend_ofPending p '.']
    simp [hpoint, Move.apply, Progress.pure, Progress.fail, Except.map]
  | alone hout hc hpoint =>
    rw [scan_of_isOutside hout, scanPlain_alone hc hpoint hout.not_open hends hchar,
      List.append_assoc]
    rfl

end Registers

end SqlLex
