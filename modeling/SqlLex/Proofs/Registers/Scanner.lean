import SqlLex.Proofs.Lossless
import SqlLex.Proofs.Registers.Piece

namespace SqlLex

open Text

/-!
# Places of a scanner

A scan by places keeps up with the scanner, which holds the text: where one stands after a part of a
query, the other does, and they come to the same in the end.

* `cut?_eq` — text is cut out by the places around it.
* `Scanner.registers` — the registers where the scanner stands.
* `Scanner.ReadsIn` — the scanner stands in a query, behind the piece being read.
* `Scanner.step_registers`, `Scanner.read_registers`, `Scanner.ReadsIn.finish_registers` — they keep
  up with it.
* `registers_split` — a query is split by places as by the scanner.
-/

/-- Text is cut out of a query by the byte positions around it. -/
theorem cut?_eq {sql : String} {before w after : List Char} {start stop : Nat}
    (hsql : sql.toList = before ++ w ++ after) (hw : w ≠ []) (hstart : start = byteSize before)
    (hstop : stop = start + byteSize w) : cut? sql start stop = some (String.ofList w) := by
  have hpos : byteSize w ≠ 0 := mt byteSize_eq_zero_iff.1 hw
  subst hstart hstop
  rw [cut?, if_pos (by omega), ← String.ofList_toList (s := sql), hsql, Span.slice?_append]

namespace Scanner

variable {v : Vocabulary} {sql : String} {s t : Scanner} {c : Char} {cs rest : List Char}
  {fs gs : List Fragment}

/-- What registers hold where the scanner stands.  Where no escape waits, the last escape character
    stands at `last`. -/
def registers (s : Scanner) (fs : List Fragment) (last : Nat) : Registers :=
  .ofPending fs s.pending s.escape?.isSome (s.escape?.getD last)

/-! ### A scanner in a query -/

/-- The scanner stands in the query before `rest`, and behind the piece being read. -/
structure ReadsIn (sql : String) (s : Scanner) (rest : List Char) : Prop where
  aligned : s.Aligned
  around : ∃ before, sql.toList = before ++ s.held ++ rest ∧ s.origin = byteSize before

/-- A piece that stands behind some text of the query ends behind its own. -/
theorem endsAt_some {p : Piece} {before after : List Char} {stop : Nat}
    (hsql : sql.toList = before ++ p.text.toList ++ after) (hne : p.text.toList ≠ [])
    (hstart : p.start = byteSize before) (hstop : stop = p.start + byteSize p.text.toList) :
    Registers.EndsAt sql (some p) stop := by
  rintro q hq
  obtain rfl := Option.some.inj hq
  refine ⟨?_, by rw [hstop, byteSize_toList]⟩
  rw [cut?_eq hsql hne hstart hstop, String.ofList_toList]

theorem ReadsIn.endsAt (h : s.ReadsIn sql rest) : Registers.EndsAt sql s.pending s.position := by
  obtain ⟨before, hsql, horigin⟩ := h.around
  have hadd := h.aligned.origin_add
  have hne := h.aligned.held_ne_nil
  cases hp : s.pending with
  | none => exact Registers.endsAt_none sql _
  | some p =>
    simp only [origin, held, hp] at hsql horigin hadd hne
    exact endsAt_some hsql (hne (by simp)) horigin hadd.symm

theorem ReadsIn.endsAt_push (h : s.ReadsIn sql (c :: rest)) :
    Registers.EndsAt sql (s.pending.map (·.push c)) (s.position + c.utf8Size) := by
  obtain ⟨before, hsql, horigin⟩ := h.around
  have hadd := h.aligned.origin_add
  cases hp : s.pending with
  | none => exact Registers.endsAt_none sql _
  | some p =>
    simp only [origin, held, hp] at hsql horigin hadd
    have hpush := Piece.toList_push p c
    have hsql' : sql.toList = before ++ (p.push c).text.toList ++ rest := by
      rw [hsql, hpush]
      simp
    refine endsAt_some hsql' (by simp [hpush]) horigin ?_
    rw [hpush, byteSize_append, ← Nat.add_assoc]
    simp [Piece.push, ← hadd]

/-- The next character stands where the scanner does. -/
theorem ReadsIn.cut?_char (h : s.ReadsIn sql (c :: rest)) :
    cut? sql s.position (s.position + c.utf8Size) = some c.toString := by
  obtain ⟨before, hsql, horigin⟩ := h.around
  have hstart : s.position = byteSize (before ++ s.held) := by
    rw [byteSize_append, ← horigin, h.aligned.origin_add]
  rw [List.append_cons] at hsql
  exact cut?_eq hsql (List.cons_ne_nil _ _) hstart rfl

/-- What is read takes the scanner on in the query. -/
theorem ReadsIn.of_accounts (h : s.ReadsIn sql (cs ++ rest)) (hacc : Accounts s cs fs t) :
    t.ReadsIn sql rest := by
  obtain ⟨before, hsql, horigin⟩ := h.around
  obtain ⟨used, heq, -⟩ := hacc.laidOut
  refine ⟨hacc.aligned, before ++ used, ?_, ?_⟩
  · rw [hsql, List.append_assoc, ← List.append_assoc s.held, heq]
    simp only [List.append_assoc]
  · rw [byteSize_append, h.aligned.origin_eq hacc.aligned hacc.position_eq heq, horigin]

/-! ### Keeping up -/

/-- An escape character is escaped or waits for the next one, and its place is kept either way. -/
theorem registers_of_escape (hc : c = escapeChar) (pending : Option Piece) (position : Nat)
    (fs : List Fragment) :
    (⟨position, pending, s.escapeAfter c⟩ : Scanner).registers fs s.position =
      .ofPending fs pending (s.isEscaped c) s.position := by
  cases hescape : s.escape? <;> simp [registers, escapeAfter, isEscaped, hc, hescape]

/-- Behind any other character no escape waits. -/
theorem registers_of_ne (hc : c ≠ escapeChar) (pending : Option Piece) (position : Nat)
    (fs : List Fragment) (last : Nat) :
    (⟨position, pending, s.escapeAfter c⟩ : Scanner).registers fs last =
      .ofPending fs pending false last := by
  simp [registers, escapeAfter, hc]

/-- **The registers keep up** with the scanner when it reads a character. -/
theorem step_registers (h : s.ReadsIn sql (c :: rest)) (fs : List Fragment) (last : Nat) :
    (s.registers fs last).step v sql s.position c =
      some ((s.step v c).outcome.map fun t => t.registers (fs ++ (s.step v c).fragments)
        (if c = escapeChar then s.position else s.escape?.getD last)) := by
  have hscan : ∀ escapeAt, (Registers.ofPending fs s.pending (s.isEscaped c) escapeAt).scan v sql
      s.position c = _ := fun _ => Registers.scan_ofPending h.endsAt h.endsAt_push h.cut?_char
  rw [Scanner.step, Registers.step]
  by_cases hc : c = escapeChar
  · -- The flag is turned around before the character is read.
    have hflag : (!s.escape?.isSome) = s.isEscaped c := by
      rw [isEscaped, if_pos hc, Option.not_isSome]
    rw [if_pos hc, if_pos hc]
    show (Registers.ofPending fs s.pending (!s.escape?.isSome) s.position).scan v sql _ c = _
    rw [hflag, hscan]
    obtain ⟨gs, e | next⟩ := readChar v s.pending (s.isEscaped c) s.position c
    · rfl
    · simp [Progress.andThen, Progress.pure, Except.map, registers_of_escape hc]
  · -- The flag is put down behind the character.
    have hflag : s.escape?.isSome = s.isEscaped c := by rw [isEscaped, if_neg hc]
    rw [if_neg hc, if_neg hc, registers, hflag, hscan]
    obtain ⟨gs, e | next⟩ := readChar v s.pending (s.isEscaped c) s.position c
    · rfl
    · simp [Progress.andThen, Progress.pure, Except.map, registers_of_ne hc, Registers.ofPending]

/-- So they do when it reads a text. -/
theorem read_registers (h : s.ReadsIn sql (cs ++ rest)) (fs : List Fragment) (last : Nat) :
    ∃ last', (s.registers fs last).read v sql s.position cs =
      some ((s.scan v cs).outcome.map fun t =>
        t.registers (fs ++ (s.scan v cs).fragments) last') := by
  induction cs generalizing s fs last with
  | nil => exact ⟨last, by simp [Registers.read, Progress.pure, Except.map]⟩
  | cons c cs ih =>
    rw [Registers.read, step_registers h fs last, scan_cons]
    cases hout : s.step v c with
    | mk gs out =>
      cases out with
      | error e => exact ⟨last, rfl⟩
      | ok t =>
        have hacc := step_accounts v h.aligned hout
        have hreads : s.ReadsIn sql ([c] ++ (cs ++ rest)) := h
        obtain ⟨last', hread⟩ := ih (hreads.of_accounts hacc) (fs ++ gs)
          (if c = escapeChar then s.position else s.escape?.getD last)
        have hposition : t.position = s.position + c.utf8Size := hacc.position_eq
        refine ⟨last', ?_⟩
        rw [← hposition]
        simpa [Except.map, Progress.andThen] using hread

/-- And at the end of a query. -/
theorem ReadsIn.finish_registers (h : s.ReadsIn sql rest) (fs : List Fragment) (last : Nat) :
    (s.registers fs last).finish sql s.position =
      some (s.finish.outcome.map fun _ => fs ++ s.finish.fragments) := by
  have hcontainer : (s.registers fs last).container? =
      (openLiteral? s.pending).map fun q => (q.2, q.1.start) := rfl
  have hescaped : (s.registers fs last).escaped = s.escape?.isSome := rfl
  have hescapeAt : (s.registers fs last).escapeAt = s.escape?.getD last := rfl
  unfold Registers.finish finish
  rw [hcontainer, hescaped, hescapeAt]
  cases openLiteral? s.pending with
  | some q => rfl
  | none =>
    cases s.escape? with
    | some position => rfl
    | none =>
      simp only [Option.map_none, Option.isSome_none, Bool.false_eq_true, if_false]
      rw [Registers.flush_eq rfl h.endsAt]
      rfl

/-! ### A query -/

/-- Before its body is read, the scanner stands in the query. -/
theorem exists_readsIn_start (sql : String) :
    ∃ t, (start (bodyStart sql.toList)).ReadsIn sql (bodyOf sql.toList ++ t) := by
  obtain ⟨t, -, hsql⟩ := exists_body_append sql.toList
  refine ⟨t, aligned_start _, sql.toList.takeWhile isBlank, ?_, rfl⟩
  rw [List.append_assoc] at hsql
  simpa [held, start] using hsql

end Scanner

/-- **A query is split by places as by the scanner.**  In particular there is always an answer: text
    is only cut between boundaries of characters with a character between them. -/
theorem registers_split (v : Vocabulary) (sql : String) :
    Registers.split v sql = some (split v sql) := by
  obtain ⟨t, hreads⟩ := Scanner.exists_readsIn_start sql
  obtain ⟨last, hread⟩ := Scanner.read_registers (v := v) hreads [] 0
  have hinitial : Registers.initial.read v sql (bodyStart sql.toList) (bodyOf sql.toList) = _ :=
    hread
  rw [Registers.split, split, splitting, hinitial]
  cases hscan : (Scanner.start (bodyStart sql.toList)).scan v (bodyOf sql.toList) with
  | mk fs out =>
    cases out with
    | error e => rfl
    | ok u =>
      have hacc := Scanner.scan_accounts v hreads.aligned hscan
      have hfinish := (hreads.of_accounts hacc).finish_registers fs last
      have hposition : u.position = bodyStart sql.toList + byteSize (bodyOf sql.toList) :=
        hacc.position_eq
      rw [← hposition]
      exact hfinish

end SqlLex
