import SqlLex.Proofs.Fault
import SqlLex.Proofs.Registers.Scanner

namespace SqlLex

open Text

/-!
# What registers say

The registers of a scan by places belong together: which of them are set, and what text they cut out
of the query, is told from the part of its body that is read.

* `placeBehind` — the place behind a part of the body.
* `Registers.Represents` — what holds of the registers behind a part of the body.
* `Scanner.represents_registers` — it holds of those of the scanner.
* `registers_represent` — it holds wherever a query can be read so far.
-/

/-- The byte behind the part `u` of the body of a query, which the body starts with. -/
def placeBehind (sql : String) (u : List Char) : Nat := bodyStart sql.toList + byteSize u

/-- What holds of the registers when the part `u` of the body of a query has been read. -/
structure Registers.Represents (sql : String) (u : List Char) (r : Registers) : Prop where
  /-- The piece being read starts before the next place, behind some characters of the body, and its
      text is what has been read since then. -/
  start_inside : ∀ start, r.start? = some start → start < placeBehind sql u ∧
    ∃ x y, u = x ++ y ∧ start = placeBehind sql x ∧
      r.pendingText? sql (placeBehind sql u) = some (String.ofList y)
  /-- A literal that is open is the piece being read, and is no run of digits or operators. -/
  literal : ∀ k opened, r.container? = some (k, opened) → r.start? = some opened ∧ r.run = .word
  /-- A run of digits is a number, outside literals. -/
  number : r.run = .number → r.container? = none ∧
    ∃ w, r.pendingText? sql (placeBehind sql u) = some (String.ofList w) ∧ IsNumeral w
  /-- A run of operators is not empty, and outside literals. -/
  operator : r.run = .operator → r.container? = none ∧
    ∃ w, r.pendingText? sql (placeBehind sql u) = some (String.ofList w) ∧ w ≠ [] ∧
      ∀ c ∈ w, c ∈ operatorChars
  /-- What else is read outside literals holds no character that has another role. -/
  word : r.run = .word → r.container? = none →
    ∃ w, r.pendingText? sql (placeBehind sql u) = some (String.ofList w) ∧
      ∀ c ∈ w, isBlank c = false ∧ c.isDigit = false ∧ c ∉ operatorChars ∧ c ∉ breakingChars
  /-- An escape waits behind an odd number of escape characters, and only there. -/
  escaped_iff : r.escaped = true ↔ endsEscaped u = true
  /-- An escape that waits is that of the last character. -/
  escapeAt_eq : r.escaped = true →
    ∃ x, u = x ++ [escapeChar] ∧ r.escapeAt = placeBehind sql x

/-- The characters of a word have no other role. -/
theorem no_role_of_classOf {c : Char} (h : classOf c = .member .word) :
    isBlank c = false ∧ c.isDigit = false ∧ c ∉ operatorChars ∧ c ∉ breakingChars := by
  refine ⟨isBlank_of_classOf_ne (by simp [h]), ?_, ?_, ?_⟩
  · rw [← Bool.not_eq_true, ← classOf_eq_number_iff, h]
    decide
  · rw [← classOf_eq_operator_iff, h]
    decide
  · rw [← classOf_eq_breaking_iff, h]
    decide

namespace Scanner

variable {v : Vocabulary} {sql : String} {t : Scanner} {u w : List Char} {fs : List Fragment}

/-- What the scanner holds looks like the piece being read, and is what the text ends with. -/
theorem fits_held {position : Nat} (h : (start position).scan v u = ⟨fs, .ok t⟩) {p : Piece}
    (hp : t.pending = some p) :
    p.kind.Fits v t.held ∧ ∃ used, u = used ++ t.held ∧ p.start = position + byteSize used := by
  have hheld : t.held = p.text.toList := by simp [held, hp]
  rw [hheld]
  exact exists_append_of_pending h hp

/-- The text that the registers cut out is what the scanner holds. -/
theorem pendingText?_registers {stop : Nat} (h : Registers.EndsAt sql t.pending stop) (last : Nat) :
    (t.registers fs last).pendingText? sql stop = some (String.ofList t.held) := by
  cases hp : t.pending with
  | none => simp [Registers.pendingText?, registers, Registers.ofPending, held, hp]
  | some p =>
    simp [Registers.pendingText?, registers, Registers.ofPending, held, hp, (h p hp).1]

/-- A run of digits or operators looks like one, and no literal is open. -/
theorem fits_held_of_run {position : Nat} (h : (start position).scan v u = ⟨fs, .ok t⟩)
    {last : Nat} {kind : RunKind} (hk : kind ≠ .word) (hrun : (t.registers fs last).run = kind) :
    (t.registers fs last).container? = none ∧ (PieceKind.run kind).Fits v t.held := by
  obtain ⟨p, hp, hkind⟩ :=
    isReading_eq_true_iff.1 ((Registers.run_ofPending_eq_iff hk).1 hrun)
  obtain ⟨hfits, -⟩ := fits_held h hp
  rw [hkind] at hfits
  exact ⟨by simp [registers, Registers.ofPending, openLiteral?, hp, hkind], hfits⟩

/-- Where neither a literal nor such a run is read, the scanner holds characters of words. -/
theorem classOf_held {position : Nat} (h : (start position).scan v u = ⟨fs, .ok t⟩) {last : Nat}
    (hrun : (t.registers fs last).run = .word) (hnone : (t.registers fs last).container? = none)
    {c : Char} (hc : c ∈ t.held) : classOf c = .member .word := by
  cases hp : t.pending with
  | none =>
    simp only [held, hp] at hc
    cases hc
  | some p =>
    obtain ⟨hfits, -⟩ := fits_held h hp
    cases hk : p.kind with
    | run kind =>
      obtain rfl : kind = .word := by
        simpa [registers, Registers.ofPending, Registers.runOf, hp, hk] using hrun
      rw [hk] at hfits
      exact hfits.2 c hc
    | literal k => simp [registers, Registers.ofPending, openLiteral?, hp, hk] at hnone

/-- **The registers belong together** where the scanner stands behind a part of the body. -/
theorem represents_registers (hbody : bodyOf sql.toList = u ++ w)
    (h : (start (bodyStart sql.toList)).scan v u = ⟨fs, .ok t⟩) (last : Nat) :
    (t.registers fs last).Represents sql u := by
  obtain ⟨tail, hreads⟩ := exists_readsIn_start sql
  rw [hbody, List.append_assoc] at hreads
  have hacc := scan_accounts v hreads.aligned h
  have hends := (hreads.of_accounts hacc).endsAt
  rw [scan_start_position h] at hends
  have htext : (t.registers fs last).pendingText? sql (placeBehind sql u) =
      some (String.ofList t.held) := pendingText?_registers hends last
  -- The flag is told from the text alone, whatever the piece.
  have hescape := scan_start_escape? h
  refine ⟨?start_inside, ?literal, ?number, ?operator, ?word, ?escaped_iff, ?escapeAt_eq⟩
  case start_inside =>
    intro start hstart
    obtain ⟨p, hp, rfl⟩ := Option.map_eq_some_iff.1 hstart
    obtain ⟨-, used, hu, hplace⟩ := fits_held h hp
    have hpos : byteSize t.held ≠ 0 :=
      mt byteSize_eq_zero_iff.1 (hacc.aligned.held_ne_nil (by simp [hp]))
    refine ⟨?_, used, t.held, hu, hplace, htext⟩
    rw [hplace, placeBehind, hu, byteSize_append]
    omega
  case literal =>
    intro k opened hcontainer
    obtain ⟨⟨p, l⟩, hopen, heq⟩ := Option.map_eq_some_iff.1 hcontainer
    cases heq
    obtain ⟨hp, hk⟩ := openLiteral?_eq_some_iff.1 hopen
    simp [registers, Registers.ofPending, Registers.runOf, hp, hk]
  case number =>
    intro hrun
    obtain ⟨hnone, hnumeral⟩ := fits_held_of_run h (by decide) hrun
    exact ⟨hnone, t.held, htext, hnumeral⟩
  case operator =>
    intro hrun
    obtain ⟨hnone, hoperators⟩ := fits_held_of_run h (by decide) hrun
    exact ⟨hnone, t.held, htext, hoperators⟩
  case word =>
    intro hrun hnone
    exact ⟨t.held, htext, fun c hc => no_role_of_classOf (classOf_held h hrun hnone hc)⟩
  case escaped_iff =>
    show t.escape?.isSome = true ↔ _
    rw [hescape, escapeBehind]
    cases endsEscaped u <;> simp
  case escapeAt_eq =>
    intro hescaped
    obtain ⟨position, hposition⟩ := Option.isSome_iff_exists.1 hescaped
    obtain ⟨-, x, hx, hplace⟩ := exists_of_escapeBehind (hescape.symm.trans hposition)
    refine ⟨x, hx, ?_⟩
    simp [registers, Registers.ofPending, hposition, hplace, placeBehind]

end Scanner

/-- **The registers belong together.**  A scan by places keeps up with the scanner in every part of
    the body of a query, with its fragments and errors; where that part can be read, the registers
    represent it; and no text is cut at a wrong place up to the end of the query. -/
theorem registers_represent (v : Vocabulary) (sql : String) :
    (∀ u w, bodyOf sql.toList = u ++ w →
      (∃ last, Registers.initial.read v sql (bodyStart sql.toList) u =
        some (((Scanner.start (bodyStart sql.toList)).scan v u).outcome.map fun t =>
          t.registers ((Scanner.start (bodyStart sql.toList)).scan v u).fragments last)) ∧
      ∀ r, Registers.initial.read v sql (bodyStart sql.toList) u = some (.ok r) →
        r.Represents sql u) ∧
    Registers.split v sql = some (split v sql) := by
  refine ⟨?_, registers_split v sql⟩
  intro u w hbody
  obtain ⟨tail, hreads⟩ := Scanner.exists_readsIn_start sql
  rw [hbody, List.append_assoc] at hreads
  obtain ⟨last, hread⟩ := Scanner.read_registers (v := v) hreads [] 0
  have hinitial : Registers.initial.read v sql (bodyStart sql.toList) u = _ := hread
  refine ⟨⟨last, hinitial⟩, ?_⟩
  intro r hr
  rw [hinitial] at hr
  cases hscan : (Scanner.start (bodyStart sql.toList)).scan v u with
  | mk fs out =>
    rw [hscan] at hr
    cases out with
    | error e => cases hr
    | ok t =>
      cases hr
      exact Scanner.represents_registers hbody hscan last

/-- A literal in which an escape waits, and a number with a point, in a query that starts with a
    blank of several bytes. -/
theorem registers_represent_standard :
    bodyOf "\u2003'π\\'' <2.5".toList = "'π\\".toList ++ "'' <2.5".toList ∧
    bodyOf "\u2003'π\\'' <2.5".toList = "'π\\'' <2.".toList ++ "5".toList ∧
    ∃ r q : Registers,
      Registers.initial.read .standard "\u2003'π\\'' <2.5"
        (bodyStart "\u2003'π\\'' <2.5".toList) "'π\\".toList = some (.ok r) ∧
      Registers.initial.read .standard "\u2003'π\\'' <2.5"
        (bodyStart "\u2003'π\\'' <2.5".toList) "'π\\'' <2.".toList = some (.ok q) ∧
      r = ⟨[], some 3, some (⟨'\'', '\'', .stringValue⟩, 3), true, 6, .word⟩ ∧
      q = ⟨[⟨"'π\\''", ⟨3, 9⟩⟩, ⟨"<", ⟨10, 11⟩⟩], some 11, none, false, 6, .number⟩ ∧
      r.Represents "\u2003'π\\'' <2.5" "'π\\".toList ∧
      q.Represents "\u2003'π\\'' <2.5" "'π\\'' <2.".toList := by
  have hliteral : bodyOf "\u2003'π\\'' <2.5".toList = "'π\\".toList ++ "'' <2.5".toList := by
    decide +kernel
  have hnumber : bodyOf "\u2003'π\\'' <2.5".toList = "'π\\'' <2.".toList ++ "5".toList := by
    decide +kernel
  have hr : Registers.initial.read .standard "\u2003'π\\'' <2.5"
      (bodyStart "\u2003'π\\'' <2.5".toList) "'π\\".toList =
        some (.ok ⟨[], some 3, some (⟨'\'', '\'', .stringValue⟩, 3), true, 6, .word⟩) := by
    decide +kernel
  have hq : Registers.initial.read .standard "\u2003'π\\'' <2.5"
      (bodyStart "\u2003'π\\'' <2.5".toList) "'π\\'' <2.".toList =
        some (.ok ⟨[⟨"'π\\''", ⟨3, 9⟩⟩, ⟨"<", ⟨10, 11⟩⟩], some 11, none, false, 6, .number⟩) := by
    decide +kernel
  have hrepresent := (registers_represent .standard "\u2003'π\\'' <2.5").1
  exact ⟨hliteral, hnumber, _, _, hr, hq, rfl, rfl, (hrepresent _ _ hliteral).2 _ hr,
    (hrepresent _ _ hnumber).2 _ hq⟩

end SqlLex
