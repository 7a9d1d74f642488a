import Mathlib.Data.List.Induction
import SqlLex.Fragment.Scan

namespace SqlLex

/-!
# Escapes and stops

What a lexeme is depends on how many escape characters stand before a character, and on where the
first character is that does not belong to it.

* `endsEscaped` — an odd number of escape characters stands at the end of a text.
* `runUntil` — the characters before the first one that is a stop, seen behind its predecessors.
* `endsEscaped_concat` — an escape character escapes the next one unless it is escaped itself.
* `runUntil_append_stop` — a text without a stop, with a stop behind it, is found again.
-/

/-! ### Escapes -/

/-- An odd number of escape characters stands at the end, so that the next character is escaped. -/
def endsEscaped (cs : List Char) : Bool :=
  (cs.reverse.takeWhile (· == escapeChar)).length % 2 == 1

@[simp] theorem endsEscaped_nil : endsEscaped [] = false := rfl

theorem endsEscaped_concat (cs : List Char) (c : Char) :
    endsEscaped (cs ++ [c]) = (c == escapeChar && !endsEscaped cs) := by
  by_cases h : c = escapeChar
  · -- One more escape character turns the parity around.
    have hparity : ∀ n : Nat, ((n + 1) % 2 == 1) = !(n % 2 == 1) := by
      intro n
      rcases Nat.mod_two_eq_zero_or_one n with hn | hn <;> simp [Nat.add_mod, hn]
    simp [endsEscaped, h, hparity]
  · simp [endsEscaped, h]

theorem endsEscaped_concat_of_ne {c : Char} (cs : List Char) (h : c ≠ escapeChar) :
    endsEscaped (cs ++ [c]) = false := by
  simp [endsEscaped_concat, h]

theorem endsEscaped_of_forall_ne {cs : List Char} (h : ∀ c ∈ cs, c ≠ escapeChar) :
    endsEscaped cs = false := by
  rcases List.eq_nil_or_concat cs with rfl | ⟨ds, c, rfl⟩
  · rfl
  · rw [List.concat_eq_append]
    exact endsEscaped_concat_of_ne ds (h c (by simp))

/-- What stands before another character takes no part in the escapes behind it. -/
theorem endsEscaped_cons_of_ne {c : Char} (h : c ≠ escapeChar) (cs : List Char) :
    endsEscaped (c :: cs) = endsEscaped cs := by
  -- Escapes are counted from the end, so the induction takes characters off there.
  induction cs using List.reverseRecOn with
  | nil => simpa using endsEscaped_concat_of_ne [] h
  | append_singleton cs d ih =>
    rw [← List.cons_append, endsEscaped_concat, endsEscaped_concat, ih]

theorem endsEscaped_append_of_forall_ne {cs : List Char} (h : ∀ c ∈ cs, c ≠ escapeChar)
    (ds : List Char) : endsEscaped (cs ++ ds) = endsEscaped ds := by
  induction cs with
  | nil => rfl
  | cons c cs ih =>
    obtain ⟨hc, hcs⟩ := List.forall_mem_cons.1 h
    rw [List.cons_append, endsEscaped_cons_of_ne hc, ih hcs]

/-! ### Text before a stop -/

/-- The characters before the first one that is a stop.  The test sees a character behind what
    stands before it, which starts with `before`. -/
def runUntil (stop : List Char → Char → Bool) (before : List Char) : List Char → List Char
  | [] => []
  | c :: cs => if stop before c then [] else c :: runUntil stop (before ++ [c]) cs

section RunUntil

variable {stop : List Char → Char → Bool}

@[simp] theorem runUntil_nil (before : List Char) : runUntil stop before [] = [] := rfl

theorem runUntil_of_stop {before : List Char} {c : Char} (h : stop before c = true)
    (cs : List Char) : runUntil stop before (c :: cs) = [] := by
  simp [runUntil, h]

theorem runUntil_of_not_stop {before : List Char} {c : Char} (h : stop before c = false)
    (cs : List Char) :
    runUntil stop before (c :: cs) = c :: runUntil stop (before ++ [c]) cs := by
  simp [runUntil, h]

/-- The characters before the stop are a first part of the text. -/
theorem runUntil_append_drop (before cs : List Char) :
    runUntil stop before cs ++ cs.drop (runUntil stop before cs).length = cs := by
  induction cs generalizing before with
  | nil => rfl
  | cons c cs ih =>
    cases h : stop before c with
    | true => simp [runUntil_of_stop h]
    | false => simp [runUntil_of_not_stop h, ih]

/-- There is no stop among the characters before the stop. -/
theorem runUntil_runUntil (before cs : List Char) :
    runUntil stop before (runUntil stop before cs) = runUntil stop before cs := by
  induction cs generalizing before with
  | nil => rfl
  | cons c cs ih =>
    cases h : stop before c with
    | true => simp [runUntil_of_stop h]
    | false => simp [runUntil_of_not_stop h, ih]

/-- What follows the characters before the stop, if anything, starts with a stop. -/
theorem stop_of_drop_eq_cons {before cs : List Char} {d : Char} {ds : List Char}
    (h : cs.drop (runUntil stop before cs).length = d :: ds) :
    stop (before ++ runUntil stop before cs) d = true := by
  -- `before` grows by each character that is passed over.
  induction cs generalizing before with
  | nil => simp at h
  | cons c cs ih =>
    cases hc : stop before c with
    | true =>
      rw [runUntil_of_stop hc] at h ⊢
      obtain ⟨rfl, -⟩ := List.cons.inj h
      simpa using hc
    | false =>
      rw [runUntil_of_not_stop hc] at h ⊢
      have := ih h
      rwa [List.append_assoc, List.singleton_append] at this

/-- A text without a stop is passed over. -/
theorem runUntil_append {before w : List Char} (h : runUntil stop before w = w)
    (cs : List Char) :
    runUntil stop before (w ++ cs) = w ++ runUntil stop (before ++ w) cs := by
  induction w generalizing before with
  | nil => simp
  | cons c w ih =>
    cases hc : stop before c with
    | true => simp [runUntil_of_stop hc] at h
    | false =>
      rw [runUntil_of_not_stop hc] at h
      rw [List.cons_append, runUntil_of_not_stop hc, ih (List.cons.inj h).2]
      simp

theorem runUntil_append_stop {before w : List Char} {d : Char} (h : runUntil stop before w = w)
    (hd : stop (before ++ w) d = true) (cs : List Char) :
    runUntil stop before (w ++ d :: cs) = w := by
  rw [runUntil_append h, runUntil_of_stop hd, List.append_nil]

/-- A text is passed over to its end iff it holds no stop. -/
theorem runUntil_eq_self_iff {before cs : List Char} :
    runUntil stop before cs = cs ↔
      ∀ u d ds, cs = u ++ d :: ds → stop (before ++ u) d = false := by
  induction cs generalizing before with
  | nil => simp
  | cons c cs ih =>
    cases hc : stop before c with
    | true =>
      -- Neither side holds: the first character is a stop.
      rw [runUntil_of_stop hc]
      constructor
      · intro h
        cases h
      · intro h
        have := h [] c cs rfl
        rw [List.append_nil, hc] at this
        cases this
    | false =>
      rw [runUntil_of_not_stop hc, List.cons_inj_right, ih]
      constructor
      · rintro h (_ | ⟨c', u⟩) d ds hcs
        · obtain ⟨rfl, -⟩ := List.cons.inj hcs
          simpa using hc
        · obtain ⟨rfl, htail⟩ := List.cons.inj hcs
          simpa using h u d ds htail
      · intro h u d ds hcs
        simpa using h (c :: u) d ds (by rw [hcs, List.cons_append])

/-- Only the answers of the test along the text count. -/
theorem runUntil_congr {stop' : List Char → Char → Bool} {before before' : List Char}
    (h : ∀ u c, stop (before ++ u) c = stop' (before' ++ u) c) (cs : List Char) :
    runUntil stop before cs = runUntil stop' before' cs := by
  -- The tests agree behind every part of the text, in particular behind the first character.
  induction cs generalizing before before' with
  | nil => rfl
  | cons c cs ih =>
    have hc : stop before c = stop' before' c := by simpa using h [] c
    have htail : runUntil stop (before ++ [c]) cs = runUntil stop' (before' ++ [c]) cs :=
      ih fun u d => by simpa using h (c :: u) d
    simp [runUntil, hc, htail]

theorem takeWhile_eq_runUntil (p : Char → Bool) (before cs : List Char) :
    cs.takeWhile p = runUntil (fun _ c => !p c) before cs := by
  induction cs generalizing before with
  | nil => rfl
  | cons c cs ih => cases h : p c <;> simp [runUntil, h, ih (before ++ [c])]

end RunUntil

end SqlLex
