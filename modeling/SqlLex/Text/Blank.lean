namespace SqlLex.Text

/-!
# Blank characters

The characters that separate words, and cutting them off the ends of a text.

* `isBlank` — membership in the Unicode property `White_Space`, 25 code points.
* `trimStart`, `trimEnd`, `trim` — a text without its leading, trailing or surrounding blanks.
* `trimStart_eq_self_iff` — a text is trimmed at the front iff its first character is not blank.
-/

/-- Membership in the Unicode property `White_Space`. -/
def isBlank (c : Char) : Bool :=
  let n := c.toNat
  (0x09 ≤ n && n ≤ 0x0D) || n == 0x20 || n == 0x85 || n == 0xA0 || n == 0x1680 ||
    (0x2000 ≤ n && n ≤ 0x200A) || n == 0x2028 || n == 0x2029 || n == 0x202F || n == 0x205F ||
    n == 0x3000

/-- The text without its leading blanks. -/
def trimStart (cs : List Char) : List Char := cs.dropWhile isBlank

/-- The text without its trailing blanks. -/
def trimEnd (cs : List Char) : List Char := (cs.reverse.dropWhile isBlank).reverse

/-- The text without the blanks around it. -/
def trim (cs : List Char) : List Char := trimEnd (trimStart cs)

/-! ### Laws -/

@[simp] theorem trimStart_nil : trimStart [] = [] := rfl

theorem trimStart_cons (c : Char) (cs : List Char) :
    trimStart (c :: cs) = if isBlank c then trimStart cs else c :: cs := by
  cases h : isBlank c <;> simp [trimStart, List.dropWhile, h]

/-- Only blanks are cut off the front. -/
theorem takeWhile_append_trimStart (cs : List Char) :
    cs.takeWhile isBlank ++ trimStart cs = cs :=
  List.takeWhile_append_dropWhile

theorem trimStart_eq_self_iff {cs : List Char} :
    trimStart cs = cs ↔ ∀ c, cs.head? = some c → isBlank c = false := by
  cases cs with
  | nil => simp
  | cons c cs =>
    rw [trimStart_cons]
    cases h : isBlank c with
    | false => simp [h]
    | true =>
      have hlen : (trimStart cs).length ≤ cs.length :=
        (List.dropWhile_sublist isBlank).length_le
      constructor
      · intro he
        have := congrArg List.length he
        simp only [if_true, List.length_cons] at this
        omega
      · intro hc
        simp [h] at hc

/-- What follows the first characters has no part in it. -/
theorem trimStart_append_congr {cs ds : List Char} (hcs : cs ≠ [])
    (h : trimStart (cs ++ ds) = cs ++ ds) (es : List Char) :
    trimStart (cs ++ es) = cs ++ es := by
  obtain ⟨c, cs, rfl⟩ := List.exists_cons_of_ne_nil hcs
  rw [trimStart_eq_self_iff] at h ⊢
  exact h

end SqlLex.Text
