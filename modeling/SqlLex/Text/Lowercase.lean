import SqlLex.Text.CaseTable

namespace SqlLex.Text

/-!
# Lowercase text

The full lowercase mapping of the Unicode standard, with its two special cases: `İ` becomes two
characters, and a capital sigma at the end of a word becomes `ς`.

* `lowerChar` — the image of one character, whatever stands around it.
* `isCased`, `isCaseIgnorable` — the two properties that decide where a word ends.
* `isFinalSigma` — a capital sigma between the given characters ends a word.
* `lowercase` — the lowercase form of a text.
* `lowerChar_ascii` — ASCII letters map to ASCII letters.
-/

/-- The lowercase image of a code point beyond ASCII. -/
def lowerCode (n : Nat) : Nat :=
  match lowerRanges.find? (·.holds n) with
  | some r => r.lower n
  | none => n

/-- The lowercase image of one character. -/
def lowerChar (c : Char) : List Char :=
  if c.toNat < 0x80 then [c.toLower]
  else if c = 'İ' then ['i', Char.ofNat 0x307]
  else [Char.ofNat (lowerCode c.toNat)]

/-- The property `Cased`: letters that have a case, and what is written like them. -/
def isCased (c : Char) : Bool :=
  if c.toNat < 0x80 then c.isAlpha else inRanges casedRanges c.toNat

/-- The property `Case_Ignorable`: marks and apostrophes, which do not end a word. -/
def isCaseIgnorable (c : Char) : Bool :=
  if c.toNat < 0x80 then c == '\x27' || c == '.' || c == ':' || c == '^' || c == '\x60'
  else inRanges caseIgnorableRanges c.toNat

/-- The first character that is not passed over has a case. -/
def meetsCased (cs : List Char) : Bool :=
  match cs.dropWhile isCaseIgnorable with
  | [] => false
  | c :: _ => isCased c

/-- A sigma ends a word: a cased character stands before it and none after it. The characters
    before it are given from the nearest to the farthest. -/
def isFinalSigma (before after : List Char) : Bool := meetsCased before && !meetsCased after

/-- The lowercase image of a character between others. -/
def lowerBetween (before : List Char) (c : Char) (after : List Char) : List Char :=
  if c = 'Σ' then [if isFinalSigma before after then 'ς' else 'σ'] else lowerChar c

/-- The lowercase form of the characters that follow `before`, which is given from the nearest to
    the farthest. -/
def lowerAfter (before : List Char) : List Char → List Char
  | [] => []
  | c :: cs => lowerBetween before c cs ++ lowerAfter (c :: before) cs

/-- The lowercase form of a text. -/
def lowercase (s : String) : String := String.ofList (lowerAfter [] s.toList)

/-! ### Laws -/

/-- ASCII letters have ASCII images, and other ASCII characters keep their form. -/
theorem lowerChar_ascii {c : Char} (h : c.toNat < 0x80) : lowerChar c = [c.toLower] := by
  simp [lowerChar, h]

@[simp] theorem lowerAfter_nil (before : List Char) : lowerAfter before [] = [] := rfl

theorem lowerAfter_cons (before : List Char) (c : Char) (cs : List Char) :
    lowerAfter before (c :: cs) = lowerBetween before c cs ++ lowerAfter (c :: before) cs := rfl

@[simp] theorem toList_lowercase (s : String) : (lowercase s).toList = lowerAfter [] s.toList :=
  String.toList_ofList

end SqlLex.Text
