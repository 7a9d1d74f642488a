namespace SqlLex.Report

/-!
# Indented JSON

The text of JSON values that are written over several lines, two spaces further in at each level.
A value is given as its text; lists and records take the level at which they stand.

* `quote` — a string in quotation marks; only the quotation mark, the backslash and the control
  characters below `U+0020` are escaped.
* `list`, `record` — the elements of a list, and the fields of a record, one to a line.
-/

/-- A hexadecimal digit. -/
def hexDigit (n : Nat) : Char :=
  if n < 10 then Char.ofNat (0x30 + n) else Char.ofNat (0x57 + n)

/-- A character as it stands between quotation marks. -/
def escape (c : Char) : List Char :=
  if c = '"' then ['\\', '"']
  else if c = '\\' then ['\\', '\\']
  else if c = '\n' then ['\\', 'n']
  else if c = '\r' then ['\\', 'r']
  else if c = '\t' then ['\\', 't']
  else if c = '\x08' then ['\\', 'b']
  else if c = '\x0c' then ['\\', 'f']
  else if c.toNat < 0x20 then
    ['\\', 'u', '0', '0', hexDigit (c.toNat / 16), hexDigit (c.toNat % 16)]
  else [c]

/-- A string in quotation marks. -/
def quote (s : String) : String := "\"" ++ String.ofList (s.toList.flatMap escape) ++ "\""

/-- The start of a line at a level. -/
def lineAt (level : Nat) : String := String.ofList ('\n' :: List.replicate (2 * level) ' ')

/-- Items on lines of their own, with commas between them. -/
def block (level : Nat) (items : List String) : String :=
  ",".intercalate (items.map (lineAt (level + 1) ++ ·)) ++ lineAt level

/-- A list at a level; an empty one stays on its line. -/
def list (level : Nat) (items : List String) : String :=
  if items.isEmpty then "[]" else "[" ++ block level items ++ "]"

/-- A record at a level. -/
def record (level : Nat) (fields : List (String × String)) : String :=
  "\x7b" ++ block level (fields.map fun f => quote f.1 ++ ": " ++ f.2) ++ "\x7d"

end SqlLex.Report
