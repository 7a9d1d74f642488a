import SqlLex.Report.Json
import SqlLex.Token.Basic
import SqlLex.Fragment.Basic

namespace SqlLex.Report

/-!
# Reports

The forms in which tokens and fragments are shown.

* `Format` — plain lines or JSON.
* `tokens`, `fragments` — the report of a list of them.
-/

/-- The form of a report. -/
inductive Format where
  /-- One item after the other, each on a new line. -/
  | text
  /-- An indented JSON list. -/
  | json
deriving DecidableEq, Repr

/-- The format of the given name. -/
def Format.ofName? (name : String) : Option Format :=
  if name = "text" then some .text
  else if name = "json" then some .json
  else none

/-- Items that start on a new line each. -/
def lines (items : List String) : String := "\n".intercalate items

/-- The line of a fragment: where it stands, and its text. -/
def fragmentLine (f : Fragment) : String :=
  toString f.span.start ++ ".." ++ toString f.span.stop ++ "\t" ++ f.text

/-- The JSON record of a span. -/
def spanRecord (level : Nat) (s : Span) : String :=
  record level [("start", toString s.start), ("end", toString s.stop)]

/-- The JSON record of a token. -/
def tokenRecord (level : Nat) (t : Token) : String :=
  record level
    [("kind", quote t.kind.name), ("raw", quote t.raw), ("span", spanRecord (level + 1) t.span)]

/-- The JSON record of a fragment. -/
def fragmentRecord (level : Nat) (f : Fragment) : String :=
  record level [("text", quote f.text), ("span", spanRecord (level + 1) f.span)]

/-- The report of some tokens. -/
def tokens (format : Format) (ts : List Token) : String :=
  match format with
  | .text => lines (ts.map Token.display)
  | .json => list 0 (ts.map (tokenRecord 1))

/-- The report of some fragments. -/
def fragments (format : Format) (fs : List Fragment) : String :=
  match format with
  | .text => lines (fs.map fragmentLine)
  | .json => list 0 (fs.map (fragmentRecord 1))

end SqlLex.Report
