import SqlLex.Fragment.Split
import SqlLex.Token.Group

namespace SqlLex

/-!
# Tokens of a query

* `tokenize` — the tokens of a query.
* `Event` — what is noted while a query is read; `Event.level` — how much detail it is.
* `trace` — a run that reads a query into tokens, with its events.
* `trace_result` — the run answers the tokens of the query.
-/

/-- The tokens of a query, with their places in it. -/
def tokenize (v : Vocabulary) (sql : String) : Except LexError (List Token) :=
  (split v sql).map (tokensOf v)

/-! ### Events -/

/-- How much detail an event is. -/
inductive Level where
  | trace | debug
deriving DecidableEq, Repr

/-- The written name of a level. -/
def Level.name : Level → String
  | .trace => "TRACE"
  | .debug => "DEBUG"

/-- What is noted while a query is read. -/
inductive Event where
  /-- A fragment is complete. -/
  | fragmentSplit (fragment : Fragment)
  /-- No keyword starts with the fragment of this text. -/
  | keywordUnmatched (text : String)
  /-- The query has been read, into so many fragments and tokens, some of them unknown. -/
  | queryTokenized (fragments tokens unknown : Nat)
deriving DecidableEq, Repr

/-- The detail of an event. -/
def Event.level : Event → Level
  | .fragmentSplit _ | .keywordUnmatched _ => .trace
  | .queryTokenized .. => .debug

/-- The wording of an event. -/
def Event.message : Event → String
  | .fragmentSplit _ => "split fragment"
  | .keywordUnmatched _ => "no keyword matched"
  | .queryTokenized .. => "tokenized query"

/-- The events of grouping: one for each fragment that starts no keyword. -/
def unmatchedEvents (gs : List Group) : List Event :=
  (gs.filter (·.basis == .unmatched)).map fun g => .keywordUnmatched g.raw

/-- The event at the end of a run that read `fs` into `ts`. -/
def summaryOf (fs : List Fragment) (ts : List Token) : Event :=
  .queryTokenized fs.length ts.length (ts.countP Token.isUnknown)

/-! ### Runs -/

/-- A run over a query: its events in order, and its answer. -/
structure Run where
  events : List Event
  result : Except LexError (List Token)

/-- Reads a query into tokens.  The fragments that were complete before an error are noted too. -/
def trace (v : Vocabulary) (sql : String) : Run :=
  let p := splitting v sql
  let cut := p.fragments.map Event.fragmentSplit
  match p.outcome with
  | .error e => ⟨cut, .error e⟩
  | .ok () =>
    let gs := groups v p.fragments
    let ts := gs.map Group.token
    ⟨cut ++ unmatchedEvents gs ++ [summaryOf p.fragments ts], .ok ts⟩

/-- The run answers the tokens of the query. -/
theorem trace_result (v : Vocabulary) (sql : String) : (trace v sql).result = tokenize v sql := by
  unfold trace tokenize split Progress.toExcept
  obtain ⟨fs, e | ⟨⟩⟩ := splitting v sql <;> rfl

end SqlLex
