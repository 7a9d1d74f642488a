import SqlLex.CommandLine.Arguments
import SqlLex.Tokenize
import SqlLex.Vocabulary.Standard

namespace SqlLex.CommandLine

/-!
# Answers of the command line

* `ReadFault` — why there is no query; `decode` — the text of the bytes read.
* `Response` — the exit status and the texts written.
* `helpText` — what can be given; `questionResponse` — the answers to questions about the program.
* `answer` — the answer for a query that is at hand.
* `respond` — the answer to arguments.  How an input is read is a parameter, with any effects that
  reading has.
-/

/-- Why no query could be read. -/
inductive ReadFault where
  | notFound
  | isDirectory
  | notUtf8
  | other (reason : String)
deriving DecidableEq, Repr

/-- The wording of a fault. -/
def ReadFault.message : ReadFault → String
  | .notFound => "No such file or directory (os error 2)"
  | .isDirectory => "Is a directory (os error 21)"
  | .notUtf8 => "stream did not contain valid UTF-8"
  | .other reason => reason

/-- The text of some bytes. -/
def decode (bytes : ByteArray) : Except ReadFault String :=
  match String.fromUTF8? bytes with
  | some text => .ok text
  | none => .error .notUtf8

/-- What the program leaves behind. -/
structure Response where
  exitStatus : Nat
  stdout : String
  stderr : String
deriving DecidableEq, Repr

/-! ### Questions about the program -/

/-- What the value of an option is called. -/
def Setting.valueName : Setting → String
  | .file => "FILE"
  | .format => "FORMAT"

/-- How an option is written. -/
def Switch.form (s : Switch) : String :=
  let letter := match s.letter? with
    | some c => String.ofList ['-', c, ',', ' ']
    | none => ""
  let value := match s with
    | .setting t => " <" ++ t.valueName ++ ">"
    | .toggle _ | .question _ => ""
  letter ++ s.name ++ value

/-- What an option does. -/
def Switch.summary : Switch → String
  | .setting .file => "Read the query from a file"
  | .setting .format => "Output format"
  | .toggle .fragments => "Print the splitter's fragments instead of tokens"
  | .toggle .verbose => "Enable verbose output"
  | .question .help => "Print help"
  | .question .version => "Print version"

/-- The line of an option in the help. -/
def Switch.helpLine (s : Switch) : String := "  " ++ s.form ++ "  " ++ s.summary ++ "\n"

/-- The help: what can be given, one argument or option to a line.  Its layout in columns, the
    values, default and variable of the format, and what the long form says beyond the short one,
    are left out. -/
def helpText : String :=
  "Command-line playground that prints the tokens of a SQL query\n\n" ++
    "Usage: sqltok [OPTIONS] [QUERY]\n\n" ++
    "Arguments:\n  [QUERY]  Query to tokenise. Read from --file or stdin when omitted\n\n" ++
    "Options:\n" ++ String.join (Switch.all.map Switch.helpLine)

/-- The answer to a question about the program. -/
def questionResponse : Question → Response
  | .help => ⟨0, helpText, ""⟩
  | .version => ⟨0, "sqltok 0.1.0\n", ""⟩

/-! ### Refusals and failures -/

/-- The answer to arguments that are refused. -/
def usageResponse (e : UsageError) : Response := ⟨2, "", "error: " ++ e.message ++ "\n"⟩

/-! ### The log -/

/-- A line of the log. -/
def logLine (message : String) (counts : List (String × Nat)) : String :=
  Level.debug.name ++ " " ++ message ++
    String.join (counts.map fun c => " " ++ c.1 ++ "=" ++ toString c.2) ++ "\n"

/-- The line of an event.  Events of finer detail have none. -/
def eventLine (e : Event) : String :=
  match e with
  | .queryTokenized fragments tokens unknown =>
    logLine e.message [("fragments", fragments), ("tokens", tokens), ("unknown", unknown)]
  | .fragmentSplit _ | .keywordUnmatched _ => ""

/-- The lines of a run over a query, after the line that says that it was read. -/
def runLog (sql : String) (events : List Event) : String :=
  logLine "read query" [("bytes", sql.utf8ByteSize)] ++ String.join (events.map eventLine)

/-! ### The answer -/

/-- The report of a failure. -/
def failure (context cause : String) : String :=
  "Error: " ++ context ++ "\n\nCaused by:\n    " ++ cause ++ "\n"

/-- What could not be done when an input could not be read. -/
def Input.context : Input → String
  | .file path => "failed to read query from " ++ path
  | .standard => "failed to read query from stdin"

/-- The answer for a query: its tokens or its fragments, in the standard vocabulary. -/
def answer (i : Invocation) (sql : String) : Response :=
  let log (events : List Event) := if i.verbose then runLog sql events else ""
  if i.fragments then
    match split .standard sql with
    | .ok fs => ⟨0, Report.fragments i.format fs ++ "\n", log []⟩
    | .error e => ⟨1, "", log [] ++ failure "failed to split query" e.message⟩
  else
    let run := trace .standard sql
    match run.result with
    | .ok ts => ⟨0, Report.tokens i.format ts ++ "\n", log run.events⟩
    | .error e => ⟨1, "", log run.events ++ failure "failed to tokenize query" e.message⟩

/-- The answer for what an input gave. -/
def answerInput (i : Invocation) (input : Input) (contents : Except ReadFault String) : Response :=
  match contents with
  | .ok sql => answer i sql
  | .error fault => ⟨1, "", failure input.context fault.message⟩

/-- The answer to the arguments, and to the variable of the environment that names a format.  An
    input is read only where the arguments ask for it. -/
def respond {m : Type → Type} [Monad m] (read : Input → m (Except ReadFault String))
    (arguments : List String) (formatVariable : Option String) : m Response :=
  match Command.ofArguments arguments formatVariable with
  | .error e => pure (usageResponse e)
  | .ok (.tell q) => pure (questionResponse q)
  | .ok (.run i) =>
    match i.source with
    | .argument sql => pure (answer i sql)
    | .input input => do return answerInput i input (← read input)

end SqlLex.CommandLine
