import SqlLex.Report.Basic

namespace SqlLex.CommandLine

open Report (Format)

/-!
# Arguments of the command line

* `Invocation` — what the program is asked to do: where the query comes from, and how its tokens or
  fragments are to be shown.
* `Switch` — the options; `Switch.ofLong?`, `Switch.ofShort?` — the option of a name, and of a
  letter.
* `UsageError` — why arguments are refused; `UsageError.message` — the wording.
* `readArguments` — arguments from left to right, up to the first that is refused or asks for the
  help or the version.
* `Command.ofArguments` — what the arguments and the environment ask for.
-/

/-! ### What can be asked for -/

/-- What a query can be read from. -/
inductive Input where
  | file (path : String)
  | standard
deriving DecidableEq, Repr

/-- Where the query comes from: it is an argument itself, or it has to be read. -/
inductive Source where
  | argument (sql : String)
  | input (input : Input)
deriving DecidableEq, Repr

/-- What the program is asked to do. -/
structure Invocation where
  source : Source
  format : Format
  /-- Fragments are shown instead of tokens. -/
  fragments : Bool
  /-- The log is shown. -/
  verbose : Bool
deriving DecidableEq, Repr

/-- The texts about the program that can be asked for. -/
inductive Question where
  | help | version
deriving DecidableEq, Repr

/-- What the arguments ask for. -/
inductive Command where
  | tell (question : Question)
  | run (invocation : Invocation)
deriving DecidableEq, Repr

/-! ### Options -/

/-- The options that take a value. -/
inductive Setting where
  | file | format
deriving DecidableEq, Repr

/-- The options that are on or off. -/
inductive Toggle where
  | fragments | verbose
deriving DecidableEq, Repr

/-- The options. -/
inductive Switch where
  | setting (s : Setting)
  | toggle (t : Toggle)
  | question (q : Question)
deriving DecidableEq, Repr

/-- All options, in the order in which the help lists them. -/
def Switch.all : List Switch :=
  [.setting .file, .setting .format, .toggle .fragments, .toggle .verbose, .question .help,
    .question .version]

/-- The long name of an option. -/
def Switch.name : Switch → String
  | .setting .file => "--file"
  | .setting .format => "--format"
  | .toggle .fragments => "--fragments"
  | .toggle .verbose => "--verbose"
  | .question .help => "--help"
  | .question .version => "--version"

/-- The letter of an option that has one. -/
def Switch.letter? : Switch → Option Char
  | .setting .file => some 'f'
  | .setting .format => none
  | .toggle .fragments => none
  | .toggle .verbose => some 'v'
  | .question .help => some 'h'
  | .question .version => some 'V'

/-- The option of a long name, which is given without its dashes. -/
def Switch.ofLong? (name : List Char) : Option Switch :=
  all.find? fun s => s.name.toList == '-' :: '-' :: name

/-- The option of a letter. -/
def Switch.ofShort? (c : Char) : Option Switch := all.find? fun s => s.letter? == some c

/-! ### Refusals -/

/-- Why arguments are refused. -/
inductive UsageError where
  | unknownOption (option : String)
  | repeatedOption (option : Switch)
  | missingValue (option : Switch)
  | unexpectedValue (option : Switch)
  | emptyPath
  | unknownFormat (value : String)
  | secondQuery (argument : String)
  | queryAndFile
deriving DecidableEq, Repr

/-- The wording of a refusal. -/
def UsageError.message : UsageError → String
  | .unknownOption option => "unknown option " ++ option
  | .repeatedOption option => option.name ++ " is given more than once"
  | .missingValue option => option.name ++ " needs a value"
  | .unexpectedValue option => option.name ++ " takes no value"
  | .emptyPath => "the path of the query is empty"
  | .unknownFormat value => "unknown format " ++ value
  | .secondQuery argument => "more than one query: " ++ argument
  | .queryAndFile => "a query and a file cannot both be given"

/-! ### What has been given -/

/-- What the arguments so far have given. -/
structure Given where
  query? : Option String
  file? : Option String
  format? : Option Format
  fragments : Bool
  verbose : Bool
deriving DecidableEq, Repr

namespace Given

/-- No argument has been read. -/
def nothing : Given := ⟨none, none, none, false, false⟩

/-- An argument that is no option is the query. -/
def setQuery (g : Given) (sql : String) : Except UsageError Given :=
  if g.query?.isSome then .error (.secondQuery sql) else .ok { g with query? := some sql }

/-- An option gets its value. -/
def assign (g : Given) (s : Setting) (value : String) : Except UsageError Given :=
  match s with
  | .file =>
    if value = "" then .error .emptyPath
    else if g.file?.isSome then .error (.repeatedOption (.setting .file))
    else .ok { g with file? := some value }
  | .format =>
    match Format.ofName? value with
    | none => .error (.unknownFormat value)
    | some format =>
      if g.format?.isSome then .error (.repeatedOption (.setting .format))
      else .ok { g with format? := some format }

/-- An option is turned on. -/
def turnOn (g : Given) (t : Toggle) : Except UsageError Given :=
  match t with
  | .fragments =>
    if g.fragments then .error (.repeatedOption (.toggle .fragments))
    else .ok { g with fragments := true }
  | .verbose =>
    if g.verbose then .error (.repeatedOption (.toggle .verbose))
    else .ok { g with verbose := true }

/-- All arguments have been read.  The format is looked for in the environment where no argument
    says it. -/
def settle (g : Given) (formatVariable : Option String) : Except UsageError Invocation := do
  let format ←
    match g.format?, formatVariable with
    | some format, _ => .ok format
    | none, none => .ok .text
    | none, some value =>
      match Format.ofName? value with
      | some format => .ok format
      | none => .error (.unknownFormat value)
  let source ←
    match g.query?, g.file? with
    | some _, some _ => .error .queryAndFile
    | some sql, none => .ok (.argument sql)
    | none, some path => .ok (.input (.file path))
    | none, none => .ok (.input .standard)
  return ⟨source, format, g.fragments, g.verbose⟩

end Given

/-! ### Reading arguments -/

/-- What one argument comes to. -/
inductive Reading where
  /-- It is complete. -/
  | given (g : Given)
  /-- The next argument is the value of its last option. -/
  | awaiting (g : Given) (s : Setting)
  /-- No further argument is an option. -/
  | noMoreOptions
  /-- A text about the program is asked for, and nothing behind it counts. -/
  | question (q : Question)
deriving DecidableEq, Repr

/-- Reads option letters.  What follows a letter that takes a value is the value, with or without
    an equals sign. -/
def readLetters (g : Given) : List Char → Except UsageError Reading
  | [] => .ok (.given g)
  | c :: cs =>
    match Switch.ofShort? c with
    | none => .error (.unknownOption (String.ofList ['-', c]))
    | some (.question q) => .ok (.question q)
    | some (.toggle t) =>
      match g.turnOn t with
      | .error e => .error e
      | .ok g' => readLetters g' cs
    | some (.setting s) =>
      match cs with
      | [] => .ok (.awaiting g s)
      | '=' :: value => (g.assign s (String.ofList value)).map .given
      | value => (g.assign s (String.ofList value)).map .given

/-- Reads a long option, which may have a value behind an equals sign. -/
def readLong (g : Given) (body : List Char) : Except UsageError Reading :=
  let name := body.takeWhile (· != '=')
  let value? := (body.dropWhile (· != '=')).tail?.map String.ofList
  match Switch.ofLong? name, value? with
  | none, _ => .error (.unknownOption ("--" ++ String.ofList name))
  | some (.question q), none => .ok (.question q)
  | some (.toggle t), none => (g.turnOn t).map .given
  | some (.setting s), none => .ok (.awaiting g s)
  | some (.setting s), some value => (g.assign s value).map .given
  | some option, some _ => .error (.unexpectedValue option)

/-- Reads one argument where options may stand.  A dash alone is a query. -/
def readArgument (g : Given) (argument : String) : Except UsageError Reading :=
  match argument.toList with
  | ['-', '-'] => .ok .noMoreOptions
  | '-' :: '-' :: body => readLong g body
  | '-' :: c :: cs => readLetters g (c :: cs)
  | _ => (g.setQuery argument).map .given

/-- The argument can be the value of an option before it: it is no option itself. -/
def isValue (argument : String) : Bool :=
  argument == "-" || argument.toList.head? != some '-'

/-- Reads arguments from left to right, up to a question or to their end. -/
def readArguments (g : Given) : List String → Except UsageError (Question ⊕ Given)
  | [] => .ok (.inr g)
  | argument :: rest =>
    match readArgument g argument with
    | .error e => .error e
    | .ok (.question q) => .ok (.inl q)
    | .ok .noMoreOptions => (rest.foldlM Given.setQuery g).map .inr
    | .ok (.given g') => readArguments g' rest
    | .ok (.awaiting g' s) =>
      match rest with
      | [] => .error (.missingValue (.setting s))
      | value :: rest' =>
        if isValue value then
          match g'.assign s value with
          | .error e => .error e
          | .ok g'' => readArguments g'' rest'
        else .error (.missingValue (.setting s))

/-- What the arguments ask for, and where they leave it open, the variable of the environment that
    names a format. -/
def Command.ofArguments (arguments : List String) (formatVariable : Option String) :
    Except UsageError Command := do
  match ← readArguments .nothing arguments with
  | .inl q => return .tell q
  | .inr g => return .run (← g.settle formatVariable)

end SqlLex.CommandLine
