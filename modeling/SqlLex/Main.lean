import SqlLex.CommandLine.Response

namespace SqlLex

open CommandLine

/-!
# The program

Reads the environment and the query, and writes the answer to the arguments.
-/

/-- What kept a file from being read. -/
def readFaultOf : IO.Error → ReadFault
  | .noFileOrDirectory .. => .notFound
  | .inappropriateType .. => .isDirectory
  | e => .other (toString e)

/-- The bytes of a query as text. -/
def readText (read : IO ByteArray) : IO (Except ReadFault String) := do
  try
    return decode (← read)
  catch e =>
    return .error (readFaultOf e)

/-- The query that an input holds. -/
def readInput : Input → IO (Except ReadFault String)
  | .file path => readText (IO.FS.readBinFile path)
  | .standard => readText do (← IO.getStdin).readBinToEnd

end SqlLex

/-- Writes the answer to the arguments. -/
def main (arguments : List String) : IO UInt32 := do
  let formatVariable ← IO.getEnv "SQLTOK_FORMAT"
  let response ← SqlLex.CommandLine.respond SqlLex.readInput arguments formatVariable
  IO.print response.stdout
  IO.eprint response.stderr
  return response.exitStatus.toUInt32
