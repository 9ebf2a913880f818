import RichText.Command.Outcome

/-!
# The program

Connects the command to its surroundings: words and dialect come from the system, contents from
files or the standard input, and the outcome goes to the standard streams.
-/

namespace RichText

open Command

/-- Reads a stream to its end, behind what has been read of it. -/
partial def readToEnd (stream : IO.FS.Stream) (read : ByteArray) : IO ByteArray := do
  let more ← stream.read 65536
  if more.isEmpty then pure read else readToEnd stream (read ++ more)

/-- The number of the system's failure to read a directory as a file. -/
def isDirectoryCode : UInt32 := 21

/-- What a failure of the system means for an input. -/
def inputErrorOf : IO.Error → InputError
  | .noFileOrDirectory .. => .notFound
  | .inappropriateType _ code _ => if code = isDirectoryCode then .isDirectory else .notDirectory
  | error => .other (toString error).toList

/-- The contents of a file, or of the standard input. -/
def contentsOf (file? : Option Text) : IO (Except InputError ByteArray) := do
  try
    match file? with
    | some name => return .ok (← IO.FS.readBinFile (String.ofList name))
    | none => return .ok (← readToEnd (← IO.getStdin) .empty)
  catch error => return .error (inputErrorOf error)

end RichText

/-- Runs the command with the words of the command line. -/
def main (words : List String) : IO UInt32 := do
  let surrounding? := (← IO.getEnv "MARKUP_SYNTAX").map String.toList
  let outcome ← RichText.Command.run surrounding? (words.map String.toList) RichText.contentsOf
  IO.print (String.ofList outcome.output)
  IO.eprint (String.ofList outcome.complaint)
  return UInt32.ofNat outcome.exitCode
