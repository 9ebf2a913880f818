import RichText.Command.Request
import RichText.Document

/-!
# Outcomes

What a run of the command comes to: something printed, a complaint about the input, or one about
the command line.  The input is asked for only once it is known what for.

How words are read as a request, and messages printed as documents and read from them, is not the
command's own: it is given such an `Interface`, and does the rest.  The wording of help and of
complaints about words and documents is this program's; nothing depends on it.
-/

namespace RichText.Command

/-- Why an input cannot be read. -/
inductive InputError where
  | notFound
  | isDirectory
  /-- A step on the way to the input is a file. -/
  | notDirectory
  | notUtf8
  /-- Anything else, as the system describes it. -/
  | other (description : Text)
  deriving DecidableEq, Repr

/-- What is said of an input that cannot be read. -/
def InputError.message : InputError → Text
  | .notFound => "No such file or directory (os error 2)".toList
  | .isDirectory => "Is a directory (os error 21)".toList
  | .notDirectory => "Not a directory (os error 20)".toList
  | .notUtf8 => "stream did not contain valid UTF-8".toList
  | .other description => description

/-- Why a message is not read or written. -/
inductive Failure where
  | input (error : InputError)
  | notADocument
  deriving DecidableEq, Repr

/-- What is said of a message that is not read or written.  The words for what is no document are this
program's own. -/
def Failure.message : Failure → Text
  | .input error => "I/O error: ".toList ++ error.message
  | .notADocument => "invalid document".toList

/-- What a run comes to. -/
inductive Outcome where
  | printed (output : Text)
  | failed (failure : Failure)
  | refused (error : UsageError)
  deriving DecidableEq, Repr

/-- The number a run ends with. -/
def Outcome.exitCode : Outcome → Nat
  | printed _ => 0
  | failed _ => 1
  | refused _ => 2

/-- The text of an input. -/
def textOf (contents : Except InputError ByteArray) : Except InputError Text := do
  match String.fromUTF8? (← contents) with
  | some text => .ok text.toList
  | none => .error .notUtf8

/-- What the command takes from elsewhere: how words are read as a request where the surroundings may
name a dialect, how a message is printed as a document, and which message a document describes. -/
structure Interface where
  request : Option Text → List Text → Except UsageError Request
  document : Message → Text
  message? : Text → Option Message

/-- The interface that the program runs with. -/
def Interface.standard : Interface := ⟨Request.ofWords, Message.toDocument, Message.ofDocument?⟩

namespace Job

/-- Does a job on a text. -/
def perform (interface : Interface) (job : Job) (input : Text) : Except Failure Text :=
  match job.action with
  | .read => .ok (interface.document (job.dialect.read job.settings input))
  | .write =>
    match interface.message? input with
    | some message => .ok (job.dialect.write job.settings message)
    | none => .error .notADocument

/-- What a job on an input comes to. -/
def outcome (interface : Interface) (job : Job) (contents : Except InputError ByteArray) :
    Outcome :=
  match textOf contents with
  | .error error => .failed (.input error)
  | .ok input =>
    match job.perform interface input with
    | .ok output => .printed (output ++ ['\n'])
    | .error failure => .failed failure

/-- Whether a name stands for the standard input: a dash, whatever empty steps follow it. -/
def isStandardInput (name : Text) : Bool :=
  match name with
  | '-' :: rest =>
    rest.head?.all (· == '/') && (rest.splitOn '/').all fun step => step.isEmpty || step == ['.']
  | _ => false

/-- The file that a job reads, unless it reads the standard input. -/
def source? (job : Job) : Option Text := job.file?.filter (!isStandardInput ·)

end Job

/-- The name of the program. -/
def programName : Text := "markup".toList

/-- The version of the program. -/
def programVersion : Text := "0.1.0".toList

/-- The line that tells the version. -/
def versionLine (action? : Option Action) : Text :=
  let name :=
    match action? with
    | none => programName
    | some action => programName ++ ['-'] ++ action.name
  name ++ [' '] ++ programVersion ++ ['\n']

/-- The lines that tell how the program is used, in this program's own words. -/
def helpLines : Text :=
  ("Converts between markup and documents of text with entities\n\n" ++
    "Usage: markup [OPTIONS] <parse|unparse> [FILE]\n\n" ++
    "Options:\n" ++
    "      --syntax <SYNTAX>   html or markdown (md); also read from MARKUP_SYNTAX\n" ++
    "      --html              the same as --syntax html\n" ++
    "      --markdown          the same as --syntax markdown [alias: --md]\n" ++
    "      --no-custom-emoji   neither recognise nor write custom emoji\n" ++
    "  -h, --help              print this help\n" ++
    "  -V, --version           print the version\n").toList

/-- What is printed beside the output. -/
def Outcome.complaint : Outcome → Text
  | printed _ => []
  | failed failure => "✗ ".toList ++ failure.message ++ ['\n']
  | refused error => "error: ".toList ++ error.message ++ ['\n']

/-- What is printed as output. -/
def Outcome.output : Outcome → Text
  | printed text => text
  | _ => []

/-- Runs a command line with an interface.  The surroundings may name a dialect; `fetch` gets the
contents of a file or of the standard input. -/
def Interface.run {m : Type → Type} [Monad m] (interface : Interface) (surrounding? : Option Text)
    (words : List Text) (fetch : Option Text → m (Except InputError ByteArray)) : m Outcome :=
  match interface.request surrounding? words with
  | .error error => pure (.refused error)
  | .ok (.version action?) => pure (.printed (versionLine action?))
  | .ok .help => pure (.printed helpLines)
  | .ok (.job job) => do pure (job.outcome interface (← fetch job.source?))

/-- Runs a command line. -/
def run {m : Type → Type} [Monad m] (surrounding? : Option Text) (words : List Text)
    (fetch : Option Text → m (Except InputError ByteArray)) : m Outcome :=
  Interface.standard.run surrounding? words fetch

end RichText.Command
