import LoxExpr.Command.Arguments
import LoxExpr.Diagnostic
import LoxExpr.Grammar.Descent

/-!
# A run of the program

`respond` says what the program answers to its arguments: an exit code and two texts. What it needs
of the world around it comes as two operations in a monad: reading a file, and telling how long a
stage of the work took. The tree goes to the output; the diagnostic and, before it, the log go to
the other text.
-/

namespace LoxExpr.Command

/-- What the program answers: an exit code, its output, and the text of its log and diagnostic. -/
structure Reply where
  code : UInt32
  output : String
  errors : String
deriving DecidableEq, Repr

/-- Why a file could not be read. -/
inductive ReadFailure where
  | notFound
  | isDirectory
  | notText
  | other (reason : String)
deriving DecidableEq, Repr

/-- A failure to read in words, with the system's number for it. -/
def ReadFailure.message : ReadFailure → String
  | .notFound => "No such file or directory (os error 2)"
  | .isDirectory => "Is a directory (os error 21)"
  | .notText => "stream did not contain valid UTF-8"
  | .other reason => reason

/-- What the program needs of the world. -/
structure World (m : Type → Type) where
  /-- The bytes of a file. -/
  contents : String → m (Except ReadFailure ByteArray)
  /-- Does some work, and tells in words how long it took. -/
  timed : {α : Type} → (Unit → α) → m (α × String)

/-- The text in the bytes of a file. -/
def decode (bytes : ByteArray) : Except ReadFailure String :=
  match String.fromUTF8? bytes with
  | some text => .ok text
  | none => .error .notText

/-- Is a level of the log shown? Errors and warnings are, and one finer level for each `-v`. -/
def Settings.shows (s : Settings) (level : Level) : Bool :=
  !s.quiet && level.rank ≤ s.verbosity + 1

/-- A line of the log, if it is shown. -/
def Settings.logLine (s : Settings) (level : Level) (text : String) : String :=
  if s.shows level then level.name ++ " - " ++ text ++ "\n" else ""

/-- The lines of the log for events. -/
def Settings.logLines (s : Settings) (events : Array Event) : String :=
  String.join (events.toList.map fun e => s.logLine e.level e.text)

/-- The name that positions in a source carry. -/
def Source.name : Source → String
  | .inline _ => "<expr>"
  | .file path => path

variable {m : Type → Type} [Monad m]

/-- The text of a source. -/
def Source.load (world : World m) : Source → m (Except ReadFailure String)
  | .inline text => pure (.ok text)
  | .file path => do return (← world.contents path) >>= decode

/-- Parses a source text under its name, and answers with its tree or with its fault. -/
def evaluate (world : World m) (s : Settings) (text : String) : m Reply := do
  let (scanned, scanTime) ← world.timed fun _ => tokenize text (some s.source.name)
  match scanned with
  | .error fault scanner => return ⟨1, "", s.logLines scanner.log ++ fault.render text⟩
  | .ok tokens scanner =>
    let scanLog := s.logLines scanner.log ++ s.logLine .info ("Tokenized in " ++ scanTime)
    let (parsed, parseTime) ← world.timed fun _ => parse tokens s.limit
    let parseLog (parser : Parser) :=
      s.logLines parser.log ++ s.logLine .info ("Parsed in " ++ parseTime)
    match parsed with
    | .ok e parser => return ⟨0, e.print ++ "\n", scanLog ++ parseLog parser⟩
    | .error fault parser => return ⟨1, "", scanLog ++ parseLog parser ++ fault.render text⟩

/-- Does what the settings ask for. -/
def run (world : World m) (s : Settings) : m Reply := do
  match ← s.source.load world with
  | .ok text => evaluate world s text
  | .error failure =>
    let text := "failed to read " ++ s.source.name ++ ": " ++ failure.message
    return ⟨1, "", s.logLine .error text⟩

/-- The name and version of the program. -/
def versionText : String := "lox-parser 0.1.0"

/-- A summary of the arguments. -/
def helpText : String :=
  "Parses a single Lox expression and prints its tree\n\n" ++
  "Usage: lox-parser [OPTIONS] [FILE]\n\n" ++
  "Arguments:\n" ++
  "  [FILE]  File containing the expression\n\n" ++
  "Options:\n" ++
  "  -e, --expr <EXPR>            Expression given inline instead of a file\n" ++
  "      --max-depth <MAX_DEPTH>  Maximum depth of the parsed tree [default: 128]\n" ++
  "  -v, --verbose...             Increase log verbosity (-v info, -vv debug, -vvv trace)\n" ++
  "  -q, --quiet                  Silence all log output\n" ++
  "  -h, --help                   Print help\n" ++
  "  -V, --version                Print version\n"

/-- What the program answers to its arguments. -/
def respond (world : World m) (arguments : List String) : m Reply :=
  match readArguments arguments with
  | .ok settings => run world settings
  | .error .version => pure ⟨0, versionText ++ "\n", ""⟩
  | .error .help => pure ⟨0, helpText, ""⟩
  | .error (.refused refusal) => pure ⟨2, "", "error: " ++ refusal.message ++ "\n"⟩

end LoxExpr.Command
