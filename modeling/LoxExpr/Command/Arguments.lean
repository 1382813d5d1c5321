import LoxExpr.Number.Reader
import LoxExpr.Grammar.Parser

/-!
# Command-line arguments

`lox-parser [OPTIONS] [FILE]`. The source comes from a file or from `--expr`, and exactly one of
them is required. Arguments are read in order, and the first that asks for the version or the help,
or that is wrong, decides; what is required is checked after the last.

An option with a value takes it from the same argument (`--expr=1`, `-e1`, `-e=1`) or from the next
(`--expr 1`, `-e 1`). The next argument may not start with a dash then, unless it is just a dash.
Short options can be written together. After `--` everything is a file name.
-/

namespace LoxExpr.Command

/-- An option that needs a value. -/
inductive ValueOption where
  | expr | maxDepth
deriving DecidableEq, Repr

/-- The long name of an option that needs a value. -/
def ValueOption.name : ValueOption → String
  | .expr => "--expr"
  | .maxDepth => "--max-depth"

/-- Why arguments are refused. -/
inductive Refusal where
  | unknownOption (option : String)
  | needlessValue (option : String)
  | missingValue (option : ValueOption)
  | badLimit (value : String)
  | repeated (option : String)
  | surplusFile (file : String)
  | emptyFile
  | twoSources
  | noSource
deriving DecidableEq, Repr

/-- A refusal in words. -/
def Refusal.message : Refusal → String
  | .unknownOption option => "unexpected argument '" ++ option ++ "' found"
  | .needlessValue option => "unexpected value for '" ++ option ++ "' found; no more were expected"
  | .missingValue option => "a value is required for '" ++ option.name ++ "' but none was supplied"
  | .badLimit value => "invalid value '" ++ value ++ "' for '--max-depth'"
  | .repeated option => "the argument '" ++ option ++ "' cannot be used multiple times"
  | .surplusFile file => "unexpected argument '" ++ file ++ "' found"
  | .emptyFile => "a value is required for '[FILE]' but none was supplied"
  | .twoSources => "the argument '[FILE]' cannot be used with '--expr'"
  | .noSource => "the required argument '[FILE]' was not provided"

/-- What ends the reading of arguments early. -/
inductive Stop where
  | version
  | help
  | refused (refusal : Refusal)
deriving DecidableEq, Repr

/-- Where the source text comes from. -/
inductive Source where
  | inline (text : String)
  | file (path : String)
deriving DecidableEq, Repr

/-- What a run of the program is asked to do. -/
structure Settings where
  source : Source
  limit : Nat
  verbosity : Nat
  quiet : Bool
deriving DecidableEq, Repr

/-- The options read so far. -/
structure Options where
  file : Option String
  expr : Option String
  limit : Option Nat
  verbosity : Nat
  quiet : Bool
deriving DecidableEq, Repr

/-- No options. -/
def Options.none : Options :=
  ⟨.none, .none, .none, 0, false⟩

/--
A limit in digits, with an optional plus sign in front. It has to fit in 64 bits.
-/
def limit? (text : String) : Option Nat :=
  let digits :=
    match text.toList with
    | '+' :: rest => rest
    | cs => cs
  if digits ≠ [] ∧ digits.all Char.isDigit ∧ Number.digitsValue digits < UInt64.size then
    some (Number.digitsValue digits)
  else .none

namespace Options

/-- Sets the value of an option. It can be set once. -/
def setValue (o : Options) (option : ValueOption) (value : String) : Except Stop Options :=
  match option with
  | .expr =>
    if o.expr.isSome then throw (.refused (.repeated option.name))
    else pure { o with expr := some value }
  | .maxDepth =>
    match limit? value with
    | .none => throw (.refused (.badLimit value))
    | some limit =>
      if o.limit.isSome then throw (.refused (.repeated option.name))
      else pure { o with limit := some limit }

/-- Silences the log. That can be asked once. -/
def setQuiet (o : Options) : Except Stop Options :=
  if o.quiet then throw (.refused (.repeated "--quiet")) else pure { o with quiet := true }

/-- Shows one more level of the log. -/
def addVerbosity (o : Options) : Options :=
  { o with verbosity := o.verbosity + 1 }

/-- Sets the file. There can be one, and its name is not empty. -/
def setFile (o : Options) (path : String) : Except Stop Options :=
  if o.file.isSome then throw (.refused (.surplusFile path))
  else if path.isEmpty then throw (.refused .emptyFile)
  else pure { o with file := some path }

/-- The settings, if there is exactly one source. -/
def settings (o : Options) : Except Stop Settings :=
  let settings source : Settings :=
    ⟨source, o.limit.getD Parser.defaultLimit, o.verbosity, o.quiet⟩
  match o.expr, o.file with
  | some text, .none => pure (settings (.inline text))
  | .none, some path => pure (settings (.file path))
  | some _, some _ => throw (.refused .twoSources)
  | .none, .none => throw (.refused .noSource)

end Options

/-- The arguments read so far, and what the next one has to be. -/
structure Reading where
  options : Options
  /-- The option whose value the next argument is. -/
  awaiting : Option ValueOption
  /-- Everything from here on is a file name. -/
  filesOnly : Bool
deriving DecidableEq, Repr

namespace Reading

/-- No arguments. -/
def start : Reading :=
  ⟨Options.none, .none, false⟩

/-- Goes on with other options, and no option that waits for its value. -/
def withOptions (r : Reading) (o : Options) : Reading :=
  { r with options := o, awaiting := .none }

/-- Reads a long option: its name, and the text after an equals sign if there is one. -/
def long (r : Reading) (name : String) (value? : Option String) : Except Stop Reading :=
  let valued (option : ValueOption) : Except Stop Reading :=
    match value? with
    | some value => r.withOptions <$> r.options.setValue option value
    | .none => pure { r with awaiting := some option }
  let flag (act : Except Stop Options) : Except Stop Reading :=
    if value?.isSome then throw (.refused (.needlessValue ("--" ++ name)))
    else r.withOptions <$> act
  match name with
  | "expr" => valued .expr
  | "max-depth" => valued .maxDepth
  | "verbose" => flag (pure r.options.addVerbosity)
  | "quiet" => flag r.options.setQuiet
  | "version" => flag (throw .version)
  | "help" => flag (throw .help)
  | _ => throw (.refused (.unknownOption ("--" ++ name)))

/--
Reads short options written together. The one that needs a value takes all that follows it, less an
equals sign in front.
-/
def short (r : Reading) : List Char → Except Stop Reading
  | [] => pure r
  | 'v' :: rest => short (r.withOptions r.options.addVerbosity) rest
  | 'q' :: rest => do short (r.withOptions (← r.options.setQuiet)) rest
  | 'V' :: _ => throw .version
  | 'h' :: _ => throw .help
  | ['e'] => pure { r with awaiting := some .expr }
  | 'e' :: '=' :: value => r.withOptions <$> r.options.setValue .expr (String.ofList value)
  | 'e' :: value => r.withOptions <$> r.options.setValue .expr (String.ofList value)
  | other :: _ => throw (.refused (.unknownOption (String.ofList ['-', other])))

/-- Reads one argument. -/
def step (r : Reading) (argument : String) : Except Stop Reading :=
  if r.filesOnly then r.withOptions <$> r.options.setFile argument
  else
    match r.awaiting, argument.toList with
    | some option, '-' :: _ :: _ => throw (.refused (.missingValue option))
    | some option, _ => r.withOptions <$> r.options.setValue option argument
    | .none, ['-', '-'] => pure { r with filesOnly := true }
    | .none, '-' :: '-' :: rest =>
      let name := String.ofList (rest.takeWhile (· ≠ '='))
      match rest.dropWhile (· ≠ '=') with
      | _ :: value => r.long name (some (String.ofList value))
      | [] => r.long name .none
    | .none, '-' :: letter :: rest => r.short (letter :: rest)
    | .none, _ => r.withOptions <$> r.options.setFile argument

/-- Ends the reading: no option may still wait for its value. -/
def finish (r : Reading) : Except Stop Settings :=
  match r.awaiting with
  | some option => throw (.refused (.missingValue option))
  | .none => r.options.settings

end Reading

/-- The settings that the arguments ask for. -/
def readArguments (arguments : List String) : Except Stop Settings := do
  let r ← arguments.foldlM Reading.step Reading.start
  r.finish

end LoxExpr.Command
