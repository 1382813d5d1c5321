import LoxExpr.Command.Session
import LoxExpr.Proofs.Source.Places
import LoxExpr.Proofs.Source.Result
import Mathlib

/-!
# The program and the parser agree

The program scans, parses and reports in steps of its own, with a log in between. `Reply.Answers`
says what its reply has to be, given the outcome of `parseSource`: the exit code and the output are
decided by it, and the diagnostic comes last in the other text, behind lines of the log only.
`evaluate_answers` goes through the steps once, for every world that does the work it times, and
`respond_answers` carries it to the command line, for a source given inline or in a file.
-/

namespace LoxExpr

/-! ## Printed trees have no places -/

/-- Trees are printed without their places. -/
theorem Expr.print_bare (e : Expr) : e.bare.print = e.print := by
  induction e with
  | literal v => rfl
  | unary operator operand ih => rw [bare, print, print, ih, Token.bare_lexeme]
  | binary left operator right ihl ihr =>
    rw [bare, print, print, ihl, ihr, Token.bare_lexeme]
  | grouping inner ih => rw [bare, print, print, ih]

/-- In another file, only the second line of the diagnostic changes. -/
theorem Fault.report_inFile (path : String) (fault : Fault) (text : String) :
    (fault.inFile path).report text = (fault.report text).set 1 ("-> " ++ path) := rfl

namespace Command

/-! ## The log -/

/-- The text is made of lines of the log, as far as they are shown. -/
def Settings.Logs (s : Settings) (log : String) : Prop :=
  ∃ lines : List (Level × String), log = String.join (lines.map fun l => s.logLine l.1 l.2)

namespace Settings.Logs

variable {s : Settings} {log log' : String}

/-- Lines of the log that follow one another are lines of the log. -/
theorem append (h : s.Logs log) (h' : s.Logs log') : s.Logs (log ++ log') := by
  obtain ⟨lines, rfl⟩ := h
  obtain ⟨lines', rfl⟩ := h'
  refine ⟨lines ++ lines', ?_⟩
  rw [List.map_append, String.join_append]

theorem line (s : Settings) (level : Level) (text : String) : s.Logs (s.logLine level text) :=
  ⟨[(level, text)], by simp⟩

theorem lines (s : Settings) (events : Array Event) : s.Logs (s.logLines events) := by
  refine ⟨events.toList.map fun e => (e.level, e.text), ?_⟩
  rw [List.map_map]
  rfl

/-- A quiet program logs nothing. -/
theorem eq_empty (h : s.Logs log) (hquiet : s.quiet = true) : log = "" := by
  obtain ⟨lines, rfl⟩ := h
  induction lines with
  | nil => rfl
  | cons l lines ih =>
    have hline : s.logLine l.1 l.2 = "" := by
      unfold logLine shows
      rw [hquiet]
      rfl
    rw [List.map_cons, String.join_cons, hline, ih]
    rfl

end Settings.Logs

/-! ## Replies -/

/-- The reply without a log, for the outcome of a parse of a source text. -/
def Reply.due (text : String) : Except Fault Expr → Reply
  | .ok e => ⟨0, e.print ++ "\n", ""⟩
  | .error fault => ⟨1, "", fault.render text⟩

/-- The reply is the one that is due, but for a log in front of the diagnostic. -/
structure Reply.Answers (reply : Reply) (s : Settings) (text : String)
    (outcome : Except Fault Expr) : Prop where
  code_eq : reply.code = (due text outcome).code
  output_eq : reply.output = (due text outcome).output
  errors_eq : ∃ log, s.Logs log ∧ reply.errors = log ++ (due text outcome).errors
  quiet_eq : s.quiet = true → reply = due text outcome

/-- The reply that is due, with lines of the log in front of its errors, answers. -/
theorem Reply.Answers.of_log {s : Settings} {text log : String} {outcome : Except Fault Expr}
    {reply : Reply} (hlog : s.Logs log)
    (hreply : reply = { due text outcome with errors := log ++ (due text outcome).errors }) :
    reply.Answers s text outcome := by
  subst hreply
  refine ⟨rfl, rfl, ⟨log, hlog, rfl⟩, fun hquiet => ?_⟩
  rw [hlog.eq_empty hquiet, String.empty_append]

/-- The places in a tree have no part in the reply. -/
theorem Reply.due_eq_of_bare (text : String) {outcome outcome' : Except Fault Expr}
    (hbare : outcome'.map Expr.bare = outcome.map Expr.bare) :
    due text outcome' = due text outcome := by
  cases outcome with
  | ok e =>
    cases outcome' with
    | ok e' =>
      -- a tree is printed without its spans, so trees equal up to spans print alike
      have hprint : e'.print = e.print := by
        rw [← e'.print_bare, ← e.print_bare, Except.ok.inj hbare]
      rw [due, due, hprint]
    | error fault' => cases hbare
  | error fault =>
    cases outcome' with
    | ok e' => cases hbare
    | error fault' =>
      obtain rfl := Except.error.inj hbare
      rfl

/-- What answers one outcome answers every other that has the same reply. -/
theorem Reply.Answers.of_due_eq {reply : Reply} {s : Settings} {text : String}
    {outcome outcome' : Except Fault Expr} (h : reply.Answers s text outcome)
    (hdue : due text outcome' = due text outcome) : reply.Answers s text outcome' := by
  obtain ⟨hcode, houtput, herrors, hquiet⟩ := h
  rw [← hdue] at hcode houtput herrors hquiet
  exact ⟨hcode, houtput, herrors, hquiet⟩

/-! ## The steps of the program -/

section Steps

variable {m : Type → Type} [Monad m] [LawfulMonad m]

/-- Timing some work does the work. -/
def World.Faithful (world : World m) : Prop :=
  ∀ {α : Type} (work : Unit → α), SatisfiesM (fun r => r.1 = work ()) (world.timed work)

/-- The text of a file can be read, and is this one. -/
def World.Holds (world : World m) (path text : String) : Prop :=
  SatisfiesM (fun r => r = .ok text.toUTF8) (world.contents path)

/-- A text is decoded from its own encoding. -/
theorem decode_toUTF8 (text : String) : decode text.toUTF8 = .ok text := by
  have hvalid : text.toUTF8.IsValidUTF8 := text.isValidUTF8
  unfold decode String.fromUTF8?
  rw [dif_pos hvalid]
  rfl

/-- The program scans and parses as the library does, whatever it logs. -/
theorem evaluate_answers {world : World m} (hworld : world.Faithful) (s : Settings)
    (text : String) :
    SatisfiesM (fun reply => reply.Answers s text (parseSource text (some s.source.name) s.limit))
      (evaluate world s text) := by
  unfold evaluate
  apply (hworld fun _ => tokenize text (some s.source.name)).bind
  rintro ⟨scanned, scanTime⟩ hscanned
  obtain rfl : scanned = tokenize text (some s.source.name) := hscanned
  -- Either the scan fails, and its log and diagnostic are the reply, or the parse is done in the
  -- same way.
  cases hscan : tokenize text (some s.source.name) with
  | error fault scanner =>
    rw [parseSource, hscan]
    apply SatisfiesM.pure
    exact .of_log (.lines s scanner.log) rfl
  | ok tokens scanner =>
    rw [parseSource_eq_of_tokenize hscan]
    have hscanLog := (Settings.Logs.lines s scanner.log).append
      (.line s .info ("Tokenized in " ++ scanTime))
    apply (hworld fun _ => parse tokens s.limit).bind
    rintro ⟨parsed, parseTime⟩ hparsed
    obtain rfl : parsed = parse tokens s.limit := hparsed
    -- whatever the parse comes to, its log follows that of the scan
    have hparseLog (parser : Parser) := (Settings.Logs.lines s parser.log).append
      (.line s .info ("Parsed in " ++ parseTime))
    cases parse tokens s.limit with
    | ok e parser =>
      apply SatisfiesM.pure
      refine .of_log (hscanLog.append (hparseLog parser)) ?_
      show (⟨0, _, _⟩ : Reply) = ⟨0, _, _ ++ ""⟩
      rw [String.append_empty]
      rfl
    | error fault parser =>
      apply SatisfiesM.pure
      exact .of_log (hscanLog.append (hparseLog parser)) rfl

/-- What a readable file holds is loaded. -/
theorem load_file {world : World m} {path text : String} (h : world.Holds path text) :
    SatisfiesM (fun r => r = .ok text) ((Source.file path).load world) := by
  unfold Source.load
  apply h.bind
  rintro r rfl
  apply SatisfiesM.pure
  exact decode_toUTF8 text

/-- Where the text can be loaded, the program answers with what its parse comes to. -/
theorem run_answers {world : World m} (hworld : world.Faithful) {s : Settings} {text : String}
    (hload : SatisfiesM (fun r => r = .ok text) (s.source.load world)) :
    SatisfiesM (fun reply => reply.Answers s text (parseSource text (some s.source.name) s.limit))
      (run world s) := by
  unfold run
  apply hload.bind
  rintro r rfl
  exact evaluate_answers hworld s text

/-! ## The command line -/

/-- Arguments that can be read lead to the reply that their settings have. -/
theorem respond_of_settings {world : World m} (hworld : world.Faithful) {arguments : List String}
    {s : Settings} {text : String} (hread : readArguments arguments = .ok s)
    (hload : SatisfiesM (fun r => r = .ok text) (s.source.load world)) :
    SatisfiesM (fun reply => reply.Answers s text (parseSource text (some s.source.name) s.limit))
      (respond world arguments) := by
  unfold respond
  rw [hread]
  exact run_answers hworld hload

/-- In a file, the same reply is due, with the diagnostic located in the file. -/
theorem Reply.due_inFile (text path : String) (limit : Nat) :
    due text ((parseSource text (some "<expr>") limit).mapError (Fault.inFile path)) =
      due text (parseSource text (some path) limit) := by
  apply due_eq_of_bare
  rw [parseSource_inFile text (some "<expr>") path limit]
  cases parseSource text (some "<expr>") limit with
  | ok e => rfl
  | error fault => rfl

/-- Neither the code nor the output depends on what the fault is. -/
theorem Reply.due_mapError (text : String) (f : Fault → Fault) (outcome : Except Fault Expr) :
    (due text (outcome.mapError f)).code = (due text outcome).code ∧
      (due text (outcome.mapError f)).output = (due text outcome).output := by
  cases outcome with
  | ok e => exact ⟨rfl, rfl⟩
  | error fault => exact ⟨rfl, rfl⟩

/--
**The program agrees with the parser.** Whatever is asked of the log, the reply to a source given
inline is the one due for its parse: the tree and exit code 0, or the diagnostic and exit code 1,
with lines of the log in front of the diagnostic and none if the program is quiet. The text of a
file gets the same reply with its fault located in the file, so the code and the output are the
same, and only the second line of the diagnostic differs. The program has no failures of its own: in
`Id`, where no reading of a clock or a file can fail, these are statements about the reply itself.
-/
theorem respond_answers {world : World m} (hworld : world.Faithful) (text : String) (limit : Nat) :
    (∀ arguments verbosity quiet,
      readArguments arguments = .ok ⟨.inline text, limit, verbosity, quiet⟩ →
      SatisfiesM (fun reply => reply.Answers ⟨.inline text, limit, verbosity, quiet⟩ text
        (parseSource text (some "<expr>") limit)) (respond world arguments)) ∧
    ∀ path, world.Holds path text →
      (∀ arguments verbosity quiet,
        readArguments arguments = .ok ⟨.file path, limit, verbosity, quiet⟩ →
        SatisfiesM (fun reply => reply.Answers ⟨.file path, limit, verbosity, quiet⟩ text
          ((parseSource text (some "<expr>") limit).mapError (Fault.inFile path)))
          (respond world arguments)) ∧
      (∀ outcome, (Reply.due text (outcome.mapError (Fault.inFile path))).code =
          (Reply.due text outcome).code ∧
        (Reply.due text (outcome.mapError (Fault.inFile path))).output =
          (Reply.due text outcome).output) ∧
      ∀ fault : Fault,
        (fault.inFile path).report text = (fault.report text).set 1 ("-> " ++ path) := by
  refine ⟨fun arguments verbosity quiet hread => ?_, fun path hfile =>
    ⟨fun arguments verbosity quiet hread => ?_, Reply.due_mapError text _,
      fun fault => fault.report_inFile path text⟩⟩
  · -- an inline source needs no read; a file has to be read, and `hfile` says what it gives
    have hload : SatisfiesM (fun r => r = .ok text) ((Source.inline text).load world) :=
      SatisfiesM.pure rfl
    exact respond_of_settings hworld hread hload
  · apply (respond_of_settings hworld hread (load_file hfile)).imp
    intro reply hreply
    exact hreply.of_due_eq (Reply.due_inFile text path limit)

end Steps

/-- A world with one file, in which no work takes any time. -/
def stillWorld (path text : String) : World Id where
  contents other := if other = path then .ok text.toUTF8 else .error .notFound
  timed work := (work (), "0ns")

theorem parseSource_unclosed :
    parseSource "(1" (some "<expr>") 3 = .error ⟨.unclosedGrouping "(", ⟨0, "<expr>"⟩⟩ :=
  Fault.ofResult?_eq_some_iff.mp (by decide +kernel)

/-- An open parenthesis inline, with a log, and in a file, without one. -/
theorem respond_answers_unclosed :
    let world := stillWorld "a.lox" "(1"
    world.Faithful ∧ world.Holds "a.lox" "(1" ∧
    readArguments ["-v", "--max-depth", "3", "--expr=(1"] = .ok ⟨.inline "(1", 3, 1, false⟩ ∧
    readArguments ["-q", "--max-depth=3", "a.lox"] = .ok ⟨.file "a.lox", 3, 0, true⟩ ∧
    (respond world ["-v", "--max-depth", "3", "--expr=(1"]).run.code = 1 ∧
    (respond world ["-q", "--max-depth=3", "a.lox"]).run =
      ⟨1, "", Fault.render ⟨.unclosedGrouping "(", ⟨0, "a.lox"⟩⟩ "(1"⟩ := by
  intro world
  -- in a world without effects a computation satisfies just what its result does
  have hworld : world.Faithful := fun work => SatisfiesM_Id_eq.mpr rfl
  have hholds : world.Holds "a.lox" "(1" := SatisfiesM_Id_eq.mpr rfl
  have hinline : readArguments ["-v", "--max-depth", "3", "--expr=(1"] =
      .ok ⟨.inline "(1", 3, 1, false⟩ := by rfl
  have hfile : readArguments ["-q", "--max-depth=3", "a.lox"] =
      .ok ⟨.file "a.lox", 3, 0, true⟩ := by rfl
  obtain ⟨hanswers, hrest⟩ := respond_answers hworld "(1" 3
  have hcode := (SatisfiesM_Id_eq.mp (hanswers _ _ _ hinline)).code_eq
  have hquiet := (SatisfiesM_Id_eq.mp ((hrest _ hholds).1 _ _ _ hfile)).quiet_eq rfl
  rw [parseSource_unclosed] at hcode hquiet
  exact ⟨hworld, hholds, hinline, hfile, hcode, hquiet⟩

end Command

end LoxExpr
