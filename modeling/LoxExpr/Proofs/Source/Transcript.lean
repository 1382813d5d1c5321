import LoxExpr.Proofs.Expr.Printed
import LoxExpr.Proofs.Grammar.Journal

/-!
# The log as it is read

Each event of a log is shown as a line of text. Whoever reads the lines has to tell the events apart
by their words, and can: a line begins with a word for what happened (`Event.exists_text`), and the
line of an entry goes on with the name of its rule. So what holds of the events of a faithful log
holds of its lines, too, and `Transcribed` says it of these: the consumed tokens are written down
each once and in order, every entry of an expression is followed by the four lines of its descent,
and the entries of a rule can be counted.
-/

namespace LoxExpr

open Grammar

/-! ## The words of a line -/

/-- Does the line begin with the words, and a space behind them? -/
def Says (words line : String) : Bool :=
  (words.toList ++ [' ']).isPrefixOf line.toList

/-- A line says some words if it begins with them and goes on behind a space. -/
theorem says_iff {words line : String} :
    Says words line = true ↔ ∃ rest, line.toList = words.toList ++ ' ' :: rest := by
  rw [Says, List.isPrefixOf_iff_prefix]
  constructor
  · rintro ⟨rest, happ⟩
    exact ⟨rest, by rw [← happ, List.append_assoc]; rfl⟩
  · rintro ⟨rest, happ⟩
    exact ⟨rest, by rw [happ, List.append_assoc]; rfl⟩

/-- The first word of a line is the only one that it begins with. -/
theorem says_iff_eq {word first line : String} {rest : List Char} (hword : IsWord word)
    (hfirst : IsWord first) (hline : line.toList = first.toList ++ ' ' :: rest) :
    Says word line = true ↔ word = first := by
  rw [says_iff]
  constructor
  · rintro ⟨rest', hline'⟩
    have happ := hline'.symm.trans hline
    exact (eq_of_word_append hword hfirst (closes_space _) (closes_space _) happ).1
  · rintro rfl
    exact ⟨rest, hline⟩

/-- The words that the line of an entry begins with. -/
def Rule.enterWords (rule : Rule) : String :=
  "enter " ++ rule.name ++ " at"

theorem Rule.isWord_name (rule : Rule) : IsWord rule.name := by
  cases rule <;> decide

/-- The rules have different names. -/
theorem Rule.name_inj {rule rule' : Rule} (h : rule.name = rule'.name) : rule = rule' := by
  cases rule <;> cases rule' <;> first | rfl | exact absurd h (by decide)

/-- The line of a token that was consumed. -/
def consumedLine (token : Token) (cursor : Nat) : String :=
  "consumed " ++ token.display ++ " at " ++ toString cursor

/-- The line of a rule that was begun. -/
def enterLine (rule : Rule) (cursor : Nat) : String :=
  "enter " ++ rule.name ++ " at " ++ toString cursor

namespace Event

/-- The word for what happened. -/
def verb : Event → String
  | .lexed _ => "lexed"
  | .tokenized _ _ => "tokenized"
  | .endAdded => "token"
  | .entered _ _ => "enter"
  | .consumed _ _ => "consumed"
  | .parsed _ _ => "parsed"
  | .failed _ _ => "parse"

theorem isWord_verb (event : Event) : IsWord event.verb := by
  cases event <;> rw [verb] <;> decide

/-- A line begins with the word for what happened. -/
theorem exists_text (event : Event) :
    ∃ rest, event.text.toList = event.verb.toList ++ ' ' :: rest := by
  -- the verb ends at the first blank of the record, whatever is shown behind it
  cases event with
  | lexed token =>
    show ∃ rest, ("lexed " ++ _).toList = "lexed".toList ++ _
    simp
  | tokenized file count =>
    show ∃ rest, ("tokenized " ++ _ ++ _ ++ _ ++ _).toList = "tokenized".toList ++ _
    simp
  | endAdded =>
    show ∃ rest,
      "token sequence is not terminated by EOF, appending one".toList = "token".toList ++ _
    simp
  | entered rule cursor =>
    show ∃ rest, ("enter " ++ _ ++ _ ++ _).toList = "enter".toList ++ _
    simp
  | consumed token cursor =>
    show ∃ rest, ("consumed " ++ _ ++ _ ++ _).toList = "consumed".toList ++ _
    simp
  | parsed count expr =>
    show ∃ rest, ("parsed " ++ _ ++ _ ++ _).toList = "parsed".toList ++ _
    simp
  | failed cursor fault =>
    show ∃ rest, ("parse failed at token " ++ _ ++ _ ++ _).toList = "parse".toList ++ _
    simp

/-- Of all words, a line says the one for what happened. -/
theorem says_text_iff {word : String} (hword : IsWord word) (event : Event) :
    Says word event.text = true ↔ word = event.verb := by
  obtain ⟨rest, htext⟩ := event.exists_text
  exact says_iff_eq hword event.isWord_verb htext

/-- Entries are the events with the word for them. -/
theorem says_enter (event : Event) : Says "enter" event.text = event.isEntry := by
  rw [Bool.eq_iff_iff, says_text_iff (by decide)]
  cases event <;> simp [verb, isEntry]

/-- Consumed tokens are the events with the word for them. -/
theorem says_consumed (event : Event) : Says "consumed" event.text = event.consumed?.isSome := by
  rw [Bool.eq_iff_iff, says_text_iff (by decide)]
  cases event <;> simp [verb, consumed?]

/-- The line of an entry names its rule. -/
theorem says_enterWords_entered (rule rule' : Rule) (cursor : Nat) :
    Says rule.enterWords (entered rule' cursor).text = true ↔ rule' = rule := by
  have htext : (entered rule' cursor).text.toList =
      "enter ".toList ++ (rule'.name.toList ++ ' ' :: ("at ".toList ++ (toString cursor).toList)) := by
    show ("enter " ++ rule'.name ++ " at " ++ toString cursor).toList = _
    simp
  have hwords : rule.enterWords.toList = "enter ".toList ++ (rule.name.toList ++ " at".toList) := by
    simp [Rule.enterWords]
  rw [says_iff, htext, hwords]
  constructor
  · rintro ⟨rest, happ⟩
    -- behind the first word comes the name of the rule, up to a space, on both sides
    rw [List.append_assoc] at happ
    have hnames := List.append_cancel_left happ
    rw [List.append_assoc] at hnames
    exact Rule.name_inj (eq_of_word_append rule'.isWord_name rule.isWord_name (closes_space _)
      (closes_space _) hnames).1
  · rintro rfl
    exact ⟨(toString cursor).toList, by simp⟩

/-- Only the entries of a rule have lines that begin with its words. -/
theorem says_enterWords (rule : Rule) (event : Event) :
    Says rule.enterWords event.text = event.isEntryOf rule := by
  cases hentry : event.isEntry with
  | true =>
    cases event with
    | entered rule' cursor =>
      rw [Bool.eq_iff_iff, says_enterWords_entered]
      simp [isEntryOf]
    | _ => cases hentry
  | false =>
    have hother : event.isEntryOf rule = false := by
      cases event with
      | entered rule' cursor => cases hentry
      | _ => rfl
    rw [hother, Bool.eq_false_iff]
    rw [← says_enter, Bool.eq_false_iff] at hentry
    intro hsaid
    -- the words of entry begin with the verb, so a record of another verb cannot say them
    obtain ⟨rest, htext⟩ := says_iff.mp hsaid
    refine hentry (says_iff.mpr ⟨rule.name.toList ++ " at".toList ++ ' ' :: rest, ?_⟩)
    rw [htext]
    simp [Rule.enterWords]

end Event

/-! ## The lines of a log -/

/-- The lines that a scan leaves behind: one for each token, and one for their number. -/
def scanLines (file : String) (tokens : Array Token) : List String :=
  tokens.toList.map (fun token => "lexed " ++ token.display) ++
    ["tokenized " ++ file ++ " into " ++ toString tokens.size ++ " tokens"]

/--
The lines that a parser has noted say what it has done, as `Grammar.Faithful` says of its log.
-/
structure Transcribed (q : Parser) (noted : List String) : Prop where
  /-- The consumed tokens are those up to the cursor, each once and in order. -/
  consumed_eq : noted.filter (Says "consumed") =
    (q.tokens.toList.zipIdx.take q.cursor).map fun (token, cursor) => consumedLine token cursor
  /-- Behind the entry of an expression come those of the tiers, at the same cursor. -/
  descends : ∀ before cursor after, noted = before ++ enterLine .expression cursor :: after →
    [.equality, .comparison, .term, .factor].map (enterLine · cursor) <+: after
  entries_le : noted.countP (Says "enter") ≤ 5 * (q.cursor + 1)
  begun_eq : ∀ rule : Rule, noted.countP (Says rule.enterWords) = q.begun rule

section Noted

variable {q : Parser}

/-- The lines of consumed tokens are those of the events of consumption. -/
theorem filter_says_consumed (es : List Event) :
    (es.map Event.text).filter (Says "consumed") =
      (es.filterMap Event.consumed?).map fun (token, cursor) => consumedLine token cursor := by
  -- a record says that a token is consumed when it is such a record, and shows its token then
  induction es with
  | nil => rfl
  | cons event es ih =>
    have hsaid := event.says_consumed
    cases event with
    | consumed token cursor =>
      rw [List.map_cons, List.filter_cons_of_pos hsaid, ih]
      rfl
    | _ =>
      rw [List.map_cons, List.filter_cons_of_neg (Bool.eq_false_iff.mp hsaid), ih]
      rfl

/-- The lines that begin with some words are as many as the events that the words tell. -/
theorem countP_lines {words : String} {p : Event → Bool}
    (h : ∀ event : Event, Says words event.text = p event) (es : List Event) :
    (es.map Event.text).countP (Says words) = es.countP p := by
  rw [List.countP_map]
  exact congrArg (List.countP · es) (funext h)

/-- Where a line tells the entry of an expression, the log has one, and its descent behind it. -/
theorem Grammar.Descends.lines {es : List Event} (h : Descends es) {before after : List String}
    {cursor : Nat} (hlines : es.map Event.text = before ++ enterLine .expression cursor :: after) :
    [.equality, .comparison, .term, .factor].map (enterLine · cursor) <+: after := by
  obtain ⟨front, back, rfl, -, hback⟩ := List.map_eq_append_iff.mp hlines
  obtain ⟨event, rest, rfl, htext, rfl⟩ := List.map_eq_cons_iff.mp hback
  -- the words of the line tell that the event is such an entry, though not yet at which cursor
  have hentry : event.isEntryOf .expression = true := by
    rw [← event.says_enterWords, htext, says_iff]
    exact ⟨(toString cursor).toList, by simp [enterLine, Rule.enterWords, Rule.name]⟩
  cases event with
  | entered rule cursor' =>
    obtain rfl : rule = .expression := of_decide_eq_true hentry
    have hnumber : toString cursor' = toString cursor := by
      have hlist := congrArg String.toList (show enterLine .expression cursor' = _ from htext)
      rw [← String.toList_inj]
      simpa [enterLine] using hlist
    have hdescent := (h front cursor' rest rfl).map Event.text
    have htiers : (descent .equality cursor').map Event.text =
        [.equality, .comparison, .term, .factor].map (enterLine · cursor) := by
      show [Rule.equality, .comparison, .term, .factor].map (enterLine · cursor') = _
      simp only [enterLine, hnumber]
    rwa [htiers] at hdescent
  | _ => cases hentry

/-- A faithful log is read as it was written. -/
theorem Grammar.Faithful.transcribed (h : Faithful q) :
    Transcribed q (q.log.toList.map Event.text) where
  consumed_eq := by rw [filter_says_consumed, h.recorded]
  descends := fun _ _ _ hlines => h.descends.lines hlines
  entries_le := by
    rw [countP_lines Event.says_enter]
    exact h.entries_le
  begun_eq := fun rule => countP_lines (Event.says_enterWords rule) q.log.toList

end Noted

end LoxExpr
