import LoxExpr.Grammar.Nesting

/-!
# What lies ahead of a cursor

The grammar procedures see a token sequence only through its cursor, and never look past an end of
input. This module gives that view: `ahead p` are the tokens from the cursor up to the next end of
input, `stop p` is that end of input. Every operation of a parser is described by what it does to
the two:

* `ahead_eq_nil_iff`, `of_ahead_eq_cons`: the cursor is on the first token ahead, and on the end of
  input exactly if there is none;
* `ahead_advance`, `stop_advance`: moving on takes the first token off and keeps the end;
* `matchAny_eq`, `expectOr_eq`: what the consuming steps do is decided by that first token;
* `Onward`: what all parsers that came from one by any steps have in common.
-/

namespace LoxExpr

/-- The tokens before the first end of input. -/
def beforeEnd (ts : List Token) : List Token :=
  ts.takeWhile (·.kind ≠ .eof)

/-- The first end of input; if there is none, the given token stands for it. -/
def firstEnd (ts : List Token) (fallback : Token) : Token :=
  (ts.find? (·.kind = .eof)).getD fallback

/-- No end of input lies before the first one. -/
theorem kind_ne_of_mem_beforeEnd {ts : List Token} {t : Token} (h : t ∈ beforeEnd ts) :
    t.kind ≠ .eof := by
  have hall := List.all_eq_true.mp List.all_takeWhile t h
  simpa using hall

/-- The tokens in front of the end of input, if none of them is another one. -/
theorem beforeEnd_append {found : List Token} {position : Position}
    (h : ∀ t ∈ found, t.kind ≠ .eof) :
    beforeEnd (found ++ [Token.endOfInput position]) = found := by
  rw [beforeEnd, List.takeWhile_append_of_pos fun t ht => decide_eq_true (h t ht)]
  exact List.append_nil found

/-- The tokens before the first end of input are no more than those before any. -/
theorem length_beforeEnd_le {ts : List Token} {i : Nat} {t : Token} (ht : ts[i]? = some t)
    (hkind : t.kind = .eof) : (beforeEnd ts).length ≤ i := by
  rcases Nat.lt_or_ge i (beforeEnd ts).length with hi | hge
  · obtain ⟨rest, hrest⟩ : beforeEnd ts <+: ts := List.takeWhile_prefix _
    rw [← hrest, List.getElem?_append_left hi] at ht
    exact absurd hkind (kind_ne_of_mem_beforeEnd (List.mem_of_getElem? ht))
  · exact hge

namespace Parser

/-- The tokens from the cursor up to the next end of input. -/
def ahead (p : Parser) : List Token :=
  beforeEnd (p.tokens.toList.drop p.cursor)

/-- The end of input that bounds the tokens ahead. -/
def stop (p : Parser) : Token :=
  firstEnd (p.tokens.toList.drop p.cursor) (Token.endOfInput (endOf #[]))

theorem ahead_length_le (p : Parser) : p.ahead.length ≤ p.tokens.size := by
  have hle := (List.takeWhile_prefix (l := p.tokens.toList.drop p.cursor)
    (·.kind ≠ .eof)).length_le
  rw [List.length_drop, Array.length_toList] at hle
  exact Nat.le_trans hle (Nat.sub_le _ _)

/-- Can the current token be consumed as one of the kinds? -/
def offers (p : Parser) (kinds : List Kind) : Bool :=
  kinds.any p.check

/-! ## The current token -/

/-- The token at the cursor is the first of those from the cursor on. -/
theorem drop_cursor (p : Parser) :
    p.tokens.toList.drop p.cursor = p.current :: p.tokens.toList.drop (p.cursor + 1) := by
  have hlt : p.cursor < p.tokens.toList.length := by simpa using p.cursor_lt
  rw [List.drop_eq_getElem_cons hlt]
  rfl

theorem atEnd_eq_true_iff {p : Parser} : p.atEnd = true ↔ p.current.kind = .eof := by
  simp [atEnd]

theorem atEnd_eq_false_iff {p : Parser} : p.atEnd = false ↔ p.current.kind ≠ .eof := by
  simp [atEnd]

/-- Nothing lies ahead exactly if the cursor is on an end of input. -/
theorem ahead_eq_nil_iff {p : Parser} : p.ahead = [] ↔ p.atEnd = true := by
  rw [ahead, beforeEnd, drop_cursor, atEnd_eq_true_iff, List.takeWhile_cons]
  by_cases hend : p.current.kind = .eof <;> simp [hend]

/-- A cursor on an end of input has no other in front of it. -/
theorem stop_of_atEnd {p : Parser} (hend : p.atEnd = true) : p.stop = p.current := by
  rw [stop, firstEnd, drop_cursor, List.find?_cons_of_pos]
  · rfl
  · simpa using atEnd_eq_true_iff.mp hend

/-- A kind other than the end of input is looked for at the current token alone. -/
theorem check_eq_true_iff {p : Parser} {k : Kind} :
    p.check k = true ↔ p.atEnd = false ∧ p.current.kind = k := by
  simp [check]

/-- What is offered is a token of one of the kinds, and an end of input is never offered. -/
theorem offers_eq_true_iff {p : Parser} {kinds : List Kind} :
    p.offers kinds = true ↔ p.atEnd = false ∧ p.current.kind ∈ kinds := by
  simp only [offers, List.any_eq_true, check_eq_true_iff]
  constructor
  · rintro ⟨k, hmem, hend, hkind⟩
    exact ⟨hend, hkind ▸ hmem⟩
  · rintro ⟨hend, hmem⟩
    exact ⟨p.current.kind, hmem, hend, rfl⟩

theorem atEnd_of_offers {p : Parser} {kinds : List Kind} (hoff : p.offers kinds = true) :
    p.atEnd = false :=
  (offers_eq_true_iff.mp hoff).1

/-- A token of none of the kinds is not offered. -/
theorem offers_eq_false_of_not_mem {p : Parser} {kinds : List Kind}
    (hkind : p.current.kind ∉ kinds) : p.offers kinds = false := by
  rw [Bool.eq_false_iff, ne_eq, offers_eq_true_iff]
  exact fun hoff => hkind hoff.2

/-- A parser that is not offered certain kinds is on no token of them; the end of input is no
exception, as long as it is not among them. -/
theorem not_mem_of_offers_eq_false {p : Parser} {kinds : List Kind}
    (hoff : p.offers kinds = false) (heof : .eof ∉ kinds) : p.current.kind ∉ kinds := by
  intro hmem
  have hend : p.atEnd = false := by
    rw [atEnd_eq_false_iff]
    intro hkind
    rw [hkind] at hmem
    exact heof hmem
  rw [offers_eq_true_iff.mpr ⟨hend, hmem⟩] at hoff
  cases hoff

/-! ## Moving on -/

@[simp] theorem tokens_next (p : Parser) : p.next.tokens = p.tokens := by
  unfold next
  split <;> rfl

@[simp] theorem tokens_advance (p : Parser) : p.advance.tokens = p.tokens :=
  tokens_next p

/-- In front of the end of input, the next parser is one token further. -/
theorem cursor_next {p : Parser} (hend : p.atEnd = false) : p.next.cursor = p.cursor + 1 := by
  rw [next, dif_pos hend]

/-- In front of the end of input, advancing consumes one token. -/
theorem cursor_advance {p : Parser} (hend : p.atEnd = false) : p.advance.cursor = p.cursor + 1 :=
  cursor_next hend

/-- On the end of input, advancing stays where it is. -/
theorem cursor_advance_of_atEnd {p : Parser} (hend : p.atEnd = true) :
    p.advance.cursor = p.cursor := by
  simp [advance, next, hend, record]

/-- Advancing never consumes more than one token. -/
theorem cursor_advance_le (p : Parser) : p.advance.cursor ≤ p.cursor + 1 := by
  cases hend : p.atEnd with
  | true => exact Nat.le_succ_of_le (Nat.le_of_eq (cursor_advance_of_atEnd hend))
  | false => exact Nat.le_of_eq (cursor_advance hend)

/-- Advancing notes the token and where it stands, also on an end of input. -/
theorem log_advance (p : Parser) :
    p.advance.log = p.log.push (.consumed p.current p.cursor) := by
  have hnext : p.next.log = p.log := by
    unfold next
    split <;> rfl
  rw [advance, record, hnext]

/-- What advancing leaves is what stands behind the token consumed. -/
theorem drop_cursor_advance {p : Parser} (hend : p.atEnd = false) :
    p.advance.tokens.toList.drop p.advance.cursor = p.tokens.toList.drop (p.cursor + 1) := by
  rw [tokens_advance, cursor_advance hend]

theorem ahead_advance {p : Parser} (hend : p.atEnd = false) :
    p.ahead = p.current :: p.advance.ahead := by
  have hkind : p.current.kind ≠ .eof := atEnd_eq_false_iff.mp hend
  rw [ahead, ahead, drop_cursor_advance hend, drop_cursor, beforeEnd, beforeEnd]
  exact List.takeWhile_cons_of_pos (by simpa using hkind)

/-- Advancing leaves one token fewer ahead. -/
theorem length_ahead_advance {p : Parser} (hend : p.atEnd = false) :
    p.ahead.length = p.advance.ahead.length + 1 := by
  rw [ahead_advance hend, List.length_cons]

/-- Advancing does not pass the end of input. -/
@[simp] theorem stop_advance (p : Parser) : p.advance.stop = p.stop := by
  cases hend : p.atEnd with
  -- at the end of input only the log grows
  | true => simp [advance, next, hend, record, stop]
  | false =>
    have hkind : p.current.kind ≠ .eof := atEnd_eq_false_iff.mp hend
    rw [stop, stop, drop_cursor_advance hend, drop_cursor, firstEnd, firstEnd,
      List.find?_cons_of_neg (by simpa using hkind)]

/-- With a token ahead, the cursor is on it. -/
theorem of_ahead_eq_cons {p : Parser} {t : Token} {ts : List Token} (h : p.ahead = t :: ts) :
    p.atEnd = false ∧ p.current = t ∧ p.advance.ahead = ts := by
  have hend : p.atEnd = false := by
    cases hend : p.atEnd with
    | false => rfl
    | true => rw [ahead_eq_nil_iff.mpr hend] at h; cases h
  rw [ahead_advance hend] at h
  exact ⟨hend, List.cons.inj h⟩

/-! ## Steps that do not move -/

@[simp] theorem ahead_record (p : Parser) (event : Event) : (p.record event).ahead = p.ahead := rfl

@[simp] theorem ahead_deeper (p : Parser) : p.deeper.ahead = p.ahead := rfl

@[simp] theorem ahead_shallower (p : Parser) : p.shallower.ahead = p.ahead := rfl

@[simp] theorem stop_record (p : Parser) (event : Event) : (p.record event).stop = p.stop := rfl

@[simp] theorem stop_deeper (p : Parser) : p.deeper.stop = p.stop := rfl

@[simp] theorem stop_shallower (p : Parser) : p.shallower.stop = p.stop := rfl

/-! ## Any number of steps -/

/-- The second parser is the first one further on: it reads the same tokens up to the same end. -/
structure Onward (p q : Parser) : Prop where
  tokens_eq : q.tokens = p.tokens
  limit_eq : q.limit = p.limit
  stop_eq : q.stop = p.stop
  ahead_suffix : q.ahead <:+ p.ahead
  end_eq : q.cursor + q.ahead.length = p.cursor + p.ahead.length

theorem Onward.refl (p : Parser) : p.Onward p :=
  ⟨rfl, rfl, rfl, List.suffix_refl _, rfl⟩

theorem Onward.trans {p q r : Parser} (hpq : p.Onward q) (hqr : q.Onward r) : p.Onward r where
  tokens_eq := hqr.tokens_eq.trans hpq.tokens_eq
  limit_eq := hqr.limit_eq.trans hpq.limit_eq
  stop_eq := hqr.stop_eq.trans hpq.stop_eq
  ahead_suffix := hqr.ahead_suffix.trans hpq.ahead_suffix
  end_eq := hqr.end_eq.trans hpq.end_eq

/-- No steps bring a token back in front of the cursor. -/
theorem Onward.length_le {p q : Parser} (h : p.Onward q) : q.ahead.length ≤ p.ahead.length :=
  h.ahead_suffix.length_le

/-- No steps take the cursor back. -/
theorem Onward.cursor_le {p q : Parser} (h : p.Onward q) : p.cursor ≤ q.cursor := by
  have hlen := h.length_le
  have hend := h.end_eq
  omega

theorem onward_record (p : Parser) (event : Event) : p.Onward (p.record event) :=
  ⟨rfl, rfl, rfl, List.suffix_refl _, rfl⟩

theorem onward_deeper (p : Parser) : p.Onward p.deeper :=
  ⟨rfl, rfl, rfl, List.suffix_refl _, rfl⟩

theorem onward_shallower (p : Parser) : p.Onward p.shallower :=
  ⟨rfl, rfl, rfl, List.suffix_refl _, rfl⟩

/-- Advancing leads onward, and what lies ahead is what lay behind the token consumed. -/
theorem onward_advance (p : Parser) : p.Onward p.advance where
  tokens_eq := tokens_advance p
  limit_eq := limit_advance p
  stop_eq := stop_advance p
  ahead_suffix := by
    cases hend : p.atEnd with
    | true => simp [advance, next, hend]
    | false => rw [ahead_advance hend]; exact List.suffix_cons _ _
  end_eq := by
    cases hend : p.atEnd with
    | true => simp [advance, next, hend, record, ahead]
    | false => rw [length_ahead_advance hend, cursor_advance hend]; omega

/-! ## The consuming steps -/

/-- A match consumes the token if it is of one of the kinds, and else does nothing. -/
theorem matchAny_eq (kinds : List Kind) (p : Parser) :
    matchAny kinds p = if p.offers kinds then .ok (some p.current) p.advance else .ok none p :=
  rfl

/-- What is expected is consumed; where it does not stand, nothing is. -/
theorem expectOr_eq (kind : Kind) (fault : Fault) (p : Parser) :
    expectOr kind fault p = if p.check kind then .ok p.current p.advance else .error fault p :=
  rfl

/-! ## The start of a parse -/

@[simp] theorem cursor_ofTokens (tokens : Array Token) (limit : Nat) :
    (ofTokens tokens limit).cursor = 0 := by
  unfold ofTokens
  split <;> rfl

@[simp] theorem limit_ofTokens (tokens : Array Token) (limit : Nat) :
    (ofTokens tokens limit).limit = limit := by
  unfold ofTokens
  split <;> rfl

@[simp] theorem nesting_ofTokens (tokens : Array Token) (limit : Nat) :
    (ofTokens tokens limit).nesting = 0 := by
  unfold ofTokens
  split <;> rfl

/-- An end of input that is added behind the tokens lies ahead of none of them. -/
theorem ahead_ofTokens (tokens : Array Token) (limit : Nat) :
    (ofTokens tokens limit).ahead = beforeEnd tokens.toList := by
  rw [ahead, cursor_ofTokens, List.drop_zero]
  unfold ofTokens
  split
  · rfl
  · -- the added token is cut off again, whether or not another end of input comes before it
    rw [Array.toList_push, beforeEnd, beforeEnd, List.takeWhile_append]
    split
    · rename_i hlen
      rw [(List.takeWhile_prefix _).eq_of_length hlen]
      simp [Token.endOfInput]
    · rfl

/-- The tokens are taken as they are, but for an end of input where the last is none. -/
theorem tokens_ofTokens (tokens : Array Token) (limit : Nat) :
    (ofTokens tokens limit).tokens =
      if tokens.back?.map Token.kind = some .eof then tokens
      else tokens.push (Token.endOfInput (endOf tokens)) := by
  unfold ofTokens
  split <;> rfl

/-- The added end of input is the first one exactly if the tokens hold none. -/
theorem stop_ofTokens (tokens : Array Token) (limit : Nat) :
    (ofTokens tokens limit).stop = firstEnd tokens.toList (Token.endOfInput (endOf tokens)) := by
  rw [stop, cursor_ofTokens, List.drop_zero]
  unfold ofTokens
  split
  · -- the last token ends the input, so one is found and the fallbacks do not matter
    rename_i hended
    obtain ⟨last, hlast, hkind⟩ := Option.map_eq_some_iff.mp hended
    have hmem : last ∈ tokens.toList := Array.mem_def.mp (Array.mem_of_back? hlast)
    have hsome : (tokens.toList.find? (·.kind = .eof)).isSome := by
      rw [List.find?_isSome]
      exact ⟨last, hmem, by simpa using hkind⟩
    obtain ⟨first, hfirst⟩ := Option.isSome_iff_exists.mp hsome
    rw [firstEnd, firstEnd, hfirst, Option.getD_some, Option.getD_some]
  · rw [Array.toList_push, firstEnd, firstEnd, List.find?_append]
    cases tokens.toList.find? (·.kind = .eof) <;> simp [Token.endOfInput]

end Parser

end LoxExpr
