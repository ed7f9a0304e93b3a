import LetCalc.Token.Cursor

/-!
# The tokens ahead of a cursor

A cursor holds one token and a lexer. Facts about reading are stated over what is still to come
instead: the list of tokens up to the end or the first failure of the lexer, and that failure.

* `Cursor.upcoming`, `Cursor.failure`: the tokens to come, and what ends them if not the end of
  the source.
* `Cursor.upcoming_of_token`, `Cursor.failure_of_token`: taking a token takes it off that list.
* `Cursor.upcoming_ofSource`, `Cursor.failure_ofSource`: at the start of a source these are all
  its tokens.
-/

namespace LetCalc

namespace Lexer

/-- At the end of the source there are no tokens and no failure. -/
theorem tokens_of_done {lexer left : Lexer} (h : lexer.next = (.done, left)) :
    lexer.tokens = ([], none) := by
  rw [tokens]
  split <;> simp_all

/-- A failure ends the tokens. -/
theorem tokens_of_failure {lexer left : Lexer} {e : LexError}
    (h : lexer.next = (.failure e, left)) : lexer.tokens = ([], some e) := by
  rw [tokens]
  split <;> simp_all

/-- A token comes before those of the lexer after it. -/
theorem tokens_of_token {lexer left : Lexer} {t : Token} (h : lexer.next = (.token t, left)) :
    lexer.tokens = (t :: left.tokens.1, left.tokens.2) := by
  rw [tokens]
  split <;> simp_all

/-- A source has a list of tokens exactly if its lexer does not fail. -/
theorem tokenize_eq_ok_iff {source : String} {ts : List Token} :
    tokenize source = .ok ts ↔ (ofSource source).tokens = (ts, none) := by
  unfold tokenize
  split <;> simp_all

end Lexer

namespace Cursor

/-- The tokens to come, up to the end or the first failure. -/
def upcoming (c : Cursor) : List Token :=
  match c.ahead with
  | .token t => t :: c.lexer.tokens.1
  | _ => []

/-- The failure that ends the tokens to come, if there is one. -/
def failure (c : Cursor) : Option LexError :=
  match c.ahead with
  | .token _ => c.lexer.tokens.2
  | .failed e => some e
  | .finished => none

/-- A cursor shows what its lexer had left. -/
theorem upcoming_failure_pull (lexer : Lexer) (size : Nat) :
    ((pull lexer size).upcoming, (pull lexer size).failure) = lexer.tokens := by
  unfold pull
  split
  · rename_i h
    rw [Lexer.tokens_of_token h]
    rfl
  · rename_i h
    rw [Lexer.tokens_of_failure h]
    rfl
  · rename_i h
    rw [Lexer.tokens_of_done h]
    rfl

/-- The tokens ahead of a new cursor are those of its lexer. -/
@[simp]
theorem upcoming_pull (lexer : Lexer) (size : Nat) :
    (pull lexer size).upcoming = lexer.tokens.1 :=
  congrArg Prod.fst (upcoming_failure_pull lexer size)

/-- They end in the same way. -/
@[simp]
theorem failure_pull (lexer : Lexer) (size : Nat) :
    (pull lexer size).failure = lexer.tokens.2 :=
  congrArg Prod.snd (upcoming_failure_pull lexer size)

@[simp]
theorem size_pull (lexer : Lexer) (size : Nat) : (pull lexer size).size = size := by
  unfold pull
  split <;> rfl

/-- A cursor stays in its source. -/
@[simp]
theorem size_next (c : Cursor) : c.next.size = c.size := size_pull c.lexer c.size

variable {c : Cursor}

/-- Taking a token takes it off the tokens to come. -/
theorem upcoming_of_token {t : Token} (h : c.ahead = .token t) :
    c.upcoming = t :: c.next.upcoming := by
  simp [upcoming, h, next, ← upcoming_pull c.lexer c.size]

/-- What ends the tokens is the same after taking one. -/
theorem failure_of_token {t : Token} (h : c.ahead = .token t) : c.failure = c.next.failure := by
  simp [failure, h, next, ← failure_pull c.lexer c.size]

/-- A failure ahead is what ends the tokens to come. -/
theorem failure_of_failed {e : LexError} (h : c.ahead = .failed e) : c.failure = some e := by
  simp [failure, h]

/-- At the end nothing is to come. -/
theorem upcoming_of_finished (h : c.ahead = .finished) : c.upcoming = [] := by
  simp [upcoming, h]

theorem failure_of_finished (h : c.ahead = .finished) : c.failure = none := by
  simp [failure, h]

/-- What is ahead is the first of the tokens to come, or what ends them. -/
theorem ahead_eq_token_iff {t : Token} : c.ahead = .token t ↔ c.upcoming.head? = some t := by
  cases h : c.ahead <;> simp [upcoming, h]

/-- A failure is ahead if it ends the tokens and none of them is left. -/
theorem ahead_eq_failed_iff {e : LexError} :
    c.ahead = .failed e ↔ c.upcoming = [] ∧ c.failure = some e := by
  cases h : c.ahead <;> simp [upcoming, failure, h]

/-- The end is ahead if no token is left and no failure ends them. -/
theorem ahead_eq_finished_iff : c.ahead = .finished ↔ c.upcoming = [] ∧ c.failure = none := by
  cases h : c.ahead <;> simp [upcoming, failure, h]

/-- A cursor has the span of the token ahead. -/
theorem span_of_token {t : Token} (h : c.ahead = .token t) : c.span = t.span := by
  simp [span, h]

/-- Before a failure it has the span of what could not be read. -/
theorem span_of_failed {e : LexError} (h : c.ahead = .failed e) : c.span = e.span := by
  simp [span, h]

/-- At the end it has the empty span there. -/
theorem span_of_finished (h : c.ahead = .finished) : c.span = ⟨c.size, c.size⟩ := by
  simp [span, h]

/-- At the start of a source all its tokens are to come. -/
theorem upcoming_ofSource (source : String) :
    (ofSource source).upcoming = (Lexer.ofSource source).tokens.1 :=
  upcoming_pull _ _

/-- What ends them is what ends the tokens of the source. -/
theorem failure_ofSource (source : String) :
    (ofSource source).failure = (Lexer.ofSource source).tokens.2 :=
  failure_pull _ _

@[simp]
theorem size_ofSource (source : String) : (ofSource source).size = source.length :=
  size_pull _ _

end Cursor

end LetCalc
