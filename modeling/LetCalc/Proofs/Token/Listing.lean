import LetCalc.Proofs.Token.Scanning

/-!
# Reading by index

A cursor asks its lexer for a token only when it is moved. Whoever uses it need not know: it answers
as an index would that moves through the list of all tokens, read beforehand.

* `Listing`: all tokens of a source text, what ends them, and the answers by index.
* `Cursor.StandsAt`: a cursor that agrees with an index. `Cursor.StandsAt.reply` is the step and
  `Cursor.StandsAt.replies` the run.
* `Lexer.stepAt_of_getElem?`, `Lexer.stepAt_length`, `Lexer.stepAt_eq_done_of_lt`: what a lexer
  answers when it is asked again and again.
-/

namespace LetCalc

/-- What can be asked of a cursor. -/
inductive Cursor.Request where
  /-- The next token, without taking it. -/
  | peek
  /-- The next token, which is taken. -/
  | advance
  /-- Whether the next token is of one of the kinds with these names. -/
  | sees (kinds : List String)
  /-- The range of what is ahead. -/
  | span
deriving DecidableEq, Repr

/-- What a cursor answers. -/
inductive Cursor.Reply where
  /-- The next token, if there is one. -/
  | token (t : Option Token)
  /-- Whether the next token is of one of the given kinds. -/
  | seen (b : Bool)
  /-- The range of what is ahead. -/
  | span (s : Span)
deriving DecidableEq, Repr

namespace Cursor

/-- The answer to a request, and the cursor after it. -/
def reply (c : Cursor) : Request → Except ParseError Reply × Cursor
  | .peek => (Reply.token <$> Reading.peek : Reading Reply) c
  | .advance => ((fun t => Reply.token (some t)) <$> Reading.advance : Reading Reply) c
  | .sees kinds =>
    (Reply.seen <$> Reading.sees fun kind => kinds.contains kind.name : Reading Reply) c
  | .span => (.ok (.span c.span), c)

/-- The answers to requests, one after the other, and the cursor after them. A request that fails
does not keep the next one from being answered. -/
def replies (c : Cursor) : List Request → List (Except ParseError Reply) × Cursor
  | [] => ([], c)
  | request :: requests =>
    let (first, d) := c.reply request
    let (more, last) := d.replies requests
    (first :: more, last)

end Cursor

/-- All tokens of a source text. -/
structure Listing where
  /-- The tokens, in order. -/
  tokens : List Token
  /-- What the lexer fails on after them, unless it comes to the end of the source. -/
  failure : Option LexError
  /-- The length of the source. -/
  size : Nat

namespace Listing

/-- The tokens of a source, as its lexer yields them. -/
def ofSource (source : String) : Listing :=
  ⟨(Lexer.ofSource source).tokens.1, (Lexer.ofSource source).tokens.2, source.length⟩

/-- The token at an index; after the last token nothing, or the failure that ends them. -/
def peek (l : Listing) (i : Nat) : Except ParseError (Option Token) :=
  match l.tokens[i]?, l.failure with
  | some t, _ => .ok (some t)
  | none, none => .ok none
  | none, some e => .error (.lexer e)

/-- The range of the token at an index; after the last token that of the failure, or the empty one
at the end of the source. -/
def span (l : Listing) (i : Nat) : Span :=
  match l.tokens[i]?, l.failure with
  | some t, _ => t.span
  | none, none => ⟨l.size, l.size⟩
  | none, some e => e.span

/-- The answer to a request at an index, and the index after it. -/
def reply (l : Listing) (i : Nat) : Cursor.Request → Except ParseError Cursor.Reply × Nat
  | .peek => ((l.peek i).map .token, i)
  | .advance =>
    match l.peek i with
    | .ok (some t) => (.ok (.token (some t)), i + 1)
    | .ok none => (.error (.unexpectedEnd ⟨l.size, l.size⟩), i)
    | .error e => (.error e, i)
  | .sees kinds => ((l.peek i).map fun t => .seen (t.any (·.kind.name ∈ kinds)), i)
  | .span => (.ok (.span (l.span i)), i)

/-- The answers to requests from an index on, and the index after them. -/
def replies (l : Listing) (i : Nat) :
    List Cursor.Request → List (Except ParseError Cursor.Reply) × Nat
  | [] => ([], i)
  | request :: requests =>
    let (first, j) := l.reply i request
    let (more, last) := l.replies j requests
    (first :: more, last)

end Listing

/-! ## A lexer that is asked again and again -/

namespace Lexer

/-- The lexer after `n` requests for the next token. -/
def after (lexer : Lexer) (n : Nat) : Lexer := (fun l => l.next.2)^[n] lexer

/-- The answer to the request with the number `n`, where the first one has the number zero. -/
def stepAt (lexer : Lexer) (n : Nat) : Step := (lexer.after n).next.1

theorem after_succ (lexer : Lexer) (n : Nat) : lexer.after (n + 1) = (lexer.after n).next.2 :=
  Function.iterate_succ_apply' _ n lexer

theorem stepAt_succ (lexer : Lexer) (n : Nat) :
    lexer.stepAt (n + 1) = lexer.next.2.stepAt n :=
  rfl

/-- An answer that is no token leaves no text. -/
theorem rest_next_eq_nil {lexer : Lexer} (h : ∀ t, lexer.next.1 ≠ .token t) :
    lexer.next.2.rest = [] := by
  have htakes := takes_next lexer
  revert h
  generalize lexer.next = result at htakes
  intro h
  cases htakes with
  | done => rfl
  | token => exact absurd rfl (h _)
  | outOfRange => rfl
  | unexpected => rfl

/-- Once no text is left, all answers are that there is no further token. -/
theorem stepAt_of_rest_eq_nil {lexer : Lexer} (h : lexer.rest = []) (n : Nat) :
    lexer.stepAt n = .done := by
  induction n generalizing lexer with
  | zero => simp [stepAt, after, next, h]
  | succ n ih =>
    rw [stepAt_succ]
    apply ih
    simp [next, h]

/-- A lexer that has come to the end of its text, or failed, has no further token. -/
theorem stepAt_eq_done_of_lt {lexer : Lexer} {m n : Nat} (h : ∀ t, lexer.stepAt m ≠ .token t)
    (hlt : m < n) : lexer.stepAt n = .done := by
  obtain ⟨k, rfl⟩ := Nat.exists_eq_add_of_lt hlt
  -- The answer with the number `m` leaves no text, and the later requests start from there.
  have hafter : lexer.after (m + k + 1) = (lexer.after (m + 1)).after k := by
    rw [Nat.add_right_comm, after, Nat.add_comm, Function.iterate_add_apply]
    rfl
  have hrest : (lexer.after (m + 1)).rest = [] := by
    rw [after_succ]
    exact rest_next_eq_nil h
  show ((lexer.after (m + k + 1)).next).1 = .done
  rw [hafter]
  exact stepAt_of_rest_eq_nil hrest k

/-- The first answers are the tokens, in order. -/
theorem stepAt_of_getElem? {lexer : Lexer} {i : Nat} {t : Token}
    (h : lexer.tokens.1[i]? = some t) : lexer.stepAt i = .token t := by
  induction lexer using run_induction generalizing i with
  | done lexer left hnext => simp [tokens_of_done hnext] at h
  | failure lexer e left hnext => simp [tokens_of_failure hnext] at h
  | token lexer u left hnext ih =>
    rw [tokens_of_token hnext] at h
    cases i with
    | zero =>
      rw [← Option.some.inj h]
      exact congrArg Prod.fst hnext
    | succ i =>
      rw [stepAt_succ, hnext]
      exact ih h

/-- The answer after the last token is what ends the tokens. -/
theorem stepAt_length (lexer : Lexer) :
    lexer.stepAt lexer.tokens.1.length =
      match lexer.tokens.2 with
      | none => .done
      | some e => .failure e := by
  induction lexer using run_induction with
  | done lexer left hnext =>
    rw [tokens_of_done hnext]
    exact congrArg Prod.fst hnext
  | failure lexer e left hnext =>
    rw [tokens_of_failure hnext]
    exact congrArg Prod.fst hnext
  | token lexer t left hnext ih =>
    rw [tokens_of_token hnext, List.length_cons, stepAt_succ, hnext]
    exact ih

end Lexer

/-! ## A cursor and an index -/

namespace Reading

theorem map_apply {α β : Type} (f : α → β) (r : Reading α) (c : Cursor) :
    (f <$> r) c = ((r c).1.map f, (r c).2) := by
  rw [map_eq_pure_bind, bind_apply]
  rcases r c with ⟨_ | _, _⟩ <;> rfl

/-- The kind of the next token is tested on what can be seen of it. -/
theorem sees_apply (p : Token.Kind → Bool) (c : Cursor) :
    sees p c = ((peek c).1.map fun t => t.any (p ·.kind), c) := by
  unfold sees peek
  cases c.ahead <;> rfl

end Reading

namespace Cursor

/-- The cursor stands before the token with the index `i` of a source. -/
structure StandsAt (source : String) (i : Nat) (c : Cursor) : Prop where
  le : i ≤ (Listing.ofSource source).tokens.length
  upcoming : c.upcoming = (Listing.ofSource source).tokens.drop i
  failure : c.failure = (Listing.ofSource source).failure
  size : c.size = (Listing.ofSource source).size
  /-- Its lexer has been asked for that token, and for no later one. -/
  lexer : c.lexer = (Lexer.ofSource source).after (i + 1)

theorem lexer_pull (lexer : Lexer) (size : Nat) : (pull lexer size).lexer = lexer.next.2 := by
  unfold pull
  split <;> simp_all

theorem standsAt_ofSource (source : String) : (ofSource source).StandsAt source 0 where
  le := Nat.zero_le _
  upcoming := upcoming_ofSource source
  failure := failure_ofSource source
  size := size_ofSource source
  lexer := lexer_pull _ _

namespace StandsAt

variable {source : String} {i : Nat} {c : Cursor}

/-- The token at the index is the first one to come. -/
theorem getElem? (h : c.StandsAt source i) :
    (Listing.ofSource source).tokens[i]? = c.upcoming.head? := by
  rw [h.upcoming, List.head?_drop]

theorem next {t : Token} (h : c.StandsAt source i) (ht : c.ahead = .token t) :
    c.next.StandsAt source (i + 1) where
  le := by
    have hi : (Listing.ofSource source).tokens[i]? = some t :=
      h.getElem?.trans (ahead_eq_token_iff.1 ht)
    exact (List.getElem?_eq_some_iff.1 hi).1
  upcoming := by
    have hupcoming := congrArg List.tail h.upcoming
    rwa [upcoming_of_token ht, List.tail_cons, List.tail_drop] at hupcoming
  failure := (failure_of_token ht).symm.trans h.failure
  size := c.size_next.trans h.size
  lexer := by
    -- The cursor asks for one token ahead, so that the token it takes was asked for before.
    rw [Cursor.next, lexer_pull, h.lexer]
    exact (Lexer.after_succ _ _).symm

/-- What is ahead of the cursor is the token at the index, or what comes after the last token. -/
theorem ahead (h : c.StandsAt source i) :
    c.ahead =
      match (Listing.ofSource source).tokens[i]?, (Listing.ofSource source).failure with
      | some t, _ => .token t
      | none, none => .finished
      | none, some e => .failed e := by
  rw [h.getElem?, ← h.failure]
  cases hahead : c.ahead with
  | token t => rw [ahead_eq_token_iff.1 hahead]
  | failed e =>
    obtain ⟨hupcoming, hfailure⟩ := ahead_eq_failed_iff.1 hahead
    rw [hupcoming, hfailure]
    rfl
  | finished =>
    obtain ⟨hupcoming, hfailure⟩ := ahead_eq_finished_iff.1 hahead
    rw [hupcoming, hfailure]
    rfl

theorem peek (h : c.StandsAt source i) :
    Reading.peek c = ((Listing.ofSource source).peek i, c) := by
  rw [Reading.peek, Listing.peek, h.ahead]
  cases (Listing.ofSource source).tokens[i]? <;> cases (Listing.ofSource source).failure <;> rfl

theorem span (h : c.StandsAt source i) : c.span = (Listing.ofSource source).span i := by
  rw [Cursor.span, Listing.span, h.ahead, h.size]
  cases (Listing.ofSource source).tokens[i]? <;> cases (Listing.ofSource source).failure <;> rfl

/-- Taking a token moves the index by one, and a failure leaves it. -/
theorem advance (h : c.StandsAt source i) :
    (c.reply .advance).1 = ((Listing.ofSource source).reply i .advance).1 ∧
      (c.reply .advance).2.StandsAt source ((Listing.ofSource source).reply i .advance).2 := by
  have hpeek : (Reading.peek c).1 = (Listing.ofSource source).peek i := congrArg Prod.fst h.peek
  rw [Cursor.reply, Reading.map_apply, Listing.reply, ← hpeek, ← h.size]
  unfold Reading.advance Reading.peek
  cases hahead : c.ahead with
  | token t => exact ⟨rfl, h.next hahead⟩
  | failed e => exact ⟨rfl, h⟩
  | finished =>
    -- The error is at the end of the source, which is where the span is.
    rw [span_of_finished hahead]
    exact ⟨rfl, h⟩

/-- A request is answered at the cursor as it is at the index, and both still agree after it. -/
theorem reply (h : c.StandsAt source i) (request : Request) :
    (c.reply request).1 = ((Listing.ofSource source).reply i request).1 ∧
      (c.reply request).2.StandsAt source ((Listing.ofSource source).reply i request).2 := by
  cases request with
  | peek =>
    rw [Cursor.reply, Reading.map_apply, h.peek]
    exact ⟨rfl, h⟩
  | advance => exact h.advance
  | sees kinds =>
    rw [Cursor.reply, Reading.map_apply, Reading.sees_apply, h.peek]
    refine ⟨?_, h⟩
    show ((Listing.peek _ i).map _).map _ = (Listing.peek _ i).map _
    cases (Listing.ofSource source).peek i with
    | ok t => simp [Except.map]
    | error e => rfl
  | span =>
    rw [Cursor.reply, h.span]
    exact ⟨rfl, h⟩

/-- So are any number of requests. -/
theorem replies (h : c.StandsAt source i) (requests : List Request) :
    (c.replies requests).1 = ((Listing.ofSource source).replies i requests).1 ∧
      (c.replies requests).2.StandsAt source
        ((Listing.ofSource source).replies i requests).2 := by
  induction requests generalizing c i with
  | nil => exact ⟨rfl, h⟩
  | cons request requests ih =>
    obtain ⟨hfirst, hstands⟩ := h.reply request
    obtain ⟨hmore, hlast⟩ := ih hstands
    exact ⟨congrArg₂ List.cons hfirst hmore, hlast⟩

end StandsAt

/-- Reading on demand is reading by index. The cursor of a source, asked for anything in any order,
answers as an index into the tokens of the source does. Its lexer has then been asked for one token
more than were taken: it yields the listed tokens and then their failure, and nothing more once it
has come to an end or failed. -/
theorem replies_eq_listing (source : String) (requests : List Request) :
    ((ofSource source).replies requests).1 =
        ((Listing.ofSource source).replies 0 requests).1 ∧
      ((Listing.ofSource source).replies 0 requests).2 ≤
        (Listing.ofSource source).tokens.length ∧
      ((ofSource source).replies requests).2.lexer =
        (Lexer.ofSource source).after (((Listing.ofSource source).replies 0 requests).2 + 1) ∧
      (∀ i t, (Listing.ofSource source).tokens[i]? = some t →
        (Lexer.ofSource source).stepAt i = .token t) ∧
      (Lexer.ofSource source).stepAt (Listing.ofSource source).tokens.length =
        (match (Listing.ofSource source).failure with
          | none => .done
          | some e => .failure e) ∧
      ∀ (lexer : Lexer) (m n : Nat), m < n → (∀ t, lexer.stepAt m ≠ .token t) →
        lexer.stepAt n = .done := by
  obtain ⟨hreplies, hstands⟩ := (standsAt_ofSource source).replies requests
  refine ⟨hreplies, hstands.le, hstands.lexer, ?_, ?_, ?_⟩
  · intro i t ht
    exact Lexer.stepAt_of_getElem? ht
  · exact Lexer.stepAt_length _
  · intro lexer m n hlt h
    exact Lexer.stepAt_eq_done_of_lt h hlt

/-- A failure comes up only after the token before it is taken, and then again and again. The lexer
itself fails once. -/
theorem replies_of_failure :
    ((ofSource "x €").replies [.sees ["NUMBER", "IDENTIFIER"], .advance, .span, .advance,
        .peek]).1.map (fun reply => reply.isOk) = [true, true, true, false, false] ∧
      (Lexer.ofSource "x €").stepAt 7 = .done := by
  obtain ⟨hreplies, -, -, -, -, hdone⟩ := replies_eq_listing "x €"
    [.sees ["NUMBER", "IDENTIFIER"], .advance, .span, .advance, .peek]
  have hfailure : (Lexer.ofSource "x €").stepAt 1 =
      .failure (.unexpectedCharacter '€' ⟨2, 1, 3⟩) := by decide +kernel
  constructor
  · rw [hreplies]
    decide +kernel
  · apply hdone _ 1 7 (by decide)
    rw [hfailure]
    nofun

end Cursor

end LetCalc
