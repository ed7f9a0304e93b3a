import LetCalc.ParseError

/-!
# Cursors

A cursor reads tokens on demand and shows the next one without taking it. A failure of the lexer
is kept, and comes up when the token that could not be read is asked for.

`Reading` is the type of computations that move a cursor. A failing computation leaves the cursor
where it stood when it failed. Two facts about computations are tracked through every combinator:

* `Reading.Shrinks`: it never puts anything back.
* `Reading.Consumes`: besides, it takes at least one token whenever it succeeds.
-/

namespace LetCalc

/-- What a cursor sees. -/
inductive Cursor.Ahead where
  /-- The next token. -/
  | token (t : Token)
  /-- The next token could not be read. -/
  | failed (e : LexError)
  /-- The end of the source. -/
  | finished
deriving DecidableEq, Repr

/-- A place between the tokens of a source. -/
structure Cursor where
  /-- What comes next. -/
  ahead : Cursor.Ahead
  /-- What is left after that. -/
  lexer : Lexer
  /-- The length of the whole source. -/
  size : Nat

namespace Cursor

/-- The cursor before the next token of a lexer. -/
def pull (lexer : Lexer) (size : Nat) : Cursor :=
  match lexer.next with
  | (.token t, left) => ⟨.token t, left, size⟩
  | (.failure e, left) => ⟨.failed e, left, size⟩
  | (.done, left) => ⟨.finished, left, size⟩

/-- The cursor at the start of a source. -/
def ofSource (source : String) : Cursor := pull (.ofSource source) source.length

/-- The cursor after the token ahead. -/
def next (c : Cursor) : Cursor := pull c.lexer c.size

/-- The range of what is ahead; at the end of the source the empty range there. -/
def span (c : Cursor) : Span :=
  match c.ahead with
  | .token t => t.span
  | .failed e => e.span
  | .finished => ⟨c.size, c.size⟩

/-- A bound on the number of tokens ahead. -/
def unread (c : Cursor) : Nat :=
  match c.ahead with
  | .token _ => c.lexer.rest.length + 1
  | _ => 0

/-- A lexer has at most as many tokens as characters left. -/
theorem unread_pull_le (lexer : Lexer) (size : Nat) :
    (pull lexer size).unread ≤ lexer.rest.length := by
  unfold pull
  split
  · rename_i h
    have := Lexer.next_rest_length_lt h
    simp only [unread]
    omega
  all_goals simp [unread]

/-- Taking a token leaves fewer of them. -/
theorem unread_next_lt {c : Cursor} {t : Token} (h : c.ahead = .token t) :
    c.next.unread < c.unread := by
  have := unread_pull_le c.lexer c.size
  simp only [next, unread, h]
  simp only [unread] at this
  omega

end Cursor

/-- A computation that moves a cursor and may fail, keeping the cursor. -/
abbrev Reading := ExceptT ParseError (StateM Cursor)

namespace Reading

/-- The next token, without taking it; nothing at the end of the source. -/
def peek : Reading (Option Token) := fun c =>
  match c.ahead with
  | .token t => (.ok (some t), c)
  | .failed e => (.error (.lexer e), c)
  | .finished => (.ok none, c)

/-- Takes the next token. -/
def advance : Reading Token := fun c =>
  match c.ahead with
  | .token t => (.ok t, c.next)
  | .failed e => (.error (.lexer e), c)
  | .finished => (.error (.unexpectedEnd c.span), c)

/-- Whether the next token is of a kind that satisfies `p`. -/
def sees (p : Token.Kind → Bool) : Reading Bool := fun c =>
  match c.ahead with
  | .token t => (.ok (p t.kind), c)
  | .failed e => (.error (.lexer e), c)
  | .finished => (.ok false, c)

/-- Fails with an error about what is ahead. -/
def fail {α : Type} (error : Span → ParseError) : Reading α := fun c => (.error (error c.span), c)

variable {α β : Type}

/-- The computation never puts anything back. -/
def Shrinks (r : Reading α) : Prop := ∀ c, (r c).2.unread ≤ c.unread

/-- The computation never puts anything back, and takes a token whenever it succeeds. -/
def Consumes (r : Reading α) : Prop :=
  r.Shrinks ∧ ∀ c a, (r c).1 = .ok a → (r c).2.unread < c.unread

theorem Shrinks.unread_le {r : Reading α} (hr : r.Shrinks) {c d : Cursor}
    {result : Except ParseError α} (h : r c = (result, d)) : d.unread ≤ c.unread := by
  have hd := hr c
  rwa [h] at hd

theorem Consumes.unread_lt {r : Reading α} (hr : r.Consumes) {c d : Cursor} {a : α}
    (h : r c = (.ok a, d)) : d.unread < c.unread := by
  have hd := hr.2 c a (congrArg Prod.fst h)
  rwa [h] at hd

/-- The second computation starts where the first one stops, unless that fails. -/
theorem bind_apply (r : Reading α) (f : α → Reading β) (c : Cursor) :
    (r >>= f) c = match r c with
      | (.ok a, c) => f a c
      | (.error e, c) => (.error e, c) := by
  show ExceptT.bindCont f (r c).1 (r c).2 = _
  rcases r c with ⟨_ | _, _⟩ <;> rfl

theorem shrinks_pure (a : α) : Shrinks (pure a) := fun _ => Nat.le_refl _

theorem shrinks_fail (error : Span → ParseError) : Shrinks (fail error : Reading α) :=
  fun _ => Nat.le_refl _

theorem shrinks_sees (p : Token.Kind → Bool) : Shrinks (sees p) := by
  intro c
  unfold sees
  split <;> exact Nat.le_refl _

theorem consumes_advance : Consumes advance := by
  refine ⟨fun c => ?_, fun c a => ?_⟩ <;> unfold advance <;> split
  · exact Nat.le_of_lt (Cursor.unread_next_lt ‹_›)
  · exact Nat.le_refl _
  · exact Nat.le_refl _
  · exact fun _ => Cursor.unread_next_lt ‹_›
  all_goals simp

theorem Shrinks.bind {r : Reading α} {f : α → Reading β} (hr : r.Shrinks)
    (hf : ∀ a, (f a).Shrinks) : (r >>= f).Shrinks := by
  intro c
  rw [bind_apply]
  split
  · rename_i a d h
    exact Nat.le_trans (hf a d) (hr.unread_le h)
  · rename_i h
    exact hr.unread_le h

/-- A token is taken if the first of two computations takes one. -/
theorem Consumes.bind {r : Reading α} {f : α → Reading β} (hr : r.Consumes)
    (hf : ∀ a, (f a).Shrinks) : (r >>= f).Consumes := by
  refine ⟨hr.1.bind hf, fun c b => ?_⟩
  rw [bind_apply]
  split
  · rename_i a d h
    exact fun _ => Nat.lt_of_le_of_lt (hf a d) (hr.unread_lt h)
  · exact nofun

/-- It is also taken if the second one does. -/
theorem Shrinks.bind_consumes {r : Reading α} {f : α → Reading β} (hr : r.Shrinks)
    (hf : ∀ a, (f a).Consumes) : (r >>= f).Consumes := by
  refine ⟨hr.bind fun a => (hf a).1, fun c b => ?_⟩
  rw [bind_apply]
  split
  · rename_i a d h
    exact fun hb => Nat.lt_of_lt_of_le ((hf a).2 d b hb) (hr.unread_le h)
  · exact nofun

theorem Shrinks.ite {p : Prop} [Decidable p] {r s : Reading α} (hr : r.Shrinks)
    (hs : s.Shrinks) : (if p then r else s).Shrinks := by
  split <;> assumption

theorem Consumes.ite {p : Prop} [Decidable p] {r s : Reading α} (hr : r.Consumes)
    (hs : s.Consumes) : (if p then r else s).Consumes := by
  split <;> assumption

end Reading

end LetCalc
