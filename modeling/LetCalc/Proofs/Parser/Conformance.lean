import LetCalc.Node.Parser
import LetCalc.Proofs.Grammar.Position
import LetCalc.Proofs.Token.Upcoming

/-!
# What the rules of the parser read

Every rule is followed through the positions of the grammar. `Conforms p c Ok` says of the result
of a rule, used at the cursor `c` in the position `p`, that the tokens it took are moves, and that

* a success satisfies `Ok`, for the position reached, the node and the cursor afterwards;
* a failure is blamed on what is ahead of the cursor, where the next token is no move
  (`Blames`).

The rules of expressions satisfy `Parses`: they build a tree of the grammar and stop only where it
cannot be continued. `conforms_program` is the statement for whole programs.
-/

namespace LetCalc

open Grammar

/-- The tokens between two cursors are moves between two positions. -/
structure Walk (p : Position) (c : Cursor) (q : Position) (d : Cursor) : Prop where
  /-- The tokens in between are taken off in order. -/
  run_eq : ∃ ts, c.upcoming = ts ++ d.upcoming ∧ p.run ts = some q
  /-- The tokens end as before. -/
  failure_eq : d.failure = c.failure
  /-- Both cursors are in the same source. -/
  size_eq : d.size = c.size

namespace Walk

variable {p q r : Position} {c d f : Cursor}

theorem refl (p : Position) (c : Cursor) : Walk p c p c := ⟨⟨[], rfl, rfl⟩, rfl, rfl⟩

theorem trans (h : Walk p c q d) (h' : Walk q d r f) : Walk p c r f := by
  obtain ⟨ts, hts, hp⟩ := h.run_eq
  obtain ⟨us, hus, hq⟩ := h'.run_eq
  refine ⟨⟨ts ++ us, ?_, ?_⟩, h'.failure_eq.trans h.failure_eq, h'.size_eq.trans h.size_eq⟩
  · rw [hts, hus, List.append_assoc]
  · rw [Position.run_append, hp, Option.bind_some, hq]

/-- Taking a token is a walk of one move. -/
theorem of_token {t : Token} (h : c.ahead = .token t) (hp : p.next t.kind = some q) :
    Walk p c q c.next := by
  refine ⟨⟨[t], Cursor.upcoming_of_token h, ?_⟩, (Cursor.failure_of_token h).symm, c.size_next⟩
  simp [hp]

end Walk

/-- The error is about what is ahead of the cursor, and nothing there continues or ends a program
from the position. -/
structure Blames (p : Position) (c : Cursor) (e : ParseError) : Prop where
  /-- The error is where the cursor is. -/
  span_eq : e.span = c.span
  /-- A failure of the lexer is passed on, and no other error is taken for one. -/
  lexer_iff : ∀ f, e = .lexer f ↔ c.ahead = .failed f
  /-- A token is blamed only if it is no move. -/
  of_token : ∀ t, c.ahead = .token t → p.next t.kind = none
  /-- The end of the source is blamed only if a program cannot end here. -/
  of_finished : c.ahead = .finished → p.isFinal = false

/-- A failure of the lexer is blamed in any position. -/
theorem blames_lexer {p : Position} {c : Cursor} {f : LexError} (h : c.ahead = .failed f) :
    Blames p c (.lexer f) := by
  constructor <;> simp [ParseError.span, Cursor.span, h]

/-- The result of a reading at `c` in position `p` follows the grammar. -/
def Conforms {α : Type} (p : Position) (c : Cursor) (Ok : Position → α → Cursor → Prop) :
    Except ParseError α × Cursor → Prop
  | (.ok a, d) => ∃ q, Walk p c q d ∧ Ok q a d
  | (.error e, d) => ∃ q, Walk p c q d ∧ Blames q d e

namespace Conforms

variable {α β : Type} {p q : Position} {c d : Cursor} {t : Token}
variable {Ok : Position → α → Cursor → Prop} {Ok' : Position → β → Cursor → Prop}

/-- Tokens taken before a reading do not matter to it. -/
theorem of_walk (h : Walk p c q d) {result : Except ParseError α × Cursor}
    (hresult : Conforms q d Ok result) : Conforms p c Ok result := by
  rcases result with ⟨e | a, f⟩
  · obtain ⟨r, h', hblames⟩ := hresult
    exact ⟨r, h.trans h', hblames⟩
  · obtain ⟨r, h', hok⟩ := hresult
    exact ⟨r, h.trans h', hok⟩

theorem mono {Ok' : Position → α → Cursor → Prop} {result : Except ParseError α × Cursor}
    (hresult : Conforms p c Ok result) (h : ∀ q a d, Ok q a d → Ok' q a d) :
    Conforms p c Ok' result := by
  rcases result with ⟨e | a, d⟩
  · exact hresult
  · obtain ⟨q, hw, hok⟩ := hresult
    exact ⟨q, hw, h q a d hok⟩

/-- Readings one after the other follow the grammar if the second one does from where the first one
stops. -/
theorem bind {r : Reading α} {f : α → Reading β} (hr : Conforms p c Ok (r c))
    (hf : ∀ q a d, Walk p c q d → Ok q a d → Conforms q d Ok' (f a d)) :
    Conforms p c Ok' ((r >>= f) c) := by
  rw [Reading.bind_apply]
  rcases h : r c with ⟨e | a, d⟩
  · rw [h] at hr
    exact hr
  · rw [h] at hr
    obtain ⟨q, hw, hok⟩ := hr
    exact of_walk hw (hf q a d hw hok)

theorem pure {a : α} (h : Ok p a c) : Conforms p c Ok ((Pure.pure a : Reading α) c) :=
  ⟨p, .refl p c, h⟩

/-- The token ahead is taken, which is a move. -/
theorem advance_bind {f : Token → Reading α} (h : c.ahead = .token t)
    (hp : p.next t.kind = some q) (hf : Conforms q c.next Ok (f t c.next)) :
    Conforms p c Ok ((Reading.advance >>= f) c) := by
  have hadvance : Reading.advance c = (.ok t, c.next) := by
    unfold Reading.advance
    rw [h]
  rw [Reading.bind_apply, hadvance]
  exact of_walk (.of_token h hp) hf

/-- A look at the token ahead decides how to go on; a failure of the lexer comes up. -/
theorem ite_sees {kinds : Token.Kind → Bool} {r s : Reading α}
    (hyes : ∀ t, c.ahead = .token t → kinds t.kind = true → Conforms p c Ok (r c))
    (hno : (∀ f, c.ahead ≠ .failed f) → (∀ t, c.ahead = .token t → kinds t.kind = false) →
      Conforms p c Ok (s c)) :
    Conforms p c Ok ((do if ← Reading.sees kinds then r else s : Reading α) c) := by
  rw [Reading.bind_apply, Reading.sees]
  cases h : c.ahead with
  | token t =>
    cases hk : kinds t.kind with
    | true => simpa [hk] using hyes t h hk
    | false => simpa [hk] using hno (by simp [h]) (by simp [h, hk])
  | failed f => exact ⟨p, .refl p c, blames_lexer h⟩
  | finished => simpa using hno (by simp [h]) (by simp [h])

/-- A reading fails on purpose where the token ahead is no move and the program cannot end. -/
theorem fail {error : Span → ParseError} (hspan : ∀ s, (error s).span = s)
    (hlexer : ∀ s f, error s ≠ .lexer f) (hfailed : ∀ f, c.ahead ≠ .failed f)
    (htoken : ∀ t, c.ahead = .token t → p.next t.kind = none) (hfinal : p.isFinal = false) :
    Conforms p c Ok (Reading.fail error c) :=
  ⟨p, .refl p c, hspan _, fun f => iff_of_false (hlexer _ f) (hfailed f), htoken, fun _ => hfinal⟩

end Conforms

/-! ## Expressions -/

/-- An operand is expected at the cursor, and nothing else. -/
structure Expects (p : Position) (declares : Bool) (c : Cursor) : Prop where
  next_eq : ∀ t, c.ahead = .token t → p.next t.kind = (Position.operand declares).next t.kind
  isFinal_eq : c.ahead = .finished → p.isFinal = false

theorem expects_operand (declares : Bool) (c : Cursor) : Expects (.operand declares) declares c :=
  ⟨fun _ _ => rfl, fun _ => rfl⟩

/-- A reading builds a tree of an expression rule and stops where it cannot be continued. -/
def Parses (Rule : List Token → Node → List Token → Prop) (Continues : Token.Kind → Prop)
    (r : Reading Node) : Prop :=
  ∀ declares p c, Expects p declares c →
    Conforms p c (fun q node d => q = .operator declares ∧ Rule c.upcoming node d.upcoming ∧
      Ends Continues d.upcoming) (r c)

theorem Parses.conforms_of_eq {Rule : List Token → Node → List Token → Prop}
    {Continues : Token.Kind → Prop} {r : Reading Node} (hr : Parses Rule Continues r)
    {declares : Bool} {p : Position} {c : Cursor} (hc : Expects p declares c)
    {result : Except ParseError Node × Cursor} (h : r c = result) :
    Conforms p c (fun q node d => q = .operator declares ∧ Rule c.upcoming node d.upcoming ∧
      Ends Continues d.upcoming) result :=
  h ▸ hr declares p c hc

/-- An operand is a number or a name, and nothing continues it. -/
theorem parses_primary : Parses Primary (fun _ => False) Reading.primary := by
  intro declares p c hc
  unfold Reading.primary
  split
  · rename_i f h
    exact ⟨p, .refl p c, blames_lexer h⟩
  · rename_i h
    refine ⟨p, .refl p c, rfl, ?_, ?_, hc.isFinal_eq⟩ <;> simp [h]
  · rename_i t h
    have hnext := hc.next_eq t h
    have hupcoming := Cursor.upcoming_of_token h
    -- A token that is no operand is blamed with its own span, which is that of the cursor.
    have hrefuse : ∀ e : ParseError, e.span = t.span → (∀ f, e ≠ .lexer f) →
        ¬ IsOperand t.kind → Blames p c e := by
      intro e hspan hlexer hoperand
      refine ⟨?_, fun f => iff_of_false (hlexer f) (by simp [h]), ?_, by simp [h]⟩
      · rw [hspan, Cursor.span, h]
      · intro t' h'
        obtain rfl : t = t' := by simpa [h] using h'
        rw [hnext, Option.eq_none_iff_forall_ne_some]
        intro q hq
        exact hoperand (Position.next_operand.1 hq).1
    split
    · rename_i x hk
      have hmove := hnext.trans (Position.next_operand.2 ⟨.inl ⟨x, hk⟩, rfl⟩)
      refine ⟨_, .of_token h hmove, rfl, ?_, ?_⟩
      · rw [hupcoming]
        exact .number hk
      · exact fun _ _ _ => id
    · rename_i hk
      have hmove := hnext.trans (Position.next_operand.2 ⟨.inr hk, rfl⟩)
      refine ⟨_, .of_token h hmove, rfl, ?_, ?_⟩
      · rw [hupcoming]
        exact .name hk
      · exact fun _ _ _ => id
    · rename_i hk
      exact ⟨p, .refl p c, hrefuse _ rfl (by simp) (by simp [IsOperand, hk])⟩
    · rename_i hk
      exact ⟨p, .refl p c, hrefuse _ rfl (by simp) (by simp [IsOperand, hk])⟩
    · rename_i hnumber hname _ _
      refine ⟨p, .refl p c, hrefuse _ rfl (by simp) ?_⟩
      rintro (⟨x, hk⟩ | hk)
      · exact hnumber x hk
      · exact hname hk

section Chains

variable {Sign : Token.Kind → Operator → Prop} {Operand : List Token → Node → List Token → Prop}
variable {Inner : Token.Kind → Prop} {operator? : Token.Kind → Option Operator}
variable {operand : Reading Node}

/-- The loop over the operations of a chain, from the position after its first operand. -/
theorem conforms_chain (hsign : ∀ k op, operator? k = some op ↔ Sign k op)
    (hmove : ∀ k op, Sign k op → ContinuesAssignment k) (hoperand : Parses Operand Inner operand)
    (shrinks : operand.Shrinks) (declares : Bool) (left : Node) (c : Cursor)
    (hc : Ends Inner c.upcoming) :
    Conforms (.operator declares) c (fun q node d => q = .operator declares ∧
      (∃ operations, Operations Sign Operand c.upcoming operations d.upcoming ∧
        node = foldLeft left operations) ∧ Ends (ContinuesChain Sign Inner) d.upcoming)
      (Reading.chain operator? operand shrinks left c) := by
  have hmoves : ∀ (t : Token) op, operator? t.kind = some op →
      (Position.operator declares).next t.kind = some (.operand declares) := fun t op hop =>
    Position.next_operator.2 (.inl ⟨hmove _ _ ((hsign _ _).1 hop), rfl⟩)
  -- Every round starts after an operand, at a token that does not continue that operand.
  induction left, c using Reading.chain_induction operator? shrinks with
  | failed left c f h =>
    rw [Reading.chain_of_failed h]
    exact ⟨_, .refl _ c, blames_lexer h⟩
  | finished left c h =>
    rw [Reading.chain_of_finished h]
    refine ⟨_, .refl _ c, rfl, ⟨[], .nil, rfl⟩, ?_⟩
    rw [Cursor.upcoming_of_finished h]
    exact ends_nil _
  | other left c t h hop =>
    rw [Reading.chain_of_other h hop]
    refine ⟨_, .refl _ c, rfl, ⟨[], .nil, rfl⟩, ?_⟩
    rw [Cursor.upcoming_of_token h, ends_cons] at hc ⊢
    rintro (hk | ⟨op, hk⟩)
    · exact hc hk
    · simp [(hsign _ _).2 hk] at hop
  | refused left c t h op hop e d hr =>
    have hnext := hmoves t op hop
    rw [Reading.chain_of_refused h hop hr]
    exact Conforms.of_walk (.of_token h hnext) (hoperand.conforms_of_eq (expects_operand _ _) hr)
  | operation left c t h op hop right d hr ih =>
    have hnext := hmoves t op hop
    rw [Reading.chain_of_operation h hop hr]
    obtain ⟨q, hw, rfl, hright, hends⟩ := hoperand.conforms_of_eq (expects_operand declares _) hr
    refine Conforms.of_walk ((Walk.of_token h hnext).trans hw) ((ih hends).mono ?_)
    rintro q node f ⟨rfl, ⟨operations, hoperations, rfl⟩, hf⟩
    refine ⟨rfl, ⟨(op, right) :: operations, ?_, rfl⟩, hf⟩
    rw [Cursor.upcoming_of_token h]
    exact .cons ((hsign _ _).1 hop) hright hoperations

/-- A chain follows the grammar if its operands do. -/
theorem parses_chain (hsign : ∀ k op, operator? k = some op ↔ Sign k op)
    (hmove : ∀ k op, Sign k op → ContinuesAssignment k) (hoperand : Parses Operand Inner operand)
    (shrinks : operand.Shrinks) :
    Parses (Chain Sign Operand) (ContinuesChain Sign Inner)
      (do Reading.chain operator? operand shrinks (← operand)) := by
  intro declares p c hc
  refine (hoperand declares p c hc).bind ?_
  rintro q first d - ⟨rfl, hfirst, hends⟩
  refine (conforms_chain hsign hmove hoperand shrinks declares first d hends).mono ?_
  rintro q node f ⟨rfl, ⟨operations, hoperations, rfl⟩, hf⟩
  exact ⟨rfl, ⟨first, d.upcoming, operations, hfirst, hoperations, rfl⟩, hf⟩

end Chains

/-- The operators of products are those of the grammar. -/
theorem multiplicativeOperator?_eq_some_iff (k : Token.Kind) (op : Operator) :
    Reading.multiplicativeOperator? k = some op ↔ ProductSign k op := by
  constructor
  · intro h
    cases k <;>
      simp only [Reading.multiplicativeOperator?, Option.some.injEq, reduceCtorEq] at h <;> subst h
    · exact .star
    · exact .slash
  · rintro (_ | _) <;> rfl

/-- So are those of sums. -/
theorem additiveOperator?_eq_some_iff (k : Token.Kind) (op : Operator) :
    Reading.additiveOperator? k = some op ↔ SumSign k op := by
  constructor
  · intro h
    cases k <;>
      simp only [Reading.additiveOperator?, Option.some.injEq, reduceCtorEq] at h <;> subst h
    · exact .plus
    · exact .minus
  · rintro (_ | _) <;> rfl

theorem parses_multiplicative :
    Parses Multiplicative ContinuesProduct Reading.multiplicative :=
  parses_chain multiplicativeOperator?_eq_some_iff (fun _ op h => .inl (.inl (.inr ⟨op, h⟩)))
    parses_primary _

theorem parses_additive : Parses Additive ContinuesSum Reading.additive :=
  parses_chain additiveOperator?_eq_some_iff (fun _ op h => .inl (.inr ⟨op, h⟩))
    parses_multiplicative _

/-- An assignment nests to the right, up to a token that continues none of its parts. -/
theorem parses_assignment : Parses Assignment ContinuesAssignment Reading.assignment := by
  intro declares p c hc
  have hequals : ∀ t : Token, t.kind = .equals →
      (Position.operator declares).next t.kind = some (.operand declares) := fun t hk =>
    Position.next_operator.2 (.inl ⟨.inr hk, rfl⟩)
  induction c using Reading.assignment_induction generalizing p with
  | refused c e d hl =>
    rw [Reading.assignment_of_refused hl]
    exact parses_additive.conforms_of_eq hc hl
  | failed c left d hl f h =>
    rw [Reading.assignment_of_failed hl h]
    obtain ⟨q, hw, -⟩ := parses_additive.conforms_of_eq hc hl
    exact ⟨q, hw, blames_lexer h⟩
  | finished c left d hl h =>
    rw [Reading.assignment_of_finished hl h]
    obtain ⟨q, hw, rfl, hleft, -⟩ := parses_additive.conforms_of_eq hc hl
    refine ⟨_, hw, rfl, .plain hleft, ?_⟩
    rw [Cursor.upcoming_of_finished h]
    exact ends_nil _
  | valueRefused c left d hl t h hk e f hv ih =>
    rw [Reading.assignment_of_valueRefused hl h hk hv]
    obtain ⟨q, hw, rfl, hleft, -⟩ := parses_additive.conforms_of_eq hc hl
    have hvalue := ih _ (expects_operand declares d.next)
    rw [hv] at hvalue
    exact Conforms.of_walk (hw.trans (.of_token h (hequals t hk))) hvalue
  | assigned c left d hl t h hk value f hv ih =>
    rw [Reading.assignment_of_assigned hl h hk hv]
    obtain ⟨q, hw, rfl, hleft, -⟩ := parses_additive.conforms_of_eq hc hl
    have hvalue := ih _ (expects_operand declares d.next)
    rw [hv] at hvalue
    obtain ⟨q, hw', rfl, hright, hends⟩ := hvalue
    rw [Cursor.upcoming_of_token h] at hleft
    have hwalk := (hw.trans (.of_token h (hequals t hk))).trans hw'
    exact ⟨_, hwalk, rfl, .assign hleft hk hright, hends⟩
  | other c left d hl t h hk =>
    rw [Reading.assignment_of_other hl h hk]
    obtain ⟨q, hw, rfl, hleft, hends⟩ := parses_additive.conforms_of_eq hc hl
    refine ⟨_, hw, rfl, .plain hleft, ?_⟩
    rw [Cursor.upcoming_of_token h, ends_cons] at hends ⊢
    rintro (hsum | heq)
    · exact hends hsum
    · exact hk heq

/-! ## Statements and programs -/

/-- A new statement can start at the cursor, and nothing else. -/
structure Resumes (p : Position) (c : Cursor) : Prop where
  next_eq : ∀ t, c.ahead = .token t → p.next t.kind = Position.first t.kind
  isFinal_eq : p.isFinal = true

theorem resumes_start (c : Cursor) : Resumes .start c := ⟨fun _ _ => rfl, rfl⟩

/-- A declaration follows the grammar from its keyword to its semicolon. -/
theorem conforms_declaration {p : Position} {c : Cursor} {t : Token} {isConst : Bool}
    (h : c.ahead = .token t) (hp : Resumes p c) (ht : Keyword t.kind isConst) :
    Conforms p c (fun q node d => Declaration c.upcoming node d.upcoming ∧ Resumes q d)
      (Reading.declaration c) := by
  have hkeyword : p.next t.kind = some (.keyword isConst) :=
    (hp.next_eq t h).trans (Position.first_eq_some_iff.2 (.inl ⟨isConst, ht, rfl⟩))
  refine .advance_bind h hkeyword (.ite_sees ?_ ?_)
  · -- The name follows.
    intro name hname hk
    have hidentifier : name.kind = .identifier := of_decide_eq_true hk
    refine .advance_bind hname (Position.next_keyword.2 ⟨hidentifier, rfl⟩) (.ite_sees ?_ ?_)
    · -- The declaration ends without a value, which only a variable may.
      intro semi hsemi hk
      have hsemicolon : semi.kind = .semicolon := of_decide_eq_true hk
      split
      · rename_i hconst
        refine .fail (fun _ => rfl) (by simp) (by simp [hsemi]) ?_ rfl
        intro t' h'
        obtain rfl : semi = t' := by simpa [hsemi] using h'
        rw [hsemicolon, ht.eq_true_iff.1 hconst]
        rfl
      · rename_i hconst
        obtain rfl : isConst = false := by simpa [ht.eq_true_iff] using hconst
        refine .advance_bind hsemi (Position.next_name.2 (.inl ⟨hsemicolon, rfl, rfl⟩))
          (.pure ⟨?_, resumes_start _⟩)
        rw [Cursor.upcoming_of_token h, Cursor.upcoming_of_token hname,
          Cursor.upcoming_of_token hsemi]
        exact .empty ht.eq_letKeyword hidentifier hsemicolon
    · intro hfailed hnosemi
      refine .ite_sees ?_ ?_
      · -- A value follows.
        intro eq heq hk
        have hequals : eq.kind = .equals := of_decide_eq_true hk
        refine .advance_bind heq (Position.next_name.2 (.inr ⟨hequals, rfl⟩))
          ((parses_assignment true _ _ (expects_operand true _)).bind ?_)
        rintro q value d - ⟨rfl, hvalue, hends⟩
        refine .ite_sees ?_ ?_
        · intro semi hsemi hk
          have hsemicolon : semi.kind = .semicolon := of_decide_eq_true hk
          refine .advance_bind hsemi (Position.next_operator.2 (.inr (.inl ⟨hsemicolon, rfl⟩)))
            (.pure ⟨?_, resumes_start _⟩)
          have hconst : decide (t.kind = .constKeyword) = isConst := by simp [ht.eq_true_iff]
          rw [Cursor.upcoming_of_token h, Cursor.upcoming_of_token hname,
            Cursor.upcoming_of_token heq, hconst]
          rw [Cursor.upcoming_of_token hsemi] at hvalue
          exact .valued ht hidentifier hequals hvalue hsemicolon
        · intro hfailed hnosemi
          refine .fail (fun _ => rfl) (by simp) hfailed ?_ rfl
          intro t' h'
          rw [Cursor.upcoming_of_token h', ends_cons] at hends
          exact Position.next_operator_eq_none hends (of_decide_eq_false (hnosemi t' h'))
      · intro _ hnoequals
        refine .fail (fun _ => rfl) (by simp) hfailed ?_ rfl
        intro t' h'
        exact Position.next_name_eq_none (of_decide_eq_false (hnosemi t' h'))
          (of_decide_eq_false (hnoequals t' h'))
  · intro hfailed hk
    refine .fail (fun _ => rfl) (by simp) hfailed ?_ rfl
    intro t' h'
    exact Position.next_keyword_eq_none (of_decide_eq_false (hk t' h'))

/-- A statement follows the grammar, and a new one can start after it. -/
theorem conforms_statement {p : Position} {c : Cursor} {t : Token} (h : c.ahead = .token t)
    (hp : Resumes p c) :
    Conforms p c (fun q node d => Statement c.upcoming node d.upcoming ∧ Resumes q d)
      (Reading.statement c) := by
  refine .ite_sees ?_ ?_
  · intro t' h' hk
    obtain rfl : t = t' := by simpa [h] using h'
    have ht : ∃ isConst, Keyword t.kind isConst := by
      rcases Bool.or_eq_true_iff.1 hk with hk | hk
      · exact ⟨false, of_decide_eq_true hk ▸ .letKeyword⟩
      · exact ⟨true, of_decide_eq_true hk ▸ .constKeyword⟩
    obtain ⟨isConst, ht⟩ := ht
    refine (conforms_declaration h hp ht).mono ?_
    rintro q node d ⟨hnode, hq⟩
    exact ⟨.declaration hnode, hq⟩
  · intro _ hk
    -- Without a keyword only an operand can start a statement.
    have hexpects : Expects p false c := by
      refine ⟨fun t' h' => ?_, by simp [h]⟩
      rw [hp.next_eq t' h']
      exact Position.first_eq_next_operand (by simpa using hk t' h')
    refine (parses_assignment false p c hexpects).bind ?_
    rintro q node d - ⟨rfl, hnode, hends⟩
    refine .ite_sees ?_ ?_
    · intro semi hsemi hk
      have hsemicolon : semi.kind = .semicolon := of_decide_eq_true hk
      refine .advance_bind hsemi (Position.next_operator.2 (.inr (.inl ⟨hsemicolon, rfl⟩)))
        (.pure ⟨?_, resumes_start _⟩)
      rw [Cursor.upcoming_of_token hsemi] at hnode
      exact .terminated hnode hsemicolon
    · intro _ hnosemi
      refine .pure ⟨.expression hnode, fun t' h' => ?_, rfl⟩
      rw [Cursor.upcoming_of_token h', ends_cons] at hends
      exact Position.next_operator_eq_first hends (of_decide_eq_false (hnosemi t' h'))

/-- The statements of a program, from a position where a new one can start. -/
theorem conforms_program {p : Position} {c : Cursor} (hp : Resumes p c) :
    Conforms p c (fun _ program d => Statements c.upcoming program ∧ d.ahead = .finished)
      (Reading.program c) := by
  -- A statement can leave the parser in either final position, so the position has to vary.
  induction c using Reading.program_induction generalizing p with
  | failed c f h =>
    rw [Reading.program_of_failed h]
    exact ⟨p, .refl p c, blames_lexer h⟩
  | finished c h =>
    rw [Reading.program_of_finished h]
    refine ⟨p, .refl p c, ?_, h⟩
    rw [Cursor.upcoming_of_finished h]
    exact .nil
  | refused c t h e d hs =>
    rw [Reading.program_of_refused h hs]
    have hd := conforms_statement h hp
    rw [hs] at hd
    exact hd
  | restRefused c t h node d hs e f hrest ih =>
    rw [Reading.program_of_restRefused h hs hrest]
    have hd := conforms_statement h hp
    rw [hs] at hd
    obtain ⟨q, hw, -, hq⟩ := hd
    have hf := ih hq
    rw [hrest] at hf
    exact Conforms.of_walk hw hf
  | more c t h node d hs rest f hrest ih =>
    rw [Reading.program_of_more h hs hrest]
    have hd := conforms_statement h hp
    rw [hs] at hd
    obtain ⟨q, hw, hnode, hq⟩ := hd
    have hf := ih hq
    rw [hrest] at hf
    obtain ⟨r, hw', hstatements, hfinished⟩ := hf
    exact ⟨r, hw.trans hw', .cons hnode hstatements, hfinished⟩

end LetCalc
