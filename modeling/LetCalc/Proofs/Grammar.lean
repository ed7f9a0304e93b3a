import LetCalc.Node
import LetCalc.Token

/-!
# The grammar of programs

The token sequences that are programs, each with its tree. A rule relates the tokens it is given
to the node it makes of the first of them and to the tokens that are left; no rule looks at what
is left.

    program        := statement*
    statement      := declaration | assignment ';'?
    declaration    := 'let' NAME ';' | ('let' | 'const') NAME '=' assignment ';'
    assignment     := additive ('=' assignment)?
    additive       := multiplicative (('+' | '-') multiplicative)*
    multiplicative := primary (('*' | '/') primary)*
    primary        := NUMBER | NAME

Statements need no separator, so that a rule alone does not say where it ends. `Unambiguous` says
that it is settled by the kind of the token that follows. In a program the token after a statement
is one that cannot continue it, whence `Statements.unique`: a token sequence has at most one tree.
-/

namespace LetCalc

namespace Grammar

/-- The operators of products and quotients. -/
inductive ProductSign : Token.Kind → Operator → Prop
  | star : ProductSign .star .mul
  | slash : ProductSign .slash .div

/-- The operators of sums and differences. -/
inductive SumSign : Token.Kind → Operator → Prop
  | plus : SumSign .plus .add
  | minus : SumSign .minus .sub

/-- The keywords of declarations, and whether they declare constants. -/
inductive Keyword : Token.Kind → Bool → Prop
  | letKeyword : Keyword .letKeyword false
  | constKeyword : Keyword .constKeyword true

/-- A number or a variable. -/
inductive Primary : List Token → Node → List Token → Prop
  | number {t : Token} {x : Binary64} {rest : List Token} :
      t.kind = .number x → Primary (t :: rest) (.number x) rest
  | name {t : Token} {rest : List Token} :
      t.kind = .identifier → Primary (t :: rest) (.identifier (.text t.text)) rest

section Chains

variable (Sign : Token.Kind → Operator → Prop) (Operand : List Token → Node → List Token → Prop)

/-- `(sign operand)*`: any number of operations that wait for the operand on their left. -/
inductive Operations : List Token → List (Operator × Node) → List Token → Prop
  | nil {rest : List Token} : Operations rest [] rest
  | cons {t : Token} {op : Operator} {node : Node} {ts us rest : List Token}
      {more : List (Operator × Node)} :
      Sign t.kind op → Operand ts node us → Operations us more rest →
        Operations (t :: ts) ((op, node) :: more) rest

/-- Operations carried out on a first operand, folded to the left. -/
def foldLeft (first : Node) (operations : List (Operator × Node)) : Node :=
  operations.foldl (fun left (op, right) => .binary op left right) first

/-- `operand (sign operand)*`, folded to the left. -/
def Chain (ts : List Token) (node : Node) (rest : List Token) : Prop :=
  ∃ first us operations, Operand ts first us ∧ Operations Sign Operand us operations rest ∧
    node = foldLeft first operations

end Chains

/-- A chain of products and quotients. -/
def Multiplicative : List Token → Node → List Token → Prop := Chain ProductSign Primary

/-- A chain of sums and differences. -/
def Additive : List Token → Node → List Token → Prop := Chain SumSign Multiplicative

/-- An expression, possibly assigned to the one before it. -/
inductive Assignment : List Token → Node → List Token → Prop
  | plain {ts rest : List Token} {node : Node} : Additive ts node rest → Assignment ts node rest
  | assign {ts us rest : List Token} {eq : Token} {target value : Node} :
      Additive ts target (eq :: us) → eq.kind = .equals → Assignment us value rest →
        Assignment ts (.assignment target value) rest

/-- A declaration. Only a variable can be declared without a value. -/
inductive Declaration : List Token → Node → List Token → Prop
  | empty {keyword name semi : Token} {rest : List Token} :
      keyword.kind = .letKeyword → name.kind = .identifier → semi.kind = .semicolon →
        Declaration (keyword :: name :: semi :: rest)
          (.declaration (.text name.text) false .null) rest
  | valued {keyword name eq semi : Token} {isConst : Bool} {ts rest : List Token} {value : Node} :
      Keyword keyword.kind isConst → name.kind = .identifier → eq.kind = .equals →
        Assignment ts value (semi :: rest) → semi.kind = .semicolon →
          Declaration (keyword :: name :: eq :: ts)
            (.declaration (.text name.text) isConst value) rest

/-- A declaration, or an expression that may end with a semicolon. -/
inductive Statement : List Token → Node → List Token → Prop
  | declaration {ts rest : List Token} {node : Node} :
      Declaration ts node rest → Statement ts node rest
  | expression {ts rest : List Token} {node : Node} :
      Assignment ts node rest → Statement ts node rest
  | terminated {ts rest : List Token} {semi : Token} {node : Node} :
      Assignment ts node (semi :: rest) → semi.kind = .semicolon → Statement ts node rest

/-- A whole program: statements up to the last token. -/
inductive Statements : List Token → Program → Prop
  | nil : Statements [] []
  | cons {ts us : List Token} {node : Node} {rest : Program} :
      Statement ts node us → Statements us rest → Statements ts (node :: rest)

/-! ## Where a rule ends -/

/-- The tokens do not start with one of the given kinds. -/
def Ends (Continues : Token.Kind → Prop) (ts : List Token) : Prop :=
  ∀ t us, ts = t :: us → ¬ Continues t.kind

/-- Two derivations from the same tokens are the same, provided that neither is followed by a token
that continues it. -/
def Unambiguous (Rule : List Token → Node → List Token → Prop) (Continues : Token.Kind → Prop) :
    Prop :=
  ∀ ts a b r s, Rule ts a r → Rule ts b s → Ends Continues r → Ends Continues s → a = b ∧ r = s

/-- The kinds that continue a chain: those that continue its last operand, and its operators. -/
def ContinuesChain (Sign : Token.Kind → Operator → Prop) (Inner : Token.Kind → Prop)
    (k : Token.Kind) : Prop :=
  Inner k ∨ ∃ op, Sign k op

/-- The kinds that continue a chain of products. -/
def ContinuesProduct : Token.Kind → Prop := ContinuesChain ProductSign fun _ => False

/-- The kinds that continue a chain of sums. -/
def ContinuesSum : Token.Kind → Prop := ContinuesChain SumSign ContinuesProduct

/-- The kinds that continue an expression. -/
def ContinuesAssignment (k : Token.Kind) : Prop := ContinuesSum k ∨ k = .equals

/-- The kinds that continue a statement. -/
def ContinuesStatement (k : Token.Kind) : Prop := ContinuesAssignment k ∨ k = .semicolon

/-- What fewer kinds of tokens continue ends at more of them. -/
theorem Ends.mono {P Q : Token.Kind → Prop} {ts : List Token} (h : Ends Q ts)
    (hPQ : ∀ k, P k → Q k) : Ends P ts :=
  fun t us hts hP => h t us hts (hPQ _ hP)

theorem ends_cons {P : Token.Kind → Prop} {t : Token} {ts : List Token} :
    Ends P (t :: ts) ↔ ¬ P t.kind := by
  simp [Ends]

theorem ends_nil (P : Token.Kind → Prop) : Ends P [] := by
  simp [Ends]

/-- A sum is continued by the four signs. -/
theorem continuesSum_iff {k : Token.Kind} :
    ContinuesSum k ↔ k = .star ∨ k = .slash ∨ k = .plus ∨ k = .minus := by
  constructor
  · rintro ((h | ⟨op, hop⟩) | ⟨op, hop⟩)
    · exact h.elim
    · cases hop <;> simp
    · cases hop <;> simp
  · rintro (rfl | rfl | rfl | rfl)
    · exact .inl (.inr ⟨_, .star⟩)
    · exact .inl (.inr ⟨_, .slash⟩)
    · exact .inr ⟨_, .plus⟩
    · exact .inr ⟨_, .minus⟩

theorem ProductSign.unique {k : Token.Kind} {op op' : Operator} (h : ProductSign k op)
    (h' : ProductSign k op') : op = op' := by
  cases h <;> cases h' <;> rfl

theorem SumSign.unique {k : Token.Kind} {op op' : Operator} (h : SumSign k op)
    (h' : SumSign k op') : op = op' := by
  cases h <;> cases h' <;> rfl

/-- The sign of a sum ends the product before it. -/
theorem SumSign.not_continuesProduct {k : Token.Kind} {op : Operator} (h : SumSign k op) :
    ¬ ContinuesProduct k := by
  rintro (hf | ⟨op', h'⟩)
  · exact hf
  · cases h <;> cases h'

theorem Keyword.unique {k : Token.Kind} {b b' : Bool} (h : Keyword k b) (h' : Keyword k b') :
    b = b' := by
  cases h <;> cases h' <;> rfl

theorem Keyword.eq_true_iff {k : Token.Kind} {isConst : Bool} (h : Keyword k isConst) :
    k = .constKeyword ↔ isConst = true := by
  cases h <;> simp

theorem Keyword.eq_letKeyword {k : Token.Kind} (h : Keyword k false) : k = .letKeyword := by
  cases h
  rfl

/-! ## Unambiguity, rule by rule -/

/-- An operand is one token, whatever follows. -/
theorem Primary.unambiguous : Unambiguous Primary fun _ => False := by
  intro ts a b r s ha hb _ _
  cases ha with
  | number h =>
    cases hb with
    | number h' => simp_all
    | name h' => simp_all
  | name h =>
    cases hb with
    | number h' => simp_all
    | name h' => exact ⟨rfl, rfl⟩

section Chains

variable {Sign : Token.Kind → Operator → Prop} {Operand : List Token → Node → List Token → Prop}
variable {Inner : Token.Kind → Prop}

/-- Operations start with an operator, so that they end the operand before them. -/
theorem Operations.ends_inner (hdisjoint : ∀ k op, Sign k op → ¬ Inner k) {ts rest : List Token}
    {operations : List (Operator × Node)} (h : Operations Sign Operand ts operations rest)
    (hrest : Ends (ContinuesChain Sign Inner) rest) : Ends Inner ts := by
  cases h with
  | nil => exact hrest.mono fun _ => .inl
  | cons hsign _ _ => exact ends_cons.2 (hdisjoint _ _ hsign)

/-- The operations of a chain are determined by their tokens, up to where the chain ends. -/
theorem Operations.unique (hsign : ∀ k op op', Sign k op → Sign k op' → op = op')
    (hdisjoint : ∀ k op, Sign k op → ¬ Inner k) (hoperand : Unambiguous Operand Inner)
    {ts r s : List Token} {a b : List (Operator × Node)} (ha : Operations Sign Operand ts a r)
    (hb : Operations Sign Operand ts b s) (hr : Ends (ContinuesChain Sign Inner) r)
    (hs : Ends (ContinuesChain Sign Inner) s) : a = b ∧ r = s := by
  induction ha generalizing b with
  | nil =>
    cases hb with
    | nil => exact ⟨rfl, rfl⟩
    | cons hop _ _ => exact (ends_cons.1 hr (.inr ⟨_, hop⟩)).elim
  | cons hop hnode hmore ih =>
    cases hb with
    | nil => exact (ends_cons.1 hs (.inr ⟨_, hop⟩)).elim
    | cons hop' hnode' hmore' =>
      have hops := hsign _ _ _ hop hop'
      -- What follows an operand is an operator or the end of the chain; neither continues it.
      obtain ⟨hnodes, hus⟩ := hoperand _ _ _ _ _ hnode hnode' (hmore.ends_inner hdisjoint hr)
        (hmore'.ends_inner hdisjoint hs)
      subst hops hnodes hus
      obtain ⟨rfl, rfl⟩ := ih hmore' hr
      exact ⟨rfl, rfl⟩

theorem Chain.unambiguous (hsign : ∀ k op op', Sign k op → Sign k op' → op = op')
    (hdisjoint : ∀ k op, Sign k op → ¬ Inner k) (hoperand : Unambiguous Operand Inner) :
    Unambiguous (Chain Sign Operand) (ContinuesChain Sign Inner) := by
  rintro ts a b r s ⟨first, us, operations, hfirst, hops, rfl⟩
    ⟨first', us', operations', hfirst', hops', rfl⟩ hr hs
  obtain ⟨rfl, rfl⟩ := hoperand _ _ _ _ _ hfirst hfirst' (hops.ends_inner hdisjoint hr)
    (hops'.ends_inner hdisjoint hs)
  obtain ⟨rfl, rfl⟩ := hops.unique hsign hdisjoint hoperand hops' hr hs
  exact ⟨rfl, rfl⟩

end Chains

theorem Multiplicative.unambiguous : Unambiguous Multiplicative ContinuesProduct :=
  Chain.unambiguous (fun _ _ _ => ProductSign.unique) (fun _ _ _ => id) Primary.unambiguous

theorem Additive.unambiguous : Unambiguous Additive ContinuesSum :=
  Chain.unambiguous (fun _ _ _ => SumSign.unique) (fun _ _ => SumSign.not_continuesProduct)
    Multiplicative.unambiguous

/-- An equals sign ends the expression before it. -/
theorem ends_sum_of_equals {eq : Token} {ts : List Token} (h : eq.kind = .equals) :
    Ends ContinuesSum (eq :: ts) := by
  simp [ends_cons, continuesSum_iff, h]

/-- An expression is determined by its tokens. -/
theorem Assignment.unambiguous : Unambiguous Assignment ContinuesAssignment := by
  intro ts a b r s ha hb hr hs
  have hsum : ∀ us, Ends ContinuesAssignment us → Ends ContinuesSum us :=
    fun _ h => h.mono fun _ => .inl
  induction ha generalizing b with
  | plain ha =>
    cases hb with
    | plain hb => exact Additive.unambiguous _ _ _ _ _ ha hb (hsum _ hr) (hsum _ hs)
    | assign hb heq hv =>
      obtain ⟨-, rfl⟩ :=
        Additive.unambiguous _ _ _ _ _ ha hb (hsum _ hr) (ends_sum_of_equals heq)
      exact (ends_cons.1 hr (.inr heq)).elim
  | assign ha heq hv ih =>
    cases hb with
    | plain hb =>
      obtain ⟨-, rfl⟩ :=
        Additive.unambiguous _ _ _ _ _ ha hb (ends_sum_of_equals heq) (hsum _ hs)
      exact (ends_cons.1 hs (.inr heq)).elim
    | assign hb heq' hv' =>
      obtain ⟨rfl, hrest⟩ := Additive.unambiguous _ _ _ _ _ ha hb (ends_sum_of_equals heq)
        (ends_sum_of_equals heq')
      obtain ⟨rfl, rfl⟩ := List.cons.inj hrest
      obtain ⟨rfl, rfl⟩ := ih _ hv' hr
      exact ⟨rfl, rfl⟩

/-! ## How a rule starts -/

/-- The kinds of operands. -/
def IsOperand (k : Token.Kind) : Prop := (∃ x, k = .number x) ∨ k = .identifier

/-- An operand is a single token. -/
theorem Primary.eq_cons {ts rest : List Token} {node : Node} (h : Primary ts node rest) :
    ∃ t, IsOperand t.kind ∧ ts = t :: rest := by
  cases h with
  | number h => exact ⟨_, .inl ⟨_, h⟩, rfl⟩
  | name h => exact ⟨_, .inr h, rfl⟩

/-- An expression starts with an operand. -/
theorem Assignment.eq_cons {ts rest : List Token} {node : Node} (h : Assignment ts node rest) :
    ∃ t us, IsOperand t.kind ∧ ts = t :: us := by
  have hsum : ∀ {ts rest node}, Additive ts node rest →
      ∃ t us, IsOperand t.kind ∧ ts = t :: us := by
    rintro ts rest node ⟨_, _, _, ⟨_, _, _, hfirst, _, _⟩, _, _⟩
    obtain ⟨t, ht, rfl⟩ := hfirst.eq_cons
    exact ⟨t, _, ht, rfl⟩
  cases h with
  | plain h => exact hsum h
  | assign h _ _ => exact hsum h

/-- A declaration starts with a keyword. -/
theorem Declaration.eq_cons {ts rest : List Token} {node : Node} (h : Declaration ts node rest) :
    ∃ t us isConst, Keyword t.kind isConst ∧ ts = t :: us := by
  cases h with
  | empty hkeyword _ _ => exact ⟨_, _, false, hkeyword ▸ .letKeyword, rfl⟩
  | valued hkeyword _ _ _ _ => exact ⟨_, _, _, hkeyword, rfl⟩

/-- The first token tells expressions and declarations apart. -/
theorem IsOperand.not_keyword {k : Token.Kind} (h : IsOperand k) (isConst : Bool) :
    ¬ Keyword k isConst := by
  rintro (_ | _) <;> simp [IsOperand] at h

/-- The first token tells a declaration from an expression. -/
theorem Declaration.not_assignment {ts r s : List Token} {a b : Node} (h : Declaration ts a r) :
    ¬ Assignment ts b s := by
  intro h'
  obtain ⟨t, us, isConst, hkeyword, rfl⟩ := h.eq_cons
  obtain ⟨t', us', hoperand, hcons⟩ := h'.eq_cons
  obtain ⟨rfl, rfl⟩ := List.cons.inj hcons
  exact hoperand.not_keyword isConst hkeyword

/-! ## Unambiguity of programs -/

/-- A semicolon ends the expression before it. -/
theorem ends_assignment_of_semicolon {semi : Token} {ts : List Token}
    (h : semi.kind = .semicolon) : Ends ContinuesAssignment (semi :: ts) := by
  simp [ends_cons, ContinuesAssignment, continuesSum_iff, h]

/-- A declaration is settled without a look at what follows it. -/
theorem Declaration.unique {ts r s : List Token} {a b : Node} (ha : Declaration ts a r)
    (hb : Declaration ts b s) : a = b ∧ r = s := by
  cases ha with
  | empty hkeyword hname hsemi =>
    cases hb with
    | empty _ _ _ => exact ⟨rfl, rfl⟩
    | valued _ _ heq _ _ => simp_all
  | valued hkeyword hname heq hvalue hsemi =>
    cases hb with
    | empty _ _ hsemi' => simp_all
    | valued hkeyword' _ _ hvalue' hsemi' =>
      obtain ⟨rfl, hrest⟩ := Assignment.unambiguous _ _ _ _ _ hvalue hvalue'
        (ends_assignment_of_semicolon hsemi) (ends_assignment_of_semicolon hsemi')
      obtain ⟨rfl, rfl⟩ := List.cons.inj hrest
      obtain rfl := hkeyword.unique hkeyword'
      exact ⟨rfl, rfl⟩

/-- A statement is determined by its tokens. -/
theorem Statement.unambiguous : Unambiguous Statement ContinuesStatement := by
  intro ts a b r s ha hb hr hs
  have hassign : ∀ us, Ends ContinuesStatement us → Ends ContinuesAssignment us :=
    fun _ h => h.mono fun _ => .inl
  cases ha with
  | declaration ha =>
    cases hb with
    | declaration hb => exact ha.unique hb
    | expression hb => exact (ha.not_assignment hb).elim
    | terminated hb _ => exact (ha.not_assignment hb).elim
  | expression ha =>
    cases hb with
    | declaration hb => exact (hb.not_assignment ha).elim
    | expression hb => exact Assignment.unambiguous _ _ _ _ _ ha hb (hassign _ hr) (hassign _ hs)
    | terminated hb hsemi =>
      obtain ⟨-, rfl⟩ := Assignment.unambiguous _ _ _ _ _ ha hb (hassign _ hr)
        (ends_assignment_of_semicolon hsemi)
      exact (ends_cons.1 hr (.inr hsemi)).elim
  | terminated ha hsemi =>
    cases hb with
    | declaration hb => exact (hb.not_assignment ha).elim
    | expression hb =>
      obtain ⟨-, rfl⟩ := Assignment.unambiguous _ _ _ _ _ ha hb
        (ends_assignment_of_semicolon hsemi) (hassign _ hs)
      exact (ends_cons.1 hs (.inr hsemi)).elim
    | terminated hb hsemi' =>
      obtain ⟨rfl, hrest⟩ := Assignment.unambiguous _ _ _ _ _ ha hb
        (ends_assignment_of_semicolon hsemi) (ends_assignment_of_semicolon hsemi')
      exact ⟨rfl, (List.cons.inj hrest).2⟩

/-- A statement starts with an operand or a keyword. -/
theorem Statement.eq_cons {ts rest : List Token} {node : Node} (h : Statement ts node rest) :
    ∃ t us, (IsOperand t.kind ∨ ∃ isConst, Keyword t.kind isConst) ∧ ts = t :: us := by
  cases h with
  | declaration h =>
    obtain ⟨t, us, isConst, ht, hts⟩ := h.eq_cons
    exact ⟨t, us, .inr ⟨isConst, ht⟩, hts⟩
  | expression h =>
    obtain ⟨t, us, ht, hts⟩ := h.eq_cons
    exact ⟨t, us, .inl ht, hts⟩
  | terminated h _ =>
    obtain ⟨t, us, ht, hts⟩ := h.eq_cons
    exact ⟨t, us, .inl ht, hts⟩

/-- No statement of a program starts with a token that could continue the one before it. -/
theorem Statements.ends {ts : List Token} {program : Program} (h : Statements ts program) :
    Ends ContinuesStatement ts := by
  cases h with
  | nil => exact ends_nil _
  | cons hstatement _ =>
    obtain ⟨t, us, ht, rfl⟩ := hstatement.eq_cons
    rw [ends_cons]
    rcases ht with (⟨x, hx⟩ | hx) | ⟨isConst, hkeyword⟩
    · simp [ContinuesStatement, ContinuesAssignment, continuesSum_iff, hx]
    · simp [ContinuesStatement, ContinuesAssignment, continuesSum_iff, hx]
    · generalize t.kind = k at hkeyword
      cases hkeyword <;> simp [ContinuesStatement, ContinuesAssignment, continuesSum_iff]

/-- A token sequence has at most one tree. -/
theorem Statements.unique {ts : List Token} {p q : Program} (hp : Statements ts p)
    (hq : Statements ts q) : p = q := by
  induction hp generalizing q with
  | nil =>
    cases hq with
    | nil => rfl
    | cons hnode _ =>
      obtain ⟨t, us, -, hts⟩ := hnode.eq_cons
      exact absurd hts (List.cons_ne_nil t us).symm
  | cons hnode hrest ih =>
    cases hq with
    | nil =>
      obtain ⟨t, us, -, hts⟩ := hnode.eq_cons
      exact absurd hts (List.cons_ne_nil t us).symm
    | cons hnode' hrest' =>
      obtain ⟨rfl, rfl⟩ := Statement.unambiguous _ _ _ _ _ hnode hnode' hrest.ends hrest'.ends
      rw [ih hrest']

end Grammar

end LetCalc
