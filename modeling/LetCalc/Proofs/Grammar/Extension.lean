import LetCalc.Proofs.Grammar
import LetCalc.Proofs.Token.Spelling

/-!
# Programs one after the other

No rule of the grammar looks at the places of tokens, or at tokens after those it takes. So each
rule derives the same node from other tokens with the same words, whatever follows them (`Local`),
and the statements of two programs, one after the other, are those of one program
(`Statements.append`).
-/

namespace LetCalc

namespace Grammar

/-- A rule depends on the words of the tokens it takes, and on nothing after them. -/
def Local {α : Type} (Rule : List Token → α → List Token → Prop) : Prop :=
  ∀ ts a rest us more, Rule ts a rest → us.map Token.word = ts.map Token.word ++ more →
    ∃ rest', rest'.map Token.word = rest.map Token.word ++ more ∧ Rule us a rest'

variable {us ts : List Token} {t : Token} {more : List (Token.Kind × String)}

/-- The first of tokens with the same words. -/
theorem exists_cons_of_map_word (h : us.map Token.word = (t :: ts).map Token.word ++ more) :
    ∃ u us', us = u :: us' ∧ u.kind = t.kind ∧ u.text = t.text ∧
      us'.map Token.word = ts.map Token.word ++ more := by
  cases us with
  | nil => simp at h
  | cons u us' =>
    obtain ⟨hword, hrest⟩ := List.cons.inj h
    obtain ⟨hkind, htext⟩ := Prod.mk.inj hword
    exact ⟨u, us', rfl, hkind, htext, hrest⟩

theorem Primary.isLocal : Local Primary := by
  intro ts node rest us more h hus
  cases h with
  | number hkind =>
    obtain ⟨u, us, rfl, hu, -, hrest⟩ := exists_cons_of_map_word hus
    exact ⟨us, hrest, .number (hu.trans hkind)⟩
  | name hkind =>
    obtain ⟨u, us, rfl, hu, htext, hrest⟩ := exists_cons_of_map_word hus
    exact ⟨us, hrest, htext ▸ .name (hu.trans hkind)⟩

section Chains

variable {Sign : Token.Kind → Operator → Prop} {Operand : List Token → Node → List Token → Prop}

/-- Operations depend on what their operands depend on. -/
theorem Operations.isLocal (hoperand : Local Operand) : Local (Operations Sign Operand) := by
  intro ts operations rest us more h hus
  induction h generalizing us with
  | nil => exact ⟨us, hus, .nil⟩
  | cons hsign hnode _ ih =>
    obtain ⟨u, us, rfl, hu, -, hafter⟩ := exists_cons_of_map_word hus
    obtain ⟨vs, hvs, hnode'⟩ := hoperand _ _ _ us more hnode hafter
    obtain ⟨rest', hrest', hmore'⟩ := ih vs hvs
    exact ⟨rest', hrest', .cons (hu ▸ hsign) hnode' hmore'⟩

theorem Chain.isLocal (hoperand : Local Operand) : Local (Chain Sign Operand) := by
  rintro ts node rest us more ⟨first, vs, operations, hfirst, hoperations, rfl⟩ hus
  obtain ⟨vs', hvs', hfirst'⟩ := hoperand _ _ _ us more hfirst hus
  obtain ⟨rest', hrest', hoperations'⟩ :=
    Operations.isLocal hoperand _ _ _ vs' more hoperations hvs'
  exact ⟨rest', hrest', first, vs', operations, hfirst', hoperations', rfl⟩

end Chains

theorem Additive.isLocal : Local Additive := Chain.isLocal (Chain.isLocal Primary.isLocal)

/-- An expression ends where it did, whatever comes later. -/
theorem Assignment.isLocal : Local Assignment := by
  intro ts node rest us more h hus
  induction h generalizing us with
  | plain hsum =>
    obtain ⟨rest', hrest', hsum'⟩ := Additive.isLocal _ _ _ us more hsum hus
    exact ⟨rest', hrest', .plain hsum'⟩
  | assign htarget heq _ ih =>
    obtain ⟨vs, hvs, htarget'⟩ := Additive.isLocal _ _ _ us more htarget hus
    obtain ⟨eq', vs, rfl, heq', -, hafter⟩ := exists_cons_of_map_word hvs
    obtain ⟨rest', hrest', hvalue'⟩ := ih vs hafter
    exact ⟨rest', hrest', .assign htarget' (heq'.trans heq) hvalue'⟩

/-- A declaration keeps its keyword, its name and its value. -/
theorem Declaration.isLocal : Local Declaration := by
  intro ts node rest us more h hus
  cases h with
  | empty hkeyword hname hsemi =>
    obtain ⟨keyword', us, rfl, hkeyword', -, hus⟩ := exists_cons_of_map_word hus
    obtain ⟨name', us, rfl, hname', htext, hus⟩ := exists_cons_of_map_word hus
    obtain ⟨semi', us, rfl, hsemi', -, hus⟩ := exists_cons_of_map_word hus
    refine ⟨us, hus, htext ▸ .empty ?_ ?_ ?_⟩
    · exact hkeyword'.trans hkeyword
    · exact hname'.trans hname
    · exact hsemi'.trans hsemi
  | valued hkeyword hname heq hvalue hsemi =>
    obtain ⟨keyword', us, rfl, hkeyword', -, hus⟩ := exists_cons_of_map_word hus
    obtain ⟨name', us, rfl, hname', htext, hus⟩ := exists_cons_of_map_word hus
    obtain ⟨eq', us, rfl, heq', -, hus⟩ := exists_cons_of_map_word hus
    obtain ⟨vs, hvs, hvalue'⟩ := Assignment.isLocal _ _ _ us more hvalue hus
    obtain ⟨semi', vs, rfl, hsemi', -, hvs⟩ := exists_cons_of_map_word hvs
    refine ⟨vs, hvs, htext ▸ .valued ?_ ?_ ?_ hvalue' ?_⟩
    · rwa [hkeyword']
    · exact hname'.trans hname
    · exact heq'.trans heq
    · exact hsemi'.trans hsemi

/-- A statement is the same with other tokens of the same words. -/
theorem Statement.isLocal : Local Statement := by
  intro ts node rest us more h hus
  cases h with
  | declaration h =>
    obtain ⟨rest', hrest', h'⟩ := Declaration.isLocal _ _ _ us more h hus
    exact ⟨rest', hrest', .declaration h'⟩
  | expression h =>
    obtain ⟨rest', hrest', h'⟩ := Assignment.isLocal _ _ _ us more h hus
    exact ⟨rest', hrest', .expression h'⟩
  | terminated h hsemi =>
    obtain ⟨vs, hvs, h'⟩ := Assignment.isLocal _ _ _ us more h hus
    obtain ⟨semi', vs, rfl, hsemi', -, hvs⟩ := exists_cons_of_map_word hvs
    exact ⟨vs, hvs, .terminated h' (hsemi'.trans hsemi)⟩

/-- The words of a program, from whatever tokens they come. -/
def Derives (words : List (Token.Kind × String)) (program : Program) : Prop :=
  ∀ us : List Token, us.map Token.word = words → Statements us program

theorem derives_nil : Derives [] [] := by
  intro us hus
  rw [List.map_eq_nil_iff.1 hus]
  exact .nil

/-- The words of one program, and then those of another. -/
theorem Statements.append {program next : Program} (h : Statements ts program)
    (hnext : Derives more next) : Derives (ts.map Token.word ++ more) (program ++ next) := by
  induction h with
  | nil => exact hnext
  | cons hnode _ ih =>
    intro us hus
    -- The first statement is taken from the new tokens, and the others from what it leaves.
    obtain ⟨vs, hvs, hnode'⟩ := Statement.isLocal _ _ _ us more hnode hus
    exact .cons hnode' (ih vs hvs)

/-- The statements depend on words only. -/
theorem Statements.derives {program : Program} (h : Statements ts program) :
    Derives (ts.map Token.word) program := by
  have happend := h.append derives_nil
  rwa [List.append_nil, List.append_nil] at happend

end Grammar

end LetCalc
