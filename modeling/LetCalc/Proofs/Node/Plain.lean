import LetCalc.Proofs.Parser.Correctness

/-!
# Plain programs

A program is plain if its names are texts and no program stands inside it. Programs that were parsed
are plain (`Program.isPlain_of_parse`); other programs can be written down as documents only. It is
sound if nothing in it is out of place where it is evaluated, which is weaker
(`Node.IsPlain.isSound`): names can be other scalars, and what is assigned to no name is not looked
at.
-/

namespace LetCalc

/-- A node whose names are texts, and with no program inside it. -/
inductive Node.IsPlain : Node → Prop
  | number (x : Binary64) : IsPlain (.number x)
  | null : IsPlain .null
  | identifier (name : String) : IsPlain (.identifier (.text name))
  | binary {op : Operator} {left right : Node} :
      IsPlain left → IsPlain right → IsPlain (.binary op left right)
  | assignment {target value : Node} :
      IsPlain target → IsPlain value → IsPlain (.assignment target value)
  | declaration (name : String) {isConst : Bool} {initializer : Node} :
      IsPlain initializer → IsPlain (.declaration (.text name) isConst initializer)

/-- A node with no collection for a name and no program where it is evaluated. -/
inductive Node.IsSound : Node → Prop
  | number (x : Binary64) : IsSound (.number x)
  | null : IsSound .null
  | identifier (name : Scalar) : IsSound (.identifier (.scalar name))
  | binary {op : Operator} {left right : Node} :
      IsSound left → IsSound right → IsSound (.binary op left right)
  | assignment (name : Scalar) {value : Node} :
      IsSound value → IsSound (.assignment (.identifier (.scalar name)) value)
  | invalidTarget {target : Node} (value : Node) :
      (∀ name, target ≠ .identifier name) → IsSound (.assignment target value)
  | declaration (name : Scalar) {isConst : Bool} {initializer : Node} :
      IsSound initializer → IsSound (.declaration (.scalar name) isConst initializer)

/-- A plain node is sound. What it assigns to is a name that is a text, or no name at all. -/
theorem Node.IsPlain.isSound {node : Node} (h : node.IsPlain) : node.IsSound := by
  induction h with
  | number x => exact .number x
  | null => exact .null
  | identifier name => exact .identifier (.text name)
  | binary _ _ ihl ihr => exact .binary ihl ihr
  | @assignment target value htarget _ _ ihv =>
    cases htarget with
    | identifier name => exact .assignment (.text name) ihv
    | _ => exact .invalidTarget value nofun
  | declaration name _ ih => exact .declaration (.text name) ih

/-- A program all of whose statements are plain. -/
def Program.IsPlain (program : Program) : Prop := ∀ statement ∈ program, statement.IsPlain

namespace Grammar

variable {ts rest : List Token} {node : Node}

theorem Primary.isPlain (h : Primary ts node rest) : node.IsPlain := by
  cases h with
  | number _ => exact .number _
  | name _ => exact .identifier _

/-- Operations between plain operands fold to a plain node. -/
theorem Operations.isPlain {Sign : Token.Kind → Operator → Prop}
    {Operand : List Token → Node → List Token → Prop}
    (hoperand : ∀ {ts node rest}, Operand ts node rest → node.IsPlain)
    {operations : List (Operator × Node)} (h : Operations Sign Operand ts operations rest)
    (hfirst : node.IsPlain) : (foldLeft node operations).IsPlain := by
  induction h generalizing node with
  | nil => exact hfirst
  | cons _ hright _ ih => exact ih (.binary hfirst (hoperand hright))

theorem Chain.isPlain {Sign : Token.Kind → Operator → Prop}
    {Operand : List Token → Node → List Token → Prop}
    (hoperand : ∀ {ts node rest}, Operand ts node rest → node.IsPlain)
    (h : Chain Sign Operand ts node rest) : node.IsPlain := by
  obtain ⟨first, us, operations, hfirst, hoperations, rfl⟩ := h
  exact hoperations.isPlain hoperand (hoperand hfirst)

theorem Additive.isPlain (h : Additive ts node rest) : node.IsPlain :=
  Chain.isPlain (Chain.isPlain Primary.isPlain) h

/-- Every expression is plain, at any depth of assignments. -/
theorem Assignment.isPlain (h : Assignment ts node rest) : node.IsPlain := by
  induction h with
  | plain h => exact Additive.isPlain h
  | assign htarget _ _ ih => exact .assignment (Additive.isPlain htarget) ih

/-- A declaration without a value gets the node for no value, which is plain. -/
theorem Declaration.isPlain (h : Declaration ts node rest) : node.IsPlain := by
  cases h with
  | empty _ _ _ => exact .declaration _ .null
  | valued _ _ _ hvalue _ => exact .declaration _ hvalue.isPlain

theorem Statement.isPlain (h : Statement ts node rest) : node.IsPlain := by
  cases h with
  | declaration h => exact h.isPlain
  | expression h => exact h.isPlain
  | terminated h _ => exact h.isPlain

/-- All statements that the grammar derives are plain. -/
theorem Statements.isPlain {program : Program} (h : Statements ts program) : program.IsPlain := by
  induction h with
  | nil => exact List.forall_mem_nil _
  | cons hstatement _ ih => exact List.forall_mem_cons.2 ⟨hstatement.isPlain, ih⟩

end Grammar

/-- A source text can only say plain programs. -/
theorem Program.isPlain_of_parse {source : String} {program : Program}
    (h : Program.parse source = .ok program) : program.IsPlain := by
  obtain ⟨ts, -, hstatements⟩ := exists_statements_of_parse h
  exact hstatements.isPlain

end LetCalc
