import LetCalc.Proofs.Evaluation.History
import LetCalc.Proofs.Node.Plain
import LetCalc.Proofs.Scope.Lookup

/-!
# Why an evaluation stops

A plain program, such as any that was parsed, has a value or stops with one of five errors. The
errors about variables are true of the scopes as the evaluation leaves them: a name that is declared
twice is in the scope, a constant that is assigned to is one, and a name that is undefined is in no
scope around. Changes before the error do not matter, since nothing is changed after it is found.

* `EvalError.HoldsIn`: what an error says about the scopes.
* `Fault.Arises.holdsIn`: a fault that comes from a sound node is such an error.
* `Program.holdsIn_of_evaluate`: sound programs stop with such errors only.
* `evaluate_fault_holds`: the same for plain programs, and that parsed programs are plain.
-/

namespace LetCalc

/-- What an error of an evaluation in a scope says is so in a forest. No error says that an operator
is unknown. -/
inductive EvalError.HoldsIn (f : Forest) (scope : Nat) : EvalError → Prop
  /-- The scope itself has the name. -/
  | redeclared {name : Scalar} {b : Binding} :
      f.bindingIn? scope name.key = some b → HoldsIn f scope (.redeclared name)
  /-- The nearest scope with the name has it as a constant. -/
  | constantAssigned {name : Scalar} {owner : Nat} {b : Binding} :
      f.resolve scope name = some owner → f.bindingIn? owner name.key = some b →
        b.isConst = true → HoldsIn f scope (.constantAssigned name)
  /-- Neither the scope nor one around it has the name. -/
  | undefined {name : Scalar} :
      (∀ i ∈ f.chain scope, f.bindingIn? i name.key = none) → HoldsIn f scope (.undefined name)
  | invalidTarget (nodeType : String) : HoldsIn f scope (.invalidTarget nodeType)
  | unsupportedOperands (symbol left right : String) :
      HoldsIn f scope (.unsupportedOperands symbol left right)

/-- The only mistake in an operation is a wrong type of an operand. -/
theorem Value.exists_of_combine_eq_error {op : Operator} {a b : Value} {e : EvalError}
    (h : Value.combine op.symbol a b = .error e) :
    ∃ left right, e = .unsupportedOperands op.symbol left right := by
  unfold Value.combine at h
  split at h
  · simp at h
  · simp at h
  · -- The symbol is that of an operator, so that the operator is found.
    simp at h
  · exact ⟨_, _, (Except.error.inj h).symm⟩

namespace Forest

variable {f : Forest} {scope : Nat} {name : Scalar} {value : Value} {isConst : Bool} {e : EvalError}

theorem holdsIn_of_declare (h : f.declare scope name value isConst = .error e) :
    e.HoldsIn f scope := by
  obtain ⟨hsome, rfl⟩ := declare_eq_error_iff.1 h
  obtain ⟨b, hb⟩ := Option.isSome_iff_exists.1 hsome
  exact .redeclared hb

theorem holdsIn_of_assign (h : f.assign scope name value = .error e) : e.HoldsIn f scope := by
  rcases assign_eq_error_iff.1 h with ⟨hnone, rfl⟩ | ⟨hconst, rfl⟩
  · exact .undefined (resolve_eq_none_iff.1 hnone)
  · -- A constant is bound somewhere, and the nearest scope with the name decides.
    rw [Forest.isConst, binding?_eq_bind] at hconst
    cases hresolve : f.resolve scope name with
    | none => simp [hresolve] at hconst
    | some owner =>
      obtain ⟨hsome, -⟩ := resolve_eq_some_iff.1 hresolve
      obtain ⟨b, hb⟩ := Option.isSome_iff_exists.1 hsome
      exact .constantAssigned hresolve hb (by simpa [hresolve, hb] using hconst)

end Forest

/-! ## Sound nodes -/

/-- Whatever an evaluation of a sound node can come to is sound. -/
theorem Node.IsSound.of_mem_reached {node part : Node} (h : node.IsSound)
    (hpart : part ∈ node.reached) : part.IsSound := by
  induction node using Node.eval_induction with
  | binary op left right ihl ihr =>
    rcases List.mem_cons.1 hpart with rfl | hinside
    · exact h
    · cases h with
      | binary hleft hright => exact (List.mem_append.1 hinside).elim (ihl hleft) (ihr hright)
  | declaration document isConst initializer ih =>
    rcases List.mem_cons.1 hpart with rfl | hinside
    · exact h
    · cases h with
      | declaration name hinitializer => exact ih hinitializer hinside
  | assignment document value ih =>
    rcases List.mem_cons.1 hpart with rfl | hinside
    · exact h
    · cases h with
      | assignment name hvalue => exact ih hvalue hinside
      | invalidTarget _ htarget => exact absurd rfl (htarget document)
  | invalidTarget target value htarget _ =>
    rw [reached] at hpart
    · obtain rfl := List.mem_singleton.1 hpart
      exact h
    all_goals simp_all
  | _ =>
    obtain rfl := List.mem_singleton.1 hpart
    exact h

/-- The document of a sound node is a name. -/
theorem Node.IsSound.exists_scalar {node : Node} {document : Json} (h : node.IsSound)
    (hdocument : node.document? = some document) : ∃ name, document = .scalar name := by
  cases h with
  | identifier name => exact ⟨name, (Option.some.inj hdocument).symm⟩
  | declaration name _ => exact ⟨name, (Option.some.inj hdocument).symm⟩
  | assignment name _ => exact ⟨name, (Option.some.inj hdocument).symm⟩
  | @invalidTarget target value htarget =>
    cases target with
    | identifier document => exact absurd rfl (htarget document)
    | _ => cases hdocument
  | _ => cases hdocument

/-- A fault that comes from sound nodes is a mistake, and true of the scopes. -/
theorem Fault.Arises.holdsIn {scope : Nat} {parts : List Node} {f : Forest} {fault : Fault}
    (h : fault.Arises scope parts f) (hsound : ∀ part ∈ parts, part.IsSound) :
    ∃ e : EvalError, fault = .error e ∧ e.HoldsIn f scope := by
  cases h with
  | declared _ hdeclare => exact ⟨_, rfl, Forest.holdsIn_of_declare hdeclare⟩
  | assigned _ hassign => exact ⟨_, rfl, Forest.holdsIn_of_assign hassign⟩
  | computed _ hcombine =>
    obtain ⟨left, right, rfl⟩ := Value.exists_of_combine_eq_error hcombine
    exact ⟨_, rfl, .unsupportedOperands ..⟩
  | invalidTarget _ _ => exact ⟨_, rfl, .invalidTarget _⟩
  | compoundName hpart hdocument hcompound =>
    obtain ⟨name, rfl⟩ := (hsound _ hpart).exists_scalar hdocument
    exact absurd rfl (hcompound name)
  | nestedProgram hpart => cases hsound _ hpart

namespace Program

variable {program : Program} {level : Int} {scope : Nat} {forest : Forest} {fault : Fault}

/-- A sound program stops with mistakes only, which hold in the scopes it leaves. -/
theorem holdsIn_of_evaluate (hsound : ∀ statement ∈ program, statement.IsSound)
    (h : (program.evaluate level scope forest).result = .error fault) :
    ∃ e : EvalError, fault = .error e ∧
      e.HoldsIn (program.evaluate level scope forest).forest scope := by
  obtain ⟨events, hevents⟩ := program.performs_evaluate level scope forest
  refine (hevents.arises fault h).holdsIn fun part hpart => ?_
  obtain ⟨statement, hstatement, hpart⟩ := List.mem_flatMap.1 hpart
  exact (hsound statement hstatement).of_mem_reached hpart

theorem IsPlain.holdsIn_of_evaluate (hplain : program.IsPlain)
    (h : (program.evaluate level scope forest).result = .error fault) :
    ∃ e : EvalError, fault = .error e ∧
      e.HoldsIn (program.evaluate level scope forest).forest scope :=
  Program.holdsIn_of_evaluate (fun _ hstatement => (hplain _ hstatement).isSound) h

end Program

/-- Programs that were parsed are plain, and every plain program has a value or stops with an error
that holds in the scopes it leaves: the scope has a name that is redeclared, the nearest scope with
a constant that is assigned to has it as a constant, and no scope around has a name that is
undefined. The other errors are about the target of an assignment and the types of operands. -/
theorem evaluate_fault_holds (level : Int) (scope : Nat) (program : Program) (forest : Forest) :
    (∀ source, Program.parse source = .ok program → program.IsPlain) ∧
      (program.IsPlain →
        (∃ value, (program.evaluate level scope forest).result = .ok value) ∨
          ∃ e : EvalError, (program.evaluate level scope forest).result = .error (.error e) ∧
            e.HoldsIn (program.evaluate level scope forest).forest scope) := by
  refine ⟨fun source => Program.isPlain_of_parse, fun hplain => ?_⟩
  cases hresult : (program.evaluate level scope forest).result with
  | ok value => exact .inl ⟨value, rfl⟩
  | error fault =>
    obtain ⟨e, rfl, he⟩ := hplain.holdsIn_of_evaluate hresult
    exact .inr ⟨e, rfl, he⟩

/-- The constant `a` is declared by the very program that fails to assign to it. -/
theorem evaluate_fault_holds_constant :
    ∃ program, Program.parse "const a = true; let b = a; a = b" = .ok program ∧
      (program.evaluate 2 0 .single).result = .error (.error (.constantAssigned (.text "a"))) ∧
      EvalError.HoldsIn (program.evaluate 2 0 .single).forest 0
        (.constantAssigned (.text "a")) := by
  obtain ⟨program, hparse⟩ : ∃ program, Program.parse "const a = true; let b = a; a = b" =
      .ok program := exists_of_isOk_parse (by decide +kernel)
  have hresult : (program.evaluate 2 0 .single).result =
      .error (.error (.constantAssigned (.text "a"))) := by
    have h : (Program.parse "const a = true; let b = a; a = b").toOption.map
        (fun p => (p.evaluate 2 0 .single).result) =
          some (.error (.error (.constantAssigned (.text "a")))) := by decide +kernel
    simpa [hparse, Except.toOption] using h
  obtain ⟨hplain, hfault⟩ := evaluate_fault_holds 2 0 program .single
  obtain ⟨value, hvalue⟩ | ⟨e, he, hholds⟩ := hfault (hplain _ hparse)
  · rw [hresult] at hvalue
    cases hvalue
  · obtain rfl : EvalError.constantAssigned (.text "a") = e := by simpa [hresult] using he
    exact ⟨program, hparse, hresult, hholds⟩

end LetCalc
