import LetCalc.Session
import LetCalc.Proofs.Evaluation.History
import LetCalc.Proofs.Scope.Persistence

/-!
# What sessions keep

Whatever is asked of a session, its scopes stay well formed and what is bound in them persists.
Evaluations are no exception, also those that fail after some changes.

* `Forest.grows_of_steps`, `Program.grows_evaluate`: an evaluation leaves a forest that has grown,
  since every single change lets the forest grow.
* `Session.grows_step`, `Session.grows_steps`: so do one request and any sequence of them.
* `Session.bindings_persist`: the scopes of a session at any time, and those at a later time.
-/

namespace LetCalc

open Relation (ReflTransGen)

theorem Forest.grows_of_steps {scope : Nat} {targets : List Scalar} {f g : Forest}
    (hsteps : ReflTransGen (Forest.Step scope targets) f g) : f.Grows g := by
  induction hsteps with
  | refl => exact .refl f
  | tail _ hstep ih =>
    cases hstep with
    | declare h => exact ih.trans (Forest.grows_of_declare h)
    | assign _ h => exact ih.trans (Forest.grows_of_assign h)

namespace Program

/-- An evaluation leaves a forest that has grown, whether it ends with a value or stops. -/
theorem grows_evaluate (level : Int) (scope : Nat) (program : Program) (forest : Forest) :
    forest.Grows (program.evaluate level scope forest).forest :=
  Forest.grows_of_steps (program.steps_evaluate level scope forest)

theorem grows_run (level : Int) (scope : Nat) (source : String) (forest : Forest) :
    forest.Grows (Program.run level scope source forest).2.1 := by
  unfold Program.run
  cases Program.parse source with
  | error e => exact .refl forest
  | ok program => exact program.grows_evaluate level scope forest

end Program

namespace Session

/-- Only inside a scope that exists can there be a new one. -/
def admits (s : Session) : Request → Bool
  | .child scope => scope < s.forest.scopes.length
  | _ => true

/-- Every request of a sequence is admitted when its turn comes. -/
def admitsAll (s : Session) : List Request → Bool
  | [] => true
  | request :: rest => s.admits request && (s.step request).session.admitsAll rest

theorem grows_bind (s : Session) (value : Value) {result : Except EvalError Forest}
    (hresult : ∀ forest, result = .ok forest → s.forest.Grows forest) :
    s.forest.Grows (s.bind value result).session.forest := by
  cases result with
  | error e => exact .refl s.forest
  | ok forest => exact hresult forest rfl

/-- One request. -/
theorem grows_step {s : Session} {request : Request} (hadmits : s.admits request) :
    s.forest.Grows (s.step request).session.forest := by
  cases request with
  | root => exact s.forest.grows_addRoot
  | child scope => exact Forest.grows_addChild (of_decide_eq_true hadmits)
  | declare scope name value isConst =>
    exact s.grows_bind value fun _ => Forest.grows_of_declare
  | assign scope name value => exact s.grows_bind value fun _ => Forest.grows_of_assign
  | declareConstants scope => exact s.forest.grows_declareAll scope Scope.constants
  | run scope source level => exact Program.grows_run level scope source s.forest
  | parse source =>
    simp only [step]
    cases Program.parse source with
    | error e => exact .refl s.forest
    | ok program => exact .refl s.forest
  | evaluate program scope level =>
    exact Program.grows_evaluate level scope ((s.programs[program]?).getD []) s.forest
  | lookup | resolve | isConst | bindings => exact .refl s.forest

/-- Any sequence of requests. -/
theorem grows_steps {s : Session} {requests : List Request} (hadmits : s.admitsAll requests) :
    s.forest.Grows (s.steps requests).2.forest := by
  induction requests generalizing s with
  | nil => exact .refl s.forest
  | cons request rest ih =>
    obtain ⟨hrequest, hrest⟩ := Bool.and_eq_true_iff.1 hadmits
    exact (grows_step hrequest).trans (ih hrest)

/-- After any requests the scopes of a session are well formed, and after any further ones they
persist. The session has no scopes at its start, but it may have any programs, which need not be
parsed from a source text. -/
theorem bindings_persist (programs : List Program) (earlier later : List Request)
    (hearlier : admitsAll ⟨.empty, programs⟩ earlier)
    (hlater : (steps ⟨.empty, programs⟩ earlier).2.admitsAll later) :
    (steps ⟨.empty, programs⟩ earlier).2.forest.WellFormed ∧
      (steps ⟨.empty, programs⟩ earlier).2.forest.Persists
        ((steps ⟨.empty, programs⟩ earlier).2.steps later).2.forest := by
  obtain ⟨hwellFormed, -⟩ := grows_steps hearlier Forest.wellFormed_empty
  obtain ⟨-, hpersists⟩ := grows_steps hlater hwellFormed
  exact ⟨hwellFormed, hpersists⟩

/-- A source text declares `x` inside an outermost scope and fails to assign to `true`. Afterwards
a program declares `y` as an operand, gives `x` a new value and fails on `y + x`. -/
theorem bindings_persist_faults :
    let programs : List Program := [[.binary .add
      (.declaration (.scalar (.text "y")) true (.identifier (.scalar (.text "true"))))
      (.assignment (.identifier (.scalar (.text "x"))) .null)]]
    let s := (steps ⟨.empty, programs⟩ [.root, .child 0, .run 1 "let x = false; true = x; x" 0]).2
    let t := (s.steps [.evaluate 0 1 0, .child 1]).2
    s.forest.bindings 1 = [⟨.text "x", .boolean false, false⟩] ∧
      t.forest.bindings 1 = [⟨.text "x", .null, false⟩, ⟨.text "y", .boolean true, true⟩] ∧
      s.forest.WellFormed ∧ s.forest.Persists t.forest := by
  intro programs s t
  refine ⟨by decide +kernel, by decide +kernel, ?_⟩
  exact bindings_persist programs _ _ (by decide +kernel) (by decide +kernel)

end Session

end LetCalc
