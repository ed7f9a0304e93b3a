import LetCalc.Proofs.Evaluation.Relation
import LetCalc.Proofs.Scope.Lookup
import Mathlib.Data.List.Basic

/-!
# What an evaluation can see of its scope

Two scopes, which may be of different forests, agree on a name if it has the same value in both, is
a constant in both or in neither, and is declared in both of these very scopes or in neither. Where
the name is bound otherwise does not matter, nor how many scopes are around and what else is bound
there. An evaluation cannot tell scopes apart that agree on the names it uses.

* `Forest.Agree`: agreement on a name.
* `Forest.Agree.declare`, `Forest.Agree.assign`: the same change on both sides keeps it.
* `Run.stepsRelate_agreeing`: so does every step of an evaluation.
* `evaluate_eq_of_agree`: evaluations in scopes that agree.
-/

namespace LetCalc

namespace Forest

variable {f g f' g' : Forest} {scope scope' : Nat} {name other : Scalar} {value : Value}
  {isConst : Bool}

/-- A scope of a forest agrees with a scope of another forest on a name. -/
structure Agree (f : Forest) (scope : Nat) (g : Forest) (scope' : Nat) (name : Scalar) : Prop where
  /-- It has the same value. -/
  lookup_eq : f.lookup scope name = g.lookup scope' name
  /-- It is a constant in both or in neither. -/
  isConst_eq : f.isConst scope name = g.isConst scope' name
  /-- It is declared in both scopes themselves, or in neither. -/
  declared_eq : (f.bindingIn? scope name.key).isSome = (g.bindingIn? scope' name.key).isSome

instance : Decidable (f.Agree scope g scope' name) :=
  decidable_of_iff
    (f.lookup scope name = g.lookup scope' name ∧ f.isConst scope name = g.isConst scope' name ∧
      (f.bindingIn? scope name.key).isSome = (g.bindingIn? scope' name.key).isSome)
    ⟨fun ⟨hlookup, hconst, hdeclared⟩ => ⟨hlookup, hconst, hdeclared⟩,
      fun h => ⟨h.lookup_eq, h.isConst_eq, h.declared_eq⟩⟩

/-- The same declaration on both sides keeps the agreement on every name. -/
theorem Agree.declare (hscope : scope < f.scopes.length) (hscope' : scope' < g.scopes.length)
    (hf : f.declare scope name value isConst = .ok f')
    (hg : g.declare scope' name value isConst = .ok g') (h : f.Agree scope g scope' other) :
    f'.Agree scope g' scope' other := by
  obtain ⟨hlookup, hconst, hdeclared⟩ := h
  unfold lookup at hlookup
  unfold Forest.isConst at hconst
  by_cases hkey : other.key = name.key
  · constructor <;> simp [lookup, Forest.isConst, binding?_declare hscope hf,
      binding?_declare hscope' hg, bindingIn?_declare hscope hf, bindingIn?_declare hscope' hg,
      hkey]
  · constructor
    · simpa [lookup, binding?_declare hscope hf, binding?_declare hscope' hg, hkey] using hlookup
    · simpa [Forest.isConst, binding?_declare hscope hf, binding?_declare hscope' hg, hkey]
        using hconst
    · simpa [bindingIn?_declare hscope hf, bindingIn?_declare hscope' hg, hkey] using hdeclared

/-- The same assignment on both sides keeps the agreement on every name. The two values may be set
in scopes at different distances. -/
theorem Agree.assign (hf : f.assign scope name value = .ok f')
    (hg : g.assign scope' name value = .ok g') (h : f.Agree scope g scope' other) :
    f'.Agree scope g' scope' other := by
  obtain ⟨hlookup, hconst, hdeclared⟩ := h
  unfold lookup at hlookup
  unfold Forest.isConst at hconst
  constructor
  · unfold lookup
    rw [binding?_assign hf, binding?_assign hg]
    by_cases hkey : other.key = name.key
    · -- The new value shows wherever there was a value before.
      have hset : ∀ b? : Option Binding,
          (b?.map ({ · with value })).map Binding.value =
            (b?.map Binding.value).map fun _ => value := by
        intro b?
        cases b? <;> rfl
      rw [if_pos hkey, if_pos hkey, hset, hset, hlookup]
    · rwa [if_neg hkey, if_neg hkey]
  · have hset : ∀ b? : Option Binding,
        (b?.map ({ · with value })).map Binding.isConst = b?.map Binding.isConst := by
      intro b?
      cases b? <;> rfl
    unfold Forest.isConst
    rw [binding?_assign hf, binding?_assign hg]
    by_cases hkey : other.key = name.key
    · rwa [if_pos hkey, if_pos hkey, hset, hset]
    · rwa [if_neg hkey, if_neg hkey]
  · rwa [isSome_bindingIn?_assign hf, isSome_bindingIn?_assign hg]

end Forest

namespace Run

/-- Machines with the same trace and with scopes that exist and agree on some names. -/
structure Agreeing (scope scope' : Nat) (names : List Scalar) (m n : Machine) : Prop where
  trace_eq : m.trace = n.trace
  scope_lt : scope < m.forest.scopes.length
  scope_lt' : scope' < n.forest.scopes.length
  agree : ∀ name ∈ names, m.forest.Agree scope n.forest scope' name

variable {scope scope' : Nat} {names : List Scalar}

theorem relates_report_agreeing (level : Int) (event : Event) :
    Relates (Agreeing scope scope' names) (report level event) (report level event) := by
  intro m n h
  unfold report
  by_cases hlevel : event.level ≤ level
  · rw [if_pos hlevel, if_pos hlevel]
    exact ⟨rfl, congrArg (·.push event) h.trace_eq, h.scope_lt, h.scope_lt', h.agree⟩
  · rw [if_neg hlevel, if_neg hlevel]
    exact ⟨rfl, h⟩

theorem relates_declare_agreeing {name : Scalar} (hname : name ∈ names) (value : Value)
    (isConst : Bool) :
    Relates (Agreeing scope scope' names) (change (·.declare scope name value isConst))
      (change (·.declare scope' name value isConst)) := by
  refine relates_change fun m n h => ?_
  have hdeclared := (h.agree name hname).declared_eq
  cases hf : m.forest.declare scope name value isConst with
  | error e =>
    obtain ⟨hsome, rfl⟩ := Forest.declare_eq_error_iff.1 hf
    exact .inl ⟨_, rfl, Forest.declare_eq_error_iff.2 ⟨hdeclared ▸ hsome, rfl⟩⟩
  | ok f' =>
    obtain ⟨hnone, -⟩ := Forest.declare_eq_ok_iff.1 hf
    have hnone' : n.forest.bindingIn? scope' name.key = none := by simpa [hnone] using hdeclared
    obtain ⟨g', hg⟩ : ∃ g', n.forest.declare scope' name value isConst = .ok g' :=
      ⟨_, Forest.declare_eq_ok_iff.2 ⟨hnone', rfl⟩⟩
    refine .inr ⟨f', g', rfl, hg, h.trace_eq, ?_, ?_, fun other hother => ?_⟩
    · exact (Forest.length_scopes_declare hf).symm ▸ h.scope_lt
    · exact (Forest.length_scopes_declare hg).symm ▸ h.scope_lt'
    · exact (h.agree other hother).declare h.scope_lt h.scope_lt' hf hg

theorem relates_assign_agreeing {name : Scalar} (hname : name ∈ names) (value : Value) :
    Relates (Agreeing scope scope' names) (change (·.assign scope name value))
      (change (·.assign scope' name value)) := by
  refine relates_change fun m n h => ?_
  obtain ⟨hlookup, hconst, -⟩ := h.agree name hname
  -- The name is found on both sides or on neither.
  have hresolve : m.forest.resolve scope name = none ↔ n.forest.resolve scope' name = none := by
    rw [← Forest.lookup_eq_none_iff, ← Forest.lookup_eq_none_iff, hlookup]
  cases hf : m.forest.assign scope name value with
  | error e =>
    refine .inl ⟨e, rfl, Forest.assign_eq_error_iff.2 ?_⟩
    rw [← hresolve, ← hconst]
    exact Forest.assign_eq_error_iff.1 hf
  | ok f' =>
    obtain ⟨owner, howner, hvariable, -⟩ := Forest.assign_eq_ok_iff.1 hf
    obtain ⟨owner', howner'⟩ := Option.ne_none_iff_exists'.1
      (mt hresolve.2 (howner ▸ Option.some_ne_none owner))
    obtain ⟨g', hg⟩ : ∃ g', n.forest.assign scope' name value = .ok g' :=
      ⟨_, Forest.assign_eq_ok_iff.2 ⟨owner', howner', hconst ▸ hvariable, rfl⟩⟩
    refine .inr ⟨f', g', rfl, hg, h.trace_eq, ?_, ?_, fun other hother => ?_⟩
    · exact (Forest.length_scopes_assign hf).symm ▸ h.scope_lt
    · exact (Forest.length_scopes_assign hg).symm ▸ h.scope_lt'
    · exact (h.agree other hother).assign hf hg

theorem stepsRelate_agreeing (level : Int) (scope scope' : Nat) (names : List Scalar) :
    StepsRelate (Agreeing scope scope' names) level level scope scope' names where
  report := relates_report_agreeing level
  read := by
    intro name hname m n h
    exact ⟨by rw [read, read, (h.agree name hname).lookup_eq], h⟩
  declare _ hname := relates_declare_agreeing hname
  assign _ hname := relates_assign_agreeing hname

end Run

/-- Scopes that agree on the names of a program cannot be told apart by evaluating it: in both it
has the same value or stops with the same fault, reports the same events and leaves the scopes in
agreement on its names. -/
theorem evaluate_eq_of_agree (level : Int) {program : Program} {f g : Forest} {scope scope' : Nat}
    (hscope : scope < f.scopes.length) (hscope' : scope' < g.scopes.length)
    (hagree : ∀ name ∈ program.names, f.Agree scope g scope' name) :
    (program.evaluate level scope f).result = (program.evaluate level scope' g).result ∧
      (program.evaluate level scope f).trace = (program.evaluate level scope' g).trace ∧
      ∀ name ∈ program.names, (program.evaluate level scope f).forest.Agree scope
        (program.evaluate level scope' g).forest scope' name := by
  have hstart : Run.Agreeing scope scope' program.names ⟨f, #[]⟩ ⟨g, #[]⟩ :=
    ⟨rfl, hscope, hscope', hagree⟩
  have hsteps := Run.stepsRelate_agreeing level scope scope' program.names
  obtain ⟨hresult, hend⟩ := Program.relates_eval hsteps (List.Subset.refl _) _ _ hstart
  exact ⟨hresult, congrArg Array.toList hend.trace_eq, hend.agree⟩

/-- A program declares `y`, gives `x` a new value and fails to assign to `true`. It is evaluated
directly inside an outermost scope that has `x`, and further inside, where `x` is bound in
between. -/
theorem evaluate_eq_of_agree_fault :
    let program : Program :=
      [.declaration (.text "y") false
        (.binary .add (.identifier (.text "x")) (.identifier (.text "true"))),
      .assignment (.identifier (.text "x")) (.identifier (.text "true")),
      .assignment (.identifier (.text "true")) (.identifier (.text "y"))]
    let f : Forest := ⟨[⟨[], Scope.constants ++ [⟨.text "x", .null, false⟩]⟩, ⟨[0], []⟩]⟩
    let g : Forest := ⟨[⟨[], Scope.constants⟩,
      ⟨[0], [⟨.text "z", .boolean true, true⟩, ⟨.text "x", .null, false⟩]⟩,
      ⟨[1, 0], [⟨.text "w", .null, false⟩]⟩]⟩
    (program.evaluate 3 2 g).result = .error (.error (.constantAssigned (.text "true"))) ∧
      (program.evaluate 3 1 f).result = (program.evaluate 3 2 g).result ∧
      (program.evaluate 3 1 f).trace = (program.evaluate 3 2 g).trace ∧
      (program.evaluate 3 1 f).forest.Agree 1 (program.evaluate 3 2 g).forest 2 (.text "x") := by
  intro program f g
  have hagree : ∀ name ∈ program.names, f.Agree 1 g 2 name := by decide +kernel
  obtain ⟨hresult, htrace, hend⟩ := evaluate_eq_of_agree 3
    (by decide : 1 < f.scopes.length) (by decide : 2 < g.scopes.length) hagree
  exact ⟨by decide +kernel, hresult, htrace, hend _ (by decide +kernel)⟩

end LetCalc
