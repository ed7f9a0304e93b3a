import LetCalc.Proofs.Evaluation.Locality

/-!
# The names that an evaluation declares

Which names a program declares, and in which order, can be read off its tree: `Program.declared`
lists them. An evaluation that succeeds adds exactly these to its scope. One that stops has added
the first of them, up to the place where it stopped. Since no name is declared twice, a program with
a declaration succeeds at most once in a scope.

* `Program.filterMap_script`: the names that are listed are those in the script of the program.
* `Forest.Gains`, `Forest.History.gains`: names were added to a scope, all of them new; the events
  of an evaluation add those that they tell of.
* `Program.gains_evaluate`: an evaluation adds the names that are listed.
* `evaluate_declares`: the same, and that a second evaluation in the same scope stops.
-/

namespace LetCalc

/-- The names that a node declares and whether they are constants, in the order of evaluation: from
left to right, and those of an initializer before the name that it initializes. The target of an
assignment is not evaluated, and a collection is no name. -/
def Node.declared : Node → List (Scalar × Bool)
  | .binary _ left right => left.declared ++ right.declared
  | .assignment _ value => value.declared
  | .declaration (.scalar name) isConst initializer => initializer.declared ++ [(name, isConst)]
  | .declaration _ _ initializer => initializer.declared
  | _ => []

/-- The names that a program declares and whether they are constants, in the order of evaluation. -/
def Program.declared (program : Program) : List (Scalar × Bool) := program.flatMap Node.declared

/-! ## Names that are added to a scope -/

namespace Forest

/-- A forest, and the same after names were added to a scope. -/
structure Gains (scope : Nat) (added : List (Scalar × Bool)) (f g : Forest) : Prop where
  /-- There are as many scopes as before. -/
  length_eq : g.scopes.length = f.scopes.length
  /-- The names come after those that the scope had. -/
  labels_eq : g.labels scope = f.labels scope ++ added
  /-- They are distinct. -/
  nodup : (added.map (·.1.key)).Nodup
  /-- The scope had none of them. -/
  fresh : ∀ label ∈ added, f.bindingIn? scope label.1.key = none

variable {f g h : Forest} {scope : Nat} {added more : List (Scalar × Bool)} {name : Scalar}
  {value : Value} {isConst : Bool}

theorem Gains.refl (scope : Nat) (f : Forest) : Gains scope [] f f :=
  ⟨rfl, (List.append_nil _).symm, List.nodup_nil, List.forall_mem_nil _⟩

theorem Gains.trans (hfg : Gains scope added f g) (hgh : Gains scope more g h) :
    Gains scope (added ++ more) f h := by
  -- A name that is new to the scope in between is none that it had, and none that was added.
  have hfresh : ∀ label ∈ more, ∀ old ∈ f.labels scope ++ added, old.1.key ≠ label.1.key := by
    intro label hlabel
    rw [← hfg.labels_eq]
    exact bindingIn?_eq_none_iff.1 (hgh.fresh label hlabel)
  refine ⟨hgh.length_eq.trans hfg.length_eq, ?_, ?_, ?_⟩
  · rw [hgh.labels_eq, hfg.labels_eq, List.append_assoc]
  · rw [List.map_append]
    refine hfg.nodup.append hgh.nodup fun key hkey hkey' => ?_
    obtain ⟨old, hold, rfl⟩ := List.mem_map.1 hkey
    obtain ⟨label, hlabel, heq⟩ := List.mem_map.1 hkey'
    exact hfresh label hlabel old (List.mem_append_right _ hold) heq.symm
  · refine List.forall_mem_append.2 ⟨hfg.fresh, fun label hlabel => ?_⟩
    apply bindingIn?_eq_none_iff.2
    intro old hold
    exact hfresh label hlabel old (List.mem_append_left _ hold)

theorem gains_of_declare (hscope : scope < f.scopes.length)
    (hdeclare : f.declare scope name value isConst = .ok g) :
    Gains scope [(name, isConst)] f g := by
  have hlength := length_scopes_declare hdeclare
  obtain ⟨hnone, rfl⟩ := declare_eq_ok_iff.1 hdeclare
  refine ⟨hlength, ?_, List.nodup_singleton _, List.forall_mem_singleton.2 hnone⟩
  have hs := List.getElem?_eq_getElem hscope
  have hadd : (f.modify scope (·.add ⟨name, value, isConst⟩)).scopes[scope]? =
      some ((f.scopes[scope]).add ⟨name, value, isConst⟩) := by
    simp [getElem?_scopes_modify, hs]
  rw [labels, labels, bindings_of_getElem? hadd, bindings_of_getElem? hs, Scope.add,
    List.map_append]
  rfl

theorem gains_of_assign (hassign : f.assign scope name value = .ok g) : Gains scope [] f g := by
  refine ⟨length_scopes_assign hassign, ?_, List.nodup_nil, List.forall_mem_nil _⟩
  rw [labels_assign hassign, List.append_nil]

/-- Names that persist are still there. -/
theorem Persists.labels_subset (hfg : f.Persists g) (i : Nat) : f.labels i ⊆ g.labels i := by
  intro label hlabel
  cases hs : f.scopes[i]? with
  | none => simp [labels, bindings, hs] at hlabel
  | some s =>
    rw [labels, bindings_of_getElem? hs] at hlabel
    obtain ⟨b, hb, rfl⟩ := List.mem_map.1 hlabel
    obtain ⟨j, hj⟩ := List.mem_iff_getElem?.1 hb
    obtain ⟨s', hs', hpersists⟩ := hfg i s hs
    obtain ⟨b', hb', hbinding⟩ := hpersists.binding j b hj
    rw [labels, bindings_of_getElem? hs']
    refine List.mem_map.2 ⟨b', List.mem_of_getElem? hb', ?_⟩
    rw [Binding.label, Binding.label, hbinding.name_eq, hbinding.isConst_eq]

end Forest

/-! ## Evaluations that declare names -/

/-- The name that a kind of event declares, and whether it is a constant. -/
def Event.Kind.declared? : Event.Kind → Option (Scalar × Bool)
  | .declared isConst name => some (name, isConst)
  | _ => none

/-- The names that a node declares are those in its script. -/
theorem Node.filterMap_script (node : Node) :
    node.script.filterMap Event.Kind.declared? = node.declared := by
  induction node using Node.eval_induction with
  | binary op left right ihl ihr =>
    rw [script, declared, List.filterMap_append, List.filterMap_append, ihl, ihr]
    exact congrArg (left.declared ++ ·) (List.append_nil _)
  | declaration document isConst initializer ih =>
    cases document with
    | scalar name =>
      rw [script, declared, List.filterMap_append, ih]
      rfl
    | array items | object fields =>
      -- The last equation of each list applies, since the name is no scalar.
      rw [script, declared, ih]
      · intro name hname
        cases hname
      · intro name hname
        cases hname
  | assignment document value ih =>
    cases document with
    | scalar name =>
      rw [script, declared, List.filterMap_append, ih]
      exact List.append_nil _
    | array items | object fields =>
      rw [script, declared, ih]
      simp
  | invalidTarget target value h ih =>
    rw [script, declared, ih]
    exact fun name hname => h _ hname
  | _ => rfl

theorem Program.filterMap_script (program : Program) :
    program.script.filterMap Event.Kind.declared? = program.declared := by
  suffices h : ∀ index, (program.scriptFrom index).filterMap Event.Kind.declared? =
      program.declared from h 0
  induction program with
  | nil => exact fun _ => rfl
  | cons statement rest ih =>
    intro index
    rw [scriptFrom, List.filterMap_append, statement.filterMap_script, List.filterMap_cons_none rfl,
      ih, declared, declared, List.flatMap_cons]

/-- Events add the names to the scope that they say were declared. -/
theorem Forest.History.gains {scope : Nat} {parts : List Node} {events : List Event}
    {f g : Forest} (h : Forest.History scope parts events f g)
    (hscope : scope < f.scopes.length) :
    f.Gains scope ((events.map Event.kind).filterMap Event.Kind.declared?) g := by
  induction h with
  | nil f => exact .refl scope f
  | @cons e events f g h hfirst _ ih =>
    rw [List.map_cons]
    cases hfirst with
    | statement => exact ih hscope
    | declared _ hdeclare =>
      have hgains := gains_of_declare hscope hdeclare
      exact hgains.trans (ih (hgains.length_eq ▸ hscope))
    | assigned _ hassign =>
      have hgains := gains_of_assign hassign
      exact hgains.trans (ih (hgains.length_eq ▸ hscope))
    | computed => exact ih hscope

/-- In a scope that exists, an evaluation declares the names of the program in order. If it stops,
these are only the first of them. -/
theorem Program.gains_evaluate (level : Int) {scope : Nat} (program : Program) {forest : Forest}
    (hscope : scope < forest.scopes.length) :
    ∃ added, added <+: program.declared ∧
      forest.Gains scope added (program.evaluate level scope forest).forest ∧
      ∀ value, (program.evaluate level scope forest).result = .ok value →
        added = program.declared := by
  obtain ⟨events, hevents⟩ := program.performs_evaluate level scope forest
  refine ⟨(events.map Event.kind).filterMap Event.Kind.declared?, ?_,
    hevents.history.gains hscope, fun value hvalue => ?_⟩
  · rw [← program.filterMap_script]
    exact hevents.follows.filterMap Event.Kind.declared?
  · rw [← program.filterMap_script, hevents.completes value hvalue]

/-! ## Declarations that are made -/

/-- Both parts of a computation that succeeds have succeeded. -/
theorem Run.exists_of_bind_ok {α β : Type} {r : Run α} {f : α → Run β} {m : Machine} {b : β}
    (h : ((r >>= f) m).1 = .ok b) :
    ∃ a, (r m).1 = .ok a ∧ (f a (r m).2).1 = .ok b := by
  rw [bind_apply] at h
  cases hresult : (r m).1 with
  | error fault =>
    rw [hresult] at h
    exact nomatch h
  | ok a =>
    rw [hresult] at h
    exact ⟨a, rfl, h⟩

/-- Nothing in a node that has a value is left out of the evaluation, so that a declaration in it is
made. -/
theorem Node.declared_ne_nil_of_eval {level : Int} {scope : Nat} {node : Node} {m : Machine}
    {value : Value} (hvalue : (node.eval level scope m).1 = .ok value) {name : Json}
    {isConst : Bool} {initializer : Node}
    (hmem : .declaration name isConst initializer ∈ node.parts) : node.declared ≠ [] := by
  induction node using Node.eval_induction generalizing m value with
  | number x => simp [Node.parts] at hmem
  | null => simp [Node.parts] at hmem
  | identifier document => simp [Node.parts] at hmem
  | binary op left right ihl ihr =>
    rw [eval_binary] at hvalue
    obtain ⟨a, hleft, hrest⟩ := Run.exists_of_bind_ok hvalue
    obtain ⟨b, hright, -⟩ := Run.exists_of_bind_ok hrest
    rw [Node.declared]
    rw [Node.parts, List.mem_cons, List.mem_append] at hmem
    rcases hmem with hself | hmem | hmem
    · cases hself
    · exact List.append_ne_nil_of_left_ne_nil (ihl hleft hmem) _
    · exact List.append_ne_nil_of_right_ne_nil _ (ihr hright hmem)
  | declaration document isConst' initializer' ih =>
    rw [eval_declaration] at hvalue
    obtain ⟨a, -, hrest⟩ := Run.exists_of_bind_ok hvalue
    obtain ⟨name', hname, -⟩ := Run.exists_of_bind_ok hrest
    cases document with
    | scalar s => simp [Node.declared]
    | array items => cases hname
    | object fields => cases hname
  | assignment document value' ih =>
    rw [eval_assignment] at hvalue
    obtain ⟨a, hassigned, -⟩ := Run.exists_of_bind_ok hvalue
    rw [Node.declared]
    refine ih hassigned ?_
    simpa [Node.parts] using hmem
  | invalidTarget target value' h _ =>
    rw [eval_invalidTarget _ _ h] at hvalue
    cases hvalue
  | program body => cases hvalue

namespace Program

theorem declared_ne_nil_of_evalFrom {level : Int} {scope index : Nat} {last : Value}
    {program : Program} {m : Machine} {value : Value}
    (hvalue : (program.evalFrom level scope index last m).1 = .ok value) {name : Json}
    {isConst : Bool} {initializer : Node}
    (hmem : .declaration name isConst initializer ∈ Program.parts program) :
    program.declared ≠ [] := by
  induction program generalizing index last m with
  | nil => simp [Program.parts] at hmem
  | cons statement rest ih =>
    obtain ⟨a, hstatement, hreport⟩ := Run.exists_of_bind_ok hvalue
    obtain ⟨-, -, hrest⟩ := Run.exists_of_bind_ok hreport
    rw [declared, List.flatMap_cons]
    rw [Program.parts, List.mem_append] at hmem
    rcases hmem with hmem | hmem
    · exact List.append_ne_nil_of_left_ne_nil (Node.declared_ne_nil_of_eval hstatement hmem) _
    · exact List.append_ne_nil_of_right_ne_nil _ (ih hrest hmem)

/-- What was declared in a scope cannot be declared there again. -/
theorem exists_fault_of_label (level : Int) {scope : Nat} {program : Program} {forest : Forest}
    (hscope : scope < forest.scopes.length) {label : Scalar × Bool}
    (hdeclared : label ∈ program.declared) (hlabel : label ∈ forest.labels scope) :
    ∃ fault, (program.evaluate level scope forest).result = .error fault := by
  cases hresult : (program.evaluate level scope forest).result with
  | error fault => exact ⟨fault, rfl⟩
  | ok value =>
    obtain ⟨added, -, hgains, hall⟩ := program.gains_evaluate level hscope
    obtain rfl := hall value hresult
    have hnone := hgains.fresh label hdeclared
    exact absurd rfl (Forest.bindingIn?_eq_none_iff.1 hnone label hlabel)

end Program

/-- A program that has a value adds to its scope exactly the names that it declares, in order and
after those of the scope. They are distinct, and the scope had none of them. A program that stops
has added the first of them. A program that has a value and has a declaration anywhere in it stops
whenever it is evaluated again in the same scope, whatever was done in between. -/
theorem evaluate_declares (level : Int) {scope : Nat} (program : Program) {forest : Forest}
    (hscope : scope < forest.scopes.length) :
    let outcome := program.evaluate level scope forest
    (∀ value, outcome.result = .ok value →
      Forest.Gains scope program.declared forest outcome.forest ∧
        ∀ name isConst initializer,
          Node.declaration name isConst initializer ∈ Program.parts program →
            ∀ level' later, outcome.forest.Persists later →
              ∃ fault, (program.evaluate level' scope later).result = .error fault) ∧
    ∀ fault, outcome.result = .error fault →
      ∃ added, added <+: program.declared ∧ Forest.Gains scope added forest outcome.forest := by
  intro outcome
  obtain ⟨added, hprefix, hgains, hall⟩ := program.gains_evaluate level hscope
  refine ⟨fun value hvalue => ?_, fun fault _ => ⟨added, hprefix, hgains⟩⟩
  obtain rfl := hall value hvalue
  refine ⟨hgains, fun name isConst initializer hmem level' later hpersists => ?_⟩
  obtain ⟨label, hlabel⟩ :=
    List.exists_mem_of_ne_nil _ (Program.declared_ne_nil_of_evalFrom hvalue hmem)
  have hadded : label ∈ outcome.forest.labels scope := by
    show label ∈ (program.evaluate level scope forest).forest.labels scope
    rw [hgains.labels_eq]
    exact List.mem_append_right _ hlabel
  -- The scope is still there, with all the names that it had.
  have hlater : scope < later.scopes.length := by
    have hlt : scope < outcome.forest.scopes.length := hgains.length_eq ▸ hscope
    obtain ⟨s, hs, -⟩ := hpersists scope _ (List.getElem?_eq_getElem hlt)
    exact (List.getElem?_eq_some_iff.1 hs).1
  exact Program.exists_fault_of_label level' hlater hlabel (hpersists.labels_subset scope hadded)

/-- A program declares `b` in the value of an assignment that initializes `a`, and then `c` as an
operand. It succeeds once, and not again in the scope that it leaves. In a scope that has `c` it
adds two names and stops. -/
theorem evaluate_declares_nested :
    let forest (inner : List Binding) : Forest :=
      ⟨[⟨[], Scope.constants ++ [⟨.text "x", .null, false⟩]⟩, ⟨[0], inner⟩]⟩
    let program : Program :=
      [.declaration (.text "a") true (.assignment (.identifier (.text "x"))
        (.declaration (.text "b") false (.identifier (.text "true")))),
      .binary .add (.declaration (.text "c") false .null) (.identifier (.text "x"))]
    let outcome := program.evaluate 0 1 (forest [])
    let taken := forest [⟨.text "c", .null, true⟩]
    program.declared = [(.text "b", false), (.text "a", true), (.text "c", false)] ∧
      outcome.result = .ok .null ∧ Forest.Gains 1 program.declared (forest []) outcome.forest ∧
      (∃ fault, (program.evaluate 0 1 outcome.forest).result = .error fault) ∧
      (program.evaluate 0 1 taken).result = .error (.error (.redeclared (.text "c"))) ∧
      ∃ added, added <+: program.declared ∧
        Forest.Gains 1 added taken (program.evaluate 0 1 taken).forest := by
  intro forest program outcome taken
  have hscope : 1 < (forest []).scopes.length := by decide
  have htaken : 1 < taken.scopes.length := by decide
  have hvalue : outcome.result = .ok .null := by decide +kernel
  have hfault : (program.evaluate 0 1 taken).result =
      .error (.error (.redeclared (.text "c"))) := by decide +kernel
  obtain ⟨hgains, hagain⟩ := (evaluate_declares 0 program hscope).1 _ hvalue
  have hmem : .declaration (.text "c") false .null ∈ Program.parts program := by
    simp [program, Program.parts, Node.parts]
  refine ⟨rfl, hvalue, hgains, hagain _ _ _ hmem 0 _ (.refl _), hfault, ?_⟩
  exact (evaluate_declares 0 program htaken).2 _ hfault

end LetCalc
