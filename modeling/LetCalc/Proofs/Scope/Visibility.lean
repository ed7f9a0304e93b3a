import LetCalc.Proofs.Scope.Lookup
import LetCalc.Session

/-!
# What every scope sees of a change

A name may be bound in several scopes of a chain, and a scope may be around many others. A change
that is made in one scope is therefore seen from others, and hidden from some of them by a nearer
binding. This module says for every scope what it sees afterwards, wherever in the forest it is.

* `Forest.Reaches`: looking for a name in one scope leads as far as another one.
* `Forest.resolve_declare`, `Forest.resolve_assign`: where names are found afterwards.
* `Forest.Declared`, `Forest.Assigned`: what all scopes see of a declaration and of an assignment.
* `Session.changes_are_seen`: these are the effects of the requests of a session, and a request that
  is refused has none.
-/

namespace LetCalc

/-- What a scope sees of a name. -/
structure View where
  /-- The scope that has the name. -/
  owner : Option Nat
  /-- The value there. -/
  value : Option Value
  /-- Whether the name is a constant there. -/
  isConst : Bool
deriving DecidableEq, Repr

namespace Forest

/-- What a scope sees of a name. -/
def view (f : Forest) (viewer : Nat) (name : Scalar) : View :=
  ⟨f.resolve viewer name, f.lookup viewer name, f.isConst viewer name⟩

/-- A scope is the viewer or around it, and no scope nearer to the viewer has the name. -/
def Reaches (f : Forest) (viewer scope : Nat) (name : Scalar) : Prop :=
  scope ∈ f.chain viewer ∧
    ∀ i ∈ (f.chain viewer).takeWhile (· ≠ scope), f.bindingIn? i name.key = none

instance (f : Forest) (viewer scope : Nat) (name : Scalar) :
    Decidable (f.Reaches viewer scope name) :=
  inferInstanceAs (Decidable (_ ∧ _))

/-- What has become of a forest by a declaration: the new binding is seen by those that reach its
scope, and nothing else has changed for anyone. -/
structure Declared (f : Forest) (scope : Nat) (name : Scalar) (value : Value) (isConst : Bool)
    (g : Forest) : Prop where
  view_of_reaches : ∀ viewer other, other.key = name.key → f.Reaches viewer scope name →
    g.view viewer other = ⟨some scope, some value, isConst⟩
  view_eq : ∀ viewer other, ¬ (other.key = name.key ∧ f.Reaches viewer scope name) →
    g.view viewer other = f.view viewer other

/-- What has become of a forest by an assignment: the new value is seen by those that find the name
in the same scope, and nothing else has changed for anyone. -/
structure Assigned (f : Forest) (scope : Nat) (name : Scalar) (value : Value) (g : Forest) :
    Prop where
  lookup_of_resolve : ∀ viewer other, other.key = name.key →
    f.resolve viewer name = f.resolve scope name → g.lookup viewer other = some value
  lookup_eq : ∀ viewer other,
    ¬ (other.key = name.key ∧ f.resolve viewer name = f.resolve scope name) →
      g.lookup viewer other = f.lookup viewer other
  resolve_eq : ∀ viewer other, g.resolve viewer other = f.resolve viewer other
  isConst_eq : ∀ viewer other, g.isConst viewer other = f.isConst viewer other

variable {f g : Forest} {scope viewer : Nat} {name other : Scalar} {value : Value} {isConst : Bool}

/-! ## Reading -/

/-- All that is read of a name is read from the scope in which it is found. -/
theorem view_of_resolve {owner : Nat} {b : Binding} (howner : f.resolve viewer name = some owner)
    (hb : f.bindingIn? owner name.key = some b) :
    f.view viewer name = ⟨some owner, some b.value, b.isConst⟩ := by
  have hbinding : f.binding? viewer name = some b := by
    rw [binding?_eq_bind, howner]
    exact hb
  simp [view, lookup, Forest.isConst, howner, hbinding]

theorem view_of_resolve_eq_none (h : f.resolve viewer name = none) :
    f.view viewer name = ⟨none, none, false⟩ := by
  have hbinding : f.binding? viewer name = none := binding?_eq_none_iff.2 h
  simp [view, lookup, Forest.isConst, h, hbinding]

theorem exists_of_resolve {owner : Nat} (h : f.resolve viewer name = some owner) :
    ∃ b, f.bindingIn? owner name.key = some b :=
  Option.isSome_iff_exists.1 (resolve_eq_some_iff.1 h).1

/-- Two forests show the same of a name if it is found in the same scope and bound there to the
same. -/
theorem view_congr (hresolve : g.resolve viewer name = f.resolve viewer name)
    (hbinding : ∀ owner, f.resolve viewer name = some owner →
      g.bindingIn? owner name.key = f.bindingIn? owner name.key) :
    g.view viewer name = f.view viewer name := by
  cases howner : f.resolve viewer name with
  | none =>
    rw [view_of_resolve_eq_none howner, view_of_resolve_eq_none (hresolve.trans howner)]
  | some owner =>
    obtain ⟨b, hb⟩ := exists_of_resolve howner
    rw [view_of_resolve howner hb,
      view_of_resolve (hresolve.trans howner) ((hbinding owner howner).trans hb)]

/-! ## Declarations -/

/-- One more place where a search succeeds matters if nothing is found before it. -/
theorem find?_or {p : Nat → Bool} {l : List Nat} (a : Nat) :
    l.find? (fun i => i = a || p i) =
      if a ∈ l ∧ ∀ i ∈ l.takeWhile (· ≠ a), p i = false then some a else l.find? p := by
  induction l with
  | nil => simp
  | cons i rest ih =>
    by_cases hi : i = a
    · subst hi
      simp
    · cases hp : p i with
      | true => simp [hi, hp]
      | false => simp [hi, Ne.symm hi, hp, ih]

/-- A declared name is found in the scope of the declaration, wherever this is reached. -/
theorem resolve_declare (hscope : scope < f.scopes.length)
    (h : f.declare scope name value isConst = .ok g) (viewer : Nat) (other : Scalar) :
    g.resolve viewer other =
      if other.key = name.key ∧ f.Reaches viewer scope name then some scope
      else f.resolve viewer other := by
  unfold resolve
  rw [chain_declare h]
  by_cases hkey : other.key = name.key
  · have hisSome : ∀ i, (g.bindingIn? i name.key).isSome =
        (decide (i = scope) || (f.bindingIn? i name.key).isSome) := by
      intro i
      by_cases hi : i = scope <;> simp [bindingIn?_declare hscope h, hi]
    simp only [hkey, hisSome, find?_or, true_and, Reaches, Option.isSome_eq_false_iff,
      Option.isNone_iff_eq_none]
  · -- Another name is bound in every scope as before.
    simp [bindingIn?_declare hscope h, hkey]

theorem declared_of_declare (hscope : scope < f.scopes.length)
    (h : f.declare scope name value isConst = .ok g) :
    f.Declared scope name value isConst g := by
  obtain ⟨hnone, -⟩ := declare_eq_ok_iff.1 h
  constructor
  · intro viewer other hkey hreaches
    have howner : g.resolve viewer other = some scope := by
      rw [resolve_declare hscope h, if_pos ⟨hkey, hreaches⟩]
    have hbinding : g.bindingIn? scope other.key = some ⟨name, value, isConst⟩ := by
      rw [bindingIn?_declare hscope h, if_pos ⟨rfl, hkey⟩]
    exact view_of_resolve howner hbinding
  · intro viewer other hother
    have hresolve : g.resolve viewer other = f.resolve viewer other := by
      rw [resolve_declare hscope h, if_neg hother]
    refine view_congr hresolve fun owner howner => ?_
    rw [bindingIn?_declare hscope h, if_neg]
    rintro ⟨rfl, hkey⟩
    -- The name was not bound in the scope of its declaration, so that it was not found there.
    obtain ⟨b, hb⟩ := exists_of_resolve howner
    rw [hkey, hnone] at hb
    exact nomatch hb

/-! ## Assignments -/

theorem assigned_of_assign (h : f.assign scope name value = .ok g) :
    f.Assigned scope name value g := by
  obtain ⟨owner, howner, -⟩ := assign_eq_ok_iff.1 h
  have hresolve := resolve_assign h
  -- What is found in another scope or under another name is bound as before.
  have hother : ∀ viewer other,
      ¬ (other.key = name.key ∧ f.resolve viewer name = f.resolve scope name) →
        g.view viewer other = f.view viewer other := by
    intro viewer other hother
    refine view_congr (hresolve viewer other) fun i hi => ?_
    rw [bindingIn?_assign howner h, if_neg]
    rintro ⟨rfl, hkey⟩
    refine hother ⟨hkey, ?_⟩
    rw [← resolve_congr hkey, hi, howner]
  have hsame : ∀ viewer other, other.key = name.key →
      f.resolve viewer name = f.resolve scope name →
        g.view viewer other = { f.view viewer other with value := some value } := by
    intro viewer other hkey heq
    have hfound : f.resolve viewer other = some owner := by
      rw [resolve_congr hkey, heq, howner]
    obtain ⟨b, hb⟩ := exists_of_resolve hfound
    have hset : g.bindingIn? owner other.key = some { b with value } := by
      rw [bindingIn?_assign howner h, if_pos ⟨rfl, hkey⟩, hb]
      rfl
    rw [view_of_resolve hfound hb, view_of_resolve ((hresolve viewer other).trans hfound) hset]
  refine ⟨fun viewer other hkey heq => ?_, fun viewer other hne => ?_, hresolve,
    fun viewer other => ?_⟩
  · exact congrArg View.value (hsame viewer other hkey heq)
  · exact congrArg View.value (hother viewer other hne)
  · by_cases hkey : other.key = name.key ∧ f.resolve viewer name = f.resolve scope name
    · exact congrArg View.isConst (hsame viewer other hkey.1 hkey.2)
    · exact congrArg View.isConst (hother viewer other hkey)

end Forest

/-! ## Requests -/

namespace Session

/-- A request for a change is granted if it is allowed, and then has the effect; otherwise it is
refused and changes nothing. -/
structure Grants (s : Session) (answer : Answer) (value : Value) (Allowed : Prop)
    (Effect : Forest → Prop) : Prop where
  of_allowed : Allowed → answer.reply = .ok (.value value) ∧ Effect answer.session.forest
  of_not_allowed : ¬ Allowed →
    (∃ e, answer.reply = .error (.fault (.error e))) ∧ answer.session = s

theorem grants_bind (s : Session) (value : Value) {result : Except EvalError Forest}
    {Allowed : Prop} {Effect : Forest → Prop} (hallowed : Allowed ↔ ∃ f, result = .ok f)
    (heffect : ∀ f, result = .ok f → Effect f) :
    s.Grants (s.bind value result) value Allowed Effect := by
  constructor
  · intro h
    obtain ⟨f, rfl⟩ := hallowed.1 h
    exact ⟨rfl, heffect f rfl⟩
  · intro h
    cases result with
    | ok f => exact absurd (hallowed.2 ⟨f, rfl⟩) h
    | error e => exact ⟨⟨e, rfl⟩, rfl⟩

/-- In every scope of a session, the value of a name is the one in the scope that has the name, and
there is none if no scope has it. An assignment is refused unless the name is found and is not a
constant, and sets the value for all scopes that find the name in the same scope. A declaration is
refused if the scope has the name, and is seen by all scopes from which its scope is reached. All
else that any scope sees stays the same, and all of it if a request is refused. -/
theorem changes_are_seen (s : Session) :
    (∀ viewer name,
      (s.forest.lookup viewer name = none ↔ s.forest.resolve viewer name = none) ∧
        ∀ owner, s.forest.resolve viewer name = some owner →
          ∃ b, s.forest.bindingIn? owner name.key = some b ∧
            s.forest.lookup viewer name = some b.value) ∧
    (∀ scope name value,
      s.Grants (s.step (.assign scope name value)) value
        ((s.forest.resolve scope name).isSome ∧ s.forest.isConst scope name = false)
        (s.forest.Assigned scope name value)) ∧
    ∀ scope name value isConst, scope < s.forest.scopes.length →
      s.Grants (s.step (.declare scope name value isConst)) value
        (s.forest.bindingIn? scope name.key = none)
        (s.forest.Declared scope name value isConst) := by
  refine ⟨fun viewer name => ⟨?_, fun owner howner => ?_⟩, fun scope name value => ?_,
    fun scope name value isConst hscope => ?_⟩
  · exact Forest.lookup_eq_none_iff
  · obtain ⟨b, hb⟩ := Forest.exists_of_resolve howner
    exact ⟨b, hb, congrArg View.value (Forest.view_of_resolve howner hb)⟩
  · refine s.grants_bind value ⟨?_, ?_⟩ fun f => Forest.assigned_of_assign
    · rintro ⟨hsome, hconst⟩
      obtain ⟨owner, howner⟩ := Option.isSome_iff_exists.1 hsome
      exact ⟨_, Forest.assign_eq_ok_iff.2 ⟨owner, howner, hconst, rfl⟩⟩
    · rintro ⟨f, hf⟩
      obtain ⟨owner, howner, hconst, -⟩ := Forest.assign_eq_ok_iff.1 hf
      exact ⟨by simp [howner], hconst⟩
  · refine s.grants_bind value ?_ fun f => Forest.declared_of_declare hscope
    simp [Forest.declare_eq_ok_iff]

/-- An outermost scope has a constant `x`; a scope inside it declares a variable `x`, and a third
scope inside that one assigns to it. The two inner scopes see the variable, while the outermost one
and another scope inside it still see the constant, which cannot be assigned to. -/
theorem changes_are_seen_inside :
    let x : Scalar := .text "x"
    let s := (start.steps [.root, .child 0, .child 1, .child 0, .declare 0 x .null true]).2
    let t := (s.step (.declare 1 x (.boolean true) false)).session
    let u := (t.step (.assign 2 x (.boolean false))).session
    1 < s.forest.scopes.length ∧ s.forest.bindingIn? 1 x.key = none ∧
      s.forest.Declared 1 x (.boolean true) false t.forest ∧
      t.forest.Assigned 2 x (.boolean false) u.forest ∧
      [0, 1, 2, 3].map (u.forest.view · x) =
        [⟨some 0, some .null, true⟩, ⟨some 1, some (.boolean false), false⟩,
          ⟨some 1, some (.boolean false), false⟩, ⟨some 0, some .null, true⟩] ∧
      (u.step (.assign 3 x .null)).session = u := by
  intro x s t u
  have hscope : 1 < s.forest.scopes.length := by decide +kernel
  have hnone : s.forest.bindingIn? 1 x.key = none := by decide +kernel
  obtain ⟨-, hdeclared⟩ :=
    ((changes_are_seen s).2.2 1 x (.boolean true) false hscope).of_allowed hnone
  obtain ⟨-, hassigned⟩ :=
    ((changes_are_seen t).2.1 2 x (.boolean false)).of_allowed (by decide +kernel)
  obtain ⟨-, hrefused⟩ :=
    ((changes_are_seen u).2.1 3 x .null).of_not_allowed (by decide +kernel)
  exact ⟨hscope, hnone, hdeclared, hassigned, by decide +kernel, hrefused⟩

end Session

end LetCalc
