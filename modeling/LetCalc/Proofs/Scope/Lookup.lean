import LetCalc.Scope

/-!
# Looking up names after a change

Declarations and assignments are the changes that a program makes to a forest. For each of them,
this module says when it fails and what the names mean afterwards.

* `Forest.declare_eq_ok_iff`, `Forest.assign_eq_ok_iff`: when a change is made, and which one.
* `Forest.declare_eq_error_iff`, `Forest.assign_eq_error_iff`: when it is refused, and why.
* `Forest.binding?_declare`, `Forest.binding?_assign`: what every name is bound to afterwards.
-/

namespace LetCalc

namespace Scope

variable (s : Scope)

@[simp]
theorem enclosing_add (b : Binding) : (s.add b).enclosing = s.enclosing := rfl

@[simp]
theorem enclosing_set (key : Key) (value : Value) : (s.set key value).enclosing = s.enclosing := rfl

/-- A new binding is found by its own name, and hides no other one. -/
theorem find?_add {b : Binding} (hnone : s.find? b.name.key = none) (key : Key) :
    (s.add b).find? key = if key = b.name.key then some b else s.find? key := by
  unfold find? add at *
  rw [List.find?_append]
  by_cases hkey : key = b.name.key
  · subst hkey
    simp [hnone]
  · simp [hkey, Ne.symm hkey]

/-- A binding that is set keeps everything but its value. -/
theorem find?_set (key : Key) (value : Value) (other : Key) :
    (s.set key value).find? other =
      if other = key then (s.find? other).map ({ · with value }) else s.find? other := by
  unfold find? set
  induction s.bindings with
  | nil => simp
  | cons b rest ih =>
    rw [List.map_cons, List.find?_cons, List.find?_cons, ih]
    by_cases hb : b.name.key = key <;> by_cases hother : b.name.key = other <;>
      by_cases hkey : other = key <;> simp_all

end Scope

namespace Forest

variable {f g : Forest} {scope : Nat} {name : Scalar} {value : Value} {isConst : Bool}

/-! ## A change of one scope -/

theorem getElem?_scopes_modify (f : Forest) (owner : Nat) (change : Scope → Scope) (i : Nat) :
    (f.modify owner change).scopes[i]? =
      f.scopes[i]?.map fun s => if owner = i then change s else s := by
  rw [modify, List.getElem?_modify]
  rfl

@[simp]
theorem length_scopes_modify (f : Forest) (owner : Nat) (change : Scope → Scope) :
    (f.modify owner change).scopes.length = f.scopes.length := by
  simp [modify]

/-- A change that keeps the scopes around a scope keeps every chain. -/
theorem chain_modify {owner : Nat} {change : Scope → Scope}
    (hchange : ∀ s, (change s).enclosing = s.enclosing) (i : Nat) :
    (f.modify owner change).chain i = f.chain i := by
  unfold chain
  rw [getElem?_scopes_modify, Option.map_map]
  congr 2
  funext s
  by_cases howner : owner = i <;> simp [howner, hchange]

/-- A change of one scope is seen in that scope only. -/
theorem bindingIn?_modify (f : Forest) (owner : Nat) (change : Scope → Scope) (i : Nat)
    (key : Key) :
    (f.modify owner change).bindingIn? i key =
      if owner = i then f.scopes[i]?.bind fun s => (change s).find? key
      else f.bindingIn? i key := by
  unfold bindingIn?
  rw [getElem?_scopes_modify]
  by_cases howner : owner = i
  · subst howner
    cases f.scopes[owner]? <;> simp
  · simp [howner]

/-! ## The nearest scope with a name -/

theorem chain_eq_cons (hscope : scope < f.scopes.length) :
    ∃ enclosing, f.chain scope = scope :: enclosing :=
  ⟨(f.scopes[scope]).enclosing, by simp [chain, hscope]⟩

/-- A name belongs to the nearest scope that binds it. -/
theorem resolve_eq_some_iff {owner : Nat} :
    f.resolve scope name = some owner ↔
      (f.bindingIn? owner name.key).isSome ∧ ∃ nearer farther,
        f.chain scope = nearer ++ owner :: farther ∧
          ∀ i ∈ nearer, f.bindingIn? i name.key = none := by
  simp [resolve, List.find?_eq_some_iff_append]

/-- It belongs to none if no scope on the way out binds it. -/
theorem resolve_eq_none_iff :
    f.resolve scope name = none ↔ ∀ i ∈ f.chain scope, f.bindingIn? i name.key = none := by
  simp [resolve]

/-- A name is bound to what the nearest scope that has it binds it to. -/
theorem binding?_eq_bind (f : Forest) (scope : Nat) (name : Scalar) :
    f.binding? scope name =
      (f.resolve scope name).bind fun owner => f.bindingIn? owner name.key := by
  unfold binding? resolve
  induction f.chain scope with
  | nil => rfl
  | cons i rest ih =>
    rw [List.findSome?_cons, List.find?_cons]
    cases hbinding : f.bindingIn? i name.key with
    | none => simpa [hbinding] using ih
    | some b => simp [hbinding]

theorem binding?_eq_none_iff : f.binding? scope name = none ↔ f.resolve scope name = none := by
  simp [binding?, resolve]

theorem lookup_eq_none_iff : f.lookup scope name = none ↔ f.resolve scope name = none := by
  rw [lookup, Option.map_eq_none_iff, binding?_eq_none_iff]

/-- A name is found by its key. -/
theorem resolve_congr {other : Scalar} (h : other.key = name.key) :
    f.resolve scope other = f.resolve scope name := by
  simp only [resolve, h]

/-! ## Declarations -/

/-- A name can be declared just if the scope itself does not bind it. -/
theorem declare_eq_ok_iff :
    f.declare scope name value isConst = .ok g ↔
      f.bindingIn? scope name.key = none ∧ g = f.modify scope (·.add ⟨name, value, isConst⟩) := by
  unfold declare
  cases f.bindingIn? scope name.key <;> simp [eq_comm]

/-- The only thing wrong with a declaration is that the name is taken. -/
theorem declare_eq_error_iff {e : EvalError} :
    f.declare scope name value isConst = .error e ↔
      (f.bindingIn? scope name.key).isSome ∧ e = .redeclared name := by
  unfold declare
  cases f.bindingIn? scope name.key <;> simp [eq_comm]

theorem chain_declare (h : f.declare scope name value isConst = .ok g) (i : Nat) :
    g.chain i = f.chain i := by
  obtain ⟨-, rfl⟩ := declare_eq_ok_iff.1 h
  exact chain_modify (fun s => s.enclosing_add _) i

theorem length_scopes_declare (h : f.declare scope name value isConst = .ok g) :
    g.scopes.length = f.scopes.length := by
  obtain ⟨-, rfl⟩ := declare_eq_ok_iff.1 h
  exact length_scopes_modify ..

/-- A declaration adds one binding, and changes no other. -/
theorem bindingIn?_declare (hscope : scope < f.scopes.length)
    (h : f.declare scope name value isConst = .ok g) (i : Nat) (key : Key) :
    g.bindingIn? i key =
      if i = scope ∧ key = name.key then some ⟨name, value, isConst⟩ else f.bindingIn? i key := by
  obtain ⟨hnone, rfl⟩ := declare_eq_ok_iff.1 h
  rw [bindingIn?_modify]
  by_cases hi : scope = i
  · subst hi
    have hfind : (f.scopes[scope]).find? name.key = none := by
      simpa [bindingIn?, hscope] using hnone
    simp [bindingIn?, hscope, Scope.find?_add _ (b := ⟨name, value, isConst⟩) hfind]
  · simp [hi, Ne.symm hi]

/-- The declared name is bound as declared, in the scope of the declaration. Other names stay bound
as they are. -/
theorem binding?_declare (hscope : scope < f.scopes.length)
    (h : f.declare scope name value isConst = .ok g) (other : Scalar) :
    g.binding? scope other =
      if other.key = name.key then some ⟨name, value, isConst⟩ else f.binding? scope other := by
  have hbinding := bindingIn?_declare hscope h
  unfold binding?
  rw [chain_declare h]
  by_cases hkey : other.key = name.key
  · -- The scope of the declaration is the first of the chain.
    obtain ⟨enclosing, henclosing⟩ := chain_eq_cons hscope
    simp [henclosing, hbinding, hkey]
  · simp [hbinding, hkey]

/-! ## Assignments -/

/-- A name can be assigned to just if it belongs to a scope and is no constant there. -/
theorem assign_eq_ok_iff :
    f.assign scope name value = .ok g ↔ ∃ owner, f.resolve scope name = some owner ∧
      f.isConst scope name = false ∧ g = f.modify owner (·.set name.key value) := by
  unfold assign
  cases f.resolve scope name with
  | none => simp
  | some owner => cases f.isConst scope name <;> simp [eq_comm]

/-- It is not assigned to if it belongs to no scope, or if it is a constant. -/
theorem assign_eq_error_iff {e : EvalError} :
    f.assign scope name value = .error e ↔
      (f.resolve scope name = none ∧ e = .undefined name) ∨
        (f.isConst scope name = true ∧ e = .constantAssigned name) := by
  unfold assign
  cases hresolve : f.resolve scope name with
  | none =>
    have hconst : f.isConst scope name = false := by
      simp [Forest.isConst, binding?_eq_none_iff.2 hresolve]
    simp [hconst, eq_comm]
  | some owner => cases f.isConst scope name <;> simp [eq_comm]

/-- An assignment sets the name in the nearest scope that has it, where it is not a constant. -/
theorem exists_of_assign (h : f.assign scope name value = .ok g) :
    ∃ (owner : Nat) (s : Scope) (b : Binding), f.resolve scope name = some owner ∧
      f.scopes[owner]? = some s ∧ s.find? name.key = some b ∧ b.isConst = false ∧
        g = f.modify owner (·.set name.key value) := by
  obtain ⟨owner, hresolve, hconst, rfl⟩ := assign_eq_ok_iff.1 h
  obtain ⟨hsome, -⟩ := resolve_eq_some_iff.1 hresolve
  obtain ⟨b, hb⟩ := Option.isSome_iff_exists.1 hsome
  obtain ⟨s, hs, hfind⟩ := Option.bind_eq_some_iff.1 hb
  -- The binding that was asked whether it is constant is the one in the scope that is changed.
  have hvariable : b.isConst = false := by
    simpa [Forest.isConst, binding?_eq_bind, hresolve, hb] using hconst
  exact ⟨owner, s, b, hresolve, hs, hfind, hvariable, rfl⟩

theorem length_scopes_assign (h : f.assign scope name value = .ok g) :
    g.scopes.length = f.scopes.length := by
  obtain ⟨owner, -, -, rfl⟩ := assign_eq_ok_iff.1 h
  exact length_scopes_modify ..

/-- An assignment changes the value of one binding, in the scope that the name belongs to. -/
theorem bindingIn?_assign {owner : Nat} (hresolve : f.resolve scope name = some owner)
    (h : f.assign scope name value = .ok g) (i : Nat) (key : Key) :
    g.bindingIn? i key =
      if i = owner ∧ key = name.key then (f.bindingIn? i key).map ({ · with value })
      else f.bindingIn? i key := by
  obtain ⟨owner', hresolve', -, rfl⟩ := assign_eq_ok_iff.1 h
  obtain rfl : owner = owner' := by simpa [hresolve] using hresolve'
  rw [bindingIn?_modify]
  by_cases hi : owner = i
  · subst hi
    unfold bindingIn?
    by_cases hkey : key = name.key <;> cases f.scopes[owner]? <;> simp [Scope.find?_set, hkey]
  · simp [hi, Ne.symm hi]

/-- No scope gains or loses a name by an assignment. -/
theorem isSome_bindingIn?_assign (h : f.assign scope name value = .ok g) (i : Nat) (key : Key) :
    (g.bindingIn? i key).isSome = (f.bindingIn? i key).isSome := by
  obtain ⟨owner, hresolve, -⟩ := assign_eq_ok_iff.1 h
  rw [bindingIn?_assign hresolve h]
  split <;> simp

theorem chain_assign (h : f.assign scope name value = .ok g) (i : Nat) :
    g.chain i = f.chain i := by
  obtain ⟨owner, -, -, rfl⟩ := assign_eq_ok_iff.1 h
  exact chain_modify (fun s => s.enclosing_set _ _) i

/-- Names are found in the same scopes as before, wherever they are looked for. -/
theorem resolve_assign (h : f.assign scope name value = .ok g) (viewer : Nat) (other : Scalar) :
    g.resolve viewer other = f.resolve viewer other := by
  simp only [resolve, chain_assign h, isSome_bindingIn?_assign h]

/-- The assigned name has the new value, and nothing else about it has changed. Other names stay
bound as they are. -/
theorem binding?_assign (h : f.assign scope name value = .ok g) (other : Scalar) :
    g.binding? scope other =
      if other.key = name.key then (f.binding? scope other).map ({ · with value })
      else f.binding? scope other := by
  obtain ⟨owner, hresolve, -⟩ := assign_eq_ok_iff.1 h
  rw [binding?_eq_bind, binding?_eq_bind, resolve_assign h]
  by_cases hkey : other.key = name.key
  · have hother : f.resolve scope other = some owner := (resolve_congr hkey).trans hresolve
    simp [hother, bindingIn?_assign hresolve h, hkey]
  · simp [bindingIn?_assign hresolve h, hkey]

end Forest

end LetCalc
