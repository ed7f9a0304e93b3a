import LetCalc.Proofs.Evaluation.History
import LetCalc.Proofs.Scope.Lookup
import LetCalc.Proofs.Scope.Persistence
import Mathlib.Data.List.Infix

/-!
# How far an evaluation reaches

An evaluation in a scope leaves the scopes that are not around it alone. In the scopes around it no
name comes or goes, and in its own scope names are only added at the end. A binding that was there
before can get a new value only if it is a variable, if the program assigns to its name, and if the
name meant this very binding in the scope when the evaluation began. Names that are declared on the
way can hide a binding from later assignments, but never uncover one.

* `Forest.StaysLocal`: all of this about a forest and a later one.
* `Forest.StaysLocal.trans`: it holds of several changes if it holds of each.
* `Forest.staysLocal_of_declare`, `Forest.staysLocal_of_assign`: single changes.
* `evaluate_staysLocal`: evaluations, also those that end with a fault.
-/

namespace LetCalc

open Relation (ReflTransGen)

/-- What stays of a binding whatever its value is. -/
def Binding.label (b : Binding) : Scalar × Bool := (b.name, b.isConst)

/-- A new value changes no name. -/
theorem Scope.map_label_set (s : Scope) (key : Key) (value : Value) :
    (s.set key value).bindings.map Binding.label = s.bindings.map Binding.label := by
  rw [Scope.set, List.map_map]
  refine List.map_congr_left fun b _ => ?_
  by_cases hkey : b.name.key = key <;> simp [hkey, Binding.label]

namespace Forest

/-- The names of each scope are distinct. -/
def Distinct (f : Forest) : Prop := ∀ s ∈ f.scopes, s.keys.Nodup

instance (f : Forest) : Decidable f.Distinct :=
  inferInstanceAs (Decidable (∀ s ∈ f.scopes, s.keys.Nodup))

/-- The names of a scope in order of declaration, and which of them are constants. -/
def labels (f : Forest) (i : Nat) : List (Scalar × Bool) := (f.bindings i).map Binding.label

/-- What has to hold of a binding of a scope that gets a new value. -/
structure Assignable (f : Forest) (scope : Nat) (targets : List Scalar) (i : Nat) (b : Binding) :
    Prop where
  /-- It is not a constant. -/
  isConst_eq : b.isConst = false
  /-- Its name is assigned to. -/
  exists_target : ∃ name ∈ targets, name.key = b.name.key
  /-- Its scope is the scope of the evaluation or around it, and no nearer one has the name. -/
  nearest : ∃ nearer farther, f.chain scope = nearer ++ i :: farther ∧
    ∀ k ∈ nearer, f.bindingIn? k b.name.key = none

/-- A forest, and the same after changes that are made in a scope and assign to targets only. -/
structure StaysLocal (scope : Nat) (targets : List Scalar) (f g : Forest) : Prop where
  /-- There are the same scopes, and each is inside the same ones. -/
  enclosing_eq : ∀ i : Nat, g.scopes[i]?.map Scope.enclosing = f.scopes[i]?.map Scope.enclosing
  /-- A scope that is neither the given one nor around it is unchanged. -/
  outside_eq : ∀ i : Nat, i ∉ f.chain scope → g.scopes[i]? = f.scopes[i]?
  /-- Other scopes than the given one keep exactly their names. -/
  labels_eq : ∀ i : Nat, i ≠ scope → g.labels i = f.labels i
  /-- The given scope keeps its names, and others may follow them. -/
  labels_prefix : f.labels scope <+: g.labels scope
  /-- A binding that was there before and has another value was assignable. -/
  assignable : ∀ (i j : Nat) (b b' : Binding), (f.bindings i)[j]? = some b →
    (g.bindings i)[j]? = some b' → b'.value ≠ b.value → f.Assignable scope targets i b

variable {f g h : Forest} {scope : Nat} {targets : List Scalar} {name : Scalar} {value : Value}
  {isConst : Bool}

/-! ## Several changes -/

theorem bindingIn?_eq_find? (f : Forest) (i : Nat) (key : Key) :
    f.bindingIn? i key = (f.bindings i).find? (·.name.key = key) := by
  unfold bindingIn? bindings
  cases f.scopes[i]? <;> rfl

/-- A scope does not bind a name if no label there has its key. -/
theorem bindingIn?_eq_none_iff {i : Nat} {key : Key} :
    f.bindingIn? i key = none ↔ ∀ label ∈ f.labels i, label.1.key ≠ key := by
  simp [bindingIn?_eq_find?, labels, Binding.label]

theorem StaysLocal.refl (scope : Nat) (targets : List Scalar) (f : Forest) :
    StaysLocal scope targets f f where
  enclosing_eq _ := rfl
  outside_eq _ _ := rfl
  labels_eq _ _ := rfl
  labels_prefix := List.prefix_refl _
  assignable := by
    intro i j b b' hb hb' hne
    obtain rfl : b = b' := by simpa [hb] using hb'
    exact absurd rfl hne

/-- Scopes stay inside one another as they are. -/
theorem StaysLocal.chain_eq (hfg : StaysLocal scope targets f g) (i : Nat) :
    g.chain i = f.chain i := by
  have hchain : ∀ f : Forest,
      f.chain i = ((f.scopes[i]?.map Scope.enclosing).map (i :: ·)).getD [] := by
    intro f
    rw [chain, Option.map_map]
    rfl
  rw [hchain, hchain, hfg.enclosing_eq]

/-- No scope loses a binding. -/
theorem StaysLocal.labels_prefix_all (hfg : StaysLocal scope targets f g) (i : Nat) :
    f.labels i <+: g.labels i := by
  by_cases hi : i = scope
  · subst hi
    exact hfg.labels_prefix
  · rw [hfg.labels_eq i hi]

/-- Bindings stay at their places. -/
theorem StaysLocal.exists_binding (hfg : StaysLocal scope targets f g) {i j : Nat} {b : Binding}
    (hb : (f.bindings i)[j]? = some b) :
    ∃ b', (g.bindings i)[j]? = some b' ∧ b'.label = b.label := by
  have hlabel : (f.labels i)[j]? = some b.label := by simp [labels, hb]
  obtain ⟨hj, -⟩ := List.getElem?_eq_some_iff.1 hlabel
  obtain ⟨rest, hrest⟩ := hfg.labels_prefix_all i
  rw [← List.getElem?_append_left hj, hrest, labels, List.getElem?_map] at hlabel
  exact Option.map_eq_some_iff.1 hlabel

/-- What can be assigned to after changes could be before them. -/
theorem StaysLocal.assignable_of_label (hfg : StaysLocal scope targets f g) {i : Nat}
    {b b' : Binding} (hlabel : b'.label = b.label) (hb' : g.Assignable scope targets i b') :
    f.Assignable scope targets i b := by
  obtain ⟨hname, hisConst⟩ := Prod.mk.inj hlabel
  obtain ⟨hconst, htarget, nearer, farther, hchain, hnearer⟩ := hb'
  refine ⟨hisConst ▸ hconst, hname ▸ htarget, nearer, farther, hfg.chain_eq scope ▸ hchain, ?_⟩
  intro k hk
  -- A nearer scope that has no such name now had none before.
  have hnone := bindingIn?_eq_none_iff.1 (hnearer k hk)
  rw [hname] at hnone
  exact bindingIn?_eq_none_iff.2 fun label hlabel =>
    hnone label ((hfg.labels_prefix_all k).subset hlabel)

/-- Changes that stay local can follow one another. -/
theorem StaysLocal.trans (hfg : StaysLocal scope targets f g) (hgh : StaysLocal scope targets g h) :
    StaysLocal scope targets f h where
  enclosing_eq i := (hgh.enclosing_eq i).trans (hfg.enclosing_eq i)
  outside_eq i hi := (hgh.outside_eq i (hfg.chain_eq scope ▸ hi)).trans (hfg.outside_eq i hi)
  labels_eq i hi := (hgh.labels_eq i hi).trans (hfg.labels_eq i hi)
  labels_prefix := hfg.labels_prefix.trans hgh.labels_prefix
  assignable := by
    intro i j b b'' hb hb'' hne
    obtain ⟨b', hb', hlabel⟩ := hfg.exists_binding hb
    by_cases hvalue : b'.value = b.value
    · -- The value is another one since the second change.
      exact hfg.assignable_of_label hlabel (hgh.assignable i j b' b'' hb' hb'' (hvalue ▸ hne))
    · exact hfg.assignable i j b b' hb hb' hvalue

/-! ## Single changes -/

theorem bindings_of_getElem? {i : Nat} {s : Scope} (hs : f.scopes[i]? = some s) :
    f.bindings i = s.bindings := by
  simp [bindings, hs]

theorem getElem?_scopes_modify_of_ne {owner i : Nat} (h : i ≠ owner) (change : Scope → Scope) :
    (f.modify owner change).scopes[i]? = f.scopes[i]? := by
  simp [getElem?_scopes_modify, Ne.symm h]

/-- A change of one scope stays local if the scope is the given one or around it, and if all is well
in the scope itself. -/
theorem staysLocal_modify {owner : Nat} {s : Scope} {change : Scope → Scope}
    (hs : f.scopes[owner]? = some s) (howner : owner ∈ f.chain scope)
    (henclosing : (change s).enclosing = s.enclosing)
    (hkeeps : s.bindings.map Binding.label <+: (change s).bindings.map Binding.label)
    (hlabels : owner ≠ scope →
      (change s).bindings.map Binding.label = s.bindings.map Binding.label)
    (hassignable : ∀ (j : Nat) (b b' : Binding), s.bindings[j]? = some b →
      (change s).bindings[j]? = some b' → b'.value ≠ b.value →
        f.Assignable scope targets owner b) :
    StaysLocal scope targets f (f.modify owner change) := by
  have hsame : (f.modify owner change).scopes[owner]? = some (change s) := by
    simp [getElem?_scopes_modify, hs]
  have hother : ∀ i, i ≠ owner → (f.modify owner change).bindings i = f.bindings i := by
    intro i hi
    rw [bindings, bindings, getElem?_scopes_modify_of_ne hi]
  refine ⟨fun i => ?_, fun i hi => ?_, fun i hi => ?_, ?_, fun i j b b' hb hb' hne => ?_⟩
  · by_cases hi : i = owner
    · rw [hi, hsame, hs, Option.map_some, Option.map_some, henclosing]
    · rw [getElem?_scopes_modify_of_ne hi]
  · exact getElem?_scopes_modify_of_ne (ne_of_mem_of_not_mem howner hi).symm change
  · by_cases howner' : i = owner
    · subst howner'
      rw [labels, labels, bindings_of_getElem? hsame, bindings_of_getElem? hs, hlabels hi]
    · rw [labels, labels, hother i howner']
  · by_cases howner' : scope = owner
    · subst howner'
      rw [labels, labels, bindings_of_getElem? hsame, bindings_of_getElem? hs]
      exact hkeeps
    · rw [labels, labels, hother scope howner']
  · by_cases hi : i = owner
    · subst hi
      rw [bindings_of_getElem? hs] at hb
      rw [bindings_of_getElem? hsame] at hb'
      exact hassignable j b b' hb hb' hne
    · obtain rfl : b = b' := by simpa [hother i hi, hb] using hb'
      exact absurd rfl hne

/-- A declaration stays in its scope. -/
theorem staysLocal_of_declare (hdeclare : f.declare scope name value isConst = .ok g) :
    StaysLocal scope targets f g := by
  obtain ⟨-, rfl⟩ := declare_eq_ok_iff.1 hdeclare
  cases hs : f.scopes[scope]? with
  | none =>
    have hlength := List.getElem?_eq_none_iff.1 hs
    rw [modify, List.modify_eq_self hlength]
    exact .refl scope targets f
  | some s =>
    refine staysLocal_modify hs (by simp [chain, hs]) rfl ?_ (absurd rfl) ?_
    · exact (List.prefix_append s.bindings _).map Binding.label
    · -- The bindings that were there before are the same.
      intro j b b' hb hb' hne
      obtain ⟨hj, -⟩ := List.getElem?_eq_some_iff.1 hb
      rw [Scope.add, List.getElem?_append_left hj, hb] at hb'
      obtain rfl : b = b' := Option.some.inj hb'
      exact absurd rfl hne

/-- An assignment leaves all labels. -/
theorem labels_assign (hassign : f.assign scope name value = .ok g) (i : Nat) :
    g.labels i = f.labels i := by
  obtain ⟨owner, -, -, rfl⟩ := assign_eq_ok_iff.1 hassign
  unfold labels bindings
  rw [getElem?_scopes_modify]
  cases f.scopes[i]? with
  | none => rfl
  | some s =>
    by_cases hi : owner = i
    · simpa [hi] using s.map_label_set name.key value
    · simp [hi]

/-- An assignment changes the value of one of its targets. -/
theorem staysLocal_of_assign (hdistinct : f.Distinct) (hname : name ∈ targets)
    (hassign : f.assign scope name value = .ok g) : StaysLocal scope targets f g := by
  obtain ⟨owner, s, b₀, hresolve, hs, hfind, hvariable, rfl⟩ := exists_of_assign hassign
  obtain ⟨-, nearer, farther, hchain, hnearer⟩ := resolve_eq_some_iff.1 hresolve
  have hlabels := s.map_label_set name.key value
  refine staysLocal_modify hs (by simp [hchain]) rfl ?_ (fun _ => hlabels) ?_
  · rw [hlabels]
  · intro j b b' hb hb' hne
    rw [Scope.set, List.getElem?_map, hb] at hb'
    obtain rfl : _ = b' := Option.some.inj hb'
    by_cases hkey : b.name.key = name.key
    · -- Names are distinct, so that this is the binding that the assignment found.
      obtain rfl : b = b₀ := Scope.eq_of_find? (hdistinct s (List.mem_of_getElem? hs)) hfind
        (List.mem_of_getElem? hb) hkey
      exact ⟨hvariable, ⟨name, hname, hkey.symm⟩, nearer, farther, hchain, hkey ▸ hnearer⟩
    · simp [hkey] at hne

theorem distinct_modify {owner : Nat} {change : Scope → Scope} (hf : f.Distinct)
    (hchange : ∀ s, f.scopes[owner]? = some s → (change s).keys.Nodup) :
    (f.modify owner change).Distinct := by
  intro s' hs'
  obtain ⟨i, hi⟩ := List.mem_iff_getElem?.1 hs'
  rw [getElem?_scopes_modify] at hi
  obtain ⟨s, hs, rfl⟩ := Option.map_eq_some_iff.1 hi
  by_cases howner : owner = i
  · subst howner
    rw [if_pos rfl]
    exact hchange s hs
  · rw [if_neg howner]
    exact hf s (List.mem_of_getElem? hs)

/-- A name that is taken is not declared again, so that names stay distinct. -/
theorem distinct_of_declare (hf : f.Distinct)
    (hdeclare : f.declare scope name value isConst = .ok g) : g.Distinct := by
  obtain ⟨hnone, rfl⟩ := declare_eq_ok_iff.1 hdeclare
  refine distinct_modify hf fun s hs => ?_
  have hfind : s.find? name.key = none := by simpa [bindingIn?, hs] using hnone
  exact Scope.nodup_keys_add (hf s (List.mem_of_getElem? hs)) hfind

/-- An assignment leaves the names, so that they stay distinct. -/
theorem distinct_of_assign (hf : f.Distinct) (hassign : f.assign scope name value = .ok g) :
    g.Distinct := by
  obtain ⟨owner, -, -, rfl⟩ := assign_eq_ok_iff.1 hassign
  refine distinct_modify hf fun s hs => ?_
  rw [Scope.keys_set]
  exact hf s (List.mem_of_getElem? hs)

/-! ## All changes of an evaluation -/

/-- A step keeps names distinct and stays local. -/
theorem staysLocal_of_step (hf : f.Distinct) (hstep : Step scope targets f g) :
    g.Distinct ∧ StaysLocal scope targets f g := by
  cases hstep with
  | declare h => exact ⟨distinct_of_declare hf h, staysLocal_of_declare h⟩
  | assign hname h => exact ⟨distinct_of_assign hf h, staysLocal_of_assign hf hname h⟩

/-- So do any number of steps. -/
theorem staysLocal_of_steps (hf : f.Distinct) (hsteps : ReflTransGen (Step scope targets) f g) :
    g.Distinct ∧ StaysLocal scope targets f g := by
  induction hsteps with
  | refl => exact ⟨hf, .refl scope targets f⟩
  | tail _ hstep ih =>
    obtain ⟨hdistinct, hlocal⟩ := ih
    obtain ⟨hdistinct', hlocal'⟩ := staysLocal_of_step hdistinct hstep
    exact ⟨hdistinct', hlocal.trans hlocal'⟩

end Forest

/-- The evaluation of a program in a scope leaves every scope that is not around it unchanged. The
scopes around it keep exactly their names, and its own scope keeps its names and may gain others at
the end. A binding that was there before has another value afterwards only if it is a variable, the
program assigns to its name, and no nearer scope had that name. It does not matter whether the
evaluation ends with a value or a fault. -/
theorem evaluate_staysLocal (level : Int) (scope : Nat) (program : Program) {forest : Forest}
    (hdistinct : forest.Distinct) :
    Forest.StaysLocal scope program.targets forest
      (program.evaluate level scope forest).forest :=
  (Forest.staysLocal_of_steps hdistinct (program.steps_evaluate level scope forest)).2

/-- In a scope inside a scope with `x`, inside an outermost one with `x` and `y`, a program assigns
to `x` and `y`, declares `y`, assigns to it again and fails. The nearer `x` and the outer `y` have
new values; the outer `x` and the scope beside are as they were. -/
theorem evaluate_staysLocal_fault :
    let x (value : Value) : Binding := ⟨.text "x", value, false⟩
    let y (value : Value) : Binding := ⟨.text "y", value, false⟩
    let forest : Forest := ⟨[⟨[], Scope.constants ++ [x .null, y .null]⟩, ⟨[0], [x .null]⟩,
      ⟨[1, 0], []⟩, ⟨[1, 0], [x .null]⟩]⟩
    let program : Program :=
      [.assignment (.identifier (.text "x")) (.identifier (.text "true")),
      .assignment (.identifier (.text "y")) (.identifier (.text "true")),
      .declaration (.text "y") false .null,
      .assignment (.identifier (.text "y")) (.identifier (.text "false")),
      .assignment (.identifier (.text "true")) (.identifier (.text "y"))]
    let outcome := program.evaluate 0 2 forest
    outcome.result = .error (.error (.constantAssigned (.text "true"))) ∧
      outcome.forest = ⟨[⟨[], Scope.constants ++ [x .null, y (.boolean true)]⟩,
        ⟨[0], [x (.boolean true)]⟩, ⟨[1, 0], [y (.boolean false)]⟩, ⟨[1, 0], [x .null]⟩]⟩ ∧
      forest.Distinct ∧ Forest.StaysLocal 2 program.targets forest outcome.forest := by
  intro x y forest program outcome
  have hdistinct : forest.Distinct := by decide
  refine ⟨by decide +kernel, by decide +kernel, hdistinct, ?_⟩
  exact evaluate_staysLocal 0 2 program hdistinct

end LetCalc
