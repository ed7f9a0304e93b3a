import LetCalc.Proofs.Scope.Lookup
import Mathlib.Data.List.Nodup

/-!
# What scopes keep

Bindings are added at the end of a scope and otherwise change only in their value, and only if they
are not constant. `Forest.Persists f g` says so of a forest `f` and a later one `g`.
`Forest.WellFormed` is the invariant behind it: without it an assignment could reach a constant of
the same name behind a variable.

* `Forest.Grows`: a change keeps the invariant, and all bindings persist.
* `Forest.grows_of_declare`, `Forest.grows_of_assign`, `Forest.grows_declareAll`,
  `Forest.grows_addRoot`, `Forest.grows_addChild`: every change of a forest is of this kind.
-/

namespace LetCalc

/-- A binding and what has become of it: the same name, a constant with its value. -/
structure Binding.Persists (b b' : Binding) : Prop where
  name_eq : b'.name = b.name
  isConst_eq : b'.isConst = b.isConst
  value_eq : b.isConst = true → b'.value = b.value

namespace Scope

/-- The keys of the declared names, in order. -/
def keys (s : Scope) : List Key := s.bindings.map (·.name.key)

/-- The keys of the constants, in order. -/
def constKeys (s : Scope) : List Key := (s.bindings.filter (·.isConst)).map (·.name.key)

/-- A scope and what has become of it: every binding persists at its place. -/
structure Persists (s s' : Scope) : Prop where
  enclosing_eq : s'.enclosing = s.enclosing
  binding : ∀ (j : Nat) (b : Binding), s.bindings[j]? = some b →
    ∃ b', s'.bindings[j]? = some b' ∧ b.Persists b'

end Scope

namespace Forest

/-- A forest and what has become of it: every scope persists under its number. -/
def Persists (f g : Forest) : Prop :=
  ∀ (i : Nat) (s : Scope), f.scopes[i]? = some s → ∃ s', g.scopes[i]? = some s' ∧ s.Persists s'

/-- The scopes that are met on the way from a scope to an outermost one, each the parent of the one
before it. -/
inductive ParentChain (f : Forest) : Nat → List Nat → Prop
  | root {i : Nat} {s : Scope} :
      f.scopes[i]? = some s → s.enclosing = [] → ParentChain f i [i]
  | inner {i parent : Nat} {s : Scope} {rest : List Nat} :
      f.scopes[i]? = some s → s.enclosing.head? = some parent → ParentChain f parent rest →
        ParentChain f i (i :: rest)

/-- The invariant of a forest. -/
structure WellFormed (f : Forest) : Prop where
  /-- The names of a scope are distinct. -/
  keys_nodup : ∀ (i : Nat) (s : Scope), f.scopes[i]? = some s → s.keys.Nodup
  /-- Only declared names are constants. -/
  constKeys_subset : ∀ (i : Nat) (s : Scope), f.scopes[i]? = some s → s.constKeys ⊆ s.keys
  /-- Parents lead to an outermost scope. -/
  parentChain : ∀ i, i < f.scopes.length → f.ParentChain i (f.chain i)
  /-- An outermost scope begins with the constants. -/
  constants : ∀ (i : Nat) (s : Scope), f.scopes[i]? = some s → s.enclosing = [] →
    Scope.constants <+: s.bindings

/-- A change that keeps the invariant and lets everything persist. -/
def Grows (f g : Forest) : Prop := f.WellFormed → g.WellFormed ∧ f.Persists g

end Forest

theorem Binding.Persists.refl (b : Binding) : b.Persists b := ⟨rfl, rfl, fun _ => rfl⟩

theorem Binding.Persists.trans {a b c : Binding} (h : a.Persists b) (h' : b.Persists c) :
    a.Persists c :=
  ⟨h'.name_eq.trans h.name_eq, h'.isConst_eq.trans h.isConst_eq,
    fun hconst => (h'.value_eq (h.isConst_eq.trans hconst)).trans (h.value_eq hconst)⟩

/-- A constant stays as it is. -/
theorem Binding.Persists.eq_of_isConst {b b' : Binding} (h : b.Persists b')
    (hconst : b.isConst = true) : b' = b := by
  cases b
  cases b'
  obtain ⟨rfl, rfl, hvalue⟩ := h
  simp_all

namespace Scope

variable {s s' s'' : Scope}

theorem Persists.refl (s : Scope) : s.Persists s := ⟨rfl, fun _ b h => ⟨b, h, .refl b⟩⟩

theorem Persists.trans (h : s.Persists s') (h' : s'.Persists s'') : s.Persists s'' := by
  refine ⟨h'.enclosing_eq.trans h.enclosing_eq, fun j b hb => ?_⟩
  obtain ⟨b', hb', hpersists⟩ := h.binding j b hb
  obtain ⟨b'', hb'', hpersists'⟩ := h'.binding j b' hb'
  exact ⟨b'', hb'', hpersists.trans hpersists'⟩

/-- Constants at the start of a scope stay there. -/
theorem Persists.constants_prefix (h : s.Persists s') {constants : List Binding}
    (hconst : ∀ b ∈ constants, b.isConst = true) (hs : constants <+: s.bindings) :
    constants <+: s'.bindings := by
  rw [List.prefix_iff_getElem?] at hs ⊢
  intro j hj
  obtain ⟨b', hb', hpersists⟩ := h.binding j _ (hs j hj)
  rw [hb', hpersists.eq_of_isConst (hconst _ (List.getElem_mem hj))]

theorem constKeys_subset_keys (s : Scope) : s.constKeys ⊆ s.keys :=
  List.map_subset _ (List.filter_sublist.subset)

theorem keys_add (s : Scope) (b : Binding) : (s.add b).keys = s.keys ++ [b.name.key] := by
  simp [keys, add]

/-- A new value changes no name. -/
theorem keys_set (s : Scope) (key : Key) (value : Value) : (s.set key value).keys = s.keys := by
  simp only [keys, set, List.map_map]
  refine List.map_congr_left fun b _ => ?_
  by_cases h : b.name.key = key <;> simp [h]

theorem persists_add (s : Scope) (b : Binding) : s.Persists (s.add b) := by
  refine ⟨rfl, fun j b' hb' => ⟨b', ?_, .refl b'⟩⟩
  obtain ⟨hj, -⟩ := List.getElem?_eq_some_iff.1 hb'
  rw [add, List.getElem?_append_left hj, hb']

/-- A new value may be given to what is not constant. -/
theorem persists_set {key : Key} (value : Value)
    (h : ∀ b ∈ s.bindings, b.name.key = key → b.isConst = false) :
    s.Persists (s.set key value) := by
  refine ⟨rfl, fun j b hb => ?_⟩
  rw [set, List.getElem?_map, hb]
  refine ⟨_, rfl, ?_⟩
  by_cases hkey : b.name.key = key
  · have hvariable := h b (List.mem_of_getElem? hb) hkey
    simp only [hkey, ↓reduceIte]
    exact ⟨rfl, rfl, by simp [hvariable]⟩
  · simp only [hkey, ↓reduceIte]
    exact .refl b

/-- A name that is looked for in vain is not declared. -/
theorem not_mem_keys_of_find? {key : Key} (h : s.find? key = none) : key ∉ s.keys := by
  intro hmem
  obtain ⟨b, hb, rfl⟩ := List.mem_map.1 hmem
  simpa using List.find?_eq_none.1 h b hb

/-- A name that is not declared yet keeps the names distinct. -/
theorem nodup_keys_add {b : Binding} (hnodup : s.keys.Nodup) (hfind : s.find? b.name.key = none) :
    (s.add b).keys.Nodup := by
  rw [keys_add, List.nodup_append_comm]
  exact List.nodup_cons.2 ⟨not_mem_keys_of_find? hfind, hnodup⟩

/-- The binding of a key is the only one with this key. -/
theorem eq_of_find? {key : Key} {b b' : Binding} (hnodup : s.keys.Nodup)
    (hfind : s.find? key = some b) (hb' : b' ∈ s.bindings) (hkey : b'.name.key = key) : b' = b := by
  have hb : b ∈ s.bindings := List.mem_of_find?_eq_some hfind
  have hkeyb : b.name.key = key := by simpa using List.find?_some hfind
  exact List.inj_on_of_nodup_map hnodup hb' hb (hkey.trans hkeyb.symm)

end Scope

namespace Forest

variable {f g h : Forest}

theorem Persists.refl (f : Forest) : f.Persists f := fun _ s hs => ⟨s, hs, .refl s⟩

theorem Persists.trans (hfg : f.Persists g) (hgh : g.Persists h) : f.Persists h := by
  intro i s hs
  obtain ⟨s', hs', hpersists⟩ := hfg i s hs
  obtain ⟨s'', hs'', hpersists'⟩ := hgh i s' hs'
  exact ⟨s'', hs'', hpersists.trans hpersists'⟩

/-- A scope that persists has the same scopes around it. -/
theorem Persists.chain_eq (hfg : f.Persists g) {i : Nat} (hi : i < f.scopes.length) :
    g.chain i = f.chain i := by
  obtain ⟨s', hs', hpersists⟩ := hfg i _ (List.getElem?_eq_getElem hi)
  simp [chain, hs', List.getElem?_eq_getElem hi, hpersists.enclosing_eq]

theorem ParentChain.mono (hfg : f.Persists g) {i : Nat} {l : List Nat} (hl : f.ParentChain i l) :
    g.ParentChain i l := by
  induction hl with
  | root hs hroot =>
    obtain ⟨s', hs', hpersists⟩ := hfg _ _ hs
    exact .root hs' (hpersists.enclosing_eq.trans hroot)
  | inner hs hparent _ ih =>
    obtain ⟨s', hs', hpersists⟩ := hfg _ _ hs
    exact .inner hs' (by rw [hpersists.enclosing_eq, hparent]) ih

theorem Grows.refl (f : Forest) : f.Grows f := fun hf => ⟨hf, .refl f⟩

theorem Grows.trans (hfg : f.Grows g) (hgh : g.Grows h) : f.Grows h := by
  intro hf
  obtain ⟨hg, hpersists⟩ := hfg hf
  obtain ⟨hh, hpersists'⟩ := hgh hg
  exact ⟨hh, hpersists.trans hpersists'⟩

theorem wellFormed_empty : empty.WellFormed :=
  ⟨by simp [empty], by simp [empty], by simp [empty], by simp [empty]⟩

/-- What persists needs no second check: all names have to be distinct, and scopes that are new have
to lead to an outermost one and have the constants if they are outermost. -/
theorem Persists.wellFormed (hfg : f.Persists g) (hf : f.WellFormed)
    (hnodup : ∀ (i : Nat) (s : Scope), g.scopes[i]? = some s → s.keys.Nodup)
    (hnew : ∀ (i : Nat) (s : Scope), f.scopes.length ≤ i → g.scopes[i]? = some s →
      g.ParentChain i (g.chain i) ∧ (s.enclosing = [] → Scope.constants <+: s.bindings)) :
    g.WellFormed := by
  refine ⟨hnodup, fun _ s _ => s.constKeys_subset_keys, ?_, ?_⟩
  · intro i hi
    by_cases hold : i < f.scopes.length
    · rw [hfg.chain_eq hold]
      exact (hf.parentChain i hold).mono hfg
    · exact (hnew i _ (Nat.le_of_not_lt hold) (List.getElem?_eq_getElem hi)).1
  · intro i s' hs' hroot
    by_cases hold : i < f.scopes.length
    · have hs := List.getElem?_eq_getElem hold
      obtain ⟨s'', hs'', hpersists⟩ := hfg i _ hs
      obtain rfl : s'' = s' := by simpa [hs''] using hs'
      exact hpersists.constants_prefix (by decide)
        (hf.constants i _ hs (hpersists.enclosing_eq.symm.trans hroot))
    · exact (hnew i s' (Nat.le_of_not_lt hold) hs').2 hroot

/-- A change of one scope that keeps its names distinct and lets it persist. -/
theorem grows_modify {owner : Nat} {change : Scope → Scope}
    (hchange : f.WellFormed → ∀ s, f.scopes[owner]? = some s →
      s.Persists (change s) ∧ (change s).keys.Nodup) : f.Grows (f.modify owner change) := by
  intro hf
  have hpersists : f.Persists (f.modify owner change) := by
    intro i s hs
    refine ⟨_, by rw [getElem?_scopes_modify, hs]; rfl, ?_⟩
    by_cases hi : owner = i
    · subst hi
      simpa using (hchange hf s hs).1
    · simpa [hi] using .refl s
  refine ⟨hpersists.wellFormed hf ?_ ?_, hpersists⟩
  · intro i s' hs'
    rw [getElem?_scopes_modify] at hs'
    obtain ⟨s, hs, rfl⟩ := Option.map_eq_some_iff.1 hs'
    by_cases hi : owner = i
    · subst hi
      simpa using (hchange hf s hs).2
    · simpa [hi] using hf.keys_nodup i s hs
  · -- There is no new scope.
    intro i s' hi hs'
    rw [getElem?_scopes_modify, List.getElem?_eq_none hi] at hs'
    simp at hs'

theorem grows_of_declare {scope : Nat} {name : Scalar} {value : Value} {isConst : Bool}
    (hdeclare : f.declare scope name value isConst = .ok g) : f.Grows g := by
  obtain ⟨hnone, rfl⟩ := declare_eq_ok_iff.1 hdeclare
  refine grows_modify fun hf s hs => ⟨s.persists_add _, ?_⟩
  have hfind : s.find? name.key = none := by simpa [bindingIn?, hs] using hnone
  exact Scope.nodup_keys_add (hf.keys_nodup scope s hs) hfind

theorem grows_of_assign {scope : Nat} {name : Scalar} {value : Value}
    (hassign : f.assign scope name value = .ok g) : f.Grows g := by
  obtain ⟨owner, s, b, -, hs, hfind, hvariable, rfl⟩ := exists_of_assign hassign
  refine grows_modify fun hf s₀ hs₀ => ?_
  obtain rfl : s = s₀ := by simpa [hs] using hs₀
  have hnodup := hf.keys_nodup owner s hs
  -- All bindings of the key are set, but names are distinct, so that there is only this one.
  refine ⟨Scope.persists_set value fun b' hb' hkey => ?_, ?_⟩
  · rw [Scope.eq_of_find? hnodup hfind hb' hkey, hvariable]
  · rw [Scope.keys_set]
    exact hnodup

theorem grows_declareAll (f : Forest) (scope : Nat) (bs : List Binding) :
    f.Grows (f.declareAll scope bs).2 := by
  induction bs generalizing f with
  | nil => exact .refl f
  | cons b rest ih =>
    rw [declareAll]
    cases hdeclare : f.declare scope b.name b.value b.isConst with
    | error e => exact .refl f
    | ok g => exact (grows_of_declare hdeclare).trans (ih g)

/-- A new scope at the end, which satisfies the invariant by itself. -/
theorem grows_append {s : Scope} (hnodup : s.keys.Nodup)
    (hconstants : s.enclosing = [] → Scope.constants <+: s.bindings)
    (hchain : ∀ parent rest, s.enclosing = parent :: rest →
      parent < f.scopes.length ∧ f.chain parent = parent :: rest) :
    f.Grows ⟨f.scopes ++ [s]⟩ := by
  intro hf
  have hlast : ∀ (i : Nat) (s' : Scope), f.scopes.length ≤ i → (f.scopes ++ [s])[i]? = some s' →
      i = f.scopes.length ∧ s' = s := by
    intro i s' hi hs'
    obtain ⟨hlt, hs'⟩ := List.getElem?_eq_some_iff.1 hs'
    obtain rfl : i = f.scopes.length := by
      rw [List.length_append, List.length_singleton] at hlt
      omega
    exact ⟨rfl, by simpa using hs'.symm⟩
  have hpersists : f.Persists ⟨f.scopes ++ [s]⟩ := by
    intro i s' hs'
    obtain ⟨hi, -⟩ := List.getElem?_eq_some_iff.1 hs'
    exact ⟨s', by rw [List.getElem?_append_left hi, hs'], .refl s'⟩
  refine ⟨hpersists.wellFormed hf ?_ ?_, hpersists⟩
  · intro i s' hs'
    by_cases hold : i < f.scopes.length
    · rw [List.getElem?_append_left hold] at hs'
      exact hf.keys_nodup i s' hs'
    · obtain ⟨-, rfl⟩ := hlast i s' (Nat.le_of_not_lt hold) hs'
      exact hnodup
  · intro i s' hi hs'
    obtain ⟨-, rfl⟩ := hlast i s' hi hs'
    refine ⟨?_, hconstants⟩
    rw [show chain ⟨f.scopes ++ [s']⟩ i = i :: s'.enclosing by simp [chain, hs']]
    cases henclosing : s'.enclosing with
    | nil => exact .root hs' henclosing
    -- From the parent on, the chain is the one that the parent had before.
    | cons parent rest =>
      obtain ⟨hparent, hrest⟩ := hchain parent rest henclosing
      have htail := (hf.parentChain parent hparent).mono hpersists
      rw [hrest] at htail
      exact .inner hs' (by simp [henclosing]) htail

theorem grows_addRoot (f : Forest) : f.Grows f.addRoot :=
  grows_append (by decide) (fun _ => List.prefix_refl _) (by simp)

theorem grows_addChild {scope : Nat} (hscope : scope < f.scopes.length) :
    f.Grows (f.addChild scope) := by
  have hchain : f.chain scope = scope :: (f.scopes[scope]).enclosing := by simp [chain, hscope]
  refine grows_append (by simp [Scope.keys]) ?_ ?_
  · intro hnil
    simp [hchain] at hnil
  · intro parent rest hcons
    obtain ⟨rfl, -⟩ := List.cons.inj (hchain.symm.trans hcons)
    exact ⟨hscope, hcons⟩

end Forest

end LetCalc
