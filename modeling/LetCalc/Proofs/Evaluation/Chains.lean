import LetCalc.Proofs.Session.Precedence

/-!
# The kind of value that a chain has

Operands with operators between them are combined from the left. Whether that fails, and whether the
result is null or a number, depends on the kinds of the operands alone and can be read off their
list: a null makes everything after it null, and a boolean is a mistake unless a null is reached
with it or before it.

* `Value.combineAll`: operands combined from the left.
* `Value.combineAll_null`, `Value.combineAll_number`: what each kind of value so far leads to.
* `Series.value_by_kinds`: the result of a chain, and that chains of nodes are evaluated this way.
-/

namespace LetCalc

namespace Value

/-- Combines a value with further operands, from the left. -/
def combineAll (value : Value) (operations : List (Operator × Value)) : Except EvalError Value :=
  operations.foldlM (fun left (op, a) => combine op.symbol left a) value

theorem combineAll_cons (value a : Value) (op : Operator) (operations : List (Operator × Value)) :
    combineAll value ((op, a) :: operations) =
      combine op.symbol value a >>= fun result => combineAll result operations :=
  List.foldlM_cons

/-- A null so far is the result, whatever comes after it. -/
theorem combineAll_null (operations : List (Operator × Value)) :
    combineAll .null operations = .ok .null := by
  induction operations with
  | nil => rfl
  | cons x operations ih =>
    obtain ⟨op, a⟩ := x
    rw [combineAll_cons]
    exact ih

theorem combine_number (op : Operator) (x y : Binary64) :
    combine op.symbol (.number x) (.number y) = .ok (.number (op.compute x y)) := by
  simp [combine]

/-- A boolean is combined with a null only. -/
theorem combine_boolean_left (symbol : String) (b : Bool) {a : Value} (h : a ≠ .null) :
    combine symbol (.boolean b) a =
      .error (.unsupportedOperands symbol (typeName (.boolean b)) a.typeName) := by
  cases a with
  | null => exact absurd rfl h
  | _ => rfl

/-- The operand at the index `j` is a boolean that no null comes before. -/
def BooleanFirst (values : List Value) (j : Nat) : Prop :=
  (∃ b, values[j]? = some (.boolean b)) ∧ ∀ i ≤ j, values[i]? ≠ some .null

theorem booleanFirst_zero {a : Value} {values : List Value} :
    BooleanFirst (a :: values) 0 ↔ ∃ b, a = .boolean b := by
  constructor
  · rintro ⟨⟨b, hb⟩, -⟩
    exact ⟨b, Option.some.inj hb⟩
  · rintro ⟨b, rfl⟩
    refine ⟨⟨b, rfl⟩, fun i hi => ?_⟩
    obtain rfl := Nat.le_zero.1 hi
    simp

theorem booleanFirst_succ {a : Value} {values : List Value} {j : Nat} :
    BooleanFirst (a :: values) (j + 1) ↔ a ≠ .null ∧ BooleanFirst values j := by
  constructor
  · rintro ⟨hboolean, hnull⟩
    refine ⟨?_, hboolean, fun i hi => hnull (i + 1) (Nat.succ_le_succ hi)⟩
    rintro rfl
    exact hnull 0 (Nat.zero_le _) rfl
  · rintro ⟨hne, hboolean, hnull⟩
    refine ⟨hboolean, fun i hi => ?_⟩
    cases i with
    | zero => simpa using hne
    | succ i => exact hnull i (Nat.le_of_succ_le_succ hi)

/-- How a fold of operands ends, from the indices at which it fails and whether there is a null
among the operands. -/
structure EndsBy (result : Except EvalError Value) (Fails : Prop) (HasNull : Prop) : Prop where
  /-- It fails for a wrong type, and only then. -/
  error_iff :
    (∃ symbol left right, result = .error (.unsupportedOperands symbol left right)) ↔ Fails
  /-- Otherwise it is null if there is a null. -/
  null : ¬ Fails → HasNull → result = .ok .null
  /-- And it is a number if there is none. -/
  number : ¬ Fails → ¬ HasNull → ∃ x, result = .ok (.number x)

theorem endsBy_error {symbol left right : String} {Fails HasNull : Prop} (h : Fails) :
    EndsBy (.error (.unsupportedOperands symbol left right)) Fails HasNull where
  error_iff := iff_of_true ⟨_, _, _, rfl⟩ h
  null hnot := absurd h hnot
  number hnot := absurd h hnot

theorem endsBy_null {Fails HasNull : Prop} (hfails : ¬ Fails) (h : HasNull) :
    EndsBy (.ok .null) Fails HasNull where
  error_iff := iff_of_false (by simp) hfails
  null _ _ := rfl
  number _ hnot := absurd h hnot

theorem endsBy_number (x : Binary64) {Fails HasNull : Prop} (hfails : ¬ Fails) (h : ¬ HasNull) :
    EndsBy (.ok (.number x)) Fails HasNull where
  error_iff := iff_of_false (by simp) hfails
  null _ hnull := absurd hnull h
  number _ _ := ⟨x, rfl⟩

/-- From a number on, the first operand that is no number decides. -/
theorem combineAll_number (x : Binary64) (operations : List (Operator × Value)) :
    EndsBy (combineAll (.number x) operations)
      (∃ j, BooleanFirst (operations.map Prod.snd) j) (.null ∈ operations.map Prod.snd) := by
  induction operations generalizing x with
  | nil => exact endsBy_number x (by simp [BooleanFirst]) (by simp)
  | cons operation operations ih =>
    obtain ⟨op, a⟩ := operation
    rw [combineAll_cons, List.map_cons]
    cases a with
    | null =>
      show EndsBy (combineAll .null operations) _ _
      rw [combineAll_null]
      refine endsBy_null ?_ List.mem_cons_self
      rintro ⟨j, -, hnull⟩
      exact hnull 0 (Nat.zero_le j) rfl
    | number y =>
      rw [combine_number]
      -- A number changes neither condition, it only shifts the indices.
      have hfails : (∃ j, BooleanFirst (.number y :: operations.map Prod.snd) j) ↔
          ∃ j, BooleanFirst (operations.map Prod.snd) j := by
        rw [← Nat.or_exists_add_one]
        simp [booleanFirst_zero, booleanFirst_succ]
      have hnull : .null ∈ Value.number y :: operations.map Prod.snd ↔
          .null ∈ operations.map Prod.snd := by simp
      rw [hfails, hnull]
      exact ih _
    | boolean b => exact endsBy_error ⟨0, booleanFirst_zero.2 ⟨b, rfl⟩⟩

end Value

namespace Series

variable {α : Type}

/-- The operands, in order. -/
def operands (s : Series α) : List α := s.first :: s.rest.map Prod.snd

/-- The operand at the index `j` is a boolean, and there is no null up to it, nor next to it in the
first pair. -/
def FailsAt (s : Series Value) (j : Nat) : Prop :=
  (∃ b, s.operands[j]? = some (.boolean b)) ∧ ∀ i ≤ max j 1, s.operands[i]? ≠ some .null

/-- After a first operand that is no null, the indices are those of the other operands. -/
theorem failsAt_succ {first : Value} {rest : List (Operator × Value)} {j : Nat}
    (h : first ≠ .null) :
    FailsAt ⟨first, rest⟩ (j + 1) ↔ Value.BooleanFirst (rest.map Prod.snd) j := by
  have hmax : max (j + 1) 1 = j + 1 := Nat.max_eq_left (Nat.le_add_left 1 j)
  have hsucc : Value.BooleanFirst (first :: rest.map Prod.snd) (j + 1) ↔
      first ≠ .null ∧ Value.BooleanFirst (rest.map Prod.snd) j := Value.booleanFirst_succ
  rw [FailsAt, hmax]
  exact hsucc.trans (and_iff_right h)

theorem not_failsAt_of_null {s : Series Value} {i : Nat} (hi : i ≤ 1)
    (h : s.operands[i]? = some .null) : ¬ ∃ j, s.FailsAt j := by
  rintro ⟨j, -, hnull⟩
  exact hnull i (hi.trans (Nat.le_max_right j 1)) h

theorem endsBy_combineAll (s : Series Value) (hrest : s.rest ≠ []) :
    Value.EndsBy (s.first.combineAll s.rest) (∃ j, s.FailsAt j) (.null ∈ s.operands) := by
  obtain ⟨first, rest⟩ := s
  obtain ⟨⟨op, a⟩, rest, rfl⟩ := List.exists_cons_of_ne_nil hrest
  cases first with
  | null =>
    rw [Value.combineAll_null]
    exact Value.endsBy_null (not_failsAt_of_null (Nat.zero_le 1) rfl) List.mem_cons_self
  | number x =>
    have hfails : (∃ j, FailsAt ⟨.number x, (op, a) :: rest⟩ j) ↔
        ∃ j, Value.BooleanFirst (((op, a) :: rest).map Prod.snd) j := by
      have hne : Value.number x ≠ .null := nofun
      rw [← Nat.or_exists_add_one]
      simp only [failsAt_succ hne, or_iff_right_iff_imp]
      rintro ⟨⟨b, hb⟩, -⟩
      exact absurd hb (by simp [operands])
    have hnull : .null ∈ operands ⟨.number x, (op, a) :: rest⟩ ↔
        .null ∈ ((op, a) :: rest).map Prod.snd := by simp [operands]
    rw [hfails, hnull]
    exact Value.combineAll_number x _
  | boolean b =>
    rw [Value.combineAll_cons]
    by_cases ha : a = .null
    · subst ha
      show Value.EndsBy (Value.combineAll .null rest) _ _
      rw [Value.combineAll_null]
      exact Value.endsBy_null (not_failsAt_of_null (Nat.le_refl 1) rfl) (by simp [operands])
    · rw [Value.combine_boolean_left _ b ha]
      refine Value.endsBy_error ⟨0, ⟨b, rfl⟩, fun i hi => ?_⟩
      -- Only the first pair has to be free of nulls.
      match i, hi with
      | 0, _ => simp [operands]
      | 1, _ => simpa [operands] using ha

/-! ## Chains of nodes -/

/-- The same operators between other operands. -/
def map {β : Type} (f : α → β) (s : Series α) : Series β :=
  ⟨f s.first, s.rest.map fun x => (x.1, f x.2)⟩

theorem value_eq_combineAll (read : α → Value) (s : Series α) :
    s.value (fun a => .ok (read a)) = (s.map read).first.combineAll (s.map read).rest := by
  rw [Value.combineAll, map, List.foldlM_map]
  rfl

/-- The result of a chain, from the kinds of its operands. It fails just for a boolean that no null
comes before, where the first two operands are taken together; a null after it does not help. Else
the result is null if there is a null, and a number if there is none, and never a boolean. A tree of
operations is evaluated to this result if its operands have these values. -/
theorem value_by_kinds (s : Series Value) (hrest : s.rest ≠ []) :
    ((∃ symbol left right, s.first.combineAll s.rest =
        .error (.unsupportedOperands symbol left right)) ↔ ∃ j, s.FailsAt j) ∧
      ((¬ ∃ j, s.FailsAt j) → .null ∈ s.operands → s.first.combineAll s.rest = .ok .null) ∧
      ((¬ ∃ j, s.FailsAt j) → .null ∉ s.operands →
        ∃ x, s.first.combineAll s.rest = .ok (.number x)) ∧
      (∀ b, s.first.combineAll s.rest ≠ .ok (.boolean b)) ∧
      ∀ (level : Int) (scope : Nat) (forest : Forest) (α : Type) (nodeOf : α → Node)
        (read : α → Value) (t : Series α),
        (∀ a, Run.Gives forest ((nodeOf a).eval level scope) (.ok (read a))) → t.map read = s →
          Run.Gives forest ((t.node nodeOf).eval level scope) (s.first.combineAll s.rest) := by
  have hends := s.endsBy_combineAll hrest
  refine ⟨hends.error_iff, hends.null, hends.number, ?_, ?_⟩
  · intro b hb
    by_cases hfails : ∃ j, s.FailsAt j
    · obtain ⟨symbol, left, right, herror⟩ := hends.error_iff.2 hfails
      cases herror.symm.trans hb
    · by_cases hnull : .null ∈ s.operands
      · cases (hends.null hfails hnull).symm.trans hb
      · obtain ⟨x, hx⟩ := hends.number hfails hnull
        cases hx.symm.trans hb
  · rintro level scope forest α nodeOf read t hread rfl
    rw [← value_eq_combineAll]
    exact gives_eval hread t

/-- A boolean next to a null is no mistake, and a boolean after that is none either. Between a
number and a null a boolean is one. -/
theorem value_by_kinds_masked :
    (∃ t : Series Operand, t.words = ["true", "+", "y", "*", "false"] ∧
      Run.Gives .single ((t.node Operand.node).eval 0 0) (.ok .null)) ∧
    ∃ symbol left right,
      Value.combineAll (.number (.zero false)) [(.sub, .boolean true), (.add, .null)] =
        .error (.unsupportedOperands symbol left right) := by
  constructor
  · have hname : ∀ name, Token.ofWord .identifier name ∈ (Lexer.ofSource name).tokens.1 →
        Node.IsName name := fun _ h => (Lexer.isWord_of_mem_tokens h).isName rfl
    let t : Series Operand := ⟨.identifier "true" (hname _ (by decide +kernel)),
      [(.add, .identifier "y" (hname _ (by decide +kernel))),
        (.mul, .identifier "false" (hname _ (by decide +kernel)))]⟩
    obtain ⟨-, hnull, -, -, heval⟩ :=
      value_by_kinds ⟨.boolean true, [(.add, .null), (.mul, .boolean false)]⟩
        (List.cons_ne_nil _ _)
    have hresult := hnull (not_failsAt_of_null (Nat.le_refl 1) rfl) (by simp [operands])
    have hgives := heval 0 0 .single Operand Operand.node (Operand.read 0 .single) t gives_operand
      rfl
    rw [hresult] at hgives
    exact ⟨t, rfl, hgives⟩
  · obtain ⟨hfails, -⟩ :=
      value_by_kinds ⟨.number (.zero false), [(.sub, .boolean true), (.add, .null)]⟩
        (List.cons_ne_nil _ _)
    refine hfails.2 ⟨1, ⟨true, rfl⟩, ?_⟩
    decide

end Series

end LetCalc
