import LetCalc.Proofs.Node.Loading

/-!
# Why a document is refused

A document is refused for the first thing that is wrong with it: its own type or fields, or a node
inside it that is looked at. `Node.Due` says when it is the turn of a field, `Node.Visits` which
nodes are looked at, and `Node.Faulty` what can be wrong with a node apart from the nodes inside it.
A document is refused with an error exactly if a node that is reached has that fault
(`Node.ofJson_eq_error_iff`).
-/

namespace LetCalc

/-- The kinds of reasons for which a document is refused. -/
inductive LoadError.Kind where
  /-- A document of the wrong sort stands where another is expected. -/
  | type
  /-- The sort is right, but nothing is known by that value. -/
  | value
  /-- Something is missing. -/
  | key
  /-- A number is too large. -/
  | overflow
deriving DecidableEq

/-- The kind of a reason. -/
def LoadError.kind : LoadError → LoadError.Kind
  | .notAnObject | .compoundOperator _ | .bodyNotACollection _ | .notANumber _ => .type
  | .unknownType _ | .unknownOperator _ | .unreadableNumber _ => .value
  | .missingField _ => .key
  | .numberTooLarge => .overflow

namespace Node

variable {fields fields' : List (LooseText × Json)} {key : String} {tag : Tag} {e : LoadError}

/-- The fields that need not be there. -/
def Tag.optional : Tag → List String
  | .binary => ["operator"]
  | .declaration => ["initializer"]
  | _ => []

/-- It is the turn of a field: whatever is looked at before it is in order. -/
inductive Due (fields : List (LooseText × Json)) : Tag → String → Prop
  | body : Due fields .program "body"
  | number : Due fields .number "value"
  | identifier : Due fields .identifier "name"
  | operator : Due fields .binary "operator"
  | left {op : Operator} :
      Json.field? fields "operator" = some (.text op.symbol) → Due fields .binary "left"
  | right {op : Operator} {left : Json} {node : Node} :
      Json.field? fields "operator" = some (.text op.symbol) →
        Json.field? fields "left" = some left → Denotes left node → Due fields .binary "right"
  | target : Due fields .assignment "target"
  | value {target : Json} {node : Node} :
      Json.field? fields "target" = some target → Denotes target node →
        Due fields .assignment "value"
  | name : Due fields .declaration "name"
  | initializer {name : Json} :
      Json.field? fields "name" = some name → Due fields .declaration "initializer"

/-- A document inside another one is looked at as a node. -/
inductive Visits : Json → Json → Prop
  | item {fields : List (LooseText × Json)} {before after : List Json} {item : Json} :
      HasTag fields .program →
        Json.field? fields "body" = some (.array (before ++ item :: after)) →
          (∀ d ∈ before, ∃ node, Denotes d node) → Visits (.object fields) item
  | part {fields : List (LooseText × Json)} {tag : Tag} {key : String} {part : Json} :
      HasTag fields tag → Due fields tag key → key ∈ tag.parts →
        Json.field? fields key = some part → Visits (.object fields) part

/-- What is wrong with a node, apart from the nodes inside it. -/
inductive Faulty : Json → LoadError → Prop
  | notAnObject {d : Json} : (∀ fields, d ≠ .object fields) → Faulty d .notAnObject
  | unknownType {fields : List (LooseText × Json)} : (∀ tag, ¬ HasTag fields tag) →
      Faulty (.object fields) (.unknownType ((Json.field? fields "type").getD default))
  | missingField {fields : List (LooseText × Json)} {tag : Tag} {key : String} :
      HasTag fields tag → Due fields tag key → key ∉ tag.optional →
        Json.field? fields key = none → Faulty (.object fields) (.missingField key)
  /-- The keys of an object in place of statements. -/
  | keys {fields body : List (LooseText × Json)} :
      HasTag fields .program → Json.field? fields "body" = some (.object body) → body ≠ [] →
        Faulty (.object fields) .notAnObject
  /-- The characters of a text in place of statements. -/
  | characters {fields : List (LooseText × Json)} {body : LooseText} :
      HasTag fields .program → Json.field? fields "body" = some (.scalar (.text body)) →
        body ≠ .whole "" → Faulty (.object fields) .notAnObject
  | bodyNotACollection {fields : List (LooseText × Json)} {body : Scalar} :
      HasTag fields .program → Json.field? fields "body" = some (.scalar body) →
        (∀ s, body ≠ .text s) → Faulty (.object fields) (.bodyNotACollection body.typeName)
  | notANumber {fields : List (LooseText × Json)} {value : Json} :
      HasTag fields .number → Json.field? fields "value" = some value →
        (∀ s, value = .scalar s → s = .null) →
          Faulty (.object fields) (.notANumber value.typeName)
  /-- A torn text writes no number either. -/
  | unreadableNumber {fields : List (LooseText × Json)} {t : LooseText} :
      HasTag fields .number → Json.field? fields "value" = some (.scalar (.text t)) →
        (∀ s : String, t = s → Lenient.number? s = none) →
          Faulty (.object fields) (.unreadableNumber t)
  | numberTooLarge {fields : List (LooseText × Json)} {i : Int} :
      HasTag fields .number → Json.field? fields "value" = some (.scalar (.int i)) →
        Binary64.overflowBound ≤ i.natAbs → Faulty (.object fields) .numberTooLarge
  /-- A missing operator is taken for null. -/
  | unknownOperator {fields : List (LooseText × Json)} {symbol : Scalar} :
      HasTag fields .binary →
        (Json.field? fields "operator").getD default = .scalar symbol →
          (∀ op : Operator, symbol ≠ .text op.symbol) →
            Faulty (.object fields) (.unknownOperator (.scalar symbol))
  | compoundOperator {fields : List (LooseText × Json)} {symbol : Json} :
      HasTag fields .binary → Json.field? fields "operator" = some symbol →
        (∀ s, symbol ≠ .scalar s) → Faulty (.object fields) (.compoundOperator symbol.typeName)

/-- A document is refused for a fault of its own, or because a node that is looked at is
refused. -/
def Refuses (d : Json) (e : LoadError) : Prop :=
  Faulty d e ∨ ∃ part, Visits d part ∧ ofJson part = .error e

/-! ## Values -/

/-- Reading from a field fails if the field is missing, or if it cannot be read. -/
theorem fromField_eq_error_iff {α : Type} {read : Json → Except LoadError α} :
    fromField fields key read = .error e ↔
      (Json.field? fields key = none ∧ .missingField key = e) ∨
        ∃ value, Json.field? fields key = some value ∧ read value = .error e := by
  unfold fromField
  cases Json.field? fields key <;> simp

theorem fromField_ok_eq_error_iff :
    fromField fields key .ok = .error e ↔
      Json.field? fields key = none ∧ .missingField key = e := by
  simp [fromField_eq_error_iff]

theorem elim_eq_error_iff {α : Type} {o : Option α} {e' : LoadError} :
    o.elim (.error e') .ok = (.error e : Except LoadError α) ↔ o = none ∧ e' = e := by
  cases o <;> simp

theorem ofSymbol?_eq_none_iff {s : String} :
    Operator.ofSymbol? s = none ↔ ∀ op : Operator, s ≠ op.symbol := by
  rw [Option.eq_none_iff_forall_ne_some]
  exact forall_congr' fun op => not_congr ofSymbol?_eq_some_iff

/-- A scalar that is no symbol of an operator is refused as unknown. -/
theorem operatorOfJson_of_scalar {symbol : Scalar}
    (h : (Json.field? fields "operator").getD default = .scalar symbol)
    (hsymbol : ∀ op : Operator, symbol ≠ .text op.symbol) :
    operatorOfJson fields = .error (.unknownOperator (.scalar symbol)) := by
  unfold operatorOfJson
  rw [h]
  cases symbol with
  | text t =>
    cases t with
    | whole s =>
      have hnone : Operator.ofSymbol? s = none :=
        ofSymbol?_eq_none_iff.2 fun op hop => hsymbol op (hop ▸ rfl)
      exact elim_eq_error_iff.2 ⟨hnone, rfl⟩
    | torn points h => rfl
  | _ => rfl

/-- A collection is refused for its type. -/
theorem operatorOfJson_of_compound {symbol : Json}
    (h : Json.field? fields "operator" = some symbol) (hsymbol : ∀ s, symbol ≠ .scalar s) :
    operatorOfJson fields = .error (.compoundOperator symbol.typeName) := by
  unfold operatorOfJson
  rw [h]
  cases symbol with
  | scalar s => exact absurd rfl (hsymbol s)
  | _ => rfl

theorem faulty_of_operatorOfJson (htag : HasTag fields .binary)
    (h : operatorOfJson fields = .error e) : Faulty (.object fields) e := by
  cases hsymbol : (Json.field? fields "operator").getD default with
  | scalar symbol =>
    have hunknown : ∀ op : Operator, symbol ≠ .text op.symbol := by
      rintro op rfl
      unfold operatorOfJson at h
      rw [hsymbol] at h
      exact nomatch (elim_eq_error_iff.1 h).1.symm.trans (Operator.ofSymbol?_symbol op)
    rw [operatorOfJson_of_scalar hsymbol hunknown] at h
    obtain rfl := Except.error.inj h
    exact .unknownOperator htag hsymbol hunknown
  | _ =>
    -- A missing field would have been a scalar.
    cases hfield : Json.field? fields "operator" with
    | none =>
      rw [hfield] at hsymbol
      exact nomatch hsymbol
    | some symbol =>
      rw [hfield, Option.getD_some] at hsymbol
      have hcompound : ∀ s, symbol ≠ .scalar s := by
        rintro s rfl
        exact nomatch hsymbol
      rw [operatorOfJson_of_compound hfield hcompound] at h
      obtain rfl := Except.error.inj h
      exact .compoundOperator htag hfield hcompound

theorem faulty_of_numberOfJson {value : Json} (htag : HasTag fields .number)
    (hvalue : Json.field? fields "value" = some value) (h : numberOfJson value = .error e) :
    Faulty (.object fields) e := by
  unfold numberOfJson at h
  split at h
  next => exact nomatch h
  next i =>
    obtain ⟨hi, rfl⟩ := elim_eq_error_iff.1 h
    exact .numberTooLarge htag hvalue (Binary64.ofInt?_eq_none_iff.1 hi)
  next => exact nomatch h
  next s =>
    obtain ⟨hs, rfl⟩ := elim_eq_error_iff.1 h
    exact .unreadableNumber htag hvalue fun _ heq => LooseText.whole.inj heq ▸ hs
  next t htorn =>
    obtain rfl := Except.error.inj h
    exact .unreadableNumber htag hvalue fun s heq => absurd heq (htorn s)
  next hbool hint hfloat _ htext =>
    obtain rfl := Except.error.inj h
    refine .notANumber htag hvalue ?_
    rintro s rfl
    cases s with
    | null => rfl
    | bool b => exact absurd rfl (hbool b)
    | int i => exact absurd rfl (hint i)
    | float x => exact absurd rfl (hfloat x)
    | text s => exact absurd rfl (htext s)

/-- The statements are looked at in turn, up to the first that is refused. -/
theorem refuses_of_bodyOfJson {body : Json} (htag : HasTag fields .program)
    (hbody : Json.field? fields "body" = some body) (h : bodyOfJson body = .error e) :
    Refuses (.object fields) e := by
  cases body with
  | array items =>
    rw [bodyOfJson, listOfJson_eq_mapM] at h
    obtain ⟨before, item, after, rfl, hbefore, hitem⟩ := mapM_eq_error_iff.1 h
    refine .inr ⟨item, .item htag hbody ?_, hitem⟩
    intro d hd
    obtain ⟨node, hnode⟩ := hbefore d hd
    exact ⟨node, ofJson_eq_ok_iff.1 hnode⟩
  | object body =>
    obtain ⟨hne, rfl⟩ : body ≠ [] ∧ .notAnObject = e := by simpa [bodyOfJson, ite_eq_iff] using h
    exact .inl (.keys htag hbody hne)
  | scalar body =>
    cases body with
    | text body =>
      obtain ⟨hne, rfl⟩ : body ≠ .whole "" ∧ .notAnObject = e := by
        simpa [bodyOfJson, ite_eq_iff] using h
      exact .inl (.characters htag hbody hne)
    | _ =>
      simp only [bodyOfJson, Except.error.injEq] at h
      subst h
      exact .inl (.bodyNotACollection htag hbody (by simp))

/-! ## Nodes -/

/-- A field that must hold a node does not. -/
theorem refuses_of_part (htag : HasTag fields tag) (hdue : Due fields tag key)
    (hkey : key ∈ tag.parts) (hrequired : key ∉ tag.optional)
    (h : fromField fields key ofJson = .error e) : Refuses (.object fields) e := by
  obtain ⟨hnone, rfl⟩ | ⟨part, hpart, h⟩ := fromField_eq_error_iff.1 h
  · exact .inl (.missingField htag hdue hrequired hnone)
  · exact .inr ⟨part, .part htag hdue hkey hpart, h⟩

/-- What is wrong with a document of a type is wrong with it or with a part of it. -/
theorem refuses_of_read (htag : HasTag fields tag) (h : tag.read fields = .error e) :
    Refuses (.object fields) e := by
  cases tag with
  | program =>
    obtain ⟨hnone, rfl⟩ | ⟨body, hbody, h⟩ :=
      fromField_eq_error_iff.1 (bind_pure_eq_error_iff.1 h)
    · exact .inl (.missingField htag .body (by simp [Tag.optional]) hnone)
    · exact refuses_of_bodyOfJson htag hbody h
  | number =>
    obtain ⟨hnone, rfl⟩ | ⟨value, hvalue, h⟩ :=
      fromField_eq_error_iff.1 (bind_pure_eq_error_iff.1 h)
    · exact .inl (.missingField htag .number (by simp [Tag.optional]) hnone)
    · exact .inl (faulty_of_numberOfJson htag hvalue h)
  | identifier =>
    obtain ⟨hnone, rfl⟩ := fromField_ok_eq_error_iff.1 (bind_pure_eq_error_iff.1 h)
    exact .inl (.missingField htag .identifier (by simp [Tag.optional]) hnone)
  | binary =>
    obtain h | ⟨op, hop, h⟩ := bind_eq_error_iff.1 h
    · exact .inl (faulty_of_operatorOfJson htag h)
    have hop := operatorOfJson_eq_ok_iff.1 hop
    obtain h | ⟨leftNode, hl, h⟩ := bind_eq_error_iff.1 h
    · exact refuses_of_part htag (.left hop) (by simp [Tag.parts]) (by simp [Tag.optional]) h
    obtain ⟨left, hleft, hl⟩ := fromField_eq_ok_iff.1 hl
    exact refuses_of_part htag (.right hop hleft (ofJson_eq_ok_iff.1 hl)) (by simp [Tag.parts])
      (by simp [Tag.optional]) (bind_pure_eq_error_iff.1 h)
  | assignment =>
    obtain h | ⟨targetNode, ht, h⟩ := bind_eq_error_iff.1 h
    · exact refuses_of_part htag .target (by simp [Tag.parts]) (by simp [Tag.optional]) h
    obtain ⟨target, htarget, ht⟩ := fromField_eq_ok_iff.1 ht
    exact refuses_of_part htag (.value htarget (ofJson_eq_ok_iff.1 ht)) (by simp [Tag.parts])
      (by simp [Tag.optional]) (bind_pure_eq_error_iff.1 h)
  | declaration =>
    obtain h | ⟨name, hname, h⟩ := bind_eq_error_iff.1 h
    · obtain ⟨hnone, rfl⟩ := fromField_ok_eq_error_iff.1 h
      exact .inl (.missingField htag .name (by simp [Tag.optional]) hnone)
    obtain ⟨_, hname, ⟨⟩⟩ := fromField_eq_ok_iff.1 hname
    have h := bind_pure_eq_error_iff.1 h
    -- Without an initializer there is nothing more that could be refused.
    cases hinitializer : Json.field? fields "initializer" with
    | none => simp [hinitializer] at h
    | some initializer =>
      rw [hinitializer] at h
      refine .inr ⟨initializer, ?_, h⟩
      exact .part htag (.initializer hname) (by simp [Tag.parts]) hinitializer
  | null => simp [Tag.read] at h

theorem ofJson_of_not_object {d : Json} (h : ∀ fields, d ≠ .object fields) :
    ofJson d = .error .notAnObject := by
  rw [ofJson]
  exact h

/-- A document that is not loaded has a faulty part. -/
theorem refuses_of_ofJson {d : Json} (h : ofJson d = .error e) : Refuses d e := by
  by_cases hobject : ∃ fields, d = .object fields
  · obtain ⟨fields, rfl⟩ := hobject
    by_cases htag : ∃ tag, HasTag fields tag
    · obtain ⟨tag, htag⟩ := htag
      rw [ofJson_object htag] at h
      exact refuses_of_read htag h
    · have huntyped := not_exists.1 htag
      rw [ofJson_of_untyped huntyped] at h
      obtain rfl := Except.error.inj h
      exact .inl (.unknownType huntyped)
  · have hother := not_exists.1 hobject
    rw [ofJson_of_not_object hother] at h
    obtain rfl := Except.error.inj h
    exact .inl (.notAnObject hother)

/-- A field whose turn it is holds a node that is refused, or it is missing. -/
theorem read_of_due (hdue : Due fields tag key) (hkey : key ∈ tag.parts)
    (h : fromField fields key ofJson = .error e)
    (hthere : key ∈ tag.optional → Json.field? fields key ≠ none) :
    tag.read fields = .error e := by
  cases hdue with
  | left hop =>
    refine bind_eq_error_iff.2 (.inr ⟨_, operatorOfJson_eq_ok_iff.2 hop, ?_⟩)
    exact bind_eq_error_iff.2 (.inl h)
  | right hop hleft hl =>
    refine bind_eq_error_iff.2 (.inr ⟨_, operatorOfJson_eq_ok_iff.2 hop, ?_⟩)
    have hl := fromField_eq_ok_iff.2 ⟨_, hleft, ofJson_eq_ok_iff.2 hl⟩
    refine bind_eq_error_iff.2 (.inr ⟨_, hl, ?_⟩)
    exact bind_eq_error_iff.2 (.inl h)
  | target => exact bind_eq_error_iff.2 (.inl h)
  | value htarget ht =>
    have ht := fromField_eq_ok_iff.2 ⟨_, htarget, ofJson_eq_ok_iff.2 ht⟩
    refine bind_eq_error_iff.2 (.inr ⟨_, ht, ?_⟩)
    exact bind_eq_error_iff.2 (.inl h)
  | initializer hname =>
    obtain ⟨hnone, -⟩ | ⟨part, hpart, h⟩ := fromField_eq_error_iff.1 h
    · exact absurd hnone (hthere (by simp [Tag.optional]))
    · refine bind_eq_error_iff.2 (.inr ⟨_, fromField_eq_ok_iff.2 ⟨_, hname, rfl⟩, ?_⟩)
      rw [hpart]
      exact bind_eq_error_iff.2 (.inl h)
  | _ => simp [Tag.parts] at hkey

/-- A required field that is due and missing is told by its name. -/
theorem read_of_missing (hdue : Due fields tag key) (hrequired : key ∉ tag.optional)
    (hnone : Json.field? fields key = none) : tag.read fields = .error (.missingField key) := by
  have hmissing : ∀ {α : Type} (read : Json → Except LoadError α),
      fromField fields key read = .error (.missingField key) :=
    fun _ => fromField_eq_error_iff.2 (.inl ⟨hnone, rfl⟩)
  by_cases hkey : key ∈ tag.parts
  · exact read_of_due hdue hkey (hmissing ofJson) fun hoptional => absurd hoptional hrequired
  · cases hdue with
    | body => exact bind_eq_error_iff.2 (.inl (hmissing _))
    | number => exact bind_eq_error_iff.2 (.inl (hmissing _))
    | identifier => exact bind_eq_error_iff.2 (.inl (hmissing _))
    | name => exact bind_eq_error_iff.2 (.inl (hmissing _))
    | operator => simp [Tag.optional] at hrequired
    | _ => simp [Tag.parts] at hkey

theorem ofJson_of_body {body : Json} (htag : HasTag fields .program)
    (hbody : Json.field? fields "body" = some body) (h : bodyOfJson body = .error e) :
    ofJson (.object fields) = .error e := by
  rw [ofJson_object htag]
  exact bind_eq_error_iff.2 (.inl (fromField_eq_error_iff.2 (.inr ⟨body, hbody, h⟩)))

theorem ofJson_of_number {value : Json} (htag : HasTag fields .number)
    (hvalue : Json.field? fields "value" = some value) (h : numberOfJson value = .error e) :
    ofJson (.object fields) = .error e := by
  rw [ofJson_object htag]
  exact bind_eq_error_iff.2 (.inl (fromField_eq_error_iff.2 (.inr ⟨value, hvalue, h⟩)))

/-- A faulty document is not loaded. -/
theorem ofJson_of_faulty {d : Json} (h : Faulty d e) : ofJson d = .error e := by
  cases h with
  | notAnObject h => exact ofJson_of_not_object h
  | unknownType h => exact ofJson_of_untyped h
  | missingField htag hdue hrequired hnone =>
    rw [ofJson_object htag]
    exact read_of_missing hdue hrequired hnone
  | keys htag hbody hne =>
    apply ofJson_of_body htag hbody
    rw [bodyOfJson, if_neg (by simpa using hne)]
  | characters htag hbody hne =>
    apply ofJson_of_body htag hbody
    rw [bodyOfJson, if_neg hne]
  | bodyNotACollection htag hbody hbodyText =>
    apply ofJson_of_body htag hbody
    rw [bodyOfJson]
    exact hbodyText
  | @notANumber fields value htag hvalue hscalar =>
    apply ofJson_of_number htag hvalue
    -- Null is the one scalar without a number.
    cases value with
    | scalar s =>
      obtain rfl := hscalar s rfl
      rfl
    | _ => rfl
  | @unreadableNumber fields t htag hvalue hs =>
    apply ofJson_of_number htag hvalue
    cases t with
    | whole s => exact elim_eq_error_iff.2 ⟨hs s rfl, rfl⟩
    | torn points h => rfl
  | numberTooLarge htag hvalue hi =>
    apply ofJson_of_number htag hvalue
    rw [numberOfJson]
    exact elim_eq_error_iff.2 ⟨Binary64.ofInt?_eq_none_iff.2 hi, rfl⟩
  | unknownOperator htag hsymbol hunknown =>
    rw [ofJson_object htag]
    exact bind_eq_error_iff.2 (.inl (operatorOfJson_of_scalar hsymbol hunknown))
  | compoundOperator htag hsymbol hcompound =>
    rw [ofJson_object htag]
    exact bind_eq_error_iff.2 (.inl (operatorOfJson_of_compound hsymbol hcompound))

/-- Nor is a document with a part that is visited and not loaded. -/
theorem ofJson_of_visits {d part : Json} (h : Visits d part) (hpart : ofJson part = .error e) :
    ofJson d = .error e := by
  cases h with
  | @item fields before after item htag hbody hbefore =>
    apply ofJson_of_body htag hbody
    rw [bodyOfJson, listOfJson_eq_mapM]
    refine mapM_eq_error_iff.2 ⟨before, part, after, rfl, ?_, hpart⟩
    intro d hd
    obtain ⟨node, hnode⟩ := hbefore d hd
    exact ⟨node, ofJson_eq_ok_iff.2 hnode⟩
  | part htag hdue hkey hfield =>
    rw [ofJson_object htag]
    refine read_of_due hdue hkey (fromField_eq_error_iff.2 (.inr ⟨part, hfield, hpart⟩)) ?_
    simp [hfield]

theorem Visits.sizeOf_lt {d part : Json} (h : Visits d part) : sizeOf part < sizeOf d := by
  cases h with
  | item _ hbody => exact sizeOf_item_lt hbody (by simp)
  | part _ _ _ hfield => exact sizeOf_field_lt hfield

/-- A node is reached from a document that it stands in. -/
def Reaches : Json → Json → Prop := Relation.ReflTransGen Visits

/-- The error is the fault of a node that is reached, and such a fault is always the error. -/
theorem ofJson_eq_error_iff {d : Json} :
    ofJson d = .error e ↔ ∃ part, Reaches d part ∧ Faulty part e := by
  constructor
  · intro h
    -- The way from a document to the fault goes to ever smaller nodes.
    induction hsize : sizeOf d using Nat.strongRecOn generalizing d with
    | ind size ih =>
      subst hsize
      obtain hfaulty | ⟨part, hvisits, hpart⟩ := refuses_of_ofJson h
      · exact ⟨d, .refl, hfaulty⟩
      · obtain ⟨faulty, hreaches, hfaulty⟩ := ih _ hvisits.sizeOf_lt hpart rfl
        exact ⟨faulty, .head hvisits hreaches, hfaulty⟩
  · rintro ⟨part, hreaches, hfaulty⟩
    -- And the error is handed back along the same way.
    induction hreaches using Relation.ReflTransGen.head_induction_on with
    | refl => exact ofJson_of_faulty hfaulty
    | head hvisits _ ih => exact ofJson_of_visits hvisits ih

/-! ## The order of the fields -/

/-- Where keys do not repeat, a field is found wherever it stands. -/
theorem field?_eq_some_iff {value : Json} (hkeys : (fields.map (·.1)).Nodup) :
    Json.field? fields key = some value ↔ (.whole key, value) ∈ fields := by
  induction fields with
  | nil => simp [Json.field?]
  | cons field fields ih =>
    obtain ⟨k, v⟩ := field
    rw [List.map_cons, List.nodup_cons] at hkeys
    obtain ⟨hnotMem, hkeys⟩ := hkeys
    by_cases hk : k = .whole key
    · subst hk
      have hnone : (.whole key, value) ∉ fields := by
        intro hmem
        exact hnotMem (List.mem_map.2 ⟨_, hmem, rfl⟩)
      simp [Json.field?, hnone, eq_comm]
    · have hskip : Json.field? ((k, v) :: fields) key = Json.field? fields key := by
        simp [Json.field?, hk]
      rw [hskip, ih hkeys, List.mem_cons, Prod.mk.injEq]
      exact ⟨.inr, fun h => h.resolve_left fun heq => hk heq.1.symm⟩

/-- The order of fields does not matter if no two have one name. -/
theorem field?_eq_of_perm (hperm : fields.Perm fields') (hkeys : (fields.map (·.1)).Nodup)
    (key : String) : Json.field? fields key = Json.field? fields' key := by
  have hkeys' : (fields'.map (·.1)).Nodup := (hperm.map (·.1)).nodup_iff.1 hkeys
  ext value
  rw [field?_eq_some_iff hkeys, field?_eq_some_iff hkeys', hperm.mem_iff]

theorem alike_of_perm (hperm : fields.Perm fields') (hkeys : (fields.map (·.1)).Nodup) :
    Alike (.object fields) (.object fields') := by
  have hfield := field?_eq_of_perm hperm hkeys
  by_cases htag : ∃ tag, HasTag fields tag
  · obtain ⟨tag, htag⟩ := htag
    have htag' : HasTag fields' tag := (hfield "type").symm.trans htag
    refine .typed htag htag' (fun key _ => hfield key) (fun key _ => by rw [hfield key]) ?_
    intro key _ part part' hpart hpart'
    rw [hfield key, hpart'] at hpart
    obtain rfl := Option.some.inj hpart
    exact .same part'
  · exact .untyped (not_exists.1 htag) (hfield "type")

/-! ## Exactly what is loaded -/

/-- A number that is too large is reached wherever loading fails for one. -/
theorem kind_of_ofJson {d : Json} (h : ofJson d = .error e) :
    e.kind = .type ∨ e.kind = .value ∨ e.kind = .key ∨
      e.kind = .overflow ∧ ∃ fields i, Reaches d (.object fields) ∧ HasTag fields .number ∧
        Json.field? fields "value" = some (.scalar (.int i)) ∧
          Binary64.overflowBound ≤ i.natAbs := by
  obtain ⟨part, hreaches, hfaulty⟩ := ofJson_eq_error_iff.1 h
  cases hfaulty with
  | numberTooLarge htag hvalue hi => simpa [LoadError.kind] using ⟨_, hreaches, htag, _, hvalue, hi⟩
  | _ => simp [LoadError.kind]

/-- Exactly the documents that denote a node are loaded, as that node. Only the fields that belong
to the type of a node count, in whatever order they stand. Any other document is refused, for the
fault of a node that is reached: something is of the wrong type, unknown or missing, or else a whole
number was reached that is past the largest finite one. -/
theorem loads_exactly :
    (∀ d node, ofJson d = .ok node ↔ Denotes d node) ∧
      (∀ d d', Alike d d' → ofJson d = ofJson d') ∧
      (∀ fields fields', fields.Perm fields' → (fields.map (·.1)).Nodup →
        Alike (.object fields) (.object fields')) ∧
      (∀ d e, ofJson d = .error e ↔ ∃ part, Reaches d part ∧ Faulty part e) ∧
      (∀ d e, ofJson d = .error e → e.kind = .type ∨ e.kind = .value ∨ e.kind = .key ∨
        e.kind = .overflow ∧ ∃ fields i, Reaches d (.object fields) ∧ HasTag fields .number ∧
          Json.field? fields "value" = some (.scalar (.int i)) ∧
            Binary64.overflowBound ≤ i.natAbs) := by
  refine ⟨fun _ _ => ofJson_eq_ok_iff, fun _ _ => ofJson_eq_of_alike, fun _ _ => alike_of_perm,
    fun _ _ => ofJson_eq_error_iff, fun _ _ => kind_of_ofJson⟩

/-- The number on the right is reached after a declaration that is loaded, whatever its name is.
Other fields and another order make no difference. -/
theorem loads_exactly_overflow :
    let number : Json :=
      .object [("type", .text "Number"), ("value", .scalar (.int (Nat.pow 10 400)))]
    let left : List (LooseText × Json) :=
      [("name", .array []), ("type", .text "VarDeclaration"), ("is_const", .text "")]
    let left' : List (LooseText × Json) :=
      [("type", .text "VarDeclaration"), ("line", .text "1"), ("is_const", .text ""),
        ("name", .array [])]
    let sum : List (LooseText × Json) := [("type", .text "BinaryExpr"), ("operator", .text "+"),
      ("left", .object left), ("right", number)]
    let sum' : List (LooseText × Json) := [("right", number), ("left", .object left'),
      ("body", .array []), ("operator", .text "+"), ("type", .text "BinaryExpr")]
    ofJson (.object left) = .ok (.declaration (.array []) false .null) ∧
      ofJson (.object sum) = ofJson (.object sum') ∧
        ofJson (.object sum) = .error .numberTooLarge ∧
          ∃ fields i, Reaches (.object sum) (.object fields) ∧ HasTag fields .number ∧
            Json.field? fields "value" = some (.scalar (.int i)) ∧
              Binary64.overflowBound ≤ i.natAbs := by
  intro number left left' sum sum'
  obtain ⟨hok, halike, -, herror, hkind⟩ := loads_exactly
  have hleft : Denotes (.object left) (.declaration (.array []) false .null) :=
    .declaration rfl rfl rfl
  have hlefts : Alike (.object left) (.object left') := by
    have htag : HasTag left .declaration := rfl
    have htag' : HasTag left' .declaration := rfl
    refine .typed htag htag' ?_ ?_ ?_
    · simp [Tag.values, Json.field?, left, left']
    · simp [Tag.parts, Json.field?, left, left']
    · simp [Tag.parts, Json.field?, left, left']
  have htag : HasTag sum .binary := rfl
  have hsums : Alike (.object sum) (.object sum') := by
    have htag' : HasTag sum' .binary := rfl
    refine .typed htag htag' ?_ ?_ ?_
    · simp [Tag.values, Json.field?, sum, sum']
    · simp [Tag.parts, Json.field?, sum, sum']
    · simp [Tag.parts, Json.field?, sum, sum', hlefts, Alike.same]
  have hreaches : Reaches (.object sum) number := by
    have hop : Json.field? sum "operator" = some (.text (Operator.symbol .add)) := rfl
    exact .single (.part htag (.right hop rfl hleft) (by simp [Tag.parts]) rfl)
  have hlarge : ofJson (.object sum) = .error .numberTooLarge :=
    (herror _ _).2 ⟨number, hreaches, .numberTooLarge rfl rfl (by decide +kernel)⟩
  refine ⟨(hok _ _).2 hleft, halike _ _ hsums, hlarge, ?_⟩
  simpa [LoadError.kind] using hkind _ _ hlarge

end Node

end LetCalc
