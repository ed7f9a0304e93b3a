import LetCalc.Node.Document
import LetCalc.Proofs.Decimal.Overflow
import LetCalc.Proofs.Result

/-!
# What is loaded from a document

A document is loaded exactly if it denotes a node, and then that node is loaded
(`Node.ofJson_eq_ok_iff`). What a document denotes is said by `Node.Denotes`, one rule for each type
of node, in terms of the fields that belong to the type. Loading looks at nothing else: documents
that agree in these fields are loaded alike, whatever the order of the fields and whatever other
fields there are (`Node.ofJson_eq_of_alike`).
-/

namespace LetCalc

/-- The number that a scalar is converted to. -/
inductive Scalar.Converts : Scalar → Binary64 → Prop
  | false : Converts (.bool false) (.zero false)
  | true : Converts (.bool true) (.ofUnits false Binary64.unitsPerOne 1)
  | int {i : Int} : i.natAbs < Binary64.overflowBound →
      Converts (.int i) (.ofUnits (i < 0) (i.natAbs * Binary64.unitsPerOne) 1)
  | float (x : Binary64) : Converts (.float x) x
  | text {s : String} {x : Binary64} : Lenient.number? s = some x → Converts (.text s) x

namespace Node

variable {α : Type} {fields fields' : List (LooseText × Json)} {key : String}

/-- The types of nodes. -/
inductive Tag where
  | program
  | number
  | identifier
  | binary
  | assignment
  | declaration
  | null

/-- The name of a type, as documents write it. -/
def Tag.name : Tag → String
  | .program => "Program"
  | .number => "Number"
  | .identifier => "Identifier"
  | .binary => "BinaryExpr"
  | .assignment => "AssignmentExpr"
  | .declaration => "VarDeclaration"
  | .null => "Null"

/-- The fields are those of a node of the given type. -/
def HasTag (fields : List (LooseText × Json)) (tag : Tag) : Prop :=
  Json.field? fields "type" = some (.text tag.name)

/-- The fields whose values are nodes. -/
def Tag.parts : Tag → List String
  | .binary => ["left", "right"]
  | .assignment => ["target", "value"]
  | .declaration => ["initializer"]
  | _ => []

/-- The fields with other values. -/
def Tag.values : Tag → List String
  | .program => ["body"]
  | .number => ["value"]
  | .identifier => ["name"]
  | .binary => ["operator"]
  | .declaration => ["name", "is_const"]
  | _ => []

/-- Whether a declaration is constant: if it says so. -/
def declaresConst (fields : List (LooseText × Json)) : Bool :=
  ((Json.field? fields "is_const").map Json.isTrue).getD false

/-- A document denotes a node. -/
inductive Denotes : Json → Node → Prop
  | program {fields : List (LooseText × Json)} {items : List Json} {body : List Node} :
      HasTag fields .program → Json.field? fields "body" = some (.array items) →
        items.length = body.length →
          (∀ {item node}, (item, node) ∈ items.zip body → Denotes item node) →
            Denotes (.object fields) (.program body)
  /-- A text or an object without anything in it is a body as well. -/
  | emptyProgram {fields : List (LooseText × Json)} {body : Json} :
      HasTag fields .program → Json.field? fields "body" = some body →
        body = .text "" ∨ body = .object [] → Denotes (.object fields) (.program [])
  | number {fields : List (LooseText × Json)} {value : Scalar} {x : Binary64} :
      HasTag fields .number → Json.field? fields "value" = some (.scalar value) →
        value.Converts x → Denotes (.object fields) (.number x)
  | identifier {fields : List (LooseText × Json)} {name : Json} :
      HasTag fields .identifier → Json.field? fields "name" = some name →
        Denotes (.object fields) (.identifier name)
  | binary {fields : List (LooseText × Json)} {op : Operator} {left right : Json}
      {leftNode rightNode : Node} :
      HasTag fields .binary → Json.field? fields "operator" = some (.text op.symbol) →
        Json.field? fields "left" = some left → Json.field? fields "right" = some right →
          Denotes left leftNode → Denotes right rightNode →
            Denotes (.object fields) (.binary op leftNode rightNode)
  | assignment {fields : List (LooseText × Json)} {target value : Json}
      {targetNode valueNode : Node} :
      HasTag fields .assignment → Json.field? fields "target" = some target →
        Json.field? fields "value" = some value → Denotes target targetNode →
          Denotes value valueNode → Denotes (.object fields) (.assignment targetNode valueNode)
  | declaration {fields : List (LooseText × Json)} {name : Json} :
      HasTag fields .declaration → Json.field? fields "name" = some name →
        Json.field? fields "initializer" = none →
          Denotes (.object fields) (.declaration name (declaresConst fields) .null)
  | initialized {fields : List (LooseText × Json)} {name initializer : Json} {node : Node} :
      HasTag fields .declaration → Json.field? fields "name" = some name →
        Json.field? fields "initializer" = some initializer → Denotes initializer node →
          Denotes (.object fields) (.declaration name (declaresConst fields) node)
  | null {fields : List (LooseText × Json)} :
      HasTag fields .null → Denotes (.object fields) .null

/-- Documents that agree in the fields that belong to their types. -/
inductive Alike : Json → Json → Prop
  | same (d : Json) : Alike d d
  | untyped {fields fields' : List (LooseText × Json)} :
      (∀ tag, ¬ HasTag fields tag) → Json.field? fields "type" = Json.field? fields' "type" →
        Alike (.object fields) (.object fields')
  | typed {fields fields' : List (LooseText × Json)} {tag : Tag} :
      HasTag fields tag → HasTag fields' tag →
        (∀ key ∈ tag.values, Json.field? fields key = Json.field? fields' key) →
          (∀ key ∈ tag.parts, (Json.field? fields key).isSome = (Json.field? fields' key).isSome) →
            (∀ key ∈ tag.parts, ∀ part part', Json.field? fields key = some part →
              Json.field? fields' key = some part' → Alike part part') →
                Alike (.object fields) (.object fields')
  | program {fields fields' : List (LooseText × Json)} {items items' : List Json} :
      HasTag fields .program → HasTag fields' .program →
        Json.field? fields "body" = some (.array items) →
          Json.field? fields' "body" = some (.array items') → items.length = items'.length →
            (∀ {item item'}, (item, item') ∈ items.zip items' → Alike item item') →
              Alike (.object fields) (.object fields')

/-! ## Loading, type by type -/

/-- Reads the value of a field that must be there. -/
def fromField (fields : List (LooseText × Json)) (key : String)
    (read : Json → Except LoadError α) : Except LoadError α :=
  (Json.field? fields key).elim (.error (.missingField key)) read

/-- Reads a node of a given type from its fields. -/
def Tag.read (fields : List (LooseText × Json)) : Tag → Except LoadError Node
  | .program => do return .program (← fromField fields "body" bodyOfJson)
  | .number => do return .number (← fromField fields "value" numberOfJson)
  | .identifier => do return .identifier (← fromField fields "name" .ok)
  | .binary => do
    let op ← operatorOfJson fields
    let left ← fromField fields "left" ofJson
    let right ← fromField fields "right" ofJson
    return .binary op left right
  | .assignment => do
    let target ← fromField fields "target" ofJson
    let value ← fromField fields "value" ofJson
    return .assignment target value
  | .declaration => do
    let name ← fromField fields "name" .ok
    let initializer ← (Json.field? fields "initializer").elim (.ok .null) ofJson
    return .declaration name (declaresConst fields) initializer
  | .null => .ok .null

theorem requiredField_of_some {value : Json} (h : Json.field? fields key = some value) :
    requiredField fields key = .ok ⟨value, Json.sizeOf_lt_of_field? h⟩ := by
  unfold requiredField
  split
  next found hfound =>
    obtain rfl := Option.some.inj (hfound.symm.trans h)
    rfl
  next hnone => exact nomatch hnone.symm.trans h

theorem requiredField_of_none (h : Json.field? fields key = none) :
    requiredField fields key = .error (.missingField key) := by
  unfold requiredField
  split <;> simp_all

/-- To require a field is to read it, or to tell that it is missing. -/
theorem requiredField_bind (f : Json → Except LoadError α) :
    (requiredField fields key >>= fun v => f v.1) = fromField fields key f := by
  unfold fromField
  cases h : Json.field? fields key with
  | none =>
    rw [requiredField_of_none h]
    rfl
  | some value =>
    rw [requiredField_of_some h]
    rfl

theorem fromField_bind {β : Type} (read : Json → Except LoadError α)
    (f : α → Except LoadError β) :
    (fromField fields key read >>= f) = fromField fields key fun value => read value >>= f := by
  unfold fromField
  cases Json.field? fields key with
  | none => rfl
  | some value => rfl

/-- A node with a type is read as the type says. -/
theorem ofJson_object {tag : Tag} (h : HasTag fields tag) :
    ofJson (.object fields) = tag.read fields := by
  unfold HasTag Json.text at h
  rw [ofJson, h]
  -- The fields are looked up in the same order; what goes is that their values are smaller.
  cases tag with
  | program => exact (requiredField_bind _).trans (fromField_bind _ _).symm
  | number => exact (requiredField_bind _).trans (fromField_bind _ _).symm
  | identifier =>
    rw [Tag.read, fromField_bind]
    exact requiredField_bind fun name => .ok (identifier name)
  | binary =>
    refine bind_congr fun op => ?_
    rw [fromField_bind, ← requiredField_bind]
    refine bind_congr fun left => bind_congr fun left => ?_
    rw [fromField_bind, ← requiredField_bind]
  | assignment =>
    rw [Tag.read, fromField_bind, ← requiredField_bind]
    refine bind_congr fun target => bind_congr fun target => ?_
    rw [fromField_bind, ← requiredField_bind]
  | declaration =>
    rw [Tag.read, fromField_bind, ← requiredField_bind]
    refine bind_congr fun name => ?_
    cases hinitializer : Json.field? fields "initializer" with
    | none =>
      dsimp only
      rw [requiredField_of_none hinitializer]
      rfl
    | some initializer =>
      dsimp only
      rw [requiredField_of_some hinitializer]
      rfl
  | null => rfl

/-- A document without one of the types is refused. -/
theorem ofJson_of_untyped (h : ∀ tag, ¬ HasTag fields tag) :
    ofJson (.object fields) =
      .error (.unknownType ((Json.field? fields "type").getD default)) := by
  rw [ofJson]
  split
  next htype => exact absurd htype (h .program)
  next htype => exact absurd htype (h .number)
  next htype => exact absurd htype (h .identifier)
  next htype => exact absurd htype (h .binary)
  next htype => exact absurd htype (h .assignment)
  next htype => exact absurd htype (h .declaration)
  next htype => exact absurd htype (h .null)
  next => rfl

/-- Reading from a field succeeds if the field is there and can be read. -/
theorem fromField_eq_ok_iff {read : Json → Except LoadError α} {a : α} :
    fromField fields key read = .ok a ↔
      ∃ value, Json.field? fields key = some value ∧ read value = .ok a := by
  unfold fromField
  cases Json.field? fields key <;> simp

/-- Each operator has one symbol. -/
theorem ofSymbol?_eq_some_iff {s : String} {op : Operator} :
    Operator.ofSymbol? s = some op ↔ s = op.symbol := by
  constructor
  · unfold Operator.ofSymbol?
    split_ifs <;> rintro ⟨⟩ <;> assumption
  · rintro rfl
    exact Operator.ofSymbol?_symbol op

theorem elim_eq_ok_iff {o : Option α} {e : LoadError} {a : α} :
    o.elim (.error e) .ok = (.ok a : Except LoadError α) ↔ o = some a := by
  cases o <;> simp

/-- An operator is loaded from its symbol only. -/
theorem operatorOfJson_eq_ok_iff {op : Operator} :
    operatorOfJson fields = .ok op ↔
      Json.field? fields "operator" = some (.text op.symbol) := by
  unfold operatorOfJson
  cases Json.field? fields "operator" with
  | none => exact ⟨nofun, nofun⟩
  | some symbol =>
    rw [Option.getD_some]
    split
    next s => simp [elim_eq_ok_iff, ofSymbol?_eq_some_iff, Json.text]
    next s hs => simpa [Json.text] using fun h => hs _ h
    next hs => simpa [Json.text] using fun h => hs _ h

theorem numberOfJson_scalar_eq_ok_iff {s : Scalar} {x : Binary64} :
    numberOfJson (.scalar s) = .ok x ↔ s.Converts x := by
  cases s with
  | null => exact ⟨nofun, nofun⟩
  | bool b =>
    rw [numberOfJson, Except.ok.injEq]
    cases b with
    | false =>
      rw [if_neg Bool.false_ne_true]
      exact ⟨fun h => h ▸ .false, fun h => by cases h; rfl⟩
    | true =>
      rw [if_pos rfl]
      exact ⟨fun h => h ▸ .true, fun h => by cases h; rfl⟩
  | int i =>
    rw [numberOfJson, elim_eq_ok_iff, Binary64.ofInt?_eq_some_iff]
    exact ⟨fun ⟨hi, hx⟩ => hx ▸ .int hi, fun h => by cases h with | int hi => exact ⟨hi, rfl⟩⟩
  | float y =>
    rw [numberOfJson, Except.ok.injEq]
    exact ⟨fun h => h ▸ .float y, fun h => by cases h; rfl⟩
  | text t =>
    cases t with
    | whole s =>
      rw [numberOfJson, elim_eq_ok_iff]
      exact ⟨.text, fun | .text h => h⟩
    | torn points h => exact ⟨nofun, nofun⟩

/-- A number is loaded from scalars that can be converted to it. -/
theorem numberOfJson_eq_ok_iff {value : Json} {x : Binary64} :
    numberOfJson value = .ok x ↔ ∃ s, value = .scalar s ∧ s.Converts x := by
  cases value with
  | scalar s => simp [numberOfJson_scalar_eq_ok_iff]
  | _ => exact ⟨nofun, nofun⟩

/-- The nodes of a list are loaded one after the other. -/
theorem listOfJson_eq_mapM (items : List Json) : listOfJson items = items.mapM ofJson := by
  induction items with
  | nil =>
    rw [listOfJson]
    rfl
  | cons item items ih => rw [listOfJson, ih, List.mapM_cons]

/-- A body is a list of statements; an empty text and an empty object have none either. -/
theorem bodyOfJson_eq_ok_iff {body : Json} {nodes : List Node} :
    bodyOfJson body = .ok nodes ↔
      (∃ items, body = .array items ∧
          List.Forall₂ (fun item node => ofJson item = .ok node) items nodes) ∨
        (body = .text "" ∨ body = .object []) ∧ [] = nodes := by
  cases body with
  | array items =>
    rw [bodyOfJson, listOfJson_eq_mapM, mapM_eq_ok_iff]
    simp [Json.text]
  | object fields =>
    rw [bodyOfJson]
    cases fields <;> simp [Json.text]
  | scalar s =>
    cases s with
    | text s =>
      rw [bodyOfJson]
      by_cases hs : s = .whole "" <;> simp [Json.text, hs]
    | _ =>
      rw [bodyOfJson]
      · simp [Json.text]
      · simp

/-! ## Exactly the documents that denote a node -/

/-- What a document denotes is loaded from it. -/
theorem ofJson_of_denotes {d : Json} {node : Node} (h : Denotes d node) : ofJson d = .ok node := by
  induction h with
  | @program fields items body htag hbody hlength _ ih =>
    have hitems : List.Forall₂ (fun item node => ofJson item = .ok node) items body :=
      List.forall₂_iff_zip.2 ⟨hlength, ih⟩
    rw [ofJson_object htag]
    refine bind_eq_ok_iff.2 ⟨body, fromField_eq_ok_iff.2 ⟨_, hbody, ?_⟩, rfl⟩
    exact bodyOfJson_eq_ok_iff.2 (.inl ⟨items, rfl, hitems⟩)
  | @emptyProgram fields body htag hbody hempty =>
    rw [ofJson_object htag]
    refine bind_eq_ok_iff.2 ⟨[], fromField_eq_ok_iff.2 ⟨_, hbody, ?_⟩, rfl⟩
    exact bodyOfJson_eq_ok_iff.2 (.inr ⟨hempty, rfl⟩)
  | @number fields value x htag hvalue hx =>
    rw [ofJson_object htag]
    refine bind_eq_ok_iff.2 ⟨x, fromField_eq_ok_iff.2 ⟨_, hvalue, ?_⟩, rfl⟩
    exact numberOfJson_scalar_eq_ok_iff.2 hx
  | @identifier fields name htag hname =>
    rw [ofJson_object htag]
    exact bind_eq_ok_iff.2 ⟨name, fromField_eq_ok_iff.2 ⟨_, hname, rfl⟩, rfl⟩
  | binary htag hop hleft hright _ _ ihl ihr =>
    rw [ofJson_object htag]
    refine bind_eq_ok_iff.2 ⟨_, operatorOfJson_eq_ok_iff.2 hop, ?_⟩
    refine bind_eq_ok_iff.2 ⟨_, fromField_eq_ok_iff.2 ⟨_, hleft, ihl⟩, ?_⟩
    exact bind_eq_ok_iff.2 ⟨_, fromField_eq_ok_iff.2 ⟨_, hright, ihr⟩, rfl⟩
  | assignment htag htarget hvalue _ _ iht ihv =>
    rw [ofJson_object htag]
    refine bind_eq_ok_iff.2 ⟨_, fromField_eq_ok_iff.2 ⟨_, htarget, iht⟩, ?_⟩
    exact bind_eq_ok_iff.2 ⟨_, fromField_eq_ok_iff.2 ⟨_, hvalue, ihv⟩, rfl⟩
  | declaration htag hname hnone =>
    rw [ofJson_object htag]
    refine bind_eq_ok_iff.2 ⟨_, fromField_eq_ok_iff.2 ⟨_, hname, rfl⟩, ?_⟩
    rw [hnone]
    rfl
  | initialized htag hname hinitializer _ ih =>
    rw [ofJson_object htag]
    refine bind_eq_ok_iff.2 ⟨_, fromField_eq_ok_iff.2 ⟨_, hname, rfl⟩, ?_⟩
    rw [hinitializer, Option.elim_some, ih]
    rfl
  | null htag => rw [ofJson_object htag, Tag.read]

theorem sizeOf_field_lt {value : Json} (h : Json.field? fields key = some value) :
    sizeOf value < sizeOf (Json.object fields) := by
  have hlt := Json.sizeOf_lt_of_field? h
  rw [Json.object.sizeOf_spec]
  omega

theorem sizeOf_item_lt {items : List Json} {item : Json}
    (h : Json.field? fields key = some (.array items)) (hitem : item ∈ items) :
    sizeOf item < sizeOf (Json.object fields) := by
  have hlt := sizeOf_field_lt h
  have hmem := List.sizeOf_lt_of_mem hitem
  rw [Json.array.sizeOf_spec] at hlt
  omega

/-- What is loaded is denoted, provided that this is so for the parts. -/
theorem denotes_of_read {tag : Tag} {node : Node} (htag : HasTag fields tag)
    (hparts : ∀ part node, sizeOf part < sizeOf (Json.object fields) →
      ofJson part = .ok node → Denotes part node)
    (h : tag.read fields = .ok node) : Denotes (.object fields) node := by
  cases tag with
  | program =>
    obtain ⟨body, hbody, ⟨⟩⟩ := bind_eq_ok_iff.1 h
    obtain ⟨value, hvalue, hnodes⟩ := fromField_eq_ok_iff.1 hbody
    obtain ⟨items, rfl, hitems⟩ | ⟨hempty, rfl⟩ := bodyOfJson_eq_ok_iff.1 hnodes
    · obtain ⟨hlength, hzip⟩ := List.forall₂_iff_zip.1 hitems
      refine .program htag hvalue hlength fun hmem => ?_
      exact hparts _ _ (sizeOf_item_lt hvalue (List.of_mem_zip hmem).1) (hzip hmem)
    · exact .emptyProgram htag hvalue hempty
  | number =>
    obtain ⟨x, hx, ⟨⟩⟩ := bind_eq_ok_iff.1 h
    obtain ⟨value, hvalue, hnumber⟩ := fromField_eq_ok_iff.1 hx
    obtain ⟨s, rfl, hs⟩ := numberOfJson_eq_ok_iff.1 hnumber
    exact .number htag hvalue hs
  | identifier =>
    obtain ⟨name, hname, ⟨⟩⟩ := bind_eq_ok_iff.1 h
    obtain ⟨_, hname, ⟨⟩⟩ := fromField_eq_ok_iff.1 hname
    exact .identifier htag hname
  | binary =>
    obtain ⟨op, hop, h⟩ := bind_eq_ok_iff.1 h
    obtain ⟨leftNode, hl, h⟩ := bind_eq_ok_iff.1 h
    obtain ⟨rightNode, hr, ⟨⟩⟩ := bind_eq_ok_iff.1 h
    obtain ⟨left, hleft, hl⟩ := fromField_eq_ok_iff.1 hl
    obtain ⟨right, hright, hr⟩ := fromField_eq_ok_iff.1 hr
    exact .binary htag (operatorOfJson_eq_ok_iff.1 hop) hleft hright
      (hparts _ _ (sizeOf_field_lt hleft) hl) (hparts _ _ (sizeOf_field_lt hright) hr)
  | assignment =>
    obtain ⟨targetNode, ht, h⟩ := bind_eq_ok_iff.1 h
    obtain ⟨valueNode, hv, ⟨⟩⟩ := bind_eq_ok_iff.1 h
    obtain ⟨target, htarget, ht⟩ := fromField_eq_ok_iff.1 ht
    obtain ⟨value, hvalue, hv⟩ := fromField_eq_ok_iff.1 hv
    exact .assignment htag htarget hvalue
      (hparts _ _ (sizeOf_field_lt htarget) ht) (hparts _ _ (sizeOf_field_lt hvalue) hv)
  | declaration =>
    obtain ⟨name, hname, h⟩ := bind_eq_ok_iff.1 h
    obtain ⟨_, hname, ⟨⟩⟩ := fromField_eq_ok_iff.1 hname
    obtain ⟨initializerNode, hi, ⟨⟩⟩ := bind_eq_ok_iff.1 h
    cases hinitializer : Json.field? fields "initializer" with
    | none =>
      rw [hinitializer] at hi
      obtain ⟨⟩ := hi
      exact .declaration htag hname hinitializer
    | some initializer =>
      rw [hinitializer] at hi
      exact .initialized htag hname hinitializer (hparts _ _ (sizeOf_field_lt hinitializer) hi)
  | null =>
    obtain ⟨⟩ := h
    exact .null htag

/-- Nothing else is loaded from it. -/
theorem denotes_of_ofJson (d : Json) {node : Node} (h : ofJson d = .ok node) : Denotes d node := by
  -- A node is larger than its parts.
  induction hsize : sizeOf d using Nat.strongRecOn generalizing d node with
  | ind size ih =>
    subst hsize
    cases d with
    | object fields =>
      by_cases htag : ∃ tag, HasTag fields tag
      · obtain ⟨tag, htag⟩ := htag
        rw [ofJson_object htag] at h
        exact denotes_of_read htag (fun part _ hlt hpart => ih _ hlt part hpart rfl) h
      · simp [ofJson_of_untyped (not_exists.1 htag)] at h
    | scalar s => simp [ofJson] at h
    | array items => simp [ofJson] at h

/-- A document is loaded exactly if it denotes a node, and the node is the one that it denotes. -/
theorem ofJson_eq_ok_iff {d : Json} {node : Node} : ofJson d = .ok node ↔ Denotes d node :=
  ⟨denotes_of_ofJson d, ofJson_of_denotes⟩

/-! ## Fields that do not matter -/

theorem elim_congr {a : α} {read : Json → α} {o o' : Option Json}
    (hsome : o.isSome = o'.isSome)
    (hread : ∀ part part', o = some part → o' = some part' → read part = read part') :
    o.elim a read = o'.elim a read := by
  cases o with
  | none =>
    cases o' with
    | none => rfl
    | some part' => exact nomatch hsome
  | some part =>
    cases o' with
    | none => exact nomatch hsome
    | some part' => exact hread part part' rfl rfl

/-- Only the fields that belong to a type are looked at. -/
theorem read_congr {tag : Tag}
    (hvalues : ∀ key ∈ tag.values, Json.field? fields key = Json.field? fields' key)
    (hparts : ∀ key ∈ tag.parts, ∀ a,
      (Json.field? fields key).elim a ofJson = (Json.field? fields' key).elim a ofJson) :
    tag.read fields = tag.read fields' := by
  cases tag with
  | program => simp only [Tag.read, fromField, hvalues "body" (by simp [Tag.values])]
  | number => simp only [Tag.read, fromField, hvalues "value" (by simp [Tag.values])]
  | identifier => simp only [Tag.read, fromField, hvalues "name" (by simp [Tag.values])]
  | binary =>
    simp only [Tag.read, operatorOfJson, fromField, hvalues "operator" (by simp [Tag.values]),
      hparts "left" (by simp [Tag.parts]), hparts "right" (by simp [Tag.parts])]
  | assignment =>
    simp only [Tag.read, fromField, hparts "target" (by simp [Tag.parts]),
      hparts "value" (by simp [Tag.parts])]
  | declaration =>
    simp only [Tag.read, fromField, declaresConst, hvalues "name" (by simp [Tag.values]),
      hvalues "is_const" (by simp [Tag.values]), hparts "initializer" (by simp [Tag.parts])]
  | null => rfl

/-- Only the fields that belong to a type are looked at. -/
theorem ofJson_eq_of_alike {d d' : Json} (h : Alike d d') : ofJson d = ofJson d' := by
  induction h with
  | same d => rfl
  | @untyped fields fields' htag htype =>
    have htag' : ∀ tag, ¬ HasTag fields' tag := by
      intro tag h
      exact htag tag (htype.trans h)
    rw [ofJson_of_untyped htag, ofJson_of_untyped htag', htype]
  | typed htag htag' hvalues hsome _ ih =>
    rw [ofJson_object htag, ofJson_object htag']
    apply read_congr hvalues
    intro key hkey a
    exact elim_congr (hsome key hkey) (ih key hkey)
  | @program fields fields' items items' htag htag' hbody hbody' hlength _ ih =>
    have hmap : items.map ofJson = items'.map ofJson := by
      rw [← List.forall₂_eq_eq_eq, List.forall₂_map_left_iff, List.forall₂_map_right_iff]
      exact List.forall₂_iff_zip.2 ⟨hlength, ih⟩
    have hitems : items.mapM ofJson = items'.mapM ofJson := by
      rw [← Function.id_comp ofJson, ← List.mapM_map, hmap, List.mapM_map]
    rw [ofJson_object htag, ofJson_object htag']
    simp only [Tag.read, fromField, hbody, hbody', Option.elim_some, bodyOfJson, listOfJson_eq_mapM,
      hitems]

end Node

end LetCalc
