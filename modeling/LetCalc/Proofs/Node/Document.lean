import LetCalc.Node.Document
import LetCalc.Proofs.Json.RoundTrip
import LetCalc.Proofs.Node.Plain

/-!
# Programs read back from documents

Every node is read back from its document (`Node.ofJson_toJson`), so that documents keep all of a
node (`Node.documents_keep_nodes`). The document of a program that was parsed is moreover read back
from its text (`Program.readable_of_parse`): its names are texts, and the fields of a node have
different keys.
-/

namespace LetCalc

namespace Node

mutual

/-- Every node is read back from its document. -/
theorem ofJson_toJson (node : Node) : ofJson node.toJson = .ok node := by
  -- In each case the fields are looked up first, which leaves the documents of the parts.
  cases node with
  | number x => rw [toJson, ofJson]; rfl
  | null => rw [toJson, ofJson]; rfl
  | identifier name => rw [toJson, ofJson]; rfl
  | binary op left right =>
    calc ofJson (toJson (.binary op left right))
      _ = do return .binary op (← ofJson left.toJson) (← ofJson right.toJson) := by
        rw [toJson, ofJson]
        cases op <;> rfl
      _ = .ok (.binary op left right) := by
        rw [ofJson_toJson left, ofJson_toJson right]
        rfl
  | assignment target value =>
    calc ofJson (toJson (.assignment target value))
      _ = do return .assignment (← ofJson target.toJson) (← ofJson value.toJson) := by
        rw [toJson, ofJson]
        rfl
      _ = .ok (.assignment target value) := by
        rw [ofJson_toJson target, ofJson_toJson value]
        rfl
  | declaration name isConst initializer =>
    calc ofJson (toJson (.declaration name isConst initializer))
      _ = do return .declaration name isConst (← ofJson initializer.toJson) := by
        rw [toJson, ofJson]
        rfl
      _ = .ok (.declaration name isConst initializer) := by
        rw [ofJson_toJson initializer]
        rfl
  | program body =>
    calc ofJson (toJson (.program body))
      _ = do return .program (← bodyOfJson (.array (listToJson body))) := by
        rw [toJson, ofJson]
        rfl
      _ = .ok (.program body) := by
        rw [bodyOfJson, listOfJson_listToJson body]
        rfl

/-- The nodes of a list are read back from their documents. -/
theorem listOfJson_listToJson (nodes : List Node) : listOfJson (listToJson nodes) = .ok nodes := by
  cases nodes with
  | nil => rw [listToJson, listOfJson]
  | cons node rest =>
    rw [listToJson, listOfJson, ofJson_toJson node, listOfJson_listToJson rest]
    rfl

end

/-- Different nodes have different documents. -/
theorem toJson_injective : Function.Injective toJson := by
  intro a b h
  have hread := congrArg ofJson h
  rw [ofJson_toJson, ofJson_toJson] at hread
  exact Except.ok.inj hread

/-- Whatever document a node was loaded from, it is loaded again from the one that it is written as.
A document that is no node is refused before anything is written. -/
theorem ofJson_bind_toJson (document : Json) :
    (do ofJson (← ofJson document).toJson) = ofJson document := by
  cases ofJson document with
  | error e => rfl
  | ok node => exact ofJson_toJson node

/-- Documents keep all of a node. Every node, whatever its names and numbers and wherever its parts
stand, is read back from its document, so that different nodes have different documents. A document
may be written in many ways, but loading, writing and loading it again is loading it. -/
theorem documents_keep_nodes :
    (∀ node : Node, ofJson node.toJson = .ok node) ∧ Function.Injective toJson ∧
      ∀ document : Json, (do ofJson (← ofJson document).toJson) = ofJson document :=
  ⟨ofJson_toJson, toJson_injective, ofJson_bind_toJson⟩

-- The keys may stand in any order, others may be there, and a number may be a truth value.
example : ofJson (.object [("target", .object [("value", .scalar (.bool false)),
    ("type", .text "Number")]), ("line", .scalar (.int 3)), ("type", .text "AssignmentExpr"),
    ("value", .object [("body", .text ""), ("type", .text "Program")])]) =
      .ok (.assignment (.number (.zero false)) (.program [])) := by
  cbv

/-- A node whose document is read back from its text: its names are. -/
inductive Readable : Node → Prop
  | number (x : Binary64) : Readable (.number x)
  | null : Readable .null
  | identifier {name : Json} : name.Readable → Readable (.identifier name)
  | binary {op : Operator} {left right : Node} :
      Readable left → Readable right → Readable (.binary op left right)
  | assignment {target value : Node} :
      Readable target → Readable value → Readable (.assignment target value)
  | declaration {name : Json} {isConst : Bool} {initializer : Node} :
      name.Readable → Readable initializer → Readable (.declaration name isConst initializer)
  | program {body : List Node} : (∀ node ∈ body, Readable node) → Readable (.program body)

theorem readable_text (s : String) : (Json.text s).Readable := .scalar ⟨s, rfl⟩

theorem listToJson_eq_map (nodes : List Node) : listToJson nodes = nodes.map toJson := by
  induction nodes with
  | nil => rw [listToJson, List.map_nil]
  | cons node rest ih => rw [listToJson, List.map_cons, ih]

/-- The document of a node is read back if its fields after the type are. -/
theorem readable_object {type : String} {fields : List (LooseText × Json)}
    (hkeys : (.whole "type" :: fields.map (·.1)).Nodup)
    (h : ∀ field ∈ fields, field.1.IsWhole ∧ field.2.Readable) :
    (Json.object (("type", .text type) :: fields)).Readable :=
  .object hkeys
    (List.forall_mem_cons.2 ⟨⟨"type", rfl⟩, fun field hfield => (h field hfield).1⟩)
    (List.forall_mem_cons.2 ⟨readable_text type, fun field hfield => (h field hfield).2⟩)

theorem Readable.toJson {node : Node} (h : node.Readable) : node.toJson.Readable := by
  induction h with
  | number x =>
    have hx : (Json.scalar (.float x)).Readable := .scalar trivial
    rw [Node.toJson]
    exact readable_object (by simp) (by simpa using hx)
  | null =>
    rw [Node.toJson]
    exact readable_object (by simp) (by simp)
  | identifier hname =>
    rw [Node.toJson]
    exact readable_object (by simp) (by simpa using hname)
  | @binary op _ _ _ _ ihl ihr =>
    rw [Node.toJson]
    exact readable_object (by simp) (by simpa using ⟨readable_text op.symbol, ihl, ihr⟩)
  | assignment _ _ iht ihv =>
    rw [Node.toJson]
    exact readable_object (by simp) (by simpa using ⟨iht, ihv⟩)
  | @declaration _ isConst _ hname _ ih =>
    have hconst : (Json.scalar (.bool isConst)).Readable := .scalar trivial
    rw [Node.toJson]
    exact readable_object (by simp) (by simpa using ⟨hname, hconst, ih⟩)
  | @program body _ ih =>
    have hbody : (Json.array (listToJson body)).Readable := by
      rw [listToJson_eq_map]
      refine .array fun item hitem => ?_
      obtain ⟨node, hnode, rfl⟩ := List.mem_map.1 hitem
      exact ih node hnode
    rw [Node.toJson]
    exact readable_object (by simp) (by simpa using hbody)

theorem IsPlain.readable {node : Node} (h : node.IsPlain) : node.Readable := by
  induction h with
  | number x => exact .number x
  | null => exact .null
  | identifier name => exact .identifier (readable_text name)
  | binary _ _ ihl ihr => exact .binary ihl ihr
  | assignment _ _ iht ihv => exact .assignment iht ihv
  | declaration name _ ih => exact .declaration (readable_text name) ih

end Node

/-- The document of a program that was parsed is read back from its text. -/
theorem Program.readable_of_parse {source : String} {program : Program}
    (h : Program.parse source = .ok program) : (Node.program program).toJson.Readable := by
  have hplain := Program.isPlain_of_parse h
  exact (Node.Readable.program fun node hnode => (hplain node hnode).readable).toJson

end LetCalc
