import LetCalc.EvalError
import LetCalc.Text.Utf8

/-!
# Events

What an evaluation can report on its way. Every kind of event has a level, and an evaluation
reports the events up to the level it is asked for.
-/

namespace LetCalc

/-- A step of an evaluation worth reporting. -/
inductive Event where
  /-- A statement of the program is done. -/
  | statement (index : Nat) (value : Value)
  /-- A name was declared. -/
  | declared (isConst : Bool) (name : Scalar) (value : Value)
  /-- A name was assigned to. -/
  | assigned (name : Scalar) (value : Value)
  /-- An operation was carried out. -/
  | computed (left : Value) (operator : Operator) (right result : Value)
deriving DecidableEq, Repr

namespace Event

/-- The least level at which an event is reported. -/
def level : Event → Int
  | .statement .. => 1
  | .declared .. => 2
  | .assigned .. => 2
  | .computed .. => 3

/-- The parts of the line that reports an event. A name is a part of its own, because it need not
be a whole text. -/
def parts : Event → List LooseText
  | .statement index value => [s!"statement {index}: {value.text}"]
  | .declared isConst name value =>
    let keyword := if isConst then "const" else "let"
    [s!"declare {keyword} ", name.spelling, s!": {value.typeName} = {value.text}"]
  | .assigned name value => ["assign ", name.spelling, s!" = {value.text}"]
  | .computed left operator right result =>
    [s!"{left.text} {operator.symbol} {right.text} -> {result.text}"]

/-- The line that reports an event, as standard error shows it. -/
def text (e : Event) : String := String.join (e.parts.map LooseText.shown)

/-- Why the line that reports an event cannot be written to a file. -/
def encodeFailure? (e : Event) : Option Text.Utf8.EncodeFailure :=
  Text.Utf8.encodeFailure? (e.parts.flatMap LooseText.points)

end Event

end LetCalc
