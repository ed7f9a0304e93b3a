import LetCalc.Event

/-!
# Texts and their code points

A loose text is given by its code points: every sequence of code points is that of one text
(`LooseText.points_ofPoints`), and of no other one (`LooseText.points_injective`). Exactly the texts
without halves of surrogate pairs have bytes (`Text.Utf8.encodeFailure?_eq_none_iff`).
-/

namespace LetCalc

namespace CodePoint

theorem any_isHalf_map_char (cs : List Char) : (cs.map CodePoint.char).any isHalf = false := by
  simp [isHalf]

theorem filterMap_char?_map_char (cs : List Char) :
    (cs.map CodePoint.char).filterMap char? = cs := by
  induction cs with
  | nil => rfl
  | cons c cs ih => rw [List.map_cons, List.filterMap_cons, char?, ih]

/-- Code points without halves are characters. -/
theorem map_char_filterMap_char? {points : List CodePoint} (h : points.any isHalf = false) :
    (points.filterMap char?).map .char = points := by
  induction points with
  | nil => rfl
  | cons point points ih =>
    rw [List.any_cons, Bool.or_eq_false_iff] at h
    cases point with
    | char c => rw [List.filterMap_cons, char?, List.map_cons, ih h.2]
    | half offset => exact absurd h.1 (by simp [isHalf])

end CodePoint

namespace LooseText

/-- A text in which no half of a surrogate pair stands alone. -/
def IsWhole (t : LooseText) : Prop := ∃ s : String, t = .whole s

@[simp]
theorem isWhole_whole (s : String) : (LooseText.whole s).IsWhole := ⟨s, rfl⟩

@[simp]
theorem shown_whole (s : String) : (LooseText.whole s).shown = s := rfl

/-- Characters make up a whole text. -/
theorem ofPoints_map_char (cs : List Char) :
    ofPoints (cs.map .char) = .whole (String.ofList cs) := by
  rw [ofPoints, dif_neg (by rw [CodePoint.any_isHalf_map_char]; exact Bool.false_ne_true),
    CodePoint.filterMap_char?_map_char]

/-- A text has the code points that it is made from. -/
theorem points_ofPoints (points : List CodePoint) : (ofPoints points).points = points := by
  rw [ofPoints]
  split
  case isTrue h => rfl
  case isFalse h =>
    rw [LooseText.points, String.toList_ofList]
    exact CodePoint.map_char_filterMap_char? (Bool.eq_false_iff.2 h)

/-- A text is made from its code points. -/
theorem ofPoints_points (t : LooseText) : ofPoints t.points = t := by
  cases t with
  | whole s => rw [LooseText.points, ofPoints_map_char, String.ofList_toList]
  | torn points h => rw [LooseText.points, ofPoints, dif_pos h]

/-- Texts with the same code points are the same. -/
theorem points_injective : Function.Injective points :=
  Function.LeftInverse.injective ofPoints_points

theorem any_isHalf_points_eq_false_iff {t : LooseText} :
    t.points.any CodePoint.isHalf = false ↔ t.IsWhole := by
  cases t with
  | whole s => simp [LooseText.points, CodePoint.isHalf, isWhole_whole]
  | torn points h => simp [LooseText.points, IsWhole, h]

end LooseText

/-- Code points have bytes if none of them is one half of a surrogate pair. -/
theorem Text.Utf8.encodeFailure?_eq_none_iff {points : List CodePoint} :
    encodeFailure? points = none ↔ points.any CodePoint.isHalf = false := by
  induction points with
  | nil => simp [encodeFailure?]
  | cons point points ih =>
    cases point with
    | char c =>
      -- A character in front moves the failure, but makes and mends none.
      rw [List.any_cons, CodePoint.isHalf, Bool.false_or, ← ih, encodeFailure?, encodeFailure?,
        List.dropWhile_cons_of_pos (by rfl)]
      split <;> simp
    | half offset => simp [encodeFailure?, CodePoint.isHalf]

/-- The line that reports an event has bytes if all its parts are whole. -/
theorem Event.encodeFailure?_eq_none_iff {e : Event} :
    e.encodeFailure? = none ↔ ∀ part ∈ e.parts, part.IsWhole := by
  simp [Event.encodeFailure?, Text.Utf8.encodeFailure?_eq_none_iff, List.any_flatMap,
    ← LooseText.any_isHalf_points_eq_false_iff]

end LetCalc
