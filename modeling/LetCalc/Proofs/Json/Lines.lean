import LetCalc.Proofs.Json.RoundTrip
import LetCalc.Text.Lines

/-!
# Line ends of written documents

A document that is written has no carriage return, since one inside a text is escaped. Reading its
lines therefore changes nothing (`Json.unifyNewlines_write`).
-/

namespace LetCalc

/-- Without carriage returns the lines stay as they are. -/
theorem Text.unifyNewlines_eq_self {cs : List Char} (h : '\r' ∉ cs) : unifyNewlines cs = cs := by
  induction cs with
  | nil => rfl
  | cons c cs ih =>
    obtain ⟨hc, hcs⟩ := not_or.1 (mt List.mem_cons.2 h)
    rw [unifyNewlines, ih hcs]
    · rintro rest rfl
      exact absurd rfl hc
    · rintro rfl
      exact absurd rfl hc

namespace Json

theorem not_mem_escape (c : Char) : '\r' ∉ Printer.escape c := by
  rcases Reader.escape_cases c with ⟨e, he, hc⟩ | ⟨hcontrol, hc⟩ | ⟨-, -, hcontrol, hc⟩
  · have hletter : e ≠ '\r' := by
      rintro rfl
      exact absurd he (by simp [Reader.simpleEscape?])
    rw [hc]
    simp [hletter.symm]
  · -- The number of a control character is written in hexadecimal digits.
    have hall : ∀ n : Fin 0x20, '\r' ∉ '\\' :: 'u' :: Text.hexadecimal 4 n := by decide +kernel
    rw [hc]
    exact hall ⟨c.toNat, hcontrol⟩
  · rw [hc, List.mem_singleton]
    rintro rfl
    exact hcontrol (by decide)

/-- A carriage return in a text is escaped. -/
theorem not_mem_text {t : LooseText} (h : t.IsWhole) : '\r' ∉ Printer.text t := by
  obtain ⟨s, rfl⟩ := h
  simp [Printer.text, LooseText.points, Printer.escapePoint, not_mem_escape]

theorem not_mem_scalar {s : Scalar} (h : s.Readable) : '\r' ∉ Printer.scalar s := by
  rcases Reader.scalar_cases h with ⟨t, rfl⟩ | hconstant | ⟨negative, n, hn, hprinted, -⟩
  · exact not_mem_text ⟨t, rfl⟩
  · have hall : ∀ entry ∈ Reader.constants, '\r' ∉ entry.1 := by simp [Reader.constants]
    exact hall _ hconstant
  · have hdigits : '\r' ∉ n.text := by
      intro hmem
      have := hn.isNumeralChar _ hmem
      simp [Numeral.IsNumeralChar] at this
    rw [hprinted]
    cases negative <;> simp [Reader.signed, hdigits]

theorem not_mem_newline (indent : Nat) : '\r' ∉ Printer.newline indent := by
  simp [Printer.newline]

theorem not_mem_items {indent : Nat} {js : List Json}
    (h : ∀ j ∈ js, '\r' ∉ Printer.value indent j) : '\r' ∉ Printer.items indent js := by
  induction js with
  | nil => simp [Printer.items]
  | cons j js ih =>
    obtain ⟨hj, hjs⟩ := List.forall_mem_cons.1 h
    simp [Printer.items, not_mem_newline, hj, ih hjs]

theorem not_mem_members {indent : Nat} {fields : List (LooseText × Json)}
    (hwhole : ∀ field ∈ fields, field.1.IsWhole)
    (h : ∀ field ∈ fields, '\r' ∉ Printer.value indent field.2) :
    '\r' ∉ Printer.members indent fields := by
  induction fields with
  | nil => simp [Printer.members]
  | cons field fields ih =>
    obtain ⟨hkey, hkeys⟩ := List.forall_mem_cons.1 hwhole
    obtain ⟨hfield, hfields⟩ := List.forall_mem_cons.1 h
    simp [Printer.members, not_mem_newline, not_mem_text hkey, hfield, ih hkeys hfields]

/-- A document is written without carriage returns, at any depth. -/
theorem Readable.not_mem_value {j : Json} (h : j.Readable) :
    ∀ indent, '\r' ∉ Printer.value indent j := by
  induction h with
  | scalar h => exact fun indent => not_mem_scalar h
  | @array js _ ih =>
    intro indent
    cases js with
    | nil => simp [Printer.value]
    | cons j js =>
      obtain ⟨hj, hjs⟩ := List.forall_mem_cons.1 ih
      have hitems := not_mem_items fun item hitem => hjs item hitem (indent + 2)
      simp [Printer.value, not_mem_newline, hj, hitems]
  | @object fields _ hwhole _ ih =>
    intro indent
    cases fields with
    | nil => simp [Printer.value]
    | cons field fields =>
      obtain ⟨hkey, hkeys⟩ := List.forall_mem_cons.1 hwhole
      obtain ⟨hfield, hfields⟩ := List.forall_mem_cons.1 ih
      have hmembers := not_mem_members hkeys fun field hmem => hfields field hmem (indent + 2)
      simp [Printer.value, not_mem_newline, not_mem_text hkey, hfield, hmembers]

/-- The lines of a written document are those that were written. -/
theorem unifyNewlines_write {j : Json} (h : j.Readable) :
    Text.unifyNewlines (write j).toList = (write j).toList := by
  rw [write, String.toList_ofList]
  exact Text.unifyNewlines_eq_self (h.not_mem_value 0)

end Json

end LetCalc
