import TQDBProxy.ListCopies

/-! Lines of fields in which an escape stands before what is not to be taken as it is. A
field ends at a separator and a line at a terminator; an escape with the null mark, alone
in its field, stands for no value. -/

namespace TQDBProxy.EscapedFields

open ListCopies

variable {α : Type*}

/-- The marks of a format, and what an escaped element stands for. -/
structure Rules (α : Type*) where
  escape : α
  fieldEnd : α
  lineEnd : α
  nullMark : α
  unescape : α → α

/-- The lines that are finished, the fields of the current line, the value of the current
field, and whether the null mark was escaped in it. -/
structure Reader (α : Type*) where
  lines : List (List (Option (List α))) := []
  line : List (Option (List α)) := []
  value : List α := []
  nullSeen : Bool := false
  escaped : Bool := false

namespace Reader

def field (s : Reader α) : Option (List α) :=
  if s.nullSeen && s.value.length == 1 then none else some s.value

def endField (s : Reader α) : Reader α :=
  { s with line := s.line ++ [s.field], value := [], nullSeen := false }

def endLine (s : Reader α) : Reader α := { s with lines := s.lines ++ [s.line], line := [] }

variable [DecidableEq α] (r : Rules α)

def step (s : Reader α) (c : α) : Reader α :=
  if s.escaped then
    { s with
      value := s.value ++ [r.unescape c], nullSeen := s.nullSeen || c == r.nullMark,
      escaped := false }
  else if c = r.escape then { s with escaped := true }
  else if c = r.fieldEnd then s.endField
  else if c = r.lineEnd then s.endField.endLine
  else { s with value := s.value ++ [c] }

/-- An escape at the very end stands for itself, and the last line needs its terminator
only when it is empty. -/
def finish (s : Reader α) : List (List (Option (List α))) :=
  let s := if s.escaped then { s with value := s.value ++ [r.escape] } else s
  if s.value.isEmpty && s.line.isEmpty then s.lines else s.endField.endLine.lines

end Reader

variable [DecidableEq α] {r : Rules α}

def readLines (r : Rules α) (text : List α) : List (List (Option (List α))) :=
  (text.foldl (Reader.step r) {}).finish r

/-- Within a field the text adds to its value, whatever came before. -/
def Reads (r : Rules α) (text value : List α) (null : Bool) : Prop :=
  ∀ s : Reader α, s.escaped = false →
    text.foldl (Reader.step r) s =
      { s with value := s.value ++ value, nullSeen := s.nullSeen || null }

namespace Reads

variable {text more value after : List α} {c : α} {null null' : Bool}

theorem nil : Reads r [] [] false := by
  intro s _
  simp

theorem append (first : Reads r text value null) (second : Reads r more after null') :
    Reads r (text ++ more) (value ++ after) (null || null') := by
  intro s ready
  have later := second { s with value := s.value ++ value, nullSeen := s.nullSeen || null } ready
  rw [List.foldl_append, first s ready, later, List.append_assoc, Bool.or_assoc]

theorem plain (noEscape : c ≠ r.escape) (noField : c ≠ r.fieldEnd) (noLine : c ≠ r.lineEnd) :
    Reads r [c] [c] false := by
  intro s ready
  rw [List.foldl_cons, Reader.step, ready, if_neg Bool.false_ne_true, if_neg noEscape,
    if_neg noField, if_neg noLine,
    Bool.or_false]
  rfl

theorem escaped (c : α) : Reads r [r.escape, c] [r.unescape c] (c == r.nullMark) := by
  intro s ready
  have first : Reader.step r s r.escape = { s with escaped := true } := by
    rw [Reader.step, ready, if_neg Bool.false_ne_true, if_pos rfl]
  have second : Reader.step r { s with escaped := true } c =
      { s with
        value := s.value ++ [r.unescape c], nullSeen := s.nullSeen || c == r.nullMark,
        escaped := false } := by
    rw [Reader.step, if_pos rfl]
  rw [List.foldl_cons, List.foldl_cons, first, second, ready]
  rfl

theorem verbatim (free : ∀ c ∈ text, c ≠ r.escape ∧ c ≠ r.fieldEnd ∧ c ≠ r.lineEnd) :
    Reads r text text false := by
  induction text with
  | nil => exact nil
  | cons c text ih =>
    rw [List.forall_mem_cons] at free
    exact (plain free.1.1 free.1.2.1 free.1.2.2).append (ih free.2)

end Reads

/-! ### Lines -/

structure Written (r : Rules α) where
  text : List α
  value : List α
  null : Bool
  reads : Reads r text value null

def Written.field (w : Written r) : Option (List α) :=
  if w.null && w.value.length == 1 then none else some w.value

def writeLine (r : Rules α) (texts : List (List α)) : List α :=
  joinWith [r.fieldEnd] texts ++ [r.lineEnd]

structure Rules.Distinct (r : Rules α) : Prop where
  field_escape : r.fieldEnd ≠ r.escape
  line_escape : r.lineEnd ≠ r.escape
  line_field : r.lineEnd ≠ r.fieldEnd

structure Reader.Fresh (s : Reader α) : Prop where
  value : s.value = []
  nullSeen : s.nullSeen = false
  escaped : s.escaped = false

theorem step_fieldEnd (distinct : r.Distinct) {s : Reader α} (ready : s.escaped = false) :
    Reader.step r s r.fieldEnd = s.endField := by
  rw [Reader.step, ready, if_neg Bool.false_ne_true, if_neg distinct.field_escape, if_pos rfl]

theorem step_lineEnd (distinct : r.Distinct) {s : Reader α} (ready : s.escaped = false) :
    Reader.step r s r.lineEnd = s.endField.endLine := by
  rw [Reader.step, ready, if_neg Bool.false_ne_true, if_neg distinct.line_escape,
    if_neg distinct.line_field, if_pos rfl]

theorem endField_written {s : Reader α} (fresh : s.Fresh) (w : Written r) :
    (w.text.foldl (Reader.step r) s).escaped = false ∧
      (w.text.foldl (Reader.step r) s).endField = { s with line := s.line ++ [w.field] } := by
  have read := w.reads s fresh.escaped
  rw [read, fresh.value, fresh.nullSeen, List.nil_append, Bool.false_or]
  refine ⟨fresh.escaped, ?_⟩
  rw [Reader.endField, ← fresh.value, ← fresh.nullSeen]
  rfl

theorem foldl_writeLine (distinct : r.Distinct) {fields : List (Written r)} (filled : fields ≠ [])
    {s : Reader α} (fresh : s.Fresh) :
    (writeLine r (fields.map (·.text))).foldl (Reader.step r) s =
      { s with lines := s.lines ++ [s.line ++ fields.map Written.field], line := [] } := by
  induction fields generalizing s with
  | nil => exact absurd rfl filled
  | cons w rest ih =>
    obtain ⟨ready, ended⟩ := endField_written fresh w
    cases rest with
    | nil =>
      rw [writeLine, List.map_singleton, joinWith, List.foldl_append, List.foldl_cons,
        List.foldl_nil,
        step_lineEnd distinct ready, ended]
      rfl
    | cons next rest =>
      have tail := ih (List.cons_ne_nil _ _) (s := { s with line := s.line ++ [w.field] })
        ⟨fresh.value, fresh.nullSeen, fresh.escaped⟩
      rw [writeLine] at tail
      rw [writeLine, List.map_cons, joinWith_cons (by simp), List.append_assoc, List.append_assoc,
        List.foldl_append,
        List.foldl_append, List.foldl_cons, List.foldl_nil, step_fieldEnd distinct ready, ended,
          tail]
      simp

theorem readLines_written (distinct : r.Distinct) {lines : List (List (Written r))}
    (filled : ∀ line ∈ lines, line ≠ []) :
    readLines r (lines.flatMap fun line => writeLine r (line.map (·.text))) =
      lines.map fun line => line.map Written.field := by
  have run : ∀ s : Reader α, s.Fresh → s.line = [] →
      (lines.flatMap fun line => writeLine r (line.map (·.text))).foldl (Reader.step r) s =
        { s with lines := s.lines ++ lines.map fun line => line.map Written.field } := by
    induction lines with
    | nil => intro s _ _; simp
    | cons line rest ih =>
      intro s fresh start
      rw [List.forall_mem_cons] at filled
      have later := ih filled.2 { s with lines := s.lines ++ [line.map Written.field] }
        ⟨fresh.value, fresh.nullSeen, fresh.escaped⟩ start
      rw [start] at later
      rw [List.flatMap_cons, List.foldl_append, foldl_writeLine distinct filled.1 fresh, start,
        List.nil_append, later]
      simp
  rw [readLines, run {} ⟨rfl, rfl, rfl⟩ rfl]
  rfl

end TQDBProxy.EscapedFields
