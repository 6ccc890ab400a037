import TableAudit.Proofs.Json.Documents
import TableAudit.Report.Violation

/-!
# Violations as lines

A written JSON text holds no control character, so it is one line, whatever the texts in it hold.
The line of a violation is read as an object of its eight fields.
-/

namespace TableAudit

open TableAudit.Number (Binary64 Numeral)

/-- No character is a control character, such as the end of a line. -/
def Printed (cs : List Char) : Prop :=
  ∀ c ∈ cs, 0x20 ≤ c.toNat

instance (cs : List Char) : Decidable (Printed cs) :=
  List.decidableBAll (fun c : Char => 0x20 ≤ c.toNat) cs

namespace Printed

variable {c : Char} {as bs sep : List Char} {texts : List (List Char)}

theorem nil : Printed [] :=
  nofun

theorem cons (hc : 0x20 ≤ c.toNat) (h : Printed as) : Printed (c :: as) :=
  List.forall_mem_cons.mpr ⟨hc, h⟩

theorem append (ha : Printed as) (hb : Printed bs) : Printed (as ++ bs) :=
  List.forall_mem_append.mpr ⟨ha, hb⟩

theorem intercalate (hsep : Printed sep) (h : ∀ text ∈ texts, Printed text) :
    Printed (sep.intercalate texts) := by
  induction texts with
  | nil => exact nil
  | cons text texts ih =>
      rw [List.forall_mem_cons] at h
      cases texts with
      | nil => exact List.intercalate_singleton ▸ h.1
      | cons text' texts =>
          rw [List.intercalate_cons_cons]
          exact (h.1.append hsep).append (ih h.2)

theorem of_isDigit (h : ∀ c ∈ as, c.isDigit = true) : Printed as := by
  intro c hc
  have hdigit := h c hc
  simp only [Char.isDigit, Bool.and_eq_true, decide_eq_true_eq] at hdigit
  have hlow : 48 ≤ c.toNat := hdigit.1
  omega

end Printed

/-! ### Written texts -/

theorem Number.Numeral.Standard.printed {n : Numeral} (h : n.Standard) : Printed n.chars := by
  obtain ⟨negative, whole, places, exponent⟩ := n
  have hplaces : Printed (places.elim [] ('.' :: ·)) := by
    cases places with
    | none => exact .nil
    | some ds => exact .cons (by decide) (.of_isDigit (h.places ds rfl).2)
  have hscale : Printed (Numeral.scale exponent) := by
    match exponent with
    | none => exact .nil
    | some (minus, ds) =>
        have hsign : 0x20 ≤ (if minus then '-' else '+').toNat := by cases minus <;> decide
        exact .cons (by decide) (.cons hsign (.of_isDigit (h.exponent _ rfl).2))
  have hsign : Printed (if negative then ['-'] else []) := by
    cases negative with
    | true => exact .cons (by decide) .nil
    | false => exact .nil
  exact hsign.append ((Printed.of_isDigit h.digits).append (hplaces.append hscale))

namespace Json

variable {v : Value} {items : List Value} {fields : List (String × Value)} {ascii : Bool}

theorem printed_int (n : Int) : Printed (toString n).toList :=
  Numeral.chars_ofInt n ▸ (Numeral.standard_ofInt n).printed

theorem printed_float {x : Binary64} (h : x.IsDouble) : Printed (float x).toList := by
  cases x with
  | nan => exact (by decide : Printed "NaN".toList)
  | infinity negative =>
      cases negative with
      | true => exact (by decide : Printed "-Infinity".toList)
      | false => exact (by decide : Printed "Infinity".toList)
  | finite s m e =>
      obtain ⟨n, hn, hchars, -⟩ := Numeral.exists_ofFinite h s
      exact hchars ▸ hn.printed

theorem printed_unitEscape {k : Nat} (h : k < 65536) : Printed (unitEscape k) := by
  have hdigit : ∀ i < 16, 0x20 ≤ (Nat.digitChar i).toNat := by decide
  rw [unitEscape, hex_four h]
  refine .cons (by decide) (.cons (by decide) (.cons (hdigit _ (by omega)) ?_))
  exact .cons (hdigit _ (Nat.mod_lt _ (by decide)))
    (.cons (hdigit _ (Nat.mod_lt _ (by decide))) (.cons (hdigit _ (Nat.mod_lt _ (by decide))) .nil))

theorem escapeLetter?_printed {e c : Char} (h : escapeLetter? e = some c) : 0x20 ≤ e.toNat := by
  unfold escapeLetter? at h
  split at h <;> first | decide | cases h

/-- Control characters are escaped, and no escape holds one. -/
theorem printed_escapedChar (ascii : Bool) (c : Char) : Printed (escapedChar ascii c) := by
  obtain ⟨e, -, he, hw⟩ | ⟨h, hw⟩ | ⟨h, hw⟩ | ⟨-, -, hc, hw⟩ := escapedChar_cases ascii c
  · rw [hw]
    exact .cons (by decide) (.cons (escapeLetter?_printed he) .nil)
  · rw [hw]
    exact printed_unitEscape h
  · have hsize := (scalar_range c).1
    rw [hw]
    exact (printed_unitEscape (by omega)).append (printed_unitEscape (by omega))
  · rw [hw]
    exact .cons (Nat.le_of_not_lt hc) .nil

theorem printed_string (ascii : Bool) (s : String) : Printed (string ascii s).toList := by
  have hchars : Printed (s.toList.flatMap (escapedChar ascii)) := fun c hc =>
    have ⟨a, _, hca⟩ := List.mem_flatMap.mp hc
    printed_escapedChar ascii a c hca
  rw [string, String.toList_ofList]
  exact .cons (by decide) (hchars.append (.cons (by decide) .nil))

theorem printed_joined {texts : List String} (h : ∀ s ∈ texts, Printed s.toList) :
    Printed ((layout ascii).comma.intercalate texts).toList := by
  have hcomma : Printed (layout ascii).comma.toList := (by decide : Printed ", ".toList)
  rw [String.toList_intercalate]
  refine hcomma.intercalate fun text htext => ?_
  obtain ⟨s, hs, rfl⟩ := List.mem_map.mp htext
  exact h s hs

theorem writeItems?_printed {texts : List String}
    (hw : writeItems? (layout ascii) items = some texts)
    (h : ∀ v ∈ items, ∀ s, write? (layout ascii) v = some s → Printed s.toList) :
    ∀ s ∈ texts, Printed s.toList := by
  induction items generalizing texts with
  | nil =>
      cases hw
      exact nofun
  | cons v items ih =>
      rw [List.forall_mem_cons] at h
      rw [writeItems?] at hw
      split at hw
      next r rs hr hrs =>
        cases hw
        exact List.forall_mem_cons.mpr ⟨h.1 r hr, ih hrs h.2⟩
      next => cases hw

theorem writeEntries?_printed {texts : List String}
    (hw : writeEntries? (layout ascii) (fields.map entry) = some texts)
    (h : ∀ f ∈ fields, ∀ s, write? (layout ascii) f.2 = some s → Printed s.toList) :
    ∀ s ∈ texts, Printed s.toList := by
  induction fields generalizing texts with
  | nil =>
      cases hw
      exact nofun
  | cons f fields ih =>
      rw [List.forall_mem_cons] at h
      rw [List.map_cons, entry, writeEntries?] at hw
      split at hw
      next name r rs _ hr hrs =>
        cases hw
        refine List.forall_mem_cons.mpr ⟨?_, ih hrs h.2⟩
        have hcolon : Printed (layout ascii).colon.toList := (by decide : Printed ": ".toList)
        rw [String.toList_append, String.toList_append]
        exact ((printed_string ascii name).append hcolon).append (h.1 r hr)
      next => cases hw

/-- The text of a value holds no control character. -/
theorem IsJson.printed (h : IsJson v) {s : String} (hw : write? (layout ascii) v = some s) :
    Printed s.toList := by
  induction h generalizing s with
  | null =>
      cases hw
      exact (by decide : Printed "null".toList)
  | bool b =>
      cases hw
      cases b with
      | true => exact (by decide : Printed "true".toList)
      | false => exact (by decide : Printed "false".toList)
  | int n =>
      cases hw
      exact printed_int n
  | float h =>
      cases hw
      exact printed_float h
  | text s =>
      cases hw
      exact printed_string ascii s
  | list _ ih =>
      rw [write?] at hw
      obtain ⟨texts, htexts, rfl⟩ := Option.map_eq_some_iff.mp hw
      have hall := writeItems?_printed htexts fun v hv s hs => ih v hv hs
      rw [String.toList_append, String.toList_append]
      exact ((by decide : Printed "[".toList).append (printed_joined hall)).append
        (by decide : Printed "]".toList)
  | object _ _ ih =>
      rw [Value.object, write?] at hw
      obtain ⟨texts, htexts, rfl⟩ := Option.map_eq_some_iff.mp hw
      have hall := writeEntries?_printed htexts fun f hf s hs => ih f hf hs
      rw [String.toList_append, String.toList_append]
      exact ((by decide : Printed "\x7b".toList).append (printed_joined hall)).append
        (by decide : Printed "\x7d".toList)

end Json

/-! ### Violations -/

namespace Violation

/-- The numbers of rows that a violation names. -/
def rowNumbers (v : Violation) : List Nat :=
  v.rowNumber :: v.conflictRows.getD []

theorem isJson_rowsValue (rows : List Nat) : Json.IsJson (rowsValue rows) := by
  refine .list fun w hw => ?_
  obtain ⟨n, -, rfl⟩ := List.mem_map.mp hw
  exact .int n

theorem isJson_toValue (v : Violation) : Json.IsJson v.toValue := by
  have herrors : Json.IsJson (.list (v.errorTypes.map .text)) := by
    refine .list fun w hw => ?_
    obtain ⟨s, -, rfl⟩ := List.mem_map.mp hw
    exact .text s
  have hconflicts : Json.IsJson (Value.ofOption rowsValue v.conflictRows) := by
    cases v.conflictRows with
    | none => exact .null
    | some rows => exact isJson_rowsValue rows
  have hnames : ["record_id", "row_number", "column_name", "cell_value", "problem_type",
      "error_types", "timestamp", "conflict_rows"].Nodup := by decide
  refine .object hnames ?_
  simp only [List.forall_mem_cons, List.not_mem_nil, false_imp_iff, implies_true, and_true]
  exact ⟨.text _, .int _, .text _, .text _, .text _, herrors, .text _, hconflicts⟩

/-- A number of a row has few enough digits to be read. -/
def IsReadable (n : Nat) : Prop :=
  (Nat.toDigits 10 n).length ≤ Json.digitLimit

instance (n : Nat) : Decidable (IsReadable n) :=
  inferInstanceAs (Decidable ((Nat.toDigits 10 n).length ≤ Json.digitLimit))

theorem fits_natural (n : Nat) : Json.fits (.int n) = true ↔ IsReadable n :=
  decide_eq_true_iff

theorem fits_rowsValue (rows : List Nat) :
    Json.fits (rowsValue rows) = true ↔ ∀ n ∈ rows, IsReadable n := by
  rw [rowsValue, Json.fits]
  induction rows with
  | nil => exact iff_of_true rfl (List.forall_mem_nil _)
  | cons n rows ih =>
      rw [List.map_cons, Json.allFit, Bool.and_eq_true, fits_natural, ih, List.forall_mem_cons]

/-- Only the numbers of rows can be too long. -/
theorem fits_toValue (v : Violation) :
    Json.fits v.toValue = true ↔ ∀ n ∈ v.rowNumbers, IsReadable n := by
  have hconflicts : Json.fits (Value.ofOption rowsValue v.conflictRows) = true ↔
      ∀ n ∈ v.conflictRows.getD [], IsReadable n := by
    cases v.conflictRows with
    | none => exact iff_of_true rfl (List.forall_mem_nil _)
    | some rows => exact fits_rowsValue rows
  rw [rowNumbers, List.forall_mem_cons, ← hconflicts, ← fits_natural, ← Bool.and_eq_true]
  simp only [toValue, Value.object, List.map_cons, List.map_nil, Json.fits, Json.entriesFit,
    Json.allFit_texts, Bool.true_and, Bool.and_true]

/-- The line of a violation is one line. It is read as an object of the eight fields, in which
conflicts that are not known are nothing and no conflicts are an empty list, unless a row has a
number with too many digits to be read. -/
theorem jsonLine_read (v : Violation) :
    (∀ c ∈ v.jsonLine.toList, c ≠ '\n' ∧ c ≠ '\r' ∧ 0x20 ≤ c.toNat) ∧
      Json.read v.jsonLine =
        if ∀ n ∈ v.rowNumbers, IsReadable n then
          .ok (.object [("record_id", .text v.recordId), ("row_number", .int v.rowNumber),
            ("column_name", .text v.columnName), ("cell_value", .text v.cellValue),
            ("problem_type", .text v.problem), ("error_types", .list (v.errorTypes.map .text)),
            ("timestamp", .text v.timestamp),
            ("conflict_rows", match v.conflictRows with
              | none => .null
              | some rows => .list (rows.map fun n : Nat => .int n))])
        else .error .digitLimit := by
  obtain ⟨s, hs, hread⟩ := v.isJson_toValue.read false
  have hline : v.jsonLine = s := by
    rw [jsonLine, show Json.spaced = Json.layout false from rfl, hs, Option.getD_some]
  rw [hline]
  constructor
  · intro c hc
    have hprinted := v.isJson_toValue.printed hs c hc
    refine ⟨?_, ?_, hprinted⟩ <;> rintro rfl <;> exact absurd hprinted (by decide)
  · rw [hread]
    simp only [fits_toValue]
    congr 1
    cases v with
    | mk recordId rowNumber columnName cellValue problem errorTypes timestamp conflictRows =>
        cases conflictRows <;> rfl

end Violation

end TableAudit
