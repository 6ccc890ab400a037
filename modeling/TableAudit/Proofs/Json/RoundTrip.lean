import TableAudit.Json.Bytes
import TableAudit.Proofs.Json.Scalars

/-!
# Reading written values

A value of nothing, truth values, numbers, texts, lists and objects is written as a JSON text that
is read as the value, unless an integer in it has more digits than an integer may have; then the
reader says so. The bytes of an object's text in UTF-8 are read as the object: they begin with a
brace and a quote or another brace, so no other encoding is taken for them.
-/

namespace TableAudit.Json

open TableAudit.Number (Binary64 Numeral Stops ne_of_isDigit)

variable {v : Value} {items : List Value} {fields : List (String × Value)} {ascii : Bool}

/-- A space after every comma and colon. -/
def layout (ascii : Bool) : Layout := ⟨", ", ": ", ascii⟩

/-- The values that JSON has a form for. -/
inductive IsJson : Value → Prop
  | null : IsJson .null
  | bool (b : Bool) : IsJson (.bool b)
  | int (n : Int) : IsJson (.int n)
  | float {x : Binary64} (h : x.IsDouble) : IsJson (.float x)
  | text (s : String) : IsJson (.text s)
  | list {items : List Value} (h : ∀ v ∈ items, IsJson v) : IsJson (.list items)
  | object {fields : List (String × Value)} (hkeys : (fields.map Prod.fst).Nodup)
      (h : ∀ f ∈ fields, IsJson f.2) : IsJson (.object fields)

mutual

/-- Whether every integer in the value has few enough digits to be read. -/
def fits : Value → Bool
  | .int n => (Nat.toDigits 10 n.natAbs).length ≤ digitLimit
  | .list items => allFit items
  | .map entries => entriesFit entries
  | _ => true

/-- Whether every integer in the items has few enough digits. -/
def allFit : List Value → Bool
  | [] => true
  | v :: vs => fits v && allFit vs

/-- Whether every integer in the entries has few enough digits. -/
def entriesFit : List (Value × Value) → Bool
  | [] => true
  | (_, v) :: es => fits v && entriesFit es

end

/-- What reading gives: the value and the rest, or that an integer has too many digits. -/
def outcome {α : Type} (fit : Bool) (a : α) (rest : List Char) : Except Refusal (α × List Char) :=
  if fit then .ok (a, rest) else .error .digitLimit

/-- A character with which a value begins. -/
def begins (c : Char) : Bool :=
  !isSpace c && c != ']' && c != '\x7d' && c != '\uFEFF'

/-- The text is read as the value, whatever follows that does not go on with a number. -/
structure Reads (text : List Char) (v : Value) : Prop where
  begins : ∃ c cs, text = c :: cs ∧ begins c = true
  read : ∀ fuel rest, 2 * text.length ≤ fuel → Stops continues rest →
    readValue fuel (text ++ rest) = outcome (fits v) v rest

theorem skipSpace_cons {c : Char} {cs : List Char} (h : isSpace c = false) :
    skipSpace (c :: cs) = c :: cs := by
  rw [skipSpace, List.dropWhile_cons_of_neg (by simp [h])]

theorem skipSpace_begins {c : Char} {cs : List Char} (h : begins c = true) :
    skipSpace (c :: cs) = c :: cs := by
  simp only [begins, Bool.and_eq_true, Bool.not_eq_true'] at h
  exact skipSpace_cons h.1.1.1

/-! ### Values without parts -/

theorem Reads.of_succ {text : List Char} (hb : ∃ c cs, text = c :: cs ∧ Json.begins c = true)
    (h : ∀ fuel rest, 2 * text.length ≤ fuel + 1 → Stops continues rest →
      readValue (fuel + 1) (text ++ rest) = outcome (fits v) v rest) : Reads text v := by
  refine ⟨hb, fun fuel rest hf hr => ?_⟩
  obtain ⟨c, cs, rfl, -⟩ := hb
  rw [List.length_cons] at hf
  obtain ⟨fuel, rfl⟩ := Nat.exists_eq_add_one_of_ne_zero (show fuel ≠ 0 by omega)
  exact h fuel rest hf hr

theorem reads_null : Reads "null".toList .null :=
  .of_succ ⟨_, _, rfl, rfl⟩ fun _ _ _ _ => rfl

theorem reads_bool (b : Bool) : Reads (if b then "true" else "false").toList (.bool b) := by
  cases b with
  | true => exact .of_succ ⟨_, _, rfl, rfl⟩ fun _ _ _ _ => rfl
  | false => exact .of_succ ⟨_, _, rfl, rfl⟩ fun _ _ _ _ => rfl

theorem reads_text (ascii : Bool) (s : String) : Reads (string ascii s).toList (.text s) := by
  rw [string, String.toList_ofList, stringChars]
  refine .of_succ ⟨_, _, rfl, rfl⟩ fun fuel rest hf hr => ?_
  have hlength := length_escaped ascii s.toList
  rw [List.cons_append, List.append_assoc, List.singleton_append, readValue,
    readString_chars _ (by rw [List.length_append]; omega)]
  change Except.ok (Value.text (String.ofList s.toList), rest) = _
  rw [String.ofList_toList]
  rfl

/-- No word begins like a numeral. -/
theorem readWord?_chars {n : Numeral} (h : n.Standard) (rest : List Char) :
    readWord? (n.chars ++ rest) = none := by
  obtain ⟨c, cs, hhead, hc | ⟨rfl, d, ds, rfl, hd⟩⟩ := h.first rest
  · simp [hhead, readWord?, words, Text.afterRun?, ne_of_isDigit hc]
  · simp [hhead, readWord?, words, Text.afterRun?, ne_of_isDigit hd]

theorem reads_numeral {n : Numeral} (h : n.Standard) (hv : ∀ rest, Stops continues rest →
    readNumber (n.chars ++ rest) = outcome (fits v) v rest) : Reads n.chars v := by
  have hdigit {c : Char} (hc : c.isDigit = true) : begins c = true := by
    have hne (d : Char) (hd : d.isDigit = false) : c ≠ d := (ne_of_isDigit hc hd).symm
    simp [begins, isSpace, hne]
  refine .of_succ ?_ fun fuel rest _ hr => ?_
  · obtain ⟨c, cs, hhead, hc⟩ := h.first []
    rw [List.append_nil] at hhead
    exact ⟨c, cs, hhead, hc.elim hdigit fun hc => hc.1 ▸ rfl⟩
  · have hplain {c : Char} (hc : c.isDigit = false ∧ c ≠ '-') (cs : List Char) :
        n.chars ++ rest ≠ c :: cs := by
      obtain ⟨d, ds, hhead, hd | ⟨rfl, -⟩⟩ := h.first rest
      · rw [hhead]
        exact fun heq => ne_of_isDigit hd hc.1 (List.cons.inj heq).1.symm
      · rw [hhead]
        exact fun heq => hc.2 (List.cons.inj heq).1.symm
    rw [readValue.eq_def]
    simp only [readWord?_chars h, hv rest hr]
    split
    next heq => exact absurd heq (hplain (by decide) _)
    next heq => exact absurd heq (hplain (by decide) _)
    next heq => exact absurd heq (hplain (by decide) _)
    next => rfl

theorem reads_int (n : Int) : Reads (toString n).toList (.int n) := by
  rw [← Numeral.chars_ofInt]
  refine reads_numeral (Numeral.standard_ofInt n) fun rest hr => ?_
  rw [readNumber_chars (Numeral.standard_ofInt n) hr]
  simp only [Numeral.ofInt, Number.digitsValue_toDigits, outcome, fits, decide_eq_true_eq]
  by_cases h : digitLimit < (Nat.toDigits 10 n.natAbs).length
  · rw [if_pos h, if_neg (not_le.mpr h)]
  · rw [if_neg h, if_pos (not_lt.mp h)]
    congr 3
    split <;> omega

theorem reads_float {x : Binary64} (h : x.IsDouble) : Reads (float x).toList (.float x) := by
  cases x with
  | nan => exact .of_succ ⟨_, _, rfl, rfl⟩ fun _ _ _ _ => rfl
  | infinity negative => cases negative <;> exact .of_succ ⟨_, _, rfl, rfl⟩ fun _ _ _ _ => rfl
  | finite s m e =>
      obtain ⟨n, hn, hchars, hfractional, hdouble⟩ := Numeral.exists_ofFinite h s
      rw [float, ← hchars]
      · refine reads_numeral hn fun rest hr => ?_
        rw [readNumber_chars hn hr, hdouble]
        simp only [Number.Form.isInteger, Numeral.form] at hfractional
        split
        next hplaces hexponent =>
          rw [hplaces, hexponent] at hfractional
          cases hfractional
        next => rfl
      · intro hnan
        cases hnan
      · intro negative hinfinity
        cases hinfinity

/-! ### Lists and objects -/

theorem outcome_bind {α β : Type} (fit : Bool) (a : α) (rest : List Char)
    (f : α × List Char → Except Refusal β) :
    (outcome fit a rest >>= f) = if fit then f (a, rest) else .error .digitLimit := by
  cases fit <;> rfl

theorem stops_cons {p : Char → Bool} {c : Char} {cs : List Char} (h : p c = false) :
    Stops p (c :: cs) := by
  rintro _ ⟨⟩
  exact h

theorem readItems_last {text rest : List Char} {fuel : Nat} (h : Reads text v)
    (hf : 2 * text.length ≤ fuel) :
    readItems (fuel + 1) (text ++ ']' :: rest) = outcome (fits v) [v] rest := by
  rw [readItems, h.read fuel _ hf (stops_cons (by decide)), outcome_bind]
  rfl

theorem readItems_comma {text rest : List Char} {fuel : Nat} (h : Reads text v)
    (hf : 2 * text.length ≤ fuel) (hskip : skipSpace rest = rest) :
    readItems (fuel + 1) (text ++ ',' :: ' ' :: rest) =
      if fits v then (readItems fuel rest).map fun r => (v :: r.1, r.2)
      else .error .digitLimit := by
  rw [readItems, h.read fuel _ hf (stops_cons (by decide)), outcome_bind]
  simp only [skipSpace_cons (show isSpace ',' = false by decide),
    show skipSpace (' ' :: rest) = skipSpace rest from rfl, hskip]
  split
  · cases readItems fuel rest <;> rfl
  · rfl

/-- Joined texts begin as the first of them. -/
theorem joined_begins {text : List Char} (h : ∃ c cs, text = c :: cs ∧ begins c = true)
    (texts : List (List Char)) (rest : List Char) :
    ∃ c cs, [',', ' '].intercalate (text :: texts) ++ rest = c :: cs ∧ begins c = true := by
  obtain ⟨c, cs, rfl, hc⟩ := h
  cases texts with
  | nil => exact ⟨c, cs ++ rest, by rw [List.intercalate_singleton, List.cons_append], hc⟩
  | cons text texts => exact ⟨c, _, by rw [List.intercalate_cons_cons]; rfl, hc⟩

/-- Written items are read one after the other. -/
theorem readItems_joined {texts : List (List Char)} (h : List.Forall₂ Reads texts items)
    (hne : items ≠ []) (fuel : Nat) (rest : List Char)
    (hf : 2 * ([',', ' '].intercalate texts).length < fuel) :
    readItems fuel ([',', ' '].intercalate texts ++ ']' :: rest) =
      outcome (allFit items) items rest := by
  induction h generalizing fuel with
  | nil => exact absurd rfl hne
  | @cons text v texts items hv hall ih =>
      obtain ⟨fuel, rfl⟩ := Nat.exists_eq_add_one_of_ne_zero (Nat.ne_of_gt (Nat.zero_lt_of_lt hf))
      cases hall with
      | nil =>
          rw [List.intercalate_singleton] at hf ⊢
          rw [readItems_last hv (by omega), allFit, allFit, Bool.and_true]
      | @cons text' v' texts items hv' hall =>
          rw [List.intercalate_cons_cons] at hf ⊢
          simp only [List.length_append, List.length_cons, List.length_nil] at hf
          obtain ⟨c, cs, hcs, hc⟩ := joined_begins hv'.begins texts (']' :: rest)
          have hskip := hcs ▸ skipSpace_begins hc
          rw [List.append_assoc, List.append_assoc]
          refine (readItems_comma hv (by omega) hskip).trans ?_
          rw [ih (by simp) fuel (by omega)]
          change _ = outcome (fits v && allFit (v' :: items)) (v :: v' :: items) rest
          cases fits v <;> cases allFit (v' :: items) <;> rfl

theorem reads_list {texts : List (List Char)} (h : List.Forall₂ Reads texts items) :
    Reads ('[' :: ([',', ' '].intercalate texts ++ [']'])) (.list items) := by
  refine .of_succ ⟨_, _, rfl, rfl⟩ fun fuel rest hf _ => ?_
  cases h with
  | nil => rfl
  | @cons text v texts items hv hall =>
      obtain ⟨c, cs, hcs, hc⟩ := joined_begins hv.begins texts (']' :: rest)
      have hread := readItems_joined (List.Forall₂.cons hv hall) (by simp) fuel rest (by
        simp only [List.length_cons, List.length_append, List.length_nil] at hf
        omega)
      rw [hcs] at hread
      rw [List.cons_append, List.append_assoc, List.singleton_append, hcs, readValue]
      simp only [skipSpace_begins hc, hread]
      split
      next heq =>
        rw [(List.cons.inj heq).1] at hc
        cases hc
      next =>
        rw [outcome_bind]
        change _ = outcome (allFit (v :: items)) (Value.list (v :: items)) rest
        cases allFit (v :: items) <;> rfl

/-- A written entry: a name before a value. -/
def EntryReads (ascii : Bool) (text : List Char) (field : String × Value) : Prop :=
  ∃ r, Reads r field.2 ∧ text = (string ascii field.1).toList ++ ':' :: ' ' :: r

/-- The name of a field with its value, as an entry of a mapping. -/
def entry (field : String × Value) : Value × Value :=
  (.text field.1, field.2)

/-- What is read after an entry. -/
def readFurther (fuel : Nat) (e : Value × Value) (cs : List Char) :
    Except Refusal (List (Value × Value) × List Char) :=
  match cs with
  | '\x7d' :: rest => .ok ([e], rest)
  | ',' :: rest => do
    let (es, rest) ← readEntries fuel (skipSpace rest)
    .ok (e :: es, rest)
  | _ => .error (.malformed .comma cs.length)

theorem readEntries_entry {text rest : List Char} {field : String × Value} {fuel : Nat}
    (h : EntryReads ascii text field) (hf : 2 * text.length ≤ fuel) (hr : Stops continues rest) :
    readEntries (fuel + 1) (text ++ rest) =
      if fits field.2 then readFurther fuel (entry field) (skipSpace rest)
      else .error .digitLimit := by
  obtain ⟨r, hread, rfl⟩ := h
  obtain ⟨c, cs, hcs, hc⟩ := hread.begins
  have hlength := length_escaped ascii field.1.toList
  have hskip : skipSpace (r ++ rest) = r ++ rest := by
    rw [hcs, List.cons_append]
    exact skipSpace_begins hc
  have hvalue := hread.read fuel rest (by rw [List.length_append] at hf; simp at hf; omega) hr
  rw [string, String.toList_ofList, stringChars, List.append_assoc, List.cons_append,
    List.append_assoc, List.singleton_append, readEntries,
    readString_chars _ (by rw [List.length_append]; omega)]
  simp only [bind, Except.bind, List.cons_append,
    skipSpace_cons (show isSpace ':' = false by decide),
    show skipSpace (' ' :: (r ++ rest)) = skipSpace (r ++ rest) from rfl, hskip, hvalue,
    String.ofList_toList]
  cases fits field.2 <;> rfl

theorem readEntries_last {text rest : List Char} {field : String × Value} {fuel : Nat}
    (h : EntryReads ascii text field) (hf : 2 * text.length ≤ fuel) :
    readEntries (fuel + 1) (text ++ '\x7d' :: rest) = outcome (fits field.2) [entry field] rest :=
  readEntries_entry h hf (stops_cons (by decide))

theorem readEntries_comma {text rest : List Char} {field : String × Value} {fuel : Nat}
    (h : EntryReads ascii text field) (hf : 2 * text.length ≤ fuel)
    (hskip : skipSpace rest = rest) :
    readEntries (fuel + 1) (text ++ ',' :: ' ' :: rest) =
      if fits field.2 then (readEntries fuel rest).map fun r => (entry field :: r.1, r.2)
      else .error .digitLimit := by
  rw [readEntries_entry h hf (stops_cons (by decide)), skipSpace_cons (by decide), readFurther,
    show skipSpace (' ' :: rest) = skipSpace rest from rfl, hskip]
  split
  · cases readEntries fuel rest <;> rfl
  · rfl

theorem EntryReads.begins {text : List Char} {field : String × Value}
    (h : EntryReads ascii text field) : ∃ c cs, text = c :: cs ∧ Json.begins c = true := by
  obtain ⟨r, -, rfl⟩ := h
  rw [string, String.toList_ofList]
  exact ⟨_, _, rfl, rfl⟩

/-- Written entries are read one after the other. -/
theorem readEntries_joined {texts : List (List Char)}
    (h : List.Forall₂ (EntryReads ascii) texts fields) (hne : fields ≠ []) (fuel : Nat)
    (rest : List Char) (hf : 2 * ([',', ' '].intercalate texts).length < fuel) :
    readEntries fuel ([',', ' '].intercalate texts ++ '\x7d' :: rest) =
      outcome (entriesFit (fields.map entry)) (fields.map entry) rest := by
  induction h generalizing fuel with
  | nil => exact absurd rfl hne
  | @cons text f texts fields hv hall ih =>
      obtain ⟨fuel, rfl⟩ := Nat.exists_eq_add_one_of_ne_zero (Nat.ne_of_gt (Nat.zero_lt_of_lt hf))
      cases hall with
      | nil =>
          rw [List.intercalate_singleton] at hf ⊢
          rw [readEntries_last hv (by omega)]
          change _ = outcome (fits f.2 && true) [entry f] rest
          rw [Bool.and_true]
      | @cons text' f' texts fields hv' hall =>
          rw [List.intercalate_cons_cons] at hf ⊢
          simp only [List.length_append, List.length_cons, List.length_nil] at hf
          obtain ⟨c, cs, hcs, hc⟩ := joined_begins hv'.begins texts ('\x7d' :: rest)
          have hskip := hcs ▸ skipSpace_begins hc
          rw [List.append_assoc, List.append_assoc]
          refine (readEntries_comma hv (by omega) hskip).trans ?_
          rw [ih (by simp) fuel (by omega)]
          change _ = outcome (fits f.2 && entriesFit ((f' :: fields).map entry))
            (entry f :: (f' :: fields).map entry) rest
          cases fits f.2 <;> cases entriesFit ((f' :: fields).map entry) <;> rfl

theorem insert_new {name : String} (h : name ∉ fields.map Prod.fst) (v : Value) :
    Value.insert (fields.map entry) (.text name) v = (fields ++ [(name, v)]).map entry := by
  induction fields with
  | nil => rfl
  | cons f fields ih =>
      rw [List.map_cons, List.mem_cons, not_or] at h
      have hne : Value.eqv (.text f.1) (.text name) = false := by
        simp only [Value.eqv]
        exact beq_eq_false_iff_ne.mpr (Ne.symm h.1)
      rw [List.map_cons, entry, Value.insert, if_neg (by simp [hne]), ih h.2]
      rfl

theorem foldl_insert (known : List (String × Value))
    (h : ((known ++ fields).map Prod.fst).Nodup) :
    (fields.map entry).foldl (fun es p => Value.insert es p.1 p.2) (known.map entry) =
      (known ++ fields).map entry := by
  induction fields generalizing known with
  | nil => rw [List.append_nil]; rfl
  | cons f fields ih =>
      have hnew : f.1 ∉ known.map Prod.fst := by
        rw [List.map_append, List.nodup_append] at h
        intro hmem
        exact h.2.2 _ hmem _ List.mem_cons_self rfl
      rw [List.append_cons] at h ⊢
      rw [List.map_cons, List.foldl_cons, entry, insert_new hnew]
      exact ih _ h

/-- With no name twice, a name is looked up as what stands beside it. -/
theorem lookup_of_nodup {α : Type} {xs : List (String × α)} {x : String × α}
    (h : (xs.map Prod.fst).Nodup) (hx : x ∈ xs) : xs.lookup x.1 = some x.2 := by
  induction xs with
  | nil => cases hx
  | cons y xs ih =>
      rw [List.map_cons, List.nodup_cons] at h
      obtain rfl | hx := List.mem_cons.mp hx
      · rw [List.lookup_cons, beq_self_eq_true]
      · have hne : x.1 ≠ y.1 := fun heq => h.1 (heq ▸ List.mem_map_of_mem hx)
        rw [List.lookup_cons, beq_eq_false_iff_ne.mpr hne]
        exact ih h.2 hx

/-- Entering fields with different names gives them back. -/
theorem ofPairs_entries (h : (fields.map Prod.fst).Nodup) :
    Value.ofPairs (fields.map entry) = fields.map entry :=
  foldl_insert [] h

theorem reads_object {texts : List (List Char)}
    (h : List.Forall₂ (EntryReads ascii) texts fields) (hkeys : (fields.map Prod.fst).Nodup) :
    Reads ('\x7b' :: ([',', ' '].intercalate texts ++ ['\x7d'])) (.object fields) := by
  refine .of_succ ⟨_, _, rfl, rfl⟩ fun fuel rest hf _ => ?_
  cases h with
  | nil => rfl
  | @cons text f texts fields hv hall =>
      obtain ⟨c, cs, hcs, hc⟩ := joined_begins hv.begins texts ('\x7d' :: rest)
      have hread := readEntries_joined (List.Forall₂.cons hv hall) (by simp) fuel rest (by
        simp only [List.length_cons, List.length_append, List.length_nil] at hf
        omega)
      rw [hcs] at hread
      rw [List.cons_append, List.append_assoc, List.singleton_append, hcs, readValue]
      simp only [skipSpace_begins hc, hread]
      split
      next heq =>
        rw [(List.cons.inj heq).1] at hc
        cases hc
      next =>
        rw [outcome_bind, ofPairs_entries hkeys]
        change _ = outcome (entriesFit ((f :: fields).map entry))
          (Value.map ((f :: fields).map entry)) rest
        cases entriesFit ((f :: fields).map entry) <;> rfl

/-! ### All values -/

theorem writeItems?_reads (h : ∀ v ∈ items, ∃ s, write? (layout ascii) v = some s ∧
    Reads s.toList v) : ∃ rs, writeItems? (layout ascii) items = some rs ∧
      List.Forall₂ Reads (rs.map String.toList) items := by
  induction items with
  | nil => exact ⟨[], rfl, .nil⟩
  | cons v items ih =>
      rw [List.forall_mem_cons] at h
      obtain ⟨⟨s, hs, hread⟩, h⟩ := h
      obtain ⟨rs, hrs, hall⟩ := ih h
      exact ⟨s :: rs, by rw [writeItems?, hs, hrs], .cons hread hall⟩

theorem writeEntries?_reads (h : ∀ f ∈ fields, ∃ s, write? (layout ascii) f.2 = some s ∧
    Reads s.toList f.2) : ∃ rs, writeEntries? (layout ascii) (fields.map entry) = some rs ∧
      List.Forall₂ (EntryReads ascii) (rs.map String.toList) fields := by
  induction fields with
  | nil => exact ⟨[], rfl, .nil⟩
  | cons f fields ih =>
      rw [List.forall_mem_cons] at h
      obtain ⟨⟨s, hs, hread⟩, h⟩ := h
      obtain ⟨rs, hrs, hall⟩ := ih h
      refine ⟨(string ascii f.1 ++ ": " ++ s) :: rs, ?_, .cons ⟨s.toList, hread, ?_⟩ hall⟩
      · rw [List.map_cons, entry, writeEntries?, key?, hs, hrs]
        rfl
      · rw [String.toList_append, String.toList_append, List.append_assoc]
        rfl

/-- A value is written as a text that is read as the value. -/
theorem IsJson.reads (h : IsJson v) (ascii : Bool) :
    ∃ s, write? (layout ascii) v = some s ∧ Reads s.toList v := by
  induction h with
  | null => exact ⟨_, rfl, reads_null⟩
  | bool b => exact ⟨_, rfl, reads_bool b⟩
  | int n => exact ⟨_, rfl, reads_int n⟩
  | float h => exact ⟨_, rfl, reads_float h⟩
  | text s => exact ⟨_, rfl, reads_text ascii s⟩
  | list _ ih =>
      obtain ⟨rs, hrs, hall⟩ := writeItems?_reads ih
      refine ⟨_, by rw [write?, hrs]; rfl, ?_⟩
      have htext : ("[" ++ (layout ascii).comma.intercalate rs ++ "]").toList =
          '[' :: ([',', ' '].intercalate (rs.map String.toList) ++ [']']) := by
        rw [String.toList_append, String.toList_append, String.toList_intercalate,
          show (layout ascii).comma.toList = [',', ' '] by simp [layout]]
        rfl
      rw [htext]
      exact reads_list hall
  | object hkeys _ ih =>
      obtain ⟨rs, hrs, hall⟩ := writeEntries?_reads ih
      refine ⟨_, by rw [Value.object, write?]; exact congrArg _ hrs, ?_⟩
      have htext : ("\x7b" ++ (layout ascii).comma.intercalate rs ++ "\x7d").toList =
          '\x7b' :: ([',', ' '].intercalate (rs.map String.toList) ++ ['\x7d']) := by
        rw [String.toList_append, String.toList_append, String.toList_intercalate,
          show (layout ascii).comma.toList = [',', ' '] by simp [layout]]
        rfl
      rw [htext]
      exact reads_object hall hkeys

/-- The whole text of a value is read as the value. -/
theorem IsJson.read (h : IsJson v) (ascii : Bool) : ∃ s, write? (layout ascii) v = some s ∧
    Json.read s = if fits v then .ok v else .error .digitLimit := by
  obtain ⟨s, hs, hreads⟩ := h.reads ascii
  refine ⟨s, hs, ?_⟩
  obtain ⟨c, cs, hcs, hc⟩ := hreads.begins
  have hvalue := hreads.read (2 * s.toList.length + 2) [] (by omega) (fun c hc => by cases hc)
  rw [List.append_nil] at hvalue
  have hskip : skipSpace s.toList = s.toList := hcs ▸ skipSpace_begins hc
  have hmark : s.toList.head? ≠ some '\uFEFF' := by
    rw [hcs]
    rintro ⟨⟩
    cases hc
  simp only [Json.read, readAll, if_neg hmark, hskip, hvalue, outcome]
  cases fits v <;> rfl

/-! ### Objects as bytes -/

/-- The bytes of a text in UTF-8. -/
def utf8 (s : String) : List UInt8 :=
  s.toList.flatMap String.utf8EncodeChar

theorem text8?_utf8 (s : String) : text8? (utf8 s) = some s.toList := by
  have hbytes : ByteArray.mk (utf8 s).toArray = s.toList.utf8Encode := by
    rw [List.utf8Encode, utf8]
    ext1
    simp
  have hvalid : s.toList.utf8Encode.IsValidUTF8 := ByteArray.isValidUTF8_utf8Encode
  have htext : String.fromUTF8 s.toList.utf8Encode hvalid = s := by
    apply String.toByteArray_inj.mp
    change s.toList.utf8Encode = s.toByteArray
    exact String.utf8Encode_toList
  rw [text8?, hbytes, String.fromUTF8?, dif_pos hvalid, htext]
  rfl

/-- Bytes that begin with a brace and a quote or another brace are in UTF-8. -/
theorem encoded_brace {b : UInt8} (hb : b = 34 ∨ b = 125) (rest : List UInt8) :
    encoded (123 :: b :: rest) = (.utf8, 123 :: b :: rest) := by
  obtain rfl | rfl := hb <;> simp [encoded, plainEncoding]

theorem readBytes?_utf8 {s : String} {c : Char} {cs : List Char}
    (hs : s.toList = '\x7b' :: c :: cs) (hc : c = '"' ∨ c = '\x7d') :
    readBytes? (utf8 s) = (read s).toOption := by
  have hencoded : encoded (utf8 s) = (.utf8, utf8 s) := by
    rw [utf8, hs]
    obtain rfl | rfl := hc
    · exact encoded_brace (Or.inl rfl) (cs.flatMap String.utf8EncodeChar)
    · exact encoded_brace (Or.inr rfl) (cs.flatMap String.utf8EncodeChar)
  rw [readBytes?, hencoded]
  simp only [textIn?, text8?_utf8, String.ofList_toList]
  cases read s <;> rfl

/-- Joined texts begin with what the first of them begins with. -/
theorem intercalate_front (sep front back : List Char) (texts : List (List Char)) :
    ∃ rest, sep.intercalate ((front ++ back) :: texts) = front ++ rest := by
  cases texts with
  | nil => exact ⟨back, List.intercalate_singleton⟩
  | cons text texts =>
      refine ⟨back ++ sep ++ sep.intercalate (text :: texts), ?_⟩
      rw [List.intercalate_cons_cons]
      simp only [List.append_assoc]

/-- The text of an object stands in braces and begins with its first name. -/
theorem write?_fields {s : String} {f : String × Value}
    (h : write? (layout ascii) (.object (f :: fields)) = some s) :
    ∃ rest, s.toList = '\x7b' :: ((string ascii f.1).toList ++ rest) ++ ['\x7d'] := by
  rw [Value.object, write?] at h
  obtain ⟨texts, htexts, rfl⟩ := Option.map_eq_some_iff.mp h
  rw [List.map_cons, writeEntries?, key?] at htexts
  split at htexts
  next name r rs hname _ _ =>
    cases htexts
    cases hname
    obtain ⟨rest, hrest⟩ := intercalate_front (layout ascii).comma.toList
      (string ascii f.1).toList (": " ++ r).toList (rs.map String.toList)
    refine ⟨rest, ?_⟩
    rw [String.toList_append, String.toList_append, String.toList_intercalate, List.map_cons,
      String.append_assoc, String.toList_append, show (layout ascii).colon = ": " from rfl,
      show (layout ascii).ascii = ascii from rfl, hrest]
    rfl
  next => cases htexts

/-- The text of an object begins with a brace and a quote or another brace. -/
theorem write?_object {s : String} (h : write? (layout ascii) (.object fields) = some s) :
    ∃ c cs, s.toList = '\x7b' :: c :: cs ∧ (c = '"' ∨ c = '\x7d') := by
  cases fields with
  | nil =>
      cases h
      exact ⟨'\x7d', [], by simp, Or.inr rfl⟩
  | cons f fields =>
      obtain ⟨rest, hs⟩ := write?_fields h
      rw [string, String.toList_ofList] at hs
      exact ⟨_, _, hs, Or.inl rfl⟩

/-- The bytes of an object's text are read as the object, unless an integer in it is too long. -/
theorem IsJson.readBytes (h : IsJson (.object fields)) (ascii : Bool) :
    ∃ s, write? (layout ascii) (.object fields) = some s ∧
      readBytes? (utf8 s) = if fits (.object fields) then some (.object fields) else none := by
  obtain ⟨s, hs, hread⟩ := h.read ascii
  obtain ⟨c, cs, hcs, hc⟩ := write?_object hs
  refine ⟨s, hs, ?_⟩
  rw [readBytes?_utf8 hcs hc, hread]
  cases fits (.object fields) <;> rfl

end TableAudit.Json
