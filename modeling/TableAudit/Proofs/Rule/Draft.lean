import Mathlib.Data.List.Forall2
import TableAudit.Json.Write
import TableAudit.Proofs.Fault
import TableAudit.Proofs.Number.Reading
import TableAudit.Rule.Reading
import TableAudit.Value.Basic

/-!
# Drafts of rules

A draft is a rule before it is written: its type, its flags, and what the type demands, with
a pattern and a span of time still as texts. It is written in the short way, every property as a
piece between bars, or as an object with the same properties. The object's properties are read as
the rule that the draft stands for.
-/

namespace TableAudit.Rule

/-- What a property of a draft says. -/
inductive Setting
  | flag (b : Bool)
  | number (n : TableAudit.Number)
  | text (s : String)
  | span (s : String)
  | texts (items : List String)

namespace Setting

/-- The value of a setting in an object. -/
def value : Setting → Value
  | flag b => .bool b
  | number n => n.toValue
  | text s => .text s
  | span s => .text s
  | texts items => .list (items.map .text)

/-- The text of a setting in the short way; the texts of a list are joined by commas. -/
def short : Setting → List Char
  | flag b => (if b then "true" else "false").toList
  | number n => n.text.toList
  | text s => s.toList
  | span s => s.toList
  | texts items => [','].intercalate (items.map String.toList)

end Setting

/-- What the type of a draft demands. -/
inductive Demands
  | text (min max length : Option TableAudit.Number) (pattern : Option String)
      (mayBeEmpty unique : Option Bool) (choices : Option (List String))
  | number (min max : Option TableAudit.Number)
      (integer positive negative convert : Option Bool)
  | date (convert : Option Bool) (expiry : Option String)
  | boolean (convert : Option Bool)
  | email
  | choice (values : List String)

/-- A rule before it is written. -/
structure Draft where
  optional : Option Bool
  required : Option Bool
  demands : Demands

/-- A property that is only written if it is there. -/
def given {α : Type} (key : String) (f : α → Setting) (o : Option α) : List (String × Setting) :=
  (o.map fun a => (key, f a)).toList

namespace Demands

/-- The name of the type. -/
def type : Demands → String
  | text .. => "string"
  | number .. => "number"
  | date .. => "date"
  | boolean .. => "boolean"
  | email => "email"
  | choice .. => "enum"

theorem type_mem (d : Demands) :
    d.type ∈ ["string", "number", "date", "boolean", "email", "enum"] := by
  cases d <;> simp [type]

theorem type_ne_nil (d : Demands) : d.type.toList ≠ [] := by
  have hall : ∀ s ∈ ["string", "number", "date", "boolean", "email", "enum"], s.toList ≠ [] := by
    decide
  exact hall _ d.type_mem

/-- The name of a type has neither blanks nor marks. -/
theorem type_chars (d : Demands) :
    ∀ c ∈ d.type.toList, TableAudit.Text.isBlank c = false ∧ c ≠ '|' ∧ c ≠ '\x7b' := by
  have hall : ∀ s ∈ ["string", "number", "date", "boolean", "email", "enum"], s.toList.all
      (fun c => !TableAudit.Text.isBlank c && c != '|' && c != '\x7b') = true := by decide
  intro c hc
  have hmark := List.all_eq_true.mp (hall _ d.type_mem) c hc
  simp only [Bool.and_eq_true, Bool.not_eq_true', bne_iff_ne, ne_eq] at hmark
  exact ⟨hmark.1.1, hmark.1.2, hmark.2⟩

/-- The properties of the type. -/
def settings : Demands → List (String × Setting)
  | text min max length pattern mayBeEmpty unique choices =>
    given "min" .number min ++ given "max" .number max ++ given "length" .number length ++
      given "pattern" .text pattern ++ given "empty" .flag mayBeEmpty ++
      given "exists" .flag unique ++ given "enum" .texts choices
  | number min max integer positive negative convert =>
    given "min" .number min ++ given "max" .number max ++ given "integer" .flag integer ++
      given "positive" .flag positive ++ given "negative" .flag negative ++
      given "convert" .flag convert
  | date convert expiry => given "convert" .flag convert ++ given "expire" .span expiry
  | boolean convert => given "convert" .flag convert
  | email => []
  | choice values => [("values", .texts values)]

end Demands

/-- A setting as a piece between bars. -/
def piece (x : String × Setting) : List Char :=
  x.1.toList ++ ':' :: x.2.short

/-- The pattern that a text spells. -/
def compiled (s : String) : Except Refusal Pattern :=
  match Pattern.ofText? s with
  | .ok p => .ok p
  | .error (.mistake m) => wrong (.badPattern s m)
  | .error (.fault f) => .error (.fault f)

/-- The span of time that a text spells. -/
def timed (s : String) : Except Refusal Expiry :=
  match Duration.ofText (.text s) s.toList with
  | .ok millis => .ok ⟨s, millis⟩
  | .error (.mistake m) => wrong (.badExpiry m)
  | .error (.fault f) => .error (.fault f)

/-- A list that must not be empty. -/
def listed (key : String) (items : List String) : Except Refusal (List String) :=
  if items = [] then wrong (.emptyList key) else .ok items

/-- The value is read as the setting says. -/
def Setting.Conveyed : Setting → Value → Prop
  | flag b, v => v = .bool b
  | number n, v => v = n.toValue
  | text s, v => v = .text s
  | span s, v => expiry? [("expire", v)] = (timed s).map some
  | texts items, v => ∀ key, Rule.texts key v = listed key items

namespace Draft

variable {r : Draft} {key : String}

/-- The properties of a draft but its type. -/
def settings (r : Draft) : List (String × Setting) :=
  given "optional" .flag r.optional ++ given "required" .flag r.required ++ r.demands.settings

/-- The type and the pieces with bars between them. -/
def spelled (r : Draft) : List Char :=
  r.demands.type.toList ++ (r.settings.map piece).flatMap ('|' :: ·)

/-- The draft written in the short way. -/
def short (r : Draft) : String :=
  String.ofList r.spelled

/-- The entries of the draft as an object. -/
def fields (r : Draft) : List (String × Value) :=
  ("type", .text r.demands.type) :: r.settings.map fun x => (x.1, x.2.value)

/-- The rule that a draft stands for; a flag that is not given has its usual value. -/
def rule? (r : Draft) : Except Refusal Rule :=
  let common : Common := ⟨r.optional.getD false, r.required.getD false, .null⟩
  match r.demands with
  | .text min max length pattern mayBeEmpty unique choices => do
    let pattern ← pattern.mapM compiled
    let min ← count? "min" min
    let max ← count? "max" max
    let length ← count? "length" length
    let choices ← choices.mapM (listed "enum")
    .ok (.text ⟨common, min, max, length, pattern, mayBeEmpty.getD true, unique.getD false,
      choices⟩)
  | .number min max integer positive negative convert =>
    .ok (.number ⟨common, min, max, integer.getD false, positive.getD false, negative.getD false,
      convert.getD false⟩)
  | .date convert expiry => do
    let expiry ← expiry.mapM timed
    .ok (.date ⟨common, convert.getD false, expiry⟩)
  | .boolean convert => .ok (.boolean ⟨common, convert.getD false⟩)
  | .email => .ok (.email common)
  | .choice values => (listed "values" values).map fun values => .choice ⟨common, values⟩

/-! ### Properties that declare a draft -/

theorem lookup_given {α : Type} (k : String) (f : α → Setting) (o : Option α) :
    (given k f o).lookup key = if key = k then o.map f else none := by
  cases o with
  | none => simp [given]
  | some a =>
      by_cases h : key = k
      · simp [given, h]
      · simp [given, List.lookup_cons, beq_eq_false_iff_ne.mpr h, h]

/-- Properties with the type of a draft and a value for every setting, in a relation to it. -/
structure Carries (R : Setting → Value → Prop) (ps : Properties) (r : Draft) : Prop where
  type : ps.get "type" = .text r.demands.type
  settings : ∀ key, key ≠ "type" → Option.Rel R (r.settings.lookup key) (ps.get? key)

/-- Properties whose values convey the settings of a draft. -/
abbrev Declares (ps : Properties) (r : Draft) : Prop :=
  Carries Setting.Conveyed ps r

section Carried

variable {R : Setting → Value → Prop} {ps : Properties}

theorem Carries.get? {σ : Setting} (h : Carries R ps r) (hk : key ≠ "type")
    (hl : r.settings.lookup key = some σ) : ∃ v, ps.get? key = some v ∧ R σ v := by
  have hrel := h.settings key hk
  rw [hl] at hrel
  generalize Properties.get? ps key = o at hrel
  cases hrel with
  | some hv => exact ⟨_, rfl, hv⟩

theorem Carries.get?_none (h : Carries R ps r) (hk : key ≠ "type")
    (hl : r.settings.lookup key = none) : ps.get? key = none := by
  have hrel := h.settings key hk
  rw [hl] at hrel
  generalize Properties.get? ps key = o at hrel
  cases hrel with
  | none => rfl

/-- Settings and values that go together one by one are found together. -/
theorem lookup_rel {settings : List (String × Setting)}
    (h : List.Forall₂ (fun x p => p.1 = x.1 ∧ R x.2 p.2) settings ps) (key : String) :
    Option.Rel R (settings.lookup key) (ps.get? key) := by
  rw [Properties.get?]
  induction h with
  | nil => exact .none
  | @cons x p l ps hx _ ih =>
      rw [List.lookup_cons, List.lookup_cons, hx.1]
      cases key == x.1 with
      | true => exact .some hx.2
      | false => exact ih

theorem carries_of_forall₂
    (h : List.Forall₂ (fun x p => p.1 = x.1 ∧ R x.2 p.2) r.settings ps) :
    Carries R (("type", .text r.demands.type) :: ps) r := by
  refine ⟨rfl, fun key hk => ?_⟩
  have hget : Properties.get? (("type", .text r.demands.type) :: ps) key = ps.get? key := by
    rw [Properties.get?, List.lookup_cons, beq_eq_false_iff_ne.mpr hk]
    rfl
  rw [hget]
  exact lookup_rel h key

/-- The type of a draft is read as it stands. -/
theorem Carries.trim_type (h : Carries R ps r) :
    TableAudit.Text.trim (ps.get "type").plain = r.demands.type := by
  rw [h.type]
  exact TableAudit.Number.trim_eq_self fun c hc => (r.demands.type_chars c hc).1

end Carried

section Declared

variable {ps : Properties}

theorem Declares.flag {o : Option Bool} (h : Declares ps r) (hk : key ≠ "type")
    (hl : r.settings.lookup key = o.map .flag) (missing : Bool) :
    Rule.flag ps key missing = .ok (o.getD missing) := by
  match o with
  | none =>
      rw [Rule.flag, h.get?_none hk hl]
      rfl
  | some b =>
      obtain ⟨v, hget, rfl⟩ := h.get? hk hl
      rw [Rule.flag, hget]
      rfl

theorem Declares.number? {o : Option TableAudit.Number} (h : Declares ps r) (hk : key ≠ "type")
    (hl : r.settings.lookup key = o.map .number) : Rule.number? ps key = .ok o := by
  match o with
  | none =>
      rw [Rule.number?, Properties.get, h.get?_none hk hl]
      rfl
  | some n =>
      obtain ⟨v, hget, rfl⟩ := h.get? hk hl
      rw [Rule.number?, Properties.get, hget]
      cases n <;> rfl

theorem Declares.pattern? {o : Option String} (h : Declares ps r)
    (hl : r.settings.lookup "pattern" = o.map .text) : Rule.pattern? ps = o.mapM compiled := by
  match o with
  | none =>
      rw [Rule.pattern?, Properties.get, h.get?_none (by decide) hl]
      rfl
  | some s =>
      obtain ⟨v, hget, rfl⟩ := h.get? (by decide) hl
      rw [Rule.pattern?, Properties.get, hget]
      simp only [Option.getD_some, Option.mapM_some, compiled]
      cases Pattern.ofText? s with
      | ok p => rfl
      | error e => cases e <;> rfl

/-- The span depends on one value only. -/
theorem expiry?_of_get? {v : Value} (h : ps.get? "expire" = some v) :
    Rule.expiry? ps = Rule.expiry? [("expire", v)] := by
  rw [Rule.expiry?, Rule.expiry?, Properties.get, h]
  rfl

theorem Declares.expiry? {o : Option String} (h : Declares ps r)
    (hl : r.settings.lookup "expire" = o.map .span) : Rule.expiry? ps = o.mapM timed := by
  match o with
  | none =>
      rw [Rule.expiry?, Properties.get, h.get?_none (by decide) hl]
      rfl
  | some s =>
      obtain ⟨v, hget, hv⟩ := h.get? (by decide) hl
      rw [expiry?_of_get? hget]
      exact hv

theorem Declares.readCommon (h : Declares ps r) :
    Rule.readCommon ps = .ok ⟨r.optional.getD false, r.required.getD false, .null⟩ := by
  have hdefault : r.settings.lookup "default" = none := by
    rw [Draft.settings]
    cases r.demands <;> simp [Demands.settings, List.lookup_cons, List.lookup_append, lookup_given]
  have hoptional : r.settings.lookup "optional" = r.optional.map .flag := by
    rw [Draft.settings]
    cases r.demands <;> simp [Demands.settings, List.lookup_cons, List.lookup_append, lookup_given]
  have hrequired : r.settings.lookup "required" = r.required.map .flag := by
    rw [Draft.settings]
    cases r.demands <;> simp [Demands.settings, List.lookup_cons, List.lookup_append, lookup_given]
  rw [Rule.readCommon, h.flag (by decide) hoptional, h.flag (by decide) hrequired,
    Properties.get, h.get?_none (by decide) hdefault]
  rfl

/-- A property that the type of the draft has. -/
theorem lookup_settings {d : Demands} {o : Option Setting} (hd : r.demands = d)
    (hl : d.settings.lookup key = o) (hopt : key ≠ "optional") (hreq : key ≠ "required") :
    r.settings.lookup key = o := by
  rw [Draft.settings, List.lookup_append, List.lookup_append, lookup_given, if_neg hopt,
    lookup_given, if_neg hreq, hd, hl]
  rfl

variable {min max length : Option TableAudit.Number} {pattern expiry : Option String}
  {mayBeEmpty unique integer positive negative convert : Option Bool}
  {choices : Option (List String)} {values : List String}

theorem Declares.readText (h : Declares ps r)
    (hd : r.demands = .text min max length pattern mayBeEmpty unique choices) :
    (Rule.readText ps).map Rule.text = r.rule? := by
  have hset {key : String} {o : Option Setting} := @lookup_settings r key _ o hd
  simp only [Demands.settings, List.lookup_append, lookup_given] at hset
  have hpattern : r.settings.lookup "pattern" = pattern.map .text :=
    hset (by simp) (by decide) (by decide)
  have hmin : r.settings.lookup "min" = min.map .number :=
    hset (by simp) (by decide) (by decide)
  have hmax : r.settings.lookup "max" = max.map .number :=
    hset (by simp) (by decide) (by decide)
  have hlength : r.settings.lookup "length" = length.map .number :=
    hset (by simp) (by decide) (by decide)
  have hempty : r.settings.lookup "empty" = mayBeEmpty.map .flag :=
    hset (by simp) (by decide) (by decide)
  have hexists : r.settings.lookup "exists" = unique.map .flag :=
    hset (by simp) (by decide) (by decide)
  have henum : r.settings.lookup "enum" = choices.map .texts :=
    hset (by simp) (by decide) (by decide)
  rw [Rule.readText, h.pattern? hpattern, h.number? (by decide) hmin, h.number? (by decide) hmax,
    h.number? (by decide) hlength, h.readCommon, h.flag (by decide) hempty,
    h.flag (by decide) hexists, rule?, hd]
  simp only [map_bind]
  match choices with
  | none =>
      rw [h.get?_none (by decide) henum]
      rfl
  | some items =>
      obtain ⟨v, hget, hv⟩ := h.get? (by decide) henum
      simp only [hget, hv "enum", Option.mapM_some]
      cases listed "enum" items <;> rfl

theorem Declares.readNumber (h : Declares ps r)
    (hd : r.demands = .number min max integer positive negative convert) :
    (Rule.readNumber ps).map Rule.number = r.rule? := by
  have hset {key : String} {o : Option Setting} := @lookup_settings r key _ o hd
  simp only [Demands.settings, List.lookup_append, lookup_given] at hset
  have hmin : r.settings.lookup "min" = min.map .number :=
    hset (by simp) (by decide) (by decide)
  have hmax : r.settings.lookup "max" = max.map .number :=
    hset (by simp) (by decide) (by decide)
  have hinteger : r.settings.lookup "integer" = integer.map .flag :=
    hset (by simp) (by decide) (by decide)
  have hpositive : r.settings.lookup "positive" = positive.map .flag :=
    hset (by simp) (by decide) (by decide)
  have hnegative : r.settings.lookup "negative" = negative.map .flag :=
    hset (by simp) (by decide) (by decide)
  have hconvert : r.settings.lookup "convert" = convert.map .flag :=
    hset (by simp) (by decide) (by decide)
  rw [Rule.readNumber, h.readCommon, h.number? (by decide) hmin, h.number? (by decide) hmax,
    h.flag (by decide) hinteger, h.flag (by decide) hpositive, h.flag (by decide) hnegative,
    h.flag (by decide) hconvert, rule?, hd]
  rfl

theorem Declares.readDate (h : Declares ps r) (hd : r.demands = .date convert expiry) :
    (Rule.readDate ps).map Rule.date = r.rule? := by
  have hexpiry : r.settings.lookup "expire" = expiry.map .span :=
    lookup_settings hd (by simp [Demands.settings, List.lookup_append, lookup_given]) (by decide)
      (by decide)
  have hconvert : r.settings.lookup "convert" = convert.map .flag :=
    lookup_settings hd (by simp [Demands.settings, List.lookup_append, lookup_given]) (by decide)
      (by decide)
  rw [Rule.readDate, h.expiry? hexpiry, h.readCommon, h.flag (by decide) hconvert, rule?, hd]
  exact map_bind _ _ _

theorem Declares.readBoolean (h : Declares ps r) (hd : r.demands = .boolean convert) :
    (Rule.readBoolean ps).map Rule.boolean = r.rule? := by
  have hconvert : r.settings.lookup "convert" = convert.map .flag :=
    lookup_settings hd (by simp [Demands.settings, lookup_given]) (by decide) (by decide)
  rw [Rule.readBoolean, h.readCommon, h.flag (by decide) hconvert, rule?, hd]
  rfl

theorem Declares.readChoice (h : Declares ps r) (hd : r.demands = .choice values) :
    (Rule.readChoice ps).map Rule.choice = r.rule? := by
  have hvalues : r.settings.lookup "values" = some (.texts values) :=
    lookup_settings hd rfl (by decide) (by decide)
  obtain ⟨v, hget, hv⟩ := h.get? (by decide) hvalues
  rw [Rule.readChoice, hget, h.readCommon, rule?, hd]
  dsimp only
  change (Rule.texts "values" v >>= _).map _ = _
  rw [hv]
  cases listed "values" values <;> rfl

end Declared

/-- Properties that declare a draft are read as the rule that it stands for. -/
theorem Declares.ofProperties {ps : Properties} (h : Declares ps r) :
    Rule.ofProperties ps = r.rule? := by
  rw [Rule.ofProperties, h.trim_type]
  match hd : r.demands with
  | .text .. => exact h.readText hd
  | .number .. => exact h.readNumber hd
  | .date .. => exact h.readDate hd
  | .boolean _ => exact h.readBoolean hd
  | .email =>
      change (Rule.readCommon ps).map Rule.email = _
      rw [h.readCommon, rule?, hd]
      rfl
  | .choice _ => exact h.readChoice hd

/-- The value of a setting in an object conveys it. -/
theorem conveyed_value (σ : Setting) : σ.Conveyed σ.value := by
  match σ with
  | .flag _ => rfl
  | .number _ => rfl
  | .text _ => rfl
  | .span s =>
      have hplain : (Value.text s).plain = s := rfl
      change expiry? [("expire", .text s)] = (timed s).map some
      simp only [Rule.expiry?, Properties.get, Properties.get?, List.lookup_cons, beq_self_eq_true,
        Option.getD_some, timed, Duration.ofValue, hplain]
      cases Duration.ofText (.text s) s.toList with
      | ok millis => rfl
      | error e => cases e <;> rfl
  | .texts [] => exact fun _ => rfl
  | .texts (s :: items) =>
      intro key
      have hplain : ((s :: items).map Value.text).map Value.plain = s :: items := by
        rw [List.map_map]
        exact List.map_id (s :: items)
      rw [listed, if_neg (by simp)]
      exact congrArg Except.ok hplain

theorem declares_fields (r : Draft) : Declares r.fields r := by
  refine carries_of_forall₂ ?_
  rw [List.forall₂_map_right_iff, List.forall₂_same]
  exact fun x _ => ⟨rfl, conveyed_value x.2⟩

end Draft

end TableAudit.Rule
