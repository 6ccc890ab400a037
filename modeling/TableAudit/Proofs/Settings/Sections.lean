import TableAudit.Proofs.Number.Exact
import TableAudit.Proofs.Yaml.Keys
import TableAudit.Settings.Load

/-!
# What a schema admits

A document passes its check just if it violates nothing. What the schemas that settings are made of
admit is said here: mappings with known keys, texts, integers and other numbers within bounds. An
integer may be written as a double that has its value, and an undefined double is below no bound.
-/

namespace TableAudit

open TableAudit.Number (Binary64)

variable {v w : Value} {es : List (Value × Value)} {s : Schema} {ps : List (String × Schema)}
  {bounds : List (Bound × Int)} {n k : Int}

/-! ### Numbers -/

/-- A double with the value of an integer compares as the integer does. -/
theorem Number.Binary64.compareInt?_of_value {x : Binary64} (hx : x.isFinite = true)
    (h : x.value = n) (k : Int) : x.compareInt? k = some (compare n k) := by
  obtain hlt | rfl | hgt := lt_trichotomy n k
  · rw [Int.compare_eq_lt.mpr hlt, compareInt?_lt_iff hx, h]
    exact_mod_cast hlt
  · have hne (o : Ordering) (ho : x.compareInt? n = some o) : o = .eq := by
      cases o with
      | lt => exact absurd ((compareInt?_lt_iff hx n).mp ho) (by rw [h]; exact lt_irrefl _)
      | gt => exact absurd ((compareInt?_gt_iff hx n).mp ho) (by rw [h]; exact lt_irrefl _)
      | eq => rfl
    match x, hx, hne with
    | .finite _ _ _, _, hne => rw [Int.compare_eq_eq.mpr rfl, ← hne _ rfl]; rfl
  · rw [Int.compare_eq_gt.mpr hgt, compareInt?_gt_iff hx, h]
    exact_mod_cast hgt

namespace Value

/-- A value counts so many: it is the integer, or a double with its value. -/
inductive Counts (n : Int) : Value → Prop
  | int : Counts n (.int n)
  | float {x : Binary64} (finite : x.isFinite = true) (exact : x.value = n) : Counts n (.float x)

/-- A value is a number that is not negative. -/
def IsNonneg (v : Value) : Prop :=
  ∃ n, v.number? = some n ∧ (Number.int 0).le n = true

theorem integer_holds_iff : SchemaKind.integer.holds v = true ↔ ∃ n, v.Counts n := by
  constructor
  · intro h
    match v, h with
    | .int n, _ => exact ⟨n, .int⟩
    | .float x, h =>
        rw [SchemaKind.holds, Bool.and_eq_true] at h
        obtain ⟨n, hn⟩ := (Binary64.isIntegral_iff h.1).mp h.2
        exact ⟨n, .float h.1 hn⟩
  · rintro ⟨n, hint | ⟨hfinite, hexact⟩⟩
    · rfl
    · rw [SchemaKind.holds, hfinite, (Binary64.isIntegral_iff hfinite).mpr ⟨n, hexact⟩]
      rfl

/-- What counts so many keeps the bounds that the integer keeps. -/
theorem Counts.keeps (h : v.Counts n) (k : Int) (b : Bound) :
    (Demand.bounded? v).all (fun m => Demand.keeps m (.int k) b) =
      Demand.keeps (.int n) (.int k) b := by
  cases h with
  | int => rfl
  | @float x finite exact =>
      have hcompare : (Number.float x).compare? (.int k) = (Number.int n).compare? (.int k) :=
        Binary64.compareInt?_of_value finite exact k
      have hswap : (Number.int k).compare? (.float x) = (Number.int k).compare? (.int n) := calc
        (Number.int k).compare? (.float x) = (x.compareInt? k).map Ordering.swap := rfl
        _ = some (compare k n) := by
          rw [Binary64.compareInt?_of_value finite exact, Option.map_some, Int.compare_swap]
      simp only [Demand.bounded?, Option.all_some]
      cases b <;> simp only [Demand.keeps, Number.lt, Number.le, hcompare, hswap]

/-- A number that is below zero for no comparison is not negative, or undefined. -/
theorem not_lt_zero_iff {m : Number} :
    m.lt (.int 0) = false ↔ (Number.int 0).le m = true ∨ m = .float .nan := by
  cases m with
  | int n => simp [Number.lt, Number.le, Number.compare?, Int.compare_eq_lt]; omega
  | float x =>
      cases x with
      | nan => simp [Number.lt, Number.compare?, Binary64.compareInt?]
      | infinity s => cases s <;> simp [Number.lt, Number.le, Number.compare?, Binary64.compareInt?]
      | finite s m e =>
          simp only [Number.lt, Number.le, Number.compare?, Binary64.compareInt?]
          cases Binary64.compareScaled (Binary64.signedMantissa s m) e 0 0 <;> simp

end Value

namespace Demand

theorem keeps_atLeast : keeps (.int n) (.int k) .atLeast = true ↔ k ≤ n := by
  simp [keeps, Number.lt, Number.compare?, Int.compare_eq_lt]

theorem keeps_atMost : keeps (.int n) (.int k) .atMost = true ↔ n ≤ k := by
  simp [keeps, Number.lt, Number.compare?, Int.compare_eq_lt]

theorem violatedUnless_nil {condition : Bool} {message : String} :
    violatedUnless condition message = [] ↔ condition = true := by
  cases condition <;> simp [violatedUnless]

end Demand

/-! ### Schemas -/

/-- Nothing is wrong with a value under a schema. -/
def Schema.Admits (s : Schema) (v : Value) : Prop :=
  s.violations v = []

theorem SchemaViolation.best?_none_iff {vs : List SchemaViolation} :
    best? vs = .ok none ↔ vs = [] := by
  cases vs with
  | nil => simp [best?]
  | cons v vs => simp [best?, map_ok_iff]

/-- A document passes its check just if the schema admits it. -/
theorem Settings.conform_iff : conform s v = .ok () ↔ s.Admits v := by
  rw [Schema.Admits, ← SchemaViolation.best?_none_iff, conform, Schema.violation?]
  split <;> simp_all

theorem allViolations_nil_iff {ds : List Demand} :
    allViolations v ds = [] ↔ ∀ d ∈ ds, d.violations v = [] := by
  induction ds with
  | nil => simp [allViolations]
  | cons d ds ih => rw [allViolations, List.append_eq_nil_iff, ih, List.forall_mem_cons]

theorem propertyViolations_nil_iff :
    propertyViolations v ps = [] ↔ ∀ p ∈ ps, ∀ w, v.get? p.1 = some w → p.2.Admits w := by
  induction ps with
  | nil => simp [propertyViolations]
  | cons p ps ih =>
      obtain ⟨name, schema⟩ := p
      rw [propertyViolations, List.append_eq_nil_iff, ih, List.forall_mem_cons]
      refine and_congr_left fun _ => ?_
      cases v.get? name <;> simp [Schema.Admits]

theorem SchemaKind.object_holds_iff : SchemaKind.object.holds v = true ↔ ∃ es, v = .map es := by
  cases v <;> simp [SchemaKind.holds]

theorem SchemaKind.text_holds_iff : SchemaKind.text.holds v = true ↔ ∃ t, v = .text t := by
  cases v <;> simp [SchemaKind.holds]

theorem all_admits_iff {ds : List Demand} :
    (Schema.all ds).Admits v ↔ ∀ d ∈ ds, d.violations v = [] := by
  rw [Schema.Admits, Schema.violations, allViolations_nil_iff]

namespace Demand

theorem kind_nil_iff {k : SchemaKind} : (kinds [k]).violations v = [] ↔ k.holds v = true := by
  simp [violations, shallow, violatedUnless_nil]

theorem bound_nil_iff {b : Bound} {limit : Number} :
    (bound b limit).violations v = [] ↔ (bounded? v).all (fun m => keeps m limit b) = true := by
  simp only [violations, shallow, violatedUnless_nil]

theorem others_nothing_nil_iff {known : List String} :
    (others known .nothing).violations (.map es) = [] ↔
      ∀ e ∈ es, ∃ name ∈ known, e.1 = .text name := by
  have hknown (e : Value × Value) :
      (!e.1.text?.any known.contains) = false ↔ ∃ name ∈ known, e.1 = .text name := by
    obtain ⟨k, w⟩ := e
    cases k <;> simp [Value.text?]
  have hextras (keys : List Value) : noExtras keys = [] ↔ keys = [] := by
    cases keys <;> simp [noExtras]
  rw [violations, hextras, List.map_eq_nil_iff, extras, List.filter_eq_nil_iff]
  simp only [Bool.not_eq_true, hknown]

end Demand

namespace Settings

/-- A closed mapping is one with known keys whose values are admitted. -/
theorem closed_admits_iff : (closed ps).Admits v ↔ ∃ es, v = .map es ∧
    (∀ e ∈ es, ∃ name ∈ ps.map (·.1), e.1 = .text name) ∧
      ∀ p ∈ ps, ∀ w, Value.lookup es p.1 = some w → p.2.Admits w := by
  rw [closed, all_admits_iff, List.forall_mem_cons, Demand.kind_nil_iff,
    SchemaKind.object_holds_iff, List.forall_mem_cons, List.forall_mem_singleton]
  constructor
  · rintro ⟨⟨es, rfl⟩, hkeys, hvalues⟩
    exact ⟨es, rfl, Demand.others_nothing_nil_iff.mp hkeys, propertyViolations_nil_iff.mp hvalues⟩
  · rintro ⟨es, rfl, hkeys, hvalues⟩
    exact ⟨⟨es, rfl⟩, Demand.others_nothing_nil_iff.mpr hkeys,
      propertyViolations_nil_iff.mpr hvalues⟩

/-- An integer within bounds is admitted however it is written. -/
theorem integer_admits_iff : (bounded .integer bounds).Admits v ↔
    ∃ n, v.Counts n ∧ ∀ b ∈ bounds, Demand.keeps (.int n) (.int b.2) b.1 = true := by
  rw [bounded, all_admits_iff, List.forall_mem_cons, Demand.kind_nil_iff,
    Value.integer_holds_iff, List.forall_mem_map]
  simp only [Demand.bound_nil_iff]
  constructor
  · rintro ⟨⟨n, hn⟩, hbounds⟩
    exact ⟨n, hn, fun b hb => (hn.keeps b.2 b.1).symm.trans (hbounds b hb)⟩
  · rintro ⟨n, hn, hbounds⟩
    exact ⟨⟨n, hn⟩, fun b hb => (hn.keeps b.2 b.1).trans (hbounds b hb)⟩

/-- A number that is not to be less than zero is not negative, or undefined. -/
theorem nonneg_admits_iff : (bounded .number [(.atLeast, 0)]).Admits v ↔
    v.IsNonneg ∨ v = .float .nan := by
  rw [bounded, all_admits_iff, List.map_singleton, List.forall_mem_cons, Demand.kind_nil_iff,
    List.forall_mem_singleton, Demand.bound_nil_iff]
  cases v with
  | int n => simp [Value.IsNonneg, Value.number?, SchemaKind.holds, Demand.bounded?, Demand.keeps,
      Value.not_lt_zero_iff]
  | float x => simp [Value.IsNonneg, Value.number?, SchemaKind.holds, Demand.bounded?,
      Demand.keeps, Value.not_lt_zero_iff]
  | _ => simp [Value.IsNonneg, Value.number?, SchemaKind.holds]

theorem anyText_admits_iff : anyText.Admits v ↔ ∃ t, v = .text t := by
  rw [anyText, all_admits_iff, List.forall_mem_singleton, Demand.kind_nil_iff,
    SchemaKind.text_holds_iff]

theorem messages_admits_iff :
    (Schema.all [.kinds [.object], .others [] anyText]).Admits v ↔
      ∃ es, v = .map es ∧ ∀ e ∈ es, ∃ t, e.2 = .text t := by
  rw [all_admits_iff, List.forall_mem_cons, Demand.kind_nil_iff, SchemaKind.object_holds_iff,
    List.forall_mem_singleton]
  have hothers (es : List (Value × Value)) :
      (Demand.others [] anyText).violations (.map es) = [] ↔ ∀ e ∈ es, ∃ t, e.2 = .text t := by
    have hall : Demand.extras [] (.map es) = es :=
      List.filter_eq_self.mpr fun e _ => by cases e.1.text? <;> rfl
    rw [Demand.violations, hall, List.flatMap_eq_nil_iff]
    · simp only [List.map_eq_nil_iff, ← anyText_admits_iff, Schema.Admits]
    · exact nofun
  constructor
  · rintro ⟨⟨es, rfl⟩, h⟩
    exact ⟨es, rfl, (hothers es).mp h⟩
  · rintro ⟨es, rfl, h⟩
    exact ⟨⟨es, rfl⟩, (hothers es).mpr h⟩

end Settings

end TableAudit

/-!
## Sections of settings

A section is made by setting the values of its entries one after the other. Every name of its schema
can be set, so an admitted document always makes settings; and as no name is there twice, a setting
has the value that is written for it or, where none is, its usual value.
-/

namespace TableAudit

namespace Settings

variable {σ : Type} {set : σ → String → Value → Option σ} {fields : σ → Fields}
  {names : List String} {usual s s' : σ} {es : List (Value × Value)} {v w : Value} {name : String}
  {ps : List (String × Schema)}

/-- The names of a section can be set: the one that is set then has its value, and the others keep
theirs. -/
structure IsSection (set : σ → String → Value → Option σ) (fields : σ → Fields)
    (names : List String) : Prop where
  known : ∀ name ∈ names, ∀ s v, ∃ s', set s name v = some s'
  fields_set : ∀ {s name v s'}, set s name v = some s' →
    fields s' = (fields s).map fun f => if f.1 = name then (name, v) else f

theorem setAll_cons (e : Value × Value) (h : e.1 = .text name) (hset : set s name e.2 = some s') :
    setAll set s (e :: es) = setAll set s' es := by
  obtain ⟨k, v⟩ := e
  obtain rfl : k = .text name := h
  rw [setAll, Value.text?, Option.bind_some, hset]

/-- Entries whose keys are all names of the section can be set. -/
theorem setAll_of_known (hsection : IsSection set fields names)
    (hkeys : ∀ e ∈ es, ∃ name ∈ names, e.1 = .text name) (s : σ) :
    ∃ s', setAll set s es = .ok s' := by
  induction es generalizing s with
  | nil => exact ⟨s, rfl⟩
  | cons e es ih =>
      obtain ⟨⟨name, hname, hkey⟩, hrest⟩ := List.forall_mem_cons.mp hkeys
      obtain ⟨s', hset⟩ := hsection.known name hname s e.2
      rw [setAll_cons e hkey hset]
      exact ih hrest s'

theorem lookup_cons (e : Value × Value) (h : e.1 = .text name) (other : String) :
    Value.lookup (e :: es) other = if other = name then some e.2 else Value.lookup es other := by
  obtain ⟨k, v⟩ := e
  obtain rfl : k = .text name := h
  rw [Value.lookup, List.findSome?_cons]
  by_cases ho : other = name
  · simp [ho]
  · simp [ho, Ne.symm ho, Value.lookup]

theorem exists_of_lookup (h : Value.lookup es name = some w) : ∃ e ∈ es, e.2 = w := by
  obtain ⟨e, he, hw⟩ := List.exists_of_findSome?_eq_some h
  refine ⟨e, he, ?_⟩
  split at hw
  next => exact Option.some.inj (Option.ite_none_right_eq_some.mp hw).2
  next => cases hw

theorem lookup_eq_none (h : name ∉ Value.textKeys es) : Value.lookup es name = none := by
  refine List.findSome?_eq_none_iff.mpr fun e he => ?_
  split
  next k v =>
    refine if_neg ?_
    rintro rfl
    exact h (Value.mem_textKeys.mpr ⟨_, he, rfl⟩)
  next => rfl

/-- A name whose value is replaced has the new one, every other name its own. -/
theorem lookup_replaced (fs : Fields) (name : String) (v : Value) (other : String) :
    (fs.map fun f => if f.1 = name then (name, v) else f).lookup other =
      (fs.lookup other).map fun w => if other = name then v else w := by
  induction fs with
  | nil => rfl
  | cons f fs ih =>
      obtain ⟨key, w⟩ := f
      by_cases ho : other = key
      · subst ho
        by_cases hkey : other = name <;> simp [hkey]
      · have hne : (other == key) = false := beq_false_of_ne ho
        by_cases hkey : key = name
        · subst hkey
          simp [List.lookup_cons, hne, ih]
        · simp [List.lookup_cons, hkey, hne, ih]

/-- With no name twice a setting has the value that is written for it, or the one it had. -/
theorem lookup_setAll (hsection : IsSection set fields names)
    (hkeys : ∀ e ∈ es, ∃ name ∈ names, e.1 = .text name) (hdistinct : (Value.textKeys es).Nodup)
    (h : setAll set s es = .ok s') (other : String) :
    (fields s').lookup other =
      ((fields s).lookup other).map fun w => (Value.lookup es other).getD w := by
  induction es generalizing s with
  | nil =>
      cases h
      exact Option.map_id'.symm
  | cons e es ih =>
      obtain ⟨⟨name, hname, hkey⟩, hrest⟩ := List.forall_mem_cons.mp hkeys
      obtain ⟨s₁, hset⟩ := hsection.known name hname s e.2
      rw [setAll_cons e hkey hset] at h
      rw [Value.textKeys_cons, hkey] at hdistinct
      obtain ⟨hnew, hdistinct⟩ := List.nodup_cons.mp hdistinct
      rw [ih hrest hdistinct h, hsection.fields_set hset, lookup_replaced, lookup_cons e hkey,
        Option.map_map]
      congr 1
      funext w
      by_cases ho : other = name
      · subst ho
        simp [lookup_eq_none hnew]
      · simp [ho]

/-- A section that is admitted, or not there, can be made. -/
theorem section_of_admits (hsection : IsSection set fields (ps.map (·.1)))
    (h : w = .null ∨ (closed ps).Admits w) (usual : σ) : ∃ s, section? set usual w = .ok s := by
  obtain rfl | h := h
  · exact ⟨usual, rfl⟩
  · obtain ⟨es, rfl, hkeys, -⟩ := closed_admits_iff.mp h
    rw [section?]
    split
    · exact setAll_of_known hsection hkeys usual
    · exact ⟨usual, rfl⟩

/-- A setting has the value that is written for it, or its usual one. -/
theorem lookup_section (hsection : IsSection set fields (ps.map (·.1)))
    (h : w = .null ∨ (closed ps).Admits w) (hdistinct : w.HasDistinctKeys)
    (hs : section? set usual w = .ok s) (name : String) :
    (fields s).lookup name = ((fields usual).lookup name).map fun u => (w.get? name).getD u := by
  obtain rfl | h := h
  · cases hs
    exact Option.map_id'.symm
  · obtain ⟨es, rfl, hkeys, -⟩ := closed_admits_iff.mp h
    rw [section?] at hs
    split at hs
    · exact lookup_setAll hsection hkeys hdistinct hs name
    next hempty =>
      cases hs
      cases es with
      | nil => exact Option.map_id'.symm
      | cons e es => simp [Value.isTruthy] at hempty

/-! ### The sections -/

/-- The demands on the settings of a pass. -/
def engineDemands : List (String × Schema) := [
  ("chunk_size", bounded .integer [(.atLeast, 1)]),
  ("debounce_seconds", bounded .number [(.atLeast, 0)]),
  ("page_size", bounded .integer [(.atLeast, 1), (.atMost, 500)])]

/-- The demands on the settings of posting again. -/
def retryDemands : List (String × Schema) := [
  ("attempts", bounded .integer [(.atLeast, 1)]),
  ("base_delay", bounded .number [(.atLeast, 0)]),
  ("max_delay", bounded .number [(.atLeast, 0)])]

/-- The demands on the settings of the table. -/
def remoteDemands : List (String × Schema) := [
  ("base_url", filledText),
  ("app_token", optionalText),
  ("table_id", optionalText),
  ("view_id", optionalText),
  ("timeout_seconds", bounded .number [(.above, 0)])]

/-- The demands on the settings of a notice. -/
def noticeDemands : List (String × Schema) := [
  ("webhook_url", optionalText),
  ("title", anyText),
  ("locale", filledText),
  ("table_url", optionalText),
  ("link_text", anyText),
  ("closing_text", anyText)]

theorem engine_isSection :
    IsSection EngineSettings.set EngineSettings.fields (engineDemands.map (·.1)) where
  known name hname s v := by
    simp only [engineDemands, List.map_cons, List.map_nil, List.mem_cons, List.not_mem_nil,
      or_false] at hname
    obtain rfl | rfl | rfl := hname <;> exact ⟨_, rfl⟩
  fields_set h := by
    unfold EngineSettings.set at h
    split at h <;> cases h <;> simp [EngineSettings.fields]

theorem retry_isSection :
    IsSection RetrySettings.set RetrySettings.fields (retryDemands.map (·.1)) where
  known name hname s v := by
    simp only [retryDemands, List.map_cons, List.map_nil, List.mem_cons, List.not_mem_nil,
      or_false] at hname
    obtain rfl | rfl | rfl := hname <;> exact ⟨_, rfl⟩
  fields_set h := by
    unfold RetrySettings.set at h
    split at h <;> cases h <;> simp [RetrySettings.fields]

theorem remote_isSection :
    IsSection RemoteSettings.set RemoteSettings.fields (remoteDemands.map (·.1)) where
  known name hname s v := by
    simp only [remoteDemands, List.map_cons, List.map_nil, List.mem_cons, List.not_mem_nil,
      or_false] at hname
    obtain rfl | rfl | rfl | rfl | rfl := hname <;> exact ⟨_, rfl⟩
  fields_set h := by
    unfold RemoteSettings.set at h
    split at h <;> cases h <;> simp [RemoteSettings.fields]

theorem notice_isSection :
    IsSection NoticeSettings.set NoticeSettings.fields (noticeDemands.map (·.1)) where
  known name hname s v := by
    simp only [noticeDemands, List.map_cons, List.map_nil, List.mem_cons, List.not_mem_nil,
      or_false] at hname
    obtain rfl | rfl | rfl | rfl | rfl | rfl := hname <;> exact ⟨_, rfl⟩
  fields_set h := by
    unfold NoticeSettings.set at h
    split at h <;> cases h <;> simp [NoticeSettings.fields]

/-! ### Documents -/

/-- The demands on a document. -/
def demands : List (String × Schema) := [
  ("engine", closed engineDemands),
  ("retry", closed retryDemands),
  ("remote", closed remoteDemands),
  ("notification", closed noticeDemands),
  ("messages", .all [.kinds [.object], .others [] anyText])]

theorem schema_eq : schema = closed demands :=
  rfl

/-- What an admitted document has under a name is admitted, if it has something there. -/
theorem get_admits {p : String × Schema} (h : schema.Admits v) (hp : p ∈ demands) :
    v.get p.1 = .null ∨ p.2.Admits (v.get p.1) := by
  rw [schema_eq] at h
  obtain ⟨es, rfl, -, hvalues⟩ := closed_admits_iff.mp h
  rw [Value.get, Value.get?]
  cases hlookup : Value.lookup es p.1 with
  | none => exact .inl rfl
  | some w => exact .inr (hvalues p hp w hlookup)

theorem entriesOf_of_admits
    (h : w = .null ∨ (Schema.all [.kinds [.object], .others [] anyText]).Admits w) :
    ∃ es, entriesOf w = .ok es ∧ ∀ e ∈ es, ∃ t, e.2 = .text t := by
  obtain rfl | h := h
  · exact ⟨[], rfl, List.forall_mem_nil _⟩
  · obtain ⟨es, rfl, htexts⟩ := messages_admits_iff.mp h
    rw [entriesOf]
    split
    · exact ⟨es, rfl, htexts⟩
    · exact ⟨[], rfl, List.forall_mem_nil _⟩

/-- The value that a document has for a setting of a section, if it has one. -/
def written (v : Value) (part name : String) : Option Value :=
  (v.get part).get? name

/-- The settings of a section are those of a document: each has the value that is written for it, or
its usual one. -/
def Follow (v : Value) (part : String) (usual made : Fields) : Prop :=
  ∀ name, made.lookup name = (usual.lookup name).map fun u => (written v part name).getD u

/-- Settings are those of a document, as far as the environment has no part in them. -/
structure Follows (v : Value) (s : Settings) : Prop where
  engine : Follow v "engine" EngineSettings.usual.fields s.engine.fields
  retry : Follow v "retry" RetrySettings.usual.fields s.retry.fields
  messages : ∀ e ∈ s.messages, ∃ t, e.2 = .text t

/-- An admitted document makes settings, which follow it if no name is there twice. -/
theorem ofValue_of_admits (h : schema.Admits v) :
    ∃ s, ofValue v = .ok s ∧ ((∀ name, (v.get name).HasDistinctKeys) → Follows v s) := by
  obtain ⟨hengine, hretry, hremote, hnotice, hmessages⟩ := by
    simpa [demands] using fun p hp => get_admits (p := p) h hp
  obtain ⟨engine, he⟩ := section_of_admits engine_isSection hengine .usual
  obtain ⟨retry, hr⟩ := section_of_admits retry_isSection hretry .usual
  obtain ⟨remote, hm⟩ := section_of_admits remote_isSection hremote .usual
  obtain ⟨notice, hn⟩ := section_of_admits notice_isSection hnotice .usual
  obtain ⟨messages, hes, htexts⟩ := entriesOf_of_admits hmessages
  refine ⟨⟨engine, retry, remote, notice, messages⟩, ?_, fun hdistinct => ?_⟩
  · obtain ⟨es, rfl, -⟩ := closed_admits_iff.mp h
    simp only [ofValue, he, hr, hm, hn, hes, ok_bind]
  · constructor
    case engine => exact lookup_section engine_isSection hengine (hdistinct _) he
    case retry => exact lookup_section retry_isSection hretry (hdistinct _) hr
    case messages => exact htexts

/-! ### Loaded settings -/

variable {u : Value} {env : Environment} {made : Settings}

/-- The document of a file of settings. A missing file is as one without settings. -/
def documentIn : Option String → Except LoadError Value
  | none => .ok (.map [])
  | some text => documentOf text

theorem documentOf_hasDistinctKeys {text : String} (h : documentOf text = .ok v) (name : String) :
    (v.get name).HasDistinctKeys := by
  rw [documentOf] at h
  split at h
  · cases h
  · cases h
  next read hread =>
    split at h
    · cases h
      trivial
    · split at h
      next =>
        cases h
        cases v with
        | map es =>
            rw [Value.get, Value.get?]
            cases hlookup : Value.lookup es name with
            | none => trivial
            | some w =>
                obtain ⟨e, he, hw⟩ := exists_of_lookup hlookup
                exact hw ▸ (Yaml.read_hasDistinctKeys hread).2 e he
        | _ => trivial
      next => cases h

theorem empty_admitted : schema.Admits (.map []) := by
  refine closed_admits_iff.mpr ⟨[], rfl, List.forall_mem_nil _, fun _ _ w hw => ?_⟩
  cases hw

/-- Settings that are loaded follow an admitted document. -/
theorem load_follows {path : String} {isRequired : Bool} {file : Option String}
    (h : load path isRequired file env = .ok made) :
    ∃ v, documentIn file = .ok v ∧ schema.Admits v ∧ Follows v made := by
  cases file with
  | none =>
      rw [load] at h
      split at h
      · cases h
      · cases h
        exact ⟨.map [], rfl, empty_admitted, fun _ => Option.map_id'.symm,
          fun _ => Option.map_id'.symm, List.forall_mem_nil _⟩
  | some text =>
      obtain ⟨written, hwritten, rfl⟩ := map_ok_iff.mp h
      obtain ⟨v, hv, hdocument⟩ := bind_ok_iff.mp hwritten
      obtain ⟨_, hconform, hvalue⟩ := bind_ok_iff.mp hdocument
      have hadmits := conform_iff.mp hconform
      obtain ⟨_, hmade, hfollows⟩ := ofValue_of_admits hadmits
      obtain rfl := Except.ok.inj (hmade.symm.trans (mapError_ok_iff.mp hvalue))
      obtain ⟨hengine, hretry, hmessages⟩ := hfollows (documentOf_hasDistinctKeys hv)
      exact ⟨v, hv, hadmits, hengine, hretry, hmessages⟩

/-- The value of a setting is admitted for it if the usual one is. -/
theorem written_admits {part : String} {ps : List (String × Schema)} {p : String × Schema}
    (h : schema.Admits v) (hpart : (part, closed ps) ∈ demands) (hp : p ∈ ps)
    (husual : p.2.Admits u) : p.2.Admits ((written v part p.1).getD u) := by
  rw [written]
  obtain hnull | hadmits := get_admits h hpart
  · rw [hnull]
    exact husual
  · obtain ⟨es, hes, -, hvalues⟩ := closed_admits_iff.mp hadmits
    rw [hes, Value.get?]
    cases hw : Value.lookup es p.1 with
    | none => exact husual
    | some w => exact hvalues p hp w hw

theorem Follows.chunkSize (h : Follows v made) :
    made.engine.chunkSize = (written v "engine" "chunk_size").getD (.int 1000) :=
  Option.some.inj (h.engine "chunk_size")

theorem Follows.pageSize (h : Follows v made) :
    made.engine.pageSize = (written v "engine" "page_size").getD (.int 100) :=
  Option.some.inj (h.engine "page_size")

theorem Follows.attempts (h : Follows v made) :
    made.retry.attempts = (written v "retry" "attempts").getD (.int 3) :=
  Option.some.inj (h.retry "attempts")

theorem Follows.debounce (h : Follows v made) : made.engine.debounceSeconds =
    (written v "engine" "debounce_seconds").getD EngineSettings.usual.debounceSeconds :=
  Option.some.inj (h.engine "debounce_seconds")

theorem Follows.baseDelay (h : Follows v made) :
    made.retry.baseDelay = (written v "retry" "base_delay").getD RetrySettings.usual.baseDelay :=
  Option.some.inj (h.retry "base_delay")

theorem Follows.maxDelay (h : Follows v made) :
    made.retry.maxDelay = (written v "retry" "max_delay").getD RetrySettings.usual.maxDelay :=
  Option.some.inj (h.retry "max_delay")

end Settings

end TableAudit
