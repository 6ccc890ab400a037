import Mathlib.Data.List.TakeDrop
import Mathlib.Data.List.TakeWhile
import TableAudit.Check.Basic
import TableAudit.Check.Problem
import TableAudit.Message.Template
import TableAudit.Proofs.Fault

/-!
# Templates that always can be written

A template whose fields only name values, without asking for anything of them, can be written
whatever the values are. The usual templates of all problems are of this kind.
-/

namespace TableAudit

namespace Message

variable {f : Field} {cs : List Char} {fuel : Nat}

/-- Whether a field does no more than name a value. -/
def Field.isName (f : Field) : Bool :=
  !f.path.isEmpty && !isPlace f.path && f.path.all (fun c => c != '.' && c != '[') &&
    f.conversion.isNone && f.layout.isEmpty && !f.nested

/-- Whether all fields of a template, as far as it has been cut into so many pieces, do no more
than name values. -/
def isPlain : Nat → List Char → Bool
  | 0, _ => true
  | fuel + 1, cs =>
    match piece? cs with
    | .error _ => false
    | .ok none => true
    | .ok (some (.plain _, rest)) => isPlain fuel rest
    | .ok (some (.field f, rest)) => f.isName && isPlain fuel rest

theorem resolve_of_isName (h : f.isName = true) (names : Names) :
    ∃ v, resolve names f.path = .ok v := by
  simp only [Field.isName, Bool.and_eq_true, Bool.not_eq_true'] at h
  obtain ⟨⟨⟨⟨⟨hne, hplace⟩, hall⟩, -⟩, -⟩, -⟩ := h
  have hspan : spanName f.path = (f.path, []) := by
    rw [spanName, List.span_eq_takeWhile_dropWhile]
    have hall' := List.all_eq_true.mp hall
    rw [List.takeWhile_eq_self_iff.mpr hall', List.dropWhile_eq_nil_iff.mpr hall']
  refine ⟨(names.lookup (String.ofList f.path)).getD
    (.text ("\x7b" ++ String.ofList f.path ++ "\x7d")), ?_⟩
  simp [resolve, hspan, hne, hplace, follow]

/-- A field that only names a value can be written. -/
theorem layOut_nil (v : Value) : layOut [] v = .ok v.plain.toList :=
  rfl

/-- A template whose fields only name values can be written. -/
theorem render_of_isPlain (h : isPlain fuel cs = true) (names : Names) (depth : Nat) :
    ∃ text, render names depth fuel cs = .ok text := by
  induction fuel generalizing cs with
  | zero => exact ⟨[], by rw [render]⟩
  | succ fuel ih =>
      rw [isPlain] at h
      rw [render]
      cases hp : piece? cs with
      | error f =>
          rw [hp] at h
          simp at h
      | ok piece =>
          rw [hp] at h
          match piece with
          | none => exact ⟨[], rfl⟩
          | some (.plain c, rest) =>
              obtain ⟨text, ht⟩ := ih h
              exact ⟨c :: text, by simp [ht, bind, Except.bind]⟩
          | some (.field f, rest) =>
              simp only [Bool.and_eq_true] at h
              obtain ⟨v, hv⟩ := resolve_of_isName h.1 names
              obtain ⟨text, ht⟩ := ih h.2
              have hf := h.1
              simp only [Field.isName, Bool.and_eq_true, Bool.not_eq_true',
                Option.isNone_iff_eq_none, List.isEmpty_iff] at hf
              obtain ⟨⟨⟨-, hc⟩, hl⟩, hn⟩ := hf
              exact ⟨v.plain.toList ++ text, by
                simp [hv, hc, hl, hn, ht, convert, layOut_nil, bind, Except.bind]⟩

/-- Whether all fields of a template do no more than name values. -/
def isPlainTemplate (template : String) : Bool :=
  isPlain (template.toList.length + 1) template.toList

theorem format_of_isPlain {template : String} (h : isPlainTemplate template = true)
    (names : Names) : ∃ text, format names template = .ok text := by
  obtain ⟨text, ht⟩ := render_of_isPlain h names 1
  exact ⟨String.ofList text, by simp [format, ht, Except.map]⟩

end Message

/-- The usual templates only name values. -/
theorem Problem.template_isPlain (p : Problem) : Message.isPlainTemplate p.template = true := by
  cases p <;> decide +kernel

end TableAudit

/-!
## What a check finds

A cell that is not settled by being blank is put to every keyword, and every keyword that it fails
gives one problem. So there is an outcome exactly if every keyword can be decided and every problem
that is found can be reported, and the codes in it are those of the keywords that fail.
-/

namespace TableAudit

namespace Text

/-- A text is blank if nothing remains of it when it is trimmed. -/
theorem isBlankText_iff {s : String} : isBlankText s = true ↔ trim s = "" := by
  have hempty {cs : List Char} : String.ofList cs = "" ↔ cs = [] := by
    rw [← String.toList_inj, String.toList_ofList, String.toList_empty]
  rw [isBlankText, trim, hempty, trimChars, trimRight, List.reverse_eq_nil_iff,
    List.dropWhile_eq_nil_iff, List.all_eq_true]
  simp only [List.mem_reverse]
  constructor
  · intro h c hc
    exact h c ((List.dropWhile_sublist isBlank).mem hc)
  · intro h
    by_cases hl : trimLeft s.toList = []
    · exact List.dropWhile_eq_nil_iff.mp hl
    · -- the first character that is kept would be no blank
      have hhead : isBlank ((trimLeft s.toList).head hl) = false :=
        List.head_dropWhile_not isBlank hl
      rw [h _ (List.head_mem hl)] at hhead
      exact absurd hhead (by simp)

end Text

namespace Rule

variable {k k' : Keyword} {r : Rule}

theorem mem_whenSome {α : Type} {f : α → Keyword} {a? : Option α} :
    k ∈ whenSome f a? ↔ ∃ a, a? = some a ∧ k = f a := by
  cases a? <;> simp [whenSome]

theorem mem_whenSet {flag : Bool} : k ∈ whenSet k' flag ↔ flag = true ∧ k = k' := by
  cases flag <;> simp [whenSet]

theorem unique_mem_keywords : .unique ∈ r.keywords ↔ ∃ t, r = .text t ∧ t.unique = true := by
  cases r <;> simp [keywords, mem_whenSome, mem_whenSet]

theorem integer_mem_keywords : .integer ∈ r.keywords ↔ ∃ n, r = .number n ∧ n.integer = true := by
  cases r <;> simp [keywords, mem_whenSome, mem_whenSet]

theorem expiry_mem_keywords {millis : Int} : .expiry millis ∈ r.keywords ↔
    ∃ d x, r = .date d ∧ d.expiry = some x ∧ millis = x.millis := by
  cases r <;> simp [keywords, mem_whenSome, mem_whenSet]

end Rule

/-- Every message can be written, whatever it is about. -/
def Messages.Writable (messages : Messages) : Prop :=
  ∀ m ∈ messages, ∀ names, ∃ text, Message.format names m.2 = .ok text

theorem Messages.writable_of_plain {messages : Messages}
    (h : ∀ m ∈ messages, Message.isPlainTemplate m.2 = true) : messages.Writable :=
  fun m hm => Message.format_of_isPlain (h m hm)

theorem Messages.writable_nil : Messages.Writable [] :=
  writable_of_plain (List.forall_mem_nil _)

namespace Check

variable {c : Check} {p : Problem} {expected actual v : Value} {ks : List Rule.Keyword}
variable {es : List CheckError} {s code : String}

/-- The values that the message of a problem may name. -/
def namesFor (c : Check) (expected actual : Value) : Message.Names :=
  [("field", .text c.field), ("expected", match expected with
    | .null => .text ""
    | v => v), ("actual", actual)]

theorem report_eq (c : Check) (p : Problem) (expected actual : Value) :
    c.report p expected actual = (Message.format (c.namesFor expected actual) (c.template p)).map
      fun message => ⟨p.code, message, c.field, expected, actual⟩ := by
  have hreport : c.report p expected actual = (do
      let message ← Message.format (c.namesFor expected actual) (c.template p)
      .ok ⟨p.code, message, c.field, expected, actual⟩) := rfl
  rw [hreport]
  cases Message.format (c.namesFor expected actual) (c.template p) <;> rfl

theorem report_ok_iff : (∃ e, c.report p expected actual = .ok e) ↔
    ∃ text, Message.format (c.namesFor expected actual) (c.template p) = .ok text := by
  rw [report_eq]
  cases Message.format (c.namesFor expected actual) (c.template p) <;> simp [Except.map]

theorem report_error_iff : (∃ f, c.report p expected actual = .error f) ↔
    ∃ f, Message.format (c.namesFor expected actual) (c.template p) = .error f := by
  rw [report_eq, map_error_iff]

theorem report_code {e : CheckError} (h : c.report p expected actual = .ok e) :
    e.code = p.code := by
  rw [report_eq] at h
  cases hm : Message.format (c.namesFor expected actual) (c.template p) with
  | error f =>
      rw [hm] at h
      cases h
  | ok text =>
      rw [hm] at h
      cases h
      rfl

/-- Messages that can be written, the usual ones among them, let every problem be reported. -/
theorem report_of_writable (h : c.messages.Writable) (p : Problem) (expected actual : Value) :
    ∃ e, c.report p expected actual = .ok e := by
  rw [report_ok_iff, template]
  cases hl : c.messages.lookup p.code with
  | none => exact Message.format_of_isPlain p.template_isPlain _
  | some t =>
      obtain ⟨l₁, l₂, hm, -⟩ := List.lookup_eq_some_iff.mp hl
      exact h (p.code, t) (by simp [hm]) _

/-- An outcome is that of the later keywords, behind the report of the first one if that fails. -/
theorem problems_cons_iff {k : Rule.Keyword} :
    problems c actual v (k :: ks) = .ok es ↔
      (c.meets v k = .ok true ∧ problems c actual v ks = .ok es) ∨
        c.meets v k = .ok false ∧ ∃ e, c.report (.ofKeyword c.rule k) k.value actual = .ok e ∧
          ∃ rest, problems c actual v ks = .ok rest ∧ es = e :: rest := by
  rw [problems, bind_ok_iff]
  constructor
  · rintro ⟨met, hm, h⟩
    cases met with
    | true => exact Or.inl ⟨hm, h⟩
    | false =>
        obtain ⟨e, he, h⟩ := bind_ok_iff.mp h
        obtain ⟨rest, hrest, h⟩ := bind_ok_iff.mp h
        exact Or.inr ⟨hm, e, he, rest, hrest, (Except.ok.inj h).symm⟩
  · rintro (⟨hm, h⟩ | ⟨hm, e, he, rest, hrest, rfl⟩)
    · exact ⟨true, hm, h⟩
    · exact ⟨false, hm, bind_ok_iff.mpr ⟨e, he, bind_ok_iff.mpr ⟨rest, hrest, rfl⟩⟩⟩

/-- Keywords have an outcome if each of them can be decided, and reported where it fails. -/
theorem problems_ok_iff :
    (∃ es, problems c actual v ks = .ok es) ↔ ∀ k ∈ ks, ∃ b, c.meets v k = .ok b ∧
      (b = false → ∃ e, c.report (.ofKeyword c.rule k) k.value actual = .ok e) := by
  induction ks with
  | nil => simp [problems]
  | cons k ks ih =>
      rw [List.forall_mem_cons, ← ih]
      constructor
      · rintro ⟨es, h⟩
        obtain ⟨hm, h⟩ | ⟨hm, e, he, rest, h, -⟩ := problems_cons_iff.mp h
        · exact ⟨⟨true, hm, fun hb => by cases hb⟩, es, h⟩
        · exact ⟨⟨false, hm, fun _ => ⟨e, he⟩⟩, rest, h⟩
      · rintro ⟨⟨b, hm, hreport⟩, rest, h⟩
        cases b with
        | true => exact ⟨rest, problems_cons_iff.mpr (Or.inl ⟨hm, h⟩)⟩
        | false =>
            obtain ⟨e, he⟩ := hreport rfl
            exact ⟨e :: rest, problems_cons_iff.mpr (Or.inr ⟨hm, e, he, rest, h, rfl⟩)⟩

/-- They have none if one of them cannot be decided, or fails and cannot be reported. -/
theorem problems_error_iff :
    (∃ f, problems c actual v ks = .error f) ↔ ∃ k ∈ ks, (∃ f, c.meets v k = .error f) ∨
      c.meets v k = .ok false ∧ ∃ f, c.report (.ofKeyword c.rule k) k.value actual = .error f := by
  rw [exists_error_iff, problems_ok_iff, not_forall]
  refine exists_congr fun k => ?_
  rw [Classical.not_imp]
  refine and_congr_right fun _ => ?_
  cases hm : c.meets v k with
  | error f => simp
  | ok b => cases b <;> simp [exists_error_iff]

/-- The codes in the outcome are those of the keywords that fail. -/
theorem mem_codes_iff (h : problems c actual v ks = .ok es) :
    code ∈ es.map (·.code) ↔
      ∃ k ∈ ks, c.meets v k = .ok false ∧ code = (Problem.ofKeyword c.rule k).code := by
  induction ks generalizing es with
  | nil =>
      cases h
      simp
  | cons k ks ih =>
      obtain ⟨hm, h⟩ | ⟨hm, e, he, rest, hrest, rfl⟩ := problems_cons_iff.mp h
      · rw [ih h]
        simp [hm]
      · rw [List.map_cons, List.mem_cons, ih hrest, report_code he]
        simp [hm]

/-- A text can be put to every keyword. -/
theorem meets_text (c : Check) (s : String) (k : Rule.Keyword) :
    ∃ b, c.meets (.text s) k = .ok b := by
  cases k <;> exact ⟨_, rfl⟩

/-- A text that can be put to the keywords has an outcome, if messages can be written. -/
theorem run_ok_of_writable (h : c.messages.Writable) (hf : ∃ es, c.runFull (.text s) = .ok es) :
    ∃ es, c.run (.text s) = .ok es := by
  simp only [run]
  split
  · split
    · exact ⟨[], rfl⟩
    next p _ =>
      obtain ⟨e, he⟩ := report_of_writable h p .null (.text s)
      exact ⟨[e], by rw [he]; rfl⟩
    · exact hf
  · exact hf

end Check

end TableAudit
