import TableAudit.Proofs.Check.Obstacles
import TableAudit.Proofs.Check.Codes
import TableAudit.Proofs.Number.Exact
import TableAudit.Proofs.Calendar.Days
import TableAudit.Proofs.Pass.Uniqueness

/-!
# Rules read directly

What a rule says can be read off it without the keywords into which it is put: which problems a
text has is a list of conditions on the text, in a fixed order. A check finds just the problems of
that list, so nothing is lost or changed on the way through coercion, keywords and codes.
-/

namespace TableAudit

open TableAudit.Calendar (Moment)

/-- The problems of which the conditions hold. -/
def foundAmong (conditions : List (Problem × Bool)) : List Problem :=
  (conditions.filter (·.2)).map (·.1)

namespace Rule

/-- The problems of a text under demands on texts, in a column with some texts. -/
def Text.problems (r : Text) (column : List String) (s : String) : List Problem :=
  foundAmong [(.tooShort, r.minLength.any (s.length < ·)),
    (.tooLong, r.maxLength.any (· < s.length)),
    (.otherLength, r.exactLength.any (s.length ≠ ·)), (.noMatch, r.pattern.any (!·.occurs s)),
    (.noChoiceOfText, r.choices.any (!·.contains s)),
    (.repeated, r.unique && TableAudit.Text.trim s ≠ "" &&
      1 < (column.map TableAudit.Text.trim).count (TableAudit.Text.trim s))]

/-- The problems of a number under demands on numbers. -/
def Number.problems (r : Number) (n : TableAudit.Number) : List Problem :=
  foundAmong [(.tooSmall, r.minimum.any n.lt), (.tooLarge, r.maximum.any (·.lt n)),
    (.noInteger, r.integer && !n.isIntegral), (.notPositive, r.positive && n.le (.int 0)),
    (.notNegative, r.negative && (TableAudit.Number.int 0).le n)]

/-- Whether the span after a moment has passed. -/
def Expiry.hasPassed (x : Expiry) (now m : Moment) : Bool :=
  now.instant?.any fun present => m.instant?.any fun instant => instant + x.millis * 1000 < present

/-- The number that a text is. -/
def numberOf? (s : String) : Option TableAudit.Number :=
  (Number.form? (TableAudit.Text.trimChars s.toList)).map fun f =>
    if f.isInteger then
      .int (if f.negative then -TableAudit.Text.digitsValue f.whole
        else TableAudit.Text.digitsValue f.whole)
    else .float f.double

/-- The moment that a text is. -/
def Date.momentOf? (r : Date) (s : String) : Option Moment :=
  match Coercion.dateOfText r.convert s with
  | .ok (.moment m) => some m
  | _ => none

/-- Whether a text is a word for a truth value. -/
def Boolean.isWord (r : Boolean) (s : String) : Bool :=
  (Coercion.trueWords r.convert ++ Coercion.falseWords r.convert).contains
    (String.ofList (TableAudit.Text.lower (TableAudit.Text.trimChars s.toList)))

/-- The problems of a text that is not settled by being blank. -/
def problems (column : List String) (now : Moment) (s : String) : Rule → List Problem
  | text r => r.problems column s
  | number r =>
    match numberOf? s with
    | none => [.noNumber]
    | some n => r.problems n
  | date r =>
    match r.momentOf? s with
    | none => [.noDate]
    | some m => foundAmong [(.expired, r.expiry.any (·.hasPassed now m))]
  | boolean r => foundAmong [(.noBoolean, !r.isWord s)]
  | email _ => foundAmong [(.noEmail, !Email.pattern.occurs s)]
  | choice r => foundAmong [(.noChoice, !r.values.contains s)]

/-- The problems of a text: a blank one passes if it may, is reported as missing if it must not be,
and as empty if texts must not be empty. -/
def verdict (r : Rule) (column : List String) (now : Moment) (s : String) : List Problem :=
  if TableAudit.Text.isBlankText s then
    if r.common.optional then []
    else if r.common.required then [.missing]
    else if !r.mayBeEmpty then [.emptyText]
    else r.problems column now s
  else r.problems column now s

end Rule

/-! ### Conditions and keywords -/

variable {r : Rule} {p : Problem}

/-- The problems of the keywords that fail. -/
def failing (r : Rule) (fails : Rule.Keyword → Bool) (ks : List Rule.Keyword) : List Problem :=
  (ks.filter fails).map (Problem.ofKeyword r)

variable {fails : Rule.Keyword → Bool} {ks ks' : List Rule.Keyword} {k : Rule.Keyword}
variable {conditions conditions' : List (Problem × Bool)}

theorem failing_append (h : failing r fails ks = foundAmong conditions)
    (h' : failing r fails ks' = foundAmong conditions') :
    failing r fails (ks ++ ks') = foundAmong (conditions ++ conditions') := by
  rw [failing, List.filter_append, List.map_append, foundAmong, List.filter_append,
    List.map_append]
  exact congrArg₂ (· ++ ·) h h'

theorem failing_met (hk : fails k = false) (h : failing r fails ks = foundAmong conditions) :
    failing r fails (k :: ks) = foundAmong conditions := by
  rw [failing, List.filter_cons_of_neg (by simp [hk])]
  exact h

theorem failing_only (hk : fails k = true) (h : ∀ k' ∈ ks, fails k' = false) :
    failing r fails (k :: ks) = [.ofKeyword r k] := by
  rw [failing, List.filter_cons_of_pos hk, List.filter_eq_nil_iff.mpr (by simpa using h)]
  rfl

theorem failing_single (r : Rule) (fails : Rule.Keyword → Bool) (k : Rule.Keyword) :
    failing r fails [k] = foundAmong [(.ofKeyword r k, fails k)] := by
  by_cases hk : fails k <;> simp [failing, foundAmong, hk]

theorem failing_whenSome {α : Type} {f : α → Rule.Keyword} {condition : α → Bool} {a? : Option α}
    (h : ∀ a, Problem.ofKeyword r (f a) = p) (hf : ∀ a, a? = some a → fails (f a) = condition a) :
    failing r fails (Rule.whenSome f a?) = foundAmong [(p, a?.any condition)] := by
  cases a? with
  | none => rfl
  | some a => by_cases ha : condition a <;> simp [failing, Rule.whenSome, foundAmong, hf, ha, h]

theorem failing_whenSet {flag b : Bool} (h : Problem.ofKeyword r k = p)
    (hf : flag = true → fails k = b) :
    failing r fails (Rule.whenSet k flag) = foundAmong [(p, flag && b)] := by
  cases flag with
  | false => rfl
  | true => cases b <;> simp [failing, Rule.whenSet, foundAmong, hf, h]

namespace Check

variable {c : Check} {v : Value} {s : String} {es : List CheckError} {column : List String}

theorem fails_unique (hkeys : c.keys = keysOf (column.map .text)) :
    c.fails (.text s) .unique =
      (Text.trim s ≠ "" && 1 < (column.map Text.trim).count (Text.trim s)) := by
  have hcount : c.fails (.text s) .unique = decide (1 < c.keys.count (Text.trim s)) := by
    simp [fails, meets, meetsText, ← decide_not]
  rw [hcount, hkeys]
  by_cases ht : Text.trim s = ""
  · rw [ht, empty_count_keysOf]
    simp
  · rw [keysOf_texts, List.count_filter (by simpa using ht)]
    simp [ht]

/-- The keywords on texts that a text fails are the conditions that hold of it. -/
theorem failing_text {t : Rule.Text}
    (hkeys : t.unique = true → c.keys = keysOf (column.map .text)) :
    failing (.text t) (c.fails (.text s)) (Rule.text t).keywords = t.problems column s := by
  have hmin (n : Nat) : c.fails (.text s) (.minLength n) = decide (s.length < n) := by
    simp [fails, meets, meetsText, ← decide_not]
  have hmax (n : Nat) : c.fails (.text s) (.maxLength n) = decide (n < s.length) := by
    simp [fails, meets, meetsText, ← decide_not]
  have hexact (n : Nat) : c.fails (.text s) (.exactLength n) = decide (s.length ≠ n) := by
    rw [decide_not]
    rfl
  change failing _ _ (_ :: _ ++ _ ++ _ ++ _ ++ _ ++ _) =
    foundAmong ([_] ++ [_] ++ [_] ++ [_] ++ [_] ++ [_])
  refine failing_append (failing_append (failing_append (failing_append (failing_append
    (failing_met rfl ?_) ?_) ?_) ?_) ?_) ?_
  · exact failing_whenSome (fun _ => rfl) fun n _ => hmin n
  · exact failing_whenSome (fun _ => rfl) fun n _ => hmax n
  · exact failing_whenSome (fun _ => rfl) fun n _ => hexact n
  · exact failing_whenSome (fun _ => rfl) fun _ _ => rfl
  · exact failing_whenSome (fun _ => rfl) fun _ _ => rfl
  · rw [Bool.and_assoc]
    exact failing_whenSet rfl fun h => fails_unique (hkeys h)

theorem fails_integer {n : Number} (h : ∃ b, c.meets n.toValue .integer = .ok b) :
    c.fails n.toValue .integer = !n.isIntegral := by
  cases n with
  | float x => simp [fails, meets, Number.toValue, Value.number?, Number.toDouble?,
      Number.isIntegral]
  | int n =>
      by_cases hfinite : (Number.Binary64.ofInt n).isFinite = true
      · simp [fails, meets, Number.toValue, Value.number?, Number.toDouble?, Number.isIntegral,
          hfinite, Number.Binary64.ofInt_isIntegral hfinite]
      · simp [meets, Number.toValue, Value.number?, Number.toDouble?, hfinite] at h

/-- The keywords on numbers that a number fails are the conditions that hold of it. -/
theorem failing_number {r : Rule.Number} {n : Number}
    (hinteger : r.integer = true → ∃ b, c.meets n.toValue .integer = .ok b) :
    failing (.number r) (c.fails n.toValue) (Rule.number r).keywords = r.problems n := by
  have hnumber : n.toValue.number? = some n := by
    cases n <;> rfl
  have hkind : c.fails n.toValue (.kind .number) = false := by
    simp [fails, meets, isOfKind, hnumber]
  have hmin (m : Number) : c.fails n.toValue (.minimum m) = n.lt m := by
    simp [fails, meets, meetsNumber, hnumber]
  have hmax (m : Number) : c.fails n.toValue (.maximum m) = m.lt n := by
    simp [fails, meets, meetsNumber, hnumber]
  have hpositive : c.fails n.toValue .positive = n.le (.int 0) := by
    simp [fails, meets, meetsNumber, hnumber]
  have hnegative : c.fails n.toValue .negative = (Number.int 0).le n := by
    simp [fails, meets, meetsNumber, hnumber]
  change failing _ _ (_ :: _ ++ _ ++ _ ++ _ ++ _) = foundAmong ([_] ++ [_] ++ [_] ++ [_] ++ [_])
  refine failing_append (failing_append (failing_append (failing_append
    (failing_met hkind ?_) ?_) ?_) ?_) ?_
  · exact failing_whenSome (fun _ => rfl) fun n _ => hmin n
  · exact failing_whenSome (fun _ => rfl) fun n _ => hmax n
  · exact failing_whenSet rfl fun h => fails_integer (hinteger h)
  · exact failing_whenSet rfl fun _ => hpositive
  · exact failing_whenSet rfl fun _ => hnegative

/-- A text that is no number fails the kind and nothing else. -/
theorem failing_noNumber (c : Check) (r : Rule.Number) (s : String) :
    failing (.number r) (c.fails (.text s)) (Rule.number r).keywords = [.noNumber] := by
  change failing _ _ (_ :: (_ ++ _ ++ _ ++ _ ++ _)) = _
  refine failing_only rfl fun k hk => ?_
  simp only [List.mem_append, Rule.mem_whenSome, Rule.mem_whenSet] at hk
  obtain ((((⟨n, -, rfl⟩ | ⟨n, -, rfl⟩) | ⟨-, rfl⟩) | ⟨-, rfl⟩) | ⟨-, rfl⟩) := hk <;> rfl

/-- A text that is no date fails the kind and nothing else. -/
theorem failing_noDate (c : Check) (r : Rule.Date) (s : String) :
    failing (.date r) (c.fails (.text s)) (Rule.date r).keywords = [.noDate] := by
  refine failing_only rfl fun k hk => ?_
  obtain ⟨x, -, rfl⟩ := Rule.mem_whenSome.mp hk
  rfl

/-- Where it can be told, a moment has expired if the span after its instant has passed. -/
theorem hasExpired_ok {now m : Moment} {x : Rule.Expiry} {late : Bool} (ho : m.offset ≠ none)
    (h : hasExpired now x.millis m = .ok late) : late = x.hasPassed now m := by
  obtain ⟨o, ho⟩ := Option.ne_none_iff_exists'.mp ho
  have hinstant : m.instant? = some (m.localMicros - o) := by rw [Moment.instant?, ho]; rfl
  rw [hasExpired] at h
  split at h
  · cases h
  · split at h
    next => cases h
    next deadline hl =>
      have hdeadline := Moment.instant?_later hl ho
      rw [Rule.Expiry.hasPassed, hinstant]
      cases hnow : now.instant? with
      | none => simp [Moment.after?, hnow, hdeadline] at h
      | some present =>
          simp only [Moment.after?, hnow, hdeadline, Except.ok.injEq] at h
          simp [← h]

theorem failing_date {r : Rule.Date} {m : Moment} (ho : m.offset ≠ none)
    (hexpiry : ∀ x, r.expiry = some x → ∃ b, c.meets (.moment m) (.expiry x.millis) = .ok b) :
    failing (.date r) (c.fails (.moment m)) (Rule.date r).keywords =
      foundAmong [(.expired, r.expiry.any (·.hasPassed c.now m))] := by
  refine failing_met rfl (failing_whenSome (fun _ => rfl) fun x hx => ?_)
  obtain ⟨b, hb⟩ := hexpiry x hx
  simp only [meets] at hb
  cases hl : hasExpired c.now x.millis m with
  | error f => simp [hl, Except.map] at hb
  | ok late => simp [fails, meets, hl, Except.map, hasExpired_ok ho hl]

theorem number_cases (h : Coercion.number (.text s) = .ok v) :
    Rule.numberOf? s = none ∧ v = .text s ∨ ∃ n, Rule.numberOf? s = some n ∧ v = n.toValue := by
  simp only [Coercion.number] at h
  cases hf : Number.form? (Text.trimChars s.toList) with
  | none =>
      rw [hf] at h
      exact Or.inl ⟨by rw [Rule.numberOf?, hf]; rfl, (Except.ok.inj h).symm⟩
  | some f =>
      refine Or.inr ⟨_, by rw [Rule.numberOf?, hf]; rfl, ?_⟩
      rw [hf] at h
      by_cases hi : f.isInteger = true
      · simp only [hi, if_true, Number.Form.integer] at h ⊢
        split at h
        · cases h
        · exact (Except.ok.inj h).symm
      · simp only [hi] at h ⊢
        exact (Except.ok.inj h).symm

/-- The keywords that a text fails once it is read are the problems that the rule has with it. -/
theorem failing_coerced (hkeys : ∀ t, c.rule = .text t → t.unique = true →
      c.keys = keysOf (column.map .text))
    (hv : c.rule.coerce (.text s) = .ok v)
    (hdecided : ∀ k ∈ c.rule.keywords, ∃ b, c.meets v k = .ok b) :
    failing c.rule (c.fails v) c.rule.keywords = c.rule.problems column c.now s := by
  cases hc : c.rule with
  | text t =>
      rw [hc] at hv
      cases hv
      exact failing_text fun hu => hkeys t hc hu
  | number r =>
      rw [hc] at hv hdecided
      obtain ⟨hnone, rfl⟩ | ⟨n, hsome, rfl⟩ := number_cases hv
      · rw [Rule.problems, hnone]
        exact failing_noNumber c r s
      · rw [Rule.problems, hsome]
        exact failing_number fun hi =>
          hdecided _ (Rule.integer_mem_keywords.mpr ⟨r, rfl, hi⟩)
  | date r =>
      rw [hc] at hv hdecided
      change Coercion.dateOfText r.convert s = .ok v at hv
      obtain ht | ⟨m, hm, ho⟩ := Coercion.dateOfText_cases r.convert s
      · have hnone : r.momentOf? s = none := by rw [Rule.Date.momentOf?, ht]
        obtain rfl : .text s = v := Except.ok.inj (ht.symm.trans hv)
        rw [Rule.problems, hnone]
        exact failing_noDate c r s
      · have hsome : r.momentOf? s = some m := by rw [Rule.Date.momentOf?, hm]
        obtain rfl : .moment m = v := Except.ok.inj (hm.symm.trans hv)
        rw [Rule.problems, hsome]
        exact failing_date ho fun x hx =>
          hdecided _ (Rule.expiry_mem_keywords.mpr ⟨r, x, rfl, hx, rfl⟩)
  | boolean r =>
      rw [hc] at hv
      obtain rfl : Coercion.boolean r.convert (.text s) = v := Except.ok.inj hv
      have hfails : c.fails (Coercion.boolean r.convert (.text s)) (.kind .boolean) =
          !r.isWord s := by
        simp only [Coercion.boolean, Rule.Boolean.isWord]
        split_ifs <;> simp_all [fails, meets, isOfKind]
      rw [Rule.keywords, failing_single, hfails]
      rfl
  | email common =>
      rw [hc] at hv
      cases hv
      exact failing_met rfl (failing_single _ _ _)
  | choice r =>
      rw [hc] at hv
      cases hv
      exact failing_single _ _ _

/-- What settles a blank text is the direct reading's first part. -/
theorem verdict_eq (c : Check) (column : List String) (s : String) :
    c.rule.verdict column c.now s =
      match c.settled? s with
      | some p? => p?.toList
      | none => c.rule.problems column c.now s := by
  simp only [Rule.verdict, settled?, blankProblem?]
  by_cases hb : Text.isBlankText s = true
  · by_cases ho : c.rule.common.optional = true
    · simp [hb, ho]
    · by_cases hr : c.rule.common.required = true
      · simp [hb, ho, hr]
      · by_cases he : c.rule.mayBeEmpty = true <;> simp [hb, ho, hr, he]
  · simp [hb]

/-- A check finds the problems that its rule has with a text. -/
theorem run_codes (hkeys : ∀ t, c.rule = .text t → t.unique = true →
      c.keys = keysOf (column.map .text)) (h : c.run (.text s) = .ok es) :
    es.map (·.code) = (c.rule.verdict column c.now s).map (·.code) := by
  rw [verdict_eq]
  cases hs : c.settled? s with
  | some p? => exact codes_of_settled hs h
  | none =>
      obtain ⟨v, hv, hp⟩ := runFull_ok_iff.mp (runFull_of_unsettled hs h)
      have hdecided : ∀ k ∈ c.rule.keywords, ∃ b, c.meets v k = .ok b := fun k hk =>
        (problems_ok_iff.mp ⟨es, hp⟩ k hk).imp fun _ hb => hb.1
      rw [codes_eq hp]
      exact congrArg _ (failing_coerced hkeys hv hdecided)

end Check

end TableAudit
