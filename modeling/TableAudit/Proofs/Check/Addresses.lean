import TableAudit.Proofs.Check.Verdict
import TableAudit.Proofs.Pattern.Plain

/-!
# E-mail addresses

A rule of e-mail addresses accepts the texts that hold no blank and one at sign, with something
before it and a point behind it that has something on both sides. Since the end of a line counts as
the end of a text, it accepts such an address too if a line break follows it. Anything else has one
problem, that it is no address.
-/

namespace TableAudit

namespace Email

open TableAudit.Pattern (Flags Node Spans)

variable {s : String} {before w rest cs : List Char}

/-- An e-mail address in plain words. -/
structure IsAddress (s : String) : Prop where
  solid : ∀ c ∈ s.toList, Text.isBlank c = false
  oneSign : s.toList.count '@' = 1
  parts : ∃ name host, s.toList = name ++ '@' :: host ∧ name ≠ [] ∧
    ∃ left right, host = left ++ '.' :: right ∧ left ≠ [] ∧ right ≠ []

/-! ### What the pattern spans -/

/-- Some characters, none of them blank or the at sign. -/
def IsWord (cs : List Char) : Prop :=
  cs ≠ [] ∧ ∀ c ∈ cs, Text.isBlank c = false ∧ c ≠ '@'

/-- An address, cut into its parts. -/
def IsCut (cs : List Char) : Prop :=
  ∃ name left right, cs = name ++ '@' :: (left ++ '.' :: right) ∧ IsWord name ∧ IsWord left ∧
    IsWord right

theorem admits_literal (c d : Char) :
    (Node.literal c.toNat).admits Flags.none d = true ↔ d = c := by
  have hcode : (Node.literal c.toNat).admits Flags.none d = [d.toNat].contains c.toNat := rfl
  rw [hcode, List.contains_iff_mem, List.mem_singleton, Char.toNat_inj]
  exact eq_comm

theorem spans_literal (c : Char) : Spans Flags.none (.literal c.toNat) before w rest ↔ w = [c] := by
  rw [Pattern.spans_single rfl]
  simp only [admits_literal, exists_eq_right]

theorem admits_word (c : Char) :
    (Node.set true [.category .blank false, .code 64]).admits Flags.none c = true ↔
      Text.isBlank c = false ∧ c ≠ '@' := by
  have hset : (Node.set true [.category .blank false, .code 64]).admits Flags.none c =
      ((Text.isBlank c != false || ((Node.literal '@'.toNat).admits Flags.none c || false)) != true) :=
    rfl
  rw [hset, Ne, ← admits_literal]
  cases Text.isBlank c <;> cases (Node.literal '@'.toNat).admits Flags.none c <;> decide

theorem spans_word : Spans Flags.none word before w rest ↔ IsWord w := by
  simp only [word, Spans, admits_word, Option.not_mem_none, false_implies, implies_true, true_and,
    IsWord, ← List.length_pos_iff, Nat.one_le_iff_ne_zero, Nat.pos_iff_ne_zero]

theorem holds_lineStart {after : List Char} :
    (Pattern.Point.mk 0 before after []).holds Flags.none .lineStart = true ↔ before = [] := by
  simp [Pattern.Point.holds, Flags.none]

/-- The end of a line is the end of the text, also if a line break follows it. -/
theorem holds_lineEnd : (Pattern.Point.mk 0 before rest []).holds Flags.none .lineEnd = true ↔
    rest = [] ∨ rest = ['\n'] := by
  simp [Pattern.Point.holds, Flags.none]

theorem spans_pattern : Spans Flags.none pattern.node before w rest ↔
    before = [] ∧ (rest = [] ∨ rest = ['\n']) ∧ IsCut w := by
  constructor
  · rintro ⟨_, _, rfl, ⟨rfl, hstart⟩, name, _, rfl, hname, _, _, rfl, hsign, left, _, rfl, hleft,
      _, _, rfl, hpoint, right, _, rfl, hright, rfl, hend⟩
    obtain rfl := (spans_literal '@').mp hsign
    obtain rfl := (spans_literal '.').mp hpoint
    rw [spans_word] at hname hleft hright
    refine ⟨holds_lineStart.mp hstart, holds_lineEnd.mp hend, name, left, right, ?_, hname, hleft,
      hright⟩
    rw [List.append_nil]
    rfl
  · rintro ⟨hstart, hend, name, left, right, rfl, hname, hleft, hright⟩
    refine ⟨[], _, rfl, ⟨rfl, holds_lineStart.mpr hstart⟩, name, _, rfl, spans_word.mpr hname,
      ['@'], _, rfl, (spans_literal '@').mpr rfl, left, _, rfl, spans_word.mpr hleft, ['.'], _, rfl,
      (spans_literal '.').mpr rfl, right, [], (List.append_nil right).symm, spans_word.mpr hright,
      rfl, holds_lineEnd.mpr hend⟩

/-! ### Addresses -/

theorem IsWord.notMem (h : IsWord cs) : '@' ∉ cs :=
  fun hc => (h.2 '@' hc).2 rfl

/-- An address is what can be cut into its parts. -/
theorem isAddress_iff : IsAddress s ↔ IsCut s.toList := by
  constructor
  · rintro ⟨hsolid, hone, name, host, hs, hname, left, right, rfl, hleft, hright⟩
    rw [hs] at hsolid hone
    rw [List.count_append, List.count_cons_self] at hone
    have hfront : '@' ∉ name := List.count_eq_zero.mp (by omega)
    have hback : '@' ∉ left ++ '.' :: right := List.count_eq_zero.mp (by omega)
    rw [List.forall_mem_append, List.forall_mem_cons, List.forall_mem_append,
      List.forall_mem_cons] at hsolid
    obtain ⟨hsname, -, hsleft, -, hsright⟩ := hsolid
    rw [List.mem_append, List.mem_cons, not_or, not_or] at hback
    have hword {cs : List Char} (hne : cs ≠ []) (hsolid : ∀ c ∈ cs, Text.isBlank c = false)
        (hsign : '@' ∉ cs) : IsWord cs :=
      ⟨hne, fun c hc => ⟨hsolid c hc, fun heq => hsign (heq ▸ hc)⟩⟩
    exact ⟨name, left, right, hs, hword hname hsname hfront, hword hleft hsleft hback.1,
      hword hright hsright hback.2.2⟩
  · rintro ⟨name, left, right, hs, hname, hleft, hright⟩
    refine ⟨?_, ?_, name, _, hs, hname.1, left, right, rfl, hleft.1, hright.1⟩
    · rw [hs, List.forall_mem_append, List.forall_mem_cons, List.forall_mem_append,
        List.forall_mem_cons]
      exact ⟨fun c hc => (hname.2 c hc).1, by decide, fun c hc => (hleft.2 c hc).1, by decide,
        fun c hc => (hright.2 c hc).1⟩
    · rw [hs, List.count_append, List.count_cons_self, List.count_append,
        List.count_cons_of_ne (by decide), List.count_eq_zero.mpr hname.notMem,
        List.count_eq_zero.mpr hleft.notMem, List.count_eq_zero.mpr hright.notMem]

/-- The pattern is found in addresses and in those that a line break follows. -/
theorem occurs_iff : pattern.occurs s = true ↔
    IsAddress s ∨ ∃ t : String, s = t ++ "\n" ∧ IsAddress t := by
  have hbreak (t : String) : s = t ++ "\n" ↔ s.toList = t.toList ++ ['\n'] := by
    rw [← String.toList_inj, String.toList_append]
    exact Iff.rfl
  rw [Pattern.occurs_iff rfl]
  simp only [isAddress_iff, hbreak]
  constructor
  · rintro ⟨front, w, rest, hs, hspan⟩
    obtain ⟨hfront, hrest, hcut⟩ := spans_pattern.mp hspan
    obtain rfl := List.reverse_eq_nil_iff.mp hfront
    obtain rfl | rfl := hrest
    · rw [List.append_nil] at hs
      exact Or.inl (hs ▸ hcut)
    · exact Or.inr ⟨String.ofList w, by rw [String.toList_ofList]; exact hs,
        by rwa [String.toList_ofList]⟩
  · rintro (hcut | ⟨t, hs, hcut⟩)
    · exact ⟨[], s.toList, [], (List.append_nil _).symm,
        spans_pattern.mpr ⟨rfl, Or.inl rfl, hcut⟩⟩
    · exact ⟨[], t.toList, ['\n'], hs, spans_pattern.mpr ⟨rfl, Or.inr rfl, hcut⟩⟩

end Email

namespace Check

variable {c : Check} {common : Rule.Common}

/-- What a rule of addresses that says nothing of blank cells finds in a text. -/
theorem run_email (hrule : c.rule = .email common) (hoptional : common.optional = false)
    (hrequired : common.required = false) (s : String) :
    c.run (.text s) = if Email.pattern.occurs s then .ok []
      else (c.report .noEmail (.text Email.source) (.text s)).map ([·]) := by
  have hopen : blankProblem? c.rule = none := by
    simp [blankProblem?, hrule, Rule.common, hoptional, hrequired, Rule.mayBeEmpty]
  have hcoerce : c.rule.coerce (.text s) = .ok (.text s) := by
    rw [hrule]
    rfl
  obtain ⟨q, -, hq, -⟩ | ⟨-, hrun⟩ := run_cases c s
  · rw [hopen] at hq
    cases hq
  · rw [hrun, runFull_of_coerce hcoerce, hrule]
    have hkind : c.meets (.text s) (.kind .text) = .ok true := rfl
    have hpattern : c.meets (.text s) (.pattern Email.pattern) = .ok (Email.pattern.occurs s) := rfl
    have hproblem : Problem.ofKeyword c.rule (.pattern Email.pattern) = .noEmail := by
      rw [hrule]
      rfl
    simp only [Rule.keywords, problems, hkind, hpattern, hproblem]
    cases Email.pattern.occurs s with
    | true => rfl
    | false =>
        have hvalue : (Rule.Keyword.pattern Email.pattern).value = .text Email.source := rfl
        rw [hvalue]
        cases c.report .noEmail (.text Email.source) (.text s) <;> rfl

theorem reported_ne (c : Check) (p : Problem) (expected actual : Value) :
    (c.report p expected actual).map ([·]) ≠ .ok [] := by
  intro h
  cases hreport : c.report p expected actual with
  | error e =>
      rw [hreport] at h
      cases h
  | ok e =>
      rw [hreport] at h
      cases h

theorem email_passed_iff (hrule : c.rule = .email common) (hoptional : common.optional = false)
    (hrequired : common.required = false) (s : String) :
    c.run (.text s) = .ok [] ↔ Email.pattern.occurs s = true := by
  rw [run_email hrule hoptional hrequired]
  split
  next hyes => exact iff_of_true rfl hyes
  next hno => exact iff_of_false (reported_ne c _ _ _) hno

/-- A check that is not passed has the one problem that the text is no address. -/
theorem email_reported (hrule : c.rule = .email common) (hoptional : common.optional = false)
    (hrequired : common.required = false) {s : String} (h : c.run (.text s) ≠ .ok []) :
    c.run (.text s) = (c.report .noEmail (.text Email.source) (.text s)).map ([·]) := by
  rw [run_email hrule hoptional hrequired] at h ⊢
  split at h
  · exact absurd rfl h
  next hno => rw [if_neg hno]

end Check

/-- A rule of e-mail addresses that says nothing of blank cells can be made into a check of any
column. A text passes it just if it is an address or an address with a line break behind it;
otherwise the one report of what is no address is all there is, and if messages can be written it is
an error of that code. -/
theorem addresses_accepted {source : String} {common : Rule.Common}
    (h : Rule.ofText source = .ok (.email common)) (hoptional : common.optional = false)
    (hrequired : common.required = false) (column : List Value) (field : String)
    (messages : Messages) (now : Calendar.Moment) :
    ∃ c, Check.compile source column field messages now = .ok c ∧ ∀ s : String,
      (c.run (.text s) = .ok [] ↔
        Email.IsAddress s ∨ ∃ t : String, s = t ++ "\n" ∧ Email.IsAddress t) ∧
      (c.run (.text s) ≠ .ok [] → c.run (.text s) =
        (c.report .noEmail (.text Email.source) (.text s)).map ([·])) ∧
      (c.run (.text s) ≠ .ok [] → messages.Writable →
        ∃ e, c.run (.text s) = .ok [e] ∧ e.code = "email") := by
  have hcompile : Check.compile source column field messages now =
      .ok ⟨.email common, field, [], messages, now⟩ := by
    rw [Check.compile, h]
    rfl
  refine ⟨_, hcompile, fun s => ⟨?_, ?_, ?_⟩⟩
  · rw [Check.email_passed_iff rfl hoptional hrequired, Email.occurs_iff]
  · intro hfail
    exact Check.email_reported rfl hoptional hrequired hfail
  · intro hfail hmessages
    obtain ⟨e, he⟩ := Check.report_of_writable
      (c := ⟨.email common, field, [], messages, now⟩) hmessages .noEmail (.text Email.source)
      (.text s)
    refine ⟨e, ?_, Check.report_code he⟩
    rw [Check.email_reported rfl hoptional hrequired hfail, he]
    rfl

/-- An address passes the plain rule, and a text without a point behind the sign has its problem. -/
theorem plainEmail_found : ∃ c, Check.compile "email" [] "Mail" [] default = .ok c ∧
    c.run (.text "ann@mail.example.org") = .ok [] ∧
    ∃ e, c.run (.text "ann@example") = .ok [e] ∧ e.code = "email" := by
  have hsource : Rule.ofText "email" = .ok (.email ⟨false, false, .null⟩) := rfl
  obtain ⟨c, hc, hrun⟩ := addresses_accepted hsource rfl rfl [] "Mail" [] default
  refine ⟨c, hc, ?_, ?_⟩
  · rw [(hrun _).1, ← Email.occurs_iff]
    decide +kernel
  · refine (hrun _).2.2 ?_ Messages.writable_nil
    rw [Ne, (hrun _).1, ← Email.occurs_iff]
    decide +kernel

/-- The line break is blank, but a check of addresses does not see it. -/
theorem lineBreak_accepted : ∃ c, Check.compile "email" [] "Mail" [] default = .ok c ∧
    c.run (.text "a@b.co\n") = .ok [] ∧ ¬ Email.IsAddress "a@b.co\n" := by
  refine ⟨⟨.email ⟨false, false, .null⟩, "Mail", [], [], default⟩, rfl, ?_, ?_⟩
  · rw [Check.run_email rfl rfl rfl, if_pos (by decide +kernel)]
  · intro h
    exact absurd (h.solid '\n' (by decide)) (by decide)

end TableAudit
