import Mathlib.Data.List.Nodup
import TableAudit.Proofs.Check.Problems

/-!
# The codes of what a check finds

The codes in the outcome of a check are those of the keywords that the cell fails, in the order in
which they are put to it. Each keyword of a rule stands for a problem of its own; but for the two
of an e-mail address, of which a text can fail the second only. So the codes differ from each
other. They do not depend on the name under which the check was made.
-/

namespace TableAudit

namespace Rule

variable {r : Rule} {p : Problem}

/-- The problems of the keywords that a rule can have, in their order. -/
def possible : Rule → List Problem
  | text _ => [.noText, .tooShort, .tooLong, .otherLength, .noMatch, .noChoiceOfText, .repeated]
  | number _ => [.noNumber, .tooSmall, .tooLarge, .noInteger, .notPositive, .notNegative]
  | date _ => [.noDate, .expired]
  | boolean _ => [.noBoolean]
  | email _ => [.noEmail, .noEmail]
  | choice _ => [.noChoice]

theorem whenSome_possible {α : Type} (f : α → Keyword) (h : ∀ a, Problem.ofKeyword r (f a) = p)
    (a? : Option α) : ((whenSome f a?).map (Problem.ofKeyword r)).Sublist [p] := by
  cases a? with
  | none => exact List.nil_sublist _
  | some a =>
      rw [whenSome, List.map_singleton, h]

theorem whenSet_possible {k : Keyword} (h : Problem.ofKeyword r k = p) (flag : Bool) :
    ((whenSet k flag).map (Problem.ofKeyword r)).Sublist [p] := by
  cases flag with
  | false => exact List.nil_sublist _
  | true =>
      rw [whenSet, if_pos rfl, List.map_singleton, h]

/-- The keywords of a rule stand for some of these problems, in their order. -/
theorem keywords_possible (r : Rule) :
    (r.keywords.map (Problem.ofKeyword r)).Sublist r.possible := by
  cases r with
  | text t =>
      rw [show (text t).possible = [.noText, .tooShort] ++ [.tooLong] ++ [.otherLength] ++
        [.noMatch] ++ [.noChoiceOfText] ++ [.repeated] from rfl]
      simp only [keywords, List.map_append, List.map_cons]
      apply List.Sublist.append _ (whenSet_possible rfl _)
      apply List.Sublist.append _ (whenSome_possible .oneOf (fun _ => rfl) _)
      apply List.Sublist.append _ (whenSome_possible .pattern (fun _ => rfl) _)
      apply List.Sublist.append _ (whenSome_possible .exactLength (fun _ => rfl) _)
      apply List.Sublist.append _ (whenSome_possible .maxLength (fun _ => rfl) _)
      exact (whenSome_possible .minLength (fun _ => rfl) _).cons_cons _
  | number n =>
      rw [show (number n).possible = [.noNumber, .tooSmall] ++ [.tooLarge] ++ [.noInteger] ++
        [.notPositive] ++ [.notNegative] from rfl]
      simp only [keywords, List.map_append, List.map_cons]
      apply List.Sublist.append _ (whenSet_possible rfl _)
      apply List.Sublist.append _ (whenSet_possible rfl _)
      apply List.Sublist.append _ (whenSet_possible rfl _)
      apply List.Sublist.append _ (whenSome_possible .maximum (fun _ => rfl) _)
      exact (whenSome_possible .minimum (fun _ => rfl) _).cons_cons _
  | date d =>
      simp only [keywords, List.map_cons]
      exact (whenSome_possible (fun e : Expiry => .expiry e.millis) (fun _ => rfl) _).cons_cons _
  | boolean b => exact List.Sublist.refl _
  | email c => exact List.Sublist.refl _
  | choice c => exact List.Sublist.refl _

end Rule

namespace Check

variable {c : Check} {actual v : Value} {ks : List Rule.Keyword} {es : List CheckError}
variable {s : String}

/-- Whether a value fails a keyword. -/
def fails (c : Check) (v : Value) (k : Rule.Keyword) : Bool :=
  match c.meets v k with
  | .ok met => !met
  | .error _ => false

/-- The codes in an outcome are those of the keywords that fail, in their order. -/
theorem codes_eq (h : problems c actual v ks = .ok es) :
    es.map (·.code) = ((ks.filter (c.fails v)).map (Problem.ofKeyword c.rule)).map (·.code) := by
  induction ks generalizing es with
  | nil =>
      cases h
      rfl
  | cons k ks ih =>
      obtain ⟨hm, h⟩ | ⟨hm, e, he, rest, hrest, rfl⟩ := problems_cons_iff.mp h
      · rw [ih h, List.filter_cons_of_neg (by simp [fails, hm])]
      · rw [List.filter_cons_of_pos (by simp [fails, hm]), List.map_cons, ih hrest, report_code he,
          List.map_cons, List.map_cons]

theorem codes_sublist (h : problems c actual v ks = .ok es) :
    (es.map (·.code)).Sublist ((ks.map (Problem.ofKeyword c.rule)).map (·.code)) := by
  rw [codes_eq h]
  exact (List.filter_sublist.map _).map _

/-- The outcome for a cell that is not settled by being blank comes from the cell as it is read. -/
theorem runFull_ok_iff :
    c.runFull actual = .ok es ↔
      ∃ v, c.rule.coerce actual = .ok v ∧ problems c actual v c.rule.keywords = .ok es := by
  simp only [runFull]
  cases c.rule.coerce actual with
  | error f => simp [bind, Except.bind]
  | ok v => simp [bind, Except.bind]

/-- The codes in the outcome for a text differ from each other. -/
theorem codes_nodup_of_runFull (h : c.runFull (.text s) = .ok es) : (es.map (·.code)).Nodup := by
  have hfull (v : Value) (hp : problems c (.text s) v c.rule.keywords = .ok es)
      (hr : (c.rule.possible.map (·.code)).Nodup) : (es.map (·.code)).Nodup :=
    hr.sublist ((codes_sublist hp).trans ((Rule.keywords_possible c.rule).map _))
  obtain ⟨v, hc, hp⟩ := runFull_ok_iff.mp h
  cases hr : c.rule with
  | email common =>
      -- a text is of the kind that the first keyword demands
      obtain rfl : v = .text s := by
        rw [hr] at hc
        exact (Except.ok.inj hc).symm
      rw [hr] at hp
      have hsecond : problems c (.text s) (.text s) [.pattern Email.pattern] = .ok es := hp
      exact (List.nodup_singleton _).sublist (codes_sublist hsecond)
  | text t => exact hfull v hp (by simp [hr, Rule.possible, Problem.code])
  | number n => exact hfull v hp (by simp [hr, Rule.possible, Problem.code])
  | date d => exact hfull v hp (by simp [hr, Rule.possible, Problem.code])
  | boolean b => exact hfull v hp (by simp [hr, Rule.possible, Problem.code])
  | choice x => exact hfull v hp (by simp [hr, Rule.possible, Problem.code])

/-- What settles a cell without looking further: that it is blank, and so fine or one problem. -/
def settled? (c : Check) (s : String) : Option (Option Problem) :=
  if Text.isBlankText s then blankProblem? c.rule else none

theorem run_eq (c : Check) (s : String) :
    c.run (.text s) =
      match c.settled? s with
      | some none => .ok []
      | some (some p) => (c.report p .null (.text s)).map ([·])
      | none => c.runFull (.text s) := by
  simp only [run, settled?]
  split
  · rfl
  · rfl

theorem codes_of_settled {p? : Option Problem} (hs : c.settled? s = some p?)
    (h : c.run (.text s) = .ok es) : es.map (·.code) = p?.toList.map (·.code) := by
  rw [run_eq, hs] at h
  cases p? with
  | none =>
      cases h
      rfl
  | some p =>
      cases hr : c.report p .null (.text s) with
      | error f => simp [hr, Except.map] at h
      | ok e =>
          obtain rfl : [e] = es := by simpa [hr, Except.map] using h
          rw [List.map_singleton, report_code hr, Option.toList_some, List.map_singleton]

theorem runFull_of_unsettled (hs : c.settled? s = none) (h : c.run (.text s) = .ok es) :
    c.runFull (.text s) = .ok es := by
  rwa [run_eq, hs] at h

theorem codes_nodup (h : c.run (.text s) = .ok es) : (es.map (·.code)).Nodup := by
  cases hs : c.settled? s with
  | none => exact codes_nodup_of_runFull (runFull_of_unsettled hs h)
  | some p? =>
      rw [codes_of_settled hs h]
      cases p? with
      | none => exact List.nodup_nil
      | some p => exact List.nodup_singleton _

/-! ### Names -/

/-- The same check made under another name. -/
def named (c : Check) (field : String) : Check :=
  { c with field := field }

variable {es' : List CheckError} {field : String}

theorem fails_named (c : Check) (field : String) (v : Value) :
    (c.named field).fails v = c.fails v := by
  funext k
  cases k <;> rfl

theorem runFull_codes_named (h : c.runFull actual = .ok es)
    (h' : (c.named field).runFull actual = .ok es') : es'.map (·.code) = es.map (·.code) := by
  obtain ⟨v, hc, hp⟩ := runFull_ok_iff.mp h
  obtain ⟨v', hc', hp'⟩ := runFull_ok_iff.mp h'
  obtain rfl : v = v' := Except.ok.inj (hc.symm.trans hc')
  rw [codes_eq hp, codes_eq hp', fails_named]
  rfl

/-- Under any name a check finds the same, but for the wording. -/
theorem run_codes_named (h : c.run (.text s) = .ok es)
    (h' : (c.named field).run (.text s) = .ok es') : es'.map (·.code) = es.map (·.code) := by
  have hsame : (c.named field).settled? s = c.settled? s := rfl
  cases hs : c.settled? s with
  | none =>
      have hfull := runFull_of_unsettled hs h
      exact runFull_codes_named hfull (runFull_of_unsettled (hsame.trans hs) h')
  | some p? => rw [codes_of_settled hs h, codes_of_settled (hsame.trans hs) h']

/-- If messages can always be written, a text that has an outcome has one under any name. -/
theorem run_ok_named (hw : c.messages.Writable) (h : ∃ es, c.run (.text s) = .ok es)
    (field : String) : ∃ es, (c.named field).run (.text s) = .ok es := by
  have hreport (p : Problem) (expected : Value) :
      ∃ e, (c.named field).report p expected (.text s) = .ok e :=
    report_of_writable (show (c.named field).messages.Writable from hw) p expected (.text s)
  have hsame : (c.named field).settled? s = c.settled? s := rfl
  obtain ⟨es, h⟩ := h
  rw [run_eq, hsame]
  cases hs : c.settled? s with
  | none =>
      obtain ⟨v, hc, hp⟩ := runFull_ok_iff.mp (runFull_of_unsettled hs h)
      have hproblems : ∃ es, problems (c.named field) (.text s) v c.rule.keywords = .ok es := by
        rw [problems_ok_iff]
        intro k hk
        obtain ⟨b, hb, -⟩ := problems_ok_iff.mp ⟨es, hp⟩ k hk
        exact ⟨b, by cases k <;> exact hb, fun _ => hreport _ _⟩
      obtain ⟨es', hp'⟩ := hproblems
      exact ⟨es', runFull_ok_iff.mpr ⟨v, hc, hp'⟩⟩
  | some p? =>
      cases p? with
      | none => exact ⟨[], rfl⟩
      | some p =>
          obtain ⟨e, he⟩ := hreport p .null
          exact ⟨[e], by simp [he, Except.map]⟩

end Check

end TableAudit
