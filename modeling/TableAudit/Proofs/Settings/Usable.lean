import TableAudit.Command.Audit
import TableAudit.Proofs.Pass.Column
import TableAudit.Proofs.Retry
import TableAudit.Proofs.Settings.Sections

/-!
# Settings that can be used

A file of settings that passes its check always makes settings, and its counts are whole, its delays
not below zero and its wordings texts. But a count may be written as a double, which passes as an
integer and is kept as it is: then no range of rows or attempts can be made of it. And a delay may
be undefined. In every other case the rows of a pass are checked to the last, and an operation is
attempted as often as it may be.
-/

namespace TableAudit

open TableAudit.Number (Binary64)

/-! ### Checking all rows -/

namespace ColumnRun

/-- The turns of a column whose rows are being checked, to the one after which it is not open. -/
inductive Runs (chunkSize : Option Nat) : Checking → ColumnRun → Prop
  | last {w r} (h : (advance chunkSize w).1 = r) (done : r.isOpen = false) : Runs chunkSize w r
  | next {w w' r} (h : (advance chunkSize w).1 = .checking w') (rest : Runs chunkSize w' r) :
      Runs chunkSize w r

variable {chunkSize : Option Nat} {w : Checking} {r r' : ColumnRun} {out : ColumnOutcome}

theorem Runs.deterministic (run : Runs chunkSize w r) (run' : Runs chunkSize w r') : r = r' := by
  induction run with
  | last h done =>
      cases run' with
      | last h' _ => exact h.symm.trans h'
      | next h' _ =>
          rw [← h, h'] at done
          cases done
  | next h _ ih =>
      cases run' with
      | last h' done =>
          rw [← h', h] at done
          cases done
      | next h' rest' =>
          obtain rfl := ColumnRun.checking.inj (h.symm.trans h')
          exact ih rest'

/-- A column whose remaining rows can be checked runs to its end. -/
theorem runs_of_finish (hz : chunkSize ≠ some 0) (hout : finish chunkSize w = .ok out) :
    Runs chunkSize w (.ended out) := by
  induction hn : w.pending.length using Nat.strong_induction_on generalizing w with
  | _ n ih =>
      obtain ⟨out', hr, ho⟩ | ⟨f, -, hf⟩ | ⟨w', hr, ho, hlt⟩ := advance_cases hz w
      · obtain rfl := Except.ok.inj (ho.symm.trans hout)
        exact .last hr rfl
      · rw [hf] at hout
        cases hout
      · exact .next hr (ih _ (hn ▸ hlt) (ho.trans hout) rfl)

/-- Without a count of rows no chunk can be made, not even of no rows. -/
theorem runs_countless (w : Checking) : Runs none w (.failed .wrongKind) :=
  .last rfl rfl

end ColumnRun

namespace Settings

open Command (numberOf policyOf)

variable {s made : Settings} {v w u : Value} {env : Environment} {n k : Int}

/-- The rows of every column can be checked in chunks: where each cell can be checked, all are. -/
def ChunksRun (s : Settings) : Prop :=
  ∀ messages now, ∃ options, Pass.options? (numberOf s.engine.chunkSize) messages now =
      some options ∧
    ∀ (rows : List Row) (c : Column) (check : Check),
      (∀ row ∈ rows, ∃ errors, check.run (.text (row.text c.id)) = .ok errors) →
        ∃ out,
          ColumnRun.Runs options.chunkSize (ColumnRun.firstChecking rows c check) (.ended out) ∧
            out.stat.status = .validated ∧ out.stat.checkedRows = rows.length

/-- Every operation can be attempted: its failures are tried again until the one outcome that ends
it. -/
def AttemptsRun (s : Settings) : Prop :=
  ∃ p, policyOf s.retry = .ok p ∧ ∀ (α ε : Type) (retriable : ε → Bool)
    (outcomes : List (Retry.Outcome α ε)), p.attempts ≤ outcomes.length →
      ∃ failures last rest, outcomes = failures ++ last :: rest ∧
        Retry.Course p retriable ⟨1, p.baseDelay⟩ failures last rest
          (Retry.run p retriable outcomes)

theorem chunksRun_of_int (hsize : s.engine.chunkSize = .int n) (hn : 1 ≤ n) : s.ChunksRun := by
  intro messages now
  have hpositive : (Number.int n).le (.int 0) = false := by
    simp [Number.le, Number.compare?, Int.compare_eq_lt]
    omega
  have hoptions : Pass.options? (numberOf s.engine.chunkSize) messages now =
      some ⟨some n.toNat, messages, now⟩ := by
    rw [hsize]
    simp [numberOf, Value.number?, Pass.options?, hpositive, Pass.wholeSize?]
  refine ⟨_, hoptions, fun rows c check hcells => ?_⟩
  have hentries (e : Entry) (he : e ∈ ColumnRun.entries c.id rows) :
      ∃ errors, check.run (.text e.text) = .ok errors := by
    have htext : e.text ∈ rows.map (·.text c.id) := by
      rw [← ColumnRun.entries_texts]
      exact List.mem_map_of_mem he
    obtain ⟨row, hrow, heq⟩ := List.mem_map.mp htext
    exact heq ▸ hcells row hrow
  obtain ⟨failures, hfailures⟩ := ColumnRun.checkChunk_ok_iff.mpr hentries
  have hsize : some n.toNat ≠ some 0 := by
    rw [Ne, Option.some.injEq]
    omega
  refine ⟨_, ColumnRun.runs_of_finish hsize
    (ColumnRun.finish_ok_iff.mpr ⟨failures, hfailures, rfl⟩), rfl, ?_⟩
  simp [ColumnRun.outcome, ColumnRun.firstChecking, ColumnRun.entries]

/-- A check of anything at all. -/
def anyCheck : Check :=
  ⟨.email ⟨false, false, .null⟩, "", [], [], .midnight ⟨2026, 1, 1⟩⟩

theorem not_chunksRun_of_float {x : Binary64} (hsize : s.engine.chunkSize = .float x) :
    ¬ s.ChunksRun := by
  intro h
  obtain ⟨options, hoptions, hruns⟩ := h [] (.midnight ⟨2026, 1, 1⟩)
  have hnone : options.chunkSize = none := by
    rw [hsize, Pass.options?] at hoptions
    split at hoptions
    · cases hoptions
    · obtain rfl := Option.some.inj hoptions
      rfl
  obtain ⟨out, hrun, -⟩ := hruns [] default anyCheck nofun
  rw [hnone] at hrun
  cases hrun.deterministic (ColumnRun.runs_countless _)

theorem attemptsRun_of_int (hattempts : s.retry.attempts = .int n) (hn : 1 ≤ n) :
    s.AttemptsRun := by
  refine ⟨_, by rw [policyOf, hattempts], fun α ε retriable outcomes hlen => ?_⟩
  rw [Retry.run, Retry.begin?_of_allowed hn]
  exact Retry.runFrom_course _ retriable outcomes hn (by simp only at hlen ⊢; omega)

theorem not_attemptsRun_of_float {x : Binary64} (hattempts : s.retry.attempts = .float x) :
    ¬ s.AttemptsRun := by
  rintro ⟨p, hp, -⟩
  simp [policyOf, hattempts] at hp

/-! ### Accepted settings -/

/-- What holds of all settings that are accepted: counts are whole and in their bounds, delays not
below zero, and wordings texts. -/
structure Accepted (s : Settings) : Prop where
  chunkSize : ∃ n : Int, s.engine.chunkSize.Counts n ∧ 1 ≤ n
  pageSize : ∃ n : Int, s.engine.pageSize.Counts n ∧ 1 ≤ n ∧ n ≤ 500
  attempts : ∃ n : Int, s.retry.attempts.Counts n ∧ 1 ≤ n
  debounce : s.engine.debounceSeconds.IsNonneg ∨ s.engine.debounceSeconds = .float .nan
  baseDelay : s.retry.baseDelay.IsNonneg ∨ s.retry.baseDelay = .float .nan
  maxDelay : s.retry.maxDelay.IsNonneg ∨ s.retry.maxDelay = .float .nan
  messages : ∀ e ∈ s.messages, ∃ t, e.2 = .text t

/-- Settings can be used: counts are integers in their bounds, delays not negative and wordings
texts, rows can be checked in chunks and operations attempted. -/
structure Usable (s : Settings) : Prop where
  chunkSize : ∃ n : Int, s.engine.chunkSize = .int n ∧ 1 ≤ n
  pageSize : ∃ n : Int, s.engine.pageSize = .int n ∧ 1 ≤ n ∧ n ≤ 500
  attempts : ∃ n : Int, s.retry.attempts = .int n ∧ 1 ≤ n
  debounce : s.engine.debounceSeconds.IsNonneg
  baseDelay : s.retry.baseDelay.IsNonneg
  maxDelay : s.retry.maxDelay.IsNonneg
  messages : ∀ e ∈ s.messages, ∃ t, e.2 = .text t
  chunksRun : s.ChunksRun
  attemptsRun : s.AttemptsRun

/-- A document writes no double for a setting. -/
def WritesNoDouble (v : Value) (part name : String) : Prop :=
  ∀ x, written v part name ≠ some (.float x)

/-- A document writes nothing undefined for a setting. -/
def WritesDefined (v : Value) (part name : String) : Prop :=
  written v part name ≠ some (.float .nan)

/-- A document is plain: no count is written as a double, and no delay is undefined. -/
structure IsPlain (v : Value) : Prop where
  chunkSize : WritesNoDouble v "engine" "chunk_size"
  pageSize : WritesNoDouble v "engine" "page_size"
  attempts : WritesNoDouble v "retry" "attempts"
  debounce : WritesDefined v "engine" "debounce_seconds"
  baseDelay : WritesDefined v "retry" "base_delay"
  maxDelay : WritesDefined v "retry" "max_delay"

/-! ### What is written for a setting -/

variable {o : Option Value} {P : Int → Prop}

/-- A count is an integer unless it is written as a double. -/
theorem int_iff (hw : w = o.getD (.int k)) (h : ∃ n, w.Counts n ∧ P n) :
    (∃ n : Int, w = .int n ∧ P n) ↔ ∀ x, o ≠ some (.float x) := by
  subst hw
  constructor
  · rintro ⟨n, hn, -⟩ x rfl
    cases hn
  · intro hno
    obtain ⟨n, hcounts, hn⟩ := h
    cases o with
    | none =>
        cases hcounts
        exact ⟨k, rfl, hn⟩
    | some w =>
        cases hcounts with
        | int => exact ⟨n, rfl, hn⟩
        | float _ _ => exact absurd rfl (hno _)

theorem not_isNonneg_nan : ¬ (Value.float .nan).IsNonneg := by
  rintro ⟨m, hm, hle⟩
  cases hm
  cases hle

/-- A delay is not negative unless it is undefined. -/
theorem isNonneg_iff (hw : w = o.getD u) (h : w.IsNonneg ∨ w = .float .nan) (hu : u.IsNonneg) :
    w.IsNonneg ↔ o ≠ some (.float .nan) := by
  subst hw
  constructor
  · rintro hnonneg rfl
    exact not_isNonneg_nan hnonneg
  · intro hdefined
    obtain h | h := h
    · exact h
    · cases o with
      | none => exact hu
      | some w => exact absurd (congrArg some h) hdefined

theorem count_admitted {part name : String} {ps : List (String × Schema)}
    {bounds : List (Bound × Int)} (h : schema.Admits v) (hpart : (part, closed ps) ∈ demands)
    (hname : (name, bounded .integer bounds) ∈ ps)
    (hk : ∀ b ∈ bounds, Demand.keeps (.int k) (.int b.2) b.1 = true) :
    ∃ n, ((written v part name).getD (.int k)).Counts n ∧
      ∀ b ∈ bounds, Demand.keeps (.int n) (.int b.2) b.1 = true :=
  integer_admits_iff.mp (written_admits h hpart hname (integer_admits_iff.mpr ⟨k, .int, hk⟩))

theorem delay_admitted {part name : String} {ps : List (String × Schema)} (h : schema.Admits v)
    (hpart : (part, closed ps) ∈ demands)
    (hname : (name, bounded .number [(.atLeast, 0)]) ∈ ps) (hu : u.IsNonneg) :
    ((written v part name).getD u).IsNonneg ∨ (written v part name).getD u = .float .nan :=
  nonneg_admits_iff.mp (written_admits h hpart hname (nonneg_admits_iff.mpr (.inl hu)))

/-! ### Usable settings -/

theorem usualDebounce_isNonneg : EngineSettings.usual.debounceSeconds.IsNonneg :=
  ⟨_, rfl, by decide +kernel⟩

theorem usualBaseDelay_isNonneg : RetrySettings.usual.baseDelay.IsNonneg :=
  ⟨_, rfl, by decide +kernel⟩

theorem usualMaxDelay_isNonneg : RetrySettings.usual.maxDelay.IsNonneg :=
  ⟨_, rfl, by decide +kernel⟩

/-- Settings that follow an admitted document are accepted. -/
theorem accepted_of_follows (hadmits : schema.Admits v) (h : Follows v s) : s.Accepted := by
  have hengine : ("engine", closed engineDemands) ∈ demands := .head _
  have hretry : ("retry", closed retryDemands) ∈ demands := .tail _ (.head _)
  constructor
  case chunkSize =>
    obtain ⟨n, hn, hbounds⟩ := count_admitted hadmits hengine (.head _) (k := 1000) (by decide)
    rw [h.chunkSize]
    exact ⟨n, hn, Demand.keeps_atLeast.mp (hbounds _ (.head _))⟩
  case pageSize =>
    obtain ⟨n, hn, hbounds⟩ :=
      count_admitted hadmits hengine (.tail _ (.tail _ (.head _))) (k := 100) (by decide)
    rw [h.pageSize]
    exact ⟨n, hn, Demand.keeps_atLeast.mp (hbounds _ (.head _)),
      Demand.keeps_atMost.mp (hbounds _ (.tail _ (.head _)))⟩
  case attempts =>
    obtain ⟨n, hn, hbounds⟩ := count_admitted hadmits hretry (.head _) (k := 3) (by decide)
    rw [h.attempts]
    exact ⟨n, hn, Demand.keeps_atLeast.mp (hbounds _ (.head _))⟩
  case debounce =>
    rw [h.debounce]
    exact delay_admitted hadmits hengine (.tail _ (.head _)) usualDebounce_isNonneg
  case baseDelay =>
    rw [h.baseDelay]
    exact delay_admitted hadmits hretry (.tail _ (.head _)) usualBaseDelay_isNonneg
  case maxDelay =>
    rw [h.maxDelay]
    exact delay_admitted hadmits hretry (.tail _ (.tail _ (.head _))) usualMaxDelay_isNonneg
  case messages => exact h.messages

/-- Rows can be checked in chunks just if the size of chunks is kept as an integer. -/
theorem Accepted.chunksRun_iff (h : s.Accepted) :
    s.ChunksRun ↔ ∃ n : Int, s.engine.chunkSize = .int n ∧ 1 ≤ n := by
  obtain ⟨n, hcounts, hn⟩ := h.chunkSize
  generalize hsize : s.engine.chunkSize = size at hcounts ⊢
  cases hcounts with
  | int => exact iff_of_true (chunksRun_of_int hsize hn) ⟨n, rfl, hn⟩
  | float _ _ => exact iff_of_false (not_chunksRun_of_float hsize) nofun

/-- Operations can be attempted just if the number of attempts is kept as an integer. -/
theorem Accepted.attemptsRun_iff (h : s.Accepted) :
    s.AttemptsRun ↔ ∃ n : Int, s.retry.attempts = .int n ∧ 1 ≤ n := by
  obtain ⟨n, hcounts, hn⟩ := h.attempts
  generalize hattempts : s.retry.attempts = attempts at hcounts ⊢
  cases hcounts with
  | int => exact iff_of_true (attemptsRun_of_int hattempts hn) ⟨n, rfl, hn⟩
  | float _ _ => exact iff_of_false (not_attemptsRun_of_float hattempts) nofun

/-- Accepted settings can be used just if their document is plain. -/
theorem usable_iff (h : Follows v s) (haccepted : s.Accepted) : s.Usable ↔ IsPlain v := by
  have hsize := int_iff h.chunkSize haccepted.chunkSize
  have hpage := int_iff h.pageSize haccepted.pageSize
  have hattempts := int_iff h.attempts haccepted.attempts
  have hdebounce := isNonneg_iff h.debounce haccepted.debounce usualDebounce_isNonneg
  have hbase := isNonneg_iff h.baseDelay haccepted.baseDelay usualBaseDelay_isNonneg
  have hmax := isNonneg_iff h.maxDelay haccepted.maxDelay usualMaxDelay_isNonneg
  constructor
  · intro husable
    exact ⟨hsize.mp husable.chunkSize, hpage.mp husable.pageSize, hattempts.mp husable.attempts,
      hdebounce.mp husable.debounce, hbase.mp husable.baseDelay, hmax.mp husable.maxDelay⟩
  · intro hplain
    constructor
    case chunkSize => exact hsize.mpr hplain.chunkSize
    case pageSize => exact hpage.mpr hplain.pageSize
    case attempts => exact hattempts.mpr hplain.attempts
    case debounce => exact hdebounce.mpr hplain.debounce
    case baseDelay => exact hbase.mpr hplain.baseDelay
    case maxDelay => exact hmax.mpr hplain.maxDelay
    case messages => exact h.messages
    case chunksRun => exact haccepted.chunksRun_iff.mpr (hsize.mpr hplain.chunkSize)
    case attemptsRun => exact haccepted.attemptsRun_iff.mpr (hattempts.mpr hplain.attempts)

/-! ### Files with a size of chunks -/

/-- A document with a size of chunks. -/
def chunkDocument (size : Value) : Value :=
  .object [("engine", .object [("chunk_size", size)])]

/-- A mapping with one known key is admitted with a value that is admitted for it. -/
theorem closed_singleton {p : String × Schema} {ps : List (String × Schema)} (hp : p ∈ ps)
    (hnames : (ps.map (·.1)).Nodup) (hw : p.2.Admits w) :
    (closed ps).Admits (.object [(p.1, w)]) := by
  refine closed_admits_iff.mpr ⟨_, rfl, ?_, fun q hq x hx => ?_⟩
  · rw [List.map_singleton, List.forall_mem_singleton]
    exact ⟨p.1, List.mem_map_of_mem hp, rfl⟩
  · rw [List.map_singleton, lookup_cons _ rfl] at hx
    obtain ⟨hname, hx⟩ := Option.ite_none_right_eq_some.mp hx
    obtain rfl := List.inj_on_of_nodup_map hnames hq hp hname
    exact Option.some.inj hx ▸ hw

theorem chunkDocument_admitted {size : Value} (h : size.Counts n) (hn : 1 ≤ n) :
    schema.Admits (chunkDocument size) := by
  have hsize : (bounded .integer [(.atLeast, 1)]).Admits size := by
    refine integer_admits_iff.mpr ⟨n, h, fun b hb => ?_⟩
    rw [List.mem_singleton.mp hb]
    exact Demand.keeps_atLeast.mpr hn
  exact closed_singleton (p := ("engine", closed engineDemands)) (.head _) (by decide)
    (closed_singleton (p := ("chunk_size", _)) (.head _) (by decide) hsize)

/-- The tokens of such a document. -/
def chunkTokens (number : String) : List Yaml.Token :=
  [.blockMappingStart, .key, .scalar true "engine", .value, .blockMappingStart, .key,
    .scalar true "chunk_size", .value, .scalar true number, .blockEnd, .blockEnd, .streamEnd]

theorem chunkTokens_document {text : String} (number : String) {size : Value}
    (hallowed : (Text.unifiedLines text.toList).all Yaml.isAllowed = true)
    (htokens : Yaml.tokens (Text.unifiedLines text.toList) = .ok (chunkTokens number))
    (hsize : (Yaml.Kind.ofPlain number).valueOf number = .ok size) :
    documentOf text = .ok (chunkDocument size) := by
  have hnode : Yaml.Node.ofTokens? (chunkTokens number) =
      .ok (some (.mapping .mapping [(.scalar (.ofPlain "engine") "engine",
        .mapping .mapping [(.scalar (.ofPlain "chunk_size") "chunk_size",
          .scalar (.ofPlain number) number)])])) := rfl
  have hengine : Yaml.Kind.ofPlain "engine" = .text := by decide +kernel
  have hchunk : Yaml.Kind.ofPlain "chunk_size" = .text := by decide +kernel
  have hkey (name : String) : Yaml.keyValue .text name = .ok (.text name) := rfl
  have hread : Yaml.read text = .ok (chunkDocument size) := by
    simp only [Yaml.read, hallowed, htokens, hnode, hengine, hchunk, Yaml.require, ok_bind,
      Yaml.Node.value, Yaml.entryValues, Yaml.Node.key, hkey, hsize, Yaml.isKey, if_true]
    rfl
  rw [documentOf, hread]
  rfl

/-- A file with a size of chunks is loaded, and the size is kept as it is written. -/
theorem load_chunkDocument {text : String} {size : Value} (path : String) (env : Environment)
    (hdocument : documentOf text = .ok (chunkDocument size)) (h : size.Counts n) (hn : 1 ≤ n) :
    ∃ s, load path true (some text) env = .ok s ∧ s.engine.chunkSize = size := by
  have hadmits := chunkDocument_admitted h hn
  obtain ⟨made, hmade, hfollows⟩ := ofValue_of_admits hadmits
  refine ⟨inEnvironment env made, map_ok_iff.mpr ⟨made, ?_, rfl⟩,
    (hfollows (documentOf_hasDistinctKeys hdocument)).chunkSize⟩
  rw [ofText, hdocument, ok_bind, ofDocument, conform_iff.mpr hadmits, ok_bind, hmade]
  rfl

/-! ### Loaded settings -/

/-- Every admitted document makes settings. Settings that are loaded are accepted; they can be used
just if no count is written as a double and no delay is undefined. -/
theorem accepted_usable_iff {path : String} {isRequired : Bool} {file : Option String}
    (h : load path isRequired file env = .ok s) :
    (∀ v, conform schema v = .ok () → ∃ s, ofValue v = .ok s) ∧
      ∃ v, documentIn file = .ok v ∧ conform schema v = .ok () ∧ s.Accepted ∧
        (s.ChunksRun ↔ WritesNoDouble v "engine" "chunk_size") ∧
        (s.AttemptsRun ↔ WritesNoDouble v "retry" "attempts") ∧ (s.Usable ↔ IsPlain v) := by
  constructor
  · intro v hv
    obtain ⟨s, hs, -⟩ := ofValue_of_admits (conform_iff.mp hv)
    exact ⟨s, hs⟩
  · obtain ⟨v, hv, hadmits, hfollows⟩ := load_follows h
    have haccepted := accepted_of_follows hadmits hfollows
    exact ⟨v, hv, conform_iff.mpr hadmits, haccepted,
      haccepted.chunksRun_iff.trans (int_iff hfollows.chunkSize haccepted.chunkSize),
      haccepted.attemptsRun_iff.trans (int_iff hfollows.attempts haccepted.attempts),
      usable_iff hfollows haccepted⟩

/-- An integer as the size of chunks can be used. -/
theorem intChunk_usable :
    ∃ s, load "fieldcheck.yml" true (some "engine:\n  chunk_size: 2\n") [] = .ok s ∧ s.Usable := by
  have hdocument : documentOf "engine:\n  chunk_size: 2\n" = .ok (chunkDocument (.int 2)) :=
    chunkTokens_document "2" (by decide +kernel) (by decide +kernel) rfl
  obtain ⟨s, hs, -⟩ := load_chunkDocument "fieldcheck.yml" [] hdocument .int (by decide)
  obtain ⟨-, v, hv, -, -, -, -, husable⟩ := accepted_usable_iff hs
  obtain rfl := Except.ok.inj (hdocument.symm.trans hv)
  refine ⟨s, hs, husable.mpr ⟨fun x h => ?_, fun x h => ?_, fun x h => ?_, fun h => ?_, fun h => ?_,
    fun h => ?_⟩⟩
  all_goals cases h

/-- A double as the size of chunks is accepted and cannot be used. -/
theorem doubleChunk_unusable :
    ∃ s, load "fieldcheck.yml" true (some "engine:\n  chunk_size: 2.0\n") [] = .ok s ∧
      ¬ s.ChunksRun ∧ ¬ s.Usable := by
  have hdocument : documentOf "engine:\n  chunk_size: 2.0\n" =
      .ok (chunkDocument (.float (.ofInt 2))) :=
    chunkTokens_document "2.0" (by decide +kernel) (by decide +kernel) rfl
  obtain ⟨hfinite, hvalue⟩ := Binary64.ofInt_exact (Binary64.representable_int (n := 2) (by decide))
  obtain ⟨s, hs, hsize⟩ :=
    load_chunkDocument "fieldcheck.yml" [] hdocument (.float hfinite hvalue) (by decide)
  have hruns := not_chunksRun_of_float hsize
  exact ⟨s, hs, hruns, fun h => hruns h.chunksRun⟩

end Settings

end TableAudit
