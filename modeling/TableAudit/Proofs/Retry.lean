import TableAudit.Notice.Delivery
import TableAudit.Proofs.Number.Exact
import TableAudit.Proofs.Number.Numeral

/-!
# The course of retries

An operation under a policy is attempted until it succeeds, fails in a way that is not tried again,
or has used up its attempts. Between two attempts it waits: after the first failure for the base
delay and then for twice as long each time, but never longer than the greatest delay. Posting a
notice is such a run.
-/

namespace TableAudit

open TableAudit.Number (Binary64)

/-! ### Delays -/

/-- Delays with which the waits are computed exactly: none is infinite, the base delay is not
negative, and a delay that is kept as a double is in the range of doubles unless it is beyond the
greatest one. -/
structure RetryPolicy.IsExact (p : RetryPolicy) : Prop where
  base_finite : p.baseDelay.IsFinite
  base_nonneg : 0 ≤ p.baseDelay.value
  base_double : ∀ x, p.baseDelay = .float x → x.IsDouble
  max_finite : p.maxDelay.IsFinite
  range : ∀ x, p.baseDelay = .float x → ∀ i : Nat, (i : Int) + 1 < p.attempts →
    p.baseDelay.value * 2 ^ i ≤ p.maxDelay.value →
      p.baseDelay.value * 2 ^ i < (2 : ℚ) ^ (1024 : Int)

namespace Retry

/-- The wait after the failure that follows `i` failures. -/
def waitAfter (p : RetryPolicy) (r : Retry) (i : Nat) : Number :=
  (Number.double^[i] r.delay).min p.maxDelay

/-- A double stands for a delay, or is infinite while the delay is beyond a bound. -/
inductive StandsFor (bound : ℚ) : Number → ℚ → Prop
  | exact {x : Binary64} (finite : x.isFinite = true) (double : Binary64.Representable x.value) :
      StandsFor bound (.float x) x.value
  | beyond {q : ℚ} (h : bound < q) : StandsFor bound (.float (.infinity false)) q

variable {p : RetryPolicy} {bound q : ℚ} {d : Number}

theorem StandsFor.double (h : StandsFor bound d q) (h0 : 0 ≤ q)
    (hrange : q * 2 ≤ bound → q * 2 < (2 : ℚ) ^ (1024 : Int)) :
    StandsFor bound d.double (q * 2) := by
  cases h with
  | exact finite double =>
      obtain ⟨hfinite, hvalue, hdouble⟩ | ⟨hinfinite, hlarge⟩ := Binary64.mul_two finite double h0
      · rw [Number.double, ← hvalue]
        exact .exact hfinite (hvalue.symm ▸ hdouble)
      · rw [Number.double, hinfinite]
        exact .beyond (lt_of_not_ge fun hle => (hrange hle).not_ge hlarge)
  | beyond h => exact .beyond (by linarith)

theorem StandsFor.min {cap : Number} (h : StandsFor cap.value d q) (hcap : cap.IsFinite) :
    (d.min cap).IsFinite ∧ (d.min cap).value = Min.min q cap.value := by
  cases h with
  | exact finite _ => exact Number.min_spec (a := .float _) finite hcap
  | beyond h => rw [Number.min_infinity hcap, min_eq_right h.le]; exact ⟨hcap, rfl⟩

theorem double_int (n : Int) (i : Nat) : Number.double^[i] (.int n) = .int (n * 2 ^ i) := by
  induction i with
  | zero => simp
  | succ i ih => rw [Function.iterate_succ_apply', ih, Number.double, pow_succ, mul_assoc]

theorem standsFor_double {x : Binary64} (hp : p.IsExact) (hx : p.baseDelay = .float x) (i : Nat)
    (hi : (i : Int) + 1 < p.attempts) :
    StandsFor p.maxDelay.value (Number.double^[i] p.baseDelay) (p.baseDelay.value * 2 ^ i) := by
  induction i with
  | zero =>
      have hfinite := hp.base_finite
      have hdouble := hp.base_double x hx
      rw [Function.iterate_zero, id, pow_zero, mul_one, hx]
      rw [hx] at hfinite
      match x, hfinite, hdouble with
      | .finite s m e, hfinite, hdouble =>
          exact .exact hfinite (Binary64.representable_finite hdouble)
  | succ i ih =>
      have hnext := hp.range x hx (i + 1) (by exact_mod_cast hi)
      rw [pow_succ, ← mul_assoc] at hnext
      rw [Function.iterate_succ_apply', pow_succ, ← mul_assoc]
      exact (ih (by push_cast at hi; omega)).double
        (mul_nonneg hp.base_nonneg (by positivity)) hnext

/-- The waits are those of exact arithmetic. -/
theorem waitAfter_value (hp : p.IsExact) {i : Nat} (hi : (i : Int) + 1 < p.attempts) :
    (waitAfter p ⟨1, p.baseDelay⟩ i).IsFinite ∧
      (waitAfter p ⟨1, p.baseDelay⟩ i).value = min (p.baseDelay.value * 2 ^ i) p.maxDelay.value := by
  rw [waitAfter]
  cases hbase : p.baseDelay with
  | int n =>
      rw [double_int]
      obtain ⟨hfinite, hvalue⟩ := Number.min_spec (a := .int (n * 2 ^ i)) trivial hp.max_finite
      exact ⟨hfinite, by rw [hvalue, Number.value, Number.value, Int.cast_mul]; push_cast; rfl⟩
  | float x => exact hbase ▸ (standsFor_double hp hbase i hi).min hp.max_finite

/-! ### Attempts -/

variable {α ε : Type} {retriable : ε → Bool} {r : Retry} {run : Run α ε}
  {failures rest outcomes : List (Outcome α ε)} {last : Outcome α ε}

/-- A failure that is tried again while attempts are left. -/
def Outcome.IsRetried (retriable : ε → Bool) : Outcome α ε → Prop
  | .success _ => False
  | .failure e => retriable e = true

/-- How an operation ends with the outcome of its attempt number `n`. -/
inductive Closes (p : RetryPolicy) (retriable : ε → Bool) (n : Int) :
    Outcome α ε → Ending α ε → Prop
  | success (a : α) : Closes p retriable n (.success a) (.success a)
  | refused {e : ε} (foreign : retriable e = false) :
      Closes p retriable n (.failure e) (.refused e)
  | exhausted {e : ε} (h : retriable e = true) (final : n = p.attempts) :
      Closes p retriable n (.failure e) (.exhausted p.attempts e)

/-- From an attempt on, some failures are tried again and the outcome after them is the last. -/
structure Course (p : RetryPolicy) (retriable : ε → Bool) (r : Retry)
    (failures : List (Outcome α ε)) (last : Outcome α ε) (rest : List (Outcome α ε))
    (run : Run α ε) : Prop where
  retried : ∀ o ∈ failures, o.IsRetried retriable
  within : r.attempt + failures.length ≤ p.attempts
  closes : Closes p retriable (r.attempt + failures.length) last run.ending
  left : run.left = rest
  waits : run.waits = (List.range failures.length).map (waitAfter p r)
  paced : ∀ before, before <+: failures →
    runFrom p retriable r before = ⟨.unfinished, run.waits.take before.length, []⟩

theorem Course.close {ending : Ending α ε} (hr : r.attempt ≤ p.attempts)
    (h : Closes p retriable r.attempt last ending) :
    Course p retriable r [] last rest ⟨ending, [], rest⟩ where
  retried := by simp
  within := by simpa using hr
  closes := by simpa using h
  left := rfl
  waits := rfl
  paced before hbefore := by rw [List.prefix_nil.mp hbefore]; rfl

/-- While attempts are left, a failure is followed by a wait and the next attempt. -/
theorem runFrom_retried {e : ε} (he : retriable e = true) (hr : r.attempt ≠ p.attempts)
    (outcomes : List (Outcome α ε)) :
    runFrom p retriable r (.failure e :: outcomes) =
      let run := runFrom p retriable ⟨r.attempt + 1, r.delay.double⟩ outcomes
      { run with waits := waitAfter p r 0 :: run.waits } := by
  rw [runFrom, if_neg (by simp [he]), afterFailure, if_neg hr]
  rfl

theorem Course.retry {e : ε} (he : retriable e = true)
    (h : Course p retriable ⟨r.attempt + 1, r.delay.double⟩ failures last rest run) :
    Course p retriable r (.failure e :: failures) last rest
      { run with waits := waitAfter p r 0 :: run.waits } := by
  have hcount : r.attempt + (failures.length + 1 : Nat) = r.attempt + 1 + failures.length := by
    push_cast
    ring
  have hmore : r.attempt ≠ p.attempts := by
    have hwithin := h.within
    simp only at hwithin
    omega
  constructor
  case retried => exact List.forall_mem_cons.mpr ⟨he, h.retried⟩
  case within => rw [List.length_cons, hcount]; exact h.within
  case closes => rw [List.length_cons, hcount]; exact h.closes
  case left => exact h.left
  case waits =>
    simp only [List.length_cons, List.range_succ_eq_map, List.map_cons, List.map_map, h.waits]
    rfl
  case paced =>
    intro before hbefore
    cases before with
    | nil => rfl
    | cons o before =>
        obtain ⟨rfl, hrest⟩ := List.cons_prefix_cons.mp hbefore
        rw [runFrom_retried he hmore, h.paced before hrest]
        rfl

/-- With an outcome for every attempt that is left the run comes to an end. -/
theorem runFrom_course (p : RetryPolicy) (retriable : ε → Bool) (outcomes : List (Outcome α ε))
    (hr : r.attempt ≤ p.attempts) (hlen : p.attempts - r.attempt < outcomes.length) :
    ∃ failures last rest, outcomes = failures ++ last :: rest ∧
      Course p retriable r failures last rest (runFrom p retriable r outcomes) := by
  induction outcomes generalizing r with
  | nil =>
      rw [List.length_nil] at hlen
      omega
  | cons o outcomes ih =>
      cases o with
      | success a => exact ⟨[], .success a, outcomes, rfl, .close hr (.success a)⟩
      | failure e =>
          cases he : retriable e with
          | false =>
              refine ⟨[], .failure e, outcomes, rfl, ?_⟩
              rw [runFrom, if_pos (by simp [he])]
              exact .close hr (.refused he)
          | true =>
              by_cases hlast : r.attempt = p.attempts
              · refine ⟨[], .failure e, outcomes, rfl, ?_⟩
                rw [runFrom, if_neg (by simp [he]), afterFailure, if_pos hlast]
                exact .close hr (.exhausted he hlast)
              · rw [List.length_cons] at hlen
                obtain ⟨failures, last, rest, rfl, hcourse⟩ :=
                  ih (r := ⟨r.attempt + 1, r.delay.double⟩) (by simp only; omega)
                    (by simp only; omega)
                refine ⟨.failure e :: failures, last, rest, rfl, ?_⟩
                rw [runFrom_retried he hlast]
                exact hcourse.retry he

theorem Course.length_waits (h : Course p retriable r failures last rest run) :
    run.waits.length = failures.length := by
  rw [h.waits, List.length_map, List.length_range]

/-- From the first attempt on the waits are those of exact arithmetic. -/
theorem Course.wait_value (h : Course p retriable ⟨1, p.baseDelay⟩ failures last rest run)
    (hp : p.IsExact) {i : Nat} (hi : i < run.waits.length) :
    run.waits[i].IsFinite ∧
      run.waits[i].value = min (p.baseDelay.value * 2 ^ i) p.maxDelay.value := by
  have hmore : (i : Int) + 1 < p.attempts := by
    have hwithin := h.within
    have hlength := h.length_waits
    simp only at hwithin
    omega
  simpa only [h.waits, List.getElem_map, List.getElem_range] using waitAfter_value hp hmore

/-- An operation under a policy: its failures are tried again up to a last outcome, which decides
how it ends, and before every further attempt it waits. -/
structure Lawful (p : RetryPolicy) (retriable : ε → Bool) (failures : List (Outcome α ε))
    (last : Outcome α ε) (rest : List (Outcome α ε)) (run : Run α ε) : Prop where
  retried : ∀ o ∈ failures, o.IsRetried retriable
  within : failures.length + 1 ≤ p.attempts
  closes : Closes p retriable (failures.length + 1) last run.ending
  left : run.left = rest
  waits_length : run.waits.length = failures.length
  /-- The failures up to any of the attempts are followed by one wait each. -/
  paced : ∀ before, before <+: failures →
    Retry.run p retriable before = ⟨.unfinished, run.waits.take before.length, []⟩
  wait_finite : ∀ w ∈ run.waits, w.IsFinite
  wait_value : ∀ i (h : i < run.waits.length),
    run.waits[i].value = min (p.baseDelay.value * 2 ^ i) p.maxDelay.value
  ascending : run.waits.Pairwise fun v w => v.value ≤ w.value
  capped : ∀ w ∈ run.waits, w.value ≤ p.maxDelay.value

theorem begin?_of_allowed (hallowed : 1 ≤ p.attempts) : begin? p = some ⟨1, p.baseDelay⟩ :=
  if_neg (by omega)

/-- The law of retries: with exact delays, every operation whose attempts have outcomes goes the
lawful way. -/
theorem operation_retried (hallowed : 1 ≤ p.attempts) (hp : p.IsExact) (retriable : ε → Bool)
    (outcomes : List (Outcome α ε)) (hlen : p.attempts ≤ outcomes.length) :
    ∃ failures last rest, outcomes = failures ++ last :: rest ∧
      Lawful p retriable failures last rest (Retry.run p retriable outcomes) := by
  have hrun (os : List (Outcome α ε)) :
      Retry.run p retriable os = runFrom p retriable ⟨1, p.baseDelay⟩ os := by
    rw [Retry.run, begin?_of_allowed hallowed]
  obtain ⟨failures, last, rest, houtcomes, hcourse⟩ :=
    runFrom_course (r := ⟨1, p.baseDelay⟩) p retriable outcomes hallowed (by simp only; omega)
  have hcount : (1 : Int) + failures.length = failures.length + 1 := add_comm ..
  refine ⟨failures, last, rest, houtcomes, ?_⟩
  rw [hrun]
  constructor
  case retried => exact hcourse.retried
  case within => exact hcount ▸ hcourse.within
  case closes => exact hcount ▸ hcourse.closes
  case left => exact hcourse.left
  case waits_length => exact hcourse.length_waits
  case paced => simpa only [hrun] using hcourse.paced
  case wait_finite =>
    intro w hw
    obtain ⟨i, hi, rfl⟩ := List.getElem_of_mem hw
    exact (hcourse.wait_value hp hi).1
  case wait_value => exact fun i hi => (hcourse.wait_value hp hi).2
  case ascending =>
    rw [List.pairwise_iff_getElem]
    intro i j hi hj hij
    rw [(hcourse.wait_value hp hi).2, (hcourse.wait_value hp hj).2]
    have hpow : (2 : ℚ) ^ i ≤ 2 ^ j := pow_le_pow_right₀ one_le_two hij.le
    exact min_le_min_right _ (mul_le_mul_of_nonneg_left hpow hp.base_nonneg)
  case capped =>
    intro w hw
    obtain ⟨i, hi, rfl⟩ := List.getElem_of_mem hw
    rw [(hcourse.wait_value hp hi).2]
    exact min_le_right _ _

theorem usual_isExact : RetryPolicy.usual.IsExact := by
  have hone := Binary64.ofInt_exact (Binary64.representable_int (n := 1) (by decide))
  have hfive := Binary64.ofInt_exact (Binary64.representable_int (n := 5) (by decide))
  have hbase : RetryPolicy.usual.baseDelay.value = 1 := hone.2.trans Int.cast_one
  have hmax : RetryPolicy.usual.maxDelay.value = 5 := hfive.2.trans (Int.cast_ofNat 5)
  constructor
  case base_finite => exact hone.1
  case base_nonneg => rw [hbase]; norm_num
  case base_double =>
    intro x hx
    cases hx
    exact ⟨by decide +kernel, by decide +kernel, by decide +kernel, Or.inl (by decide +kernel)⟩
  case max_finite => exact hfive.1
  case range =>
    intro _ _ i _ hle
    rw [hmax] at hle
    calc
      RetryPolicy.usual.baseDelay.value * 2 ^ i ≤ 5 := hle
      _ < 2 ^ (3 : Int) := by norm_num
      _ ≤ 2 ^ (1024 : Int) := zpow_le_zpow_right₀ one_le_two (by decide)

/-- Two failures before a success. -/
theorem third_attempt_succeeds :
    ∃ failures last rest,
      [Outcome.failure "down", .failure "down", .success 1] = failures ++ last :: rest ∧
        Lawful RetryPolicy.usual (fun _ => true) failures last rest
          (Retry.run RetryPolicy.usual (fun _ => true)
            [Outcome.failure "down", .failure "down", .success 1]) :=
  operation_retried (by decide) usual_isExact _ _ (by decide)

end Retry

/-! ### Posting a notice -/

namespace Notice

open Http

/-- What the reply to a post means for the attempt. -/
def outcomeOf (url : String) (reply : Reply) : Retry.Outcome Unit PostFailure :=
  match failureOf url reply with
  | none => .success ()
  | some e => .failure e

/-- Whether an event is more than a line in the log. -/
def isExchange : Talk.Event → Bool
  | .line _ => false
  | _ => true

/-- A notice was posted as an operation under the policy goes: it was sent once for each attempt,
and was waited before each attempt but the first. -/
structure Posted (p : RetryPolicy) (request : Request)
    (run : Retry.Run Unit PostFailure) (h : Talk.Held (Option PostFailure)) : Prop where
  result : h.result = none ∧ run.ending = .success () ∨
    ∃ e, h.result = some e ∧ run.ending = .exhausted p.attempts e
  left : run.left = h.left.map (outcomeOf request.url)
  events : h.events.filter isExchange =
    .request request :: run.waits.flatMap fun w => [.wait w, .request request]

theorem attempts_posted (p : RetryPolicy) (request : Request) (now : Calendar.Moment) (left : Nat)
    (r : Retry) (replies : List Reply) (hleft : r.attempt + left = p.attempts)
    (hlen : left < replies.length) :
    Posted p request
      (Retry.runFrom p (fun _ => true) r (replies.map (outcomeOf request.url)))
      (Talk.hold now (attempts p request left r) replies) := by
  induction left generalizing r replies with
  | zero =>
      obtain ⟨reply, replies, rfl⟩ := List.exists_cons_of_length_pos hlen
      have hlast : r.attempt = p.attempts := by simpa using hleft
      rw [attempts, Talk.hold, List.map_cons, outcomeOf]
      cases hfailure : failureOf request.url reply with
      | none => exact ⟨Or.inl ⟨rfl, rfl⟩, rfl, rfl⟩
      | some e =>
          simp only [Retry.runFrom, Retry.afterFailure, if_pos hlast]
          exact ⟨Or.inr ⟨e, rfl, rfl⟩, rfl, rfl⟩
  | succ left ih =>
      obtain ⟨reply, replies, rfl⟩ := List.exists_cons_of_length_pos (by omega : 0 < replies.length)
      have hmore : r.attempt ≠ p.attempts := by omega
      rw [attempts, Talk.hold, List.map_cons, outcomeOf]
      cases hfailure : failureOf request.url reply with
      | none => exact ⟨Or.inl ⟨rfl, rfl⟩, rfl, rfl⟩
      | some e =>
          have he : (fun _ : PostFailure => true) e = true := rfl
          rw [Retry.runFrom_retried he hmore]
          simp only [Retry.afterFailure, if_neg hmore]
          obtain ⟨hresult, hrest, hevents⟩ := ih ⟨r.attempt + 1, r.delay.double⟩ replies
            (by push_cast at hleft; simp only; omega) (by simpa using hlen)
          refine ⟨hresult, hrest, ?_⟩
          rw [List.flatMap_cons]
          exact congrArg (fun es : List Talk.Event =>
            .request request :: .wait (Retry.waitAfter p r 0) :: es) hevents

end Notice

end TableAudit
