import TableAudit.Proofs.Monitor.Accounts

/-!
# Subscriptions to tables

The subscriptions to a table are taken back by the next stop or switch, unless another table is
attached before: its subscriptions take the place of the earlier ones, which nobody can take back
then. So the accounts are settled exactly when between two tables that tell of changes there is
always a stop or a switch, and one follows the last of them.
-/

namespace TableAudit

namespace Act

/-- Whether a table is attached that tells of changes. -/
def acquires : Act → Bool
  | .attaches _ table => table.observable
  | _ => false

/-- Whether the subscriptions to the table are taken back. -/
def releases (s : MonitorSettings) : Act → Bool
  | .halts _ => s.unsubscribes
  | .switches _ => s.unsubscribes
  | _ => false

end Act

namespace Monitor

variable {s : MonitorSettings} {m : Monitor} {past later : List Act} {a : Act} {t : Nat}
variable {T U : OpenTable} {x y : List Act} {o : List Effect} {z : Subscription}

/-- A table tells of changes to someone. -/
def Live (o : List Effect) (T : OpenTable) : Prop :=
  ∃ z ∈ subscribed o, (∃ e, z.watched = .records T e) ∧ z ∉ released o

/-- The next act that takes subscriptions to a table or takes them back. -/
def nextAccount (s : MonitorSettings) (acts : List Act) : Option Act :=
  acts.find? fun a => a.acquires || a.releases s

/-- No table is attached in the place of one that tells of changes still. -/
def Apart (s : MonitorSettings) (acts : List Act) : Prop :=
  ∀ x t T y, acts = x ++ .attaches t T :: y → T.observable = true →
    ∀ b, nextAccount s y = some b → b.releases s = true

/-- The subscriptions to every table are taken back before another one is attached. -/
def Settled (s : MonitorSettings) (acts : List Act) : Prop :=
  ∀ x t T y, acts = x ++ .attaches t T :: y → T.observable = true →
    ∃ b, nextAccount s y = some b ∧ b.releases s = true

theorem nextAccount_concat :
    nextAccount s (y ++ [a]) =
      (nextAccount s y).or (if a.acquires || a.releases s then some a else none) := by
  simp only [nextAccount, List.find?_append, List.find?_singleton]

/-- What became of the subscriptions to a table, by the acts since it was attached. -/
structure Fate (s : MonitorSettings) (zs : List Subscription) (acts : List Act) (m : Monitor) :
    Prop where
  made : ∀ z ∈ zs, z ∈ subscribed m.outbox
  pending : nextAccount s acts = none →
    (∀ z ∈ zs, z ∉ released m.outbox) ∧
      m.tableSubscriptions = if s.unsubscribes then zs else []
  relieved : ∀ b, nextAccount s acts = some b → b.releases s = true →
    ∀ z ∈ zs, z ∈ released m.outbox
  lost : ∀ b, nextAccount s acts = some b → b.releases s = false →
    ∀ z ∈ zs, z ∉ released m.outbox ++ m.held

theorem Course.number_lt (h : Course s past m) (hz : z ∈ released m.outbox ++ m.held) :
    z.number < m.nextSubscription :=
  h.accounts.fresh z (h.accounts.known hz)

theorem le_of_obtains (hz : z ∈ a.obtains m) : m.nextSubscription ≤ z.number := by
  have hn : z.number ∈ (a.obtains m).map (·.number) := List.mem_map_of_mem hz
  rw [obtains_numbers, List.mem_range'_1] at hn
  exact hn.1

/-- Without a release nothing is taken back. -/
theorem Course.released_of_other (h : Course s past m) (ha : a.Admissible past m)
    (hr : a.releases s = false) : released (a.perform m).outbox = released m.outbox := by
  rw [perform_released ha]
  cases a with
  | halts t =>
      have hu := h.accounts.useless (by rw [h.settings_eq]; exact hr)
      simp [hu]
  | switches t =>
      have hu := h.accounts.useless (by rw [h.settings_eq]; exact hr)
      simp [(List.append_eq_nil_iff.mp hu).1]
  | _ => simp

theorem Course.tableSubscriptions_of_other (h : Course s past m) (hr : a.releases s = false)
    (hq : a.acquires = false) : (a.perform m).tableSubscriptions = m.tableSubscriptions := by
  rw [perform_tableSubscriptions]
  cases a with
  | halts t | switches t =>
      have hu := h.accounts.useless (by rw [h.settings_eq]; exact hr)
      exact (List.append_eq_nil_iff.mp hu).1.symm
  | attaches t table => simp [show table.observable = false from hq]
  | _ => rfl

theorem released_of_releases (ha : a.Admissible past m) (hr : a.releases s = true)
    (hz : z ∈ m.tableSubscriptions) : z ∈ released (a.perform m).outbox := by
  rw [perform_released ha]
  cases a with
  | halts t | switches t => simp [held, hz]
  | _ => simp [Act.releases] at hr

namespace Fate

variable {zs : List Subscription}

theorem attaches (h : Course s past m) (ha : (Act.attaches t T).Admissible past m)
    (hT : T.observable = true) :
    Fate s (recordSubscriptions m.nextSubscription T) [] ((Act.attaches t T).perform m) where
  made z hz := by
    rw [perform_subscribed ha]
    simp [Act.obtains, hT, hz]
  pending _ := by
    rw [h.released_of_other ha rfl, perform_tableSubscriptions]
    refine ⟨fun z hz hr => ?_, by simp [hT, h.settings_eq]⟩
    have hlt := h.number_lt (List.mem_append_left _ hr)
    have hle := le_of_obtains (a := .attaches t T) (m := m) (z := z) (by simpa [Act.obtains, hT])
    omega
  relieved b hb := by simp [nextAccount] at hb
  lost b hb := by simp [nextAccount] at hb

/-- When another table is attached, the subscriptions that were pending are lost. -/
theorem lost_of_acquires (h : Course s past m) (ha : a.Admissible past m) (hf : Fate s zs y m)
    (hy : nextAccount s y = none) (hr : a.releases s = false) (hq : a.acquires = true)
    (hz : z ∈ zs) : z ∉ released (a.perform m).outbox ++ (a.perform m).held := by
  obtain ⟨hfree, htable⟩ := hf.pending hy
  rw [List.mem_append, h.released_of_other ha hr, held, List.mem_append, not_or, not_or]
  refine ⟨hfree z hz, fun hmem => ?_, fun hmem => ?_⟩
  · have hlt := h.accounts.fresh z (hf.made z hz)
    have hmem' : z ∈ a.obtains m := by
      rw [perform_tableSubscriptions] at hmem
      cases a with
      | attaches u U =>
          simp only [show U.observable = true from hq, if_true] at hmem
          split at hmem
          · simpa [Act.obtains, show U.observable = true from hq] using hmem
          · simp at hmem
      | _ => simp [Act.acquires] at hq
    have hle := le_of_obtains hmem'
    omega
  · have hsel : z ∈ m.selectionSubscription.toList := by
      rw [perform_selectionSubscription] at hmem
      cases a <;> simp_all [Act.acquires]
    cases hu : s.unsubscribes with
    | false =>
        have hh := h.accounts.useless (by rw [h.settings_eq, hu])
        rw [(List.append_eq_nil_iff.mp hh).2] at hsel
        simp at hsel
    | true =>
        -- the selection's subscription is another one than those to the table
        simp only [hu, if_true] at htable
        have hd := h.accounts.once
        rw [held, htable, List.map_append, List.map_append, List.nodup_append] at hd
        have hd' := (List.nodup_append.mp hd.2.1).2.2
        exact hd' _ (List.mem_map_of_mem hz) _ (List.mem_map_of_mem hsel) rfl

theorem act (h : Course s past m) (ha : a.Admissible past m) (hf : Fate s zs y m) :
    Fate s zs (y ++ [a]) (a.perform m) where
  made z hz := by
    rw [perform_subscribed ha]
    exact List.mem_append_left _ (hf.made z hz)
  pending hn := by
    rw [nextAccount_concat, Option.or_eq_none_iff] at hn
    obtain ⟨hy, hn⟩ := hn
    obtain ⟨hq, hr⟩ : a.acquires = false ∧ a.releases s = false := by simpa using hn
    rw [h.released_of_other ha hr, h.tableSubscriptions_of_other hr hq]
    exact hf.pending hy
  relieved b hb hr z hz := by
    rw [nextAccount_concat, Option.or_eq_some_iff] at hb
    obtain hy | ⟨hy, hb⟩ := hb
    · rw [perform_released ha]
      exact List.mem_append_left _ (hf.relieved b hy hr z hz)
    · split at hb
      · obtain rfl := Option.some.inj hb
        have hu : s.unsubscribes = true := by
          cases a <;> simp_all [Act.releases]
        refine released_of_releases ha hr ?_
        rw [(hf.pending hy).2, if_pos hu]
        exact hz
      · simp at hb
  lost b hb hr z hz := by
    rw [nextAccount_concat, Option.or_eq_some_iff] at hb
    obtain hy | ⟨hy, hb⟩ := hb
    · intro hmem
      have hsub := (Accounts.kept_act ha h.accounts.resting).subset hmem
      rw [List.mem_append] at hsub
      obtain hsub | hsub := hsub
      · exact hf.lost b hy hr z hz hsub
      · have hlt := h.accounts.fresh z (hf.made z hz)
        have hle := le_of_obtains hsub
        omega
    · split at hb
      next hq =>
        obtain rfl := Option.some.inj hb
        exact hf.lost_of_acquires h ha hy hr (by simpa [hr] using hq) hz
      next => simp at hb

end Fate

/-- The fate of the subscriptions to a table at any time after it was attached. -/
theorem Course.fate (h : Course s (x ++ .attaches t T :: y) m) (hT : T.observable = true) :
    Fate s (recordSubscriptions (after s x).nextSubscription T) y m := by
  induction y using List.reverseRecOn generalizing m with
  | nil =>
      obtain ⟨h₁, ha⟩ := h.of_concat
      rw [h.eq_after, after_concat]
      exact Fate.attaches h₁ ha hT
  | append_singleton y a ih =>
      rw [h.eq_after]
      rw [← List.cons_append, ← List.append_assoc] at h ⊢
      obtain ⟨h₁, ha⟩ := h.of_concat
      rw [after_concat]
      exact (ih h₁).act h₁ ha

/-- What is subscribed to is the selection, or the records of a table that was attached. -/
theorem Course.origin (h : Course s past m) (hz : z ∈ subscribed m.outbox) :
    (z.watched = .selection ∧
        (s.unsubscribes = true → z ∈ released m.outbox ∨ z ∈ m.selectionSubscription.toList)) ∨
      ∃ x t T y, past = x ++ .attaches t T :: y ∧ T.observable = true ∧
        z ∈ recordSubscriptions (after s x).nextSubscription T := by
  induction h with
  | initial => simp [Monitor.initial, subscribed] at hz
  | @act past m a h ha ih =>
      rw [perform_subscribed ha, List.mem_append] at hz
      obtain hz | hz := hz
      · obtain ⟨hw, hk⟩ | ⟨x, t, T, y, rfl, hT, hz⟩ := ih hz
        · refine Or.inl ⟨hw, fun hu => ?_⟩
          rw [perform_released ha, perform_selectionSubscription, List.mem_append]
          obtain hk | hk := hk hu
          · exact Or.inl (Or.inl hk)
          · cases a with
            | halts t => exact Or.inl (Or.inr (by simp [held, hk]))
            | starts t => simp [h.accounts.resting ha.1] at hk
            | _ => exact Or.inr hk
        · exact Or.inr ⟨x, t, T, y ++ [a], by simp, hT, hz⟩
      · cases a with
        | starts t =>
            simp only [Act.obtains] at hz
            split at hz
            next hw =>
              simp only [List.mem_singleton] at hz
              refine Or.inl ⟨by rw [hz], fun hu => Or.inr ?_⟩
              rw [h.settings_eq] at hw
              simp [perform_selectionSubscription, hw, h.settings_eq, hu, hz]
            next => simp at hz
        | attaches t T =>
            simp only [Act.obtains] at hz
            split at hz
            next hT =>
              rw [h.eq_after] at hz
              exact Or.inr ⟨past, t, T, [], rfl, hT, hz⟩
            next => simp at hz
        | _ => simp [Act.obtains] at hz

theorem recordSubscriptions_watched {n : Nat} (hz : z ∈ recordSubscriptions n T) :
    ∃ e, z.watched = .records T e := by
  simp only [recordSubscriptions, List.mem_cons, List.not_mem_nil, or_false] at hz
  obtain rfl | rfl | rfl := hz
  · exact ⟨.added, rfl⟩
  · exact ⟨.modified, rfl⟩
  · exact ⟨.deleted, rfl⟩

/-- A table is live while its subscriptions were not taken back. -/
theorem Course.live_iff (h : Course s past m) :
    Live m.outbox T ↔
      ∃ x t y, past = x ++ .attaches t T :: y ∧ T.observable = true ∧
        ∀ b, nextAccount s y = some b → b.releases s = false := by
  constructor
  · rintro ⟨z, hz, ⟨e, hw⟩, hn⟩
    obtain ⟨hw', -⟩ | ⟨x, t, U, y, rfl, hU, hz'⟩ := h.origin hz
    · simp [hw] at hw'
    · obtain ⟨e', hw'⟩ := recordSubscriptions_watched hz'
      obtain ⟨rfl, -⟩ : T = U ∧ e = e' := by simpa [hw] using hw'
      refine ⟨x, t, y, rfl, hU, fun b hb => ?_⟩
      by_contra hr
      rw [Bool.not_eq_false] at hr
      exact hn ((h.fate hU).relieved b hb hr z hz')
  · rintro ⟨x, t, y, rfl, hT, hb⟩
    have hf := h.fate hT
    have hz : ⟨(after s x).nextSubscription, .records T .added⟩ ∈
        recordSubscriptions (after s x).nextSubscription T := by
      simp [recordSubscriptions]
    refine ⟨_, hf.made _ hz, ⟨.added, rfl⟩, ?_⟩
    cases hy : nextAccount s y with
    | none => exact (hf.pending hy).1 _ hz
    | some b => exact fun hr => hf.lost b hy (hb b hy) _ hz (List.mem_append_left _ hr)

/-- A part of the outbox from the beginning ends among the effects of one act. -/
theorem prefix_outbox (s : MonitorSettings) (acts : List Act)
    (ho : o <+: (after s acts).outbox) :
    o = [] ∨ ∃ x a y w, acts = x ++ a :: y ∧ o = (after s x).outbox ++ w ∧
      w <+: a.effects (after s x) := by
  induction acts using List.reverseRecOn with
  | nil =>
      left
      simpa [initial] using ho
  | append_singleton acts a ih =>
      rw [after_concat, perform_outbox] at ho
      obtain ⟨v, hv⟩ := ho
      obtain ⟨w, hw, -⟩ | ⟨w, rfl, hw⟩ := List.append_eq_append_iff.mp hv
      · obtain h | ⟨x, b, y, w', rfl, h⟩ := ih ⟨w, hw.symm⟩
        · exact Or.inl h
        · exact Or.inr ⟨x, b, y ++ [a], w', by simp, h⟩
      · exact Or.inr ⟨acts, a, [], w, rfl, rfl, v, hw.symm⟩

theorem nextAccount_append {b : Act} (hb : nextAccount s x = some b) (y : List Act) :
    nextAccount s (x ++ y) = some b := by
  rw [nextAccount] at hb
  simp [nextAccount, List.find?_append, hb]

theorem nextAccount_append_cons (hy : nextAccount s y = none) (hq : a.acquires = true) :
    nextAccount s (y ++ a :: later) = some a := by
  rw [nextAccount] at hy ⊢
  rw [List.find?_append, hy, Option.none_or, List.find?_cons_of_pos (by simp [hq])]

theorem nextAccount_of_mem (ha : a ∈ x) (hq : a.acquires = true) : nextAccount s x ≠ none := by
  intro hn
  simpa [hq] using List.find?_eq_none.mp hn a ha

/-- Where tables are apart, what is live has not been followed by another table. -/
theorem Apart.pending {acts : List Act} (hs : Apart s acts)
    (hx : acts = x ++ .attaches t T :: (y ++ later)) (hT : T.observable = true)
    (hb : ∀ b, nextAccount s y = some b → b.releases s = false) : nextAccount s y = none := by
  cases hy : nextAccount s y with
  | none => rfl
  | some b =>
      have hr := hs x t T (y ++ later) hx hT b (nextAccount_append hy later)
      simp [hb b hy] at hr

/-- Where tables are apart, one is live at most. -/
theorem Course.live_unique (h : Course s past m) {acts : List Act} (hs : Apart s acts)
    (hp : acts = past ++ later) (hT : Live m.outbox T) (hU : Live m.outbox U) : T = U := by
  obtain ⟨x, t, y, hx, hTo, hb⟩ := h.live_iff.mp hT
  obtain ⟨x', u, y', hx', hUo, hb'⟩ := h.live_iff.mp hU
  have hacts : acts = x ++ .attaches t T :: (y ++ later) := by simp [hp, hx]
  have hacts' : acts = x' ++ .attaches u U :: (y' ++ later) := by simp [hp, hx']
  have hy := hs.pending hacts hTo hb
  have hy' := hs.pending hacts' hUo hb'
  obtain ⟨v, -, rfl⟩ | ⟨-, he, -⟩ | ⟨v, -, rfl⟩ := append_cons_cases (hx.symm.trans hx')
  · exact absurd hy (nextAccount_of_mem (a := .attaches u U) (by simp) hUo)
  · simp only [Act.attaches.injEq] at he
    exact he.2
  · exact absurd hy' (nextAccount_of_mem (a := .attaches t T) (by simp) hTo)

/-- No table is attached while another one is live, where tables are apart. -/
theorem Course.not_live (h : Course s past m) (hs : Apart s (past ++ .attaches t U :: later))
    (hU : U.observable = true) : ¬ Live m.outbox T := by
  intro hT
  obtain ⟨x, u, y, rfl, hTo, hb⟩ := h.live_iff.mp hT
  have hacts : x ++ .attaches u T :: y ++ .attaches t U :: later =
      x ++ .attaches u T :: (y ++ .attaches t U :: later) := by simp
  have hy := hs.pending hacts hTo hb
  simpa [Act.releases] using hs x u T _ hacts hTo _ (nextAccount_append_cons hy hU)

theorem live_of_append {w : List Effect} (ha : a.Admissible past m) (hw : w <+: a.effects m)
    (hl : Live (m.outbox ++ w) T) :
    Live m.outbox T ∨ ∃ t, a = .attaches t T ∧ T.observable = true := by
  obtain ⟨z, hz, ⟨e, he⟩, hn⟩ := hl
  rw [subscribed_append, List.mem_append] at hz
  rw [released_append, List.mem_append, not_or] at hn
  obtain hz | hz := hz
  · exact Or.inl ⟨z, hz, ⟨e, he⟩, hn.1⟩
  · right
    have hz' : z ∈ a.obtains m := by
      rw [← (accounts_effects ha).1]
      exact (hw.filterMap _).subset hz
    cases a with
    | attaches t U =>
        simp only [Act.obtains] at hz'
        split at hz'
        next hU =>
          obtain ⟨e', he'⟩ := recordSubscriptions_watched hz'
          obtain ⟨rfl, -⟩ : T = U ∧ e = e' := by simpa [he] using he'
          exact ⟨t, rfl, hU⟩
        next => simp at hz'
    | starts t =>
        simp only [Act.obtains] at hz'
        split at hz' <;> simp_all
    | _ => simp [Act.obtains] at hz'

/-- One table at most is live at any time exactly when the tables are apart. -/
theorem Course.apart_iff (h : Course s past m) :
    (∀ o, o <+: m.outbox → ∀ T U, Live o T → Live o U → T = U) ↔ Apart s past := by
  constructor
  · intro hl x t T y hx hT b hb
    by_contra hr
    rw [Bool.not_eq_true] at hr
    -- another table is attached while the first one is live
    obtain ⟨hq, y₁, y₂, rfl, hn⟩ := List.find?_eq_some_iff_append.mp hb
    simp only [hr, Bool.or_false] at hq
    obtain ⟨u, U, rfl⟩ : ∃ u U, b = .attaches u U := by
      cases b <;> simp_all [Act.acquires]
    have h' : Course s ((x ++ .attaches t T :: (y₁ ++ [.attaches u U])) ++ y₂) m := by
      simpa [hx] using h
    have h₂ := h'.of_append
    have h₁ : Course s ((x ++ .attaches t T :: y₁) ++ [.attaches u U])
        (after s (x ++ .attaches t T :: (y₁ ++ [.attaches u U]))) := by
      simpa using h₂
    have ho : (after s (x ++ .attaches t T :: (y₁ ++ [.attaches u U]))).outbox <+: m.outbox := by
      rw [h'.eq_after]
      exact outbox_prefix s _ y₂
    have hlT := h₂.live_iff.mpr ⟨x, t, y₁ ++ [.attaches u U], rfl, hT, fun c hc => by
      rw [nextAccount_concat, Option.or_eq_some_iff] at hc
      obtain hc | ⟨-, hc⟩ := hc
      · have hm := List.mem_of_find?_eq_some hc
        have hcp := List.find?_some hc
        simpa [hcp] using hn c hm
      · split at hc
        · rw [← Option.some.inj hc, hr]
        · simp at hc⟩
    have hlU := h₁.live_iff.mpr ⟨x ++ .attaches t T :: y₁, u, [], rfl, hq, by simp [nextAccount]⟩
    obtain rfl := hl _ ho T U hlT hlU
    obtain ⟨h₃, hser, -⟩ := h₁.of_concat
    have := h₃.serial_lt (u := t) (T := T) (by simp)
    omega
  · intro hs o ho T U hT hU
    rw [h.eq_after] at ho
    obtain rfl | ⟨x, a, y, w, rfl, rfl, hw⟩ := prefix_outbox s past ho
    · obtain ⟨z, hz, -⟩ := hT
      simp [subscribed] at hz
    · obtain ⟨h₁, ha⟩ := h.of_split
      obtain hT | ⟨t, rfl, hTo⟩ := live_of_append ha hw hT
      · obtain hU | ⟨u, rfl, hUo⟩ := live_of_append ha hw hU
        · exact h₁.live_unique hs rfl hT hU
        · exact absurd hT (h₁.not_live hs hUo)
      · obtain hU | ⟨u, he, -⟩ := live_of_append ha hw hU
        · exact absurd hU (h₁.not_live hs hTo)
        · simp only [Act.attaches.injEq] at he
          exact he.2

/-- When the monitor does not run, all subscriptions were taken back exactly when the subscriptions
to every table were taken back before another one was attached. -/
theorem Course.settled_iff (h : Course s past m) (hu : s.unsubscribes = true)
    (hr : m.running = false) :
    (∀ z ∈ subscribed m.outbox, z ∈ released m.outbox) ↔ Settled s past := by
  constructor
  · rintro hz x t T y rfl hT
    have hf := h.fate hT
    have hmem : ⟨(after s x).nextSubscription, .records T .added⟩ ∈
        recordSubscriptions (after s x).nextSubscription T := by
      simp [recordSubscriptions]
    have hback := hz _ (hf.made _ hmem)
    cases hy : nextAccount s y with
    | none => exact absurd hback ((hf.pending hy).1 _ hmem)
    | some b =>
        refine ⟨b, rfl, ?_⟩
        by_contra hb
        rw [Bool.not_eq_true] at hb
        exact hf.lost b hy hb _ hmem (List.mem_append_left _ hback)
  · intro hs z hz
    obtain ⟨-, hk⟩ | ⟨x, t, T, y, rfl, hT, hz⟩ := h.origin hz
    · simpa [h.accounts.resting hr] using hk hu
    · obtain ⟨b, hy, hb⟩ := hs x t T y rfl hT
      exact (h.fate hT).relieved b hy hb z hz

/-- No subscription is taken back twice, and each has a number of its own. One table at most is
live at any time exactly when no table is attached in the place of another one. When the monitor
does not run, every subscription was taken back once exactly when those to every table were taken
back before another one was attached. -/
theorem subscriptions_accounted_iff (s : MonitorSettings) (es : List MonitorEvent) :
    (((subscribed (run s es).outbox).map (·.number)).Nodup ∧
        ((released (run s es).outbox).map (·.number)).Nodup) ∧
      ((∀ o, o <+: (run s es).outbox → ∀ T U, Live o T → Live o U → T = U) ↔
        Apart s (history s es)) ∧
      (s.unsubscribes = true → (run s es).running = false →
        ((∀ z ∈ subscribed (run s es).outbox,
            ((released (run s es).outbox).map (·.number)).count z.number = 1) ↔
          Settled s (history s es))) := by
  have h := course_run s es
  refine ⟨⟨h.accounts.distinct, h.accounts.released_nodup⟩, h.apart_iff, fun hu hr => ?_⟩
  rw [← h.settled_iff hu hr]
  exact forall₂_congr fun z hz => h.accounts.count_eq_one hz

/-- A start, and a stop after the table is open and the first pass over. -/
def startStop : List MonitorEvent :=
  [.request .start, .begins 0, .replied 0 (.selection ⟨.text "orders", .null⟩),
    .replied 0 (.opened true), .replied 0 (.table (.fields [])),
    .replied 0 (.table (.page ⟨[], false, .null⟩)), .request .stop, .begins 1]

theorem startStop_settled :
    (run watching startStop).running = false ∧ Settled watching (history watching startStop) := by
  obtain ⟨-, -, h⟩ := subscriptions_accounted_iff watching startStop
  refine ⟨rfl, (h rfl rfl).mp ?_⟩
  have hz : subscribed (run watching startStop).outbox =
      ⟨0, .selection⟩ :: recordSubscriptions 1 ⟨0, .text "orders", true⟩ := rfl
  simp only [hz, recordSubscriptions, List.forall_mem_cons]
  exact ⟨rfl, rfl, rfl, rfl, by simp⟩

/-- A stop while the table is being opened. -/
def stopWhileOpening : List MonitorEvent :=
  [.request .start, .begins 0, .replied 0 (.selection ⟨.text "orders", .null⟩), .request .stop,
    .begins 1, .replied 0 (.opened true), .replied 0 (.table (.fields [])),
    .replied 0 (.table (.page ⟨[], false, .null⟩))]

/-- Two changes of the selection, both on their way before the first table is open. -/
def overlappingSwitches : List MonitorEvent :=
  [.request .start, .begins 0, .replied 0 (.selection ⟨.text "orders", .null⟩),
    .replied 0 (.opened true), .selectionChanged, .begins 1, .selectionChanged, .begins 2,
    .replied 1 (.selection ⟨.text "invoices", .null⟩),
    .replied 2 (.selection ⟨.text "orders", .null⟩), .replied 1 (.opened true),
    .replied 2 (.opened true)]

/-- After a stop that came while the table was being opened nobody takes the subscriptions back,
and after overlapping changes of the selection two tables are live. -/
theorem accounts_unsettled :
    ((run watching stopWhileOpening).running = false ∧ (run watching stopWhileOpening).tasks = [] ∧
        ∃ z ∈ subscribed (run watching stopWhileOpening).outbox,
          ((released (run watching stopWhileOpening).outbox).map (·.number)).count z.number = 0) ∧
      ∃ T U, T.serial ≠ U.serial ∧ Live (run watching overlappingSwitches).outbox T ∧
        Live (run watching overlappingSwitches).outbox U := by
  have hz : subscribed (run watching stopWhileOpening).outbox =
      ⟨0, .selection⟩ :: recordSubscriptions 1 ⟨0, .text "orders", true⟩ := rfl
  refine ⟨⟨rfl, rfl, ⟨1, .records ⟨0, .text "orders", true⟩ .added⟩, ?_, rfl⟩,
    ⟨1, .text "invoices", true⟩, ⟨2, .text "orders", true⟩, by simp, ?_, ?_⟩
  · rw [hz]
    simp [recordSubscriptions]
  · refine ⟨⟨4, .records ⟨1, .text "invoices", true⟩ .added⟩,
      List.mem_of_getElem? (i := 4) rfl, ⟨.added, rfl⟩, ?_⟩
    have hr : (released (run watching overlappingSwitches).outbox).map (·.number) = [1, 2, 3] := rfl
    exact fun hmem => by simpa [hr] using List.mem_map_of_mem (f := (·.number)) hmem
  · refine ⟨⟨7, .records ⟨2, .text "orders", true⟩ .added⟩,
      List.mem_of_getElem? (i := 7) rfl, ⟨.added, rfl⟩, ?_⟩
    have hr : (released (run watching overlappingSwitches).outbox).map (·.number) = [1, 2, 3] := rfl
    exact fun hmem => by simpa [hr] using List.mem_map_of_mem (f := (·.number)) hmem

end Monitor

end TableAudit
