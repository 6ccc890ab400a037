import Mathlib.Data.List.Nodup
import Mathlib.Data.List.Perm.Basic
import TableAudit.Proofs.Monitor.Passes

/-!
# Accounts of subscriptions

Every subscription has a number of its own. Those that were taken back and those that can be taken
back are some of those that were made, so none is taken back twice. A stop and a switch take back
what is held; attaching to a table that tells of changes overwrites it.
-/

namespace TableAudit

namespace Act

/-- What an act subscribes to. -/
def obtains : Act → Monitor → List Subscription
  | .starts _, m =>
    if m.settings.watchesSelection then [⟨m.nextSubscription, .selection⟩] else []
  | .attaches _ table, m =>
    if table.observable then Monitor.recordSubscriptions m.nextSubscription table else []
  | _, _ => []

end Act

namespace Monitor

variable {s : MonitorSettings} {m : Monitor} {past : List Act} {a : Act} {t : Nat}
variable {o o' : List Effect} {z : Subscription}

/-- What was subscribed to. -/
def subscribed (o : List Effect) : List Subscription :=
  o.filterMap fun
    | .subscribe z => some z
    | _ => none

/-- What was taken back. -/
def released (o : List Effect) : List Subscription :=
  o.filterMap fun
    | .unsubscribe z => some z
    | _ => none

@[simp] theorem subscribed_append : subscribed (o ++ o') = subscribed o ++ subscribed o' := by
  simp [subscribed]

@[simp] theorem released_append : released (o ++ o') = released o ++ released o' := by
  simp [released]

/-- The subscriptions that the monitor can take back. -/
def held (m : Monitor) : List Subscription :=
  m.tableSubscriptions ++ m.selectionSubscription.toList

theorem perform_outbox (a : Act) (m : Monitor) :
    (a.perform m).outbox = m.outbox ++ a.effects m :=
  rfl

theorem accounts_of_other {e : Effect} (hs : ∀ z, e ≠ .subscribe z) (hu : ∀ z, e ≠ .unsubscribe z) :
    subscribed [e] = [] ∧ released [e] = [] := by
  cases e with
  | subscribe z => exact absurd rfl (hs z)
  | unsubscribe z => exact absurd rfl (hu z)
  | _ => exact ⟨rfl, rfl⟩

theorem accounts_arming (m : Monitor) : subscribed m.arming = [] ∧ released m.arming = [] := by
  cases h : m.timer <;> cases hr : m.running <;>
    simp [arming, disarming, h, hr, subscribed, released]

theorem accounts_disarming (m : Monitor) :
    subscribed m.disarming = [] ∧ released m.disarming = [] := by
  cases h : m.timer <;> simp [disarming, h, subscribed, released]

theorem accounts_showing (m : Monitor) (d : Display) :
    subscribed (m.showing d) = [] ∧ released (m.showing d) = [] := by
  cases h : m.settings.listener <;> simp [showing, h, subscribed, released]

theorem accounts_unsubscribe (zs : List Subscription) :
    subscribed (zs.map Effect.unsubscribe) = [] ∧ released (zs.map Effect.unsubscribe) = zs := by
  induction zs with
  | nil => simp [subscribed, released]
  | cons z zs ih => simp_all [subscribed, released]

theorem accounts_cancel (ts : List Nat) :
    subscribed (ts.map Effect.cancel) = [] ∧ released (ts.map Effect.cancel) = [] := by
  induction ts with
  | nil => simp [subscribed, released]
  | cons t ts ih => simp_all [subscribed, released]

theorem accounts_detaching (m : Monitor) :
    subscribed m.detaching = [] ∧ released m.detaching = m.tableSubscriptions :=
  accounts_unsubscribe m.tableSubscriptions

/-- What an act adds to the accounts. -/
theorem accounts_effects (ha : a.Admissible past m) :
    subscribed (a.effects m) = a.obtains m ∧
      released (a.effects m) =
        match a with
        | .halts _ => m.held
        | .switches _ => m.tableSubscriptions
        | _ => [] := by
  have hone (e : Effect) (hs : ∀ z, e ≠ .subscribe z) (hu : ∀ z, e ≠ .unsubscribe z) :=
    accounts_of_other hs hu
  cases a with
  | changes | arms => exact accounts_arming m
  | elapses => cases hr : m.running <;> simp [Act.effects, Act.obtains, hr, subscribed, released]
  | starts t =>
      cases hw : m.settings.watchesSelection <;>
        simp [Act.effects, Act.obtains, hw, subscribed, released]
  | halts t =>
      have hsel : (m.selectionSubscription.map Effect.unsubscribe).toList =
          m.selectionSubscription.toList.map Effect.unsubscribe := by
        cases m.selectionSubscription <;> rfl
      cases ho : m.ownTasks.isEmpty <;>
        simp [Act.effects, Act.obtains, held, ho, hsel, accounts_disarming, accounts_detaching,
          accounts_unsubscribe, accounts_cancel, hone]
  | switches t => simp [Act.effects, Act.obtains, accounts_disarming, accounts_detaching, hone]
  | selects t sel =>
      cases hs : sel.tableId.isTruthy <;>
        simp [Act.effects, Act.obtains, hs, subscribed, released]
  | attaches t table =>
      cases ho : table.observable <;>
        simp [Act.effects, Act.obtains, ho, recordSubscriptions, subscribed, released]
  | givesUp t e => cases e <;> simp [Act.effects, Act.obtains, accounts_showing, hone]
  | lacks t | closes t o =>
      cases hs : m.switchPending <;>
        simp [Act.effects, Act.obtains, hs, accounts_showing, accounts_arming, hone]
  | shows | publishes => exact accounts_showing m _
  | populates t ph e =>
      obtain ⟨-, ⟨c, rfl⟩ | ⟨w, rfl⟩, -⟩ := ha
      · exact ⟨rfl, rfl⟩
      · exact ⟨rfl, rfl⟩
  | _ => exact ⟨rfl, rfl⟩

theorem perform_tableSubscriptions (a : Act) (m : Monitor) :
    (a.perform m).tableSubscriptions =
      match a with
      | .halts _ => []
      | .switches _ => []
      | .attaches _ table =>
        if table.observable then
          if m.settings.unsubscribes then recordSubscriptions m.nextSubscription table else []
        else m.tableSubscriptions
      | _ => m.tableSubscriptions := by
  cases a <;> simp only [Act.perform, Act.change] <;> split <;> rfl

theorem perform_selectionSubscription (a : Act) (m : Monitor) :
    (a.perform m).selectionSubscription =
      match a with
      | .starts _ =>
        if m.settings.watchesSelection && m.settings.unsubscribes then
          some ⟨m.nextSubscription, .selection⟩
        else none
      | .halts _ => none
      | _ => m.selectionSubscription := by
  cases a <;> simp only [Act.perform, Act.change] <;> split <;> rfl

theorem perform_nextSubscription (a : Act) (m : Monitor) :
    (a.perform m).nextSubscription = m.nextSubscription + (a.obtains m).length := by
  cases a with
  | elapses => cases h : m.running <;> simp [Act.perform, Act.change, Act.obtains, h]
  | givesUp t e => cases e <;> rfl
  | starts t =>
      simp only [Act.perform, Act.change, Act.obtains]
      split <;> rfl
  | attaches t table =>
      simp only [Act.perform, Act.change, Act.obtains]
      split <;> rfl
  | _ => rfl

/-- New subscriptions are numbered on from the last one. -/
theorem obtains_numbers (a : Act) (m : Monitor) :
    (a.obtains m).map (·.number) = List.range' m.nextSubscription (a.obtains m).length := by
  cases a with
  | starts t =>
      simp only [Act.obtains]
      split <;> rfl
  | attaches t table =>
      simp only [Act.obtains]
      split <;> rfl
  | _ => rfl

theorem perform_subscribed (ha : a.Admissible past m) :
    subscribed (a.perform m).outbox = subscribed m.outbox ++ a.obtains m := by
  rw [perform_outbox, subscribed_append, (accounts_effects ha).1]

theorem perform_released (ha : a.Admissible past m) :
    released (a.perform m).outbox = released m.outbox ++
      match a with
      | .halts _ => m.held
      | .switches _ => m.tableSubscriptions
      | _ => [] := by
  rw [perform_outbox, released_append, (accounts_effects ha).2]

/-- The accounts of a monitor: subscriptions have numbers of their own, and those that were taken
back or can be taken back are some of those that were made, each of them once. -/
structure Accounts (m : Monitor) : Prop where
  fresh : ∀ z ∈ subscribed m.outbox, z.number < m.nextSubscription
  distinct : ((subscribed m.outbox).map (·.number)).Nodup
  kept : List.Subperm (released m.outbox ++ m.held) (subscribed m.outbox)
  resting : m.running = false → m.selectionSubscription = none
  useless : m.settings.unsubscribes = false → m.held = []

namespace Accounts

theorem known (h : Accounts m) (hz : z ∈ released m.outbox ++ m.held) : z ∈ subscribed m.outbox :=
  h.kept.subset hz

theorem once (h : Accounts m) : ((released m.outbox ++ m.held).map (·.number)).Nodup := by
  obtain ⟨zs, hp, hs⟩ := h.kept
  exact (hp.map _).nodup_iff.mp (h.distinct.sublist (hs.map _))

/-- A subscription is known by its number. -/
theorem number_inj (h : Accounts m) {z' : Subscription} (hz : z ∈ subscribed m.outbox)
    (hz' : z' ∈ subscribed m.outbox) (hn : z.number = z'.number) : z = z' :=
  List.inj_on_of_nodup_map h.distinct hz hz' hn

theorem initial (s : MonitorSettings) : Accounts (Monitor.initial s) where
  fresh := by simp [Monitor.initial, subscribed]
  distinct := by simp [Monitor.initial, subscribed]
  kept := by simp [Monitor.initial, subscribed, released, held]
  resting := by simp [Monitor.initial]
  useless := by simp [Monitor.initial, held]

/-- What was taken back or can be after an act was so before, or has just been subscribed to. -/
theorem kept_act (ha : a.Admissible past m)
    (hr : m.running = false → m.selectionSubscription = none) :
    List.Subperm (released (a.perform m).outbox ++ (a.perform m).held)
      (released m.outbox ++ m.held ++ a.obtains m) := by
  rw [perform_released ha, held, held, perform_tableSubscriptions, perform_selectionSubscription]
  cases a with
  | halts t => exact List.Sublist.subperm (by simp [Act.obtains])
  | switches t => exact List.Sublist.subperm (by simp [Act.obtains])
  | starts t =>
      simp only [hr ha.1, Act.obtains, List.append_assoc]
      refine (List.subperm_append_left _).mpr (List.Sublist.subperm ?_)
      cases m.settings.watchesSelection <;> cases m.settings.unsubscribes <;> simp
  | attaches t table =>
      simp only [Act.obtains, List.append_assoc, List.append_nil]
      refine (List.subperm_append_left _).mpr ?_
      cases table.observable with
      | false => exact List.Sublist.subperm (by simp)
      | true =>
          -- the subscriptions that were held are overwritten
          cases m.settings.unsubscribes with
          | false => simpa using (List.sublist_append_of_sublist_right
              (List.sublist_append_left _ _)).subperm
          | true =>
              simp only [if_true]
              exact List.perm_append_comm.subperm.trans (List.sublist_append_right _ _).subperm
  | _ => exact List.Sublist.subperm (by simp [Act.obtains])

theorem act (h : Accounts m) (ha : a.Admissible past m) : Accounts (a.perform m) where
  fresh z hz := by
    rw [perform_subscribed ha, List.mem_append] at hz
    rw [perform_nextSubscription]
    obtain hz | hz := hz
    · have := h.fresh z hz
      omega
    · have hn : z.number ∈ (a.obtains m).map (·.number) := List.mem_map_of_mem hz
      rw [obtains_numbers, List.mem_range'_1] at hn
      omega
  distinct := by
    rw [perform_subscribed ha, List.map_append, obtains_numbers]
    refine h.distinct.append List.nodup_range' ?_
    intro n hn hn'
    obtain ⟨z, hz, rfl⟩ := List.mem_map.mp hn
    have := h.fresh z hz
    rw [List.mem_range'_1] at hn'
    omega
  kept := by
    rw [perform_subscribed ha]
    exact (kept_act ha h.resting).trans ((List.subperm_append_right _).mpr h.kept)
  resting hr := by
    rw [perform_running] at hr
    rw [perform_selectionSubscription]
    cases a <;> simp_all [h.resting]
  useless hu := by
    rw [perform_settings] at hu
    have hh := h.useless hu
    rw [held, List.append_eq_nil_iff, Option.toList_eq_nil_iff] at hh ⊢
    rw [perform_tableSubscriptions, perform_selectionSubscription]
    cases a <;> simp [hu, hh]

theorem released_nodup (h : Accounts m) :
    ((released m.outbox).map (·.number)).Nodup := by
  have ho := h.once
  rw [List.map_append] at ho
  exact (List.nodup_append.mp ho).1

theorem count_eq_one (h : Accounts m) (hz : z ∈ subscribed m.outbox) :
    ((released m.outbox).map (·.number)).count z.number = 1 ↔ z ∈ released m.outbox := by
  rw [h.released_nodup.count]
  split
  next hmem =>
    obtain ⟨z', hz', he⟩ := List.mem_map.mp hmem
    have hzz := h.number_inj (h.known (List.mem_append_left _ hz')) hz he
    exact iff_of_true rfl (hzz ▸ hz')
  next hmem => exact iff_of_false (by simp) fun hz' => hmem (List.mem_map_of_mem hz')

end Accounts

theorem Course.accounts (h : Course s past m) : Accounts m := by
  induction h with
  | initial => exact .initial s
  | act a h ha ih => exact ih.act ha

theorem outbox_prefix (s : MonitorSettings) (past later : List Act) :
    (after s past).outbox <+: (after s (past ++ later)).outbox := by
  induction later using List.reverseRecOn with
  | nil => simp
  | append_singleton later a ih =>
      rw [← List.append_assoc, after_concat, perform_outbox]
      exact ih.trans (List.prefix_append _ _)

end Monitor

end TableAudit
