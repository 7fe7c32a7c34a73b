import Huldra.Upstream.Cooldown

/-!
# Spacing — upstream calls a request interval apart

A call is admitted by `last_request_at`, which the report after it writes.  Between the two the
spacing rests on the lease alone: it is kept as long as calls and writes come from the holder, and
an admission that does not see the report of an earlier call comes an interval after it anyway.
-/

namespace Huldra
namespace Upstream

open Process
open Process.System (Config Event History Legal Throughout Disciplined stateAfter lastTime)

variable {d : Deployment}

/-! ## What is proved, and under which condition -/

/-- A call begins at least the request interval after every call before it. -/
def Spaced (pre : History (fleet d)) (e : Event (fleet d)) : Prop :=
  beginsCall e = true → ∀ e' ∈ pre, beginsCall e' = true →
    e'.time + d.settings.requestIntervalSeconds ≤ e.time

/-- A call is begun by the process that has acquired the lease last. -/
def HeldCall (pre : History (fleet d)) (e : Event (fleet d)) : Prop :=
  beginsCall e = true → holder pre = some e.pid

def covers (stored : Option Int) (t : Int) : Bool :=
  stored.any fun s => t ≤ s

/-- The calls whose own process has not yet written a `last_request_at` that covers them. -/
def unreported : History (fleet d) → List (Nat × Int)
  | [] => []
  | e :: pre =>
      if beginsCall e then (e.pid, e.time) :: unreported pre
      else
        match e.action with
        | .op (.rate (.setRateState _)) _ =>
            (unreported pre).filter fun call =>
              call.1 ≠ e.pid || !covers (rateRow e.after).lastRequestAt call.2
        | _ => unreported pre

/-- The event is the read of the rate state an admission goes by. -/
def looks (pre : History (fleet d)) (e : Event (fleet d)) : Bool :=
  match e.action, (seen fleetEntry e.pid pre).phase with
  | .op (.rate (.getRateState _)) (.ok _), .acquired _ => true
  | _, _ => false

/-- What an admission reads lacks no call of the last interval. -/
def ReportedInTime (pre : History (fleet d)) (e : Event (fleet d)) : Prop :=
  looks pre e = true → ∀ call ∈ unreported pre,
    call.2 + d.settings.requestIntervalSeconds ≤ e.time

instance (pre : History (fleet d)) (e : Event (fleet d)) : Decidable (Spaced pre e) := by
  unfold Spaced
  infer_instance

instance (pre : History (fleet d)) (e : Event (fleet d)) : Decidable (HeldCall pre e) := by
  unfold HeldCall
  infer_instance

instance (pre : History (fleet d)) (e : Event (fleet d)) : Decidable (ReportedInTime pre e) := by
  unfold ReportedInTime
  infer_instance

/-! ## Before and after the call -/

/-- What the process goes by until it sends its request. -/
def Phase.ready? : Phase → Option Admission
  | .looked a | .renewed a | .written a | .admitted a | .fenced a _ => some a
  | _ => none

/-- The time the request was over, until it is reported. -/
def Phase.endedAt? : Phase → Option Int
  | .fetched _ t | .reporting _ t _ => some t
  | _ => none

theorem snapshot?_of_ready? {p : Phase} {a : Admission} (h : p.ready? = some a) :
    p.snapshot? = some a := by
  cases p <;> simp_all [Phase.ready?, Phase.snapshot?, Phase.admission?]

theorem phaseAfter_ready? {x : View} {o : Op} {r : Except Exn o.Res} {t : Int} {a : Admission}
    (h : (phaseAfter x o r t).ready? = some a) :
    x.phase.ready? = some a ∨ ∃ since, x.phase = .acquired since := by
  generalize hphase : phaseAfter x o r t = phase at h
  cases hphase ▸ advance_phaseAfter x o r t with
  | stays => exact Or.inl h
  | looks state hold => exact Or.inr ⟨_, hold⟩
  | renews hold => exact Or.inl (by rw [hold]; exact h)
  | fences hold =>
      rcases hold with hold | ⟨old, hold⟩
      · exact Or.inl (by rw [hold]; exact h)
      · exact Or.inl (by rw [hold]; exact h)
  | writes hold => exact Or.inl (by rw [hold]; exact h)
  | announces hold => exact Or.inl (by rw [hold]; exact h)
  | _ => cases h

theorem phaseAfter_endedAt? {x : View} {o : Op} {r : Except Exn o.Res} {t endedAt : Int}
    (h : (phaseAfter x o r t).endedAt? = some endedAt) :
    x.phase.endedAt? = some endedAt ∨ endedAt = t := by
  generalize hphase : phaseAfter x o r t = phase at h
  cases hphase ▸ advance_phaseAfter x o r t with
  | stays => exact Or.inl h
  | looksBack state hold => exact Or.inl (by rw [hold]; exact h)
  | fails =>
      cases h
      exact Or.inr rfl
  | ends =>
      cases h
      exact Or.inr rfl
  | _ => cases h

/-! ## The invariant -/

/-- The event is known to follow the phases, and what is assumed of it. -/
structure Punctual (pre : History (fleet d)) (e : Event (fleet d)) : Prop where
  orderly : Orderly fleetEntry d ownToken pre e
  clock_le : (seen fleetEntry e.pid pre).clock ≤ e.time
  held : HeldCall pre e
  write : OwnWrite fleetEntry RateState.lastRequestAt pre e
  inTime : ReportedInTime pre e

/-- Where every earlier call is accounted for. -/
structure Accounted (h : History (fleet d)) : Prop where
  snapshots : Snapshots fleetEntry RateState.lastRequestAt h
  time_le : ∀ e ∈ h, e.time ≤ lastTime h
  recorded : ∀ e ∈ h, beginsCall e = true → (e.pid, e.time) ∈ unreported h ∨
    Covers (rateRow (stateAfter h)).lastRequestAt e.time
  ready : ∀ p a, holder h = some p → (seen fleetEntry p h).phase.ready? = some a →
    ∀ e ∈ h, beginsCall e = true → Covers a.state.lastRequestAt e.time ∨
      e.time + d.settings.requestIntervalSeconds ≤ a.readAt
  ended : ∀ p t, holder h = some p → (seen fleetEntry p h).phase.endedAt? = some t →
    ∀ e ∈ h, beginsCall e = true → e.time ≤ t

variable {pre : History (fleet d)} {e : Event (fleet d)}

theorem acquires_of_beginsCall (h : beginsCall e = true) : acquires e = false := by
  unfold beginsCall at h
  unfold acquires
  split at h
  · rename_i ha
    simp [ha]
  · rename_i ha
    simp [ha]
  · cases h

/-- Only the process itself begins a call while it is the holder. -/
theorem own_of_beginsCall (hp : Punctual pre e) (hbegins : beginsCall e = true) {p : Nat}
    (hholder : holder (e :: pre) = some p) : p = e.pid := by
  rw [holder_of_not_acquires (acquires_of_beginsCall hbegins), hp.held hbegins] at hholder
  exact (Option.some.inj hholder).symm

/-- A call begins in a fenced phase, and leaves it. -/
theorem fenced_of_beginsCall (hp : Punctual pre e) (hbegins : beginsCall e = true) :
    (∃ a expiresAt, (seen fleetEntry e.pid pre).phase = .fenced a expiresAt ∧
      a.due d ≤ (seen fleetEntry e.pid pre).clock ∧
      a.readAt ≤ (seen fleetEntry e.pid pre).clock) ∧
    ((seen fleetEntry e.pid (e :: pre)).phase.isFetching = true ∨
      (seen fleetEntry e.pid (e :: pre)).phase.endedAt? = some e.time) ∧
    (seen fleetEntry e.pid (e :: pre)).phase.ready? = none := by
  have hafter : ∀ (a : Admission) (expiresAt : Int) (r : Except Exn Unit),
      (seen fleetEntry e.pid pre).phase = .fenced a expiresAt →
      (((seen fleetEntry e.pid pre).phase.afterBegin e.time r).isFetching = true ∨
        ((seen fleetEntry e.pid pre).phase.afterBegin e.time r).endedAt? = some e.time) ∧
      ((seen fleetEntry e.pid pre).phase.afterBegin e.time r).ready? = none := by
    intro a expiresAt r hphase
    cases r with
    | ok u => simp [hphase, Phase.afterBegin, Phase.isFetching, Phase.ready?]
    | error err => simp [hphase, Phase.afterBegin, Phase.endedAt?, Phase.ready?]
  unfold beginsCall at hbegins
  split at hbegins
  case h_1 call r ha =>
    rcases (hp.orderly.allowed ha).2.2 with ⟨a, expiresAt, hphase, hdue⟩
    rw [seen_of_op fleetEntry _ ha]
    exact ⟨⟨a, expiresAt, hphase, hdue⟩, hafter a expiresAt r hphase⟩
  case h_2 call r ha =>
    rcases (hp.orderly.allowed ha).2.2 with ⟨a, expiresAt, hphase, hdue⟩
    rw [seen_of_op fleetEntry _ ha]
    exact ⟨⟨a, expiresAt, hphase, hdue⟩, hafter a expiresAt r hphase⟩
  case h_3 => cases hbegins

theorem time_le_step (hp : Punctual pre e) (hI : Accounted pre) :
    ∀ e' ∈ e :: pre, e'.time ≤ e.time := by
  intro e' hmem
  have htime := hp.orderly.legal.time_le
  rcases List.mem_cons.1 hmem with rfl | hmem
  · exact Int.le_refl _
  · have := hI.time_le e' hmem
    omega

/-- The report of the holder covers every call there was. -/
theorem covers_of_change (hp : Punctual pre e) (hI : Accounted pre)
    (hchange : (rateRow e.after).lastRequestAt ≠ (rateRow e.before).lastRequestAt) :
    ∀ e' ∈ pre, beginsCall e' = true → Covers (rateRow e.after).lastRequestAt e'.time := by
  have ho := hp.orderly
  rcases hp.write hchange with ⟨hholder, _⟩
  have hset : ∃ state r, e.action = .op (.rate (.setRateState state)) r := by
    by_contra hnone
    exact hchange (limit_after_eq Limit.lastRequestAt ho fun state r ha => hnone ⟨state, r, ha⟩)
  rcases hset with ⟨state, r, ha⟩
  have hwritten : rateRow e.after = state := by
    rcases rateRow_of_set (ho.performed ha) (name_of_set ho hI.snapshots ha) with heq | ⟨heq, _⟩
    · exact heq
    · exact (hchange (by rw [heq])).elim
  rcases (ho.allowed ha).2.2 with ⟨a, hphase, hkeeps, _⟩ | ⟨a, endedAt, previous, hphase, hreports⟩
  · -- The write of an admission stores the time it has read.
    exfalso
    have hsnapshot : (seen fleetEntry e.pid pre).phase.snapshot? = some a := by
      rw [hphase]
      rfl
    have hcurrent := hI.snapshots.current e.pid a hholder hsnapshot
    rw [← ho.legal.before_eq] at hcurrent
    exact hchange (by rw [hwritten, hkeeps.2.1, hcurrent])
  · intro e' hmem hbegins
    have hended := hI.ended e.pid endedAt hholder (by rw [hphase]; rfl) e' hmem hbegins
    have hlate := hreports.2.2
    rw [hwritten]
    exact ⟨_, hreports.2.1, Int.le_trans hended hlate⟩

theorem mem_unreported_or_covered {u : Nat × Int} (hbegins : beginsCall e = false)
    (hu : u ∈ unreported pre) :
    u ∈ unreported (e :: pre) ∨ Covers (rateRow e.after).lastRequestAt u.2 := by
  unfold unreported
  rw [if_neg (by simp [hbegins])]
  split
  · cases hcovers : covers (rateRow e.after).lastRequestAt u.2 with
    | true =>
        right
        rcases (Option.any_eq_true _ _).1 hcovers with ⟨s, hs, hle⟩
        exact ⟨s, hs, by simpa using hle⟩
    | false =>
        left
        simp [hu, hcovers]
  · exact Or.inl hu

theorem recorded_step (hp : Punctual pre e) (hI : Accounted pre) :
    ∀ e' ∈ e :: pre, beginsCall e' = true → (e'.pid, e'.time) ∈ unreported (e :: pre) ∨
      Covers (rateRow e.after).lastRequestAt e'.time := by
  intro e' hmem hbegins'
  cases hbegins : beginsCall e with
  | true =>
      have hunreported : unreported (e :: pre) = (e.pid, e.time) :: unreported pre := by
        simp [unreported, hbegins]
      rw [hunreported]
      rcases List.mem_cons.1 hmem with rfl | hmem
      · exact Or.inl List.mem_cons_self
      · have hset : ∀ state r, e.action ≠ .op (.rate (.setRateState state)) r := by
          intro state r ha
          simp [beginsCall, ha] at hbegins
        rw [limit_after_eq Limit.lastRequestAt hp.orderly hset, hp.orderly.legal.before_eq]
        rcases hI.recorded e' hmem hbegins' with hu | hcovers
        · exact Or.inl (List.mem_cons_of_mem _ hu)
        · exact Or.inr hcovers
  | false =>
      rcases List.mem_cons.1 hmem with rfl | hmem
      · rw [hbegins] at hbegins'
        cases hbegins'
      · by_cases hsame : (rateRow e.after).lastRequestAt = (rateRow e.before).lastRequestAt
        · rcases hI.recorded e' hmem hbegins' with hu | hcovers
          · exact mem_unreported_or_covered hbegins hu
          · rw [hsame, hp.orderly.legal.before_eq]
            exact Or.inr hcovers
        · exact Or.inr (covers_of_change hp hI hsame e' hmem hbegins')

/-- What the holder had before the event, it had as the holder. -/
theorem holder_of_phase {p : Nat} (hholder : holder (e :: pre) = some p)
    (hphase : (seen fleetEntry p (e :: pre)).phase.snapshot? ≠ none ∨
      (seen fleetEntry p (e :: pre)).phase.endedAt? ≠ none) :
    acquires e = false ∧ holder pre = some p := by
  cases hacq : acquires e with
  | false =>
      rw [holder_of_not_acquires hacq] at hholder
      exact ⟨rfl, hholder⟩
  | true =>
      exfalso
      rw [holder_of_acquires hacq] at hholder
      have hpid := Option.some.inj hholder
      subst hpid
      unfold acquires at hacq
      split at hacq
      case h_1 owner timeout granted ha =>
        subst hacq
        rw [seen_of_op fleetEntry _ ha] at hphase
        rcases hphase with h | h <;> exact h rfl
      case h_2 owner timeout err ha =>
        rw [seen_of_op fleetEntry _ ha] at hphase
        rcases hphase with h | h <;> exact h rfl
      case h_3 => cases hacq

theorem ready_step (hp : Punctual pre e) (hI : Accounted pre) :
    ∀ p a, holder (e :: pre) = some p → (seen fleetEntry p (e :: pre)).phase.ready? = some a →
      ∀ e' ∈ e :: pre, beginsCall e' = true → Covers a.state.lastRequestAt e'.time ∨
        e'.time + d.settings.requestIntervalSeconds ≤ a.readAt := by
  intro p a hholder h e' hmem hbegins'
  have hsnapshot := snapshot?_of_ready? h
  have hheld := (holder_of_phase hholder (Or.inl (by rw [hsnapshot]; exact nofun))).2
  -- The event itself begins no call: the process would not be ready any more.
  have hmem' : e' ∈ pre := by
    rcases List.mem_cons.1 hmem with rfl | hmem
    · have hpid := own_of_beginsCall hp hbegins' hholder
      subst hpid
      rw [(fenced_of_beginsCall hp hbegins').2.2] at h
      cases h
    · exact hmem
  by_cases hpid : e.pid = p
  · subst hpid
    cases ha : e.action with
    | start c =>
        rcases phase_seen_of_start fleetEntry pre ha with hphase | hphase
        · rw [hphase] at h
          cases h
        · rw [hphase] at h
          cases h
    | crash =>
        rw [phase_seen_of_crash fleetEntry _ ha] at h
        cases h
    | op o r =>
        have hview := seen_of_op fleetEntry pre ha
        have hready := h
        rw [hview] at hready
        rcases phaseAfter_ready? hready with hold | ⟨since, hacquired⟩
        · exact hI.ready e.pid a hheld hold e' hmem' hbegins'
        · rcases snapshot_cases hp.orderly hsnapshot with
            hold | ⟨_, _, _, _, ⟨state, hread⟩, rfl⟩
          · rw [hacquired] at hold
            cases hold
          · have hlooks : looks pre e = true := by
              simp [looks, hread, hacquired]
            rw [hp.orderly.legal.before_eq]
            rcases hI.recorded e' hmem' hbegins' with hu | hcovers
            · exact Or.inr (hp.inTime hlooks _ hu)
            · exact Or.inl hcovers
  · rw [seen_of_ne fleetEntry _ hpid] at h
    exact hI.ready p a hheld h e' hmem' hbegins'

theorem ended_step (hp : Punctual pre e) (hI : Accounted pre) :
    ∀ p t, holder (e :: pre) = some p → (seen fleetEntry p (e :: pre)).phase.endedAt? = some t →
      ∀ e' ∈ e :: pre, beginsCall e' = true → e'.time ≤ t := by
  intro p t hholder h e' hmem hbegins'
  have hheld := (holder_of_phase hholder (Or.inr (by rw [h]; exact nofun))).2
  have hle := time_le_step hp hI e' hmem
  by_cases hpid : e.pid = p
  · subst hpid
    cases ha : e.action with
    | start c =>
        have hidle : (seen fleetEntry e.pid (e :: pre)).phase = .idle := phase_of_start pre ha
        rw [hidle] at h
        cases h
    | crash =>
        rw [phase_seen_of_crash fleetEntry _ ha] at h
        cases h
    | op o r =>
        rcases List.mem_cons.1 hmem with rfl | hmem
        · rcases (fenced_of_beginsCall hp hbegins').2.1 with hfetching | hended
          · cases hphase : (seen fleetEntry e'.pid (e' :: pre)).phase <;>
              simp_all [Phase.isFetching, Phase.endedAt?]
          · rw [hended] at h
            cases h
            exact Int.le_refl _
        · rw [seen_of_op fleetEntry _ ha] at h
          rcases phaseAfter_endedAt? h with hold | rfl
          · exact hI.ended e.pid t hheld hold e' hmem hbegins'
          · exact hle
  · rcases List.mem_cons.1 hmem with rfl | hmem
    · exact (hpid (own_of_beginsCall hp hbegins' hholder).symm).elim
    · rw [seen_of_ne fleetEntry _ hpid] at h
      exact hI.ended p t hheld h e' hmem hbegins'

theorem accounted_step (hp : Punctual pre e) (hI : Accounted pre) : Accounted (e :: pre) where
  snapshots := snapshots_step Limit.lastRequestAt hp.orderly hp.write hI.snapshots
  time_le := time_le_step hp hI
  recorded := recorded_step hp hI
  ready := ready_step hp hI
  ended := ended_step hp hI

theorem accounted_nil : Accounted ([] : History (fleet d)) where
  snapshots := snapshots_nil
  time_le := by
    intro e he
    cases he
  recorded := by
    intro e he
    cases he
  ready := by
    intro p a h
    cases h
  ended := by
    intro p t h
    cases h

/-! ## The theorem -/

/-- The wait of an admission ends an interval after the request it has read about. -/
theorem interval_le_due {a : Admission} {t : Int} (h : Covers a.state.lastRequestAt t) :
    t + d.settings.requestIntervalSeconds ≤ a.due d := by
  rcases h with ⟨last, hlast, hle⟩
  simp only [Admission.due, Limiter.secondsUntilNextRequest, hlast]
  omega

theorem spaced_of_accounted (hp : Punctual pre e) (hI : Accounted pre) : Spaced pre e := by
  intro hbegins e' hmem hbegins'
  rcases (fenced_of_beginsCall hp hbegins).1 with ⟨a, expiresAt, hphase, hdue, hreadAt⟩
  have hready : (seen fleetEntry e.pid pre).phase.ready? = some a := by
    rw [hphase]
    rfl
  have hclock := hp.clock_le
  rcases hI.ready e.pid a (hp.held hbegins) hready e' hmem hbegins' with hcovers | hle
  · have hinterval := interval_le_due (d := d) hcovers
    omega
  · omega

/-- In every run in which calls are begun, and the stored request time is changed, only by the
holder of the lease, and no admission misses a call of the last interval that is not reported yet,
any two upstream calls begin at least the request interval apart. -/
theorem requests_spaced (d : Deployment) (sched : List (Config.Choice (fleet d)))
    (hheld : Throughout HeldCall (Config.after (fleet d) sched).history)
    (hwrites : Throughout (OwnWrite fleetEntry RateState.lastRequestAt)
      (Config.after (fleet d) sched).history)
    (hinTime : Throughout ReportedInTime (Config.after (fleet d) sched).history) :
    Throughout Spaced (Config.after (fleet d) sched).history := by
  have hpunctual : Throughout Punctual (Config.after (fleet d) sched).history := by
    refine Throughout.mono ?_ (((((Config.legal_after (fleet d) sched).with_past).and
      (conduct_after d sched)).and hheld).and (hwrites.and hinTime))
    rintro pre e ⟨⟨⟨⟨hlegal, hpast⟩, hdisciplined⟩, hheld'⟩, hwrite, hinTime'⟩
    have hclock := (fleetMonitor d).clock_view_le e.pid hpast
    exact
      { orderly := ⟨hlegal, hdisciplined⟩
        clock_le := Int.le_trans hclock hlegal.time_le
        held := hheld'
        write := hwrite
        inTime := hinTime' }
  exact Throughout.of_invariant accounted_nil (fun pre e hI h => accounted_step h hI)
    (fun pre e hI h => spaced_of_accounted h hI) hpunctual

/-- A harvest fetches; another begins a second later, is admitted with a wait of four and sleeps. -/
def spacedHarvests : List (Config.Choice (fleet {})) :=
  .start 0 (.harvestOai {}) :: runs 0 25 ++
    .run 0 { page := .ok { records := [], responseDate := none, resumptionToken := none } } ::
    runs 0 20 ++ .tick 1000000 :: .start 1 (.harvestOai { metadataPrefix := .arXivRaw }) ::
    runs 1 25 ++ .tick 4000000 :: runs 1 25

set_option maxRecDepth 4000 in
theorem requests_spaced_harvests :
    Throughout Spaced (Config.after (fleet {}) spacedHarvests).history :=
  requests_spaced {} spacedHarvests (by decide +kernel) (by decide +kernel) (by decide +kernel)

/-- The fetch of a harvest raises what the broker does not catch, so that nothing is reported; the
harvest runs again, takes its upstream lease by the token it shares with its first run, and
fetches at once. -/
def resumedAtOnce : List (Config.Choice (fleet {})) :=
  .start 0 (.harvestOai {}) :: runs 0 35 ++ .start 0 (.harvestOai {}) :: runs 0 25

/-- Every call of that run is the holder's, and yet the second does not wait. -/
theorem requests_not_spaced :
    Throughout HeldCall (Config.after (fleet {}) resumedAtOnce).history ∧
      ¬ Throughout Spaced (Config.after (fleet {}) resumedAtOnce).history := by
  decide +kernel

end Upstream
end Huldra
