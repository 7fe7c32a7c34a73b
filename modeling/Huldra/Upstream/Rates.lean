import Huldra.Upstream.Lease

/-!
# Rates — the rate state between a read and the write that follows it

The limiter reads the whole row, changes it in memory and writes it back in a later transaction.
A snapshot stays current as long as whatever changes the stored value is done by the process that
holds the lease and still works under it.
-/

namespace Huldra
namespace Upstream

open Process
open Process.System (Event History Legal Throughout Disciplined stateAfter lastTime)

/-- The rate state all clients share, as `get_rate_state` answers it. -/
def rateRow (s : Store) : RateState :=
  (s.rates Limiter.name).getD { name := Limiter.name }

/-- Every row carries the name it is stored under. -/
def Named (s : Store) : Prop :=
  ∀ name state, s.rates name = some state → state.name = name

/-- The parts of the rate state that decide about admission. -/
inductive Limit : {α : Type} → (RateState → α) → Prop
  | lastRequestAt : Limit RateState.lastRequestAt
  | cooldownUntil : Limit RateState.cooldownUntil

/-! ## One operation -/

section Operations

variable {o : Op} {t : Int} {r : Except Exn o.Res} {s s' : Store}

theorem name_rateRow (h : Named s) : (rateRow s).name = Limiter.name := by
  unfold rateRow
  cases hrow : s.rates Limiter.name with
  | none => rfl
  | some state => exact h _ _ hrow

theorem named_migrate (h : Named s) : Named s.migrate := by
  intro name state hstate
  rcases Option.map_eq_some_iff.1 hstate with ⟨old, hold, rfl⟩
  exact h name old hold

/-- Only `set_rate_state` writes the rates, and the schema its counters. -/
theorem rates_exec (o : Op) (t : Int) (input : Input) (s : Store) :
    (Store.exec o t input s).2.rates = s.rates ∨
      (o = .initSchema ∧ (Store.exec o t input s).2.rates = s.migrate.rates) ∨
      ∃ state, o = .rate (.setRateState state) ∧
        (Store.exec o t input s).2.rates = Function.update s.rates state.name (some state) := by
  cases o with
  | rate o =>
      cases o with
      | getRateState name => exact Or.inl rfl
      | setRateState state => exact Or.inr (Or.inr ⟨state, rfl, rfl⟩)
      | recordEvent event => exact Or.inl rfl
  | initSchema =>
      rcases s.initSchema_cases with heq | heq
      · exact Or.inl (congrArg Store.rates heq)
      · exact Or.inr (Or.inl ⟨rfl, congrArg Store.rates heq⟩)
  | checkpointOaiPage c =>
      left
      simp only [Store.exec, Store.checkpointOaiPage]
      split <;> rfl
  | enqueueRefreshIfDue request cacheKey timeout current =>
      left
      simp only [Store.exec, Store.enqueueRefreshIfDue]
      repeat' split
      all_goals rfl
  | renewWorkerFetchOwnership requestId owner name ttl ids =>
      left
      simp only [Store.exec, Store.renewWorkerFetchOwnership]
      repeat' split
      all_goals rfl
  | clock o => exact Or.inl rfl
  | lease o => exact Or.inl rfl
  | queue o => exact Or.inl rfl
  | library o => exact Or.inl rfl
  | oai o => exact Or.inl rfl
  | upstream o => exact Or.inl rfl

theorem rateRow_of_rates (h : s'.rates = s.rates) : rateRow s' = rateRow s := by
  simp only [rateRow, h]

theorem limit_migrate {α : Type} {limit : RateState → α} (hlimit : Limit limit)
    (h : s'.rates = s.migrate.rates) : limit (rateRow s') = limit (rateRow s) := by
  have hrow : s'.rates Limiter.name = s.migrate.rates Limiter.name := by
    rw [h]
  cases hold : s.rates Limiter.name with
  | none =>
      have hnew : s'.rates Limiter.name = none := by
        simpa [Store.migrate, hold] using hrow
      simp [rateRow, hnew, hold]
  | some state =>
      cases hlimit <;> simp [rateRow, hrow, Store.migrate, hold]

theorem named_of_performed (h : Store.Performed o t r s s') (hnamed : Named s) : Named s' := by
  rcases h.state with rfl | ⟨input, rfl⟩
  · exact hnamed
  · rcases rates_exec o t input s with heq | ⟨_, heq⟩ | ⟨state, _, heq⟩
    · intro name state' hstate
      rw [heq] at hstate
      exact hnamed name state' hstate
    · intro name state' hstate
      rw [heq] at hstate
      exact named_migrate hnamed name state' hstate
    · intro name state' hstate
      rw [heq] at hstate
      by_cases hname : name = state.name
      · subst hname
        simp only [Function.update_self, Option.some.injEq] at hstate
        rw [← hstate]
      · rw [Function.update_of_ne hname] at hstate
        exact hnamed name state' hstate

/-- An operation other than `set_rate_state` leaves the limits alone. -/
theorem limit_of_other {α : Type} {limit : RateState → α} (hlimit : Limit limit)
    (h : Store.Performed o t r s s') (ho : ∀ state, o ≠ .rate (.setRateState state)) :
    limit (rateRow s') = limit (rateRow s) := by
  rcases h.state with rfl | ⟨input, rfl⟩
  · rfl
  · rcases rates_exec o t input s with heq | ⟨_, heq⟩ | ⟨state, hset, _⟩
    · rw [rateRow_of_rates heq]
    · exact limit_migrate hlimit heq
    · exact (ho state hset).elim

/-- A write of the shared row takes effect, or an exception is raised in its place. -/
theorem rateRow_of_set {state : RateState}
    {r : Except Exn (Op.rate (.setRateState state)).Res}
    (h : Store.Performed (.rate (.setRateState state)) t r s s')
    (hname : state.name = Limiter.name) :
    rateRow s' = state ∨ (rateRow s' = rateRow s ∧ ∃ e, r = .error e) := by
  have hwritten : ∀ input, rateRow (Store.exec (.rate (.setRateState state)) t input s).2 =
      state := by
    intro input
    simp [rateRow, Store.exec, RateOp.exec, hname]
  rcases h with ⟨input, _, hexec⟩ | ⟨e, _, hr, hstate⟩
  · left
    have hs : s' = (Store.exec (.rate (.setRateState state)) t input s).2 := by
      rw [hexec]
    rw [hs]
    exact hwritten input
  · rcases hstate with rfl | ⟨input, rfl⟩
    · exact Or.inr ⟨rfl, e, hr⟩
    · exact Or.inl (hwritten input)

/-- What a read answers is the stored row. -/
theorem rateRow_of_get {state : RateState}
    (h : Store.Performed (.rate (.getRateState Limiter.name)) t (.ok state) s s') :
    state = rateRow s := by
  rcases h.of_ok with ⟨input, _, hexec⟩
  have hout := congrArg Prod.fst hexec
  exact (Except.ok.inj hout).symm

end Operations

/-! ## Snapshots -/

/-- What the process has read under the lease and not yet replaced by a report. -/
def Phase.snapshot? : Phase → Option Admission
  | .looked a | .renewed a => some a
  | p => p.admission?

theorem snapshot?_of_admission? {p : Phase} {a : Admission} (h : p.admission? = some a) :
    p.snapshot? = some a := by
  cases p <;> simp_all [Phase.snapshot?, Phase.admission?]

/-- A snapshot was there before, or the operation has just read it. -/
theorem phaseAfter_snapshot? {x : View} {o : Op} {r : Except Exn o.Res} {t : Int} {a : Admission}
    (h : (phaseAfter x o r t).snapshot? = some a) :
    x.phase.snapshot? = some a ∨
      ∃ since name state, x.phase = .acquired since ∧ o = .rate (.getRateState name) ∧
        HEq r (Except.ok state : Except Exn RateState) ∧
        a = { current := x.now, state := state, readAt := t } := by
  generalize hphase : phaseAfter x o r t = phase at h
  cases hphase ▸ advance_phaseAfter x o r t with
  | stays => exact Or.inl h
  | drops => cases h
  | acquires => cases h
  | looks state hacquired =>
      cases h
      exact Or.inr ⟨_, _, state, hacquired, rfl, HEq.rfl, rfl⟩
  | looksBack state hold => exact Or.inl (by rw [hold]; exact h)
  | renews hold => exact Or.inl (by rw [hold]; exact h)
  | fences hold =>
      rcases hold with hold | ⟨old, hold⟩
      · exact Or.inl (by rw [hold]; exact h)
      · exact Or.inl (by rw [hold]; exact h)
  | writes hold => exact Or.inl (by rw [hold]; exact h)
  | announces hold => exact Or.inl (by rw [hold]; exact h)
  | begins _ hold => exact Or.inl (by rw [hold]; exact h)
  | fails hold => exact Or.inl (by rw [hold]; exact h)
  | ends hold => exact Or.inl (by rw [hold]; exact h)

/-- A report begins with the read of the row it replaces. -/
theorem phaseAfter_reporting {x : View} {o : Op} {r : Except Exn o.Res} {t endedAt : Int}
    {a : Option Admission} {previous : RateState}
    (h : phaseAfter x o r t = .reporting a endedAt previous) :
    x.phase = .reporting a endedAt previous ∨
      ∃ name, o = .rate (.getRateState name) ∧
        HEq r (Except.ok previous : Except Exn RateState) ∧ x.phase = .fetched a endedAt := by
  generalize hphase : phaseAfter x o r t = phase at h
  cases hphase ▸ advance_phaseAfter x o r t with
  | stays => exact Or.inl h
  | looksBack state hold =>
      cases h
      exact Or.inr ⟨_, rfl, HEq.rfl, hold⟩
  | _ => cases h

/-- An admission is under way already, or is written now. -/
theorem phaseAfter_admission? {x : View} {o : Op} {r : Except Exn o.Res} {t : Int} {a : Admission}
    (h : (phaseAfter x o r t).admission? = some a) :
    x.phase.admission? = some a ∨
      (x.phase = .renewed a ∧ ∃ state, o = .rate (.setRateState state)) := by
  generalize hphase : phaseAfter x o r t = phase at h
  cases hphase ▸ advance_phaseAfter x o r t with
  | stays => exact Or.inl h
  | drops => cases h
  | acquires => cases h
  | looks => cases h
  | renews => cases h
  | writes hold =>
      cases h
      exact Or.inr ⟨hold, _, rfl⟩
  | looksBack state hold => exact Or.inl (by rw [hold]; exact h)
  | fences hold =>
      rcases hold with hold | ⟨old, hold⟩
      · exact Or.inl (by rw [hold]; exact h)
      · exact Or.inl (by rw [hold]; exact h)
  | announces hold => exact Or.inl (by rw [hold]; exact h)
  | begins _ hold => exact Or.inl (by rw [hold]; exact h)
  | fails hold => exact Or.inl (by rw [hold]; exact h)
  | ends hold => exact Or.inl (by rw [hold]; exact h)

/-- The lease was acquired before, or is acquired now. -/
theorem phaseAfter_acquired {x : View} {o : Op} {r : Except Exn o.Res} {t since : Int}
    (h : phaseAfter x o r t = .acquired since) :
    x.phase = .acquired since ∨
      (since = t ∧ ∃ owner timeout, o = .lease (.acquireLease .upstreamFetch owner timeout)) := by
  generalize hphase : phaseAfter x o r t = phase at h
  cases hphase ▸ advance_phaseAfter x o r t with
  | stays => exact Or.inl h
  | acquires =>
      cases h
      exact Or.inr ⟨rfl, _, _, rfl⟩
  | _ => cases h

/-! ## The history -/

section Snapshots

variable {Client Out : Type} {program : Client → Nat → Process.Prog huldra Out}
variable (entry : Entry Client) {d : Deployment} {mayUse : Nat → OwnerToken → Prop}

variable {pre h : History (storeSystem Client Out program)}
  {e : Event (storeSystem Client Out program)}

/-- A process that has just acquired the lease has read nothing yet. -/
theorem acquires_pid_phase {p : Nat} (hacq : acquires e = true)
    (hp : holder (e :: pre) = some p) : e.pid = p ∧
      (seen entry e.pid (e :: pre)).phase.snapshot? = none := by
  rw [holder_of_acquires hacq] at hp
  refine ⟨Option.some.inj hp, ?_⟩
  unfold acquires at hacq
  split at hacq
  case h_1 owner timeout granted ha =>
    rw [seen_of_op entry pre ha]
    subst hacq
    rfl
  case h_2 owner timeout err ha =>
    rw [seen_of_op entry pre ha]
    rfl
  case h_3 => cases hacq

/-- What changes the stored value is done by the last acquirer, under what it has read. -/
def OwnWrite {α : Type} (limit : RateState → α)
    (pre : History (storeSystem Client Out program))
    (e : Event (storeSystem Client Out program)) : Prop :=
  limit (rateRow e.after) ≠ limit (rateRow e.before) →
    holder pre = some e.pid ∧ (seen entry e.pid pre).phase.working = true

instance {α : Type} [DecidableEq α] (limit : RateState → α)
    (pre : History (storeSystem Client Out program))
    (e : Event (storeSystem Client Out program)) : Decidable (OwnWrite entry limit pre e) := by
  unfold OwnWrite
  infer_instance

/-- The snapshots that are about are of the shared row, and the holder's is current. -/
structure Snapshots {α : Type} (limit : RateState → α)
    (h : History (storeSystem Client Out program)) : Prop where
  named : Named (stateAfter h)
  snapshot_name : ∀ p a, (seen entry p h).phase.snapshot? = some a → a.state.name = Limiter.name
  previous_name : ∀ p a endedAt previous,
    (seen entry p h).phase = .reporting a endedAt previous → previous.name = Limiter.name
  current : ∀ p a, holder h = some p → (seen entry p h).phase.snapshot? = some a →
    limit (rateRow (stateAfter h)) = limit a.state

/-- The event is legal, and allowed in the phase of its process. -/
structure Orderly (d : Deployment) (mayUse : Nat → OwnerToken → Prop)
    (pre : History (storeSystem Client Out program))
    (e : Event (storeSystem Client Out program)) : Prop where
  legal : Legal pre e
  disciplined : Disciplined (conduct d mayUse) (monitor entry).view pre e

variable {entry} {α : Type} {limit : RateState → α}

theorem Orderly.allowed (ho : Orderly entry d mayUse pre e) {o : Op} {r : Except Exn o.Res}
    (ha : e.action = .op o r) : Allowed d mayUse (seen entry e.pid pre) o :=
  ho.disciplined.1 o r ha

theorem Orderly.performed (ho : Orderly entry d mayUse pre e) {o : Op} {r : Except Exn o.Res}
    (ha : e.action = .op o r) : Store.Performed o e.time r e.before e.after :=
  Store.executed_iff.1 (ho.legal.executed ha)

/-- Every write is one of the shared row. -/
theorem name_of_set (ho : Orderly entry d mayUse pre e) (hI : Snapshots entry limit pre)
    {state : RateState} {r} (ha : e.action = .op (.rate (.setRateState state)) r) :
    state.name = Limiter.name := by
  rcases (ho.allowed ha).2.2 with ⟨a, hphase, hkeeps, _⟩ | ⟨a, endedAt, previous, hphase, hreports⟩
  · have hsnapshot : (seen entry e.pid pre).phase.snapshot? = some a := by
      rw [hphase]
      rfl
    exact hkeeps.1.trans (hI.snapshot_name e.pid a hsnapshot)
  · exact hreports.1.trans (hI.previous_name e.pid a endedAt previous hphase)

/-- A snapshot of the process after its own event: it was there, or has just been read. -/
theorem snapshot_cases (ho : Orderly entry d mayUse pre e) {a : Admission}
    (h : (seen entry e.pid (e :: pre)).phase.snapshot? = some a) :
    (seen entry e.pid pre).phase.snapshot? = some a ∨
      (∃ since, (seen entry e.pid pre).phase = .acquired since ∧
        since ≤ (seen entry e.pid pre).now ∧ rateRow e.after = rateRow e.before ∧
        (∃ state, e.action = .op (.rate (.getRateState Limiter.name)) (.ok state)) ∧
        a = { current := (seen entry e.pid pre).now, state := rateRow e.before,
              readAt := e.time }) := by
  cases ha : e.action with
  | start c =>
      left
      rcases phase_seen_of_start entry pre ha with hphase | hphase
      · rw [hphase] at h
        cases h
      · rw [hphase] at h
        exact snapshot?_of_admission? h
  | crash =>
      rw [phase_seen_of_crash entry _ ha] at h
      cases h
  | op o r =>
      rw [seen_of_op entry pre ha] at h
      rcases phaseAfter_snapshot? h with hold | ⟨since, name, state, hphase, hop, hr, heq⟩
      · exact Or.inl hold
      · right
        subst hop
        have hr' := eq_of_heq hr
        subst hr'
        have hallowed := ho.allowed ha
        have hname : name = Limiter.name := hallowed.2.2.1
        subst hname
        have hperf := ho.performed ha
        have hstate := rateRow_of_get hperf
        have hsame : rateRow e.after = rateRow e.before := by
          rcases hperf.of_ok with ⟨input, _, hexec⟩
          exact rateRow_of_rates (congrArg (fun out => out.2.rates) hexec).symm
        exact ⟨since, hphase, hallowed.2.2.2.1 since hphase, hsame, ⟨state, rfl⟩,
          by rw [heq, hstate]⟩

theorem limit_after_eq (hlimit : Limit limit) (ho : Orderly entry d mayUse pre e)
    (hset : ∀ state r, e.action ≠ .op (.rate (.setRateState state)) r) :
    limit (rateRow e.after) = limit (rateRow e.before) := by
  cases ha : e.action with
  | start c => rw [ho.legal.after_eq_of_start ha]
  | crash => rw [ho.legal.after_eq_of_crash ha]
  | op o r =>
      refine limit_of_other hlimit (ho.performed ha) ?_
      intro state hop
      subst hop
      exact hset state r ha

theorem named_after (ho : Orderly entry d mayUse pre e) (hnamed : Named e.before) :
    Named e.after := by
  cases ha : e.action with
  | start c =>
      rw [ho.legal.after_eq_of_start ha]
      exact hnamed
  | crash =>
      rw [ho.legal.after_eq_of_crash ha]
      exact hnamed
  | op o r => exact named_of_performed (ho.performed ha) hnamed

/-- The write of an admission keeps the limits; that of a report leaves no snapshot. -/
theorem limit_of_own_set (hlimit : Limit limit) (ho : Orderly entry d mayUse pre e)
    (hI : Snapshots entry limit pre) {state : RateState} {r}
    (ha : e.action = .op (.rate (.setRateState state)) r) {a : Admission}
    (h : (seen entry e.pid (e :: pre)).phase.snapshot? = some a) :
    (seen entry e.pid pre).phase = .renewed a ∧ rateRow e.after = state ∧
      limit state = limit a.state := by
  rw [seen_of_op entry pre ha] at h
  have hstep : ((seen entry e.pid pre).phase.afterWrite r).snapshot? = some a := h
  unfold Phase.afterWrite at hstep
  split at hstep
  case h_1 b u hphase =>
    have hab : b = a := by
      simpa [Phase.snapshot?, Phase.admission?] using hstep
    subst hab
    refine ⟨hphase, ?_, ?_⟩
    · rcases rateRow_of_set (ho.performed ha) (name_of_set ho hI ha) with heq | ⟨_, err, herr⟩
      · exact heq
      · cases herr
    · rcases (ho.allowed ha).2.2 with ⟨a', hphase', hkeeps, _⟩ | ⟨a', endedAt, previous, hphase', _⟩
      · rw [hphase] at hphase'
        cases hphase'
        cases hlimit with
        | lastRequestAt => exact hkeeps.2.1
        | cooldownUntil => exact hkeeps.2.2
      · rw [hphase] at hphase'
        cases hphase'
  case h_2 => simp [Phase.snapshot?, Phase.admission?] at hstep

theorem snapshots_step (hlimit : Limit limit) (ho : Orderly entry d mayUse pre e)
    (hown : OwnWrite entry limit pre e) (hI : Snapshots entry limit pre) :
    Snapshots entry limit (e :: pre) := by
  have hnamed : Named e.before := by
    rw [ho.legal.before_eq]
    exact hI.named
  refine ⟨named_after ho hnamed, ?_, ?_, ?_⟩
  · intro p a h
    by_cases hpid : e.pid = p
    · subst hpid
      rcases snapshot_cases ho h with hold | ⟨_, _, _, _, _, rfl⟩
      · exact hI.snapshot_name e.pid a hold
      · exact name_rateRow hnamed
    · rw [seen_of_ne entry _ hpid] at h
      exact hI.snapshot_name p a h
  · intro p a endedAt previous h
    by_cases hpid : e.pid = p
    · subst hpid
      cases ha : e.action with
      | start c =>
          rcases phase_seen_of_start entry pre ha with hphase | hphase
          · rw [hphase] at h
            cases h
          · rw [hphase] at h
            cases h
      | crash =>
          rw [phase_seen_of_crash entry _ ha] at h
          cases h
      | op o r =>
          rw [seen_of_op entry pre ha] at h
          rcases phaseAfter_reporting h with hold | ⟨name, hop, hr, _⟩
          · exact hI.previous_name e.pid a endedAt previous hold
          · subst hop
            have hr' := eq_of_heq hr
            subst hr'
            have hname : name = Limiter.name := (ho.allowed ha).2.2.1
            subst hname
            rw [rateRow_of_get (ho.performed ha)]
            exact name_rateRow hnamed
    · rw [seen_of_ne entry _ hpid] at h
      exact hI.previous_name p a endedAt previous h
  · intro p a hholder h
    cases hacq : acquires e with
    | true =>
        rcases acquires_pid_phase entry hacq hholder with ⟨rfl, hnone⟩
        rw [hnone] at h
        cases h
    | false =>
        rw [holder_of_not_acquires hacq] at hholder
        by_cases hpid : e.pid = p
        · subst hpid
          by_cases hset : ∃ state r, e.action = .op (.rate (.setRateState state)) r
          · rcases hset with ⟨state, r, ha⟩
            rcases limit_of_own_set hlimit ho hI ha h with ⟨_, hafter, heq⟩
            exact (congrArg limit hafter).trans heq
          · have hsame := limit_after_eq hlimit ho fun state r ha => hset ⟨state, r, ha⟩
            refine hsame.trans ?_
            rcases snapshot_cases ho h with hold | ⟨_, _, _, _, _, rfl⟩
            · rw [ho.legal.before_eq]
              exact hI.current e.pid a hholder hold
            · rfl
        · -- Another process does not change what the holder has read.
          rw [seen_of_ne entry _ hpid] at h
          have hsame : limit (rateRow e.after) = limit (rateRow e.before) := by
            by_contra hne
            have hmine := (hown hne).1
            rw [hholder] at hmine
            exact hpid (Option.some.inj hmine).symm
          refine hsame.trans ?_
          rw [ho.legal.before_eq]
          exact hI.current p a hholder h

theorem snapshots_nil : Snapshots entry limit ([] : History (storeSystem Client Out program)) where
  named := by
    intro name state h
    cases h
  snapshot_name := by
    intro p a h
    cases h
  previous_name := by
    intro p a endedAt previous h
    cases h
  current := by
    intro p a h
    cases h

end Snapshots

end Upstream
end Huldra
