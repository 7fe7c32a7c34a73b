import Huldra.Upstream.Phase
import Huldra.Harvest

/-!
# Conduct — the limiter, the workers and the harvests keep to the phases

For every program that uses the upstream, that each operation on each of its paths is one
`Allowed` lets it ask for, whatever it is answered.
-/

namespace Huldra
namespace Upstream

open Process (Prog)

variable {d : Deployment} {mayUse : Nat → OwnerToken → Prop} {β : Type}

/-! ## Calm: no request under way -/

/-- The process `pid`, with no request under way. -/
structure Calm (pid : Nat) (x : View) : Prop where
  pid_eq : x.pid = pid
  notFetching : x.phase.isFetching = false

/-- The operations that are allowed wherever no request is under way, and start none. -/
def CalmOp (mayUse : Nat → OwnerToken → Prop) (pid : Nat) (o : Op) : Prop :=
  (∀ owner, upstreamOwner? o = some owner → mayUse pid owner) ∧
    match o with
    | .rate (.getRateState _) | .rate (.setRateState _)
    | .rate (.recordEvent (.upstreamRequestStarted ..))
    | .upstream (.fetchBegin _) | .upstream (.listRecordsBegin _) => False
    | _ => True

theorem isFetching_afterRenewal (p : Phase) (t : Option Int) :
    (p.afterRenewal t).isFetching = false := by
  cases p <;> cases t <;> rfl

theorem calm_phaseAfter {x : View} {o : Op} (r : Except Exn o.Res) (t : Int)
    (hcalm : x.phase.isFetching = false) (ho : CalmOp mayUse x.pid o) :
    (phaseAfter x o r t).isFetching = false := by
  unfold phaseAfter
  split
  case h_1 granted => cases granted <;> rfl
  case h_2 => rfl
  case h_3 => rfl
  case h_4 => exact ho.2.elim
  case h_5 => exact ho.2.elim
  case h_6 => exact ho.2.elim
  case h_7 => exact ho.2.elim
  case h_8 => exact ho.2.elim
  case h_9 => cases hp : x.phase <;> simp_all [Phase.afterEnd, Phase.isFetching]
  case h_10 => cases hp : x.phase <;> simp_all [Phase.afterEnd, Phase.isFetching]
  case h_11 =>
    split
    · exact isFetching_afterRenewal _ _
    · exact hcalm

/-- Calm operations are allowed and keep the calm. -/
theorem calm_step {pid : Nat} {o : Op} (ho : CalmOp mayUse pid o) {x : View} (hx : Calm pid x) :
    (conduct d mayUse).allow x o ∧
      ∀ r x', (conduct d mayUse).next x o r x' → Calm pid x' := by
  have hpid := hx.pid_eq
  subst hpid
  refine ⟨⟨?_, ho.1, ?_⟩, ?_⟩
  · intro hfetching
    rw [hx.notFetching] at hfetching
    cases hfetching
  · have hshape := ho.2
    split <;> first | exact trivial | exact hshape.elim
  · rintro r x' ⟨t, s, s', _, _, rfl⟩
    exact ⟨rfl, calm_phaseAfter r t hx.notFetching ho⟩

/-- A program of calm operations leaves the calm as it found it. -/
theorem wp_calm {pid : Nat} {p : Prog huldra β} (hp : p.AllOps (CalmOp mayUse pid)) {x : View}
    (hx : Calm pid x) :
    p.wp (conduct d mayUse) (fun x _ => Calm pid x) (fun x _ => Calm pid x) x :=
  hp.wp (fun _ ho _ hx => calm_step ho hx) x hx

/-! ## The operations of the limiter, one rule each -/

section Rules

variable {x : View} {R : View → Exn → Prop}

theorem not_fetching_elim {o : Op} (hcalm : x.phase.isFetching = false) :
    x.phase.isFetching = true → o = .upstream .fetchEnd ∨ o = .upstream .listRecordsEnd := by
  intro h
  rw [hcalm] at h
  cases h

theorem wp_utcNow {Q : View → Int → Prop} (hcalm : x.phase.isFetching = false)
    (hret : ∀ t, x.clock ≤ t → Q { x with clock := t, now := t } t)
    (hraise : ∀ e t, x.clock ≤ t → R { x with clock := t } e) :
    utcNow.wp (conduct d mayUse) Q R x := by
  refine (Prog.wp_call _ _ _ _).2 ⟨⟨not_fetching_elim hcalm, ?_, trivial⟩, ?_, ?_⟩
  · intro owner howner
    cases howner
  · rintro r x' ⟨t, s, s', hclock, hperf, rfl⟩
    rcases hperf.of_ok with ⟨input, _, hexec⟩
    have hr : t = r := by
      have h := congrArg Prod.fst hexec
      exact Except.ok.inj h
    subst hr
    exact hret t hclock
  · rintro e x' ⟨t, s, s', hclock, _, rfl⟩
    exact hraise e t hclock

theorem wp_acquireLease {Q : View → Bool → Prop} {owner : OwnerToken} {timeout : Int}
    (hcalm : x.phase.isFetching = false) (howner : mayUse x.pid owner)
    (hgranted : ∀ t, x.clock ≤ t → Q { x with clock := t, phase := .acquired t } true)
    (hrefused : ∀ t, x.clock ≤ t → Q { x with clock := t, phase := .idle } false)
    (hraise : ∀ e t, x.clock ≤ t → R { x with clock := t, phase := .idle } e) :
    (acquireLease Limiter.leaseName owner timeout).wp (conduct d mayUse) Q R x := by
  refine (Prog.wp_call _ _ _ _).2 ⟨⟨not_fetching_elim hcalm, ?_, trivial⟩, ?_, ?_⟩
  · intro o ho
    cases ho
    exact howner
  · rintro granted x' ⟨t, s, s', hclock, _, rfl⟩
    cases granted with
    | true => exact hgranted t hclock
    | false => exact hrefused t hclock
  · rintro e x' ⟨t, s, s', hclock, _, rfl⟩
    exact hraise e t hclock

theorem wp_releaseLease {Q : View → Unit → Prop} {owner : OwnerToken}
    (hcalm : x.phase.isFetching = false) (howner : mayUse x.pid owner)
    (hret : ∀ t, x.clock ≤ t → Q { x with clock := t, phase := .idle } ())
    (hraise : ∀ e t, x.clock ≤ t → R { x with clock := t, phase := .idle } e) :
    (releaseLease Limiter.leaseName owner).wp (conduct d mayUse) Q R x := by
  refine (Prog.wp_call _ _ _ _).2 ⟨⟨not_fetching_elim hcalm, ?_, trivial⟩, ?_, ?_⟩
  · intro o ho
    cases ho
    exact howner
  · rintro r x' ⟨t, s, s', hclock, _, rfl⟩
    exact hret t hclock
  · rintro e x' ⟨t, s, s', hclock, _, rfl⟩
    exact hraise e t hclock

theorem wp_renewLooked {Q : View → Bool → Prop} {owner : OwnerToken} {timeout : Int}
    {a : Admission} (hphase : x.phase = .looked a) (howner : mayUse x.pid owner)
    (hgranted : ∀ t, x.clock ≤ t → Q { x with clock := t, phase := .renewed a } true)
    (hrefused : ∀ t, x.clock ≤ t → Q { x with clock := t, phase := .idle } false)
    (hraise : ∀ e t, x.clock ≤ t → R { x with clock := t, phase := .idle } e) :
    (renewLeaseIfOwned Limiter.leaseName owner timeout).wp (conduct d mayUse) Q R x := by
  have hcalm : x.phase.isFetching = false := by
    simp [hphase, Phase.isFetching]
  refine (Prog.wp_call _ _ _ _).2 ⟨⟨not_fetching_elim hcalm, ?_, trivial⟩, ?_, ?_⟩
  · intro o ho
    have ho' : owner = o := by
      simpa [upstreamOwner?, renewal?, Limiter.leaseName] using ho
    exact ho' ▸ howner
  · rintro granted x' ⟨t, s, s', hclock, _, rfl⟩
    cases granted with
    | true =>
        have hstep : phaseAfter x (.lease (.renewLeasesIfOwned
            [⟨Limiter.leaseName, owner, timeout⟩])) (.ok true) t = .renewed a := by
          simp [phaseAfter, renewal?, fencedUntil, renewalGranted, Limiter.leaseName, hphase,
            Phase.afterRenewal]
        have hq := hgranted t hclock
        rw [← hstep] at hq
        exact hq
    | false =>
        have hstep : phaseAfter x (.lease (.renewLeasesIfOwned
            [⟨Limiter.leaseName, owner, timeout⟩])) (.ok false) t = .idle := by
          simp [phaseAfter, renewal?, fencedUntil, renewalGranted, Limiter.leaseName, hphase,
            Phase.afterRenewal]
        have hq := hrefused t hclock
        rw [← hstep] at hq
        exact hq
  · rintro e x' ⟨t, s, s', hclock, _, rfl⟩
    have hstep : phaseAfter x (.lease (.renewLeasesIfOwned
        [⟨Limiter.leaseName, owner, timeout⟩])) (.error e) t = .idle := by
      simp [phaseAfter, renewal?, fencedUntil, renewalGranted, Limiter.leaseName, hphase,
        Phase.afterRenewal]
    have hr := hraise e t hclock
    rw [← hstep] at hr
    exact hr

theorem wp_getRateState {Q : View → RateState → Prop} (hcalm : x.phase.isFetching = false)
    (hsince : ∀ since, x.phase = .acquired since → since ≤ x.now)
    (hnow : ∀ a endedAt, x.phase = .fetched a endedAt → endedAt ≤ x.now)
    (hret : ∀ state t, x.clock ≤ t →
      Q { x with clock := t, phase := x.phase.afterRead x.now t (.ok state) } state)
    (hraise : ∀ e t, x.clock ≤ t → R { x with clock := t, phase := .idle } e) :
    (getRateState Limiter.name).wp (conduct d mayUse) Q R x := by
  refine (Prog.wp_call _ _ _ _).2 ⟨⟨not_fetching_elim hcalm, ?_, rfl, hsince, hnow⟩, ?_, ?_⟩
  · intro owner howner
    cases howner
  · rintro state x' ⟨t, s, s', hclock, _, rfl⟩
    exact hret state t hclock
  · rintro e x' ⟨t, s, s', hclock, _, rfl⟩
    have hstep : x.phase.afterRead x.now t (.error e) = .idle := by
      cases x.phase <;> rfl
    have hr := hraise e t hclock
    rw [← hstep] at hr
    exact hr

theorem wp_setStarted {Q : View → Unit → Prop} {a : Admission} {state : RateState}
    (hphase : x.phase = .renewed a) (hkeeps : KeepsLimits a.state state)
    (hactive : Limiter.activeCooldown a.state a.current = none)
    (hret : ∀ t, x.clock ≤ t → Q { x with clock := t, phase := .written a } ())
    (hraise : ∀ e t, x.clock ≤ t → R { x with clock := t, phase := .idle } e) :
    (setRateState state).wp (conduct d mayUse) Q R x := by
  have hcalm : x.phase.isFetching = false := by
    simp [hphase, Phase.isFetching]
  refine (Prog.wp_call _ _ _ _).2
    ⟨⟨not_fetching_elim hcalm, ?_, Or.inl ⟨a, hphase, hkeeps, hactive⟩⟩, ?_, ?_⟩
  · intro owner howner
    cases howner
  · rintro r x' ⟨t, s, s', hclock, _, rfl⟩
    have hstep : x.phase.afterWrite (.ok ()) = .written a := by
      simp [hphase, Phase.afterWrite]
    have hq := hret t hclock
    rw [← hstep] at hq
    exact hq
  · rintro e x' ⟨t, s, s', hclock, _, rfl⟩
    have hstep : x.phase.afterWrite (.error e) = .idle := by
      simp [hphase, Phase.afterWrite]
    have hr := hraise e t hclock
    rw [← hstep] at hr
    exact hr

theorem wp_announce {Q : View → Unit → Prop} {a : Admission} {family : String}
    {startedAt waitSeconds : Int} (hphase : x.phase = .written a)
    (hcurrent : startedAt - waitSeconds = a.current)
    (hret : ∀ t, x.clock ≤ t → Q { x with clock := t, phase := .admitted a } ())
    (hraise : ∀ e t, x.clock ≤ t → R { x with clock := t, phase := .idle } e) :
    (recordEvent (.upstreamRequestStarted family startedAt waitSeconds)).wp (conduct d mayUse)
      Q R x := by
  have hcalm : x.phase.isFetching = false := by
    simp [hphase, Phase.isFetching]
  refine (Prog.wp_call _ _ _ _).2
    ⟨⟨not_fetching_elim hcalm, ?_, ⟨a, hphase, hcurrent⟩⟩, ?_, ?_⟩
  · intro owner howner
    cases howner
  · rintro r x' ⟨t, s, s', hclock, _, rfl⟩
    have hstep : x.phase.afterAnnounce (.ok ()) = .admitted a := by
      simp [hphase, Phase.afterAnnounce]
    have hq := hret t hclock
    rw [← hstep] at hq
    exact hq
  · rintro e x' ⟨t, s, s', hclock, _, rfl⟩
    have hstep : x.phase.afterAnnounce (.error e) = .idle := by
      simp [hphase, Phase.afterAnnounce]
    have hr := hraise e t hclock
    rw [← hstep] at hr
    exact hr

theorem wp_setReport {Q : View → Unit → Prop} {a : Option Admission} {endedAt : Int}
    {previous state : RateState} (hphase : x.phase = .reporting a endedAt previous)
    (hreports : Reports endedAt x.now previous state)
    (hret : ∀ t, x.clock ≤ t → Q { x with clock := t, phase := .idle } ())
    (hraise : ∀ e t, x.clock ≤ t → R { x with clock := t, phase := .idle } e) :
    (setRateState state).wp (conduct d mayUse) Q R x := by
  have hcalm : x.phase.isFetching = false := by
    simp [hphase, Phase.isFetching]
  have hstep : ∀ r, x.phase.afterWrite r = .idle := by
    intro r
    cases r <;> simp [hphase, Phase.afterWrite]
  refine (Prog.wp_call _ _ _ _).2
    ⟨⟨not_fetching_elim hcalm, ?_, Or.inr ⟨a, endedAt, previous, hphase, hreports⟩⟩, ?_, ?_⟩
  · intro owner howner
    cases howner
  · rintro r x' ⟨t, s, s', hclock, _, rfl⟩
    have hq := hret t hclock
    rw [← hstep (.ok ())] at hq
    exact hq
  · rintro e x' ⟨t, s, s', hclock, _, rfl⟩
    have hr := hraise e t hclock
    rw [← hstep (.error e)] at hr
    exact hr

end Rules

/-! ## The limiter -/

/-- Where `before_request` leaves its caller: admitted, or with nothing under way. -/
def Decided (d : Deployment) (pid : Nat) (x : View) (decision : RateLimitDecision) : Prop :=
  if decision.canFetch then
    x.pid = pid ∧ ∃ a, x.phase = .admitted a ∧ a.due d = a.current + decision.waitSeconds ∧
      a.current ≤ x.clock ∧ a.readAt ≤ x.clock
  else Calm pid x

theorem calm_of_phase {pid : Nat} {x : View} {p : Phase} (hpid : x.pid = pid)
    (hphase : x.phase = p) (hp : p.isFetching = false) : Calm pid x :=
  ⟨hpid, by rw [hphase]; exact hp⟩

/-- The admission is written and announced, or the lease given back. -/
theorem wp_writeAdmission {owner : OwnerToken} {a : Admission} {x : View}
    (howner : mayUse x.pid owner) (hphase : x.phase = .renewed a)
    (hactive : Limiter.activeCooldown a.state a.current = none) (waitSeconds : Int) :
    (tryExceptException
      (do
        setRateState (Limiter.startedState a.state owner (a.current + waitSeconds) waitSeconds)
        recordEvent (.upstreamRequestStarted (Limiter.apiFamily owner) (a.current + waitSeconds)
          waitSeconds))
      (fun e => do
        releaseLease Limiter.leaseName owner
        .raise e)).wp (conduct d mayUse)
      (fun x' _ => x'.pid = x.pid ∧ x'.phase = .admitted a ∧ x.clock ≤ x'.clock)
      (fun x' _ => Calm x.pid x') x := by
  have hrelease : ∀ (x' : View) (e : Exn), x'.pid = x.pid → x'.phase = .idle →
      (if e = Exn.interrupt then (.raise e : Program Unit)
        else do
          releaseLease Limiter.leaseName owner
          .raise e).wp (conduct d mayUse)
        (fun x'' _ => x''.pid = x.pid ∧ x''.phase = .admitted a ∧ x.clock ≤ x''.clock)
        (fun x'' _ => Calm x.pid x'') x' := by
    intro x' e hpid' hphase'
    split
    · exact calm_of_phase hpid' hphase' rfl
    · refine (Prog.wp_bind _ _ _ _ _).2 (wp_releaseLease (by rw [hphase']; rfl)
        (hpid' ▸ howner) ?_ ?_)
      · intro t _
        exact ⟨hpid', rfl⟩
      · intro e' t _
        exact ⟨hpid', rfl⟩
  refine (Prog.wp_tryExcept _ _ _ _ _).2 ((Prog.wp_bind _ _ _ _ _).2
    (wp_setStarted hphase ⟨rfl, rfl, rfl⟩ hactive ?_ ?_))
  · intro t ht
    refine wp_announce rfl (by omega) ?_ ?_
    · intro t' ht'
      exact ⟨rfl, rfl, Int.le_trans ht ht'⟩
    · intro e t' _
      exact hrelease _ e rfl rfl
  · intro e t _
    exact hrelease _ e rfl rfl

theorem wp_beforeRequest {pid : Nat} {owner : OwnerToken} {x : View} (hx : Calm pid x)
    (howner : mayUse pid owner) :
    (Limiter.beforeRequest d owner).wp (conduct d mayUse) (Decided d pid)
      (fun x _ => Calm pid x) x := by
  have hpid := hx.pid_eq
  subst hpid
  unfold Limiter.beforeRequest
  refine (Prog.wp_bind _ _ _ _ _).2 (wp_acquireLease hx.notFetching howner ?_ ?_ ?_)
  · intro t₀ _
    refine (Prog.wp_bind _ _ _ _ _).2 (wp_utcNow rfl ?_ ?_)
    · intro current hcurrent
      refine (Prog.wp_bind _ _ _ _ _).2 (wp_getRateState rfl ?_ ?_ ?_ ?_)
      · intro since h
        cases h
        exact hcurrent
      · intro a endedAt h
        cases h
      · intro state readAt hreadAt
        -- From here on the process goes by this snapshot.
        have hread : current ≤ readAt := hreadAt
        cases hactive : Limiter.activeCooldown state current with
        | some cooldown =>
            refine (Prog.wp_bind _ _ _ _ _).2 (wp_releaseLease rfl howner ?_ ?_)
            · intro t _
              exact ⟨rfl, rfl⟩
            · intro e t _
              exact ⟨rfl, rfl⟩
        | none =>
            refine (Prog.wp_bind _ _ _ _ _).2 (wp_renewLooked rfl howner ?_ ?_ ?_)
            · intro t ht
              have hrenewed : readAt ≤ t := ht
              refine (Prog.wp_bind _ _ _ _ _).2 (Prog.wp_mono ?_ (fun _ _ h => h) _ _
                (wp_writeAdmission (a := ⟨current, state, readAt⟩) (by exact howner) rfl hactive _))
              rintro x' _ ⟨hpid', hphase', hclock'⟩
              have hlate : t ≤ x'.clock := hclock'
              exact ⟨hpid', _, hphase', rfl, by simp only; omega, by simp only; omega⟩
            · intro t _
              exact ⟨rfl, rfl⟩
            · intro e t _
              exact ⟨rfl, rfl⟩
      · intro e t _
        exact ⟨rfl, rfl⟩
    · intro e t _
      exact ⟨rfl, rfl⟩
  · intro t _
    exact ⟨rfl, rfl⟩
  · intro e t _
    exact ⟨rfl, rfl⟩

/-- The request is over, and what is due is its report. -/
structure Due (pid : Nat) (x : View) : Prop where
  pid_eq : x.pid = pid
  phase : ∃ a endedAt, x.phase = .fetched a endedAt ∧ endedAt ≤ x.clock

theorem Due.calm {pid : Nat} {x : View} (h : Due pid x) : Calm pid x := by
  rcases h.phase with ⟨a, endedAt, hphase, _⟩
  exact calm_of_phase h.pid_eq hphase rfl

/-- The end of every report: the event, and the lease given back. -/
theorem wp_closeReport {owner : OwnerToken} {x : View} (hcalm : x.phase.isFetching = false)
    (howner : mayUse x.pid owner) (family outcome : String) (status : Option Int) :
    ((recordEvent (.upstreamRequestFinished family outcome status)).tryFinally
      (releaseLease Limiter.leaseName owner)).wp (conduct d mayUse) (fun x' _ => Calm x.pid x')
      (fun x' _ => Calm x.pid x') x := by
  refine wp_calm (Prog.AllOps.tryFinally (Prog.AllOps.call ⟨?_, trivial⟩)
    (Prog.AllOps.call ⟨?_, trivial⟩)) ⟨rfl, hcalm⟩
  · intro o ho
    cases ho
  · intro o ho
    cases ho
    exact howner

/-- Every report reads the clock and the rate state, then goes on from there. -/
theorem wp_report {pid : Nat} {x : View} (hx : Due pid x) (rest : Int → RateState → Program β)
    (hrest : ∀ (current : Int) (previous : RateState) (x' : View), x'.pid = pid →
      (∃ a endedAt, x'.phase = .reporting a endedAt previous ∧ endedAt ≤ current) →
      x'.now = current →
      (rest current previous).wp (conduct d mayUse) (fun x _ => Calm pid x)
        (fun x _ => Calm pid x) x') :
    (do
      let current ← utcNow
      let previous ← getRateState Limiter.name
      rest current previous).wp (conduct d mayUse) (fun x _ => Calm pid x)
      (fun x _ => Calm pid x) x := by
  rcases hx.phase with ⟨a, endedAt, hphase, hended⟩
  refine (Prog.wp_bind _ _ _ _ _).2 (wp_utcNow hx.calm.notFetching ?_ ?_)
  · intro current hcurrent
    refine (Prog.wp_bind _ _ _ _ _).2 (wp_getRateState hx.calm.notFetching ?_ ?_ ?_ ?_)
    · intro since h
      have hother : Phase.fetched a endedAt = .acquired since := by
        rw [← hphase]
        exact h
      cases hother
    · intro a' endedAt' h
      have heq : Phase.fetched a endedAt = .fetched a' endedAt' := by
        rw [← hphase]
        exact h
      cases heq
      simp only
      omega
    · intro previous t _
      refine hrest current previous _ hx.pid_eq ⟨a, endedAt, ?_, by omega⟩ rfl
      simp [hphase, Phase.afterRead]
    · intro e t _
      exact ⟨hx.pid_eq, rfl⟩
  · intro e t _
    exact ⟨hx.pid_eq, by simp [hphase, Phase.isFetching]⟩

theorem wp_afterSuccess {pid : Nat} {owner : OwnerToken} {x : View} (hx : Due pid x)
    (howner : mayUse pid owner) (status : Int) :
    (Limiter.afterSuccess owner status).wp (conduct d mayUse) (fun x _ => Calm pid x)
      (fun x _ => Calm pid x) x := by
  refine wp_report hx _ ?_
  rintro current previous x' hpid ⟨a, endedAt, hphase, hended⟩ hnow
  subst hpid
  refine (Prog.wp_bind _ _ _ _ _).2 (wp_setReport hphase ⟨rfl, by rw [hnow]; rfl, by omega⟩ ?_ ?_)
  · intro t _
    exact wp_closeReport rfl (by exact howner) _ _ _
  · intro e t _
    exact ⟨rfl, rfl⟩

theorem wp_afterFailure {pid : Nat} {owner : OwnerToken} {x : View} (hx : Due pid x)
    (howner : mayUse pid owner) (status : Option Int) (message : String) :
    (Limiter.afterFailure owner status message).wp (conduct d mayUse) (fun x _ => Calm pid x)
      (fun x _ => Calm pid x) x := by
  refine wp_report hx _ ?_
  rintro current previous x' hpid ⟨a, endedAt, hphase, hended⟩ hnow
  subst hpid
  refine (Prog.wp_bind _ _ _ _ _).2 (wp_setReport hphase ⟨rfl, by rw [hnow]; rfl, by omega⟩ ?_ ?_)
  · intro t _
    exact wp_closeReport rfl (by exact howner) _ _ _
  · intro e t _
    exact ⟨rfl, rfl⟩

/-- The random part of a cooldown leaves the report where it is. -/
theorem wp_effectiveCooldown {Q : View → Rat → Prop} {R : View → Exn → Prop} {x : View}
    (hcalm : x.phase.isFetching = false) (settings : HuldraSettings) (retryAfter : Option Int)
    (total : Nat) (hret : ∀ q t, Q { x with clock := t } q)
    (hraise : ∀ e t, R { x with clock := t } e) :
    (Limiter.effectiveCooldown settings retryAfter total).wp (conduct d mayUse) Q R x := by
  unfold Limiter.effectiveCooldown
  simp only
  split
  · refine (Prog.wp_call_handle _ _ _ _ _ _).2 ⟨⟨not_fetching_elim hcalm, ?_, trivial⟩, ?_, ?_⟩
    · intro owner howner
      cases howner
    · rintro r x' ⟨t, s, s', _, _, rfl⟩
      exact hret _ t
    · rintro e x' ⟨t, s, s', _, _, rfl⟩
      exact hraise e t
  · exact hret _ x.clock

theorem wp_afterRateLimit {pid : Nat} {owner : OwnerToken} {x : View} (hx : Due pid x)
    (howner : mayUse pid owner) (retryAfter : Option Int) (status : Int)
    (message : Option String) :
    (Limiter.afterRateLimit d owner retryAfter status message).wp (conduct d mayUse)
      (fun x _ => Calm pid x) (fun x _ => Calm pid x) x := by
  refine wp_report hx _ ?_
  rintro current previous x' hpid ⟨a, endedAt, hphase, hended⟩ hnow
  subst hpid
  have hcalm : x'.phase.isFetching = false := by
    simp [hphase, Phase.isFetching]
  refine (Prog.wp_bind _ _ _ _ _).2 (wp_effectiveCooldown hcalm _ _ _ ?_ ?_)
  · intro effective t₀
    dsimp only
    split
    · exact ⟨rfl, hcalm⟩
    refine (Prog.wp_bind _ _ _ _ _).2
      (wp_setReport hphase ⟨rfl, by rw [hnow]; rfl, by simp only; omega⟩ ?_ ?_)
    · intro t _
      exact (Prog.wp_bind _ _ _ _ _).2 (wp_closeReport rfl (by exact howner) _ _ _)
    · intro e t _
      exact ⟨rfl, rfl⟩
  · intro e t
    exact ⟨rfl, hcalm⟩

end Upstream
end Huldra
