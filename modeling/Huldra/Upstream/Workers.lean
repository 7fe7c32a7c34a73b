import Huldra.Upstream.Conduct
import Huldra.Worker.Routine

/-!
# Workers — a worker pass keeps to the phases

The pass is followed from its claim to its report.  Up to the admission and after the report it
is calm; in between the gate turns an admission into a fence, and only a fenced pass fetches.
-/

namespace Huldra
namespace Upstream

open Process (Prog)

variable {d : Deployment} {mayUse : Nat → OwnerToken → Prop} {β : Type}

/-! ## Operations beside the line of phases -/

/-- Neither the upstream lease nor the rate state nor a request is concerned. -/
def Quiet : Op → Prop
  | .clock _ | .queue _ | .library _ | .oai _ | .initSchema | .checkpointOaiPage _
  | .enqueueRefreshIfDue .. | .rate (.recordEvent (.upstreamRequestFinished ..))
  | .rate (.recordEvent (.cacheIntegrityFailure ..)) => True
  | .lease (.acquireLease name _ _) | .lease (.releaseLease name _) => name ≠ .upstreamFetch
  | .lease (.renewLeasesIfOwned renewals) => ∀ r ∈ renewals, r.name ≠ .upstreamFetch
  | .renewWorkerFetchOwnership _ _ name _ _ => name ≠ .upstreamFetch
  | .rate _ | .upstream _ => False

theorem Quiet.renewal? {o : Op} (ho : Quiet o) : renewal? o = none := by
  unfold Upstream.renewal?
  split
  case h_1 renewals =>
    have hnames : ∀ r ∈ renewals, r.name ≠ .upstreamFetch := ho
    have hnone : (renewals.find? fun r => r.name = .upstreamFetch) = none := by
      simpa [List.find?_eq_none] using hnames
    simp [hnone]
  case h_2 => simpa [Quiet] using ho
  case h_3 => rfl

theorem Quiet.upstreamOwner? {o : Op} (ho : Quiet o) : upstreamOwner? o = none := by
  unfold Upstream.upstreamOwner?
  split
  case h_1 => exact (ho rfl).elim
  case h_2 => exact (ho rfl).elim
  case h_3 => simp [ho.renewal?]

theorem Quiet.phaseAfter {o : Op} (ho : Quiet o) (x : View) (r : Except Exn o.Res) (t : Int) :
    phaseAfter x o r t = x.phase := by
  have hrenewal := ho.renewal?
  unfold Upstream.phaseAfter
  split
  case h_1 => exact (ho rfl).elim
  case h_2 => exact (ho rfl).elim
  case h_3 => exact (ho rfl).elim
  case h_11 => simp [hrenewal]
  all_goals exact ho.elim

/-- Nothing but time has passed. -/
structure Same (x x' : View) : Prop where
  pid_eq : x'.pid = x.pid
  phase_eq : x'.phase = x.phase
  clock_le : x.clock ≤ x'.clock

theorem Same.refl (x : View) : Same x x :=
  ⟨rfl, rfl, Int.le_refl _⟩

theorem Same.trans {x y z : View} (h : Same x y) (h' : Same y z) : Same x z :=
  ⟨h'.pid_eq.trans h.pid_eq, h'.phase_eq.trans h.phase_eq, Int.le_trans h.clock_le h'.clock_le⟩

theorem Same.calm {pid : Nat} {x x' : View} (h : Same x x') (hx : Calm pid x) : Calm pid x' :=
  ⟨h.pid_eq.trans hx.pid_eq, by rw [h.phase_eq]; exact hx.notFetching⟩

theorem wp_quiet {p : Program β} (hp : p.AllOps Quiet) {x : View}
    (hcalm : x.phase.isFetching = false) :
    p.wp (conduct d mayUse) (fun x' _ => Same x x') (fun x' _ => Same x x') x := by
  refine hp.wp ?_ x (Same.refl x)
  intro o ho x' hx'
  have hcalm' : x'.phase.isFetching = false := by
    rw [hx'.phase_eq]
    exact hcalm
  refine ⟨⟨not_fetching_elim hcalm', ?_, ?_⟩, ?_⟩
  · intro owner howner
    rw [ho.upstreamOwner?] at howner
    cases howner
  · split <;> first | exact trivial | exact ho.elim
  · rintro r x'' ⟨t, s, s', hclock, _, rfl⟩
    exact hx'.trans ⟨rfl, ho.phaseAfter x' r t, hclock⟩

/-- A quiet program where nothing is under way. -/
theorem wp_quiet_calm {pid : Nat} {p : Program β} (hp : p.AllOps Quiet) {x : View}
    (hx : Calm pid x) :
    p.wp (conduct d mayUse) (fun x' _ => Calm pid x') (fun x' _ => Calm pid x') x :=
  Prog.wp_mono (fun _ _ h => h.calm hx) (fun _ _ h => h.calm hx) _ _ (wp_quiet hp hx.notFetching)

theorem quiet_claimNextQueueItem (owner : OwnerToken) (timeout : Int)
    (targets : Option (List CacheKey)) :
    (claimNextQueueItem owner timeout targets).AllOps Quiet := by
  unfold claimNextQueueItem
  split
  · exact .ret none
  · exact .call trivial

/-- A sleep ends no earlier than it was started for. -/
theorem wp_timeSleep {Q : View → Unit → Prop} {R : View → Exn → Prop} {x : View} {duration : Int}
    (hcalm : x.phase.isFetching = false)
    (hret : ∀ x', Same x x' → x.clock + duration ≤ x'.clock → Q x' ())
    (hraise : ∀ e x', Same x x' → R x' e) :
    (timeSleep duration).wp (conduct d mayUse) Q R x := by
  have hnone : ∀ (o : ClockOp) (x' : View), Same x x' →
      (conduct d mayUse).allow x' (.clock o) := by
    intro o x' hsame
    refine ⟨not_fetching_elim (by rw [hsame.phase_eq]; exact hcalm), ?_, trivial⟩
    intro owner howner
    cases howner
  refine (Prog.wp_call_handle _ _ _ _ _ _).2 ⟨hnone _ x (Same.refl x), ?_, ?_⟩
  · rintro wakeAt x' ⟨t, s, s', hclock, hperf, rfl⟩
    rcases hperf.of_ok with ⟨_, _, hexec⟩
    have hwake : t + duration = wakeAt := by
      have h := congrArg Prod.fst hexec
      exact Except.ok.inj h
    refine (Prog.wp_call _ _ _ _).2 ⟨hnone _ _ ⟨rfl, rfl, hclock⟩, ?_, ?_⟩
    · rintro r x'' ⟨t', s₁, s₁', hclock', hperf', rfl⟩
      rcases hperf'.of_ok with ⟨_, hready, _⟩
      have hready' : wakeAt ≤ t' := by
        simpa [Store.ready] using hready
      have hclock'' : t ≤ t' := hclock'
      have hlate : x.clock + duration ≤ t' := by
        calc x.clock + duration ≤ t + duration := Int.add_le_add_right hclock duration
          _ = wakeAt := hwake
          _ ≤ t' := hready'
      exact hret _ ⟨rfl, rfl, Int.le_trans hclock hclock''⟩ hlate
    · rintro e x'' ⟨t', s₁, s₁', hclock', _, rfl⟩
      exact hraise e _ ⟨rfl, rfl, Int.le_trans hclock hclock'⟩
  · rintro e x' ⟨t, s, s', hclock, _, rfl⟩
    exact hraise e _ ⟨rfl, rfl, hclock⟩

theorem quiet_of_leaseFree {owner : OwnerToken} {requestId : Uuid} {o : Op}
    (ho : Worker.LeaseFree owner requestId o) : Quiet o := by
  unfold Worker.LeaseFree at ho
  split at ho <;> first | exact trivial | exact ho.elim

theorem calmOp_of_routine {pid : Nat} {owner : OwnerToken} {requestId : Uuid} {o : Op}
    (howner : mayUse pid owner) (ho : Worker.Routine owner requestId o) :
    CalmOp mayUse pid o := by
  rcases ho with ho | rfl | ⟨ttl, ids, rfl⟩
  · have hquiet := quiet_of_leaseFree ho
    refine ⟨?_, ?_⟩
    · intro o' ho'
      rw [hquiet.upstreamOwner?] at ho'
      cases ho'
    · split <;> first | exact trivial | exact hquiet.elim
  · refine ⟨?_, trivial⟩
    intro o' ho'
    cases ho'
    exact howner
  · refine ⟨?_, trivial⟩
    intro o' ho'
    cases ho'
    exact howner

section Worker

variable {w : WorkerConfig} {item : QueueItem} {pid : Nat} {a : Admission} {x : View}

theorem wp_routinely {p : Program β} (hp : Worker.Routinely w item p) (hx : Calm pid x)
    (howner : mayUse pid w.ownerToken) :
    p.wp (conduct d mayUse) (fun x _ => Calm pid x) (fun x _ => Calm pid x) x :=
  wp_calm (hp.mono fun _ ho => calmOp_of_routine howner ho) hx

theorem wp_aside {p : Program β} (hp : Worker.Aside w item p)
    (hcalm : x.phase.isFetching = false) :
    p.wp (conduct d mayUse) (fun x' _ => Same x x') (fun x' _ => Same x x') x :=
  wp_quiet (hp.mono fun _ ho => quiet_of_leaseFree ho) hcalm

/-! ## The gate -/

/-- Admitted, perhaps fenced, and late enough for the request. -/
structure Through (d : Deployment) (pid : Nat) (a : Admission) (x : View) : Prop where
  pid_eq : x.pid = pid
  phase : x.phase = .admitted a ∨ ∃ expiresAt, x.phase = .fenced a expiresAt
  due_le : a.due d ≤ x.clock
  readAt_le : a.readAt ≤ x.clock

structure Fenced (d : Deployment) (pid : Nat) (a : Admission) (x : View) : Prop where
  pid_eq : x.pid = pid
  phase : ∃ expiresAt, x.phase = .fenced a expiresAt
  due_le : a.due d ≤ x.clock
  readAt_le : a.readAt ≤ x.clock

theorem Fenced.through (h : Fenced d pid a x) : Through d pid a x :=
  ⟨h.pid_eq, Or.inr h.phase, h.due_le, h.readAt_le⟩

theorem Through.calm (h : Through d pid a x) : Calm pid x := by
  rcases h.phase with hphase | ⟨t, hphase⟩
  · exact calm_of_phase h.pid_eq hphase rfl
  · exact calm_of_phase h.pid_eq hphase rfl

theorem Through.same {x' : View} (h : Through d pid a x) (hsame : Same x x') :
    Through d pid a x' :=
  ⟨hsame.pid_eq.trans h.pid_eq, by rw [hsame.phase_eq]; exact h.phase,
    Int.le_trans h.due_le hsame.clock_le, Int.le_trans h.readAt_le hsame.clock_le⟩

theorem Fenced.same {x' : View} (h : Fenced d pid a x) (hsame : Same x x') :
    Fenced d pid a x' :=
  ⟨hsame.pid_eq.trans h.pid_eq, by rw [hsame.phase_eq]; exact h.phase,
    Int.le_trans h.due_le hsame.clock_le, Int.le_trans h.readAt_le hsame.clock_le⟩

/-- The fence is granted, or the way to the request is over. -/
theorem wp_fence (hx : Through d pid a x) (howner : mayUse pid w.ownerToken)
    (plan : Option IdListFetchPlan) (ttl : Int) :
    (Worker.fence w item plan ttl).wp (conduct d mayUse)
      (fun x' reason => if reason.isNone then Fenced d pid a x' else Calm pid x')
      (fun x' _ => Calm pid x') x := by
  have hpid := hx.pid_eq
  subst hpid
  refine (Prog.wp_call _ _ _ _).2 ⟨⟨not_fetching_elim hx.calm.notFetching, ?_, trivial⟩, ?_, ?_⟩
  · intro o ho
    cases ho
    exact howner
  · rintro reason x' ⟨t, s, s', hclock, _, rfl⟩
    cases reason with
    | none =>
        have hphase : ∃ expiresAt, x.phase.afterRenewal (some (t + seconds ttl)) =
            .fenced a expiresAt := by
          rcases hx.phase with hphase | ⟨e, hphase⟩
          · exact ⟨t + seconds ttl, by simp [hphase, Phase.afterRenewal]⟩
          · exact ⟨t + seconds ttl, by simp [hphase, Phase.afterRenewal]⟩
        exact ⟨rfl, hphase, Int.le_trans hx.due_le hclock, Int.le_trans hx.readAt_le hclock⟩
    | some reason => exact ⟨rfl, isFetching_afterRenewal _ _⟩
  · rintro e x' ⟨t, s, s', _, _, rfl⟩
    exact ⟨rfl, isFetching_afterRenewal _ _⟩

/-- A stage of the gate ends fenced, or with a result and nothing under way. -/
def Gated (d : Deployment) (pid : Nat) (a : Admission) (x : View)
    (gate : Option IdListFetchPlan × Option WorkerPassResult) : Prop :=
  if gate.2.isNone then Fenced d pid a x else Calm pid x

theorem wp_closeGate (hx : Through d pid a x) (howner : mayUse pid w.ownerToken)
    (plan : Option IdListFetchPlan) (ttl : Int) :
    (Worker.closeGate w item plan ttl).wp (conduct d mayUse) (Gated d pid a)
      (fun x _ => Calm pid x) x := by
  refine (Prog.wp_bind _ _ _ _ _).2 (Prog.wp_mono ?_ (fun _ _ h => h) _ _
    (wp_fence hx howner plan ttl))
  intro x' reason hreason
  cases reason with
  | none => exact hreason
  | some reason =>
      have hcalm : Calm pid x' := hreason
      exact (Prog.wp_bind _ _ _ _ _).2
        (wp_routinely (Worker.steadily_fetchOwnershipFailure plan reason).routinely hcalm howner)

/-- A stage that ends the pass at the gate. -/
theorem wp_gateEnding {p : Program (Option IdListFetchPlan × Option WorkerPassResult)}
    (hp : Worker.Routinely w item p) (hreturns : p.Returns fun gate => gate.2.isSome = true)
    (hx : Calm pid x) (howner : mayUse pid w.ownerToken) :
    p.wp (conduct d mayUse) (Gated d pid a) (fun x _ => Calm pid x) x := by
  refine Prog.wp_mono ?_ (fun _ _ h => h) _ _ (hreturns.wp x (wp_routinely hp hx howner))
  rintro x' gate ⟨hcalm, hsome⟩
  cases hgate : gate.2 with
  | none => simp [hgate] at hsome
  | some r => simpa [Gated, hgate] using hcalm

theorem wp_gatePlan (hx : Through d pid a x) (howner : mayUse pid w.ownerToken)
    (plan : IdListFetchPlan) (ttl : Int) :
    (Worker.gatePlan w item plan ttl).wp (conduct d mayUse) (Gated d pid a)
      (fun x _ => Calm pid x) x := by
  refine (Prog.wp_bind _ _ _ _ _).2 (Prog.wp_mono ?_ (fun _ _ h => h.calm hx.calm) _ _
    (wp_aside (Worker.plain_revalidate plan ttl).aside hx.calm.notFetching))
  intro x' plan' hsame
  have hx' := hx.same hsame
  split
  · exact wp_gateEnding (Worker.steadily_gateReserved plan' _ _ _).routinely
      (.bind fun _ => .bind fun _ => .bind fun _ => rfl) hx'.calm howner
  · split
    · exact wp_gateEnding (Worker.steadily_gateRecorded plan' _).routinely
        (.bind fun _ => .bind fun _ => .bind fun _ => .bind fun _ => rfl) hx'.calm howner
    · exact wp_closeGate hx' howner (some plan') ttl

theorem wp_gateFetchOwnership (hx : Through d pid a x) (howner : mayUse pid w.ownerToken)
    (plan : Option IdListFetchPlan) (ttl : Int) :
    (Worker.gateFetchOwnership w item plan ttl).wp (conduct d mayUse) (Gated d pid a)
      (fun x _ => Calm pid x) x := by
  refine (Prog.wp_bind _ _ _ _ _).2 (Prog.wp_mono ?_ (fun _ _ h => h) _ _
    (wp_fence hx howner plan ttl))
  intro x' reason hreason
  cases reason with
  | some reason =>
      have hcalm : Calm pid x' := hreason
      exact (Prog.wp_bind _ _ _ _ _).2
        (wp_routinely (Worker.steadily_fetchOwnershipFailure plan reason).routinely hcalm howner)
  | none =>
      have hfenced : Fenced d pid a x' := hreason
      have hcalm := hfenced.through.calm
      refine (Prog.wp_bind _ _ _ _ _).2 (Prog.wp_mono ?_ (fun _ _ h => h.calm hcalm) _ _
        (wp_aside (w := w) Worker.plain_getReadableCompletedCache.aside hcalm.notFetching))
      intro x'' cached hsame
      have hx'' := hfenced.through.same hsame
      simp only
      split
      · exact wp_gateEnding (Worker.steadily_gateCacheHit plan _).routinely
          (.bind fun _ => .bind fun _ => .bind fun _ => rfl) hx''.calm howner
      · split
        · exact wp_gatePlan hx'' howner _ ttl
        · exact wp_closeGate hx'' howner none ttl

/-! ## The fetch -/

theorem Due.same {x' : View} (h : Due pid x) (hsame : Same x x') : Due pid x' := by
  rcases h.phase with ⟨a, endedAt, hphase, hended⟩
  exact ⟨hsame.pid_eq.trans h.pid_eq, a, endedAt, hsame.phase_eq.trans hphase,
    Int.le_trans hended hsame.clock_le⟩

/-- An upstream call from its beginning to its end, whatever comes of it. -/
theorem wp_fetch {Q : View → FetchResult → Prop} {R : View → Exn → Prop}
    (hx : Fenced d pid a x) (request : ArxivRequest)
    (hret : ∀ x' b, Due pid x' → Q x' b) (hraise : ∀ x' e, Due pid x' → R x' e) :
    (Worker.fetch item request).wp (conduct d mayUse) Q R x := by
  have hpid := hx.pid_eq
  subst hpid
  rcases hx.phase with ⟨expiresAt, hphase⟩
  have hcalm := hx.through.calm.notFetching
  refine (Prog.wp_call_handle _ _ _ _ _ _).2 ⟨⟨not_fetching_elim hcalm, ?_, ?_⟩, ?_, ?_⟩
  · intro owner howner
    cases howner
  · exact ⟨a, expiresAt, hphase, hx.due_le, hx.readAt_le⟩
  · rintro r x' ⟨t, s, s', _, _, rfl⟩
    have hfetching : x.phase.afterBegin t (.ok ()) = .fetching a expiresAt := by
      simp [hphase, Phase.afterBegin]
    have hdue : ∀ t' : Int, (x.phase.afterBegin t (.ok ())).afterEnd t' = .fetched (some a) t' := by
      intro t'
      simp [hfetching, Phase.afterEnd]
    refine (Prog.wp_call _ _ _ _).2 ⟨⟨fun _ => Or.inl rfl, ?_, trivial⟩, ?_, ?_⟩
    · intro owner howner
      cases howner
    · rintro b x'' ⟨t', s, s', _, _, rfl⟩
      exact hret _ b ⟨rfl, some a, t', hdue t', Int.le_refl _⟩
    · rintro e x'' ⟨t', s, s', _, _, rfl⟩
      exact hraise _ e ⟨rfl, some a, t', hdue t', Int.le_refl _⟩
  · rintro e x' ⟨t, s, s', _, _, rfl⟩
    exact hraise _ e ⟨rfl, some a, t, by simp [View.step, phaseAfter, hphase, Phase.afterBegin],
      Int.le_refl _⟩

theorem wp_onFetchError (hx : Due pid x) (hd : w.deployment = d) (howner : mayUse pid w.ownerToken)
    (plan : Option IdListFetchPlan) (e : Exn) :
    (Worker.onFetchError w item plan e).wp (conduct d mayUse) (fun x _ => Calm pid x)
      (fun x _ => Calm pid x) x := by
  subst hd
  cases e with
  | rateLimitedError retryAfter message statusCode =>
      refine (Prog.wp_bind _ _ _ _ _).2 (Prog.wp_mono ?_ (fun _ _ h => h) _ _
        (wp_afterRateLimit hx howner _ _ _))
      intro x' cooldownUntil hcalm
      exact wp_routinely (Worker.plain_putOff plan "rate_limited" message .rateLimited _ _ _
        _).routinely hcalm howner
  | transientFetchError message statusCode =>
      refine (Prog.wp_bind _ _ _ _ _).2 (Prog.wp_mono ?_ (fun _ _ h => h) _ _
        (wp_afterFailure hx howner _ _))
      intro x' _ hcalm
      exact wp_routinely (.bind Worker.plain_utcNow.routinely fun _ =>
        (Worker.plain_putOff plan "transient" message .failed _ _ _ _).routinely) hcalm howner
  | nonRetryableFetchError message statusCode =>
      refine (Prog.wp_bind _ _ _ _ _).2 (Prog.wp_mono ?_ (fun _ _ h => h) _ _
        (wp_afterFailure hx howner _ _))
      intro x' _ hcalm
      exact wp_routinely (Worker.plain_giveUp plan message _ _).routinely hcalm howner
  | huldraFetchError message statusCode =>
      refine (Prog.wp_bind _ _ _ _ _).2 (Prog.wp_mono ?_ (fun _ _ h => h) _ _
        (wp_afterFailure hx howner _ _))
      intro x' _ hcalm
      have hrest : Worker.Routinely w item (do
          Worker.releaseIdPlan w plan
          (.raise (.huldraFetchError message statusCode) : Program WorkerPassResult)) :=
        .bind (Worker.plain_releaseIdPlan plan).routinely fun _ => .raise _
      exact wp_routinely hrest hcalm howner
  | unexpected => exact hx.calm
  | interrupt => exact hx.calm
  | integrityError => exact hx.calm
  | runtimeError message => exact hx.calm
  | valueError message => exact hx.calm
  | assertionError => exact hx.calm
  | keyError => exact hx.calm
  | overflowError => exact hx.calm

theorem wp_onFetched (hx : Due pid x) (howner : mayUse pid w.ownerToken)
    (plan : Option IdListFetchPlan) (papers : List ArxivPaper) (total : Option Nat)
    (upstreamStatus : Int) :
    (Worker.onFetched w item plan papers total upstreamStatus).wp (conduct d mayUse)
      (fun x _ => Calm pid x) (fun x _ => Calm pid x) x := by
  refine (Prog.wp_bind _ _ _ _ _).2 (Prog.wp_mono ?_ (fun _ _ h => h.calm hx.calm) _ _
    (wp_aside (w := w) (Worker.plain_recordCompletedCacheEntry _ _ _ _).aside hx.calm.notFetching))
  intro x' _ hsame
  refine (Prog.wp_bind _ _ _ _ _).2 (Prog.wp_mono ?_ (fun _ _ h => h) _ _
    (wp_afterSuccess (hx.same hsame) howner _))
  intro x'' _ hcalm
  exact wp_routinely (Worker.plain_completeFetched plan _).routinely hcalm howner

theorem wp_onFetchResult (hx : Due pid x) (howner : mayUse pid w.ownerToken)
    (plan : Option IdListFetchPlan) (fetched : FetchResult) :
    (Worker.onFetchResult w item plan fetched).wp (conduct d mayUse) (fun x _ => Calm pid x)
      (fun x _ => Calm pid x) x := by
  unfold Worker.onFetchResult
  split
  · exact wp_onFetched hx howner _ _ _ _
  · simp only
    split
    · refine (Prog.wp_bind _ _ _ _ _).2 (Prog.wp_mono ?_ (fun _ _ h => h) _ _
        (wp_afterFailure hx howner _ _))
      intro x' _ hcalm
      exact wp_routinely (Worker.plain_giveUp _ _ _ _).routinely hcalm howner
    · split
      · exact hx.calm
      · exact wp_onFetched hx howner _ _ _ _

theorem wp_fetchAndReport (hx : Fenced d pid a x) (hd : w.deployment = d)
    (howner : mayUse pid w.ownerToken) (plan : Option IdListFetchPlan) (request : ArxivRequest) :
    (Worker.fetchAndReport w item plan request).wp (conduct d mayUse) (fun x _ => Calm pid x)
      (fun x _ => Calm pid x) x :=
  (Prog.wp_handle _ _ _ _ _ _).2 (wp_fetch hx request
    (fun _ b hdue => wp_onFetchResult hdue howner plan b)
    (fun _ e hdue => wp_onFetchError hdue hd howner plan e))

/-- A step of the pass that leaves the fence as it is, and what follows it. -/
theorem wp_fenced_bind {γ : Type} {p : Program β} {f : β → Program γ}
    {Q : View → γ → Prop} (hp : Worker.Aside w item p) (hx : Fenced d pid a x)
    (hf : ∀ b x', Fenced d pid a x' →
      (f b).wp (conduct d mayUse) Q (fun x _ => Calm pid x) x') :
    (p >>= f).wp (conduct d mayUse) Q (fun x _ => Calm pid x) x :=
  (Prog.wp_bind _ _ _ _ _).2 (Prog.wp_mono (fun x' b hsame => hf b x' (hx.same hsame))
    (fun _ _ h => h.calm hx.through.calm) _ _ (wp_aside hp hx.through.calm.notFetching))

theorem wp_fetchWithinDeadline (hx : Fenced d pid a x) (hd : w.deployment = d)
    (howner : mayUse pid w.ownerToken) (plan : Option IdListFetchPlan) :
    (Worker.fetchWithinDeadline w item plan).wp (conduct d mayUse) (fun x _ => Calm pid x)
      (fun x _ => Calm pid x) x := by
  refine wp_fenced_bind (w := w) Worker.plain_queueItemUpstreamDeadline.aside hx ?_
  intro budgetDeadline x₁ hx₁
  cases budgetDeadline with
  | none => exact wp_fetchAndReport hx₁ hd howner plan _
  | some deadline =>
      refine wp_fenced_bind (w := w) (@Worker.plain_utcNow w item).aside hx₁ ?_
      intro now x₂ hx₂
      split
      · exact wp_fetchAndReport hx₂ hd howner plan _
      · refine wp_fenced_bind (w := w) Worker.aside_checkDeadlines hx₂ ?_
        intro budgetError x₃ hx₃
        cases budgetError with
        | some error =>
            exact wp_routinely (Worker.routinely_endBudgetedItem plan error) hx₃.through.calm howner
        | none =>
            refine wp_fenced_bind (w := w) Worker.plain_queueItemUpstreamDeadline.aside hx₃ ?_
            intro deadline' x₄ hx₄
            refine wp_fenced_bind (@Worker.plain_remainingAfterRecheck w item deadline').aside
              hx₄ ?_
            intro remaining x₅ hx₅
            exact wp_fetchAndReport hx₅ hd howner plan _

theorem wp_fetchCharged (hx : Through d pid a x) (hd : w.deployment = d)
    (howner : mayUse pid w.ownerToken) (plan : Option IdListFetchPlan) (ttl : Int) :
    (Worker.fetchCharged w item plan ttl).wp (conduct d mayUse) (fun x _ => Calm pid x)
      (fun x _ => Calm pid x) x := by
  refine (Prog.wp_bind _ _ _ _ _).2 (Prog.wp_mono ?_ (fun _ _ h => h) _ _
    (wp_gateFetchOwnership hx howner plan ttl))
  rintro x₁ ⟨plan', r⟩ hgated
  cases r with
  | some r => exact hgated
  | none =>
      have hfenced : Fenced d pid a x₁ := hgated
      refine wp_fenced_bind (w := w) Worker.aside_checkDeadlines hfenced ?_
      intro budgetError x₂ hx₂
      cases budgetError with
      | some error =>
          exact wp_routinely (Worker.routinely_endBudgetedItem plan' error) hx₂.through.calm howner
      | none => exact wp_fetchWithinDeadline hx₂ hd howner plan'

theorem wp_chargeAndFetch (hx : Fenced d pid a x) (hd : w.deployment = d)
    (howner : mayUse pid w.ownerToken) (plan : Option IdListFetchPlan) (ttl : Int) :
    (Worker.chargeAndFetch w item plan ttl).wp (conduct d mayUse) (fun x _ => Calm pid x)
      (fun x _ => Calm pid x) x := by
  have hended : ∀ error x', Fenced d pid a x' →
      (Worker.endBudgetedItem w item plan error).wp (conduct d mayUse)
        (fun x _ => Calm pid x) (fun x _ => Calm pid x) x' := by
    intro error x' hx'
    exact wp_routinely (Worker.routinely_endBudgetedItem plan error) hx'.through.calm howner
  unfold Worker.chargeAndFetch
  refine wp_fenced_bind (w := w) Worker.aside_reserve hx ?_
  intro reserveError x₁ hx₁
  cases reserveError with
  | some error => exact (Prog.wp_bind _ _ _ _ _).2 (hended error x₁ hx₁)
  | none =>
      refine wp_fenced_bind (w := w) Worker.aside_checkDeadlines hx₁ ?_
      intro budgetError x₂ hx₂
      cases budgetError with
      | some error => exact hended error x₂ hx₂
      | none => exact wp_fetchCharged hx₂.through hd howner plan ttl

/-! ## The pass -/

theorem wp_fetchAdmitted (hd : w.deployment = d) (howner : mayUse pid w.ownerToken)
    (plan : Option IdListFetchPlan) {decision : RateLimitDecision}
    (hx : Decided d pid x decision) (hcan : decision.canFetch = true) :
    (Worker.fetchAdmitted w item plan decision.waitSeconds).wp (conduct d mayUse)
      (fun x _ => Calm pid x) (fun x _ => Calm pid x) x := by
  rw [Decided, if_pos hcan] at hx
  rcases hx with ⟨hpid, a, hphase, hdue, hcurrent, hreadAt⟩
  have hcalm : Calm pid x := calm_of_phase hpid hphase rfl
  have hgate : ∀ x', Same x x' → x.clock + decision.waitSeconds ≤ x'.clock →
      (Worker.gateAndCharge w item plan).wp (conduct d mayUse) (fun x _ => Calm pid x)
        (fun x _ => Calm pid x) x' := by
    intro x' hsame hlate
    have hthrough : Through d pid a x' :=
      ⟨hsame.pid_eq.trans hpid, Or.inl (hsame.phase_eq.trans hphase), by omega,
        Int.le_trans hreadAt hsame.clock_le⟩
    refine (Prog.wp_bind _ _ _ _ _).2 (Prog.wp_mono ?_ (fun _ _ h => h) _ _
      (wp_gateFetchOwnership hthrough howner plan _))
    rintro x'' ⟨plan', r⟩ hgated
    cases r with
    | some r => exact hgated
    | none => exact wp_chargeAndFetch hgated hd howner plan' _
  unfold Worker.fetchAdmitted
  split
  · refine (Prog.wp_bind _ _ _ _ _).2 (wp_timeSleep hcalm.notFetching ?_ ?_)
    · intro x' hsame hlate
      exact hgate x' hsame hlate
    · intro e x' hsame
      exact hsame.calm hcalm
  · exact hgate x (Same.refl x) (by omega)

theorem wp_passLimiter (hx : Calm pid x) (hd : w.deployment = d) (howner : mayUse pid w.ownerToken)
    (plan : Option IdListFetchPlan) :
    (Worker.passLimiter w item plan).wp (conduct d mayUse) (fun x _ => Calm pid x)
      (fun x _ => Calm pid x) x := by
  subst hd
  refine (Prog.wp_bind _ _ _ _ _).2 (Prog.wp_mono ?_ (fun _ _ h => h) _ _
    (wp_beforeRequest hx howner))
  intro x' decision hdecided
  simp only
  split
  case isTrue hcan => exact wp_fetchAdmitted rfl howner plan hdecided hcan
  case isFalse hcan =>
    rw [Decided, if_neg hcan] at hdecided
    exact wp_routinely (Worker.plain_delayRefused plan decision).routinely hdecided howner

theorem wp_workPlanned (hx : Calm pid x) (hd : w.deployment = d) (howner : mayUse pid w.ownerToken)
    (plan : Option IdListFetchPlan) :
    (Worker.workPlanned w item plan).wp (conduct d mayUse) (fun x _ => Calm pid x)
      (fun x _ => Calm pid x) x := by
  unfold Worker.workPlanned
  split
  · exact wp_passLimiter hx hd howner none
  · split
    · exact wp_routinely (.bind (Worker.plain_delay _ _ _).routinely fun _ => .ret _) hx howner
    · split
      · exact wp_routinely (.bind (Worker.plain_recordCachedIdList _).routinely fun _ =>
          .bind Worker.plain_completeQueueItem.routinely fun _ => .ret _) hx howner
      · exact wp_passLimiter hx hd howner _

theorem wp_workClaimed (hx : Calm pid x) (hd : w.deployment = d)
    (howner : mayUse pid w.ownerToken) :
    (Worker.workClaimed w item).wp (conduct d mayUse) (fun x _ => Calm pid x)
      (fun x _ => Calm pid x) x := by
  refine (Prog.wp_bind _ _ _ _ _).2 (Prog.wp_mono ?_ (fun _ _ h => h) _ _
    (wp_routinely (w := w) Worker.plain_getReadableCompletedCache.routinely hx howner))
  intro x₁ cached hx₁
  simp only
  split
  · exact wp_routinely (.bind Worker.plain_completeQueueItem.routinely fun _ => .ret _) hx₁ howner
  · refine (Prog.wp_bind _ _ _ _ _).2 (Prog.wp_mono ?_ (fun _ _ h => h) _ _
      (wp_routinely Worker.plain_planIdListFetch.routinely hx₁ howner))
    intro x₂ plan hx₂
    exact wp_workPlanned hx₂ hd howner plan

/-- A pass keeps to the phases, and leaves no request under way. -/
theorem wp_runOnce (hx : Calm pid x) (hd : w.deployment = d) (howner : mayUse pid w.ownerToken)
    (targets : Option (List CacheKey)) :
    (Worker.runOnce w targets).wp (conduct d mayUse) (fun x _ => Calm pid x)
      (fun x _ => Calm pid x) x := by
  refine (Prog.wp_bind _ _ _ _ _).2 (Prog.wp_mono ?_ (fun _ _ h => h) _ _
    (wp_quiet_calm (p := initSchema) (.call trivial) hx))
  intro x₁ _ hx₁
  refine (Prog.wp_bind _ _ _ _ _).2 (Prog.wp_mono ?_ (fun _ _ h => h) _ _
    (wp_quiet_calm (quiet_claimNextQueueItem _ _ _) hx₁))
  intro x₂ item hx₂
  cases item with
  | none => exact hx₂
  | some item => exact wp_workClaimed hx₂ hd howner

end Worker

end Upstream
end Huldra
