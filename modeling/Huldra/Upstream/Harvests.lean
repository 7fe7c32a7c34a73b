import Huldra.Upstream.Workers
import Huldra.Harvest

/-!
# Harvests — a harvest keeps to the phases

Every round of the page loop goes through the limiter, both leases are fenced before the request,
and whichever way the request ends it is reported.
-/

namespace Huldra
namespace Upstream

open Process (Prog)

variable {d : Deployment} {mayUse : Nat → OwnerToken → Prop}
variable {pid : Nat} {a : Admission} {x : View}

/-! ## What a harvest does beside its requests -/

theorem quiet_utcNow : utcNow.AllOps Quiet :=
  .call trivial

theorem quiet_completeOaiHarvestJob (completion : Int → OaiTables.Completion) :
    (completeOaiHarvestJob completion).AllOps Quiet := by
  refine .bind quiet_utcNow fun _ => .bind (.call trivial) fun _ => .bind (.call trivial)
    fun r => ?_
  cases r with
  | none => exact .raise _
  | some r => exact .ret r

theorem quiet_ownershipLost (j : Harvest.Job) : j.ownershipLost.AllOps Quiet := by
  refine .bind (.call trivial) fun current => ?_
  cases current with
  | none => exact .ret _
  | some current =>
      simp only
      split
      · exact .ret _
      · exact .ret _

theorem quiet_recordAndFinish (j : Harvest.Job) (c : Harvest.Cursor) (status : OaiStatus)
    (category pageMessage message : String) :
    (j.recordAndFinish c status category pageMessage message).AllOps Quiet :=
  .bind (.bind quiet_utcNow fun _ => .call trivial) fun _ => quiet_completeOaiHarvestJob _

theorem quiet_getLatestResumable (request : OaiHarvestRequest) :
    (getLatestResumableOaiHarvestToken request).AllOps Quiet :=
  .call trivial

theorem quiet_startNew (request : OaiHarvestRequest) : (Harvest.startNew request).AllOps Quiet := by
  have hrest : ∀ token, (Harvest.createAndStart request token).AllOps Quiet := by
    intro token
    refine .bind (.bind quiet_utcNow fun _ => .call trivial) fun harvestId =>
      .bind (.call trivial) fun created => ?_
    split
    · exact .raise _
    · exact .ret _
  unfold Harvest.startNew
  cases request.resumptionToken with
  | some token => exact .bind (.ret _) hrest
  | none => exact .bind (quiet_getLatestResumable request) hrest

theorem quiet_startRunning (running : OaiJobRow) : (Harvest.startRunning running).AllOps Quiet := by
  unfold Harvest.startRunning
  cases running.deadlineAt with
  | some deadlineAt => exact .bind (.ret _) fun _ => .ret _
  | none =>
      exact .bind quiet_utcNow fun _ => .bind (.bind quiet_utcNow fun _ => .call trivial) fun _ =>
        .ret _

theorem quiet_oaiStartDatestamp (request : OaiHarvestRequest) :
    (Harvest.oaiStartDatestamp d request).AllOps Quiet := by
  unfold Harvest.oaiStartDatestamp
  split
  · exact .ret _
  · split
    · exact .ret _
    · refine .bind (.call trivial) fun watermark => ?_
      cases watermark with
      | none => exact .ret _
      | some row => exact .ret _

theorem quiet_harvestInProgress (request : OaiHarvestRequest) :
    (Harvest.harvestInProgress request).AllOps Quiet := by
  refine .bind (.call trivial) fun running => ?_
  cases running with
  | none => exact .ret _
  | some running =>
      refine .bind (.call trivial) fun active => ?_
      cases active with
      | none => exact .ret _
      | some active => exact .ret _

theorem quiet_finishCompleted (j : Harvest.Job) (c : Harvest.Cursor) :
    (j.finishCompleted c).AllOps Quiet := by
  unfold Harvest.Job.finishCompleted
  cases Harvest.shouldCommitOaiWatermark j.effectiveRequest with
  | true =>
      exact .bind (.bind quiet_utcNow fun _ => .call trivial) fun _ =>
        quiet_completeOaiHarvestJob _
  | false => exact quiet_completeOaiHarvestJob _

theorem quiet_renewScope {name : LeaseName} (hname : name ≠ .upstreamFetch) (owner : OwnerToken)
    (timeout : Int) : (renewLeaseIfOwned name owner timeout).AllOps Quiet := by
  refine .call ?_
  intro r hr
  rw [List.mem_singleton] at hr
  rw [hr]
  exact hname

section Page

variable {j : Harvest.Job} {c : Harvest.Cursor}

/-- A quiet program, and its result wrapped up. -/
theorem wp_quiet_done {β γ : Type} {p : Program β} {f : β → γ} (hp : p.AllOps Quiet)
    (hx : Calm pid x) :
    (do
      let r ← p
      pure (f r)).wp (conduct d mayUse) (fun x _ => Calm pid x) (fun x _ => Calm pid x) x :=
  (Prog.wp_bind _ _ _ _ _).2 (wp_quiet_calm hp hx)

theorem wp_releaseAndFinish (hx : Calm pid x) (howner : mayUse pid j.ownerToken)
    (category message : String) :
    (do
      let result ← j.releaseAndFinish c category message
      pure (Harvest.Job.Round.done result)).wp (conduct d mayUse) (fun x _ => Calm pid x)
      (fun x _ => Calm pid x) x := by
  have hpid := hx.pid_eq
  subst hpid
  refine (Prog.wp_bind _ _ _ _ _).2 ((Prog.wp_bind _ _ _ _ _).2
    (wp_releaseLease hx.notFetching howner ?_ ?_))
  · intro t _
    exact wp_quiet_calm (quiet_completeOaiHarvestJob _) ⟨rfl, rfl⟩
  · intro e t _
    exact ⟨rfl, rfl⟩

theorem wp_onFetchError_harvest (hx : Due pid x) (hd : j.deployment = d)
    (howner : mayUse pid j.ownerToken) (e : Exn) :
    (j.onFetchError c e).wp (conduct d mayUse) (fun x _ => Calm pid x) (fun x _ => Calm pid x)
      x := by
  subst hd
  cases e with
  | rateLimitedError retryAfter message statusCode =>
      refine (Prog.wp_bind _ _ _ _ _).2 (Prog.wp_mono ?_ (fun _ _ h => h) _ _
        (wp_afterRateLimit hx howner _ _ _))
      intro x' _ hcalm
      exact wp_quiet_done (quiet_recordAndFinish j c _ _ _ _) hcalm
  | transientFetchError message statusCode =>
      refine (Prog.wp_bind _ _ _ _ _).2 (Prog.wp_mono ?_ (fun _ _ h => h) _ _
        (wp_afterFailure hx howner _ _))
      intro x' _ hcalm
      exact wp_quiet_done (quiet_recordAndFinish j c _ _ _ _) hcalm
  | nonRetryableFetchError message statusCode =>
      refine (Prog.wp_bind _ _ _ _ _).2 (Prog.wp_mono ?_ (fun _ _ h => h) _ _
        (wp_afterFailure hx howner _ _))
      intro x' _ hcalm
      exact wp_quiet_done (quiet_recordAndFinish j c _ _ _ _) hcalm
  | huldraFetchError message statusCode => exact hx.calm
  | unexpected => exact hx.calm
  | interrupt => exact hx.calm
  | integrityError => exact hx.calm
  | runtimeError message => exact hx.calm
  | valueError message => exact hx.calm
  | assertionError => exact hx.calm
  | keyError => exact hx.calm
  | overflowError => exact hx.calm

/-- The commit leaves the request to be reported, and either report follows. -/
theorem wp_commitPage (hx : Due pid x) (howner : mayUse pid j.ownerToken) (page : OaiPmhPage) :
    (j.commitPage c page).wp (conduct d mayUse) (fun x _ => Calm pid x) (fun x _ => Calm pid x)
      x := by
  have hcheckpoint : (checkpointOaiPage (j.checkpointOf c page)).AllOps Quiet :=
    .bind quiet_utcNow fun _ => .call trivial
  refine (Prog.wp_bind _ _ _ _ _).2 ((Prog.wp_tryExcept _ _ _ _ _).2
    (Prog.wp_mono ?_ ?_ _ _ (wp_quiet hcheckpoint hx.calm.notFetching)))
  · intro x₁ counts hsame
    refine (Prog.wp_bind _ _ _ _ _).2 (Prog.wp_mono ?_ (fun _ _ h => h) _ _
      (wp_afterSuccess (hx.same hsame) howner _))
    intro x₂ _ hcalm
    simp only
    split
    · exact wp_quiet_done (quiet_completeOaiHarvestJob _) hcalm
    · exact hcalm
  · intro x₁ e hsame
    by_cases he : e = Exn.interrupt
    · rw [if_pos he]
      exact (hx.same hsame).calm
    · rw [if_neg he]
      exact (Prog.wp_bind _ _ _ _ _).2 (Prog.wp_mono (fun _ _ h => h) (fun _ _ h => h) _ _
        (wp_afterFailure (hx.same hsame) howner _ _))

/-- `list_records` from its beginning to its end, whatever comes of it. -/
theorem wp_listRecords {Q : View → OaiPmhPage → Prop} {R : View → Exn → Prop}
    (hx : Fenced d pid a x) (timeout : Int)
    (hret : ∀ x' b, Due pid x' → Q x' b) (hraise : ∀ x' e, Due pid x' → R x' e) :
    (j.listRecords c timeout).wp (conduct d mayUse) Q R x := by
  have hpid := hx.pid_eq
  subst hpid
  rcases hx.phase with ⟨expiresAt, hphase⟩
  have hcalm := hx.through.calm.notFetching
  refine (Prog.wp_call_handle _ _ _ _ _ _).2 ⟨⟨not_fetching_elim hcalm, ?_, ?_⟩, ?_, ?_⟩
  · intro owner howner
    cases howner
  · exact ⟨a, expiresAt, hphase, hx.due_le, hx.readAt_le⟩
  · rintro r x' ⟨t, s, s', _, _, rfl⟩
    have hfetching : x.phase.afterBegin t (.ok ()) = .fetching a expiresAt := by
      simp [hphase, Phase.afterBegin]
    have hdue : ∀ t' : Int, (x.phase.afterBegin t (.ok ())).afterEnd t' = .fetched (some a) t' := by
      intro t'
      simp [hfetching, Phase.afterEnd]
    refine (Prog.wp_call _ _ _ _).2 ⟨⟨fun _ => Or.inr rfl, ?_, trivial⟩, ?_, ?_⟩
    · intro owner howner
      cases howner
    · rintro b x'' ⟨t', s, s', _, _, rfl⟩
      exact hret _ b ⟨rfl, some a, t', hdue t', Int.le_refl _⟩
    · rintro e x'' ⟨t', s, s', _, _, rfl⟩
      exact hraise _ e ⟨rfl, some a, t', hdue t', Int.le_refl _⟩
  · rintro e x' ⟨t, s, s', _, _, rfl⟩
    exact hraise _ e ⟨rfl, some a, t, by simp [View.step, phaseAfter, hphase, Phase.afterBegin],
      Int.le_refl _⟩

/-- A quiet step of a fenced harvest, and what follows it. -/
theorem wp_fenced_quiet {β γ : Type} {p : Program β} {f : β → Program γ}
    {Q : View → γ → Prop} (hp : p.AllOps Quiet) (hx : Fenced d pid a x)
    (hf : ∀ b x', Fenced d pid a x' →
      (f b).wp (conduct d mayUse) Q (fun x _ => Calm pid x) x') :
    (p >>= f).wp (conduct d mayUse) Q (fun x _ => Calm pid x) x :=
  (Prog.wp_bind _ _ _ _ _).2 (Prog.wp_mono (fun x' b hsame => hf b x' (hx.same hsame))
    (fun _ _ h => h.calm hx.through.calm) _ _ (wp_quiet hp hx.through.calm.notFetching))

theorem wp_through_quiet {β γ : Type} {p : Program β} {f : β → Program γ}
    {Q : View → γ → Prop} (hp : p.AllOps Quiet) (hx : Through d pid a x)
    (hf : ∀ b x', Through d pid a x' →
      (f b).wp (conduct d mayUse) Q (fun x _ => Calm pid x) x') :
    (p >>= f).wp (conduct d mayUse) Q (fun x _ => Calm pid x) x :=
  (Prog.wp_bind _ _ _ _ _).2 (Prog.wp_mono (fun x' b hsame => hf b x' (hx.same hsame))
    (fun _ _ h => h.calm hx.calm) _ _ (wp_quiet hp hx.calm.notFetching))

theorem wp_fetchFenced (hx : Fenced d pid a x) (hd : j.deployment = d)
    (howner : mayUse pid j.ownerToken) (requestTimeout : Int) :
    (j.fetchFenced c requestTimeout).wp (conduct d mayUse) (fun x _ => Calm pid x)
      (fun x _ => Calm pid x) x := by
  refine wp_fenced_quiet quiet_utcNow hx ?_
  intro now x' hx'
  simp only
  split
  · exact wp_releaseAndFinish hx'.through.calm howner _ _
  · exact (Prog.wp_handle _ _ _ _ _ _).2 (wp_listRecords hx' _
      (fun _ page hdue => wp_commitPage hdue howner page)
      (fun _ e hdue => wp_onFetchError_harvest hdue hd howner e))

/-- Both leases are renewed, or neither is. -/
theorem wp_renewBoth (hx : Through d pid a x) (howner : mayUse pid j.ownerToken)
    (hscope : j.scopeLeaseName ≠ .upstreamFetch) (timeout : Int) :
    (renewLeasesIfOwned
      [⟨j.scopeLeaseName, j.scopeOwner, j.scopeLeaseSeconds⟩,
        ⟨Limiter.leaseName, j.ownerToken, timeout⟩]).wp (conduct d mayUse)
      (fun x' renewed => if renewed = true then Fenced d pid a x' else Calm pid x')
      (fun x' _ => Calm pid x') x := by
  have hpid := hx.pid_eq
  subst hpid
  have hrenewal : renewal? (.lease (.renewLeasesIfOwned
      [⟨j.scopeLeaseName, j.scopeOwner, j.scopeLeaseSeconds⟩,
        ⟨Limiter.leaseName, j.ownerToken, timeout⟩])) = some (j.ownerToken, timeout) := by
    simp [renewal?, hscope, Limiter.leaseName]
  have hafter : ∀ r t, phaseAfter x (.lease (.renewLeasesIfOwned
      [⟨j.scopeLeaseName, j.scopeOwner, j.scopeLeaseSeconds⟩,
        ⟨Limiter.leaseName, j.ownerToken, timeout⟩])) r t =
      x.phase.afterRenewal (if renewalGranted (.lease (.renewLeasesIfOwned
        [⟨j.scopeLeaseName, j.scopeOwner, j.scopeLeaseSeconds⟩,
          ⟨Limiter.leaseName, j.ownerToken, timeout⟩])) r then
        some (t + seconds timeout) else none) := by
    intro r t
    simp only [phaseAfter, fencedUntil, hrenewal, Option.isSome_some, if_true, Option.map_some]
  refine (Prog.wp_call _ _ _ _).2 ⟨⟨not_fetching_elim hx.calm.notFetching, ?_, trivial⟩, ?_, ?_⟩
  · intro o ho
    have ho' : o = j.ownerToken := by
      simpa [upstreamOwner?, hrenewal, eq_comm] using ho
    exact ho' ▸ howner
  · rintro renewed x' ⟨t, s, s', hclock, _, rfl⟩
    cases renewed with
    | true =>
        have hphase : ∃ expiresAt, x.phase.afterRenewal (some (t + seconds timeout)) =
            .fenced a expiresAt := by
          rcases hx.phase with hphase | ⟨e, hphase⟩
          · exact ⟨t + seconds timeout, by simp [hphase, Phase.afterRenewal]⟩
          · exact ⟨t + seconds timeout, by simp [hphase, Phase.afterRenewal]⟩
        refine ⟨rfl, ?_, Int.le_trans hx.due_le hclock, Int.le_trans hx.readAt_le hclock⟩
        simpa [View.step, hafter, renewalGranted] using hphase
    | false =>
        refine ⟨rfl, ?_⟩
        simp only [View.step, hafter]
        exact isFetching_afterRenewal _ _
  · rintro e x' ⟨t, s, s', _, _, rfl⟩
    refine ⟨rfl, ?_⟩
    simp only [View.step, hafter]
    exact isFetching_afterRenewal _ _

theorem wp_fenceAndFetch (hx : Through d pid a x) (hd : j.deployment = d)
    (howner : mayUse pid j.ownerToken) (hscope : j.scopeLeaseName ≠ .upstreamFetch) :
    (j.fenceAndFetch c).wp (conduct d mayUse) (fun x _ => Calm pid x) (fun x _ => Calm pid x)
      x := by
  refine wp_through_quiet quiet_utcNow hx ?_
  intro now x₁ hx₁
  simp only
  split
  · exact wp_releaseAndFinish hx₁.calm howner _ _
  · refine (Prog.wp_bind _ _ _ _ _).2 (Prog.wp_mono ?_ (fun _ _ h => h) _ _
      (wp_renewBoth hx₁ howner hscope _))
    intro x₂ renewed hrenewed
    cases renewed with
    | false =>
        have hcalm : Calm pid x₂ := hrenewed
        have hpid := hcalm.pid_eq
        subst hpid
        refine (Prog.wp_bind _ _ _ _ _).2 (wp_releaseLease hcalm.notFetching howner ?_ ?_)
        · intro t _
          exact wp_quiet_done (quiet_ownershipLost j) ⟨rfl, rfl⟩
        · intro e t _
          exact ⟨rfl, rfl⟩
    | true => exact wp_fetchFenced hrenewed hd howner _

theorem wp_fetchAdmitted_harvest {decision : RateLimitDecision} (hx : Decided d pid x decision)
    (hcan : decision.canFetch = true) (hd : j.deployment = d) (howner : mayUse pid j.ownerToken)
    (hscope : j.scopeLeaseName ≠ .upstreamFetch) :
    (j.fetchAdmitted c decision.waitSeconds).wp (conduct d mayUse) (fun x _ => Calm pid x)
      (fun x _ => Calm pid x) x := by
  rw [Decided, if_pos hcan] at hx
  rcases hx with ⟨hpid, a, hphase, hdue, hcurrent, hreadAt⟩
  have hcalm : Calm pid x := calm_of_phase hpid hphase rfl
  refine (Prog.wp_bind _ _ _ _ _).2 (Prog.wp_mono ?_ (fun _ _ h => h.calm hcalm) _ _
    (wp_quiet quiet_utcNow hcalm.notFetching))
  intro x₁ now hsame₁
  have hcalm₁ := hsame₁.calm hcalm
  split
  · exact wp_releaseAndFinish hcalm₁ howner _ _
  · -- The wait is over when the request is due, whether there was one or not.
    have hrest : ∀ x', Same x₁ x' → x₁.clock + decision.waitSeconds ≤ x'.clock →
        (j.countAndFetch c).wp (conduct d mayUse) (fun x _ => Calm pid x) (fun x _ => Calm pid x)
          x' := by
      intro x' hsame hlate
      have hsame' := hsame₁.trans hsame
      have hclock := hsame₁.clock_le
      have hthrough : Through d pid a x' :=
        ⟨hsame'.pid_eq.trans hpid, Or.inl (hsame'.phase_eq.trans hphase), by omega,
          Int.le_trans hreadAt hsame'.clock_le⟩
      refine wp_through_quiet quiet_utcNow hthrough ?_
      intro now' x₂ hx₂
      simp only
      split
      · exact wp_releaseAndFinish hx₂.calm howner _ _
      · refine wp_through_quiet (.bind quiet_utcNow fun _ => .call trivial) hx₂ ?_
        intro requestsTotal x₃ hx₃
        exact wp_fenceAndFetch hx₃ hd howner hscope
    split
    · refine (Prog.wp_bind _ _ _ _ _).2 (wp_timeSleep hcalm₁.notFetching hrest ?_)
      intro e x' hsame
      exact hsame.calm hcalm₁
    · exact hrest x₁ (Same.refl x₁) (by omega)

theorem wp_harvestPage (hx : Calm pid x) (hd : j.deployment = d) (howner : mayUse pid j.ownerToken)
    (hscope : j.scopeLeaseName ≠ .upstreamFetch) :
    (j.harvestPage c).wp (conduct d mayUse) (fun x _ => Calm pid x) (fun x _ => Calm pid x) x := by
  subst hd
  refine (Prog.wp_bind _ _ _ _ _).2 (Prog.wp_mono ?_ (fun _ _ h => h) _ _
    (wp_quiet_calm (quiet_renewScope hscope _ _) hx))
  intro x₁ renewed hx₁
  split
  · exact wp_quiet_done (quiet_ownershipLost j) hx₁
  · refine (Prog.wp_bind _ _ _ _ _).2 (Prog.wp_mono ?_ (fun _ _ h => h) _ _
      (wp_quiet_calm quiet_utcNow hx₁))
    intro x₂ now hx₂
    split
    · exact wp_quiet_done (quiet_completeOaiHarvestJob _) hx₂
    · refine (Prog.wp_bind _ _ _ _ _).2 (Prog.wp_mono ?_ (fun _ _ h => h) _ _
        (wp_beforeRequest hx₂ howner))
      intro x₃ decision hdecided
      simp only
      split
      case isTrue hcan => exact wp_fetchAdmitted_harvest hdecided hcan rfl howner hscope
      case isFalse hcan =>
        rw [Decided, if_neg hcan] at hdecided
        exact wp_quiet_done (quiet_recordAndFinish j c _ _ _ _) hdecided

/-- The loop: each round leaves the calm it found. -/
theorem wp_harvestPages (hd : j.deployment = d) (howner : mayUse pid j.ownerToken)
    (hscope : j.scopeLeaseName ≠ .upstreamFetch) (pagesLeft : Nat) :
    ∀ (c : Harvest.Cursor) (x : View), Calm pid x →
      (j.harvestPages pagesLeft c).wp (conduct d mayUse) (fun x _ => Calm pid x)
        (fun x _ => Calm pid x) x := by
  induction pagesLeft with
  | zero =>
      intro c x hx
      unfold Harvest.Job.harvestPages
      split
      · exact wp_quiet_calm (quiet_finishCompleted j c) hx
      · refine (Prog.wp_bind _ _ _ _ _).2 (Prog.wp_mono ?_ (fun _ _ h => h) _ _
          (wp_harvestPage hx hd howner hscope))
        intro x' round hcalm
        cases round with
        | done result => exact hcalm
        | next moved => exact hcalm
  | succ pagesLeft ih =>
      intro c x hx
      unfold Harvest.Job.harvestPages
      split
      · exact wp_quiet_calm (quiet_finishCompleted j c) hx
      · refine (Prog.wp_bind _ _ _ _ _).2 (Prog.wp_mono ?_ (fun _ _ h => h) _ _
          (wp_harvestPage hx hd howner hscope))
        intro x' round hcalm
        cases round with
        | done result => exact hcalm
        | next moved => exact ih moved x' hcalm

end Page

/-! ## The whole call -/

theorem wp_walk {j : Harvest.Job} (hx : Calm pid x) (hd : j.deployment = d)
    (howner : mayUse pid j.ownerToken) (hscope : j.scopeLeaseName ≠ .upstreamFetch)
    (start : Harvest.Start) :
    (Harvest.walk j start).wp (conduct d mayUse) (fun x _ => Calm pid x) (fun x _ => Calm pid x)
      x := by
  refine (Prog.wp_bind _ _ _ _ _).2 (Prog.wp_mono ?_ (fun _ _ h => h) _ _
    (wp_quiet_calm (p := getOaiConsumedTokenHashes start.harvestId) (.call trivial) hx))
  intro x' hashes hx'
  simp only
  split
  · exact wp_quiet_calm (quiet_completeOaiHarvestJob _) hx'
  · exact wp_harvestPages hd howner hscope _ _ _ hx'

theorem wp_harvestFrom (hx : Calm pid x) (howner : ∀ harvestId, mayUse pid (.oai harvestId))
    {name : LeaseName} (hname : name ≠ .upstreamFetch) (owner : OwnerToken) (timeout : Int)
    (start : Harvest.Start) :
    (Harvest.harvestFrom d name owner timeout start).wp (conduct d mayUse)
      (fun x _ => Calm pid x) (fun x _ => Calm pid x) x := by
  have hwalk : ∀ (fromDatestamp : Option OaiDatestamp) (x' : View), Calm pid x' →
      (Harvest.walk (Harvest.jobOf d name owner timeout start fromDatestamp) start).wp
        (conduct d mayUse) (fun x _ => Calm pid x) (fun x _ => Calm pid x) x' :=
    fun fromDatestamp x' hx' =>
      wp_walk (j := Harvest.jobOf d name owner timeout start fromDatestamp) hx' rfl
        (howner start.harvestId) hname start
  unfold Harvest.harvestFrom
  cases start.cursor.resumptionToken with
  | some token => exact hwalk none x hx
  | none =>
      exact (Prog.wp_bind _ _ _ _ _).2 (Prog.wp_mono (fun x' r h => hwalk r x' h)
        (fun _ _ h => h) _ _ (wp_quiet_calm (quiet_oaiStartDatestamp _) hx))

theorem wp_harvestOaiOwned (hx : Calm pid x) (howner : ∀ harvestId, mayUse pid (.oai harvestId))
    (request : OaiHarvestRequest) {name : LeaseName} (hname : name ≠ .upstreamFetch)
    (owner : OwnerToken) (timeout : Int) :
    (Harvest.harvestOaiOwned d request name owner timeout).wp (conduct d mayUse)
      (fun x _ => Calm pid x) (fun x _ => Calm pid x) x := by
  refine (Prog.wp_bind _ _ _ _ _).2 (Prog.wp_mono ?_ (fun _ _ h => h) _ _
    (wp_quiet_calm (p := getRunningOaiHarvest request) (.call trivial) hx))
  intro x₁ running hx₁
  cases running with
  | none =>
      exact (Prog.wp_bind _ _ _ _ _).2 (Prog.wp_mono
        (fun x' start h => wp_harvestFrom h howner hname owner timeout start)
        (fun _ _ h => h) _ _ (wp_quiet_calm (quiet_startNew request) hx₁))
  | some running =>
      exact (Prog.wp_bind _ _ _ _ _).2 (Prog.wp_mono
        (fun x' start h => wp_harvestFrom h howner hname owner timeout start)
        (fun _ _ h => h) _ _ (wp_quiet_calm (quiet_startRunning running) hx₁))

theorem oaiScopeLeaseName_ne (request : OaiHarvestRequest) :
    Harvest.oaiScopeLeaseName request ≠ .upstreamFetch := by
  unfold Harvest.oaiScopeLeaseName
  split
  · exact fun h => nomatch h
  · exact fun h => nomatch h

/-- A harvest keeps to the phases, and leaves no request under way. -/
theorem wp_harvestOai (hx : Calm pid x) (howner : ∀ harvestId, mayUse pid (.oai harvestId))
    (request : OaiHarvestRequest) :
    (Harvest.harvestOai d request).wp (conduct d mayUse) (fun x _ => Calm pid x)
      (fun x _ => Calm pid x) x := by
  have hname := oaiScopeLeaseName_ne request
  refine (Prog.wp_bind _ _ _ _ _).2 (Prog.wp_mono ?_ (fun _ _ h => h) _ _
    (wp_quiet_calm (p := uuid4) (.call trivial) hx))
  intro x₁ scopeUuid hx₁
  refine (Prog.wp_bind _ _ _ _ _).2 (Prog.wp_mono ?_ (fun _ _ h => h) _ _
    (wp_quiet_calm (p := acquireLease (Harvest.oaiScopeLeaseName request)
      (.oaiHarvest scopeUuid) (Harvest.scopeLeaseSeconds d)) (.call hname) hx₁))
  intro x₂ acquired hx₂
  have hrelease : ∀ x', Calm pid x' → (releaseLease (Harvest.oaiScopeLeaseName request)
      (.oaiHarvest scopeUuid)).wp (conduct d mayUse) (fun x _ => Calm pid x)
      (fun x _ => Calm pid x) x' :=
    fun x' h => wp_quiet_calm (p := releaseLease (Harvest.oaiScopeLeaseName request)
      (.oaiHarvest scopeUuid)) (.call hname) h
  split
  · exact wp_quiet_calm (quiet_harvestInProgress request) hx₂
  · exact (Prog.wp_tryFinally _ _ _ _ _).2 (Prog.wp_mono (fun x' _ h => hrelease x' h)
      (fun x' _ h => hrelease x' h) _ _ (wp_harvestOaiOwned hx₂ howner request hname _ _))

end Upstream
end Huldra
