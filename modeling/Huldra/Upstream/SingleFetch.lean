import Huldra.Upstream.Lease

/-!
# SingleFetch — one upstream call at a time

Ownership of the lease is decided by the owner token alone.  A worker's token is its own, but the
token of a harvest is that of its job, which two processes share when one resumes what the other
has not yet given up.  As long as no transaction acts on a lease that another process has acquired
under the same token, the fences exclude each other.
-/

namespace Huldra
namespace Upstream

open Process
open Process.System (Config Event History Legal Throughout Disciplined stateAfter lastTime)

variable {d : Deployment}

/-! ## What is proved, and under which condition -/

/-- Calls do not overlap, and no process touches an unexpired lease that another has acquired. -/
structure SingleFetch (pre : History (fleet d)) (e : Event (fleet d)) : Prop where
  alone : beginsCall e = true → ∀ q ∈ callers pre, q = e.pid
  undisturbed : ∀ q ∈ holder pre, q ≠ e.pid → ∀ row ∈ upstreamRow e.before,
    e.time < row.expiresAt → upstreamRow e.after = some row

/-- Every upstream call lies before the expiry its process has fenced it until. -/
def WithinFence (pre : History (fleet d)) (e : Event (fleet d)) : Prop :=
  ∀ p ∈ callers pre ++ (if beginsCall e then [e.pid] else []),
    ∀ expiresAt ∈ lastFence p pre, e.time < expiresAt

/-- The event is a transaction on the lease that was granted or has changed the row. -/
def takesEffect (e : Event (fleet d)) : Bool :=
  match e.action with
  | .op o r => acquires e || renewalGranted o r || upstreamRow e.after ≠ upstreamRow e.before
  | _ => false

/-- The token a transaction uses on the lease. -/
def tokenOf (e : Event (fleet d)) : Option OwnerToken :=
  match e.action with
  | .op o _ => upstreamOwner? o
  | _ => none

def renews (e : Event (fleet d)) : Bool :=
  match e.action with
  | .op o _ => (renewal? o).isSome
  | _ => false

/-- The token is that of a harvest job, which more than one process may use. -/
def ofJob : OwnerToken → Bool
  | .oai _ => true
  | .worker _ | .inlineWorker _ | .oaiHarvest _ => false

/-- A harvest's transaction that finds the row under the token of its job comes from the process
that has acquired the lease last, or takes over or gives back what has expired. -/
def OwnLease (pre : History (fleet d)) (e : Event (fleet d)) : Prop :=
  takesEffect e = true → ∀ row ∈ upstreamRow e.before,
    tokenOf e = some row.ownerToken → ofJob row.ownerToken = true →
    holder pre = some e.pid ∨ (row.expiresAt ≤ e.time ∧ renews e = false)

instance (pre : History (fleet d)) (e : Event (fleet d)) : Decidable (SingleFetch pre e) :=
  decidable_of_iff
    ((beginsCall e = true → ∀ q ∈ callers pre, q = e.pid) ∧
      ∀ q ∈ holder pre, q ≠ e.pid → ∀ row ∈ upstreamRow e.before,
        e.time < row.expiresAt → upstreamRow e.after = some row)
    ⟨fun h => ⟨h.1, h.2⟩, fun h => ⟨h.alone, h.undisturbed⟩⟩

instance (pre : History (fleet d)) (e : Event (fleet d)) : Decidable (WithinFence pre e) := by
  unfold WithinFence
  infer_instance

instance (pre : History (fleet d)) (e : Event (fleet d)) : Decidable (OwnLease pre e) := by
  unfold OwnLease
  infer_instance

/-! ## One step -/

/-- A fence is new, or it was there and the operation is none on the lease. -/
theorem phaseAfter_expiresAt {x : View} {o : Op} {r : Except Exn o.Res} {t expiresAt : Int}
    (h : (phaseAfter x o r t).expiresAt? = some expiresAt) :
    fencedUntil o r t = some expiresAt ∨
      (x.phase.expiresAt? = some expiresAt ∧ upstreamOwner? o = none) := by
  generalize hphase : phaseAfter x o r t = phase at h
  cases hphase ▸ advance_phaseAfter x o r t with
  | stays hnone => exact Or.inr ⟨h, hnone⟩
  | fences _ hfence =>
      cases h
      exact Or.inl hfence
  | begins hbegin hfenced =>
      refine Or.inr ⟨by rw [hfenced]; exact h, ?_⟩
      rcases hbegin with ⟨call, rfl⟩ | ⟨call, rfl⟩ <;> rfl
  | _ => cases h

theorem fencedUntil_eq {o : Op} {r : Except Exn o.Res} {t expiresAt : Int}
    (h : fencedUntil o r t = some expiresAt) :
    renewalGranted o r = true ∧ ∃ owner ttl, renewal? o = some (owner, ttl) ∧
      expiresAt = t + seconds ttl := by
  unfold fencedUntil at h
  split at h
  · rename_i hgranted
    rcases Option.map_eq_some_iff.1 h with ⟨⟨owner, ttl⟩, hrenewal, heq⟩
    exact ⟨hgranted, owner, ttl, hrenewal, heq.symm⟩
  · cases h

/-! ## The invariant -/

/-- What holds of the lease, its holder and the fences after every event. -/
structure Fencing (h : History (fleet d)) : Prop where
  /-- A worker's token on the row is that of the holder. -/
  holder_of_row : ∀ row, upstreamRow (stateAfter h) = some row →
    ∃ q, holder h = some q ∧ ∀ m, row.ownerToken = .worker m → m = q
  /-- Until a fence expires, its process is the holder and the row is as the fence wrote it. -/
  held : ∀ p expiresAt, (seen fleetEntry p h).phase.expiresAt? = some expiresAt →
    lastTime h < expiresAt →
    holder h = some p ∧ ∃ row, upstreamRow (stateAfter h) = some row ∧ row.expiresAt = expiresAt
  fence : ∀ p expiresAt, (seen fleetEntry p h).phase.expiresAt? = some expiresAt →
    lastFence p h = some expiresAt
  fetching : ∀ p ∈ callers h, (seen fleetEntry p h).phase.isFetching = true

/-- What every event of a run is known to satisfy. -/
structure Lawful (pre : History (fleet d)) (e : Event (fleet d)) : Prop where
  legal : Legal pre e
  disciplined : Disciplined (conduct d ownToken) (fleetMonitor d).view pre e
  ownLease : OwnLease pre e

variable {pre : History (fleet d)} {e : Event (fleet d)}

theorem Lawful.mayUse (hl : Lawful pre e) {o : Op} {r : Except Exn o.Res}
    (ha : e.action = .op o r) {owner : OwnerToken} (ho : upstreamOwner? o = some owner) :
    ownToken e.pid owner := by
  have h := ((hl.disciplined.1 o r ha).2.1 owner ho)
  rwa [pid_seen] at h

/-- A transaction on the row under the row's token: the process is the holder, or the row has
expired. -/
theorem Lawful.owns (hl : Lawful pre e) (hI : Fencing pre) {o : Op} {r : Except Exn o.Res}
    (ha : e.action = .op o r) {row : LeaseRow} (hrow : upstreamRow e.before = some row)
    (ho : upstreamOwner? o = some row.ownerToken) (heffect : takesEffect e = true) :
    holder pre = some e.pid ∨ (row.expiresAt ≤ e.time ∧ renewal? o = none) := by
  have hmay := hl.mayUse ha ho
  cases howner : row.ownerToken with
  | worker m =>
      have hrow' : upstreamRow (stateAfter pre) = some row := by
        rw [← hl.legal.before_eq]
        exact hrow
      rcases hI.holder_of_row row hrow' with ⟨q, hq, hm⟩
      rw [howner] at hmay
      have hpid : m = e.pid := hmay
      exact Or.inl (by rw [hq, ← hm m howner, hpid])
  | oai harvestId =>
      have htoken : tokenOf e = some row.ownerToken := by
        simp [tokenOf, ha, ho]
      have h := hl.ownLease heffect row hrow htoken (by simp [ofJob, howner])
      simpa [renews, ha] using h
  | inlineWorker uuid =>
      rw [howner] at hmay
      exact hmay.elim
  | oaiHarvest uuid =>
      rw [howner] at hmay
      exact hmay.elim

theorem takesEffect_of_ne {o : Op} {r : Except Exn o.Res} (ha : e.action = .op o r)
    (h : upstreamRow e.after ≠ upstreamRow e.before) : takesEffect e = true := by
  simp [takesEffect, ha, h]

/-- An unexpired row that another process has acquired is left as it is. -/
theorem row_undisturbed (hl : Lawful pre e) (hI : Fencing pre) {q : Nat} {row : LeaseRow}
    (hq : holder pre = some q) (hne : q ≠ e.pid) (hrow : upstreamRow e.before = some row)
    (hlate : e.time < row.expiresAt) :
    upstreamRow e.after = some row ∧ acquires e = false := by
  have hnot : ¬ (holder pre = some e.pid ∨ row.expiresAt ≤ e.time) := by
    rintro (h | h)
    · rw [hq] at h
      exact hne (Option.some.inj h)
    · omega
  rcases row_cases hl.legal with ⟨hacq, hsame⟩ | ⟨hacq, owner, timeout, r, ha, _, hfree⟩ |
    ⟨hacq, o, r, owner, ttl, row', ha, hrenewal, hrow', howned, hafter⟩ |
    ⟨hacq, owner, r, row', ha, hrow', howned, hafter⟩
  · exact ⟨hsame.trans hrow, hacq⟩
  · have heffect : takesEffect e = true := by
      simp [takesEffect, ha, hacq]
    rcases hfree row hrow with howner | hexpired
    · have h := hl.owns hI ha hrow (by simp [upstreamOwner?, howner]) heffect
      exact (hnot (h.imp_right And.left)).elim
    · exact (hnot (Or.inr hexpired)).elim
  · by_cases hsame : upstreamRow e.after = upstreamRow e.before
    · exact ⟨hsame.trans hrow, hacq⟩
    · rw [hrow] at hrow'
      cases hrow'
      have ho := upstreamOwner?_of_renewal? hrenewal
      rw [← howned] at ho
      have h := hl.owns hI ha hrow ho (takesEffect_of_ne ha hsame)
      exact (hnot (h.imp_right And.left)).elim
  · rw [hrow] at hrow'
    cases hrow'
    have hchanged : upstreamRow e.after ≠ upstreamRow e.before := by
      rw [hafter, hrow]
      rintro ⟨⟩
    have h := hl.owns hI ha hrow (by simp [upstreamOwner?, howned]) (takesEffect_of_ne ha hchanged)
    exact (hnot (h.imp_right And.left)).elim

/-! ## The invariant is kept -/

theorem holder_of_row_step (hl : Lawful pre e) (hI : Fencing pre) :
    ∀ row, upstreamRow e.after = some row →
      ∃ q, holder (e :: pre) = some q ∧ ∀ m, row.ownerToken = .worker m → m = q := by
  have hbefore := hI.holder_of_row
  rw [← hl.legal.before_eq] at hbefore
  intro row hrow
  rcases row_cases hl.legal with ⟨hacq, hsame⟩ | ⟨hacq, owner, timeout, r, ha, hafter, _⟩ |
    ⟨hacq, o, r, owner, ttl, row', ha, hrenewal, hrow', howned, hafter⟩ |
    ⟨hacq, owner, r, row', ha, hrow', howned, hafter⟩
  · rw [holder_of_not_acquires hacq]
    exact hbefore row (hsame ▸ hrow)
  · refine ⟨e.pid, holder_of_acquires hacq, ?_⟩
    intro m hm
    have hmay : ownToken e.pid owner := hl.mayUse ha (by simp [upstreamOwner?])
    rw [hafter] at hrow
    cases hrow
    have hworker : owner = .worker m := hm
    rw [hworker] at hmay
    exact hmay
  · rw [holder_of_not_acquires hacq]
    rw [hafter] at hrow
    cases hrow
    exact hbefore row' hrow'
  · rw [hafter] at hrow
    cases hrow

theorem held_step (hl : Lawful pre e) (hI : Fencing pre) :
    ∀ p expiresAt, (seen fleetEntry p (e :: pre)).phase.expiresAt? = some expiresAt →
      e.time < expiresAt →
      holder (e :: pre) = some p ∧
        ∃ row, upstreamRow e.after = some row ∧ row.expiresAt = expiresAt := by
  intro p expiresAt hphase hlate
  have htime := hl.legal.time_le
  by_cases hpid : e.pid = p
  · subst hpid
    cases ha : e.action with
    | start c =>
        rw [phase_of_start pre ha] at hphase
        cases hphase
    | crash =>
        rw [phase_seen_of_crash fleetEntry pre ha] at hphase
        cases hphase
    | op o r =>
        rw [seen_of_op fleetEntry pre ha] at hphase
        have hperf := Store.executed_iff.1 (hl.legal.executed ha)
        rcases phaseAfter_expiresAt hphase with hfence | ⟨hold, hnone⟩
        · -- A new fence: the row was found under the process's own token.
          rcases fencedUntil_eq hfence with ⟨hgranted, owner, ttl, hrenewal, rfl⟩
          rcases renewed_of_granted hperf hgranted hrenewal with ⟨row, hrow, howned, hafter⟩
          have ho := upstreamOwner?_of_renewal? hrenewal
          have hacq : acquires e = false := by
            rcases row_cases hl.legal with ⟨hacq, _⟩ | ⟨_, owner', timeout, r', ha', _⟩ |
              ⟨hacq, _⟩ | ⟨hacq, _⟩
            · exact hacq
            · rw [ha] at ha'
              cases ha'
              cases hrenewal
            · exact hacq
            · exact hacq
          have howns := hl.owns hI ha hrow (howned ▸ ho) (by simp [takesEffect, ha, hgranted])
          rw [holder_of_not_acquires hacq]
          rcases howns with hholder | ⟨_, hno⟩
          · exact ⟨hholder, _, hafter, rfl⟩
          · rw [hrenewal] at hno
            cases hno
        · -- An old fence: the operation is none on the lease.
          rcases hI.held e.pid expiresAt hold (by omega) with ⟨hholder, row, hrow, hexp⟩
          rw [← hl.legal.before_eq] at hrow
          rcases row_cases hl.legal with ⟨hacq, hsame⟩ | ⟨_, owner, timeout, r', ha', _⟩ |
            ⟨_, o', r', owner, ttl, row', ha', hrenewal, _⟩ | ⟨_, owner, r', row', ha', _⟩
          · rw [holder_of_not_acquires hacq]
            exact ⟨hholder, row, hsame.trans hrow, hexp⟩
          · rw [ha] at ha'
            cases ha'
            simp [upstreamOwner?] at hnone
          · rw [ha] at ha'
            cases ha'
            rw [upstreamOwner?_of_renewal? hrenewal] at hnone
            cases hnone
          · rw [ha] at ha'
            cases ha'
            simp [upstreamOwner?] at hnone
  · rw [seen_of_ne fleetEntry pre hpid] at hphase
    rcases hI.held p expiresAt hphase (by omega) with ⟨hholder, row, hrow, hexp⟩
    rw [← hl.legal.before_eq] at hrow
    rcases row_undisturbed hl hI hholder (Ne.symm hpid) hrow (by omega) with ⟨hafter, hacq⟩
    rw [holder_of_not_acquires hacq]
    exact ⟨hholder, row, hafter, hexp⟩

theorem fence_step (hI : Fencing pre) :
    ∀ p expiresAt, (seen fleetEntry p (e :: pre)).phase.expiresAt? = some expiresAt →
      lastFence p (e :: pre) = some expiresAt := by
  intro p expiresAt hphase
  by_cases hpid : e.pid = p
  · subst hpid
    cases ha : e.action with
    | start c =>
        rw [phase_of_start pre ha] at hphase
        cases hphase
    | crash =>
        rw [phase_seen_of_crash fleetEntry pre ha] at hphase
        cases hphase
    | op o r =>
        rw [seen_of_op fleetEntry pre ha] at hphase
        simp only [lastFence, ha, if_true]
        rcases phaseAfter_expiresAt hphase with hfence | ⟨hold, hnone⟩
        · simp [hfence]
        · have hrenewal : fencedUntil o r e.time = none := by
            cases hf : fencedUntil o r e.time with
            | none => rfl
            | some t =>
                rcases fencedUntil_eq hf with ⟨_, owner, ttl, hrenewal, _⟩
                rw [upstreamOwner?_of_renewal? hrenewal] at hnone
                cases hnone
          simpa [hrenewal] using hI.fence e.pid expiresAt hold
  · rw [seen_of_ne fleetEntry pre hpid] at hphase
    simpa [lastFence, hpid] using hI.fence p expiresAt hphase

/-- A process other than the event's own has its call under way after the event iff before. -/
theorem mem_callers_of_ne {p : Nat} (hne : p ≠ e.pid) (h : p ∈ callers (e :: pre)) :
    p ∈ callers pre := by
  unfold callers at h
  simp only at h
  split at h <;> simp_all

/-- A process that has a call under way after its own event has just begun it. -/
theorem isFetching_of_mem_callers (hl : Lawful pre e) (hI : Fencing pre)
    (h : e.pid ∈ callers (e :: pre)) :
    (seen fleetEntry e.pid (e :: pre)).phase.isFetching = true := by
  have hbegin : ∀ a expiresAt, (seen fleetEntry e.pid pre).phase = .fenced a expiresAt →
      ((seen fleetEntry e.pid pre).phase.afterBegin e.time (.ok ())).isFetching = true := by
    intro a expiresAt hphase
    simp [hphase, Phase.afterBegin, Phase.isFetching]
  unfold callers at h
  simp only at h
  split at h
  case h_1 call r ha =>
    rcases (hl.disciplined.1 _ _ ha).2.2 with ⟨a, expiresAt, hphase, _⟩
    rw [seen_of_op fleetEntry pre ha]
    exact hbegin a expiresAt hphase
  case h_2 call r ha =>
    rcases (hl.disciplined.1 _ _ ha).2.2 with ⟨a, expiresAt, hphase, _⟩
    rw [seen_of_op fleetEntry pre ha]
    exact hbegin a expiresAt hphase
  case h_3 => simp at h
  case h_4 => simp at h
  case h_5 => simp at h
  case h_6 o r _ _ hother ha =>
    -- While a call is under way only its end is allowed.
    have hfetching := hI.fetching e.pid h
    rcases (hl.disciplined.1 o r ha).1 hfetching with rfl | rfl
    · exact (hother _ _ rfl HEq.rfl).elim
    · exact (hother _ _ rfl HEq.rfl).elim

theorem fencing_step (hl : Lawful pre e) (hI : Fencing pre) : Fencing (e :: pre) where
  holder_of_row := holder_of_row_step hl hI
  held := held_step hl hI
  fence := fence_step hI
  fetching := by
    intro p hp
    by_cases hpid : p = e.pid
    · subst hpid
      exact isFetching_of_mem_callers hl hI hp
    · rw [seen_of_ne fleetEntry pre (Ne.symm hpid)]
      exact hI.fetching p (mem_callers_of_ne hpid hp)

theorem fencing_nil : Fencing ([] : History (fleet d)) where
  holder_of_row := by
    intro row hrow
    cases hrow
  held := by
    intro p expiresAt h
    cases h
  fence := by
    intro p expiresAt h
    cases h
  fetching := by
    intro p hp
    cases hp

/-! ## The theorem -/

/-- A process with a call under way has a fence, and is the holder until it expires. -/
theorem holder_of_caller (hI : Fencing pre) {p : Nat} (hp : p ∈ callers pre) {t : Int}
    (htime : lastTime pre ≤ t) (hfence : ∀ expiresAt ∈ lastFence p pre, t < expiresAt) :
    holder pre = some p := by
  have hfetching := hI.fetching p hp
  cases hphase : (seen fleetEntry p pre).phase with
  | fetching a expiresAt =>
      have hexp : (seen fleetEntry p pre).phase.expiresAt? = some expiresAt := by
        rw [hphase]
        rfl
      have hlate := hfence expiresAt (hI.fence p expiresAt hexp)
      exact (hI.held p expiresAt hexp (by omega)).1
  | _ => simp [hphase, Phase.isFetching] at hfetching

theorem singleFetch_of_fencing (hl : Lawful pre e) (hI : Fencing pre)
    (hwithin : WithinFence pre e) : SingleFetch pre e where
  alone := by
    intro hbegins q hq
    have htime := hl.legal.time_le
    have hcaller := holder_of_caller hI hq htime (hwithin q (List.mem_append_left _ hq))
    -- The process that begins is the holder as well: it is fenced.
    have hself : ∃ a expiresAt, (seen fleetEntry e.pid pre).phase = .fenced a expiresAt := by
      unfold beginsCall at hbegins
      split at hbegins
      case h_1 ha =>
        rcases (hl.disciplined.1 _ _ ha).2.2 with ⟨a, expiresAt, hphase, _⟩
        exact ⟨a, expiresAt, hphase⟩
      case h_2 ha =>
        rcases (hl.disciplined.1 _ _ ha).2.2 with ⟨a, expiresAt, hphase, _⟩
        exact ⟨a, expiresAt, hphase⟩
      case h_3 => cases hbegins
    rcases hself with ⟨a, expiresAt, hphase⟩
    have hexp : (seen fleetEntry e.pid pre).phase.expiresAt? = some expiresAt := by
      rw [hphase]
      rfl
    have hlate := hwithin e.pid (List.mem_append_right _ (by simp [hbegins])) expiresAt
      (hI.fence e.pid expiresAt hexp)
    have hheld := (hI.held e.pid expiresAt hexp (by omega)).1
    rw [hcaller] at hheld
    exact Option.some.inj hheld
  undisturbed := by
    intro q hq hne row hrow hlate
    exact (row_undisturbed hl hI hq hne hrow hlate).1

/-- In every run in which the calls lie within their fences and no harvest acts on a lease that
another process has acquired under the same token, there is one upstream call at a time and every
process leaves the lease of another alone. -/
theorem single_fetch (d : Deployment) (sched : List (Config.Choice (fleet d)))
    (hwithin : Throughout WithinFence (Config.after (fleet d) sched).history)
    (hown : Throughout OwnLease (Config.after (fleet d) sched).history) :
    Throughout SingleFetch (Config.after (fleet d) sched).history := by
  have hlawful : Throughout (fun pre e => Lawful pre e ∧ WithinFence pre e)
      (Config.after (fleet d) sched).history := by
    refine Throughout.mono ?_ ((((Config.legal_after (fleet d) sched).and
      (conduct_after d sched)).and hown).and hwithin)
    rintro pre e ⟨⟨⟨hlegal, hdisciplined⟩, hown'⟩, hwithin'⟩
    exact ⟨⟨hlegal, hdisciplined, hown'⟩, hwithin'⟩
  exact Throughout.of_invariant fencing_nil (fun pre e hI hl => fencing_step hl.1 hI)
    (fun pre e hI hl => singleFetch_of_fencing hl.1 hI hl.2) hlawful

/-- One harvest fetches a page while another, of a different set, is turned away; then the second
one fetches. -/
def alternatingHarvests : List (Config.Choice (fleet {})) :=
  .start 0 (.harvestOai {}) :: runs 0 25 ++
    .start 1 (.harvestOai { metadataPrefix := .arXivRaw }) :: runs 1 25 ++
    .run 0 { page := .ok { records := [], responseDate := none, resumptionToken := none } } ::
    runs 0 20 ++ .tick 10000000 :: .start 1 (.harvestOai { metadataPrefix := .arXivRaw })
      :: runs 1 25

set_option maxRecDepth 4000 in
theorem single_fetch_alternating :
    Throughout SingleFetch (Config.after (fleet {}) alternatingHarvests).history :=
  single_fetch {} alternatingHarvests (by decide +kernel) (by decide +kernel)

/-- Process 0 stalls before its fence until both leases have expired; process 1 resumes the job,
acquires the upstream lease under the same token and fetches; process 0 finds its scope lost and
gives the upstream lease back, which is process 1's; process 2 acquires it and fetches too. -/
def stolenLease : List (Config.Choice (fleet {})) :=
  .start 0 (.harvestOai {}) :: runs 0 22 ++
    .tick 200000000 :: .start 1 (.harvestOai {}) :: runs 1 21 ++ runs 0 2 ++
    .start 2 (.harvestOai { metadataPrefix := .arXivRaw }) :: runs 2 25

/-- Every call of that run lies within its fence, and yet two of them overlap. -/
theorem single_fetch_broken :
    Throughout WithinFence (Config.after (fleet {}) stolenLease).history ∧
      ¬ Throughout SingleFetch (Config.after (fleet {}) stolenLease).history ∧
      callers (Config.after (fleet {}) stolenLease).history = [2, 1] := by
  decide +kernel

end Upstream
end Huldra
