import Huldra.Harvest.Resumed

/-!
# Stale — a harvest whose scope was taken over

The lease of a scope expires while its harvest stalls; another process acquires it and resumes the
job.  Only the fence before a fetch asks who owns the lease: what the stalled harvest still writes
of the job is written unasked.  Where each of its transactions finds the lease its own, it writes
nothing more once it was overtaken.
-/

namespace Huldra
namespace Harvest

open Process.System (Monitor Config Throughout Disciplined History Event Legal stateAfter)
open OaiTables

variable {d : Deployment}

/-! ## Taking over a scope -/

/-- The lease that the event acquires, and the owner. -/
def acquired? (e : Event (fleet d)) : Option (LeaseName × OwnerToken) :=
  match e.action with
  | .op (.lease (.acquireLease name owner _)) (.ok true) => some (name, owner)
  | _ => none

/-- The harvest under the token has acquired the lease. -/
def Held (name : LeaseName) (uuid : Uuid) (h : History (fleet d)) : Prop :=
  ∃ e ∈ h, acquired? e = some (name, .oaiHarvest uuid)

/-- The event acquires the lease for another owner. -/
def takesOver (name : LeaseName) (uuid : Uuid) (e : Event (fleet d)) : Bool :=
  (acquired? e).any fun a => a.1 = name && a.2 ≠ .oaiHarvest uuid

/-- Another owner has acquired the lease since the harvest did. -/
def Overtaken (name : LeaseName) (uuid : Uuid) : History (fleet d) → Prop
  | [] => False
  | e :: pre => (takesOver name uuid e = true ∧ Held name uuid pre) ∨ Overtaken name uuid pre

/-- The rows of `oai_pages` of the job. -/
def pagesOf (harvestId : Uuid) (t : OaiTables) : List OaiPageRow :=
  t.pages.filter fun page => page.harvestId = harvestId

/-- A harvest that was overtaken leaves the jobs of its scope as they are. -/
def StaleFenced (pre : History (fleet d)) (e : Event (fleet d)) : Prop :=
  ∀ uuid ∈ (walkOf e.pid pre).uuid, ∀ job ∈ e.before.oai.jobs,
    Overtaken (oaiScopeLeaseName job.request) uuid pre →
      e.after.oai.job? job.harvestId = some job ∧
        pagesOf job.harvestId e.after.oai = pagesOf job.harvestId e.before.oai

/-- Who writes of a job owns the lease of its scope. -/
def WritesOwned (pre : History (fleet d)) (e : Event (fleet d)) : Prop :=
  ∀ job ∈ e.before.oai.jobs, writes? e = some job.harvestId →
    ∃ uuid ∈ (walkOf e.pid pre).uuid,
      e.before.leases.ownedBy (oaiScopeLeaseName job.request) (.oaiHarvest uuid) = true

/-! ## One operation -/

section Operations

variable {x : WalkView} {o : Op} {t : Int} {r : Except Exn o.Res} {s s' : Store}

/-- Rows of another job are put beside those of this one. -/
theorem pagesOf_putPage {tables : OaiTables} {page : OaiPageRow} {harvestId : Uuid}
    (hne : page.harvestId ≠ harvestId) :
    pagesOf harvestId (tables.putPage page) = pagesOf harvestId tables := by
  unfold pagesOf putPage
  split
  · rw [List.filter_map]
    have hsame : ∀ p : OaiPageRow, (if p.harvestId = page.harvestId ∧
        p.pageIndex = page.pageIndex then { page with createdAt := p.createdAt } else p).harvestId =
          p.harvestId := by
      intro p
      split
      · rename_i hkey
        exact hkey.1.symm
      · rfl
    have hfilter : ((fun p : OaiPageRow => decide (p.harvestId = harvestId)) ∘
        fun p : OaiPageRow => if p.harvestId = page.harvestId ∧ p.pageIndex = page.pageIndex then
          { page with createdAt := p.createdAt } else p) =
        fun p : OaiPageRow => decide (p.harvestId = harvestId) := by
      funext p
      simp only [Function.comp_apply, hsame]
    rw [hfilter]
    refine (List.map_congr_left ?_).trans (List.map_id _)
    intro p hp
    rw [List.mem_filter, decide_eq_true_eq] at hp
    rw [if_neg]
    · rfl
    · rintro ⟨hid, _⟩
      exact hne (hid.symm.trans hp.2)
  · rw [List.filter_append, List.filter_singleton]
    simp [hne]

/-- An operation that does not write of the job leaves it. -/
theorem unchanged_of_performed {harvestId : Uuid} {job : OaiJobRow}
    (hfiled : Filed s.nextUuid s.oai) (h : Store.Performed o t r s s')
    (hjob : s.oai.job? harvestId = some job) (hwrites : written? o ≠ some harvestId) :
    s'.oai.job? harvestId = some job ∧ pagesOf harvestId s'.oai = pagesOf harvestId s.oai := by
  have hid := job?_harvestId hjob
  refine ⟨?_, ?_⟩
  · rcases (jobsStep_of_performed hfiled h).effect.rows harvestId job hjob with
      ⟨job', hjob', heffect⟩
    cases heffect with
    | kept => exact hjob'
    | dated deadlineAt timestamp hop => exact absurd (by rw [hop, ← hid]; rfl) hwrites
    | counted timestamp hop _ => exact absurd (by rw [hop, ← hid]; rfl) hwrites
    | committed c counts hop hat _ _ _ => exact absurd (by rw [hop, ← hid, ← hat]; rfl) hwrites
    | completed c hop hat => exact absurd (by rw [hop, ← hid, ← hat]; rfl) hwrites
  · rcases pages_effect h with hsame | ⟨page, ho, hput⟩ | ⟨c, counts, ho, _, hpage⟩
    · unfold pagesOf
      rw [hsame]
    · rw [hput]
      refine pagesOf_putPage fun hat => hwrites ?_
      rw [ho, ← hat]
      rfl
    · rw [hpage]
      have hne : c.page.harvestId ≠ harvestId := fun hat => hwrites (by rw [ho, ← hat]; rfl)
      exact pagesOf_putPage hne

/-- The lease that was acquired has one owner. -/
theorem owner_of_acquired {name : LeaseName} {owner owner' : OwnerToken} {timeout : Int}
    (h : Store.Performed (.lease (.acquireLease name owner timeout)) t (.ok true) s s')
    (howned : s'.leases.ownedBy name owner' = true) : owner' = owner := by
  rcases h.of_ok with ⟨input, _, hexec⟩
  simp only [Store.exec, LeaseOp.exec] at hexec
  rcases s.leases.acquireLease_cases name owner timeout t with ⟨heq, _⟩ | ⟨heq, _⟩
  · rw [heq] at hexec
    cases congrArg Prod.fst hexec
  · rw [heq] at hexec
    have hleases := congrArg (fun out => out.2.leases) hexec
    rw [← hleases] at howned
    simpa [Leases.ownedBy, eq_comm] using howned

/-- A process draws its token, and keeps it. -/
theorem uuid_step (x : WalkView) (o : Op) (r : Except Exn o.Res) :
    (x.step o r).uuid = x.uuid ∨ ∃ uuid, o = .clock .uuid4 ∧ (x.step o r).uuid = some uuid ∧
      HEq r (Except.ok uuid : Except Exn Uuid) := by
  unfold WalkView.step
  split
  case h_1 uuid => exact Or.inr ⟨uuid, rfl, rfl, HEq.rfl⟩
  all_goals first | exact Or.inl rfl | (split <;> exact Or.inl rfl)

/-- A process keeps the scope that it has acquired. -/
theorem scope_step (x : WalkView) (o : Op) (r : Except Exn o.Res) (h : x.scope.isSome = true) :
    (x.step o r).scope.isSome = true := by
  unfold WalkView.step
  split
  all_goals first | exact h | (split <;> first | exact h | rfl)

end Operations

/-! ## What every run keeps -/

section Events

variable {pre : History (fleet d)} {e : Event (fleet d)} {o : Op} {r : Except Exn o.Res}
  {name : LeaseName} {uuid : Uuid}

theorem held_cons : Held name uuid (e :: pre) ↔
    acquired? e = some (name, .oaiHarvest uuid) ∨ Held name uuid pre := by
  simp [Held]

theorem Overtaken.held (h : Overtaken name uuid pre) : Held name uuid pre := by
  induction pre with
  | nil => exact h.elim
  | cons e pre ih =>
      rcases h with ⟨_, hheld⟩ | hbefore
      · exact held_cons.2 (Or.inr hheld)
      · exact held_cons.2 (Or.inr (ih hbefore))

/-- A harvest acquires the lease of its scope once; who was overtaken has lost it for good. -/
structure Lost (h : History (fleet d)) : Prop where
  once : ∀ name uuid, name ≠ Limiter.leaseName → Held name uuid h →
    uuid < (stateAfter h).nextUuid ∧
      ∀ p, (walkOf p h).uuid = some uuid → (walkOf p h).scope.isSome = true
  lost : ∀ name uuid, name ≠ Limiter.leaseName → Overtaken name uuid h →
    (stateAfter h).leases.ownedBy name (.oaiHarvest uuid) = false

theorem acquired?_of_some {owner : OwnerToken} (h : acquired? e = some (name, owner)) :
    ∃ timeout, e.action = .op (.lease (.acquireLease name owner timeout)) (.ok true) := by
  unfold acquired? at h
  split at h
  · rename_i n o timeout ha
    cases h
    exact ⟨timeout, ha⟩
  · cases h

theorem owner_of_takesOver (h : takesOver name uuid e = true) :
    ∃ owner, acquired? e = some (name, owner) ∧ owner ≠ .oaiHarvest uuid := by
  unfold takesOver at h
  rw [Option.any_eq_true] at h
  rcases h with ⟨⟨n, owner⟩, hacquired, hother⟩
  simp only [Bool.and_eq_true, decide_eq_true_eq] at hother
  rcases hother with ⟨rfl, hne⟩
  exact ⟨owner, hacquired, hne⟩

/-- Who acquires the lease of a scope does so under its own token, and has no scope yet. -/
theorem Performs.acquires (he : Performs pre e o r) (hname : name ≠ Limiter.leaseName)
    {timeout : Int} (ho : o = .lease (.acquireLease name (.oaiHarvest uuid) timeout)) :
    (walkOf e.pid pre).scope = none ∧ (walkOf e.pid pre).uuid = some uuid := by
  have hallowed := he.allowed
  subst ho
  rcases hallowed with hlimiter | ⟨hscope, uuid', huuid, howner⟩
  · exact absurd hlimiter hname
  · cases howner
    exact ⟨hscope, huuid⟩

theorem Performs.held_once (he : Performs pre e o r) (hplaced : Placed pre) (hL : Lost pre)
    (hname : name ≠ Limiter.leaseName) (hheld : Held name uuid (e :: pre)) :
    uuid < (stateAfter (e :: pre)).nextUuid ∧ ∀ p, (walkOf p (e :: pre)).uuid = some uuid →
      (walkOf p (e :: pre)).scope.isSome = true := by
  have hnext : (stateAfter pre).nextUuid ≤ (stateAfter (e :: pre)).nextUuid :=
    Queue.nextUuid_le he.performed
  rcases held_cons.1 hheld with hnew | hold
  · rcases acquired?_of_some hnew with ⟨timeout, ha⟩
    have hsame := he.action.symm.trans ha
    cases hsame
    rcases he.acquires hname rfl with ⟨_, huuid⟩
    refine ⟨Nat.lt_of_lt_of_le (hplaced.drawn _ _ huuid) hnext, ?_⟩
    intro p hp
    by_cases hpid : e.pid = p
    · subst hpid
      rw [he.self]
      simp [WalkView.step, hname]
    · rw [walkOf_of_ne pre hpid] at hp
      exact absurd (hplaced.distinct _ _ uuid huuid hp) hpid
  · rcases hL.once name uuid hname hold with ⟨hlt, hscope⟩
    refine ⟨Nat.lt_of_lt_of_le hlt hnext, ?_⟩
    intro p hp
    by_cases hpid : e.pid = p
    · subst hpid
      rw [he.self] at hp ⊢
      rcases uuid_step (walkOf e.pid pre) o r with hsame | ⟨drawn, rfl, hdrawn, hr⟩
      · rw [hsame] at hp
        exact scope_step _ o r (hscope e.pid hp)
      · -- A new token is none that was drawn before.
        cases hr
        have hfresh := (drawn_of_answer he.performed).1
        rw [hdrawn, hfresh] at hp
        cases hp
        exact absurd hlt (Nat.lt_irrefl _)
    · rw [walkOf_of_ne pre hpid] at hp ⊢
      exact hscope p hp

theorem Performs.lost (he : Performs pre e o r) (hL : Lost pre)
    (hname : name ≠ Limiter.leaseName) (hovertaken : Overtaken name uuid (e :: pre)) :
    (stateAfter (e :: pre)).leases.ownedBy name (.oaiHarvest uuid) = false := by
  rw [← Bool.not_eq_true]
  intro howned
  have hheld : Held name uuid pre := by
    rcases hovertaken with ⟨_, hheld⟩ | hbefore
    · exact hheld
    · exact hbefore.held
  rcases ownedBy_of_performed he.performed howned with hbefore | ⟨timeout, ho⟩
  · rcases hovertaken with ⟨htakes, _⟩ | hovertaken
    · rcases owner_of_takesOver htakes with ⟨owner, hacquired, hother⟩
      rcases acquired?_of_some hacquired with ⟨timeout, ha⟩
      have hsame := he.action.symm.trans ha
      cases hsame
      exact hother (owner_of_acquired he.performed howned).symm
    · rw [hL.lost name uuid hname hovertaken] at hbefore
      cases hbefore
  · -- It would have to acquire the lease again.
    rcases he.acquires hname ho with ⟨hscope, huuid⟩
    have hsome := (hL.once name uuid hname hheld).2 e.pid huuid
    rw [hscope] at hsome
    cases hsome

/-- An event that is no operation acquires nothing, and its process forgets its token. -/
theorem lost_idle (hlegal : Legal pre e) (ha : ∀ o r, e.action ≠ .op o r) (hL : Lost pre) :
    Lost (e :: pre) := by
  have hstate : stateAfter (e :: pre) = stateAfter pre := Queue.after_eq_of_not_op hlegal ha
  have hnone : acquired? e = none := by
    unfold acquired?
    split
    · exact absurd ‹_› (ha _ _)
    · rfl
  have hforgets : walkOf e.pid (e :: pre) = {} := by
    cases hact : e.action with
    | start c => exact walkOf_of_start pre hact
    | op o r => exact absurd hact (ha o r)
    | crash => exact walkOf_of_crash pre hact
  refine ⟨?_, ?_⟩
  · intro name uuid hname hheld
    rcases held_cons.1 hheld with hnew | hold
    · rw [hnone] at hnew
      cases hnew
    · rcases hL.once name uuid hname hold with ⟨hlt, hscope⟩
      rw [hstate]
      refine ⟨hlt, ?_⟩
      intro p hp
      by_cases hpid : e.pid = p
      · subst hpid
        rw [hforgets] at hp
        cases hp
      · rw [walkOf_of_ne pre hpid] at hp ⊢
        exact hscope p hp
  · intro name uuid hname hovertaken
    rw [hstate]
    rcases hovertaken with ⟨htakes, _⟩ | hbefore
    · simp [takesOver, hnone] at htakes
    · exact hL.lost name uuid hname hbefore

theorem lost_nil : Lost ([] : History (fleet d)) where
  once := by
    rintro name uuid _ ⟨e, he, _⟩
    cases he
  lost _ _ _ h := h.elim

/-- What every event of a run finds of the processes and their tokens. -/
structure Ranked (pre : History (fleet d)) (e : Event (fleet d)) : Prop where
  legal : Legal pre e
  walks : Disciplined walks (walkMonitor : Monitor (fleet d) WalkView).view pre e
  placed : Placed pre

theorem Ranked.performs (h : Ranked pre e) (ha : e.action = .op o r) : Performs pre e o r :=
  ⟨ha, h.walks.1 o r ha, Queue.performed_of_op h.legal ha, h.legal.before_eq⟩

theorem lost_step (h : Ranked pre e) (hL : Lost pre) : Lost (e :: pre) := by
  by_cases ha : ∃ o r, e.action = .op o r
  · rcases ha with ⟨o, r, ha⟩
    have he := h.performs ha
    exact ⟨fun _ _ hname hheld => he.held_once h.placed hL hname hheld,
      fun _ _ hname hovertaken => he.lost hL hname hovertaken⟩
  · exact lost_idle h.legal (fun o r h => ha ⟨o, r, h⟩) hL

/-- Who owns the lease of a scope was not overtaken. -/
theorem staleFenced_of_owned (h : Ranked pre e) (hL : Lost pre) (howned : WritesOwned pre e) :
    StaleFenced pre e := by
  intro uuid huuid job hjob hovertaken
  have hlost := hL.lost _ uuid (oaiScopeLeaseName_ne job.request) hovertaken
  have hwrites : writes? e ≠ some job.harvestId := by
    intro hwrites
    rcases howned job hjob hwrites with ⟨uuid', huuid', howns⟩
    rw [Option.mem_def.1 huuid'] at huuid
    cases huuid
    rw [h.legal.before_eq, hlost] at howns
    cases howns
  by_cases ha : ∃ o r, e.action = .op o r
  · rcases ha with ⟨o, r, ha⟩
    have hwritten : written? o ≠ some job.harvestId := by
      simpa only [writes?, ha] using hwrites
    rw [h.legal.before_eq] at hjob ⊢
    exact unchanged_of_performed h.placed.filed (h.performs ha).performed
      (job?_of_mem h.placed.filed hjob) hwritten
  · have hstate : e.after = stateAfter pre :=
      Queue.after_eq_of_not_op h.legal fun o r h => ha ⟨o, r, h⟩
    rw [h.legal.before_eq] at hjob ⊢
    rw [hstate]
    exact ⟨job?_of_mem h.placed.filed hjob, rfl⟩

end Events

/-! ## The theorem -/

theorem ranked_after (d : Deployment) (sched : List (Config.Choice (fleet d))) :
    Throughout Ranked (Config.after (fleet d) sched).history := by
  refine ((Config.legal_after (fleet d) sched).and (walks_after d sched)).with_past.mono ?_
  rintro pre e ⟨⟨hlegal, hwalks⟩, hpast⟩
  have haccounted := hpast.invariant accounted_nil fun _ _ hA h => accounted_step h.1 h.2 hA
  exact ⟨hlegal, hwalks, haccounted.placed⟩

section Decide

variable (name : LeaseName) (uuid : Uuid)

instance (h : History (fleet d)) : Decidable (Held name uuid h) :=
  inferInstanceAs (Decidable (∃ e ∈ h, acquired? e = some (name, .oaiHarvest uuid)))

instance instDecidableOvertaken : (h : History (fleet d)) → Decidable (Overtaken name uuid h)
  | [] => isFalse id
  | e :: pre =>
      have := instDecidableOvertaken pre
      inferInstanceAs (Decidable ((takesOver name uuid e = true ∧ Held name uuid pre) ∨
        Overtaken name uuid pre))

instance (pre : History (fleet d)) (e : Event (fleet d)) : Decidable (StaleFenced pre e) :=
  inferInstanceAs (Decidable (∀ uuid ∈ (walkOf e.pid pre).uuid, ∀ job ∈ e.before.oai.jobs,
    Overtaken (oaiScopeLeaseName job.request) uuid pre →
      e.after.oai.job? job.harvestId = some job ∧
        pagesOf job.harvestId e.after.oai = pagesOf job.harvestId e.before.oai))

instance (pre : History (fleet d)) (e : Event (fleet d)) : Decidable (WritesOwned pre e) :=
  inferInstanceAs (Decidable (∀ job ∈ e.before.oai.jobs, writes? e = some job.harvestId →
    ∃ uuid ∈ (walkOf e.pid pre).uuid,
      e.before.leases.ownedBy (oaiScopeLeaseName job.request) (.oaiHarvest uuid) = true))

end Decide

/-- Process 0 stalls when it has counted its request; process 1 takes its scope over and commits the
page; process 0 finds the lease lost and goes. -/
def fencedOff : List (Config.Choice (fleet {})) :=
  .start 0 (.harvestOai {}) :: runs 0 21 ++ .tick 700000000 :: .start 1 (.harvestOai {}) ::
    runs 1 20 ++ .run 1 (pageBefore firstToken) :: runs 1 6 ++ runs 0 10

/-- Process 0 stalls before it counts its request; process 1 takes its scope over and commits the
page; after the deadline process 0 ends the job, and sets it back to before that page. -/
def setBack : List (Config.Choice (fleet {})) :=
  .start 0 (.harvestOai {}) :: runs 0 17 ++ .tick 700000000 :: .start 1 (.harvestOai {}) ::
    runs 1 21 ++ .run 1 (pageBefore firstToken) :: runs 1 6 ++ .tick 3600000000 :: runs 0 12

end Harvest
end Huldra
