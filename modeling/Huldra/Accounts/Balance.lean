import Huldra.Accounts.Inline
import Huldra.Process.Totals

/-!
# Balance — every fetch is counted once

Over all processes the counts of the cache entries add up to the calls of the fetcher, as long as
every fetch comes to one of the outcomes that a pass knows: then the pass goes on to complete its
item or to put it off.
-/

namespace Huldra
namespace Accounts

open Process (Prog Discipline)
open Process.System (Config Event History Throughout Legal Disciplined Monitor stateAfter total
  totalOf totalOf_cons_self totalOf_cons_of_ne added)

section Runs

variable {d : Deployment}

/-! ## The clients -/

/-- A maintenance call reports the fetches of its process. -/
def Reported (x : Tally) : ArchiveOutcome → Prop
  | .maintenance result => x.fetches = result.upstreamRequestsTotal
  | _ => True

theorem tallied_client (c : Client) (pid : Nat) :
    Tallied (c.program d pid) {} fun _ _ => True := by
  have hfeeding := Worker.feeding_program d c pid
  have hfed : ∀ {p : Program Outcome}, p.AllOps Worker.Feeding → Tallied p {} fun _ _ => True :=
    fun h => Prog.wp_mono (fun _ _ _ => trivial) (fun _ _ h => h) _ _
      (tallied_still (h.mono fun _ => .of_feeding) rfl)
  cases c with
  | runOnce targets => exact (tallied_runOnce rfl targets).bind fun _ _ _ => trivial
  | harvestOai request =>
      exact .bind_still ((Harvest.harvesting_harvestOai request).mono fun _ => .of_harvesting) rfl
        fun _ => trivial
  | enqueueRequestForWork request cacheKey workKind budgetId => exact hfed hfeeding
  | enqueueRefreshIfDue request cacheKey => exact hfed hfeeding
  | createUpstreamRequestBudget maxRequests deadlineAt => exact hfed hfeeding
  | failActiveUpstreamBudgetItems budgetId category message => exact hfed hfeeding

theorem accounted_program (c : ArchiveClient) (pid : Nat) :
    Accounted d (c.program d pid) {} Reported := by
  have hstill : ∀ {β : Type} {p : ArchiveProgram β} {f : β → ArchiveOutcome}, Stilly p →
      (∀ b x, Reported x (f b)) → Accounted d (p >>= fun b => pure (f b)) {} Reported := by
    intro β p f hp hf
    refine (Prog.wp_bind ..).2 (Prog.wp_mono ?_ (fun _ _ h => h) p _ (reports_still hp))
    exact fun x b _ => hf b x
  cases c with
  | store c =>
      refine (Prog.wp_bind ..).2 (Prog.wp_mono ?_ (fun _ _ h => h) _ _
        (accounted_embed (tallied_client c pid)))
      exact fun _ _ _ => trivial
  | ensure request => exact hstill (stilly_embed (quietly_ensure request)) fun _ _ => trivial
  | syncWindows call rounds =>
      refine (Prog.wp_bind ..).2 (Prog.wp_mono ?_ (fun _ _ h => h) _ _
        (Inline.reports_syncWindows call rounds))
      rintro _ result rfl
      rfl
  | gc cutoff dryRun => exact hstill (.call trivial) fun _ _ => trivial

/-! ## What a run shows -/

/-- The event is a call of the fetcher. -/
def fetchCall (e : Event (archiveFleet d)) : Nat :=
  match e.action with
  | .op (.store o) _ => if begins o = true then 1 else 0
  | _ => 0

/-- The calls of the fetcher. -/
def fetchCalls (h : History (archiveFleet d)) : Nat :=
  total fetchCall h

/-- The calls of the fetcher by the process `pid`, since it was started last. -/
def fetchCallsOf (pid : Nat) : History (archiveFleet d) → Nat
  | [] => 0
  | e :: pre =>
      if e.pid = pid then
        match e.action with
        | .start _ => 0
        | _ => fetchCall e + fetchCallsOf pid pre
      else fetchCallsOf pid pre

/-- Since it was started last, the process has called the fetcher and has since then neither
completed an item nor put one off. -/
def pending (pid : Nat) : History (archiveFleet d) → Bool
  | [] => false
  | e :: pre =>
      if e.pid = pid then
        match e.action with
        | .start _ => false
        | .op (.store o) _ =>
            if begins o = true then true else if settles o = true then false else pending pid pre
        | _ => pending pid pre
      else pending pid pre

def starts (e : Event (archiveFleet d)) : Bool :=
  match e.action with
  | .start _ => true
  | _ => false

/-- Every fetch has come to an outcome that its pass knows: nowhere has a process been started again
that was still to complete its item or put it off, and none is now. -/
structure Classified (h : History (archiveFleet d)) : Prop where
  before_start : Throughout (fun pre e => starts e = true → pending e.pid pre = false) h
  at_end : ∀ e ∈ h, pending e.pid h = false

/-! ## The balance of a process -/

/-- What a monitor makes of the process. -/
abbrev tallyOf (pid : Nat) (h : History (archiveFleet d)) : Tally :=
  (tallyMonitor d).view pid h

/-- What the event adds to the counts of the entries. -/
abbrev grown (e : Event (archiveFleet d)) : Nat :=
  added (S := archiveFleet d) cacheRequestsTotal e

/-- A process in this phase has added so much to the counts and called the fetcher so often. -/
def Balanced (phase : Phase) (counted called : Nat) : Prop :=
  match phase with
  | .settled | .counted => counted = called
  | .owing => counted + 1 = called
  | .unclear => True

/-- The discipline every run keeps. -/
abbrev Kept (pre : History (archiveFleet d)) (e : Event (archiveFleet d)) : Prop :=
  Disciplined ((tallyMonitor d).discipline Tally.AllowedArchive) (tallyMonitor d).view pre e

theorem pending_eq {h : History (archiveFleet d)} (hkept : Throughout Kept h) (pid : Nat) :
    pending pid h = decide ((tallyOf pid h).phase ≠ .settled) := by
  induction h with
  | nil => rfl
  | cons e pre ih =>
      have hpre := ih hkept.tail
      by_cases hpid : e.pid = pid
      · subst hpid
        have hallowed := hkept.head.1
        simp only [pending, if_true]
        cases ha : e.action with
        | start c => rw [tallyOf, (tallyMonitor d).view_of_start pre ha]; rfl
        | crash => rw [tallyOf, (tallyMonitor d).view_of_crash pre ha]; exact hpre
        | op o r =>
            rw [tallyOf, (tallyMonitor d).view_of_op pre ha]
            cases o with
            | job o => exact hpre
            | store o =>
                have hallow : (tallyOf e.pid pre).Allowed o := hallowed _ r ha
                change _ = decide (((tallyOf e.pid pre).step o r).phase ≠ .settled)
                dsimp only
                unfold Tally.step
                split
                · rfl
                · split
                  · rfl
                  · split
                    · exact hpre
                    · rename_i hcounted
                      have howing := (hallow.counted hcounted).2
                      rw [hpre, howing]
                      cases r <;> rfl
      · have hview : tallyOf pid (e :: pre) = tallyOf pid pre :=
          (tallyMonitor d).view_of_ne pre hpid
        rw [hview, ← hpre]
        simp [pending, hpid]

/-- What one operation does to the balance of its process. -/
theorem balanced_op {x : Tally} {o : ArchiveOp} {t : Int} {r : Except Exn o.Res} {a a' : Archive}
    (hallowed : x.AllowedArchive o) (hperformed : Archive.Performed o t r a a')
    (hkeyed : Keyed a.store.library) {m n : Nat} (h : Balanced x.phase m n) :
    Balanced (x.stepArchive o r).phase (cacheRequestsTotal a' - cacheRequestsTotal a + m)
      ((match o with
        | .store o => if begins o = true then 1 else 0
        | .job _ => 0) + n) := by
  have htotal := total_performed hperformed hkeyed
  cases o with
  | job o =>
      have hsame : cacheRequestsTotal a' = cacheRequestsTotal a := by
        rcases htotal.1 with heq | heq
        · exact heq
        · exact heq
      rw [hsame, Nat.sub_self, Nat.zero_add, Nat.zero_add]
      exact h
  | store o =>
      change Balanced (x.step o r).phase _ ((if begins o = true then 1 else 0) + n)
      have hallow : x.Allowed o := hallowed
      by_cases hcounted : counted o = 0
      · have hsame : cacheRequestsTotal a' = cacheRequestsTotal a := by
          rcases htotal.1 with heq | heq
          · exact heq
          · exact heq.trans (congrArg _ hcounted)
        rw [hsame, Nat.sub_self, Nat.zero_add]
        unfold Tally.step
        by_cases hbegins : begins o = true
        · rw [hallow.begun hbegins] at h
          rw [if_pos hbegins, if_pos hbegins]
          change m + 1 = 1 + n
          change m = n at h
          omega
        · rw [if_neg hbegins, if_neg hbegins, Nat.zero_add]
          by_cases hsettles : settles o = true
          · rw [if_pos hsettles]
            rcases hallow.settled hsettles with hphase | hphase
            · rw [hphase] at h
              exact h
            · rw [hphase] at h
              exact h
          · rw [if_neg hsettles, if_pos hcounted]
            exact h
      · -- One request is counted, for the fetch that the process owes.
        rcases hallow.counted hcounted with ⟨hone, howing⟩
        have hplain : begins o = false ∧ settles o = false := by
          unfold counted at hcounted
          split at hcounted
          · exact ⟨rfl, rfl⟩
          · exact ⟨rfl, rfl⟩
          · exact absurd rfl hcounted
        rw [howing] at h
        change m + 1 = n at h
        simp only [Tally.step, hplain.1, hplain.2, hcounted, Bool.false_eq_true, if_false]
        cases r with
        | error e => trivial
        | ok b =>
            have hgrown : cacheRequestsTotal a' = cacheRequestsTotal a + 1 :=
              (htotal.2 b rfl).trans (congrArg _ hone)
            change cacheRequestsTotal a' - cacheRequestsTotal a + m = 0 + n
            omega

/-- Where no process has been started again too early, every process is in balance. -/
theorem balanced {h : History (archiveFleet d)} (hlegal : Throughout Legal h)
    (hkept : Throughout Kept h)
    (hstarts : Throughout (fun pre e => starts e = true → pending e.pid pre = false) h) :
    Keyed (stateAfter h).store.library ∧
      ∀ pid, Balanced (tallyOf pid h).phase (totalOf pid grown h) (totalOf pid fetchCall h) := by
  induction h with
  | nil => exact ⟨List.nodup_nil, fun _ => rfl⟩
  | cons e pre ih =>
      rcases ih hlegal.tail hkept.tail hstarts.tail with ⟨hkeyed, hpre⟩
      rw [← hlegal.head.before_eq] at hkeyed
      have hself := hpre e.pid
      have hquiet : e.after = e.before → grown e = 0 := by
        intro hsame
        change cacheRequestsTotal e.after - cacheRequestsTotal e.before = 0
        rw [hsame, Nat.sub_self]
      have hstep : Keyed e.after.store.library ∧ Balanced (tallyOf e.pid (e :: pre)).phase
          (grown e + totalOf e.pid grown pre) (fetchCall e + totalOf e.pid fetchCall pre) := by
        cases ha : e.action with
        | start c =>
            have hsame := hlegal.head.after_eq_of_start ha
            have hsettled : pending e.pid pre = false := by
              refine hstarts.head ?_
              rw [starts, ha]
            have hphase : (tallyOf e.pid pre).phase = .settled := by
              rw [pending_eq hkept.tail] at hsettled
              simpa using hsettled
            rw [hphase] at hself
            rw [hquiet hsame, fetchCall, ha, Nat.zero_add, Nat.zero_add, tallyOf,
              (tallyMonitor d).view_of_start pre ha, hsame]
            exact ⟨hkeyed, hself⟩
        | crash =>
            have hsame := hlegal.head.after_eq_of_crash ha
            rw [hquiet hsame, fetchCall, ha, Nat.zero_add, Nat.zero_add, tallyOf,
              (tallyMonitor d).view_of_crash pre ha, hsame]
            exact ⟨hkeyed, hself⟩
        | op o r =>
            have hperformed : Archive.Performed o e.time r e.before e.after :=
              hlegal.head.executed ha
            have hbalanced := balanced_op (hkept.head.1 o r ha) hperformed hkeyed hself
            refine ⟨keyed_performed hperformed hkeyed, ?_⟩
            rw [tallyOf, (tallyMonitor d).view_of_op pre ha, fetchCall, ha]
            cases o with
            | store o => exact hbalanced
            | job o => exact hbalanced
      refine ⟨hstep.1, fun pid => ?_⟩
      by_cases hpid : e.pid = pid
      · subst hpid
        rw [totalOf_cons_self, totalOf_cons_self]
        exact hstep.2
      · have hview : tallyOf pid (e :: pre) = tallyOf pid pre :=
          (tallyMonitor d).view_of_ne pre hpid
        rw [totalOf_cons_of_ne _ pre hpid, totalOf_cons_of_ne _ pre hpid, hview]
        exact hpre pid

theorem totalOf_of_absent {pid : Nat} {n : Event (archiveFleet d) → Nat}
    {h : History (archiveFleet d)} (habsent : ∀ e ∈ h, e.pid ≠ pid) : totalOf pid n h = 0 := by
  have hnone : (h.filter fun e => decide (e.pid = pid)) = [] := by
    rw [List.filter_eq_nil_iff]
    intro e he
    simpa using habsent e he
  rw [totalOf, hnone]
  rfl

/-! ## All processes -/

/-- No event takes anything off the counts. -/
theorem grows {h : History (archiveFleet d)} (hlegal : Throughout Legal h) :
    Keyed (stateAfter h).store.library ∧
      Throughout (fun _ e => cacheRequestsTotal e.before ≤ cacheRequestsTotal e.after) h := by
  induction h with
  | nil => exact ⟨List.nodup_nil, trivial⟩
  | cons e pre ih =>
      rcases ih hlegal.tail with ⟨hkeyed, hpre⟩
      rw [← hlegal.head.before_eq] at hkeyed
      have hstep : Keyed e.after.store.library ∧
          cacheRequestsTotal e.before ≤ cacheRequestsTotal e.after := by
        cases ha : e.action with
        | start c =>
            rw [hlegal.head.after_eq_of_start ha]
            exact ⟨hkeyed, Nat.le_refl _⟩
        | crash =>
            rw [hlegal.head.after_eq_of_crash ha]
            exact ⟨hkeyed, Nat.le_refl _⟩
        | op o r =>
            have hperformed : Archive.Performed o e.time r e.before e.after :=
              hlegal.head.executed ha
            refine ⟨keyed_performed hperformed hkeyed, ?_⟩
            rcases (total_performed hperformed hkeyed).1 with heq | heq
            · exact Nat.le_of_eq heq.symm
            · omega
      exact ⟨hstep.1, hstep.2, hpre⟩

theorem fetches_eq (pid : Nat) (h : History (archiveFleet d)) :
    (tallyOf pid h).fetches = fetchCallsOf pid h := by
  induction h with
  | nil => rfl
  | cons e pre ih =>
      by_cases hpid : e.pid = pid
      · subst hpid
        simp only [fetchCallsOf, fetchCall, if_true]
        cases ha : e.action with
        | start c => rw [tallyOf, (tallyMonitor d).view_of_start pre ha]; rfl
        | crash =>
            rw [tallyOf, (tallyMonitor d).view_of_crash pre ha, Nat.zero_add]
            exact ih
        | op o r =>
            rw [tallyOf, (tallyMonitor d).view_of_op pre ha, ← ih]
            cases o with
            | job o => exact (Nat.zero_add _).symm
            | store o =>
                change ((tallyOf e.pid pre).step o r).fetches =
                  (if begins o = true then 1 else 0) + (tallyOf e.pid pre).fetches
                unfold Tally.step
                split
                · exact Nat.add_comm _ _
                · rw [Nat.zero_add]
                  split
                  · rfl
                  · split
                    · rfl
                    · cases r <;> rfl
      · have hview : tallyOf pid (e :: pre) = tallyOf pid pre :=
          (tallyMonitor d).view_of_ne pre hpid
        rw [hview, ih]
        simp [fetchCallsOf, hpid]

/-- In every run whose fetches have all come to an outcome that their passes know, the counts of the
entries add up to the calls of the fetcher; and a maintenance call that has returned reports the
calls it has made itself. -/
theorem fetches_accounted (d : Deployment) (sched : List (Config.Choice (archiveFleet d))) :
    (Classified (Config.after (archiveFleet d) sched).history →
        cacheRequestsTotal (Config.after (archiveFleet d) sched).state =
          fetchCalls (Config.after (archiveFleet d) sched).history) ∧
      ∀ pid result,
        (Config.after (archiveFleet d) sched).procs pid = some (.ret (.maintenance result)) →
          result.upstreamRequestsTotal =
            fetchCallsOf pid (Config.after (archiveFleet d) sched).history := by
  have hexplained := Config.explained_after (archiveFleet d) sched
  have hmonitor : (tallyMonitor d).Kept fun _ _ => True :=
    ⟨fun _ => trivial, fun _ _ _ _ _ => trivial, fun _ _ _ _ _ _ => trivial, fun _ _ _ => trivial⟩
  have hkept : Throughout Kept (Config.after (archiveFleet d) sched).history :=
    (tallyMonitor d).disciplined_after hmonitor
      (fun pid _ c _ _ _ => Prog.keeps_of_wp (accounted_program c pid)) sched
  have hended := ((tallyMonitor d).ended_after hmonitor
    (Q := fun _ x out => Reported x out)
    (fun pid _ c _ _ _ => accounted_program c pid) sched).1
  constructor
  · intro hclassified
    have hbalanced := (balanced hexplained.legal hkept hclassified.before_start).2
    rw [hexplained.state_eq, Process.System.measure_stateAfter (grows hexplained.legal).2
      hexplained.legal]
    change 0 + total grown _ = total fetchCall _
    rw [Nat.zero_add]
    refine Process.System.total_eq_of_totalOf fun pid => ?_
    by_cases hpresent : ∃ e ∈ (Config.after (archiveFleet d) sched).history, e.pid = pid
    · rcases hpresent with ⟨e, he, rfl⟩
      have hsettled := hclassified.at_end e he
      rw [pending_eq hkept, decide_eq_false_iff_not, Classical.not_not] at hsettled
      have hself := hbalanced e.pid
      rw [hsettled] at hself
      exact hself
    · have habsent : ∀ e ∈ (Config.after (archiveFleet d) sched).history, e.pid ≠ pid :=
        fun e he heq => hpresent ⟨e, he, heq⟩
      rw [totalOf_of_absent habsent, totalOf_of_absent habsent]
  · intro pid result hret
    have hreported : Reported (tallyOf pid (Config.after (archiveFleet d) sched).history)
        (.maintenance result) := hended pid _ hret
    exact (fetches_eq pid _).symm.trans hreported |>.symm

/-- A maintenance call that waits for one window, and what the server answers to it. -/
def waitedFor : List (Config.Choice (archiveFleet {})) :=
  .start 0 (.syncWindows
      { requests := [{ clientId := "maintenance", searchQuery := some "cat:cs.AI" }]
        wait := true } 2) ::
    List.replicate 68
      (.run 0 { fetch := .ok { papers := [], totalResults := some 0, upstreamStatus := 200 } })

theorem reported_of_returned (proc : Option (Prog archive ArchiveOutcome))
    (h : (match proc with
      | some (.ret (.maintenance _)) => true
      | _ => false) = true) : ∃ result, proc = some (.ret (.maintenance result)) := by
  split at h
  · exact ⟨_, rfl⟩
  · cases h

/-- The call fetches its window itself: the entry counts one request, and the call reports one. -/
theorem fetches_accounted_inline :
    cacheRequestsTotal (Config.after (archiveFleet {}) waitedFor).state = 1 ∧
      ∃ result,
        (Config.after (archiveFleet {}) waitedFor).procs 0 = some (.ret (.maintenance result)) ∧
          result.upstreamRequestsTotal = 1 := by
  have hclassified : Classified (Config.after (archiveFleet {}) waitedFor).history :=
    ⟨by decide +kernel, by decide +kernel⟩
  have hone : fetchCalls (Config.after (archiveFleet {}) waitedFor).history = 1 ∧
      fetchCallsOf 0 (Config.after (archiveFleet {}) waitedFor).history = 1 := by
    decide +kernel
  rcases reported_of_returned ((Config.after (archiveFleet {}) waitedFor).procs 0)
    (by decide +kernel) with ⟨result, hresult⟩
  refine ⟨((fetches_accounted {} waitedFor).1 hclassified).trans hone.1, result, hresult, ?_⟩
  exact ((fetches_accounted {} waitedFor).2 0 result hresult).trans hone.2

end Runs

end Accounts
end Huldra
