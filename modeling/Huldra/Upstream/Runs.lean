import Huldra.Upstream.Harvests
import Huldra.Clients

/-!
# Runs — every run of the fleet keeps to the phases

Each client was shown to keep to the phases on its own; here the runs of all of them together are.
-/

namespace Huldra
namespace Upstream

open Process
open Process.System (Config Throughout Disciplined History Event Legal)

/-! ## What a monitor has seen of each process -/

section Seen

variable {Client Out : Type} {program : Client → Nat → Process.Prog huldra Out}
variable (entry : Entry Client)

/-- What the monitor has seen of the process `p`. -/
abbrev seen (p : Nat) (h : History (storeSystem Client Out program)) : View :=
  (monitor entry).view p h

variable (pre : History (storeSystem Client Out program))
  {e : Event (storeSystem Client Out program)}

theorem seen_of_ne {p : Nat} (hne : e.pid ≠ p) : seen entry p (e :: pre) = seen entry p pre :=
  (monitor entry).view_of_ne pre hne

theorem seen_of_op {o : Op} {r : Except Exn o.Res} (ha : e.action = .op o r) :
    seen entry e.pid (e :: pre) = (seen entry e.pid pre).step o r e.time :=
  (monitor entry).view_of_op pre ha

theorem phase_seen_of_start {c : Client} (ha : e.action = .start c) :
    (seen entry e.pid (e :: pre)).phase = .idle ∨
      (seen entry e.pid (e :: pre)).phase =
        .fetched (seen entry e.pid pre).phase.admission? e.time := by
  have hview := congrArg View.phase ((monitor entry).view_of_start pre ha)
  rcases entry.phase_cases c (seen entry e.pid pre).phase e.time with hidle | hfetched
  · exact Or.inl (hview.trans hidle)
  · exact Or.inr (hview.trans hfetched)

theorem phase_seen_of_crash (ha : e.action = .crash) :
    (seen entry e.pid (e :: pre)).phase = .idle :=
  congrArg View.phase ((monitor entry).view_of_crash pre ha)

theorem kept_pid : (monitor entry : System.Monitor (storeSystem Client Out program) View).Kept
    fun pid x => x.pid = pid where
  initial _ := rfl
  start _ _ _ _ h := h
  step _ _ _ _ _ h := h
  crash _ _ h := h

end Seen

/-! ## The fleet -/

/-- The tokens a process may use on the upstream lease: a worker its own, a harvest that of its
job. -/
def ownToken (pid : Nat) : OwnerToken → Prop
  | .worker m => m = pid
  | .oai _ => True
  | .inlineWorker _ | .oaiHarvest _ => False

/-- A client of the fleet begins with nothing under way. -/
def fleetEntry : Entry Client where
  phase _ _ _ := .idle
  phase_cases _ _ _ := Or.inl rfl

abbrev fleetMonitor (d : Deployment) : System.Monitor (fleet d) View :=
  monitor fleetEntry

theorem quiet_enqueue (d : Deployment) (c : Client) (pid : Nat) :
    (match c with
    | .runOnce _ | .harvestOai _ => True
    | _ => (c.program d pid).AllOps Quiet) := by
  cases c with
  | runOnce targets => trivial
  | harvestOai request => trivial
  | enqueueRequestForWork request cacheKey workKind budgetId =>
      exact .bind (.bind quiet_utcNow fun _ => .call trivial) fun _ => .ret _
  | enqueueRefreshIfDue request cacheKey =>
      exact .bind (.bind quiet_utcNow fun _ => .call trivial) fun _ => .ret _
  | createUpstreamRequestBudget maxRequests deadlineAt =>
      refine .bind ?_ fun _ => .ret _
      unfold createUpstreamRequestBudget
      split
      · exact .raise _
      · exact .bind quiet_utcNow fun _ => .call trivial
  | failActiveUpstreamBudgetItems budgetId category message =>
      exact .bind (.bind quiet_utcNow fun _ => .call trivial) fun _ => .ret _

/-- Every client keeps to the phases from where it begins. -/
theorem keeps_program (d : Deployment) (c : Client) {pid : Nat} {x : View} (hx : Calm pid x) :
    (c.program d pid).Keeps (conduct d ownToken) x := by
  have hquiet := quiet_enqueue d c pid
  cases c with
  | runOnce targets =>
      exact (Prog.wp_bind _ _ _ _ _).2 (Prog.wp_mono (fun _ _ _ => trivial)
        (fun _ _ _ => trivial) _ _ (wp_runOnce (w := ⟨d, .worker pid⟩) hx rfl rfl targets))
  | harvestOai request =>
      exact (Prog.wp_bind _ _ _ _ _).2 (Prog.wp_mono (fun _ _ _ => trivial)
        (fun _ _ _ => trivial) _ _ (wp_harvestOai hx (fun _ => trivial) request))
  | enqueueRequestForWork request cacheKey workKind budgetId =>
      exact Prog.keeps_of_wp (wp_quiet_calm hquiet hx)
  | enqueueRefreshIfDue request cacheKey => exact Prog.keeps_of_wp (wp_quiet_calm hquiet hx)
  | createUpstreamRequestBudget maxRequests deadlineAt =>
      exact Prog.keeps_of_wp (wp_quiet_calm hquiet hx)
  | failActiveUpstreamBudgetItems budgetId category message =>
      exact Prog.keeps_of_wp (wp_quiet_calm hquiet hx)

/-- A client of the fleet begins idle. -/
theorem phase_of_start {d : Deployment} (pre : History (fleet d)) {e : Event (fleet d)}
    {c : Client} (h : e.action = .start c) : (seen fleetEntry e.pid (e :: pre)).phase = .idle :=
  congrArg View.phase ((fleetMonitor d).view_of_start pre h)

theorem pid_seen {d : Deployment} (p : Nat) (h : History (fleet d)) :
    (seen fleetEntry p h).pid = p :=
  (kept_pid fleetEntry).view _ p h

/-- In every run of the fleet, every operation was allowed in the phase of its process. -/
theorem conduct_after (d : Deployment) (sched : List (Config.Choice (fleet d))) :
    Throughout (Disciplined (conduct d ownToken) (fleetMonitor d).view)
      (Config.after (fleet d) sched).history := by
  refine (fleetMonitor d).disciplined_after (kept_pid fleetEntry) ?_ sched
  intro pid x c t hpid _
  exact keeps_program d c ⟨hpid, rfl⟩

end Upstream
end Huldra
