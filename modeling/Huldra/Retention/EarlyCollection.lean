import Huldra.ArchiveClients
import Huldra.Queue.Ledger
import Huldra.Retention.Absorb

/-!
# EarlyCollection — collections in the states a run can reach

The keys of the jobs are unique in every run, so an early collection is absorbed unless it strands
a job.  A worker that fails an item for its budget leaves no cache entry; where this happens while
the maintenance call hands the item over, an early collection strands the job.
-/

namespace Huldra
namespace Archive

open Process.System (Config)

/-- The jobs have different identifiers, all drawn before. -/
structure JobsKeyed (a : Archive) : Prop where
  nodup : (a.jobs.syncJobs.map (·.syncJobId)).Nodup
  drawn : ∀ job ∈ a.jobs.syncJobs, job.syncJobId < a.store.nextUuid

theorem JobsKeyed.of_sublist {a a' : Archive} (h : a.JobsKeyed)
    (hjobs : a'.jobs.syncJobs.Sublist a.jobs.syncJobs)
    (hdraws : a.store.nextUuid ≤ a'.store.nextUuid) : a'.JobsKeyed where
  nodup := h.nodup.sublist (hjobs.map _)
  drawn job hjob := (h.drawn job (hjobs.subset hjob)).trans_le hdraws

theorem exec_nextUuid_le (o : Op) (t : Int) (input : Input) (s : Store) :
    s.nextUuid ≤ (Store.exec o t input s).2.nextUuid := by
  have hperf : Store.Performed o t (.error .unexpected) s (Store.exec o t input s).2 :=
    Or.inr ⟨.unexpected, rfl, rfl, Or.inr ⟨input, rfl⟩⟩
  exact Queue.nextUuid_le hperf

theorem jobsKeyed_execJob (o : JobOp) {a : Archive} (h : a.JobsKeyed) :
    (a.execJob o).2.JobsKeyed := by
  cases o with
  | createSyncJob request mode budgetId timestamp =>
      refine ⟨?_, ?_⟩
      · simp only [execJob, JobTables.createSyncJob, List.map_append, List.map_cons, List.map_nil]
        refine List.nodup_append.2 ⟨h.nodup, List.nodup_singleton _, ?_⟩
        intro id hold id' hnew
        rcases List.mem_map.1 hold with ⟨job, hjob, rfl⟩
        rw [List.mem_singleton.1 hnew]
        exact (h.drawn job hjob).ne
      · intro job hjob
        rcases List.mem_append.1 hjob with hold | hnew
        · exact Nat.lt_succ_of_lt (h.drawn job hold)
        · rw [List.mem_singleton.1 hnew]
          exact Nat.lt_succ_self _
  | recordSyncJobPage write timestamp =>
      refine h.of_sublist ?_ le_rfl
      simp only [execJob, JobTables.recordSyncJobPage]
      split
      · exact List.Sublist.refl _
      · split <;> exact List.Sublist.refl _
  | deleteSyncJobFollowupPages => exact h.of_sublist (List.Sublist.refl _) le_rfl
  | completeSyncJob completion timestamp =>
      have hid : ∀ row : SyncJobRow, (if row.syncJobId = completion.syncJobId then
          row.complete completion timestamp else row).syncJobId = row.syncJobId := by
        intro row
        split <;> rfl
      refine ⟨?_, ?_⟩
      · simp only [execJob, JobTables.completeSyncJob, List.map_map, Function.comp_def, hid]
        exact h.nodup
      · intro job hjob
        rcases List.mem_map.1 hjob with ⟨row, hrow, rfl⟩
        rw [hid]
        exact h.drawn row hrow
  | getUpstreamRequestBudgetRequestsStarted => exact h
  | gc cutoff dryRun =>
      cases dryRun with
      | true => exact h
      | false => exact h.of_sublist List.filter_sublist le_rfl

theorem jobsKeyed_exec (o : ArchiveOp) (t : Int) (input : Input) {a : Archive} (h : a.JobsKeyed) :
    (exec o t input a).2.JobsKeyed := by
  cases o with
  | store o => exact h.of_sublist (List.Sublist.refl _) (exec_nextUuid_le o t input a.store)
  | job o => exact (jobsKeyed_execJob o h).of_sublist (List.Sublist.refl _) le_rfl

theorem jobsKeyed_after (d : Deployment) (sched : List (Config.Choice (archiveFleet d))) :
    (Config.after (archiveFleet d) sched).state.JobsKeyed :=
  Config.state_after (S := archiveFleet d) ⟨List.nodup_nil, fun _ h => nomatch h⟩
    (fun o t input _ h => jobsKeyed_exec o t input h) sched

/-- In every state a run can reach, an early collection is absorbed by a later one exactly if it
strands no job. -/
theorem early_collection_absorbed (d : Deployment) (sched : List (Config.Choice (archiveFleet d)))
    (a : Archive) (ha : a = (Config.after (archiveFleet d) sched).state) (c₁ c₂ : Int)
    (hc : c₁ ≤ c₂) :
    ((a.gc c₁ false).2.gc c₂ false).2 = (a.gc c₂ false).2 ↔
      ∀ job ∈ a.jobs.syncJobs, ¬a.Stranded c₁ c₂ job := by
  have hkeyed : a.JobsKeyed := by
    rw [ha]
    exact jobsKeyed_after d sched
  exact absorbed_iff hkeyed.nodup hc

/-- The next `n` operations of a process, while the server is not asked for anything. -/
def archiveRuns (d : Deployment) (pid n : Nat) : List (Config.Choice (archiveFleet d)) :=
  List.replicate n (.run pid ({} : Input))

def oneWindow : ArxivRequest :=
  { clientId := "sync", searchQuery := some "cat:cs.AI" }

/-- A worker claims the item, charges its budgets and is stopped before the answer. -/
def stoppedAttempt : List (Config.Choice (archiveFleet {})) :=
  .start 2 (.store (.runOnce none)) :: archiveRuns {} 2 13 ++ [.crash 2]

/-- A slice is handed over while its item is failed.  The call that queued it has read the item and
not yet ended the job; a second call for the window, which has a deadline, shares the item.  After
two attempts that were stopped, the budget of the first call is spent, and at its deadline the
second call fails the item for its own. -/
def failedWhileHandedOver : List (Config.Choice (archiveFleet {})) :=
  .start 0 (.syncWindows { requests := [oneWindow], maxRequestsTotal := 1 } 1) ::
      archiveRuns {} 0 16 ++
    .start 1 (.syncWindows
      { requests := [oneWindow]
        wait := true
        mode := .completeWindow
        waitTimeoutSeconds := some (seconds 400) } 1) ::
      archiveRuns {} 1 17 ++
    stoppedAttempt ++ [.tick 301000000] ++ stoppedAttempt ++ [.tick 100000000] ++
    archiveRuns {} 1 7 ++ [.tick 10000000] ++ archiveRuns {} 0 2

def handedOver : Archive :=
  (Config.after (archiveFleet {}) failedWhileHandedOver).state

/-- A collection before the item has failed strands nothing, and is absorbed. -/
theorem early_collection_absorbed_before :
    ((handedOver.gc (seconds 400) false).2.gc (seconds 420) false).2 =
      (handedOver.gc (seconds 420) false).2 :=
  (early_collection_absorbed {} failedWhileHandedOver handedOver rfl (seconds 400) (seconds 420)
    (by decide)).2 (by decide +kernel)

/-- A collection after it leaves a job that the later one alone would have removed. -/
theorem early_collection_not_absorbed :
    ((handedOver.gc (seconds 405) false).2.gc (seconds 420) false).2 ≠
      (handedOver.gc (seconds 420) false).2 := by
  intro heq
  have hjobs := congrArg (fun a => a.jobs.syncJobs.length) heq
  revert hjobs
  decide +kernel

end Archive
end Huldra
