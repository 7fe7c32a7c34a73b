import Huldra.Process.Wp
import Huldra.Harvest

/-!
# Rounds — the loop of a harvest ends

A round that goes on has moved the cursor by one page and was within the page budget, so the pages
that are left bound the rounds.  The loop of the source has no such bound: `harvestPages_eq` is its
equation, and `within_harvestPages` says how many operations it takes.
-/

namespace Huldra
namespace Harvest

open Process (Prog)

section Lengths

variable {d : Deployment} {j : Job} {c : Cursor} {owner : OwnerToken}

/-! ## Operations of a round -/

theorem within_utcNow : utcNow.Within 1 :=
  .call (by decide)

theorem within_releaseLease (name : LeaseName) (owner : OwnerToken) :
    (releaseLease name owner).Within 1 :=
  .call (by decide)

/-- The last writes of a report to the limiter. -/
theorem within_report (state : RateState) (event : DiagnosticEvent) :
    (do
      setRateState state
      (recordEvent event).tryFinally (releaseLease Limiter.leaseName owner)).Within 3 :=
  .bind (m := 1) (.call (by decide)) (by decide) fun _ =>
    .tryFinally (m := 1) (.call (by decide)) (by decide) (within_releaseLease _ _)

theorem within_afterSuccess (status : Int) : (Limiter.afterSuccess owner status).Within 5 :=
  .bind within_utcNow (by decide) fun _ => .bind (m := 1) (.call (by decide)) (by decide) fun _ =>
    within_report _ _

theorem within_afterFailure (status : Option Int) (message : String) :
    (Limiter.afterFailure owner status message).Within 5 :=
  .bind within_utcNow (by decide) fun _ => .bind (m := 1) (.call (by decide)) (by decide) fun _ =>
    within_report _ _

theorem within_effectiveCooldown (settings : HuldraSettings) (retryAfter : Option Int)
    (total : Nat) : (Limiter.effectiveCooldown settings retryAfter total).Within 1 := by
  unfold Limiter.effectiveCooldown
  dsimp only
  split
  · exact .bind (m := 1) (.call (by decide)) (by decide) fun _ => .ret _
  · exact .ret _

theorem within_afterRateLimit (retryAfter : Option Int) (statusCode : Int)
    (message : Option String) :
    (Limiter.afterRateLimit d owner retryAfter statusCode message).Within 6 := by
  refine .bind within_utcNow (by decide) fun _ => .bind (m := 1) (.call (by decide)) (by decide)
    fun _ => .bind (within_effectiveCooldown _ _ _) (by decide) fun _ => ?_
  dsimp only
  split
  · exact .raise _
  refine .bind (m := 1) (.call (by decide)) (by decide) fun _ => .bind (m := 2) ?_ (by decide)
    fun _ => .ret _
  exact .tryFinally (m := 1) (.call (by decide)) (by decide) (within_releaseLease _ _)

theorem within_beforeRequest : (Limiter.beforeRequest d owner).Within 7 := by
  unfold Limiter.beforeRequest
  refine .bind (m := 1) (.call (by decide)) (by decide) fun acquired => ?_
  split
  · exact .ret _
  · refine .bind within_utcNow (by decide) fun current =>
      .bind (m := 1) (.call (by decide)) (by decide) fun state => ?_
    split
    · exact .bind (within_releaseLease _ _) (by decide) fun _ => .ret _
    · refine .bind (m := 1) (.call (by decide)) (by decide) fun renewed => ?_
      split
      · exact .ret _
      · refine .bind (m := 3) (.tryExcept (m := 2) ?_ (by decide) ?_) (by decide) fun _ => .ret _
        · exact .bind (m := 1) (.call (by decide)) (by decide) fun _ => .call (by decide)
        · intro e
          split
          · exact .raise _
          · exact .bind (within_releaseLease _ _) (by decide) fun _ => .raise _

theorem within_completeOaiHarvestJob (completion : Int → OaiTables.Completion) :
    (completeOaiHarvestJob completion).Within 3 := by
  refine .bind within_utcNow (by decide) fun completed =>
    .bind (m := 1) (.call (by decide)) (by decide) fun _ =>
      .bind (m := 1) (.call (by decide)) (by decide) fun result => ?_
  cases result with
  | some result => exact .ret _
  | none => exact .raise _

theorem within_finishAt (status : OaiStatus) (pagesTotal : Nat) (category message : String) :
    (j.finishAt c status pagesTotal category message).Within 3 :=
  within_completeOaiHarvestJob _

theorem within_releaseAndFinish (category message : String) :
    (j.releaseAndFinish c category message).Within 4 :=
  .bind (within_releaseLease _ _) (by decide) fun _ => within_finishAt _ _ _ _

theorem within_recordAndFinish (status : OaiStatus) (category pageMessage message : String) :
    (j.recordAndFinish c status category pageMessage message).Within 5 :=
  .bind (m := 2) (.bind within_utcNow (by decide) fun _ => .call (by decide)) (by decide)
    fun _ => within_finishAt _ _ _ _

theorem within_ownershipLost : j.ownershipLost.Within 1 := by
  refine .bind (m := 1) (.call (by decide)) (by decide) fun current => ?_
  cases current with
  | none => exact .ret _
  | some current =>
      dsimp only
      split <;> exact .ret _

theorem within_finishCompleted : (j.finishCompleted c).Within 5 := by
  unfold Job.finishCompleted
  dsimp only
  split
  · exact .bind (m := 2) (.bind within_utcNow (by decide) fun _ => .call (by decide)) (by decide)
      fun _ => within_completeOaiHarvestJob _
  · exact Prog.Within.mono (m := 3) (n := 5) (within_completeOaiHarvestJob _) (by decide)

/-- A program that ends the round. -/
theorem within_done {n : Nat} {p : Program OaiHarvestResult} (hp : p.Within n) :
    (do
      let result ← p
      pure (Job.Round.done result)).Within n :=
  .bind hp (Nat.le_refl n) fun _ => .ret _

/-! ## A round -/

theorem within_commitPage (page : OaiPmhPage) : (j.commitPage c page).Within 15 := by
  refine .bind (m := 7) (.tryExcept (m := 2) ?_ (by decide) ?_) (by decide) fun counts => ?_
  · exact .bind within_utcNow (by decide) fun _ => .call (by decide)
  · intro e
    split
    · exact .raise _
    · exact .bind (within_afterFailure _ _) (by decide) fun _ => .raise _
  · refine .bind (within_afterSuccess _) (by decide) fun _ => ?_
    dsimp only
    split
    · exact within_done (within_finishAt _ _ _ _)
    · exact .ret _

theorem within_onFetchError (e : Exn) : (j.onFetchError c e).Within 11 := by
  unfold Job.onFetchError
  split
  · exact .bind (within_afterRateLimit _ _ _) (by decide) fun _ =>
      within_done (within_recordAndFinish _ _ _ _)
  · exact (Prog.Within.bind (within_afterFailure _ _) (n := 10) (by decide) fun _ =>
      within_done (within_recordAndFinish _ _ _ _)).mono (by decide)
  · exact (Prog.Within.bind (within_afterFailure _ _) (n := 10) (by decide) fun _ =>
      within_done (within_recordAndFinish _ _ _ _)).mono (by decide)
  · exact .raise _

theorem within_fetchFenced (requestTimeout : Int) :
    (j.fetchFenced c requestTimeout).Within 18 := by
  refine .bind within_utcNow (by decide) fun now => ?_
  split
  · exact (within_done (within_releaseAndFinish _ _)).mono (by decide)
  · refine .handle (m := 2) ?_ (by decide) (fun page => within_commitPage page) fun e =>
      (within_onFetchError e).mono (by decide)
    exact .bind (m := 1) (.call (by decide)) (by decide) fun _ => .call (by decide)

theorem within_fenceAndFetch : (j.fenceAndFetch c).Within 20 := by
  refine .bind within_utcNow (by decide) fun now => ?_
  split
  · exact (within_done (within_releaseAndFinish _ _)).mono (by decide)
  · refine .bind (m := 1) (.call (by decide)) (by decide) fun renewed => ?_
    split
    · exact .bind (within_releaseLease _ _) (by decide) fun _ =>
        (within_done within_ownershipLost).mono (by decide)
    · exact within_fetchFenced _

theorem within_fetchAdmitted (waitSeconds : Int) : (j.fetchAdmitted c waitSeconds).Within 26 := by
  refine .bind within_utcNow (by decide) fun now => ?_
  have hcount : (j.countAndFetch c).Within 23 := by
    refine .bind within_utcNow (by decide) fun now => ?_
    split
    · exact (within_done (within_releaseAndFinish _ _)).mono (by decide)
    · exact .bind (m := 2) (.bind within_utcNow (by decide) fun _ => .call (by decide)) (by decide)
        fun _ => within_fenceAndFetch
  split
  · exact (within_done (within_releaseAndFinish _ _)).mono (by decide)
  · split
    · exact .bind (m := 2) (.bind (m := 1) (.call (by decide)) (by decide) fun _ =>
        .call (by decide)) (by decide) fun _ => hcount
    · exact Prog.Within.mono (n := 25) hcount (by decide)

/-- The operations of a round. -/
def roundOperations : Nat := 35

theorem within_harvestPage : (j.harvestPage c).Within roundOperations := by
  refine .bind (m := 1) (.call (by decide)) (by decide) fun renewed => ?_
  split
  · exact (within_done within_ownershipLost).mono (by decide)
  · refine .bind within_utcNow (by decide) fun now => ?_
    split
    · exact (within_done (within_finishAt _ _ _ _)).mono (by decide)
    · refine .bind within_beforeRequest (by decide) fun decision => ?_
      split
      · exact within_fetchAdmitted _
      · exact (within_done (within_recordAndFinish _ _ _ _)).mono (by decide)

/-! ## The loop -/

/-- A program whose result ends the round. -/
theorem returns_done {S : Job.Round → Prop} {p : Program OaiHarvestResult}
    (hS : ∀ result, S (.done result)) :
    (do
      let result ← p
      pure (Job.Round.done result)).Returns S :=
  .bind fun result => hS result

/-- The next round starts one page further, and this one was within the page budget. -/
def Job.Round.Advances (j : Job) (c : Cursor) (round : Job.Round) : Prop :=
  ∀ moved, round = .next moved →
    c.pageIndex < j.effectiveRequest.maxPages ∧ moved.pageIndex = c.pageIndex + 1

theorem advances_done (result : OaiHarvestResult) : Job.Round.Advances j c (.done result) :=
  fun _ h => nomatch h

theorem returns_commitPage (hpages : c.pageIndex < j.effectiveRequest.maxPages)
    (page : OaiPmhPage) : (j.commitPage c page).Returns (Job.Round.Advances j c) := by
  refine .bind fun counts => .bind fun _ => ?_
  dsimp only
  split
  · exact returns_done advances_done
  · intro moved h
    cases h
    exact ⟨hpages, rfl⟩

theorem returns_onFetchError (e : Exn) :
    (j.onFetchError c e).Returns (Job.Round.Advances j c) := by
  unfold Job.onFetchError
  split
  · exact .bind fun _ => returns_done advances_done
  · exact .bind fun _ => returns_done advances_done
  · exact .bind fun _ => returns_done advances_done
  · trivial

theorem returns_fenceAndFetch (hpages : c.pageIndex < j.effectiveRequest.maxPages) :
    (j.fenceAndFetch c).Returns (Job.Round.Advances j c) := by
  refine .bind fun now => ?_
  split
  · exact returns_done advances_done
  · refine .bind fun renewed => ?_
    split
    · exact .bind fun _ => returns_done advances_done
    · refine .bind fun now => ?_
      split
      · exact returns_done advances_done
      · exact .handle (fun page => returns_commitPage hpages page) returns_onFetchError

theorem returns_harvestPage : (j.harvestPage c).Returns (Job.Round.Advances j c) := by
  have hcount : (j.countAndFetch c).Returns (Job.Round.Advances j c) := by
    refine .bind fun now => ?_
    cases hbudget : j.budgetError c now with
    | some error => exact returns_done advances_done
    | none =>
        -- The budgets leave room for this page.
        have hpages : c.pageIndex < j.effectiveRequest.maxPages := by
          unfold Job.budgetError at hbudget
          split at hbudget
          · cases hbudget
          · omega
        exact .bind fun requestsTotal =>
          returns_fenceAndFetch (c := { c with requestsTotal := requestsTotal }) hpages
  refine .bind fun renewed => ?_
  split
  · exact returns_done advances_done
  · refine .bind fun now => ?_
    split
    · exact returns_done advances_done
    · refine .bind fun decision => ?_
      split
      · refine .bind fun now => ?_
        split
        · exact returns_done advances_done
        · split
          · exact .bind fun _ => hcount
          · exact hcount
      · exact returns_done advances_done

/-- The loop from a cursor, with room for the pages that the budget still allows. -/
def Job.harvestLoop (j : Job) (c : Cursor) : Program OaiHarvestResult :=
  j.harvestPages (j.effectiveRequest.maxPages - c.pageIndex) c

/-- The equation of the loop of the source: the room it is given is never used up. -/
theorem harvestLoop_eq (j : Job) (c : Cursor) :
    j.harvestLoop c =
      if c.finishedPaging then j.finishCompleted c
      else (do
        let round ← j.harvestPage c
        match round with
        | .done result => pure result
        | .next moved => j.harvestLoop moved) := by
  unfold Job.harvestLoop
  rw [Job.harvestPages]
  by_cases hfinished : c.finishedPaging = true
  · rw [if_pos hfinished, if_pos hfinished]
  · rw [if_neg hfinished, if_neg hfinished]
    refine Prog.Returns.handle_congr returns_harvestPage ?_
    intro round hround
    cases round with
    | done result => rfl
    | next moved =>
        rcases hround moved rfl with ⟨hpages, hmoved⟩
        have hroom : j.effectiveRequest.maxPages - c.pageIndex =
            j.effectiveRequest.maxPages - moved.pageIndex + 1 := by omega
        rw [hroom]

theorem within_harvestPages (pagesLeft : Nat) : ∀ c : Cursor,
    (j.harvestPages pagesLeft c).Within (roundOperations * (pagesLeft + 1) + 5) := by
  induction pagesLeft with
  | zero =>
      intro c
      unfold Job.harvestPages
      split
      · exact within_finishCompleted.mono (by omega)
      · refine .bind within_harvestPage (by omega) fun round => ?_
        cases round with
        | done result => exact .ret _
        | next moved => exact .raise _
  | succ pagesLeft ih =>
      intro c
      unfold Job.harvestPages
      split
      · exact within_finishCompleted.mono (by omega)
      · refine .bind within_harvestPage (by simp only [roundOperations]; omega) fun round => ?_
        cases round with
        | done result => exact .ret _
        | next moved => exact (ih moved).mono (by simp only [roundOperations]; omega)

end Lengths

end Harvest
end Huldra
