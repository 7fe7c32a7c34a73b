import Huldra.Maintenance.Coverage
import Huldra.Paging

/-!
# Tiling — what a complete window holds of a result list that stands still

Where every page shows what it should of one list of results, the counts that end the job of a
window compare its pages with that list: the window is complete exactly if the pages, one after the
other, are the list from the start of the window on.
-/

namespace Huldra

open Process (Prog Amid Did Drift Move Surroundings)

namespace Maintenance

/-- The paper families on a page. -/
def PageReading.families (reading : PageReading) : List String :=
  reading.papers.map fun paper => Keys.arxivIdFamilyBase paper.arxivId

/-- In these moves the pages of a window were planned on its first entry, and its job was ended on
these readings of them. -/
structure WindowPaged (W : Surroundings archive Archive) (moves : List (Move archive Archive))
    (target : MaintenanceTarget) (first : CacheEntry) (pages : List MaintenanceTarget)
    (readings : List PageReading) : Prop where
  planned : Did W (embed (getReadableCompletedCache target.cacheKey)) (some first) moves
  paged : ∃ total, first.totalResults = some total ∧
    pages.map (fun page => (page.request, page.cacheKey)) =
      (target.request, target.cacheKey) ::
        (followupRequests target first total).map fun request =>
          (request, Keys.requestCacheKey request)
  ended : ∃ window a t look a₁ t₁ rest a' t', look ++ rest <:+: moves ∧
    window.totalResults = first.totalResults ∧
    Amid W (finalizeCompleteWindowTarget window pages) a t (look ++ rest) (.ok target) a' t' ∧
    PagesRead W window.syncJobId pages a t look readings a₁ t₁

/-- A page shows a prefix of its slice of the results, and reports how many there are. -/
structure Shows (results : List String) (request : ArxivRequest) (reading : PageReading) :
    Prop where
  families : Paging.Shows results request.maxResults request.start reading.families
  counted : reading.entry.resultCount = reading.papers.length
  total : reading.entry.totalResults = some results.length

/-- The page shows all of its slice. -/
def Fills (results : List String) (request : ArxivRequest) (reading : PageReading) : Prop :=
  Paging.Fills results request.maxResults request.start reading.families

/-- The results stood still: what was read of the window are pages of one list. -/
structure Reflects (results : List String) (first : CacheEntry) (pages : List MaintenanceTarget)
    (readings : List PageReading) : Prop where
  distinct : results.Nodup
  total : first.totalResults = some results.length
  pages : List.Forall₂ (fun page reading => Shows results page.request reading) pages readings

section
variable {W : Surroundings archive Archive} {d : Deployment} {moves : List (Move archive Archive)}
  {target : MaintenanceTarget} {first : CacheEntry} {results : List String}

/-! ## The requests of the pages -/

/-- What is asked for on a page, and where it is kept. -/
def place (page : MaintenanceTarget) : ArxivRequest × CacheKey :=
  (page.request, page.cacheKey)

theorem returns_planPages (requests : List ArxivRequest) :
    (planPages requests).Returns fun plan =>
      plan.map (fun page => (page.request, page.cacheKey)) =
        requests.map fun request => (request, Keys.requestCacheKey request) := by
  induction requests with
  | nil => rfl
  | cons request rest ih =>
      exact .bind fun readable => .bind_of ih fun others hothers => congrArg (List.cons _) hothers

/-- The target of a follow-up page is that page. -/
theorem returns_enqueuePage (budget : MaintenanceBudget) (page : PlannedRequest)
    (result : MaintenanceResult) :
    (enqueuePage d target budget page result).Returns fun out =>
      ∀ pageTarget, out.1 = some pageTarget → place pageTarget = (page.request, page.cacheKey) := by
  have hlate : ∀ result : MaintenanceResult,
      (pure (none, result) : ArchiveProgram (Option MaintenanceTarget ×
        MaintenanceResult)).Returns fun out => ∀ pageTarget, out.1 = some pageTarget →
          place pageTarget = (page.request, page.cacheKey) := by
    intro result pageTarget hpage
    cases hpage
  unfold enqueuePage
  dsimp only
  split
  all_goals
    refine .bind fun late => ?_
    split
    · exact hlate result
    · refine .bind fun _ => ?_
      split
      -- The page is in the cache.
      · rintro pageTarget ⟨⟩
        rfl
      -- It has to be queued.
      · refine .bind fun late => ?_
        split
        · exact hlate result
        · refine .bind fun queued => .bind fun late => ?_
          split
          · exact hlate _
          · rintro pageTarget ⟨⟩
            rfl

/-- The targets of the follow-up pages are those of the plan. -/
theorem returns_enqueuePages (budget : MaintenanceBudget) (plan : List PlannedRequest) :
    ∀ result, (enqueuePages d target budget plan result).Returns fun out =>
      ∀ pages, out.1 = some pages →
        pages.map place = plan.map fun page => (page.request, page.cacheKey) := by
  induction plan with
  | nil =>
      rintro result pages ⟨⟩
      rfl
  | cons page rest ih =>
      intro result
      refine .bind_of (returns_enqueuePage budget page result) ?_
      rintro ⟨pageTarget, result⟩ hplace
      cases pageTarget with
      | none =>
          intro pages hpages
          cases hpages
      | some pageTarget =>
          refine .bind_of (ih result) fun out hout => ?_
          intro pages hpages
          rcases Option.map_eq_some_iff.1 hpages with ⟨others, hothers, rfl⟩
          rw [List.map_cons, List.map_cons, hplace pageTarget rfl, hout others hothers]

theorem returns_expireTargets (errorMessage : String) (targets : List MaintenanceTarget) :
    (expireTargets errorMessage targets).Returns fun out => out.map place = targets.map place := by
  induction targets with
  | nil => rfl
  | cons target rest ih =>
      refine .bind fun terminal => .bind_of ih fun others hothers => ?_
      split
      · exact congrArg (List.cons _) hothers
      · exact congrArg (List.cons _) hothers

theorem returns_drainTargetsUntilDeadline (targets : List MaintenanceTarget)
    (result : MaintenanceResult) (budget : MaintenanceBudget) (timeout : Int) (rounds : Nat) :
    (drainTargetsUntilDeadline d targets result budget timeout rounds).Returns fun out =>
      out.1.map place = targets.map place := by
  unfold drainTargetsUntilDeadline
  split
  · rfl
  · refine .bind fun result => .bind fun now => ?_
    split
    · exact .bind_of (returns_expireTargets _ targets) fun targets htargets =>
        .bind fun _ => htargets
    · rfl

/-! ## Where the pages of a complete window come from -/

/-- The job of the window was ended with its own page and those of the plan. -/
def EndedWith (W : Surroundings archive Archive) (moves : List (Move archive Archive))
    (window : MaintenanceTarget) (requests : List ArxivRequest) (target : MaintenanceTarget) :
    Prop :=
  ∃ pages, pages.map place = requests.map (fun request => (request, Keys.requestCacheKey request)) ∧
    Did W (finalizeCompleteWindowTarget window (window :: pages)) target moves

theorem endedWith_drainPages {first : CacheEntry} {plan : List PlannedRequest}
    {requests : List ArxivRequest} {budget : MaintenanceBudget} {timeout : Int} {rounds : Nat}
    {result : MaintenanceResult} {out : MaintenanceTarget × MaintenanceResult}
    (hplan : plan.map (fun page => (page.request, page.cacheKey)) =
      requests.map fun request => (request, Keys.requestCacheKey request))
    (h : Did W (drainPages d target first plan budget timeout rounds result) out moves)
    (hcomplete : out.1.coverageStatus = .complete) : EndedWith W moves target requests out.1 := by
  rcases h.bind with ⟨⟨queued, result'⟩, hqueued, h⟩
  have hplaces := hqueued.returns (returns_enqueuePages budget plan result)
  cases queued with
  | none => exact (not_did_complete (returns_followupDeadline target first budget) h hcomplete).elim
  | some queued =>
      rcases h.bind with ⟨⟨pages, result''⟩, hdrained, h⟩
      have hkept := hdrained.returns
        (returns_drainTargetsUntilDeadline queued result' budget timeout rounds)
      rcases h.bind with ⟨ended, hended, h⟩
      have hout := h.of_ret
      subst hout
      exact ⟨pages, hkept.trans ((hplaces queued rfl).trans hplan), hended⟩

theorem endedWith_admitPages {first : CacheEntry} {total : Nat} {budget : MaintenanceBudget}
    {timeout : Int} {rounds : Nat} {result : MaintenanceResult}
    {out : MaintenanceTarget × MaintenanceResult × MaintenanceBudget}
    (h : Did W (admitPages d target first total budget timeout rounds result) out moves)
    (hcomplete : out.1.coverageStatus = .complete) :
    EndedWith W moves target (followupRequests target first total) out.1 := by
  have hrefused : ∀ {category message : String} {b : MaintenanceResult × MaintenanceBudget},
      ¬Did W (completeWindowBudgetFailure target first category message >>= fun target =>
        .ret (target, b)) out moves :=
    fun h => not_did_complete (returns_windowBudgetFailure target first _ _) h hcomplete
  unfold admitPages at h
  dsimp only at h
  split at h
  · exact absurd h hrefused
  · rcases h.bind with ⟨plan, hplanned, h⟩
    have hplan := hplanned.returns (returns_planPages _)
    rcases h.bind with ⟨requestsStarted, _, h⟩
    cases requestsStarted with
    | none => exact absurd h hrefused
    | some requestsStarted =>
        dsimp only at h
        split at h
        · exact absurd h hrefused
        · -- Whether or not the deadline is checked, the rest is the same.
          split at h
          all_goals
            rcases h.bind with ⟨fits, _, h⟩
            split at h
            · exact absurd h hrefused
            · rcases h.bind with ⟨⟨ended, result'⟩, hended, h⟩
              have hout := h.of_ret
              subst hout
              exact endedWith_drainPages hplan hended hcomplete

/-- A window that is complete was planned on its first entry, and ended with the pages planned. -/
theorem endedWith_planAndDrain {budget : MaintenanceBudget} {timeout : Int} {rounds : Nat}
    {result : MaintenanceResult}
    {out : MaintenanceTarget × MaintenanceResult × MaintenanceBudget}
    (h : Did W (planAndDrainCompleteWindowTarget d target budget timeout rounds result) out moves)
    (hopen : Incomplete target) (hcomplete : out.1.coverageStatus = .complete) :
    ∃ first total, Did W (embed (getReadableCompletedCache target.cacheKey)) (some first) moves ∧
      first.totalResults = some total ∧
        EndedWith W moves { target with totalResults := some total }
          (followupRequests target first total) out.1 := by
  unfold planAndDrainCompleteWindowTarget at h
  split at h
  · split at h
    · exact (not_did_complete (returns_initialBudgetFailure target _ _) h hcomplete).elim
    · have hout := h.of_ret
      subst hout
      exact absurd hcomplete hopen
  · rcases h.bind with ⟨first, hfirst, h⟩
    rcases h.bind with ⟨_, _, h⟩
    cases first with
    | none => exact (not_did_complete (returns_unfetchedWindow target) h hcomplete).elim
    | some first =>
        dsimp only at h
        split at h
        · exact (not_did_complete (returns_uncountedWindow target first) h hcomplete).elim
        · rename_i total htotal
          split at h
          · exact (not_did_complete (returns_completeFirstPage target first _ (by simp) _ _) h
              hcomplete).elim
          · split at h
            · exact (not_did_complete (returns_completeFirstPage target first _ (by simp) _ _) h
                hcomplete).elim
            · exact ⟨first, total, hfirst, htotal, endedWith_admitPages h hcomplete⟩

/-- Each of these windows that is complete was planned and drained in these moves. -/
def WereDrained (W : Surroundings archive Archive) (d : Deployment)
    (moves : List (Move archive Archive)) (targets : List MaintenanceTarget) : Prop :=
  ∀ target ∈ targets, target.coverageStatus = .complete →
    ∃ window budget timeout rounds result out, Incomplete window ∧ out.1 = target ∧
      Did W (planAndDrainCompleteWindowTarget d window budget timeout rounds result) out moves

theorem wereDrained_of_incomplete {targets : List MaintenanceTarget}
    (h : ∀ target ∈ targets, Incomplete target) : WereDrained W d moves targets :=
  fun target hmem hcomplete => absurd hcomplete (h target hmem)

theorem wereDrained_planAndDrainTargets {timeout : Int} {rounds : Nat}
    {targets : List MaintenanceTarget} :
    ∀ {result : MaintenanceResult} {budget : MaintenanceBudget}
      {out : List MaintenanceTarget × MaintenanceResult},
      (∀ target ∈ targets, Incomplete target) →
      Did W (planAndDrainTargets d timeout rounds targets result budget) out moves →
      WereDrained W d moves out.1 := by
  induction targets with
  | nil =>
      intro result budget out _ h
      have hout := h.of_ret
      subst hout
      intro target hmem
      cases hmem
  | cons window rest ih =>
      intro result budget out hopen h
      rcases h.bind with ⟨⟨ended, result', budget'⟩, hended, h⟩
      rcases h.bind with ⟨⟨others, result''⟩, hothers, h⟩
      have hout := h.of_ret
      subst hout
      intro target hmem hcomplete
      rcases List.mem_cons.1 hmem with rfl | hmem
      · exact ⟨window, budget, timeout, rounds, result, _, hopen window List.mem_cons_self, rfl,
          hended⟩
      · exact ih (fun target hmem => hopen target (List.mem_cons_of_mem _ hmem)) hothers target
          hmem hcomplete

theorem wereDrained_drain {call : SyncWindowsCall} {rounds : Nat} {budget : MaintenanceBudget}
    {timeout : Int} {targets : List MaintenanceTarget} {result : MaintenanceResult}
    {out : List MaintenanceTarget × MaintenanceResult}
    (hopen : ∀ target ∈ targets, Incomplete target)
    (h : Did W (drain d call rounds budget timeout targets result) out moves) :
    WereDrained W d moves out.1 := by
  unfold drain at h
  split at h
  · have hout := h.of_ret
    subst hout
    exact wereDrained_of_incomplete hopen
  · split at h
    · rcases h.bind with ⟨⟨drained, result'⟩, hdrained, h⟩
      have hstamps := hdrained.returns
        (stamps_drainTargetsUntilDeadline d targets result budget timeout rounds)
      exact wereDrained_planAndDrainTargets (incomplete_of_stamps hstamps hopen) h
    · rcases h.bind with ⟨result', _, h⟩
      have hout := h.of_ret
      subst hout
      exact wereDrained_of_incomplete hopen

theorem wereDrained_windowsDrained {call : SyncWindowsCall} {rounds : Nat}
    {out : List MaintenanceTarget × MaintenanceResult}
    (h : Did W (windowsDrained d call rounds) out moves) : WereDrained W d moves out.1 := by
  rcases drained_of_windowsDrained h with hnone | ⟨budget, timeout, targets, result, hopen, h⟩
  · rw [hnone]
    intro target hmem
    cases hmem
  · exact wereDrained_drain hopen h

theorem followupRequests_of_request {window : MaintenanceTarget}
    (h : target.request = window.request) (first : CacheEntry) (total : Nat) :
    followupRequests target first total = followupRequests window first total := by
  simp only [followupRequests, followupPagesTotal, h]

/-- A complete window was ended on readings of the pages that were planned for it. -/
theorem windowPaged_of_drained {window : MaintenanceTarget} {budget : MaintenanceBudget}
    {timeout : Int} {rounds : Nat} {result : MaintenanceResult}
    {out : MaintenanceTarget × MaintenanceResult × MaintenanceBudget}
    (h : Did W (planAndDrainCompleteWindowTarget d window budget timeout rounds result) out moves)
    (hopen : Incomplete window) (hcomplete : out.1.coverageStatus = .complete) :
    ∃ first pages readings, WindowPaged W moves out.1 first pages readings := by
  rcases endedWith_planAndDrain h hopen hcomplete with
    ⟨first, total, hfirst, htotal, pages, hpages, a, t, own, a', t', hown, hrun⟩
  rcases finalize_cases hrun with ⟨sums, look, rest, a₁, t₁, rfl, hlook, hended⟩
  have htest : sumsComplete { window with totalResults := some total }
      ({ window with totalResults := some total } :: pages) sums = true := by
    by_contra hnot
    have hpartial := hended.coverage
    rw [if_neg hnot, hcomplete] at hpartial
    cases hpartial
  have hall : sums.pagesCompleted =
      ({ window with totalResults := some total } :: pages).length := by
    simp only [sumsComplete, Bool.and_eq_true, decide_eq_true_eq] at htest
    exact htest.1.1
  rcases (pagesRead_of_run hlook).2 (by simpa using hall) with ⟨readings, hread⟩
  refine ⟨first, _, readings, ?_, ⟨total, htotal, ?_⟩, _, a, t, look, a₁, t₁, rest, a', t', hown,
    htotal.symm, hrun, hread⟩
  · rw [hended.cacheKey]
    exact hfirst
  · rw [List.map_cons, hended.cacheKey, hended.request,
      followupRequests_of_request hended.request]
    exact congrArg (List.cons _) hpages

/-! ## What the counts decide -/

theorem length_families (readings : List PageReading) :
    (families readings).length = (readings.map fun reading => reading.papers.length).sum := by
  simp [families, List.length_flatMap]

/-- The entries of pages that show what they should count their papers. -/
theorem countedTotal_eq {pages : List MaintenanceTarget} {readings : List PageReading}
    (h : List.Forall₂ (fun page reading => Shows results page.request reading) pages readings) :
    countedTotal readings = (families readings).length := by
  rw [length_families, countedTotal]
  induction h with
  | nil => rfl
  | cons hshows _ ih => rw [List.map_cons, List.map_cons, List.sum_cons, List.sum_cons, ih,
      hshows.counted]

/-- What a window whose pages were all read ends with: two counts against what was planned. -/
theorem complete_iff_counts {window : MaintenanceTarget} {pages : List MaintenanceTarget}
    {readings : List PageReading} {total : Nat} (htotal : window.totalResults = some total)
    (hlength : readings.length = pages.length)
    (h : EndedOn window pages
      (readings.foldl PageSums.add { totalResults := window.totalResults }) target) :
    target.coverageStatus = .complete ↔
      countedTotal readings = familiesTotal readings ∧
        total - target.request.start ≤ familiesTotal readings := by
  have hunique := uniquePaperIds_length readings window.totalResults
  have htest : sumsComplete window pages
      (readings.foldl PageSums.add { totalResults := window.totalResults }) = true ↔
        countedTotal readings = familiesTotal readings ∧
          total - target.request.start ≤ familiesTotal readings := by
    rw [h.request]
    simp only [sumsComplete, Bool.and_eq_true, decide_eq_true_eq, sums_pageResultsTotal, hunique,
      sums_pagesCompleted, sums_totalResults readings { totalResults := window.totalResults }
        htotal,
      Option.any_some, Nat.zero_add, hlength, true_and]
    constructor
    · rintro ⟨hnone, henough⟩
      exact ⟨by omega, henough⟩
    · rintro ⟨hsame, henough⟩
      exact ⟨by omega, henough⟩
  rw [h.coverage, ← htest]
  split
  · rename_i hyes
    exact iff_of_true rfl hyes
  · rename_i hnot
    exact iff_of_false CoverageStatus.noConfusion hnot

/-- Of the pages that follow, each is as its request says. -/
theorem follows_of_requests {P : Nat → Nat → List String → Prop} {total : Nat}
    {readings : List PageReading}
    (h : List.Forall₂ (fun (request : ArxivRequest) (reading : PageReading) =>
        P request.maxResults request.start reading.families)
      (followupRequests target first total) readings) :
    Paging.Follows (P target.request.maxResults) target.request.maxResults
      (target.request.start + first.resultCount) (readings.map PageReading.families) := by
  have hplaces : List.Forall₂
      (fun i shown => P target.request.maxResults
        (target.request.start + first.resultCount + i * target.request.maxResults) shown)
      (List.range' 0 (followupPagesTotal target first total))
      (readings.map PageReading.families) := by
    rw [List.forall₂_map_right_iff, ← List.range_eq_range']
    exact List.forall₂_map_left_iff.1 h
  have hfollows := Paging.follows_of_range hplaces
  rwa [Nat.zero_mul, Nat.add_zero] at hfollows

theorem WindowPaged.requests {pages : List MaintenanceTarget} {readings : List PageReading}
    (h : WindowPaged W moves target first pages readings) {total : Nat}
    (htotal : first.totalResults = some total) :
    pages.map (·.request) = target.request :: followupRequests target first total := by
  rcases h.paged with ⟨planned, hplanned, hpages⟩
  rw [htotal] at hplanned
  cases hplanned
  have hfst := congrArg (List.map Prod.fst) hpages
  simpa only [List.map_map, List.map_cons, Function.comp_def, List.map_id'] using hfst

/-- The readings of the window's own page and of those that follow it. -/
theorem Reflects.split {pages : List MaintenanceTarget} {readings : List PageReading}
    (h : Reflects results first pages readings)
    (hpaged : WindowPaged W moves target first pages readings) :
    ∃ own rest, readings = own :: rest ∧ Shows results target.request own ∧
      List.Forall₂ (Shows results) (followupRequests target first results.length) rest := by
  have hrequests := hpaged.requests h.total
  have hshows : List.Forall₂ (Shows results) (pages.map (·.request)) readings :=
    List.forall₂_map_left_iff.2 h.pages
  rw [hrequests] at hshows
  cases hshows with
  | cons hown hrest => exact ⟨_, _, rfl, hown, hrest⟩

/-- Of results that stand still, a window is complete exactly if its pages are all of them. -/
theorem WindowPaged.complete_iff {pages : List MaintenanceTarget} {readings : List PageReading}
    (hpaged : WindowPaged W moves target first pages readings)
    (h : Reflects results first pages readings) :
    target.coverageStatus = .complete ↔ families readings = results.drop target.request.start := by
  rcases hpaged.ended with ⟨window, a, t, look, a₁, t₁, rest, a', t', _, hwindow, hrun, hread⟩
  have hlength : readings.length = pages.length := h.pages.length_eq.symm
  rw [complete_iff_counts (hwindow.trans h.total) hlength (endedOn_of_read hrun hread),
    countedTotal_eq h.pages, familiesTotal]
  rcases h.split hpaged with ⟨own, others, rfl, hown, hothers⟩
  have hfollows := follows_of_requests (P := Paging.Shows results)
    (hothers.imp fun request reading hshows => hshows.families)
  exact Paging.counts_decide h.distinct hown.families hfollows

/-- Where every page is full, and the first one was when the others were planned, the window is
complete. -/
theorem WindowPaged.complete_of_full {pages : List MaintenanceTarget}
    {readings : List PageReading} (hpaged : WindowPaged W moves target first pages readings)
    (h : Reflects results first pages readings) (hsize : 0 < target.request.maxResults)
    (hfirst : first.resultCount =
      ((results.drop target.request.start).take target.request.maxResults).length)
    (hfull : List.Forall₂ (fun page reading => Fills results page.request reading) pages readings) :
    target.coverageStatus = .complete := by
  rw [hpaged.complete_iff h]
  have hfills : List.Forall₂ (Fills results) (pages.map (·.request)) readings :=
    List.forall₂_map_left_iff.2 hfull
  rw [hpaged.requests h.total] at hfills
  rcases h.split hpaged with ⟨own, others, rfl, hown, _⟩
  cases hfills with
  | cons hownFills hothers =>
      have hseen : first.resultCount = own.families.length := by
        rw [hfirst]
        exact congrArg List.length hownFills.symm
      have hfollows := follows_of_requests (P := Paging.Fills results) hothers
      have hpages : (others.map PageReading.families).length =
          followupPagesTotal target first results.length := by
        rw [List.length_map, ← hothers.length_eq, followupRequests, List.length_map,
          List.length_range]
      have henough : results.length - (target.request.start + own.families.length) ≤
          (others.map PageReading.families).length * target.request.maxResults := by
        rw [hpages, followupPagesTotal, hseen]
        exact Paging.le_ceil_mul _ hsize
      rw [hseen] at hfollows
      exact Paging.append_flatten_of_full hown.families hfollows henough

end

/-! ## The theorem -/

/-- A call's complete windows were ended on readings of the pages planned for them.  Where these
are pages of one list of results, whatever prefix of its slice each of them shows, a window is
complete exactly if they are all of the list from its start on, in order and each once; and it is
complete if every page is full. -/
theorem complete_windows_tile (d : Deployment) (call : SyncWindowsCall) (rounds : Nat)
    (W : Surroundings archive Archive) {a a' : Archive} {t t' : Int}
    {moves : List (Move archive Archive)} {targets : List MaintenanceTarget}
    {result : MaintenanceResult}
    (hrun : Amid W (windowsDrained d call rounds) a t moves (.ok (targets, result)) a' t') :
    ∀ target ∈ targets,
      (target.coverageStatus = .complete →
        ∃ first pages readings, WindowPaged W moves target first pages readings) ∧
      ∀ first pages readings, WindowPaged W moves target first pages readings →
        ∀ results, Reflects results first pages readings →
          (target.coverageStatus = .complete ↔
            families readings = results.drop target.request.start) ∧
          (0 < target.request.maxResults →
            first.resultCount =
                ((results.drop target.request.start).take target.request.maxResults).length →
              List.Forall₂ (fun page reading => Fills results page.request reading) pages readings →
                target.coverageStatus = .complete) := by
  intro target hmem
  refine ⟨?_, ?_⟩
  · intro hcomplete
    rcases wereDrained_windowsDrained hrun.did target hmem hcomplete with
      ⟨window, budget, timeout, rounds', result', out, hopen, rfl, hdrained⟩
    exact windowPaged_of_drained hdrained hopen hcomplete
  · intro first pages readings hpaged results hreflects
    exact ⟨hpaged.complete_iff hreflects, hpaged.complete_of_full hreflects⟩

/-! ## Three results on two pages -/

instance (results : List String) (request : ArxivRequest) (reading : PageReading) :
    Decidable (Shows results request reading) :=
  decidable_of_iff
    (reading.families <+: (results.drop request.start).take request.maxResults ∧
      reading.entry.resultCount = reading.papers.length ∧
      reading.entry.totalResults = some results.length)
    ⟨fun ⟨hfamilies, hcounted, htotal⟩ => ⟨hfamilies, hcounted, htotal⟩,
      fun ⟨hfamilies, hcounted, htotal⟩ => ⟨hfamilies, hcounted, htotal⟩⟩

def threeResults : List String :=
  ["2401.00001", "2401.00002", "2401.00003"]

/-- Both pages are cached as they are when there are three results. -/
def threeCached : Archive :=
  bothCached ["2401.00003"] 3

/-- The one window is complete, and the library was left alone. -/
def tiles : List (Move archive Archive) × Except Exn (List MaintenanceTarget × MaintenanceResult) ×
    Archive → Bool
  | (moves, .ok ([target], _), _) =>
      moves.all (fun m => decide (m.before.store.library = threeCached.store.library)) &&
        decide (target.coverageStatus = .complete ∧ place target =
          (twoPages, Keys.requestCacheKey twoPages))
  | _ => false

theorem run_of_tiles (h : (playWindows threeCached).any tiles = true) :
    ∃ moves target result a',
      Amid (Archive.among fun _ => False) (windowsDrained {} completeTwoPages 1) threeCached 0 moves
        (.ok ([target], result)) a' 0 ∧
      (∀ m ∈ moves, m.before.store.library = threeCached.store.library) ∧
      target.coverageStatus = .complete ∧
      place target = (twoPages, Keys.requestCacheKey twoPages) := by
  cases hplay : playWindows threeCached with
  | none =>
      rw [hplay] at h
      cases h
  | some run =>
      rw [hplay, Option.any_some] at h
      rcases run with ⟨moves, out, a'⟩
      unfold tiles at h
      split at h
      case h_2 => cases h
      case h_1 moves target result a' heq =>
        cases heq
        simp only [Bool.and_eq_true, List.all_eq_true, decide_eq_true_eq] at h
        refine ⟨moves, target, result, a', Process.amid_of_play ?_ hplay, h.1, h.2⟩
        intro o a hready
        refine ⟨Or.inl ⟨{}, hready, rfl⟩, ?_⟩
        split
        · exact not_false
        · trivial

/-- While the library stands still, the pages read are those that stand in it. -/
theorem forall_read_of_still {theirs : Uuid → Prop} {L : LibraryTables} {a a' : Archive}
    {t t' : Int} {look : List (Move archive Archive)} {syncJobId : Uuid}
    {pages : List MaintenanceTarget} {readings : List PageReading}
    (h : PagesRead (Archive.among theirs) syncJobId pages a t look readings a' t')
    (hstill : ∀ m ∈ look, m.before.store.library = L) :
    List.Forall₂ (fun page reading => L.cacheEntryOf? page.cacheKey = some reading.entry ∧
      reading.papers = L.getCachedPapers page.cacheKey) pages readings := by
  induction h with
  | nil _ => exact .nil
  | cons _ hlook hread _ ih =>
      have hentry := entry_of_still hlook fun m hm => hstill m (by simp [hm])
      have hpapers := papers_of_still hread fun m hm => hstill m (by simp [hm])
      exact .cons ⟨hentry, hpapers⟩ (ih fun m hm => hstill m (by simp [hm]))

theorem complete_windows_tile_three :
    ∃ moves target result a' first pages readings,
      Amid (Archive.among fun _ => False) (windowsDrained {} completeTwoPages 1) threeCached 0 moves
        (.ok ([target], result)) a' 0 ∧
      WindowPaged (Archive.among fun _ => False) moves target first pages readings ∧
      Reflects threeResults first pages readings ∧ families readings = threeResults := by
  have hplay : (playWindows threeCached).any tiles = true := by
    decide +kernel
  rcases run_of_tiles hplay with ⟨moves, target, result, a', hrun, hstill, hcomplete, hplace⟩
  have htile := complete_windows_tile {} completeTwoPages 1 _ hrun target List.mem_cons_self
  rcases htile.1 hcomplete with ⟨first, pages, readings, hpaged⟩
  have hrequest : target.request = twoPages := congrArg Prod.fst hplace
  have hkey : target.cacheKey = Keys.requestCacheKey twoPages := congrArg Prod.snd hplace
  -- The first entry counts two of three results, so that one more page was planned.
  have hfirst : first.resultCount = 2 ∧ first.totalResults = some threeResults.length := by
    rcases hpaged.planned with ⟨b, u, own, b', u', hown, hlook⟩
    have hentry := entry_of_still hlook fun m hm => hstill m (hown.subset hm)
    rw [hkey] at hentry
    have hcached :
      ∀ entry ∈ threeCached.store.library.cacheEntryOf? (Keys.requestCacheKey twoPages),
        entry.resultCount = 2 ∧ entry.totalResults = some threeResults.length := by
      decide +kernel
    exact hcached first hentry
  have hpages : pages.map place = [(twoPages, Keys.requestCacheKey twoPages),
      ({ twoPages with start := 2 }, Keys.requestCacheKey { twoPages with start := 2 })] := by
    rcases hpaged.paged with ⟨total, htotal, hpages⟩
    rw [hfirst.2] at htotal
    cases htotal
    refine hpages.trans ?_
    simp only [followupRequests, followupPagesTotal, hrequest, hkey, hfirst.1]
    decide +kernel
  rcases hpaged.ended with ⟨window, b, u, look, b₁, u₁, rest, b', u', hown, _, _, hread⟩
  have hreadings := forall_read_of_still hread fun m hm =>
    hstill m (hown.subset (List.mem_append_left rest hm))
  have hshown : ∀ p ∈ [(twoPages, Keys.requestCacheKey twoPages),
      ({ twoPages with start := 2 }, Keys.requestCacheKey { twoPages with start := 2 })],
      ∀ entry ∈ threeCached.store.library.cacheEntryOf? p.2,
        Shows threeResults p.1 ⟨entry, threeCached.store.library.getCachedPapers p.2⟩ := by
    decide +kernel
  have hreflects : Reflects threeResults first pages readings := by
    refine ⟨by decide, hfirst.2, ?_⟩
    have hplaced : ∀ page ∈ pages, place page ∈ [(twoPages, Keys.requestCacheKey twoPages),
        ({ twoPages with start := 2 }, Keys.requestCacheKey { twoPages with start := 2 })] :=
      fun page hpage => hpages ▸ List.mem_map_of_mem hpage
    refine ((List.forall₂_and_left _ _).2 ⟨hplaced, hreadings⟩).imp ?_
    rintro page ⟨entry, papers⟩ ⟨hmem, hentry, hpapers⟩
    cases hpapers
    exact hshown (place page) hmem entry hentry
  refine ⟨moves, target, result, a', first, pages, readings, hrun, hpaged, hreflects, ?_⟩
  have hall := ((htile.2 first pages readings hpaged threeResults hreflects).1).1 hcomplete
  rw [hall, hrequest]
  rfl

end Maintenance
end Huldra
