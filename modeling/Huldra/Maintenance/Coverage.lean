import Huldra.Library.IdLists
import Huldra.Maintenance.Closing
import Huldra.Maintenance.Parts
import Mathlib.Algebra.Order.Ring.Nat
import Mathlib.Data.Finset.Card

/-!
# Coverage — when a complete window is complete

The first page of a window is read when its pages are planned, and all pages are read once more when
the job ends.  In between, the upstream may have changed: the total that the distinct papers are
counted against is the one the first page was planned with.
-/

namespace Huldra

open Process (Prog Amid Did Drift Move Surroundings)

namespace Maintenance

/-! ## What the last look at the pages finds -/

/-- A readable page: its entry, and its papers. -/
structure PageReading where
  entry : CacheEntry
  papers : List ArxivPaper
  deriving DecidableEq

/-- The paper families on some pages. -/
def families (readings : List PageReading) : List String :=
  readings.flatMap fun reading =>
    reading.papers.map fun paper => Keys.arxivIdFamilyBase paper.arxivId

/-- How many distinct paper families there are on some pages. -/
def familiesTotal (readings : List PageReading) : Nat :=
  (families readings).toFinset.card

/-- The results that the entries of the pages count. -/
def countedTotal (readings : List PageReading) : Nat :=
  (readings.map (·.entry.resultCount)).sum

/-- The pages hold as many families as any one of them reports from the start of the window on. -/
def Covers (start : Nat) (readings : List PageReading) : Prop :=
  ∀ reading ∈ readings, ∀ total, reading.entry.totalResults = some total →
    total - start ≤ familiesTotal readings

/-- A page reports more results than the window was planned for, and more than the entries of the
pages count. -/
def Outgrown (start planned : Nat) (readings : List PageReading) : Prop :=
  ∃ reading ∈ readings, ∃ total, reading.entry.totalResults = some total ∧ planned < total ∧
    start + countedTotal readings < total

/-- The last look at some pages, one after the other, all of them readable. -/
inductive PagesRead (W : Surroundings archive Archive) (syncJobId : Uuid) :
    List MaintenanceTarget → Archive → Int → List (Move archive Archive) → List PageReading →
      Archive → Int → Prop where
  | nil {a a' : Archive} {t t' : Int} {moves : List (Move archive Archive)} :
      Drift W a t moves a' t' → PagesRead W syncJobId [] a t moves [] a' t'
  | cons {page : MaintenanceTarget} {rest : List MaintenanceTarget} {a a₁ a₂ a₃ a' : Archive}
      {t t₁ t₂ t₃ t' : Int} {refreshed looked read moves : List (Move archive Archive)}
      {pageError : Option String} {entry : CacheEntry} {papers : List ArxivPaper}
      {readings : List PageReading} :
      Amid W (refreshSyncJobPageFromCache syncJobId page.request page.cacheKey) a t refreshed
        (.ok pageError) a₁ t₁ →
      Amid W (embed (getReadableCompletedCache page.cacheKey)) a₁ t₁ looked (.ok (some entry))
        a₂ t₂ →
      Amid W (embed (getCachedPapers page.cacheKey)) a₂ t₂ read (.ok papers) a₃ t₃ →
      PagesRead W syncJobId rest a₃ t₃ moves readings a' t' →
      PagesRead W syncJobId (page :: rest) a t (refreshed ++ (looked ++ (read ++ moves)))
        (⟨entry, papers⟩ :: readings) a' t'

/-- In these moves the window was planned with the total `planned`, and its job was ended on these
readings of its pages. -/
def WindowRead (W : Surroundings archive Archive) (moves : List (Move archive Archive))
    (target : MaintenanceTarget) (planned : Nat) (readings : List PageReading) : Prop :=
  (∃ first, Did W (embed (getReadableCompletedCache target.cacheKey)) (some first) moves ∧
    first.totalResults = some planned) ∧
  ∃ window pages a t look a₁ t₁ rest a' t', look ++ rest <:+: moves ∧
    window.totalResults = some planned ∧
    Amid W (finalizeCompleteWindowTarget window pages) a t (look ++ rest) (.ok target) a' t' ∧
    PagesRead W window.syncJobId pages a t look readings a₁ t₁

section
variable {W : Surroundings archive Archive} {d : Deployment}

/-! ## The sums of the pages -/

/-- What a readable page adds. -/
def PageSums.add (sums : PageSums) (reading : PageReading) : PageSums :=
  { sums with
    pageResultsTotal := sums.pageResultsTotal + reading.entry.resultCount
    uniquePaperIds := (sums.uniquePaperIds ++
      reading.papers.map fun paper => Keys.arxivIdFamilyBase paper.arxivId).eraseDups
    totalResults := sums.totalResults.or reading.entry.totalResults
    pagesCompleted := sums.pagesCompleted + 1 }

theorem sums_pageResultsTotal (readings : List PageReading) (sums : PageSums) :
    (readings.foldl PageSums.add sums).pageResultsTotal =
      sums.pageResultsTotal + countedTotal readings := by
  induction readings generalizing sums with
  | nil => rfl
  | cons reading rest ih =>
      rw [List.foldl_cons, ih]
      simp [PageSums.add, countedTotal, Nat.add_assoc]

theorem sums_pagesCompleted (readings : List PageReading) (sums : PageSums) :
    (readings.foldl PageSums.add sums).pagesCompleted =
      sums.pagesCompleted + readings.length := by
  induction readings generalizing sums with
  | nil => rfl
  | cons reading rest ih =>
      rw [List.foldl_cons, ih, List.length_cons]
      simp only [PageSums.add]
      omega

theorem sums_totalResults {planned : Nat} (readings : List PageReading) (sums : PageSums)
    (h : sums.totalResults = some planned) :
    (readings.foldl PageSums.add sums).totalResults = some planned := by
  induction readings generalizing sums with
  | nil => exact h
  | cons reading rest ih => exact ih _ (by simp [PageSums.add, h])

/-- The families are counted once each. -/
theorem sums_uniquePaperIds (readings : List PageReading) (sums : PageSums)
    (hnodup : sums.uniquePaperIds.Nodup) :
    (readings.foldl PageSums.add sums).uniquePaperIds.Nodup ∧
      ∀ id, id ∈ (readings.foldl PageSums.add sums).uniquePaperIds ↔
        id ∈ sums.uniquePaperIds ∨ id ∈ families readings := by
  induction readings generalizing sums with
  | nil => exact ⟨hnodup, by simp [families]⟩
  | cons reading rest ih =>
      rcases ih (sums.add reading) (nodup_eraseDups _) with ⟨hnext, hmem⟩
      refine ⟨hnext, fun id => ?_⟩
      rw [List.foldl_cons, hmem]
      simp [PageSums.add, families, List.mem_eraseDups, or_assoc]

theorem uniquePaperIds_length (readings : List PageReading) (planned : Option Nat) :
    (readings.foldl PageSums.add { totalResults := planned }).uniquePaperIds.length =
      familiesTotal readings := by
  rcases sums_uniquePaperIds readings { totalResults := planned } List.nodup_nil with
    ⟨hnodup, hmem⟩
  rw [← List.toFinset_card_of_nodup hnodup, familiesTotal]
  congr 1
  ext id
  simp [hmem]

theorem addPage_of_read {syncJobId : Uuid} {page : MaintenanceTarget} {a a₁ a₂ a₃ : Archive}
    {t t₁ t₂ t₃ : Int} {refreshed looked read : List (Move archive Archive)}
    {pageError : Option String} {entry : CacheEntry} {papers : List ArxivPaper}
    (hrefresh : Amid W (refreshSyncJobPageFromCache syncJobId page.request page.cacheKey) a t
      refreshed (.ok pageError) a₁ t₁)
    (hlook : Amid W (embed (getReadableCompletedCache page.cacheKey)) a₁ t₁ looked
      (.ok (some entry)) a₂ t₂)
    (hread : Amid W (embed (getCachedPapers page.cacheKey)) a₂ t₂ read (.ok papers) a₃ t₃)
    (sums : PageSums) :
    Amid W (addPage syncJobId sums page) a t (refreshed ++ (looked ++ read))
      (.ok (sums.add ⟨entry, papers⟩)) a₃ t₃ := by
  refine hrefresh.bind rfl (hlook.bind rfl ?_)
  have hsum : Amid W (embed (getCachedPapers page.cacheKey) >>= fun papers =>
      pure (sums.add ⟨entry, papers⟩)) a₂ t₂ (read ++ []) (.ok (sums.add ⟨entry, papers⟩)) a₃ t₃ :=
    hread.bind rfl (.ret _ _ _)
  rw [List.append_nil] at hsum
  exact hsum

/-- Pages that were read are added up. -/
theorem PagesRead.addPages {syncJobId : Uuid} {pages : List MaintenanceTarget} {a a' : Archive}
    {t t' : Int} {look : List (Move archive Archive)} {readings : List PageReading}
    (h : PagesRead W syncJobId pages a t look readings a' t') :
    ∀ sums, Amid W (addPages syncJobId pages sums) a t look
      (.ok (readings.foldl PageSums.add sums)) a' t' := by
  induction h with
  | nil hdrift =>
      intro sums
      have hrun := hdrift.amid (.ret (I := archive) (W := W) sums _ _)
      rwa [List.append_nil] at hrun
  | cons hrefresh hlook hread _ ih =>
      intro sums
      have hpage := addPage_of_read hrefresh hlook hread sums
      have hrun := hpage.bind (f := Maintenance.addPages syncJobId _) rfl (ih _)
      simp only [List.append_assoc] at hrun
      exact hrun

/-- A page adds one to the pages that are completed, if it is readable, and none otherwise. -/
theorem addPage_cases {syncJobId : Uuid} {page : MaintenanceTarget} {sums sums' : PageSums}
    {a a' : Archive} {t t' : Int} {moves : List (Move archive Archive)}
    (hrun : Amid W (addPage syncJobId sums page) a t moves (.ok sums') a' t') :
    sums'.pagesCompleted = sums.pagesCompleted ∨
      sums'.pagesCompleted = sums.pagesCompleted + 1 ∧
      ∃ refreshed looked read rest pageError entry papers a₁ t₁ a₂ t₂ a₃ t₃,
        moves = refreshed ++ (looked ++ (read ++ rest)) ∧
        Amid W (refreshSyncJobPageFromCache syncJobId page.request page.cacheKey) a t refreshed
          (.ok pageError) a₁ t₁ ∧
        Amid W (embed (getReadableCompletedCache page.cacheKey)) a₁ t₁ looked (.ok (some entry))
          a₂ t₂ ∧
        Amid W (embed (getCachedPapers page.cacheKey)) a₂ t₂ read (.ok papers) a₃ t₃ ∧
        Drift W a₃ t₃ rest a' t' := by
  rcases hrun.bind_cases with ⟨pageError, refreshed, moves₁, a₁, t₁, rfl, hrefresh, hrun⟩
  rcases hrun.bind_cases with ⟨readable, looked, moves₂, a₂, t₂, rfl, hlook, hrun⟩
  cases readable with
  | none =>
      refine .inl (hrun.returns (S := fun sums' => sums'.pagesCompleted = sums.pagesCompleted) ?_
        rfl)
      dsimp only
      split
      · exact .bind fun entry => rfl
      · rfl
  | some entry =>
      rcases hrun.bind_cases with ⟨papers, read, rest, a₃, t₃, rfl, hread, hrun⟩
      have hsums := hrun.out_of_ret rfl
      cases hsums
      exact .inr ⟨rfl, refreshed, looked, read, rest, pageError, entry, papers, a₁, t₁, a₂, t₂, a₃,
        t₃, rfl, hrefresh, hlook, hread, hrun.drift rfl⟩

/-- Steps of the others may come before the pages are read. -/
theorem PagesRead.of_drift {syncJobId : Uuid} {pages : List MaintenanceTarget}
    {a a₁ a' : Archive} {t t₁ t' : Int} {drifted look : List (Move archive Archive)}
    {readings : List PageReading} (hdrift : Drift W a t drifted a₁ t₁)
    (h : PagesRead W syncJobId pages a₁ t₁ look readings a' t') :
    PagesRead W syncJobId pages a t (drifted ++ look) readings a' t' := by
  cases h with
  | nil hrest => exact .nil (hdrift.trans hrest)
  | cons hrefresh hlook hread hrest =>
      rw [← List.append_assoc]
      exact .cons (hdrift.amid hrefresh) hlook hread hrest

/-- Where all pages are completed, all of them were readable. -/
theorem pagesRead_of_run {syncJobId : Uuid} {pages : List MaintenanceTarget} :
    ∀ {sums sums' : PageSums} {a a' : Archive} {t t' : Int} {moves : List (Move archive Archive)},
      Amid W (addPages syncJobId pages sums) a t moves (.ok sums') a' t' →
      sums'.pagesCompleted ≤ sums.pagesCompleted + pages.length ∧
      (sums'.pagesCompleted = sums.pagesCompleted + pages.length →
        ∃ readings, PagesRead W syncJobId pages a t moves readings a' t') := by
  induction pages with
  | nil =>
      intro sums sums' a a' t t' moves hrun
      have hsums := hrun.out_of_ret rfl
      cases hsums
      exact ⟨Nat.le_refl _, fun _ => ⟨[], .nil (hrun.drift rfl)⟩⟩
  | cons page rest ih =>
      intro sums sums' a a' t t' moves hrun
      rcases hrun.bind_cases with ⟨sums₁, first, later, a₁, t₁, rfl, hpage, hrest⟩
      rcases ih hrest with ⟨hle, hread⟩
      rw [List.length_cons]
      rcases addPage_cases hpage with hsame | ⟨hnext, refreshed, looked, read, drifted, pageError,
        entry, papers, a₂, t₂, a₃, t₃, a₄, t₄, rfl, hrefresh, hlook, hpapers, hdrift⟩
      · exact ⟨by omega, fun hall => by omega⟩
      · refine ⟨by omega, fun hall => ?_⟩
        rcases hread (by omega) with ⟨readings, hpages⟩
        refine ⟨⟨entry, papers⟩ :: readings, ?_⟩
        simp only [List.append_assoc]
        exact .cons hrefresh hlook hpapers (hpages.of_drift hdrift)

/-! ## What the job is ended on -/

/-- The test for a complete window. -/
def sumsComplete (window : MaintenanceTarget) (pages : List MaintenanceTarget) (sums : PageSums) :
    Bool :=
  sums.pagesCompleted = pages.length &&
    (sums.pageResultsTotal : Int) - sums.uniquePaperIds.length = 0 &&
    sums.totalResults.any fun total => total - window.request.start ≤ sums.uniquePaperIds.length

/-- What the target of a window keeps, and what it ends with. -/
structure EndedOn (window : MaintenanceTarget) (pages : List MaintenanceTarget) (sums : PageSums)
    (target : MaintenanceTarget) : Prop where
  request : target.request = window.request
  cacheKey : target.cacheKey = window.cacheKey
  coverage : target.coverageStatus =
    if sumsComplete window pages sums then .complete else .partial_
  resultCount : target.resultCount = sums.uniquePaperIds.length

/-- The pages are added up, and the rest is decided on the sums. -/
theorem finalize_cases {window target : MaintenanceTarget} {pages : List MaintenanceTarget}
    {a a' : Archive} {t t' : Int} {moves : List (Move archive Archive)}
    (hrun : Amid W (finalizeCompleteWindowTarget window pages) a t moves (.ok target) a' t') :
    ∃ sums look rest a₁ t₁, moves = look ++ rest ∧
      Amid W (addPages window.syncJobId pages { totalResults := window.totalResults }) a t look
        (.ok sums) a₁ t₁ ∧ EndedOn window pages sums target := by
  rcases hrun.bind_cases with ⟨sums, look, rest, a₁, t₁, rfl, hlook, hrest⟩
  refine ⟨sums, look, rest, a₁, t₁, rfl, hlook, hrest.returns (.bind fun _ => ?_) rfl⟩
  exact ⟨rfl, rfl, rfl, rfl⟩

/-- The sums are those of the pages as they were read. -/
theorem endedOn_of_read {window target : MaintenanceTarget} {pages : List MaintenanceTarget}
    {a a₁ a' : Archive} {t t₁ t' : Int} {look rest : List (Move archive Archive)}
    {readings : List PageReading}
    (hrun : Amid W (finalizeCompleteWindowTarget window pages)
      a t (look ++ rest) (.ok target) a' t')
    (hread : PagesRead W window.syncJobId pages a t look readings a₁ t₁) :
    EndedOn window pages
      (readings.foldl PageSums.add { totalResults := window.totalResults }) target := by
  have hadded := hread.addPages { totalResults := window.totalResults }
  have hrest := hadded.after_first rfl hrun
  refine hrest.returns (.bind fun _ => ?_) rfl
  exact ⟨rfl, rfl, rfl, rfl⟩

/-- Of a complete window the papers are as many as the entries of its pages count, and no fewer than
it was planned for. -/
theorem EndedOn.complete {window target : MaintenanceTarget} {pages : List MaintenanceTarget}
    {readings : List PageReading} {planned : Nat} (hplanned : window.totalResults = some planned)
    (h : EndedOn window pages (readings.foldl PageSums.add { totalResults := window.totalResults })
      target) (hcomplete : target.coverageStatus = .complete) :
    target.resultCount = familiesTotal readings ∧
      countedTotal readings = familiesTotal readings ∧
      planned - target.request.start ≤ familiesTotal readings := by
  have hunique := uniquePaperIds_length readings window.totalResults
  have htest : sumsComplete window pages
      (readings.foldl PageSums.add { totalResults := window.totalResults }) = true := by
    by_contra hnot
    have hpartial := h.coverage
    rw [if_neg hnot, hcomplete] at hpartial
    cases hpartial
  simp only [sumsComplete, Bool.and_eq_true, decide_eq_true_eq, sums_pageResultsTotal, hunique,
    sums_totalResults readings { totalResults := window.totalResults } hplanned, Option.any_some,
    Nat.zero_add] at htest
  rw [h.request]
  refine ⟨h.resultCount.trans hunique, ?_, htest.2⟩
  have := htest.1.2
  omega

/-- Whatever the pages report, the papers of a complete window are enough exactly if no page
reports more than was planned for and counted. -/
theorem WindowRead.covers_iff {moves : List (Move archive Archive)} {target : MaintenanceTarget}
    {planned : Nat} {readings : List PageReading} (h : WindowRead W moves target planned readings)
    (hcomplete : target.coverageStatus = .complete) :
    Covers target.request.start readings ↔ ¬Outgrown target.request.start planned readings := by
  rcases h with ⟨_, window, pages, a, t, look, a₁, t₁, rest, a', t', _, hplanned, hrun, hread⟩
  rcases (endedOn_of_read hrun hread).complete hplanned hcomplete with ⟨_, hcounted, henough⟩
  constructor
  · rintro hcovers ⟨reading, hmem, total, htotal, _, hmore⟩
    have := hcovers reading hmem total htotal
    omega
  · intro hnot reading hmem total htotal
    by_contra hless
    exact hnot ⟨reading, hmem, total, htotal, by omega, by omega⟩

/-! ## Where a complete window comes from -/

/-- The window is not reported complete. -/
def Incomplete (target : MaintenanceTarget) : Prop :=
  target.coverageStatus ≠ .complete

theorem incomplete_of_partial {target : MaintenanceTarget}
    (h : target.coverageStatus = .partial_) : Incomplete target := by
  simp [Incomplete, h]

theorem returns_completeFirstPage (target : MaintenanceTarget) (first : CacheEntry)
    (status : SyncStatus) {coverageStatus : CoverageStatus} (h : coverageStatus ≠ .complete)
    (category message : String) :
    (completeFirstPage target first status coverageStatus category message).Returns Incomplete :=
  .bind fun _ => h

theorem returns_windowBudgetFailure (target : MaintenanceTarget) (first : CacheEntry)
    (category message : String) :
    (completeWindowBudgetFailure target first category message).Returns Incomplete :=
  returns_completeFirstPage target first _ (by simp) _ _

theorem returns_followupDeadline (target : MaintenanceTarget) (first : CacheEntry)
    (budget : MaintenanceBudget) :
    (completeFollowupDeadlineBudgetFailure target first budget).Returns Incomplete := by
  unfold completeFollowupDeadlineBudgetFailure
  exact .bind fun _ => .bind fun _ => returns_windowBudgetFailure target first _ _

theorem returns_unfetchedWindow (target : MaintenanceTarget) :
    (completeUnfetchedWindow target).Returns Incomplete := by
  unfold completeUnfetchedWindow
  exact .bind fun _ => .bind fun _ => .bind fun _ => incomplete_of_partial rfl

theorem returns_uncountedWindow (target : MaintenanceTarget) (first : CacheEntry) :
    (completeUncountedWindow target first).Returns Incomplete := by
  unfold completeUncountedWindow
  exact .bind fun _ => incomplete_of_partial rfl

theorem returns_initialBudgetFailure (target : MaintenanceTarget) (category message : String) :
    (completeInitialMaintenanceBudgetFailure target category message).Returns Incomplete := by
  unfold completeInitialMaintenanceBudgetFailure
  exact .bind fun _ => incomplete_of_partial rfl

variable {moves : List (Move archive Archive)}

/-- A window that was ended early is not complete. -/
theorem not_did_complete {β : Type} {p : ArchiveProgram MaintenanceTarget}
    (hp : p.Returns Incomplete) {b : β} {out : MaintenanceTarget × β}
    (h : Did W (p >>= fun target => .ret (target, b)) out moves)
    (hcomplete : out.1.coverageStatus = .complete) : False := by
  have hreturns : (p >>= fun target => .ret (target, b)).Returns fun out => Incomplete out.1 :=
    .bind_of hp fun _ hpartial => hpartial
  exact h.returns hreturns hcomplete

theorem did_drainPages {target : MaintenanceTarget} {first : CacheEntry}
    {plan : List PlannedRequest} {budget : MaintenanceBudget} {timeout : Int} {rounds : Nat}
    {result : MaintenanceResult} {out : MaintenanceTarget × MaintenanceResult}
    (h : Did W (drainPages d target first plan budget timeout rounds result) out moves)
    (hcomplete : out.1.coverageStatus = .complete) :
    ∃ pages, Did W (finalizeCompleteWindowTarget target pages) out.1 moves := by
  rcases h.bind with ⟨⟨pages, result'⟩, _, h⟩
  cases pages with
  | none => exact (not_did_complete (returns_followupDeadline target first budget) h hcomplete).elim
  | some pages =>
      rcases h.bind with ⟨⟨pages', result''⟩, _, h⟩
      rcases h.bind with ⟨ended, hended, h⟩
      have hout := h.of_ret
      subst hout
      exact ⟨_, hended⟩

theorem did_admitPages {target : MaintenanceTarget} {first : CacheEntry} {totalResults : Nat}
    {budget : MaintenanceBudget} {timeout : Int} {rounds : Nat} {result : MaintenanceResult}
    {out : MaintenanceTarget × MaintenanceResult × MaintenanceBudget}
    (h : Did W (admitPages d target first totalResults budget timeout rounds result) out moves)
    (hcomplete : out.1.coverageStatus = .complete) :
    ∃ pages, Did W (finalizeCompleteWindowTarget target pages) out.1 moves := by
  have hrefused : ∀ {category message : String} {b : MaintenanceResult × MaintenanceBudget},
      ¬Did W (completeWindowBudgetFailure target first category message >>= fun target =>
        .ret (target, b)) out moves :=
    fun h => not_did_complete (returns_windowBudgetFailure target first _ _) h hcomplete
  unfold admitPages at h
  dsimp only at h
  split at h
  · exact absurd h hrefused
  · rcases h.bind with ⟨plan, _, h⟩
    rcases h.bind with ⟨requestsStarted, _, h⟩
    cases requestsStarted with
    | none => exact absurd h hrefused
    | some requestsStarted =>
        dsimp only at h
        split at h
        · exact absurd h hrefused
        · -- Whether or not the deadline is checked, the rest is the same.
          split at h
          all_goals
            rcases h.bind with ⟨fits, _, h⟩
            split at h
            · exact absurd h hrefused
            · rcases h.bind with ⟨⟨ended, result'⟩, hended, h⟩
              have hout := h.of_ret
              subst hout
              exact did_drainPages hended hcomplete

/-- A complete window was planned with the total of its first page, and its job was ended with
all its pages. -/
theorem did_planAndDrain {target : MaintenanceTarget} {budget : MaintenanceBudget} {timeout : Int}
    {rounds : Nat} {result : MaintenanceResult}
    {out : MaintenanceTarget × MaintenanceResult × MaintenanceBudget}
    (h : Did W (planAndDrainCompleteWindowTarget d target budget timeout rounds result) out moves)
    (hopen : Incomplete target) (hcomplete : out.1.coverageStatus = .complete) :
    ∃ first planned pages,
      Did W (embed (getReadableCompletedCache target.cacheKey)) (some first) moves ∧
        first.totalResults = some planned ∧
        Did W (finalizeCompleteWindowTarget { target with totalResults := some planned } pages)
          out.1 moves := by
  unfold planAndDrainCompleteWindowTarget at h
  split at h
  · split at h
    · exact (not_did_complete (returns_initialBudgetFailure target _ _) h hcomplete).elim
    · have hout := h.of_ret
      subst hout
      exact absurd hcomplete hopen
  · rcases h.bind with ⟨first, hfirst, h⟩
    rcases h.bind with ⟨_, _, h⟩
    cases first with
    | none => exact (not_did_complete (returns_unfetchedWindow target) h hcomplete).elim
    | some first =>
        dsimp only at h
        split at h
        · exact (not_did_complete (returns_uncountedWindow target first) h hcomplete).elim
        · rename_i planned hplanned
          split at h
          · exact (not_did_complete (returns_completeFirstPage target first _ (by simp) _ _) h
              hcomplete).elim
          · split at h
            · exact (not_did_complete (returns_completeFirstPage target first _ (by simp) _ _) h
                hcomplete).elim
            · rcases did_admitPages h hcomplete with ⟨pages, hfinal⟩
              exact ⟨first, planned, pages, hfirst, hplanned, hfinal⟩

/-- Where the job of a complete window was ended, its pages were read. -/
theorem windowRead_of_did {window target : MaintenanceTarget} {first : CacheEntry} {planned : Nat}
    {pages : List MaintenanceTarget}
    (hfirst : Did W (embed (getReadableCompletedCache window.cacheKey)) (some first) moves)
    (hplanned : first.totalResults = some planned)
    (hfinal : Did W (finalizeCompleteWindowTarget { window with totalResults := some planned }
      pages)
      target moves) (hcomplete : target.coverageStatus = .complete) :
    ∃ readings, WindowRead W moves target planned readings := by
  rcases hfinal with ⟨a, t, own, a', t', hown, hrun⟩
  rcases finalize_cases hrun with ⟨sums, look, rest, a₁, t₁, rfl, hlook, hended⟩
  have htest : sumsComplete { window with totalResults := some planned } pages sums = true := by
    by_contra hnot
    have hpartial := hended.coverage
    rw [if_neg hnot, hcomplete] at hpartial
    cases hpartial
  have hall : sums.pagesCompleted = pages.length := by
    simp only [sumsComplete, Bool.and_eq_true, decide_eq_true_eq] at htest
    exact htest.1.1
  rcases (pagesRead_of_run hlook).2 (by simpa using hall) with ⟨readings, hread⟩
  refine ⟨readings, ⟨first, ?_, hplanned⟩, _, pages, a, t, look, a₁, t₁, rest, a', t', hown, rfl,
    hrun, hread⟩
  rw [hended.cacheKey]
  exact hfirst

/-- Each of these windows that is reported complete was planned and read in these moves. -/
def CompleteRead (W : Surroundings archive Archive) (moves : List (Move archive Archive))
    (targets : List MaintenanceTarget) : Prop :=
  ∀ target ∈ targets, target.coverageStatus = .complete →
    ∃ planned readings, WindowRead W moves target planned readings

theorem completeRead_of_incomplete {targets : List MaintenanceTarget}
    (h : ∀ target ∈ targets, Incomplete target) : CompleteRead W moves targets :=
  fun target hmem hcomplete => absurd hcomplete (h target hmem)

theorem completeRead_planAndDrainTargets {timeout : Int} {rounds : Nat}
    {targets : List MaintenanceTarget} :
    ∀ {result : MaintenanceResult} {budget : MaintenanceBudget}
      {out : List MaintenanceTarget × MaintenanceResult},
      (∀ target ∈ targets, Incomplete target) →
      Did W (planAndDrainTargets d timeout rounds targets result budget) out moves →
      CompleteRead W moves out.1 := by
  induction targets with
  | nil =>
      intro result budget out _ h
      have hout := h.of_ret
      subst hout
      intro target hmem
      cases hmem
  | cons window rest ih =>
      intro result budget out hopen h
      rcases h.bind with ⟨⟨ended, result', budget'⟩, hended, h⟩
      rcases h.bind with ⟨⟨others, result''⟩, hothers, h⟩
      have hout := h.of_ret
      subst hout
      intro target hmem hcomplete
      rcases List.mem_cons.1 hmem with rfl | hmem
      · rcases did_planAndDrain hended (hopen window List.mem_cons_self) hcomplete with
          ⟨first, planned, pages, hfirst, hplanned, hfinal⟩
        exact ⟨planned, windowRead_of_did hfirst hplanned hfinal hcomplete⟩
      · exact ih (fun target hmem => hopen target (List.mem_cons_of_mem _ hmem)) hothers target hmem
          hcomplete

theorem incomplete_of_stamps {targets targets' : List MaintenanceTarget}
    (h : targets'.map stamp = targets.map stamp) (hopen : ∀ target ∈ targets, Incomplete target) :
    ∀ target ∈ targets', Incomplete target := by
  intro target hmem hcomplete
  have hstamp : stamp target ∈ targets.map stamp := by
    rw [← h]
    exact List.mem_map_of_mem hmem
  rcases List.mem_map.1 hstamp with ⟨before, hbefore, hsame⟩
  refine hopen before hbefore ?_
  rw [← hcomplete]
  exact congrArg Prod.snd hsame

theorem returns_createTargets (mode : LegacySyncMode) (budget : MaintenanceBudget)
    (plan : List PlannedRequest) :
    (createTargets mode budget plan).Returns fun targets =>
      ∀ target ∈ targets, Incomplete target := by
  induction plan with
  | nil => exact fun target hmem => by cases hmem
  | cons planned rest ih =>
      refine .bind fun syncJobId => .bind fun _ => .bind_of ih fun others hothers => ?_
      intro target hmem
      rcases List.mem_cons.1 hmem with rfl | hmem
      · simp [Incomplete]
      · exact hothers target hmem

theorem returns_enqueueTarget (mode : LegacySyncMode) (budget : MaintenanceBudget)
    {target : MaintenanceTarget} (hopen : Incomplete target) (result : MaintenanceResult) :
    (enqueueTarget d mode budget target result).Returns fun out => Incomplete out.1 := by
  unfold enqueueTarget
  refine .bind fun late => ?_
  split
  · exact .bind fun _ => .bind_of (returns_initialBudgetFailure target _ _) fun _ h => h
  · exact .bind fun queued => .bind fun _ => hopen

theorem returns_enqueueTargets (mode : LegacySyncMode) (budget : MaintenanceBudget)
    (cached : CacheKey → Option CacheEntry) (targets : List MaintenanceTarget) :
    ∀ result, (∀ target ∈ targets, Incomplete target) →
      (enqueueTargets d mode budget cached targets result).Returns fun out =>
        ∀ target ∈ out.1, Incomplete target := by
  induction targets with
  | nil => exact fun result _ target hmem => by cases hmem
  | cons target rest ih =>
      intro result hopen
      have hrest : ∀ (first : MaintenanceTarget × MaintenanceResult), Incomplete first.1 →
          ((do
            let others ← enqueueTargets d mode budget cached rest first.2
            pure (first.1 :: others.1, others.2)) : ArchiveProgram _).Returns fun out =>
              ∀ target ∈ out.1, Incomplete target := by
        intro first hfirst
        refine .bind_of (ih first.2 fun target hmem => hopen target (List.mem_cons_of_mem _ hmem))
          fun others hothers => ?_
        intro target hmem
        rcases List.mem_cons.1 hmem with rfl | hmem
        · exact hfirst
        · exact hothers target hmem
      unfold enqueueTargets
      dsimp only
      split
      · exact .bind fun _ => hrest ({ target with initialCacheHit := true }, _)
          (hopen target List.mem_cons_self)
      · exact .bind_of (returns_enqueueTarget mode budget (hopen target List.mem_cons_self) result)
          hrest

theorem completeRead_drain {call : SyncWindowsCall} {rounds : Nat} {budget : MaintenanceBudget}
    {timeout : Int} {targets : List MaintenanceTarget} {result : MaintenanceResult}
    {out : List MaintenanceTarget × MaintenanceResult}
    (hopen : ∀ target ∈ targets, Incomplete target)
    (h : Did W (drain d call rounds budget timeout targets result) out moves) :
    CompleteRead W moves out.1 := by
  unfold drain at h
  split at h
  · have hout := h.of_ret
    subst hout
    exact completeRead_of_incomplete hopen
  · split at h
    · rcases h.bind with ⟨⟨drained, result'⟩, hdrained, h⟩
      have hstamps := hdrained.returns
        (stamps_drainTargetsUntilDeadline d targets result budget timeout rounds)
      exact completeRead_planAndDrainTargets (incomplete_of_stamps hstamps hopen) h
    · rcases h.bind with ⟨result', _, h⟩
      have hout := h.of_ret
      subst hout
      exact completeRead_of_incomplete hopen

/-- A call that returns had no windows, or came to wait for windows none of which was complete. -/
theorem drained_of_windowsDrained {call : SyncWindowsCall} {rounds : Nat}
    {out : List MaintenanceTarget × MaintenanceResult}
    (h : Did W (windowsDrained d call rounds) out moves) :
    out.1 = [] ∨ ∃ budget timeout targets result, (∀ target ∈ targets, Incomplete target) ∧
      Did W (drain d call rounds budget timeout targets result) out moves := by
  unfold windowsDrained at h
  split at h
  · exact h.not_raise.elim
  · split at h
    · exact h.not_raise.elim
    · split at h
      · have hout := h.of_ret
        subst hout
        exact Or.inl rfl
      · rcases h.bind with ⟨plan, _, h⟩
        dsimp only at h
        split at h
        · exact h.not_raise.elim
        · rcases h.bind with ⟨now, _, h⟩
          rcases h.bind with ⟨later, _, h⟩
          split at h
          · exact h.not_raise.elim
          -- Whether or not the deadline is checked, the rest is the same.
          · split at h
            all_goals
              rcases h.bind with ⟨fits, _, h⟩
              split at h
              · exact h.not_raise.elim
              · rcases h.bind with ⟨upstreamBudgetId, _, h⟩
                rcases h.bind with ⟨targets, htargets, h⟩
                rcases h.bind with ⟨⟨queued, result⟩, hqueued, h⟩
                have hopen := htargets.returns (returns_createTargets call.mode _ plan)
                exact Or.inr ⟨_, _, queued, result,
                  hqueued.returns (returns_enqueueTargets call.mode _ _ targets _ hopen), h⟩

theorem completeRead_windowsDrained {call : SyncWindowsCall} {rounds : Nat}
    {out : List MaintenanceTarget × MaintenanceResult}
    (h : Did W (windowsDrained d call rounds) out moves) : CompleteRead W moves out.1 := by
  rcases drained_of_windowsDrained h with hnone | ⟨budget, timeout, targets, result, hopen, h⟩
  · rw [hnone]
    intro target hmem
    cases hmem
  · exact completeRead_drain hopen h

end

/-! ## The theorem -/

/-- Each window that a call reports complete was decided on readings of its pages, and these hold as
many families as every one of the pages reports exactly if no page has outgrown the plan. -/
theorem complete_windows_cover_iff (d : Deployment) (call : SyncWindowsCall) (rounds : Nat)
    (W : Surroundings archive Archive) {a a' : Archive} {t t' : Int}
    {moves : List (Move archive Archive)} {targets : List MaintenanceTarget}
    {result : MaintenanceResult}
    (hrun : Amid W (windowsDrained d call rounds) a t moves (.ok (targets, result)) a' t') :
    ∀ target ∈ targets, target.coverageStatus = .complete →
      (∃ planned readings, WindowRead W moves target planned readings) ∧
        ∀ planned readings, WindowRead W moves target planned readings →
          (Covers target.request.start readings ↔
            ¬Outgrown target.request.start planned readings) := by
  intro target hmem hcomplete
  exact ⟨completeRead_windowsDrained hrun.did target hmem hcomplete,
    fun planned readings hread => hread.covers_iff hcomplete⟩

/-! ## A result set that grows between two pages -/

section
variable {theirs : Uuid → Prop} {L : LibraryTables} {cacheKey : CacheKey} {a a' : Archive}
  {t t' : Int} {look : List (Move archive Archive)}

/-- While the library stands still, it is what an operation of the client is answered from. -/
theorem answer_of_still {o : LibraryOp} {found : (ArchiveOp.store (.library o)).Res}
    {rest : List (Move archive Archive)} {a₁ : Archive} {t₁ : Int}
    (hnext : Amid.Next (I := archive) (Archive.among theirs) (o := .store (.library o)) a t look
      (.ok found) rest a₁ t₁) (hstill : ∀ m ∈ look, m.before.store.library = L) :
    ∃ u input, u.store.library = L ∧
      Archive.exec (.store (.library o)) t₁ input u = (.ok found, a₁) := by
  rcases hnext with ⟨drifted, u, since, _, _, hdoes, rfl⟩
  rcases hdoes.1.of_ok with ⟨input, _, hexec⟩
  exact ⟨u, input, hstill _ (List.mem_append_right _ List.mem_cons_self), hexec⟩

/-- An entry is given to the reader as it was found, or not at all. -/
theorem returns_readable (cacheKey : CacheKey) (found : CacheEntry) :
    Prog.Returns (fun readable => readable = some found ∨ readable = none)
      ((if found.status ≠ .completed then pure none
        else do
          let reason ← completedCacheIntegrityFailure cacheKey found
          match reason with
          | none => pure (some found)
          | some reason => do
              recordEvent (.cacheIntegrityFailure cacheKey reason found.resultCount)
              pure none) : Program (Option CacheEntry)) := by
  split
  · exact .inr rfl
  · refine .bind fun reason => ?_
    cases reason with
    | none => exact .inl rfl
    | some reason => exact .bind fun _ => .inr rfl

/-- An entry that is read is the one that stands under the key. -/
theorem entry_of_still {entry : CacheEntry}
    (hrun : Amid (Archive.among theirs) (embed (getReadableCompletedCache cacheKey)) a t look
      (.ok (some entry)) a' t') (hstill : ∀ m ∈ look, m.before.store.library = L) :
    L.cacheEntryOf? cacheKey = some entry := by
  rcases hrun.next_ok rfl (fun _ => rfl) with ⟨found, rest, a₁, t₁, hnext, hrest⟩
  rcases answer_of_still hnext hstill with ⟨u, input, hlibrary, hexec⟩
  have hfound : found = L.cacheEntryOf? cacheKey := by
    have hanswer := congrArg Prod.fst hexec
    simp only [Archive.exec, Store.exec, LibraryOp.exec, hlibrary] at hanswer
    cases hanswer
    rfl
  rw [← hfound]
  cases found with
  | none => cases hrest.out_of_ret rfl
  | some found =>
      rcases hrest.returns (returns_embed (returns_readable cacheKey found)) rfl with h | h
      · exact h.symm
      · cases h

theorem papers_of_still {papers : List ArxivPaper}
    (hrun : Amid (Archive.among theirs) (embed (getCachedPapers cacheKey)) a t look (.ok papers)
      a' t') (hstill : ∀ m ∈ look, m.before.store.library = L) :
    papers = L.getCachedPapers cacheKey := by
  rcases hrun.next_ok rfl (fun _ => rfl) with ⟨found, rest, a₁, t₁, hnext, hrest⟩
  rcases answer_of_still hnext hstill with ⟨u, input, hlibrary, hexec⟩
  have hanswer := congrArg Prod.fst hexec
  simp only [Archive.exec, Store.exec, LibraryOp.exec, hlibrary] at hanswer
  cases hanswer
  have hout := hrest.out_of_ret rfl
  cases hout
  rfl

/-- What stands under a key of the library. -/
def StandsIn (L : LibraryTables) (reading : PageReading) : Prop :=
  reading.entry ∈ L.cacheEntries ∧ reading.papers = L.getCachedPapers reading.entry.cacheKey

theorem readings_of_still {syncJobId : Uuid} {pages : List MaintenanceTarget}
    {readings : List PageReading}
    (h : PagesRead (Archive.among theirs) syncJobId pages a t look readings a' t')
    (hstill : ∀ m ∈ look, m.before.store.library = L) :
    ∀ reading ∈ readings, StandsIn L reading := by
  induction h with
  | nil _ =>
      intro reading hmem
      cases hmem
  | cons _ hlook hread _ ih =>
      have hentry := entry_of_still hlook fun m hm => hstill m (by simp [hm])
      have hpapers := papers_of_still hread fun m hm => hstill m (by simp [hm])
      have hkey := List.find?_some hentry
      intro reading hmem
      rcases List.mem_cons.1 hmem with rfl | hmem
      · refine ⟨List.mem_of_find?_eq_some hentry, ?_⟩
        rw [of_decide_eq_true hkey]
        exact hpapers
      · exact ih (fun m hm => hstill m (by simp [hm])) reading hmem

end

/-- A window of two pages. -/
def twoPages : ArxivRequest :=
  { Archive.oneWindow with maxResults := 2 }

/-- A fetched page of it. -/
def fetchedPage (start : Nat) (arxivIds : List String) (total : Nat) : ArchiveOp :=
  .store (.library (.recordCompletedCacheEntry
    { cacheKey := Keys.requestCacheKey { twoPages with start := start }
      request := { twoPages with start := start }
      papers := arxivIds.map fun arxivId =>
        { arxivId := arxivId
          canonicalUrl := LibraryTables.canonicalUrl arxivId
          content := { title := arxivId } }
      totalResults := some total
      requestedAt := 0
      completedAt := 0 }))

/-- Both pages are cached: the first when there were three results, the second later. -/
def bothCached (laterIds : List String) (total : Nat) : Archive :=
  (Archive.exec (fetchedPage 2 laterIds total) 0 {}
    (Archive.exec (fetchedPage 0 ["2401.00001", "2401.00002"] 3) 0 {} {}).2).2

def completeTwoPages : SyncWindowsCall :=
  { requests := [twoPages], wait := true, mode := .completeWindow }

/-- The call with nobody else about. -/
def playWindows (cached : Archive) :
    Option (List (Move archive Archive) × Except Exn (List MaintenanceTarget × MaintenanceResult) ×
      Archive) :=
  Process.play (fun o a => Archive.exec o 0 {} a) (fun o => Archive.ready o 0) 0 200
    (windowsDrained {} completeTwoPages 1) cached

/-- It reports the one window complete with this many papers, and leaves the library alone. -/
def reportsComplete (cached : Archive) (papers : Nat) :
    List (Move archive Archive) × Except Exn (List MaintenanceTarget × MaintenanceResult) ×
      Archive → Bool
  | (moves, .ok ([target], _), _) =>
      moves.all (fun m => decide (m.before.store.library = cached.store.library)) &&
        decide (target.coverageStatus = .complete ∧ target.resultCount = papers ∧
          target.request.start = 0)
  | _ => false

theorem run_of_playWindows {cached : Archive} {papers : Nat}
    (h : (playWindows cached).any (reportsComplete cached papers) = true) :
    ∃ moves target result a',
      Amid (Archive.among fun _ => False) (windowsDrained {} completeTwoPages 1) cached 0 moves
        (.ok ([target], result)) a' 0 ∧
      (∀ m ∈ moves, m.before.store.library = cached.store.library) ∧
      target.coverageStatus = .complete ∧ target.resultCount = papers ∧
      target.request.start = 0 := by
  cases hplay : playWindows cached with
  | none =>
      rw [hplay] at h
      cases h
  | some run =>
      rw [hplay, Option.any_some] at h
      rcases run with ⟨moves, out, a'⟩
      unfold reportsComplete at h
      split at h
      case h_2 => cases h
      case h_1 moves target result a' heq =>
        cases heq
        simp only [Bool.and_eq_true, List.all_eq_true, decide_eq_true_eq] at h
        refine ⟨moves, target, result, a', Process.amid_of_play ?_ hplay, h.1, h.2⟩
        intro o a hready
        refine ⟨Or.inl ⟨{}, hready, rfl⟩, ?_⟩
        split
        · exact not_false
        · trivial

/-- The second page was fetched when there were still three results. -/
theorem complete_windows_cover_steady :
    ∃ moves target result a',
      Amid (Archive.among fun _ => False) (windowsDrained {} completeTwoPages 1)
        (bothCached ["2401.00003"] 3) 0 moves (.ok ([target], result)) a' 0 ∧
      target.coverageStatus = .complete ∧
      (∃ planned readings, WindowRead (Archive.among fun _ => False) moves target
        planned readings) ∧
      ∀ planned readings,
        WindowRead (Archive.among fun _ => False) moves target planned readings →
          (Covers target.request.start readings ↔
            ¬Outgrown target.request.start planned readings) := by
  have hplay : (playWindows (bothCached ["2401.00003"] 3)).any
      (reportsComplete (bothCached ["2401.00003"] 3) 3) = true := by
    decide +kernel
  rcases run_of_playWindows hplay with ⟨moves, target, result, a', hrun, _, hcomplete, _⟩
  exact ⟨moves, target, result, a', hrun, hcomplete,
    complete_windows_cover_iff {} completeTwoPages 1 _ hrun target List.mem_cons_self hcomplete⟩

/-- The second page was fetched when there were five results, of which it holds the next two. -/
theorem complete_window_outgrown :
    ¬ ∀ (d : Deployment) (call : SyncWindowsCall) (rounds : Nat) (theirs : Uuid → Prop)
      (a a' : Archive) (t t' : Int) (moves : List (Move archive Archive))
      (targets : List MaintenanceTarget) (result : MaintenanceResult),
      Amid (Archive.among theirs) (windowsDrained d call rounds) a t moves (.ok (targets, result))
        a' t' →
      ∀ target ∈ targets, target.coverageStatus = .complete →
        ∀ planned readings, WindowRead (Archive.among theirs) moves target planned readings →
          Covers target.request.start readings := by
  intro h
  let cached := bothCached ["2401.00003", "2401.00004"] 5
  have hplay : (playWindows cached).any (reportsComplete cached 4) = true := by
    decide +kernel
  rcases run_of_playWindows hplay with
    ⟨moves, target, result, a', hrun, hstill, hcomplete, hpapers, hstart⟩
  rcases completeRead_windowsDrained hrun.did target List.mem_cons_self hcomplete with
    ⟨planned, readings, hread⟩
  have hcovers := h {} completeTwoPages 1 _ _ _ _ _ moves _ _ hrun target List.mem_cons_self
    hcomplete planned readings hread
  rcases hread with ⟨_, window, pages, a, t, look, a₁, t₁, rest, a₂, t₂, hown, hplanned, hended,
    hpages⟩
  have htotal : familiesTotal readings = 4 := by
    rw [← ((endedOn_of_read hended hpages).complete hplanned hcomplete).1, hpapers]
  have hstands := readings_of_still hpages fun m hm =>
    hstill m (hown.subset (List.mem_append_left rest hm))
  -- The first page alone does not have four families, and the second one reports five results.
  have hentries : ∀ entry ∈ cached.store.library.cacheEntries, entry.totalResults = some 5 ∨
      ∀ paper ∈ cached.store.library.getCachedPapers entry.cacheKey,
        Keys.arxivIdFamilyBase paper.arxivId ∈ ["2401.00001", "2401.00002"] := by
    decide +kernel
  have hlater : ∀ reading ∈ readings, reading.entry.totalResults ≠ some 5 := by
    intro reading hmem hfive
    have := hcovers reading hmem 5 hfive
    omega
  have hsub : (families readings).toFinset ⊆ {"2401.00001", "2401.00002"} := by
    intro id hid
    simp only [families, List.mem_toFinset, List.mem_flatMap, List.mem_map] at hid
    rcases hid with ⟨reading, hmem, paper, hpaper, rfl⟩
    rcases hentries reading.entry (hstands reading hmem).1 with hfive | hfirst
    · exact absurd hfive (hlater reading hmem)
    · rw [(hstands reading hmem).2] at hpaper
      simpa using hfirst paper hpaper
  have hcard := Finset.card_le_card hsub
  have hpair : ({"2401.00001", "2401.00002"} : Finset String).card ≤ 2 := Finset.card_le_two
  unfold familiesTotal at htotal
  omega

end Maintenance
end Huldra
