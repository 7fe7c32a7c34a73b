import Huldra.Library.AlwaysReadable
import Huldra.Library.IdLists
import Huldra.Process.View
import Huldra.Worker.Routine

/-!
# Composition — an entry made of stored papers writes those papers back

A composition reads papers in one transaction and records them as a completed entry in a later one,
which upserts every one of them.  Between the two the rows may have been replaced.  Where no step of
the others replaces what was read, the composition writes back what is there.
-/

namespace Huldra

open Process

namespace LibraryTables

/-! ## What a write changes of the rows -/

/-- A row without the time it was last seen. -/
def unseen (row : PaperRow) : PaperRow :=
  { row with lastSeenAt := 0 }

/-- No row was created and no column changed, `last_seen_at` apart. -/
def OnlySeen (l l' : LibraryTables) : Prop :=
  ∀ arxivId, (l'.paper? arxivId).map unseen = (l.paper? arxivId).map unseen

/-- The row has what an upsert of the paper would write: the OAI columns are written only for a
paper that carries an OAI identifier. -/
structure Matches (row : PaperRow) (paper : ArxivPaper) : Prop where
  version : row.version = paper.version
  canonicalUrl : row.canonicalUrl = paper.canonicalUrl
  content : row.content = paper.content
  oai : paper.oaiIdentifier.isSome → row.oaiIdentifier = paper.oaiIdentifier ∧
    row.oaiDatestamp = paper.oaiDatestamp ∧ row.oaiSetSpecs = paper.oaiSetSpecs ∧
      row.deleted = paper.deleted

/-- The paper is stored as it was read. -/
def StillStored (l : LibraryTables) (paper : ArxivPaper) : Prop :=
  ∃ row, l.paper? paper.arxivId = some row ∧ Matches row paper

theorem OnlySeen.refl (l : LibraryTables) : OnlySeen l l := fun _ => rfl

theorem OnlySeen.trans {l l' l'' : LibraryTables} (h : OnlySeen l l') (h' : OnlySeen l' l'') :
    OnlySeen l l'' :=
  fun arxivId => (h' arxivId).trans (h arxivId)

theorem OnlySeen.of_papers {l l' : LibraryTables} (h : l'.papers = l.papers) : OnlySeen l l' := by
  intro arxivId
  simp [paper?, h]

theorem OnlySeen.isSome {l l' : LibraryTables} (h : OnlySeen l l') (arxivId : String) :
    (l'.paper? arxivId).isSome = (l.paper? arxivId).isSome := by
  simpa using congrArg Option.isSome (h arxivId)

/-- Merging a paper into a row that matches it changes nothing else. -/
theorem unseen_mergePaperRow {row : PaperRow} {paper : ArxivPaper} (h : Matches row paper)
    (hid : row.arxivId = paper.arxivId) (timestamp : Int) :
    unseen (mergePaperRow row paper timestamp) = unseen row := by
  rcases row with ⟨⟨id, version, url, content, identifier, datestamp, specs, deleted⟩, first, last⟩
  rcases h with ⟨hversion, hurl, hcontent, hoai⟩
  simp only at hversion hurl hcontent hoai hid
  by_cases hsome : paper.oaiIdentifier.isSome
  · rcases hoai hsome with ⟨hidentifier, hdatestamp, hspecs, hdeleted⟩
    simp [mergePaperRow, unseen, hsome, hid, hversion, hurl, hcontent, hidentifier, hdatestamp,
      hspecs, hdeleted]
  · simp [mergePaperRow, unseen, hsome, hid, hversion, hurl, hcontent]

theorem upsertPaper_onlySeen {l : LibraryTables} {paper : ArxivPaper} (h : StillStored l paper)
    (hown : l.legacyPaperForExistingOaiBaseRow paper = paper) (timestamp : Int) :
    OnlySeen l (l.upsertPaper paper timestamp).2 := by
  intro arxivId
  rw [paper?_upsertPaper, hown]
  split
  case isTrue heq =>
    subst heq
    rcases h with ⟨row, hrow, hmatches⟩
    rw [hrow]
    exact congrArg some (unseen_mergePaperRow hmatches (paper?_arxivId hrow) timestamp)
  case isFalse => rfl

/-- The columns `last_seen_at` apart decide whether a paper is still stored as it was read. -/
theorem StillStored.kept {l l' : LibraryTables} {paper : ArxivPaper} (h : StillStored l paper)
    (hseen : OnlySeen l l') : StillStored l' paper := by
  rcases h with ⟨row, hrow, hmatches⟩
  have hmap := hseen paper.arxivId
  rw [hrow] at hmap
  rcases Option.map_eq_some_iff.1 hmap with ⟨row', hrow', heq⟩
  have hpaper : row'.toArxivPaper = row.toArxivPaper := by
    change (unseen row').toArxivPaper = (unseen row).toArxivPaper
    rw [heq]
  refine ⟨row', hrow', ?_, ?_, ?_, ?_⟩
  · rw [hpaper, hmatches.version]
  · rw [hpaper, hmatches.canonicalUrl]
  · rw [hpaper, hmatches.content]
  · rw [hpaper]
    exact hmatches.oai

theorem StillStored.of_papers {l l' : LibraryTables} {paper : ArxivPaper} (h : StillStored l paper)
    (hpapers : l'.papers = l.papers) : StillStored l' paper := by
  rcases h with ⟨row, hrow, hmatches⟩
  refine ⟨row, ?_, hmatches⟩
  unfold paper?
  rw [hpapers]
  exact hrow

/-- They decide where an upsert goes, too. -/
theorem OnlySeen.legacyPaper {l l' : LibraryTables} (hseen : OnlySeen l l') (paper : ArxivPaper) :
    l'.legacyPaperForExistingOaiBaseRow paper = l.legacyPaperForExistingOaiBaseRow paper := by
  refine legacyPaperForExistingOaiBaseRow_congr paper hseen.isSome ?_
  have hbase := congrArg (Option.any fun row : PaperRow => row.oaiIdentifier.isSome)
    (hseen (Keys.arxivIdFamilyBase paper.arxivId))
  simpa [Option.any_map, Function.comp_def, unseen] using hbase

theorem upsertPapers_onlySeen (timestamp : Int) {papers : List ArxivPaper} :
    ∀ {l : LibraryTables}, (∀ paper ∈ papers, StillStored l paper) →
      (∀ paper ∈ papers, l.legacyPaperForExistingOaiBaseRow paper = paper) →
        OnlySeen l (l.upsertPapers papers timestamp).2 := by
  induction papers with
  | nil =>
      intro l _ _
      exact OnlySeen.refl l
  | cons paper papers ih =>
      intro l hstill hown
      have hfirst := upsertPaper_onlySeen (hstill paper List.mem_cons_self)
        (hown paper List.mem_cons_self) timestamp
      rw [upsertPapers_cons]
      refine hfirst.trans (ih ?_ ?_)
      · intro p hp
        exact (hstill p (List.mem_cons_of_mem paper hp)).kept hfirst
      · intro p hp
        rw [hfirst.legacyPaper]
        exact hown p (List.mem_cons_of_mem paper hp)

/-- A stored paper whose id is of its own family is never sent to another row. -/
theorem legacyPaper_of_family {l : LibraryTables} {paper : ArxivPaper}
    (hstored : (l.paper? paper.arxivId).isSome)
    (hfamily : inVersionFamily (Keys.arxivIdFamilyBase paper.arxivId) paper.arxivId = true) :
    l.legacyPaperForExistingOaiBaseRow paper = paper := by
  refine legacyPaper_own fun h => ?_
  have hnone := h.alone.alone paper.arxivId hstored hfamily
  have hversioned := h.versioned
  rw [hnone] at hversioned
  cases hversioned

/-! ## What a read finds -/

/-- What is read is what is stored. -/
theorem getPapersByIds_stored {l : LibraryTables} {arxivIds : List String} {id : String}
    {paper : ArxivPaper} (h : (id, paper) ∈ l.getPapersByIds arxivIds) : StillStored l paper := by
  simp only [getPapersByIds, List.mem_filterMap, Option.map_eq_some_iff, Prod.mk.injEq] at h
  rcases h with ⟨_, _, p, hp, rfl, rfl⟩
  rcases getPaper_row hp with ⟨row, hrow, rfl⟩
  exact ⟨row, hrow, rfl, rfl, rfl, fun _ => ⟨rfl, rfl, rfl, rfl⟩⟩

theorem libraryExec_retains (l : LibraryTables) (o : LibraryOp) : Retains l (o.exec l).2 := by
  cases o with
  | getCacheEntry => exact Retains.refl l
  | matchCount => exact Retains.refl l
  | joinedCount => exact Retains.refl l
  | matchPositions => exact Retains.refl l
  | getPapersByIds => exact Retains.refl l
  | getCachedPapers => exact Retains.refl l
  | recordCompletedCacheEntry w => exact recordCompletedCacheEntry_retains l w
  | recordCacheFailure w => exact Retains.of_papers (recordCacheFailure_papers l w)
  | upsertPapers papers timestamp => exact upsertPapers_retains papers timestamp l
  | upsertOaiRecords records timestamp => exact upsertOaiRecords_retains l records timestamp
  | markPaperDeleted arxivId oaiIdentifier oaiDatestamp oaiSetSpecs timestamp =>
      exact markPaperDeleted_retains l arxivId oaiIdentifier oaiDatestamp oaiSetSpecs timestamp

end LibraryTables

open LibraryTables

namespace Store

/-- No operation of the store deletes a paper. -/
theorem exec_retains (o : Op) (t : Int) (input : Input) (s : Store) :
    Retains s.library (exec o t input s).2.library := by
  cases o with
  | clock => exact Retains.refl _
  | lease => exact Retains.refl _
  | rate => exact Retains.refl _
  | queue => exact Retains.refl _
  | library o => exact libraryExec_retains s.library o
  | oai => exact Retains.refl _
  | upstream => exact Retains.refl _
  | initSchema =>
      simp only [exec]
      rcases s.initSchema_cases with heq | heq
      · rw [heq]
        exact Retains.refl _
      · rw [heq]
        exact Retains.of_papers rfl
  | renewWorkerFetchOwnership requestId owner leaseName ttl ids =>
      simp only [exec, renewWorkerFetchOwnership_library]
      exact Retains.refl _
  | checkpointOaiPage c =>
      simp only [exec, checkpointOaiPage]
      split
      · exact upsertOaiRecords_retains s.library c.records c.timestamp
      · exact Retains.refl _
  | enqueueRefreshIfDue request cacheKey defaultTimeout current =>
      simp only [exec]
      rcases enqueueRefreshIfDue_library s request cacheKey defaultTimeout current with
        heq | ⟨refreshAfter, heq⟩
      · exact Retains.of_papers (by rw [heq])
      · exact Retains.of_papers (by rw [heq])

theorem Performed.retains {o : Op} {t : Int} {r : Except Exn o.Res} {s s' : Store}
    (h : Performed o t r s s') : Retains s.library s'.library := by
  rcases h.state with rfl | ⟨input, rfl⟩
  · exact Retains.refl _
  · exact exec_retains o t input s

/-- The operation writes papers. -/
def writesPapers : Op → Bool
  | .library (.recordCompletedCacheEntry _) | .library (.upsertPapers ..) => true
  | .library (.upsertOaiRecords ..) | .library (.markPaperDeleted ..) => true
  | .checkpointOaiPage _ => true
  | _ => false

theorem exec_papers {o : Op} (ho : writesPapers o = false) (t : Int) (input : Input) (s : Store) :
    (exec o t input s).2.library.papers = s.library.papers := by
  cases o with
  | clock => rfl
  | lease => rfl
  | rate => rfl
  | queue => rfl
  | oai => rfl
  | upstream => rfl
  | library o =>
      cases o with
      | getCacheEntry => rfl
      | matchCount => rfl
      | joinedCount => rfl
      | matchPositions => rfl
      | getPapersByIds => rfl
      | getCachedPapers => rfl
      | recordCacheFailure w => exact recordCacheFailure_papers s.library w
      | recordCompletedCacheEntry => cases ho
      | upsertPapers => cases ho
      | upsertOaiRecords => cases ho
      | markPaperDeleted => cases ho
  | initSchema =>
      simp only [exec]
      rcases s.initSchema_cases with heq | heq
      · rw [heq]
      · rw [heq]
        rfl
  | renewWorkerFetchOwnership requestId owner leaseName ttl ids =>
      simp only [exec, renewWorkerFetchOwnership_library]
  | checkpointOaiPage => cases ho
  | enqueueRefreshIfDue request cacheKey defaultTimeout current =>
      simp only [exec]
      rcases enqueueRefreshIfDue_library s request cacheKey defaultTimeout current with
        heq | ⟨refreshAfter, heq⟩
      · rw [heq]
      · rw [heq]

theorem Performed.papers {o : Op} {t : Int} {r : Except Exn o.Res} {s s' : Store}
    (h : Performed o t r s s') (ho : writesPapers o = false) :
    s'.library.papers = s.library.papers := by
  rcases h.state with rfl | ⟨input, rfl⟩
  · rfl
  · exact exec_papers ho t input s

end Store

namespace Composition

/-! ## Where the papers of a composition come from -/

/-- An entry made without an upstream request: only a composition writes one. -/
def write? : Op → Option CompletedCacheWrite
  | .library (.recordCompletedCacheEntry w) => if w.upstreamRequestCount = 0 then some w else none
  | _ => none

/-- The papers an answer brings. -/
def learned : (o : Op) → Except Exn o.Res → List ArxivPaper
  | .library (.getPapersByIds _), .ok papersById => papersById.map Prod.snd
  | _, _ => []

/-- Only papers that have been read are composed, and no paper is written before; the abstract state
is what has been read, and none once papers have been written. -/
def sourced : Process.Discipline huldra (Option (List ArxivPaper)) where
  allow x o := ∀ w, write? o = some w → ∃ known, x = some known ∧ w.papers ⊆ known
  next x o r x' := x' = if Store.writesPapers o then none else x.map (· ++ learned o r)

/-- The operation is not the write of a composition. -/
def Uncomposed (o : Op) : Prop :=
  write? o = none

/-- The operation writes no papers at all. -/
def Silent (o : Op) : Prop :=
  Store.writesPapers o = false

theorem Silent.uncomposed {o : Op} (h : Silent o) : Uncomposed o := by
  unfold Uncomposed write?
  split
  · cases h
  · rfl

/-- These papers have been read, and none has been written since. -/
def Held (x : Option (List ArxivPaper)) (papers : List ArxivPaper) : Prop :=
  ∃ known, x = some known ∧ papers ⊆ known

/-- What was held before still is. -/
def Grows (x x' : Option (List ArxivPaper)) : Prop :=
  ∀ papers, Held x papers → Held x' papers

variable {β γ : Type} {x : Option (List ArxivPaper)}

theorem Held.subset {papers papers' : List ArxivPaper} (h : Held x papers)
    (hsub : papers' ⊆ papers) : Held x papers' := by
  rcases h with ⟨known, hx, hknown⟩
  exact ⟨known, hx, List.Subset.trans hsub hknown⟩

theorem Grows.refl (x : Option (List ArxivPaper)) : Grows x x := fun _ => id

theorem grows_append (x : Option (List ArxivPaper)) (papers : List ArxivPaper) :
    Grows x (x.map (· ++ papers)) := by
  rintro held ⟨known, rfl, hknown⟩
  exact ⟨known ++ papers, rfl, List.Subset.trans hknown (List.subset_append_left known papers)⟩

/-- A program that writes no papers may read on. -/
theorem wp_silent {p : Program β} (hp : p.AllOps Silent) (x : Option (List ArxivPaper)) :
    p.wp sourced (fun x' _ => Grows x x') (fun x' _ => Grows x x') x := by
  refine hp.wp (J := Grows x) ?_ x (Grows.refl x)
  intro o ho x' hx
  refine ⟨?_, ?_⟩
  · intro w hw
    rw [ho.uncomposed] at hw
    cases hw
  · rintro r x'' rfl
    unfold Silent at ho
    rw [if_neg (by rw [ho]; exact Bool.false_ne_true)]
    intro papers hpapers
    exact grows_append x' (learned o r) papers (hx papers hpapers)

/-- What follows a program that writes no papers holds what was held before. -/
theorem wp_after {p : Program β} {f : β → Program γ} {Q : Option (List ArxivPaper) → γ → Prop}
    (hp : p.AllOps Silent)
    (hf : ∀ x' b, Grows x x' → (f b).wp sourced Q (fun _ _ => True) x') :
    (p >>= f).wp sourced Q (fun _ _ => True) x := by
  refine (Prog.wp_bind ..).2 (Prog.wp_mono ?_ (fun _ _ _ => trivial) _ _ (wp_silent hp x))
  intro x' b hgrows
  exact hf x' b hgrows

theorem uncomposed_of_silent {p : Program β} (hp : p.AllOps Silent) : p.AllOps Uncomposed :=
  hp.mono fun _ => Silent.uncomposed

/-- A program that composes nothing ends in anything it likes. -/
theorem wp_rest {p : Program β} (hp : p.AllOps Uncomposed) :
    p.wp sourced (fun _ _ => True) (fun _ _ => True) x := by
  refine hp.wp (J := fun _ => True) ?_ x trivial
  intro o ho x' _
  refine ⟨?_, fun _ _ _ => trivial⟩
  intro w hw
  rw [ho] at hw
  cases hw

/-- The papers of a dictionary are held. -/
def Known (x : Option (List ArxivPaper)) (papersById : PaperDict) : Prop :=
  Held x (papersById.map Prod.snd)

/-- A read brings its papers, unless papers have been written. -/
theorem wp_getPapersByIds {f : PaperDict → Program γ} {Q : Option (List ArxivPaper) → γ → Prop}
    (ids : List String) (hx : Held x [])
    (hf : ∀ x' papersById, Grows x x' → Known x' papersById →
      (f papersById).wp sourced Q (fun _ _ => True) x') :
    (getPapersByIds ids >>= f).wp sourced Q (fun _ _ => True) x := by
  unfold getPapersByIds
  split
  · exact hf x [] (Grows.refl x) hx
  · refine (Prog.wp_bind ..).2 ((Prog.wp_call ..).2 ⟨?_, ?_, fun _ _ _ => trivial⟩)
    · intro w hw
      cases hw
    rcases hx with ⟨known, rfl, _⟩
    rintro papersById x' rfl
    exact hf _ papersById (grows_append (some known) _)
      ⟨_, rfl, List.subset_append_right known _⟩

/-- The papers looked up in a dictionary are papers of the dictionary. -/
theorem getAll?_subset {papersById : PaperDict} :
    ∀ {ids : List String} {papers : List ArxivPaper}, papersById.getAll? ids = some papers →
      papers ⊆ papersById.map Prod.snd := by
  intro ids
  induction ids with
  | nil =>
      intro papers h
      cases h
      exact List.nil_subset _
  | cons id ids ih =>
      intro papers h
      simp only [PaperDict.getAll?, List.mapM_cons, Option.bind_eq_bind, Option.bind_eq_some_iff,
        Option.pure_def, Option.some.injEq] at h
      rcases h with ⟨paper, hpaper, rest, hrest, rfl⟩
      refine List.cons_subset.2 ⟨?_, ih hrest⟩
      rcases Option.map_eq_some_iff.1 hpaper with ⟨entry, hentry, rfl⟩
      exact List.mem_map_of_mem (List.mem_of_find?_eq_some hentry)

theorem silent_utcNow : utcNow.AllOps Silent :=
  .call rfl

/-- The write itself, of papers that are held. -/
theorem wp_record {f : Unit → Program γ} {Q : Option (List ArxivPaper) → γ → Prop}
    (cacheKey : CacheKey) (request : ArxivRequest) {papers : List ArxivPaper} (total : Option Nat)
    (status : Int) (count : Nat) (hheld : Held x papers)
    (hf : ∀ x', (f ()).wp sourced Q (fun _ _ => True) x') :
    (recordCompletedCacheEntry cacheKey request papers total status count >>= f).wp sourced Q
      (fun _ _ => True) x := by
  refine (Prog.wp_bind ..).2 ?_
  unfold recordCompletedCacheEntry
  refine wp_after silent_utcNow fun x₁ requestedAt h₁ => ?_
  refine wp_after silent_utcNow fun x₂ completedAt h₂ => ?_
  refine (Prog.wp_call ..).2 ⟨?_, fun _ x₃ _ => hf x₃, fun _ _ _ => trivial⟩
  intro w hw
  simp only [write?] at hw
  split at hw
  · cases hw
    exact h₂ _ (h₁ _ hheld)
  · cases hw

/-! ## The broker -/

theorem silent_getReadableCompletedCache (cacheKey : CacheKey) :
    (getReadableCompletedCache cacheKey).AllOps Silent := by
  unfold getReadableCompletedCache completedCacheIntegrityFailure
  refine .bind (.call rfl) fun entry => ?_
  split
  · exact .ret _
  · split
    · exact .ret _
    · refine .bind ?_ fun reason => ?_
      · refine .bind (.call rfl) fun _ => .bind (.call rfl) fun _ => .bind (.call rfl) fun _ => ?_
        split
        · exact .ret _
        · split
          · exact .ret _
          · split
            · exact .ret _
            · exact .ret _
      · split
        · exact .ret _
        · exact .bind (.call rfl) fun _ => .ret _

theorem silent_resultFromCompletedCache (d : Deployment) (request : ArxivRequest)
    (cacheKey : CacheKey) (entry : CacheEntry) (requestId : Option Uuid) :
    (Broker.resultFromCompletedCache d request cacheKey entry requestId).AllOps Silent := by
  refine .bind (.call rfl) fun _ => .bind ?_ fun _ => .ret _
  unfold Broker.evaluateReadiness
  split
  · dsimp only
    split
    · exact .ret _
    · exact .bind silent_utcNow fun _ => .ret _
  · exact .ret _

theorem keeps_tryComposeCachedIdList (d : Deployment) (request : ArxivRequest)
    (cacheKey : CacheKey) (hx : Held x []) :
    (Broker.tryComposeCachedIdList d request cacheKey).Keeps sourced x := by
  unfold Broker.tryComposeCachedIdList
  split
  · trivial
  · refine wp_getPapersByIds _ hx fun x' papersById _ hknown => ?_
    split
    · trivial
    case h_2 papers hpapers =>
      refine wp_record _ _ _ _ _ (hknown.subset (getAll?_subset hpapers)) fun _ => wp_rest ?_
      refine uncomposed_of_silent (.bind (silent_getReadableCompletedCache cacheKey)
        fun entry => ?_)
      split
      · exact .raise _
      · exact .bind (silent_resultFromCompletedCache ..) fun _ => .ret _

/-! ## The worker: what composes nothing -/

section Worker

open Worker

variable {w : WorkerConfig} {item : QueueItem}

theorem silent_of_beside {p : Program β} (hp : p.AllOps Beside) : p.AllOps Silent :=
  hp.mono fun o ho => by
    cases o with
    | library o => exact ho.elim
    | checkpointOaiPage c => exact ho.elim
    | _ => rfl

theorem silent_releaseLease : (releaseLease Limiter.leaseName w.ownerToken).AllOps Silent :=
  .call rfl

theorem silent_completeQueueItem : (completeQueueItem item.requestId).AllOps Silent :=
  .bind silent_utcNow fun _ => .call rfl

theorem silent_releaseOrDelay (nextAttemptAt : Option Int) (category message : Option String)
    (status : RequestStatus) :
    (releaseOrDelayQueueItem item.requestId nextAttemptAt category message status).AllOps
      Silent :=
  .bind silent_utcNow fun _ => .call rfl

theorem silent_releaseIdFetchReservations (ids : List String) :
    (releaseIdFetchReservations ids w.ownerToken).AllOps Silent := by
  unfold releaseIdFetchReservations
  split
  · exact .ret ()
  · exact .bind silent_utcNow fun _ => .call rfl

theorem silent_renewIdFetchReservations (ids : List String) (ttl : Int) :
    (renewIdFetchReservations ids w.ownerToken ttl).AllOps Silent := by
  unfold renewIdFetchReservations
  split
  · exact .ret true
  · exact .call rfl

theorem silent_releaseIdPlan (plan : Option IdListFetchPlan) :
    (releaseIdPlan w plan).AllOps Silent := by
  cases plan with
  | none => exact .ret ()
  | some plan => exact silent_releaseIdFetchReservations _

theorem silent_recordCacheFailure (category message : String) (status : CacheStatus)
    (cooldownUntil upstreamStatus : Option Int) (count : Nat) :
    (recordCacheFailure item.cacheKey item.request category message status cooldownUntil
      upstreamStatus count).AllOps Silent :=
  .bind silent_utcNow fun _ => .call rfl

/-- The report of an ended pass: what is done with the item, and with the reserved ids. -/
theorem silent_release (plan : Option IdListFetchPlan) (nextAttemptAt : Option Int)
    (category message : Option String) (status : RequestStatus) (r : β) :
    (do
      releaseOrDelayQueueItem item.requestId nextAttemptAt category message status
      releaseIdPlan w plan
      pure r : Program β).AllOps Silent :=
  .bind (silent_releaseOrDelay _ _ _ _) fun _ => .bind (silent_releaseIdPlan plan)
    fun _ => .ret r

theorem silent_complete (plan : Option IdListFetchPlan) (r : β) :
    (do
      completeQueueItem item.requestId
      releaseIdPlan w plan
      pure r : Program β).AllOps Silent :=
  .bind silent_completeQueueItem fun _ => .bind (silent_releaseIdPlan plan) fun _ => .ret r

theorem silent_endBudgetedItem (plan : Option IdListFetchPlan) (budgetError : String) :
    (endBudgetedItem w item plan budgetError).AllOps Silent := by
  unfold endBudgetedItem
  split
  · exact .bind silent_releaseLease fun _ => .bind silent_utcNow fun _ =>
      silent_release _ _ _ _ _ _
  · exact .bind silent_releaseLease fun _ =>
      .bind (silent_recordCacheFailure _ _ _ _ _ _) fun _ => silent_release _ _ _ _ _ _

theorem silent_fetchOwnershipFailure (plan : Option IdListFetchPlan) (reason : String) :
    (fetchOwnershipFailure w item plan reason).AllOps Silent := by
  refine .bind silent_releaseLease fun _ => ?_
  split
  · exact .bind silent_utcNow fun _ => silent_release _ _ _ _ _ _
  · exact .bind (silent_releaseIdPlan plan) fun _ => .ret _

theorem silent_delayRefused (plan : Option IdListFetchPlan) (decision : RateLimitDecision) :
    (delayRefused w item plan decision).AllOps Silent := by
  unfold delayRefused
  cases decision.cooldownUntil with
  | some cooldown => exact silent_release _ _ _ _ _ _
  | none => exact .bind silent_utcNow fun _ => .bind (.ret _) fun _ =>
      silent_release _ _ _ _ _ _

/-- A result that was fetched is recorded with the one request it took. -/
theorem uncomposed_onFetched (plan : Option IdListFetchPlan) (papers : List ArxivPaper)
    (total : Option Nat) (status : Int) :
    (onFetched w item plan papers total status).AllOps Uncomposed := by
  have hnow := uncomposed_of_silent silent_utcNow
  refine .bind (.bind hnow fun _ => .bind hnow fun _ => .call rfl) fun _ => ?_
  exact uncomposed_of_silent (.bind (silent_of_beside (beside_afterSuccess _ _)) fun _ =>
    silent_complete plan _)

theorem silent_onNonRetryable (plan : Option IdListFetchPlan) (message : String)
    (status : Option Int) : (onNonRetryable w item plan message status).AllOps Silent :=
  .bind (silent_of_beside (beside_afterFailure _ _ _)) fun _ =>
    .bind (silent_recordCacheFailure _ _ _ _ _ _) fun _ => silent_release _ _ _ _ _ _

theorem uncomposed_onFetchResult (plan : Option IdListFetchPlan) (fetched : FetchResult) :
    (onFetchResult w item plan fetched).AllOps Uncomposed := by
  unfold onFetchResult
  cases plan with
  | none => exact uncomposed_onFetched _ _ _ _
  | some plan =>
      dsimp only
      split
      · exact uncomposed_of_silent (silent_onNonRetryable _ _ _)
      · split
        · exact .raise _
        · exact uncomposed_onFetched _ _ _ _

theorem silent_onFetchError (plan : Option IdListFetchPlan) (e : Exn) :
    (onFetchError w item plan e).AllOps Silent := by
  cases e with
  | rateLimitedError retryAfter message status =>
      exact .bind (silent_of_beside (beside_afterRateLimit _ _ _ _ _)) fun _ =>
        .bind (silent_recordCacheFailure _ _ _ _ _ _) fun _ => silent_release _ _ _ _ _ _
  | transientFetchError message status =>
      exact .bind (silent_of_beside (beside_afterFailure _ _ _)) fun _ =>
        .bind silent_utcNow fun _ => .bind (silent_recordCacheFailure _ _ _ _ _ _) fun _ =>
          silent_release _ _ _ _ _ _
  | nonRetryableFetchError message status => exact silent_onNonRetryable _ _ _
  | huldraFetchError message status =>
      exact .bind (silent_of_beside (beside_afterFailure _ _ _)) fun _ =>
        .bind (silent_releaseIdPlan plan) fun _ => .raise _
  | _ => exact .raise _

theorem uncomposed_fetchAndReport (plan : Option IdListFetchPlan) (request : ArxivRequest) :
    (fetchAndReport w item plan request).AllOps Uncomposed :=
  .handle (.bind (.call rfl) fun _ => .call rfl) (uncomposed_onFetchResult plan)
    fun e => uncomposed_of_silent (silent_onFetchError plan e)

theorem uncomposed_fetchWithinDeadline (plan : Option IdListFetchPlan) :
    (fetchWithinDeadline w item plan).AllOps Uncomposed := by
  have hnow := uncomposed_of_silent silent_utcNow
  refine .bind (.call rfl) fun deadline => ?_
  split
  · exact uncomposed_fetchAndReport _ _
  · refine .bind hnow fun now => ?_
    split
    · exact uncomposed_fetchAndReport _ _
    · refine .bind (.call rfl) fun budgetError => ?_
      split
      · exact uncomposed_of_silent (silent_endBudgetedItem _ _)
      · refine .bind (.call rfl) fun deadline => .bind ?_ fun _ => uncomposed_fetchAndReport _ _
        unfold remainingAfterRecheck
        split
        · exact .bind hnow fun _ => .ret _
        · exact .ret _

/-! ## The worker: plans and compositions -/

/-- The papers of a plan are held. -/
def PlanKnown (x : Option (List ArxivPaper)) (plan : Option IdListFetchPlan) : Prop :=
  ∀ p ∈ plan, Known x p.papersById

theorem PlanKnown.mono {x x' : Option (List ArxivPaper)} {plan : Option IdListFetchPlan}
    (h : PlanKnown x plan) (hgrows : Grows x x') : PlanKnown x' plan :=
  fun p hp => hgrows _ (h p hp)

theorem planKnown_none : PlanKnown x none := by
  intro p hp
  cases hp

theorem planKnown_some {plan : IdListFetchPlan} (h : Known x plan.papersById) :
    PlanKnown x (some plan) := by
  intro p hp
  cases hp
  exact h

/-- A program that ends in `Q₁`, and what follows it. -/
theorem wp_then {p : Program β} {f : β → Program γ} {Q₁ : Option (List ArxivPaper) → β → Prop}
    {Q : Option (List ArxivPaper) → γ → Prop} (hp : p.wp sourced Q₁ (fun _ _ => True) x)
    (hf : ∀ x' b, Q₁ x' b → (f b).wp sourced Q (fun _ _ => True) x') :
    (p >>= f).wp sourced Q (fun _ _ => True) x :=
  (Prog.wp_bind ..).2 (Prog.wp_mono hf (fun _ _ _ => trivial) _ _ hp)

theorem wp_planIdListFetch (hx : Held x []) :
    (planIdListFetch w item).wp sourced PlanKnown (fun _ _ => True) x := by
  unfold planIdListFetch
  split
  · exact planKnown_none
  · refine wp_getPapersByIds _ hx fun x' papersById _ hknown => ?_
    dsimp only
    split
    · exact planKnown_some hknown
    · refine wp_after (.call rfl) fun x'' reservations hgrows => ?_
      split
      · exact planKnown_some (hgrows _ hknown)
      · exact planKnown_some (hgrows _ hknown)

theorem wp_revalidate {plan : IdListFetchPlan} {ttl : Int} (hplan : Known x plan.papersById) :
    (revalidateIdListFetchPlan w item plan ttl).wp sourced
      (fun x' plan => Known x' plan.papersById) (fun _ _ => True) x := by
  unfold revalidateIdListFetchPlan
  split
  · exact hplan
  · refine wp_getPapersByIds _ (hplan.subset (List.nil_subset _)) fun x₁ papersById _ h₁ => ?_
    refine wp_after (silent_releaseIdFetchReservations _) fun x₂ _ h₂ => ?_
    have hknown₂ := h₂ _ h₁
    dsimp only
    split
    · exact hknown₂
    · split
      on_goal 1 =>
        refine wp_after (silent_renewIdFetchReservations _ _) fun x₃ renewed h₃ => ?_
      on_goal 2 => refine wp_after (.ret false) fun x₃ renewed h₃ => ?_
      -- Renewed or not, the plan that is returned holds the papers that were read.
      all_goals
        have hknown₃ := h₃ _ hknown₂
        split
        · exact wp_after silent_utcNow fun x₄ _ h₄ => h₄ _ hknown₃
        · exact hknown₃

theorem wp_recordCachedIdList {plan : IdListFetchPlan} {f : Nat → Program γ}
    {Q : Option (List ArxivPaper) → γ → Prop} (hplan : Known x plan.papersById)
    (hf : ∀ x' total, (f total).wp sourced Q (fun _ _ => True) x') :
    (recordCachedIdList item plan >>= f).wp sourced Q (fun _ _ => True) x := by
  refine (Prog.wp_bind ..).2 ?_
  unfold recordCachedIdList
  split
  · trivial
  case h_2 papers hpapers =>
    exact wp_record _ _ _ _ _ (hplan.subset (getAll?_subset hpapers)) fun x' => hf x' _

/-- The gate ends the pass, or leaves a plan whose papers are held. -/
def GateKnown (x : Option (List ArxivPaper))
    (gate : Option IdListFetchPlan × Option WorkerPassResult) : Prop :=
  gate.2 = none → PlanKnown x gate.1

theorem gateKnown_ended (plan : Option IdListFetchPlan) (r : WorkerPassResult) :
    GateKnown x (plan, some r) := by
  intro h
  cases h

theorem wp_closeGate {plan : Option IdListFetchPlan} {ttl : Int} (hplan : PlanKnown x plan) :
    (closeGate w item plan ttl).wp sourced GateKnown (fun _ _ => True) x := by
  refine wp_after (.call rfl) fun x₁ reason h₁ => ?_
  split
  · exact wp_after (silent_fetchOwnershipFailure plan _) fun _ _ _ => gateKnown_ended _ _
  · exact fun _ => hplan.mono h₁

theorem wp_gatePlan {plan : IdListFetchPlan} {ttl : Int} (hplan : Known x plan.papersById) :
    (gatePlan w item plan ttl).wp sourced GateKnown (fun _ _ => True) x := by
  refine wp_then (wp_revalidate hplan) fun x₁ plan h₁ => ?_
  split
  · refine wp_after silent_releaseLease fun _ _ _ => ?_
    refine wp_after (silent_releaseOrDelay _ _ _ _) fun _ _ _ => ?_
    exact wp_after (silent_releaseIdPlan _) fun _ _ _ => gateKnown_ended _ _
  · split
    · refine wp_after silent_releaseLease fun x₂ _ h₂ => ?_
      refine wp_recordCachedIdList (h₂ _ h₁) fun _ total => ?_
      refine wp_after silent_completeQueueItem fun _ _ _ => ?_
      exact wp_after (silent_releaseIdPlan _) fun _ _ _ => gateKnown_ended _ _
    · exact wp_closeGate (planKnown_some h₁)

theorem wp_gateFetchOwnership {plan : Option IdListFetchPlan} {ttl : Int}
    (hplan : PlanKnown x plan) :
    (gateFetchOwnership w item plan ttl).wp sourced GateKnown (fun _ _ => True) x := by
  refine wp_after (.call rfl) fun x₁ reason h₁ => ?_
  split
  · exact wp_after (silent_fetchOwnershipFailure plan _) fun _ _ _ => gateKnown_ended _ _
  · refine wp_after (silent_getReadableCompletedCache _) fun x₂ cached h₂ => ?_
    have hplan₂ := (hplan.mono h₁).mono h₂
    split
    · refine wp_after silent_releaseLease fun _ _ _ => ?_
      refine wp_after silent_completeQueueItem fun _ _ _ => ?_
      exact wp_after (silent_releaseIdPlan plan) fun _ _ _ => gateKnown_ended _ _
    · cases plan with
      | none => exact wp_closeGate planKnown_none
      | some plan => exact wp_gatePlan (hplan₂ plan rfl)

theorem keeps_fetchCharged {plan : Option IdListFetchPlan} {ttl : Int} (hplan : PlanKnown x plan) :
    (fetchCharged w item plan ttl).Keeps sourced x := by
  refine wp_then (wp_gateFetchOwnership hplan) fun x₁ gate hgate => ?_
  split
  · trivial
  · refine wp_rest (.bind (.call rfl) fun budgetError => ?_)
    split
    · exact uncomposed_of_silent (silent_endBudgetedItem _ _)
    · exact uncomposed_fetchWithinDeadline _

theorem keeps_chargeAndFetch {plan : Option IdListFetchPlan} {ttl : Int}
    (hplan : PlanKnown x plan) : (chargeAndFetch w item plan ttl).Keeps sourced x := by
  refine wp_after (.call rfl) fun x₁ reserveError h₁ => ?_
  split
  on_goal 1 => refine wp_after (.ret _) fun x₂ budgetError h₂ => ?_
  on_goal 2 => refine wp_after (.call rfl) fun x₂ budgetError h₂ => ?_
  all_goals
    dsimp only
    split
    · exact wp_rest (uncomposed_of_silent (silent_endBudgetedItem _ _))
    · exact keeps_fetchCharged ((hplan.mono h₁).mono h₂)

/-- The first gate, and what follows it. -/
theorem keeps_gated {plan : Option IdListFetchPlan} {ttl : Int} (hplan : PlanKnown x plan) :
    Prog.Keeps sourced (do
      let gate ← gateFetchOwnership w item plan ttl
      match gate.2 with
      | some result => pure result
      | none => chargeAndFetch w item gate.1 ttl) x := by
  refine wp_then (wp_gateFetchOwnership hplan) fun x₁ gate hgate => ?_
  split
  · trivial
  case h_2 hnone => exact keeps_chargeAndFetch (hgate hnone)

theorem keeps_fetchAdmitted {plan : Option IdListFetchPlan} {waitSeconds : Int}
    (hplan : PlanKnown x plan) :
    (fetchAdmitted w item plan waitSeconds).Keeps sourced x := by
  unfold fetchAdmitted
  split
  · have hsleep := (limiting_timeSleep waitSeconds).mono fun _ => Limiting.beside
    exact wp_after (silent_of_beside hsleep) fun x₁ _ h₁ => keeps_gated (hplan.mono h₁)
  · exact keeps_gated hplan

theorem keeps_passLimiter {plan : Option IdListFetchPlan} (hplan : PlanKnown x plan) :
    (passLimiter w item plan).Keeps sourced x := by
  refine wp_after (silent_of_beside (beside_beforeRequest _ _)) fun x₁ decision h₁ => ?_
  split
  · exact keeps_fetchAdmitted (hplan.mono h₁)
  · exact wp_rest (uncomposed_of_silent (silent_delayRefused plan decision))

theorem keeps_workPlanned {plan : Option IdListFetchPlan} (hplan : PlanKnown x plan) :
    (workPlanned w item plan).Keeps sourced x := by
  cases plan with
  | none => exact keeps_passLimiter hplan
  | some plan =>
      unfold workPlanned
      dsimp only
      split
      · exact wp_rest (uncomposed_of_silent (.bind (silent_releaseOrDelay _ _ _ _) fun _ => .ret _))
      · split
        · refine wp_recordCachedIdList (hplan plan rfl) fun _ total => ?_
          exact wp_rest (uncomposed_of_silent (.bind silent_completeQueueItem fun _ => .ret _))
        · exact keeps_passLimiter hplan

theorem keeps_runOnce (targets : Option (List CacheKey)) (hx : Held x []) :
    (runOnce w targets).Keeps sourced x := by
  refine wp_after (.call rfl) fun x₁ _ h₁ => ?_
  refine wp_after ?_ fun x₂ item h₂ => ?_
  · unfold claimNextQueueItem
    split
    · exact .ret none
    · exact .call rfl
  · split
    · trivial
    · refine wp_after (silent_getReadableCompletedCache _) fun x₃ cached h₃ => ?_
      split
      · exact wp_rest (uncomposed_of_silent (.bind silent_completeQueueItem fun _ => .ret _))
      · have hx₃ := h₃ _ (h₂ _ (h₁ _ hx))
        exact wp_then (wp_planIdListFetch hx₃) fun _ plan hplan => keeps_workPlanned hplan

end Worker

/-! ## Runs -/

/-- The move is a read that brings the paper. -/
def brings (paper : ArxivPaper) : Move huldra Store → Bool
  | .own o _ r _ _ => decide (paper ∈ learned o r)
  | .other .. => false

/-- The moves after the last one that brought the paper. -/
def sinceRead (paper : ArxivPaper) (moves : List (Move huldra Store)) : List (Move huldra Store) :=
  moves.rtakeWhile fun m => !brings paper m

/-- The step leaves in the row of the paper what an upsert of the paper writes. -/
def Spares (paper : ArxivPaper) (u v : Store) : Prop :=
  ∀ row row', u.library.paper? paper.arxivId = some row →
    v.library.paper? paper.arxivId = some row' →
      row'.version = row.version ∧ row'.canonicalUrl = row.canonicalUrl ∧
        row'.content = row.content ∧
          (paper.oaiIdentifier.isSome → row'.oaiIdentifier = row.oaiIdentifier ∧
            row'.oaiDatestamp = row.oaiDatestamp ∧ row'.oaiSetSpecs = row.oaiSetSpecs ∧
              row'.deleted = row.deleted)

/-- None of these steps of the others replaces what was read of the paper. -/
def Spared (paper : ArxivPaper) (moves : List (Move huldra Store)) : Prop :=
  ∀ t u v, Move.other t u v ∈ moves → Spares paper u v

/-- The others perform operations of the store, any of them. -/
def AnyOperation (t : Int) (s s' : Store) : Prop :=
  ∃ (o : Op) (r : Except Exn o.Res), Store.Performed o t r s s'

theorem learned_stored {o : Op} {t : Int} {r : Except Exn o.Res} {s s' : Store}
    (h : Store.Performed o t r s s') {paper : ArxivPaper} (hpaper : paper ∈ learned o r) :
    StillStored s.library paper := by
  unfold learned at hpaper
  split at hpaper
  case h_1 ids papersById =>
    rcases h.of_ok with ⟨input, _, hexec⟩
    simp only [Store.exec, LibraryOp.exec, Prod.mk.injEq, Except.ok.injEq] at hexec
    rcases List.mem_map.1 hpaper with ⟨⟨id, p⟩, hmem, rfl⟩
    rw [← hexec.1] at hmem
    exact getPapersByIds_stored hmem
  case h_2 => cases hpaper

/-- A step that spares the paper leaves it stored as it was. -/
theorem Spares.stillStored {paper : ArxivPaper} {u v : Store} (h : Spares paper u v)
    (hretains : Retains u.library v.library) (hstill : StillStored u.library paper) :
    StillStored v.library paper := by
  rcases hstill with ⟨row, hrow, hmatches⟩
  have hkept := hretains paper.arxivId (by rw [hrow]; rfl)
  rcases Option.isSome_iff_exists.1 hkept with ⟨row', hrow'⟩
  rcases h row row' hrow hrow' with ⟨hversion, hurl, hcontent, hoai⟩
  refine ⟨row', hrow', ?_, ?_, ?_, ?_⟩
  · rw [hversion, hmatches.version]
  · rw [hurl, hmatches.canonicalUrl]
  · rw [hcontent, hmatches.content]
  · intro hsome
    rcases hoai hsome with ⟨hidentifier, hdatestamp, hspecs, hdeleted⟩
    rcases hmatches.oai hsome with ⟨hidentifier', hdatestamp', hspecs', hdeleted'⟩
    exact ⟨hidentifier.trans hidentifier', hdatestamp.trans hdatestamp', hspecs.trans hspecs',
      hdeleted.trans hdeleted'⟩

/-- What the reads of a run know of the store: a paper that was read and spared since is stored as
it was read, and so were the papers of every composition when it was written. -/
structure Sourced (x : Option (List ArxivPaper)) (past : List (Move huldra Store)) (s : Store)
    (_ : Int) : Prop where
  held : ∀ known, x = some known → ∀ paper ∈ known, Spared paper (sinceRead paper past) →
    StillStored s.library paper
  composed : ∀ before o t r u v w, before ++ [Move.own o t r u v] <+: past → write? o = some w →
    Store.Performed o t r u v ∧ ∀ paper ∈ w.papers, Spared paper (sinceRead paper before) →
      StillStored u.library paper

theorem sinceRead_of_not_brings {paper : ArxivPaper} {m : Move huldra Store}
    (h : brings paper m = false) (past : List (Move huldra Store)) :
    sinceRead paper (past ++ [m]) = sinceRead paper past ++ [m] :=
  List.rtakeWhile_concat_pos _ _ _ (by simp [h])

theorem Spared.of_append {paper : ArxivPaper} {moves later : List (Move huldra Store)}
    (h : Spared paper (moves ++ later)) : Spared paper moves :=
  fun t u v hmem => h t u v (List.mem_append_left later hmem)

/-- An operation of the run itself writes no papers, or it is the last of which anything is held. -/
theorem Sourced.own {x : Option (List ArxivPaper)} {past : List (Move huldra Store)} {s s' : Store}
    {t t' : Int} {o : Op} {r : Except Exn o.Res} (h : Sourced x past s t)
    (hallow : sourced.allow x o)
    (hdoes : Store.Performed o t' r s s') :
    Sourced (if Store.writesPapers o then none else x.map (· ++ learned o r))
      (past ++ [.own o t' r s s']) s' t' := by
  constructor
  · intro known hknown paper hpaper hspared
    split at hknown
    · cases hknown
    · rename_i hsilent
      have hpapers := hdoes.papers (Bool.eq_false_iff.2 hsilent)
      rcases Option.map_eq_some_iff.1 hknown with ⟨earlier, hx, rfl⟩
      by_cases hbrings : paper ∈ learned o r
      · exact StillStored.of_papers (learned_stored hdoes hbrings) hpapers
      · have hnot : brings paper (.own o t' r s s' : Move huldra Store) = false :=
          decide_eq_false hbrings
        rw [sinceRead_of_not_brings hnot] at hspared
        have hearlier := (List.mem_append.1 hpaper).resolve_right hbrings
        exact StillStored.of_papers (h.held earlier hx paper hearlier hspared.of_append) hpapers
  · intro before o₁ t₁ r₁ u v w hprefix hw
    rcases List.prefix_concat_iff.1 hprefix with heq | hpast
    · rcases List.append_inj' heq rfl with ⟨rfl, hlast⟩
      cases hlast
      refine ⟨hdoes, fun paper hpaper hspared => ?_⟩
      rcases hallow w hw with ⟨known, hx, hknown⟩
      exact h.held known hx paper (hknown hpaper) hspared
    · exact h.composed before o₁ t₁ r₁ u v w hpast hw

/-- A step of the others brings nothing and takes nothing from a paper that it spares. -/
theorem Sourced.other {x : Option (List ArxivPaper)} {past : List (Move huldra Store)}
    {s s' : Store} {t t' : Int} (h : Sourced x past s t) (hother : AnyOperation t' s s') :
    Sourced x (past ++ [.other t' s s']) s' t' := by
  rcases hother with ⟨o, r, hperformed⟩
  constructor
  · intro known hx paper hpaper hspared
    have hnot : brings paper (.other t' s s' : Move huldra Store) = false := rfl
    rw [sinceRead_of_not_brings hnot] at hspared
    have hstep := hspared t' s s' (List.mem_append_right _ (List.mem_singleton_self _))
    exact hstep.stillStored hperformed.retains (h.held known hx paper hpaper hspared.of_append)
  · intro before o₁ t₁ r₁ u v w hprefix hw
    rcases List.prefix_concat_iff.1 hprefix with heq | hpast
    · cases (List.append_inj' heq rfl).2
    · exact h.composed before o₁ t₁ r₁ u v w hpast hw

theorem tracks_sourced : Tracks (Store.among AnyOperation) sourced Sourced where
  own hstands hallow _ hdoes := ⟨_, rfl, hstands.own hallow hdoes⟩
  other hstands _ hother := hstands.other hother

/-- The clients that compose id lists from stored papers. -/
inductive Composer : {β : Type} → Program β → Prop where
  | broker (d : Deployment) (request : ArxivRequest) (cacheKey : CacheKey) :
      Composer (Broker.tryComposeCachedIdList d request cacheKey)
  | worker (w : WorkerConfig) (targets : Option (List CacheKey)) :
      Composer (Worker.runOnce w targets)

/-- The write of the composition leaves the rows as they are, `last_seen_at` apart. -/
def ReadsOnly (moves : List (Move huldra Store)) : Prop :=
  ∀ o t r u v w, Move.own o t r u v ∈ moves → write? o = some w → OnlySeen u.library v.library

/-- Whenever a composition is written, no step of the others has replaced what was read of its
papers since they were read last, and none of the papers is sent to the row of another id. -/
def Undisturbed (moves : List (Move huldra Store)) : Prop :=
  ∀ before o t r u v w, before ++ [Move.own o t r u v] <+: moves → write? o = some w →
    ∀ paper ∈ w.papers, Spared paper (sinceRead paper before) ∧
      u.library.legacyPaperForExistingOaiBaseRow paper = paper

theorem write_onlySeen {o : Op} {t : Int} {r : Except Exn o.Res} {u v : Store}
    {w : CompletedCacheWrite} (h : Store.Performed o t r u v) (hw : write? o = some w)
    (hstill : ∀ paper ∈ w.papers, StillStored u.library paper)
    (hown : ∀ paper ∈ w.papers, u.library.legacyPaperForExistingOaiBaseRow paper = paper) :
    OnlySeen u.library v.library := by
  rcases h.state with rfl | ⟨input, rfl⟩
  · exact OnlySeen.refl _
  · unfold write? at hw
    split at hw
    case h_1 write =>
      split at hw
      · cases hw
        exact (upsertPapers_onlySeen w.completedAt hstill hown).trans
          (OnlySeen.of_papers (recordCompletedCacheEntry_papers u.library w))
      · cases hw
    case h_2 => cases hw

/-- A composition is a read of the papers, if nobody replaces them between its reads and its
write. -/
theorem composition_reads_only {β : Type} {p : Program β} (hp : Composer p) {s s' : Store}
    {t t' : Int} {moves : List (Move huldra Store)} {out : Except Exn β}
    (hrun : Amid (Store.among AnyOperation) p s t moves out s' t')
    (hundisturbed : Undisturbed moves) : ReadsOnly moves := by
  have hempty : Held (some []) [] := ⟨[], rfl, List.Subset.refl []⟩
  have hkeeps : p.Keeps sourced (some []) := by
    cases hp with
    | broker d request cacheKey => exact keeps_tryComposeCachedIdList d request cacheKey hempty
    | worker w targets => exact keeps_runOnce targets hempty
  have hstart : Sourced (some []) [] s t := by
    constructor
    · intro known hknown paper hpaper
      cases hknown
      cases hpaper
    · intro before o t r u v w hprefix
      simp at hprefix
  rcases tracks_sourced.post hrun (some []) [] hkeeps hstart with ⟨x, hsourced, _⟩
  intro o t₁ r u v w hmem hw
  rcases List.append_of_mem hmem with ⟨before, after, rfl⟩
  have hprefix : before ++ [Move.own o t₁ r u v] <+: before ++ .own o t₁ r u v :: after :=
    ⟨after, by simp⟩
  have hcalm := hundisturbed before o t₁ r u v w hprefix hw
  rcases hsourced.composed before o t₁ r u v w hprefix hw with ⟨hperformed, hstill⟩
  exact write_onlySeen hperformed hw
    (fun paper hpaper => hstill paper hpaper (hcalm paper hpaper).1)
    fun paper hpaper => (hcalm paper hpaper).2

/-! ## A tombstone between the read and the write -/

def livePaper : ArxivPaper :=
  { arxivId := "2401.00001"
    canonicalUrl := "https://arxiv.org/abs/2401.00001"
    content := { title := "t" }
    oaiIdentifier := some "oai:arXiv.org:2401.00001" }

def liveRecord : OaiRecord :=
  { oaiIdentifier := "oai:arXiv.org:2401.00001"
    arxivId := some "2401.00001"
    metadataPrefix := .arXiv
    paper := some livePaper }

def deletedRecord : OaiRecord :=
  { oaiIdentifier := "oai:arXiv.org:2401.00001"
    arxivId := some "2401.00001"
    metadataPrefix := .arXiv
    deleted := true }

def live : Store :=
  { library := (LibraryTables.upsertOaiRecords {} [liveRecord] 0).2 }

def tombstoned : Store :=
  { library := (live.library.upsertOaiRecords [deletedRecord] 1).2 }

def composedWrite : CompletedCacheWrite :=
  { cacheKey := Keys.requestCacheKey plainRequest
    request := plainRequest
    papers := [livePaper]
    totalResults := some 1
    upstreamRequestCount := 0
    requestedAt := 2
    completedAt := 2 }

theorem live_read : live.library.getPapersByIds ["2401.00001"] = [("2401.00001", livePaper)] := by
  decide

/-- The store after the composition is written in `u`. -/
def composed (u : Store) : Store :=
  { u with library := u.library.recordCompletedCacheEntry composedWrite }

/-- A broker reads the paper in `live` and records it in `u`; the others act in between. -/
def composing (between : List (Move huldra Store)) (u : Store) : List (Move huldra Store) :=
  .own (.library (.getPapersByIds ["2401.00001"])) 0 (.ok [("2401.00001", livePaper)]) live live ::
    (between ++
      [.own (.clock .utcNow) 2 (.ok (2 : Int)) u u,
        .own (.clock .utcNow) 2 (.ok (2 : Int)) u u,
        .own (.library (.recordCompletedCacheEntry composedWrite)) 2 (.ok ()) u (composed u),
        .own (.library (.getCacheEntry composedWrite.cacheKey)) 2
          (.ok (some (completionEntry u.library composedWrite))) (composed u) (composed u),
        .own (.library (.matchCount composedWrite.cacheKey)) 2
          (.ok (completionEntry u.library composedWrite).resultCount) (composed u) (composed u),
        .own (.library (.joinedCount composedWrite.cacheKey)) 2
          (.ok (completionEntry u.library composedWrite).resultCount) (composed u) (composed u),
        .own (.library (.matchPositions composedWrite.cacheKey)) 2
          (.ok (List.range (completionEntry u.library composedWrite).resultCount)) (composed u)
          (composed u),
        .own (.library (.getCachedPapers composedWrite.cacheKey)) 2
          (.ok ((composed u).library.getCachedPapers composedWrite.cacheKey)) (composed u)
          (composed u)])

theorem composing_run {between : List (Move huldra Store)} {u : Store} {t : Int} (ht : t ≤ 2)
    (hbetween : Drift (Store.among AnyOperation) live 0 between u t) :
    ∃ out, Amid (Store.among AnyOperation)
      (Broker.tryComposeCachedIdList {} plainRequest composedWrite.cacheKey) live 0
      (composing between u) (.ok out) (composed u) 2 := by
  have hids : (plainRequest.idList.map Keys.normalizeArxivId).eraseDups = ["2401.00001"] := by
    decide
  have hpure : Broker.isPureIdListRequest plainRequest = true := by decide
  have hentry : (composed u).library.cacheEntryOf? composedWrite.cacheKey =
      some (completionEntry u.library composedWrite) :=
    cacheEntryOf?_recordCompletedCacheEntry u.library composedWrite
  have hpasses := (completion_intact u.library composedWrite).passesCheck
  unfold Broker.tryComposeCachedIdList
  simp only [hpure, hids]
  apply Exists.intro
  refine .own (by decide) (Or.inl ⟨{}, rfl, ?_⟩) ?_
  · simp only [Store.exec, LibraryOp.exec, live_read]
  refine hbetween.amid ?_
  refine .own ht (Or.inl ⟨{}, rfl, rfl⟩) ?_
  refine .own (by decide) (Or.inl ⟨{}, rfl, rfl⟩) ?_
  refine .own (by decide) (Or.inl ⟨{}, rfl, rfl⟩) ?_
  refine .own (by decide) (Or.inl ⟨{}, rfl, ?_⟩) ?_
  · simp only [Store.exec, LibraryOp.exec, hentry]
  refine .own (by decide) (Or.inl ⟨{}, rfl, ?_⟩) ?_
  · exact congrArg (fun n => (Except.ok n, composed u)) hpasses.counted
  refine .own (by decide) (Or.inl ⟨{}, rfl, ?_⟩) ?_
  · exact congrArg (fun n => (Except.ok n, composed u)) hpasses.joined
  refine .own (by decide) (Or.inl ⟨{}, rfl, ?_⟩) ?_
  · exact congrArg (fun l => (Except.ok l, composed u)) hpasses.numbered
  refine .own (by decide) (Or.inl ⟨{}, rfl, rfl⟩) ?_
  exact .ret _ (composed u) 2

theorem live_own : live.library.legacyPaperForExistingOaiBaseRow livePaper = livePaper :=
  legacyPaper_of_family (by decide) (by decide)

theorem undisturbed_composition_reads : ReadsOnly (composing [] live) := by
  rcases composing_run (by decide) (.nil live 0) with ⟨out, hrun⟩
  refine composition_reads_only (.broker ..) hrun ?_
  intro before o t r u v w hprefix hw paper hpaper
  have hown := hprefix.subset (List.mem_append_right before (List.mem_singleton_self _))
  have hcalm : Spared paper (sinceRead paper before) := by
    intro t' u' v' hother
    have hmem := hprefix.subset (List.mem_append_left [Move.own o t r u v]
      ((List.rtakeWhile_suffix _ _).subset hother))
    simp [composing] at hmem
  refine ⟨hcalm, ?_⟩
  simp only [composing, List.nil_append, List.mem_cons, List.not_mem_nil, or_false] at hown
  rcases hown with hm | hm | hm | hm | hm | hm | hm | hm | hm
  case inr.inr.inr.inl =>
    cases hm
    cases hw
    cases List.mem_singleton.1 hpaper
    exact live_own
  all_goals
    cases hm
    cases hw

/-- The tombstone is undone: a composition is not always a read. -/
theorem composition_writes :
    ¬ ∀ (d : Deployment) (request : ArxivRequest) (cacheKey : CacheKey) (s s' : Store) (t t' : Int)
        (moves : List (Move huldra Store)) (out : Option ArxivResult),
      Amid (Store.among AnyOperation) (Broker.tryComposeCachedIdList d request cacheKey) s t moves
          (.ok out) s' t' →
        ReadsOnly moves := by
  intro h
  have hbetween : Drift (Store.among AnyOperation) live 0 [.other 1 live tombstoned] tombstoned 1 :=
    .cons (by decide) ⟨.library (.upsertOaiRecords [deletedRecord] 1), _, Or.inl ⟨{}, rfl, rfl⟩⟩
      (.nil tombstoned 1)
  rcases composing_run (by decide) hbetween with ⟨out, hrun⟩
  have hseen := h _ _ _ _ _ _ _ _ _ hrun (.library (.recordCompletedCacheEntry composedWrite)) 2
    (.ok ()) tombstoned (composed tombstoned) composedWrite (by simp [composing]) rfl "2401.00001"
  have hdeleted := congrArg (Option.map fun row : PaperRow => row.deleted) hseen
  revert hdeleted
  decide

end Composition

end Huldra
