import Mathlib.Algebra.Order.Ring.Nat
import Huldra.Harvest.Chain

/-!
# Resumed — a job that is walked by one process after another

A process crashes, and the next one takes the job up where the last commit left it.  While no two
of them work at the job at a time, the process that works has read the end of the chain; so its
audit rows never fall on a committed page, and it fetches the next page only.
-/

namespace Huldra
namespace Harvest

open Process.System (Monitor Config Throughout Disciplined History Event Legal stateAfter)
open OaiTables

variable {d : Deployment}

/-! ## One process after another -/

/-- The job whose row or pages an operation writes. -/
def written? : Op → Option Uuid
  | .oai (.ensureOaiHarvestDeadline harvestId _ _) => some harvestId
  | .oai (.recordOaiRequestStarted harvestId _) => some harvestId
  | .oai (.recordOaiPage page) => some page.harvestId
  | .oai (.completeOaiHarvestJob c) => some c.harvestId
  | .checkpointOaiPage c => some c.harvestId
  | _ => none

/-- The job whose row or pages the event writes. -/
def writes? (e : Event (fleet d)) : Option Uuid :=
  match e.action with
  | .op o _ => written? o
  | _ => none

/-- The job that the event works at: it writes of it, or fetches its page. -/
def worksAt? (e : Event (fleet d)) : Option Uuid :=
  match e.action with
  | .op (.upstream (.listRecordsBegin call)) _ => some call.harvestId
  | _ => writes? e

/-- The job that an operation takes up: it finds it running, or creates it. -/
def taken? : (o : Op) → Except Exn o.Res → Option Uuid
  | .oai (.getRunningOaiHarvest _), .ok (some row) => some row.harvestId
  | .oai (.createOaiHarvestJob ..), .ok harvestId => some harvestId
  | _, _ => none

/-- The job that the event takes up. -/
def takesUp? (e : Event (fleet d)) : Option Uuid :=
  match e.action with
  | .op o r => taken? o r
  | _ => none

/-- No other process has worked at the job since `p` took it up. -/
def Undisturbed (harvestId : Uuid) (p : Nat) : History (fleet d) → Prop
  | [] => True
  | e :: pre =>
      if e.pid = p then takesUp? e = some harvestId ∨ Undisturbed harvestId p pre
      else worksAt? e ≠ some harvestId ∧ Undisturbed harvestId p pre

/-- Who works at the job has taken it up since another one worked at it. -/
def OneAtATime (harvestId : Uuid) (pre : History (fleet d)) (e : Event (fleet d)) : Prop :=
  worksAt? e = some harvestId → Undisturbed harvestId e.pid pre

section Standing

variable {pre : History (fleet d)} {e : Event (fleet d)} {o : Op} {r : Except Exn o.Res}
  {harvestId : Uuid}

/-- Only a commit and taking up a job move a process to another page. -/
theorem stand_of_step {x : Option Stand} {st : Stand} (hst : Stand.step x o r = some st)
    (hcommits : ∀ c, o ≠ .checkpointOaiPage c) : taken? o r = some st.harvestId ∨
      ∃ st₀, x = some st₀ ∧ st₀.harvestId = st.harvestId ∧
        st₀.cursor.pageIndex = st.cursor.pageIndex := by
  unfold Stand.step at hst
  split at hst
  case h_1 =>
    cases hst
    exact Or.inl rfl
  case h_2 =>
    cases hst
    exact Or.inl rfl
  case h_3 =>
    rcases Option.map_eq_some_iff.1 hst with ⟨st₀, hx, rfl⟩
    exact Or.inr ⟨st₀, hx, rfl, rfl⟩
  case h_4 =>
    rcases Option.map_eq_some_iff.1 hst with ⟨st₀, hx, rfl⟩
    exact Or.inr ⟨st₀, hx, rfl, rfl⟩
  case h_5 c counts => exact absurd rfl (hcommits c)
  case h_6 c error => exact absurd rfl (hcommits c)
  case h_7 => exact Or.inr ⟨st, hst, rfl, rfl⟩

/-- Who takes the job up stands at the end of its chain. -/
theorem Turn.pageIndex_of_taken (he : Turn pre e o r) (hI : Linked harvestId pre)
    (htaken : taken? o r = some harvestId) {st : Stand}
    (hst : Stand.step (standOf e.pid pre) o r = some st) :
    st.cursor.pageIndex = (commits harvestId pre).length := by
  unfold taken? at htaken
  split at htaken
  case h_1 request row =>
    have hid : row.harvestId = harvestId := Option.some.inj htaken
    rcases running_of_answer he.performed with ⟨hfound, _⟩
    rcases getRunningOaiHarvest_spec hfound with ⟨hmem, hrunning, _⟩
    have hjob := job?_of_mem he.filed hmem
    rw [hid] at hjob
    cases hst
    exact (hI.row row hjob hrunning).pageIndex_eq
  case h_2 request token started id =>
    cases htaken
    rcases created_of_answer he.filed he.performed with ⟨habsent, _⟩
    cases hst
    rw [(hI.absent habsent).1]
    rfl
  case h_3 => cases htaken

/-- Who is undisturbed stands at the end of the chain. -/
def UpToDate (harvestId : Uuid) (h : History (fleet d)) : Prop :=
  ∀ p st, standOf p h = some st → st.harvestId = harvestId → Undisturbed harvestId p h →
    st.cursor.pageIndex = (commits harvestId h).length

theorem commits_of_ne (hworks : worksAt? e ≠ some harvestId) :
    commits harvestId (e :: pre) = commits harvestId pre := by
  have hnone : commit? harvestId e = none := by
    unfold commit?
    split
    · rename_i c r' ha
      rw [if_neg]
      rintro ⟨hid, _⟩
      refine hworks ?_
      simp only [worksAt?, writes?, written?, ha, hid]
    · rfl
  rw [commits_cons, hnone]
  rfl

theorem Turn.upToDate (he : Turn pre e o r) (hI : Linked harvestId pre)
    (hU : UpToDate harvestId pre) : UpToDate harvestId (e :: pre) := by
  intro p st hst hid hundisturbed
  by_cases hp : e.pid = p
  · subst hp
    rw [Undisturbed, if_pos rfl] at hundisturbed
    rw [standOf_of_op pre he.action] at hst
    have htakes : takesUp? e = taken? o r := by simp only [takesUp?, he.action]
    rw [htakes] at hundisturbed
    by_cases hcommits : ∃ c, o = .checkpointOaiPage c
    · -- A commit moves the process and the chain by one page.
      rcases hcommits with ⟨c, rfl⟩
      cases r with
      | error error => cases hst
      | ok counts =>
          rcases Option.map_eq_some_iff.1 hst with ⟨st₀, hx, rfl⟩
          have hbefore : Undisturbed harvestId e.pid pre :=
            hundisturbed.resolve_left fun h => by cases h
          rcases checkpoint_effect he.performed with ⟨_, hrefused⟩ | ⟨hmatches, hpage, _⟩
          · exact absurd rfl (hrefused counts)
          · have hcommit := he.commit?_of_matched rfl hmatches hpage
            rcases he.allowed with ⟨st₁, hx', _, j, page, t, _, hat, rfl⟩
            rw [hx] at hx'
            cases hx'
            have hjob : (j.checkpointOf st₀.cursor page t).harvestId = harvestId := hat.trans hid
            rw [hjob] at hcommit
            rw [commits_cons, hcommit]
            exact congrArg (· + 1) (hU e.pid st₀ hx hid hbefore)
    · have hother : ∀ c, o ≠ .checkpointOaiPage c := fun c h => hcommits ⟨c, h⟩
      have hsame : commits harvestId (e :: pre) = commits harvestId pre := by
        rw [commits_cons, he.commit?_of_ne fun c h => absurd h (hother c)]
        rfl
      rw [hsame]
      rcases stand_of_step hst hother with htaken | ⟨st₀, hx, hat, hindex⟩
      · rw [hid] at htaken
        exact he.pageIndex_of_taken hI htaken hst
      · by_cases htaken : taken? o r = some harvestId
        · exact he.pageIndex_of_taken hI htaken hst
        · rw [← hindex]
          exact hU e.pid st₀ hx (hat.trans hid) (hundisturbed.resolve_left htaken)
  · rw [Undisturbed, if_neg hp] at hundisturbed
    rw [standOf_of_ne pre hp] at hst
    rw [commits_of_ne hundisturbed.1]
    exact hU p st hst hid hundisturbed.2

theorem worksAt?_of_idle (harvestId : Uuid) (ha : ∀ o r, e.action ≠ .op o r) :
    worksAt? e ≠ some harvestId := by
  unfold worksAt? writes?
  split
  · exact absurd ‹_› (ha _ _)
  · split
    · exact absurd ‹_› (ha _ _)
    · exact fun h => by cases h

theorem upToDate_idle (hU : UpToDate harvestId pre) (ha : ∀ o r, e.action ≠ .op o r) :
    UpToDate harvestId (e :: pre) := by
  intro p st hst hid hundisturbed
  rw [commits_of_ne (worksAt?_of_idle harvestId ha)]
  by_cases hp : e.pid = p
  · subst hp
    cases hact : e.action with
    | start c =>
        rw [standOf_of_start pre hact] at hst
        cases hst
    | op o r => exact absurd hact (ha o r)
    | crash =>
        rw [standOf_of_crash pre hact] at hst
        cases hst
  · rw [Undisturbed, if_neg hp] at hundisturbed
    rw [standOf_of_ne pre hp] at hst
    exact hU p st hst hid hundisturbed.2

end Standing

/-! ## The rows of the pages -/

/-- The key of a page row. -/
def pageKey (page : OaiPageRow) : Uuid × Nat :=
  (page.harvestId, page.pageIndex)

/-- The page is the row of the commit. -/
def Commit.Row (k : Commit) (page : OaiPageRow) : Prop :=
  ∃ createdAt, page = { k.checkpoint.page with createdAt := createdAt }

section Rows

variable {t : OaiTables} {page p : OaiPageRow}

theorem pageKey_eq_iff : pageKey p = pageKey page ↔
    p.harvestId = page.harvestId ∧ p.pageIndex = page.pageIndex :=
  Prod.mk.injEq .. ▸ Iff.rfl

/-- Either the row was there under another key, or it is the one that was put. -/
theorem of_mem_putPage (h : p ∈ (t.putPage page).pages) :
    (p ∈ t.pages ∧ pageKey p ≠ pageKey page) ∨
      ∃ createdAt, p = { page with createdAt := createdAt } := by
  unfold putPage at h
  split at h
  · rcases List.mem_map.1 h with ⟨old, hold, rfl⟩
    split
    · exact Or.inr ⟨old.createdAt, rfl⟩
    · rename_i hkey
      exact Or.inl ⟨hold, fun hsame => hkey (pageKey_eq_iff.1 hsame)⟩
  · rename_i hnone
    rcases List.mem_append.1 h with hold | hnew
    · refine Or.inl ⟨hold, fun hsame => ?_⟩
      have hmiss := List.find?_eq_none.1 hnone p hold
      rw [pageKey_eq_iff] at hsame
      simp [hsame] at hmiss
    · rw [List.mem_singleton] at hnew
      exact Or.inr ⟨page.createdAt, hnew⟩

theorem mem_putPage_of_ne (h : p ∈ t.pages) (hkey : pageKey p ≠ pageKey page) :
    p ∈ (t.putPage page).pages := by
  unfold putPage
  split
  · refine List.mem_map.2 ⟨p, h, ?_⟩
    rw [if_neg fun hsame => hkey (pageKey_eq_iff.2 hsame)]
  · exact List.mem_append_left _ h

theorem put_mem_putPage (t : OaiTables) (page : OaiPageRow) :
    ∃ createdAt, { page with createdAt := createdAt } ∈ (t.putPage page).pages := by
  rcases exists_putPage t page with ⟨p, hp, hid, hindex⟩
  rcases of_mem_putPage hp with ⟨_, hne⟩ | ⟨createdAt, rfl⟩
  · exact absurd (pageKey_eq_iff.2 ⟨hid, hindex⟩) hne
  · exact ⟨createdAt, hp⟩

/-- The primary key of `oai_pages`. -/
def Keyed (t : OaiTables) : Prop :=
  (t.pages.map pageKey).Nodup

theorem Keyed.put (h : Keyed t) (page : OaiPageRow) : Keyed (t.putPage page) := by
  unfold Keyed putPage
  split
  · have hkeys : ∀ p ∈ t.pages, pageKey (if p.harvestId = page.harvestId ∧
        p.pageIndex = page.pageIndex then { page with createdAt := p.createdAt } else p) =
          pageKey p := by
      intro p _
      split
      · rename_i hkey
        exact (pageKey_eq_iff.2 hkey).symm
      · rfl
    rw [List.map_map]
    exact (congrArg List.Nodup (List.map_congr_left hkeys)).mpr h
  · rename_i hnone
    rw [List.map_append]
    refine List.nodup_append.2 ⟨h, List.nodup_singleton _, ?_⟩
    intro a ha b hb hab
    rcases List.mem_map.1 ha with ⟨old, hold, rfl⟩
    rw [List.map_singleton, List.mem_singleton] at hb
    have hmiss := List.find?_eq_none.1 hnone old hold
    have hsame := pageKey_eq_iff.1 (hab.trans hb)
    simp [hsame] at hmiss

theorem Keyed.eq_of_key (h : Keyed t) (hp : p ∈ t.pages) (hpage : page ∈ t.pages)
    (hkey : pageKey p = pageKey page) : p = page :=
  List.inj_on_of_nodup_map h hp hpage hkey

/-- The completed rows of the job are those of its commits. -/
structure Paged (log : List Commit) (harvestId : Uuid) (t : OaiTables) : Prop where
  keyed : Keyed t
  covered : ∀ k ∈ log, ∃ page ∈ t.pages, k.Row page
  completed : ∀ page ∈ t.pages, page.harvestId = harvestId → page.status = .completed →
    ∃ k ∈ log, k.Row page

variable {log : List Commit} {harvestId : Uuid} {k : Commit}

/-- A row that falls on no committed page and is not completed changes nothing. -/
theorem Paged.put (h : Paged log harvestId t)
    (hbeside : ∀ k ∈ log, pageKey k.checkpoint.page ≠ pageKey page)
    (hopen : page.harvestId = harvestId → page.status ≠ .completed) :
    Paged log harvestId (t.putPage page) where
  keyed := h.keyed.put page
  covered := by
    intro k hk
    rcases h.covered k hk with ⟨row, hrow, createdAt, rfl⟩
    exact ⟨_, mem_putPage_of_ne hrow (hbeside k hk), createdAt, rfl⟩
  completed := by
    intro row hrow hid hstatus
    rcases of_mem_putPage hrow with ⟨hold, _⟩ | ⟨createdAt, rfl⟩
    · exact h.completed row hold hid hstatus
    · exact absurd hstatus (hopen hid)

theorem Paged.commit (h : Paged log harvestId t)
    (hbeside : ∀ k' ∈ log, pageKey k'.checkpoint.page ≠ pageKey k.checkpoint.page) :
    Paged (k :: log) harvestId (t.putPage k.checkpoint.page) where
  keyed := h.keyed.put _
  covered := by
    intro k' hk'
    rcases List.mem_cons.1 hk' with rfl | hk'
    · rcases put_mem_putPage t k'.checkpoint.page with ⟨createdAt, hput⟩
      exact ⟨_, hput, createdAt, rfl⟩
    · rcases h.covered k' hk' with ⟨row, hrow, createdAt, rfl⟩
      exact ⟨_, mem_putPage_of_ne hrow (hbeside k' hk'), createdAt, rfl⟩
  completed := by
    intro row hrow hid hstatus
    rcases of_mem_putPage hrow with ⟨hold, _⟩ | ⟨createdAt, rfl⟩
    · rcases h.completed row hold hid hstatus with ⟨k', hk', hrow'⟩
      exact ⟨k', List.mem_cons_of_mem k hk', hrow'⟩
    · exact ⟨k, List.mem_cons_self, createdAt, rfl⟩

theorem Paged.of_pages {t' : OaiTables} (h : Paged log harvestId t) (hpages : t'.pages = t.pages) :
    Paged log harvestId t' where
  keyed := by
    unfold Keyed
    rw [hpages]
    exact h.keyed
  covered := by
    rw [hpages]
    exact h.covered
  completed := by
    rw [hpages]
    exact h.completed

end Rows

/-! ## What every such run keeps -/

section Events

variable {pre : History (fleet d)} {e : Event (fleet d)} {o : Op} {r : Except Exn o.Res}
  {harvestId : Uuid} {token : Option ResumptionToken} {log older : List Commit} {k : Commit}

theorem harvestId_of_mem {h : History (fleet d)} (hk : k ∈ commits harvestId h) :
    k.checkpoint.harvestId = harvestId := by
  rcases List.mem_filterMap.1 hk with ⟨e, _, hcommit⟩
  unfold commit? at hcommit
  split at hcommit
  · split at hcommit
    · rename_i hjob
      rw [← Option.some.inj hcommit]
      exact hjob.1
    · cases hcommit
  · cases hcommit

theorem index_of_accepts (h : (Chain.after token older).Accepts d k) :
    k.checkpoint.pageIndex = older.length := by
  rcases h.drawn with ⟨j, page, t, _, hdrawn⟩
  rw [hdrawn]
  exact Chain.pageIndex_after older

theorem index_lt (h : Chain.Accepted d token log) (hk : k ∈ log) :
    k.checkpoint.pageIndex < log.length := by
  rcases List.append_of_mem hk with ⟨newer, older, rfl⟩
  rw [index_of_accepts (h.of_suffix ⟨newer, rfl⟩).1, List.length_append, List.length_cons]
  omega

/-- A row on the page to come, or of another job, falls on no committed page. -/
theorem beside_of_row {h : History (fleet d)} (hI : Linked harvestId h) {page : OaiPageRow}
    (hpage : page.harvestId = harvestId → page.pageIndex = (commits harvestId h).length) :
    ∀ k ∈ commits harvestId h, pageKey k.checkpoint.page ≠ pageKey page := by
  intro k hk hsame
  rcases pageKey_eq_iff.1 hsame with ⟨hid, hindex⟩
  have hat : page.harvestId = harvestId := hid.symm.trans (harvestId_of_mem hk)
  have hlt := index_lt hI.accepted hk
  rw [hpage hat] at hindex
  exact absurd hindex (Nat.ne_of_lt hlt)

theorem Turn.paged (he : Turn pre e o r) (hone : OneAtATime harvestId pre e)
    (hI : Linked harvestId pre) (hU : UpToDate harvestId pre)
    (hP : Paged (commits harvestId pre) harvestId (stateAfter pre).oai) :
    Paged (commits harvestId (e :: pre)) harvestId e.after.oai := by
  by_cases hcommits : ∃ c, o = .checkpointOaiPage c
  · rcases hcommits with ⟨c, rfl⟩
    rcases checkpoint_effect he.performed with ⟨hsame, _⟩ | ⟨hmatches, hpage, _⟩
    · rw [commits_cons, he.commit?_of_same harvestId (by rw [hsame]), hsame]
      exact hP
    · by_cases hid : c.harvestId = harvestId
      · have hcommit := he.commit?_of_matched rfl hmatches hpage
        have hindex : c.pageIndex = (commits harvestId pre).length := by
          unfold matchesCursor at hmatches
          rw [hid] at hmatches
          split at hmatches
          · rename_i job hjob
            simp only [Bool.and_eq_true, decide_eq_true_eq] at hmatches
            rw [← hmatches.1.2]
            exact (hI.row job hjob hmatches.1.1).pageIndex_eq
          · cases hmatches
        rw [hid] at hcommit
        rw [commits_cons, hcommit, hpage]
        refine (hP.commit ?_).of_pages rfl
        exact beside_of_row hI fun _ => hindex
      · rw [commits_cons, he.commit?_of_ne fun c' h => by cases h; exact hid, hpage]
        exact (hP.put (beside_of_row hI fun hat => absurd hat hid)
          fun hat => absurd hat hid).of_pages rfl
  · have hother : ∀ c, o ≠ .checkpointOaiPage c := fun c h => hcommits ⟨c, h⟩
    rw [commits_cons, he.commit?_of_ne fun c h => absurd h (hother c)]
    rcases pages_effect he.performed with hsame | ⟨page, rfl, hput⟩ | ⟨c, counts, ho, _⟩
    · exact hP.of_pages hsame
    · rcases he.allowed with ⟨st, hst, hat, hindex, _, hstatus⟩
      rw [hput]
      refine hP.put (beside_of_row hI fun hid => ?_) fun _ => hstatus
      -- Who writes the row has read the end of the chain.
      have hworks : worksAt? e = some harvestId := by
        simp only [worksAt?, writes?, written?, he.action, hid]
      rw [hindex]
      exact hU e.pid st hst (hat.symm.trans hid) (hone hworks)
    · exact absurd ho (hother c)

/-- What a run keeps of a job that one process after another walks. -/
structure Tended (harvestId : Uuid) (h : History (fleet d)) : Prop where
  linked : Linked harvestId h
  upToDate : UpToDate harvestId h
  paged : Paged (commits harvestId h) harvestId (stateAfter h).oai

theorem tended_nil (harvestId : Uuid) : Tended (d := d) harvestId [] where
  linked := linked_nil harvestId
  upToDate := by
    intro p st hst
    cases hst
  paged := ⟨List.nodup_nil, fun k hk => absurd hk List.not_mem_nil,
    fun page hpage => absurd hpage List.not_mem_nil⟩

theorem tended_step (h : Orderly pre e) (hone : OneAtATime harvestId pre e)
    (hT : Tended harvestId pre) : Tended harvestId (e :: pre) := by
  have hlinked := linked_step h hT.linked
  by_cases ha : ∃ o r, e.action = .op o r
  · rcases ha with ⟨o, r, ha⟩
    have he := h.turn ha
    exact ⟨hlinked, he.upToDate hT.linked hT.upToDate,
      he.paged hone hT.linked hT.upToDate hT.paged⟩
  · have ha' : ∀ o r, e.action ≠ .op o r := fun o r h => ha ⟨o, r, h⟩
    refine ⟨hlinked, upToDate_idle hT.upToDate ha', ?_⟩
    have hstate : stateAfter (e :: pre) = stateAfter pre := Queue.after_eq_of_not_op h.legal ha'
    rw [commits_of_ne (worksAt?_of_idle harvestId ha'), hstate]
    exact hT.paged

end Events

/-! ## The rows of a running job -/

/-- The rows of `oai_pages` that the job has completed. -/
def completedPages (harvestId : Uuid) (t : OaiTables) : List OaiPageRow :=
  t.pages.filter fun page => page.harvestId = harvestId ∧ page.status = .completed

section Sums

variable {token : Option ResumptionToken} {log : List Commit}

theorem indices_of_accepted (h : Chain.Accepted d token log) :
    log.reverse.map (·.checkpoint.pageIndex) = List.range log.length := by
  induction log with
  | nil => rfl
  | cons k older ih =>
      rw [List.reverse_cons, List.map_append, ih h.2, List.map_singleton, index_of_accepts h.1,
        List.length_cons, List.range_succ]

/-- Each page consumes what the page before it has left. -/
theorem tokens_of_accepted (h : Chain.Accepted d token log) :
    log.reverse.map (·.checkpoint.consumedResumptionTokenHash) ++
        [hashOf d (nextToken token log)] =
      hashOf d token :: log.reverse.map (·.checkpoint.nextResumptionTokenHash) := by
  induction log with
  | nil => rfl
  | cons k older ih =>
      have hconsumed : k.checkpoint.consumedResumptionTokenHash =
          hashOf d (nextToken token older) := by
        rw [h.1.consumed_eq, token_after]
      have hnext : k.checkpoint.nextResumptionTokenHash =
          hashOf d k.checkpoint.nextResumptionToken := by
        rcases h.1.drawn with ⟨j, page, t, rfl, hdrawn⟩
        rw [hdrawn]
        rfl
      rw [List.reverse_cons, List.map_append, List.map_append, List.map_singleton,
        List.map_singleton, hconsumed, ih h.2, hnext]
      rfl

/-- One row for each commit. -/
theorem exists_rows {pages : List OaiPageRow} {l : List Commit}
    (h : ∀ k ∈ l, ∃ page ∈ pages, k.Row page) :
    ∃ rows, List.Forall₂ Commit.Row l rows ∧ ∀ page ∈ rows, page ∈ pages := by
  induction l with
  | nil => exact ⟨[], .nil, fun page hpage => absurd hpage List.not_mem_nil⟩
  | cons k l ih =>
      rcases h k List.mem_cons_self with ⟨page, hpage, hrow⟩
      rcases ih fun k' hk' => h k' (List.mem_cons_of_mem k hk') with ⟨rows, hrows, hmem⟩
      refine ⟨page :: rows, .cons hrow hrows, ?_⟩
      intro p hp
      rcases List.mem_cons.1 hp with rfl | hp
      · exact hpage
      · exact hmem p hp

theorem mem_of_rows {l : List Commit} {rows : List OaiPageRow}
    (h : List.Forall₂ Commit.Row l rows) :
    (∀ page ∈ rows, ∃ k ∈ l, k.Row page) ∧ ∀ k ∈ l, ∃ page ∈ rows, k.Row page := by
  induction h with
  | nil => exact ⟨fun _ h => absurd h List.not_mem_nil, fun _ h => absurd h List.not_mem_nil⟩
  | @cons k page l rows hrow _ ih =>
      refine ⟨?_, ?_⟩
      · intro p hp
        rcases List.mem_cons.1 hp with rfl | hp
        · exact ⟨k, List.mem_cons_self, hrow⟩
        · rcases ih.1 p hp with ⟨k', hk', hrow'⟩
          exact ⟨k', List.mem_cons_of_mem k hk', hrow'⟩
      · intro k' hk'
        rcases List.mem_cons.1 hk' with rfl | hk'
        · exact ⟨page, List.mem_cons_self, hrow⟩
        · rcases ih.2 k' hk' with ⟨p, hp, hrow'⟩
          exact ⟨p, List.mem_cons_of_mem page hp, hrow'⟩

/-- What the rows show is what the commits brought. -/
theorem map_rows {β : Type} {l : List Commit} {rows : List OaiPageRow}
    (h : List.Forall₂ Commit.Row l rows) {f : Commit → β} {g : OaiPageRow → β}
    (hfg : ∀ k createdAt, f k = g { k.checkpoint.page with createdAt := createdAt }) :
    rows.map g = l.map f := by
  have hmap : List.Forall₂ (fun a b => a = b) (rows.map g) (l.map f) := by
    refine List.forall₂_map_left_iff.2 (List.forall₂_map_right_iff.2 (h.flip.imp ?_))
    rintro _ k ⟨createdAt, rfl⟩
    exact (hfg k createdAt).symm
  rwa [List.forall₂_eq_eq_eq] at hmap

end Sums

/-- What the rows say of a running job: `rows` are its pages, in their order. -/
structure Durable (harvestId : Uuid) (h : History (fleet d)) (job : OaiJobRow)
    (rows : List OaiPageRow) : Prop where
  completed : rows.Perm (completedPages harvestId (stateAfter h).oai)
  /-- They are the pages that were committed, … -/
  of_commits : List.Forall₂ Commit.Row (commits harvestId h).reverse rows
  indices : rows.map (·.pageIndex) = List.range job.pagesTotal
  records : job.recordsProcessed = (rows.map (·.recordsCount)).sum
  papers : job.papersUpserted = (recordsOf (commits harvestId h)).countP LibraryTables.liveRecord
  deleted : job.deletedRecords = (recordsOf (commits harvestId h)).countP (·.deleted)
  /-- … each of them consumed the token that the one before it left, and the job stores the token
  that the last one left. -/
  tokens : rows.map (·.resumptionTokenHash) ++ [hashOf d job.resumptionToken] =
    hashOf d (startToken harvestId h) :: rows.map (·.nextResumptionTokenHash)
  token : job.resumptionToken = nextToken (startToken harvestId h) (commits harvestId h)

theorem Tended.durable {harvestId : Uuid} {h : History (fleet d)} (hT : Tended harvestId h)
    {job : OaiJobRow} (hjob : (stateAfter h).oai.job? harvestId = some job)
    (hrunning : job.status = .running) : ∃ rows, Durable harvestId h job rows := by
  have hI := hT.linked
  rcases exists_rows fun k hk => hT.paged.covered k (List.mem_reverse.1 hk) with
    ⟨rows, hrows, hmem⟩
  have hindices : rows.map (·.pageIndex) = List.range (commits harvestId h).length :=
    (map_rows hrows fun _ _ => rfl).trans (indices_of_accepted hI.accepted)
  have hends := hI.row job hjob hrunning
  have hplace := hends.place
  simp only [Cursor.place, Stand.ofRow, Cursor.mk.injEq] at hplace
  rcases hplace with ⟨htoken, _, _, hrecords, hpapers, hdeleted, _⟩
  rcases counts_after (startToken harvestId h) (commits harvestId h)
    fun k hk => counted_of_mem hk with ⟨hrecords', hpapers', hdeleted'⟩
  have hnext : job.resumptionToken = nextToken (startToken harvestId h) (commits harvestId h) :=
    htoken.trans (token_after _)
  refine ⟨rows, ?_, hrows, ?_, ?_, hpapers.trans hpapers', hdeleted.trans hdeleted', ?_, hnext⟩
  · -- Each of them once: their indices differ, and a key belongs to one row.
    have hnodup : rows.Nodup := by
      refine List.Nodup.of_map (·.pageIndex) ?_
      rw [hindices]
      exact List.nodup_range
    have hkeyed : (stateAfter h).oai.pages.Nodup := List.Nodup.of_map pageKey hT.paged.keyed
    refine (List.perm_ext_iff_of_nodup hnodup (hkeyed.filter _)).2 fun page => ?_
    rw [List.mem_filter, decide_eq_true_eq]
    constructor
    · intro hpage
      rcases (mem_of_rows hrows).1 page hpage with ⟨k, hk, createdAt, hrow⟩
      refine ⟨hmem page hpage, ?_⟩
      rw [hrow]
      exact ⟨harvestId_of_mem (List.mem_reverse.1 hk), rfl⟩
    · rintro ⟨hpage, hid, hstatus⟩
      rcases hT.paged.completed page hpage hid hstatus with ⟨k, hk, createdAt, rfl⟩
      rcases (mem_of_rows hrows).2 k (List.mem_reverse.2 hk) with ⟨row, hrow, createdAt', rfl⟩
      rw [hT.paged.keyed.eq_of_key hpage (hmem _ hrow) rfl]
      exact hrow
  · rw [hindices, hends.pageIndex_eq]
  · rw [map_rows hrows fun _ _ => rfl, hrecords, hrecords', recordsOf, List.length_flatMap]
  · rw [map_rows hrows fun _ _ => rfl, map_rows hrows fun _ _ => rfl, hnext]
    exact tokens_of_accepted hI.accepted

/-! ## The fetches -/

/-- A fetch for the job is for the page to come: it asks for what no committed page was asked
with, and the chain has not ended. -/
structure FetchesNext (harvestId : Uuid) (pre : History (fleet d)) (e : Event (fleet d)) :
    Prop where
  next : ∀ call r, e.action = .op (.upstream (.listRecordsBegin call)) r →
    call.harvestId = harvestId →
      call.pageIndex = (commits harvestId pre).length ∧
        ∀ k ∈ commits harvestId pre, k.checkpoint.requestParams ≠ call.params
  going : ∀ call r, e.action = .op (.upstream (.listRecordsBegin call)) r →
    call.harvestId = harvestId →
      ∀ k ∈ (commits harvestId pre).head?, k.checkpoint.nextResumptionToken.isSome = true ∧
        k.checkpoint.terminalErrorCategory = none

/-- What a token is asked with was not asked with before. -/
theorem params_ne {token : Option ResumptionToken} {log : List Commit} {k : Commit}
    (hlog : Chain.Accepted d token log)
    (hunfinished : (Chain.after token log).cursor.finishedPaging = false)
    (hsound : (Chain.after token log).error = none) (hk : k ∈ log) {next : ResumptionToken}
    (hnext : (Chain.after token log).cursor.resumptionToken = some next) :
    k.checkpoint.requestParams ≠ .resumption next := by
  rcases List.append_of_mem hk with ⟨newer, older, rfl⟩
  have hs : (k :: older) <:+ newer ++ k :: older := ⟨newer, rfl⟩
  rcases (hlog.of_suffix hs).1.drawn with ⟨j, page, t, rfl, hdrawn⟩
  intro hparams
  rw [hdrawn] at hparams
  have hconsumed : (Chain.after token older).cursor.resumptionToken = some next := by
    revert hparams
    simp only [Job.checkpointOf, Job.params, buildListRecordsParams]
    split
    · rintro ⟨⟩
      assumption
    · intro h
      cases h
  have hfresh := Chain.fresh_of_accepted hlog
  refine hfresh.next hunfinished hsound (j.deployment.sha256 next.text) (by rw [hnext]; rfl) ?_
  refine (Chain.mem_consumed_iff hlog).2 ⟨k, older, hs, ?_⟩
  rw [hconsumed]
  rfl

/-- A chain that goes on has a token to go on with. -/
theorem next_of_unfinished {token : Option ResumptionToken} {log : List Commit} {k : Commit}
    (hunfinished : (Chain.after token log).cursor.finishedPaging = false) (hk : k ∈ log.head?) :
    k.checkpoint.nextResumptionToken.isSome = true := by
  cases log with
  | nil => cases hk
  | cons k older =>
      cases hk
      change k.checkpoint.nextResumptionToken.isNone = false at hunfinished
      rw [← Option.not_isNone, hunfinished]
      rfl

theorem exists_next {token : Option ResumptionToken} {log : List Commit} {k : Commit}
    (hunfinished : (Chain.after token log).cursor.finishedPaging = false) (hk : k ∈ log) :
    ∃ next, (Chain.after token log).cursor.resumptionToken = some next := by
  cases log with
  | nil => cases hk
  | cons last older => exact Option.isSome_iff_exists.1 (next_of_unfinished hunfinished rfl)

theorem sound_of_head {token : Option ResumptionToken} {log : List Commit} {k : Commit}
    (hsound : (Chain.after token log).error = none) (hk : k ∈ log.head?) :
    k.checkpoint.terminalErrorCategory = none := by
  cases log with
  | nil => cases hk
  | cons last older =>
      cases hk
      exact hsound

/-- Who fetches for the job stands at the end of a chain that goes on. -/
theorem Tended.fetching {harvestId : Uuid} {pre : History (fleet d)} {e : Event (fleet d)}
    (hT : Tended harvestId pre) (h : Orderly pre e) (hone : OneAtATime harvestId pre e)
    {call : ListRecordsCall} {r : Except Exn Unit}
    (ha : e.action = .op (.upstream (.listRecordsBegin call)) r)
    (hid : call.harvestId = harvestId) :
    ∃ st, st.Open ∧ call.pageIndex = st.cursor.pageIndex ∧
      (∀ token ∈ st.cursor.resumptionToken, call.params = .resumption token) ∧
        Reads d (startToken harvestId pre) (commits harvestId pre) (commits harvestId pre) st := by
  rcases h.stands.1 (.upstream (.listRecordsBegin call)) r ha with
    ⟨st, hst, hopen, hat, hindex, hparams⟩
  have hworks : worksAt? e = some harvestId := by
    simp only [worksAt?, ha, hid]
  refine ⟨st, hopen, hindex, hparams, ?_⟩
  exact hT.linked.reads hst (hat.symm.trans hid)
    (hT.upToDate e.pid st hst (hat.symm.trans hid) (hone hworks))

theorem Tended.fetchesNext {harvestId : Uuid} {pre : History (fleet d)} {e : Event (fleet d)}
    (hT : Tended harvestId pre) (h : Orderly pre e) (hone : OneAtATime harvestId pre e) :
    FetchesNext harvestId pre e := by
  refine ⟨?_, ?_⟩
  · intro call r ha hid
    rcases hT.fetching h hone ha hid with ⟨st, hopen, hindex, hparams, hreads⟩
    refine ⟨hindex.trans hreads.pageIndex_eq, ?_⟩
    intro k hk
    have hunfinished := hreads.finished_eq.symm.trans hopen.unfinished
    have hsound := hreads.error.symm.trans hopen.sound
    rcases exists_next hunfinished hk with ⟨next, hnext⟩
    rw [hparams next (hreads.token_eq.trans hnext)]
    exact params_ne hT.linked.accepted hunfinished hsound hk hnext
  · intro call r ha hid k hk
    rcases hT.fetching h hone ha hid with ⟨st, hopen, _, _, hreads⟩
    exact ⟨next_of_unfinished (hreads.finished_eq.symm.trans hopen.unfinished) hk,
      sound_of_head (hreads.error.symm.trans hopen.sound) hk⟩

/-! ## The theorem -/

/-- A job of which each page is committed exactly once, whoever crashes between. -/
structure CommitsOnce (harvestId : Uuid) (h : History (fleet d)) : Prop where
  durable : ∀ job, (stateAfter h).oai.job? harvestId = some job → job.status = .running →
    ∃ rows, Durable harvestId h job rows
  fetched : Throughout (FetchesNext harvestId) h

/-- In every run in which one process at a time works at the job, however many of them crash and
wherever, and in every state of it. -/
theorem commits_once (d : Deployment) (sched : List (Config.Choice (fleet d))) (harvestId : Uuid)
    (hone : Throughout (OneAtATime harvestId) (Config.after (fleet d) sched).history) :
    CommitsOnce harvestId (Config.after (fleet d) sched).history := by
  have hboth := (orderly_after d sched).and hone
  refine ⟨?_, ?_⟩
  · intro job hjob hrunning
    have hT := hboth.invariant (tended_nil harvestId) fun _ _ hT he => tended_step he.1 he.2 hT
    exact hT.durable hjob hrunning
  · exact Throughout.of_invariant (tended_nil harvestId)
      (fun pre e hT he => tended_step he.1 he.2 hT)
      (fun pre e hT he => hT.fetchesNext he.1 he.2) hboth

/-! ## A crash between two pages -/

instance instDecidableUndisturbed (harvestId : Uuid) (p : Nat) :
    (h : History (fleet d)) → Decidable (Undisturbed harvestId p h)
  | [] => isTrue trivial
  | e :: pre =>
      have := instDecidableUndisturbed harvestId p pre
      inferInstanceAs (Decidable (if e.pid = p then
        takesUp? e = some harvestId ∨ Undisturbed harvestId p pre
      else worksAt? e ≠ some harvestId ∧ Undisturbed harvestId p pre))

instance (harvestId : Uuid) (pre : History (fleet d)) (e : Event (fleet d)) :
    Decidable (OneAtATime harvestId pre e) :=
  inferInstanceAs (Decidable (worksAt? e = some harvestId → Undisturbed harvestId e.pid pre))

def firstToken : ResumptionToken :=
  { text := "a" }

def secondToken : ResumptionToken :=
  { text := "b" }

/-- A page with one deleted record, and the token of the next. -/
def pageBefore (next : ResumptionToken) : Input :=
  { page := .ok
      { records :=
          [{ oaiIdentifier := "oai:arXiv.org:2401.00001"
             metadataPrefix := .arXiv
             deleted := true }]
        responseDate := none
        resumptionToken := some next } }

/-- Process 0 commits the first page and crashes; process 1 takes the job up and commits the
second. -/
def resumedHarvest : List (Config.Choice (fleet {})) :=
  .start 0 (.harvestOai {}) :: runs 0 25 ++ .run 0 (pageBefore firstToken) :: runs 0 6 ++
    .crash 0 :: .tick 700000000 :: .start 1 (.harvestOai {}) :: runs 1 20 ++
    .run 1 (pageBefore secondToken) :: runs 1 6

set_option maxRecDepth 4000 in
theorem commits_once_resumed :
    CommitsOnce 3 (Config.after (fleet {}) resumedHarvest).history ∧
      ((Config.after (fleet {}) resumedHarvest).state.oai.job? 3).map
        (fun job => (job.status, job.pagesTotal)) = some (.running, 2) :=
  ⟨commits_once {} resumedHarvest 3 (by decide +kernel), by decide +kernel⟩

end Harvest
end Huldra
