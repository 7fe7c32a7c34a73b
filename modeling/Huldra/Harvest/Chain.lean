import Huldra.Harvest.Bounds
import Huldra.Harvest.Commits
import Huldra.Queue.Runs

/-!
# Chain — the pages of a job form one chain, whoever commits them

Processes crash, resume and fall behind; a job is walked by many of them.  The compare-and-swap of
`checkpoint_oai_page` keeps its commits a log of the abstract harvest: the pages follow each other
by their tokens, the row of the running job is what the abstract harvest has come to, and nothing
is committed after the last page or after a token error.  So a watermark that is written is the one
of the whole chain.
-/

namespace Huldra
namespace Harvest

open Process.System (Monitor Config Throughout Disciplined History Event Legal stateAfter)
open OaiTables

variable {d : Deployment}

/-! ## The log of a job -/

/-- The page of the job that the event commits. -/
def commit? (harvestId : Uuid) (e : Event (fleet d)) : Option Commit :=
  match e.action with
  | .op (.checkpointOaiPage c) _ =>
      if c.harvestId = harvestId ∧ e.after.oai.job? harvestId ≠ e.before.oai.job? harvestId then
        some
          { checkpoint := c
            counts := (e.before.library.upsertOaiRecords c.records c.timestamp).1 }
      else none
  | _ => none

def commits (harvestId : Uuid) (h : History (fleet d)) : List Commit :=
  h.filterMap (commit? harvestId)

/-- The token the job was created with. -/
def startToken (harvestId : Uuid) : History (fleet d) → Option ResumptionToken
  | [] => none
  | e :: pre =>
      match e.action with
      | .op (.oai (.createOaiHarvestJob _ token _)) _ =>
          if (e.before.oai.job? harvestId).isNone ∧ (e.after.oai.job? harvestId).isSome then token
          else startToken harvestId pre
      | _ => startToken harvestId pre

theorem commits_cons (harvestId : Uuid) (e : Event (fleet d)) (pre : History (fleet d)) :
    commits harvestId (e :: pre) = (commit? harvestId e).toList ++ commits harvestId pre := by
  unfold commits
  cases h : commit? harvestId e with
  | none => simp [h]
  | some k => simp [h]

section Operations

variable {o : Op} {t : Int} {r : Except Exn o.Res} {s s' : Store}

/-- A checkpoint changes nothing and is refused, or it matches the cursor and commits its page. -/
theorem checkpoint_effect {c : Checkpoint} {r : Except Exn (Nat × Nat × Nat)}
    (h : Store.Performed (.checkpointOaiPage c) t r s s') :
    (s'.oai = s.oai ∧ ∀ counts, r ≠ .ok counts) ∨
      (s.oai.matchesCursor c = true ∧
        s'.oai = s.oai.checkpointPage c (s.library.upsertOaiRecords c.records c.timestamp).1 ∧
          ∀ counts, r = .ok counts →
            counts = (s.library.upsertOaiRecords c.records c.timestamp).1) := by
  cases r with
  | ok counts =>
      right
      rcases h.of_ok with ⟨input, _, hexec⟩
      simp only [Store.exec, Store.checkpointOaiPage] at hexec
      split at hexec
      · rename_i hmatches
        have hcounts := Except.ok.inj (congrArg Prod.fst hexec)
        have hstate := congrArg (fun out => out.2.oai) hexec
        refine ⟨hmatches, hstate.symm, ?_⟩
        intro counts' hsame
        cases hsame
        exact hcounts.symm
      · cases congrArg Prod.fst hexec
  | error e =>
      rcases h.state with rfl | ⟨input, hstate⟩
      · exact Or.inl ⟨rfl, fun counts h => by cases h⟩
      · simp only [Store.exec, Store.checkpointOaiPage] at hstate
        split at hstate
        · rename_i hmatches
          exact Or.inr ⟨hmatches, by rw [hstate], fun counts h => by cases h⟩
        · exact Or.inl ⟨by rw [hstate], fun counts h => by cases h⟩

theorem job?_checkpointPage {tables : OaiTables} {c : Checkpoint} {harvestId : Uuid}
    {job : OaiJobRow} (counts : Nat × Nat × Nat) (hjob : tables.job? harvestId = some job) :
    (tables.checkpointPage c counts).job? harvestId =
      some (if job.harvestId = c.harvestId then c.advance counts job else job) := by
  have hkey : ∀ job : OaiJobRow, (c.advance counts job).harvestId = job.harvestId := by
    intro job
    unfold Checkpoint.advance
    split <;> rfl
  refine job?_updateJob hkey c.harvestId ?_
  rw [job?_congr (putPage_jobs c.page)]
  exact hjob

/-- What an operation makes of the tables of the harvests. -/
theorem oai_effect (h : Store.Performed o t r s s') : s'.oai = s.oai ∨
    (∃ o', o = .oai o' ∧ s'.oai = (o'.exec s.nextUuid s.oai).2) ∨
      ∃ c counts, o = .checkpointOaiPage c ∧ s.oai.matchesCursor c = true ∧
        s'.oai = s.oai.checkpointPage c counts := by
  cases o with
  | checkpointOaiPage c =>
      rcases checkpoint_effect h with ⟨hsame, _⟩ | ⟨hmatches, hpage, _⟩
      · exact Or.inl hsame
      · exact Or.inr (Or.inr ⟨c, _, rfl, hmatches, hpage⟩)
  | oai o =>
      rcases h.state with rfl | ⟨input, rfl⟩
      · exact Or.inl rfl
      · exact Or.inr (Or.inl ⟨o, rfl, rfl⟩)
  | initSchema =>
      left
      rcases h.state with rfl | ⟨input, rfl⟩
      · rfl
      · exact s.initSchema_oai
  | renewWorkerFetchOwnership requestId owner name ttl ids =>
      left
      rcases h.state with rfl | ⟨input, rfl⟩
      · rfl
      · simp only [Store.exec, Store.renewWorkerFetchOwnership]
        split
        · rfl
        · split
          · rfl
          · split <;> rfl
  | enqueueRefreshIfDue request cacheKey timeout current =>
      left
      rcases h.state with rfl | ⟨input, rfl⟩
      · rfl
      · simp only [Store.exec, Store.enqueueRefreshIfDue]
        split
        · rfl
        · split
          · rfl
          · split
            · rfl
            · split
              · split
                · split <;> rfl
                · rfl
              · rfl
  | _ =>
      left
      rcases h.state with rfl | ⟨input, rfl⟩ <;> rfl

/-- What an operation makes of the audit rows. -/
theorem pages_effect (h : Store.Performed o t r s s') : s'.oai.pages = s.oai.pages ∨
    (∃ page, o = .oai (.recordOaiPage page) ∧ s'.oai = s.oai.putPage page) ∨
      ∃ c counts, o = .checkpointOaiPage c ∧ s.oai.matchesCursor c = true ∧
        s'.oai = s.oai.checkpointPage c counts := by
  rcases oai_effect h with hsame | ⟨o', rfl, hexec⟩ | hcommitted
  · exact Or.inl (congrArg OaiTables.pages hsame)
  · cases o' with
    | recordOaiPage page => exact Or.inr (Or.inl ⟨page, rfl, hexec⟩)
    | ensureOaiHarvestDeadline harvestId deadlineAt timestamp =>
        left
        rw [hexec]
        simp only [OaiOp.exec, OaiTables.ensureOaiHarvestDeadline]
        split
        · rfl
        · split <;> rfl
    | recordOaiRequestStarted harvestId timestamp =>
        left
        rw [hexec]
        simp only [OaiOp.exec, OaiTables.recordOaiRequestStarted]
        split <;> rfl
    | _ =>
        left
        rw [hexec]
        rfl
  · exact Or.inr (Or.inr hcommitted)

theorem putPage_watermarks {t : OaiTables} (page : OaiPageRow) :
    (t.putPage page).watermarks = t.watermarks := by
  unfold putPage
  split <;> rfl

/-- What an operation makes of the watermarks. -/
theorem watermarks_effect (h : Store.Performed o t r s s') :
    s'.oai.watermarks = s.oai.watermarks ∨
      ∃ key lastResponseDate lastDatestampSeen harvestId timestamp,
        o = .oai (.setOaiWatermark key lastResponseDate lastDatestampSeen harvestId timestamp) ∧
          s'.oai = s.oai.setOaiWatermark key lastResponseDate lastDatestampSeen harvestId
            timestamp := by
  rcases oai_effect h with hsame | ⟨o', rfl, hexec⟩ | ⟨c, counts, _, _, hpage⟩
  · exact Or.inl (congrArg OaiTables.watermarks hsame)
  · cases o' with
    | setOaiWatermark key lastResponseDate lastDatestampSeen harvestId timestamp =>
        exact Or.inr ⟨_, _, _, _, _, rfl, hexec⟩
    | recordOaiPage page => exact Or.inl ((congrArg _ hexec).trans (putPage_watermarks page))
    | ensureOaiHarvestDeadline harvestId deadlineAt timestamp =>
        left
        rw [hexec]
        simp only [OaiOp.exec, OaiTables.ensureOaiHarvestDeadline]
        split
        · rfl
        · split <;> rfl
    | recordOaiRequestStarted harvestId timestamp =>
        left
        rw [hexec]
        simp only [OaiOp.exec, OaiTables.recordOaiRequestStarted]
        split <;> rfl
    | _ =>
        left
        rw [hexec]
        rfl
  · exact Or.inl ((congrArg _ hpage).trans (putPage_watermarks c.page))

/-! ## How a process moves -/

/-- Where a process stands after an operation of its own. -/
inductive Moved (x : Option Stand) (o : Op) (s s' : Store) : Stand → Prop
  | kept {st : Stand} (at_eq : x = some st) : Moved x o s s' st
  | found (row : OaiJobRow) (mem : s.oai.job? row.harvestId = some row)
      (running : row.status = .running) (oai_eq : s'.oai = s.oai) : Moved x o s s' (.ofRow row)
  | created (harvestId : Uuid) (request : OaiHarvestRequest) (token : Option ResumptionToken)
      (started : Int) (op_eq : o = .oai (.createOaiHarvestJob request token started))
      (absent : s.oai.job? harvestId = none)
      (job_eq : s'.oai.job? harvestId = some (newJob harvestId request token started)) :
      Moved x o s s'
        { harvestId := harvestId
          request := request
          cursor := { resumptionToken := token } }
  | informed (st : Stand) (at_eq : x = some st) (oai_eq : s'.oai = s.oai) :
      Moved x o s s'
        { st with
          cursor :=
            { st.cursor with
              consumedTokenHashes := s.oai.getOaiConsumedTokenHashes st.harvestId }
          informed := true }
  | counted (st : Stand) (timestamp : Int) (total : Nat) (at_eq : x = some st)
      (op_eq : ∃ harvestId, o = .oai (.recordOaiRequestStarted harvestId timestamp)) :
      Moved x o s s' { st with cursor := { st.cursor with requestsTotal := total } }
  | committed (st : Stand) (k : Commit) (at_eq : x = some st)
      (op_eq : o = .checkpointOaiPage k.checkpoint)
      (counts_eq : k.counts =
        (s.library.upsertOaiRecords k.checkpoint.records k.checkpoint.timestamp).1)
      (matched : s.oai.matchesCursor k.checkpoint = true)
      (oai_eq : s'.oai = s.oai.checkpointPage k.checkpoint k.counts) :
      Moved x o s s' (st.commit k.checkpoint k.counts)

theorem moved_of_step {x : Option Stand} {st : Stand} (hfiled : Filed s.nextUuid s.oai)
    (hallow : Stand.Allowed d x o) (h : Store.Performed o t r s s')
    (hst : Stand.step x o r = some st) : Moved x o s s' st := by
  cases o with
  | oai o =>
      cases o with
      | getRunningOaiHarvest request =>
          cases r with
          | error e => exact .kept hst
          | ok found =>
              cases found with
              | none => exact .kept hst
              | some row =>
                  rcases running_of_answer h with ⟨hfound, hsame⟩
                  rcases getRunningOaiHarvest_spec hfound with ⟨hmem, hrunning, _⟩
                  cases hst
                  exact .found row (job?_of_mem hfiled hmem) hrunning hsame
      | createOaiHarvestJob request token started =>
          cases r with
          | error e => exact .kept hst
          | ok harvestId =>
              rcases created_of_answer hfiled h with ⟨habsent, hjob⟩
              cases hst
              exact .created harvestId request token started rfl habsent hjob
      | getOaiConsumedTokenHashes harvestId =>
          cases r with
          | error e => exact .kept hst
          | ok hashes =>
              rcases hallow with ⟨stand, rfl, rfl⟩
              rcases h.of_ok with ⟨input, _, hexec⟩
              simp only [Store.exec, OaiOp.exec, Prod.mk.injEq, Except.ok.injEq] at hexec
              rcases hexec with ⟨rfl, hstate⟩
              cases hst
              exact .informed stand rfl (by rw [← hstate])
      | recordOaiRequestStarted harvestId timestamp =>
          cases r with
          | error e => exact .kept hst
          | ok total =>
              rcases Option.map_eq_some_iff.1 hst with ⟨stand, hx, rfl⟩
              exact .counted stand timestamp total hx ⟨harvestId, rfl⟩
      | _ => exact .kept hst
  | checkpointOaiPage c =>
      cases r with
      | error e => cases hst
      | ok counts =>
          rcases checkpoint_effect h with ⟨_, hrefused⟩ | ⟨hmatches, hpage, hcounts⟩
          · exact absurd rfl (hrefused counts)
          · rcases Option.map_eq_some_iff.1 hst with ⟨stand, hx, rfl⟩
            have hsame := hcounts counts rfl
            rw [← hsame] at hpage
            exact .committed stand ⟨c, counts⟩ hx rfl hsame hmatches hpage
  | _ => exact .kept hst

end Operations

/-! ## What every run keeps of a job -/

/-- The log of the job, and what is known of it. -/
structure Linked (harvestId : Uuid) (h : History (fleet d)) : Prop where
  accepted : Chain.Accepted d (startToken harvestId h) (commits harvestId h)
  /-- Before it is created, a job has no pages and nobody walks it. -/
  absent : (stateAfter h).oai.job? harvestId = none → commits harvestId h = [] ∧
    (∀ page ∈ (stateAfter h).oai.pages, page.harvestId ≠ harvestId) ∧
      ∀ p st, standOf p h = some st → st.harvestId ≠ harvestId
  row : ∀ job, (stateAfter h).oai.job? harvestId = some job → job.status = .running →
    Ends (startToken harvestId h) (commits harvestId h) job
  audited : Audited d (startToken harvestId h) (commits harvestId h) harvestId (stateAfter h).oai
  readers : ∀ p st, standOf p h = some st → st.harvestId = harvestId →
    (∀ job, (stateAfter h).oai.job? harvestId = some job → job.request = st.request) ∧
      ∃ older, Reads d (startToken harvestId h) (commits harvestId h) older st

theorem linked_nil (harvestId : Uuid) : Linked (d := d) harvestId [] where
  accepted := trivial
  absent _ := ⟨rfl, fun _ hpage => (nomatch hpage), fun _ _ hst => (nomatch hst)⟩
  row job hjob := by cases hjob
  audited :=
    { placed := by
        intro page hpage
        cases hpage
      covered := by
        intro k older hs
        cases List.suffix_nil.1 hs }
  readers p st hst := by cases hst

section Events

variable {pre : History (fleet d)} {e : Event (fleet d)} {o : Op} {r : Except Exn o.Res}
  {harvestId : Uuid}

/-- Who stands behind the last page has read them all. -/
theorem Linked.reads {h : History (fleet d)} (hI : Linked harvestId h) {p : Nat} {st : Stand}
    (hst : standOf p h = some st) (hat : st.harvestId = harvestId)
    (hlast : st.cursor.pageIndex = (commits harvestId h).length) :
    Reads d (startToken harvestId h) (commits harvestId h) (commits harvestId h) st := by
  rcases hI.readers p st hst hat with ⟨_, older, hreads⟩
  have hall := Process.Log.eq_of_length hreads.suffix List.suffix_rfl
    (hreads.pageIndex_eq.symm.trans hlast)
  subst hall
  exact hreads

/-- An operation of a run, asked for from where the process stands. -/
structure Turn (pre : History (fleet d)) (e : Event (fleet d)) (o : Op) (r : Except Exn o.Res) :
    Prop where
  action : e.action = .op o r
  performed : Store.Performed o e.time r (stateAfter pre) e.after
  before_eq : e.before = stateAfter pre
  filed : Filed (stateAfter pre).nextUuid (stateAfter pre).oai
  allowed : Stand.Allowed d (standOf e.pid pre) o

namespace Turn

theorem effect (he : Turn pre e o r) :
    JobsEffect o (stateAfter pre).nextUuid (stateAfter pre).oai e.after.oai :=
  (jobsStep_of_performed he.filed he.performed).effect

theorem completes (he : Turn pre e o r) (c : Completion)
    (ho : o = .oai (.completeOaiHarvestJob c)) :
    c.status ≠ .running := by
  have hallow := he.allowed
  subst ho
  rcases hallow with ⟨_, _, _, hstatus, _⟩
  exact hstatus

/-- The start token of a job that is there does not change. -/
theorem startToken_eq (he : Turn pre e o r) (harvestId : Uuid)
    (hthere : ((stateAfter pre).oai.job? harvestId).isSome = true) :
    startToken harvestId (e :: pre) = startToken harvestId pre := by
  have hsome : e.before.oai.job? harvestId ≠ none := by
    rw [he.before_eq]
    intro hnone
    rw [hnone] at hthere
    cases hthere
  rw [startToken]
  split
  · rw [if_neg]
    rintro ⟨hnone, _⟩
    exact hsome (Option.isNone_iff_eq_none.1 hnone)
  · rfl

/-- That of a new job is the one it is created with. -/
theorem startToken_created (he : Turn pre e o r) {request : OaiHarvestRequest}
    {token : Option ResumptionToken} {started : Int}
    (ho : o = .oai (.createOaiHarvestJob request token started))
    (hnone : (stateAfter pre).oai.job? harvestId = none) {job' : OaiJobRow}
    (hjob' : e.after.oai.job? harvestId = some job') : startToken harvestId (e :: pre) = token := by
  subst ho
  rw [startToken]
  simp only [he.action]
  rw [if_pos]
  rw [he.before_eq, hnone, hjob']
  exact ⟨rfl, rfl⟩

/-- Where the row of the job stays, nothing was committed. -/
theorem commit?_of_same (he : Turn pre e o r) (harvestId : Uuid)
    (hsame : e.after.oai.job? harvestId = (stateAfter pre).oai.job? harvestId) :
    commit? harvestId e = none := by
  unfold commit?
  split
  · rw [if_neg]
    rintro ⟨_, hne⟩
    rw [he.before_eq] at hne
    exact hne hsame
  · rfl

theorem commit?_of_ne (he : Turn pre e o r) (hne : ∀ c, o = .checkpointOaiPage c →
    c.harvestId ≠ harvestId) : commit? harvestId e = none := by
  unfold commit?
  rw [he.action]
  split
  · rename_i c r' hact
    rw [if_neg]
    rintro ⟨hid, _⟩
    cases hact
    exact hne c rfl hid
  · rfl

/-- A checkpoint that matches commits its page. -/
theorem commit?_of_matched (he : Turn pre e o r) {c : Checkpoint} (ho : o = .checkpointOaiPage c)
    (hmatches : (stateAfter pre).oai.matchesCursor c = true)
    (hpage : e.after.oai = (stateAfter pre).oai.checkpointPage c
      ((stateAfter pre).library.upsertOaiRecords c.records c.timestamp).1) :
    commit? c.harvestId e = some
      { checkpoint := c
        counts := ((stateAfter pre).library.upsertOaiRecords c.records c.timestamp).1 } := by
  cases hjob : (stateAfter pre).oai.job? c.harvestId with
  | none => simp [matchesCursor, hjob] at hmatches
  | some job =>
      have hmatched := hmatches
      simp only [matchesCursor, hjob, Bool.and_eq_true, decide_eq_true_eq] at hmatched
      have hafter := job?_checkpointPage (c := c)
        ((stateAfter pre).library.upsertOaiRecords c.records c.timestamp).1 hjob
      rw [if_pos (job?_harvestId hjob), ← hpage] at hafter
      have hne : e.after.oai.job? c.harvestId ≠ e.before.oai.job? c.harvestId := by
        rw [he.before_eq, hjob, hafter]
        intro hsame
        have hpages := congrArg OaiJobRow.pagesTotal (Option.some.inj hsame)
        simp only [Checkpoint.advance, hmatched.1.1, if_true, hmatched.1.2] at hpages
        omega
      subst ho
      unfold commit?
      rw [he.action]
      simp only
      rw [if_pos ⟨trivial, hne⟩, he.before_eq]

/-- The process that asks for it moves; the others stand where they stood. -/
theorem stand_cases (he : Turn pre e o r) {p : Nat} {st : Stand}
    (hst : standOf p (e :: pre) = some st) :
    standOf p pre = some st ∨
      (e.pid = p ∧ Moved (standOf e.pid pre) o (stateAfter pre) e.after st) := by
  by_cases hp : e.pid = p
  · subst hp
    rw [standOf_of_op pre he.action] at hst
    exact Or.inr ⟨rfl, moved_of_step he.filed he.allowed he.performed hst⟩
  · rw [standOf_of_ne pre hp] at hst
    exact Or.inl hst

/-- A checkpoint is drawn up by a process that stands at its job. -/
theorem stands_at (he : Turn pre e o r) {c : Checkpoint} (ho : o = .checkpointOaiPage c) :
    ∃ st, standOf e.pid pre = some st ∧ st.harvestId = c.harvestId ∧ st.Open ∧
      ∃ (j : Job) (page : OaiPmhPage) (t : Int),
        j.deployment = d ∧ c = j.checkpointOf st.cursor page t := by
  have hallow := he.allowed
  subst ho
  rcases hallow with ⟨st, hst, hopen, j, page, t, hdeployment, hid, rfl⟩
  exact ⟨st, hst, hid.symm, hopen, j, page, t, hdeployment, rfl⟩

end Turn

/-! ### A job that is not there -/

theorem linked_of_absent {h : History (fleet d)} (hcommits : commits harvestId h = [])
    (hjob : (stateAfter h).oai.job? harvestId = none)
    (hpages : ∀ page ∈ (stateAfter h).oai.pages, page.harvestId ≠ harvestId)
    (hstands : ∀ p st, standOf p h = some st → st.harvestId ≠ harvestId) :
    Linked harvestId h where
  accepted := by
    rw [hcommits]
    trivial
  absent _ := ⟨hcommits, hpages, hstands⟩
  row job hsome := by
    rw [hjob] at hsome
    cases hsome
  audited :=
    { placed := fun page hpage hid => absurd hid (hpages page hpage)
      covered := by
        intro k older hs
        rw [hcommits] at hs
        cases List.suffix_nil.1 hs }
  readers p st hst hid := absurd hid (hstands p st hst)

theorem Turn.pages_absent (he : Turn pre e o r) (hI : Linked harvestId pre)
    (hnone : (stateAfter pre).oai.job? harvestId = none) :
    ∀ page ∈ e.after.oai.pages, page.harvestId ≠ harvestId := by
  rcases hI.absent hnone with ⟨_, hpages, hstands⟩
  intro p hp hid
  rcases pages_effect he.performed with hsame | ⟨page, ho, hput⟩ | ⟨c, counts, _, hmatches, hpage⟩
  · rw [hsame] at hp
    exact hpages p hp hid
  · rw [hput] at hp
    rcases mem_putPage hp with hold | ⟨hsame, _⟩
    · exact hpages p hold hid
    · have hallow := he.allowed
      subst ho
      rcases hallow with ⟨st, hst, hat, _⟩
      exact hstands e.pid st hst (hat.symm.trans (hsame.symm.trans hid))
  · rw [hpage] at hp
    rcases mem_putPage hp with hold | ⟨hsame, _⟩
    · exact hpages p hold hid
    · -- A checkpoint that matches is one of a job that is there.
      have hat : c.harvestId = harvestId := hsame.symm.trans hid
      simp [matchesCursor, hat, hnone] at hmatches

theorem Turn.linked_absent (he : Turn pre e o r) (hI : Linked harvestId pre)
    (hnone : (stateAfter pre).oai.job? harvestId = none)
    (hnone' : e.after.oai.job? harvestId = none) : Linked harvestId (e :: pre) := by
  rcases hI.absent hnone with ⟨hcommits, _, hstands⟩
  refine linked_of_absent ?_ hnone' (he.pages_absent hI hnone) ?_
  · rw [commits_cons, he.commit?_of_same harvestId (hnone'.trans hnone.symm), hcommits]
    rfl
  · intro p st hst hid
    rcases he.stand_cases hst with hold | ⟨_, hmoved⟩
    · exact hstands p st hold hid
    · cases hmoved with
      | kept hat => exact hstands e.pid st hat hid
      | found row hmem _ _ =>
          change row.harvestId = harvestId at hid
          rw [hid, hnone] at hmem
          cases hmem
      | created id request token started _ _ hjob =>
          change id = harvestId at hid
          rw [hid, hnone'] at hjob
          cases hjob
      | informed st hat _ => exact hstands e.pid st hat hid
      | counted st timestamp total hat _ => exact hstands e.pid st hat hid
      | committed st k hat _ _ _ _ => exact hstands e.pid st hat hid

/-! ### A new job -/

theorem Turn.linked_created (he : Turn pre e o r) (hI : Linked harvestId pre)
    (hnone : (stateAfter pre).oai.job? harvestId = none) {job' : OaiJobRow}
    (hjob' : e.after.oai.job? harvestId = some job') : Linked harvestId (e :: pre) := by
  rcases hI.absent hnone with ⟨hcommits, _, hstands⟩
  rcases he.effect.fresh harvestId job' hnone hjob' with
    ⟨hid, request, token, started, rfl, hrow⟩
  have hempty : commits harvestId (e :: pre) = [] := by
    rw [commits_cons, he.commit?_of_ne (fun c h => by cases h), hcommits]
    rfl
  have htoken := he.startToken_created rfl hnone hjob'
  refine ⟨?_, ?_, ?_, ?_, ?_⟩
  · rw [hempty]
    trivial
  · intro hgone
    change e.after.oai.job? harvestId = none at hgone
    rw [hjob'] at hgone
    cases hgone
  · intro job hjob _
    change e.after.oai.job? harvestId = some job at hjob
    rw [hjob'] at hjob
    cases hjob
    rw [hempty, htoken, hrow]
    exact ends_newJob _ request started
  · refine ⟨fun page hpage hat => absurd hat (he.pages_absent hI hnone page hpage), ?_⟩
    intro k older hs
    rw [hempty] at hs
    cases List.suffix_nil.1 hs
  · intro p st hst hat
    rcases he.stand_cases hst with hold | ⟨_, hmoved⟩
    · exact absurd hat (hstands p st hold)
    · cases hmoved with
      | kept hx => exact absurd hat (hstands e.pid st hx)
      | found row hmem _ _ =>
          change row.harvestId = harvestId at hat
          rw [hat, hnone] at hmem
          cases hmem
      | created id request' token' started' hop _ hnew =>
          cases hop
          change id = harvestId at hat
          subst hat
          refine ⟨?_, [], ?_⟩
          · intro job hjob
            change e.after.oai.job? id = some job at hjob
            rw [hnew] at hjob
            cases hjob
            rfl
          · rw [hempty, htoken]
            exact ⟨List.suffix_rfl, rfl, rfl, (fun h => by cases h), fun _ h => by cases h⟩
      | informed st hx _ => exact absurd hat (hstands e.pid st hx)
      | counted st timestamp total hx _ => exact absurd hat (hstands e.pid st hx)
      | committed st k hx _ _ _ _ => exact absurd hat (hstands e.pid st hx)

/-! ### A commit -/

theorem Ends.pageIndex_eq {token : Option ResumptionToken} {log : List Commit} {row : OaiJobRow}
    (h : Ends token log row) : row.pagesTotal = log.length := by
  have hplace := h.place
  simp only [Cursor.place, Stand.ofRow, Cursor.mk.injEq] at hplace
  exact hplace.2.1.trans (Chain.pageIndex_after log)

/-- A checkpoint that matches is the next page of the chain, and the process that commits it has
seen the whole chain. -/
theorem Turn.accepts (he : Turn pre e o r) (hI : Linked harvestId pre) {c : Checkpoint}
    (ho : o = .checkpointOaiPage c) (hid : c.harvestId = harvestId)
    (hmatches : (stateAfter pre).oai.matchesCursor c = true) (counts : Nat × Nat × Nat) :
    (Chain.after (startToken harvestId pre) (commits harvestId pre)).Accepts d ⟨c, counts⟩ ∧
      ∃ st, standOf e.pid pre = some st ∧ st.informed = true ∧
        Reads d (startToken harvestId pre) (commits harvestId pre) (commits harvestId pre) st := by
  rcases he.stands_at ho with ⟨st, hst, hat, hopen, j, page, t, hdeployment, hc⟩
  rcases hI.readers e.pid st hst (hat.trans hid) with ⟨_, older, hreads⟩
  cases hjob : (stateAfter pre).oai.job? harvestId with
  | none => simp [matchesCursor, hid, hjob] at hmatches
  | some job =>
      simp only [matchesCursor, hid, hjob, Bool.and_eq_true, decide_eq_true_eq] at hmatches
      have hends := hI.row job hjob hmatches.1.1
      have hlength : older.length = (commits harvestId pre).length := by
        have hpage : c.pageIndex = st.cursor.pageIndex := by
          rw [hc]
          rfl
        rw [← hends.pageIndex_eq, ← hreads.pageIndex_eq, ← hpage, hmatches.1.2]
      have hall := Process.Log.eq_of_length hreads.suffix List.suffix_rfl hlength
      subst hall
      refine ⟨⟨?_, ?_, j, page, t, hdeployment, ?_⟩, st, hst, hopen.informed, hreads⟩
      · rw [← hreads.finished_eq]
        exact hopen.unfinished
      · rw [← hreads.error]
        exact hopen.sound
      · show c = _
        rw [hc]
        exact hreads.checkpoint_eq hI.accepted hopen.informed hdeployment page t

theorem Turn.linked_committed (he : Turn pre e o r) (hI : Linked harvestId pre) {c : Checkpoint}
    (ho : o = .checkpointOaiPage c) (hid : c.harvestId = harvestId)
    (hmatches : (stateAfter pre).oai.matchesCursor c = true)
    (hpage : e.after.oai = (stateAfter pre).oai.checkpointPage c
      ((stateAfter pre).library.upsertOaiRecords c.records c.timestamp).1) :
    Linked harvestId (e :: pre) := by
  rcases he.accepts hI ho hid hmatches
    ((stateAfter pre).library.upsertOaiRecords c.records c.timestamp).1 with
    ⟨haccepts, stand, hstand, hinformed, hreads⟩
  have hcommit := he.commit?_of_matched ho hmatches hpage
  rw [hid] at hcommit
  cases hjob : (stateAfter pre).oai.job? harvestId with
  | none => simp [matchesCursor, hid, hjob] at hmatches
  | some job =>
      have hmatched := hmatches
      simp only [matchesCursor, hid, hjob, Bool.and_eq_true, decide_eq_true_eq] at hmatched
      have hrunning : job.status = .running := hmatched.1.1
      have htoken := he.startToken_eq harvestId (by rw [hjob]; rfl)
      have hcommits : commits harvestId (e :: pre) =
          ⟨c, ((stateAfter pre).library.upsertOaiRecords c.records c.timestamp).1⟩ ::
            commits harvestId pre := by
        rw [commits_cons, hcommit]
        rfl
      have hafter := job?_checkpointPage (c := c)
        ((stateAfter pre).library.upsertOaiRecords c.records c.timestamp).1 hjob
      rw [if_pos ((job?_harvestId hjob).trans hid.symm), ← hpage] at hafter
      have hconsumed := haccepts.consumed_eq
      have hindex : c.pageIndex = (commits harvestId pre).length :=
        hmatched.1.2.symm.trans (hI.row job hjob hrunning).pageIndex_eq
      refine ⟨?_, ?_, ?_, ?_, ?_⟩
      · rw [hcommits, htoken]
        exact ⟨haccepts, hI.accepted⟩
      · intro hgone
        change e.after.oai.job? harvestId = none at hgone
        rw [hafter] at hgone
        cases hgone
      · intro job' hjob' _
        change e.after.oai.job? harvestId = some job' at hjob'
        rw [hafter] at hjob'
        cases hjob'
        rw [hcommits, htoken]
        exact (hI.row job hjob hrunning).advance haccepts hrunning
      · rw [hcommits, htoken]
        have hput := hI.audited.put c.page fun _ =>
          ⟨_, List.suffix_rfl, hindex, hconsumed⟩
        have hpages : e.after.oai.pages = ((stateAfter pre).oai.putPage c.page).pages := by
          rw [hpage]
          rfl
        refine (hput.commit ?_).of_pages hpages
        rcases exists_putPage (stateAfter pre).oai c.page with ⟨p, hp, hpid, hpindex⟩
        exact ⟨p, hp, hpid.trans hid, hpindex.trans hindex⟩
      · intro p st hst hat
        rw [hcommits, htoken]
        have hold : ∀ q, standOf q pre = some st →
            (∀ job', e.after.oai.job? harvestId = some job' → job'.request = st.request) ∧
              ∃ older, Reads d (startToken harvestId pre)
                (⟨c, ((stateAfter pre).library.upsertOaiRecords c.records c.timestamp).1⟩ ::
                  commits harvestId pre) older st := by
          intro q hq
          rcases hI.readers q st hq hat with ⟨hrequest, older, hreads'⟩
          refine ⟨?_, older, hreads'.mono _⟩
          intro job' hjob'
          rw [hafter] at hjob'
          cases hjob'
          rw [← hrequest job hjob]
          simp [Checkpoint.advance, hrunning]
        rcases he.stand_cases hst with hsame | ⟨_, hmoved⟩
        · exact hold p hsame
        · subst ho
          cases hmoved with
          | kept hx => exact hold e.pid hx
          | found row _ _ hsame =>
              have hnone := he.commit?_of_same harvestId
                (congrArg (fun t : OaiTables => t.job? harvestId) hsame)
              rw [hnone] at hcommit
              cases hcommit
          | created id request token started hop _ _ => cases hop
          | informed st₀ _ hsame =>
              have hnone := he.commit?_of_same harvestId
                (congrArg (fun t : OaiTables => t.job? harvestId) hsame)
              rw [hnone] at hcommit
              cases hcommit
          | counted st₀ timestamp total _ hop =>
              rcases hop with ⟨_, hop⟩
              cases hop
          | committed st₀ k hx hop hcounts _ _ =>
              have hc : c = k.checkpoint := by
                cases hop
                rfl
              have hk : k =
                  ⟨c, ((stateAfter pre).library.upsertOaiRecords c.records c.timestamp).1⟩ := by
                rw [hc, ← hcounts]
              subst hk
              rw [hstand] at hx
              cases hx
              refine ⟨?_, _, hreads.commit hinformed hconsumed⟩
              intro job' hjob'
              change e.after.oai.job? harvestId = some job' at hjob'
              rw [hafter] at hjob'
              cases hjob'
              have hrequest := (hI.readers e.pid stand hstand hat).1 job hjob
              simpa [Checkpoint.advance, hrunning, Stand.commit] using hrequest

/-! ### An operation that commits nothing -/

/-- An operation that moves the row of a job otherwise leaves it at the end of its chain. -/
theorem Turn.row_kept (he : Turn pre e o r) (hI : Linked harvestId pre) {job job' : OaiJobRow}
    (hjob : (stateAfter pre).oai.job? harvestId = some job)
    (hjob' : e.after.oai.job? harvestId = some job')
    (huncommitted : ∀ c, o = .checkpointOaiPage c → c.harvestId = harvestId →
      e.after.oai = (stateAfter pre).oai) (hrunning : job'.status = .running) :
    Ends (startToken harvestId pre) (commits harvestId pre) job' := by
  rcases he.effect.rows harvestId job hjob with ⟨job'', hjob'', heffect⟩
  rw [hjob'] at hjob''
  cases hjob''
  have hwas := (heffect.running he.completes hrunning).1
  have hends := hI.row job hjob hwas
  cases heffect with
  | kept => exact hends
  | dated deadlineAt timestamp hop => exact hends.congr rfl rfl
  | counted timestamp hop _ => exact hends.congr rfl rfl
  | committed c counts hop hid _ _ _ =>
      have hsame := huncommitted c hop (hid.trans (job?_harvestId hjob))
      rw [hsame, hjob] at hjob'
      rw [← Option.some.inj hjob']
      exact hends
  | completed c hop hid => exact absurd hrunning (he.completes c hop)

theorem Turn.audited_kept (he : Turn pre e o r) (hI : Linked harvestId pre)
    (huncommitted : ∀ c, o = .checkpointOaiPage c → c.harvestId = harvestId →
      e.after.oai = (stateAfter pre).oai) :
    Audited d (startToken harvestId pre) (commits harvestId pre) harvestId e.after.oai := by
  rcases pages_effect he.performed with hsame | ⟨page, ho, hput⟩ | ⟨c, counts, ho, _, hpage⟩
  · exact hI.audited.of_pages hsame
  · rw [hput]
    refine hI.audited.put _ fun hid => ?_
    have hallow := he.allowed
    subst ho
    rcases hallow with ⟨st, hst, hat, hindex, hhash, _⟩
    rcases hI.readers e.pid st hst (hat.symm.trans hid) with ⟨_, older, hreads⟩
    refine ⟨older, hreads.suffix, hindex.trans hreads.pageIndex_eq, ?_⟩
    rw [hhash, hreads.token_eq]
  · by_cases hid : c.harvestId = harvestId
    · rw [huncommitted c ho hid]
      exact hI.audited
    · rw [hpage]
      refine (hI.audited.put c.page fun hat => absurd hat hid).of_pages ?_
      rfl

theorem Turn.readers_kept (he : Turn pre e o r) (hI : Linked harvestId pre) {job job' : OaiJobRow}
    (hjob : (stateAfter pre).oai.job? harvestId = some job)
    (hjob' : e.after.oai.job? harvestId = some job')
    (huncommitted : ∀ c, o = .checkpointOaiPage c → c.harvestId = harvestId →
      e.after.oai = (stateAfter pre).oai) {p : Nat} {st : Stand}
    (hst : standOf p (e :: pre) = some st) (hat : st.harvestId = harvestId) :
    job'.request = st.request ∧
      ∃ older, Reads d (startToken harvestId pre) (commits harvestId pre) older st := by
  rcases he.effect.rows harvestId job hjob with ⟨job'', hjob'', heffect⟩
  rw [hjob'] at hjob''
  cases hjob''
  have hrequest := heffect.request_eq
  have hold : ∀ q st, standOf q pre = some st → st.harvestId = harvestId →
      job'.request = st.request ∧
        ∃ older, Reads d (startToken harvestId pre) (commits harvestId pre) older st := by
    intro q st hq hat
    rcases hI.readers q st hq hat with ⟨hsame, hreads⟩
    exact ⟨hrequest.trans (hsame job hjob), hreads⟩
  rcases he.stand_cases hst with hsame | ⟨_, hmoved⟩
  · exact hold p st hsame hat
  · cases hmoved with
    | kept hx => exact hold e.pid st hx hat
    | found row hmem hrunning _ =>
        change row.harvestId = harvestId at hat
        rw [hat, hjob] at hmem
        cases hmem
        exact ⟨hrequest, _, Reads.of_row (hI.row job hjob hrunning)⟩
    | created id request token started _ habsent _ =>
        change id = harvestId at hat
        rw [hat, hjob] at habsent
        cases habsent
    | informed st₀ hx _ =>
        rcases hold e.pid st₀ hx hat with ⟨hsame, older, hreads⟩
        have hat' : st₀.harvestId = harvestId := hat
        subst hat'
        exact ⟨hsame, older, hreads.inform hI.accepted hI.audited⟩
    | counted st₀ timestamp total hx _ =>
        rcases hold e.pid st₀ hx hat with ⟨hsame, older, hreads⟩
        exact ⟨hsame, older, hreads.count total⟩
    | committed st₀ k hx hop _ hmatches hpage =>
        -- A checkpoint that the store accepts is a commit.
        exfalso
        rcases he.stands_at hop with ⟨stand, hstand, hid, _⟩
        rw [hstand] at hx
        cases hx
        have hid' : k.checkpoint.harvestId = harvestId := hid.symm.trans hat
        have hsame := huncommitted k.checkpoint hop hid'
        have hafter := job?_checkpointPage (c := k.checkpoint) k.counts hjob
        rw [← hpage, hsame, hjob, if_pos ((job?_harvestId hjob).trans hid'.symm)] at hafter
        simp only [matchesCursor, hid', hjob, Bool.and_eq_true, decide_eq_true_eq] at hmatches
        have hpages := congrArg OaiJobRow.pagesTotal (Option.some.inj hafter)
        simp only [Checkpoint.advance, hmatches.1.1, if_true, hmatches.1.2] at hpages
        omega

theorem Turn.linked_kept (he : Turn pre e o r) (hI : Linked harvestId pre) {job : OaiJobRow}
    (hjob : (stateAfter pre).oai.job? harvestId = some job)
    (huncommitted : ∀ c, o = .checkpointOaiPage c → c.harvestId = harvestId →
      e.after.oai = (stateAfter pre).oai) : Linked harvestId (e :: pre) := by
  have htoken := he.startToken_eq harvestId (by rw [hjob]; rfl)
  have hnone : commit? harvestId e = none := by
    by_cases hcommits : ∃ c, o = .checkpointOaiPage c ∧ c.harvestId = harvestId
    · rcases hcommits with ⟨c, ho, hid⟩
      rw [he.commit?_of_same harvestId]
      rw [huncommitted c ho hid]
    · exact he.commit?_of_ne fun c ho hid => hcommits ⟨c, ho, hid⟩
  have hcommits : commits harvestId (e :: pre) = commits harvestId pre := by
    rw [commits_cons, hnone]
    rfl
  rcases he.effect.rows harvestId job hjob with ⟨job₁, hjob₁, _⟩
  refine ⟨?_, ?_, ?_, ?_, ?_⟩
  · rw [hcommits, htoken]
    exact hI.accepted
  · intro hgone
    change e.after.oai.job? harvestId = none at hgone
    rw [hjob₁] at hgone
    cases hgone
  · intro job' hjob' hrunning
    rw [hcommits, htoken]
    exact he.row_kept hI hjob hjob' huncommitted hrunning
  · rw [hcommits, htoken]
    exact he.audited_kept hI huncommitted
  · intro p st hst hat
    rw [hcommits, htoken]
    have hkept := he.readers_kept hI hjob hjob₁ huncommitted hst hat
    refine ⟨?_, hkept.2⟩
    intro job' hjob'
    change e.after.oai.job? harvestId = some job' at hjob'
    rw [hjob₁] at hjob'
    cases hjob'
    exact hkept.1

/-- One operation keeps the log of every job. -/
theorem Turn.linked (he : Turn pre e o r) (hI : Linked harvestId pre) :
    Linked harvestId (e :: pre) := by
  cases hjob : (stateAfter pre).oai.job? harvestId with
  | none =>
      cases hjob' : e.after.oai.job? harvestId with
      | none => exact he.linked_absent hI hjob hjob'
      | some job' => exact he.linked_created hI hjob hjob'
  | some job =>
      by_cases hcommits : ∃ c, o = .checkpointOaiPage c ∧ c.harvestId = harvestId ∧
          e.after.oai ≠ (stateAfter pre).oai
      · rcases hcommits with ⟨c, ho, hid, hmoved⟩
        subst ho
        rcases checkpoint_effect he.performed with ⟨hsame, _⟩ | ⟨hmatches, hpage, _⟩
        · exact absurd hsame hmoved
        · exact he.linked_committed hI rfl hid hmatches hpage
      · refine he.linked_kept hI hjob fun c ho hid => ?_
        by_contra hmoved
        exact hcommits ⟨c, ho, hid, hmoved⟩

theorem startToken_idle (ha : ∀ o r, e.action ≠ .op o r) (harvestId : Uuid) :
    startToken harvestId (e :: pre) = startToken harvestId pre := by
  rw [startToken]
  split
  · rename_i r hact
    exact absurd hact (ha _ r)
  · rfl

/-- An event that is no operation takes its process away from where it stood. -/
theorem linked_idle (hI : Linked harvestId pre) (hstate : e.after = stateAfter pre)
    (ha : ∀ o r, e.action ≠ .op o r) : Linked harvestId (e :: pre) := by
  have hcommit : commit? harvestId e = none := by
    unfold commit?
    split
    · rename_i c r hact
      exact absurd hact (ha _ r)
    · rfl
  have hcommits : commits harvestId (e :: pre) = commits harvestId pre := by
    rw [commits_cons, hcommit]
    rfl
  have htoken : startToken harvestId (e :: pre) = startToken harvestId pre :=
    startToken_idle ha harvestId
  have hstands : ∀ p st, standOf p (e :: pre) = some st → standOf p pre = some st := by
    intro p st hst
    by_cases hp : e.pid = p
    · subst hp
      cases hact : e.action with
      | start c =>
          rw [standOf_of_start pre hact] at hst
          cases hst
      | op o r => exact absurd hact (ha o r)
      | crash =>
          rw [standOf_of_crash pre hact] at hst
          cases hst
    · rw [standOf_of_ne pre hp] at hst
      exact hst
  have hsame : stateAfter (e :: pre) = stateAfter pre := hstate
  refine ⟨?_, ?_, ?_, ?_, ?_⟩
  · rw [hcommits, htoken]
    exact hI.accepted
  · rw [hcommits, hsame]
    intro hnone
    rcases hI.absent hnone with ⟨hempty, hpages, hreaders⟩
    exact ⟨hempty, hpages, fun p st hst => hreaders p st (hstands p st hst)⟩
  · rw [hcommits, htoken, hsame]
    exact hI.row
  · rw [hcommits, htoken, hsame]
    exact hI.audited
  · rw [hcommits, htoken, hsame]
    exact fun p st hst => hI.readers p st (hstands p st hst)

/-- What every event of a run is, and finds kept. -/
structure Orderly (pre : History (fleet d)) (e : Event (fleet d)) : Prop where
  legal : Legal pre e
  filed : Filed (stateAfter pre).nextUuid (stateAfter pre).oai
  stands : Disciplined (stands d) (standMonitor : Monitor (fleet d) (Option Stand)).view pre e

theorem Orderly.turn (h : Orderly pre e) (ha : e.action = .op o r) : Turn pre e o r where
  action := ha
  performed := Queue.performed_of_op h.legal ha
  before_eq := h.legal.before_eq
  filed := h.filed
  allowed := h.stands.1 o r ha

theorem linked_step (h : Orderly pre e) (hI : Linked harvestId pre) :
    Linked harvestId (e :: pre) := by
  by_cases ha : ∃ o r, e.action = .op o r
  · rcases ha with ⟨o, r, ha⟩
    exact (h.turn ha).linked hI
  · have ha' : ∀ o r, e.action ≠ .op o r := fun o r h => ha ⟨o, r, h⟩
    exact linked_idle hI (Queue.after_eq_of_not_op h.legal ha') ha'

end Events

theorem orderly_after (d : Deployment) (sched : List (Config.Choice (fleet d))) :
    Throughout Orderly (Config.after (fleet d) sched).history := by
  have hlegal := (Config.legal_after (fleet d) sched).and (walks_after d sched)
  refine (hlegal.with_past.and (stands_after d sched)).mono ?_
  rintro pre e ⟨⟨⟨hlegal, _⟩, hpast⟩, hstands⟩
  have haccounted := hpast.invariant accounted_nil fun _ _ hA h => accounted_step h.1 h.2 hA
  exact ⟨hlegal, haccounted.placed.filed, hstands⟩

theorem linked_of_orderly {h : History (fleet d)} (horderly : Throughout Orderly h)
    (harvestId : Uuid) : Linked harvestId h :=
  horderly.invariant (linked_nil harvestId) fun _ _ hI he => linked_step he hI

/-! ## What the chain adds up to -/

section Sums

variable {token : Option ResumptionToken} {log older : List Commit}

/-- The token the next page is asked for with. -/
def nextToken (token : Option ResumptionToken) : List Commit → Option ResumptionToken
  | [] => token
  | k :: _ => k.checkpoint.nextResumptionToken

/-- The last page was committed, and without an error. -/
def ChainEnded (log : List Commit) : Prop :=
  ∃ k older, log = k :: older ∧ k.checkpoint.nextResumptionToken = none ∧
    k.checkpoint.terminalErrorCategory = none

/-- All records of the pages, in the order in which they were committed. -/
def recordsOf (log : List Commit) : List OaiRecord :=
  log.reverse.flatMap fun k => k.checkpoint.records

theorem recordsOf_cons (k : Commit) (log : List Commit) :
    recordsOf (k :: log) = recordsOf log ++ k.checkpoint.records := by
  simp [recordsOf]

/-- The counts of a page are those of its records. -/
def Commit.Counted (k : Commit) : Prop :=
  k.counts = (k.checkpoint.records.length, k.checkpoint.records.countP LibraryTables.liveRecord,
    k.checkpoint.records.countP (·.deleted))

theorem counted_of_mem {harvestId : Uuid} {h : History (fleet d)} {k : Commit}
    (hk : k ∈ commits harvestId h) : k.Counted := by
  rcases List.mem_filterMap.1 hk with ⟨e, _, hcommit⟩
  unfold commit? at hcommit
  split at hcommit
  · split at hcommit
    · rw [← Option.some.inj hcommit]
      rfl
    · cases hcommit
  · cases hcommit

theorem token_after (log : List Commit) :
    (Chain.after token log).cursor.resumptionToken = nextToken token log := by
  cases log with
  | nil => rfl
  | cons k older => rfl

theorem counts_after (token : Option ResumptionToken) (log : List Commit)
    (hcounted : ∀ k ∈ log, k.Counted) :
    (Chain.after token log).cursor.recordsProcessed = (recordsOf log).length ∧
      (Chain.after token log).cursor.papersUpserted =
          (recordsOf log).countP LibraryTables.liveRecord ∧
        (Chain.after token log).cursor.deletedRecords = (recordsOf log).countP (·.deleted) := by
  induction log with
  | nil => exact ⟨rfl, rfl, rfl⟩
  | cons k older ih =>
      rcases ih fun k' hk' => hcounted k' (List.mem_cons_of_mem k hk') with
        ⟨hrecords, hpapers, hdeleted⟩
      have hk : k.Counted := hcounted k List.mem_cons_self
      have hcounts : k.counts = (k.checkpoint.records.length,
        k.checkpoint.records.countP LibraryTables.liveRecord,
          k.checkpoint.records.countP (·.deleted)) := hk
      rw [recordsOf_cons, List.length_append, List.countP_append, List.countP_append, ← hrecords,
        ← hpapers, ← hdeleted]
      simp only [Process.Log.after_cons, Chain.advance, Cursor.commit, hcounts]
      exact ⟨trivial, trivial, trivial⟩

/-- The response watermark is the newest valid response date of the pages. -/
theorem responseWatermark_after (h : Chain.Accepted d token log) :
    (Chain.after token log).cursor.responseWatermark =
      log.findSome? fun k => validOaiDay d k.checkpoint.responseDate := by
  induction log with
  | nil => rfl
  | cons k older ih =>
      rcases h.1.drawn with ⟨j, page, t, rfl, hdrawn⟩
      have hdate : k.checkpoint.lastResponseDate =
          (validOaiDay j.deployment k.checkpoint.responseDate).or
            (Chain.after token older).cursor.responseWatermark := by
        rw [hdrawn]
        rfl
      rw [List.findSome?_cons, ← ih h.2]
      show k.checkpoint.lastResponseDate = _
      rw [hdate]
      cases validOaiDay j.deployment k.checkpoint.responseDate <;> rfl

/-- The newest datestamp seen is that of all the records of the pages. -/
theorem maxDatestampSeen_after (h : Chain.Accepted d token log) :
    (Chain.after token log).cursor.maxDatestampSeen = maxDatestampSeen (recordsOf log) none := by
  induction log with
  | nil => rfl
  | cons k older ih =>
      rcases h.1.drawn with ⟨j, page, t, rfl, hdrawn⟩
      have hseen : k.checkpoint.lastDatestampSeen = maxDatestampSeen k.checkpoint.records
          (Chain.after token older).cursor.maxDatestampSeen := by
        rw [hdrawn]
        rfl
      show k.checkpoint.lastDatestampSeen = _
      rw [hseen, ih h.2, recordsOf_cons, maxDatestampSeen, maxDatestampSeen, maxDatestampSeen,
        List.foldl_append]

theorem chainEnded_of_finished (token : Option ResumptionToken) (log : List Commit)
    (hfinished : (Chain.after token log).cursor.finishedPaging = true)
    (hsound : (Chain.after token log).error = none) : ChainEnded log := by
  cases log with
  | nil => cases hfinished
  | cons k older => exact ⟨k, older, rfl, Option.isNone_iff_eq_none.1 hfinished, hsound⟩

end Sums

/-! ## Every run -/

/-- The pages that a job has committed, over all processes that have walked it. -/
structure PageChain (harvestId : Uuid) (h : History (fleet d)) : Prop where
  /-- They are what an abstract harvest commits that never stops. -/
  accepted : Chain.Accepted d (startToken harvestId h) (commits harvestId h)
  /-- Page by page, each consumes the token that the last one left, and only while there is one. -/
  linked : ∀ k older, (k :: older) <:+ commits harvestId h →
    k.checkpoint.pageIndex = older.length ∧
      k.checkpoint.consumedResumptionToken = nextToken (startToken harvestId h) older ∧
        (older ≠ [] → (k.checkpoint.consumedResumptionToken).isSome = true) ∧
          ∀ k' ∈ older.head?, k'.checkpoint.terminalErrorCategory = none
  /-- No token is consumed twice. -/
  distinct : ((commits harvestId h).filterMap fun k =>
    hashOf d k.checkpoint.consumedResumptionToken).Nodup
  /-- While the job is running its row stands at the end of the chain. -/
  row : ∀ job, (stateAfter h).oai.job? harvestId = some job → job.status = .running →
    job.pagesTotal = (commits harvestId h).length ∧
      job.resumptionToken = nextToken (startToken harvestId h) (commits harvestId h) ∧
        job.recordsProcessed = (recordsOf (commits harvestId h)).length ∧
          job.papersUpserted =
              (recordsOf (commits harvestId h)).countP LibraryTables.liveRecord ∧
            job.deletedRecords = (recordsOf (commits harvestId h)).countP (·.deleted)
  /-- Each committed page has its audit row, with the hash of the token it consumed. -/
  audited : ∀ k older, (k :: older) <:+ commits harvestId h →
    ∃ page ∈ (stateAfter h).oai.pages, page.harvestId = harvestId ∧
      page.pageIndex = older.length ∧
        page.resumptionTokenHash = hashOf d k.checkpoint.consumedResumptionToken

theorem token_of_accepts {s : Chain} {k : Commit} (h : s.Accepts d k) :
    k.checkpoint.consumedResumptionToken = s.cursor.resumptionToken := by
  rcases h.drawn with ⟨j, page, t, _, hdrawn⟩
  rw [hdrawn]
  rfl

/-- Page by page, each consumes the token that the last one left, and only while there is one. -/
def Follows (token : Option ResumptionToken) (log : List Commit) : Prop :=
  ∀ k older, (k :: older) <:+ log →
    k.checkpoint.consumedResumptionToken = nextToken token older ∧
      (older ≠ [] → (k.checkpoint.consumedResumptionToken).isSome = true)

theorem follows_of_accepted {token : Option ResumptionToken} {log : List Commit}
    (h : Chain.Accepted d token log) : Follows token log := by
  intro k older hs
  have haccepts := (h.of_suffix hs).1
  have htoken := token_of_accepts haccepts
  rw [token_after] at htoken
  refine ⟨htoken, ?_⟩
  intro hne
  rw [htoken]
  have hunfinished := haccepts.unfinished
  cases older with
  | nil => exact absurd rfl hne
  | cons k' older =>
      change k'.checkpoint.nextResumptionToken.isNone = false at hunfinished
      show k'.checkpoint.nextResumptionToken.isSome = true
      rw [← Option.not_isNone, hunfinished]
      rfl

theorem hashes_after {token : Option ResumptionToken} {log : List Commit}
    (h : Chain.Accepted d token log) : (Chain.after token log).cursor.consumedTokenHashes =
      (log.filterMap fun k => hashOf d k.checkpoint.consumedResumptionToken).reverse := by
  induction log with
  | nil => rfl
  | cons k older ih =>
      have hhash : k.checkpoint.consumedResumptionTokenHash =
          hashOf d k.checkpoint.consumedResumptionToken := by
        rw [h.1.consumed_eq, token_of_accepts h.1]
      show (Chain.after token older).cursor.consumedTokenHashes ++
        k.checkpoint.consumedResumptionTokenHash.toList = _
      rw [ih h.2, hhash, List.filterMap_cons]
      cases hashOf d k.checkpoint.consumedResumptionToken with
      | none => simp
      | some hash => simp

theorem page_chain (d : Deployment) (sched : List (Config.Choice (fleet d))) (harvestId : Uuid) :
    PageChain harvestId (Config.after (fleet d) sched).history := by
  have hI := linked_of_orderly (orderly_after d sched) harvestId
  refine ⟨hI.accepted, ?_, ?_, ?_, ?_⟩
  · intro k older hs
    have haccepts := (hI.accepted.of_suffix hs).1
    rcases follows_of_accepted hI.accepted k older hs with ⟨htoken, hsome⟩
    refine ⟨?_, htoken, hsome, ?_⟩
    · rcases haccepts.drawn with ⟨j, page, t, _, hdrawn⟩
      rw [hdrawn, ← Chain.pageIndex_after older]
      rfl
    · intro k' hk'
      have hsound := haccepts.sound
      cases older with
      | nil => cases hk'
      | cons k'' older =>
          cases hk'
          exact hsound
  · have hfresh := (Chain.fresh_of_accepted hI.accepted).nodup
    rw [hashes_after hI.accepted] at hfresh
    exact List.nodup_reverse.1 hfresh
  · intro job hjob hrunning
    have hends := hI.row job hjob hrunning
    have hplace := hends.place
    simp only [Cursor.place, Stand.ofRow, Cursor.mk.injEq] at hplace
    rcases hplace with ⟨htoken, _, _, hrecords, hpapers, hdeleted, _⟩
    rcases counts_after (startToken harvestId (Config.after (fleet d) sched).history)
      (commits harvestId (Config.after (fleet d) sched).history)
      fun k hk => counted_of_mem hk with ⟨hrecords', hpapers', hdeleted'⟩
    exact ⟨hends.pageIndex_eq, htoken.trans (token_after _), hrecords.trans hrecords',
      hpapers.trans hpapers', hdeleted.trans hdeleted'⟩
  · intro k older hs
    rcases hI.audited.covered k older hs with ⟨page, hpage, hid, hindex⟩
    refine ⟨page, hpage, hid, hindex, ?_⟩
    rcases hI.audited.placed page hpage hid with ⟨same, hsame, hlength, hhash⟩
    have heq := Process.Log.eq_of_length hsame ((List.suffix_cons k older).trans hs)
      (hlength.symm.trans hindex)
    rw [hhash, heq, token_of_accepts (hI.accepted.of_suffix hs).1]

/-- What a harvest says of its job once it has walked it to the end. -/
structure SaysTheChain (pre : History (fleet d)) (e : Event (fleet d)) : Prop where
  /-- A watermark comes with a chain that has ended, and is the newest of its days. -/
  watermark : ∀ key lastResponseDate lastDatestampSeen harvestId timestamp r,
    e.action = .op (.oai (.setOaiWatermark key lastResponseDate lastDatestampSeen harvestId
      timestamp)) r → ChainEnded (commits harvestId pre) ∧
        lastResponseDate = (commits harvestId pre).findSome?
            (fun k => validOaiDay d k.checkpoint.responseDate) ∧
          lastDatestampSeen = maxDatestampSeen (recordsOf (commits harvestId pre)) none ∧
            ∃ job, e.before.oai.job? harvestId = some job ∧ key = watermarkKey job.request ∧
              shouldCommitOaiWatermark job.request = true
  /-- A job is completed with the sums of a chain that has ended. -/
  completion : ∀ c r, e.action = .op (.oai (.completeOaiHarvestJob c)) r → c.status = .completed →
    ChainEnded (commits c.harvestId pre) ∧
      c.pagesTotal = (commits c.harvestId pre).length ∧ c.resumptionToken = none ∧
        c.recordsProcessed = (recordsOf (commits c.harvestId pre)).length ∧
          c.papersUpserted =
              (recordsOf (commits c.harvestId pre)).countP LibraryTables.liveRecord ∧
            c.deletedRecords = (recordsOf (commits c.harvestId pre)).countP (·.deleted)

/-- A process that has finished stands at the end of the whole chain. -/
theorem end_of_finished {pre : History (fleet d)} {harvestId : Uuid} (hI : Linked harvestId pre)
    {p : Nat} {st : Stand} (hst : standOf p pre = some st) (hat : st.harvestId = harvestId)
    (hfinished : st.Finished) : ChainEnded (commits harvestId pre) ∧
      st.cursor.place =
        (Chain.after (startToken harvestId pre) (commits harvestId pre)).cursor.place := by
  rcases hI.readers p st hst hat with ⟨_, older, hreads⟩
  have hall := hreads.eq_of_finished hI.accepted hfinished
  subst hall
  refine ⟨chainEnded_of_finished (startToken harvestId pre) _ ?_ ?_, hreads.place⟩
  · rw [← hreads.finished_eq]
    exact hfinished.finished
  · rw [← hreads.error]
    exact hfinished.sound

/-- Who writes a watermark writes the dates of the whole chain of its job, and for its scope. -/
theorem Turn.watermark {pre : History (fleet d)} {e : Event (fleet d)} {o : Op}
    {r : Except Exn o.Res} (he : Turn pre e o r) (hI : ∀ harvestId, Linked harvestId pre)
    {key : WatermarkKey} {lastResponseDate lastDatestampSeen : Option Int} {harvestId : Uuid}
    {timestamp : Int} (ho : o = .oai (.setOaiWatermark key lastResponseDate lastDatestampSeen
      harvestId timestamp)) : ChainEnded (commits harvestId pre) ∧
        lastResponseDate = (commits harvestId pre).findSome?
            (fun k => validOaiDay d k.checkpoint.responseDate) ∧
          lastDatestampSeen = maxDatestampSeen (recordsOf (commits harvestId pre)) none ∧
            ∃ job, (stateAfter pre).oai.job? harvestId = some job ∧ key = watermarkKey job.request ∧
              shouldCommitOaiWatermark job.request = true := by
  subst ho
  rcases he.allowed with ⟨st, hst, hfinished, hunbounded, rfl, rfl, rfl, rfl⟩
  have hI := hI st.harvestId
  rcases end_of_finished hI hst rfl hfinished with ⟨hended, hplace⟩
  simp only [Cursor.place, Cursor.mk.injEq] at hplace
  refine ⟨hended, ?_, ?_, ?_⟩
  · rw [← responseWatermark_after hI.accepted]
    exact hplace.2.2.2.2.2.2.1
  · rw [← maxDatestampSeen_after hI.accepted]
    exact hplace.2.2.2.2.2.2.2.1
  · cases hjob : (stateAfter pre).oai.job? st.harvestId with
    | none => exact absurd rfl ((hI.absent hjob).2.2 e.pid st hst)
    | some job =>
        have hrequest := (hI.readers e.pid st hst rfl).1 job hjob
        rw [← hrequest] at hunbounded
        exact ⟨job, rfl, by rw [hrequest], hunbounded⟩

theorem says_the_chain (d : Deployment) (sched : List (Config.Choice (fleet d))) :
    Throughout SaysTheChain (Config.after (fleet d) sched).history := by
  refine (orderly_after d sched).with_past.mono ?_
  rintro pre e ⟨he, hpast⟩
  refine ⟨?_, ?_⟩
  · intro key lastResponseDate lastDatestampSeen harvestId timestamp r ha
    rw [he.legal.before_eq]
    exact (he.turn ha).watermark (linked_of_orderly hpast) rfl
  · intro c r ha hcompleted
    rcases he.stands.1 _ r ha with ⟨st, hst, hat, _, hcompletes, _⟩
    have hcompletes := hcompletes hcompleted
    have hI := linked_of_orderly hpast c.harvestId
    rcases end_of_finished hI hst hat.symm hcompletes.finished with ⟨hended, hplace⟩
    simp only [Cursor.place, Cursor.mk.injEq] at hplace
    rcases hplace with ⟨_, hpages, _, hrecords, hpapers, hdeleted, _⟩
    rcases counts_after (startToken c.harvestId pre) (commits c.harvestId pre)
      fun k hk => counted_of_mem hk with ⟨hrecords', hpapers', hdeleted'⟩
    exact ⟨hended,
      hcompletes.pagesTotal.trans (hpages.trans (Chain.pageIndex_after _)), hcompletes.token,
      hcompletes.recordsProcessed.trans (hrecords.trans hrecords'),
      hcompletes.papersUpserted.trans (hpapers.trans hpapers'),
      hcompletes.deletedRecords.trans (hdeleted.trans hdeleted')⟩

end Harvest
end Huldra
