import Huldra.Process.Log
import Huldra.Harvest.Jobs
import Huldra.Harvest.Stand

/-!
# Commits — the chain of pages that a job has committed

The abstract harvest is one that never stops: a cursor and its pending error, moved page by page.
The commits of a job are a log of that machine.  The row of a running job, the audit rows of its
pages and the cursors of the processes that walk it, however late, are readings of that log.
-/

namespace Huldra
namespace Harvest

open OaiTables

/-- A page that was committed, and how many records it was counted for. -/
structure Commit where
  checkpoint : Checkpoint
  counts : Nat × Nat × Nat

/-- The state of the abstract harvest. -/
structure Chain where
  cursor : Cursor
  error : Option String := none

namespace Chain

/-- Before the first page. -/
def initial (token : Option ResumptionToken) : Chain :=
  { cursor := { resumptionToken := token } }

def advance (s : Chain) (k : Commit) : Chain :=
  { cursor := s.cursor.commit k.checkpoint k.counts
    error := k.checkpoint.terminalErrorCategory }

/-- The page is the next one of the chain, and its checkpoint is drawn up from the cursor. -/
structure Accepts (d : Deployment) (s : Chain) (k : Commit) : Prop where
  unfinished : s.cursor.finishedPaging = false
  sound : s.error = none
  drawn : ∃ (j : Job) (page : OaiPmhPage) (t : Int),
    j.deployment = d ∧ k.checkpoint = j.checkpointOf s.cursor page t

theorem Accepts.consumed_eq {d : Deployment} {s : Chain} {k : Commit} (h : Accepts d s k) :
    k.checkpoint.consumedResumptionTokenHash = hashOf d s.cursor.resumptionToken := by
  rcases h.drawn with ⟨j, page, t, rfl, hdrawn⟩
  rw [hdrawn]
  rfl

/-- The state after the commits, the newest first. -/
abbrev after (token : Option ResumptionToken) (commits : List Commit) : Chain :=
  Process.Log.after advance (initial token) commits

/-- The commits are a log of the abstract harvest. -/
abbrev Accepted (d : Deployment) (token : Option ResumptionToken) (commits : List Commit) : Prop :=
  Process.Log.Accepted (Accepts d) advance (initial token) commits

variable {d : Deployment} {token : Option ResumptionToken} {log older : List Commit}

theorem pageIndex_after (commits : List Commit) :
    (after token commits).cursor.pageIndex = commits.length := by
  induction commits with
  | nil => rfl
  | cons k older ih => exact congrArg (· + 1) ih

/-- Tokens that were consumed are on record, once each, and the next is none of them. -/
structure Fresh (d : Deployment) (s : Chain) : Prop where
  nodup : s.cursor.consumedTokenHashes.Nodup
  next : s.cursor.finishedPaging = false → s.error = none →
    ∀ hash, hashOf d s.cursor.resumptionToken = some hash →
      hash ∉ s.cursor.consumedTokenHashes

theorem oaiTokenError_none {recordsTotal : Nat} {consumed : Option String} {next : String}
    {hashes : List String} (h : oaiTokenError recordsTotal consumed (some next) hashes = none) :
    consumed ≠ some next ∧ next ∉ hashes := by
  unfold oaiTokenError at h
  simp only at h
  split at h
  · cases h
  · rename_i hconsumed
    split at h
    · cases h
    · rename_i hhashes
      exact ⟨hconsumed, by simpa using hhashes⟩

theorem Fresh.advance {s : Chain} {k : Commit} (h : Fresh d s) (haccepts : Accepts d s k) :
    Fresh d (s.advance k) := by
  have hconsumed := haccepts.consumed_eq
  rcases haccepts.drawn with ⟨j, page, t, rfl, hdrawn⟩
  have hnew : ∀ hash, k.checkpoint.consumedResumptionTokenHash = some hash →
      hash ∉ s.cursor.consumedTokenHashes := by
    intro hash hhash
    exact h.next haccepts.unfinished haccepts.sound hash (hconsumed.symm.trans hhash)
  refine ⟨?_, ?_⟩
  · show (s.cursor.consumedTokenHashes ++ k.checkpoint.consumedResumptionTokenHash.toList).Nodup
    cases hhash : k.checkpoint.consumedResumptionTokenHash with
    | none => simpa using h.nodup
    | some hash =>
        refine List.nodup_append.2 ⟨h.nodup, List.nodup_singleton hash, ?_⟩
        intro a ha b hb hab
        rw [Option.toList_some, List.mem_singleton] at hb
        rw [hab, hb] at ha
        exact hnew hash hhash ha
  · intro _ herror hash hhash
    -- The page was committed without a token error.
    have htoken : oaiTokenError page.records.length (j.hashToken s.cursor.resumptionToken)
        (some hash) s.cursor.consumedTokenHashes = none := by
      have hnext : hashOf j.deployment page.resumptionToken = some hash := by
        have hcursor : (s.advance k).cursor.resumptionToken = page.resumptionToken := by
          show k.checkpoint.nextResumptionToken = _
          rw [hdrawn]
          rfl
        rw [← hcursor]
        exact hhash
      have hcategory : k.checkpoint.terminalErrorCategory = j.tokenError s.cursor page := by
        rw [hdrawn]
        rfl
      rw [← hnext]
      exact hcategory.symm.trans herror
    rcases oaiTokenError_none htoken with ⟨hrepeated, hcycle⟩
    show hash ∉ s.cursor.consumedTokenHashes ++ k.checkpoint.consumedResumptionTokenHash.toList
    rw [List.mem_append, hconsumed]
    rintro (hold | hlast)
    · exact hcycle hold
    · exact hrepeated (Option.mem_toList.1 hlast)

/-- No token is consumed twice. -/
theorem fresh_of_accepted (h : Accepted d token log) : Fresh d (after token log) := by
  refine h.invariant ?_ fun _ _ => Fresh.advance
  refine ⟨List.nodup_nil, ?_⟩
  intro _ _ hash _ hmem
  cases hmem

/-- A hash on record is that of a token which an older page consumed. -/
theorem mem_consumed_iff (h : Accepted d token log) {hash : String} :
    hash ∈ (after token log).cursor.consumedTokenHashes ↔
      ∃ k older, (k :: older) <:+ log ∧
        hashOf d (after token older).cursor.resumptionToken = some hash := by
  induction log with
  | nil =>
      constructor
      · intro hmem
        cases hmem
      · rintro ⟨k, older, hs, _⟩
        cases List.suffix_nil.1 hs
  | cons k log ih =>
      have hconsumed := h.1.consumed_eq
      have hmem : hash ∈ (after token (k :: log)).cursor.consumedTokenHashes ↔
          hash ∈ (after token log).cursor.consumedTokenHashes ∨
            hashOf d (after token log).cursor.resumptionToken = some hash := by
        show hash ∈ (after token log).cursor.consumedTokenHashes ++
          k.checkpoint.consumedResumptionTokenHash.toList ↔ _
        rw [List.mem_append, Option.mem_toList, hconsumed]
      rw [hmem, ih h.2]
      constructor
      · rintro (⟨k', older, hs, hhash⟩ | hhash)
        · exact ⟨k', older, hs.trans (List.suffix_cons k log), hhash⟩
        · exact ⟨k, log, List.suffix_rfl, hhash⟩
      · rintro ⟨k', older, hs, hhash⟩
        rcases List.suffix_cons_iff.1 hs with hsame | hs
        · cases hsame
          exact Or.inr hhash
        · exact Or.inl ⟨k', older, hs, hhash⟩

end Chain

/-! ## The row of a job -/

/-- What the chain determines of a cursor: all but the count of requests and the tokens read. -/
def Cursor.place (c : Cursor) : Cursor :=
  { c with requestsTotal := 0, consumedTokenHashes := [] }

theorem place_commit {a b : Cursor} (h : a.place = b.place) (c : Checkpoint)
    (counts : Nat × Nat × Nat) : (a.commit c counts).place = (b.commit c counts).place := by
  simp only [Cursor.place, Cursor.mk.injEq] at h
  simp [Cursor.place, Cursor.commit, h]

/-- The row of a job stands at the end of the chain. -/
structure Ends (token : Option ResumptionToken) (log : List Commit) (row : OaiJobRow) : Prop where
  place : (Stand.ofRow row).cursor.place = (Chain.after token log).cursor.place
  error : row.errorCategory = (Chain.after token log).error

theorem maxDatestampSeen_none (records : List OaiRecord) (current : Option Int)
    (h : maxDatestampSeen records current = none) : current = none := by
  induction records generalizing current with
  | nil => exact h
  | cons record records ih =>
      have hstep := ih _ h
      cases hdate : record.datestamp with
      | none =>
          simp only [hdate] at hstep
          exact hstep
      | some t =>
          simp only [hdate] at hstep
          cases current with
          | none => rfl
          | some best =>
              dsimp only at hstep
              split at hstep <;> cases hstep

section Rows

variable {d : Deployment} {token : Option ResumptionToken} {log older : List Commit}
  {row : OaiJobRow} {k : Commit}

/-- A commit leads the row of its job to the end of the longer chain. -/
theorem Ends.advance (h : Ends token log row) (haccepts : (Chain.after token log).Accepts d k)
    (hrunning : row.status = .running) :
    Ends token (k :: log) (k.checkpoint.advance k.counts row) := by
  rcases haccepts.drawn with ⟨j, page, t, _, hdrawn⟩
  have hplace := h.place
  simp only [Cursor.place, Stand.ofRow, Cursor.mk.injEq] at hplace
  rcases hplace with ⟨_, hpages, _, hrecords, hpapers, hdeleted, hresponse, hdatestamp, _, _⟩
  have hpage : k.checkpoint.pageIndex = (Chain.after token log).cursor.pageIndex := by
    rw [hdrawn]
    rfl
  have hdate : k.checkpoint.lastResponseDate.or row.lastResponseDate =
      k.checkpoint.lastResponseDate := by
    have hdrew : k.checkpoint.lastResponseDate =
        (validOaiDay j.deployment page.responseDate).or row.lastResponseDate := by
      rw [hdrawn, hresponse]
      rfl
    rw [hdrew, Option.or_assoc, Option.or_self]
  have hseen : k.checkpoint.lastDatestampSeen.or row.lastDatestampSeen =
      k.checkpoint.lastDatestampSeen := by
    have hdrew : k.checkpoint.lastDatestampSeen =
        maxDatestampSeen page.records row.lastDatestampSeen := by
      rw [hdrawn, hdatestamp]
      rfl
    cases hmax : k.checkpoint.lastDatestampSeen with
    | some day => rfl
    | none =>
        rw [Option.none_or]
        exact maxDatestampSeen_none _ _ (hdrew.symm.trans hmax)
  refine ⟨?_, ?_⟩
  · simp [Cursor.place, Stand.ofRow, Checkpoint.advance, hrunning, Cursor.commit, Chain.advance,
      hpages, hrecords, hpapers, hdeleted, hpage, hdate, hseen]
  · simp [Checkpoint.advance, hrunning, Chain.advance]

/-- What leaves the cursor of a row alone leaves it at the end of the chain. -/
theorem Ends.congr {row' : OaiJobRow} (h : Ends token log row)
    (hplace : (Stand.ofRow row').cursor.place = (Stand.ofRow row).cursor.place)
    (herror : row'.errorCategory = row.errorCategory) : Ends token log row' :=
  ⟨hplace.trans h.place, herror.trans h.error⟩

theorem ends_newJob (harvestId : Uuid) (request : OaiHarvestRequest) (started : Int) :
    Ends token [] (newJob harvestId request token started) :=
  ⟨rfl, rfl⟩

end Rows

/-! ## The audit rows -/

section Pages

variable {t : OaiTables} {page p : OaiPageRow}

theorem mem_putPage (h : p ∈ (t.putPage page).pages) : p ∈ t.pages ∨
    (p.harvestId = page.harvestId ∧ p.pageIndex = page.pageIndex ∧
      p.resumptionTokenHash = page.resumptionTokenHash) := by
  unfold putPage at h
  split at h
  · rcases List.mem_map.1 h with ⟨old, hold, rfl⟩
    split
    · exact Or.inr ⟨rfl, rfl, rfl⟩
    · exact Or.inl hold
  · rcases List.mem_append.1 h with hold | hnew
    · exact Or.inl hold
    · rw [List.mem_singleton] at hnew
      rw [hnew]
      exact Or.inr ⟨rfl, rfl, rfl⟩

/-- The page is there after it was put. -/
theorem exists_putPage (t : OaiTables) (page : OaiPageRow) : ∃ p ∈ (t.putPage page).pages,
    p.harvestId = page.harvestId ∧ p.pageIndex = page.pageIndex := by
  unfold putPage
  split
  · rename_i old hold
    have hkey := List.find?_some hold
    simp only [Bool.and_eq_true, decide_eq_true_eq] at hkey
    refine ⟨_, List.mem_map_of_mem (List.mem_of_find?_eq_some hold), ?_⟩
    rw [if_pos hkey]
    exact ⟨rfl, rfl⟩
  · exact ⟨page, List.mem_append_right _ List.mem_cons_self, rfl, rfl⟩

theorem exists_of_putPage {harvestId : Uuid} {pageIndex : Nat}
    (h : ∃ p ∈ t.pages, p.harvestId = harvestId ∧ p.pageIndex = pageIndex) :
    ∃ p ∈ (t.putPage page).pages, p.harvestId = harvestId ∧ p.pageIndex = pageIndex := by
  rcases h with ⟨p, hp, hid, hindex⟩
  unfold putPage
  split
  · refine ⟨_, List.mem_map_of_mem hp, ?_⟩
    split
    · rename_i hkey
      exact ⟨hkey.1.symm.trans hid, hkey.2.symm.trans hindex⟩
    · exact ⟨hid, hindex⟩
  · exact ⟨p, List.mem_append_left _ hp, hid, hindex⟩

/-- Every committed page of the job has an audit row, and an audit row bears the token that the
chain has there. -/
structure Audited (d : Deployment) (token : Option ResumptionToken) (log : List Commit)
    (harvestId : Uuid) (t : OaiTables) : Prop where
  placed : ∀ page ∈ t.pages, page.harvestId = harvestId → ∃ older, older <:+ log ∧
    page.pageIndex = older.length ∧
      page.resumptionTokenHash = hashOf d (Chain.after token older).cursor.resumptionToken
  covered : ∀ k older, (k :: older) <:+ log → ∃ page ∈ t.pages, page.harvestId = harvestId ∧
    page.pageIndex = older.length

variable {d : Deployment} {token : Option ResumptionToken} {log older : List Commit}
  {harvestId : Uuid} {k : Commit}

theorem Audited.put (h : Audited d token log harvestId t) (page : OaiPageRow)
    (hplaced : page.harvestId = harvestId → ∃ older, older <:+ log ∧
      page.pageIndex = older.length ∧
        page.resumptionTokenHash = hashOf d (Chain.after token older).cursor.resumptionToken) :
    Audited d token log harvestId (t.putPage page) where
  placed := by
    intro p hp hid
    rcases mem_putPage hp with hold | ⟨hsame, hindex, hhash⟩
    · exact h.placed p hold hid
    · rcases hplaced (hsame.symm.trans hid) with ⟨older, hs, hlength, htoken⟩
      exact ⟨older, hs, hindex.trans hlength, hhash.trans htoken⟩
  covered k older hs := exists_of_putPage (h.covered k older hs)

/-- The audit rows go on with the row that a commit puts. -/
theorem Audited.commit (h : Audited d token log harvestId t)
    (hcovered : ∃ page ∈ t.pages, page.harvestId = harvestId ∧ page.pageIndex = log.length) :
    Audited d token (k :: log) harvestId t where
  placed := by
    intro p hp hid
    rcases h.placed p hp hid with ⟨older, hs, hrest⟩
    exact ⟨older, hs.trans (List.suffix_cons k log), hrest⟩
  covered := by
    intro k' older hs
    rcases List.suffix_cons_iff.1 hs with hsame | hs
    · cases hsame
      exact hcovered
    · exact h.covered k' older hs

theorem Audited.of_pages {t' : OaiTables} (h : Audited d token log harvestId t)
    (hpages : t'.pages = t.pages) : Audited d token log harvestId t' where
  placed := by
    rw [hpages]
    exact h.placed
  covered := by
    rw [hpages]
    exact h.covered

/-- The hashes that are read are those of tokens of the chain, … -/
theorem Audited.known (h : Audited d token log harvestId t) {hash : String}
    (hmem : hash ∈ t.getOaiConsumedTokenHashes harvestId) : ∃ older, older <:+ log ∧
      hashOf d (Chain.after token older).cursor.resumptionToken = some hash := by
  simp only [OaiTables.getOaiConsumedTokenHashes, List.mem_filterMap, List.mem_filter,
    decide_eq_true_eq] at hmem
  rcases hmem with ⟨page, ⟨hpage, hid⟩, hhash⟩
  rcases h.placed page hpage hid with ⟨older, hs, _, htoken⟩
  exact ⟨older, hs, htoken.symm.trans hhash⟩

/-- … and those of all the tokens that were consumed are among them. -/
theorem Audited.seen (h : Audited d token log harvestId t) (hlog : Chain.Accepted d token log)
    (hs : older <:+ log) {hash : String}
    (hmem : hash ∈ (Chain.after token older).cursor.consumedTokenHashes) :
    hash ∈ t.getOaiConsumedTokenHashes harvestId := by
  rcases (Chain.mem_consumed_iff (hlog.of_suffix hs)).1 hmem with ⟨k, before, hs', hhash⟩
  rcases h.covered k before (hs'.trans hs) with ⟨page, hpage, hid, hindex⟩
  rcases h.placed page hpage hid with ⟨same, hsame, hlength, htoken⟩
  have hbefore : before <:+ log := (List.suffix_cons k before).trans (hs'.trans hs)
  have heq := Process.Log.eq_of_length hsame hbefore (hlength.symm.trans hindex)
  rw [heq, hhash] at htoken
  simp only [OaiTables.getOaiConsumedTokenHashes, List.mem_filterMap, List.mem_filter,
    decide_eq_true_eq]
  exact ⟨page, ⟨hpage, hid⟩, htoken⟩

end Pages

/-! ## The processes -/

/-- A process stands where a suffix of the chain leads, however long the chain has become. -/
structure Reads (d : Deployment) (token : Option ResumptionToken) (log older : List Commit)
    (st : Stand) : Prop where
  suffix : older <:+ log
  place : st.cursor.place = (Chain.after token older).cursor.place
  error : st.pendingErrorCategory = (Chain.after token older).error
  seen : st.informed = true →
    ∀ hash ∈ (Chain.after token older).cursor.consumedTokenHashes,
      hash ∈ st.cursor.consumedTokenHashes
  known : ∀ hash ∈ st.cursor.consumedTokenHashes, ∃ before, before <:+ log ∧
    hashOf d (Chain.after token before).cursor.resumptionToken = some hash

namespace Reads

variable {d : Deployment} {token : Option ResumptionToken} {log older : List Commit} {st : Stand}
  {k : Commit}

theorem mono (h : Reads d token log older st) (k : Commit) : Reads d token (k :: log) older st where
  suffix := h.suffix.trans (List.suffix_cons k log)
  place := h.place
  error := h.error
  seen := h.seen
  known hash hmem := by
    rcases h.known hash hmem with ⟨before, hs, hhash⟩
    exact ⟨before, hs.trans (List.suffix_cons k log), hhash⟩

theorem of_row {row : OaiJobRow} (h : Ends token log row) :
    Reads d token log log (.ofRow row) where
  suffix := List.suffix_rfl
  place := h.place
  error := h.error
  seen hinformed := by cases hinformed
  known hash hmem := by cases hmem

theorem token_eq (h : Reads d token log older st) :
    st.cursor.resumptionToken = (Chain.after token older).cursor.resumptionToken := by
  have hplace := h.place
  simp only [Cursor.place, Cursor.mk.injEq] at hplace
  exact hplace.1

theorem pageIndex_eq (h : Reads d token log older st) : st.cursor.pageIndex = older.length := by
  have hplace := h.place
  simp only [Cursor.place, Cursor.mk.injEq] at hplace
  exact hplace.2.1.trans (Chain.pageIndex_after older)

theorem finished_eq (h : Reads d token log older st) :
    st.cursor.finishedPaging = (Chain.after token older).cursor.finishedPaging := by
  have hplace := h.place
  simp only [Cursor.place, Cursor.mk.injEq] at hplace
  exact hplace.2.2.2.2.2.2.2.2.1

/-- At the end of the chain the checkpoint is the one the abstract harvest draws up. -/
theorem checkpoint_eq (h : Reads d token log log st) (hlog : Chain.Accepted d token log)
    (hinformed : st.informed = true) {j : Job} (hdeployment : j.deployment = d)
    (page : OaiPmhPage) (t : Int) :
    j.checkpointOf st.cursor page t = j.checkpointOf (Chain.after token log).cursor page t := by
  subst hdeployment
  have hmem : ∀ hash, hash ∈ st.cursor.consumedTokenHashes →
      hash ∈ (Chain.after token log).cursor.consumedTokenHashes ∨
        j.hashToken (Chain.after token log).cursor.resumptionToken = some hash := by
    intro hash hhash
    rcases h.known hash hhash with ⟨before, hs, htoken⟩
    rcases Process.Log.eq_or_next hs with rfl | ⟨k, hnext⟩
    · exact Or.inr htoken
    · exact Or.inl ((Chain.mem_consumed_iff hlog).2 ⟨k, before, hnext, htoken⟩)
  have htokens : ∀ next, oaiTokenError page.records.length
      (j.hashToken (Chain.after token log).cursor.resumptionToken) next
        st.cursor.consumedTokenHashes =
      oaiTokenError page.records.length
        (j.hashToken (Chain.after token log).cursor.resumptionToken) next
          (Chain.after token log).cursor.consumedTokenHashes := by
    intro next
    cases next with
    | none => rfl
    | some next =>
        unfold oaiTokenError
        by_cases hrepeated :
            j.hashToken (Chain.after token log).cursor.resumptionToken = some next
        · simp only [if_pos hrepeated]
        · have hsame : st.cursor.consumedTokenHashes.contains next =
              (Chain.after token log).cursor.consumedTokenHashes.contains next := by
            rw [Bool.eq_iff_iff, List.contains_iff_mem, List.contains_iff_mem]
            exact ⟨fun hin => (hmem next hin).resolve_right hrepeated, h.seen hinformed next⟩
          simp only [if_neg hrepeated, hsame]
  have hplace := h.place
  simp only [Cursor.place, Cursor.mk.injEq] at hplace
  have htoken : j.tokenError st.cursor page =
      j.tokenError (Chain.after token log).cursor page := by
    unfold Job.tokenError
    rw [hplace.1]
    exact htokens _
  simp [Job.checkpointOf, Job.params, hplace, htoken]

/-- A process that has walked the chain to its end has seen all of it. -/
theorem eq_of_finished (h : Reads d token log older st) (hlog : Chain.Accepted d token log)
    (hfinished : st.Finished) : older = log := by
  refine hlog.eq_of_final h.suffix fun k haccepts => ?_
  have hopen := haccepts.unfinished
  rw [← h.finished_eq, hfinished.finished] at hopen
  cases hopen

/-- The consumed tokens are read. -/
theorem inform (h : Reads d token log older st) (hlog : Chain.Accepted d token log)
    {harvestId : Uuid} {t : OaiTables} (haudited : Audited d token log harvestId t) :
    Reads d token log older
      { st with
        cursor := { st.cursor with consumedTokenHashes := t.getOaiConsumedTokenHashes harvestId }
        informed := true } where
  suffix := h.suffix
  place := h.place
  error := h.error
  seen _ _ hmem := haudited.seen hlog h.suffix hmem
  known _ hmem := haudited.known hmem

theorem count (h : Reads d token log older st) (total : Nat) :
    Reads d token log older { st with cursor := { st.cursor with requestsTotal := total } } where
  suffix := h.suffix
  place := h.place
  error := h.error
  seen := h.seen
  known := h.known

/-- The process that commits moves to the end of the longer chain. -/
theorem commit (h : Reads d token log log st) (hinformed : st.informed = true)
    (hconsumed : k.checkpoint.consumedResumptionTokenHash =
      hashOf d (Chain.after token log).cursor.resumptionToken) :
    Reads d token (k :: log) (k :: log) (st.commit k.checkpoint k.counts) where
  suffix := List.suffix_rfl
  place := place_commit h.place k.checkpoint k.counts
  error := rfl
  seen := by
    intro _ hash hmem
    show hash ∈ st.cursor.consumedTokenHashes ++ _
    rcases List.mem_append.1 hmem with hold | hnew
    · exact List.mem_append_left _ (h.seen hinformed hash hold)
    · exact List.mem_append_right _ hnew
  known := by
    intro hash hmem
    rcases List.mem_append.1 hmem with hold | hnew
    · rcases h.known hash hold with ⟨before, hs, hhash⟩
      exact ⟨before, hs.trans (List.suffix_cons k log), hhash⟩
    · rw [Option.mem_toList, hconsumed] at hnew
      exact ⟨log, List.suffix_cons k log, hnew⟩

end Reads

end Harvest
end Huldra
