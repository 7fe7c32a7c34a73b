import Huldra.Harvest.Continued
import Huldra.Harvest.Watermarks

/-!
# Overlap — where the next harvest starts

An incremental harvest asks for what has changed since the watermark of its scope, less the
configured overlap.  The watermark is the day of the newest page that gives one, not that of the
first: so the next harvest starts too late as soon as a chain outlasts the overlap.
-/

namespace Huldra
namespace Harvest

open Process (Prog Discipline)
open Process.System (Monitor Config Throughout Disciplined History Event Legal stateAfter)
open OaiTables

/-! ## The date that is sent -/

/-- A day less the configured overlap. -/
def overlapped (d : Deployment) (day : Int) : Int :=
  if d.settings.oaiOverlapSeconds ≤ 0 then day
  else subtractOaiOverlap day d.settings.oaiOverlapSeconds

/-- The day that a harvest starts from which finds this watermark. -/
def startDay (d : Deployment) (row : OaiWatermarkRow) : Option Int :=
  (row.lastResponseDate.or row.lastDatestampSeen).map (overlapped d)

/-- The scope of a first request, and the date it is sent with. -/
def initial? : OaiRequestParams → Option (WatermarkKey × Option OaiDatestamp)
  | .initial metadataPrefix setSpec from_ _ => some (⟨metadataPrefix, oaiSetKey setSpec⟩, from_)
  | .resumption _ => none

theorem oaiSetKey_filter (setSpec : Option String) :
    oaiSetKey (setSpec.filter (· ≠ "")) = oaiSetKey setSpec := by
  cases setSpec with
  | none => rfl
  | some set =>
      by_cases h : set = ""
      · simp [oaiSetKey, Option.filter, h]
      · simp [oaiSetKey, Option.filter, h]

theorem initial?_params {j : Job} {c : Cursor} {sent : WatermarkKey × Option OaiDatestamp}
    (h : initial? (j.params c) = some sent) :
    sent = (watermarkKey j.effectiveRequest, j.fromDatestamp) := by
  unfold Job.params buildListRecordsParams at h
  split at h
  · cases h
  · rw [initial?, oaiSetKey_filter] at h
    exact (Option.some.inj h).symm

/-! ## What a process knows of a watermark -/

/-- The watermark that a process has read, and under which key. -/
abbrev Known := Option (WatermarkKey × Option OaiWatermarkRow)

namespace Known

def step (x : Known) (o : Op) (r : Except Exn o.Res) : Known :=
  match o, r with
  | .oai (.getOaiWatermark key), .ok row => some (key, row)
  | _, _ => x

/-- Who has read a watermark sends the date that it gives, and for its scope. -/
def Allowed (d : Deployment) (x : Known) : Op → Prop
  | .upstream (.listRecordsBegin call) =>
      ∀ known ∈ x, ∀ sent ∈ initial? call.params,
        sent = (known.1, (known.2.bind (startDay d)).map .day)
  | _ => True

end Known

def knownMonitor {Client Out : Type} {program : Client → Nat → Process.Prog huldra Out} :
    Monitor (storeSystem Client Out program) Known where
  initial _ := none
  start _ _ _ := none
  step x o r _ := Known.step x o r
  crash _ := none
  clock _ := 0
  clock_initial _ := Process.System.no_time
  clock_start _ _ _ h := h
  clock_step _ _ _ _ h := h
  clock_crash _ := Int.le_refl 0

/-- The discipline of the date that is sent. -/
def knows (d : Deployment) : Discipline huldra Known where
  allow := Known.Allowed d
  next x o r x' := ∃ t s s', (0 : Int) ≤ t ∧ Store.Performed o t r s s' ∧ x' = Known.step x o r

/-- The operation reads no watermark. -/
def Unread : Op → Prop
  | .oai (.getOaiWatermark _) => False
  | _ => True

/-- What the process has read is the watermark of the job, and what the job starts from. -/
def Known.Fits (d : Deployment) (j : Job) (x : Known) : Prop :=
  ∀ known ∈ x,
    (watermarkKey j.effectiveRequest, j.fromDatestamp) =
      (known.1, (known.2.bind (startDay d)).map .day)

section Stages

variable {β : Type} {d : Deployment} {o : Op} {j : Job}

theorem Unread.step (ho : Unread o) (x : Known) (r : Except Exn o.Res) : x.step o r = x := by
  unfold Known.step
  split
  · exact ho.elim
  · rfl

theorem unread_of_onwards (ho : Onwards j o) : Unread o := by
  unfold Unread
  split
  · exact ho.elim
  · trivial

theorem unread_of_starting (ho : Starting o) : Unread o := by
  unfold Unread
  split
  · exact ho.elim
  · trivial

theorem unread_of_resuming (ho : Resuming o) : Unread o := by
  unfold Unread
  split
  · exact ho.elim
  · trivial

theorem unread_of_passing (ho : Worker.Passing o) : Unread o := by
  unfold Unread
  split
  · exact ho.elim
  · trivial

theorem unread_of_feeding (ho : Worker.Feeding o) : Unread o := by
  unfold Unread
  split
  · exact ho.elim
  · trivial

theorem Onwards.allowed (ho : Onwards j o) {x : Known} (hfits : x.Fits d j) : x.Allowed d o := by
  unfold Known.Allowed
  split
  · rcases ho with ⟨c, hparams⟩
    intro known hknown sent hsent
    rw [hparams] at hsent
    exact (initial?_params hsent).trans (hfits known hknown)
  · trivial

/-- Before it has read a watermark, a process may send any date. -/
theorem allowed_unknown (o : Op) : Known.Allowed d none o := by
  unfold Known.Allowed
  split
  · intro known hknown
    cases hknown
  · trivial

theorem wp_onwards {p : Program β} (hp : p.AllOps (Onwards j)) {x : Known} (hfits : x.Fits d j) :
    p.wp (knows d) (fun _ _ => True) (fun _ _ => True) x := by
  have hkept : p.wp (knows d) (fun x _ => x.Fits d j) (fun x _ => x.Fits d j) x := by
    refine hp.wp ?_ x hfits
    intro o ho x' hfits'
    refine ⟨ho.allowed hfits', ?_⟩
    rintro r x'' ⟨t, s, s', _, _, rfl⟩
    rw [(unread_of_onwards ho).step]
    exact hfits'
  exact Prog.wp_mono (fun _ _ _ => trivial) (fun _ _ _ => trivial) _ _ hkept

theorem wp_unread {p : Program β} (hp : p.AllOps Unread) :
    p.wp (knows d) (fun x _ => x = none) (fun x _ => x = none) none := by
  refine hp.wp ?_ none rfl
  rintro o ho x rfl
  refine ⟨allowed_unknown o, ?_⟩
  rintro r x' ⟨t, s, s', _, _, rfl⟩
  exact ho.step none r

theorem knows_harvestFrom (name : LeaseName) (owner : OwnerToken) (leaseSeconds : Int)
    (start : Start) : (harvestFrom d name owner leaseSeconds start).wp (knows d)
      (fun _ _ => True) (fun _ _ => True) none := by
  have hunknown : ∀ job : Job, Known.Fits d job none := by
    intro job known hknown
    cases hknown
  have hwalk : ∀ (job : Job) (x : Known), x.Fits d job →
      (walk job start).wp (knows d) (fun _ _ => True) (fun _ _ => True) x :=
    fun job x hfits => wp_onwards (onwards_walk start) hfits
  unfold harvestFrom
  cases start.cursor.resumptionToken with
  | some token => exact hwalk _ none (hunknown _)
  | none =>
      refine (Prog.wp_bind _ _ _ _ _).2 ?_
      unfold oaiStartDatestamp
      split
      · exact hwalk _ none (hunknown _)
      · split
        · exact hwalk _ none (hunknown _)
        · refine (Prog.wp_bind _ _ _ _ _).2 ((Prog.wp_call _ _ _ _).2
            ⟨trivial, ?_, fun _ _ _ => trivial⟩)
          rintro row x' ⟨t, s, s', _, _, rfl⟩
          have hfits : Known.Fits d (jobOf d name owner leaseSeconds start
              ((row.bind (startDay d)).map .day))
              (some (watermarkKey start.effectiveRequest, row)) := by
            intro known hknown
            cases hknown
            rfl
          cases row with
          | none => exact hwalk _ _ hfits
          | some row =>
              have hsame : (row.lastResponseDate.or row.lastDatestampSeen).map (fun day =>
                  OaiDatestamp.day (if d.settings.oaiOverlapSeconds ≤ 0 then day
                    else subtractOaiOverlap day d.settings.oaiOverlapSeconds)) =
                  (startDay d row).map .day := by
                rw [startDay, Option.map_map]
                rfl
              refine (Prog.wp_ret _ _ _ _).2 ?_
              rw [hsame]
              exact hwalk _ _ hfits

theorem knows_harvestOaiOwned (request : OaiHarvestRequest) (name : LeaseName)
    (owner : OwnerToken) (leaseSeconds : Int) :
    (harvestOaiOwned d request name owner leaseSeconds).wp (knows d) (fun _ _ => True)
      (fun _ _ => True) none := by
  have hfrom : ∀ {p : Program Start}, p.AllOps Unread →
      (p >>= harvestFrom d name owner leaseSeconds).wp (knows d) (fun _ _ => True)
        (fun _ _ => True) none := by
    intro p hp
    refine (Prog.wp_bind _ _ _ _ _).2 (Prog.wp_mono ?_ (fun _ _ _ => trivial) _ _ (wp_unread hp))
    rintro _ start rfl
    exact knows_harvestFrom name owner leaseSeconds start
  refine (Prog.wp_bind _ _ _ _ _).2 ((Prog.wp_call _ _ _ _).2 ⟨trivial, ?_, fun _ _ _ => trivial⟩)
  rintro running x' ⟨t, s, s', _, _, rfl⟩
  cases running with
  | none => exact hfrom ((starting_startNew request).mono fun _ => unread_of_starting)
  | some running => exact hfrom ((resuming_startRunning running).mono fun _ => unread_of_resuming)

/-- A whole harvest, from the start of its process. -/
theorem knows_harvestOai (d : Deployment) (request : OaiHarvestRequest) :
    (harvestOai d request).Keeps (knows d) none := by
  have hdraw : uuid4.AllOps Unread := .call trivial
  refine (Prog.wp_bind _ _ _ _ _).2 (Prog.wp_mono ?_ (fun _ _ _ => trivial) _ _ (wp_unread hdraw))
  rintro _ uuid rfl
  have hacquire : (acquireLease (oaiScopeLeaseName request) (.oaiHarvest uuid)
      (scopeLeaseSeconds d)).AllOps Unread := .call trivial
  refine (Prog.wp_bind _ _ _ _ _).2 (Prog.wp_mono ?_ (fun _ _ _ => trivial) _ _
    (wp_unread hacquire))
  rintro _ acquired rfl
  cases acquired with
  | false =>
      exact Prog.keeps_of_wp (wp_unread ((resuming_harvestInProgress request).mono
        fun _ => unread_of_resuming))
  | true =>
      have hrelease : ∀ x, (releaseLease (oaiScopeLeaseName request) (.oaiHarvest uuid)).wp
          (knows d) (fun _ _ => True) (fun _ _ => True) x := by
        intro x
        exact (Prog.wp_call _ _ _ _).2 ⟨trivial, fun _ _ _ => trivial, fun _ _ _ => trivial⟩
      exact (Prog.wp_tryFinally _ _ _ _ _).2 (Prog.wp_mono (fun x _ _ => hrelease x)
        (fun x _ _ => hrelease x) _ _ (knows_harvestOaiOwned request _ _ _))

/-- Every client keeps to the discipline from the start of its process. -/
theorem knows_program (d : Deployment) (c : Client) (pid : Nat) :
    (c.program d pid).Keeps (knows d) none := by
  have hfeeding := Worker.feeding_program d c pid
  have hunread : ∀ {γ : Type} {p : Program γ}, p.AllOps Unread → p.Keeps (knows d) none :=
    fun hp => Prog.keeps_of_wp (wp_unread hp)
  have hfed : ∀ {γ : Type} {p : Program γ}, p.AllOps Worker.Feeding → p.Keeps (knows d) none :=
    fun hp => hunread (hp.mono fun _ => unread_of_feeding)
  cases c with
  | runOnce targets =>
      have hpass := (Worker.passing_runOnce (w := ⟨d, .worker pid⟩) targets).mono
        fun _ => unread_of_passing
      exact hunread (.bind hpass fun _ => .ret _)
  | harvestOai request =>
      exact (Prog.wp_bind _ _ _ _ _).2 (Prog.wp_mono (fun _ _ _ => trivial)
        (fun _ _ _ => trivial) _ _ (knows_harvestOai d request))
  | enqueueRequestForWork request cacheKey workKind budgetId => exact hfed hfeeding
  | enqueueRefreshIfDue request cacheKey => exact hfed hfeeding
  | createUpstreamRequestBudget maxRequests deadlineAt => exact hfed hfeeding
  | failActiveUpstreamBudgetItems budgetId category message => exact hfed hfeeding

end Stages

section Seen

variable {d : Deployment}

/-- What the process `p` knows of a watermark. -/
abbrev knownOf (p : Nat) (h : History (fleet d)) : Known :=
  (knownMonitor : Monitor (fleet d) Known).view p h

variable (pre : History (fleet d)) {e : Event (fleet d)}

theorem knownOf_of_ne {p : Nat} (hne : e.pid ≠ p) : knownOf p (e :: pre) = knownOf p pre :=
  knownMonitor.view_of_ne pre hne

theorem knownOf_of_op {o : Op} {r : Except Exn o.Res} (ha : e.action = .op o r) :
    knownOf e.pid (e :: pre) = (knownOf e.pid pre).step o r :=
  knownMonitor.view_of_op pre ha

end Seen

/-- In every run of the fleet, who has read a watermark sends the date that it gives. -/
theorem knows_after (d : Deployment) (sched : List (Config.Choice (fleet d))) :
    Throughout (Disciplined (knows d) (knownMonitor : Monitor (fleet d) Known).view)
      (Config.after (fleet d) sched).history := by
  have hkept : (knownMonitor : Monitor (fleet d) Known).Kept fun _ _ => True :=
    { initial := fun _ => trivial
      start := fun _ _ _ _ _ => trivial
      step := fun _ _ _ _ _ _ => trivial
      crash := fun _ _ _ => trivial }
  exact (knownMonitor : Monitor (fleet d) Known).disciplined_after hkept
    (fun pid _ c _ _ _ => knows_program d c pid) sched

/-! ## From one harvest to the next -/

variable {d : Deployment}

/-- The harvest for which the event has set the watermark. -/
def wrote? (key : WatermarkKey) (e : Event (fleet d)) : Option Uuid :=
  match e.action with
  | .op (.oai (.setOaiWatermark k _ _ harvestId _)) r =>
      if k = key ∧
          (r.isOk = true ∨ e.after.oai.watermarks key ≠ e.before.oai.watermarks key) then
        some harvestId
      else none
  | _ => none

/-- The harvest that has set the watermark last, and the run up to there. -/
def lastWrite (key : WatermarkKey) : History (fleet d) → Option (Uuid × History (fleet d))
  | [] => none
  | e :: pre =>
      match wrote? key e with
      | some harvestId => some (harvestId, pre)
      | none => lastWrite key pre

/-- The run up to where the process has read a watermark. -/
def readAt (p : Nat) : History (fleet d) → Option (History (fleet d))
  | [] => none
  | e :: pre =>
      if e.pid = p then
        match e.action with
        | .op (.oai (.getOaiWatermark _)) (.ok _) => some pre
        | .op _ _ => readAt p pre
        | _ => none
      else readAt p pre

/-- The date that the event sends with a first request, and for which scope. -/
def sent? (e : Event (fleet d)) : Option (WatermarkKey × OaiDatestamp) :=
  match e.action with
  | .op (.upstream (.listRecordsBegin call)) _ =>
      (initial? call.params).bind fun sent => sent.2.map fun from_ => (sent.1, from_)
  | _ => none

/-- The date is a day, and not later than this one. -/
def NotLater : OaiDatestamp → Int → Prop
  | .day sent, day => sent ≤ day
  | .raw _, _ => False

/-- Where a harvest sends the date that it has from a watermark: this is no later than the day of
the first page of the chain that last set the watermark. -/
def NoGap (pre : History (fleet d)) (e : Event (fleet d)) : Prop :=
  ∀ sent ∈ sent? e, ∀ read ∈ readAt e.pid pre, ∀ written ∈ lastWrite sent.1 read,
    ∀ pages, PagesOf written.2 sent.1 written.1 pages → ∀ page ∈ pages.getLast?,
      ∀ day ∈ validOaiDay d page.checkpoint.responseDate, NotLater sent.2 day

/-- What the pages say for each date of a watermark. -/
def saidBy (d : Deployment) (log : List Commit) : WatermarkDate → Option Int
  | .lastResponseDate => log.findSome? fun k => validOaiDay d k.checkpoint.responseDate
  | .lastDatestampSeen => maxDatestampSeen (recordsOf log) none

/-- The day is one that the pages say, or one that is stored. -/
def OnRecord (h : History (fleet d)) (key : WatermarkKey) (harvestId : Uuid) (date : WatermarkDate)
    (day : Int) : Prop :=
  saidBy d (commits harvestId h) date = some day ∨ date.stored (stateAfter h).oai key = some day

/-- No response day on record outlasts this one by more than the overlap; nor, where there is none,
does any datestamp. -/
structure WithinOverlap (h : History (fleet d)) (key : WatermarkKey) (harvestId : Uuid)
    (day : Int) : Prop where
  response : ∀ last, OnRecord h key harvestId .lastResponseDate last → overlapped d last ≤ day
  datestamp : (∀ last, ¬ OnRecord h key harvestId .lastResponseDate last) →
    ∀ last, OnRecord h key harvestId .lastDatestampSeen last → overlapped d last ≤ day

/-- Where a harvest sends the date that it has from a watermark: this is no later than the day of
the first page of the chain before it just where that chain has not outlasted the overlap. -/
def GapBeyondOverlap (pre : History (fleet d)) (e : Event (fleet d)) : Prop :=
  ∀ sent ∈ sent? e, ∀ read ∈ readAt e.pid pre, ∀ written ∈ lastWrite sent.1 read,
    ∀ pages, PagesOf written.2 sent.1 written.1 pages → ∀ page ∈ pages.getLast?,
      ∀ day ∈ validOaiDay d page.checkpoint.responseDate,
        (NotLater sent.2 day ↔ WithinOverlap written.2 sent.1 written.1 day)

/-! ### Days -/

theorem overlapped_mono (d : Deployment) {a b : Int} (h : a ≤ b) :
    overlapped d a ≤ overlapped d b := by
  unfold overlapped
  split
  · exact h
  · unfold subtractOaiOverlap utcDay
    refine Int.ediv_le_ediv (by decide) ?_
    have hday := Int.mul_le_mul_of_nonneg_right h (show (0 : Int) ≤ dayMicroseconds by decide)
    omega

theorem newerDay_eq_none {a b : Option Int} : newerDay a b = none ↔ a = none ∧ b = none := by
  cases a with
  | none => simp [newerDay]
  | some a =>
      cases b with
      | none => simp [newerDay]
      | some b =>
          simp only [newerDay]
          split <;> simp

/-- The newer of two days is no later than a third one, less the overlap, if both are. -/
theorem newerDay_overlapped {a b : Option Int} {newest day : Int}
    (h : newerDay a b = some newest) :
    overlapped d newest ≤ day ↔
      ∀ last, a = some last ∨ b = some last → overlapped d last ≤ day := by
  have hboth : ∀ {x y : Int}, y ≤ x → overlapped d x ≤ day → overlapped d y ≤ day :=
    fun hle hday => (overlapped_mono d hle).trans hday
  cases a with
  | none =>
      simp only [newerDay] at h
      simp [h]
  | some a =>
      cases b with
      | none =>
          simp only [newerDay, Option.some.injEq] at h
          simp [h]
      | some b =>
          simp only [newerDay] at h
          constructor
          · intro hday last hlast
            split at h
            · cases h
              rcases hlast with hlast | hlast
              · cases hlast
                exact hday
              · cases hlast
                exact hboth ‹_› hday
            · cases h
              rcases hlast with hlast | hlast
              · cases hlast
                exact hboth (by omega) hday
              · cases hlast
                exact hday
          · intro hall
            split at h
            · cases h
              exact hall _ (Or.inl rfl)
            · cases h
              exact hall _ (Or.inr rfl)

/-- A write merges each of its dates into the stored one. -/
theorem stored_setOaiWatermark (date : WatermarkDate) (o : OaiTables) (key : WatermarkKey)
    (lastResponseDate lastDatestampSeen : Option Int) (harvestId : Uuid) (timestamp : Int) :
    date.stored
        (o.setOaiWatermark key lastResponseDate lastDatestampSeen harvestId timestamp) key =
      newerDay (date.given ⟨key.metadataPrefix, some key.setKey, lastResponseDate,
        lastDatestampSeen, harvestId, timestamp⟩) (date.stored o key) :=
  date.stored_writeWatermark_self o
    ⟨key.metadataPrefix, some key.setKey, lastResponseDate, lastDatestampSeen, harvestId, timestamp⟩

/-- What a row gives as the start, in terms of its two dates. -/
theorem startDay_stored (d : Deployment) (o : OaiTables) (key : WatermarkKey) :
    (o.watermarks key).bind (startDay d) =
      ((WatermarkDate.lastResponseDate.stored o key).or
        (WatermarkDate.lastDatestampSeen.stored o key)).map (overlapped d) := by
  unfold WatermarkDate.stored
  cases o.watermarks key <;> rfl

/-! ### What every run keeps -/

/-- The watermark is what its last writer made of the one it found. -/
def Stamped (h : History (fleet d)) : Prop :=
  ∀ key, ∀ written ∈ lastWrite key h, ∀ date : WatermarkDate,
    date.stored (stateAfter h).oai key =
      newerDay (saidBy d (commits written.1 written.2) date)
        (date.stored (stateAfter written.2).oai key)

/-- What a process knows of a watermark is what was stored where it read it. -/
structure Informed (p : Nat) (h : History (fleet d)) : Prop where
  known : ∀ read ∈ readAt p h, ∃ key,
    knownOf p h = some (key, (stateAfter read).oai.watermarks key)
  stamped : ∀ read ∈ readAt p h, Stamped read

section Events

variable {pre : History (fleet d)} {e : Event (fleet d)} {o : Op} {r : Except Exn o.Res}

theorem lastWrite_cons_some {key : WatermarkKey} {harvestId : Uuid}
    (h : wrote? key e = some harvestId) : lastWrite key (e :: pre) = some (harvestId, pre) := by
  rw [lastWrite, h]

theorem lastWrite_cons_none {key : WatermarkKey} (h : wrote? key e = none) :
    lastWrite key (e :: pre) = lastWrite key pre := by
  rw [lastWrite, h]

/-- The write has taken effect where it is answered, or where it shows. -/
theorem watermark_set {key : WatermarkKey} {lastResponseDate lastDatestampSeen : Option Int}
    {harvestId : Uuid} {timestamp t : Int} {r : Except Exn Unit} {s s' : Store}
    (h : Store.Performed (.oai (.setOaiWatermark key lastResponseDate lastDatestampSeen harvestId
      timestamp)) t r s s')
    (hhappened : r.isOk = true ∨ s'.oai.watermarks key ≠ s.oai.watermarks key) :
    s'.oai = s.oai.setOaiWatermark key lastResponseDate lastDatestampSeen harvestId timestamp := by
  cases r with
  | ok answer =>
      rcases h.of_ok with ⟨input, _, hexec⟩
      exact (congrArg (fun out => out.2.oai) hexec).symm
  | error error =>
      rcases h.state with rfl | ⟨input, rfl⟩
      · rcases hhappened with hok | hchanged
        · cases hok
        · exact absurd rfl hchanged
      · rfl

/-- What is not in the log of a watermark has left it alone. -/
theorem Turn.watermark_kept (he : Turn pre e o r) {key : WatermarkKey}
    (hnone : wrote? key e = none) :
    e.after.oai.watermarks key = (stateAfter pre).oai.watermarks key := by
  rcases watermarks_effect he.performed with hsame | ⟨k, _, _, id, _, rfl, hset⟩
  · rw [hsame]
  · by_cases hkey : k = key
    · by_contra hchanged
      unfold wrote? at hnone
      rw [he.action] at hnone
      simp only at hnone
      rw [if_pos ⟨hkey, Or.inr (by rw [he.before_eq]; exact hchanged)⟩] at hnone
      cases hnone
    · rw [hset]
      exact Function.update_of_ne (Ne.symm hkey) _ _

theorem Turn.stamped (he : Turn pre e o r) (hI : ∀ harvestId, Linked harvestId pre)
    (hS : Stamped pre) : Stamped (e :: pre) := by
  intro key written hwritten date
  cases hwrote : wrote? key e with
  | none =>
      rw [lastWrite_cons_none hwrote] at hwritten
      have hkept : date.stored e.after.oai key = date.stored (stateAfter pre).oai key := by
        cases date <;> simp only [WatermarkDate.stored, he.watermark_kept hwrote]
      exact hkept.trans (hS key written hwritten date)
  | some harvestId =>
      rw [lastWrite_cons_some hwrote] at hwritten
      cases hwritten
      unfold wrote? at hwrote
      rw [he.action] at hwrote
      split at hwrote
      · rename_i k lastResponseDate lastDatestampSeen id timestamp r' hop
        cases hop
        split at hwrote
        · rename_i hcond
          rcases hcond with ⟨rfl, hhappened⟩
          cases hwrote
          rw [he.before_eq] at hhappened
          rcases he.watermark hI rfl with ⟨_, hresponse, hdatestamp, _⟩
          have hset := watermark_set he.performed hhappened
          show date.stored e.after.oai k = _
          rw [hset, stored_setOaiWatermark]
          cases date with
          | lastResponseDate => exact congrArg (newerDay · _) hresponse
          | lastDatestampSeen => exact congrArg (newerDay · _) hdatestamp
        · cases hwrote
      · cases hwrote

/-- Reading a watermark, a process knows what is stored; otherwise it knows what it knew. -/
theorem Turn.known_cases (he : Turn pre e o r) :
    (readAt e.pid (e :: pre) = some pre ∧
        ∃ key, knownOf e.pid (e :: pre) = some (key, (stateAfter pre).oai.watermarks key)) ∨
      readAt e.pid (e :: pre) = readAt e.pid pre ∧
        knownOf e.pid (e :: pre) = knownOf e.pid pre := by
  rw [knownOf_of_op pre he.action]
  simp only [readAt, he.action, if_true]
  unfold Known.step
  split
  · rename_i key row hop
    cases hop
    refine Or.inl ⟨rfl, key, ?_⟩
    rcases he.performed.of_ok with ⟨input, _, hexec⟩
    have hrow : (stateAfter pre).oai.watermarks key = row :=
      Except.ok.inj (congrArg Prod.fst hexec)
    rw [hrow]
  · rename_i o' r' hother hop
    cases hop
    refine Or.inr ⟨rfl, ?_⟩
    split
    · exact (hother _ _ rfl HEq.rfl).elim
    · rfl
  · rename_i hnone
    exact (hnone o r rfl).elim

theorem Turn.informed_read (he : Turn pre e o r) (hS : Stamped pre) {p : Nat}
    (hK : Informed p pre) : Informed p (e :: pre) := by
  by_cases hp : e.pid = p
  · subst hp
    rcases he.known_cases with ⟨hat, hknown⟩ | ⟨hat, hknown⟩
    · refine ⟨?_, ?_⟩
      · intro read hmem
        rw [hat] at hmem
        cases hmem
        exact hknown
      · intro read hmem
        rw [hat] at hmem
        cases hmem
        exact hS
    · refine ⟨?_, ?_⟩
      · rw [hat, hknown]
        exact hK.known
      · rw [hat]
        exact hK.stamped
  · have hat : readAt p (e :: pre) = readAt p pre := by
      simp only [readAt, if_neg hp]
    refine ⟨?_, ?_⟩
    · rw [hat, knownOf_of_ne pre hp]
      exact hK.known
    · rw [hat]
      exact hK.stamped

/-- What a run keeps of the watermarks, and of what processes know of them. -/
structure Dated (h : History (fleet d)) : Prop where
  linked : ∀ harvestId, Linked harvestId h
  stamped : Stamped h
  informed : ∀ p, Informed p h

theorem dated_nil : Dated ([] : History (fleet d)) where
  linked := linked_nil
  stamped key written hwritten := by cases hwritten
  informed p := ⟨fun _ hread => (nomatch hread), fun _ hread => (nomatch hread)⟩

theorem lastWrite_idle (ha : ∀ o r, e.action ≠ .op o r) (key : WatermarkKey) :
    lastWrite key (e :: pre) = lastWrite key pre := by
  refine lastWrite_cons_none ?_
  unfold wrote?
  split
  · exact absurd ‹_› (ha _ _)
  · rfl

theorem readAt_idle (ha : ∀ o r, e.action ≠ .op o r) : readAt e.pid (e :: pre) = none := by
  simp only [readAt, if_true]
  split
  · exact absurd ‹_› (ha _ _)
  · exact absurd ‹_› (ha _ _)
  · rfl

theorem dated_step (h : Orderly pre e) (hD : Dated pre) : Dated (e :: pre) := by
  have hlinked := fun harvestId => linked_step h (hD.linked harvestId)
  by_cases ha : ∃ o r, e.action = .op o r
  · rcases ha with ⟨o, r, ha⟩
    have he := h.turn ha
    exact ⟨hlinked, he.stamped hD.linked hD.stamped,
      fun p => he.informed_read hD.stamped (hD.informed p)⟩
  · have ha' : ∀ o r, e.action ≠ .op o r := fun o r h => ha ⟨o, r, h⟩
    have hstate : stateAfter (e :: pre) = stateAfter pre := Queue.after_eq_of_not_op h.legal ha'
    refine ⟨hlinked, ?_, ?_⟩
    · intro key written hwritten
      rw [lastWrite_idle ha'] at hwritten
      rw [hstate]
      exact hD.stamped key written hwritten
    · intro p
      by_cases hp : e.pid = p
      · subst hp
        refine ⟨?_, ?_⟩
        · rw [readAt_idle ha']
          exact fun _ hread => (nomatch hread)
        · rw [readAt_idle ha']
          exact fun _ hread => (nomatch hread)
      · have hat : readAt p (e :: pre) = readAt p pre := by
          simp only [readAt, if_neg hp]
        refine ⟨?_, ?_⟩
        · rw [hat, knownOf_of_ne pre hp]
          exact (hD.informed p).known
        · rw [hat]
          exact (hD.informed p).stamped

end Events

/-! ## The theorem -/

/-- The start from a watermark that pages were merged into is within the overlap of a day just where
what the pages say and what was stored are. -/
theorem withinOverlap_iff {h : History (fleet d)} {key : WatermarkKey} {harvestId : Uuid}
    {start day : Int} (hstart : (((newerDay (saidBy d (commits harvestId h) .lastResponseDate)
        (WatermarkDate.lastResponseDate.stored (stateAfter h).oai key)).or
      (newerDay (saidBy d (commits harvestId h) .lastDatestampSeen)
        (WatermarkDate.lastDatestampSeen.stored (stateAfter h).oai key))).map
          (overlapped d)) = some start) :
    start ≤ day ↔ WithinOverlap h key harvestId day := by
  rcases Option.map_eq_some_iff.1 hstart with ⟨newest, hnewest, rfl⟩
  cases hresponse : newerDay (saidBy d (commits harvestId h) .lastResponseDate)
      (WatermarkDate.lastResponseDate.stored (stateAfter h).oai key) with
  | some last =>
      rw [hresponse] at hnewest
      cases hnewest
      rw [newerDay_overlapped hresponse]
      refine ⟨fun hall => ⟨hall, fun hnone => ?_⟩, fun hwithin => hwithin.response⟩
      rw [newerDay_eq_none.2
        ⟨Option.eq_none_iff_forall_ne_some.2 fun last hlast => hnone last (Or.inl hlast),
          Option.eq_none_iff_forall_ne_some.2 fun last hlast => hnone last (Or.inr hlast)⟩]
        at hresponse
      cases hresponse
  | none =>
      rw [hresponse, Option.none_or] at hnewest
      rw [newerDay_overlapped hnewest]
      rcases newerDay_eq_none.1 hresponse with ⟨hsaid, hstored⟩
      have hnone : ∀ last, ¬ OnRecord h key harvestId .lastResponseDate last := by
        rintro last (hlast | hlast)
        · rw [hsaid] at hlast
          cases hlast
        · rw [hstored] at hlast
          cases hlast
      exact ⟨fun hall => ⟨fun last hlast => absurd hlast (hnone last), fun _ => hall⟩,
        fun hwithin => hwithin.datestamp hnone⟩

/-- Who knows a watermark sends its start. -/
theorem sent_of_known {pre : History (fleet d)} {e : Event (fleet d)}
    (hknows : Disciplined (knows d) (knownMonitor : Monitor (fleet d) Known).view pre e)
    {key : WatermarkKey} {row : Option OaiWatermarkRow}
    (hknown : knownOf e.pid pre = some (key, row)) {sent : WatermarkKey × OaiDatestamp}
    (hsent : sent ∈ sent? e) :
    ∃ start, row.bind (startDay d) = some start ∧ sent = (key, .day start) := by
  unfold sent? at hsent
  split at hsent
  · rename_i call r ha
    rcases Option.bind_eq_some_iff.1 hsent with ⟨initial, hinitial, hmap⟩
    rcases Option.map_eq_some_iff.1 hmap with ⟨from_, hfrom, rfl⟩
    have hallowed : Known.Allowed d (knownOf e.pid pre) (.upstream (.listRecordsBegin call)) :=
      hknows.1 _ r ha
    have hsame := hallowed _ hknown initial hinitial
    rw [hsame] at hfrom
    rcases Option.map_eq_some_iff.1 hfrom with ⟨start, hstart, rfl⟩
    exact ⟨start, hstart, by rw [hsame]⟩
  · cases hsent

theorem gapBeyondOverlap_of_dated {pre : History (fleet d)} {e : Event (fleet d)}
    (hD : Dated pre)
    (hknows : Disciplined (knows d) (knownMonitor : Monitor (fleet d) Known).view pre e) :
    GapBeyondOverlap pre e := by
  intro sent hsent read hread written hwritten pages _ page _ day _
  rcases (hD.informed e.pid).known read hread with ⟨key, hknown⟩
  rcases sent_of_known hknows hknown hsent with ⟨start, hstart, rfl⟩
  have hstamped := (hD.informed e.pid).stamped read hread key written hwritten
  rw [startDay_stored, hstamped, hstamped] at hstart
  exact withinOverlap_iff hstart

theorem gap_beyond_overlap (d : Deployment) (sched : List (Config.Choice (fleet d))) :
    Throughout GapBeyondOverlap (Config.after (fleet d) sched).history :=
  Throughout.of_invariant dated_nil (fun _ _ hD h => dated_step h.1 hD)
    (fun _ _ hD h => gapBeyondOverlap_of_dated hD h.2)
    ((orderly_after d sched).and (knows_after d sched))

/-! ## A harvest over midnight -/

instance (sent : OaiDatestamp) (day : Int) : Decidable (NotLater sent day) :=
  match sent with
  | .day sent => inferInstanceAs (Decidable (sent ≤ day))
  | .raw _ => isFalse id

/-- `NoGap` where the last chain is that of one job. -/
def NoGapOfOne (pre : History (fleet d)) (e : Event (fleet d)) : Prop :=
  ∀ sent ∈ sent? e, ∀ read ∈ readAt e.pid pre, ∀ written ∈ lastWrite sent.1 read,
    startToken written.1 written.2 = none →
      ∀ page ∈ (commits written.1 written.2).getLast?,
        ∀ day ∈ validOaiDay d page.checkpoint.responseDate, NotLater sent.2 day

theorem NoGap.ofOne {pre : History (fleet d)} {e : Event (fleet d)} (h : NoGap pre e) :
    NoGapOfOne pre e :=
  fun sent hsent read hread written hwritten hstart =>
    h sent hsent read hread written hwritten _ (.first written.1 hstart)

instance (pre : History (fleet d)) (e : Event (fleet d)) : Decidable (NoGapOfOne pre e) :=
  inferInstanceAs (Decidable (∀ sent ∈ sent? e, ∀ read ∈ readAt e.pid pre,
    ∀ written ∈ lastWrite sent.1 read, startToken written.1 written.2 = none →
      ∀ page ∈ (commits written.1 written.2).getLast?,
        ∀ day ∈ validOaiDay d page.checkpoint.responseDate, NotLater sent.2 day))

/-- CPython's `fromisoformat` on the two response dates of the run. -/
def aroundMidnight : Deployment :=
  { fromIsoformat := fun text =>
      if text = "2026-05-28T23:59:00+00:00" then some 1780012740000000
      else if text = "2026-05-29T00:01:00+00:00" then some 1780012860000000
      else none }

/-- A page with one deleted record. -/
def pageDated (responseDate : String) (next : Option ResumptionToken) : Input :=
  { page := .ok
      { records :=
          [{ oaiIdentifier := "oai:arXiv.org:2401.00001"
             metadataPrefix := .arXiv
             deleted := true }]
        responseDate := some responseDate
        resumptionToken := next } }

/-- Process 0 harvests two pages, the first before midnight and the last after it; process 1 asks
for what has changed since. -/
def overMidnight : List (Config.Choice (fleet aroundMidnight)) :=
  .start 0 (.harvestOai {}) :: runs 0 25 ++
    .run 0 (pageDated "2026-05-28T23:59:00+00:00" (some firstToken)) :: runs 0 17 ++
    .tick 120000000 :: runs 0 8 ++
    .run 0 (pageDated "2026-05-29T00:01:00+00:00" none) :: runs 0 13 ++
    .tick 10000000 :: .start 1 (.harvestOai {}) :: runs 1 25

set_option maxRecDepth 8000 in
theorem gap_over_midnight :
    ¬ Throughout NoGap (Config.after (fleet aroundMidnight) overMidnight).history ∧
      ((Config.after (fleet aroundMidnight) overMidnight).state.oai.job? 3).map
        (fun job => (job.status, job.pagesTotal)) = some (.completed, 2) ∧
      (commits 3 (Config.after (fleet aroundMidnight) overMidnight).history).map
        (fun k => validOaiDay aroundMidnight k.checkpoint.responseDate) =
          [some 20602, some 20601] ∧
      ((Config.after (fleet aroundMidnight) overMidnight).history.head?.bind sent?) =
        some (watermarkKey {}, .day 20602) := by
  refine ⟨?_, by decide +kernel, by decide +kernel, by decide +kernel⟩
  intro hgap
  have hone : ¬ Throughout NoGapOfOne
      (Config.after (fleet aroundMidnight) overMidnight).history := by
    decide +kernel
  exact hone (hgap.mono fun _ _ h => h.ofOne)

end Harvest
end Huldra
