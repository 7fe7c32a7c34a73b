import Huldra.Library.AlwaysReadable
import Huldra.Maintenance.Book
import Huldra.Maintenance.Parts
import Huldra.Queue.Budgets
import Huldra.Upstream.Rates

/-!
# Migrations — running them again changes nothing

Every worker pass and every broker applies the migrations again.  Their statements have no guard:
they raise counters, add memberships and fill columns wherever they find less than they expect.
What the store and the limiter leave behind is never less: the counters of the rates are in order,
primary budgets are members with a budget of their own, completed entries are filled in.
-/

namespace Huldra
namespace Migrations

open Process (Prog Made Discipline)
open Process.System

/-! ## What the statements expect -/

/-- No counter of the row is behind one that it includes. -/
structure Counted (state : RateState) : Prop where
  upstream : state.consecutive429Total ≤ state.upstream429Total
  limited : state.upstream429Total ≤ state.upstreamRateLimitedTotal
  consecutive : state.consecutive429Total ≤ state.consecutiveRateLimitTotal

/-- A completed entry has a refresh time, and its coverage is known. -/
def Filled (entry : CacheEntry) : Prop :=
  entry.status = .completed →
    entry.refreshAfter.isSome = true ∧ entry.coverageStatus ≠ .unknown

/-- What every operation keeps of the store. -/
structure Settled (s : Store) : Prop where
  rates : ∀ name state, s.rates name = some state → Counted state
  ledger : Queue.Ledger s.nextUuid s.queue
  funded : Queue.Funded s.queue
  entries : ∀ entry ∈ s.library.cacheEntries, Filled entry

theorem Counted.fresh (name : String) : Counted { name := name } :=
  ⟨Nat.le_refl _, Nat.le_refl _, Nat.le_refl _⟩

theorem settled_empty : Settled {} := by
  refine ⟨?_, ⟨List.nodup_nil, ?_, ?_, ?_⟩, ?_, ?_⟩
  · intro name state h
    cases h
  all_goals
    intro x h
    cases h

/-- Where the counters are in order there is nothing to raise. -/
theorem migrate_rates {s : Store} (h : ∀ name state, s.rates name = some state → Counted state) :
    s.migrate.rates = s.rates := by
  funext name
  simp only [Store.migrate]
  cases hrow : s.rates name with
  | none => rfl
  | some state =>
      have hcounted := h name state hrow
      simp only [Option.map_some, Option.some.injEq]
      rw [Nat.max_eq_left hcounted.upstream, Nat.max_eq_left hcounted.limited,
        Nat.max_eq_left hcounted.consecutive]

/-- Where completed entries are filled in there is nothing to fill. -/
theorem backfillCacheEntries_eq {l : LibraryTables} (h : ∀ entry ∈ l.cacheEntries, Filled entry) :
    l.backfillCacheEntries = l := by
  have hsame : ∀ entry ∈ l.cacheEntries, (if entry.status = .completed then
      { entry with
        refreshAfter := entry.refreshAfter.or entry.completedAt
        coverageStatus :=
          if entry.coverageStatus = .unknown then .slice else entry.coverageStatus }
      else entry) = id entry := by
    intro entry hentry
    split
    · rename_i hcompleted
      rcases h entry hentry hcompleted with ⟨hrefresh, hcoverage⟩
      rcases Option.isSome_iff_exists.1 hrefresh with ⟨due, hdue⟩
      rw [if_neg hcoverage, hdue, Option.some_or, ← hdue]
      rfl
    · rfl
  unfold LibraryTables.backfillCacheEntries
  rw [List.map_congr_left hsame, List.map_id]

/-- Where primary budgets are members no membership is missing. -/
theorem backfillOrphans_eq_false {q : QueueTables} (h : Queue.Backed q) :
    q.backfillOrphans = false := by
  refine List.any_eq_false.2 fun row hrow horphan => ?_
  rcases (Option.any_eq_true _ _).1 horphan with ⟨budgetId, hbudget, hmissing⟩
  rcases List.mem_map.1 (h row hrow budgetId hbudget) with ⟨m, hm, hkey⟩
  simp only [Queue.key, Prod.mk.injEq] at hkey
  have hmember : (q.memberships.any fun m =>
      m.requestId = row.requestId && m.budgetId = budgetId) = true :=
    List.any_eq_true.2 ⟨m, hm, by simp [hkey]⟩
  simp [hmember] at hmissing

/-- On a settled store the migrations raise nothing and change nothing. -/
theorem Settled.initSchema {s : Store} (h : Settled s) : s.initSchema = (.ok (), s) := by
  have hqueue := h.ledger.backed.backfill
  have hmigrate : s.migrate = s := by
    calc s.migrate
        = { s with
            rates := s.migrate.rates
            queue := s.queue.backfillMemberships
            library := s.library.backfillCacheEntries } := rfl
      _ = s := by rw [migrate_rates h.rates, hqueue, backfillCacheEntries_eq h.entries]
  rw [Store.initSchema, backfillOrphans_eq_false h.ledger.backed, hmigrate]
  rfl

/-! ## Operations of the store -/

/-- The operations that write the rates in order, known coverage, and failures as failures. -/
def Clean : Op → Prop
  | .rate (.setRateState state) => Counted state
  | .library (.recordCompletedCacheEntry write) => write.coverageStatus ≠ .unknown
  | .library (.recordCacheFailure write) => write.status ≠ .completed
  | _ => True

theorem filled_putCacheEntry {l : LibraryTables} (h : ∀ entry ∈ l.cacheEntries, Filled entry)
    {entry : CacheEntry} (hentry : Filled entry) :
    ∀ e ∈ (l.putCacheEntry entry).cacheEntries, Filled e := by
  unfold LibraryTables.putCacheEntry
  split
  · intro e he
    rcases List.mem_map.1 he with ⟨old, hold, rfl⟩
    split
    · exact hentry
    · exact h old hold
  · intro e he
    rcases List.mem_append.1 he with hold | hnew
    · exact h e hold
    · rw [List.mem_singleton.1 hnew]
      exact hentry

theorem filled_libraryExec {l : LibraryTables} (h : ∀ entry ∈ l.cacheEntries, Filled entry)
    {o : LibraryOp} (hclean : Clean (.library o)) :
    ∀ entry ∈ (o.exec l).2.cacheEntries, Filled entry := by
  cases o with
  | recordCompletedCacheEntry w =>
      simp only [LibraryOp.exec, LibraryTables.recordCompletedCacheEntry_cacheEntries]
      refine filled_putCacheEntry (by simpa using h) fun _ => ⟨rfl, hclean⟩
  | recordCacheFailure w =>
      simp only [LibraryOp.exec, LibraryTables.recordCacheFailure]
      split
      · rename_i previous hprevious
        have hold := h previous (List.mem_of_find?_eq_some hprevious)
        refine filled_putCacheEntry h fun hcompleted => ?_
        -- A failed refresh keeps what the completed entry had.
        by_cases hstatus : previous.status = .completed
        · exact hold hstatus
        · rw [if_neg hstatus] at hcompleted
          exact absurd hcompleted hclean
      · exact filled_putCacheEntry h fun hcompleted => absurd hcompleted hclean
  | upsertPapers papers timestamp =>
      simpa [LibraryOp.exec] using h
  | upsertOaiRecords records timestamp =>
      simpa [LibraryOp.exec] using h
  | _ => exact h

theorem filled_exec {s : Store} (h : ∀ entry ∈ s.library.cacheEntries, Filled entry) {o : Op}
    (hclean : Clean o) (t : Int) (input : Input) :
    ∀ entry ∈ (Store.exec o t input s).2.library.cacheEntries, Filled entry := by
  cases o with
  | library o => exact filled_libraryExec h hclean
  | initSchema =>
      simp only [Store.exec]
      rcases s.initSchema_cases with heq | heq
      · rw [heq]
        exact h
      · simpa only [heq, Store.migrate, backfillCacheEntries_eq h] using h
  | renewWorkerFetchOwnership requestId owner name ttl ids =>
      simpa only [Store.exec, Store.renewWorkerFetchOwnership_library] using h
  | checkpointOaiPage c =>
      simp only [Store.exec, Store.checkpointOaiPage]
      split
      · simpa using h
      · exact h
  | enqueueRefreshIfDue request cacheKey timeout current =>
      simp only [Store.exec]
      rcases s.enqueueRefreshIfDue_library request cacheKey timeout current with heq | ⟨due, heq⟩
      · rw [heq]
        exact h
      · rw [heq]
        intro e he
        rcases List.mem_map.1 he with ⟨old, hold, rfl⟩
        split
        · exact fun hcompleted => ⟨rfl, (h old hold hcompleted).2⟩
        · exact h old hold
  | clock o => exact h
  | lease o => exact h
  | rate o => exact h
  | queue o => exact h
  | oai o => exact h
  | upstream o => exact h

/-- Every clean operation keeps the store settled. -/
theorem Settled.exec {s : Store} (h : Settled s) {o : Op} (hclean : Clean o) (t : Int)
    (input : Input) : Settled (Store.exec o t input s).2 := by
  have hperf : Store.Performed o t (.error .unexpected) s (Store.exec o t input s).2 :=
    Or.inr ⟨.unexpected, rfl, rfl, Or.inr ⟨input, rfl⟩⟩
  refine ⟨?_, h.ledger.performed hperf, h.funded.exec h.ledger.backed o t input,
    filled_exec h.entries hclean t input⟩
  intro name state hrow
  rcases Upstream.rates_exec o t input s with hsame | ⟨_, hmigrated⟩ | ⟨new, rfl, hwritten⟩
  · rw [hsame] at hrow
    exact h.rates name state hrow
  · rw [hmigrated, migrate_rates h.rates] at hrow
    exact h.rates name state hrow
  · rw [hwritten] at hrow
    by_cases hname : name = new.name
    · rw [hname, Function.update_self, Option.some.injEq] at hrow
      exact hrow ▸ hclean
    · rw [Function.update_of_ne hname] at hrow
      exact h.rates name state hrow

/-! ## Operations of the archive -/

theorem Settled.execJob {a : Archive} (h : Settled a.store) (o : JobOp) :
    Settled (a.execJob o).2.store := by
  cases o with
  | createSyncJob request mode budgetId timestamp =>
      exact ⟨h.rates, ⟨h.ledger.nodup, fun row hrow => Nat.lt_succ_of_lt (h.ledger.fresh row hrow),
        h.ledger.attached, h.ledger.backed⟩, h.funded, h.entries⟩
  | gc cutoff dryRun =>
      cases dryRun with
      | true => exact h
      | false => exact ⟨h.rates, h.ledger.gc cutoff _, h.funded.gc cutoff _, h.entries⟩
  | recordSyncJobPage => exact h
  | deleteSyncJobFollowupPages => exact h
  | completeSyncJob => exact h
  | getUpstreamRequestBudgetRequestsStarted => exact h

def CleanOp : ArchiveOp → Prop
  | .store o => Clean o
  | .job _ => True

theorem Settled.performed {a a' : Archive} {o : ArchiveOp} {t : Int} {r : Except Exn o.Res}
    (h : Settled a.store) (hclean : CleanOp o) (hperf : Archive.Performed o t r a a') :
    Settled a'.store := by
  rcases hperf.state with rfl | ⟨input, rfl⟩
  · exact h
  · cases o with
    | store o => exact h.exec hclean t input
    | job o => exact h.execJob o

/-- On a settled archive the migrations raise nothing and change nothing. -/
theorem Settled.exec_initSchema {a : Archive} (h : Settled a.store) (t : Int) (input : Input) :
    a.exec (.store .initSchema) t input = (.ok (), a) := by
  have hexec : Store.exec .initSchema t input a.store = (.ok (), a.store) := h.initSchema
  simp only [Archive.exec, hexec, Op.recordedEvents, Archive.record, List.map_nil,
    List.append_nil]

/-! ## What the programs write -/

section Programs

variable {Client Out : Type} {program : Client → Nat → ArchiveProgram Out}

/-- The rates that a process has read last. -/
def lastRead (Client Out : Type) (program : Client → Nat → ArchiveProgram Out) :
    Monitor (archiveSystem Client Out program) RateState where
  initial _ := { name := Limiter.name }
  start x _ _ := x
  step x o r _ := match o, r with
    | .store (.rate (.getRateState _)), .ok state => state
    | _, _ => x
  crash x := x
  clock _ := 0
  clock_initial _ := Process.System.no_time
  clock_start _ _ _ h := h
  clock_step _ _ _ _ h := h
  clock_crash _ := Int.le_refl 0

/-- What is written is clean; rates are, if those that were read are. -/
def Tidy (x : RateState) : ArchiveOp → Prop
  | .store (.rate (.setRateState state)) => Counted x → Counted state
  | .store o => Clean o
  | .job _ => True

abbrev tidy (Client Out : Type) (program : Client → Nat → ArchiveProgram Out) :
    Discipline archive RateState :=
  (lastRead Client Out program).discipline Tidy

theorem counted_startedState {state : RateState} (h : Counted state) (owner : OwnerToken)
    (startedAt wait : Int) : Counted (Limiter.startedState state owner startedAt wait) :=
  ⟨h.upstream, h.limited, h.consecutive⟩

theorem counted_succeededState {state : RateState} (h : Counted state) (owner : OwnerToken)
    (status current : Int) : Counted (Limiter.succeededState state owner status current) :=
  ⟨Nat.zero_le _, h.limited, Nat.le_refl _⟩

theorem counted_failedState {state : RateState} (h : Counted state) (owner : OwnerToken)
    (status : Option Int) (message : Option String) (current : Int) :
    Counted (Limiter.failedState state owner status message current) :=
  ⟨h.upstream, h.limited, h.consecutive⟩

/-- A 429 is counted everywhere, any other limit ends the series of 429s. -/
theorem counted_rateLimitedState {state : RateState} (h : Counted state)
    (current cooldownUntil : Int) (effective : Rat) (retryAfter : Option Int) (statusCode : Int)
    (kind family : String) (message : Option String) :
    Counted (Limiter.rateLimitedState state current cooldownUntil effective retryAfter statusCode
      kind family message) := by
  have hupstream := h.upstream
  have hlimited := h.limited
  have hconsecutive := h.consecutive
  by_cases hstatus : statusCode = 429
  · constructor <;> simp only [Limiter.rateLimitedState, if_pos hstatus] <;> omega
  · constructor <;> simp only [Limiter.rateLimitedState, if_neg hstatus] <;> omega

/-- The operations that may be asked for whatever was read. -/
def Plain : Op → Prop
  | .rate (.setRateState _) => False
  | o => Clean o

theorem keeps_plain {β : Type} {p : Program β} (h : p.AllOps Plain) (x : RateState) :
    (embed p).Keeps (tidy Client Out program) x := by
  refine Prog.keeps_of_wp ((allOps_embed (P := fun o => ∀ x, Tidy x o) (h.mono ?_)).wp
    (J := fun _ => True) (fun o ho x _ => ⟨ho x, fun _ _ _ => trivial⟩) x trivial)
  intro o ho x
  unfold Plain at ho
  unfold Tidy
  split
  · rename_i heq
    cases heq
    exact ho.elim
  · rename_i heq
    cases heq
    split at ho
    · exact ho.elim
    · exact ho
  · trivial

theorem plain_releaseLease (owner : OwnerToken) :
    (releaseLease Limiter.leaseName owner).AllOps Plain :=
  .call trivial

/-- Giving the lease back when the start of a request cannot be recorded. -/
theorem plain_giveBack (owner : OwnerToken) (e : Exn) :
    (if e = Exn.interrupt then (Prog.raise e : Program Unit)
      else do
        releaseLease Limiter.leaseName owner
        .raise e).AllOps Plain := by
  split
  · trivial
  · exact .bind (plain_releaseLease owner) fun _ => trivial

theorem plain_report (event : DiagnosticEvent) (owner : OwnerToken) :
    ((recordEvent event).tryFinally (releaseLease Limiter.leaseName owner)).AllOps Plain :=
  .tryFinally (.call trivial) (plain_releaseLease owner)

theorem keeps_afterSuccess (owner : OwnerToken) (status : Int) (x : RateState) :
    (embed (Limiter.afterSuccess owner status)).Keeps (tidy Client Out program) x := by
  refine ⟨trivial, ?_⟩
  rintro (e | current) x' ⟨_, _, _, _, _, rfl⟩
  · trivial
  · refine ⟨trivial, ?_⟩
    rintro (e | previous) x' ⟨_, _, _, _, _, rfl⟩
    · trivial
    · refine ⟨fun h => counted_succeededState h .., ?_⟩
      rintro (e | _) x' ⟨_, _, _, _, _, rfl⟩
      · trivial
      · exact keeps_plain (plain_report ..) _

theorem keeps_afterFailure (owner : OwnerToken) (status : Option Int) (message : String)
    (x : RateState) :
    (embed (Limiter.afterFailure owner status message)).Keeps (tidy Client Out program) x := by
  refine ⟨trivial, ?_⟩
  rintro (e | current) x' ⟨_, _, _, _, _, rfl⟩
  · trivial
  · refine ⟨trivial, ?_⟩
    rintro (e | previous) x' ⟨_, _, _, _, _, rfl⟩
    · trivial
    · refine ⟨fun h => counted_failedState h .., ?_⟩
      rintro (e | _) x' ⟨_, _, _, _, _, rfl⟩
      · trivial
      · exact keeps_plain (plain_report ..) _

theorem keeps_afterRateLimit (d : Deployment) (owner : OwnerToken) (retryAfter : Option Int)
    (statusCode : Int) (message : Option String) (x : RateState) :
    (embed (Limiter.afterRateLimit d owner retryAfter statusCode message)).Keeps
      (tidy Client Out program) x := by
  refine ⟨trivial, ?_⟩
  rintro (e | current) x' ⟨_, _, _, _, _, rfl⟩
  · trivial
  · refine ⟨trivial, ?_⟩
    rintro (e | _) previous ⟨_, _, _, _, _, rfl⟩
    · trivial
    · -- The jitter is drawn between the read and the write.
      unfold Limiter.effectiveCooldown
      dsimp only
      split
      · refine ⟨trivial, ?_⟩
        rintro (e | sampled) x' ⟨_, _, _, _, _, rfl⟩
        · trivial
        · simp only [Prog.handle_ret, Prog.pure_eq, Prog.bind_eq]
          split
          · trivial
          refine ⟨fun h => counted_rateLimitedState h .., ?_⟩
          rintro (e | _) x' ⟨_, _, _, _, _, rfl⟩
          · trivial
          · exact keeps_plain (.bind (plain_report ..) fun _ => .ret _) _
      · simp only [Prog.handle_ret, Prog.pure_eq, Prog.bind_eq]
        split
        · trivial
        refine ⟨fun h => counted_rateLimitedState h .., ?_⟩
        rintro (e | _) x' ⟨_, _, _, _, _, rfl⟩
        · trivial
        · exact keeps_plain (.bind (plain_report ..) fun _ => .ret _) _

theorem keeps_beforeRequest (d : Deployment) (owner : OwnerToken) (x : RateState) :
    (embed (Limiter.beforeRequest d owner)).Keeps (tidy Client Out program) x := by
  refine ⟨trivial, ?_⟩
  rintro (e | acquired) x' ⟨_, _, _, _, _, rfl⟩
  · trivial
  · cases acquired with
    | false => trivial
    | true =>
        refine ⟨trivial, ?_⟩
        rintro (e | current) x' ⟨_, _, _, _, _, rfl⟩
        · trivial
        · refine ⟨trivial, ?_⟩
          rintro (e | _) state ⟨_, _, _, _, _, rfl⟩
          · trivial
          · cases hcooldown : Limiter.activeCooldown state current with
            | some cooldown =>
                simp only [Prog.handle_ret, hcooldown]
                exact keeps_plain (.bind (plain_releaseLease owner) fun _ => .ret _) state
            | none =>
                simp only [Prog.handle_ret, hcooldown]
                refine ⟨trivial, ?_⟩
                rintro (e | renewed) x' ⟨_, _, _, _, _, rfl⟩
                · trivial
                · cases renewed with
                  | false => trivial
                  | true =>
                      refine ⟨fun h => counted_startedState h .., ?_⟩
                      rintro (e | _) x' ⟨_, _, _, _, _, rfl⟩
                      · exact keeps_plain (.bind (plain_giveBack owner e) fun _ => .ret _) _
                      · have hrecorded : ∀ event, (recordEvent event).AllOps Plain :=
                          fun _ => .call trivial
                        exact keeps_plain (.bind (.tryExcept (hrecorded _)
                          fun e => plain_giveBack owner e) fun _ => .ret _) _

theorem plain_of_ordinary {funds : Option Uuid → Prop} {opens : Prop} {o : Op}
    (h : Ordinary funds opens o) : Plain o := by
  cases o with
  | rate o =>
      cases o with
      | setRateState state => exact h.elim
      | _ => trivial
  | library o =>
      cases o with
      | recordCompletedCacheEntry write => exact h
      | recordCacheFailure write => exact h
      | _ => trivial
  | _ => trivial

/-- The operations and the limiter calls keep to the discipline, whatever was read before. -/
theorem keeps_part {d : Deployment} {funds : Option Uuid → Prop} {opens : Prop} {β : Type}
    {p : ArchiveProgram β} (h : ArchivePart d funds opens β p) (x : RateState) :
    p.Keeps (tidy Client Out program) x := by
  cases h with
  | store hp =>
      cases hp with
      | op ho => exact keeps_plain (.call (plain_of_ordinary ho)) x
      | beforeRequest owner => exact keeps_beforeRequest d owner x
      | afterSuccess owner status => exact keeps_afterSuccess owner status x
      | afterRateLimit owner retryAfter statusCode message =>
          exact keeps_afterRateLimit d owner retryAfter statusCode message x
      | afterFailure owner status message => exact keeps_afterFailure owner status message x
  | job ho => exact Prog.keeps_of_wp ((Prog.wp_call ..).2 ⟨trivial, fun _ _ _ => trivial,
      fun _ _ _ => trivial⟩)

/-! ## Whole runs -/

/-- What a run keeps: the store is settled, and so is what each process has read of the rates. -/
structure Kept (h : History (archiveSystem Client Out program)) : Prop where
  store : Settled (stateAfter h).store
  views : ∀ pid, Counted ((lastRead Client Out program).view pid h)

theorem Tidy.clean {x : RateState} {o : ArchiveOp} (h : Tidy x o) (hx : Counted x) :
    CleanOp o := by
  cases o with
  | store o =>
      cases o with
      | rate o =>
          cases o with
          | setRateState state => exact h hx
          | _ => trivial
      | _ => exact h
  | job o => trivial

/-- What is read of a settled store is in order. -/
theorem counted_read {x : RateState} {o : ArchiveOp} {t : Int} {r : archive.Answer o}
    {a a' : Archive} (h : Settled a.store) (hx : Counted x)
    (hperf : Archive.Performed o t r a a') :
    Counted ((lastRead Client Out program).step x o r t) := by
  unfold lastRead
  dsimp only
  split
  · rename_i name state
    rcases hperf.of_ok with ⟨input, _, hexec⟩
    have hstate : (a.store.rates name).getD { name := name } = state :=
      Except.ok.inj (congrArg Prod.fst hexec)
    rw [← hstate]
    cases hrow : a.store.rates name with
    | none => exact .fresh name
    | some state => exact h.rates name state hrow
  · exact hx

theorem Kept.cons {pre : History (archiveSystem Client Out program)}
    {e : Event (archiveSystem Client Out program)} (h : Kept pre) (hlegal : Legal pre e)
    (hdisciplined :
      Disciplined (tidy Client Out program) (lastRead Client Out program).view pre e) :
    Kept (e :: pre) := by
  have hbefore : Settled e.before.store := by
    rw [hlegal.before_eq]
    exact h.store
  have hviews : ∀ pid ≠ e.pid, Counted ((lastRead Client Out program).view pid (e :: pre)) := by
    intro pid hne
    rw [(lastRead Client Out program).view_of_ne pre hne.symm]
    exact h.views pid
  have hown : Settled e.after.store ∧
      Counted ((lastRead Client Out program).view e.pid (e :: pre)) := by
    cases ha : e.action with
    | start c =>
        rw [hlegal.after_eq_of_start ha, (lastRead Client Out program).view_of_start pre ha]
        exact ⟨hbefore, h.views e.pid⟩
    | crash =>
        rw [hlegal.after_eq_of_crash ha, (lastRead Client Out program).view_of_crash pre ha]
        exact ⟨hbefore, h.views e.pid⟩
    | op o r =>
        rw [(lastRead Client Out program).view_of_op pre ha]
        have htidy : Tidy _ o := hdisciplined.1 o r ha
        have hperf : Archive.Performed o e.time r e.before e.after := hlegal.executed ha
        refine ⟨hbefore.performed (htidy.clean (h.views e.pid)) hperf, ?_⟩
        exact counted_read hbefore (h.views e.pid) hperf
  refine ⟨hown.1, fun pid => ?_⟩
  by_cases hpid : pid = e.pid
  · rw [hpid]
    exact hown.2
  · exact hviews pid hpid

/-- In every state that the operations of the store and the calls of the limiter lead to, in
whatever order processes ask for them, the migrations find what they expect: they raise nothing
and change nothing. -/
theorem initSchema_idle (d : Deployment)
    (hmade : ∀ c pid, ArchiveMadeOf d (fun _ => True) True (program c pid))
    (sched : List (Config.Choice (archiveSystem Client Out program))) (t : Int) (input : Input) :
    Settled (Config.after (archiveSystem Client Out program) sched).state.store ∧
      Archive.exec (.store .initSchema) t input
          (Config.after (archiveSystem Client Out program) sched).state =
        (.ok (), (Config.after (archiveSystem Client Out program) sched).state) := by
  have hkept : (lastRead Client Out program).Kept fun _ _ => True :=
    ⟨fun _ => trivial, fun _ _ _ _ _ => trivial, fun _ _ _ _ _ _ => trivial, fun _ _ _ => trivial⟩
  have hdisciplined := (lastRead Client Out program).disciplined_after hkept
    (fun pid x c _ _ _ => (hmade c pid).keeps (fun _ _ hp x => keeps_part hp x) x) sched
  have hinv : Kept (Config.after (archiveSystem Client Out program) sched).history := by
    refine Throughout.invariant ?_ (fun pre e h hP => h.cons hP.1 hP.2)
      ((Config.legal_after _ sched).and hdisciplined)
    exact ⟨settled_empty, fun _ => .fresh _⟩
  have hsettled : Settled (Config.after (archiveSystem Client Out program) sched).state.store := by
    rw [(Config.explained_after _ sched).state_eq]
    exact hinv.store
  exact ⟨hsettled, hsettled.exec_initSchema t input⟩

end Programs

/-- After a run of two maintenance calls and two workers the migrations change nothing. -/
theorem initSchema_idle_handed_over :
    Settled (Config.after (archiveFleet {}) Archive.failedWhileHandedOver).state.store ∧
      Archive.exec (.store .initSchema) 0 {}
          (Config.after (archiveFleet {}) Archive.failedWhileHandedOver).state =
        (.ok (), (Config.after (archiveFleet {}) Archive.failedWhileHandedOver).state) := by
  generalize Archive.failedWhileHandedOver = sched
  exact initSchema_idle {} (fun c pid => made_archiveProgram c pid) sched 0 {}

end Migrations
end Huldra
