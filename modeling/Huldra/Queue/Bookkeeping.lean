import Huldra.Queue.Charges
import Huldra.Queue.Isolation
import Huldra.Worker.Fetching
import Huldra.Worker.Leftovers

/-!
# Bookkeeping — the charges of a run

The counter of a budget is the number of its charges, and no attempt of an item is charged to it
twice: what was charged once is paid up, and stays so.  A pass of its own begins one fetch.
-/

namespace Huldra
namespace Queue

open QueueTables
open Process (Prog Discipline)
open Process.System (Monitor Config Throughout Disciplined History Event Legal stateAfter)

variable {d : Deployment}

/-! ## Charges -/

/-- The item and the attempt for which the event charges the budget. -/
def charge? (budgetId : Uuid) (e : Event (fleet d)) : Option (Uuid × Nat) :=
  match e.action with
  | .op (.queue (.reserveQueueItemUpstreamRequest requestId)) _ =>
      if startedOf e.before.queue budgetId < startedOf e.after.queue budgetId then
        some (requestId, attemptOf e.before.queue requestId)
      else none
  | _ => none

def charges (budgetId : Uuid) (h : History (fleet d)) : List (Uuid × Nat) :=
  h.filterMap (charge? budgetId)

section Tables

variable {q : QueueTables}

theorem startedOf_append {q' : QueueTables} {new : List BudgetRow}
    (h : q'.budgets = q.budgets ++ new) (hnew : ∀ budget ∈ new, budget.requestsStarted = 0)
    (budgetId : Uuid) : startedOf q' budgetId = startedOf q budgetId := by
  unfold startedOf budget?
  rw [h, List.find?_append]
  cases hold : q.budgets.find? fun row => row.budgetId = budgetId with
  | some budget => rfl
  | none =>
      cases hfound : new.find? fun row => row.budgetId = budgetId with
      | none => rfl
      | some budget => exact hnew budget (List.mem_of_find?_eq_some hfound)

theorem startedOf_charged {q' : QueueTables} {requestId : Uuid} {current : Int}
    {charged : List Uuid} (h : Reserved q q' requestId current charged) (budgetId : Uuid) :
    startedOf q' budgetId = startedOf q budgetId + if budgetId ∈ charged then 1 else 0 := by
  unfold startedOf
  rw [budget?_charged h.budgets]
  by_cases hmem : budgetId ∈ charged
  · rcases exists_of_free (h.free budgetId hmem) with ⟨budget, hbudget, _⟩
    have hid : budget.budgetId = budgetId := by simpa using List.find?_some hbudget
    simp [hbudget, chargeBudget, hid, hmem]
  · cases hbudget : q.budget? budgetId with
    | none => simp [hmem]
    | some budget =>
        have hid : budget.budgetId = budgetId := by simpa using List.find?_some hbudget
        simp [chargeBudget, hid, hmem]

end Tables

variable {pre : History (fleet d)} {e : Event (fleet d)}

/-- An event charges nothing, or it is a reservation that succeeds. -/
theorem charge_cases (hlegal : Legal pre e)
    (hledger : Ledger (stateAfter pre).nextUuid (stateAfter pre).queue)
    (hfunds : Funds (stateAfter pre).nextUuid (stateAfter pre).queue) :
    (∀ budgetId, charge? budgetId e = none ∧
        startedOf e.after.queue budgetId = startedOf (stateAfter pre).queue budgetId) ∨
      ∃ requestId r charged,
        e.action = .op (.queue (.reserveQueueItemUpstreamRequest requestId)) r ∧
        e.after.queue =
          ((stateAfter pre).queue.reserveQueueItemUpstreamRequest requestId e.time).2 ∧
        Reserved (stateAfter pre).queue e.after.queue requestId e.time charged ∧
        ∀ budgetId, charge? budgetId e = (if budgetId ∈ charged then
            some (requestId, attemptOf (stateAfter pre).queue requestId) else none) ∧
          startedOf e.after.queue budgetId = startedOf (stateAfter pre).queue budgetId +
            if budgetId ∈ charged then 1 else 0 := by
  have hsame : e.after.queue.budgets = (stateAfter pre).queue.budgets → ∀ budgetId,
      charge? budgetId e = none ∧
        startedOf e.after.queue budgetId = startedOf (stateAfter pre).queue budgetId := by
    intro hbudgets budgetId
    have hstarted : startedOf e.after.queue budgetId =
        startedOf (stateAfter pre).queue budgetId := by
      simp only [startedOf, budget?, hbudgets]
    refine ⟨?_, hstarted⟩
    unfold charge?
    split
    · rw [if_neg]
      rw [hlegal.before_eq, hstarted]
      exact Nat.lt_irrefl _
    · rfl
  by_cases ha : ∃ o r, e.action = .op o r
  · rcases ha with ⟨o, r, ha⟩
    rcases (performed_of_op hlegal ha).state with hafter | ⟨input, hafter⟩
    · exact Or.inl (hsame (by rw [hafter]))
    by_cases hreserves : ∃ requestId, o = .queue (.reserveQueueItemUpstreamRequest requestId)
    · rcases hreserves with ⟨requestId, rfl⟩
      have hqueue : e.after.queue =
          ((stateAfter pre).queue.reserveQueueItemUpstreamRequest requestId e.time).2 := by
        rw [hafter]
        rfl
      rcases reserve_effect hfunds.keyed hledger.nodup requestId e.time with
        ⟨_, hbudgets, _, _⟩ | ⟨_, charged, hreserved⟩
      · exact Or.inl (hsame (by rw [hqueue, hbudgets]))
      · rw [← hqueue] at hreserved
        refine Or.inr ⟨requestId, r, charged, ha, hqueue, hreserved, fun budgetId => ?_⟩
        have hstarted := startedOf_charged hreserved budgetId
        refine ⟨?_, hstarted⟩
        by_cases hmem : budgetId ∈ charged
        · simp [charge?, ha, hlegal.before_eq, hstarted, hmem]
        · simp [charge?, ha, hlegal.before_eq, hstarted, hmem]
    · left
      intro budgetId
      have hbudgets := budgets_exec o e.time input (stateAfter pre)
        fun requestId h => hreserves ⟨requestId, h⟩
      rw [← hafter] at hbudgets
      refine ⟨?_, startedOf_append hbudgets ?_ budgetId⟩
      · unfold charge?
        split
        · rename_i requestId _ hact
          rw [ha] at hact
          cases hact
          exact absurd ⟨requestId, rfl⟩ hreserves
        · rfl
      · intro budget hbudget
        unfold openedRows at hbudget
        split at hbudget
        · rw [List.mem_singleton] at hbudget
          rw [hbudget]
        · cases hbudget
  · exact Or.inl (hsame (by rw [after_eq_of_not_op hlegal fun o r h => ha ⟨o, r, h⟩]))

/-- What every run keeps of the budgets and their charges. -/
structure Booked (h : History (fleet d)) : Prop where
  funds : Funds (stateAfter h).nextUuid (stateAfter h).queue
  started : ∀ budgetId, startedOf (stateAfter h).queue budgetId = (charges budgetId h).length
  once : ∀ budgetId, (charges budgetId h).Nodup
  paid : ∀ budgetId, ∀ c ∈ charges budgetId h,
    c.1 < (stateAfter h).nextUuid ∧ PaidUp (stateAfter h).queue c.1 c.2
  gated : ∀ row ∈ (stateAfter h).queue.items, row.upstreamBudgetGateClosed = true →
    PaidUp (stateAfter h).queue row.requestId row.attemptsTotal
  recorded : ∀ m ∈ (stateAfter h).queue.memberships, m.lastChargedAttempt = 0 ∨
    (m.requestId, m.lastChargedAttempt) ∈ charges m.budgetId h

theorem booked_nil : Booked (d := d) [] where
  funds :=
    { keyed := List.nodup_nil
      nodup := List.nodup_nil
      fresh := by
        intro budgetId h
        cases h
      capped := by
        intro budget h
        cases h }
  started _ := rfl
  once _ := List.nodup_nil
  paid := by
    intro budgetId c h
    cases h
  gated := by
    intro row h
    cases h
  recorded := by
    intro m h
    cases h

theorem putsOffUnclaimed_of_allowed {x : PassView} {o : Op} (h : x.Allowed o) :
    PutsOffUnclaimed o := by
  unfold PutsOffUnclaimed
  split
  · rcases h.2 with rfl | ⟨rfl, _⟩
    · exact fun h => by cases h
    · exact fun h => by cases h
  · trivial

theorem charges_cons (budgetId : Uuid) (e : Event (fleet d)) (pre : History (fleet d)) :
    charges budgetId (e :: pre) = (charge? budgetId e).toList ++ charges budgetId pre := by
  unfold charges
  cases h : charge? budgetId e with
  | none => simp [h]
  | some c => simp [h]

theorem charges_grow {budgetId : Uuid} {c : Uuid × Nat} (e : Event (fleet d))
    (h : c ∈ charges budgetId pre) : c ∈ charges budgetId (e :: pre) := by
  rw [charges_cons]
  exact List.mem_append_right _ h

/-- A reservation that succeeds charges attempts that were not charged before. -/
theorem Booked.fresh_of_reserved (hI : Booked pre) {requestId : Uuid} {q' : QueueTables}
    {current : Int} {charged : List Uuid}
    (hreserved : Reserved (stateAfter pre).queue q' requestId current charged) {budgetId : Uuid}
    (hmem : budgetId ∈ charged) :
    (requestId, attemptOf (stateAfter pre).queue requestId) ∉ charges budgetId pre := by
  intro hcharged
  rcases hreserved.opened budgetId hmem with ⟨m, hm, hkey, hopen⟩
  exact (hI.paid budgetId _ hcharged).2.members m hm (congrArg Prod.fst hkey) hopen

/-- The item of a reservation that charges is there, and its row has the attempt that is paid. -/
theorem row_of_charged {q q' : QueueTables} {next requestId : Uuid} {current : Int}
    {charged : List Uuid} (hledger : Ledger next q)
    (hreserved : Reserved q q' requestId current charged) {budgetId : Uuid}
    (hmem : budgetId ∈ charged) :
    ∃ row ∈ q.items, row.requestId = requestId ∧ row.attemptsTotal = attemptOf q requestId := by
  rcases hreserved.opened budgetId hmem with ⟨m, hm, hkey, _⟩
  rcases hledger.attached m hm with ⟨row, hrow, hid⟩
  have hsame : row.requestId = requestId := hid.trans (congrArg Prod.fst hkey)
  refine ⟨row, hrow, hsame, ?_⟩
  rw [← hsame]
  exact (attemptOf_of_mem hledger.nodup hrow).symm

section Step

variable {o : Op} {r : Except Exn o.Res}

/-- What is paid up stays so. -/
theorem Booked.keeps (hI : Booked pre) (ha : e.action = .op o r) (hlegal : Legal pre e)
    (hledger : Ledger (stateAfter pre).nextUuid (stateAfter pre).queue)
    (hputs : PutsOffUnclaimed o) {requestId : Uuid} {attempt : Nat}
    (hpaid : requestId < (stateAfter pre).nextUuid ∧
      PaidUp (stateAfter pre).queue requestId attempt) :
    requestId < e.after.nextUuid ∧ PaidUp e.after.queue requestId attempt := by
  have hperf := performed_of_op hlegal ha
  exact ⟨Nat.lt_of_lt_of_le hpaid.1 (nextUuid_le hperf),
    hpaid.2.performed hledger hI.funds hperf hputs hpaid.1⟩

theorem Booked.gated_step (hI : Booked pre) (ha : e.action = .op o r) (hlegal : Legal pre e)
    (hledger : Ledger (stateAfter pre).nextUuid (stateAfter pre).queue)
    (hputs : PutsOffUnclaimed o) : ∀ row ∈ e.after.queue.items,
      row.upstreamBudgetGateClosed = true →
        PaidUp e.after.queue row.requestId row.attemptsTotal := by
  intro row' hrow' hclosed
  rcases gate_before hledger hI.funds (performed_of_op hlegal ha) hrow' hclosed with
    ⟨row, hrow, hid, hwas, hattempts⟩ | hpaid
  · rw [← hid, hattempts]
    exact (hI.keeps ha hlegal hledger hputs
      ⟨hledger.fresh row hrow, hI.gated row hrow hwas⟩).2
  · exact hpaid

/-- Where no budget is charged, every charge on record is an old one. -/
theorem Booked.recorded_of_uncharged (hI : Booked pre) (ha : e.action = .op o r)
    (hlegal : Legal pre e) (hledger : Ledger (stateAfter pre).nextUuid (stateAfter pre).queue)
    (hsame : ∀ budgetId,
      startedOf e.after.queue budgetId = startedOf (stateAfter pre).queue budgetId)
    {m' : MembershipRow} (hm' : m' ∈ e.after.queue.memberships) : m'.lastChargedAttempt = 0 ∨
      (m'.requestId, m'.lastChargedAttempt) ∈ charges m'.budgetId pre := by
  rcases members_cases hledger.backed (performed_of_op hlegal ha) with
    hsub | ⟨requestId, rfl, hqueue⟩ |
      ⟨request, cacheKey, workKind, budgetId, timeout, now, _, hqueue⟩
  · exact hI.recorded m' (hsub.subset hm')
  · rw [hqueue] at hm'
    rcases reserve_effect hI.funds.keyed hledger.nodup requestId e.time with
      ⟨_, _, hsub, _⟩ | ⟨_, charged, hreserved⟩
    · exact hI.recorded m' (hsub.subset hm')
    · rcases hreserved.members m' hm' with ⟨hold, _⟩ | ⟨_, hcharged, _⟩
      · exact hI.recorded m' hold
      · -- A budget that is charged counts one more.
        have hstarted := startedOf_charged hreserved m'.budgetId
        rw [← hqueue, hsame m'.budgetId, if_pos hcharged] at hstarted
        exact absurd hstarted (Nat.ne_of_lt (Nat.lt_succ_self _))
  · rw [hqueue] at hm'
    rcases enqueue_memberships (stateAfter pre).nextUuid request cacheKey workKind budgetId
      timeout now with hmembers | ⟨m, hinsert, hlast, _⟩
    · rw [hmembers] at hm'
      exact hI.recorded m' hm'
    · rw [hinsert] at hm'
      rcases mem_insertMembership hm' with hold | rfl
      · exact hI.recorded m' hold
      · exact Or.inl hlast

theorem booked_of_uncharged (hI : Booked pre) (ha : e.action = .op o r) (hlegal : Legal pre e)
    (hledger : Ledger (stateAfter pre).nextUuid (stateAfter pre).queue)
    (hputs : PutsOffUnclaimed o) (hnone : ∀ budgetId, charge? budgetId e = none ∧
      startedOf e.after.queue budgetId = startedOf (stateAfter pre).queue budgetId) :
    Booked (e :: pre) := by
  have hsame : ∀ budgetId, charges budgetId (e :: pre) = charges budgetId pre := by
    intro budgetId
    rw [charges_cons, (hnone budgetId).1]
    rfl
  refine ⟨hI.funds.performed hledger (performed_of_op hlegal ha), ?_, ?_, ?_,
    hI.gated_step ha hlegal hledger hputs, ?_⟩
  · intro budgetId
    rw [hsame]
    exact (hnone budgetId).2.trans (hI.started budgetId)
  · intro budgetId
    rw [hsame]
    exact hI.once budgetId
  · intro budgetId c hc
    rw [hsame] at hc
    exact hI.keeps ha hlegal hledger hputs (hI.paid budgetId c hc)
  · intro m' hm'
    rw [hsame]
    exact hI.recorded_of_uncharged ha hlegal hledger (fun budgetId => (hnone budgetId).2) hm'

theorem booked_of_charged (hI : Booked pre) {requestId : Uuid}
    {r : Except Exn (Op.queue (.reserveQueueItemUpstreamRequest requestId)).Res}
    (ha : e.action = .op (.queue (.reserveQueueItemUpstreamRequest requestId)) r)
    (hlegal : Legal pre e) (hledger : Ledger (stateAfter pre).nextUuid (stateAfter pre).queue)
    {charged : List Uuid}
    (hqueue : e.after.queue =
      ((stateAfter pre).queue.reserveQueueItemUpstreamRequest requestId e.time).2)
    (hreserved : Reserved (stateAfter pre).queue e.after.queue requestId e.time charged)
    (hcharge : ∀ budgetId, charge? budgetId e = (if budgetId ∈ charged then
        some (requestId, attemptOf (stateAfter pre).queue requestId) else none) ∧
      startedOf e.after.queue budgetId = startedOf (stateAfter pre).queue budgetId +
        if budgetId ∈ charged then 1 else 0) : Booked (e :: pre) := by
  have hperf := performed_of_op hlegal ha
  have hmem : ∀ budgetId, budgetId ∈ charged → charges budgetId (e :: pre) =
      (requestId, attemptOf (stateAfter pre).queue requestId) :: charges budgetId pre := by
    intro budgetId hmem
    rw [charges_cons, (hcharge budgetId).1, if_pos hmem]
    rfl
  have hnot : ∀ budgetId, budgetId ∉ charged →
      charges budgetId (e :: pre) = charges budgetId pre := by
    intro budgetId hnot
    rw [charges_cons, (hcharge budgetId).1, if_neg hnot]
    rfl
  refine ⟨hI.funds.performed hledger hperf, ?_, ?_, ?_,
    hI.gated_step ha hlegal hledger trivial, ?_⟩
  · intro budgetId
    refine (hcharge budgetId).2.trans ?_
    rw [hI.started budgetId]
    by_cases hcharged : budgetId ∈ charged
    · rw [hmem budgetId hcharged, if_pos hcharged, List.length_cons]
    · rw [hnot budgetId hcharged, if_neg hcharged, Nat.add_zero]
  · intro budgetId
    by_cases hcharged : budgetId ∈ charged
    · rw [hmem budgetId hcharged]
      exact List.nodup_cons.2 ⟨hI.fresh_of_reserved hreserved hcharged, hI.once budgetId⟩
    · rw [hnot budgetId hcharged]
      exact hI.once budgetId
  · intro budgetId c hc
    have hold : c ∈ charges budgetId pre → c.1 < e.after.nextUuid ∧
        PaidUp e.after.queue c.1 c.2 := by
      intro hold
      exact hI.keeps ha hlegal hledger trivial (hI.paid budgetId c hold)
    by_cases hcharged : budgetId ∈ charged
    · rw [hmem budgetId hcharged, List.mem_cons] at hc
      rcases hc with rfl | hc
      · rcases row_of_charged hledger hreserved hcharged with ⟨row, hrow, hid, _⟩
        refine ⟨Nat.lt_of_lt_of_le (hid ▸ hledger.fresh row hrow) (nextUuid_le hperf), ?_⟩
        refine paidUp_of_reserved hledger.nodup hreserved fun other hother => ?_
        change other ∈ e.after.queue.items at hother
        rw [hqueue] at hother
        exact attempts_of_reserve hother
      · exact hold hc
    · rw [hnot budgetId hcharged] at hc
      exact hold hc
  · intro m' hm'
    rcases hreserved.members m' hm' with ⟨hold, _⟩ | ⟨hid, hcharged, hlast⟩
    · exact (hI.recorded m' hold).imp id (charges_grow e)
    · rw [hmem _ hcharged, hid, hlast]
      exact Or.inr List.mem_cons_self

end Step

/-- An event that is no operation charges nothing. -/
theorem charge?_of_idle (ha : ∀ o r, e.action ≠ .op o r) (budgetId : Uuid) :
    charge? budgetId e = none := by
  unfold charge?
  split
  · rename_i requestId r hact
    exact absurd hact (ha _ r)
  · rfl

theorem booked_step (hlegal : Legal pre e)
    (hledger : Ledger (stateAfter pre).nextUuid (stateAfter pre).queue)
    (hpasses : Disciplined passes (passMonitor : Monitor (fleet d) PassView).view pre e)
    (hI : Booked pre) : Booked (e :: pre) := by
  by_cases ha : ∃ o r, e.action = .op o r
  · rcases ha with ⟨o, r, ha⟩
    rcases charge_cases hlegal hledger hI.funds with
      hnone | ⟨requestId, r', charged, hact, hqueue, hreserved, hcharge⟩
    · exact booked_of_uncharged hI ha hlegal hledger
        (putsOffUnclaimed_of_allowed (hpasses.1 o r ha)) hnone
    · exact booked_of_charged hI hact hlegal hledger hqueue hreserved hcharge
  · have hsame : stateAfter (e :: pre) = stateAfter pre :=
      after_eq_of_not_op hlegal fun o r h => ha ⟨o, r, h⟩
    have hcharges : ∀ budgetId, charges budgetId (e :: pre) = charges budgetId pre := by
      intro budgetId
      rw [charges_cons, charge?_of_idle fun o r h => ha ⟨o, r, h⟩]
      rfl
    refine ⟨?_, ?_, ?_, ?_, ?_, ?_⟩
    · rw [hsame]
      exact hI.funds
    · intro budgetId
      rw [hsame, hcharges]
      exact hI.started budgetId
    · intro budgetId
      rw [hcharges]
      exact hI.once budgetId
    · intro budgetId c hc
      rw [hcharges] at hc
      rw [hsame]
      exact hI.paid budgetId c hc
    · rw [hsame]
      exact hI.gated
    · intro m hm
      rw [hsame] at hm
      rw [hcharges]
      exact hI.recorded m hm

/-! ## A pass fetches once -/

/-- No fetch is begun. -/
def Unfetching (o : Op) : Prop :=
  ∀ call, o ≠ .upstream (.fetchBegin call)

theorem Worker.quiet_unfetching {o : Op} (ho : Worker.Quiet o) : Unfetching o := by
  rintro call rfl
  exact ho

/-- Follow whether the process has begun a fetch. -/
def fetchMonitor (d : Deployment) : Monitor (fleet d) Bool where
  initial _ := false
  start _ _ _ := false
  step begun o _ _ :=
    match o with
    | .upstream (.fetchBegin _) => true
    | _ => begun
  crash _ := false
  clock _ := 0
  clock_initial _ := Process.System.no_time
  clock_start _ _ _ h := h
  clock_step _ _ _ _ h := h
  clock_crash _ := Int.le_refl 0

/-- The process `p` has begun a fetch. -/
abbrev begun (p : Nat) (h : History (fleet d)) : Bool :=
  (fetchMonitor d).view p h

/-- A process begins one fetch. -/
abbrev fetchesOnce (d : Deployment) : Discipline huldra Bool :=
  (fetchMonitor d).discipline fun begun o => begun = true → Unfetching o

section Once

variable {β : Type} {w : WorkerConfig} {item : QueueItem}

theorem fetchStep_of_unfetching {o : Op} (ho : Unfetching o) (begun : Bool) (r : Except Exn o.Res)
    (t : Int) : (fetchMonitor d).step begun o r t = begun := by
  unfold fetchMonitor
  simp only
  split
  · exact absurd rfl (ho _)
  · rfl

theorem wp_unfetching {p : Program β} (hp : p.AllOps Unfetching) (begun : Bool) :
    p.wp (fetchesOnce d) (fun x _ => x = begun) (fun x _ => x = begun) begun := by
  refine hp.wp ?_ begun rfl
  rintro o ho x rfl
  refine ⟨fun _ => ho, ?_⟩
  rintro r x' ⟨t, s, s', _, _, rfl⟩
  exact fetchStep_of_unfetching ho x r t

/-- What begins no fetch may stand anywhere. -/
theorem once_unfetching {p : Program β} (hp : p.AllOps Unfetching) (begun : Bool) :
    p.wp (fetchesOnce d) (fun _ _ => True) (fun _ _ => True) begun :=
  Prog.wp_mono (fun _ _ _ => trivial) (fun _ _ _ => trivial) p begun (wp_unfetching hp begun)

/-- What begins no fetch may stand before a fetch. -/
theorem once_bind {γ : Type} {p : Program γ} {f : γ → Program β} (hp : p.AllOps Unfetching)
    {begun : Bool}
    (hf : ∀ c, (f c).wp (fetchesOnce d) (fun _ _ => True) (fun _ _ => True) begun) :
    (p >>= f).wp (fetchesOnce d) (fun _ _ => True) (fun _ _ => True) begun := by
  refine (Prog.wp_bind ..).2 (Prog.wp_mono ?_ (fun _ _ _ => trivial) p begun
    (wp_unfetching hp begun))
  rintro _ c rfl
  exact hf c

theorem unfetching_of_reporting {owner : OwnerToken} {requestId : Uuid} {o : Op}
    (ho : Worker.Reporting owner requestId o) : Unfetching o := by
  rintro call rfl
  rcases ho with (ho | ho | ⟨_, _, ho⟩) | ho
  · exact ho
  · cases ho
  · cases ho
  · exact ho

theorem once_fetchAndReport (plan : Option IdListFetchPlan) (request : ArxivRequest) :
    (Worker.fetchAndReport w item plan request).wp (fetchesOnce d) (fun _ _ => True)
      (fun _ _ => True) false := by
  have herror : ∀ e x, (Worker.onFetchError w item plan e).wp (fetchesOnce d) (fun _ _ => True)
      (fun _ _ => True) x := fun e x =>
    once_unfetching ((Worker.reporting_onFetchError plan e).mono
      fun _ ho => unfetching_of_reporting ho) x
  refine (Prog.wp_handle ..).2 ((Prog.wp_call_handle ..).2 ⟨?_, ?_, fun e x _ => herror e x⟩)
  · intro h
    cases h
  · rintro r x ⟨t, s, s', _, _, rfl⟩
    refine (Prog.wp_call ..).2 ⟨?_, ?_, fun e x' _ => herror e x'⟩
    · intro _ call h
      cases h
    · intro fetched x' _
      exact once_unfetching ((Worker.reporting_onFetchResult plan fetched).mono
        fun _ ho => unfetching_of_reporting ho) x'

theorem once_fetchWithinDeadline (plan : Option IdListFetchPlan) :
    (Worker.fetchWithinDeadline w item plan).wp (fetchesOnce d) (fun _ _ => True)
      (fun _ _ => True) false := by
  have hread : (queueItemUpstreamDeadline item.requestId).AllOps Unfetching :=
    .call fun _ h => by cases h
  have hcheck : (checkQueueItemUpstreamRequestDeadlines item.requestId).AllOps Unfetching :=
    .call fun _ h => by cases h
  have hnow : utcNow.AllOps Unfetching := .call fun _ h => by cases h
  refine once_bind hread fun budgetDeadline => ?_
  cases budgetDeadline with
  | none => exact once_fetchAndReport plan _
  | some deadline =>
      refine once_bind hnow fun now => ?_
      split
      · exact once_fetchAndReport plan _
      · refine once_bind hcheck fun budgetError => ?_
        cases budgetError with
        | some error =>
            exact once_unfetching ((Worker.quietly_endBudgetedItem plan error).mono
              fun _ ho => Worker.quiet_unfetching ho) false
        | none =>
            refine once_bind hread fun deadline' => once_bind ?_ fun remaining =>
              once_fetchAndReport plan _
            cases deadline' with
            | none => exact .ret _
            | some deadline' => exact .bind hnow fun _ => .ret _

theorem once_runOnce (targets : Option (List CacheKey)) :
    (Worker.runOnce w targets).wp (fetchesOnce d) (fun _ _ => True) (fun _ _ => True) false := by
  refine once_bind (.call fun _ h => by cases h) fun _ => ?_
  unfold claimNextQueueItem
  split
  · trivial
  · refine once_bind (.call fun _ h => by cases h) fun item => ?_
    cases item with
    | none => trivial
    | some item =>
        refine Process.Leads.wp (J := fun x => x = false) ?_ ?_ (fun _ _ _ _ => trivial)
          (fun _ _ _ => trivial) Worker.prepares_workClaimed false rfl
        · rintro o ho x rfl
          refine ⟨fun _ => Worker.quiet_unfetching ho, ?_⟩
          rintro r x' ⟨t, s, s', _, _, rfl⟩
          exact fetchStep_of_unfetching (Worker.quiet_unfetching ho) false r t
        · rintro p ⟨plan, _, rfl⟩ x rfl
          exact once_fetchWithinDeadline plan

theorem once_program (d : Deployment) (c : Client) (pid : Nat) :
    (c.program d pid).Keeps (fetchesOnce d) false := by
  have hfeeding := Worker.feeding_program d c pid
  have hfed : ∀ {p : Program Outcome}, p.AllOps Worker.Feeding →
      p.Keeps (fetchesOnce d) false := by
    intro p hp
    refine Prog.keeps_of_wp (once_unfetching (hp.mono fun o ho => ?_) false)
    rintro call rfl
    exact ho
  cases c with
  | runOnce targets =>
      exact (Prog.wp_bind ..).2 (Prog.wp_mono (fun _ _ _ => trivial) (fun _ _ _ => trivial) _ _
        (once_runOnce (w := ⟨d, .worker pid⟩) targets))
  | harvestOai request =>
      refine Prog.keeps_of_wp (once_unfetching (.bind
        ((Harvest.harvesting_harvestOai (d := d) request).mono fun o ho => ?_)
        fun _ => .ret _) false)
      rintro call rfl
      exact ho
  | enqueueRequestForWork request cacheKey workKind budgetId => exact hfed hfeeding
  | enqueueRefreshIfDue request cacheKey => exact hfed hfeeding
  | createUpstreamRequestBudget maxRequests deadlineAt => exact hfed hfeeding
  | failActiveUpstreamBudgetItems budgetId category message => exact hfed hfeeding

/-- In every run no process begins a fetch after it has begun one. -/
theorem once_after (d : Deployment) (sched : List (Config.Choice (fleet d))) :
    Throughout (Disciplined (fetchesOnce d) (fetchMonitor d).view)
      (Config.after (fleet d) sched).history := by
  refine (fetchMonitor d).disciplined_after (J := fun _ _ => True)
    ⟨fun _ => trivial, fun _ _ _ _ _ => trivial, fun _ _ _ _ _ _ => trivial,
      fun _ _ _ => trivial⟩ ?_ sched
  intro pid x c t _ _
  exact once_program d c pid

end Once

end Queue
end Huldra
