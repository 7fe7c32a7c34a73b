import Huldra.Queue.Pass

/-!
# Isolation — an item fails for want of a budget only when nobody else wants it

A pass learns in one transaction that no budget pays for its item and fails the item in a later one.
An enqueue that joins the item in between is failed with it; without such a join nobody wants the
item any more when it fails.  The call that ends a budget looks and fails in one transaction.
-/

namespace Huldra
namespace Queue

open QueueTables
open Process (Prog)
open Process.System (Monitor Config Throughout Disciplined History Event Legal stateAfter)

/-! ## Failing for want of a budget -/

/-- The row has failed because a request budget or a deadline was exceeded. -/
def failedOfBudget (row : QueueRow) : Bool :=
  row.status = .failed &&
    (row.errorCategory = some "request_budget_exceeded" ||
      row.errorCategory = some "deadline_budget_exceeded")

/-- Of the budgets only this one wants the item, and nobody wants it without one. -/
def OnlyOf (budgetId : Uuid) (q : QueueTables) (row : QueueRow) : Prop :=
  row.unbudgetedDemand = false ∧
    ∀ m ∈ q.memberships, m.requestId = row.requestId → m.budgetId = budgetId

/-- How far the loop over the items of a budget has come from the tables `q`. -/
structure Failing (budgetId : Uuid) (q q' : QueueTables) : Prop where
  narrowed : Narrowed q q'
  others : ∀ m ∈ q.memberships, m ∈ q'.memberships ∨ m.budgetId = budgetId
  rows : ∀ row' ∈ q'.items, ∃ row ∈ q.items, row.requestId = row'.requestId ∧
    ((row'.status = row.status ∧ row'.errorCategory = row.errorCategory) ∨
      (row.status.pending = true ∧ row'.status = .failed ∧ OnlyOf budgetId q row))

namespace Failing

variable {q q' : QueueTables} {budgetId : Uuid}

theorem refl (budgetId : Uuid) (q : QueueTables) : Failing budgetId q q :=
  ⟨.refl q, fun _ hm => Or.inl hm, fun row hrow => ⟨row, hrow, rfl, Or.inl ⟨rfl, rfl⟩⟩⟩

theorem detach (h : Failing budgetId q q') (requestId : Uuid) :
    Failing budgetId q (q'.detachMemberships requestId [budgetId]) where
  narrowed := h.narrowed.trans (.detachMemberships requestId _)
  others := by
    intro m hm
    rcases h.others m hm with hkept | hown
    · by_cases hbudget : m.budgetId = budgetId
      · exact Or.inr hbudget
      · exact Or.inl (List.mem_filter.2 ⟨hkept, by simp [hbudget]⟩)
    · exact Or.inr hown
  rows := by
    intro row' hrow'
    rcases mem_updateItem.1 hrow' with ⟨hmem, _⟩ | ⟨row, hmem, _, rfl⟩
    · exact h.rows row' hmem
    · exact h.rows row hmem

theorem item (h : Failing budgetId q q') (requestId : Uuid) (category message : String)
    (timestamp : Int) (hnodup : (q.items.map (·.requestId)).Nodup) :
    Failing budgetId q (q'.failItemOfBudget requestId budgetId category message timestamp) := by
  have hdetached := h.detach requestId
  unfold failItemOfBudget
  simp only
  split
  · exact hdetached
  · rename_i row₁ hitem
    split
    · exact hdetached
    · rename_i hunwanted
      have hfree : row₁.unbudgetedDemand = false ∧
          ∀ m ∈ (q'.detachMemberships requestId [budgetId]).memberships,
            m.requestId ≠ requestId := by
        simpa using hunwanted
      rcases mem_of_item? hitem with ⟨hmem₁, hid₁⟩
      refine ⟨hdetached.narrowed.trans (.updateItem fun row _ _ => by split <;> rfl),
        hdetached.others, ?_⟩
      intro row' hrow'
      rcases mem_updateItem.1 hrow' with ⟨hmem, _⟩ | ⟨row, hmem, hid, rfl⟩
      · exact hdetached.rows row' hmem
      · rcases hdetached.rows row hmem with ⟨row₀, hrow₀, hid₀, hstill⟩
        split
        · rename_i hpending
          refine ⟨row₀, hrow₀, hid₀, Or.inr ⟨?_, rfl, ?_, ?_⟩⟩
          · rcases hstill with ⟨hstatus, _⟩ | ⟨hpending₀, _⟩
            · rw [← hstatus]
              exact hpending
            · exact hpending₀
          · rcases hdetached.narrowed.row_of_mem hmem₁ with ⟨row₂, hrow₂, hid₂, hsame⟩
            have heq := eq_of_mem_of_requestId hnodup hrow₀ hrow₂
              (hid₀.trans (hid.trans (hid₁.symm.trans hid₂.symm)))
            rw [heq, hsame]
            exact hfree.1
          · -- What is left of the members of `q` belongs to this budget.
            intro m hm hmid
            rcases hdetached.others m hm with hkept | hown
            · exact absurd (hmid.trans (hid₀.trans hid)) (hfree.2 m hkept)
            · exact hown
        · exact ⟨row₀, hrow₀, hid₀, hstill⟩

theorem items (category message : String) (timestamp : Int)
    (hnodup : (q.items.map (·.requestId)).Nodup) (ids : List Uuid) :
    ∀ q' : QueueTables, Failing budgetId q q' → Failing budgetId q (ids.foldl (fun q requestId =>
      q.failItemOfBudget requestId budgetId category message timestamp) q') := by
  induction ids with
  | nil => exact fun _ h => h
  | cons requestId ids ih =>
      intro q' h
      exact ih _ (h.item requestId category message timestamp hnodup)

end Failing

/-- The items that the end of a budget fails were wanted by that budget only. -/
theorem failing_failActive {q : QueueTables} (hnodup : (q.items.map (·.requestId)).Nodup)
    (budgetId : Uuid) (category message : String) (timestamp : Int) :
    Failing budgetId q (q.failActiveUpstreamBudgetItems budgetId category message timestamp) :=
  Failing.items category message timestamp hnodup _ q (.refl budgetId q)

/-- The operation writes a failure on the item, or ends a budget. -/
inductive FailsOfBudget (requestId : Uuid) : Op → Prop
  | release (nextAttemptAt : Option Int) (category : String) (message : Option String)
      (timestamp : Int) : category ≠ "non_retryable" →
        FailsOfBudget requestId (.queue (.releaseOrDelayQueueItem requestId nextAttemptAt
          (some category) message .failed timestamp))
  | ending (budgetId : Uuid) (category message : String) (timestamp : Int) :
      FailsOfBudget requestId
        (.queue (.failActiveUpstreamBudgetItems budgetId category message timestamp))

section Inversion

variable {o : Op} {t : Int} {r : Except Exn o.Res} {s s' : Store}

/-- Nothing else sets a row to failed for want of a budget. -/
theorem failsOfBudget_of_performed (hledger : Ledger s.nextUuid s.queue)
    (h : Store.Performed o t r s s') {row row' : QueueRow} (hrow : row ∈ s.queue.items)
    (hrow' : row' ∈ s'.queue.items) (hid : row'.requestId = row.requestId)
    (hbefore : failedOfBudget row = false) (hafter : failedOfBudget row' = true) :
    FailsOfBudget row.requestId o := by
  rcases itemsEffect_of_performed hledger.nodup h with ⟨change, new, heffect⟩
  rw [heffect.items, List.mem_append] at hrow'
  rcases hrow' with hrow' | hrow'
  · rcases List.mem_map.1 hrow' with ⟨row₀, hrow₀, rfl⟩
    have hsame : (change row₀).requestId = row₀.requestId → row₀ = row := fun hid₀ =>
      eq_of_mem_of_requestId hledger.nodup hrow₀ hrow (hid₀.symm.trans hid)
    rcases heffect.rows row₀ hrow₀ with hkept | hchanged
    · rw [hkept] at hafter
      rw [hsame (by rw [hkept]), hbefore] at hafter
      cases hafter
    · have hrow₀' := hsame hchanged.requestId
      subst hrow₀'
      generalize change row₀ = row' at hchanged hafter
      -- Where the standing and the category of the row stay, it had failed before.
      have hstill : row'.status = row₀.status → row'.errorCategory = row₀.errorCategory →
          False := by
        intro hstatus hcategory
        simp only [failedOfBudget, hstatus, hcategory] at hafter
        simp only [failedOfBudget, hafter] at hbefore
        cases hbefore
      unfold RowEffect at hchanged
      split at hchanged
      case h_1 => simp [hchanged.2, failedOfBudget, QueueRow.claim] at hafter
      case h_2 => simp [hchanged.2, failedOfBudget, QueueRow.complete] at hafter
      case h_3 requestId nextAttemptAt category message status timestamp =>
        rcases hchanged with ⟨rfl, _, rfl⟩
        simp only [failedOfBudget, QueueRow.releaseOrDelay, Bool.and_eq_true,
          Bool.or_eq_true] at hafter
        have hfailed : status = .failed := of_decide_eq_true hafter.1
        subst hfailed
        rcases hafter.2.imp of_decide_eq_true of_decide_eq_true with rfl | rfl
        · exact .release _ _ _ _ (by decide)
        · exact .release _ _ _ _ (by decide)
      case h_4 => simp [hchanged.2, failedOfBudget, QueueRow.wake] at hafter
      case h_5 => exact .ending _ _ _ _
      case h_6 => exact (hstill hchanged.2.status hchanged.2.category).elim
      case h_7 => exact (hstill hchanged.2.status hchanged.2.category).elim
      case h_8 => exact (hstill hchanged.status hchanged.category).elim
      case h_9 => exact (hstill hchanged.status hchanged.category).elim
      case h_10 => exact (hstill (by rw [hchanged.2.2.2]; rfl) (by rw [hchanged.2.2.2]; rfl)).elim
      case h_11 => exact hchanged.elim
  · rcases heffect.new with hnone | ⟨newcomer, hnew, hqueued⟩
    · simp [hnone] at hrow'
    · rw [hnew, List.mem_singleton] at hrow'
      simp [hrow', failedOfBudget, hqueued.status] at hafter

/-! ## Verdicts and claims -/

/-- The item that an answer is a verdict against. -/
def verdictAgainst : (o : Op) → Except Exn o.Res → Option Uuid
  | .queue (.reserveQueueItemUpstreamRequest requestId), .ok (some error)
  | .queue (.checkQueueItemUpstreamRequestDeadlines requestId), .ok (some error) =>
      if error = "budget_deferred" then none else some requestId
  | _, _ => none

/-- The item that an answer hands out. -/
def claimed? : (o : Op) → Except Exn o.Res → Option QueueItem
  | .queue (.claimNextQueueItem ..), .ok item => item
  | _, _ => none

theorem item_step (x : PassView) (o : Op) (r : Except Exn o.Res) :
    (x.step o r).item = (claimed? o r).or x.item := by
  cases o with
  | queue o =>
      cases o with
      | claimNextQueueItem owner timeout keys =>
          cases r with
          | ok item => cases item <;> rfl
          | error e => rfl
      | reserveQueueItemUpstreamRequest requestId =>
          cases r with
          | ok error => cases error <;> rfl
          | error e => rfl
      | checkQueueItemUpstreamRequestDeadlines requestId =>
          cases r with
          | ok error => cases error <;> rfl
          | error e => rfl
      | _ => rfl
  | renewWorkerFetchOwnership requestId owner name ttl ids =>
      cases r with
      | ok reason => cases reason <;> rfl
      | error e => rfl
  | upstream o => cases o <;> rfl
  | _ => rfl

/-- A pass is condemned by a verdict, and stays so until it claims, charges or fences. -/
theorem condemned_of_step {x : PassView} {o : Op} {r : Except Exn o.Res}
    (h : (x.step o r).stage = .condemned) :
    claimed? o r = none ∧ (x.stage = .condemned ∨ (verdictAgainst o r).isSome = true) := by
  have hverdict : ∀ error : String, Stage.afterVerdict error = .condemned →
      error ≠ "budget_deferred" := by
    rintro error hcondemned rfl
    cases hcondemned
  cases o with
  | queue o =>
      cases o with
      | claimNextQueueItem owner timeout keys =>
          cases r with
          | ok item =>
              cases item with
              | none => exact ⟨rfl, Or.inl h⟩
              | some item => cases h
          | error e => exact ⟨rfl, Or.inl h⟩
      | reserveQueueItemUpstreamRequest requestId =>
          cases r with
          | ok error =>
              cases error with
              | none => cases h
              | some error => exact ⟨rfl, Or.inr (by simp [verdictAgainst, hverdict error h])⟩
          | error e => exact ⟨rfl, Or.inl h⟩
      | checkQueueItemUpstreamRequestDeadlines requestId =>
          cases r with
          | ok error =>
              cases error with
              | none => exact ⟨rfl, Or.inl h⟩
              | some error => exact ⟨rfl, Or.inr (by simp [verdictAgainst, hverdict error h])⟩
          | error e => exact ⟨rfl, Or.inl h⟩
      | _ => exact ⟨rfl, Or.inl h⟩
  | renewWorkerFetchOwnership requestId owner name ttl ids =>
      refine ⟨rfl, Or.inl ?_⟩
      cases r with
      | ok reason =>
          cases reason with
          | none =>
              have hfenced : x.stage.fenced = .condemned := h
              cases hstage : x.stage <;> simp [hstage, Stage.fenced] at hfenced
              rfl
          | some reason => cases h
      | error e => cases h
  | upstream o =>
      cases o with
      | fetchBegin call => cases h
      | _ => exact ⟨rfl, Or.inl h⟩
  | _ => exact ⟨rfl, Or.inl h⟩

/-- An item that is handed out has a row. -/
theorem exists_id_of_claimed (hledger : Ledger s.nextUuid s.queue)
    (h : Store.Performed o t r s s') {item : QueueItem} (hitem : claimed? o r = some item) :
    ∃ row ∈ s'.queue.items, row.requestId = item.requestId := by
  unfold claimed? at hitem
  split at hitem
  · rename_i owner timeout keys answer
    subst hitem
    refine exists_id_performed hledger h ?_
    rcases h.of_ok with ⟨input, _, hexec⟩
    have hanswer := congrArg Prod.fst hexec
    rcases claimNextQueueItem_cases (q := s.queue) owner timeout keys t with
      hnone | ⟨row, hmem, _, hclaim⟩
    · simp [Store.exec, QueueOp.exec, hnone] at hanswer
    · simp only [Store.exec, QueueOp.exec, hclaim] at hanswer
      cases hanswer
      exact ⟨row, hmem, rfl⟩
  · cases hitem

/-- After a verdict against it nobody wants the item. -/
theorem bare_of_verdict (hledger : Ledger s.nextUuid s.queue) (h : Store.Performed o t r s s')
    {requestId : Uuid} (hrow : ∃ row ∈ s.queue.items, row.requestId = requestId)
    (hverdict : verdictAgainst o r = some requestId) : Bare requestId s'.queue := by
  unfold verdictAgainst at hverdict
  split at hverdict
  · rename_i requestId' error
    split at hverdict
    · cases hverdict
    · rename_i hne
      cases hverdict
      rcases h.of_ok with ⟨input, _, hexec⟩
      have hstate := congrArg (fun out => out.2.queue) hexec
      have hanswer := congrArg Prod.fst hexec
      simp only [Store.exec, QueueOp.exec] at hstate hanswer
      rw [← hstate]
      exact bare_of_reserve hledger.nodup hrow ⟨error, Except.ok.inj hanswer, hne⟩
  · rename_i requestId' error
    split at hverdict
    · cases hverdict
    · rename_i hne
      cases hverdict
      rcases h.of_ok with ⟨input, _, hexec⟩
      have hstate := congrArg (fun out => out.2.queue) hexec
      have hanswer := congrArg Prod.fst hexec
      simp only [Store.exec, QueueOp.exec] at hstate hanswer
      rw [← hstate]
      exact bare_of_checkDeadlines hledger.nodup hrow ⟨error, Except.ok.inj hanswer, hne⟩
  · cases hverdict

theorem on_of_verdict {x : PassView} (hallow : x.Allowed o) {requestId : Uuid}
    (hverdict : verdictAgainst o r = some requestId) : x.On requestId := by
  unfold verdictAgainst at hverdict
  split at hverdict
  · split at hverdict
    · cases hverdict
    · cases hverdict
      exact hallow
  · split at hverdict
    · cases hverdict
    · cases hverdict
      exact hallow
  · cases hverdict

end Inversion

/-! ## Runs -/

section Runs

variable {d : Deployment}

/-- An enqueue joins the item, and its transaction takes effect. -/
def joins (e : Event (fleet d)) (requestId : Uuid) : Bool :=
  match e.action with
  | .op o _ => joins? o e.before.queue = some requestId && e.after.queue ≠ e.before.queue
  | _ => false

/-- The process has a verdict against the item of its pass, and the item was joined since. -/
def joinedSinceVerdict (p : Nat) : History (fleet d) → Bool
  | [] => false
  | e :: pre =>
      (pass p (e :: pre)).stage = .condemned && (pass p pre).stage = .condemned &&
        (joinedSinceVerdict p pre || (pass p pre).item.any fun item => joins e item.requestId)

/-- Whoever fails an item for its budgets knows of all demand for it: no enqueue has joined it
since the verdict of the pass, and a budget that is ended cannot pay for its items any more. -/
def FailsInformed (pre : History (fleet d)) (e : Event (fleet d)) : Prop :=
  match e.action with
  | .op (.queue (.releaseOrDelayQueueItem _ _ _ _ .failed _)) _ =>
      e.after.queue ≠ e.before.queue → joinedSinceVerdict e.pid pre = false
  | .op (.queue (.failActiveUpstreamBudgetItems budgetId _ _ _)) _ =>
      ∀ row ∈ e.before.queue.items, row.status.pending = true →
        ∀ m ∈ e.before.queue.memberships, m.requestId = row.requestId → m.budgetId = budgetId →
          viable e.before.queue row m e.time = false
  | _ => True

/-- An item that the event sets to failed for want of a budget was wanted by nobody. -/
def DemandIsolated (e : Event (fleet d)) : Prop :=
  ∀ row ∈ e.before.queue.items, ∀ row' ∈ e.after.queue.items, row'.requestId = row.requestId →
    failedOfBudget row = false → failedOfBudget row' = true →
      demanded e.before.queue row e.time = false

/-- What every run keeps of the passes and the demand. -/
structure Verdicts (pre : History (fleet d)) : Prop where
  ledger : Ledger (stateAfter pre).nextUuid (stateAfter pre).queue
  known : ∀ p item, (pass p pre).item = some item →
    ∃ row ∈ (stateAfter pre).queue.items, row.requestId = item.requestId
  bare : ∀ p item, (pass p pre).item = some item → (pass p pre).stage = .condemned →
    joinedSinceVerdict p pre = false → Bare item.requestId (stateAfter pre).queue

instance (pre : History (fleet d)) (e : Event (fleet d)) : Decidable (FailsInformed pre e) := by
  unfold FailsInformed
  split <;> infer_instance

instance (e : Event (fleet d)) : Decidable (DemandIsolated e) := by
  unfold DemandIsolated
  infer_instance

variable {pre : History (fleet d)} {e : Event (fleet d)}

theorem verdicts_nil : Verdicts (d := d) [] where
  ledger := ⟨List.nodup_nil, by simp [stateAfter, fleet, storeSystem],
    by simp [stateAfter, fleet, storeSystem], by
      intro row hrow
      cases hrow⟩
  known := by
    intro p item hitem
    cases hitem
  bare := by
    intro p item hitem
    cases hitem

/-- What an event that is no operation, or one of another process, leaves of a pass. -/
theorem joined_of_joinedSinceVerdict {p : Nat} {item : QueueItem}
    (hitem : (pass p pre).item = some item) (hstage : (pass p pre).stage = .condemned)
    (hstage' : (pass p (e :: pre)).stage = .condemned)
    (h : joinedSinceVerdict p (e :: pre) = false) :
    joinedSinceVerdict p pre = false ∧ joins e item.requestId = false := by
  simpa [joinedSinceVerdict, hstage, hstage', hitem] using h

theorem verdicts_of_quiet (hlegal : Legal pre e) (hI : Verdicts pre)
    (hafter : e.after = e.before)
    (hpass : pass e.pid (e :: pre) = { pid := (pass e.pid pre).pid }) : Verdicts (e :: pre) where
  ledger := by
    have hstate : stateAfter (e :: pre) = stateAfter pre := hafter.trans hlegal.before_eq
    rw [hstate]
    exact hI.ledger
  known := by
    intro p item hitem
    have hstate : stateAfter (e :: pre) = stateAfter pre := hafter.trans hlegal.before_eq
    rw [hstate]
    by_cases hp : e.pid = p
    · subst hp
      rw [hpass] at hitem
      cases hitem
    · rw [pass_of_ne pre hp] at hitem
      exact hI.known p item hitem
  bare := by
    intro p item hitem hstage hjoined
    have hstate : stateAfter (e :: pre) = stateAfter pre := hafter.trans hlegal.before_eq
    rw [hstate]
    by_cases hp : e.pid = p
    · subst hp
      rw [hpass] at hitem
      cases hitem
    · have hsame := pass_of_ne pre hp
      rw [hsame] at hitem
      have hstage₀ := hstage
      rw [hsame] at hstage₀
      exact hI.bare p item hitem hstage₀
        (joined_of_joinedSinceVerdict hitem hstage₀ hstage hjoined).1

/-- An item stays bare through an event that does not join it. -/
theorem bare_of_unjoined (hlegal : Legal pre e) (hI : Verdicts pre) {o : Op}
    {r : Except Exn o.Res} (ha : e.action = .op o r) {requestId : Uuid}
    (hrow : ∃ row ∈ (stateAfter pre).queue.items, row.requestId = requestId)
    (hbare : Bare requestId (stateAfter pre).queue) (hjoins : joins e requestId = false) :
    Bare requestId (stateAfter (e :: pre)).queue := by
  have hperf : Store.Performed o e.time r (stateAfter pre) e.after := by
    have h := hlegal.executed ha
    rw [hlegal.before_eq] at h
    exact h
  refine hbare.performed hI.ledger hperf hrow ?_
  rw [joins, ha] at hjoins
  simp only [hlegal.before_eq, Bool.and_eq_false_iff, decide_eq_false_iff_not] at hjoins
  exact hjoins.imp id not_not.1

theorem verdicts_of_op (hlegal : Legal pre e)
    (hdisciplined : Disciplined passes (passMonitor : Monitor (fleet d) PassView).view pre e)
    (hI : Verdicts pre) {o : Op} {r : Except Exn o.Res} (ha : e.action = .op o r) :
    Verdicts (e :: pre) := by
  have hperf : Store.Performed o e.time r (stateAfter pre) e.after := by
    have h := hlegal.executed ha
    rw [hlegal.before_eq] at h
    exact h
  have hallow : (pass e.pid pre).Allowed o := hdisciplined.1 o r ha
  refine ⟨hI.ledger.performed hperf, ?_, ?_⟩
  · intro p item hitem
    by_cases hp : e.pid = p
    · subst hp
      rw [pass_of_op pre ha, item_step] at hitem
      cases hclaimed : claimed? o r with
      | some claimed =>
          rw [hclaimed] at hitem
          cases hitem
          exact exists_id_of_claimed hI.ledger hperf hclaimed
      | none =>
          rw [hclaimed] at hitem
          exact exists_id_performed hI.ledger hperf (hI.known _ item hitem)
    · rw [pass_of_ne pre hp] at hitem
      exact exists_id_performed hI.ledger hperf (hI.known p item hitem)
  · intro p item hitem hstage hjoined
    by_cases hp : e.pid = p
    · subst hp
      have hstep := hstage
      rw [pass_of_op pre ha] at hstep
      rcases condemned_of_step hstep with ⟨hclaimed, hcondemned⟩
      rw [pass_of_op pre ha, item_step, hclaimed] at hitem
      have hrow := hI.known _ item hitem
      by_cases hstage₀ : (pass e.pid pre).stage = .condemned
      · rcases joined_of_joinedSinceVerdict hitem hstage₀ hstage hjoined with ⟨hjoined₀, hjoins⟩
        exact bare_of_unjoined hlegal hI ha hrow (hI.bare _ item hitem hstage₀ hjoined₀) hjoins
      · -- The verdict is new: this event has found that nobody wants the item.
        rcases Option.isSome_iff_exists.1 (hcondemned.resolve_left hstage₀) with
          ⟨requestId, hverdict⟩
        rcases on_of_verdict hallow hverdict with ⟨item', hitem', hid⟩
        have hsame : item' = item := Option.some.inj (hitem'.symm.trans hitem)
        subst hsame
        exact bare_of_verdict hI.ledger hperf hrow (by rw [hid]; exact hverdict)
    · have hsame := pass_of_ne pre hp
      rw [hsame] at hitem
      have hstage₀ := hstage
      rw [hsame] at hstage₀
      rcases joined_of_joinedSinceVerdict hitem hstage₀ hstage hjoined with ⟨hjoined₀, hjoins⟩
      exact bare_of_unjoined hlegal hI ha (hI.known p item hitem)
        (hI.bare p item hitem hstage₀ hjoined₀) hjoins

theorem verdicts_step (hlegal : Legal pre e)
    (hdisciplined : Disciplined passes (passMonitor : Monitor (fleet d) PassView).view pre e)
    (hI : Verdicts pre) : Verdicts (e :: pre) := by
  cases ha : e.action with
  | start c =>
      exact verdicts_of_quiet hlegal hI (hlegal.after_eq_of_start ha) (pass_of_start pre ha)
  | op o r => exact verdicts_of_op hlegal hdisciplined hI ha
  | crash => exact verdicts_of_quiet hlegal hI (hlegal.after_eq_of_crash ha) (pass_of_crash pre ha)

/-! ## The theorem -/

theorem demandIsolated_of_verdicts (hlegal : Legal pre e)
    (hdisciplined : Disciplined passes (passMonitor : Monitor (fleet d) PassView).view pre e)
    (hinformed : FailsInformed pre e) (hI : Verdicts pre) : DemandIsolated e := by
  intro row hrow row' hrow' hid hbefore hafter
  have hledger : Ledger e.before.nextUuid e.before.queue := by
    rw [hlegal.before_eq]
    exact hI.ledger
  -- The row has changed, so the event is an operation that has taken effect.
  have hchanged : e.after.queue ≠ e.before.queue := by
    intro hsame
    rw [hsame] at hrow'
    rw [eq_of_mem_of_requestId hledger.nodup hrow' hrow hid, hbefore] at hafter
    cases hafter
  cases ha : e.action with
  | start c => exact absurd (by rw [hlegal.after_eq_of_start ha]) hchanged
  | crash => exact absurd (by rw [hlegal.after_eq_of_crash ha]) hchanged
  | op o r =>
      have hperf : Store.Performed o e.time r e.before e.after := hlegal.executed ha
      have hallow : (pass e.pid pre).Allowed o := hdisciplined.1 o r ha
      have hfails := failsOfBudget_of_performed hledger hperf hrow hrow' hid hbefore hafter
      unfold FailsInformed at hinformed
      rw [ha] at hinformed
      generalize hrequest : row.requestId = requestId at hfails
      cases hfails with
      | release nextAttemptAt category message timestamp hcategory =>
          rcases hallow with ⟨⟨item, hitem, hid'⟩, hstatus⟩
          have hcondemned : (pass e.pid pre).stage = .condemned := by
            rcases hstatus with hdelayed | ⟨_, hnon | hcondemned⟩
            · cases hdelayed
            · exact absurd (Option.some.inj hnon) hcategory
            · exact hcondemned
          have hbare := hI.bare _ item hitem hcondemned (hinformed hchanged)
          rw [← hlegal.before_eq, hid'] at hbare
          exact hbare.not_demanded hrow hrequest e.time
      | ending budgetId category message timestamp =>
          have hqueue : e.after.queue = e.before.queue.failActiveUpstreamBudgetItems budgetId
              category message timestamp := by
            rcases hperf.state with hsame | ⟨input, hexec⟩
            · exact absurd (by rw [hsame]) hchanged
            · rw [hexec]
              rfl
          rw [hqueue] at hrow'
          rcases (failing_failActive hledger.nodup budgetId category message timestamp).rows row'
            hrow' with ⟨row₀, hrow₀, hid₀, hstill⟩
          have hsame := eq_of_mem_of_requestId hledger.nodup hrow₀ hrow (hid₀.trans hid)
          subst hsame
          rcases hstill with ⟨hstatus, hcategory⟩ | ⟨hpending, _, hunbudgeted, honly⟩
          · simp only [failedOfBudget, hstatus, hcategory] at hafter
            simp only [failedOfBudget, hafter] at hbefore
            cases hbefore
          · simp only [demanded, hunbudgeted, Bool.false_or, List.any_eq_false, Bool.and_eq_true,
              decide_eq_true_eq, not_and, Bool.not_eq_true]
            intro m hm hmid
            exact hinformed row₀ hrow₀ hpending m hm hmid (honly m hm hmid)

/-- In every run in which whoever fails an item for its budgets knows of all demand for it, the
items that fail for want of a budget are wanted by nobody. -/
theorem demand_isolated (d : Deployment) (sched : List (Config.Choice (fleet d)))
    (hinformed : Throughout FailsInformed (Config.after (fleet d) sched).history) :
    Throughout (fun _ e => DemandIsolated e) (Config.after (fleet d) sched).history := by
  have hruns := ((Config.legal_after (fleet d) sched).and (passes_after d sched)).and hinformed
  exact Throughout.of_invariant verdicts_nil
    (fun pre e hI h => verdicts_step h.1.1 h.1.2 hI)
    (fun pre e hI h => demandIsolated_of_verdicts h.1.1 h.1.2 h.2 hI) hruns

/-- A search that one budget pays for until a second after the epoch. -/
def budgetedSearch : ArxivRequest :=
  { clientId := "maintenance", searchQuery := some "cat:cs.AI" }

/-- The search is queued for the budget; its deadline passes, and a pass finds that out. -/
def expiredBudget : List (Config.Choice (fleet {})) :=
  .start 0 (.createUpstreamRequestBudget 1 (some 1000000)) :: runs 0 2 ++
    .start 1 (.enqueueRequestForWork budgetedSearch (Keys.requestCacheKey budgetedSearch)
      .fetchMissing (some 0)) :: runs 1 2 ++
    .tick 2000000 :: .start 2 (.runOnce none) :: runs 2 13

/-- The pass fails the item at once. -/
theorem demand_isolated_expired :
    Throughout (fun _ e => DemandIsolated e)
      (Config.after (fleet {}) (expiredBudget ++ runs 2 10)).history :=
  demand_isolated {} (expiredBudget ++ runs 2 10) (by decide +kernel)

/-- Before the pass writes the failure, a client asks for the same search without a budget. -/
def joinedLate : List (Config.Choice (fleet {})) :=
  expiredBudget ++
    .start 3 (.enqueueRequestForWork budgetedSearch (Keys.requestCacheKey budgetedSearch)
      .fetchMissing none) :: runs 3 2 ++ runs 2 10

/-- The client's demand is failed with the budget's. -/
theorem demand_not_isolated :
    ¬ Throughout (fun _ e => DemandIsolated e) (Config.after (fleet {}) joinedLate).history ∧
      (Config.after (fleet {}) joinedLate).state.queue.items.map
          (fun row => (row.unbudgetedDemand, failedOfBudget row)) = [(true, true)] := by
  decide +kernel

end Runs

end Queue
end Huldra
