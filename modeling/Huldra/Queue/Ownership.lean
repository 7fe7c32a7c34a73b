import Huldra.Queue.Promotions

/-!
# Ownership — who may change what an item stands at

An item is completed and put off by its identifier, whoever holds its claim by then.  In a run in
which every item is ended by the pass that holds it, an item that has ended stays so, and a pass
that has lost its claim changes the item no more.  That no two pending items share a cache key
depends on nothing of the kind.
-/

namespace Huldra

namespace QueueTables

/-- The release of these ids by this owner wakes the row. -/
def wakes (q : QueueTables) (arxivIds : List String) (ownerToken : OwnerToken) (row : QueueRow) :
    Bool :=
  (q.reservations.any fun reservation =>
      reservation.ownerToken = ownerToken && arxivIds.eraseDups.contains reservation.arxivId) &&
    row.status = .delayed && row.errorCategory = some "id_fetch_reserved" &&
    row.request.idList.any fun value => arxivIds.eraseDups.contains (Keys.normalizeArxivId value)

end QueueTables

namespace Queue

open QueueTables
open Process (Prog Discipline)
open Process.System (Monitor Config Throughout Disciplined History Event Legal stateAfter)

/-- Of the rows that share a cache key one at most is pending. -/
def OnePending (q : QueueTables) : Prop :=
  ∀ row ∈ q.items, ∀ row' ∈ q.items, row.cacheKey = row'.cacheKey →
    row.status.pending = true → row'.status.pending = true → row.requestId = row'.requestId

/-- An item that has been completed is claimed by nobody. -/
def CompletedFree (q : QueueTables) : Prop :=
  ∀ row ∈ q.items, row.status = .completed → row.claimedBy = none ∧ row.claimedUntil = none

/-! ## What an operation makes of a row -/

section Rows

variable {o : Op} {t : Int} {q : QueueTables} {row row' : QueueRow}

theorem pending_of_claimable (h : claimable row t = true) : row.status.pending = true := by
  cases hstatus : row.status <;> simp [claimable, hstatus, RequestStatus.pending] at h ⊢

theorem BudgetTaken.cacheKey (h : BudgetTaken row row') : row'.cacheKey = row.cacheKey := by
  rcases h with h | ⟨_, h⟩
  · exact h.cacheKey
  · exact h.cacheKey

theorem RowEffect.cacheKey (h : RowEffect o t q row row') : row'.cacheKey = row.cacheKey := by
  unfold RowEffect at h
  split at h
  case h_1 => rw [h.2]; rfl
  case h_2 => rw [h.2]; rfl
  case h_3 => rw [h.2.2]; rfl
  case h_4 => rw [h.2]; rfl
  case h_5 => exact h.cacheKey
  case h_6 => exact h.2.cacheKey
  case h_7 => exact h.2.cacheKey
  case h_8 => exact h.cacheKey
  case h_9 => exact h.cacheKey
  case h_10 => rw [h.2.2.2]; rfl
  case h_11 => exact h.elim

/-- The operation puts the item into the queue whatever it stands at. -/
def PutsOff (q : QueueTables) (requestId : Uuid) (o : Op) : Prop :=
  ∃ nextAttemptAt category message status timestamp,
    o = .queue (.releaseOrDelayQueueItem requestId nextAttemptAt category message status
      timestamp) ∧ q.violatesPendingIndex requestId status = false ∧ status.pending = true

/-- A row that is pending was so before, or has been put off. -/
theorem RowEffect.pending (h : RowEffect o t q row row') (hafter : row'.status.pending = true) :
    row.status.pending = true ∨ PutsOff q row.requestId o := by
  have hkept : row'.status = row.status → row.status.pending = true := fun h => h ▸ hafter
  unfold RowEffect at h
  split at h
  case h_1 => exact Or.inl (pending_of_claimable h.1)
  case h_2 =>
    rw [h.2] at hafter
    cases hafter
  case h_3 =>
    rcases h with ⟨rfl, hfree, rfl⟩
    exact Or.inr ⟨_, _, _, _, _, rfl, hfree, hafter⟩
  case h_4 => exact Or.inl (by rw [h.1]; rfl)
  case h_5 =>
    rcases h with h | ⟨hpending, _⟩
    · exact Or.inl (hkept h.status)
    · exact Or.inl hpending
  case h_6 => exact Or.inl (hkept h.2.status)
  case h_7 => exact Or.inl (hkept h.2.status)
  case h_8 => exact Or.inl (hkept h.status)
  case h_9 => exact Or.inl (hkept h.status)
  case h_10 => exact Or.inl (by rw [h.2.1]; rfl)
  case h_11 => exact h.elim

/-- A completed row is claimed by nobody. -/
theorem RowEffect.free (h : RowEffect o t q row row')
    (hbefore : row.status = .completed → row.claimedBy = none ∧ row.claimedUntil = none)
    (hafter : row'.status = .completed) : row'.claimedBy = none ∧ row'.claimedUntil = none := by
  have hkept : standing row' = standing row → row'.claimedBy = none ∧ row'.claimedUntil = none := by
    intro hsame
    simp only [standing, Prod.mk.injEq] at hsame
    rw [hsame.2.1, hsame.2.2.1]
    exact hbefore (hsame.1.symm.trans hafter)
  unfold RowEffect at h
  split at h
  case h_1 =>
    rw [h.2] at hafter
    cases hafter
  case h_2 => rw [h.2]; exact ⟨rfl, rfl⟩
  case h_3 => rw [h.2.2]; exact ⟨rfl, rfl⟩
  case h_4 =>
    rw [h.2] at hafter
    cases hafter
  case h_5 =>
    rcases h with h | ⟨_, h⟩
    · exact hkept h.standing
    · have hfailed := congrArg Prod.fst h.standing
      rw [standing, hafter] at hfailed
      cases hfailed
  case h_6 => exact hkept h.2.standing
  case h_7 => exact hkept h.2.standing
  case h_8 => exact hkept h.standing
  case h_9 => exact hkept h.standing
  case h_10 =>
    rw [h.2.2.2] at hafter
    exact absurd (h.2.1.symm.trans hafter) (by decide)
  case h_11 => exact h.elim

end Rows

/-! ## What an operation makes of the table -/

section Performed

variable {o : Op} {t : Int} {r : Except Exn o.Res} {s s' : Store}

/-- A row that is put off is alone in its cache key, and one that comes anew is too. -/
theorem OnePending.performed (hledger : Ledger s.nextUuid s.queue)
    (h : Store.Performed o t r s s') (hone : OnePending s.queue) : OnePending s'.queue := by
  -- A row that is put off has no other row of its cache key pending beside it.
  have halone : ∀ {row : QueueRow}, row ∈ s.queue.items → PutsOff s.queue row.requestId o →
      ∀ other ∈ s.queue.items, other.cacheKey = row.cacheKey → other.status.pending = true →
        other.requestId = row.requestId := by
    rintro row hrow ⟨_, _, _, status, _, _, hfree, hstatus⟩ other hother hkey hpending
    by_contra hne
    have hviolates : s.queue.violatesPendingIndex row.requestId status = true := by
      simp only [violatesPendingIndex, item?_of_mem hledger.nodup hrow, hstatus, Bool.true_and,
        List.any_eq_true]
      exact ⟨other, hother, by simp [hne, hkey, hpending]⟩
    rw [hfree] at hviolates
    cases hviolates
  have hold : ∀ {row row' : QueueRow}, row' = row ∨ RowEffect o t s.queue row row' →
      row'.cacheKey = row.cacheKey ∧
        (row'.status.pending = true →
          row.status.pending = true ∨ PutsOff s.queue row.requestId o) := by
    rintro row row' (rfl | hchanged)
    · exact ⟨rfl, Or.inl⟩
    · exact ⟨hchanged.cacheKey, hchanged.pending⟩
  -- Nothing comes anew where a row is put off.
  have hnew : ∀ {row new : QueueRow}, row ∈ s.queue.items → new ∈ s'.queue.items →
      Newcomer s.nextUuid s.queue new → row.cacheKey = new.cacheKey →
        row.status.pending = true ∨ PutsOff s.queue row.requestId o → False := by
    rintro row new hrow hmem hnew hkey (hpending | ⟨_, _, _, _, _, rfl, _⟩)
    · rw [hnew.alone row hrow hkey] at hpending
      cases hpending
    · rcases demand_cases hledger.backed h with hnarrowed | ⟨_, _, _, _, _, _, henqueues, _⟩
      · rcases hnarrowed.row_of_mem hmem with ⟨old, hold, hid, _⟩
        have hfresh := hledger.fresh old hold
        rw [hid, hnew.requestId] at hfresh
        exact absurd hfresh (Nat.lt_irrefl _)
      · cases henqueues
  intro row₁ hrow₁ row₂ hrow₂ hkey hpending₁ hpending₂
  rcases row_before hledger h hrow₁ with ⟨old₁, hold₁, hid₁, heffect₁⟩ | hnew₁
  · rcases row_before hledger h hrow₂ with ⟨old₂, hold₂, hid₂, heffect₂⟩ | hnew₂
    · have hkeys : old₁.cacheKey = old₂.cacheKey := by
        rw [← (hold heffect₁).1, ← (hold heffect₂).1, hkey]
      rw [hid₁, hid₂]
      rcases (hold heffect₁).2 hpending₁ with hwas₁ | hputs₁
      · rcases (hold heffect₂).2 hpending₂ with hwas₂ | hputs₂
        · exact hone old₁ hold₁ old₂ hold₂ hkeys hwas₁ hwas₂
        · exact halone hold₂ hputs₂ old₁ hold₁ hkeys hwas₁
      · rcases (hold heffect₂).2 hpending₂ with hwas₂ | hputs₂
        · exact (halone hold₁ hputs₁ old₂ hold₂ hkeys.symm hwas₂).symm
        · rcases hputs₁ with ⟨_, _, _, _, _, hop₁, _⟩
          rcases hputs₂ with ⟨_, _, _, _, _, hop₂, _⟩
          have hops := hop₁.symm.trans hop₂
          simp only [Op.queue.injEq, QueueOp.releaseOrDelayQueueItem.injEq] at hops
          exact hops.1
    · exact (hnew hold₁ hrow₂ hnew₂ (by rw [← (hold heffect₁).1, hkey])
        ((hold heffect₁).2 hpending₁)).elim
  · rcases row_before hledger h hrow₂ with ⟨old₂, hold₂, hid₂, heffect₂⟩ | hnew₂
    · exact (hnew hold₂ hrow₁ hnew₁ (by rw [← (hold heffect₂).1, hkey])
        ((hold heffect₂).2 hpending₂)).elim
    · exact hnew₁.requestId.trans hnew₂.requestId.symm

theorem CompletedFree.performed (hledger : Ledger s.nextUuid s.queue)
    (h : Store.Performed o t r s s') (hfree : CompletedFree s.queue) : CompletedFree s'.queue := by
  intro row' hrow' hcompleted
  rcases row_before hledger h hrow' with ⟨row, hrow, _, rfl | hchanged⟩ | hnew
  · exact hfree _ hrow hcompleted
  · exact hchanged.free (hfree row hrow) hcompleted
  · rw [hnew.status] at hcompleted
    cases hcompleted

/-- A release changes the rows that it wakes. -/
theorem wakes_of_changed {ids : List String} {owner : OwnerToken} {timestamp : Int}
    {r : Except Exn Unit} (hledger : Ledger s.nextUuid s.queue)
    (h : Store.Performed (.queue (.releaseIdFetchReservations ids owner timestamp)) t r s s')
    {row row' : QueueRow} (hrow : row ∈ s.queue.items) (hrow' : row' ∈ s'.queue.items)
    (hid : row'.requestId = row.requestId) (hchanged : row' ≠ row) :
    s.queue.wakes ids owner row = true := by
  have hstays : row' ∉ s.queue.items := fun hmem =>
    hchanged (eq_of_mem_of_requestId hledger.nodup hmem hrow hid)
  rcases h.state with rfl | ⟨input, rfl⟩
  · exact absurd hrow' hstays
  · simp only [Store.exec, QueueOp.exec, QueueTables.releaseIdFetchReservations] at hrow'
    split at hrow'
    · rename_i hreleased
      simp only [wakeIdFetchReserved, List.mem_map] at hrow'
      rcases hrow' with ⟨old, hold, rfl⟩
      split at hid
      · rename_i hwoken
        rw [eq_of_mem_of_requestId hledger.nodup hold hrow hid] at hwoken
        simp only [wakes, hreleased, hwoken.1, hwoken.2.1, hwoken.2.2, decide_true, Bool.and_self]
      · rename_i hsame
        rw [if_neg hsame] at hstays
        exact absurd hold hstays
    · exact absurd hrow' hstays

/-- A call of the queue that violates a constraint names a budget that does not exist, or puts an
item off beside a pending one. -/
theorem of_integrityError {o : QueueOp} {r : Except Exn (Op.Res (.queue o))}
    (h : Store.Performed (.queue o) t r s s') (hr : r = .error .integrityError) :
    (enqueues? (.queue o)).isSome = true ∨
      ∃ requestId nextAttemptAt category message status timestamp,
        o = .releaseOrDelayQueueItem requestId nextAttemptAt category message status timestamp ∧
          s.queue.violatesPendingIndex requestId status = true := by
  rcases h with ⟨input, _, hexec⟩ | ⟨e, hfault, he, _⟩
  · have hanswer := (congrArg Prod.fst hexec).trans hr
    cases o with
    | enqueueRequestForWork request cacheKey workKind budgetId timeout now => exact Or.inl rfl
    | releaseOrDelayQueueItem requestId nextAttemptAt category message status timestamp =>
        refine Or.inr ⟨_, _, _, _, _, _, rfl, ?_⟩
        by_contra hfree
        simp only [Store.exec, QueueOp.exec, QueueTables.releaseOrDelayQueueItem,
          if_neg hfree] at hanswer
        cases hanswer
    | _ => cases hanswer
  · rw [hr] at he
    cases he
    cases hfault

end Performed

/-! ## Budgets are ended outside the passes -/

def endsBudget : Op → Bool
  | .queue (.failActiveUpstreamBudgetItems ..) => true
  | _ => false

/-- A process that ends a budget works on no item. -/
def endsBudgets : Discipline huldra PassView where
  allow x o := endsBudget o = true → x.item = none
  next x o r x' := ∃ t s s', (0 : Int) ≤ t ∧ Store.Performed o t r s s' ∧ x' = x.step o r

theorem endsBudget_of_limiting {o : Op} (ho : Worker.Limiting o) : endsBudget o = false := by
  unfold endsBudget
  split
  · exact ho.elim
  · rfl

theorem endsBudget_of_bound {owner : OwnerToken} {requestId : Uuid} {o : Op}
    (ho : Worker.Bound owner requestId o) : endsBudget o = false := by
  cases ho with
  | routine ho =>
      unfold endsBudget
      split
      · rcases ho with ho | ho | ⟨_, _, ho⟩
        · exact ho.elim
        · cases ho
        · cases ho
      · rfl
  | limiting ho => exact endsBudget_of_limiting ho
  | fetchBegin call => rfl
  | fetchEnd => rfl

theorem keeps_endsBudgets {β : Type} {p : Program β} (hp : p.AllOps fun o => endsBudget o = false)
    (x : PassView) : p.Keeps endsBudgets x := by
  refine Prog.keeps_of_wp (hp.wp (J := fun _ => True) ?_ x trivial)
  intro o ho x _
  refine ⟨fun hends => ?_, fun _ _ _ => trivial⟩
  rw [ho] at hends
  cases hends

theorem keeps_feeding_endsBudgets {β : Type} {p : Program β} (hp : p.AllOps Worker.Feeding)
    {x : PassView} (hx : x.item = none) : p.Keeps endsBudgets x := by
  refine Prog.keeps_of_wp (hp.wp (J := fun x => x.item = none) ?_ x hx)
  rintro o ho x hx
  refine ⟨fun _ => hx, ?_⟩
  rintro r x' ⟨t, s, s', _, _, rfl⟩
  have hunclaimed : claimed? o r = none := by
    unfold claimed?
    split
    · exact ho.elim
    · rfl
  rw [item_step, hunclaimed]
  exact hx

theorem keeps_program_endsBudgets (d : Deployment) (c : Client) (pid : Nat) {x : PassView}
    (hx : x.item = none) : (c.program d pid).Keeps endsBudgets x := by
  have hfeeding := Worker.feeding_program d c pid
  cases c with
  | runOnce targets =>
      refine keeps_endsBudgets (.bind (.bind (.call rfl) fun _ => .bind ?_ fun item => ?_)
        fun _ => .ret _) _
      · unfold claimNextQueueItem
        split
        · exact .ret _
        · exact .call rfl
      · cases item with
        | none => exact .ret _
        | some item => exact Worker.bound_workClaimed.mono fun _ => endsBudget_of_bound
  | harvestOai request =>
      refine keeps_endsBudgets (.bind ((Harvest.harvesting_harvestOai (d := d) request).mono
        fun o ho => ?_) fun _ => .ret _) _
      unfold endsBudget
      split
      · exact ho.elim
      · rfl
  | enqueueRequestForWork request cacheKey workKind budgetId =>
      exact keeps_feeding_endsBudgets hfeeding hx
  | enqueueRefreshIfDue request cacheKey => exact keeps_feeding_endsBudgets hfeeding hx
  | createUpstreamRequestBudget maxRequests deadlineAt =>
      exact keeps_feeding_endsBudgets hfeeding hx
  | failActiveUpstreamBudgetItems budgetId category message =>
      exact keeps_feeding_endsBudgets hfeeding hx

section Runs

variable {d : Deployment}

theorem endsBudgets_after (d : Deployment) (sched : List (Config.Choice (fleet d))) :
    Throughout (Disciplined endsBudgets (passMonitor : Monitor (fleet d) PassView).view)
      (Config.after (fleet d) sched).history :=
  (passMonitor : Monitor (fleet d) PassView).disciplined_after (passMonitor_kept d)
    (fun pid _ c _ _ _ => keeps_program_endsBudgets d c pid rfl) sched

/-- The process holds the claim on the row. -/
def HeldBy (pid : Nat) (row : QueueRow) : Prop :=
  row.status = .claimed ∧ row.claimedBy = some (.worker pid)

/-- The item that the event is to put off or to fail. -/
def putsOff? (e : Event (fleet d)) : Option Uuid :=
  match e.action with
  | .op (.queue (.releaseOrDelayQueueItem requestId ..)) _ => some requestId
  | _ => none

/-- The ids that the event is to release, and for whom. -/
def releases? (e : Event (fleet d)) : Option (List String × OwnerToken) :=
  match e.action with
  | .op (.queue (.releaseIdFetchReservations arxivIds ownerToken _)) _ =>
      some (arxivIds, ownerToken)
  | _ => none

/-- An item is completed or put off by the pass that holds its claim, where it is not completed
already, and no pass wakes the item it has put off. -/
structure EndsItsOwn (pre : History (fleet d)) (e : Event (fleet d)) : Prop where
  completes : ∀ requestId ∈ completes? e, ∀ row ∈ e.before.queue.items,
    row.requestId = requestId → row.status = .completed ∨ HeldBy e.pid row
  putsOff : ∀ requestId ∈ putsOff? e, ∀ row ∈ e.before.queue.items,
    row.requestId = requestId → HeldBy e.pid row
  releases : ∀ call ∈ releases? e, ∀ item ∈ (pass e.pid pre).item, ∀ row ∈ e.before.queue.items,
    row.requestId = item.requestId → e.before.queue.wakes call.1 call.2 row = false

/-- No ended item comes back. -/
def EndedStay (e : Event (fleet d)) : Prop :=
  ∀ row ∈ e.before.queue.items, row.status.pending = false → ∀ row' ∈ e.after.queue.items,
    row'.requestId = row.requestId → row'.status.pending = false

/-- A pass that does not hold the claim on its item leaves what the item stands at. -/
def LostLeave (pre : History (fleet d)) (e : Event (fleet d)) : Prop :=
  ∀ item ∈ (pass e.pid pre).item, ∀ row ∈ e.before.queue.items, row.requestId = item.requestId →
    ¬ HeldBy e.pid row → ∀ row' ∈ e.after.queue.items, row'.requestId = row.requestId →
      standing row' = standing row

structure OwnershipKept (pre : History (fleet d)) (e : Event (fleet d)) : Prop where
  ended : EndedStay e
  lost : LostLeave pre e
  single : OnePending e.after.queue
  /-- Only an enqueue for a budget that does not exist violates a constraint. -/
  index : ∀ o, e.action = .op (.queue o) (.error .integrityError) →
    (enqueues? (.queue o)).isSome = true

instance (pid : Nat) (row : QueueRow) : Decidable (HeldBy pid row) :=
  inferInstanceAs (Decidable (_ ∧ _))

instance (pre : History (fleet d)) (e : Event (fleet d)) : Decidable (EndsItsOwn pre e) :=
  decidable_of_iff
    ((∀ requestId ∈ completes? e, ∀ row ∈ e.before.queue.items, row.requestId = requestId →
        row.status = .completed ∨ HeldBy e.pid row) ∧
      (∀ requestId ∈ putsOff? e, ∀ row ∈ e.before.queue.items, row.requestId = requestId →
        HeldBy e.pid row) ∧
      ∀ call ∈ releases? e, ∀ item ∈ (pass e.pid pre).item, ∀ row ∈ e.before.queue.items,
        row.requestId = item.requestId → e.before.queue.wakes call.1 call.2 row = false)
    ⟨fun ⟨hcompletes, hputs, hreleases⟩ => ⟨hcompletes, hputs, hreleases⟩,
      fun h => ⟨h.completes, h.putsOff, h.releases⟩⟩

instance (e : Event (fleet d)) : Decidable (EndedStay e) := by
  unfold EndedStay
  infer_instance

/-! ## Every run -/

/-- What every run keeps of the rows. -/
structure Tidy (pre : History (fleet d)) : Prop where
  single : OnePending (stateAfter pre).queue
  free : CompletedFree (stateAfter pre).queue

variable {pre : History (fleet d)} {e : Event (fleet d)}

theorem lostLeave_of_owned {o : Op} {r : Except Exn o.Res} (ha : e.action = .op o r)
    (hlegal : Legal pre e) (hledger : Ledger (stateAfter pre).nextUuid (stateAfter pre).queue)
    (hpasses : Disciplined passes (passMonitor : Monitor (fleet d) PassView).view pre e)
    (hends : Disciplined endsBudgets (passMonitor : Monitor (fleet d) PassView).view pre e)
    (howns : EndsItsOwn pre e) (hfree : CompletedFree (stateAfter pre).queue) :
    LostLeave pre e := by
  intro item hitem row hrow hid hlost row' hrow' hid'
  have hallow := hpasses.1 o r ha
  have hon : (pass e.pid pre).On row.requestId := ⟨item, hitem, hid.symm⟩
  have hperf := performed_of_op hlegal ha
  have hbefore := hrow
  rw [hlegal.before_eq] at hrow
  rcases row_changed hledger hperf hrow hrow' hid' with rfl | hchanged
  · rfl
  · unfold RowEffect at hchanged
    split at hchanged
    case h_1 =>
      -- A pass claims once, before it has an item.
      have hnone : (pass e.pid pre).item = none := hallow.2
      rw [hnone] at hitem
      cases hitem
    case h_2 =>
      rcases hchanged with ⟨hrid, rfl⟩
      rcases howns.completes _ (by simp [completes?, ha]) row hbefore hrid with
        hcompleted | hheld
      · rcases hfree row hrow hcompleted with ⟨hby, huntil⟩
        simp only [standing, QueueRow.complete, hcompleted, hby, huntil]
      · exact absurd hheld hlost
    case h_3 =>
      exact absurd (howns.putsOff _ (by simp [putsOff?, ha]) row hbefore hchanged.1) hlost
    case h_4 =>
      by_contra hmoved
      have hwakes := wakes_of_changed hledger hperf hrow hrow' hid' fun heq => hmoved (by rw [heq])
      have hasleep := howns.releases _ (by simp [releases?, ha]; rfl) item hitem row hbefore hid
      rw [hlegal.before_eq, hwakes] at hasleep
      cases hasleep
    case h_5 =>
      have hnone : (pass e.pid pre).item = none := hends.1 _ _ ha rfl
      rw [hnone] at hitem
      cases hitem
    case h_6 => exact hchanged.2.standing
    case h_7 => exact hchanged.2.standing
    case h_8 => exact hchanged.standing
    case h_9 => exact hchanged.standing
    case h_10 =>
      have howner := hallow.1
      rw [pass_pid] at howner
      exact absurd ⟨hchanged.2.1, howner ▸ hchanged.2.2.1⟩ hlost
    case h_11 => exact hchanged.elim

theorem endedStay_of_owned {o : Op} {r : Except Exn o.Res} (ha : e.action = .op o r)
    (hlegal : Legal pre e) (hledger : Ledger (stateAfter pre).nextUuid (stateAfter pre).queue)
    (howns : EndsItsOwn pre e) : EndedStay e := by
  intro row hrow hended row' hrow' hid'
  have hbefore := hrow
  rw [hlegal.before_eq] at hrow
  rcases row_changed hledger (performed_of_op hlegal ha) hrow hrow' hid' with rfl | hchanged
  · exact hended
  · by_contra hpending
    rcases hchanged.pending (by simpa using hpending) with hwas | ⟨_, _, _, _, _, rfl, _⟩
    · rw [hended] at hwas
      cases hwas
    · have hheld := howns.putsOff _ (by simp [putsOff?, ha]) row hbefore rfl
      rw [hheld.1] at hended
      cases hended

/-- The one who puts an item off holds it, so no other item of its cache key is pending. -/
theorem index_of_owned (hlegal : Legal pre e) (howns : EndsItsOwn pre e)
    (hone : OnePending (stateAfter pre).queue) (o : QueueOp)
    (ha : e.action = .op (.queue o) (.error .integrityError)) :
    (enqueues? (.queue o)).isSome = true := by
  rcases of_integrityError (performed_of_op hlegal ha) rfl with
    henqueues | ⟨requestId, _, _, _, status, _, rfl, hviolates⟩
  · exact henqueues
  · unfold violatesPendingIndex at hviolates
    split at hviolates
    · rename_i row hitem
      rcases mem_of_item? hitem with ⟨hrow, hid⟩
      simp only [Bool.and_eq_true, List.any_eq_true, decide_eq_true_eq] at hviolates
      rcases hviolates with ⟨_, other, hother, ⟨hne, hkey⟩, hpending⟩
      have hheld := (howns.putsOff requestId (by simp [putsOff?, ha]) row
        (by rw [hlegal.before_eq]; exact hrow) hid).1
      exact absurd (hone other hother row hrow hkey hpending (by rw [hheld]; rfl))
        (hid.symm ▸ hne)
    · cases hviolates

theorem tidy_nil : Tidy (d := d) [] where
  single := by
    intro row hrow
    cases hrow
  free := by
    intro row hrow
    cases hrow

theorem tidy_step (hlegal : Legal pre e)
    (hledger : Ledger (stateAfter pre).nextUuid (stateAfter pre).queue)
    (hI : Tidy pre) : Tidy (e :: pre) := by
  by_cases ha : ∃ o r, e.action = .op o r
  · rcases ha with ⟨o, r, ha⟩
    have hperf := performed_of_op hlegal ha
    exact ⟨hI.single.performed hledger hperf, hI.free.performed hledger hperf⟩
  · have hsame : stateAfter (e :: pre) = stateAfter pre :=
      after_eq_of_not_op hlegal fun o r h => ha ⟨o, r, h⟩
    exact ⟨by rw [hsame]; exact hI.single, by rw [hsame]; exact hI.free⟩

/-- An event that is no operation changes no row. -/
theorem ownershipKept_of_idle (hlegal : Legal pre e)
    (hledger : Ledger (stateAfter pre).nextUuid (stateAfter pre).queue)
    (hI : Tidy pre) (ha : ∀ o r, e.action ≠ .op o r) :
    OwnershipKept pre e := by
  have hafter : e.after = e.before := (after_eq_of_not_op hlegal ha).trans hlegal.before_eq.symm
  have hsame : ∀ row ∈ e.before.queue.items, ∀ row' ∈ e.after.queue.items,
      row'.requestId = row.requestId → row' = row := by
    intro row hrow row' hrow' hid
    rw [hafter] at hrow'
    rw [hlegal.before_eq] at hrow hrow'
    exact eq_of_mem_of_requestId hledger.nodup hrow' hrow hid
  refine ⟨?_, ?_, ?_, fun o h => absurd h (ha _ _)⟩
  · intro row hrow hended row' hrow' hid
    rw [hsame row hrow row' hrow' hid]
    exact hended
  · intro item _ row hrow _ _ row' hrow' hid
    rw [hsame row hrow row' hrow' hid]
  · rw [hafter, hlegal.before_eq]
    exact hI.single

/-- In every run in which items are ended by the passes that hold them, ownership is kept. -/
theorem ownership_kept (d : Deployment) (sched : List (Config.Choice (fleet d)))
    (howns : Throughout EndsItsOwn (Config.after (fleet d) sched).history) :
    Throughout OwnershipKept (Config.after (fleet d) sched).history := by
  have hlegal := (Config.legal_after (fleet d) sched).with_past
  have hruns := (hlegal.and ((passes_after d sched).and (endsBudgets_after d sched))).and howns
  refine Throughout.of_invariant tidy_nil ?_ ?_ hruns
  · rintro pre e hI ⟨⟨⟨hlegal, hpast⟩, _⟩, _⟩
    exact tidy_step hlegal (ledger_after hpast) hI
  · rintro pre e hI ⟨⟨⟨hlegal, hpast⟩, hpasses, hends⟩, howns⟩
    have hledger := ledger_after hpast
    by_cases ha : ∃ o r, e.action = .op o r
    · rcases ha with ⟨o, r, ha⟩
      exact ⟨endedStay_of_owned ha hlegal hledger howns,
        lostLeave_of_owned ha hlegal hledger hpasses hends howns hI.free,
        hI.single.performed hledger (performed_of_op hlegal ha),
        index_of_owned hlegal howns hI.single⟩
    · exact ownershipKept_of_idle hlegal hledger hI fun o r h => ha ⟨o, r, h⟩

/-- The first worker is in its fetch when its claim runs out; the second takes the item over,
fetches and completes it. -/
def takenOver : List (Config.Choice (fleet {})) :=
  searchSent ++ .tick 1000000000 :: .start 2 (.runOnce none) :: runs 2 20 ++
    .run 2 emptyFeed :: runs 2 10

/-- The first worker's answer comes late, and the item stays completed. -/
theorem ownership_kept_late_answer :
    Throughout OwnershipKept
      (Config.after (fleet {}) (takenOver ++ .run 1 emptyFeed :: runs 1 10)).history :=
  ownership_kept {} _ (by decide +kernel)

/-- The first worker's fetch times out late, and it puts the completed item back into the queue. -/
theorem ownership_lost :
    ¬ Throughout OwnershipKept (Config.after (fleet {}) (takenOver ++
      .run 1 { fetch := .error (.transientFetchError "timed out" none) }
        :: runs 1 10)).history := by
  have hback : ((Config.after (fleet {}) (takenOver ++
      .run 1 { fetch := .error (.transientFetchError "timed out" none) } ::
        runs 1 10)).history.head?.any fun e => decide (¬ EndedStay e)) = true := by
    decide +kernel
  generalize (Config.after (fleet {}) (takenOver ++
    .run 1 { fetch := .error (.transientFetchError "timed out" none) } ::
      runs 1 10)).history = h at hback
  intro hkept
  cases h with
  | nil => cases hback
  | cons e pre => exact of_decide_eq_true hback hkept.head.ended

end Runs

end Queue
end Huldra
