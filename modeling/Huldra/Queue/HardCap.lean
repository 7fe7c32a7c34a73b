import Huldra.Queue.Bookkeeping

/-!
# HardCap — a request budget is a hard cap

A pass fetches under a reservation and a fence.  The fence says that the claim of the pass still
stands, so that the attempt that was reserved is the attempt of the pass, and was charged to every
budget that was its member then.  No two passes fetch for one attempt, and none fetches twice; so
the fetches of a budget are no more than its charges.
-/

namespace Huldra
namespace Queue

open QueueTables
open Process.System (Config Throughout Disciplined History Event Legal stateAfter)

variable {d : Deployment}

/-! ## Attempts and claims -/

section Rows

variable {o : Op} {t : Int} {r : Except Exn o.Res} {s s' : Store}

/-- A claim begins an attempt, and nothing else does. -/
theorem attempts_eq {q : QueueTables} {row row' : QueueRow} (h : RowEffect o t q row row')
    (hclaim : ∀ owner timeout keys, o ≠ .queue (.claimNextQueueItem owner timeout keys)) :
    row'.attemptsTotal = row.attemptsTotal := by
  unfold RowEffect at h
  split at h
  case h_1 owner timeout keys => exact absurd rfl (hclaim owner timeout keys)
  case h_2 => rw [h.2]; rfl
  case h_3 => rw [h.2.2]; rfl
  case h_4 => rw [h.2]; rfl
  case h_5 =>
    rcases h with h | ⟨_, h⟩
    · exact h.attempts
    · exact h.attempts
  case h_6 => exact h.2.attempts
  case h_7 => exact h.2.attempts
  case h_8 => exact h.attempts
  case h_9 => exact h.attempts
  case h_10 => rw [h.2.2.2]; rfl
  case h_11 => exact h.elim

/-- No operation takes an attempt back. -/
theorem attempts_le {q : QueueTables} {row row' : QueueRow} (h : RowEffect o t q row row') :
    row.attemptsTotal ≤ row'.attemptsTotal := by
  by_cases hclaim : ∃ owner timeout keys, o = .queue (.claimNextQueueItem owner timeout keys)
  · rcases hclaim with ⟨owner, timeout, keys, rfl⟩
    rw [h.2]
    exact Nat.le_succ _
  · refine Nat.le_of_eq (attempts_eq h ?_).symm
    intro owner timeout keys ho
    exact hclaim ⟨owner, timeout, keys, ho⟩

/-- Who holds a row held it for the same attempt, unless it claims it now. -/
theorem held_step {p : Nat} {q : QueueTables} {row row' : QueueRow}
    (h : row' = row ∨ RowEffect o t q row row') (hheld : HeldBy p row') :
    (HeldBy p row ∧ row'.attemptsTotal = row.attemptsTotal) ∨
      ∃ timeout keys, o = .queue (.claimNextQueueItem (.worker p) timeout keys) := by
  rcases h with rfl | h
  · exact Or.inl ⟨hheld, rfl⟩
  · rcases Worker.heldBy_before h hheld with hbefore | hclaims
    · by_cases hclaim : ∃ owner timeout keys, o = .queue (.claimNextQueueItem owner timeout keys)
      · -- Whoever claims the row holds it.
        rcases hclaim with ⟨owner, timeout, keys, rfl⟩
        rw [h.2] at hheld
        have howner : owner = .worker p := Option.some.inj hheld.2
        exact Or.inr ⟨timeout, keys, by rw [howner]⟩
      · refine Or.inl ⟨hbefore, attempts_eq h ?_⟩
        intro owner timeout keys ho
        exact hclaim ⟨owner, timeout, keys, ho⟩
    · exact Or.inr hclaims

/-- A claim hands out the next attempt of a row. -/
theorem rows_of_claimed (h : Store.Performed o t r s s')
    {item : QueueItem} (hitem : claimed? o r = some item) :
    (∃ row ∈ s.queue.items, row.requestId = item.requestId ∧
        row.attemptsTotal + 1 = item.attemptsTotal) ∧
      ∃ row' ∈ s'.queue.items, row'.requestId = item.requestId ∧
        row'.attemptsTotal = item.attemptsTotal := by
  unfold claimed? at hitem
  split at hitem
  · rename_i owner timeout keys answer
    subst hitem
    rcases h.of_ok with ⟨input, _, hexec⟩
    have hanswer := congrArg Prod.fst hexec
    have hstate := congrArg (fun out => out.2.queue.items) hexec
    rcases claimNextQueueItem_cases (q := s.queue) owner timeout keys t with
      hnone | ⟨row, hmem, _, hclaim⟩
    · simp [Store.exec, QueueOp.exec, hnone] at hanswer
    · simp only [Store.exec, QueueOp.exec, hclaim] at hanswer hstate
      cases hanswer
      refine ⟨⟨row, hmem, rfl, rfl⟩, _, ?_, rfl, rfl⟩
      rw [← hstate]
      exact mem_updateItem.2 (Or.inr ⟨row, hmem, rfl, rfl⟩)
  · cases hitem

end Rows

/-! ## Fetches -/

/-- The item and the attempt for which the event begins a fetch. -/
def fetch? (e : Event (fleet d)) : Option (Uuid × Nat) :=
  match e.action with
  | .op (.upstream (.fetchBegin call)) _ => some (call.requestId, call.attempt)
  | _ => none

/-- The item of a reservation that was granted. -/
def reservedFor? : (o : Op) → Except Exn o.Res → Option Uuid
  | .queue (.reserveQueueItemUpstreamRequest requestId), .ok none => some requestId
  | _, _ => none

/-- The item of a fence that was granted. -/
def fencedFor? : (o : Op) → Except Exn o.Res → Option Uuid
  | .renewWorkerFetchOwnership requestId .., .ok none => some requestId
  | _, _ => none

/-- The budgets that were members of the attempt right after the reservation of the pass that the
process `p` is in. -/
def paying (p : Nat) : History (fleet d) → List Uuid
  | [] => []
  | e :: pre =>
      if e.pid = p then
        match e.action with
        | .op o r =>
            match reservedFor? o r with
            | some requestId => (e.after.queue.budgetAttemptState requestId).activeBudgetIds
            | none => paying p pre
        | _ => []
      else paying p pre

/-- The fetches of a run, the newest first. -/
def fetches (h : History (fleet d)) : List (Uuid × Nat) :=
  h.filterMap fetch?

/-- The fetches that the budget was to pay for. -/
def fetchesFor (budgetId : Uuid) : History (fleet d) → List (Uuid × Nat)
  | [] => []
  | e :: pre =>
      (if budgetId ∈ paying e.pid pre then (fetch? e).toList else []) ++ fetchesFor budgetId pre

/-- What every run keeps of the passes and their fetches. -/
structure Spent (h : History (fleet d)) : Prop where
  /-- The attempt of a pass is the last of its item, as long as the pass holds the item. -/
  located : ∀ p item, (pass p h).item = some item → 0 < item.attemptsTotal ∧
    ∃ row ∈ (stateAfter h).queue.items, row.requestId = item.requestId ∧
      item.attemptsTotal ≤ row.attemptsTotal ∧
        (HeldBy p row → row.attemptsTotal = item.attemptsTotal)
  unpaid : ∀ p, (pass p h).item = none → paying p h = []
  /-- No two passes work on one attempt. -/
  alone : ∀ p p' item item', p ≠ p' → (pass p h).item = some item →
    (pass p' h).item = some item' → item.requestId = item'.requestId →
      item.attemptsTotal ≠ item'.attemptsTotal
  covered : ∀ p item, (pass p h).item = some item → ∀ row ∈ (stateAfter h).queue.items,
    row.requestId = item.requestId → row.attemptsTotal = item.attemptsTotal →
      ∀ budgetId ∈ paying p h, (item.requestId, item.attemptsTotal) ∈ charges budgetId h
  ready : ∀ p item, (pass p h).item = some item → (pass p h).stage = .ready →
    ∀ budgetId ∈ paying p h, (item.requestId, item.attemptsTotal) ∈ charges budgetId h
  past : ∀ f ∈ fetches h, ∃ row ∈ (stateAfter h).queue.items, row.requestId = f.1 ∧
    f.2 ≤ row.attemptsTotal
  begun : ∀ p item, (pass p h).item = some item →
    (item.requestId, item.attemptsTotal) ∈ fetches h → begun p h = true
  once : (fetches h).Nodup
  paid : ∀ budgetId, ∀ f ∈ fetchesFor budgetId h, f ∈ charges budgetId h

/-! ## What an operation shows -/

section Answers

variable {o : Op} {t : Int} {r : Except Exn o.Res} {s s' : Store} {x : PassView}

/-- A pass gets ready by a fence, and stays so until it claims or reserves. -/
theorem ready_of_step (h : (x.step o r).stage = .ready) :
    claimed? o r = none ∧ reservedFor? o r = none ∧
      (x.stage = .ready ∨ (fencedFor? o r).isSome = true) := by
  have hverdict : ∀ error : String, Stage.afterVerdict error ≠ .ready := by
    intro error
    unfold Stage.afterVerdict
    split <;> exact fun h => by cases h
  cases o with
  | queue o =>
      cases o with
      | claimNextQueueItem owner timeout keys =>
          cases r with
          | ok item =>
              cases item with
              | none => exact ⟨rfl, rfl, Or.inl h⟩
              | some item => cases h
          | error e => exact ⟨rfl, rfl, Or.inl h⟩
      | reserveQueueItemUpstreamRequest requestId =>
          cases r with
          | ok error =>
              cases error with
              | none => cases h
              | some error => exact absurd h (hverdict error)
          | error e => exact ⟨rfl, rfl, Or.inl h⟩
      | checkQueueItemUpstreamRequestDeadlines requestId =>
          cases r with
          | ok error =>
              cases error with
              | none => exact ⟨rfl, rfl, Or.inl h⟩
              | some error => exact absurd h (hverdict error)
          | error e => exact ⟨rfl, rfl, Or.inl h⟩
      | _ => exact ⟨rfl, rfl, Or.inl h⟩
  | renewWorkerFetchOwnership requestId owner name ttl ids =>
      refine ⟨rfl, rfl, ?_⟩
      cases r with
      | ok reason =>
          cases reason with
          | none => exact Or.inr rfl
          | some reason => cases h
      | error e => cases h
  | upstream o =>
      cases o with
      | fetchBegin call => cases h
      | _ => exact ⟨rfl, rfl, Or.inl h⟩
  | _ => exact ⟨rfl, rfl, Or.inl h⟩

/-- A fence is granted to the holder of the item. -/
theorem heldBy_of_fenced (h : Store.Performed o t r s s') (hallow : x.Allowed o) {requestId : Uuid}
    (hfenced : fencedFor? o r = some requestId) :
    x.On requestId ∧ ∃ row ∈ s.queue.items, row.requestId = requestId ∧ HeldBy x.pid row := by
  unfold fencedFor? at hfenced
  split at hfenced
  · rename_i requestId' owner name ttl ids
    cases hfenced
    refine ⟨hallow.2, ?_⟩
    rcases h.of_ok with ⟨input, _, hexec⟩
    have hanswer : (s.renewWorkerFetchOwnership requestId owner name ttl ids t).1 = none :=
      Except.ok.inj (congrArg Prod.fst hexec)
    have hclaim : s.queue.claimedByOwner requestId owner = true := by
      unfold Store.renewWorkerFetchOwnership at hanswer
      simp only at hanswer
      split at hanswer
      · cases hanswer
      · split at hanswer
        · cases hanswer
        · rename_i hclaim
          simpa using hclaim
    cases hitem : s.queue.item? requestId with
    | none => simp [claimedByOwner, hitem] at hclaim
    | some row =>
        rcases mem_of_item? hitem with ⟨hrow, hid⟩
        simp [claimedByOwner, hitem, hallow.1] at hclaim
        exact ⟨row, hrow, hid, hclaim⟩
  · cases hfenced

/-- After a reservation that was granted the attempt is paid up. -/
theorem paidUp_of_granted (hledger : Ledger s.nextUuid s.queue)
    (hfunds : Funds s.nextUuid s.queue) (h : Store.Performed o t r s s') {requestId : Uuid}
    (hgranted : reservedFor? o r = some requestId) {row' : QueueRow}
    (hrow' : row' ∈ s'.queue.items) (hid : row'.requestId = requestId) :
    PaidUp s'.queue requestId row'.attemptsTotal := by
  unfold reservedFor? at hgranted
  split at hgranted
  · cases hgranted
    rcases h.of_ok with ⟨input, _, hexec⟩
    have hanswer : (s.queue.reserveQueueItemUpstreamRequest requestId t).1 = none :=
      Except.ok.inj (congrArg Prod.fst hexec)
    have hqueue : (s.queue.reserveQueueItemUpstreamRequest requestId t).2 = s'.queue :=
      congrArg (fun out => out.2.queue) hexec
    rcases reserve_effect hfunds.keyed hledger.nodup requestId t with
      ⟨hrefused, _⟩ | ⟨_, charged, hreserved⟩
    · exact absurd hanswer hrefused
    · have hrows : ∀ row' ∈ s'.queue.items, ∃ row ∈ s.queue.items,
          row.requestId = row'.requestId ∧ row.attemptsTotal = row'.attemptsTotal := by
        intro row' hrow'
        rw [← hqueue] at hrow'
        exact attempts_of_reserve hrow'
      rcases hrows row' hrow' with ⟨row, hrow, hsame, hattempts⟩
      have hattempt : attemptOf s.queue requestId = row'.attemptsTotal := by
        rw [← hattempts, ← hid, ← hsame]
        exact attemptOf_of_mem hledger.nodup hrow
      rw [← hattempt, ← hqueue] at *
      exact paidUp_of_reserved hledger.nodup hreserved hrows
  · cases hgranted

end Answers

/-! ## One operation -/

variable {pre : History (fleet d)} {e : Event (fleet d)}

/-- An operation of a run, with what the run has kept so far. -/
structure Acts (pre : History (fleet d)) (e : Event (fleet d)) (o : Op) (r : Except Exn o.Res) :
    Prop where
  action : e.action = .op o r
  legal : Legal pre e
  ledger : Ledger (stateAfter pre).nextUuid (stateAfter pre).queue
  booked : Booked pre
  booked' : Booked (e :: pre)
  allowed : (pass e.pid pre).Allowed o
  once : begun e.pid pre = true → Unfetching o

namespace Acts

variable {o : Op} {r : Except Exn o.Res}

theorem performed (h : Acts pre e o r) :
    Store.Performed o e.time r (stateAfter pre) e.after :=
  performed_of_op h.legal h.action

theorem ledger' (h : Acts pre e o r) :
    Ledger (stateAfter (e :: pre)).nextUuid (stateAfter (e :: pre)).queue :=
  h.ledger.performed h.performed

/-- The item of a pass is an old one, which the process does not claim now, or it is just handed
out. -/
theorem item_cases (h : Acts pre e o r) {p : Nat} {item : QueueItem}
    (hitem : (pass p (e :: pre)).item = some item) :
    ((pass p pre).item = some item ∧
        ∀ timeout keys, o ≠ .queue (.claimNextQueueItem (.worker p) timeout keys)) ∨
      (e.pid = p ∧ claimed? o r = some item ∧ (pass p pre).item = none) := by
  by_cases hp : e.pid = p
  · subst hp
    rw [pass_of_op pre h.action, item_step] at hitem
    cases hclaimed : claimed? o r with
    | none =>
        rw [hclaimed] at hitem
        refine Or.inl ⟨hitem, ?_⟩
        rintro timeout keys rfl
        have hnone : (pass e.pid pre).item = none := h.allowed.2
        rw [hnone] at hitem
        cases hitem
    | some claimed =>
        rw [hclaimed] at hitem
        refine Or.inr ⟨rfl, hitem, ?_⟩
        unfold claimed? at hclaimed
        split at hclaimed
        · exact h.allowed.2
        · cases hclaimed
  · rw [pass_of_ne pre hp] at hitem
    refine Or.inl ⟨hitem, ?_⟩
    rintro timeout keys rfl
    have howner : (OwnerToken.worker p) = .worker (pass e.pid pre).pid := h.allowed.1
    rw [pass_pid] at howner
    exact hp (OwnerToken.worker.inj howner).symm

/-- A row that was there is there. -/
theorem row_after (h : Acts pre e o r) {row : QueueRow}
    (hrow : row ∈ (stateAfter pre).queue.items) :
    ∃ row' ∈ (stateAfter (e :: pre)).queue.items, row'.requestId = row.requestId ∧
      row.attemptsTotal ≤ row'.attemptsTotal ∧
        (row' = row ∨ RowEffect o e.time (stateAfter pre).queue row row') := by
  rcases Queue.row_after h.ledger h.performed hrow with ⟨row', hrow', hid, heffect⟩
  refine ⟨row', hrow', hid, ?_, heffect⟩
  rcases heffect with rfl | heffect
  · exact Nat.le_refl _
  · exact attempts_le heffect

/-- The row of an item that was there. -/
theorem row_before (h : Acts pre e o r) {row₀ row' : QueueRow}
    (hrow₀ : row₀ ∈ (stateAfter pre).queue.items)
    (hrow' : row' ∈ (stateAfter (e :: pre)).queue.items) (hid : row'.requestId = row₀.requestId) :
    row₀.attemptsTotal ≤ row'.attemptsTotal := by
  rcases h.row_after hrow₀ with ⟨row₁, hrow₁, hid₁, hle, _⟩
  rw [eq_of_mem_of_requestId h.ledger'.nodup hrow' hrow₁ (hid.trans hid₁.symm)]
  exact hle

theorem paying_cases (h : Acts pre e o r) (p : Nat) :
    paying p (e :: pre) = paying p pre ∨ ∃ requestId, e.pid = p ∧
      reservedFor? o r = some requestId ∧ (pass p pre).On requestId ∧
        paying p (e :: pre) = (e.after.queue.budgetAttemptState requestId).activeBudgetIds := by
  by_cases hp : e.pid = p
  · subst hp
    simp only [paying, h.action, if_pos]
    cases hreserved : reservedFor? o r with
    | none => exact Or.inl rfl
    | some requestId =>
        refine Or.inr ⟨requestId, trivial, rfl, ?_, rfl⟩
        unfold reservedFor? at hreserved
        split at hreserved
        · cases hreserved
          exact h.allowed
        · cases hreserved
  · left
    rw [paying, if_neg hp]

end Acts

theorem fetches_cons (e : Event (fleet d)) (pre : History (fleet d)) :
    fetches (e :: pre) = (fetch? e).toList ++ fetches pre := by
  unfold fetches
  cases h : fetch? e with
  | none => simp [h]
  | some f => simp [h]

/-- A fetch that is begun now is one for the pass of the process, which is ready for it. -/
theorem Acts.fetched {o : Op} {r : Except Exn o.Res} (h : Acts pre e o r) {f : Uuid × Nat}
    (hf : fetch? e = some f) : claimed? o r = none ∧ (pass e.pid pre).stage = .ready ∧
      begun e.pid (e :: pre) = true ∧ begun e.pid pre ≠ true ∧
        ∃ item, (pass e.pid pre).item = some item ∧ f = (item.requestId, item.attemptsTotal) := by
  have hbegun := (fetchMonitor d).view_of_op pre h.action
  have hallow := h.allowed
  have honce := h.once
  unfold fetch? at hf
  rw [h.action] at hf
  split at hf
  · rename_i call r' hact
    cases hact
    rcases hallow with ⟨hready, item, hitem, hid, hattempt⟩
    refine ⟨rfl, hready, hbegun, fun hwas => honce hwas call rfl, item, hitem, ?_⟩
    rw [← Option.some.inj hf, hid, hattempt]
  · cases hf

namespace Spent

variable {o : Op} {r : Except Exn o.Res} {p : Nat} {item : QueueItem}

theorem located_step (hI : Spent pre) (h : Acts pre e o r)
    (hitem : (pass p (e :: pre)).item = some item) : 0 < item.attemptsTotal ∧
      ∃ row ∈ (stateAfter (e :: pre)).queue.items, row.requestId = item.requestId ∧
        item.attemptsTotal ≤ row.attemptsTotal ∧
          (HeldBy p row → row.attemptsTotal = item.attemptsTotal) := by
  rcases h.item_cases hitem with ⟨hwas, hclaim⟩ | ⟨_, hclaimed, _⟩
  · rcases hI.located p item hwas with ⟨hpos, row, hrow, hid, hle, hheld⟩
    rcases h.row_after hrow with ⟨row', hrow', hid', hle', heffect⟩
    refine ⟨hpos, row', hrow', hid'.trans hid, Nat.le_trans hle hle', fun hholds => ?_⟩
    rcases held_step heffect hholds with ⟨hbefore, hsame⟩ | ⟨timeout, keys, ho⟩
    · exact hsame.trans (hheld hbefore)
    · exact absurd ho (hclaim timeout keys)
  · rcases rows_of_claimed h.performed hclaimed with
      ⟨⟨row, _, _, hnext⟩, row', hrow', hid', hattempts⟩
    exact ⟨hnext ▸ Nat.succ_pos _, row', hrow', hid', Nat.le_of_eq hattempts.symm,
      fun _ => hattempts⟩

theorem unpaid_step (hI : Spent pre) (h : Acts pre e o r)
    (hnone : (pass p (e :: pre)).item = none) : paying p (e :: pre) = [] := by
  have hwas : (pass p pre).item = none := by
    by_cases hp : e.pid = p
    · subst hp
      rw [pass_of_op pre h.action, item_step, Option.or_eq_none_iff] at hnone
      exact hnone.2
    · rw [pass_of_ne pre hp] at hnone
      exact hnone
  rcases h.paying_cases p with hsame | ⟨requestId, _, _, ⟨item, hitem, _⟩, _⟩
  · exact hsame.trans (hI.unpaid p hwas)
  · rw [hwas] at hitem
    cases hitem

/-- An attempt that is handed out is nobody else's. -/
theorem alone_of_claimed (hI : Spent pre) (h : Acts pre e o r) {item' : QueueItem} {p' : Nat}
    (hclaimed : claimed? o r = some item) (hitem' : (pass p' pre).item = some item')
    (hid : item.requestId = item'.requestId) : item'.attemptsTotal < item.attemptsTotal := by
  rcases rows_of_claimed h.performed hclaimed with ⟨⟨row, hrow, hrid, hnext⟩, _⟩
  rcases hI.located p' item' hitem' with ⟨_, row', hrow', hrid', hle, _⟩
  have hsame := eq_of_mem_of_requestId h.ledger.nodup hrow' hrow
    (hrid'.trans (hid.symm.trans hrid.symm))
  rw [hsame] at hle
  rw [← hnext]
  exact Nat.lt_succ_of_le hle

theorem alone_step (hI : Spent pre) (h : Acts pre e o r) {p' : Nat} {item' : QueueItem}
    (hne : p ≠ p') (hitem : (pass p (e :: pre)).item = some item)
    (hitem' : (pass p' (e :: pre)).item = some item') (hid : item.requestId = item'.requestId) :
    item.attemptsTotal ≠ item'.attemptsTotal := by
  rcases h.item_cases hitem with ⟨hwas, _⟩ | ⟨hp, hclaimed, _⟩
  · rcases h.item_cases hitem' with ⟨hwas', _⟩ | ⟨_, hclaimed', _⟩
    · exact hI.alone p p' item item' hne hwas hwas' hid
    · exact Nat.ne_of_lt (hI.alone_of_claimed h hclaimed' hwas hid.symm)
  · rcases h.item_cases hitem' with ⟨hwas', _⟩ | ⟨hp', _, _⟩
    · exact Nat.ne_of_gt (hI.alone_of_claimed h hclaimed hwas' hid)
    · exact absurd (hp.symm.trans hp') hne

/-- What the budgets of a granted reservation have been charged for. -/
theorem charged_of_granted (h : Acts pre e o r) {requestId : Uuid}
    (hgranted : reservedFor? o r = some requestId) {row : QueueRow}
    (hrow : row ∈ e.after.queue.items) (hid : row.requestId = requestId)
    (hpos : 0 < row.attemptsTotal) {budgetId : Uuid}
    (hactive : budgetId ∈ (e.after.queue.budgetAttemptState requestId).activeBudgetIds) :
    (requestId, row.attemptsTotal) ∈ charges budgetId (e :: pre) := by
  have hitem := item?_of_mem h.ledger'.nodup hrow
  change e.after.queue.item? row.requestId = some row at hitem
  rw [hid] at hitem
  simp only [budgetAttemptState, hitem, List.mem_map, List.mem_filter, decide_eq_true_eq]
    at hactive
  rcases hactive with ⟨m, ⟨hm, hfirst⟩, rfl⟩
  rcases mem_membershipsOf.1 hm with ⟨hm, hmid⟩
  have hpaid := paidUp_of_granted h.ledger h.booked.funds h.performed hgranted hrow hid
  have hlast : row.attemptsTotal ≤ m.lastChargedAttempt := by
    by_contra hlt
    exact hpaid.members m hm hmid ⟨hfirst, Nat.lt_of_not_le hlt⟩
  rcases h.booked'.recorded m hm with hzero | hcharged
  · rw [hzero] at hlast
    exact absurd hpos (Nat.not_lt.2 hlast)
  · -- An attempt that was charged is none the item has still to begin.
    rw [hmid] at hcharged
    have hle := ((h.booked'.paid m.budgetId _ hcharged).2.rows row hrow hid).1
    have hsame : m.lastChargedAttempt = row.attemptsTotal := Nat.le_antisymm hle hlast
    rw [hsame] at hcharged
    exact hcharged

theorem covered_step (hI : Spent pre) (h : Acts pre e o r)
    (hitem : (pass p (e :: pre)).item = some item) {row' : QueueRow}
    (hrow' : row' ∈ (stateAfter (e :: pre)).queue.items) (hid : row'.requestId = item.requestId)
    (hattempts : row'.attemptsTotal = item.attemptsTotal) {budgetId : Uuid}
    (hpaying : budgetId ∈ paying p (e :: pre)) :
    (item.requestId, item.attemptsTotal) ∈ charges budgetId (e :: pre) := by
  rcases h.paying_cases p with hsame | ⟨requestId, _, hgranted, ⟨item', hwas, hon⟩, hactive⟩
  · rw [hsame] at hpaying
    rcases h.item_cases hitem with ⟨hwas, _⟩ | ⟨_, _, hnone⟩
    · rcases hI.located p item hwas with ⟨_, row, hrow, hrid, hle, _⟩
      have hstep := h.row_before hrow hrow' (hid.trans hrid.symm)
      rw [hattempts] at hstep
      exact charges_grow e (hI.covered p item hwas row hrow hrid (Nat.le_antisymm hstep hle)
        budgetId hpaying)
    · rw [hI.unpaid p hnone] at hpaying
      cases hpaying
  · rw [hactive] at hpaying
    rcases h.item_cases hitem with ⟨hwas', _⟩ | ⟨_, _, hnone⟩
    · rw [hwas] at hwas'
      cases hwas'
      have hpos := (hI.located p _ hwas).1
      rw [← hattempts] at hpos ⊢
      rw [hon]
      exact charged_of_granted h hgranted hrow' (hid.trans hon) hpos hpaying
    · rw [hwas] at hnone
      cases hnone

theorem ready_step (hI : Spent pre) (h : Acts pre e o r)
    (hitem : (pass p (e :: pre)).item = some item) (hready : (pass p (e :: pre)).stage = .ready)
    {budgetId : Uuid} (hpaying : budgetId ∈ paying p (e :: pre)) :
    (item.requestId, item.attemptsTotal) ∈ charges budgetId (e :: pre) := by
  by_cases hp : e.pid = p
  · subst hp
    rw [pass_of_op pre h.action] at hready
    rcases ready_of_step hready with ⟨hclaimed, hreserved, hstage⟩
    have hwas : (pass e.pid pre).item = some item := by
      rw [pass_of_op pre h.action, item_step, hclaimed] at hitem
      exact hitem
    rcases h.paying_cases e.pid with hsame | ⟨requestId, _, hgranted, _⟩
    · rw [hsame] at hpaying
      refine charges_grow e ?_
      rcases hstage with hstage | hfenced
      · exact hI.ready e.pid item hwas hstage budgetId hpaying
      · -- The fence shows that the attempt of the pass is still the attempt of its item.
        rcases Option.isSome_iff_exists.1 hfenced with ⟨requestId, hfenced⟩
        rcases heldBy_of_fenced h.performed h.allowed hfenced with
          ⟨⟨item', hitem', hon⟩, row, hrow, hid, hheld⟩
        rw [hwas] at hitem'
        cases hitem'
        rw [pass_pid] at hheld
        rcases hI.located e.pid item hwas with ⟨_, row₁, hrow₁, hid₁, _, hholds⟩
        have hone := eq_of_mem_of_requestId h.ledger.nodup hrow hrow₁
          (hid.trans (hon.symm.trans hid₁.symm))
        rw [hone] at hheld
        exact hI.covered e.pid item hwas row₁ hrow₁ hid₁ (hholds hheld) budgetId hpaying
    · rw [hreserved] at hgranted
      cases hgranted
  · rw [pass_of_ne pre hp] at hitem hready
    rw [paying, if_neg hp] at hpaying
    exact charges_grow e (hI.ready p item hitem hready budgetId hpaying)

theorem past_step (hI : Spent pre) (h : Acts pre e o r) {f : Uuid × Nat}
    (hf : f ∈ fetches (e :: pre)) : ∃ row ∈ (stateAfter (e :: pre)).queue.items,
      row.requestId = f.1 ∧ f.2 ≤ row.attemptsTotal := by
  have hrow : ∃ row ∈ (stateAfter pre).queue.items, row.requestId = f.1 ∧
      f.2 ≤ row.attemptsTotal := by
    rw [fetches_cons, List.mem_append, Option.mem_toList] at hf
    rcases hf with hnew | hold
    · rcases h.fetched hnew with ⟨_, _, _, _, item, hitem, rfl⟩
      rcases hI.located e.pid item hitem with ⟨_, row, hrow, hid, hle, _⟩
      exact ⟨row, hrow, hid, hle⟩
    · exact hI.past f hold
  rcases hrow with ⟨row, hrow, hid, hle⟩
  rcases h.row_after hrow with ⟨row', hrow', hid', hle', _⟩
  exact ⟨row', hrow', hid'.trans hid, Nat.le_trans hle hle'⟩

theorem begun_step (hI : Spent pre) (h : Acts pre e o r)
    (hitem : (pass p (e :: pre)).item = some item)
    (hf : (item.requestId, item.attemptsTotal) ∈ fetches (e :: pre)) :
    Queue.begun p (e :: pre) = true := by
  rw [fetches_cons, List.mem_append, Option.mem_toList] at hf
  rcases h.item_cases hitem with ⟨hwas, _⟩ | ⟨_, hclaimed, _⟩
  · rcases hf with hnew | hold
    · rcases h.fetched hnew with ⟨_, _, hbegun, _, item', hitem', hsame⟩
      by_cases hp : e.pid = p
      · rw [← hp]
        exact hbegun
      · -- The attempt would be the attempt of two passes.
        rw [Prod.mk.injEq] at hsame
        exact absurd hsame.2 (hI.alone p e.pid item item' (Ne.symm hp) hwas hitem' hsame.1)
    · have hbegun := hI.begun p item hwas hold
      by_cases hp : e.pid = p
      · subst hp
        rw [Queue.begun, (fetchMonitor d).view_of_op pre h.action]
        have hkept : ∀ b : Bool, b = true → (fetchMonitor d).step b o r e.time = true := by
          rintro b rfl
          unfold fetchMonitor
          simp only
          split <;> rfl
        exact hkept _ hbegun
      · rw [Queue.begun, (fetchMonitor d).view_of_ne pre hp]
        exact hbegun
  · exfalso
    rcases hf with hnew | hold
    · rw [(h.fetched hnew).1] at hclaimed
      cases hclaimed
    · rcases rows_of_claimed h.performed hclaimed with ⟨⟨row, hrow, hid, hnext⟩, _⟩
      rcases hI.past _ hold with ⟨row', hrow', hid', hle⟩
      rw [eq_of_mem_of_requestId h.ledger.nodup hrow' hrow (hid'.trans hid.symm), ← hnext] at hle
      exact Nat.not_succ_le_self _ hle

theorem once_step (hI : Spent pre) (h : Acts pre e o r) : (fetches (e :: pre)).Nodup := by
  rw [fetches_cons]
  cases hf : fetch? e with
  | none => exact hI.once
  | some f =>
      rcases h.fetched hf with ⟨_, _, _, hfirst, item, hitem, rfl⟩
      refine List.nodup_cons.2 ⟨fun hmem => hfirst ?_, hI.once⟩
      exact hI.begun e.pid item hitem hmem

theorem paid_step (hI : Spent pre) (h : Acts pre e o r) {budgetId : Uuid} {f : Uuid × Nat}
    (hf : f ∈ fetchesFor budgetId (e :: pre)) : f ∈ charges budgetId (e :: pre) := by
  refine charges_grow e ?_
  rw [fetchesFor, List.mem_append] at hf
  rcases hf with hnew | hold
  · split at hnew
    · rename_i hpaying
      rcases h.fetched (Option.mem_toList.1 hnew) with ⟨_, hready, _, _, item, hitem, rfl⟩
      exact hI.ready e.pid item hitem hready budgetId hpaying
    · cases hnew
  · exact hI.paid budgetId f hold

theorem step (hI : Spent pre) (h : Acts pre e o r) : Spent (e :: pre) where
  located _ _ hitem := hI.located_step h hitem
  unpaid _ hnone := hI.unpaid_step h hnone
  alone _ _ _ _ hne hitem hitem' hid := hI.alone_step h hne hitem hitem' hid
  covered _ _ hitem _ hrow hid hattempts _ hpaying :=
    hI.covered_step h hitem hrow hid hattempts hpaying
  ready _ _ hitem hready _ hpaying := hI.ready_step h hitem hready hpaying
  past _ hf := hI.past_step h hf
  begun _ _ hitem hf := hI.begun_step h hitem hf
  once := hI.once_step h
  paid _ _ hf := hI.paid_step h hf

end Spent

theorem spent_nil : Spent (d := d) [] where
  located p item hitem := by cases hitem
  unpaid _ _ := rfl
  alone p p' item item' _ hitem := by cases hitem
  covered p item hitem := by cases hitem
  ready p item hitem := by cases hitem
  past f hf := by cases hf
  begun p item hitem := by cases hitem
  once := List.nodup_nil
  paid budgetId f hf := by cases hf

/-- What every event of a run is, and finds kept. -/
structure Orderly (pre : History (fleet d)) (e : Event (fleet d)) : Prop where
  legal : Legal pre e
  ledger : Ledger (stateAfter pre).nextUuid (stateAfter pre).queue
  passes : Disciplined passes (passMonitor : Process.System.Monitor (fleet d) PassView).view pre e
  once : Disciplined (fetchesOnce d) (fetchMonitor d).view pre e

theorem orderly_after (d : Deployment) (sched : List (Config.Choice (fleet d))) :
    Throughout Orderly (Config.after (fleet d) sched).history := by
  have hlegal := (Config.legal_after (fleet d) sched).with_past
  refine (hlegal.and ((passes_after d sched).and (once_after d sched))).mono ?_
  rintro pre e ⟨⟨hlegal, hpast⟩, hpasses, honce⟩
  exact ⟨hlegal, ledger_after hpast, hpasses, honce⟩

theorem booked_of_orderly {h : History (fleet d)} (horderly : Throughout Orderly h) : Booked h :=
  horderly.invariant booked_nil fun _ _ hI he => booked_step he.legal he.ledger he.passes hI

/-- An event that is no operation ends the pass of its process, if it changes anything. -/
theorem Spent.idle (hI : Spent pre) (hlegal : Legal pre e)
    (ha : ∀ o r, e.action ≠ .op o r) : Spent (e :: pre) := by
  have hsame : stateAfter (e :: pre) = stateAfter pre := after_eq_of_not_op hlegal ha
  have hfetch : fetch? e = none := by
    unfold fetch?
    split
    · rename_i call r hact
      exact absurd hact (ha _ r)
    · rfl
  have hfetches : fetches (e :: pre) = fetches pre := by
    rw [fetches_cons, hfetch]
    rfl
  have hreset : pass e.pid (e :: pre) = { pid := (pass e.pid pre).pid } ∧
      paying e.pid (e :: pre) = [] := by
    cases hact : e.action with
    | start c =>
        refine ⟨pass_of_start pre hact, ?_⟩
        rw [paying, if_pos rfl, hact]
    | op o r => exact absurd hact (ha o r)
    | crash =>
        refine ⟨pass_of_crash pre hact, ?_⟩
        rw [paying, if_pos rfl, hact]
  -- Only the passes of the other processes are left.
  have hother : ∀ {p item}, (pass p (e :: pre)).item = some item → e.pid ≠ p := by
    rintro p item hitem rfl
    rw [hreset.1] at hitem
    cases hitem
  have hpass : ∀ {p item}, (pass p (e :: pre)).item = some item →
      pass p (e :: pre) = pass p pre := fun hitem => pass_of_ne pre (hother hitem)
  have hpaying : ∀ {p item}, (pass p (e :: pre)).item = some item →
      paying p (e :: pre) = paying p pre := by
    intro p item hitem
    rw [paying, if_neg (hother hitem)]
  refine ⟨?_, ?_, ?_, ?_, ?_, ?_, ?_, ?_, ?_⟩
  · intro p item hitem
    rw [hsame]
    exact hI.located p item (hpass hitem ▸ hitem)
  · intro p hnone
    by_cases hp : e.pid = p
    · rw [← hp]
      exact hreset.2
    · rw [pass_of_ne pre hp] at hnone
      rw [paying, if_neg hp]
      exact hI.unpaid p hnone
  · intro p p' item item' hne hitem hitem'
    exact hI.alone p p' item item' hne (hpass hitem ▸ hitem) (hpass hitem' ▸ hitem')
  · intro p item hitem row hrow hid hattempts budgetId hbudget
    rw [hsame] at hrow
    rw [hpaying hitem] at hbudget
    exact charges_grow e (hI.covered p item (hpass hitem ▸ hitem) row hrow hid hattempts budgetId
      hbudget)
  · intro p item hitem hready budgetId hbudget
    rw [hpaying hitem] at hbudget
    rw [hpass hitem] at hready
    exact charges_grow e (hI.ready p item (hpass hitem ▸ hitem) hready budgetId hbudget)
  · intro f hf
    rw [hfetches] at hf
    rw [hsame]
    exact hI.past f hf
  · intro p item hitem hf
    rw [hfetches] at hf
    rw [Queue.begun, (fetchMonitor d).view_of_ne pre (hother hitem)]
    exact hI.begun p item (hpass hitem ▸ hitem) hf
  · rw [hfetches]
    exact hI.once
  · intro budgetId f hf
    rw [fetchesFor, hfetch, Option.toList_none, ite_self, List.nil_append] at hf
    exact charges_grow e (hI.paid budgetId f hf)

theorem spent_of_orderly {h : History (fleet d)} (horderly : Throughout Orderly h) : Spent h := by
  refine horderly.with_past.invariant spent_nil ?_
  rintro pre e hI ⟨he, hpast⟩
  by_cases ha : ∃ o r, e.action = .op o r
  · rcases ha with ⟨o, r, ha⟩
    exact hI.step
      { action := ha
        legal := he.legal
        ledger := he.ledger
        booked := booked_of_orderly hpast
        booked' := booked_of_orderly ⟨he, hpast⟩
        allowed := he.passes.1 o r ha
        once := he.once.1 o r ha }
  · exact hI.idle he.legal fun o r h => ha ⟨o, r, h⟩

/-! ## The cap -/

theorem fetchesFor_sublist (budgetId : Uuid) (h : History (fleet d)) :
    (fetchesFor budgetId h).Sublist (fetches h) := by
  induction h with
  | nil => exact List.Sublist.refl _
  | cons e pre ih =>
      rw [fetchesFor, fetches_cons]
      refine List.Sublist.append ?_ ih
      split
      · exact List.Sublist.refl _
      · exact List.nil_sublist _

/-- A budget is charged as a member of the item. -/
theorem member_of_charged (hlegal : Legal pre e)
    (hledger : Ledger (stateAfter pre).nextUuid (stateAfter pre).queue) (hI : Booked pre)
    {budgetId : Uuid} {c : Uuid × Nat} (hc : charge? budgetId e = some c) :
    ∃ m ∈ e.before.queue.memberships, key m = (c.1, budgetId) ∧ Open c.2 m ∧
      ∃ row ∈ e.before.queue.items, row.requestId = c.1 ∧ row.attemptsTotal = c.2 := by
  rw [hlegal.before_eq]
  rcases charge_cases hlegal hledger hI.funds with
    hnone | ⟨requestId, r, charged, _, _, hreserved, hcharge⟩
  · rw [(hnone budgetId).1] at hc
    cases hc
  · rw [(hcharge budgetId).1] at hc
    split at hc
    · rename_i hmem
      cases hc
      rcases hreserved.opened budgetId hmem with ⟨m, hm, hkey, hopen⟩
      exact ⟨m, hm, hkey, hopen, row_of_charged hledger hreserved hmem⟩
    · cases hc

/-- What is paid up stays so, and is charged for no more. -/
theorem charged_later {requestId : Uuid} {attempt : Nat} :
    ∀ {post : History (fleet d)}, Throughout Orderly (post ++ pre) →
      requestId < (stateAfter pre).nextUuid ∧ PaidUp (stateAfter pre).queue requestId attempt →
      (requestId < (stateAfter (post ++ pre)).nextUuid ∧
          PaidUp (stateAfter (post ++ pre)).queue requestId attempt) ∧
        ∀ budgetId, ∀ c ∈ charges budgetId post, c.1 = requestId → attempt < c.2 := by
  intro post
  induction post with
  | nil =>
      intro _ hpaid
      refine ⟨hpaid, ?_⟩
      intro budgetId c hc
      cases hc
  | cons e post ih =>
      intro horderly hpaid
      rcases ih horderly.tail hpaid with ⟨hkept, hlater⟩
      have he := horderly.head
      have hbooked := booked_of_orderly horderly.tail
      refine ⟨?_, ?_⟩
      · by_cases ha : ∃ o r, e.action = .op o r
        · rcases ha with ⟨o, r, ha⟩
          exact hbooked.keeps ha he.legal he.ledger
            (putsOffUnclaimed_of_allowed (he.passes.1 o r ha)) hkept
        · have hsame : stateAfter (e :: post ++ pre) = stateAfter (post ++ pre) :=
            after_eq_of_not_op he.legal fun o r h => ha ⟨o, r, h⟩
          rw [hsame]
          exact hkept
      · intro budgetId c hc hid
        rw [charges_cons, List.mem_append, Option.mem_toList] at hc
        rcases hc with hnew | hold
        · rcases member_of_charged he.legal he.ledger hbooked hnew with
            ⟨m, hm, hkey, hopen, row, hrow, hrid, hattempt⟩
          rw [he.legal.before_eq] at hm hrow
          have hle := (hkept.2.rows row hrow (hrid.trans hid)).1
          rw [hattempt] at hle
          refine Nat.lt_of_le_of_ne hle ?_
          rintro rfl
          exact hkept.2.members m hm ((congrArg Prod.fst hkey).trans hid) hopen
        · exact hlater budgetId c hold hid

/-- A request budget is a hard cap. -/
structure HardCap (h : History (fleet d)) : Prop where
  capped : ∀ budget ∈ (stateAfter h).queue.budgets, budget.requestsStarted ≤ budget.maxRequests
  /-- The counter counts the charges, of which no two are for one attempt. -/
  counted : ∀ budgetId, startedOf (stateAfter h).queue budgetId = (charges budgetId h).length
  once : ∀ budgetId, (charges budgetId h).Nodup
  /-- Once the gate of an item is closed for an attempt, nothing is charged for it any more. -/
  closed : ∀ post pre, h = post ++ pre → ∀ row ∈ (stateAfter pre).queue.items,
    row.upstreamBudgetGateClosed = true → ∀ budgetId, ∀ c ∈ charges budgetId post,
      c.1 = row.requestId → row.attemptsTotal < c.2
  /-- A budget that joins after that is charged for later attempts only. -/
  late : ∀ post pre, h = post ++ pre → ∀ row ∈ (stateAfter pre).queue.items,
    row.upstreamBudgetGateClosed = true → ∀ budgetId,
      (∀ e ∈ pre, ∀ m ∈ e.before.queue.memberships, key m ≠ (row.requestId, budgetId)) →
        ∀ c ∈ charges budgetId h, c.1 = row.requestId → row.attemptsTotal < c.2
  /-- No more is fetched at the expense of a budget than it has paid for. -/
  fetched : ∀ budgetId,
    (fetchesFor budgetId h).length ≤ startedOf (stateAfter h).queue budgetId

theorem hardCap_of_orderly {h : History (fleet d)} (horderly : Throughout Orderly h) :
    HardCap h := by
  have hbooked := booked_of_orderly horderly
  have hspent := spent_of_orderly horderly
  have hclosed : ∀ post pre, h = post ++ pre → ∀ row ∈ (stateAfter pre).queue.items,
      row.upstreamBudgetGateClosed = true → ∀ budgetId, ∀ c ∈ charges budgetId post,
        c.1 = row.requestId → row.attemptsTotal < c.2 := by
    rintro post pre rfl row hrow hgate budgetId c hc
    have hpast := horderly.append_right
    have hledger := ledger_after (hpast.mono fun _ _ he => he.legal)
    exact (charged_later horderly ⟨hledger.fresh row hrow,
      (booked_of_orderly hpast).gated row hrow hgate⟩).2 budgetId c hc
  refine ⟨hbooked.funds.capped, hbooked.started, hbooked.once, hclosed, ?_, ?_⟩
  · rintro post pre rfl row hrow hgate budgetId hnever c hc hid
    rw [charges, List.filterMap_append, List.mem_append] at hc
    rcases hc with hpost | hpre
    · exact hclosed post pre rfl row hrow hgate budgetId c hpost hid
    · rcases List.mem_filterMap.1 hpre with ⟨e, he, hcharge⟩
      rcases horderly.append_right.of_mem he with ⟨before, _, _, hbefore, hat⟩
      rcases member_of_charged hat.legal hat.ledger (booked_of_orderly hbefore) hcharge with
        ⟨m, hm, hkey, _⟩
      rw [hid] at hkey
      exact absurd hkey (hnever e he m hm)
  · intro budgetId
    rw [hbooked.started budgetId]
    have hnodup := hspent.once.sublist (fetchesFor_sublist budgetId h)
    exact (List.subperm_of_subset hnodup fun f hf => hspent.paid budgetId f hf).length_le

theorem hard_cap (d : Deployment) (sched : List (Config.Choice (fleet d))) :
    HardCap (Config.after (fleet d) sched).history :=
  hardCap_of_orderly (orderly_after d sched)

/-- What one budget pays for: never more than it may, each attempt of an item once at most, and
nothing for an attempt whose gate was closed before the budget joined. -/
structure PaysOnce (budgetId : Uuid) (h : History (fleet d)) : Prop where
  capped : ∀ budget, (stateAfter h).queue.budget? budgetId = some budget →
    budget.requestsStarted ≤ budget.maxRequests
  once : ∀ requestId attempt, (charges budgetId h).count (requestId, attempt) ≤ 1
  joinedLate : ∀ post pre, h = post ++ pre → ∀ row ∈ (stateAfter pre).queue.items,
    row.upstreamBudgetGateClosed = true →
      (∀ m ∈ (stateAfter pre).queue.memberships, key m ≠ (row.requestId, budgetId)) →
        ∀ c ∈ charges budgetId post, c.1 = row.requestId → row.attemptsTotal < c.2
  /-- One that never was a member before is not charged for such an attempt at all. -/
  joinedFirst : ∀ post pre, h = post ++ pre → ∀ row ∈ (stateAfter pre).queue.items,
    row.upstreamBudgetGateClosed = true →
      (∀ e ∈ pre, ∀ m ∈ e.before.queue.memberships, key m ≠ (row.requestId, budgetId)) →
        ∀ c ∈ charges budgetId h, c.1 = row.requestId → row.attemptsTotal < c.2
  fetched : ∀ budget, (stateAfter h).queue.budget? budgetId = some budget →
    (fetchesFor budgetId h).length ≤ budget.requestsStarted

/-- In every run, in every state that is reached, whoever has lost a claim meanwhile. -/
theorem budget_pays_once (d : Deployment) (sched : List (Config.Choice (fleet d)))
    (budgetId : Uuid) : PaysOnce budgetId (Config.after (fleet d) sched).history := by
  have hcap := hardCap_of_orderly (orderly_after d sched)
  refine ⟨?_, ?_, ?_, ?_, ?_⟩
  · intro budget hbudget
    exact hcap.capped budget (List.mem_of_find?_eq_some hbudget)
  · intro requestId attempt
    exact List.nodup_iff_count_le_one.1 (hcap.once budgetId) (requestId, attempt)
  · intro post pre happend row hrow hgate _
    exact hcap.closed post pre happend row hrow hgate budgetId
  · intro post pre happend row hrow hgate hnever
    exact hcap.late post pre happend row hrow hgate budgetId hnever
  · intro budget hbudget
    have hfetched := hcap.fetched budgetId
    rwa [startedOf, hbudget] at hfetched

end Queue
end Huldra
