import Huldra.Clients
import Huldra.Queue.Ledger

/-!
# Runs — what becomes of a row of the queue in a run

The ledger holds in every state of a run, so the rows before and after an event are matched by
their identifiers, and a row that has changed was changed by the operation of the event.
-/

namespace Huldra
namespace Queue

open QueueTables
open Process.System (Throughout History Event Legal stateAfter)

section Performed

variable {o : Op} {t : Int} {r : Except Exn o.Res} {s s' : Store}

/-- A row stays, or changes in the way of the operation. -/
theorem row_after (hledger : Ledger s.nextUuid s.queue) (h : Store.Performed o t r s s')
    {row : QueueRow} (hrow : row ∈ s.queue.items) :
    ∃ row' ∈ s'.queue.items, row'.requestId = row.requestId ∧
      (row' = row ∨ RowEffect o t s.queue row row') := by
  rcases itemsEffect_of_performed hledger.nodup h with ⟨change, new, heffect⟩
  refine ⟨change row, ?_, ?_, heffect.rows row hrow⟩
  · rw [heffect.items]
    exact List.mem_append_left _ (List.mem_map_of_mem hrow)
  · rcases heffect.rows row hrow with hsame | hchanged
    · rw [hsame]
    · exact hchanged.requestId

/-- A row was there before, or is new. -/
theorem row_before (hledger : Ledger s.nextUuid s.queue) (h : Store.Performed o t r s s')
    {row' : QueueRow} (hrow' : row' ∈ s'.queue.items) :
    (∃ row ∈ s.queue.items, row'.requestId = row.requestId ∧
      (row' = row ∨ RowEffect o t s.queue row row')) ∨
        Newcomer s.nextUuid s.queue row' := by
  rcases itemsEffect_of_performed hledger.nodup h with ⟨change, new, heffect⟩
  rw [heffect.items, List.mem_append] at hrow'
  rcases hrow' with hold | hnew
  · left
    rcases List.mem_map.1 hold with ⟨row, hrow, rfl⟩
    refine ⟨row, hrow, ?_, heffect.rows row hrow⟩
    rcases heffect.rows row hrow with hsame | hchanged
    · rw [hsame]
    · exact hchanged.requestId
  · right
    rcases heffect.new with hnone | ⟨row, hone, hnewcomer⟩
    · rw [hnone] at hnew
      cases hnew
    · rw [hone, List.mem_singleton] at hnew
      rw [hnew]
      exact hnewcomer

/-- The row of an item before and after an operation. -/
theorem row_changed (hledger : Ledger s.nextUuid s.queue) (h : Store.Performed o t r s s')
    {row row' : QueueRow} (hrow : row ∈ s.queue.items) (hrow' : row' ∈ s'.queue.items)
    (hid : row'.requestId = row.requestId) : row' = row ∨ RowEffect o t s.queue row row' := by
  rcases row_after hledger h hrow with ⟨row₁, hrow₁, hid₁, heffect⟩
  have hsame := eq_of_mem_of_requestId (hledger.performed h).nodup hrow' hrow₁
    (hid.trans hid₁.symm)
  rw [hsame]
  exact heffect

end Performed

variable {d : Deployment} {pre : History (fleet d)} {e : Event (fleet d)}

/-- The operation of an event leads from the state before it to the state after it. -/
theorem performed_of_op (hlegal : Legal pre e) {o : Op} {r : Except Exn o.Res}
    (ha : e.action = .op o r) : Store.Performed o e.time r (stateAfter pre) e.after := by
  have h := hlegal.executed ha
  rw [hlegal.before_eq] at h
  exact h

/-- An event that is no operation changes nothing. -/
theorem after_eq_of_not_op (hlegal : Legal pre e) (ha : ∀ o r, e.action ≠ .op o r) :
    e.after = stateAfter pre := by
  cases hact : e.action with
  | start c => exact (hlegal.after_eq_of_start hact).trans hlegal.before_eq
  | op o r => exact absurd hact (ha o r)
  | crash => exact (hlegal.after_eq_of_crash hact).trans hlegal.before_eq

theorem ledger_nil : Ledger (stateAfter ([] : History (fleet d))).nextUuid
    (stateAfter ([] : History (fleet d))).queue where
  nodup := List.nodup_nil
  fresh := by
    intro row hrow
    cases hrow
  attached := by
    intro m hm
    cases hm
  backed := by
    intro row hrow
    cases hrow

/-- The ledger holds in every state of a run. -/
theorem ledger_after {h : History (fleet d)} (hlegal : Throughout Legal h) :
    Ledger (stateAfter h).nextUuid (stateAfter h).queue := by
  induction h with
  | nil => exact ledger_nil
  | cons e pre ih =>
      have hledger := ih hlegal.tail
      by_cases ha : ∃ o r, e.action = .op o r
      · rcases ha with ⟨o, r, ha⟩
        exact hledger.performed (performed_of_op hlegal.head ha)
      · have hsame : stateAfter (e :: pre) = stateAfter pre :=
          after_eq_of_not_op hlegal.head fun o r h => ha ⟨o, r, h⟩
        rw [hsame]
        exact hledger

end Queue
end Huldra
