import Huldra.Queue.Ownership
import Huldra.Upstream.Lease
import Huldra.Worker.Holdings

/-!
# Leftovers — a pass leaves nothing behind

A pass that begins with nothing and returns holds neither the lease nor a reservation nor the claim
on its item, and nobody else can hold them under its token.  A fence that is refused for a lost
lease ends the pass without a word to the queue, so the claim is left behind where it was not lost
as well.
-/

namespace Huldra
namespace Worker

open QueueTables
open Queue (HeldBy pass Ledger)
open Process (Prog)
open Process.System (Monitor Config Throughout Disciplined History Event Legal stateAfter)

/-! ## What the tables say of a token -/

section Tables

variable {o : Op} {t : Int} {r : Except Exn o.Res} {s s' : Store} {owner : OwnerToken}

/-- Only an acquisition of its own makes a token the owner of the lease. -/
theorem owned_or_acquired (h : Store.Performed o t r s s')
    (howned : s'.leases.ownedBy .upstreamFetch owner = true) :
    s.leases.ownedBy .upstreamFetch owner = true ∨
      ∃ timeout, o = .lease (.acquireLease .upstreamFetch owner timeout) := by
  rcases Leases.ownedBy_iff.1 howned with ⟨row', hrow', howner⟩
  have heffect := Upstream.rowEffect h
  unfold Upstream.upstreamRow at heffect
  rw [hrow'] at heffect
  generalize hrow : s.leases .upstreamFetch = b at heffect
  cases heffect with
  | kept => exact Or.inl (Leases.ownedBy_iff.2 ⟨row', hrow, howner⟩)
  | acquired owner' timeout hop hfree =>
      rw [← howner]
      exact Or.inr ⟨timeout, hop⟩
  | renewed owner' ttl row hrenewal hsome hown =>
      exact Or.inl (Leases.ownedBy_iff.2 ⟨row, hrow.trans hsome, howner⟩)

/-- The answer says that the token does not own the lease. -/
inductive GivesUp (owner : OwnerToken) : (o : Op) → Except Exn o.Res → Prop
  | refused (timeout : Int) :
      GivesUp owner (.lease (.acquireLease .upstreamFetch owner timeout)) (.ok false)
  | released : GivesUp owner (.lease (.releaseLease .upstreamFetch owner)) (.ok ())
  | lost (timeout : Int) :
      GivesUp owner (.lease (.renewLeasesIfOwned [⟨.upstreamFetch, owner, timeout⟩])) (.ok false)

theorem not_owned_of_givesUp (h : Store.Performed o t r s s') (hgives : GivesUp owner o r) :
    s'.leases.ownedBy .upstreamFetch owner = false := by
  cases hgives with
  | refused timeout =>
      rcases h.of_ok with ⟨input, _, hexec⟩
      have hanswer : (s.leases.acquireLease .upstreamFetch owner timeout t).1 = false :=
        Except.ok.inj (congrArg Prod.fst hexec)
      have hstate : (s.leases.acquireLease .upstreamFetch owner timeout t).2 = s'.leases :=
        congrArg (fun out => out.2.leases) hexec
      rcases s.leases.acquireLease_cases .upstreamFetch owner timeout t with
        ⟨heq, hheld⟩ | ⟨heq, _⟩
      · rw [heq] at hstate
        rw [← hstate]
        by_contra howned
        rcases Leases.ownedBy_iff.1 (by simpa using howned) with ⟨row, hrow, howner⟩
        simp [Leases.heldAgainst, hrow, howner] at hheld
      · rw [heq] at hanswer
        cases hanswer
  | released =>
      rcases h.of_ok with ⟨input, _, hexec⟩
      have hstate : s.leases.releaseLease .upstreamFetch owner = s'.leases :=
        congrArg (fun out => out.2.leases) hexec
      rw [← hstate]
      rcases s.leases.releaseLease_self .upstreamFetch owner with ⟨_, hnone⟩ | ⟨hnot, hsame⟩
      · simp [Leases.ownedBy, hnone]
      · unfold Leases.ownedBy at hnot ⊢
        rw [hsame]
        exact hnot
  | lost timeout =>
      rcases h.of_ok with ⟨input, _, hexec⟩
      have hanswer : (s.leases.renewLeasesIfOwned [⟨.upstreamFetch, owner, timeout⟩] t).1 =
          .ok false := congrArg Prod.fst hexec
      have hstate : (s.leases.renewLeasesIfOwned [⟨.upstreamFetch, owner, timeout⟩] t).2 =
          s'.leases := congrArg (fun out => out.2.leases) hexec
      cases howned : s.leases.ownedBy .upstreamFetch owner with
      | true => simp [Leases.renewLeasesIfOwned, howned] at hanswer
      | false =>
          have hsame : s'.leases = s.leases := by
            rw [← hstate]
            simp [Leases.renewLeasesIfOwned, howned]
          rw [hsame]
          exact howned

/-- The row says of the same token and the same id what a row of the list says. -/
def Known (reservations : List ReservationRow) (row : ReservationRow) : Prop :=
  ∃ old ∈ reservations, old.ownerToken = row.ownerToken ∧ old.arxivId = row.arxivId

theorem known_of_extended {q : QueueTables} {ids : List String} {ttl : Int} {row : ReservationRow}
    (h : row ∈ (q.extendReservations ids owner ttl t).reservations) : Known q.reservations row := by
  rcases List.mem_map.1 h with ⟨old, hold, rfl⟩
  refine ⟨old, hold, ?_⟩
  split
  · exact ⟨rfl, rfl⟩
  · exact ⟨rfl, rfl⟩

theorem known_or_acquired {q : QueueTables} {ids : List String} {requestId : Uuid} {ttl : Int}
    {row : ReservationRow}
    (h : row ∈ (q.acquireIdFetchReservations ids owner requestId ttl t).2.reservations) :
    Known q.reservations row ∨ (row.ownerToken = owner ∧
      row.arxivId ∈ (q.acquireIdFetchReservations ids owner requestId ttl t).1.acquiredIds ∧
        row.arxivId ∈ ids) := by
  rcases Queue.acquireIdFetchReservations_cases q ids owner requestId ttl t with
    ⟨_, heq⟩ | ⟨_, heq⟩ | ⟨_, _, heq⟩
  · rw [heq] at h
    exact Or.inl ⟨row, h, rfl, rfl⟩
  · rw [heq] at h ⊢
    rcases List.mem_append.1 h with hold | hnew
    · exact Or.inl ⟨row, (List.mem_filter.1 (List.mem_filter.1 hold).1).1, rfl, rfl⟩
    · rcases List.mem_map.1 hnew with ⟨arxivId, hmem, rfl⟩
      exact Or.inr ⟨rfl, hmem, List.mem_eraseDups.1 hmem⟩
  · rw [heq] at h
    exact Or.inl ⟨row, (List.mem_filter.1 h).1, rfl, rfl⟩

theorem known_of_released {q : QueueTables} {ids : List String} {timestamp : Int}
    {row : ReservationRow}
    (h : row ∈ (q.releaseIdFetchReservations ids owner timestamp).reservations) :
    row ∈ q.reservations ∧ (row.ownerToken = owner → row.arxivId ∉ ids) := by
  unfold QueueTables.releaseIdFetchReservations at h
  simp only at h
  split at h
  · rw [Queue.wakeIdFetchReserved_reservations] at h
    rcases List.mem_filter.1 h with ⟨hmem, hkept⟩
    refine ⟨hmem, fun howner hids => ?_⟩
    simp [howner, hids] at hkept
  · rename_i hnone
    refine ⟨h, fun howner hids => hnone (List.any_eq_true.2 ⟨row, h, ?_⟩)⟩
    simp [howner, hids]

/-- Only an acquisition of its own gives a token a new reservation. -/
theorem known_before (h : Store.Performed o t r s s') {row : ReservationRow}
    (hrow : row ∈ s'.queue.reservations) : Known s.queue.reservations row ∨
      ∃ ids requestId ttl, o = .queue (.acquireIdFetchReservations ids row.ownerToken requestId
        ttl) := by
  rcases h.state with rfl | ⟨input, rfl⟩
  · exact Or.inl ⟨row, hrow, rfl, rfl⟩
  by_cases hreserves : Queue.reserves o = false
  · rw [Queue.exec_reservations o t input s hreserves] at hrow
    exact Or.inl ⟨row, hrow, rfl, rfl⟩
  · unfold Queue.reserves at hreserves
    split at hreserves
    case h_1 ids owner requestId ttl =>
      rcases known_or_acquired hrow with hold | ⟨howner, _⟩
      · exact Or.inl hold
      · rw [howner]
        exact Or.inr ⟨ids, requestId, ttl, rfl⟩
    case h_2 ids owner ttl =>
      left
      simp only [Store.exec, QueueOp.exec] at hrow
      rcases Queue.renewIdFetchReservations_cases s.queue ids owner ttl t with heq | ⟨_, heq⟩
      · rw [heq] at hrow
        exact ⟨row, hrow, rfl, rfl⟩
      · rw [heq] at hrow
        exact known_of_extended hrow
    case h_3 ids owner timestamp => exact Or.inl ⟨row, (known_of_released hrow).1, rfl, rfl⟩
    case h_4 requestId owner name ttl ids =>
      left
      simp only [Store.exec] at hrow
      rcases Queue.renewWorkerFetchOwnership_cases s requestId owner name ttl ids t with
        ⟨error, heq⟩ | ⟨_, _, _, heq⟩
      · rw [heq] at hrow
        exact ⟨row, hrow, rfl, rfl⟩
      · rw [heq] at hrow
        exact known_of_extended hrow
    case h_5 => exact absurd rfl hreserves

/-- The view forgets an id when it is released. -/
theorem mem_ids_or_released (x : Holding) {arxivId : String} (hmem : arxivId ∈ x.ids) (o : Op)
    (r : Except Exn o.Res) : arxivId ∈ (x.step o r).ids ∨
      ∃ ids timestamp, o = .queue (.releaseIdFetchReservations ids (.worker x.pid) timestamp) ∧
        arxivId ∈ ids ∧ r.toBool = true := by
  unfold Holding.step
  split
  case h_4 =>
    left
    split
    · exact hmem
    · exact hmem
  case h_5 =>
    left
    split
    · exact hmem
    · exact hmem
  case h_6 =>
    left
    split
    · exact hmem
    · exact hmem
  case h_7 =>
    left
    split
    · exact hmem
    · exact hmem
  case h_8 => exact Or.inl (List.mem_append_left _ hmem)
  case h_9 => exact Or.inl (List.mem_append_left _ hmem)
  case h_10 ids owner timestamp _ =>
    by_cases howner : owner = .worker x.pid
    · by_cases hids : arxivId ∈ ids
      · exact Or.inr ⟨ids, timestamp, by rw [howner], hids, rfl⟩
      · left
        rw [if_pos howner]
        exact List.mem_filter.2 ⟨hmem, by simpa using hids⟩
    · left
      rw [if_neg howner]
      exact hmem
  all_goals exact Or.inl hmem

/-- What the token may hold of the ids, the view knows. -/
theorem mem_ids_step (x : Holding) (h : Store.Performed o t r s s')
    (hids : ∀ row ∈ s.queue.reservations, row.ownerToken = .worker x.pid → row.arxivId ∈ x.ids) :
    ∀ row ∈ s'.queue.reservations, row.ownerToken = .worker x.pid →
      row.arxivId ∈ (x.step o r).ids := by
  intro row hrow howner
  have hknown : Known s.queue.reservations row → row.arxivId ∈ x.ids := by
    rintro ⟨old, hold, htoken, hid⟩
    rw [← hid]
    exact hids old hold (htoken.trans howner)
  rcases known_before h hrow with hold | ⟨ids, requestId, ttl, rfl⟩
  · -- What was in the table before is known still, unless it has been released.
    rcases mem_ids_or_released x (hknown hold) o r with
      hstill | ⟨ids, timestamp, rfl, hmem, hok⟩
    · exact hstill
    · cases r with
      | error e => cases hok
      | ok b =>
          rcases h.of_ok with ⟨input, _, hexec⟩
          have hstate := congrArg (fun out => out.2.queue.reservations) hexec
          rw [← hstate] at hrow
          exact absurd hmem ((known_of_released hrow).2 howner)
  · rcases h with ⟨input, _, hexec⟩ | ⟨e, _, rfl, rfl | ⟨input, rfl⟩⟩
    · simp only [Store.exec, QueueOp.exec, Prod.mk.injEq] at hexec
      rcases hexec with ⟨rfl, rfl⟩
      rcases known_or_acquired hrow with hold | ⟨_, hmem, _⟩
      · exact List.mem_append_left _ (hknown hold)
      · exact List.mem_append_right _ hmem
    · exact List.mem_append_left _ (hids row hrow howner)
    · rcases known_or_acquired hrow with hold | ⟨_, _, hmem⟩
      · exact List.mem_append_left _ (hknown hold)
      · exact List.mem_append_right _ hmem

theorem ownRenewal_cases {x : Holding} {renewals : List LeaseRenewal}
    (h : x.ownRenewal renewals = true) :
    ∃ timeout, renewals = [⟨.upstreamFetch, .worker x.pid, timeout⟩] := by
  have hmap : renewals.map (fun r => (r.name, r.ownerToken)) =
      [(Limiter.leaseName, .worker x.pid)] := of_decide_eq_true h
  rcases List.map_eq_singleton_iff.1 hmap with ⟨renewal, rfl, hrenewal⟩
  cases renewal
  cases hrenewal
  exact ⟨_, rfl⟩

/-- The view forgets the lease when an answer says so. -/
theorem lease_or_givesUp (x : Holding) (o : Op) (r : Except Exn o.Res)
    (h : x.lease = true ∨
      ∃ timeout, o = .lease (.acquireLease .upstreamFetch (.worker x.pid) timeout)) :
    (x.step o r).lease = true ∨ GivesUp (.worker x.pid) o r := by
  have hother : (∀ timeout, o ≠ .lease (.acquireLease .upstreamFetch (.worker x.pid) timeout)) →
      x.lease = true := by
    intro hne
    rcases h with hlease | ⟨timeout, ho⟩
    · exact hlease
    · exact absurd ho (hne timeout)
  unfold Holding.step
  split
  case h_4 =>
    left
    split
    · exact hother fun _ ho => by cases ho
    · exact hother fun _ ho => by cases ho
  case h_5 name owner timeout r =>
    split
    · rename_i hown
      rcases hown with ⟨rfl, rfl⟩
      rcases r with e | acquired
      · exact Or.inl rfl
      · cases acquired with
        | false => exact Or.inr (.refused timeout)
        | true => exact Or.inl rfl
    · rename_i hnot
      refine Or.inl (hother fun _ ho => hnot ?_)
      cases ho
      exact ⟨rfl, rfl⟩
  case h_6 name owner _ =>
    split
    · rename_i hown
      rcases hown with ⟨rfl, rfl⟩
      exact Or.inr .released
    · exact Or.inl (hother fun _ ho => by cases ho)
  case h_7 renewals =>
    split
    · rename_i hown
      rcases ownRenewal_cases hown with ⟨timeout, rfl⟩
      exact Or.inr (.lost timeout)
    · exact Or.inl (hother fun _ ho => by cases ho)
  case h_10 =>
    left
    split
    · exact hother fun _ ho => by cases ho
    · exact hother fun _ ho => by cases ho
  case h_11 hacquire _ _ _ _ _ =>
    refine Or.inl (hother ?_)
    rintro timeout rfl
    exact hacquire _ _ timeout _ rfl HEq.rfl
  all_goals exact Or.inl (hother fun _ ho => by cases ho)

/-- What the token may hold of the lease, the view knows. -/
theorem lease_step (x : Holding) (h : Store.Performed o t r s s')
    (hlease : s.leases.ownedBy .upstreamFetch (.worker x.pid) = true → x.lease = true)
    (howned : s'.leases.ownedBy .upstreamFetch (.worker x.pid) = true) :
    (x.step o r).lease = true := by
  rcases lease_or_givesUp x o r ((owned_or_acquired h howned).imp hlease id) with
    hstill | hgives
  · exact hstill
  · rw [not_owned_of_givesUp h hgives] at howned
    cases howned

end Tables

/-! ## What the rows say of a claim -/

section Claims

variable {o : Op} {t : Int} {r : Except Exn o.Res} {s s' : Store} {p : Nat}

/-- Only a claim of its own, or a release that says so, makes a worker the holder of a row. -/
theorem heldBy_before {q : QueueTables} {row row' : QueueRow}
    (h : Queue.RowEffect o t q row row') (hheld : HeldBy p row') :
    HeldBy p row ∨ ∃ timeout keys, o = .queue (.claimNextQueueItem (.worker p) timeout keys) := by
  have hkept : Queue.standing row' = Queue.standing row → HeldBy p row := by
    intro hsame
    simp only [Queue.standing, Prod.mk.injEq] at hsame
    exact ⟨hsame.1.symm.trans hheld.1, hsame.2.1.symm.trans hheld.2⟩
  unfold Queue.RowEffect at h
  split at h
  case h_1 owner timeout keys =>
    rw [h.2] at hheld
    have howner : owner = .worker p := Option.some.inj hheld.2
    exact Or.inr ⟨timeout, keys, by rw [howner]⟩
  case h_2 =>
    rw [h.2] at hheld
    cases hheld.2
  case h_3 =>
    rw [h.2.2] at hheld
    cases hheld.2
  case h_4 =>
    rw [h.2] at hheld
    cases hheld.2
  case h_5 =>
    rcases h with h | ⟨_, h⟩
    · exact Or.inl (hkept h.standing)
    · have hfailed := congrArg Prod.fst h.standing
      rw [Queue.standing, hheld.1] at hfailed
      cases hfailed
  case h_6 => exact Or.inl (hkept h.2.standing)
  case h_7 => exact Or.inl (hkept h.2.standing)
  case h_8 => exact Or.inl (hkept h.standing)
  case h_9 => exact Or.inl (hkept h.standing)
  case h_10 =>
    rw [h.2.2.2] at hheld
    exact Or.inl hheld
  case h_11 => exact h.elim

/-- The answer says that the worker does not hold the item. -/
inductive LetsGo (requestId : Uuid) (p : Nat) : (o : Op) → Except Exn o.Res → Prop
  | completed (timestamp : Int) :
      LetsGo requestId p (.queue (.completeQueueItem requestId timestamp)) (.ok ())
  | putOff (nextAttemptAt : Option Int) (category message : Option String)
      (status : RequestStatus) (timestamp : Int) :
      LetsGo requestId p (.queue (.releaseOrDelayQueueItem requestId nextAttemptAt category
        message status timestamp)) (.ok ())
  | refused (name : LeaseName) (ttl : Int) (ids : List String) (reason : String) :
      reason ≠ "id_fetch_reserved" → LetsGo requestId p
        (.renewWorkerFetchOwnership requestId (.worker p) name ttl ids) (.ok (some reason))

/-- What a fence that is refused for another reason than the reservations says. -/
theorem refused_cases {requestId : Uuid} {owner : OwnerToken} {name : LeaseName} {ttl : Int}
    {ids : List String} {reason : String}
    (h : Store.Performed (.renewWorkerFetchOwnership requestId owner name ttl ids) t
      (.ok (some reason)) s s') (hreason : reason ≠ "id_fetch_reserved") :
    s' = s ∧ (s.leases.ownedBy name owner = false ∨
      s.queue.claimedByOwner requestId owner = false) := by
  rcases h.of_ok with ⟨input, _, hexec⟩
  have hanswer : (s.renewWorkerFetchOwnership requestId owner name ttl ids t).1 = some reason :=
    Except.ok.inj (congrArg Prod.fst hexec)
  have hstate : (s.renewWorkerFetchOwnership requestId owner name ttl ids t).2 = s' :=
    congrArg Prod.snd hexec
  unfold Store.renewWorkerFetchOwnership at hanswer hstate
  simp only at hanswer hstate
  split at hanswer
  · rename_i hlease
    rw [if_pos hlease] at hstate
    exact ⟨hstate.symm, Or.inl (by simpa using hlease)⟩
  · rename_i hlease
    rw [if_neg hlease] at hstate
    split at hanswer
    · rename_i hclaim
      rw [if_pos hclaim] at hstate
      exact ⟨hstate.symm, Or.inr (by simpa using hclaim)⟩
    · split at hanswer
      · exact absurd (Option.some.inj hanswer).symm hreason
      · cases hanswer

/-- A worker that has let its item go does not hold it, where a lost lease means a lost claim. -/
theorem not_heldBy_of_letsGo (hledger : Ledger s.nextUuid s.queue)
    (h : Store.Performed o t r s s') {requestId : Uuid} (hgoes : LetsGo requestId p o r)
    (hlost : ∀ name ttl ids, o = .renewWorkerFetchOwnership requestId (.worker p) name ttl ids →
      s.leases.ownedBy name (.worker p) = false →
        ∀ row ∈ s.queue.items, row.requestId = requestId → ¬ HeldBy p row)
    {row' : QueueRow} (hrow' : row' ∈ s'.queue.items) (hid : row'.requestId = requestId) :
    ¬ HeldBy p row' := by
  cases hgoes with
  | completed timestamp =>
      rcases h.of_ok with ⟨input, _, hexec⟩
      have hstate : s.queue.completeQueueItem requestId timestamp = s'.queue :=
        congrArg (fun out => out.2.queue) hexec
      rw [← hstate, QueueTables.completeQueueItem, Queue.mem_updateItem] at hrow'
      rcases hrow' with ⟨_, hne⟩ | ⟨row, _, _, rfl⟩
      · exact absurd hid hne
      · rintro ⟨hclaimed, _⟩
        cases hclaimed
  | putOff nextAttemptAt category message status timestamp =>
      rcases h.of_ok with ⟨input, _, hexec⟩
      have hstate := congrArg (fun out => out.2.queue.items) hexec
      have hanswer := congrArg Prod.fst hexec
      simp only [Store.exec, QueueOp.exec, QueueTables.releaseOrDelayQueueItem] at hstate hanswer
      split at hanswer
      · cases hanswer
      · rename_i hfree
        rw [if_neg hfree] at hstate
        rw [← hstate, Queue.mem_updateItem] at hrow'
        rcases hrow' with ⟨_, hne⟩ | ⟨row, _, _, rfl⟩
        · exact absurd hid hne
        · rintro ⟨_, hby⟩
          cases hby
  | refused name ttl ids reason hreason =>
      rcases refused_cases h hreason with ⟨rfl, hlease | hclaim⟩
      · exact hlost name ttl ids rfl hlease row' hrow' hid
      · rintro ⟨hclaimed, hby⟩
        have hitem := item?_of_mem hledger.nodup hrow'
        rw [hid] at hitem
        simp [claimedByOwner, hitem, hclaimed, hby] at hclaim

/-- The view forgets the claim when an answer says so. -/
theorem claim_or_letsGo {x : Holding} {y : Queue.PassView} (hpid : y.pid = p)
    (hallow : y.Allowed o) {requestId : Uuid} (hon : y.On requestId) (hclaim : x.claim = true) :
    (x.step o r).claim = true ∨ LetsGo requestId p o r := by
  have hsame : ∀ requestId', y.On requestId' → requestId' = requestId := by
    rintro requestId' ⟨item', hitem', rfl⟩
    rcases hon with ⟨item, hitem, rfl⟩
    rw [hitem] at hitem'
    cases hitem'
    rfl
  unfold Holding.step
  split
  case h_1 => exact Or.inl rfl
  case h_2 requestId' timestamp _ =>
    rw [← hsame requestId' hallow]
    exact Or.inr (.completed timestamp)
  case h_3 requestId' nextAttemptAt category message status timestamp _ =>
    rw [← hsame requestId' hallow.1]
    exact Or.inr (.putOff _ _ _ _ _)
  case h_4 requestId' owner name ttl ids reason =>
    split
    · exact Or.inl hclaim
    · rename_i hreason
      have howner := hallow.1
      rw [hpid] at howner
      subst howner
      rw [← hsame requestId' hallow.2]
      exact Or.inr (.refused name ttl ids reason hreason)
  case h_5 =>
    left
    split
    · exact hclaim
    · exact hclaim
  case h_6 =>
    left
    split
    · exact hclaim
    · exact hclaim
  case h_7 =>
    left
    split
    · exact hclaim
    · exact hclaim
  case h_10 =>
    left
    split
    · exact hclaim
    · exact hclaim
  all_goals exact Or.inl hclaim

end Claims

/-! ## Every run -/

section Runs

variable {d : Deployment}

/-- Follow what a process may hold, from the start of each pass on. -/
def holdingMonitor (d : Deployment) : Monitor (fleet d) Holding where
  initial pid := { pid := pid }
  start x c _ :=
    match c with
    | .runOnce _ => { pid := x.pid, within := true }
    | _ => { pid := x.pid }
  step x o r _ := x.step o r
  crash x := { pid := x.pid }
  clock _ := 0
  clock_initial _ := Process.System.no_time
  clock_start _ _ _ h := h
  clock_step _ _ _ _ h := h
  clock_crash _ := Int.le_refl 0

/-- What the process `p` may hold. -/
abbrev held (p : Nat) (h : History (fleet d)) : Holding :=
  (holdingMonitor d).view p h

theorem Holding.step_pid (x : Holding) (o : Op) (r : Except Exn o.Res) :
    (x.step o r).pid = x.pid := by
  unfold Holding.step
  split <;> first | rfl | (split <;> rfl)

theorem Holding.step_within (x : Holding) (o : Op) (r : Except Exn o.Res) :
    (x.step o r).within = x.within := by
  unfold Holding.step
  split <;> first | rfl | (split <;> rfl)

theorem holdingMonitor_kept (d : Deployment) :
    (holdingMonitor d).Kept fun pid x => x.pid = pid where
  initial _ := rfl
  start pid x c t h := by
    cases c <;> exact h
  step pid x o r t h := (x.step_pid o r).trans h
  crash _ _ h := h

/-- A program neither begins nor ends a pass. -/
theorem wp_within {β : Type} (p : Program β) (x : Holding) :
    p.wp holds (fun x' _ => x'.within = x.within) (fun _ _ => True) x := by
  induction p generalizing x with
  | ret b => rfl
  | raise e => trivial
  | op o k ih =>
      refine ⟨trivial, ?_⟩
      rintro r x' ⟨t, s, s', _, _, rfl⟩
      rw [← x.step_within o r]
      exact ih r (x.step o r)

/-- The result is of a pass, and nothing is held after it. -/
def Returned (x : Holding) (out : Outcome) : Prop :=
  ∀ result, out = .pass result → x.within = true ∧ x.Clean

/-- Only a pass returns the result of one. -/
theorem returned_of_other {p : Program Outcome} (hp : p.Returns fun out => ∀ r, out ≠ .pass r)
    (x : Holding) : p.wp holds Returned (fun _ _ => True) x := by
  refine Prog.wp_mono ?_ (fun _ _ h => h) p x (hp.wp x (wp_within p x))
  intro x' out h result hresult
  exact absurd hresult (h.2 result)

/-- Every client ends with nothing held, if it is a pass. -/
theorem ends_program (d : Deployment) (pid : Nat) (x : Holding) (c : Client) (t : Int)
    (hpid : x.pid = pid) :
    (c.program d pid).wp holds Returned (fun _ _ => True) ((holdingMonitor d).start x c t) := by
  cases c with
  | runOnce targets =>
      have howner : OwnerToken.worker pid = .worker x.pid := by
        rw [hpid]
      have hpass := ends_runOnce (w := ⟨d, .worker pid⟩)
        (x := { pid := x.pid, within := true }) howner ⟨rfl, rfl, rfl⟩ targets
      refine (Prog.wp_bind ..).2 (Prog.wp_mono ?_ (fun _ _ _ => trivial) _ _
        (Prog.wp_and _ _ (wp_within _ _) hpass))
      intro x' result hended _ _
      exact hended
  | _ =>
      refine returned_of_other (.bind fun _ => ?_) _
      intro result hresult
      cases hresult

/-- A process that has returned from a pass holds nothing. -/
theorem clean_of_returned (d : Deployment) (sched : List (Config.Choice (fleet d))) :
    ∀ p out, (Config.after (fleet d) sched).procs p = some (.ret out) →
      Returned (held p (Config.after (fleet d) sched).history) out :=
  ((holdingMonitor d).ended_after (holdingMonitor_kept d)
    (fun pid x c t hpid _ => ends_program d pid x c t hpid) sched).1

/-! ## The condition -/

/-- A pass begins. -/
def beginsPass (e : Event (fleet d)) : Bool :=
  match e.action with
  | .start (.runOnce _) => true
  | _ => false

/-- The item and the lease that a fence asks for. -/
def fences? (e : Event (fleet d)) : Option (Uuid × LeaseName) :=
  match e.action with
  | .op (.renewWorkerFetchOwnership requestId _ name _ _) _ => some (requestId, name)
  | _ => none

/-- A pass begins with nothing left of an earlier one, and where it finds the lease lost, the claim
is lost as well. -/
structure PassesWhole (e : Event (fleet d)) : Prop where
  lease : beginsPass e = true → e.before.leases.ownedBy .upstreamFetch (.worker e.pid) = false
  reservations : beginsPass e = true →
    ∀ row ∈ e.before.queue.reservations, row.ownerToken ≠ .worker e.pid
  fences : ∀ fence ∈ fences? e, e.before.leases.ownedBy fence.2 (.worker e.pid) = false →
    ∀ row ∈ e.before.queue.items, row.requestId = fence.1 → ¬ HeldBy e.pid row

instance (e : Event (fleet d)) : Decidable (PassesWhole e) :=
  decidable_of_iff
    ((beginsPass e = true → e.before.leases.ownedBy .upstreamFetch (.worker e.pid) = false) ∧
      (beginsPass e = true →
        ∀ row ∈ e.before.queue.reservations, row.ownerToken ≠ .worker e.pid) ∧
      ∀ fence ∈ fences? e, e.before.leases.ownedBy fence.2 (.worker e.pid) = false →
        ∀ row ∈ e.before.queue.items, row.requestId = fence.1 → ¬ HeldBy e.pid row)
    ⟨fun ⟨hlease, hreservations, hfences⟩ => ⟨hlease, hreservations, hfences⟩,
      fun h => ⟨h.lease, h.reservations, h.fences⟩⟩

/-- The worker holds neither the lease nor a reservation nor the item of its pass. -/
structure NothingHeld (c : Config (fleet d)) (p : Nat) : Prop where
  lease : c.state.leases.ownedBy .upstreamFetch (.worker p) = false
  reservations : ∀ row ∈ c.state.queue.reservations, row.ownerToken ≠ .worker p
  claim : ∀ item ∈ (pass p c.history).item, ∀ row ∈ c.state.queue.items,
    row.requestId = item.requestId → ¬ HeldBy p row

instance (c : Config (fleet d)) (p : Nat) : Decidable (NothingHeld c p) :=
  decidable_of_iff
    (c.state.leases.ownedBy .upstreamFetch (.worker p) = false ∧
      (∀ row ∈ c.state.queue.reservations, row.ownerToken ≠ .worker p) ∧
      ∀ item ∈ (pass p c.history).item, ∀ row ∈ c.state.queue.items,
        row.requestId = item.requestId → ¬ HeldBy p row)
    ⟨fun ⟨hlease, hreservations, hclaim⟩ => ⟨hlease, hreservations, hclaim⟩,
      fun h => ⟨h.lease, h.reservations, h.claim⟩⟩

/-- The result of the pass from which the process has returned. -/
def passReturned? (c : Config (fleet d)) (p : Nat) : Option WorkerPassResult :=
  match c.procs p with
  | some (.ret (.pass result)) => some result
  | _ => none

/-- A process that has returned from a pass holds nothing. -/
def LeavesNothing (c : Config (fleet d)) : Prop :=
  ∀ p, (passReturned? c p).isSome = true → NothingHeld c p

/-! ## Every run -/

variable {pre : History (fleet d)} {e : Event (fleet d)}

/-- What the worker `p` may hold in the tables, the view knows. -/
structure Sound (p : Nat) (pre : History (fleet d)) : Prop where
  lease : (stateAfter pre).leases.ownedBy .upstreamFetch (.worker p) = true →
    (held p pre).lease = true
  ids : ∀ row ∈ (stateAfter pre).queue.reservations, row.ownerToken = .worker p →
    row.arxivId ∈ (held p pre).ids
  claim : (held p pre).claim = false → ∀ item ∈ (pass p pre).item,
    ∀ row ∈ (stateAfter pre).queue.items, row.requestId = item.requestId → ¬ HeldBy p row

theorem pid_held (p : Nat) (h : History (fleet d)) : (held p h).pid = p :=
  (holdingMonitor_kept d).view _ p h

/-- A pass that begins with nothing left is known to hold nothing. -/
theorem sound_of_start (hlegal : Legal pre e) (hwhole : PassesWhole e)
    {targets : Option (List CacheKey)} (ha : e.action = .start (.runOnce targets)) :
    Sound e.pid (e :: pre) := by
  have hbegins : beginsPass e = true := by
    simp [beginsPass, ha]
  have hafter : stateAfter (e :: pre) = e.before := hlegal.after_eq_of_start ha
  refine ⟨?_, ?_, ?_⟩
  · intro howned
    rw [hafter, hwhole.lease hbegins] at howned
    cases howned
  · intro row hrow howner
    rw [hafter] at hrow
    exact absurd howner (hwhole.reservations hbegins row hrow)
  · intro _ item hitem
    rw [Queue.pass_of_start pre ha] at hitem
    cases hitem

/-- The row of an item of which the view has let go stays free. -/
theorem not_heldBy_step {p : Nat} {o : Op} {r : Except Exn o.Res} (ha : e.action = .op o r)
    (hlegal : Legal pre e) (hledger : Ledger (stateAfter pre).nextUuid (stateAfter pre).queue)
    {item : QueueItem}
    (hclaims : ∀ timeout keys, o ≠ .queue (.claimNextQueueItem (.worker p) timeout keys))
    (hfree : ∀ row ∈ (stateAfter pre).queue.items, row.requestId = item.requestId →
      ¬ HeldBy p row) :
    ∀ row' ∈ e.after.queue.items, row'.requestId = item.requestId → ¬ HeldBy p row' := by
  intro row' hrow' hid' hheld
  rcases Queue.row_before hledger (Queue.performed_of_op hlegal ha) hrow' with
    ⟨row, hrow, hid, rfl | heffect⟩ | hnew
  · exact hfree row' hrow hid' hheld
  · rcases heldBy_before heffect hheld with hwas | ⟨timeout, keys, ho⟩
    · exact hfree row hrow (hid.symm.trans hid') hwas
    · exact hclaims timeout keys ho
  · have hby := hheld.2
    rw [hnew.claimedBy] at hby
    cases hby

/-- An operation of its own. -/
theorem sound_of_own {o : Op} {r : Except Exn o.Res} (ha : e.action = .op o r)
    (hlegal : Legal pre e) (hledger : Ledger (stateAfter pre).nextUuid (stateAfter pre).queue)
    (hpasses : Disciplined Queue.passes
      (Queue.passMonitor : Monitor (fleet d) Queue.PassView).view pre e)
    (hwhole : PassesWhole e) (hI : Sound e.pid pre) : Sound e.pid (e :: pre) := by
  have hperf := Queue.performed_of_op hlegal ha
  have hheld : held e.pid (e :: pre) = (held e.pid pre).step o r :=
    (holdingMonitor d).view_of_op pre ha
  have hpid := pid_held e.pid pre
  have hallow := hpasses.1 o r ha
  refine ⟨?_, ?_, ?_⟩
  · intro howned
    rw [hheld]
    refine lease_step _ hperf ?_ ?_
    · rw [hpid]
      exact hI.lease
    · rw [hpid]
      exact howned
  · intro row hrow howner
    rw [hheld]
    refine mem_ids_step _ hperf ?_ row hrow ?_
    · rw [hpid]
      exact hI.ids
    · rw [hpid]
      exact howner
  · intro hclaim item hitem
    rw [hheld] at hclaim
    rw [Queue.pass_of_op pre ha, Queue.item_step] at hitem
    -- The item is not a new one, as a claim would be known.
    have hnone : Queue.claimed? o r = none := by
      by_contra hsome
      rcases Option.ne_none_iff_exists'.1 hsome with ⟨item', hitem'⟩
      unfold Queue.claimed? at hitem'
      split at hitem'
      · cases hitem'
        cases hclaim
      · cases hitem'
    rw [hnone, Option.none_or] at hitem
    cases hwas : (held e.pid pre).claim with
    | false =>
        refine not_heldBy_step ha hlegal hledger ?_ (hI.claim hwas item hitem)
        rintro timeout keys rfl
        have hfree : (pass e.pid pre).item = none := hallow.2
        rw [hfree] at hitem
        cases hitem
    | true =>
        rcases claim_or_letsGo (Queue.pass_pid e.pid pre) hallow ⟨item, hitem, rfl⟩ hwas with
          hstill | hgoes
        · rw [hstill] at hclaim
          cases hclaim
        · intro row' hrow' hid'
          refine not_heldBy_of_letsGo hledger hperf hgoes ?_ hrow' hid'
          rintro name ttl ids rfl hlost
          rw [← hlegal.before_eq] at hlost ⊢
          exact hwhole.fences (item.requestId, name) (by simp [fences?, ha]) hlost

/-- An operation of another process. -/
theorem sound_of_other {p : Nat} (hne : e.pid ≠ p) {o : Op} {r : Except Exn o.Res}
    (ha : e.action = .op o r) (hlegal : Legal pre e)
    (hledger : Ledger (stateAfter pre).nextUuid (stateAfter pre).queue)
    (hpasses : Disciplined Queue.passes
      (Queue.passMonitor : Monitor (fleet d) Queue.PassView).view pre e)
    (hconduct : Disciplined (Upstream.conduct d Upstream.ownToken)
      (Upstream.fleetMonitor d).view pre e)
    (hI : Sound p pre) : Sound p (e :: pre) := by
  have hperf := Queue.performed_of_op hlegal ha
  have hheld : held p (e :: pre) = held p pre := (holdingMonitor d).view_of_ne pre hne
  have hallow := hpasses.1 o r ha
  have hforeign : OwnerToken.worker p ≠ .worker (pass e.pid pre).pid := by
    rw [Queue.pass_pid]
    intro h
    cases h
    exact hne rfl
  refine ⟨?_, ?_, ?_⟩
  · intro howned
    rw [hheld]
    rcases owned_or_acquired hperf howned with hwas | ⟨timeout, ho⟩
    · exact hI.lease hwas
    · have hown := (hconduct.1 o r ha).2.1 (.worker p) (by rw [ho]; rfl)
      rw [Upstream.pid_seen] at hown
      exact absurd hown.symm hne
  · intro row hrow howner
    rw [hheld]
    rcases known_before hperf hrow with ⟨old, hold, htoken, hid⟩ | ⟨ids, requestId, ttl, rfl⟩
    · rw [← hid]
      exact hI.ids old hold (htoken.trans howner)
    · rw [howner] at hallow
      exact absurd hallow.1 hforeign
  · rw [hheld, Queue.pass_of_ne pre hne]
    intro hclaim item hitem
    refine not_heldBy_step ha hlegal hledger ?_ (hI.claim hclaim item hitem)
    rintro timeout keys rfl
    exact hforeign hallow.1

/-- What the workers may hold, their views know while they are in a pass. -/
def Followed (h : History (fleet d)) : Prop :=
  ∀ p, (held p h).within = true → Sound p h

theorem followed_step (hlegal : Legal pre e)
    (hledger : Ledger (stateAfter pre).nextUuid (stateAfter pre).queue)
    (hpasses : Disciplined Queue.passes
      (Queue.passMonitor : Monitor (fleet d) Queue.PassView).view pre e)
    (hconduct : Disciplined (Upstream.conduct d Upstream.ownToken)
      (Upstream.fleetMonitor d).view pre e)
    (hwhole : PassesWhole e) (hI : Followed pre) : Followed (e :: pre) := by
  intro p hwithin
  by_cases hpid : e.pid = p
  · subst hpid
    cases ha : e.action with
    | start c =>
        rw [held, (holdingMonitor d).view_of_start pre ha] at hwithin
        cases c with
        | runOnce targets => exact sound_of_start hlegal hwhole ha
        | _ => cases hwithin
    | op o r =>
        rw [held, (holdingMonitor d).view_of_op pre ha] at hwithin
        have hwas := (Holding.step_within _ o r).symm.trans hwithin
        exact sound_of_own ha hlegal hledger hpasses hwhole (hI e.pid hwas)
    | crash =>
        rw [held, (holdingMonitor d).view_of_crash pre ha] at hwithin
        cases hwithin
  · have hheld : held p (e :: pre) = held p pre := (holdingMonitor d).view_of_ne pre hpid
    rw [hheld] at hwithin
    have hwas := hI p hwithin
    by_cases hop : ∃ o r, e.action = .op o r
    · rcases hop with ⟨o, r, ha⟩
      exact sound_of_other hpid ha hlegal hledger hpasses hconduct hwas
    · have hsame : stateAfter (e :: pre) = stateAfter pre :=
        Queue.after_eq_of_not_op hlegal fun o r h => hop ⟨o, r, h⟩
      refine ⟨?_, ?_, ?_⟩
      · rw [hsame, hheld]
        exact hwas.lease
      · rw [hsame, hheld]
        exact hwas.ids
      · rw [hsame, hheld, Queue.pass_of_ne pre hpid]
        exact hwas.claim

theorem followed_after (d : Deployment) (sched : List (Config.Choice (fleet d)))
    (hwhole : Throughout (fun _ e => PassesWhole e) (Config.after (fleet d) sched).history) :
    Followed (Config.after (fleet d) sched).history := by
  have hlegal := (Config.legal_after (fleet d) sched).with_past
  have hruns := (hlegal.and
    ((Queue.passes_after d sched).and (Upstream.conduct_after d sched))).and hwhole
  refine Throughout.invariant ?_ ?_ hruns
  · intro p hwithin
    cases hwithin
  · rintro pre e hI ⟨⟨⟨hlegal, hpast⟩, hpasses, hconduct⟩, hwhole⟩
    exact followed_step hlegal (Queue.ledger_after hpast) hpasses hconduct hwhole hI

theorem nothingHeld_of_sound {c : Config (fleet d)} {p : Nat} (hstate : c.state =
    stateAfter c.history) (hclean : (held p c.history).Clean) (hsound : Sound p c.history) :
    NothingHeld c p := by
  refine ⟨?_, ?_, ?_⟩
  · rw [hstate]
    by_contra howned
    have hlease := hsound.lease (by simpa using howned)
    rw [hclean.lease] at hlease
    cases hlease
  · rw [hstate]
    intro row hrow howner
    have hmem := hsound.ids row hrow howner
    rw [hclean.ids] at hmem
    cases hmem
  · rw [hstate]
    exact hsound.claim hclean.claim

/-- In every run in which no pass begins with something left, and none finds its lease lost while
it holds its claim, every pass that returns leaves nothing behind. -/
theorem leaves_nothing (d : Deployment) (sched : List (Config.Choice (fleet d)))
    (hwhole : Throughout (fun _ e => PassesWhole e) (Config.after (fleet d) sched).history) :
    LeavesNothing (Config.after (fleet d) sched) := by
  intro p hreturned
  unfold passReturned? at hreturned
  split at hreturned
  · rename_i result hproc
    rcases clean_of_returned d sched p _ hproc result rfl with ⟨hwithin, hclean⟩
    exact nothingHeld_of_sound (Config.explained_after _ sched).state_eq hclean
      (followed_after d sched hwhole p hwithin)
  · cases hreturned

/-- A pass that has fetched holds nothing afterwards. -/
theorem leaves_nothing_fetched :
    LeavesNothing (Config.after (fleet {})
      (Queue.searchSent ++ .run 1 Queue.emptyFeed :: runs 1 10)) :=
  leaves_nothing {} _ (by decide +kernel)

def secondSearch : ArxivRequest :=
  { clientId := "reader", searchQuery := some "cat:math.LO" }

/-- Two searches are queued.  The first worker is admitted and is late for its fence; meanwhile the
second takes the lease for the other search. -/
def leaseLost : List (Config.Choice (fleet {})) :=
  .start 0 (.enqueueRequestForWork Queue.plainSearch (Keys.requestCacheKey Queue.plainSearch)
    .fetchMissing none) :: runs 0 2 ++
    .start 3 (.enqueueRequestForWork secondSearch (Keys.requestCacheKey secondSearch)
      .fetchMissing none) :: runs 3 2 ++
    .start 1 (.runOnce none) :: runs 1 9 ++
    .tick 200000000 :: .start 2 (.runOnce none) :: runs 2 4 ++ runs 1 2

/-- The pass that has lost its lease returns and leaves its item claimed. -/
theorem leaves_claim : ¬ LeavesNothing (Config.after (fleet {}) leaseLost) := by
  intro h
  have hreturned : (passReturned? (Config.after (fleet {}) leaseLost) 1).isSome = true := by
    decide +kernel
  have hheld : ¬ NothingHeld (Config.after (fleet {}) leaseLost) 1 := by
    decide +kernel
  exact hheld (h 1 hreturned)

end Runs

end Worker
end Huldra
