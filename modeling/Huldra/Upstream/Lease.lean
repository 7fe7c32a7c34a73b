import Huldra.Upstream.Runs

/-!
# Lease — what a run does to the row of the upstream lease

Each operation keeps the row, or acquires, renews or releases it; `RowEffect` says which.  The
history then tells who acquired the row last, until when each process has fenced it, and whether a
process has an upstream call under way.
-/

namespace Huldra
namespace Upstream

open Process
open Process.System (Event History Legal Throughout)

/-- The row of the lease that all upstream requests are made under. -/
def upstreamRow (s : Store) : Option LeaseRow :=
  s.leases .upstreamFetch

/-! ## One operation -/

/-- What an operation at time `t` makes of the row `b`. -/
inductive RowEffect (o : Op) (t : Int) (b : Option LeaseRow) : Option LeaseRow → Prop
  | kept : RowEffect o t b b
  | acquired (owner : OwnerToken) (timeout : Int)
      (op_eq : o = .lease (.acquireLease .upstreamFetch owner timeout))
      (free : ∀ row, b = some row → row.ownerToken = owner ∨ row.expiresAt ≤ t) :
      RowEffect o t b (some ⟨owner, t, t + seconds timeout⟩)
  | renewed (owner : OwnerToken) (ttl : Int) (row : LeaseRow)
      (renewal_eq : renewal? o = some (owner, ttl)) (row_eq : b = some row)
      (owned : row.ownerToken = owner) :
      RowEffect o t b (some { row with expiresAt := t + seconds ttl })
  | released (owner : OwnerToken) (row : LeaseRow)
      (op_eq : o = .lease (.releaseLease .upstreamFetch owner)) (row_eq : b = some row)
      (owned : row.ownerToken = owner) : RowEffect o t b none

theorem rowEffect_acquire (leases : Leases) (name : LeaseName) (owner : OwnerToken)
    (timeout t : Int) :
    RowEffect (.lease (.acquireLease name owner timeout)) t (leases .upstreamFetch)
      ((leases.acquireLease name owner timeout t).2 .upstreamFetch) := by
  rcases leases.acquireLease_cases name owner timeout t with ⟨heq, _⟩ | ⟨heq, hfree⟩
  · rw [heq]
    exact .kept
  · rw [heq]
    by_cases hname : name = .upstreamFetch
    · subst hname
      simp only [Function.update_self]
      exact .acquired owner timeout rfl (Leases.not_heldAgainst_iff.1 hfree)
    · simp only [Function.update_of_ne (Ne.symm hname)]
      exact .kept

theorem rowEffect_release (leases : Leases) (name : LeaseName) (owner : OwnerToken) (t : Int) :
    RowEffect (.lease (.releaseLease name owner)) t (leases .upstreamFetch)
      (leases.releaseLease name owner .upstreamFetch) := by
  by_cases hname : name = .upstreamFetch
  · subst hname
    rcases leases.releaseLease_self .upstreamFetch owner with ⟨howned, heq⟩ | ⟨_, heq⟩
    · rcases Leases.ownedBy_iff.1 howned with ⟨row, hrow, howner⟩
      rw [heq]
      exact .released owner row rfl hrow howner
    · rw [heq]
      exact .kept
  · rw [Leases.releaseLease_of_ne (Ne.symm hname)]
    exact .kept

theorem renewal?_of_mem {renewals : List LeaseRenewal}
    (hnodup : (renewals.map LeaseRenewal.name).Nodup) {r : LeaseRenewal} (hr : r ∈ renewals)
    (hname : r.name = .upstreamFetch) :
    renewal? (.lease (.renewLeasesIfOwned renewals)) = some (r.ownerToken, r.timeoutSeconds) := by
  have hfind : renewals.find? (fun r => r.name = .upstreamFetch) = some r := by
    cases hf : renewals.find? (fun r => r.name = .upstreamFetch) with
    | none =>
        have := List.find?_eq_none.1 hf r hr
        simp [hname] at this
    | some r' =>
        have hname' : r'.name = .upstreamFetch := by
          simpa using List.find?_some hf
        have heq := List.inj_on_of_nodup_map hnodup (List.mem_of_find?_eq_some hf) hr
          (hname'.trans hname.symm)
        rw [heq]
  simp [renewal?, hfind]

/-- A renewal that is granted extends the owner's row. -/
theorem rowEffect_renew (leases : Leases) (renewals : List LeaseRenewal) (t : Int) :
    RowEffect (.lease (.renewLeasesIfOwned renewals)) t (leases .upstreamFetch)
      ((leases.renewLeasesIfOwned renewals t).2 .upstreamFetch) ∧
    ∀ owner ttl, (leases.renewLeasesIfOwned renewals t).1 = .ok true →
      renewal? (.lease (.renewLeasesIfOwned renewals)) = some (owner, ttl) →
      ∃ row, leases .upstreamFetch = some row ∧ row.ownerToken = owner ∧
        (leases.renewLeasesIfOwned renewals t).2 .upstreamFetch =
          some { row with expiresAt := t + seconds ttl } := by
  rcases leases.renewLeasesIfOwned_cases renewals t with
    ⟨r, hr, heq⟩ | ⟨leases', heq, hlisted, hothers⟩
  · rw [heq]
    exact ⟨.kept, fun owner ttl hok => absurd hok hr⟩
  · have hnodup : (renewals.map LeaseRenewal.name).Nodup := by
      by_contra hnot
      rw [Leases.renewLeasesIfOwned, if_neg hnot] at heq
      cases heq
    simp only [heq]
    -- The row is in the list exactly when the operation renews it.
    by_cases hmem : LeaseName.upstreamFetch ∈ renewals.map LeaseRenewal.name
    · rcases List.mem_map.1 hmem with ⟨r, hr, hname⟩
      rcases hlisted r hr with ⟨howned, hrow'⟩
      rw [hname] at howned hrow'
      rcases Leases.ownedBy_iff.1 howned with ⟨row, hrow, howner⟩
      rw [hrow, Option.map_some] at hrow'
      have hrenewal := renewal?_of_mem hnodup hr hname
      refine ⟨?_, ?_⟩
      · rw [hrow']
        exact .renewed _ _ row hrenewal hrow howner
      · intro owner ttl _ hrenewal'
        rw [hrenewal] at hrenewal'
        cases hrenewal'
        exact ⟨row, hrow, howner, hrow'⟩
    · refine ⟨?_, ?_⟩
      · rw [hothers _ hmem]
        exact .kept
      · intro owner ttl _ hrenewal
        have hnone : renewals.find? (fun r => r.name = .upstreamFetch) = none := by
          refine List.find?_eq_none.2 ?_
          intro r hr
          have hne : r.name ≠ .upstreamFetch := fun h => hmem (h ▸ List.mem_map_of_mem hr)
          simpa using hne
        simp [renewal?, hnone] at hrenewal

/-- The fence of a worker, the lease part of it. -/
theorem rowEffect_fence (s : Store) (requestId : Uuid) (owner : OwnerToken) (name : LeaseName)
    (ttl : Int) (ids : List String) (t : Int) :
    RowEffect (.renewWorkerFetchOwnership requestId owner name ttl ids) t (upstreamRow s)
      (upstreamRow (s.renewWorkerFetchOwnership requestId owner name ttl ids t).2) ∧
    ∀ owner' ttl', (s.renewWorkerFetchOwnership requestId owner name ttl ids t).1 = none →
      renewal? (.renewWorkerFetchOwnership requestId owner name ttl ids) = some (owner', ttl') →
      ∃ row, upstreamRow s = some row ∧ row.ownerToken = owner' ∧
        upstreamRow (s.renewWorkerFetchOwnership requestId owner name ttl ids t).2 =
          some { row with expiresAt := t + seconds ttl' } := by
  cases howned : s.leases.ownedBy name owner with
  | false =>
      have heq : s.renewWorkerFetchOwnership requestId owner name ttl ids t =
          (some "lost_lease", s) := by
        simp [Store.renewWorkerFetchOwnership, howned]
      rw [heq]
      exact ⟨.kept, fun _ _ h => nomatch h⟩
  | true =>
      rcases Leases.ownedBy_iff.1 howned with ⟨row, hrow, howner⟩
      cases hclaim : s.queue.claimedByOwner requestId owner with
      | false =>
          have heq : s.renewWorkerFetchOwnership requestId owner name ttl ids t =
              (some "lost_claim", s) := by
            simp [Store.renewWorkerFetchOwnership, howned, hclaim]
          rw [heq]
          exact ⟨.kept, fun _ _ h => nomatch h⟩
      | true =>
          cases hreserved : s.queue.reservationsOwned ids.eraseDups owner with
          | false =>
              have heq : s.renewWorkerFetchOwnership requestId owner name ttl ids t =
                  (some "id_fetch_reserved", s) := by
                simp [Store.renewWorkerFetchOwnership, howned, hclaim, hreserved]
              rw [heq]
              exact ⟨.kept, fun _ _ h => nomatch h⟩
          | true =>
              have hleases : (s.renewWorkerFetchOwnership requestId owner name ttl ids t).2.leases =
                  s.leases.extend name owner (t + seconds ttl) := by
                simp [Store.renewWorkerFetchOwnership, howned, hclaim, hreserved]
              by_cases hname : name = .upstreamFetch
              · subst hname
                have hrow' : upstreamRow
                    (s.renewWorkerFetchOwnership requestId owner .upstreamFetch ttl ids t).2 =
                    some { row with expiresAt := t + seconds ttl } := by
                  simp only [upstreamRow, hleases]
                  exact Leases.extend_self hrow howner _
                refine ⟨?_, ?_⟩
                · rw [hrow']
                  exact .renewed owner ttl row (by simp [renewal?]) hrow howner
                · intro owner' ttl' _ hrenewal
                  have hpair : owner = owner' ∧ ttl = ttl' := by
                    simpa [renewal?] using hrenewal
                  rcases hpair with ⟨rfl, rfl⟩
                  exact ⟨row, hrow, howner, hrow'⟩
              · refine ⟨?_, ?_⟩
                · simp only [upstreamRow, hleases, Leases.extend_of_ne (Ne.symm hname)]
                  exact .kept
                · intro owner' ttl' _ hrenewal
                  simp [renewal?, hname] at hrenewal

/-- Every operation keeps, acquires, renews or releases the row. -/
theorem rowEffect_exec (o : Op) (t : Int) (input : Input) (s : Store) :
    RowEffect o t (upstreamRow s) (upstreamRow (Store.exec o t input s).2) := by
  cases o with
  | lease o =>
      cases o with
      | acquireLease name owner timeout => exact rowEffect_acquire s.leases name owner timeout t
      | renewLeasesIfOwned renewals => exact (rowEffect_renew s.leases renewals t).1
      | releaseLease name owner => exact rowEffect_release s.leases name owner t
  | renewWorkerFetchOwnership requestId owner name ttl ids =>
      exact (rowEffect_fence s requestId owner name ttl ids t).1
  | checkpointOaiPage c =>
      have hkeep : (s.checkpointOaiPage c).2.leases = s.leases := by
        unfold Store.checkpointOaiPage
        split <;> rfl
      have hrow : upstreamRow (Store.exec (.checkpointOaiPage c) t input s).2 = upstreamRow s :=
        congrFun hkeep _
      rw [hrow]
      exact .kept
  | enqueueRefreshIfDue request cacheKey timeout current =>
      have hkeep : (s.enqueueRefreshIfDue request cacheKey timeout current).2.leases =
          s.leases := by
        unfold Store.enqueueRefreshIfDue
        simp only
        repeat' split
        all_goals rfl
      have hrow : upstreamRow
          (Store.exec (.enqueueRefreshIfDue request cacheKey timeout current) t input s).2 =
          upstreamRow s := congrFun hkeep _
      rw [hrow]
      exact .kept
  | clock o => exact .kept
  | rate o => exact .kept
  | queue o => exact .kept
  | library o => exact .kept
  | oai o => exact .kept
  | upstream o => exact .kept
  | initSchema =>
      have hrow : upstreamRow (Store.exec .initSchema t input s).2 = upstreamRow s :=
        congrFun s.initSchema_leases _
      rw [hrow]
      exact .kept

theorem rowEffect {o : Op} {t : Int} {r : Except Exn o.Res} {s s' : Store}
    (h : Store.Performed o t r s s') : RowEffect o t (upstreamRow s) (upstreamRow s') := by
  rcases h.state with rfl | ⟨input, rfl⟩
  · exact .kept
  · exact rowEffect_exec o t input s

/-- A granted renewal found the row under its own token and has extended it. -/
theorem renewed_of_granted {o : Op} {t : Int} {r : Except Exn o.Res} {s s' : Store}
    (h : Store.Performed o t r s s') (hgranted : renewalGranted o r = true) {owner : OwnerToken}
    {ttl : Int} (hrenewal : renewal? o = some (owner, ttl)) :
    ∃ row, upstreamRow s = some row ∧ row.ownerToken = owner ∧
      upstreamRow s' = some { row with expiresAt := t + seconds ttl } := by
  cases o with
  | lease o =>
      cases o with
      | renewLeasesIfOwned renewals =>
          cases r with
          | error e => cases hgranted
          | ok granted =>
              have htrue : granted = true := hgranted
              subst htrue
              rcases h.of_ok with ⟨input, _, hexec⟩
              have hout : s.leases.renewLeasesIfOwned renewals t =
                  (.ok true, s'.leases) := by
                have h₁ := congrArg Prod.fst hexec
                have h₂ := congrArg (fun out => out.2.leases) hexec
                exact Prod.ext h₁ h₂
              have hrow := (rowEffect_renew s.leases renewals t).2 owner ttl
              rw [hout] at hrow
              exact hrow rfl hrenewal
      | acquireLease name owner timeout => cases hrenewal
      | releaseLease name owner => cases hrenewal
  | renewWorkerFetchOwnership requestId owner' name ttl' ids =>
      cases r with
      | error e => cases hgranted
      | ok reason =>
          have hnone : reason = none := by
            simpa [renewalGranted] using hgranted
          subst hnone
          rcases h.of_ok with ⟨input, _, hexec⟩
          have hout : s.renewWorkerFetchOwnership requestId owner' name ttl' ids t =
              (none, s') := by
            have h₁ := congrArg Prod.fst hexec
            have h₂ := congrArg Prod.snd hexec
            exact Prod.ext (Except.ok.inj h₁) h₂
          have hrow := (rowEffect_fence s requestId owner' name ttl' ids t).2 owner ttl
          rw [hout] at hrow
          exact hrow rfl hrenewal
  | clock o => cases hrenewal
  | rate o => cases hrenewal
  | queue o => cases hrenewal
  | library o => cases hrenewal
  | oai o => cases hrenewal
  | upstream o => cases hrenewal
  | initSchema => cases hrenewal
  | checkpointOaiPage c => cases hrenewal
  | enqueueRefreshIfDue request cacheKey timeout current => cases hrenewal

/-- The answer to an acquisition says what it did. -/
theorem acquire_of_ok {owner : OwnerToken} {timeout t : Int} {granted : Bool} {s s' : Store}
    (h : Store.Performed (.lease (.acquireLease .upstreamFetch owner timeout)) t (.ok granted)
      s s') :
    if granted then
      upstreamRow s' = some ⟨owner, t, t + seconds timeout⟩ ∧
        ∀ row, upstreamRow s = some row → row.ownerToken = owner ∨ row.expiresAt ≤ t
    else upstreamRow s' = upstreamRow s := by
  rcases h.of_ok with ⟨input, _, hout⟩
  have hpair : s.leases.acquireLease .upstreamFetch owner timeout t = (granted, s'.leases) := by
    have h₁ := congrArg Prod.fst hout
    have h₂ := congrArg (fun out => out.2.leases) hout
    exact Prod.ext (Except.ok.inj h₁) h₂
  rcases s.leases.acquireLease_cases .upstreamFetch owner timeout t with ⟨hcase, _⟩ | ⟨hcase, hfree⟩
  · rw [hpair] at hcase
    have hgranted : granted = false := congrArg Prod.fst hcase
    subst hgranted
    exact congrFun (congrArg Prod.snd hcase) LeaseName.upstreamFetch
  · rw [hpair] at hcase
    have hrow := congrFun (congrArg Prod.snd hcase) LeaseName.upstreamFetch
    have hgranted : granted = true := congrArg Prod.fst hcase
    subst hgranted
    simp only [Function.update_self] at hrow
    exact ⟨hrow, Leases.not_heldAgainst_iff.1 hfree⟩

/-! ## The history -/

variable {Client Out : Type} {program : Client → Nat → Process.Prog huldra Out}

/-- The event acquired the lease: it was granted, or its effect was committed. -/
def acquires (e : Event (storeSystem Client Out program)) : Bool :=
  match e.action with
  | .op (.lease (.acquireLease .upstreamFetch _ _)) (.ok granted) => granted
  | .op (.lease (.acquireLease .upstreamFetch _ _)) (.error _) =>
      upstreamRow e.after ≠ upstreamRow e.before
  | _ => false

/-- The process that has acquired the lease last. -/
def holder : History (storeSystem Client Out program) → Option Nat
  | [] => none
  | e :: pre => if acquires e then some e.pid else holder pre

/-- The expiry that the last granted renewal of the process wrote. -/
def lastFence (p : Nat) : History (storeSystem Client Out program) → Option Int
  | [] => none
  | e :: pre =>
      if e.pid = p then
        match e.action with
        | .op o r => (fencedUntil o r e.time).or (lastFence p pre)
        | _ => lastFence p pre
      else lastFence p pre

/-- The event is the beginning of an upstream call. -/
def beginsCall (e : Event (storeSystem Client Out program)) : Bool :=
  match e.action with
  | .op (.upstream (.fetchBegin _)) _ | .op (.upstream (.listRecordsBegin _)) _ => true
  | _ => false

/-- The processes that have an upstream call under way. -/
def callers : History (storeSystem Client Out program) → List Nat
  | [] => []
  | e :: pre =>
      let others := (callers pre).filter fun p => p ≠ e.pid
      match e.action with
      | .op (.upstream (.fetchBegin _)) (.ok _) => e.pid :: others
      | .op (.upstream (.listRecordsBegin _)) (.ok _) => e.pid :: others
      | .op (.upstream _) _ | .start _ | .crash => others
      | .op _ _ => callers pre

section History

variable {pre : History (storeSystem Client Out program)}
  {e : Event (storeSystem Client Out program)}

/-- What one event makes of the row, and of the name of its last acquirer. -/
theorem row_cases (h : Legal pre e) :
    (acquires e = false ∧ upstreamRow e.after = upstreamRow e.before) ∨
    (acquires e = true ∧ ∃ owner timeout r,
      e.action = .op (.lease (.acquireLease .upstreamFetch owner timeout)) r ∧
      upstreamRow e.after = some ⟨owner, e.time, e.time + seconds timeout⟩ ∧
      ∀ row, upstreamRow e.before = some row → row.ownerToken = owner ∨ row.expiresAt ≤ e.time) ∨
    (acquires e = false ∧ ∃ o r owner ttl row, e.action = .op o r ∧
      renewal? o = some (owner, ttl) ∧ upstreamRow e.before = some row ∧ row.ownerToken = owner ∧
      upstreamRow e.after = some { row with expiresAt := e.time + seconds ttl }) ∨
    (acquires e = false ∧ ∃ owner r row,
      e.action = .op (.lease (.releaseLease .upstreamFetch owner)) r ∧
      upstreamRow e.before = some row ∧ row.ownerToken = owner ∧ upstreamRow e.after = none) := by
  cases ha : e.action with
  | start c =>
      refine Or.inl ⟨by simp [acquires, ha], ?_⟩
      rw [h.after_eq_of_start ha]
  | crash =>
      refine Or.inl ⟨by simp [acquires, ha], ?_⟩
      rw [h.after_eq_of_crash ha]
  | op o r =>
      have hperf := Store.executed_iff.1 (h.executed ha)
      have heffect := rowEffect hperf
      generalize hafter : upstreamRow e.after = after at heffect
      cases heffect with
      | kept =>
          by_cases hacq : acquires e = true
          · -- An acquisition that is granted writes the row, even when it writes what was there.
            unfold acquires at hacq
            split at hacq
            case h_1 owner timeout granted heq =>
              subst hacq
              rcases acquire_of_ok (Store.executed_iff.1 (h.executed heq)) with ⟨hrow, hfree⟩
              refine Or.inr (Or.inl ⟨by simp [acquires, heq], owner, timeout, .ok true,
                ?_, ?_, hfree⟩)
              · rw [← ha, heq]
              · rw [← hafter]
                exact hrow
            case h_2 owner timeout err heq =>
              rw [hafter] at hacq
              simp at hacq
            case h_3 => cases hacq
          · exact Or.inl ⟨by simpa using hacq, rfl⟩
      | acquired owner timeout op_eq free =>
          subst op_eq
          cases hacq : acquires e with
          | true => exact Or.inr (Or.inl ⟨rfl, owner, timeout, r, rfl, rfl, free⟩)
          | false =>
              refine Or.inl ⟨rfl, ?_⟩
              cases r with
              | ok granted =>
                  have hgranted : granted = false := by
                    simpa [acquires, ha] using hacq
                  subst hgranted
                  rw [← hafter]
                  exact acquire_of_ok hperf
              | error err =>
                  have hsame : upstreamRow e.after = upstreamRow e.before := by
                    simpa [acquires, ha] using hacq
                  rw [← hafter]
                  exact hsame
      | renewed owner ttl row renewal_eq row_eq owned =>
          refine Or.inr (Or.inr (Or.inl ⟨?_, o, r, owner, ttl, row, rfl, renewal_eq, row_eq, owned,
            rfl⟩))
          unfold acquires
          split
          case h_1 heq =>
            rw [ha] at heq
            cases heq
            cases renewal_eq
          case h_2 heq =>
            rw [ha] at heq
            cases heq
            cases renewal_eq
          case h_3 => rfl
      | released owner row op_eq row_eq owned =>
          subst op_eq
          exact Or.inr (Or.inr (Or.inr ⟨by simp [acquires, ha], owner, r, row, rfl, row_eq, owned,
            rfl⟩))

theorem holder_of_acquires (h : acquires e = true) : holder (e :: pre) = some e.pid := by
  simp [holder, h]

theorem holder_of_not_acquires (h : acquires e = false) : holder (e :: pre) = holder pre := by
  simp [holder, h]

end History

end Upstream
end Huldra
