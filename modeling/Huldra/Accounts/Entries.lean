import Huldra.Archive
import Huldra.Library.AlwaysReadable
import Mathlib.Algebra.Order.Ring.Nat

/-!
# Entries — the upstream requests the cache entries count

Every entry keeps the number of upstream requests that were made for it.  The two transactions that
write an entry add to it what their caller says; nothing else touches it, and no entry is removed.
So the sum over all entries grows by what the writers say, one operation at a time.
-/

namespace Huldra
namespace Accounts

/-! ## Rows with distinct keys -/

section Rows

variable {α κ : Type} [DecidableEq κ] (key : α → κ) (n : α → Nat) (new : α)

theorem map_replace_of_absent {rows : List α} (h : key new ∉ rows.map key) :
    (rows.map fun row => if key row = key new then new else row) = rows := by
  refine (List.map_congr_left fun row hrow => if_neg ?_).trans (List.map_id' rows)
  intro hkey
  exact h (hkey ▸ List.mem_map_of_mem hrow)

/-- Replacing the row of a key changes a sum by the new row and the old. -/
theorem sum_replace {old : α} {rows : List α} (hnodup : (rows.map key).Nodup) (hold : old ∈ rows)
    (hkey : key old = key new) :
    ((rows.map fun row => if key row = key new then new else row).map n).sum + n old =
      (rows.map n).sum + n new := by
  induction rows with
  | nil => cases hold
  | cons row rest ih =>
      rw [List.map_cons, List.nodup_cons] at hnodup
      rcases List.mem_cons.1 hold with rfl | hrest
      · rw [hkey] at hnodup
        rw [List.map_cons, if_pos hkey, map_replace_of_absent key new hnodup.1]
        simp only [List.map_cons, List.sum_cons]
        omega
      · have hne : key row ≠ key new := by
          intro hrow
          exact hnodup.1 (hrow ▸ hkey ▸ List.mem_map_of_mem hrest)
        have hih := ih hnodup.2 hrest
        rw [List.map_cons, if_neg hne]
        simp only [List.map_cons, List.sum_cons]
        omega

theorem map_key_replace (rows : List α) :
    (rows.map fun row => if key row = key new then new else row).map key = rows.map key := by
  rw [List.map_map]
  refine List.map_congr_left fun row _ => ?_
  rw [Function.comp_apply]
  split
  · rename_i hkey
    exact hkey.symm
  · rfl

end Rows

/-! ## The library -/

/-- The sum of `upstream_requests_total` over all entries. -/
def entriesTotal (l : LibraryTables) : Nat :=
  (l.cacheEntries.map (·.upstreamRequestsTotal)).sum

/-- No two entries have the same key. -/
def Keyed (l : LibraryTables) : Prop :=
  (l.cacheEntries.map (·.cacheKey)).Nodup

/-- The sum over the entries grows by `n`, and their keys stay distinct. -/
structure Adds (n : Nat) (l l' : LibraryTables) : Prop where
  keyed : Keyed l → Keyed l'
  total : Keyed l → entriesTotal l' = entriesTotal l + n

theorem Adds.of_entries {l l' : LibraryTables} (h : l'.cacheEntries = l.cacheEntries) :
    Adds 0 l l' := by
  constructor
  · intro hkeyed
    rw [Keyed, h]
    exact hkeyed
  · intro _
    rw [entriesTotal, h]
    rfl

/-- Entries that keep their keys and their counts. -/
theorem Adds.of_map {l : LibraryTables} (f : CacheEntry → CacheEntry)
    (hkey : ∀ e, (f e).cacheKey = e.cacheKey)
    (htotal : ∀ e, (f e).upstreamRequestsTotal = e.upstreamRequestsTotal) :
    Adds 0 l { l with cacheEntries := l.cacheEntries.map f } := by
  constructor
  · intro hkeyed
    simpa [Keyed, Function.comp_def, hkey] using hkeyed
  · intro _
    simp [entriesTotal, Function.comp_def, htotal]

/-- The entry that is put adds what it counts beyond the entry it replaces. -/
theorem adds_putCacheEntry {n : Nat} {l : LibraryTables} {entry : CacheEntry}
    (h : entry.upstreamRequestsTotal =
      ((l.cacheEntryOf? entry.cacheKey).map (·.upstreamRequestsTotal)).getD 0 + n) :
    Adds n l (l.putCacheEntry entry) := by
  unfold LibraryTables.putCacheEntry
  cases hfound : l.cacheEntryOf? entry.cacheKey with
  | some old =>
      have hmem := List.mem_of_find?_eq_some hfound
      have hkey : old.cacheKey = entry.cacheKey := by
        simpa using List.find?_some hfound
      rw [hfound, Option.map_some, Option.getD_some] at h
      constructor
      · intro hkeyed
        rw [Keyed, map_key_replace]
        exact hkeyed
      · intro hkeyed
        have hsum : entriesTotal { l with
              cacheEntries := l.cacheEntries.map fun e =>
                if e.cacheKey = entry.cacheKey then entry else e } + old.upstreamRequestsTotal =
            entriesTotal l + entry.upstreamRequestsTotal :=
          sum_replace CacheEntry.cacheKey CacheEntry.upstreamRequestsTotal entry hkeyed hmem hkey
        dsimp only at hsum ⊢
        omega
  | none =>
      have hfresh : entry.cacheKey ∉ l.cacheEntries.map (·.cacheKey) := by
        intro hmem
        rcases List.mem_map.1 hmem with ⟨old, hold, hkey⟩
        have hne := List.find?_eq_none.1 hfound old hold
        simp [hkey] at hne
      rw [hfound, Option.map_none, Option.getD_none, Nat.zero_add] at h
      constructor
      · intro hkeyed
        rw [Keyed, List.map_append, List.nodup_append]
        refine ⟨hkeyed, List.nodup_singleton _, ?_⟩
        rintro _ hold _ hnew rfl
        rw [List.map_singleton, List.mem_singleton] at hnew
        exact hfresh (hnew ▸ hold)
      · intro _
        simp [entriesTotal, h]

/-- What the operation says that was requested. -/
def counted : Op → Nat
  | .library (.recordCompletedCacheEntry write) => write.upstreamRequestCount
  | .library (.recordCacheFailure write) => write.upstreamRequestCount
  | _ => 0

theorem adds_libraryExec (l : LibraryTables) (o : LibraryOp) :
    Adds (counted (.library o)) l (o.exec l).2 := by
  cases o with
  | recordCompletedCacheEntry w =>
      have hentries := l.recordCompletedCacheEntry_cacheEntries w
      have hput : Adds w.upstreamRequestCount (l.upsertPapers w.papers w.completedAt).2
          ((l.upsertPapers w.papers w.completedAt).2.putCacheEntry (l.completionEntry w)) := by
        have hsame : (l.upsertPapers w.papers w.completedAt).2.cacheEntryOf? w.cacheKey =
            l.cacheEntryOf? w.cacheKey := by
          simp [LibraryTables.cacheEntryOf?]
        refine adds_putCacheEntry ?_
        change _ = ((LibraryTables.cacheEntryOf? _ w.cacheKey).map _).getD 0 + _
        rw [hsame]
        rfl
      constructor
      · intro hkeyed
        have hput := hput.keyed (by simpa [Keyed] using hkeyed)
        rw [Keyed, ← hentries] at hput
        exact hput
      · intro hkeyed
        have hput := hput.total (by simpa [Keyed] using hkeyed)
        rw [entriesTotal, ← hentries] at hput
        refine hput.trans ?_
        simp [entriesTotal, counted]
  | recordCacheFailure w =>
      simp only [LibraryOp.exec, LibraryTables.recordCacheFailure]
      cases hfound : l.cacheEntryOf? w.cacheKey with
      | some previous =>
          have hkey : previous.cacheKey = w.cacheKey := by
            simpa using List.find?_some hfound
          refine adds_putCacheEntry ?_
          simp [hkey, hfound, counted]
      | none =>
          refine adds_putCacheEntry ?_
          simp [hfound, counted]
  | upsertPapers papers timestamp => exact .of_entries (by simp [LibraryOp.exec])
  | upsertOaiRecords records timestamp => exact .of_entries (by simp [LibraryOp.exec])
  | markPaperDeleted => exact .of_entries rfl
  | _ => exact .of_entries rfl

/-! ## The store -/

theorem adds_exec (s : Store) (o : Op) (t : Int) (input : Input) :
    Adds (counted o) s.library (Store.exec o t input s).2.library := by
  cases o with
  | library o => exact adds_libraryExec s.library o
  | initSchema =>
      simp only [Store.exec]
      rcases s.initSchema_cases with heq | heq
      · rw [heq]
        exact .of_entries rfl
      · rw [heq]
        refine .of_map _ (fun e => ?_) fun e => ?_
        · split <;> rfl
        · split <;> rfl
  | renewWorkerFetchOwnership requestId owner name ttl ids =>
      simp only [Store.exec, Store.renewWorkerFetchOwnership_library]
      exact .of_entries rfl
  | checkpointOaiPage c =>
      simp only [Store.exec, Store.checkpointOaiPage]
      split
      · exact .of_entries (by simp)
      · exact .of_entries rfl
  | enqueueRefreshIfDue request cacheKey timeout current =>
      simp only [Store.exec]
      rcases s.enqueueRefreshIfDue_library request cacheKey timeout current with heq | ⟨due, heq⟩
      · rw [heq]
        exact .of_entries rfl
      · rw [heq]
        refine .of_map _ (fun e => ?_) fun e => ?_
        · split <;> rfl
        · split <;> rfl
  | clock o => exact .of_entries rfl
  | lease o => exact .of_entries rfl
  | rate o => exact .of_entries rfl
  | queue o => exact .of_entries rfl
  | oai o => exact .of_entries rfl
  | upstream o => exact .of_entries rfl

/-! ## The archive -/

/-- The sum of `upstream_requests_total` over all cache entries. -/
def cacheRequestsTotal (a : Archive) : Nat :=
  entriesTotal a.store.library

def countedBy : ArchiveOp → Nat
  | .store o => counted o
  | .job _ => 0

theorem adds_archiveExec (a : Archive) (o : ArchiveOp) (t : Int) (input : Input) :
    Adds (countedBy o) a.store.library (Archive.exec o t input a).2.store.library := by
  cases o with
  | store o => exact adds_exec a.store o t input
  | job o =>
      cases o with
      | gc cutoff dryRun =>
          cases dryRun with
          | true => exact .of_entries rfl
          | false => exact .of_entries rfl
      | _ => exact .of_entries rfl

section Performed

variable {o : ArchiveOp} {t : Int} {r : Except Exn o.Res} {a a' : Archive}

theorem keyed_performed (h : Archive.Performed o t r a a') (hkeyed : Keyed a.store.library) :
    Keyed a'.store.library := by
  rcases h.state with rfl | ⟨input, rfl⟩
  · exact hkeyed
  · exact (adds_archiveExec a o t input).keyed hkeyed

/-- An operation that answers has counted what it says; one that raises may have. -/
theorem total_performed (h : Archive.Performed o t r a a') (hkeyed : Keyed a.store.library) :
    (cacheRequestsTotal a' = cacheRequestsTotal a ∨
        cacheRequestsTotal a' = cacheRequestsTotal a + countedBy o) ∧
      ∀ b, r = .ok b → cacheRequestsTotal a' = cacheRequestsTotal a + countedBy o := by
  constructor
  · rcases h.state with rfl | ⟨input, rfl⟩
    · exact .inl rfl
    · exact .inr ((adds_archiveExec a o t input).total hkeyed)
  · rintro b rfl
    rcases h.of_ok with ⟨input, _, hexec⟩
    have hadds := (adds_archiveExec a o t input).total hkeyed
    rw [hexec] at hadds
    exact hadds

end Performed

end Accounts
end Huldra
