import Huldra.Library.AlwaysReadable

/-!
# Snapshot — reading a window while others refresh it

`ensure` reads the entry, three counts of its matches and the papers, each at a moment of its own.
A refresh of the same key may commit between any two of them.  What the reader makes of it depends
on what such a refresh leaves as it was.
-/

namespace Huldra

open Process LibraryTables

/-- What `ensure` does with a cached window: check it, and build the result. -/
def Broker.readWindow (d : Deployment) (request : ArxivRequest) (cacheKey : CacheKey) :
    Program (Option ArxivResult) := do
  let cached ← getReadableCompletedCache cacheKey
  match cached with
  | none => pure none
  | some cached => do
      let result ← resultFromCompletedCache d request cacheKey cached none
      pure (some result)

namespace Snapshot

/-! ## The others: refreshes of the key -/

def Refresh (cacheKey : CacheKey) (_ : Int) (s s' : Store) : Prop :=
  ∃ w : CompletedCacheWrite, w.cacheKey = cacheKey ∧
    s' = { s with library := s.library.recordCompletedCacheEntry w }

abbrev amidRefreshes (cacheKey : CacheKey) : Surroundings huldra Store :=
  Store.among (Refresh cacheKey)

/-- The key is completed, and readable for a reader that nobody interrupts. -/
def ReadableNow (cacheKey : CacheKey) (s : Store) : Prop :=
  ∃ entry, s.library.cacheEntryOf? cacheKey = some entry ∧ entry.status = .completed ∧
    s.library.PassesCheck entry

/-! ## What a result says -/

/-- The metadata of a window. -/
def description (cacheKey : CacheKey) (s : Store) :
    Option (Option Nat × Option Int × CoverageStatus) :=
  (s.library.cacheEntryOf? cacheKey).map fun entry =>
    (entry.totalResults, entry.completedAt, entry.coverageStatus)

def resultCount (cacheKey : CacheKey) (s : Store) : Option Nat :=
  (s.library.cacheEntryOf? cacheKey).map (·.resultCount)

/-- The metadata and the papers of the result are those of this one state of the store. -/
structure OfState (cacheKey : CacheKey) (s : Store) (result : ArxivResult) : Prop where
  described : description cacheKey s =
    some (result.totalResults, result.completedAt, result.coverageStatus)
  counted : result.cachedPapersTotal = (s.library.getCachedPapers cacheKey).length
  exposed : result.ready = true → result.papers = s.library.getCachedPapers cacheKey

/-! ## Refreshes between two reads -/

/-- The client reads the library. -/
def LibraryRead : Move huldra Store → Prop
  | .own (.library _) _ _ _ _ => True
  | _ => False

/-- The move has a library read of the client before it and one after it. -/
def Between (moves : List (Move huldra Store)) (m : Move huldra Store) : Prop :=
  ∃ earlier later, moves = earlier ++ m :: later ∧ (∃ r ∈ earlier, LibraryRead r) ∧
    ∃ r ∈ later, LibraryRead r

/-- Every refresh between the reader's first and last read leaves the number of papers as it was,
and they all leave the metadata, or they all leave the papers. -/
structure Steady (cacheKey : CacheKey) (moves : List (Move huldra Store)) : Prop where
  counted : ∀ t u v, Between moves (.other t u v) → resultCount cacheKey v = resultCount cacheKey u
  same : (∀ t u v, Between moves (.other t u v) → description cacheKey v = description cacheKey u) ∨
    ∀ t u v, Between moves (.other t u v) →
      v.library.getCachedPapers cacheKey = u.library.getCachedPapers cacheKey

variable {cacheKey : CacheKey} {moves : List (Move huldra Store)}

/-- A run that has read the library once, and what is left of it. -/
def Reading (moves rest : List (Move huldra Store)) : Prop :=
  ∃ past, moves = past ++ rest ∧ ∃ r ∈ past, LibraryRead r

/-- What the refreshes between reads preserve holds again at the next read. -/
structure NextRead (moves rest : List (Move huldra Store)) (s s₁ : Store) : Prop where
  reading : Reading moves rest
  moved : ∃ m ∈ moves, m.before = s₁
  preserved : ∀ P : Store → Prop, (∀ t u v, Between moves (.other t u v) → P u → P v) → P s → P s₁

/-- A read of the library answers what it reads, and leaves the store. -/
theorem answer_of_read {o : LibraryOp} {g : LibraryTables → o.Res}
    (hread : ∀ l, o.exec l = (.ok (g l), l)) {t : Int} {a : o.Res} {s s' : Store}
    (h : Store.Performed (.library o) t (.ok a) s s') : a = g s.library ∧ s' = s := by
  rcases h.of_ok with ⟨input, _, hexec⟩
  simp only [Store.exec, hread, Prod.mk.injEq, Except.ok.injEq] at hexec
  exact ⟨hexec.1.symm, hexec.2.symm⟩

/-- The first read, whatever happened before it. -/
theorem first_read {others : Int → Store → Store → Prop} {o : LibraryOp}
    {g : LibraryTables → o.Res} (hread : ∀ l, o.exec l = (.ok (g l), l))
    {rest : List (Move huldra Store)} {s s₁ : Store} {t t₁ : Int} {a : o.Res}
    (hnext : Amid.Next (I := huldra) (o := .library o) (Store.among others) s t moves (.ok a) rest
      s₁ t₁) :
    a = g s₁.library ∧ Reading moves rest ∧ ∃ m ∈ moves, m.before = s₁ := by
  rcases hnext with ⟨drifted, u, since, _, _, hdoes, rfl⟩
  rcases answer_of_read hread hdoes with ⟨ha, rfl⟩
  let own : Move huldra Store := .own (.library o) t₁ (.ok a) s₁ s₁
  have hown : own ∈ drifted ++ [own] := by simp
  refine ⟨ha, ⟨drifted ++ [own], List.append_cons drifted own rest, own, hown, trivial⟩, own, ?_,
    rfl⟩
  simp [own]

theorem next_read {others : Int → Store → Store → Prop} {o : LibraryOp}
    {g : LibraryTables → o.Res} (hread : ∀ l, o.exec l = (.ok (g l), l))
    {tail rest : List (Move huldra Store)} {s s₁ : Store} {t t₁ : Int} {a : o.Res}
    (hreading : Reading moves tail)
    (hnext : Amid.Next (I := huldra) (o := .library o) (Store.among others) s t tail (.ok a) rest
      s₁ t₁) :
    a = g s₁.library ∧ NextRead moves rest s s₁ := by
  rcases hreading with ⟨past, rfl, r, hr, hread'⟩
  rcases hnext with ⟨drifted, u, since, hdrift, _, hdoes, rfl⟩
  rcases answer_of_read hread hdoes with ⟨ha, rfl⟩
  let own : Move huldra Store := .own (.library o) t₁ (.ok a) s₁ s₁
  refine ⟨ha, ?_, ⟨own, by simp [own], rfl⟩, ?_⟩
  · refine ⟨past ++ drifted ++ [own], ?_, r, ?_, hread'⟩
    · simp [own]
    · simp [hr]
  · intro P hstep hP
    refine hdrift.invariant ?_ hP
    intro t' v w hmem
    refine hstep t' v w ?_
    -- The step lies between the read that has been and the read that ends the drift.
    rcases List.append_of_mem hmem with ⟨front, back, rfl⟩
    refine ⟨past ++ front, back ++ own :: rest, ?_, ⟨r, ?_, hread'⟩, own, ?_, trivial⟩
    · simp [own]
    · simp [hr]
    · simp

/-! ## The reader -/

theorem checks_of_readable {entry : CacheEntry} {s : Store} (h : ReadableNow cacheKey s)
    (hcount : resultCount cacheKey s = some entry.resultCount) :
    s.library.matchCount cacheKey = entry.resultCount ∧
      s.library.joinedCount cacheKey = entry.resultCount ∧
        s.library.matchPositions cacheKey = List.range entry.resultCount := by
  rcases h with ⟨current, hcurrent, _, hpasses⟩
  have hkey := cacheEntryOf?_cacheKey hcurrent
  have hsame : current.resultCount = entry.resultCount := by
    simpa [resultCount, hcurrent] using hcount
  rw [← hkey, ← hsame]
  exact ⟨hpasses.counted, hpasses.joined, hpasses.numbered⟩

/-- The result was made of this entry and these papers. -/
structure MadeOf (entry : CacheEntry) (papers : List ArxivPaper) (result : ArxivResult) :
    Prop where
  described : (result.totalResults, result.completedAt, result.coverageStatus) =
    (entry.totalResults, entry.completedAt, entry.coverageStatus)
  counted : result.cachedPapersTotal = papers.length
  exposed : result.ready = true → result.papers = papers

theorem MadeOf.ofState {entry : CacheEntry} {papers : List ArxivPaper} {result : ArxivResult}
    {s : Store} (h : MadeOf entry papers result)
    (hdescribed : description cacheKey s =
      some (entry.totalResults, entry.completedAt, entry.coverageStatus))
    (hpapers : s.library.getCachedPapers cacheKey = papers) : OfState cacheKey s result := by
  refine ⟨?_, ?_, ?_⟩
  · rw [hdescribed, h.described]
  · rw [hpapers]
    exact h.counted
  · rw [hpapers]
    exact h.exposed

/-- A refresh leaves the reader with the window of one state, if it is steady. -/
def ReadsOneState (cacheKey : CacheKey) (moves : List (Move huldra Store))
    (out : Option ArxivResult) : Prop :=
  ∃ result, out = some result ∧ ∃ m ∈ moves, OfState cacheKey m.before result

theorem window_read_steady (d : Deployment) (request : ArxivRequest) {s s' : Store} {t t' : Int}
    {out : Option ArxivResult}
    (hrun : Amid (amidRefreshes cacheKey) (Broker.readWindow d request cacheKey) s t moves (.ok out)
      s' t')
    (hreadable : ∀ m ∈ moves, ReadableNow cacheKey m.before)
    (hsteady : Steady cacheKey moves) : ReadsOneState cacheKey moves out := by
  rcases hrun.next_ok rfl (fun _ => rfl) with ⟨entry, rest₁, s₁, t₁, hnext, hrun⟩
  rcases first_read (g := fun l => l.cacheEntryOf? cacheKey) (fun _ => rfl) hnext with
    ⟨rfl, hreading, m₁, hm₁, rfl⟩
  rcases hreadable m₁ hm₁ with ⟨entry, hentry, hstatus, _⟩
  simp only [hentry, hstatus, Prog.handle_ret, ne_eq, not_true_eq_false, if_false] at hrun
  rcases hrun.next_ok rfl (fun _ => rfl) with ⟨matchTotal, rest₂, s₂, t₂, hnext, hrun⟩
  rcases next_read (g := fun l => l.matchCount cacheKey) (fun _ => rfl) hreading hnext with
    ⟨hmatchTotal, hread₂⟩
  rcases hrun.next_ok rfl (fun _ => rfl) with ⟨joinedTotal, rest₃, s₃, t₃, hnext, hrun⟩
  rcases next_read (g := fun l => l.joinedCount cacheKey) (fun _ => rfl) hread₂.reading hnext with
    ⟨hjoinedTotal, hread₃⟩
  rcases hrun.next_ok rfl (fun _ => rfl) with ⟨positions, rest₄, s₄, t₄, hnext, hrun⟩
  rcases next_read (g := fun l => l.matchPositions cacheKey) (fun _ => rfl) hread₃.reading
      hnext with
    ⟨hpositions, hread₄⟩
  -- The count of the entry holds at each of the three checks, so each finds what it expects.
  have hcount₁ : resultCount cacheKey m₁.before = some entry.resultCount := by
    simp [resultCount, hentry]
  have hstep : ∀ t u v, Between moves (.other t u v) →
      resultCount cacheKey u = some entry.resultCount →
        resultCount cacheKey v = some entry.resultCount := by
    intro t u v hbetween hu
    rw [hsteady.counted t u v hbetween, hu]
  have hcount₂ := hread₂.preserved _ hstep hcount₁
  have hcount₃ := hread₃.preserved _ hstep hcount₂
  have hcount₄ := hread₄.preserved _ hstep hcount₃
  have hchecks : ∀ {s}, (∃ m ∈ moves, m.before = s) →
      resultCount cacheKey s = some entry.resultCount →
        s.library.matchCount cacheKey = entry.resultCount ∧
          s.library.joinedCount cacheKey = entry.resultCount ∧
            s.library.matchPositions cacheKey = List.range entry.resultCount := by
    rintro s ⟨m, hm, rfl⟩ hcount
    exact checks_of_readable (hreadable m hm) hcount
  rw [(hchecks hread₂.moved hcount₂).1] at hmatchTotal
  rw [(hchecks hread₃.moved hcount₃).2.1] at hjoinedTotal
  rw [(hchecks hread₄.moved hcount₄).2.2] at hpositions
  subst hmatchTotal hjoinedTotal hpositions
  simp only [Prog.handle_ret, ne_eq, not_true_eq_false, if_false, Prog.pure_eq] at hrun
  rcases hrun.next_ok rfl (fun _ => rfl) with ⟨papers, rest₅, s₅, t₅, hnext, hrun⟩
  rcases next_read (g := fun l => l.getCachedPapers cacheKey) (fun _ => rfl) hread₄.reading hnext
    with ⟨hpapers, hread₅⟩
  have hmade : ∃ result, out = some result ∧ MadeOf entry papers result := by
    refine hrun.returns (S := fun out => ∃ result, out = some result ∧ MadeOf entry papers result)
      ?_ rfl
    change Prog.Returns _ (((Broker.evaluateReadiness request d.settings).handle _ .raise).handle _
      .raise)
    refine Prog.Returns.bind_of (T := MadeOf entry papers)
      (Prog.Returns.bind fun readiness => ⟨rfl, rfl, ?_⟩) (fun result h => ⟨result, rfl, h⟩)
    intro hready
    exact if_pos hready
  rcases hmade with ⟨result, rfl, hmade⟩
  have hkept : ∀ P : Store → Prop, (∀ t u v, Between moves (.other t u v) → P u → P v) →
      P m₁.before → P s₅ := by
    intro P hP h
    exact hread₅.preserved P hP (hread₄.preserved P hP (hread₃.preserved P hP
      (hread₂.preserved P hP h)))
  rcases hsteady.same with hdescription | hsamePapers
  · -- The state the papers were read in still has the metadata.
    rcases hread₅.moved with ⟨m, hm, hs₅⟩
    refine ⟨result, rfl, m, hm, hmade.ofState ?_ (by rw [hs₅, hpapers])⟩
    rw [hs₅]
    refine hkept (fun s => description cacheKey s = _) ?_ (by simp [description, hentry])
    intro t u v hbetween hu
    rw [hdescription t u v hbetween, hu]
  · -- The state the entry was read in already had the papers.
    refine ⟨result, rfl, m₁, hm₁, hmade.ofState (by simp [description, hentry]) ?_⟩
    rw [hpapers]
    refine (hkept (fun s => s.library.getCachedPapers cacheKey = _) ?_ rfl).symm
    intro t u v hbetween hu
    rw [hsamePapers t u v hbetween, hu]

theorem Between.mem {m : Move huldra Store} (h : Between moves m) : m ∈ moves := by
  rcases h with ⟨earlier, later, rfl, _⟩
  simp

theorem steady_of_no_refresh (h : ∀ t u v, Move.other t u v ∉ moves) : Steady cacheKey moves :=
  ⟨fun t u v hb => absurd hb.mem (h t u v), Or.inl fun t u v hb => absurd hb.mem (h t u v)⟩

/-! ## A refresh that empties the window under the reader -/

def emptyCompletion : CompletedCacheWrite :=
  { plainCompletion with
    papers := []
    totalResults := some 0
    completedAt := 1 }

def full : Store :=
  { library := LibraryTables.recordCompletedCacheEntry {} plainCompletion }

def emptied : Store :=
  { library := full.library.recordCompletedCacheEntry emptyCompletion }

theorem readableNow_of_completion {l : LibraryTables} (w : CompletedCacheWrite) :
    ReadableNow w.cacheKey { library := l.recordCompletedCacheEntry w } :=
  ⟨l.completionEntry w, cacheEntryOf?_recordCompletedCacheEntry l w, rfl,
    (completion_intact l w).passesCheck⟩

/-- The moves of a reader whom nobody interrupts. -/
def uninterrupted : List (Move huldra Store) :=
  [.own (.library (.getCacheEntry plainCompletion.cacheKey)) 0
      (.ok (some (completionEntry {} plainCompletion))) full full,
    .own (.library (.matchCount plainCompletion.cacheKey)) 0
      (.ok (completionEntry {} plainCompletion).resultCount) full full,
    .own (.library (.joinedCount plainCompletion.cacheKey)) 0
      (.ok (completionEntry {} plainCompletion).resultCount) full full,
    .own (.library (.matchPositions plainCompletion.cacheKey)) 0
      (.ok (List.range (completionEntry {} plainCompletion).resultCount)) full full,
    .own (.library (.getCachedPapers plainCompletion.cacheKey)) 0
      (.ok (full.library.getCachedPapers plainCompletion.cacheKey)) full full]

theorem full_entry : full.library.cacheEntryOf? plainCompletion.cacheKey =
    some (completionEntry {} plainCompletion) :=
  cacheEntryOf?_recordCompletedCacheEntry {} plainCompletion

theorem window_read_uninterrupted :
    ∃ out, Amid (amidRefreshes plainCompletion.cacheKey)
        (Broker.readWindow {} plainRequest plainCompletion.cacheKey) full 0 uninterrupted (.ok out)
        full 0 ∧
      ReadsOneState plainCompletion.cacheKey uninterrupted out := by
  have hpasses := (completion_intact {} plainCompletion).passesCheck
  have hrun : ∃ out, Amid (amidRefreshes plainCompletion.cacheKey)
      (Broker.readWindow {} plainRequest plainCompletion.cacheKey) full 0 uninterrupted (.ok out)
      full 0 := by
    apply Exists.intro
    refine .own (by decide) (Or.inl ⟨{}, rfl, ?_⟩) ?_
    · simp only [Store.exec, LibraryOp.exec, full_entry]
    refine .own (by decide) (Or.inl ⟨{}, rfl, ?_⟩) ?_
    · exact congrArg (fun n => (Except.ok n, full)) hpasses.counted
    refine .own (by decide) (Or.inl ⟨{}, rfl, ?_⟩) ?_
    · exact congrArg (fun n => (Except.ok n, full)) hpasses.joined
    refine .own (by decide) (Or.inl ⟨{}, rfl, ?_⟩) ?_
    · exact congrArg (fun l => (Except.ok l, full)) hpasses.numbered
    refine .own (by decide) (Or.inl ⟨{}, rfl, rfl⟩) ?_
    exact .ret _ full 0
  rcases hrun with ⟨out, hrun⟩
  refine ⟨out, hrun, window_read_steady _ _ hrun ?_ (steady_of_no_refresh ?_)⟩
  · intro m hm
    simp only [uninterrupted, List.mem_cons, List.not_mem_nil, or_false] at hm
    rcases hm with rfl | rfl | rfl | rfl | rfl
    all_goals exact readableNow_of_completion plainCompletion
  · intro t u v hmem
    simp [uninterrupted] at hmem

/-- The moves of a reader that has read the entry when the window is emptied. -/
def interrupted : List (Move huldra Store) :=
  [.own (.library (.getCacheEntry plainCompletion.cacheKey)) 0
      (.ok (some (completionEntry {} plainCompletion))) full full,
    .other 1 full emptied,
    .own (.library (.matchCount plainCompletion.cacheKey)) 1 (.ok (0 : Nat)) emptied emptied,
    .own (.library (.joinedCount plainCompletion.cacheKey)) 1 (.ok (0 : Nat)) emptied emptied,
    .own (.library (.matchPositions plainCompletion.cacheKey)) 1 (.ok ([] : List Nat)) emptied
      emptied,
    .own (.rate (.recordEvent (.cacheIntegrityFailure plainCompletion.cacheKey
      "match_count_mismatch" 1))) 1 (.ok ()) emptied emptied]

theorem interrupted_run :
    Amid (amidRefreshes plainCompletion.cacheKey)
      (Broker.readWindow {} plainRequest plainCompletion.cacheKey) full 0 interrupted (.ok none)
      emptied 1 := by
  refine .own (by decide) (Or.inl ⟨{}, rfl, ?_⟩) ?_
  · simp only [Store.exec, LibraryOp.exec, full_entry]
  refine .other (by decide) ⟨emptyCompletion, rfl, rfl⟩ ?_
  have hpasses := (completion_intact full.library emptyCompletion).passesCheck
  refine .own (by decide) (Or.inl ⟨{}, rfl, ?_⟩) ?_
  · exact congrArg (fun n => (Except.ok n, emptied)) hpasses.counted
  refine .own (by decide) (Or.inl ⟨{}, rfl, ?_⟩) ?_
  · exact congrArg (fun n => (Except.ok n, emptied)) hpasses.joined
  refine .own (by decide) (Or.inl ⟨{}, rfl, ?_⟩) ?_
  · exact congrArg (fun l => (Except.ok l, emptied)) hpasses.numbered
  refine .own (by decide) (Or.inl ⟨{}, rfl, rfl⟩) ?_
  exact .ret none emptied 1

theorem window_not_read_whole :
    ¬ ∀ (d : Deployment) (request : ArxivRequest) (cacheKey : CacheKey)
        (moves : List (Move huldra Store)) (s s' : Store) (t t' : Int) (out : Option ArxivResult),
      Amid (amidRefreshes cacheKey) (Broker.readWindow d request cacheKey) s t moves (.ok out)
          s' t' →
        (∀ m ∈ moves, ReadableNow cacheKey m.before ∧ ReadableNow cacheKey m.after) →
          ReadsOneState cacheKey moves out := by
  intro h
  have hfull : ReadableNow plainCompletion.cacheKey full :=
    readableNow_of_completion plainCompletion
  have hemptied : ReadableNow plainCompletion.cacheKey emptied :=
    readableNow_of_completion emptyCompletion
  have hreadable : ∀ m ∈ interrupted, ReadableNow plainCompletion.cacheKey m.before ∧
      ReadableNow plainCompletion.cacheKey m.after := by
    intro m hm
    simp only [interrupted, List.mem_cons, List.not_mem_nil, or_false] at hm
    rcases hm with rfl | rfl | rfl | rfl | rfl | rfl
    · exact ⟨hfull, hfull⟩
    · exact ⟨hfull, hemptied⟩
    all_goals exact ⟨hemptied, hemptied⟩
  rcases h _ _ _ _ _ _ _ _ _ interrupted_run hreadable with ⟨result, hnone, _⟩
  cases hnone

end Snapshot
end Huldra
