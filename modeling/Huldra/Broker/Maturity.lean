import Huldra.Broker
import Huldra.Library.AlwaysReadable

/-!
# Maturity — what a caller is shown of an immature window

A caller who asks for `analysis_ready` is not to see papers of a window that is still immature.
`ensure` has many ways to end.  All but one build the result behind the readiness check; the one
that reports how the caller's queue item ended takes the papers from `get_result`, which has none.
-/

namespace Huldra

open Process

namespace Maturity

/-- The window is immature at this time, by the cutoff `_evaluate_readiness` computes. -/
def Immature (request : ArxivRequest) (settings : HuldraSettings) (now : Int) : Prop :=
  ∃ submittedStart submittedEnd, request.submittedStart = some submittedStart ∧
    request.submittedEnd = some submittedEnd ∧
      0 < Broker.maturityLagDays request settings ∧
        Broker.maturityCutoff (Broker.maturityLagDays request settings) now < submittedEnd

/-! ## What the caller has seen -/

/-- Whether the caller has found its queue item ended, and the papers it has read since. -/
structure Seen where
  ended : Bool := false
  shown : List ArxivPaper := []

def Seen.after (x : Seen) : (o : Op) → Except Exn o.Res → Seen
  | .queue (.getQueueItem _), .ok item =>
      { x with ended := x.ended || item.all Broker.queueItemHasTerminalOutcome }
  | .library (.getCachedPapers _), .ok papers =>
      if x.ended then { x with shown := x.shown ++ papers } else x
  | _, _ => x

/-- The caller as long as the window is immature. -/
def caller (request : ArxivRequest) (settings : HuldraSettings) : Discipline huldra Seen where
  allow _ _ := True
  next x o r x' := ∃ t s s', Immature request settings t ∧ Store.Performed o t r s s' ∧
    x' = x.after o r

/-- Everything but a look at the queue item and a read of the papers. -/
def Unseen : Op → Prop
  | .queue (.getQueueItem _) => False
  | .library (.getCachedPapers _) => False
  | _ => True

theorem Seen.after_unseen (x : Seen) {o : Op} (h : Unseen o) (r : Except Exn o.Res) :
    x.after o r = x := by
  unfold Seen.after
  split
  · exact h.elim
  · exact h.elim
  · rfl

section Caller

variable {d : Deployment} {request : ArxivRequest} {x : Seen}

theorem wp_unseen {β : Type} {p : Program β} (h : p.AllOps Unseen) (x : Seen) :
    p.wp (caller request d.settings) (fun x' _ => x' = x) (fun _ _ => True) x := by
  refine Prog.wp_mono (fun _ _ hx => hx) (fun _ _ _ => trivial) _ _
    (h.wp (J := fun x' => x' = x) ?_ x rfl)
  rintro o ho _ rfl
  refine ⟨trivial, ?_⟩
  rintro r _ ⟨t, s, s', _, _, rfl⟩
  exact Seen.after_unseen _ ho r

/-- An operation that is not seen, and what follows it. -/
theorem wp_bind_unseen {β γ : Type} {p : Program β} {f : β → Program γ} {Q : Seen → γ → Prop}
    (h : p.AllOps Unseen)
    (hf : ∀ b, (f b).wp (caller request d.settings) Q (fun _ _ => True) x) :
    (p >>= f).wp (caller request d.settings) Q (fun _ _ => True) x := by
  refine (Prog.wp_bind ..).2 (Prog.wp_mono ?_ (fun _ _ h => h) _ _ (wp_unseen h x))
  rintro x' b rfl
  exact hf b

theorem wp_bind_of {β γ : Type} {p : Program β} {f : β → Program γ} {Q : Seen → γ → Prop}
    {T : Seen → β → Prop}
    (hp : p.wp (caller request d.settings) T (fun _ _ => True) x)
    (hf : ∀ x' b, T x' b → (f b).wp (caller request d.settings) Q (fun _ _ => True) x') :
    (p >>= f).wp (caller request d.settings) Q (fun _ _ => True) x :=
  (Prog.wp_bind ..).2 (Prog.wp_mono hf (fun _ _ h => h) _ _ hp)

/-! ## The store's methods -/

theorem unseen_getReadableCompletedCache (cacheKey : CacheKey) :
    (getReadableCompletedCache cacheKey).AllOps Unseen := by
  refine .bind (.call trivial) fun entry => ?_
  split
  · trivial
  · split
    · trivial
    · refine .bind ?_ fun reason => ?_
      · refine .bind (.call trivial) fun _ => .bind (.call trivial) fun _ =>
          .bind (.call trivial) fun _ => ?_
        split
        · trivial
        · split
          · trivial
          · split <;> trivial
      · split
        · trivial
        · exact .bind (.call trivial) fun _ => trivial

theorem unseen_getPapersByIds (ids : List String) : (getPapersByIds ids).AllOps Unseen := by
  unfold getPapersByIds
  split
  · trivial
  · exact .call trivial

theorem unseen_recordCompletedCacheEntry (cacheKey : CacheKey) (papers : List ArxivPaper)
    (total : Option Nat) (status : Int) (count : Nat) :
    (recordCompletedCacheEntry cacheKey request papers total status count).AllOps Unseen :=
  .bind (.call trivial) fun _ => .bind (.call trivial) fun _ => .call trivial

theorem unseen_timeSleep (duration : Int) : (timeSleep duration).AllOps Unseen :=
  .bind (.call trivial) fun _ => .call trivial

/-! ## Behind the readiness check -/

/-- While the window is immature the check does not find it ready. -/
theorem wp_evaluateReadiness (himmature : ∃ now, Immature request d.settings now) :
    (Broker.evaluateReadiness request d.settings).wp (caller request d.settings)
      (fun x' readiness => x' = x ∧ readiness.analysisReady = false) (fun _ _ => True) x := by
  rcases himmature with ⟨_, submittedStart, submittedEnd, hstart, hend, hlag, _⟩
  simp only [Broker.evaluateReadiness, hstart, hend, Int.not_le.2 hlag, if_false]
  refine (Prog.wp_bind ..).2 ((Prog.wp_call ..).2 ⟨trivial, ?_, fun _ _ _ => trivial⟩)
  rintro now _ ⟨t, s, s', himmature, hp, rfl⟩
  refine ⟨rfl, ?_⟩
  -- The clock that the check reads shows a time of the call.
  rcases hp.of_ok with ⟨_, _, hexec⟩
  simp only [Store.exec, ClockOp.exec, Prod.mk.injEq, Except.ok.injEq] at hexec
  rcases himmature with ⟨_, _, _, hend', _, hlt⟩
  cases hend.symm.trans hend'
  simpa [← hexec.1] using hlt

/-- A result built behind the check shows no papers, and the papers read for it were not read for a
caller whose item has ended. -/
theorem wp_resultFromCompletedCache (himmature : ∃ now, Immature request d.settings now)
    (hready : request.readiness = .analysisReady) (cacheKey : CacheKey) (entry : CacheEntry)
    (requestId : Option Uuid) (hx : x.ended = false) :
    (Broker.resultFromCompletedCache d request cacheKey entry requestId).wp
      (caller request d.settings) (fun x' result => x' = x ∧ result.papers = [])
      (fun _ _ => True) x := by
  unfold Broker.resultFromCompletedCache
  refine (Prog.wp_bind ..).2 ((Prog.wp_call ..).2 ⟨trivial, ?_, fun _ _ _ => trivial⟩)
  rintro papers _ ⟨t, s, s', _, _, rfl⟩
  have hkept : x.after (.library (.getCachedPapers cacheKey)) (.ok papers) = x := by
    simp [Seen.after, hx]
  rw [hkept]
  refine wp_bind_of (wp_evaluateReadiness himmature) ?_
  rintro _ readiness ⟨rfl, hnot⟩
  refine ⟨rfl, ?_⟩
  simp [hready, hnot]

theorem wp_tryComposeCachedIdList (himmature : ∃ now, Immature request d.settings now)
    (hready : request.readiness = .analysisReady) (cacheKey : CacheKey) (hx : x.ended = false) :
    (Broker.tryComposeCachedIdList d request cacheKey).wp (caller request d.settings)
      (fun x' out => x' = x ∧ ∀ result, out = some result → result.papers = [])
      (fun _ _ => True) x := by
  have hnone : ∀ result : ArxivResult, none = some result → result.papers = [] := by
    intro result h
    cases h
  unfold Broker.tryComposeCachedIdList
  split
  · exact ⟨rfl, hnone⟩
  · refine wp_bind_unseen (unseen_getPapersByIds _) fun papersById => ?_
    dsimp only
    split
    · exact ⟨rfl, hnone⟩
    · refine wp_bind_unseen (unseen_recordCompletedCacheEntry ..) fun _ => ?_
      refine wp_bind_unseen (unseen_getReadableCompletedCache cacheKey) fun entry => ?_
      split
      · trivial
      · refine wp_bind_of (wp_resultFromCompletedCache himmature hready _ _ _ hx) ?_
        rintro _ result ⟨rfl, hpapers⟩
        refine ⟨rfl, ?_⟩
        rintro _ ⟨⟩
        exact hpapers

/-- Revalidating adds to the result, but no papers. -/
theorem wp_serveWhileRevalidating (cacheKey : CacheKey) (result : ArxivResult) :
    (Broker.serveWhileRevalidating d request cacheKey result).wp (caller request d.settings)
      (fun x' served => x' = x ∧ served.papers = result.papers) (fun _ _ => True) x := by
  unfold Broker.serveWhileRevalidating
  refine wp_bind_unseen (.bind (.call trivial) fun _ => .call trivial) fun queued => ?_
  split
  · exact ⟨rfl, rfl⟩
  · exact wp_bind_unseen (.call trivial) fun reserved => ⟨rfl, rfl⟩

/-! ## Waiting -/

/-- `get_result` shows what it reads. -/
theorem wp_getResult (cacheKey : CacheKey) (hx : x.ended = true) (hshown : x.shown = []) :
    (Broker.getResult cacheKey).wp (caller request d.settings)
      (fun x' raw => raw.papers = x'.shown) (fun _ _ => True) x := by
  unfold Broker.getResult
  refine wp_bind_unseen (.call trivial) fun entry => ?_
  split
  · exact hshown.symm
  · split
    · refine wp_bind_unseen (unseen_getReadableCompletedCache cacheKey) fun readable => ?_
      split
      · exact hshown.symm
      · refine (Prog.wp_bind ..).2 ((Prog.wp_call ..).2 ⟨trivial, ?_, fun _ _ _ => trivial⟩)
        rintro papers _ ⟨t, s, s', _, _, rfl⟩
        simp [Seen.after, hx, hshown]
    · exact hshown.symm

@[simp] theorem resultFromTerminalRawState_papers (raw : ArxivRawInspectionResult)
    (requestId : Uuid) (item : Option QueueItem) :
    (Broker.resultFromTerminalRawState request raw requestId item).papers = raw.papers := by
  cases item with
  | none => rfl
  | some item => rfl

/-- How a round ends: with another one from where it began, or with a result that shows the papers
read since the item was found ended. -/
def RoundEnds (x : Seen) : Option ArxivResult → Prop
  | none => x = {}
  | some result => result.papers = x.shown

/-- A round, once the cache is read. -/
theorem wp_lookedRound (himmature : ∃ now, Immature request d.settings now)
    (hready : request.readiness = .analysisReady) (cacheKey : CacheKey) (requestId : Uuid)
    (readable : Option CacheEntry) :
    Prog.wp (caller request d.settings) RoundEnds (fun _ _ => True)
      (match readable with
        | some readable => do
            let result ← Broker.resultFromCompletedCache d request cacheKey readable
              (some requestId)
            pure (some result)
        | none => do
            let item ← getQueueItem requestId
            if item.all Broker.queueItemHasTerminalOutcome then do
              let raw ← Broker.getResult cacheKey
              pure (some (Broker.resultFromTerminalRawState request raw requestId item))
            else pure none) {} := by
  split
  · refine wp_bind_of (wp_resultFromCompletedCache himmature hready _ _ _ rfl) ?_
    rintro _ result ⟨rfl, hpapers⟩
    exact hpapers
  · refine (Prog.wp_bind ..).2 ((Prog.wp_call ..).2 ⟨trivial, ?_, fun _ _ _ => trivial⟩)
    rintro item _ ⟨t, s, s', _, _, rfl⟩
    split
    case isTrue hended =>
      refine wp_bind_of (wp_getResult cacheKey (by simp [Seen.after, hended]) rfl) ?_
      intro x' raw hpapers
      simpa [RoundEnds] using hpapers
    case isFalse hpending =>
      have hsame : ({} : Seen).after (.queue (.getQueueItem requestId)) (.ok item) = {} := by
        simp [Seen.after, hpending]
      exact hsame

theorem wp_waitRound (himmature : ∃ now, Immature request d.settings now)
    (hready : request.readiness = .analysisReady) (cacheKey : CacheKey) (requestId : Uuid) :
    (Broker.waitRound d request cacheKey requestId).wp (caller request d.settings) RoundEnds
      (fun _ _ => True) {} := by
  unfold Broker.waitRound
  refine wp_bind_unseen (.call trivial) fun entry => ?_
  split
  · exact rfl
  · dsimp only
    split
    · exact wp_bind_unseen (unseen_getReadableCompletedCache cacheKey)
        (wp_lookedRound himmature hready cacheKey requestId)
    · exact wp_lookedRound himmature hready cacheKey requestId none

theorem wp_waitRounds (himmature : ∃ now, Immature request d.settings now)
    (hready : request.readiness = .analysisReady) (cacheKey : CacheKey) (requestId : Uuid)
    (timeout deadline : Timeout) (rounds : Nat) :
    (Broker.waitRounds d request cacheKey requestId timeout deadline rounds).wp
      (caller request d.settings) (fun x' result => result.papers = x'.shown) (fun _ _ => True)
      {} := by
  induction rounds with
  | zero => trivial
  | succ rounds ih =>
      unfold Broker.waitRounds
      refine wp_bind_unseen (.call trivial) fun now => ?_
      split
      · refine wp_bind_of (wp_waitRound himmature hready cacheKey requestId) ?_
        intro x' out hends
        split
        · exact hends
        · cases hends
          exact wp_bind_unseen (unseen_timeSleep _) fun _ => ih
      · rfl

/-! ## The whole call -/

/-- The answer to a request that has been queued. -/
theorem wp_answerQueued (himmature : ∃ now, Immature request d.settings now)
    (hready : request.readiness = .analysisReady) (cacheKey : CacheKey) (item : QueueItem)
    (coolingDown : Option Int) :
    Prog.wp (caller request d.settings) (fun x' result => result.papers = x'.shown)
      (fun _ _ => True)
      (match coolingDown with
        | some cooldown => (pure
            { servingMode := request.readiness
              status := "cooling_down"
              cacheKey := cacheKey
              requestId := some item.requestId
              queuedAt := some item.createdAt
              cooldownUntil := some cooldown
              blockedReason := some "cooldown" } : Program ArxivResult)
        | none =>
            if request.cachePolicy = .waitUntilReady then
              Broker.waitUntilReady d request cacheKey item.requestId
            else
              pure
                { servingMode := request.readiness
                  status := "queued"
                  cacheKey := cacheKey
                  requestId := some item.requestId
                  queuedAt := some item.createdAt }) {} := by
  split
  · rfl
  · split
    · exact wp_bind_unseen (.call trivial) fun started =>
        wp_waitRounds himmature hready cacheKey _ _ _ _
    · rfl

theorem wp_enqueueMissing (himmature : ∃ now, Immature request d.settings now)
    (hready : request.readiness = .analysisReady) (cacheKey : CacheKey) :
    (Broker.enqueueMissing d request cacheKey).wp (caller request d.settings)
      (fun x' result => result.papers = x'.shown) (fun _ _ => True) {} := by
  unfold Broker.enqueueMissing
  refine wp_bind_unseen (.bind (.call trivial) fun _ => .call trivial) fun queued => ?_
  refine wp_bind_unseen (.call trivial) fun rate => ?_
  dsimp only
  split
  · exact wp_answerQueued himmature hready cacheKey queued.1 none
  · exact wp_bind_unseen (.call trivial) fun now =>
      wp_answerQueued himmature hready cacheKey queued.1 _

theorem wp_ensure (himmature : ∃ now, Immature request d.settings now)
    (hready : request.readiness = .analysisReady) :
    (Broker.ensure d request).wp (caller request d.settings)
      (fun x' result => result.papers = x'.shown) (fun _ _ => True) {} := by
  unfold Broker.ensure
  refine wp_bind_unseen (unseen_getReadableCompletedCache _) fun cached => ?_
  split
  · refine wp_bind_of (wp_resultFromCompletedCache himmature hready _ _ _ rfl) ?_
    rintro _ result ⟨rfl, hpapers⟩
    split
    · refine Prog.wp_mono ?_ (fun _ _ h => h) _ _ (wp_serveWhileRevalidating _ result)
      rintro _ served ⟨rfl, hserved⟩
      exact hserved.trans hpapers
    · exact hpapers
  · refine wp_bind_of (wp_tryComposeCachedIdList himmature hready _ rfl) ?_
    rintro _ composed ⟨rfl, hcomposed⟩
    split
    · exact hcomposed _ rfl
    · split
      · rfl
      · exact wp_enqueueMissing himmature hready _

end Caller

/-! ## Runs -/

/-- Among these moves the caller found its queue item gone, ended, or delayed by the limiter. -/
def ItemEnded (moves : List (Move huldra Store)) : Prop :=
  ∃ requestId t item s s', item.all Broker.queueItemHasTerminalOutcome = true ∧
    Move.own (I := huldra) (.queue (.getQueueItem requestId)) t (.ok item) s s' ∈ moves

/-- Whenever the caller reads the papers after it has found its item ended, none are cached. -/
def NothingCachedAtEnd (moves : List (Move huldra Store)) : Prop :=
  ∀ earlier cacheKey t papers s s' later,
    moves = earlier ++ .own (.library (.getCachedPapers cacheKey)) t (.ok papers) s s' :: later →
      ItemEnded earlier → s.library.getCachedPapers cacheKey = []

/-- What the view says of the moves it was read off. -/
structure Stands (x : Seen) (past : List (Move huldra Store)) : Prop where
  ended : x.ended = true ↔ ItemEnded past
  shown : x.shown = [] ↔ NothingCachedAtEnd past

theorem itemEnded_append {past : List (Move huldra Store)} {m : Move huldra Store} :
    ItemEnded (past ++ [m]) ↔ ItemEnded past ∨ ItemEnded [m] := by
  constructor
  · rintro ⟨requestId, t, item, s, s', hended, hmem⟩
    rcases List.mem_append.1 hmem with hmem | hmem
    · exact Or.inl ⟨requestId, t, item, s, s', hended, hmem⟩
    · exact Or.inr ⟨requestId, t, item, s, s', hended, hmem⟩
  · rintro (⟨requestId, t, item, s, s', hended, hmem⟩ | ⟨requestId, t, item, s, s', hended, hmem⟩)
    · exact ⟨requestId, t, item, s, s', hended, List.mem_append_left _ hmem⟩
    · exact ⟨requestId, t, item, s, s', hended, List.mem_append_right _ hmem⟩

/-- One move more: the condition is about the reads so far, and this one. -/
theorem nothingCachedAtEnd_append {past : List (Move huldra Store)} {m : Move huldra Store} :
    NothingCachedAtEnd (past ++ [m]) ↔ NothingCachedAtEnd past ∧
      ∀ cacheKey t papers s s',
        m = .own (.library (.getCachedPapers cacheKey)) t (.ok papers) s s' →
        ItemEnded past → s.library.getCachedPapers cacheKey = [] := by
  constructor
  · intro h
    refine ⟨?_, ?_⟩
    · intro earlier cacheKey t papers s s' later hpast
      refine h earlier cacheKey t papers s s' (later ++ [m]) ?_
      simp [hpast]
    · intro cacheKey t papers s s' hm
      exact h past cacheKey t papers s s' [] (by rw [hm])
  · rintro ⟨hpast, hlast⟩ earlier cacheKey t papers s s' later heq hended
    rcases List.eq_nil_or_concat later with rfl | ⟨init, last, rfl⟩
    · rcases List.append_inj' heq rfl with ⟨rfl, hm⟩
      exact hlast cacheKey t papers s s' (List.singleton_inj.1 hm) hended
    · refine hpast earlier cacheKey t papers s s' init ?_ hended
      have hsplit : past ++ [m] =
          (earlier ++ .own (.library (.getCachedPapers cacheKey)) t (.ok papers) s s' :: init) ++
            [last] := by
        simpa using heq
      exact (List.append_inj' hsplit rfl).1

theorem not_itemEnded_of_ne {m : Move huldra Store}
    (h : ∀ requestId t item s s', m ≠ .own (.queue (.getQueueItem requestId)) t (.ok item) s s') :
    ¬ ItemEnded [m] := by
  rintro ⟨requestId, t, item, s, s', _, hmem⟩
  exact h requestId t item s s' (List.mem_singleton.1 hmem).symm

/-- A move that is neither a look at the item nor a read of the papers leaves the view. -/
theorem Stands.keep {x : Seen} {past : List (Move huldra Store)} {m : Move huldra Store}
    (h : Stands x past)
    (hitem : ∀ requestId t item s s', m ≠ .own (.queue (.getQueueItem requestId)) t (.ok item) s s')
    (hpapers : ∀ cacheKey t papers s s',
      m ≠ .own (.library (.getCachedPapers cacheKey)) t (.ok papers) s s') :
    Stands x (past ++ [m]) := by
  refine ⟨?_, ?_⟩
  · simp [itemEnded_append, not_itemEnded_of_ne hitem, h.ended]
  · simp only [nothingCachedAtEnd_append, h.shown]
    refine ⟨fun hpast => ⟨hpast, ?_⟩, And.left⟩
    intro cacheKey t papers s s' hm
    exact absurd hm (hpapers cacheKey t papers s s')

theorem Stands.own {x : Seen} {past : List (Move huldra Store)} (h : Stands x past) {o : Op}
    {t : Int} {r : Except Exn o.Res} {s s' : Store} (hp : Store.Performed o t r s s') :
    Stands (x.after o r) (past ++ [.own o t r s s']) := by
  unfold Seen.after
  split
  case h_1 requestId item =>
    refine ⟨?_, ?_⟩
    · simp only [Bool.or_eq_true, itemEnded_append, h.ended]
      refine or_congr_right
        ⟨fun hended => ⟨_, _, item, _, _, hended, List.mem_singleton_self _⟩, ?_⟩
      rintro ⟨_, _, _, _, _, hended, hmem⟩
      cases List.mem_singleton.1 hmem
      exact hended
    · simp only [nothingCachedAtEnd_append, h.shown]
      refine ⟨fun hpast => ⟨hpast, ?_⟩, And.left⟩
      intro cacheKey t papers s s' hm
      cases hm
  case h_2 cacheKey papers =>
    have hanswer : papers = s.library.getCachedPapers cacheKey := by
      rcases hp.of_ok with ⟨input, _, hexec⟩
      simp only [Store.exec, LibraryOp.exec, Prod.mk.injEq, Except.ok.injEq] at hexec
      exact hexec.1.symm
    have hitem : ¬ ItemEnded [.own (.library (.getCachedPapers cacheKey)) t (.ok papers) s s'] := by
      refine not_itemEnded_of_ne ?_
      intro requestId t item s s' hm
      cases hm
    split
    case isTrue hended =>
      refine ⟨?_, ?_⟩
      · simp [itemEnded_append, hitem, h.ended]
      · simp only [List.append_eq_nil_iff, nothingCachedAtEnd_append, h.shown]
        refine and_congr_right fun _ => ⟨?_, ?_⟩
        · rintro hnone _ _ _ _ _ ⟨⟩ _
          rw [← hanswer, hnone]
        · intro hread
          rw [hanswer]
          exact hread cacheKey t papers s s' rfl (h.ended.1 hended)
    case isFalse hnot =>
      refine ⟨?_, ?_⟩
      · simp [itemEnded_append, hitem, h.ended]
      · simp only [nothingCachedAtEnd_append, h.shown]
        refine ⟨fun hpast => ⟨hpast, ?_⟩, And.left⟩
        intro _ _ _ _ _ _ hended
        exact absurd (h.ended.2 hended) hnot
  case h_3 hitem hpapers =>
    refine h.keep ?_ ?_
    · rintro requestId _ item _ _ ⟨⟩
      exact hitem requestId item rfl HEq.rfl
    · rintro cacheKey _ papers _ _ ⟨⟩
      exact hpapers cacheKey papers rfl HEq.rfl

theorem tracks_caller (request : ArxivRequest) (settings : HuldraSettings)
    (others : Int → Store → Store → Prop) :
    Tracks ((Store.among others).given (Immature request settings)) (caller request settings)
      fun x past _ _ => Stands x past where
  own := by
    rintro x past s t o t' r s' hx _ _ ⟨himmature, hp⟩
    exact ⟨x.after o r, ⟨t', s, s', himmature, hp, rfl⟩, hx.own hp⟩
  other := by
    intro x past s t t' s' hx _ _
    refine hx.keep ?_ ?_
    · intro _ _ _ _ _ hm
      cases hm
    · intro _ _ _ _ _ hm
      cases hm

theorem stands_nil : Stands {} [] := by
  refine ⟨?_, ?_⟩
  · refine ⟨nofun, ?_⟩
    rintro ⟨_, _, _, _, _, _, hmem⟩
    cases hmem
  · refine ⟨?_, fun _ => rfl⟩
    intro _ earlier _ _ _ _ _ later heq
    simp at heq

/-- A caller of `ensure` who asks for analysis-ready papers of a window that is immature all
through the call is shown none, exactly if none are cached whenever it reads them after it has
found its queue item ended. -/
theorem immature_papers_withheld_iff (d : Deployment) (request : ArxivRequest)
    {others : Int → Store → Store → Prop} {s s' : Store} {t t' : Int}
    {moves : List (Move huldra Store)} {result : ArxivResult}
    (hrun : Amid (Store.among others) (Broker.ensure d request) s t moves (.ok result) s' t')
    (hready : request.readiness = .analysisReady)
    (himmature : ∀ time, t ≤ time → time ≤ t' → Immature request d.settings time) :
    result.papers = [] ↔ NothingCachedAtEnd moves := by
  have htimes := hrun.time_le
  have hgiven := hrun.given fun m hm => himmature m.time (htimes.2 m hm).1 (htimes.2 m hm).2
  have hwp := wp_ensure (d := d) ⟨t, himmature t (Int.le_refl t) htimes.1⟩ hready
  rcases (tracks_caller request d.settings others).post hgiven {} [] hwp stands_nil with
    ⟨x, hstands, hpapers⟩
  have hshown : result.papers = x.shown := hpapers
  rw [hshown]
  simpa using hstands.shown

/-! ## A completion that comes after the item has ended -/

/-- What a worker does to a cache key and to its queue items. -/
def OfWorkers (cacheKey : CacheKey) : Op → Prop
  | .library (.recordCompletedCacheEntry w) => w.cacheKey = cacheKey
  | .library (.recordCacheFailure w) => w.cacheKey = cacheKey
  | .queue _ => True
  | _ => False

/-- Workers and other callers on the same cache key. -/
def workers (cacheKey : CacheKey) (t : Int) (s s' : Store) : Prop :=
  ∃ o r, OfWorkers cacheKey o ∧ Store.Performed o t r s s'

/-- A window that ends a day after the epoch, and is mature a day later. -/
def lateRequest : ArxivRequest :=
  { clientId := "c"
    searchQuery := some "all:x"
    submittedStart := some 0
    submittedEnd := some Broker.microsecondsPerDay
    cachePolicy := .waitUntilReady
    readiness := .analysisReady
    maturityLagDays := some 1
    timeoutSeconds := some (1000000 : Int) }

theorem lateRequest_immature : ∀ time, 0 ≤ time → time ≤ 0 → Immature lateRequest {} time := by
  intro time hle hge
  have htime : time = 0 := by omega
  subst htime
  exact ⟨0, Broker.microsecondsPerDay, rfl, rfl, by decide, by decide⟩

def lateKey : CacheKey :=
  Keys.requestCacheKey lateRequest

def lateCompletion : LibraryTables.CompletedCacheWrite :=
  { plainCompletion with
    cacheKey := lateKey
    request := lateRequest }

def lateFailure : LibraryTables.CacheFailureWrite :=
  { plainFailure with
    cacheKey := lateKey
    request := lateRequest
    requestedAt := 0 }

/-- The store where the caller's request is queued. -/
def queued : Store :=
  (Store.exec (.queue (.enqueueRequestForWork lateRequest lateKey .fetchMissing none
    ({} : Deployment).settings.requestTimeoutSeconds 0)) 0 {} {}).2

/-- A worker has recorded that the fetch failed, … -/
def failureRecorded : Store :=
  { queued with library := queued.library.recordCacheFailure lateFailure }

/-- … and that the item has failed. -/
def itemFailed : Store :=
  (Store.exec (.queue (.releaseOrDelayQueueItem 0 none (some "failed") none .failed 0)) 0 {}
    failureRecorded).2

/-- The caller has looked at the item. -/
def itemSeen : Store :=
  (Store.exec (.queue (.getQueueItem 0)) 0 {} itemFailed).2

/-- Another worker has fetched the window. -/
def completedAgain : Store :=
  { itemSeen with library := itemSeen.library.recordCompletedCacheEntry lateCompletion }

/-- In no time, among the workers, the program can lead from `s` to `s'` with such a result. -/
def CanReturn {β : Type} (p : Program β) (s : Store) (Q : β → Prop) (s' : Store) : Prop :=
  ∃ moves b, Amid (Store.among (workers lateKey)) p s 0 moves (.ok b) s' 0 ∧ Q b

namespace CanReturn

variable {β : Type} {p : Program β} {Q : β → Prop} {s s' s'' : Store}

theorem ret {b : β} (h : Q b) : CanReturn (.ret b) s Q s :=
  ⟨[], b, .ret b s 0, h⟩

theorem own (s' : Store) {o : Op} {k : Except Exn o.Res → Program β} {r : Except Exn o.Res}
    (hexec : Store.exec o 0 {} s = (r, s')) (hready : Store.ready o 0 = true) :
    CanReturn (k r) s' Q s'' → CanReturn (.op o k) s Q s'' := by
  rintro ⟨moves, b, hrun, hQ⟩
  exact ⟨_, b, .own (Int.le_refl 0) (Or.inl ⟨{}, hready, hexec⟩) hrun, hQ⟩

theorem other (s' : Store) (o : Op) {r : Except Exn o.Res} (hworkers : OfWorkers lateKey o)
    (hexec : Store.exec o 0 {} s = (r, s')) (hready : Store.ready o 0 = true) :
    CanReturn p s' Q s'' → CanReturn p s Q s'' := by
  rintro ⟨moves, b, hrun, hQ⟩
  exact ⟨_, b, .other (Int.le_refl 0) ⟨o, r, hworkers, Or.inl ⟨{}, hready, hexec⟩⟩ hrun, hQ⟩

end CanReturn

/-- The caller finds its item failed, and is shown the papers of the completion that follows. -/
theorem late_completion_shown :
    CanReturn (Broker.ensure {} lateRequest) {}
      (fun result => result.papers = completedAgain.library.getCachedPapers lateKey)
      completedAgain := by
  have hentry : completedAgain.library.cacheEntryOf? lateKey =
      some (LibraryTables.completionEntry itemSeen.library lateCompletion) :=
    LibraryTables.cacheEntryOf?_recordCompletedCacheEntry itemSeen.library lateCompletion
  have hpasses := (LibraryTables.completion_intact itemSeen.library lateCompletion).passesCheck
  have hread : Store.exec (.library (.getCacheEntry lateKey)) 0 {} completedAgain =
      (.ok (some (LibraryTables.completionEntry itemSeen.library lateCompletion)),
        completedAgain) := by
    simp only [Store.exec, LibraryOp.exec, hentry]
  -- Nothing is cached: the request is queued, and the caller starts to wait.
  refine .own {} rfl rfl ?_
  refine .own {} rfl rfl ?_
  refine .own queued rfl rfl ?_
  refine .own queued rfl rfl ?_
  refine .own queued rfl rfl ?_
  refine .own queued rfl rfl ?_
  -- The fetch fails, and the caller sees it.
  refine .other failureRecorded (.library (.recordCacheFailure lateFailure)) rfl rfl rfl ?_
  refine .other itemFailed
    (.queue (.releaseOrDelayQueueItem 0 none (some "failed") none .failed 0)) trivial rfl rfl ?_
  refine .own itemFailed rfl rfl ?_
  refine .own itemSeen rfl rfl ?_
  -- A completion comes before the caller reads the result.
  refine .other completedAgain (.library (.recordCompletedCacheEntry lateCompletion)) rfl rfl rfl ?_
  refine .own completedAgain hread rfl ?_
  refine .own completedAgain hread rfl ?_
  refine .own completedAgain
    (congrArg (fun n => (Except.ok n, completedAgain)) hpasses.counted) rfl ?_
  refine .own completedAgain
    (congrArg (fun n => (Except.ok n, completedAgain)) hpasses.joined) rfl ?_
  refine .own completedAgain
    (congrArg (fun l => (Except.ok l, completedAgain)) hpasses.numbered) rfl ?_
  refine .own completedAgain rfl rfl ?_
  exact .ret rfl

theorem completedAgain_papers : completedAgain.library.getCachedPapers lateKey ≠ [] := by
  decide

/-- Papers of an immature window are shown. -/
theorem immature_papers_shown :
    ¬ ∀ (d : Deployment) (request : ArxivRequest) (s s' : Store) (t t' : Int)
        (moves : List (Move huldra Store)) (result : ArxivResult),
      Amid (Store.among (workers (Keys.requestCacheKey request))) (Broker.ensure d request) s t
        moves
          (.ok result) s' t' →
        request.readiness = .analysisReady →
          (∀ time, t ≤ time → time ≤ t' → Immature request d.settings time) →
            result.papers = [] := by
  intro h
  rcases late_completion_shown with ⟨moves, result, hrun, hpapers⟩
  have hnone := h _ _ _ _ _ _ _ _ hrun rfl lateRequest_immature
  exact completedAgain_papers (hpapers.symm.trans hnone)

theorem late_completion_withheld_iff :
    ∃ moves result, Amid (Store.among (workers lateKey)) (Broker.ensure {} lateRequest) {} 0 moves
        (.ok result) completedAgain 0 ∧ (result.papers = [] ↔ NothingCachedAtEnd moves) := by
  rcases late_completion_shown with ⟨moves, result, hrun, _⟩
  exact ⟨moves, result, hrun,
    immature_papers_withheld_iff _ _ hrun rfl lateRequest_immature⟩

end Maturity

end Huldra
