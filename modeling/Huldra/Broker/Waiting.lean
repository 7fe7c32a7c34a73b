import Huldra.Broker

/-!
# Waiting — a caller that waits comes back

`_wait_until_ready` looks at the store until its deadline.  Every round that does not end the wait
sleeps for an interval, so where there is a deadline the rounds the model gives it are enough,
whatever the others do.
-/

namespace Huldra

open Process

namespace Waiting

/-- A clock that does not go back; the abstract state is the latest time the caller knows of. -/
def clocked : Discipline huldra Int where
  allow _ _ := True
  next x o r x' := x ≤ x' ∧ ∃ s s', Store.Performed o x' r s s'

theorem tracks_clocked (others : Int → Store → Store → Prop) :
    Tracks (Store.among others) clocked fun x _ _ t => x ≤ t where
  own := by
    intro x past s t o t' r s' hx _ ht hp
    exact ⟨t', ⟨by omega, s, s', hp⟩, Int.le_refl t'⟩
  other := by
    intro x past s t t' s' hx ht _
    exact Int.le_trans hx ht

/-! ## Programs that raise nothing of their own -/

/-- The program takes some time, and raises nothing but faults. -/
def Patient {β : Type} (p : Program β) : Prop :=
  ∀ x, p.wp clocked (fun x' _ => x ≤ x') (fun _ e => Store.fault e = true) x

namespace Patient

variable {β γ : Type}

theorem ret (b : β) : Patient (.ret b) :=
  fun x => Int.le_refl x

theorem bind {p : Program β} {f : β → Program γ} (hp : Patient p) (hf : ∀ b, Patient (f b)) :
    Patient (p >>= f) := by
  intro x
  refine (Prog.wp_bind ..).2 (Prog.wp_mono ?_ (fun _ _ h => h) _ _ (hp x))
  intro x' b hx
  refine Prog.wp_mono ?_ (fun _ _ h => h) _ _ (hf b x')
  intro x'' c hx'
  exact Int.le_trans hx hx'

theorem perform {o : Op} (h : ∀ t input s, ∃ b, (Store.exec o t input s).1 = .ok b) :
    Patient (perform o) := by
  intro x
  refine (Prog.wp_call ..).2 ⟨trivial, fun b x' hnext => hnext.1, ?_⟩
  rintro e x' ⟨_, s, s', ⟨input, _, hexec⟩ | ⟨e', hfault, he, _⟩⟩
  · rcases h x' input s with ⟨b, hb⟩
    rw [hexec] at hb
    cases hb
  · cases he
    exact hfault

theorem utcNow : Patient utcNow :=
  perform fun t _ _ => ⟨t, rfl⟩

theorem read {o : LibraryOp} (h : ∀ l, ∃ b, (o.exec l).1 = .ok b) :
    Patient (Huldra.perform (.library o)) :=
  perform fun _ _ s => h s.library

theorem getCacheEntry (cacheKey : CacheKey) : Patient (getCacheEntry cacheKey) :=
  read fun _ => ⟨_, rfl⟩

theorem getReadableCompletedCache (cacheKey : CacheKey) :
    Patient (getReadableCompletedCache cacheKey) := by
  refine .bind (getCacheEntry cacheKey) fun entry => ?_
  split
  · exact .ret _
  · split
    · exact .ret _
    · refine .bind ?_ fun reason => ?_
      · refine .bind (read fun _ => ⟨_, rfl⟩) fun _ => .bind (read fun _ => ⟨_, rfl⟩) fun _ =>
          .bind (read fun _ => ⟨_, rfl⟩) fun _ => ?_
        split
        · exact .ret _
        · split
          · exact .ret _
          · split
            · exact .ret _
            · exact .ret _
      · split
        · exact .ret _
        · exact .bind (perform fun _ _ _ => ⟨_, rfl⟩) fun _ => .ret _

theorem evaluateReadiness (request : ArxivRequest) (settings : HuldraSettings) :
    Patient (Broker.evaluateReadiness request settings) := by
  unfold Broker.evaluateReadiness
  split
  · dsimp only
    split
    · exact .ret _
    · exact .bind utcNow fun _ => .ret _
  · exact .ret _

theorem resultFromCompletedCache (d : Deployment) (request : ArxivRequest) (cacheKey : CacheKey)
    (entry : CacheEntry) (requestId : Option Uuid) :
    Patient (Broker.resultFromCompletedCache d request cacheKey entry requestId) :=
  .bind (read fun _ => ⟨_, rfl⟩) fun _ => .bind (evaluateReadiness request d.settings) fun _ =>
    .ret _

theorem getResult (cacheKey : CacheKey) : Patient (Broker.getResult cacheKey) := by
  refine .bind (getCacheEntry cacheKey) fun entry => ?_
  split
  · exact .ret _
  · split
    · refine .bind (getReadableCompletedCache cacheKey) fun readable => ?_
      split
      · exact .ret _
      · exact .bind (read fun _ => ⟨_, rfl⟩) fun _ => .ret _
    · exact .ret _

theorem waitRound (d : Deployment) (request : ArxivRequest) (cacheKey : CacheKey)
    (requestId : Uuid) : Patient (Broker.waitRound d request cacheKey requestId) := by
  refine .bind (getCacheEntry cacheKey) fun entry => ?_
  split
  · exact .ret _
  · dsimp only
    split
    all_goals
      refine .bind (by first | exact getReadableCompletedCache cacheKey | exact .ret _)
        fun readable => ?_
      split
      · exact .bind (resultFromCompletedCache d request cacheKey _ _) fun _ => .ret _
      · refine .bind (perform fun _ _ _ => ⟨_, rfl⟩) fun item => ?_
        split
        · exact .bind (getResult cacheKey) fun _ => .ret _
        · exact .ret _

end Patient

/-! ## The rounds -/

theorem wp_utcNow_clocked (x : Int) :
    utcNow.wp clocked (fun x' now => x ≤ x' ∧ x' = now) (fun _ e => Store.fault e = true) x := by
  refine (Prog.wp_call ..).2 ⟨trivial, ?_, ((Prog.wp_call ..).1 (Patient.utcNow x)).2.2⟩
  rintro now x' ⟨hle, s, s', hp⟩
  rcases hp.of_ok with ⟨_, _, hexec⟩
  simp only [Store.exec, ClockOp.exec, Prod.mk.injEq, Except.ok.injEq] at hexec
  exact ⟨hle, hexec.1⟩

/-- A sleep takes its time. -/
theorem wp_timeSleep (duration x : Int) :
    (timeSleep duration).wp clocked (fun x' _ => x + duration ≤ x')
      (fun _ e => Store.fault e = true) x := by
  have hfaulty : ∀ {o : Op} {e : Exn} {x x' : Int},
      (∀ t input s, ∃ b, (Store.exec o t input s).1 = .ok b) →
        clocked.next x o (.error e) x' → Store.fault e = true := by
    intro o e x x' hanswers hnext
    exact ((Prog.wp_call ..).1 (Patient.perform hanswers x)).2.2 e x' hnext
  refine (Prog.wp_bind ..).2 ((Prog.wp_call ..).2 ⟨trivial, ?_, fun e x' => hfaulty fun _ _ _ =>
    ⟨_, rfl⟩⟩)
  rintro wakeAt x₁ ⟨hle, s, s', hp⟩
  have hanswer : wakeAt = x₁ + duration := by
    rcases hp.of_ok with ⟨_, _, hexec⟩
    simp only [Store.exec, ClockOp.exec, Prod.mk.injEq, Except.ok.injEq] at hexec
    exact hexec.1.symm
  refine (Prog.wp_call ..).2 ⟨trivial, ?_, fun e x' => hfaulty fun _ _ _ => ⟨_, rfl⟩⟩
  rintro _ x₂ ⟨_, u, u', hp⟩
  rcases hp.of_ok with ⟨_, hready, _⟩
  have hwake : x₁ + duration ≤ x₂ := by
    simpa [Store.ready, hanswer] using hready
  omega

/-- With a round for every interval that is left, the wait ends by the deadline. -/
theorem wp_waitRounds_enough (d : Deployment) (request : ArxivRequest) (cacheKey : CacheKey)
    (requestId : Uuid) (timeout : Timeout) (deadline : Int) (rounds : Nat) :
    ∀ x, deadline ≤ x + rounds * Broker.waitInterval timeout →
      (Broker.waitRounds d request cacheKey requestId timeout deadline (rounds + 1)).wp clocked
        (fun _ _ => True) (fun _ e => Store.fault e = true) x := by
  induction rounds with
  | zero =>
      intro x hx
      unfold Broker.waitRounds
      refine (Prog.wp_bind ..).2 (Prog.wp_mono ?_ (fun _ _ h => h) _ _ (wp_utcNow_clocked x))
      rintro now _ ⟨hle, rfl⟩
      rw [if_neg]
      · trivial
      · rw [WithTop.coe_lt_coe]
        omega
  | succ rounds ih =>
      intro x hx
      unfold Broker.waitRounds
      refine (Prog.wp_bind ..).2 (Prog.wp_mono ?_ (fun _ _ h => h) _ _ (wp_utcNow_clocked x))
      rintro now _ ⟨hle, rfl⟩
      split
      · refine (Prog.wp_bind ..).2 (Prog.wp_mono ?_ (fun _ _ h => h) _ _
          (Patient.waitRound d request cacheKey requestId now))
        intro x₁ result hx₁
        split
        · trivial
        · refine (Prog.wp_bind ..).2 (Prog.wp_mono ?_ (fun _ _ h => h) _ _ (wp_timeSleep _ x₁))
          intro x₂ _ hx₂
          refine ih x₂ ?_
          rw [Int.natCast_succ, Int.add_mul, Int.one_mul] at hx
          omega
      · trivial

theorem waitInterval_pos (timeout : Int) : 0 < Broker.waitInterval timeout := by
  have hinterval : Broker.waitInterval timeout = min 100000 (max 10000 (timeout / 50)) := rfl
  omega

/-- Whatever the others do, a caller that waits for a finite time is given a result, unless the
store fails. -/
theorem waitUntilReady_ends (d : Deployment) (request : ArxivRequest) (cacheKey : CacheKey)
    (requestId : Uuid) {timeout : Int}
    (htimeout : request.timeoutSeconds.getD d.settings.requestTimeoutSeconds = timeout)
    {others : Int → Store → Store → Prop} {s s' : Store} {t t' : Int}
    {moves : List (Move huldra Store)} {out : Except Exn ArxivResult}
    (hrun : Amid (Store.among others) (Broker.waitUntilReady d request cacheKey requestId) s t moves
      out s' t') :
    (∃ result, out = .ok result) ∨ ∃ e, Store.fault e = true ∧ out = .error e := by
  have hwp : (Broker.waitUntilReady d request cacheKey requestId).wp clocked (fun _ _ => True)
      (fun _ e => Store.fault e = true) t := by
    unfold Broker.waitUntilReady
    refine (Prog.wp_bind ..).2 (Prog.wp_mono ?_ (fun _ _ h => h) _ _ (wp_utcNow_clocked t))
    rintro started _ ⟨_, rfl⟩
    rw [htimeout]
    refine wp_waitRounds_enough d request cacheKey requestId timeout (started + timeout)
      _ started ?_
    have hpos := waitInterval_pos timeout
    have hdiv := Int.lt_mul_ediv_self_add (x := timeout) hpos
    have hnat : timeout / Broker.waitInterval timeout ≤
        ((timeout / Broker.waitInterval timeout).toNat : Int) := Int.self_le_toNat _
    have hmul := Int.mul_le_mul_of_nonneg_left hnat (Int.le_of_lt hpos)
    rw [Int.natCast_succ, Int.add_mul, Int.one_mul, Int.mul_comm]
    omega
  rcases (tracks_clocked others).post hrun t [] hwp (Int.le_refl t) with ⟨x, _, hends⟩
  cases out with
  | ok result => exact Or.inl ⟨result, rfl⟩
  | error e => exact Or.inr ⟨e, hends, rfl⟩

end Waiting

end Huldra
