import Huldra.Process.System

/-!
# View — reading a discipline off the history

A `view` of a process is what an observer of the history knows about it: which lease it holds,
which item it has claimed, which checks it has passed.  If every client's program keeps a
discipline in the view it starts with, and the discipline predicts how the view moves, then in
every run each operation was allowed in the view its process had at that moment.  This is the
bridge from the text of the programs (`wp`, proved once for each client) to facts about whole
interleaved runs.
-/

namespace Huldra
namespace Process

variable {I : Interface} {X : Type}

namespace Prog

/-- Every path of the program keeps the discipline, however it ends. -/
def Keeps {β : Type} (D : Discipline I X) (p : Prog I β) (x : X) : Prop :=
  p.wp D (fun _ _ => True) (fun _ _ => True) x

theorem keeps_of_wp {β : Type} {D : Discipline I X} {Q : X → β → Prop} {R : X → I.Exn → Prop}
    {p : Prog I β} {x : X} (h : p.wp D Q R x) : p.Keeps D x :=
  wp_mono (fun _ _ _ => trivial) (fun _ _ _ => trivial) p x h

end Prog

namespace System

variable {S : System I}

/-- The view moves as the discipline says, in every run in which `Given` holds throughout. -/
structure Follows (D : Discipline I X) (view : Nat → History S → X)
    (Given : History S → Event S → Prop) : Prop where
  started : ∀ pre e c, Legal pre e → Given pre e → e.action = .start c →
    (S.program c e.pid).Keeps D (view e.pid (e :: pre))
  stepped : ∀ pre e o r, Legal pre e → Given pre e → e.action = .op o r →
    D.next (view e.pid pre) o r (view e.pid (e :: pre))
  others : ∀ pre e p, Legal pre e → Given pre e → p ≠ e.pid → view p (e :: pre) = view p pre

/-- Each operation of the history was allowed, and each process keeps to the discipline. -/
def Disciplined (D : Discipline I X) (view : Nat → History S → X) (pre : History S)
    (e : Event S) : Prop :=
  (∀ o r, e.action = .op o r → D.allow (view e.pid pre) o) ∧
    ∀ p prog, e.procs p = some prog → prog.Keeps D (view p pre)

namespace Follows

variable {D : Discipline I X} {view : Nat → History S → X}
  {Given : History S → Event S → Prop}

/-- What holds of a run so far, for the induction over its steps: where a process has ended with a
result, `Q` holds of its view and the result. -/
private structure Kept (D : Discipline I X) (view : Nat → History S → X)
    (Q : Nat → X → S.Out → Prop) (c : Config S) : Prop where
  keeps : ∀ p prog, c.procs p = some prog →
    prog.wp D (Q p) (fun _ _ => True) (view p c.history)
  disciplined : Throughout (Disciplined D view) c.history
  ended : Throughout (fun pre e => ∀ p out, e.procs p = some (.ret out) → Q p (view p pre) out)
    c.history

private theorem kept_record (hF : Follows D view Given) {Q : Nat → X → S.Out → Prop}
    {c : Config S} (ih : Kept D view Q c)
    (pid : Nat) (a : Action S) (p' : Option (Prog I S.Out)) (state : S.State)
    (hlegal : Throughout Legal (c.record pid a p' state).history)
    (hgiven : Throughout Given (c.record pid a p' state).history)
    (hallow : ∀ o r, a = .op o r → D.allow (view pid c.history) o)
    (hself : ∀ prog, p' = some prog →
      prog.wp D (Q pid) (fun _ _ => True) (view pid (c.record pid a p' state).history)) :
    Kept D view Q (c.record pid a p' state) := by
  have hkeeps : ∀ p prog, c.procs p = some prog → prog.Keeps D (view p c.history) :=
    fun p prog hp => Prog.keeps_of_wp (ih.keeps p prog hp)
  refine ⟨?_, ⟨⟨hallow, hkeeps⟩, ih.disciplined⟩, ⟨fun p out hp => ih.keeps p _ hp, ih.ended⟩⟩
  intro p prog hp
  by_cases hpid : p = pid
  · subst hpid
    have hp' : p' = some prog := by
      simpa [Config.record] using hp
    exact hself prog hp'
  · have hold : c.procs p = some prog := by
      simpa [Config.record, hpid] using hp
    have hview := hF.others _ _ p hlegal.head hgiven.head hpid
    have hkept := ih.keeps p prog hold
    rw [← hview] at hkept
    exact hkept

private theorem kept_step (hF : Follows D view Given) {Q : Nat → X → S.Out → Prop}
    (hstarted : ∀ pre e c, Legal pre e → Given pre e → e.action = .start c →
      (S.program c e.pid).wp D (Q e.pid) (fun _ _ => True) (view e.pid (e :: pre)))
    (c : Config S) (ch : Config.Choice S)
    (hc : c.Explained) (ih : Kept D view Q c)
    (hgiven : Throughout Given (c.step ch).history) : Kept D view Q (c.step ch) := by
  have hexp := (Config.explained_step c ch hc).legal
  rcases Config.step_cases c ch with ⟨d, heq⟩ | ⟨pid, client, heq⟩ |
    ⟨pid, o, k, r, s', hproc, _, heq⟩ | ⟨pid, heq⟩
  · rw [heq]
    exact ⟨ih.keeps, ih.disciplined, ih.ended⟩
  · rw [heq] at hgiven hexp ⊢
    refine hF.kept_record ih pid _ _ _ hexp hgiven ?_ ?_
    · intro o r ha
      cases ha
    · intro prog hprog
      cases hprog
      exact hstarted _ _ client hexp.head hgiven.head rfl
  · rw [heq] at hgiven hexp ⊢
    have hwp := ih.keeps pid _ hproc
    refine hF.kept_record ih pid _ _ _ hexp hgiven ?_ ?_
    · intro o' r' ha
      cases ha
      exact hwp.1
    · intro prog hprog
      cases hprog
      exact hwp.2 _ _ (hF.stepped _ _ _ _ hexp.head hgiven.head rfl)
  · rw [heq] at hgiven hexp ⊢
    refine hF.kept_record ih pid _ _ _ hexp hgiven ?_ ?_
    · intro o r ha
      cases ha
    · intro prog hprog
      cases hprog

private theorem given_of_step {c : Config S} {ch : Config.Choice S}
    (hgiven : Throughout Given (c.step ch).history) : Throughout Given c.history := by
  rcases Config.step_cases c ch with ⟨d, heq⟩ | ⟨pid, client, heq⟩ |
    ⟨pid, o, k, r, s', _, _, heq⟩ | ⟨pid, heq⟩
  · rw [heq] at hgiven
    exact hgiven
  all_goals
    rw [heq] at hgiven
    exact hgiven.tail

private theorem kept_after (hF : Follows D view Given) {Q : Nat → X → S.Out → Prop}
    (hstarted : ∀ pre e c, Legal pre e → Given pre e → e.action = .start c →
      (S.program c e.pid).wp D (Q e.pid) (fun _ _ => True) (view e.pid (e :: pre)))
    (sched : List (Config.Choice S))
    (hgiven : Throughout Given (Config.after S sched).history) :
    Kept D view Q (Config.after S sched) := by
  have key : (Config.after S sched).Explained ∧
      (Throughout Given (Config.after S sched).history → Kept D view Q (Config.after S sched)) := by
    refine @Config.after_induction I S
      (fun c => c.Explained ∧ (Throughout Given c.history → Kept D view Q c)) ?_ ?_ sched
    · refine ⟨⟨trivial, rfl, Int.le_refl _⟩, ?_⟩
      intro _
      refine ⟨?_, trivial, trivial⟩
      intro p prog hp
      cases hp
    · rintro c ch ⟨hc, ih⟩
      refine ⟨Config.explained_step c ch hc, ?_⟩
      intro hg
      exact hF.kept_step hstarted c ch hc (ih (given_of_step hg)) hg
  exact key.2 hgiven

/-- Every run in which `Given` holds throughout keeps the discipline throughout. -/
theorem disciplined_after (hF : Follows D view Given) (sched : List (Config.Choice S))
    (hgiven : Throughout Given (Config.after S sched).history) :
    Throughout (Disciplined D view) (Config.after S sched).history :=
  (hF.kept_after (Q := fun _ _ _ => True) hF.started sched hgiven).disciplined

/-- What the programs end with, every process that has returned has ended with. -/
theorem ended_after (hF : Follows D view Given) {Q : Nat → X → S.Out → Prop}
    (hstarted : ∀ pre e c, Legal pre e → Given pre e → e.action = .start c →
      (S.program c e.pid).wp D (Q e.pid) (fun _ _ => True) (view e.pid (e :: pre)))
    (sched : List (Config.Choice S))
    (hgiven : Throughout Given (Config.after S sched).history) :
    (∀ p out, (Config.after S sched).procs p = some (.ret out) →
        Q p (view p (Config.after S sched).history) out) ∧
      Throughout (fun pre e => ∀ p out, e.procs p = some (.ret out) → Q p (view p pre) out)
        (Config.after S sched).history := by
  have hkept := hF.kept_after hstarted sched hgiven
  exact ⟨fun p out hp => hkept.keeps p _ hp, hkept.ended⟩

end Follows

/-! ## Monitors -/

/-- A view that keeps no time has not run ahead. -/
theorem no_time : (0 : Int) ≤ 0 := Int.le_refl 0

/-- A view that only looks at the process's own events, as they pass. -/
structure Monitor (S : System I) (X : Type) where
  initial : Nat → X
  start : X → S.Client → Int → X
  step : X → (o : I.Op) → I.Answer o → Int → X
  crash : X → X
  /-- A time the process has reached, as far as the view knows. -/
  clock : X → Int
  clock_initial : ∀ pid, clock (initial pid) ≤ 0
  clock_start : ∀ x c t, clock x ≤ t → clock (start x c t) ≤ t
  clock_step : ∀ x o r t, clock x ≤ t → clock (step x o r t) ≤ t
  clock_crash : ∀ x, clock (crash x) ≤ clock x

namespace Monitor

variable (M : Monitor S X)

/-- What the monitor of one process makes of a history. -/
def view (pid : Nat) : History S → X
  | [] => M.initial pid
  | e :: pre =>
      if e.pid = pid then
        match e.action with
        | .start c => M.start (view pid pre) c e.time
        | .op o r => M.step (view pid pre) o r e.time
        | .crash => M.crash (view pid pre)
      else view pid pre

theorem view_of_ne {e : Event S} {pid : Nat} (pre : History S) (h : e.pid ≠ pid) :
    M.view pid (e :: pre) = M.view pid pre := by
  simp [view, h]

theorem view_of_start {e : Event S} {c : S.Client} (pre : History S) (h : e.action = .start c) :
    M.view e.pid (e :: pre) = M.start (M.view e.pid pre) c e.time := by
  simp [view, h]

theorem view_of_op {e : Event S} {o : I.Op} {r : I.Answer o} (pre : History S)
    (h : e.action = .op o r) :
    M.view e.pid (e :: pre) = M.step (M.view e.pid pre) o r e.time := by
  simp [view, h]

theorem view_of_crash {e : Event S} (pre : History S) (h : e.action = .crash) :
    M.view e.pid (e :: pre) = M.crash (M.view e.pid pre) := by
  simp [view, h]

/-- The discipline of a monitored process: `allow` says what it may ask for. -/
def discipline (allow : X → I.Op → Prop) : Discipline I X where
  allow := allow
  next x o r x' := ∃ t s s', M.clock x ≤ t ∧ Executed S o t r s s' ∧ x' = M.step x o r t

/-- A monitor never runs ahead of the history. -/
theorem clock_view_le {h : History S} (pid : Nat) (hlegal : Throughout Legal h) :
    M.clock (M.view pid h) ≤ lastTime h := by
  induction h with
  | nil => exact M.clock_initial pid
  | cons e pre ih =>
      have hpre := Int.le_trans (ih hlegal.tail) hlegal.head.time_le
      by_cases hpid : e.pid = pid
      · subst hpid
        cases ha : e.action with
        | start c =>
            rw [M.view_of_start pre ha]
            exact M.clock_start _ c e.time hpre
        | op o r =>
            rw [M.view_of_op pre ha]
            exact M.clock_step _ o r e.time hpre
        | crash =>
            rw [M.view_of_crash pre ha]
            exact Int.le_trans (M.clock_crash _) hpre
      · rw [M.view_of_ne pre hpid]
        exact hpre

/-- What every run keeps of a monitor's views, for the programs to start from. -/
structure Kept (J : Nat → X → Prop) : Prop where
  initial : ∀ pid, J pid (M.initial pid)
  start : ∀ pid x c t, J pid x → J pid (M.start x c t)
  step : ∀ pid x o r t, J pid x → J pid (M.step x o r t)
  crash : ∀ pid x, J pid x → J pid (M.crash x)

theorem Kept.view {J : Nat → X → Prop} (hJ : M.Kept J) (pid : Nat) (h : History S) :
    J pid (M.view pid h) := by
  induction h with
  | nil => exact hJ.initial pid
  | cons e pre ih =>
      by_cases hpid : e.pid = pid
      · subst hpid
        cases ha : e.action with
        | start c =>
            rw [M.view_of_start pre ha]
            exact hJ.start _ _ c e.time ih
        | op o r =>
            rw [M.view_of_op pre ha]
            exact hJ.step _ _ o r e.time ih
        | crash =>
            rw [M.view_of_crash pre ha]
            exact hJ.crash _ _ ih
      · rw [M.view_of_ne pre hpid]
        exact ih

/-- The view of a monitor moves as its discipline says; of the past it needs to know only that it
was legal. -/
private theorem follows {allow : X → I.Op → Prop} {J : Nat → X → Prop} (hJ : M.Kept J)
    (hkeeps : ∀ pid x c t, J pid x → M.clock x ≤ t →
      (S.program c pid).Keeps (M.discipline allow) (M.start x c t)) :
    Follows (M.discipline allow) M.view (fun pre _ => Throughout Legal pre) := by
  refine ⟨?_, ?_, ?_⟩
  · intro pre e c hlegal hpast ha
    rw [M.view_of_start pre ha]
    exact hkeeps e.pid _ c e.time (hJ.view M e.pid pre)
      (Int.le_trans (M.clock_view_le e.pid hpast) hlegal.time_le)
  · intro pre e o r hlegal hpast ha
    have hclock := Int.le_trans (M.clock_view_le e.pid hpast) hlegal.time_le
    exact ⟨e.time, e.before, e.after, hclock, hlegal.executed ha, M.view_of_op pre ha⟩
  · intro pre e p _ _ hp
    exact M.view_of_ne pre (Ne.symm hp)

/-- If every client keeps the discipline from its start, every run keeps it throughout. -/
theorem disciplined_after {allow : X → I.Op → Prop} {J : Nat → X → Prop} (hJ : M.Kept J)
    (hkeeps : ∀ pid x c t, J pid x → M.clock x ≤ t →
      (S.program c pid).Keeps (M.discipline allow) (M.start x c t))
    (sched : List (Config.Choice S)) :
    Throughout (Disciplined (M.discipline allow) M.view) (Config.after S sched).history :=
  (M.follows hJ hkeeps).disciplined_after sched
    ((Config.legal_after S sched).with_past.mono fun _ _ h => h.2)

/-- If every client ends with `Q` from its start, every process that has returned has, at any time
of the run. -/
theorem ended_after {allow : X → I.Op → Prop} {J : Nat → X → Prop} (hJ : M.Kept J)
    {Q : Nat → X → S.Out → Prop}
    (hends : ∀ pid x c t, J pid x → M.clock x ≤ t →
      (S.program c pid).wp (M.discipline allow) (Q pid) (fun _ _ => True) (M.start x c t))
    (sched : List (Config.Choice S)) :
    (∀ p out, (Config.after S sched).procs p = some (.ret out) →
        Q p (M.view p (Config.after S sched).history) out) ∧
      Throughout (fun pre e => ∀ p out, e.procs p = some (.ret out) → Q p (M.view p pre) out)
        (Config.after S sched).history := by
  refine (M.follows hJ fun pid x c t hx ht => Prog.keeps_of_wp (hends pid x c t hx ht)).ended_after
    ?_ sched ((Config.legal_after S sched).with_past.mono fun _ _ h => h.2)
  intro pre e c hlegal hpast ha
  rw [M.view_of_start pre ha]
  exact hends e.pid _ c e.time (hJ.view M e.pid pre)
    (Int.le_trans (M.clock_view_le e.pid hpast) hlegal.time_le)

end Monitor

end System

end Process
end Huldra
