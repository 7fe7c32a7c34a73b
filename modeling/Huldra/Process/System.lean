import Huldra.Process.Wp

/-!
# System — clients interleaved over one shared state

A `System` runs any number of clients over one state.  Each operation is atomic; between two
operations of a client any other client may run, time may pass, an operation may raise in place
of its answer (before or after it took effect), and a client may stop for good.  A schedule picks
what happens next, so a statement about every schedule is a statement about every interleaving.

What happened is kept in the `History`, newest event first.  Properties of runs are stated over
the history: `Throughout P h` says that every event of `h` stands in the relation `P` to the
events before it.
-/

namespace Huldra
namespace Process

variable {I : Interface}

structure System (I : Interface) where
  State : Type
  /-- What the outside world supplies to an operation: a server's response, a random number. -/
  Input : Type
  Client : Type
  Out : Type
  init : State
  exec : (o : I.Op) → Int → Input → State → I.Answer o × State
  /-- An operation that waits for a time is not run before it. -/
  ready : I.Op → Int → Bool
  /-- The exceptions that can come from outside the code, at any operation. -/
  faults : I.Exn → Bool
  program : Client → Nat → Prog I Out

namespace System

variable {S : System I}

inductive Action (S : System I) where
  | start (c : S.Client)
  | op (o : I.Op) (answer : I.Answer o)
  | crash

/-- One step of one process, with the state on both sides of it. -/
structure Event (S : System I) where
  pid : Nat
  time : Int
  action : Action S
  /-- What every process was about to do. -/
  procs : Nat → Option (Prog I S.Out)
  before : S.State
  after : S.State

/-- The events so far, newest first. -/
abbrev History (S : System I) := List (Event S)

structure Config (S : System I) where
  state : S.State
  now : Int
  procs : Nat → Option (Prog I S.Out)
  history : History S

/-- What the schedule may pick. -/
inductive Config.Choice (S : System I) where
  | tick (d : Nat)
  | start (pid : Nat) (c : S.Client)
  | run (pid : Nat) (input : S.Input)
  | fault (pid : Nat) (e : I.Exn) (committed : Bool) (input : S.Input)
  | crash (pid : Nat)

/-- Replace the program of one process. -/
def setProc (procs : Nat → Option (Prog I S.Out)) (pid : Nat) (p : Option (Prog I S.Out)) :
    Nat → Option (Prog I S.Out) :=
  fun q => if q = pid then p else procs q

@[simp] theorem setProc_self (procs : Nat → Option (Prog I S.Out)) (pid : Nat)
    (p : Option (Prog I S.Out)) : setProc procs pid p pid = p := by
  simp [setProc]

@[simp] theorem setProc_of_ne (procs : Nat → Option (Prog I S.Out)) {pid q : Nat}
    (p : Option (Prog I S.Out)) (h : q ≠ pid) : setProc procs pid p q = procs q := by
  simp [setProc, h]

namespace Config

def initial (S : System I) : Config S :=
  { state := S.init, now := 0, procs := fun _ => none, history := [] }

/-- Append one event and take over its outcome. -/
def record (c : Config S) (pid : Nat) (a : Action S) (p : Option (Prog I S.Out))
    (state : S.State) : Config S :=
  { state := state
    now := c.now
    procs := setProc c.procs pid p
    history :=
      { pid := pid, time := c.now, action := a, procs := c.procs,
        before := c.state, after := state } :: c.history }

/-- A choice that does not apply (to start a running process, to run a finished one) is skipped. -/
def step (c : Config S) : Choice S → Config S
  | .tick d => { c with now := c.now + d }
  | .start pid client =>
      match c.procs pid with
      | some (.op _ _) => c
      | _ => c.record pid (.start client) (some (S.program client pid)) c.state
  | .run pid input =>
      match c.procs pid with
      | some (.op o k) =>
          if S.ready o c.now then
            let out := S.exec o c.now input c.state
            c.record pid (.op o out.1) (some (k out.1)) out.2
          else c
      | _ => c
  | .fault pid e committed input =>
      match c.procs pid with
      | some (.op o k) =>
          if S.faults e then
            c.record pid (.op o (.error e)) (some (k (.error e)))
              (if committed then (S.exec o c.now input c.state).2 else c.state)
          else c
      | _ => c
  | .crash pid =>
      match c.procs pid with
      | some (.op _ _) => c.record pid .crash none c.state
      | _ => c

/-- Follow a schedule. -/
def run (c : Config S) (sched : List (Choice S)) : Config S :=
  sched.foldl step c

/-- The run of a schedule from the start. -/
def after (S : System I) (sched : List (Choice S)) : Config S :=
  (initial S).run sched

/-- A property of the start that every step preserves holds wherever a schedule leads. -/
theorem run_induction {Inv : Config S → Prop} (hstep : ∀ c ch, Inv c → Inv (c.step ch))
    (sched : List (Choice S)) : ∀ c, Inv c → Inv (c.run sched) := by
  induction sched with
  | nil =>
      intro c h
      exact h
  | cons ch rest ih =>
      intro c h
      exact ih (c.step ch) (hstep c ch h)

theorem after_induction {Inv : Config S → Prop} (hinit : Inv (initial S))
    (hstep : ∀ c ch, Inv c → Inv (c.step ch)) (sched : List (Choice S)) :
    Inv (after S sched) :=
  run_induction hstep sched _ hinit

/-- A property of the state that every operation keeps, whether it answers or raises. -/
theorem state_after {Inv : S.State → Prop} (hinit : Inv S.init)
    (hexec : ∀ o t input s, Inv s → Inv (S.exec o t input s).2) (sched : List (Choice S)) :
    Inv (after S sched).state := by
  refine @after_induction I S (fun c => Inv c.state) hinit (fun c ch h => ?_) sched
  cases ch with
  | tick d => exact h
  | start pid client =>
      simp only [step]
      split
      · exact h
      · exact h
  | run pid input =>
      simp only [step]
      split
      · split
        · exact hexec _ c.now input c.state h
        · exact h
      · exact h
  | fault pid e committed input =>
      simp only [step]
      split
      · split
        · simp only [record]
          split
          · exact hexec _ c.now input c.state h
          · exact h
        · exact h
      · exact h
  | crash pid =>
      simp only [step]
      split
      · exact h
      · exact h

end Config

/-! ## Histories -/

/-- Every event of the history is in the relation `P` to the events before it. -/
def Throughout (P : History S → Event S → Prop) : History S → Prop
  | [] => True
  | e :: pre => P pre e ∧ Throughout P pre

instance Throughout.decidable (P : History S → Event S → Prop) [∀ pre e, Decidable (P pre e)] :
    ∀ h, Decidable (Throughout P h)
  | [] => isTrue trivial
  | e :: pre =>
      match (inferInstance : Decidable (P pre e)), Throughout.decidable P pre with
      | isTrue he, isTrue hpre => isTrue ⟨he, hpre⟩
      | isFalse he, _ => isFalse fun h => he h.1
      | _, isFalse hpre => isFalse fun h => hpre h.2

namespace Throughout

variable {P Q : History S → Event S → Prop}

theorem head {e : Event S} {pre : History S} (h : Throughout P (e :: pre)) : P pre e := h.1

theorem tail {e : Event S} {pre : History S} (h : Throughout P (e :: pre)) : Throughout P pre := h.2

theorem mono (hPQ : ∀ pre e, P pre e → Q pre e) {h : History S} :
    Throughout P h → Throughout Q h := by
  induction h with
  | nil => exact id
  | cons e pre ih =>
      intro hP
      exact ⟨hPQ pre e hP.1, ih hP.2⟩

theorem and {h : History S} (hP : Throughout P h) (hQ : Throughout Q h) :
    Throughout (fun pre e => P pre e ∧ Q pre e) h := by
  induction h with
  | nil => trivial
  | cons e pre ih => exact ⟨⟨hP.1, hQ.1⟩, ih hP.2 hQ.2⟩

/-- The invariant rule: what holds of the empty history and is kept by every event in the
relation `P` holds of the whole history. -/
theorem invariant {Inv : History S → Prop} (hnil : Inv [])
    (hstep : ∀ pre e, Inv pre → P pre e → Inv (e :: pre)) {h : History S} :
    Throughout P h → Inv h := by
  induction h with
  | nil =>
      intro _
      exact hnil
  | cons e pre ih =>
      intro hP
      exact hstep pre e (ih hP.2) hP.1

/-- What the invariant and the relation `P` give at each event holds throughout. -/
theorem of_invariant {Inv : History S → Prop} (hnil : Inv [])
    (hstep : ∀ pre e, Inv pre → P pre e → Inv (e :: pre))
    (hQ : ∀ pre e, Inv pre → P pre e → Q pre e) {h : History S} :
    Throughout P h → Throughout Q h := by
  induction h with
  | nil =>
      intro _
      trivial
  | cons e pre ih =>
      intro hP
      exact ⟨hQ pre e (invariant hnil hstep hP.2) hP.1, ih hP.2⟩

theorem of_mem {e : Event S} {h : History S} (hP : Throughout P h) (he : e ∈ h) :
    ∃ pre post, h = post ++ e :: pre ∧ Throughout P pre ∧ P pre e := by
  induction h with
  | nil => cases he
  | cons a pre ih =>
      rcases List.mem_cons.1 he with rfl | hmem
      · exact ⟨pre, [], rfl, hP.2, hP.1⟩
      · rcases ih hP.2 hmem with ⟨pre', post, rfl, hpre, hpe⟩
        exact ⟨pre', a :: post, rfl, hpre, hpe⟩

/-- Each event may also look back on all that was known of its past. -/
theorem with_past {h : History S} :
    Throughout P h → Throughout (fun pre e => P pre e ∧ Throughout P pre) h := by
  induction h with
  | nil => exact id
  | cons e pre ih =>
      intro hP
      exact ⟨hP, ih hP.2⟩

theorem append_right {post pre : History S} (h : Throughout P (post ++ pre)) :
    Throughout P pre := by
  induction post with
  | nil => exact h
  | cons e post ih => exact ih h.2

end Throughout

/-- The shared state once the events of `h` have happened. -/
def stateAfter : History S → S.State
  | [] => S.init
  | e :: _ => e.after

/-- The time of the newest event. -/
def lastTime : History S → Int
  | [] => 0
  | e :: _ => e.time

/-- What one operation can do: answer as `exec` says, or raise with or without its effect. -/
def Executed (S : System I) (o : I.Op) (t : Int) (r : I.Answer o) (s s' : S.State) : Prop :=
  (∃ input, S.ready o t = true ∧ S.exec o t input s = (r, s')) ∨
    (∃ e, S.faults e = true ∧ r = .error e ∧ (s' = s ∨ ∃ input, s' = (S.exec o t input s).2))

/-- Everything a step can do: let time pass, start a process, run its next operation, or stop it. -/
theorem Config.step_cases (c : Config S) (ch : Config.Choice S) :
    (∃ d : Nat, c.step ch = { c with now := c.now + d }) ∨
    (∃ pid client,
      c.step ch = c.record pid (.start client) (some (S.program client pid)) c.state) ∨
    (∃ pid o k r s', c.procs pid = some (.op o k) ∧ Executed S o c.now r c.state s' ∧
      c.step ch = c.record pid (.op o r) (some (k r)) s') ∨
    (∃ pid, c.step ch = c.record pid .crash none c.state) := by
  have hquiet : c = { c with now := c.now + (0 : Nat) } := by
    simp
  cases ch with
  | tick d => exact Or.inl ⟨d, rfl⟩
  | start pid client =>
      simp only [Config.step]
      split
      · exact Or.inl ⟨0, hquiet⟩
      · exact Or.inr (Or.inl ⟨pid, client, rfl⟩)
  | run pid input =>
      simp only [Config.step]
      split
      · rename_i o k hproc
        split
        · rename_i hready
          exact Or.inr (Or.inr (Or.inl
            ⟨pid, o, k, _, _, hproc, Or.inl ⟨input, hready, rfl⟩, rfl⟩))
        · exact Or.inl ⟨0, hquiet⟩
      · exact Or.inl ⟨0, hquiet⟩
  | fault pid e committed input =>
      simp only [Config.step]
      split
      · rename_i o k hproc
        split
        · rename_i hfault
          refine Or.inr (Or.inr (Or.inl
            ⟨pid, o, k, .error e, _, hproc, Or.inr ⟨e, hfault, rfl, ?_⟩, rfl⟩))
          cases committed with
          | true => exact Or.inr ⟨input, rfl⟩
          | false => exact Or.inl rfl
        · exact Or.inl ⟨0, hquiet⟩
      · exact Or.inl ⟨0, hquiet⟩
  | crash pid =>
      simp only [Config.step]
      split
      · exact Or.inr (Or.inr (Or.inr ⟨pid, rfl⟩))
      · exact Or.inl ⟨0, hquiet⟩

/-- The relation every event of a run has to the events before it. -/
structure Legal (pre : History S) (e : Event S) : Prop where
  before_eq : e.before = stateAfter pre
  time_le : lastTime pre ≤ e.time
  action : match e.action with
    | .op o r => Executed S o e.time r e.before e.after
    | _ => e.after = e.before

namespace Legal

theorem after_eq_of_start {pre : History S} {e : Event S} (h : Legal pre e) {c : S.Client}
    (ha : e.action = .start c) : e.after = e.before := by
  have := h.action
  rw [ha] at this
  exact this

theorem after_eq_of_crash {pre : History S} {e : Event S} (h : Legal pre e)
    (ha : e.action = .crash) : e.after = e.before := by
  have := h.action
  rw [ha] at this
  exact this

theorem executed {pre : History S} {e : Event S} (h : Legal pre e) {o : I.Op} {r : I.Answer o}
    (ha : e.action = .op o r) : Executed S o e.time r e.before e.after := by
  have := h.action
  rw [ha] at this
  exact this

end Legal

/-- The history of a configuration is legal and explains its state. -/
structure Config.Explained (c : Config S) : Prop where
  legal : Throughout Legal c.history
  state_eq : c.state = stateAfter c.history
  time_le : lastTime c.history ≤ c.now

namespace Config

theorem explained_record {c : Config S} (h : c.Explained) (pid : Nat) (a : Action S)
    (p : Option (Prog I S.Out)) (state : S.State)
    (ha : match a with
      | .op o r => Executed S o c.now r c.state state
      | _ => state = c.state) :
    (c.record pid a p state).Explained :=
  { legal := ⟨⟨h.state_eq, h.time_le, ha⟩, h.legal⟩
    state_eq := rfl
    time_le := Int.le_refl _ }

theorem explained_step (c : Config S) (ch : Choice S) (h : c.Explained) :
    (c.step ch).Explained := by
  rcases step_cases c ch with ⟨d, heq⟩ | ⟨pid, client, heq⟩ | ⟨pid, o, k, r, s', _, hexec, heq⟩ |
    ⟨pid, heq⟩
  · rw [heq]
    exact ⟨h.legal, h.state_eq, by have := h.time_le; simp only; omega⟩
  · rw [heq]
    exact explained_record h pid _ _ _ rfl
  · rw [heq]
    exact explained_record h pid _ _ _ hexec
  · rw [heq]
    exact explained_record h pid _ _ _ rfl

theorem explained_after (S : System I) (sched : List (Choice S)) : (after S sched).Explained :=
  after_induction ⟨trivial, rfl, Int.le_refl _⟩ explained_step sched

/-- Every run has a legal history. -/
theorem legal_after (S : System I) (sched : List (Choice S)) :
    Throughout Legal (after S sched).history :=
  (explained_after S sched).legal

end Config

end System

end Process
end Huldra
