import Huldra.Process.Wp
import Huldra.Process.View

/-!
# Trace — what a client did before it returned

The operations that a client has asked for leave marks, by the answers they got.  `Traced` says of a
program which traces it may leave when it returns or raises; the rules compose along the program,
and a client of a system that has returned has left such a trace.
-/

namespace Huldra
namespace Process

variable {I : Interface} {M β γ : Type}

namespace Prog

/-- Every operation satisfies `P`, and every path leaves a trace as `Q` or `R` says. -/
def Traced (P : I.Op → Prop) (mark : (o : I.Op) → I.Answer o → List M) :
    Prog I β → (β → List M → Prop) → (I.Exn → List M → Prop) → Prop
  | .ret b, Q, _ => Q b []
  | .raise e, _, R => R e []
  | .op o k, Q, R => P o ∧ ∀ r, (k r).Traced P mark (fun b trace => Q b (mark o r ++ trace))
      fun e trace => R e (mark o r ++ trace)

namespace Traced

variable {P : I.Op → Prop} {mark : (o : I.Op) → I.Answer o → List M}

/-- The rule of consequence. -/
theorem mono {p : Prog I β} {Q Q' : β → List M → Prop} {R R' : I.Exn → List M → Prop}
    (h : p.Traced P mark Q R) (hQ : ∀ b trace, Q b trace → Q' b trace)
    (hR : ∀ e trace, R e trace → R' e trace) : p.Traced P mark Q' R' := by
  induction p generalizing Q Q' R R' with
  | ret b => exact hQ b [] h
  | raise e => exact hR e [] h
  | op o k ih =>
      exact ⟨h.1, fun r => ih r (h.2 r) (fun b trace => hQ b _) fun e trace => hR e _⟩

/-- The rule of composition: the trace of the first part comes first. -/
theorem handle {p : Prog I β} {f : β → Prog I γ} {g : I.Exn → Prog I γ}
    {Q : γ → List M → Prop} {R : I.Exn → List M → Prop}
    (h : p.Traced P mark
      (fun b trace => (f b).Traced P mark (fun c rest => Q c (trace ++ rest))
        fun e rest => R e (trace ++ rest))
      fun e trace => (g e).Traced P mark (fun c rest => Q c (trace ++ rest))
        fun e' rest => R e' (trace ++ rest)) :
    (p.handle f g).Traced P mark Q R := by
  induction p generalizing Q R with
  | ret b => exact h
  | raise e => exact h
  | op o k ih =>
      refine ⟨h.1, fun r => ih r ?_⟩
      simpa only [List.append_assoc] using h.2 r

theorem bind {p : Prog I β} {f : β → Prog I γ} {Q : γ → List M → Prop}
    {R : I.Exn → List M → Prop}
    (h : p.Traced P mark
      (fun b trace => (f b).Traced P mark (fun c rest => Q c (trace ++ rest))
        fun e rest => R e (trace ++ rest)) R) : (p >>= f).Traced P mark Q R := by
  refine handle (h.mono (fun _ _ h => h) fun e trace he => ?_)
  show R e (trace ++ [])
  rwa [List.append_nil]

/-- A single operation. -/
theorem call {o : I.Op} {Q : I.Res o → List M → Prop} {R : I.Exn → List M → Prop} (ho : P o)
    (hok : ∀ r, Q r (mark o (.ok r))) (herror : ∀ e, R e (mark o (.error e))) :
    (Prog.call o).Traced P mark Q R := by
  refine ⟨ho, fun r => ?_⟩
  cases r with
  | ok r =>
      show Q r (mark o (.ok r) ++ [])
      rw [List.append_nil]
      exact hok r
  | error e =>
      show R e (mark o (.error e) ++ [])
      rw [List.append_nil]
      exact herror e

/-- A program of silent operations. -/
theorem silent {p : Prog I β} (h : p.AllOps fun o => P o ∧ ∀ r, mark o r = []) :
    p.Traced P mark (fun _ trace => trace = []) fun _ trace => trace = [] := by
  induction p with
  | ret b => rfl
  | raise e => rfl
  | op o k ih =>
      refine ⟨h.1.1, fun r => ?_⟩
      simpa only [h.1.2 r, List.nil_append] using ih r (h.2 r)

/-- Whatever it leaves, the program asks for nothing else. -/
theorem allOps {p : Prog I β} {Q : β → List M → Prop} {R : I.Exn → List M → Prop}
    (h : p.Traced P mark Q R) : p.AllOps P := by
  induction p generalizing Q R with
  | ret b => trivial
  | raise e => trivial
  | op o k ih => exact ⟨h.1, fun r => ih r (h.2 r)⟩

end Traced

end Prog

namespace System

variable {S : System I} (mark : (o : I.Op) → I.Answer o → List M)

/-- The marks that a process has left since its start. -/
def tracing : Monitor S (List M) where
  initial _ := []
  start _ _ _ := []
  step trace o r _ := trace ++ mark o r
  crash _ := []
  clock _ := 0
  clock_initial _ := no_time
  clock_start _ _ _ h := h
  clock_step _ _ _ _ h := h
  clock_crash _ := Int.le_refl 0

theorem wp_of_traced {P : I.Op → Prop} {p : Prog I β} {Q : β → List M → Prop}
    {R : I.Exn → List M → Prop} (h : p.Traced P mark Q R) (trace : List M) :
    p.wp ((tracing mark : Monitor S (List M)).discipline fun _ o => P o)
      (fun whole b => ∃ rest, whole = trace ++ rest ∧ Q b rest) (fun _ _ => True) trace := by
  induction p generalizing Q R trace with
  | ret b => exact ⟨[], (List.append_nil trace).symm, h⟩
  | raise e => trivial
  | op o k ih =>
      refine ⟨h.1, ?_⟩
      rintro r _ ⟨t, s, s', _, _, rfl⟩
      refine Prog.wp_mono ?_ (fun _ _ h => h) _ _ (ih r (h.2 r) _)
      rintro whole b ⟨rest, hwhole, hrest⟩
      exact ⟨mark o r ++ rest, by rw [hwhole]; exact List.append_assoc _ _ _, hrest⟩

variable {mark} {P : I.Op → Prop} {Q : S.Out → List M → Prop}

theorem tracing_kept : (tracing mark : Monitor S (List M)).Kept fun _ _ => True where
  initial _ := trivial
  start _ _ _ _ _ := trivial
  step _ _ _ _ _ _ := trivial
  crash _ _ _ := trivial

/-- In every run, a process that has returned has left a trace of its result. -/
theorem traced_after
    (hclients : ∀ c pid, (S.program c pid).Traced P mark Q fun _ _ => True)
    (sched : List (Config.Choice S)) (p : Nat) (out : S.Out)
    (hret : (Config.after S sched).procs p = some (.ret out)) :
    Q out ((tracing mark).view p (Config.after S sched).history) := by
  have hends : ∀ c pid, (S.program c pid).wp
      ((tracing mark : Monitor S (List M)).discipline fun _ o => P o)
      (fun trace out => Q out trace) (fun _ _ => True) [] := by
    intro c pid
    refine Prog.wp_mono ?_ (fun _ _ h => h) _ _ (wp_of_traced (S := S) mark (hclients c pid) [])
    rintro whole b ⟨rest, rfl, hrest⟩
    exact hrest
  exact ((tracing mark : Monitor S (List M)).ended_after tracing_kept
    (fun pid _ c _ _ _ => hends c pid) sched).1 p out hret

end System

end Process
end Huldra
