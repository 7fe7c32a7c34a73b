import Huldra.Process.Prog

/-!
# Wp — what a client does, whatever it is answered

A `Discipline` says which operations a client may ask for in an abstract state `x` and which
states an answer may lead to.  `wp` is the weakest condition on the first state under which every
path through the client keeps the discipline, and ends in `Q` if it returns and in `R` if it
raises.  Every operation of the tree is covered, so `wp` speaks of a client that is stopped at any
node as well: what it has asked for until then was allowed.

The rules compose: a client built with `handle` is proved from its parts.
-/

namespace Huldra
namespace Process

/-- Which operations are allowed in an abstract state, and where their answers may lead. -/
structure Discipline (I : Interface) (X : Type) where
  allow : X → I.Op → Prop
  next : X → (o : I.Op) → I.Answer o → X → Prop

namespace Prog

variable {I : Interface} {X β γ : Type}

/-- Every path of `p` from `x` keeps the discipline and ends in `Q` or in `R`. -/
def wp (D : Discipline I X) (Q : X → β → Prop) (R : X → I.Exn → Prop) : Prog I β → X → Prop
  | .ret b, x => Q x b
  | .raise e, x => R x e
  | .op o k, x => D.allow x o ∧ ∀ r x', D.next x o r x' → (k r).wp D Q R x'

variable {D : Discipline I X}

@[simp] theorem wp_ret (Q : X → β → Prop) (R : X → I.Exn → Prop) (b : β) (x : X) :
    (ret b).wp D Q R x ↔ Q x b := Iff.rfl

@[simp] theorem wp_raise (Q : X → β → Prop) (R : X → I.Exn → Prop) (e : I.Exn) (x : X) :
    (raise e).wp D Q R x ↔ R x e := Iff.rfl

/-- The rule of consequence. -/
theorem wp_mono {Q Q' : X → β → Prop} {R R' : X → I.Exn → Prop}
    (hQ : ∀ x b, Q x b → Q' x b) (hR : ∀ x e, R x e → R' x e) (p : Prog I β) :
    ∀ x, p.wp D Q R x → p.wp D Q' R' x := by
  induction p with
  | ret b =>
      intro x h
      exact hQ x b h
  | raise e =>
      intro x h
      exact hR x e h
  | op o k ih =>
      intro x h
      refine ⟨h.1, ?_⟩
      intro r x' hnext
      exact ih r x' (h.2 r x' hnext)

/-- The rule of conjunction. -/
theorem wp_and {Q Q' : X → β → Prop} {R R' : X → I.Exn → Prop} (p : Prog I β) :
    ∀ x, p.wp D Q R x → p.wp D Q' R' x →
      p.wp D (fun x b => Q x b ∧ Q' x b) (fun x e => R x e ∧ R' x e) x := by
  induction p with
  | ret b =>
      intro x h h'
      exact ⟨h, h'⟩
  | raise e =>
      intro x h h'
      exact ⟨h, h'⟩
  | op o k ih =>
      intro x h h'
      refine ⟨h.1, ?_⟩
      intro r x' hnext
      exact ih r x' (h.2 r x' hnext) (h'.2 r x' hnext)

/-- The rule of composition: the continuations are proved from where the first part ends. -/
theorem wp_handle (Q : X → γ → Prop) (R : X → I.Exn → Prop) (p : Prog I β)
    (f : β → Prog I γ) (h : I.Exn → Prog I γ) :
    ∀ x, (p.handle f h).wp D Q R x ↔
      p.wp D (fun x b => (f b).wp D Q R x) (fun x e => (h e).wp D Q R x) x := by
  induction p with
  | ret b =>
      intro x
      exact Iff.rfl
  | raise e =>
      intro x
      exact Iff.rfl
  | op o k ih =>
      intro x
      constructor
      · intro hp
        refine ⟨hp.1, ?_⟩
        intro r x' hnext
        exact (ih r x').1 (hp.2 r x' hnext)
      · intro hp
        refine ⟨hp.1, ?_⟩
        intro r x' hnext
        exact (ih r x').2 (hp.2 r x' hnext)

theorem wp_bind (Q : X → γ → Prop) (R : X → I.Exn → Prop) (p : Prog I β) (f : β → Prog I γ)
    (x : X) :
    (p >>= f).wp D Q R x ↔ p.wp D (fun x b => (f b).wp D Q R x) R x :=
  wp_handle Q R p f .raise x

/-- A single operation: its result meets `Q`, its exception `R`. -/
theorem wp_call (o : I.Op) (Q : X → I.Res o → Prop) (R : X → I.Exn → Prop) (x : X) :
    (call o).wp D Q R x ↔
      D.allow x o ∧ (∀ r x', D.next x o (.ok r) x' → Q x' r) ∧
        (∀ e x', D.next x o (.error e) x' → R x' e) := by
  constructor
  · intro h
    exact ⟨h.1, fun r x' hn => h.2 (.ok r) x' hn, fun e x' hn => h.2 (.error e) x' hn⟩
  · rintro ⟨hallow, hret, hraise⟩
    refine ⟨hallow, ?_⟩
    intro r x' hn
    cases r with
    | ok r => exact hret r x' hn
    | error e => exact hraise e x' hn

theorem wp_tryFinally (Q : X → β → Prop) (R : X → I.Exn → Prop) (p : Prog I β)
    (fin : Prog I Unit) (x : X) :
    (p.tryFinally fin).wp D Q R x ↔
      p.wp D (fun x b => fin.wp D (fun x _ => Q x b) R x)
        (fun x e => fin.wp D (fun x _ => R x e) R x) x := by
  simp only [tryFinally, wp_handle, wp_ret, wp_raise]

theorem wp_tryExcept (Q : X → β → Prop) (R : X → I.Exn → Prop) (p : Prog I β)
    (onRaise : I.Exn → Prog I β) (x : X) :
    (p.tryExcept onRaise).wp D Q R x ↔
      p.wp D Q (fun x e => (onRaise e).wp D Q R x) x := by
  simp only [tryExcept, wp_handle, wp_ret]

/-- One operation and what follows it. -/
theorem wp_call_handle (o : I.Op) (f : I.Res o → Prog I β) (h : I.Exn → Prog I β)
    (Q : X → β → Prop) (R : X → I.Exn → Prop) (x : X) :
    ((call o).handle f h).wp D Q R x ↔
      D.allow x o ∧ (∀ r x', D.next x o (.ok r) x' → (f r).wp D Q R x') ∧
        (∀ e x', D.next x o (.error e) x' → (h e).wp D Q R x') := by
  rw [wp_handle, wp_call]

/-! ## Programs that only ask for operations of one kind -/

/-- Every operation on every path satisfies `P`. -/
def AllOps (P : I.Op → Prop) : Prog I β → Prop
  | .ret _ => True
  | .raise _ => True
  | .op o k => P o ∧ ∀ r, (k r).AllOps P

namespace AllOps

variable {P P' : I.Op → Prop}

theorem ret (b : β) : (Prog.ret b : Prog I β).AllOps P := trivial

theorem raise (e : I.Exn) : (Prog.raise e : Prog I β).AllOps P := trivial

theorem call {o : I.Op} (h : P o) : (Prog.call o).AllOps P := by
  refine ⟨h, ?_⟩
  intro r
  cases r with
  | ok r => trivial
  | error e => trivial

theorem handle {p : Prog I β} {f : β → Prog I γ} {h : I.Exn → Prog I γ} :
    p.AllOps P → (∀ b, (f b).AllOps P) → (∀ e, (h e).AllOps P) → (p.handle f h).AllOps P := by
  intro hp hf hh
  induction p with
  | ret b => exact hf b
  | raise e => exact hh e
  | op o k ih => exact ⟨hp.1, fun r => ih r (hp.2 r)⟩

theorem bind {p : Prog I β} {f : β → Prog I γ} (hp : p.AllOps P) (hf : ∀ b, (f b).AllOps P) :
    (p >>= f).AllOps P :=
  handle hp hf fun e => raise e

theorem tryFinally {p : Prog I β} {fin : Prog I Unit} (hp : p.AllOps P) (hfin : fin.AllOps P) :
    (p.tryFinally fin).AllOps P :=
  handle hp (fun b => handle hfin (fun _ => ret b) fun e => raise e)
    (fun e => handle hfin (fun _ => raise e) fun e => raise e)

theorem tryExcept {p : Prog I β} {onRaise : I.Exn → Prog I β} (hp : p.AllOps P)
    (h : ∀ e, (onRaise e).AllOps P) : (p.tryExcept onRaise).AllOps P :=
  handle hp (fun b => ret b) h

theorem mono (hPP : ∀ o, P o → P' o) {p : Prog I β} : p.AllOps P → p.AllOps P' := by
  induction p with
  | ret b => exact id
  | raise e => exact id
  | op o k ih =>
      intro h
      exact ⟨hPP o h.1, fun r => ih r (h.2 r)⟩

/-- A condition on the operations alone may be asked for together with a discipline. -/
theorem wp_allowing {D : Discipline I X} {Q : X → β → Prop} {R : X → I.Exn → Prop} {p : Prog I β} :
    p.AllOps P → ∀ x, p.wp D Q R x →
      p.wp { D with allow := fun x o => P o ∧ D.allow x o } Q R x := by
  induction p with
  | ret b => exact fun _ _ h => h
  | raise e => exact fun _ _ h => h
  | op o k ih =>
      intro hp x h
      exact ⟨⟨hp.1, h.1⟩, fun r x' hnext => ih r (hp.2 r) x' (h.2 r x' hnext)⟩

/-- The invariant rule: operations that are allowed wherever `J` holds and keep `J`. -/
theorem wp {J : X → Prop}
    (hP : ∀ o, P o → ∀ x, J x → D.allow x o ∧ ∀ r x', D.next x o r x' → J x')
    {p : Prog I β} : p.AllOps P → ∀ x, J x → p.wp D (fun x _ => J x) (fun x _ => J x) x := by
  induction p with
  | ret b =>
      intro _ x hx
      exact hx
  | raise e =>
      intro _ x hx
      exact hx
  | op o k ih =>
      intro hp x hx
      have hstep := hP o hp.1 x hx
      refine ⟨hstep.1, ?_⟩
      intro r x' hnext
      exact ih r (hp.2 r) x' (hstep.2 r x' hnext)

end AllOps

/-! ## What a program can return -/

/-- Every value the program can return satisfies `S`. -/
def Returns (S : β → Prop) : Prog I β → Prop
  | .ret b => S b
  | .raise _ => True
  | .op _ k => ∀ r, (k r).Returns S

namespace Returns

protected theorem trivial (p : Prog I β) : p.Returns fun _ => True := by
  induction p with
  | ret b => exact True.intro
  | raise e => exact True.intro
  | op o k ih => exact ih

theorem handle {S : γ → Prop} {p : Prog I β} {f : β → Prog I γ} {h : I.Exn → Prog I γ}
    (hf : ∀ b, (f b).Returns S) (hh : ∀ e, (h e).Returns S) : (p.handle f h).Returns S := by
  induction p with
  | ret b => exact hf b
  | raise e => exact hh e
  | op o k ih => exact ih

theorem bind {S : γ → Prop} {p : Prog I β} {f : β → Prog I γ} (hf : ∀ b, (f b).Returns S) :
    (p >>= f).Returns S :=
  handle hf fun _ => trivial

/-- What the first part returns is known to the second. -/
theorem bind_of {S : γ → Prop} {T : β → Prop} {p : Prog I β} {f : β → Prog I γ}
    (hp : p.Returns T) (hf : ∀ b, T b → (f b).Returns S) : (p >>= f).Returns S := by
  induction p with
  | ret b => exact hf b hp
  | raise e => trivial
  | op o k ih => exact fun r => ih r (hp r)

theorem wp {S : β → Prop} {Q : X → β → Prop} {R : X → I.Exn → Prop} {p : Prog I β} :
    p.Returns S → ∀ x, p.wp D Q R x → p.wp D (fun x b => Q x b ∧ S b) R x := by
  induction p with
  | ret b =>
      intro hS x hQ
      exact ⟨hQ, hS⟩
  | raise e =>
      intro _ x hR
      exact hR
  | op o k ih =>
      intro hS x hp
      exact ⟨hp.1, fun r x' hnext => ih r (hS r) x' (hp.2 r x' hnext)⟩

/-- Programs that agree on all that the first part can return go on alike. -/
theorem handle_congr {S : β → Prop} {p : Prog I β} {f g : β → Prog I γ} {h : I.Exn → Prog I γ}
    (hp : p.Returns S) (hfg : ∀ b, S b → f b = g b) : p.handle f h = p.handle g h := by
  induction p with
  | ret b => exact hfg b hp
  | raise e => rfl
  | op o k ih =>
      simp only [handle_op]
      congr 1
      funext r
      exact ih r (hp r)

end Returns

/-- The continuation is asked for no more than the values that the first part can return. -/
theorem AllOps.handle_of {P : I.Op → Prop} {S : β → Prop} {p : Prog I β} {f : β → Prog I γ}
    {h : I.Exn → Prog I γ} (hp : p.AllOps P) (hS : p.Returns S)
    (hf : ∀ b, S b → (f b).AllOps P) (hh : ∀ e, (h e).AllOps P) : (p.handle f h).AllOps P := by
  induction p with
  | ret b => exact hf b hS
  | raise e => exact hh e
  | op o k ih => exact ⟨hp.1, fun r => ih r (hp.2 r) (hS r)⟩

/-! ## How long a program can run -/

/-- On every path the program performs at most so many operations. -/
def Within : Prog I β → Nat → Prop
  | .ret _, _ => True
  | .raise _, _ => True
  | .op _ k, n => 0 < n ∧ ∀ r, (k r).Within (n - 1)

namespace Within

variable {m n : Nat}

theorem ret (b : β) : (Prog.ret b : Prog I β).Within n := trivial

theorem raise (e : I.Exn) : (Prog.raise e : Prog I β).Within n := trivial

theorem call {o : I.Op} (h : 0 < n) : (Prog.call o).Within n := by
  refine ⟨h, fun r => ?_⟩
  cases r <;> trivial

theorem mono {p : Prog I β} : ∀ {m n : Nat}, p.Within m → m ≤ n → p.Within n := by
  induction p with
  | ret b => exact fun _ _ => trivial
  | raise e => exact fun _ _ => trivial
  | op o k ih =>
      intro m n h hmn
      have hpos := h.1
      exact ⟨by omega, fun r => ih r (h.2 r) (by omega)⟩

/-- What the first part may use up is left to the rest to do without. -/
theorem handle {p : Prog I β} {f : β → Prog I γ} {h : I.Exn → Prog I γ} :
    ∀ {m n : Nat}, p.Within m → m ≤ n → (∀ b, (f b).Within (n - m)) →
      (∀ e, (h e).Within (n - m)) → (p.handle f h).Within n := by
  induction p with
  | ret b =>
      intro m n _ _ hf _
      exact (hf b).mono (Nat.sub_le n m)
  | raise e =>
      intro m n _ _ _ hh
      exact (hh e).mono (Nat.sub_le n m)
  | op o k ih =>
      intro m n hp hmn hf hh
      have hpos := hp.1
      have hsub : n - 1 - (m - 1) = n - m := by omega
      refine ⟨by omega, fun r => ih r (hp.2 r) (by omega) ?_ ?_⟩
      · rw [hsub]
        exact hf
      · rw [hsub]
        exact hh

theorem bind {p : Prog I β} {f : β → Prog I γ} (hp : p.Within m) (hmn : m ≤ n)
    (hf : ∀ b, (f b).Within (n - m)) : (p >>= f).Within n :=
  handle hp hmn hf fun _ => trivial

theorem tryFinally {p : Prog I β} {fin : Prog I Unit} (hp : p.Within m) (hmn : m ≤ n)
    (hfin : fin.Within (n - m)) : (p.tryFinally fin).Within n :=
  handle hp hmn
    (fun _ => handle hfin (Nat.le_refl _) (fun _ => trivial) fun _ => trivial)
    (fun _ => handle hfin (Nat.le_refl _) (fun _ => trivial) fun _ => trivial)

theorem tryExcept {p : Prog I β} {onRaise : I.Exn → Prog I β} (hp : p.Within m) (hmn : m ≤ n)
    (hraise : ∀ e, (onRaise e).Within (n - m)) : (p.tryExcept onRaise).Within n :=
  handle hp hmn (fun _ => trivial) hraise

end Within

end Prog

end Process
end Huldra
