import Huldra.Process.View

/-!
# Made — programs put together from parts

A program that is written with sequencing, branches and exception handlers over some parts is
`Made` of them.  Said once of each program, it carries over every property of the parts that
sequencing keeps: what operations they ask for, and what discipline they keep.
-/

namespace Huldra
namespace Process

variable {I : Interface} {X β γ : Type}

/-- The programs put together from the parts `A`. -/
inductive Made (A : ∀ β : Type, Prog I β → Prop) : ∀ {β : Type}, Prog I β → Prop where
  | part {β : Type} {p : Prog I β} : A β p → Made A p
  | ret {β : Type} (b : β) : Made A (.ret b)
  | raise {β : Type} (e : I.Exn) : Made A (.raise e : Prog I β)
  /-- What is known of the values of the first part may be used of the second. -/
  | handleOf {β γ : Type} {S : β → Prop} {p : Prog I β} {f : β → Prog I γ}
      {g : I.Exn → Prog I γ} :
      Made A p → p.Returns S → (∀ b, S b → Made A (f b)) → (∀ e, Made A (g e)) →
        Made A (p.handle f g)

namespace Made

variable {A A' : ∀ β : Type, Prog I β → Prop} {p : Prog I β}

theorem handle {f : β → Prog I γ} {g : I.Exn → Prog I γ} (hp : Made A p)
    (hf : ∀ b, Made A (f b)) (hg : ∀ e, Made A (g e)) : Made A (p.handle f g) :=
  .handleOf hp (Prog.Returns.trivial p) (fun b _ => hf b) hg

theorem bind {f : β → Prog I γ} (hp : Made A p) (hf : ∀ b, Made A (f b)) : Made A (p >>= f) :=
  .handle hp hf .raise

theorem bindOf {S : β → Prop} {f : β → Prog I γ} (hp : Made A p) (hS : p.Returns S)
    (hf : ∀ b, S b → Made A (f b)) : Made A (p >>= f) :=
  .handleOf hp hS hf .raise

theorem tryFinally {fin : Prog I Unit} (hp : Made A p) (hfin : Made A fin) :
    Made A (p.tryFinally fin) :=
  .handle hp (fun b => .handle hfin (fun _ => .ret b) .raise)
    fun e => .handle hfin (fun _ => .raise e) .raise

theorem tryExcept {onRaise : I.Exn → Prog I β} (hp : Made A p) (h : ∀ e, Made A (onRaise e)) :
    Made A (p.tryExcept onRaise) :=
  .handle hp .ret h

/-- Parts that are made of other parts. -/
theorem trans (hA : ∀ β (p : Prog I β), A β p → Made A' p) (h : Made A p) : Made A' p := by
  induction h with
  | part hp => exact hA _ _ hp
  | ret b => exact .ret b
  | raise e => exact .raise e
  | handleOf _ hS _ _ ihp ihf ihg => exact .handleOf ihp hS ihf ihg

theorem mono (hA : ∀ β (p : Prog I β), A β p → A' β p) (h : Made A p) : Made A' p :=
  h.trans fun β p hp => .part (hA β p hp)

/-- What operations the parts ask for, the program asks for. -/
theorem allOps {P : I.Op → Prop} (hA : ∀ β (p : Prog I β), A β p → p.AllOps P) (h : Made A p) :
    p.AllOps P := by
  induction h with
  | part hp => exact hA _ _ hp
  | ret b => exact .ret b
  | raise e => exact .raise e
  | handleOf _ hS _ _ ihp ihf ihg => exact ihp.handle_of hS ihf ihg

/-- Parts that keep a discipline wherever `J` holds, and `J` with it, make programs that do. -/
theorem wp {D : Discipline I X} {J : X → Prop}
    (hA : ∀ β (p : Prog I β), A β p → ∀ x, J x → p.wp D (fun x _ => J x) (fun x _ => J x) x)
    (h : Made A p) : ∀ x, J x → p.wp D (fun x _ => J x) (fun x _ => J x) x := by
  induction h with
  | part hp => exact hA _ _ hp
  | ret b => exact fun x hx => hx
  | raise e => exact fun x hx => hx
  | handleOf _ hS _ _ ihp ihf ihg =>
      intro x hx
      exact (Prog.wp_handle ..).2 (Prog.wp_mono (fun x b hb => ihf b hb.2 x hb.1)
        (fun x e hx => ihg e x hx) _ x (hS.wp x (ihp x hx)))

/-- Where the parts keep a discipline from any state, the program does. -/
theorem keeps {D : Discipline I X}
    (hA : ∀ β (p : Prog I β), A β p → ∀ x, p.Keeps D x) (h : Made A p) (x : X) : p.Keeps D x :=
  h.wp (J := fun _ => True) (fun β p hp x _ => hA β p hp x) x trivial

end Made

end Process
end Huldra
