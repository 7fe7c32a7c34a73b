import Huldra.Process.Wp

/-!
# Leads — programs that prepare one last part

Much of a client is preparation: operations of an unremarkable kind, and branches on what they
answer.  Some branches end there, the others come down to a last part in which everything that
matters happens.  `Leads` is that shape, so that a property of the client needs a proof for the
last part only.
-/

namespace Huldra
namespace Process

variable {I : Interface} {X β γ : Type}

/-- Operations in `P`, and then an end with a value in `E`, or a last part in `B`. -/
inductive Leads (P : I.Op → Prop) (E : β → Prop) (B : Prog I β → Prop) : Prog I β → Prop where
  | last {p : Prog I β} : B p → Leads P E B p
  | ends {p : Prog I β} : p.AllOps P → p.Returns E → Leads P E B p
  /-- What is known of the values of the first part may be used of the second. -/
  | bindOf {γ : Type} {S : γ → Prop} {p : Prog I γ} {f : γ → Prog I β} :
      p.AllOps P → p.Returns S → (∀ c, S c → Leads P E B (f c)) → Leads P E B (p >>= f)

namespace Leads

variable {P : I.Op → Prop} {E : β → Prop} {B : Prog I β → Prop} {p : Prog I β}

theorem bind {q : Prog I γ} {f : γ → Prog I β} (hq : q.AllOps P)
    (hf : ∀ c, Leads P E B (f c)) : Leads P E B (q >>= f) :=
  .bindOf hq (Prog.Returns.trivial q) fun c _ => hf c

/-- The preparation keeps `J`, and from there on the last part is as wanted. -/
theorem wp {D : Discipline I X} {J : X → Prop} {Q : X → β → Prop} {R : X → I.Exn → Prop}
    (hP : ∀ o, P o → ∀ x, J x → D.allow x o ∧ ∀ r x', D.next x o r x' → J x')
    (hB : ∀ p, B p → ∀ x, J x → p.wp D Q R x) (hQ : ∀ x b, J x → E b → Q x b)
    (hR : ∀ x e, J x → R x e) (h : Leads P E B p) : ∀ x, J x → p.wp D Q R x := by
  induction h with
  | last hp => exact hB _ hp
  | ends hp hE =>
      intro x hx
      exact Prog.wp_mono (fun x b hb => hQ x b hb.1 hb.2) hR _ x (hE.wp x (hp.wp hP x hx))
  | bindOf hp hS _ ih =>
      intro x hx
      exact (Prog.wp_bind ..).2 (Prog.wp_mono (fun x c hc => ih c hc.2 x hc.1) hR _ x
        (hS.wp x (hp.wp hP x hx)))

end Leads

end Process
end Huldra
