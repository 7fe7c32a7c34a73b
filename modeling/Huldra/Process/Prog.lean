/-!
# Prog — programs that talk to shared state one atomic operation at a time

A sequential client of a shared store is a finite tree: at each node it asks for one atomic
operation and continues with the answer, which is the operation's result or an exception.
The tree is the client's control flow with nothing of the store in it, so the same tree can be
interleaved with other clients, crashed at any node, or analysed on its own.

* `Interface`   : the operations, their result types and the exceptions;
* `Prog I β`    : a client that ends by returning a `β` or by raising;
* `Prog.handle` : run a client, then continue by how it ended.  Sequencing, `try … finally` and
  `try … except` are instances, so one rule covers them all;
* `Prog.eval`   : the client alone on a state, from its first operation to its last.
-/

namespace Huldra
namespace Process

/-- The atomic operations a client may ask for. -/
structure Interface where
  Op : Type
  Res : Op → Type
  Exn : Type

/-- The answer to an operation: its result, or the exception raised in its place. -/
abbrev Interface.Answer (I : Interface) (o : I.Op) : Type :=
  Except I.Exn (I.Res o)

inductive Prog (I : Interface) (β : Type) where
  | ret (b : β)
  | raise (e : I.Exn)
  | op (o : I.Op) (k : I.Answer o → Prog I β)

namespace Prog

variable {I : Interface} {β γ : Type}

/-- Run `p`, then `onRet` on its value or `onRaise` on its exception. -/
def handle (p : Prog I β) (onRet : β → Prog I γ) (onRaise : I.Exn → Prog I γ) : Prog I γ :=
  match p with
  | .ret b => onRet b
  | .raise e => onRaise e
  | .op o k => .op o fun r => (k r).handle onRet onRaise

instance : Monad (Prog I) where
  pure := .ret
  bind p f := p.handle f .raise

/-- One operation: its result is returned, its exception raised. -/
def call (o : I.Op) : Prog I (I.Res o) :=
  .op o fun
    | .ok r => .ret r
    | .error e => .raise e

/-- `try: p finally: fin`. -/
def tryFinally (p : Prog I β) (fin : Prog I Unit) : Prog I β :=
  p.handle
    (fun b => fin.handle (fun _ => .ret b) .raise)
    (fun e => fin.handle (fun _ => .raise e) .raise)

/-- `try: p except Exception as e: onRaise e`. -/
def tryExcept (p : Prog I β) (onRaise : I.Exn → Prog I β) : Prog I β :=
  p.handle .ret onRaise

@[simp] theorem pure_eq (b : β) : (pure b : Prog I β) = .ret b := rfl

@[simp] theorem bind_eq (p : Prog I β) (f : β → Prog I γ) : p >>= f = p.handle f .raise := rfl

@[simp] theorem handle_ret (b : β) (f : β → Prog I γ) (h : I.Exn → Prog I γ) :
    (ret b).handle f h = f b := rfl

@[simp] theorem handle_raise (e : I.Exn) (f : β → Prog I γ) (h : I.Exn → Prog I γ) :
    (raise e).handle f h = h e := rfl

@[simp] theorem handle_op (o : I.Op) (k : I.Answer o → Prog I β) (f : β → Prog I γ)
    (h : I.Exn → Prog I γ) :
    (op o k).handle f h = .op o fun r => (k r).handle f h := rfl

/-- How the client ends when nobody else is about, and the state it leaves. -/
def eval {σ : Type} (exec : (o : I.Op) → σ → I.Answer o × σ) :
    Prog I β → σ → Except I.Exn β × σ
  | .ret b, s => (.ok b, s)
  | .raise e, s => (.error e, s)
  | .op o k, s => (k (exec o s).1).eval exec (exec o s).2

section Eval

variable {σ : Type} {exec : (o : I.Op) → σ → I.Answer o × σ}

@[simp] theorem eval_ret (b : β) (s : σ) : (ret b : Prog I β).eval exec s = (.ok b, s) := rfl

@[simp] theorem eval_raise (e : I.Exn) (s : σ) :
    (raise e : Prog I β).eval exec s = (.error e, s) := rfl

@[simp] theorem eval_op (o : I.Op) (k : I.Answer o → Prog I β) (s : σ) :
    (op o k).eval exec s = (k (exec o s).1).eval exec (exec o s).2 := rfl

/-- A composed client is its first part and then its second. -/
theorem eval_handle (p : Prog I β) (f : β → Prog I γ) (g : I.Exn → Prog I γ) (s : σ) :
    (p.handle f g).eval exec s =
      match p.eval exec s with
      | (.ok b, s') => (f b).eval exec s'
      | (.error e, s') => (g e).eval exec s' := by
  induction p generalizing s with
  | ret b => rfl
  | raise e => rfl
  | op o k ih => exact ih (exec o s).1 (exec o s).2

end Eval

end Prog

end Process
end Huldra
