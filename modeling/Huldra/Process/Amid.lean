import Huldra.Process.Wp

/-!
# Amid — one client, and whatever others do between its operations

`System` interleaves clients that are all known.  Where a property speaks of one client among
others, only what the others may do to the state matters: `Surroundings` says what an operation of
the client may do and what one step of the others may do, and `Amid` is one run of the client from
its first operation to its last, with the steps of the others wherever they fall.  With no steps of
the others it is the client run alone.

What happened is kept as a list of `Move`s, oldest first.
-/

namespace Huldra
namespace Process

variable {I : Interface} {σ β γ X : Type}

/-- What the client's operations do, and what the others may do, at a time. -/
structure Surroundings (I : Interface) (σ : Type) where
  does : (o : I.Op) → Int → I.Answer o → σ → σ → Prop
  others : Int → σ → σ → Prop

namespace Surroundings

/-- These operations, with nobody else about. -/
def alone (does : (o : I.Op) → Int → I.Answer o → σ → σ → Prop) : Surroundings I σ :=
  { does := does, others := fun _ _ _ => False }

/-- The same, while `P` holds of the time. -/
def given (W : Surroundings I σ) (P : Int → Prop) : Surroundings I σ :=
  { does := fun o t r s s' => P t ∧ W.does o t r s s'
    others := fun t s s' => P t ∧ W.others t s s' }

end Surroundings

inductive Move (I : Interface) (σ : Type) where
  | own (o : I.Op) (time : Int) (answer : I.Answer o) (before after : σ)
  | other (time : Int) (before after : σ)

namespace Move

def time : Move I σ → Int
  | .own _ t _ _ _ => t
  | .other t _ _ => t

def before : Move I σ → σ
  | .own _ _ _ s _ => s
  | .other _ s _ => s

def after : Move I σ → σ
  | .own _ _ _ _ s => s
  | .other _ _ s => s

end Move

/-- From state `s` at time `t` the client makes `moves` and ends with `out`. -/
inductive Amid (W : Surroundings I σ) :
    Prog I β → σ → Int → List (Move I σ) → Except I.Exn β → σ → Int → Prop where
  | ret (b : β) (s : σ) (t : Int) : Amid W (.ret b) s t [] (.ok b) s t
  | raise (e : I.Exn) (s : σ) (t : Int) : Amid W (.raise e) s t [] (.error e) s t
  | own {o : I.Op} {k : I.Answer o → Prog I β} {s s' s'' : σ} {t t' t'' : Int} {r : I.Answer o}
      {moves : List (Move I σ)} {out : Except I.Exn β} :
      t ≤ t' → W.does o t' r s s' → Amid W (k r) s' t' moves out s'' t'' →
        Amid W (.op o k) s t (.own o t' r s s' :: moves) out s'' t''
  | other {p : Prog I β} {s s' s'' : σ} {t t' t'' : Int} {moves : List (Move I σ)}
      {out : Except I.Exn β} :
      t ≤ t' → W.others t' s s' → Amid W p s' t' moves out s'' t'' →
        Amid W p s t (.other t' s s' :: moves) out s'' t''

namespace Amid

variable {W : Surroundings I σ} {p : Prog I β} {s s' : σ} {t t' : Int}
  {moves : List (Move I σ)} {out : Except I.Exn β}

/-- The moves of a run follow one another in time. -/
theorem time_le (h : Amid W p s t moves out s' t') :
    t ≤ t' ∧ ∀ m ∈ moves, t ≤ m.time ∧ m.time ≤ t' := by
  induction h with
  | ret b s t => simp
  | raise e s t => simp
  | own ht hdoes _ ih =>
      refine ⟨by omega, ?_⟩
      intro m hm
      rcases List.mem_cons.1 hm with rfl | hm
      · exact ⟨ht, ih.1⟩
      · have := ih.2 m hm
        omega
  | other ht hothers _ ih =>
      refine ⟨by omega, ?_⟩
      intro m hm
      rcases List.mem_cons.1 hm with rfl | hm
      · exact ⟨ht, ih.1⟩
      · have := ih.2 m hm
        omega

/-- What holds at the time of every move may be taken into the surroundings. -/
theorem given {P : Int → Prop} (h : Amid W p s t moves out s' t')
    (hP : ∀ m ∈ moves, P m.time) : Amid (W.given P) p s t moves out s' t' := by
  induction h with
  | ret b s t => exact .ret b s t
  | raise e s t => exact .raise e s t
  | own ht hdoes _ ih =>
      have hrest := ih fun m hm => hP m (List.mem_cons_of_mem _ hm)
      exact .own ht ⟨hP _ List.mem_cons_self, hdoes⟩ hrest
  | other ht hothers _ ih =>
      have hrest := ih fun m hm => hP m (List.mem_cons_of_mem _ hm)
      exact .other ht ⟨hP _ List.mem_cons_self, hothers⟩ hrest

end Amid

/-! ## One operation at a time -/

/-- The others alone, from one operation of the client to the next. -/
inductive Drift (W : Surroundings I σ) : σ → Int → List (Move I σ) → σ → Int → Prop where
  | nil (s : σ) (t : Int) : Drift W s t [] s t
  | cons {s s' s'' : σ} {t t' t'' : Int} {moves : List (Move I σ)} :
      t ≤ t' → W.others t' s s' → Drift W s' t' moves s'' t'' →
        Drift W s t (.other t' s s' :: moves) s'' t''

namespace Drift

variable {W : Surroundings I σ} {s s' : σ} {t t' : Int} {moves : List (Move I σ)}

theorem time_le (h : Drift W s t moves s' t') : t ≤ t' := by
  induction h with
  | nil s t => exact Int.le_refl t
  | cons ht _ _ ih => omega

/-- What each of these steps preserves holds where they lead. -/
theorem invariant {J : σ → Prop} (h : Drift W s t moves s' t')
    (hstep : ∀ u a b, Move.other u a b ∈ moves → J a → J b) : J s → J s' := by
  induction h with
  | nil s t => exact id
  | cons _ _ _ ih =>
      intro hs
      exact ih (fun u a b hm => hstep u a b (List.mem_cons_of_mem _ hm))
        (hstep _ _ _ List.mem_cons_self hs)

end Drift

/-- A run may begin with steps of the others. -/
theorem Drift.amid {W : Surroundings I σ} {p : Prog I β} {s u s' : σ} {t t₁ t' : Int}
    {drifted moves : List (Move I σ)} {out : Except I.Exn β} (h : Drift W s t drifted u t₁) :
    Amid W p u t₁ moves out s' t' → Amid W p s t (drifted ++ moves) out s' t' := by
  induction h with
  | nil s t => exact id
  | cons ht hothers _ ih =>
      intro hrun
      exact .other ht hothers (ih hrun)

/-- Some steps of the others, and then the operation, answered with `r`; `rest` is left to do. -/
def Amid.Next (W : Surroundings I σ) {o : I.Op} (s : σ) (t : Int) (moves : List (Move I σ))
    (r : I.Answer o) (rest : List (Move I σ)) (s' : σ) (t' : Int) : Prop :=
  ∃ drifted u since, Drift W s t drifted u since ∧ since ≤ t' ∧ W.does o t' r u s' ∧
    moves = drifted ++ .own o t' r u s' :: rest

/-- A client about to perform an operation performs it, after some steps of the others. -/
theorem Amid.next {W : Surroundings I σ} {o : I.Op} {k : I.Answer o → Prog I β} {p : Prog I β}
    {s s' : σ} {t t' : Int} {moves : List (Move I σ)} {out : Except I.Exn β}
    (h : Amid W p s t moves out s' t') (hp : p = .op o k) :
    ∃ r rest s₁ t₁, Amid.Next W s t moves r rest s₁ t₁ ∧
      Amid W (k r) s₁ t₁ rest out s' t' := by
  induction h with
  | ret b s t => cases hp
  | raise e s t => cases hp
  | own ht hdoes hrun _ =>
      cases hp
      exact ⟨_, _, _, _, ⟨[], _, _, .nil _ _, ht, hdoes, rfl⟩, hrun⟩
  | other ht hothers _ ih =>
      rcases ih hp with ⟨r, rest, s₁, t₁, ⟨drifted, u, since, hdrift, hlater, hdoes, rfl⟩, hrun⟩
      exact ⟨r, rest, s₁, t₁, ⟨_ :: drifted, u, since, .cons ht hothers hdrift, hlater, hdoes,
        rfl⟩, hrun⟩

/-- A run that is left with nothing to do ends as it is. -/
theorem Amid.out_of_ret {W : Surroundings I σ} {p : Prog I β} {b : β} {s s' : σ} {t t' : Int}
    {moves : List (Move I σ)} {out : Except I.Exn β} (h : Amid W p s t moves out s' t')
    (hp : p = .ret b) : out = .ok b := by
  induction h with
  | ret b' s t =>
      cases hp
      rfl
  | raise e s t => cases hp
  | own _ _ _ _ => cases hp
  | other _ _ _ ih => exact ih hp

theorem Drift.trans {W : Surroundings I σ} {s u s' : σ} {t t₁ t' : Int}
    {drifted moves : List (Move I σ)} (h : Drift W s t drifted u t₁) :
    Drift W u t₁ moves s' t' → Drift W s t (drifted ++ moves) s' t' := by
  induction h with
  | nil s t => exact id
  | cons ht hothers _ ih => exact fun hrest => .cons ht hothers (ih hrest)

/-- With nothing left to do, the moves are those of the others. -/
theorem Amid.drift {W : Surroundings I σ} {p : Prog I β} {b : β} {s s' : σ} {t t' : Int}
    {moves : List (Move I σ)} {out : Except I.Exn β} (h : Amid W p s t moves out s' t')
    (hp : p = .ret b) : Drift W s t moves s' t' := by
  induction h with
  | ret b' s t => exact .nil s t
  | raise e s t => cases hp
  | own _ _ _ _ => cases hp
  | other ht hothers _ ih => exact .cons ht hothers (ih hp)

theorem Amid.out_of_raise {W : Surroundings I σ} {p : Prog I β} {e : I.Exn} {s s' : σ}
    {t t' : Int} {moves : List (Move I σ)} {out : Except I.Exn β}
    (h : Amid W p s t moves out s' t') (hp : p = .raise e) : out = .error e := by
  induction h with
  | ret b' s t => cases hp
  | raise e' s t =>
      cases hp
      rfl
  | own _ _ _ _ => cases hp
  | other _ _ _ ih => exact ih hp

/-- A client that passes exceptions on has had an answer where the run returns. -/
theorem Amid.next_ok {W : Surroundings I σ} {o : I.Op} {k : I.Answer o → Prog I β}
    {p : Prog I β} {b : β} {s s' : σ} {t t' : Int} {moves : List (Move I σ)}
    (h : Amid W p s t moves (.ok b) s' t') (hp : p = .op o k)
    (hraise : ∀ e, k (.error e) = .raise e) :
    ∃ (a : I.Res o) (rest : List (Move I σ)) (s₁ : σ) (t₁ : Int),
      Amid.Next W s t moves (.ok a : I.Answer o) rest s₁ t₁ ∧
        Amid W (k (.ok a)) s₁ t₁ rest (.ok b) s' t' := by
  rcases h.next hp with ⟨r, rest, s₁, t₁, hnext, hrun⟩
  cases r with
  | ok a => exact ⟨a, rest, s₁, t₁, hnext, hrun⟩
  | error e => cases hrun.out_of_raise (hraise e)

/-- What every path returns, the run returns. -/
theorem Amid.returns {W : Surroundings I σ} {S : β → Prop} {p : Prog I β} {b : β} {s s' : σ}
    {t t' : Int} {moves : List (Move I σ)} {out : Except I.Exn β}
    (h : Amid W p s t moves out s' t') (hS : p.Returns S) (hout : out = .ok b) : S b := by
  induction h with
  | ret b' s t =>
      cases hout
      exact hS
  | raise e s t => cases hout
  | own _ _ _ ih => exact ih (hS _) hout
  | other _ _ _ ih => exact ih hS hout

/-! ## Runs of a composed client -/

/-- A run of a client built from two parts is a run of the first and then one of the second. -/
theorem Amid.handle_cases {W : Surroundings I σ} {f : β → Prog I γ}
    {g : I.Exn → Prog I γ} {q : Prog I γ} {s s' : σ} {t t' : Int} {moves : List (Move I σ)}
    {out : Except I.Exn γ} (h : Amid W q s t moves out s' t') :
    ∀ {p : Prog I β}, q = p.handle f g → ∃ first rest s₁ t₁, moves = first ++ rest ∧
      ((∃ b, Amid W p s t first (.ok b) s₁ t₁ ∧ Amid W (f b) s₁ t₁ rest out s' t') ∨
        ∃ e, Amid W p s t first (.error e) s₁ t₁ ∧ Amid W (g e) s₁ t₁ rest out s' t') := by
  -- A first part that has nothing left to do leaves the whole run to the second.
  have hended : ∀ {q : Prog I γ} {s s' : σ} {t t' : Int} {moves : List (Move I σ)}
      {out : Except I.Exn γ}, Amid W q s t moves out s' t' → ∀ {p : Prog I β},
      q = p.handle f g → (∀ o k, p ≠ .op o k) → ∃ first rest s₁ t₁, moves = first ++ rest ∧
        ((∃ b, Amid W p s t first (.ok b) s₁ t₁ ∧ Amid W (f b) s₁ t₁ rest out s' t') ∨
          ∃ e, Amid W p s t first (.error e) s₁ t₁ ∧ Amid W (g e) s₁ t₁ rest out s' t') := by
    intro q s s' t t' moves out h p hq hp
    cases p with
    | ret b =>
        subst hq
        exact ⟨[], moves, s, t, rfl, Or.inl ⟨b, .ret b s t, h⟩⟩
    | raise e =>
        subst hq
        exact ⟨[], moves, s, t, rfl, Or.inr ⟨e, .raise e s t, h⟩⟩
    | op o k => exact absurd rfl (hp o k)
  induction h with
  | ret b s t =>
      intro p hq
      refine hended (.ret b s t) hq ?_
      rintro o k rfl
      cases hq
  | raise e s t =>
      intro p hq
      refine hended (.raise e s t) hq ?_
      rintro o k rfl
      cases hq
  | @own o k s s₁ s' t t₁ t' r moves out ht hdoes hrun ih =>
      intro p hq
      by_cases hp : ∃ o k, p = .op o k
      · rcases hp with ⟨o', k', rfl⟩
        cases hq
        rcases ih rfl with ⟨first, rest, s₂, t₂, rfl, hcases⟩
        refine ⟨.own o t₁ r s s₁ :: first, rest, s₂, t₂, rfl, ?_⟩
        rcases hcases with ⟨b, hfirst, hrest⟩ | ⟨e, hfirst, hrest⟩
        · exact Or.inl ⟨b, .own ht hdoes hfirst, hrest⟩
        · exact Or.inr ⟨e, .own ht hdoes hfirst, hrest⟩
      · exact hended (.own ht hdoes hrun) hq fun o k heq => hp ⟨o, k, heq⟩
  | @other q s s₁ s' t t₁ t' moves out ht hothers hrun ih =>
      intro p hq
      rcases ih hq with ⟨first, rest, s₂, t₂, rfl, hcases⟩
      refine ⟨.other t₁ s s₁ :: first, rest, s₂, t₂, rfl, ?_⟩
      rcases hcases with ⟨b, hfirst, hrest⟩ | ⟨e, hfirst, hrest⟩
      · exact Or.inl ⟨b, .other ht hothers hfirst, hrest⟩
      · exact Or.inr ⟨e, .other ht hothers hfirst, hrest⟩

theorem Amid.bind_cases {W : Surroundings I σ} {p : Prog I β} {f : β → Prog I γ} {c : γ}
    {s s' : σ} {t t' : Int} {moves : List (Move I σ)}
    (h : Amid W (p >>= f) s t moves (.ok c) s' t') :
    ∃ b first rest s₁ t₁, moves = first ++ rest ∧ Amid W p s t first (.ok b) s₁ t₁ ∧
      Amid W (f b) s₁ t₁ rest (.ok c) s' t' := by
  rcases @Amid.handle_cases I σ β γ W f .raise _ _ _ _ _ _ _ h p rfl with
    ⟨first, rest, s₁, t₁, rfl, ⟨b, hfirst, hrest⟩ | ⟨e, _, hrest⟩⟩
  · exact ⟨b, first, rest, s₁, t₁, rfl, hfirst, hrest⟩
  · cases hrest.out_of_raise rfl

/-- A run of the first part and a run of what is left to do make a run of both. -/
theorem Amid.bind {W : Surroundings I σ} {p : Prog I β} {f : β → Prog I γ} {b : β}
    {s s₁ s' : σ} {t t₁ t' : Int} {first rest : List (Move I σ)} {ended : Except I.Exn β}
    {out : Except I.Exn γ} (h : Amid W p s t first ended s₁ t₁) (hended : ended = .ok b) :
    Amid W (f b) s₁ t₁ rest out s' t' → Amid W (p >>= f) s t (first ++ rest) out s' t' := by
  induction h with
  | ret b' s t =>
      cases hended
      exact id
  | raise e s t => cases hended
  | own ht hdoes _ ih => exact fun hrun => .own ht hdoes (ih hended hrun)
  | other ht hothers _ ih => exact fun hrun => .other ht hothers (ih hended hrun)

/-- Somewhere in these moves the client ran and returned `b`. -/
def Did (W : Surroundings I σ) (p : Prog I β) (b : β) (moves : List (Move I σ)) : Prop :=
  ∃ s t own s' t', own <:+: moves ∧ Amid W p s t own (.ok b) s' t'

theorem Amid.did {W : Surroundings I σ} {p : Prog I β} {b : β} {s s' : σ} {t t' : Int}
    {moves : List (Move I σ)} (h : Amid W p s t moves (.ok b) s' t') : Did W p b moves :=
  ⟨s, t, moves, s', t', List.infix_rfl, h⟩

/-- Each of two parts ran where both did. -/
theorem Did.bind {W : Surroundings I σ} {p : Prog I β} {f : β → Prog I γ} {c : γ}
    {moves : List (Move I σ)} (h : Did W (p >>= f) c moves) :
    ∃ b, Did W p b moves ∧ Did W (f b) c moves := by
  rcases h with ⟨s, t, own, s', t', hown, hrun⟩
  rcases hrun.bind_cases with ⟨b, first, rest, s₁, t₁, rfl, hfirst, hrest⟩
  exact ⟨b, ⟨s, t, first, s₁, t₁, (List.prefix_append first rest).isInfix.trans hown, hfirst⟩,
    s₁, t₁, rest, s', t', (List.suffix_append first rest).isInfix.trans hown, hrest⟩

theorem Did.returns {W : Surroundings I σ} {S : β → Prop} {p : Prog I β} {b : β}
    {moves : List (Move I σ)} (h : Did W p b moves) (hS : p.Returns S) : S b := by
  rcases h with ⟨s, t, own, s', t', _, hrun⟩
  exact hrun.returns hS rfl

theorem Did.of_ret {W : Surroundings I σ} {b c : β} {moves : List (Move I σ)}
    (h : Did W (.ret b) c moves) : c = b := by
  rcases h with ⟨s, t, own, s', t', _, hrun⟩
  have hout := hrun.out_of_ret rfl
  cases hout
  rfl

theorem Did.not_raise {W : Surroundings I σ} {e : I.Exn} {b : β} {moves : List (Move I σ)}
    (h : Did W (.raise e) b moves) : False := by
  rcases h with ⟨s, t, own, s', t', _, hrun⟩
  cases hrun.out_of_raise rfl

/-- A run that begins with a step of the others goes on from where that leads. -/
theorem Amid.of_other {W : Surroundings I σ} {p : Prog I β} {s s' a b : σ} {t t' u : Int}
    {moves rest : List (Move I σ)} {out : Except I.Exn β} (h : Amid W p s t moves out s' t')
    (hmoves : moves = .other u a b :: rest) : Amid W p b u rest out s' t' := by
  cases h with
  | ret => cases hmoves
  | raise => cases hmoves
  | own => cases hmoves
  | other _ _ hrun =>
      cases hmoves
      exact hrun

/-- Where the first part of a client has returned, what is left of the run is one of the second. -/
theorem Amid.after_first {W : Surroundings I σ} {p : Prog I β} {f : β → Prog I γ} {b : β}
    {s s₁ s' : σ} {t t₁ t' : Int} {first rest : List (Move I σ)} {ended : Except I.Exn β}
    {out : Except I.Exn γ} (h : Amid W p s t first ended s₁ t₁) (hended : ended = .ok b) :
    Amid W (p >>= f) s t (first ++ rest) out s' t' → Amid W (f b) s₁ t₁ rest out s' t' := by
  induction h with
  | ret b' s t =>
      cases hended
      exact id
  | raise e s t => cases hended
  | own ht hdoes _ ih =>
      intro hrun
      cases hrun with
      | own _ _ hrun => exact ih hended hrun
  | other ht hothers _ ih =>
      intro hrun
      exact ih hended (hrun.of_other rfl)

/-! ## The simulation rule -/

/-- The abstract state `x` stands for the moves made so far and where they led: an operation that
was allowed moves it as the discipline says, and what the others do does not move it. -/
structure Tracks (W : Surroundings I σ) (D : Discipline I X)
    (stands : X → List (Move I σ) → σ → Int → Prop) : Prop where
  own : ∀ {x past s t o t' r s'}, stands x past s t → D.allow x o → t ≤ t' →
    W.does o t' r s s' →
      ∃ x', D.next x o r x' ∧ stands x' (past ++ [.own o t' r s s']) s' t'
  other : ∀ {x past s t t' s'}, stands x past s t → t ≤ t' → W.others t' s s' →
    stands x (past ++ [.other t' s s']) s' t'

/-- How a run may end: `Q` of what it returns, or `R` of what it raises. -/
def Ends (Q : X → β → Prop) (R : X → I.Exn → Prop) (x : X) : Except I.Exn β → Prop
  | .ok b => Q x b
  | .error e => R x e

/-- What `wp` says of every path holds of every run among the others. -/
theorem Tracks.post {W : Surroundings I σ} {D : Discipline I X}
    {stands : X → List (Move I σ) → σ → Int → Prop} (hT : Tracks W D stands)
    {Q : X → β → Prop} {R : X → I.Exn → Prop} {p : Prog I β} {s s' : σ} {t t' : Int}
    {moves : List (Move I σ)} {out : Except I.Exn β} (hrun : Amid W p s t moves out s' t') :
    ∀ x past, p.wp D Q R x → stands x past s t →
      ∃ x', stands x' (past ++ moves) s' t' ∧ Ends Q R x' out := by
  induction hrun with
  | ret b s t =>
      intro x past hwp hx
      exact ⟨x, by simpa using hx, hwp⟩
  | raise e s t =>
      intro x past hwp hx
      exact ⟨x, by simpa using hx, hwp⟩
  | own ht hdoes _ ih =>
      intro x past hwp hx
      rcases hT.own hx hwp.1 ht hdoes with ⟨x', hnext, hx'⟩
      rcases ih x' _ (hwp.2 _ _ hnext) hx' with ⟨y, hy, hpost⟩
      exact ⟨y, by simpa using hy, hpost⟩
  | other ht hothers _ ih =>
      intro x past hwp hx
      rcases ih x _ hwp (hT.other hx ht hothers) with ⟨y, hy, hpost⟩
      exact ⟨y, by simpa using hy, hpost⟩

/-! ## Playing a client -/

/-- The client alone, for at most so many operations and without time passing: its moves, how it
ends, and where. -/
def play (exec : (o : I.Op) → σ → I.Answer o × σ) (ready : I.Op → Bool) (t : Int) :
    Nat → Prog I β → σ → Option (List (Move I σ) × Except I.Exn β × σ)
  | _, .ret b, s => some ([], .ok b, s)
  | _, .raise e, s => some ([], .error e, s)
  | 0, .op _ _, _ => none
  | n + 1, .op o k, s =>
      if ready o then
        let out := exec o s
        (play exec ready t n (k out.1) out.2).map fun run =>
          (.own o t out.1 s out.2 :: run.1, run.2)
      else none

theorem amid_of_play {W : Surroundings I σ} {exec : (o : I.Op) → σ → I.Answer o × σ}
    {ready : I.Op → Bool} {t : Int}
    (hdoes : ∀ o s, ready o = true → W.does o t (exec o s).1 s (exec o s).2) :
    ∀ {n : Nat} {p : Prog I β} {s s' : σ} {moves : List (Move I σ)} {out : Except I.Exn β},
      play exec ready t n p s = some (moves, out, s') → Amid W p s t moves out s' t := by
  intro n p
  induction p generalizing n with
  | ret b =>
      intro s s' moves out h
      rw [play] at h
      cases h
      exact .ret b s t
  | raise e =>
      intro s s' moves out h
      rw [play] at h
      cases h
      exact .raise e s t
  | op o k ih =>
      intro s s' moves out h
      cases n with
      | zero =>
          rw [play] at h
          cases h
      | succ n =>
          rw [play] at h
          by_cases hready : ready o = true
          · rw [if_pos hready] at h
            rcases Option.map_eq_some_iff.1 h with ⟨⟨rest, out', s''⟩, hrest, heq⟩
            cases heq
            exact .own (Int.le_refl t) (hdoes o s hready) (ih _ hrest)
          · rw [if_neg hready] at h
            cases h

/-! ## Without the others -/

/-- The discipline of a client run alone: nothing is forbidden, and the state itself moves. -/
def solo (does : (o : I.Op) → Int → I.Answer o → σ → σ → Prop) : Discipline I σ where
  allow _ _ := True
  next s o r s' := ∃ t, does o t r s s'

variable {does : (o : I.Op) → Int → I.Answer o → σ → σ → Prop}

theorem tracks_solo : Tracks (Surroundings.alone does) (solo does) fun x _ s _ => x = s where
  own := by
    rintro x past s t o t' r s' rfl _ _ hdoes
    exact ⟨s', ⟨t', hdoes⟩, rfl⟩
  other := by
    intro x past s t t' s' _ _ hothers
    exact hothers.elim

/-- A client run alone ends as `wp` says, in the state it ends in. -/
theorem Amid.post_alone {Q : σ → β → Prop} {R : σ → I.Exn → Prop} {p : Prog I β} {s s' : σ}
    {t t' : Int} {moves : List (Move I σ)} {out : Except I.Exn β}
    (h : Amid (Surroundings.alone does) p s t moves out s' t') (hwp : p.wp (solo does) Q R s) :
    Ends Q R s' out := by
  rcases tracks_solo.post h s [] hwp rfl with ⟨x, rfl, hpost⟩
  exact hpost

end Process
end Huldra
