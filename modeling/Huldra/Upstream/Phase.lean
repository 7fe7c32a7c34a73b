import Huldra.Process.View
import Huldra.Limiter

/-!
# Phase — how far a process has come with an upstream request

The way from winning the shared lease to reporting the request is one line of phases: the lease is
acquired, the rate state looked at, the lease renewed, the admission written and announced, the
ownership fenced, the request sent, its end seen, the rate state looked at again and the report
written.  `View` follows one process along that line from its own operations and answers, and
`Allowed` says which operation may be asked for in which phase.
-/

namespace Huldra
namespace Upstream

open Process (Discipline)
open Process.System (Monitor)

/-- What the limiter went by when it let a request through. -/
structure Admission where
  /-- The clock reading after the lease was won. -/
  current : Int
  state : RateState
  readAt : Int

/-- The time from which the admitted request may be sent. -/
def Admission.due (d : Deployment) (a : Admission) : Int :=
  a.current + Limiter.secondsUntilNextRequest d.settings a.state a.current

inductive Phase where
  | idle
  | acquired (since : Int)
  | looked (a : Admission)
  | renewed (a : Admission)
  | written (a : Admission)
  | admitted (a : Admission)
  | fenced (a : Admission) (expiresAt : Int)
  | fetching (a : Admission) (expiresAt : Int)
  /-- The request is over since `endedAt`; `a` is missing in a report nobody was admitted for. -/
  | fetched (a : Option Admission) (endedAt : Int)
  | reporting (a : Option Admission) (endedAt : Int) (previous : RateState)

namespace Phase

/-- The admission the process has written down and works under. -/
def admission? : Phase → Option Admission
  | .written a | .admitted a | .fenced a _ | .fetching a _ => some a
  | .fetched a _ | .reporting a _ _ => a
  | .idle | .acquired _ | .looked _ | .renewed _ => none

/-- The process goes by what it has read under the lease, and has not reported yet. -/
def working : Phase → Bool
  | .looked _ | .renewed _ => true
  | p => p.admission?.isSome

/-- A request is under way. -/
def isFetching : Phase → Bool
  | .fetching _ _ => true
  | _ => false

/-- The time until which the ownership was fenced for the request. -/
def expiresAt? : Phase → Option Int
  | .fenced _ t | .fetching _ t => some t
  | _ => none

end Phase

structure View where
  pid : Nat
  /-- When the process last did something. -/
  clock : Int := 0
  /-- Its last clock reading. -/
  now : Int := 0
  phase : Phase := .idle

/-! ## How the view moves -/

/-- The renewal of the upstream lease that an operation asks for. -/
def renewal? : Op → Option (OwnerToken × Int)
  | .lease (.renewLeasesIfOwned renewals) =>
      (renewals.find? fun r => r.name = .upstreamFetch).map fun r =>
        (r.ownerToken, r.timeoutSeconds)
  | .renewWorkerFetchOwnership _ owner name ttl _ =>
      if name = .upstreamFetch then some (owner, ttl) else none
  | _ => none

/-- The answer says that the renewal was made. -/
def renewalGranted : (o : Op) → Except Exn o.Res → Bool
  | .lease (.renewLeasesIfOwned _), .ok granted => granted
  | .renewWorkerFetchOwnership .., .ok reason => (reason : Option String).isNone
  | _, _ => false

/-- The expiry that a granted renewal wrote. -/
def fencedUntil (o : Op) (r : Except Exn o.Res) (t : Int) : Option Int :=
  if renewalGranted o r then (renewal? o).map fun owner => t + seconds owner.2 else none

/-- After a renewal that was granted until `expiresAt`, or refused. -/
def Phase.afterRenewal (p : Phase) (expiresAt : Option Int) : Phase :=
  match p, expiresAt with
  | .looked a, some _ => .renewed a
  | .admitted a, some t => .fenced a t
  | .fenced a _, some t => .fenced a t
  | _, _ => .idle

def Phase.afterRead (p : Phase) (now t : Int) (r : Except Exn RateState) : Phase :=
  match p, r with
  | .acquired _, .ok state => .looked { current := now, state := state, readAt := t }
  | .fetched a endedAt, .ok state => .reporting a endedAt state
  | _, _ => .idle

def Phase.afterWrite (p : Phase) (r : Except Exn Unit) : Phase :=
  match p, r with
  | .renewed a, .ok _ => .written a
  | _, _ => .idle

def Phase.afterAnnounce (p : Phase) (r : Except Exn Unit) : Phase :=
  match p, r with
  | .written a, .ok _ => .admitted a
  | _, _ => .idle

def Phase.afterBegin (p : Phase) (t : Int) (r : Except Exn Unit) : Phase :=
  match p, r with
  | .fenced a expiresAt, .ok _ => .fetching a expiresAt
  | .fenced a _, .error _ => .fetched (some a) t
  | _, _ => .idle

def Phase.afterEnd (p : Phase) (t : Int) : Phase :=
  match p with
  | .fetching a _ => .fetched (some a) t
  | _ => .idle

def phaseAfter (x : View) (o : Op) (r : Except Exn o.Res) (t : Int) : Phase :=
  match o, r with
  | .lease (.acquireLease .upstreamFetch _ _), .ok granted => if granted then .acquired t else .idle
  | .lease (.acquireLease .upstreamFetch _ _), .error _ => .idle
  | .lease (.releaseLease .upstreamFetch _), _ => .idle
  | .rate (.getRateState _), r => x.phase.afterRead x.now t r
  | .rate (.setRateState _), r => x.phase.afterWrite r
  | .rate (.recordEvent (.upstreamRequestStarted ..)), r => x.phase.afterAnnounce r
  | .upstream (.fetchBegin _), r => x.phase.afterBegin t r
  | .upstream (.listRecordsBegin _), r => x.phase.afterBegin t r
  | .upstream .fetchEnd, _ => x.phase.afterEnd t
  | .upstream .listRecordsEnd, _ => x.phase.afterEnd t
  | o, r => if (renewal? o).isSome then x.phase.afterRenewal (fencedUntil o r t) else x.phase

def nowAfter (x : View) (o : Op) (r : Except Exn o.Res) : Int :=
  match o, r with
  | .clock .utcNow, .ok now => now
  | _, _ => x.now

def View.step (x : View) (o : Op) (r : Except Exn o.Res) (t : Int) : View :=
  { pid := x.pid, clock := t, now := nowAfter x o r, phase := phaseAfter x o r t }

/-- The token an operation uses on the upstream lease. -/
def upstreamOwner? : Op → Option OwnerToken
  | .lease (.acquireLease .upstreamFetch owner _) => some owner
  | .lease (.releaseLease .upstreamFetch owner) => some owner
  | o => (renewal? o).map Prod.fst

theorem upstreamOwner?_of_renewal? {o : Op} {owner : OwnerToken} {ttl : Int}
    (h : renewal? o = some (owner, ttl)) : upstreamOwner? o = some owner := by
  unfold upstreamOwner?
  split
  · cases h
  · cases h
  · simp [h]

/-! ## Everything an answer can do to the phase -/

/-- From the phase of `x`, by the answer `r` to `o` at time `t`. -/
inductive Advance (x : View) (t : Int) : (o : Op) → Except Exn o.Res → Phase → Prop
  /-- The operation concerns neither the lease nor the request. -/
  | stays {o : Op} {r : Except Exn o.Res} (lease_eq : upstreamOwner? o = none) :
      Advance x t o r x.phase
  /-- A refusal, a release, an exception or the end of a report. -/
  | drops {o : Op} {r : Except Exn o.Res} : Advance x t o r .idle
  | acquires {owner : OwnerToken} {timeout : Int} :
      Advance x t (.lease (.acquireLease .upstreamFetch owner timeout)) (.ok true) (.acquired t)
  | looks {name : String} {since : Int} (state : RateState) (phase_eq : x.phase = .acquired since) :
      Advance x t (.rate (.getRateState name)) (.ok state)
        (.looked { current := x.now, state := state, readAt := t })
  | looksBack {name : String} {a : Option Admission} {endedAt : Int} (state : RateState)
      (phase_eq : x.phase = .fetched a endedAt) :
      Advance x t (.rate (.getRateState name)) (.ok state) (.reporting a endedAt state)
  | renews {o : Op} {r : Except Exn o.Res} {a : Admission} {expiresAt : Int}
      (phase_eq : x.phase = .looked a) (fence_eq : fencedUntil o r t = some expiresAt) :
      Advance x t o r (.renewed a)
  | fences {o : Op} {r : Except Exn o.Res} {a : Admission} {expiresAt : Int}
      (phase_eq : x.phase = .admitted a ∨ ∃ old, x.phase = .fenced a old)
      (fence_eq : fencedUntil o r t = some expiresAt) :
      Advance x t o r (.fenced a expiresAt)
  | writes {state : RateState} {a : Admission} (phase_eq : x.phase = .renewed a) :
      Advance x t (.rate (.setRateState state)) (.ok ()) (.written a)
  | announces {family : String} {startedAt waitSeconds : Int} {a : Admission}
      (phase_eq : x.phase = .written a) :
      Advance x t (.rate (.recordEvent (.upstreamRequestStarted family startedAt waitSeconds)))
        (.ok ()) (.admitted a)
  | begins {o : Op} {r : Except Exn o.Res} {a : Admission} {expiresAt : Int}
      (begin_eq : (∃ call, o = .upstream (.fetchBegin call)) ∨
        ∃ call, o = .upstream (.listRecordsBegin call))
      (phase_eq : x.phase = .fenced a expiresAt) : Advance x t o r (.fetching a expiresAt)
  | fails {o : Op} {r : Except Exn o.Res} {a : Admission} {expiresAt : Int}
      (phase_eq : x.phase = .fenced a expiresAt) : Advance x t o r (.fetched (some a) t)
  | ends {o : Op} {r : Except Exn o.Res} {a : Admission} {expiresAt : Int}
      (phase_eq : x.phase = .fetching a expiresAt) : Advance x t o r (.fetched (some a) t)

theorem advance_renewal {x : View} {o : Op} {r : Except Exn o.Res} {t : Int} :
    Advance x t o r (x.phase.afterRenewal (fencedUntil o r t)) := by
  unfold Phase.afterRenewal
  split
  case h_1 a expiresAt hphase hfence => exact .renews hphase hfence
  case h_2 a expiresAt hphase hfence => exact .fences (Or.inl hphase) hfence
  case h_3 a old expiresAt hphase hfence => exact .fences (Or.inr ⟨old, hphase⟩) hfence
  case h_4 => exact .drops

theorem advance_begin {x : View} {o : Op} {r : Except Exn o.Res} {t : Int}
    (hbegin : (∃ call, o = .upstream (.fetchBegin call)) ∨
      ∃ call, o = .upstream (.listRecordsBegin call)) (answer : Except Exn Unit) :
    Advance x t o r (x.phase.afterBegin t answer) := by
  unfold Phase.afterBegin
  split
  case h_1 a expiresAt _ hphase => exact .begins hbegin hphase
  case h_2 a expiresAt _ hphase => exact .fails hphase
  case h_3 => exact .drops

theorem advance_end {x : View} {o : Op} {r : Except Exn o.Res} {t : Int} :
    Advance x t o r (x.phase.afterEnd t) := by
  unfold Phase.afterEnd
  split
  case h_1 a expiresAt hphase => exact .ends hphase
  case h_2 => exact .drops

theorem advance_phaseAfter (x : View) (o : Op) (r : Except Exn o.Res) (t : Int) :
    Advance x t o r (phaseAfter x o r t) := by
  unfold phaseAfter
  split
  case h_1 granted =>
    cases granted with
    | true => exact .acquires
    | false => exact .drops
  case h_2 => exact .drops
  case h_3 => exact .drops
  case h_4 name r =>
    unfold Phase.afterRead
    split
    case h_1 since state hphase => exact .looks state hphase
    case h_2 a endedAt state hphase => exact .looksBack state hphase
    case h_3 => exact .drops
  case h_5 state r =>
    unfold Phase.afterWrite
    split
    case h_1 a u hphase => exact .writes hphase
    case h_2 => exact .drops
  case h_6 family startedAt waitSeconds r =>
    unfold Phase.afterAnnounce
    split
    case h_1 a u hphase => exact .announces hphase
    case h_2 => exact .drops
  case h_7 call r => exact advance_begin (Or.inl ⟨call, rfl⟩) r
  case h_8 call r => exact advance_begin (Or.inr ⟨call, rfl⟩) r
  case h_9 => exact advance_end
  case h_10 => exact advance_end
  case h_11 hgranted hfailed hreleased _ _ _ _ _ _ _ =>
    split
    · exact advance_renewal
    · rename_i hnone
      refine .stays ?_
      have hrenewal : renewal? o = none := by
        simpa using hnone
      unfold upstreamOwner?
      split
      · cases r with
        | ok granted => exact (hgranted _ _ granted rfl HEq.rfl).elim
        | error e => exact (hfailed _ _ e rfl HEq.rfl).elim
      · exact (hreleased _ _ rfl HEq.rfl).elim
      · simp [hrenewal]

/-! ## What may be asked for -/

/-- The row `before_request` writes keeps what the spacing and the cooldown go by. -/
def KeepsLimits (previous state : RateState) : Prop :=
  state.name = previous.name ∧ state.lastRequestAt = previous.lastRequestAt ∧
    state.cooldownUntil = previous.cooldownUntil

/-- The row of a report takes the clock reading after the request as the time of the last one. -/
def Reports (endedAt now : Int) (previous state : RateState) : Prop :=
  state.name = previous.name ∧ state.lastRequestAt = some now ∧ endedAt ≤ now

/-- The operations a process may ask for, by phase. -/
def Allowed (d : Deployment) (mayUse : Nat → OwnerToken → Prop) (x : View) (o : Op) : Prop :=
  (x.phase.isFetching = true → o = .upstream .fetchEnd ∨ o = .upstream .listRecordsEnd) ∧
    (∀ owner, upstreamOwner? o = some owner → mayUse x.pid owner) ∧
    match o with
    | .rate (.getRateState name) =>
        name = Limiter.name ∧ (∀ since, x.phase = .acquired since → since ≤ x.now) ∧
          ∀ a endedAt, x.phase = .fetched a endedAt → endedAt ≤ x.now
    | .rate (.setRateState state) =>
        (∃ a, x.phase = .renewed a ∧ KeepsLimits a.state state ∧
          Limiter.activeCooldown a.state a.current = none) ∨
          ∃ a endedAt previous, x.phase = .reporting a endedAt previous ∧
            Reports endedAt x.now previous state
    | .rate (.recordEvent (.upstreamRequestStarted _ startedAt waitSeconds)) =>
        ∃ a, x.phase = .written a ∧ startedAt - waitSeconds = a.current
    | .upstream (.fetchBegin _) | .upstream (.listRecordsBegin _) =>
        ∃ a expiresAt, x.phase = .fenced a expiresAt ∧ a.due d ≤ x.clock ∧ a.readAt ≤ x.clock
    | _ => True

/-- The discipline of a process that uses the upstream through the limiter. -/
def conduct (d : Deployment) (mayUse : Nat → OwnerToken → Prop) : Discipline huldra View where
  allow := Allowed d mayUse
  next x o r x' := ∃ t s s', x.clock ≤ t ∧ Store.Performed o t r s s' ∧ x' = x.step o r t

/-- A new client begins where nothing is under way, or goes on with the report that is due. -/
structure Entry (Client : Type) where
  phase : Client → Phase → Int → Phase
  phase_cases : ∀ c p t, phase c p t = .idle ∨ phase c p t = .fetched p.admission? t

def monitor {Client Out : Type} {program : Client → Nat → Program Out} (entry : Entry Client) :
    Monitor (storeSystem Client Out program) View where
  initial pid := { pid := pid }
  start x c t := { x with clock := t, phase := entry.phase c x.phase t }
  step := View.step
  crash x := { x with phase := .idle }
  clock := View.clock
  clock_initial _ := Process.System.no_time
  clock_start _ _ t _ := Int.le_refl t
  clock_step _ _ _ t _ := Int.le_refl t
  clock_crash x := Int.le_refl x.clock

end Upstream
end Huldra
