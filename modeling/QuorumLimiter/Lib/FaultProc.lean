import Mathlib.Logic.Basic

/-!
Procedures that call a store whose calls may fail or be cut short by a crash. A
plan decides the fate of each call from the calls made so far, so one plan fixes
one run and the plans together are all fault patterns. `wp` is the weakest
precondition of a run: `post` holds if it returns, `crashed` if it is cut short.
-/

inductive Fault
  | pass
  | fail
  | crash
  deriving DecidableEq, Repr

inductive CallError
  | failed
  deriving DecidableEq, Repr

structure Proc (ω σ α : Type) where
  run : (List ω → Fault) → List ω → σ → Option α × List ω × σ

namespace Proc

variable {ω σ α β : Type}

instance : Monad (Proc ω σ) where
  pure value := ⟨fun _ calls state => (some value, calls, state)⟩
  bind first next := ⟨fun plan calls state =>
    match first.run plan calls state with
    | (some value, calls, state) => (next value).run plan calls state
    | (none, calls, state) => (none, calls, state)⟩

def get : Proc ω σ σ := ⟨fun _ calls state => (some state, calls, state)⟩

def modify (update : σ → σ) : Proc ω σ Unit :=
  ⟨fun _ calls state => (some (), calls, update state)⟩

/-- One transaction: it takes effect as a whole, returns an error and changes
nothing, or never returns. -/
def perform (op : ω) (act : σ → Except CallError (α × σ)) : Proc ω σ (Except CallError α) :=
  ⟨fun plan calls state =>
    match plan (op :: calls) with
    | .pass =>
        match act state with
        | .ok (value, after) => (some (.ok value), op :: calls, after)
        | .error error => (some (.error error), op :: calls, state)
    | .fail => (some (.error .failed), op :: calls, state)
    | .crash => (none, op :: calls, state)⟩

def read (op : ω) (look : σ → α) : Proc ω σ (Except CallError α) :=
  perform op fun state => .ok (look state, state)

def write (op : ω) (update : σ → σ) : Proc ω σ (Except CallError Unit) :=
  perform op fun state => .ok ((), update state)

def wp (proc : Proc ω σ α) (plan : List ω → Fault) (post : α → List ω → σ → Prop)
    (crashed : σ → Prop) (calls : List ω) (state : σ) : Prop :=
  match proc.run plan calls state with
  | (some value, calls, after) => post value calls after
  | (none, _, after) => crashed after

section Rules

variable (plan : List ω → Fault) (crashed : σ → Prop) (calls : List ω) (state : σ)

@[simp] theorem wp_pure (post : α → List ω → σ → Prop) (value : α) :
    wp (pure value) plan post crashed calls state ↔ post value calls state := Iff.rfl

@[simp] theorem wp_get (post : σ → List ω → σ → Prop) :
    wp get plan post crashed calls state ↔ post state calls state := Iff.rfl

@[simp] theorem wp_modify (post : Unit → List ω → σ → Prop) (update : σ → σ) :
    wp (modify update) plan post crashed calls state ↔ post () calls (update state) := Iff.rfl

@[simp] theorem wp_bind (post : β → List ω → σ → Prop) (first : Proc ω σ α)
    (next : α → Proc ω σ β) :
    wp (first >>= next) plan post crashed calls state ↔
      wp first plan (fun value => wp (next value) plan post crashed) crashed calls state := by
  simp only [wp, bind]
  rcases first.run plan calls state with ⟨_ | value, later, after⟩ <;> rfl

theorem wp_perform (op : ω) (act : σ → Except CallError (α × σ))
    (post : Except CallError α → List ω → σ → Prop)
    (passed : plan (op :: calls) = .pass → ∀ value after, act state = .ok (value, after) →
      post (.ok value) (op :: calls) after)
    (refused : plan (op :: calls) = .pass → act state = .error .failed →
      post (.error .failed) (op :: calls) state)
    (failed : plan (op :: calls) = .fail → post (.error .failed) (op :: calls) state)
    (cut : plan (op :: calls) = .crash → crashed state) :
    wp (perform op act) plan post crashed calls state := by
  simp only [wp, perform]
  cases fate : plan (op :: calls) with
  | pass =>
      cases result : act state with
      | ok pair => exact passed fate pair.1 pair.2 result
      | error error =>
          cases error
          exact refused fate result
  | fail => exact failed fate
  | crash => exact cut fate

theorem wp_read (op : ω) (look : σ → α) (post : Except CallError α → List ω → σ → Prop)
    (passed : plan (op :: calls) = .pass → post (.ok (look state)) (op :: calls) state)
    (failed : plan (op :: calls) = .fail → post (.error .failed) (op :: calls) state)
    (cut : plan (op :: calls) = .crash → crashed state) :
    wp (read op look) plan post crashed calls state := by
  refine wp_perform plan crashed calls state op _ post ?_ ?_ failed cut
  · intro fate value after result
    cases result
    exact passed fate
  · intro _ result
    cases result

theorem wp_write (op : ω) (update : σ → σ) (post : Except CallError Unit → List ω → σ → Prop)
    (passed : plan (op :: calls) = .pass → post (.ok ()) (op :: calls) (update state))
    (failed : plan (op :: calls) = .fail → post (.error .failed) (op :: calls) state)
    (cut : plan (op :: calls) = .crash → crashed state) :
    wp (write op update) plan post crashed calls state := by
  refine wp_perform plan crashed calls state op _ post ?_ ?_ failed cut
  · intro fate value after result
    cases result
    exact passed fate
  · intro _ result
    cases result

theorem wp_mono (proc : Proc ω σ α) (strong weak : α → List ω → σ → Prop)
    (crashedStrong crashedWeak : σ → Prop)
    (holds : wp proc plan strong crashedStrong calls state)
    (post : ∀ value calls after, strong value calls after → weak value calls after)
    (crash : ∀ after, crashedStrong after → crashedWeak after) :
    wp proc plan weak crashedWeak calls state := by
  simp only [wp] at holds ⊢
  revert holds
  rcases proc.run plan calls state with ⟨_ | value, later, after⟩ <;> intro holds
  · exact crash after holds
  · exact post value later after holds

end Rules

end Proc
