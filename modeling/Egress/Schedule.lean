/-!
Tasks side by side on one clock.

A task acts when its time has come and then waits again or is done. Time passes only when every task
waits: the clock moves to the earliest waking time, and of several tasks that wake then the first in the
list acts first. A task that waits for no time at all acts on at once.
-/

set_option autoImplicit false

namespace Egress

/-- What a task does at the end of its turn. -/
inductive Turn (τ ρ : Type)
  | wait (duration : Nat) (task : τ)
  | finish (result : ρ)

/-- A task on the clock. -/
inductive Course (τ ρ : Type)
  | pending (wake : Nat) (task : τ)
  | done (time : Nat) (result : ρ)

/-- The course of a task after its turn. -/
def Turn.course {τ ρ : Type} (now : Nat) : Turn τ ρ → Course τ ρ
  | .wait duration task => .pending (now + duration) task
  | .finish result => .done now result

/-- How tasks act on what they share. -/
structure Workshop (σ τ ρ : Type) where
  /-- One turn of a task. -/
  act : Nat → σ → τ → σ × Turn τ ρ
  /-- What happens by itself after one time and up to another. -/
  pass : Nat → Nat → σ → σ

namespace Schedule

variable {σ τ ρ : Type}

def earliest? : List (Course τ ρ) → Option Nat
  | [] => none
  | .done .. :: rest => earliest? rest
  | .pending wake _ :: rest => some ((earliest? rest).elim wake (min wake))

/-- Gives the first task that wakes at `wake` its turn. -/
def turn (w : Workshop σ τ ρ) (wake now : Nat) (shared : σ) :
    List (Course τ ρ) → σ × List (Course τ ρ)
  | [] => (shared, [])
  | .pending time task :: rest =>
    if time = wake then
      let (shared, next) := w.act now shared task
      (shared, next.course now :: rest)
    else
      let (shared, rest) := turn w wake now shared rest
      (shared, .pending time task :: rest)
  | .done time result :: rest =>
    let (shared, rest) := turn w wake now shared rest
    (shared, .done time result :: rest)

/-- The state of affairs when every task is done: the time, what they share, and their courses. -/
structure Outcome (σ τ ρ : Type) where
  now : Nat
  shared : σ
  courses : List (Course τ ρ)

/-- Gives turns until every task is done; `none` if `fuel` turns are not enough. -/
def run (w : Workshop σ τ ρ) : Nat → Nat → σ → List (Course τ ρ) → Option (Outcome σ τ ρ)
  | 0, _, _, _ => none
  | fuel + 1, now, shared, courses =>
    match earliest? courses with
    | none => some ⟨now, shared, courses⟩
    | some wake =>
      let time := max now wake
      let (shared, courses) := turn w wake time (w.pass now time shared) courses
      run w fuel time shared courses

/-- The results of the tasks that are done, with the times. -/
def results (courses : List (Course τ ρ)) : List (Nat × ρ) :=
  courses.filterMap fun
    | .done time result => some (time, result)
    | .pending .. => none

/-- Turns enough for any run that a machine can carry out. -/
def ampleFuel : Nat := 4611686018427387904

end Schedule

end Egress
