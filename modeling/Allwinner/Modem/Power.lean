import Allwinner.Modem.Text

/-!
# Power driver of the modem

The state machine that drives the modem's pins. The pins it sets and the delays
between them are left out; the readings of the status pin are given by their
number, since the loop of `power_enabled` reads the pin anew in each iteration.
-/

namespace Allwinner.Modem

namespace Power

/-- `Power::Requested` without `DONT_CARE`, which `power_enabled` overwrites. -/
inductive Requested where
  | off | on
  deriving DecidableEq, Repr

inductive State where
  | unknown | off | startingUp | on | shuttingDown
  deriving DecidableEq, Repr

/-- `_drive_power_up`; the status pin is low once the modem is on. -/
def drivePowerUp (status : Bool) : State → State
  | .off => .startingUp
  | .startingUp => if status = false then .on else .startingUp
  | .unknown => .unknown
  | .on => .on
  | .shuttingDown => .shuttingDown

/-- `_drive_power_down`. -/
def drivePowerDown (status : Bool) : State → State
  | .unknown => .unknown
  | .off => .off
  | .startingUp => .shuttingDown
  | .on => .shuttingDown
  | .shuttingDown => if status = true then .off else .shuttingDown

/-- One iteration of the loop of `power_enabled`. -/
def drive : Requested → Bool → State → State
  | .on => drivePowerUp
  | .off => drivePowerDown

/-- The state the loop starts with. -/
def detect (status : Bool) : State → State
  | .unknown => if status then .off else .on
  | s => s

/-- At most `n` iterations of the loop, the next reading being number `i`; `none` if it
goes on after them. -/
def loop (requested : Requested) (status : Nat → Bool) : (n i : Nat) → State → Option State
  | 0, _, _ => none
  | n + 1, i, s =>
    let next := drive requested (status i) s
    if next = s then some s else loop requested status n (i + 1) next

-- ---------------------------------------------------------------------------
-- The loop ends
-- ---------------------------------------------------------------------------

/-- How many iterations may still change the state. -/
def rank : Requested → State → Nat
  | .on, .off => 2
  | .on, .startingUp => 1
  | .off, .startingUp => 2
  | .off, .on => 2
  | .off, .shuttingDown => 1
  | _, _ => 0

theorem rank_drive (h : drive r status s ≠ s) : rank r (drive r status s) < rank r s := by
  cases r <;> cases s <;> cases status <;> first | decide | exact absurd rfl h

theorem loop_isSome (h : rank r s < n) : (loop r status n i s).isSome := by
  induction n generalizing s i with
  | zero => exact absurd h (Nat.not_lt_zero _)
  | succ n ih =>
    unfold loop
    by_cases hs : drive r (status i) s = s
    · simp [hs]
    · have hlt := rank_drive hs
      simp only [hs, if_false]
      exact ih (by omega)

/-- `power_enabled`. -/
def powerEnabled (requested : Requested) (status : Nat → Bool) (s : State) : State :=
  let s := detect (status 0) s
  (loop requested status (rank requested s + 1) 1 s).get (loop_isSome (Nat.lt_succ_self _))

/-- Under a constant reading of the pin nothing is left to drive. -/
def Driven (r : Requested) (status : Bool) (s : State) : Prop :=
  s ≠ .unknown ∧ drive r status s = s

theorem loop_driven {b : Bool} (hs : s ≠ .unknown) (h : loop r (fun _ => b) n i s = some t) :
    Driven r b t := by
  induction n generalizing s i with
  | zero => cases h
  | succ n ih =>
    unfold loop at h
    by_cases hd : drive r b s = s
    · simp only [hd, if_true, Option.some.injEq] at h
      subst h
      exact ⟨hs, hd⟩
    · simp only [hd, if_false] at h
      refine ih ?_ h
      cases r <;> cases s <;> cases b <;> first | decide | exact absurd rfl hs

theorem driven_powerEnabled {b : Bool} : Driven r b (powerEnabled r (fun _ => b) s) := by
  have hs : detect b s ≠ .unknown := by
    cases s <;> cases b <;> decide
  exact loop_driven hs (Option.some_get _).symm

theorem powerEnabled_of_driven {b : Bool} (h : Driven r b s) : powerEnabled r (fun _ => b) s = s := by
  obtain ⟨hs, hd⟩ := h
  have hdet : detect b s = s := by
    cases s <;> first | rfl | exact absurd rfl hs
  have hloop : loop r (fun _ => b) (rank r s + 1) 1 s = some s := by
    simp [loop, hd]
  simp [powerEnabled, hdet, hloop]

example : powerEnabled .on (fun i => i = 0) .unknown = .on := by decide

end Power

end Allwinner.Modem
