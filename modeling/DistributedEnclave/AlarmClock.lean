import Mathlib.Logic.Relation

/-! A signal that a process may block, the timer that raises it, and when it is due. -/
namespace DistributedEnclave.Alarms
open Relation

/-- The signal, its timer and the time. A signal that is raised again while it is pending is
still pending once. -/
structure Alarm where
  blocked : Bool := false
  pending : Bool := false
  due : Option Nat := none
  clock : Nat := 0

inductive Passes : Alarm → Alarm → Prop
  | tick (a : Alarm) : Passes a { a with clock := a.clock+1 }
  | expire {a : Alarm} {t : Nat} (hdue : a.due = some t) (h : t ≤ a.clock) :
    Passes a { a with due := none, pending := true }

def Alarm.Raised (a : Alarm) : Prop := a.pending = true ∧ a.blocked = false

def Alarm.taken (a : Alarm) : Alarm := { a with pending := false }

def Alarm.mask (a : Alarm) (blocked : Bool) : Alarm := { a with blocked := blocked }

def Alarm.set (a : Alarm) (due : Option Nat) : Alarm := { a with due := due }

structure Alarm.Quiet (a : Alarm) : Prop where
  due : a.due = none
  pending : a.pending = false

inductive Alarm.Armed (t : Nat) (a : Alarm) : Prop
  | waiting (due : a.due = some t) (pending : a.pending = false)
  | expired (due : a.due = none) (pending : a.pending = true) (h : t ≤ a.clock)

variable {a a' : Alarm} {t : Nat}

theorem Passes.blocked (h : Passes a a') : a'.blocked = a.blocked := by
  cases h with
  | tick => rfl
  | expire => rfl

/-- A timer that is off stays off. -/
theorem Passes.off (h : Passes a a') (hoff : a.due = none) : a'.due = none := by
  cases h with
  | tick => exact hoff
  | expire => rfl

theorem Alarm.Quiet.passes (hquiet : a.Quiet) (h : Passes a a') : a'.Quiet := by
  cases h with
  | tick => exact ⟨hquiet.due, hquiet.pending⟩
  | expire hdue _ =>
    rw [hquiet.due] at hdue
    cases hdue

theorem Alarm.Quiet.mask (hquiet : a.Quiet) (b : Bool) : (a.mask b).Quiet :=
  ⟨hquiet.due, hquiet.pending⟩

theorem Alarm.Quiet.not_raised (hquiet : a.Quiet) : ¬a.Raised := by
  intro hraised
  have hpending := hraised.1
  rw [hquiet.pending] at hpending
  cases hpending

/-- The timer of a quiet alarm is set. -/
theorem Alarm.Quiet.set (hquiet : a.Quiet) (t : Nat) : (a.set (some t)).Armed t :=
  .waiting rfl hquiet.pending

/-- The signal does not get lost, whether it is blocked or not. -/
theorem Alarm.Armed.passes (harmed : a.Armed t) (h : Passes a a') : a'.Armed t := by
  cases h with
  | tick =>
    cases harmed with
    | waiting hdue hpending => exact .waiting hdue hpending
    | expired hdue hpending hlate => exact .expired hdue hpending (Nat.le_succ_of_le hlate)
  | expire hdue hlate =>
    cases harmed with
    | waiting hset _ =>
      rw [hset] at hdue
      cases hdue
      exact .expired rfl rfl hlate
    | expired hoff _ _ =>
      rw [hoff] at hdue
      cases hdue

theorem Alarm.Armed.mask (harmed : a.Armed t) (b : Bool) : (a.mask b).Armed t := by
  cases harmed with
  | waiting hdue hpending => exact .waiting hdue hpending
  | expired hdue hpending hlate => exact .expired hdue hpending hlate

/-- The signal is not early. -/
theorem Alarm.Armed.late (harmed : a.Armed t) (hraised : a.Raised) : t ≤ a.clock := by
  cases harmed with
  | waiting _ hpending => exact absurd (hpending.symm.trans hraised.1) (by decide)
  | expired _ _ hlate => exact hlate

/-- From `t` on nothing else has to happen for the signal to come. -/
theorem Alarm.Armed.raised (harmed : a.Armed t) (hblocked : a.blocked = false)
    (hlate : t ≤ a.clock) : ∃ a', ReflTransGen Passes a a' ∧ a'.Raised := by
  cases harmed with
  | waiting hdue _ => exact ⟨_, .single (.expire hdue hlate), rfl, hblocked⟩
  | expired _ hpending _ => exact ⟨a, .refl, hpending, hblocked⟩

end DistributedEnclave.Alarms
