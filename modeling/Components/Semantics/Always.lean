import Mathlib.Data.List.Basic

/-!
# What holds in every state of a run

A system takes events one after the other, and every event leads to a next state.
`Always` says that a property holds in every state that a run visits, `Avoids` that no
event of the run is a bad one where it is taken.

## Main results

* `Avoids.foldl` — what the good events keep holds at the end of a run without bad events
* `Avoids.foldl_related` — the same for a relation between two systems
* `always_iff_avoids` — when an invariant gives the property, the good events keep it,
  and a bad event breaks the property at once, then exactly the runs without bad events
  have the property throughout
* `always_iff_avoids_within` — the same among the runs that avoid some other events
-/

namespace Components

variable {σ α : Type*} {step : σ → α → σ} {s : σ} {events : List α}

/-- The property holds in every state that the run visits. -/
def Always (step : σ → α → σ) (Q : σ → Prop) : σ → List α → Prop
  | s, [] => Q s
  | s, event :: events => Q s ∧ Always step Q (step s event) events

/-- No event of the run is bad in the state in which it is taken. -/
def Avoids (step : σ → α → σ) (Bad : σ → α → Prop) : σ → List α → Prop
  | _, [] => True
  | s, event :: events => ¬ Bad s event ∧ Avoids step Bad (step s event) events

/-- Whether a property holds throughout can be tested by running. -/
instance decidableAlways {Q : σ → Prop} [∀ s, Decidable (Q s)] :
    ∀ s events, Decidable (Always step Q s events)
  | s, [] => inferInstanceAs (Decidable (Q s))
  | s, event :: events =>
    have := decidableAlways (Q := Q) (step s event) events
    inferInstanceAs (Decidable (Q s ∧ Always step Q (step s event) events))

theorem Always.head {Q : σ → Prop} (h : Always step Q s events) : Q s := by
  cases events with
  | nil => exact h
  | cons event events => exact h.1

/-- Whether a run avoids bad events can be tested by running. -/
instance decidableAvoids {Bad : σ → α → Prop} [∀ s event, Decidable (Bad s event)] :
    ∀ s events, Decidable (Avoids step Bad s events)
  | _, [] => isTrue trivial
  | s, event :: events =>
    have : Decidable (Avoids step Bad (step s event) events) := decidableAvoids _ events
    inferInstanceAs (Decidable (¬ Bad s event ∧ Avoids step Bad (step s event) events))

namespace Avoids

variable {Bad : σ → α → Prop}

/-- Two systems take the same events. What relates them is kept by the good ones. -/
theorem foldl_related {τ : Type*} {step' : τ → α → τ} {t : τ} {R : σ → τ → Prop}
    (keep : ∀ s t event, R s t → ¬ Bad s event → R (step s event) (step' t event))
    (start : R s t) (good : Avoids step Bad s events) :
    R (events.foldl step s) (events.foldl step' t) := by
  induction events generalizing s t with
  | nil => exact start
  | cons event events ih => exact ih (keep s t event start good.1) good.2

/-- What the good events keep holds at the end. -/
theorem foldl {Inv : σ → Prop} (keep : ∀ s event, Inv s → ¬ Bad s event → Inv (step s event))
    (start : Inv s) (good : Avoids step Bad s events) : Inv (events.foldl step s) := by
  induction events generalizing s with
  | nil => exact start
  | cons event events ih => exact ih (keep s event start good.1) good.2

/-- Two parts of a run. -/
theorem append {later : List α} (good : Avoids step Bad s events)
    (good' : Avoids step Bad (events.foldl step s) later) :
    Avoids step Bad s (events ++ later) := by
  induction events generalizing s with
  | nil => exact good'
  | cons first events ih => exact ⟨good.1, ih good.2 good'⟩

/-- One more event. -/
theorem concat {event : α} (good : Avoids step Bad s events)
    (last : ¬ Bad (events.foldl step s) event) : Avoids step Bad s (events ++ [event]) :=
  good.append ⟨last, trivial⟩

end Avoids

theorem avoids_concat_iff {Bad : σ → α → Prop} {event : α} : Avoids step Bad s (events ++ [event]) ↔
    Avoids step Bad s events ∧ ¬ Bad (events.foldl step s) event := by
  induction events generalizing s with
  | nil => exact ⟨fun h => ⟨trivial, h.1⟩, fun h => ⟨h.2, trivial⟩⟩
  | cons first events ih =>
    constructor
    · rintro ⟨good, later⟩
      exact ⟨⟨good, (ih.mp later).1⟩, (ih.mp later).2⟩
    · rintro ⟨⟨good, later⟩, last⟩
      exact ⟨good, ih.mpr ⟨later, last⟩⟩

/-- Among the runs that avoid some other events, exactly those without bad events have the
property throughout. -/
theorem always_iff_avoids_within {Q : σ → Prop} {Bad Other : σ → α → Prop} (Inv : σ → Prop)
    (holds : ∀ s, Inv s → Q s)
    (keep : ∀ s event, Inv s → ¬ Other s event → ¬ Bad s event → Inv (step s event))
    (broken : ∀ s event, Inv s → ¬ Other s event → Bad s event → ¬ Q (step s event))
    (start : Inv s) (within : Avoids step Other s events) :
    Always step Q s events ↔ Avoids step Bad s events := by
  induction events generalizing s with
  | nil => exact ⟨fun _ => trivial, fun _ => holds s start⟩
  | cons event events ih =>
    constructor
    · rintro ⟨-, later⟩
      -- a bad first event would show in the next state
      have good : ¬ Bad s event := fun bad => broken s event start within.1 bad later.head
      exact ⟨good, (ih (keep s event start within.1 good) within.2).mp later⟩
    · rintro ⟨good, later⟩
      exact ⟨holds s start, (ih (keep s event start within.1 good) within.2).mpr later⟩

theorem avoids_false (s : σ) (events : List α) : Avoids step (fun _ _ => False) s events := by
  induction events generalizing s with
  | nil => trivial
  | cons event events ih => exact ⟨id, ih _⟩

/-- Exactly the runs without bad events have the property throughout. -/
theorem always_iff_avoids {Q : σ → Prop} {Bad : σ → α → Prop} (Inv : σ → Prop)
    (holds : ∀ s, Inv s → Q s) (keep : ∀ s event, Inv s → ¬ Bad s event → Inv (step s event))
    (broken : ∀ s event, Inv s → Bad s event → ¬ Q (step s event)) (start : Inv s) :
    Always step Q s events ↔ Avoids step Bad s events :=
  always_iff_avoids_within Inv holds (fun s event inv _ => keep s event inv)
    (fun s event inv _ => broken s event inv) start (avoids_false s events)

end Components
