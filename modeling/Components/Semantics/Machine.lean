import Mathlib.Data.List.Basic

/-!
# Runs of a fallible machine

A machine takes operations one after the other. Each operation is allowed in some
states, may fault, and otherwise leads to a next state and a result. An operation
list is *admissible* from a state when every operation is allowed where it is
taken.

## Main results

* `exists_run_of_invariant` — when every allowed operation completes and keeps an
  invariant, every admissible run completes and ends in a state that satisfies it
* `run_eq_error_iff` — where a run has faulted
* `run_assigned` — when some operations set a value and the others keep it, it is set
  after every completed run that took one of these
* `run_eq_of_bisimulation` — when every allowed operation keeps two states related
  and returns the same result in both, so does every admissible run
* `run_filter_of_simulation` — the same for a machine that skips some operations
* `run_of_simulation` — when a second machine follows every completed operation of the
  first, it follows every completed run
* `run_lockstep` — when two machines return the same results and the same faults, operation
  by operation, so do their runs
-/

namespace Components

/-- Operations of type `α` on states of type `σ`, with results in `ρ` and faults in
`ε`. -/
structure Machine (σ α ρ ε : Type*) where
  /-- Take one operation. -/
  step : σ → α → Except ε (σ × ρ)
  /-- The operations a state accepts. -/
  Allowed : σ → α → Prop

namespace Machine

variable {σ α ρ ε : Type*} {M : Machine σ α ρ ε}

/-- Take the operations in order and collect their results. -/
def run (M : Machine σ α ρ ε) : σ → List α → Except ε (σ × List ρ)
  | s, [] => .ok (s, [])
  | s, op :: ops =>
    match M.step s op with
    | .error e => .error e
    | .ok (s', r) =>
      match M.run s' ops with
      | .error e => .error e
      | .ok (s'', rs) => .ok (s'', r :: rs)

/-- Every operation is allowed in the state in which it is taken. -/
def Admissible (M : Machine σ α ρ ε) : σ → List α → Prop
  | _, [] => True
  | s, op :: ops => M.Allowed s op ∧ ∀ s' r, M.step s op = .ok (s', r) → M.Admissible s' ops

/-- Admissibility can be tested by running. -/
instance decidableAdmissible [∀ s op, Decidable (M.Allowed s op)] :
    ∀ s ops, Decidable (M.Admissible s ops)
  | _, [] => isTrue trivial
  | s, op :: ops =>
    match h : M.step s op with
    | .error e => decidable_of_iff (M.Allowed s op) (by simp [Admissible, h])
    | .ok (s', r) =>
      have := decidableAdmissible s' ops
      decidable_of_iff (M.Allowed s op ∧ M.Admissible s' ops) (by
        simp only [Admissible, h, Except.ok.injEq, Prod.mk.injEq, and_imp]
        refine and_congr_right fun _ => ⟨?_, fun all => all s' r rfl rfl⟩
        rintro rest _ _ rfl rfl
        exact rest)

variable {s s' s'' : σ} {op : α} {ops ops' : List α} {r : ρ} {rs rs' : List ρ}

theorem run_cons (first : M.step s op = .ok (s', r)) (rest : M.run s' ops = .ok (s'', rs)) :
    M.run s (op :: ops) = .ok (s'', r :: rs) := by
  simp [run, first, rest]

/-- A run that completes took its first operation and then ran the rest. -/
theorem run_cons_inv (h : M.run s (op :: ops) = .ok (s'', rs)) :
    ∃ s' r rs', M.step s op = .ok (s', r) ∧ M.run s' ops = .ok (s'', rs') ∧ rs = r :: rs' := by
  unfold run at h
  split at h
  · cases h
  · rename_i s' r first
    split at h
    · cases h
    · rename_i t rs' rest
      cases h
      exact ⟨s', r, rs', first, rest, rfl⟩

/-- One run after the other. -/
theorem run_append (first : M.run s ops = .ok (s', rs)) (rest : M.run s' ops' = .ok (s'', rs')) :
    M.run s (ops ++ ops') = .ok (s'', rs ++ rs') := by
  induction ops generalizing s rs with
  | nil =>
    cases first
    exact rest
  | cons op ops ih =>
    obtain ⟨t, r, rs₁, taken, more, rfl⟩ := run_cons_inv first
    exact run_cons taken (ih more)

/-- A completed run has one result for each operation. -/
theorem length_run (done : M.run s ops = .ok (s', rs)) : rs.length = ops.length := by
  induction ops generalizing s rs with
  | nil =>
    cases done
    rfl
  | cons op ops ih =>
    obtain ⟨t, r, rs', first, rest, rfl⟩ := run_cons_inv done
    rw [List.length_cons, List.length_cons, ih rest]

/-- A run that completes has completed its first part, and then the second. -/
theorem run_append_inv (done : M.run s (ops ++ ops') = .ok (s'', rs)) :
    ∃ s' rs₁ rs₂, M.run s ops = .ok (s', rs₁) ∧ M.run s' ops' = .ok (s'', rs₂) ∧
      rs = rs₁ ++ rs₂ := by
  induction ops generalizing s rs with
  | nil => exact ⟨s, [], rs, rfl, done, rfl⟩
  | cons op ops ih =>
    obtain ⟨t, r, rs', first, rest, rfl⟩ := run_cons_inv done
    obtain ⟨s', rs₁, rs₂, left, right, rfl⟩ := ih rest
    exact ⟨s', r :: rs₁, rs₂, run_cons first left, right, rfl⟩

/-- What every completed operation preserves holds when a run has completed. -/
theorem run_invariant {Inv : σ → Prop}
    (step : ∀ s op s' r, Inv s → M.step s op = .ok (s', r) → Inv s') (start : Inv s)
    (done : M.run s ops = .ok (s', rs)) : Inv s' := by
  induction ops generalizing s rs with
  | nil =>
    cases done
    exact start
  | cons op ops ih =>
    obtain ⟨t, r, rs', first, rest, rfl⟩ := run_cons_inv done
    exact ih (step s op t r start first) rest

/-- A run that faults has completed the operations before the one that did. -/
theorem run_eq_error_iff {e : ε} : M.run s ops = .error e ↔
    ∃ before op after s' rs, ops = before ++ op :: after ∧ M.run s before = .ok (s', rs) ∧
      M.step s' op = .error e := by
  constructor
  · intro fault
    induction ops generalizing s with
    | nil => cases fault
    | cons op ops ih =>
      unfold run at fault
      cases first : M.step s op with
      | error e' =>
        rw [first] at fault
        cases fault
        exact ⟨[], op, ops, s, [], rfl, rfl, first⟩
      | ok out =>
        obtain ⟨s', r⟩ := out
        have rest : M.run s' ops = .error e := by
          rw [first] at fault
          cases more : M.run s' ops with
          | error e' => simpa [more] using fault
          | ok _ => simp [more] at fault
        obtain ⟨before, op', after, s'', rs, rfl, run, step⟩ := ih rest
        exact ⟨op :: before, op', after, s'', r :: rs, rfl, run_cons first run, step⟩
  · rintro ⟨before, op, after, s', rs, rfl, run, step⟩
    induction before generalizing s rs with
    | nil =>
      cases run
      simp [Machine.run, step]
    | cons op' before ih =>
      obtain ⟨t, r, rs', first, rest, rfl⟩ := run_cons_inv run
      simp [Machine.run, first, ih rs' rest]

/-- When every allowed operation completes and keeps `Inv`, so does every admissible
run. -/
theorem exists_run_of_invariant {Inv : σ → Prop}
    (step : ∀ s op, Inv s → M.Allowed s op → ∃ s' r, M.step s op = .ok (s', r) ∧ Inv s')
    (start : Inv s) (adm : M.Admissible s ops) : ∃ s' rs, M.run s ops = .ok (s', rs) ∧ Inv s' := by
  induction ops generalizing s with
  | nil => exact ⟨s, [], rfl, start⟩
  | cons op ops ih =>
    obtain ⟨s', r, taken, inv⟩ := step s op start adm.1
    obtain ⟨s'', rs, rest, inv'⟩ := ih inv (adm.2 s' r taken)
    exact ⟨s'', r :: rs, run_cons taken rest, inv'⟩

/-- A value that some operations set and the others keep: after a completed run it is the
one that is set if one of these was taken, and the old one otherwise. -/
theorem run_assigned {β : Type*} {value : σ → β} {v : β} {Sets : α → Prop} [DecidablePred Sets]
    {Inv : σ → Prop}
    (step : ∀ s op s' r, Inv s → M.Allowed s op → M.step s op = .ok (s', r) →
      Inv s' ∧ value s' = if Sets op then v else value s)
    (start : Inv s) (adm : M.Admissible s ops) (done : M.run s ops = .ok (s'', rs)) :
    Inv s'' ∧ value s'' = if ∃ op ∈ ops, Sets op then v else value s := by
  induction ops generalizing s rs with
  | nil =>
    cases done
    exact ⟨start, by simp⟩
  | cons op ops ih =>
    obtain ⟨s', r, rs', first, rest, rfl⟩ := run_cons_inv done
    obtain ⟨inv, next⟩ := step s op s' r start adm.1 first
    obtain ⟨inv', last⟩ := ih inv (adm.2 s' r first) rest
    refine ⟨inv', ?_⟩
    rw [last, next]
    by_cases later : ∃ op ∈ ops, Sets op
    · rw [if_pos later, if_pos ((List.exists_mem_cons_iff _ _ _).mpr (.inr later))]
    · simp only [List.exists_mem_cons_iff, later, or_false, if_false]

/-- The results of the operations that pass the test, given the results of all. -/
def select (keep : α → Bool) (ops : List α) (rs : List ρ) : List ρ :=
  ((ops.zip rs).filter fun entry => keep entry.1).map Prod.snd

/-- Two machines of which the second takes only some of the operations. Related
states allow these operations alike and return the same results; the first machine
takes the others alone. -/
theorem run_filter_of_simulation {τ : Type*} {N : Machine τ α ρ ε} {t : τ} {R : σ → τ → Prop}
    (keep : α → Bool)
    (both : ∀ s t op, keep op → R s t → M.Allowed s op → N.Allowed t op ∧
      ∃ s' t' r, M.step s op = .ok (s', r) ∧ N.step t op = .ok (t', r) ∧ R s' t')
    (alone : ∀ s t op, ¬ keep op → R s t → M.Allowed s op →
      ∃ s' r, M.step s op = .ok (s', r) ∧ R s' t)
    (start : R s t) (adm : M.Admissible s ops) :
    N.Admissible t (ops.filter keep) ∧
      ∃ s' t' rs, M.run s ops = .ok (s', rs) ∧
        N.run t (ops.filter keep) = .ok (t', select keep ops rs) ∧ R s' t' := by
  induction ops generalizing s t with
  | nil => exact ⟨trivial, s, t, [], rfl, rfl, start⟩
  | cons op ops ih =>
    by_cases kept : keep op
    · obtain ⟨allowed, s', t', r, left, right, related⟩ := both s t op kept start adm.1
      obtain ⟨rest, s'', t'', rs, lefts, rights, ends⟩ := ih related (adm.2 s' r left)
      have selected : select keep (op :: ops) (r :: rs) = r :: select keep ops rs := by
        simp [select, kept]
      rw [List.filter_cons_of_pos kept]
      refine ⟨⟨allowed, fun t₁ r₁ taken => ?_⟩, s'', t'', r :: rs, run_cons left lefts, ?_, ends⟩
      · cases right.symm.trans taken
        exact rest
      · rw [selected]
        exact run_cons right rights
    · obtain ⟨s', r, left, related⟩ := alone s t op kept start adm.1
      obtain ⟨rest, s'', t'', rs, lefts, rights, ends⟩ := ih related (adm.2 s' r left)
      have selected : select keep (op :: ops) (r :: rs) = select keep ops rs := by
        simp [select, kept]
      rw [List.filter_cons_of_neg kept]
      exact ⟨rest, s'', t'', r :: rs, run_cons left lefts, selected ▸ rights, ends⟩

/-- Two machines in step: related states allow the same operations, which return the
same results and keep the states related. -/
theorem run_eq_of_bisimulation {τ : Type*} {N : Machine τ α ρ ε} {t : τ} {R : σ → τ → Prop}
    (step : ∀ s t op, R s t → M.Allowed s op → N.Allowed t op ∧
      ∃ s' t' r, M.step s op = .ok (s', r) ∧ N.step t op = .ok (t', r) ∧ R s' t')
    (start : R s t) (adm : M.Admissible s ops) :
    N.Admissible t ops ∧
      ∃ s' t' rs, M.run s ops = .ok (s', rs) ∧ N.run t ops = .ok (t', rs) ∧ R s' t' := by
  induction ops generalizing s t with
  | nil => exact ⟨trivial, s, t, [], rfl, rfl, start⟩
  | cons op ops ih =>
    obtain ⟨allowed, s', t', r, left, right, related⟩ := step s t op start adm.1
    obtain ⟨rest, s'', t'', rs, lefts, rights, ends⟩ := ih related (adm.2 s' r left)
    refine ⟨⟨allowed, fun t₁ r₁ taken => ?_⟩, s'', t'', r :: rs, run_cons left lefts,
      run_cons right rights, ends⟩
    cases right.symm.trans taken
    exact rest

/-- A second machine that follows every operation the first one completes follows its
runs, with the same results. -/
theorem run_of_simulation {τ : Type*} {N : Machine τ α ρ ε} {t : τ} {R : σ → τ → Prop}
    (step : ∀ s t op s' r, R s t → M.Allowed s op → M.step s op = .ok (s', r) →
      N.Allowed t op ∧ ∃ t', N.step t op = .ok (t', r) ∧ R s' t')
    (start : R s t) (adm : M.Admissible s ops) (done : M.run s ops = .ok (s'', rs)) :
    N.Admissible t ops ∧ ∃ t', N.run t ops = .ok (t', rs) ∧ R s'' t' := by
  induction ops generalizing s t rs with
  | nil =>
    cases done
    exact ⟨trivial, t, rfl, start⟩
  | cons op ops ih =>
    obtain ⟨s', r, rs', first, rest, rfl⟩ := run_cons_inv done
    obtain ⟨allowed, t', first', related⟩ := step s t op s' r start adm.1 first
    obtain ⟨adm', t'', rest', related'⟩ := ih related (adm.2 s' r first) rest
    refine ⟨⟨allowed, fun t₁ r₁ taken => ?_⟩, t'', run_cons first' rest', related'⟩
    cases first'.symm.trans taken
    exact adm'

/-- The same fault, or the same result in related states. -/
def Lockstep {τ ρ' : Type*} (R : σ → τ → Prop) : Except ε (σ × ρ') → Except ε (τ × ρ') → Prop
  | .ok (s, r), .ok (t, r') => r = r' ∧ R s t
  | .error e, .error e' => e = e'
  | _, _ => False

/-- Two machines in lockstep have the same runs, faults included. -/
theorem run_lockstep {τ : Type*} {N : Machine τ α ρ ε} {t : τ} {R : σ → τ → Prop}
    (step : ∀ s t op, R s t → Lockstep R (M.step s op) (N.step t op)) (start : R s t)
    (ops : List α) : Lockstep R (M.run s ops) (N.run t ops) := by
  induction ops generalizing s t with
  | nil => exact ⟨rfl, start⟩
  | cons op ops ih =>
    have first := step s t op start
    simp only [run]
    generalize M.step s op = x at first
    generalize N.step t op = y at first
    match x, y, first with
    | .error _, .error _, first => exact first
    | .ok (s', r), .ok (t', _), ⟨rfl, related⟩ =>
      have rest := ih related
      simp only
      generalize M.run s' ops = xs at rest
      generalize N.run t' ops = ys at rest
      -- the rest of the run ends alike, and the first result is put in front of it
      match xs, ys, rest with
      | .error _, .error _, rest => exact rest
      | .ok _, .ok _, ⟨results, ends⟩ => exact ⟨congrArg (r :: ·) results, ends⟩

/-- What the second of two runs in lockstep completes, the first does. -/
theorem Lockstep.exists_ok {τ ρ' : Type*} {R : σ → τ → Prop} {x : Except ε (σ × ρ')} {t : τ}
    {r : ρ'} (same : Lockstep R x (.ok (t, r))) : ∃ s, x = .ok (s, r) ∧ R s t := by
  match x, same with
  | .ok (s, _), ⟨rfl, related⟩ => exact ⟨s, rfl, related⟩

theorem Lockstep.exists_ok_right {τ ρ' : Type*} {R : σ → τ → Prop} {s : σ} {r : ρ'}
    {y : Except ε (τ × ρ')} (same : Lockstep R (.ok (s, r)) y) : ∃ t, y = .ok (t, r) ∧ R s t := by
  match y, same with
  | .ok (t, _), ⟨rfl, related⟩ => exact ⟨t, rfl, related⟩

theorem exists_ok_of_map_snd {ρ' : Type*} {x : Except ε (σ × ρ')} {r : ρ'}
    (done : x.map Prod.snd = .ok r) : ∃ s, x = .ok (s, r) := by
  match x, done with
  | .ok (s, _), rfl => exact ⟨s, rfl⟩

/-- The results of runs in lockstep are the same. -/
theorem Lockstep.map_snd {τ ρ' : Type*} {R : σ → τ → Prop} {x : Except ε (σ × ρ')}
    {y : Except ε (τ × ρ')} (same : Lockstep R x y) : x.map Prod.snd = y.map Prod.snd := by
  match x, y, same with
  | .ok (_, _), .ok (_, _), same => exact congrArg Except.ok same.1
  | .error _, .error _, same => exact congrArg Except.error same

end Machine

end Components
