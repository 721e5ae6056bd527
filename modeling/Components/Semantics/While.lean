import Components.Math.Linked

/-!
# Loops

`whileLoop cond body n s` runs the loop `while (cond) body` from `s` for fewer
than `n` rounds and returns the state in which the condition first fails, or
`none` when it has not failed by then. Over a finite state space a bound above the
number of states makes `none` mean that the loop never ends.

The rules for it are for loops that walk a chain of linked nodes, alone, with a
trailing pointer to the node before, or with a value that collects what it meets, and
for one that carries more along than another.

`forLoop body n s` runs `for (i = 0; i < n; ++i) body` for a body that may fault. Its
rules are an invariant indexed by the number of completed rounds, for a body that
completes or for a loop that has completed, and a relation between the rounds of two
loops of which the first has completed.
-/

namespace Components

variable {σ α : Type*}

/-- `while (cond s) s = body s;`, for at most `n` evaluations of the condition. -/
def whileLoop (cond : σ → Bool) (body : σ → σ) : ℕ → σ → Option σ
  | 0, _ => none
  | n + 1, s => if cond s then whileLoop cond body n (body s) else some s

variable {cond : α → Bool} {next : α → α} {p q : α} {l : List α} {n : ℕ}

theorem whileLoop_of_false {cond : σ → Bool} {body : σ → σ} {s : σ} (h : cond s = false)
    (hn : 0 < n) : whileLoop cond body n s = some s := by
  obtain ⟨n, rfl⟩ := Nat.exists_eq_succ_of_ne_zero hn.ne'
  simp [whileLoop, h]

theorem whileLoop_of_true {cond : σ → Bool} {body : σ → σ} {s : σ} (h : cond s = true) (n : ℕ) :
    whileLoop cond body (n + 1) s = whileLoop cond body n (body s) := by
  simp [whileLoop, h]

/-- A loop that carries more along runs as the one without. -/
theorem whileLoop_map {τ : Type*} (g : σ → τ) (cond : τ → Bool) {body : σ → σ} {body' : τ → τ}
    (step : ∀ s, g (body s) = body' (g s)) (n : ℕ) (s : σ) :
    (whileLoop (fun s => cond (g s)) body n s).map g = whileLoop cond body' n (g s) := by
  induction n generalizing s with
  | zero => rfl
  | succ n ih =>
    cases test : cond (g s) with
    | false => simp [whileLoop, test]
    | true =>
      rw [whileLoop_of_true (s := s) test, ih, step]
      exact (whileLoop_of_true test n).symm

/-- A walk along linked nodes stops at the first one where the condition fails. -/
theorem whileLoop_linked (linked : Linked next (l ++ [q])) (first : (l ++ [q]).head? = some p)
    (run : ∀ x ∈ l, cond x = true) (stop : cond q = false) (bound : l.length < n) :
    whileLoop cond next n p = some q := by
  induction l generalizing p n with
  | nil =>
    obtain rfl : q = p := by simpa using first
    exact whileLoop_of_false stop bound
  | cons r l ih =>
    obtain rfl : r = p := by simpa using first
    obtain ⟨n, rfl⟩ := Nat.exists_eq_succ_of_ne_zero (Nat.ne_of_gt (Nat.zero_lt_of_lt bound))
    rw [Nat.succ_eq_add_one, whileLoop_of_true (run r List.mem_cons_self)]
    exact ih linked.tail linked.head?_tail (fun x hx => run x (List.mem_cons_of_mem _ hx))
      (by simpa using bound)

/-- The same walk with a pointer to the previous node carried along. -/
theorem whileLoop_linked_trailing {prev : α} (linked : Linked next (prev :: l ++ [q]))
    (run : ∀ x ∈ l, cond x = true) (stop : cond q = false) (bound : l.length < n) :
    whileLoop (fun s : α × α => cond s.2) (fun s => (s.2, next s.2)) n
        (prev, next prev) = some ((prev :: l).getLast (List.cons_ne_nil _ _), q) := by
  induction l generalizing prev n with
  | nil =>
    have first : next prev = q := (Linked.cons_cons.mp linked).1
    rw [first]
    exact whileLoop_of_false stop bound
  | cons r l ih =>
    obtain ⟨first, rest⟩ := Linked.cons_cons.mp linked
    obtain ⟨n, rfl⟩ := Nat.exists_eq_succ_of_ne_zero (Nat.ne_of_gt (Nat.zero_lt_of_lt bound))
    rw [first, Nat.succ_eq_add_one, whileLoop_of_true (s := (prev, r)) (run r List.mem_cons_self),
      List.getLast_cons (List.cons_ne_nil _ _)]
    exact ih rest (fun x hx => run x (List.mem_cons_of_mem _ hx)) (by simpa using bound)

/-- The same walk with a value to which every node contributes. -/
theorem whileLoop_linked_fold {β : Type*} {f : β → α → β} {b : β} (linked : Linked next (l ++ [q]))
    (first : (l ++ [q]).head? = some p) (run : ∀ x ∈ l, cond x = true) (stop : cond q = false)
    (bound : l.length < n) :
    whileLoop (fun s : α × β => cond s.1) (fun s => (next s.1, f s.2 s.1)) n (p, b) =
      some (q, l.foldl f b) := by
  induction l generalizing p n b with
  | nil =>
    obtain rfl : q = p := by simpa using first
    exact whileLoop_of_false stop bound
  | cons r l ih =>
    obtain rfl : r = p := by simpa using first
    obtain ⟨n, rfl⟩ := Nat.exists_eq_succ_of_ne_zero (Nat.ne_of_gt (Nat.zero_lt_of_lt bound))
    rw [Nat.succ_eq_add_one, whileLoop_of_true (s := (r, b)) (run r List.mem_cons_self)]
    exact ih linked.tail linked.head?_tail (fun x hx => run x (List.mem_cons_of_mem _ hx))
      (by simpa using bound)

/-! ### Counted loops -/

/-- Binding a computation that completed. -/
@[simp] theorem ok_bind {ε σ β : Type} (s : σ) (f : σ → Except ε β) :
    (Except.ok s >>= f) = f s := rfl

/-- A sequence that completed has completed both parts. -/
theorem bind_eq_ok {ε σ β : Type} {x : Except ε σ} {f : σ → Except ε β} {b : β}
    (done : (x >>= f) = .ok b) : ∃ s, x = .ok s ∧ f s = .ok b := by
  cases x with
  | error e => cases done
  | ok s => exact ⟨s, rfl, done⟩

/-- Returning a value completes. -/
theorem pure_eq_ok {ε σ : Type} (s : σ) : (pure s : Except ε σ) = .ok s := rfl

/-- `for (i = 0; i < n; ++i) s = body i s;`. -/
def forLoop {ε : Type*} (body : ℕ → σ → Except ε σ) : ℕ → σ → Except ε σ
  | 0, s => .ok s
  | n + 1, s =>
    match forLoop body n s with
    | .ok s' => body n s'
    | .error e => .error e

theorem forLoop_succ {ε σ : Type} (body : ℕ → σ → Except ε σ) (n : ℕ) (s : σ) :
    forLoop body (n + 1) s = forLoop body n s >>= body n := by
  rw [forLoop]
  cases forLoop body n s with
  | error e => rfl
  | ok s' => rfl

/-- A loop whose body completes and takes the invariant from each round to the next
completes with the invariant of the last round. -/
theorem forLoop_of_invariant {ε : Type*} {body : ℕ → σ → Except ε σ} {s : σ} (Inv : ℕ → σ → Prop)
    (start : Inv 0 s)
    (step : ∀ i s, i < n → Inv i s → ∃ s', body i s = .ok s' ∧ Inv (i + 1) s') :
    ∃ s', forLoop body n s = .ok s' ∧ Inv n s' := by
  induction n with
  | zero => exact ⟨s, rfl, start⟩
  | succ n ih =>
    obtain ⟨s', done, inv⟩ := ih fun i t hi => step i t (hi.trans (Nat.lt_succ_self n))
    obtain ⟨s'', last, inv'⟩ := step n s' (Nat.lt_succ_self n) inv
    exact ⟨s'', by simp only [forLoop, done, last], inv'⟩

/-- When the body of a second loop follows every completed round of the first, the second
loop follows the first to its end. -/
theorem forLoop_simulates {ε τ : Type*} {body : ℕ → σ → Except ε σ} {body' : ℕ → τ → Except ε τ}
    {s s' : σ} {t : τ} (R : ℕ → σ → τ → Prop) (start : R 0 s t)
    (step : ∀ i s t s', i < n → R i s t → body i s = .ok s' →
      ∃ t', body' i t = .ok t' ∧ R (i + 1) s' t')
    (done : forLoop body n s = .ok s') : ∃ t', forLoop body' n t = .ok t' ∧ R n s' t' := by
  induction n generalizing s' with
  | zero =>
    cases done
    exact ⟨t, rfl, start⟩
  | succ n ih =>
    unfold forLoop at done
    split at done
    · rename_i before rounds
      obtain ⟨t', rounds', related⟩ :=
        ih (fun i s t s' hi => step i s t s' (hi.trans (Nat.lt_succ_self n))) rounds
      obtain ⟨t'', last, related'⟩ := step n before t' s' (Nat.lt_succ_self n) related done
      exact ⟨t'', by simp only [forLoop, rounds', last], related'⟩
    · cases done

/-- What the completed rounds of a loop preserve holds when the loop has completed. -/
theorem forLoop_invariant {ε : Type*} {body : ℕ → σ → Except ε σ} {s s' : σ} (Inv : ℕ → σ → Prop)
    (start : Inv 0 s) (step : ∀ i s s', i < n → Inv i s → body i s = .ok s' → Inv (i + 1) s')
    (done : forLoop body n s = .ok s') : Inv n s' := by
  have follow : ∃ t, forLoop (fun _ (t : Unit) => (.ok t : Except ε Unit)) n () = .ok t ∧
      Inv n s' :=
    forLoop_simulates (fun i s _ => Inv i s) start
      (fun i s _ s' hi inv taken => ⟨(), rfl, step i s s' hi inv taken⟩) done
  obtain ⟨-, -, inv⟩ := follow
  exact inv

end Components
