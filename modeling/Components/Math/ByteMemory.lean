import Mathlib.Algebra.Order.Ring.Nat

/-!
# Byte-addressed memory with 32-bit little-endian accesses

Memory maps addresses to bytes. A 32-bit load assembles four consecutive bytes,
least significant first, and a store scatters a word over them, so that two
accesses interfere exactly when their four-byte ranges overlap.

## Main results

* `load32_store32_self` — a load reads back the word stored at its address
* `load32_store32_of_disjoint` — a store leaves disjoint words alone
* `store32_apply_of_outside` — a store leaves every byte outside its range alone
* `store32_congr_on`, `load32_congr` — accesses depend on memory only through the
  bytes they touch
-/

namespace Components

/-- Memory: a byte at every address. -/
abbrev ByteMemory := ℕ → UInt8

namespace ByteMemory

variable {m m' : ByteMemory} {a b v x : ℕ}

/-- The little-endian word at addresses `a` to `a + 3`. -/
def load32 (m : ByteMemory) (a : ℕ) : ℕ :=
  (m a).toNat + 2 ^ 8 * (m (a + 1)).toNat + 2 ^ 16 * (m (a + 2)).toNat +
    2 ^ 24 * (m (a + 3)).toNat

/-- Store the word `v` at addresses `a` to `a + 3`. -/
def store32 (m : ByteMemory) (a v : ℕ) : ByteMemory := fun x =>
  if x = a then UInt8.ofNat v
  else if x = a + 1 then UInt8.ofNat (v / 2 ^ 8)
  else if x = a + 2 then UInt8.ofNat (v / 2 ^ 16)
  else if x = a + 3 then UInt8.ofNat (v / 2 ^ 24)
  else m x

theorem store32_apply_of_outside (h : x < a ∨ a + 4 ≤ x) : store32 m a v x = m x := by
  have h₀ : x ≠ a := by omega
  have h₁ : x ≠ a + 1 := by omega
  have h₂ : x ≠ a + 2 := by omega
  have h₃ : x ≠ a + 3 := by omega
  simp [store32, h₀, h₁, h₂, h₃]

theorem load32_store32_self (hv : v < 2 ^ 32) : load32 (store32 m a v) a = v := by
  simp only [load32, store32, ↓reduceIte, Nat.add_eq_left, one_ne_zero, OfNat.ofNat_ne_zero,
    Nat.reduceEqDiff, UInt8.toNat_ofNat']
  omega

theorem load32_lt (m : ByteMemory) (a : ℕ) : m.load32 a < 2 ^ 32 := by
  have h₀ := (m a).toNat_lt
  have h₁ := (m (a + 1)).toNat_lt
  have h₂ := (m (a + 2)).toNat_lt
  have h₃ := (m (a + 3)).toNat_lt
  unfold load32
  omega

theorem load32_congr (h : ∀ x, a ≤ x → x < a + 4 → m x = m' x) : load32 m a = load32 m' a := by
  simp only [load32, h a le_rfl (by omega), h (a + 1) (by omega) (by omega),
    h (a + 2) (by omega) (by omega), h (a + 3) (by omega) (by omega)]

theorem load32_store32_of_disjoint (h : a + 4 ≤ b ∨ b + 4 ≤ a) :
    load32 (store32 m a v) b = load32 m b :=
  load32_congr fun x _ _ => store32_apply_of_outside (by omega)

/-- Equal stores keep two memories equal wherever they were. -/
theorem store32_congr_on {p : ℕ → Prop} (h : ∀ x, p x → m x = m' x) (a v : ℕ) :
    ∀ x, p x → store32 m a v x = store32 m' a v x := by
  intro x hx
  simp only [store32, h x hx]

end ByteMemory

end Components
