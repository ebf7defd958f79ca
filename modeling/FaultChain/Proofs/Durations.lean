import FaultChain.Number.Duration

/-!
# Durations as integers

A duration counts nanoseconds in 64 bits. What is computed with it is exact as long as it fits, and
the exact number modulo `2 ^ 64` otherwise.

* `Duration.toInt_ofSeconds`, `Duration.toInt_ofSeconds_eq_iff`: a number of seconds as a duration.
* `Duration.toInt_add_eq_bmod`, `Duration.toInt_add`: the sum of two durations.
-/

namespace FaultChain
namespace Duration

/-- The largest number of whole seconds in a duration. -/
def mostSeconds : Int := 9223372036

theorem lt_iff_toInt_lt {a b : Duration} : a < b ↔ a.toInt < b.toInt := Int64.lt_iff_toInt_lt

theorem le_iff_toInt_le {a b : Duration} : a ≤ b ↔ a.toInt ≤ b.toInt := Int64.le_iff_toInt_le

theorem toInt_bounds (d : Duration) : -(Word64.half : Int) ≤ d.toInt ∧ d.toInt < Word64.half :=
  ⟨Int64.le_toInt d.nanos, Int64.toInt_lt d.nanos⟩

/-! ## Seconds -/

theorem toInt_ofSeconds (n : Int) :
    (ofSeconds n).toInt = (n * 1000000000).bmod Word64.count := Int64.toInt_ofInt

/-- A positive number of seconds is kept exactly if it is not too large. -/
theorem toInt_ofSeconds_eq_iff {n : Int} (hn : 0 < n) :
    (ofSeconds n).toInt = n * 1000000000 ↔ n ≤ mostSeconds := by
  have hbounds := toInt_bounds (ofSeconds n)
  simp only [mostSeconds, Word64.half] at *
  constructor
  · intro heq
    omega
  · intro hle
    rw [toInt_ofSeconds]
    exact Int.bmod_eq_of_le (by simp only [Word64.count]; omega) (by simp only [Word64.count]; omega)

/-! ## Sums -/

theorem toInt_add_eq_bmod (a b : Duration) :
    (a + b).toInt = (a.toInt + b.toInt).bmod Word64.count := Int64.toInt_add a.nanos b.nanos

/-- Without overflow the durations add up. -/
theorem toInt_add {a b : Duration} (ha : 0 ≤ a.toInt) (hb : 0 ≤ b.toInt)
    (hfits : a.toInt + b.toInt < Word64.half) : (a + b).toInt = a.toInt + b.toInt := by
  rw [toInt_add_eq_bmod]
  simp only [Word64.half] at hfits
  exact Int.bmod_eq_of_le (by simp only [Word64.count]; omega) (by simp only [Word64.count]; omega)

/-- With overflow, or without, a sum that is not seen to be greater than a duration is not greater
exactly if it fits. -/
theorem add_le_iff {a b d : Duration} (ha : 0 ≤ a.toInt) (hb : 0 ≤ b.toInt) (h : a + b ≤ d) :
    a.toInt + b.toInt ≤ d.toInt ↔ a.toInt + b.toInt < Word64.half := by
  constructor
  · intro hle
    exact Int.lt_of_le_of_lt hle (toInt_bounds d).2
  · intro hfits
    rw [← toInt_add ha hb hfits]
    exact le_iff_toInt_le.mp h

end Duration
end FaultChain
