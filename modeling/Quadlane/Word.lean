/-! Integers of 64 bits. Counters, sizes and offsets are integers that wrap around at 64 bits in two's
complement; the operations that can leave the range say so by `wrap`. -/

namespace Quadlane

/-- The number in `[-2 ^ 63, 2 ^ 63)` that is congruent to `i` modulo `2 ^ 64`. -/
def wrap (i : Int) : Int :=
  (Int64.ofInt i).toInt

theorem wrap_eq_bmod (i : Int) : wrap i = i.bmod 0x10000000000000000 :=
  Int64.toInt_ofInt

theorem wrap_of_mem {i : Int} (lower : -0x8000000000000000 ≤ i) (upper : i < 0x8000000000000000) :
    wrap i = i := by
  rw [wrap_eq_bmod, Int.bmod_def]
  split <;> omega

end Quadlane
