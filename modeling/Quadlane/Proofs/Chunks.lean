import Mathlib
import Quadlane.Machine.Exec

/-! The 64-bit arithmetic of a call. As long as the number of instances and the chunk size add up to
less than `2 ^ 63`, nothing wraps: the number of chunks is the quotient rounded up, and chunk `k`
holds the instances from `k * chunkSize` on. Where the sum wraps, no chunk is run at all. -/

namespace Quadlane

theorem wrap_lower (i : Int) : -2 ^ 63 ≤ wrap i := by
  rw [wrap_eq_bmod]
  have := Int.le_bmod (x := i) (m := 0x10000000000000000) (by decide)
  omega

theorem wrap_upper (i : Int) : wrap i < 2 ^ 63 := by
  rw [wrap_eq_bmod]
  have := Int.bmod_lt (x := i) (m := 0x10000000000000000) (by decide)
  omega

theorem wrap_eq_self_iff (i : Int) : wrap i = i ↔ -2 ^ 63 ≤ i ∧ i < 2 ^ 63 := by
  constructor
  · intro h
    rw [← h]
    exact ⟨wrap_lower i, wrap_upper i⟩
  · rintro ⟨lower, upper⟩
    exact wrap_of_mem (by omega) (by omega)

theorem wrap_wrap_sub (i j : Int) : wrap (wrap i - j) = wrap (i - j) := by
  simp only [wrap_eq_bmod, Int.bmod_sub_bmod]

theorem wrap_of_overflow {i : Int} (lower : 2 ^ 63 ≤ i) (upper : i < 2 ^ 64) :
    wrap i = i - 2 ^ 64 := by
  rw [wrap_eq_bmod, Int.bmod_def]
  split <;> omega

namespace Machine

variable {m : Machine} {count : Int}

theorem hasScratch_iff (hc : 1 ≤ m.chunkSize) :
    m.hasScratch = true ↔ Limit.temporaries * m.chunkSize < 2 ^ 63 := by
  rw [hasScratch, scratchSize, beq_iff_eq, wrap_eq_self_iff]
  simp only [Limit.temporaries]
  omega

theorem chunkCount_of_fits (h0 : 0 ≤ count) (hc : 1 ≤ m.chunkSize)
    (hfits : count + m.chunkSize - 1 < 2 ^ 63) :
    m.chunkCount count = (count + m.chunkSize - 1) / m.chunkSize := by
  rw [chunkCount, wrap_wrap_sub, wrap_of_mem (by omega) (by omega)]
  exact Int.tdiv_eq_ediv_of_nonneg (by omega)

theorem chunkCount_of_overflow (hcount : count < 2 ^ 63) (hc : 1 ≤ m.chunkSize)
    (hsize : m.chunkSize < 2 ^ 63) (hover : 2 ^ 63 ≤ count + m.chunkSize - 1) :
    m.chunkCount count ≤ 0 := by
  rw [chunkCount, wrap_wrap_sub, wrap_of_overflow hover (by omega)]
  have hneg : 0 ≤ -(count + m.chunkSize - 1 - 2 ^ 64) := by omega
  have hquot : 0 ≤ (-(count + m.chunkSize - 1 - 2 ^ 64)).tdiv m.chunkSize :=
    Int.tdiv_nonneg hneg (by omega)
  rw [Int.neg_tdiv] at hquot
  omega

theorem chunkCount_pos_iff (h0 : 0 ≤ count) (hcount : count < 2 ^ 63) (hc : 1 ≤ m.chunkSize)
    (hsize : m.chunkSize < 2 ^ 63) :
    0 < m.chunkCount count ↔ 0 < count ∧ count + m.chunkSize - 1 < 2 ^ 63 := by
  by_cases hfits : count + m.chunkSize - 1 < 2 ^ 63
  · rw [chunkCount_of_fits h0 hc hfits, ← Int.add_one_le_iff, Int.le_ediv_iff_mul_le (by omega)]
    omega
  · have := chunkCount_of_overflow hcount hc hsize (by omega)
    omega

theorem chunkCount_toNat {n c : Nat} (hsize : m.chunkSize = c) (hc : 1 ≤ c)
    (hfits : n + c ≤ 2 ^ 63) : (m.chunkCount n).toNat = (n + c - 1) / c := by
  rw [chunkCount_of_fits (by omega) (by omega) (by omega), hsize]
  have hcast : (n : Int) + c - 1 = ((n + c - 1 : Nat) : Int) := by omega
  rw [hcast, ← Int.natCast_ediv, Int.toNat_natCast]

theorem chunk_of_lt {n c k : Nat} (hsize : m.chunkSize = c) (hk : k * c < n)
    (hn : n < 2 ^ 63) : m.chunk n k = { first := k * c, count := min c (n - k * c) } := by
  have hfirst : wrap (k * (c : Int)) = (k * c : Nat) := by
    rw [← Int.natCast_mul]
    exact wrap_of_mem (by omega) (by omega)
  have hrest : wrap ((n : Int) - (k * c : Nat)) = (n - k * c : Nat) := by
    rw [wrap_of_mem (by omega) (by omega)]
    omega
  simp only [chunk, hfirst, hrest, hsize, Int.toNat_natCast, Chunk.mk.injEq, true_and]
  omega

theorem chunk_within_of_fits (h0 : 0 ≤ count) (hc : 1 ≤ m.chunkSize)
    (hfits : count + m.chunkSize - 1 < 2 ^ 63) {k : Nat} (hk : k < (m.chunkCount count).toNat) :
    ((m.chunk count k).first + (m.chunk count k).count : Int) ≤ count := by
  obtain ⟨n, rfl⟩ := Int.eq_ofNat_of_zero_le h0
  obtain ⟨c, hchunk⟩ := Int.eq_ofNat_of_zero_le (by omega : 0 ≤ m.chunkSize)
  rw [chunkCount_toNat hchunk (by omega) (by omega), Nat.lt_iff_add_one_le,
    Nat.le_div_iff_mul_le (by omega), Nat.succ_mul] at hk
  rw [chunk_of_lt hchunk (by omega) (by omega)]
  dsimp only
  omega

theorem chunk_within (h0 : 0 ≤ count) (hcount : count < 2 ^ 63) (hc : 1 ≤ m.chunkSize)
    (hsize : m.chunkSize < 2 ^ 63) {k : Nat} (hk : k < (m.chunkCount count).toNat) :
    ((m.chunk count k).first + (m.chunk count k).count : Int) ≤ count := by
  have hfits := ((chunkCount_pos_iff h0 hcount hc hsize).mp (by omega)).2
  exact chunk_within_of_fits h0 hc hfits hk

end Machine
end Quadlane
