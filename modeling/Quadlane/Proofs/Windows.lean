import Quadlane.Proofs.Dispatching
import Quadlane.Proofs.RunSteps

/-! The windows of instances that a call goes through, one for each chunk. As long as the number of
instances and the chunk size, less one, add up to less than `2 ^ 63`, the windows follow each other
and hold every instance once. Beyond that the sum wraps and there is no window at all: the call ends
well without a look at its code. -/

namespace Quadlane

def Chunk.Holds (w : Chunk) (i : Nat) : Prop :=
  w.first ≤ i ∧ i < w.first + w.count

namespace Machine

def windows (m : Machine) (count : Int) : List Chunk :=
  (List.range (m.chunkCount count).toNat).map (m.chunk count)

/-- The windows hold the instances of a call chunk by chunk, each instance once. -/
structure Covers (m : Machine) (count : Int) : Prop where
  start : ∀ k, k < (m.chunkCount count).toNat → ((m.chunk count k).first : Int) = k * m.chunkSize
  length : ∀ w ∈ m.windows count, 1 ≤ w.count ∧ (w.count : Int) ≤ m.chunkSize
  consecutive : ∀ k, k + 1 < (m.chunkCount count).toNat →
    (m.chunk count (k + 1)).first = (m.chunk count k).first + (m.chunk count k).count
  disjoint : (m.windows count).Pairwise fun v w => ∀ i, v.Holds i → ¬ w.Holds i
  all : ∀ i : Nat, (∃ w ∈ m.windows count, w.Holds i) ↔ (i : Int) < count

/-- The exact values that a call computes: the number of chunks, and for chunk `k` the next number, its
window, and the cells of temporary `i` in it. -/
inductive Computes (m : Machine) (count : Int) : Int → Prop where
  | sum : Computes m count (count + m.chunkSize)
  | dividend : Computes m count (count + m.chunkSize - 1)
  | chunks : Computes m count ((count + m.chunkSize - 1) / m.chunkSize)
  | next (k : Nat) : k < (count + m.chunkSize - 1) / m.chunkSize → Computes m count (k + 1)
  | first (k : Nat) : k < (count + m.chunkSize - 1) / m.chunkSize →
    Computes m count (k * m.chunkSize)
  | rest (k : Nat) : k < (count + m.chunkSize - 1) / m.chunkSize →
    Computes m count (count - k * m.chunkSize)
  | stop (k : Nat) : k < (count + m.chunkSize - 1) / m.chunkSize →
    Computes m count (k * m.chunkSize + min m.chunkSize (count - k * m.chunkSize))
  | cell (k i : Nat) : k < (count + m.chunkSize - 1) / m.chunkSize → i < Limit.temporaries →
    Computes m count (i * m.chunkSize)
  | cellStop (k i : Nat) : k < (count + m.chunkSize - 1) / m.chunkSize → i < Limit.temporaries →
    Computes m count (i * m.chunkSize + min m.chunkSize (count - k * m.chunkSize))

variable {m : Machine} {count : Int}

/-! ### Windows without an overflow -/

section Fits

variable {n c k : Nat} (hsize : m.chunkSize = c) (hc : 1 ≤ c) (hfits : n + c ≤ 2 ^ 63)
include hsize hc hfits

theorem lt_chunkCount_iff : k < (m.chunkCount n).toNat ↔ k * c < n := by
  rw [chunkCount_toNat hsize hc hfits, Nat.lt_iff_add_one_le, Nat.le_div_iff_mul_le (by omega),
    Nat.succ_mul]
  omega

theorem chunk_of_lt_chunkCount (hk : k < (m.chunkCount n).toNat) :
    k * c < n ∧ m.chunk n k = { first := k * c, count := min c (n - k * c) } := by
  have hlt := (lt_chunkCount_iff hsize hc hfits).mp hk
  exact ⟨hlt, chunk_of_lt hsize hlt (by omega)⟩

theorem mem_windows {w : Chunk} :
    w ∈ m.windows n ↔ ∃ k, k * c < n ∧ w = { first := k * c, count := min c (n - k * c) } := by
  rw [windows, List.mem_map]
  constructor
  · rintro ⟨k, hk, rfl⟩
    exact ⟨k, chunk_of_lt_chunkCount hsize hc hfits (List.mem_range.mp hk)⟩
  · rintro ⟨k, hk, rfl⟩
    exact ⟨k, List.mem_range.mpr ((lt_chunkCount_iff hsize hc hfits).mpr hk),
      chunk_of_lt hsize hk (by omega)⟩

theorem covers_of_fits : m.Covers n where
  start k hk := by
    rw [(chunk_of_lt_chunkCount hsize hc hfits hk).2, hsize]
    exact Nat.cast_mul k c
  length w hw := by
    obtain ⟨k, hk, rfl⟩ := (mem_windows hsize hc hfits).mp hw
    dsimp only
    omega
  consecutive k hk := by
    obtain ⟨hlt, hnext⟩ := chunk_of_lt_chunkCount hsize hc hfits hk
    rw [hnext, (chunk_of_lt_chunkCount hsize hc hfits (Nat.lt_of_succ_lt hk)).2]
    rw [Nat.succ_mul] at hlt ⊢
    dsimp only
    omega
  disjoint := by
    rw [windows, List.pairwise_map]
    refine List.pairwise_lt_range.imp_of_mem fun {j k} hj hk hjk i hheld hheld' => ?_
    rw [(chunk_of_lt_chunkCount hsize hc hfits (List.mem_range.mp hj)).2] at hheld
    rw [(chunk_of_lt_chunkCount hsize hc hfits (List.mem_range.mp hk)).2] at hheld'
    have hfar : (j + 1) * c ≤ k * c := Nat.mul_le_mul_right c hjk
    rw [Nat.succ_mul] at hfar
    simp only [Chunk.Holds] at hheld hheld'
    omega
  all i := by
    constructor
    · rintro ⟨w, hw, hheld⟩
      obtain ⟨k, hk, rfl⟩ := (mem_windows hsize hc hfits).mp hw
      simp only [Chunk.Holds] at hheld
      omega
    · intro hi
      -- Instance `i` is in the chunk whose number is the quotient.
      have hbelow := Nat.div_mul_le_self i c
      have habove := Nat.lt_div_mul_add (a := i) hc
      refine ⟨_, (mem_windows hsize hc hfits).mpr ⟨i / c, by omega, rfl⟩, ?_⟩
      simp only [Chunk.Holds]
      omega

end Fits

theorem covers_iff (h0 : 0 ≤ count) (hcount : count < 2 ^ 63) (hc : 1 ≤ m.chunkSize)
    (hsize : m.chunkSize < 2 ^ 63) : m.Covers count ↔ count + m.chunkSize - 1 < 2 ^ 63 := by
  constructor
  · intro h
    by_contra hover
    -- Not even the first instance is in a window.
    have hnone := chunkCount_of_overflow hcount hc hsize (by omega)
    have hempty : m.windows count = [] := by
      rw [windows, Int.toNat_of_nonpos hnone]
      rfl
    obtain ⟨w, hw, -⟩ := (h.all 0).mpr (by omega)
    rw [hempty] at hw
    cases hw
  · intro hfits
    obtain ⟨n, rfl⟩ := Int.eq_ofNat_of_zero_le h0
    obtain ⟨c, hchunk⟩ := Int.eq_ofNat_of_zero_le (by omega : 0 ≤ m.chunkSize)
    exact covers_of_fits hchunk (by omega) (by omega)

/-! ### What the loop computes -/

theorem hasScratch_of_canExist (hexists : m.canExist = true) (hc : 1 ≤ m.chunkSize)
    (hlast : 63 * m.chunkSize < 2 ^ 63) : m.hasScratch = true := by
  -- A machine whose cells can exist has its temporaries in place if the last of them can be
  -- addressed.
  rw [hasScratch_iff hc]
  by_contra hover
  rw [Limit.temporaries] at hover
  have hwrapped : m.scratchSize = 64 * m.chunkSize - 2 ^ 64 := by
    rw [scratchSize, Limit.temporaries]
    exact wrap_of_overflow (by omega) (by omega)
  rw [canExist, Buffer.canHold, Bool.and_eq_true, decide_eq_true_eq] at hexists
  omega

theorem lt_chunks_iff (hc : 1 ≤ m.chunkSize) (k : Nat) :
    k < (count + m.chunkSize - 1) / m.chunkSize ↔ k * m.chunkSize < count := by
  rw [← Int.add_one_le_iff, Int.le_ediv_iff_mul_le (by omega), Int.add_mul, Int.one_mul]
  omega

/-- Nothing overflows exactly if the first sum does not and the temporaries, if there is an instance
to use them, are in place. -/
theorem computes_fit_iff (h0 : 0 ≤ count) (hc : 1 ≤ m.chunkSize) (hexists : m.canExist = true) :
    (∀ x, m.Computes count x → wrap x = x) ↔
      count + m.chunkSize < 2 ^ 63 ∧ (count = 0 ∨ m.hasScratch = true) := by
  constructor
  · intro h
    have hsum := ((wrap_eq_self_iff _).mp (h _ .sum)).2
    refine ⟨hsum, or_iff_not_imp_left.mpr fun hpos => ?_⟩
    have hzero : (0 : Nat) < (count + m.chunkSize - 1) / m.chunkSize :=
      (lt_chunks_iff hc 0).mpr (by omega)
    have hlast := ((wrap_eq_self_iff _).mp (h _ (.cell 0 63 hzero (by decide)))).2
    exact hasScratch_of_canExist hexists hc (by simpa using hlast)
  · rintro ⟨hsum, hroom⟩ x hx
    have hscratch : 0 < count → 64 * m.chunkSize < 2 ^ 63 := fun hpos =>
      (hasScratch_iff hc).mp (hroom.resolve_left (by omega))
    have hrow (i : Nat) (hi : i < Limit.temporaries) :
        0 ≤ i * m.chunkSize ∧ i * m.chunkSize + m.chunkSize ≤ 64 * m.chunkSize := by
      have hle : ((i : Int) + 1) * m.chunkSize ≤ 64 * m.chunkSize :=
        Int.mul_le_mul_of_nonneg_right (by simp only [Limit.temporaries] at hi; omega) (by omega)
      rw [Int.add_mul, Int.one_mul] at hle
      exact ⟨Int.mul_nonneg (by omega) (by omega), hle⟩
    have hquot : (count + m.chunkSize - 1) / m.chunkSize ≤ count + m.chunkSize - 1 :=
      Int.ediv_le_self _ (by omega)
    have hquot' : 0 ≤ (count + m.chunkSize - 1) / m.chunkSize := Int.ediv_nonneg (by omega) (by omega)
    have hfirst (k : Nat) : 0 ≤ k * m.chunkSize := Int.mul_nonneg (by omega) (by omega)
    rw [wrap_eq_self_iff]
    cases hx with
    | sum | dividend | chunks => omega
    | next k hk => omega
    | first k hk | rest k hk | stop k hk =>
      have := (lt_chunks_iff hc k).mp hk
      have := hfirst k
      omega
    | cell k i hk hi | cellStop k i hk hi =>
      have := (lt_chunks_iff hc k).mp hk
      have := hfirst k
      have := hrow i hi
      omega

/-! ### Calls -/

variable {a : Arguments} {code : List UInt8} {memory : Memory}

theorem log_of_ok (hok : (m.exec code a memory).outcome = .ok) (hpos : 0 < m.chunkCount a.count) :
    (Code.walk code).stop = none ∧ (m.log code a memory).map (·.1) = m.windows a.count := by
  obtain ⟨-, -, hdone⟩ := exec_eq_ok hok
  rw [← loggedChunks_run] at hdone
  have hnofault (offset : Nat) :
      (m.loggedChunks a code 0 (m.store memory) (m.chunkCount a.count).toNat).2.2 ≠
        .fault offset := by
    rw [hdone]
    exact nofun
  obtain ⟨-, hending, hchunks⟩ := loggedChunks_walk 0 _ (by omega) hnofault
  have hstop : (Code.walk code).stop = none := by
    rw [← Code.Walk.ending_eq_done_iff, ← hending, hdone]
  rw [if_pos hstop, ← List.range_eq_range'] at hchunks
  exact ⟨hstop, hchunks⟩

theorem exec_of_no_chunk (code : List UInt8) (memory : Memory) (hcheck : a.check = .ok ())
    (hnone : m.chunkCount a.count ≤ 0) :
    m.exec code a memory = ⟨{ m.release a with phase := .done }, memory, .ok⟩ ∧
      m.log code a memory = [] := by
  have hzero : (m.chunkCount a.count).toNat = 0 := Int.toNat_of_nonpos hnone
  have hrun : m.runChunks a code 0 (m.store memory) (m.chunkCount a.count).toNat =
      (m.store memory, .done) := by
    rw [hzero]
    rfl
  refine ⟨exec_of_done hcheck (.inr hnone) hrun, ?_⟩
  rw [log, hzero]
  rfl

/-- The windows of a call cover its instances exactly if the dividend of the number of chunks is below
`2 ^ 63`. Then a call that ends well has decoded its code in every window; otherwise a call ends well
whatever its code is, with nothing decoded and the memory unchanged. Intermediate values stay in range
exactly if also the sum before the dividend does, and the temporaries are in place. -/
theorem windows_cover_iff (m : Machine) (a : Arguments) (hexists : m.canExist = true)
    (hc : 1 ≤ m.chunkSize) (hsize : m.chunkSize < 2 ^ 63) (hcheck : a.check = .ok ())
    (hcount : a.count < 2 ^ 63) :
    (m.Covers a.count ↔ a.count + m.chunkSize - 1 < 2 ^ 63) ∧
    ((∀ x, m.Computes a.count x → wrap x = x) ↔
      a.count + m.chunkSize < 2 ^ 63 ∧ (a.count = 0 ∨ m.hasScratch = true)) ∧
    (m.Covers a.count → 0 < a.count → ∀ code memory, (m.exec code a memory).outcome = .ok →
      m.log code a memory ≠ [] ∧ (m.log code a memory).map (·.1) = m.windows a.count ∧
        (Code.walk code).stop = none) ∧
    (¬ m.Covers a.count → ∀ code memory,
      m.exec code a memory = ⟨{ m.release a with phase := .done }, memory, .ok⟩ ∧
        m.log code a memory = []) := by
  have h0 := (Arguments.check_eq_ok_iff.mp hcheck).1
  have hcovers := covers_iff h0 hcount hc hsize
  refine ⟨hcovers, computes_fit_iff h0 hc hexists, ?_, ?_⟩
  · intro hall hpos code memory hok
    have hchunks := (chunkCount_pos_iff h0 hcount hc hsize).mpr ⟨hpos, hcovers.mp hall⟩
    obtain ⟨hstop, hlog⟩ := log_of_ok hok hchunks
    refine ⟨fun hnone => ?_, hlog, hstop⟩
    obtain ⟨w, hw, -⟩ := (hall.all 0).mpr hpos
    rw [← hlog, hnone] at hw
    cases hw
  · intro hover code memory
    rw [hcovers] at hover
    exact exec_of_no_chunk code memory hcheck (chunkCount_of_overflow hcount hc hsize (by omega))

theorem exec_done_ten :
    ((new 4 0 .standard).exec [0] ⟨[], [], .own [], [], 10⟩ ⟨#[], #[]⟩).outcome = .ok := by
  have hsplit : Instruction.split 0 [0] = .ok ({ op := .done }, []) := rfl
  have hdone : ((new 4 0 .standard).runChunks ⟨[], [], .own [], [], 10⟩ [0] 0
      ((new 4 0 .standard).store ⟨#[], #[]⟩) ((new 4 0 .standard).chunkCount 10).toNat).2 = .done :=
    runChunks_done (fun ch s => by rw [runFrom_of_done hsplit rfl]) ..
  exact congrArg Result.outcome (exec_of_done rfl (.inl (by decide)) (Prod.ext rfl hdone))

theorem windows_of_ten :
    (new 4 0 .standard).Covers 10 ∧
      (∀ x, (new 4 0 .standard).Computes 10 x → wrap x = x) ∧
      ((new 4 0 .standard).log [0] ⟨[], [], .own [], [], 10⟩ ⟨#[], #[]⟩).map (·.1) =
        [⟨0, 4⟩, ⟨4, 4⟩, ⟨8, 2⟩] := by
  -- Ten instances in chunks of four.
  obtain ⟨hcovers, hcomputes, hlog, -⟩ := windows_cover_iff (new 4 0 .standard)
    ⟨[], [], .own [], [], 10⟩ (by decide) (by decide) (by decide) rfl (by decide)
  have hall := hcovers.mpr (by decide)
  exact ⟨hall, hcomputes.mpr (by decide), (hlog hall (by decide) [0] _ exec_done_ten).2.1⟩

/-- No instruction starts with the byte 255. In chunks of four, `2 ^ 63 - 1` instances make no chunk. -/
theorem exec_decodes_nothing :
    ((new 4 0 .standard).exec [255] ⟨[], [], .own [], [], 9223372036854775807⟩ ⟨#[], #[]⟩).outcome = .ok ∧
      (new 4 0 .standard).log [255] ⟨[], [], .own [], [], 9223372036854775807⟩ ⟨#[], #[]⟩ = [] ∧
      (Code.walk [255]).stop = some (.unknownOpcode 255 0) := by
  obtain ⟨hexec, hlog⟩ := exec_of_no_chunk (m := new 4 0 .standard)
    (a := ⟨[], [], .own [], [], 9223372036854775807⟩) [255] ⟨#[], #[]⟩ rfl (by decide)
  exact ⟨congrArg Result.outcome hexec, hlog, by cbv⟩

end Machine
end Quadlane
