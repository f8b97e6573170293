import Quadlane.Proofs.Confinement
import Quadlane.Proofs.RunSteps
import Quadlane.Proofs.Tracking

/-! The executor, which carries each instruction out on a whole chunk before it looks at the next one,
computes the plain meaning of kernel code for every instance. The chunk size therefore does not
matter, and neither does what earlier calls left in the temporaries. -/

namespace Quadlane

/-! ### The body of a code on a chunk -/

section Body

variable (table : NoiseTable) {a : Arguments} {f : Frame} {c : Chunk} {n : Nat} {s : Store}
variable {body : List Instruction} {written : List UInt8}
variable {r : Nat → Registers} {σ : Nat → Random.Stream}

theorem performAll_cons {ins : Instruction} {act : Action}
    (hact : ∀ m, f.resolve m ins = some act) :
    performAll table f c s (ins :: body) = performAll table f c (act.perform table c s) body := by
  rw [performAll, hact]

theorem performAll_shape (hbody : f.Resolves body) :
    (performAll table f c s body).memory.shape = s.memory.shape := by
  induction body generalizing s with
  | nil => rfl
  | cons ins body ih =>
    obtain ⟨k, act, -, -, hact⟩ := hbody ins (List.mem_cons_self ..)
    rw [performAll_cons table hact, ih hbody.tail, act.perform_shape]

theorem performAll_outside (hbody : a.frame.Resolves body) {b : BufferId} {p : Nat}
    (hout : ∀ w ∈ a.windows, ∀ i < c.count,
      ¬ (b = w.buffer ∧ p = w.start + (c.first + i))) :
    (performAll table a.frame c s body).memory.cell b p = s.memory.cell b p := by
  induction body generalizing s with
  | nil => rfl
  | cons ins body ih =>
    obtain ⟨k, act, hop, -, hact⟩ := hbody ins (List.mem_cons_self ..)
    rw [performAll_cons table hact, ih hbody.tail]
    exact perform_outside table hop (hact s.memory) hout

theorem performAll_random (hbody : a.frame.Resolves body) (honce : body.countP a.frame.draws ≤ 1) :
    (performAll table a.frame c s body).random =
      if body.any a.frame.draws then s.random.skipQuads c.count else s.random := by
  induction body generalizing s with
  | nil => rfl
  | cons ins body ih =>
    obtain ⟨k, act, hop, hlen, hact⟩ := hbody ins (List.mem_cons_self ..)
    rw [List.countP_cons] at honce
    have hstep := perform_random table (c := c) (s := s) hop (hact s.memory) hlen
    rw [performAll_cons table hact, ih hbody.tail (by omega), hstep, List.any_cons]
    cases hdraws : a.frame.draws ins with
    | false => rfl
    | true =>
      have hnone : body.any a.frame.draws = false := by
        rw [hdraws, if_pos rfl] at honce
        have hzero : body.countP a.frame.draws = 0 := by omega
        simpa [List.countP_eq_zero, List.any_eq_false] using hzero
      rw [hnone]
      rfl

/-- The body of a code carried out on a chunk is its plain meaning for every instance. -/
theorem performAll_cells {constants : List Quad} (hown : a.constants = .own constants)
    (hbody : a.frame.Resolves body) (htemps : TemporariesDefined written body)
    (honce : body.countP a.frame.draws ≤ 1)
    (hfit : WindowsFit a.windows n s.memory) (hc : c.first + c.count ≤ n)
    (hσ : body.any a.frame.draws = true → ∀ i, σ i = s.random.skipQuads i)
    (h : ∀ i < c.count, s.Tracks c a.windows written i (r i)) {i : Nat}
    (hi : i < c.count) {w : Window} (hw : w ∈ a.windows) :
    (performAll table a.frame c s body).memory.cell w.buffer (w.start + (c.first + i)) =
      ((r i).run table a.frame constants (σ i) body).cells w.home := by
  induction body generalizing s written r with
  | nil => exact (h i hi).cells w hw
  | cons ins body ih =>
    obtain ⟨k, act, hop, hlen, hact⟩ := hbody ins (List.mem_cons_self ..)
    obtain ⟨hread, htemps⟩ := htemps
    rw [List.countP_cons] at honce
    have hrandom := perform_random table (c := c) (s := s) hop (hact s.memory) hlen
    have hdrawn : a.frame.draws ins = true → ∀ i, σ i = s.random.skipQuads i := fun hdraws =>
      hσ (by rw [List.any_cons, hdraws, Bool.true_or])
    rw [performAll_cons table hact]
    refine ih hbody.tail htemps (by omega) (hfit.of_shape (act.perform_shape table c s)) ?_
      fun j hj => perform_tracks table (by rw [hown]; rfl) hop (hact s.memory) hlen hread hfit hc
        hdrawn h hj
    -- Only one instruction draws: if a later one does, this one left the stream alone.
    intro hany
    have hdraws : a.frame.draws ins = false := by
      refine Bool.eq_false_iff.mpr fun hdraws => ?_
      rw [hdraws, if_pos rfl] at honce
      have hpos : 0 < body.countP a.frame.draws :=
        List.countP_pos_iff.mpr (List.any_eq_true.mp hany)
      omega
    rw [hrandom, hdraws]
    exact hσ (by rw [List.any_cons, hany, Bool.or_true])

end Body

/-! ### Chunk after chunk -/

theorem Random.Stream.skipQuads_add (s : Random.Stream) (a b : Nat) :
    (s.skipQuads a).skipQuads b = s.skipQuads (a + b) := by
  induction b with
  | zero => rw [Nat.add_zero, skipQuads]
  | succ b ih => rw [skipQuads, ih, ← Nat.add_assoc, ← skipQuads]

theorem Arguments.windowsFit {a : Arguments} {m : Memory} {n : Nat} (hn : a.count = n)
    (hcheck : a.check = .ok ()) (hheld : a.Held m) (hapart : a.WindowsApart) :
    WindowsFit a.windows n m := by
  obtain ⟨-, -, -, -, hlong⟩ := check_eq_ok_iff.mp hcheck
  constructor
  · intro w hw
    have := hheld w hw
    have := hlong w hw
    omega
  · intro w hw w' hw' i i' hi hi' hbuffer hcell
    have hlong₁ := hlong w hw
    have hlong₂ := hlong w' hw'
    rcases hapart w hw w' hw' with hhome | hne | hleft | hright
    · have hstart : w.start = w'.start := (Prod.mk.inj hhome).2
      exact ⟨hhome, by omega⟩
    · exact absurd hbuffer hne
    · omega
    · omega

namespace Machine

variable {m : Machine} {a : Arguments} {constants : List Quad} {body : List Instruction}
variable {temps : Nat → Quad} {memory : Memory} {n : Nat} {s : Store}

/-- The first instances of a call are through; the others have their first cells. -/
structure Progress (m : Machine) (a : Arguments) (constants : List Quad) (body : List Instruction)
    (temps : Nat → Quad) (memory : Memory) (through : Nat) (s : Store) : Prop where
  shape : s.memory.shape = memory.shape
  random : body.any a.frame.draws = true → s.random = m.random.skipQuads through
  cells : ∀ w ∈ a.windows, ∀ i : Nat, i < a.count → s.memory.cell w.buffer (w.start + i) =
    if i < through then
      ((Registers.start memory temps i).run m.noise a.frame constants (m.random.skipQuads i)
        body).cells w.home
    else memory.cell w.buffer (w.start + i)

theorem Progress.performAll {through : Nat} (h : m.Progress a constants body temps memory through s)
    (hown : a.constants = .own constants) (hn : a.count = n)
    (hfit : WindowsFit a.windows n memory) (hbody : a.frame.Resolves body)
    (htemps : TemporariesDefined [] body) (honce : body.countP a.frame.draws ≤ 1) (count : Nat)
    (hcount : through + count ≤ n) :
    m.Progress a constants body temps memory (through + count)
      (performAll m.noise a.frame ⟨through, count⟩ s body) := by
  have hfit' : WindowsFit a.windows n s.memory := hfit.of_shape h.shape
  refine ⟨(performAll_shape _ hbody).trans h.shape, ?_, ?_⟩
  · intro hany
    rw [performAll_random _ hbody honce, if_pos hany, h.random hany, Random.Stream.skipQuads_add]
  · intro w hw i hi
    by_cases hin : through ≤ i ∧ i < through + count
    · -- An instance of this chunk starts with its first cells.
      have htracks : ∀ j < count, s.Tracks ⟨through, count⟩ a.windows [] j
          (Registers.start memory temps (through + j)) := by
        intro j hj
        refine ⟨fun _ hb => absurd hb List.not_mem_nil, ?_⟩
        intro w' hw'
        rw [h.cells w' hw' (through + j) (by omega), if_neg (by omega)]
        rfl
      have hcells := performAll_cells m.noise (c := ⟨through, count⟩) hown hbody htemps honce hfit'
        hcount (σ := fun j => m.random.skipQuads (through + j))
        (fun hany j => by rw [h.random hany, Random.Stream.skipQuads_add]) htracks
        (i := i - through) (by simp only; omega) hw
      have hi' : through + (i - through) = i := by omega
      rw [if_pos hin.2]
      simpa only [hi'] using hcells
    · -- No instance of this chunk has a cell in common with another one.
      rw [performAll_outside _ hbody, h.cells w hw i hi]
      · by_cases hlt : i < through
        · rw [if_pos hlt, if_pos (by omega)]
        · rw [if_neg hlt, if_neg (by omega)]
      · rintro w' hw' j hj ⟨hbuffer, hcell⟩
        simp only at hj hcell
        have := (hfit.aligned w hw w' hw' i (through + j) (by omega) (by omega) hbuffer hcell).2
        omega

theorem runChunks_progress {code : List UInt8} {c : Nat} (hown : a.constants = .own constants)
    (hsize : m.chunkSize = c) (hc : 1 ≤ c) (hn : a.count = n) (hlt : n < 2 ^ 63)
    (hfit : WindowsFit a.windows n memory) (hbody : a.frame.Resolves body) (htemps : TemporariesDefined [] body)
    (honce : body.countP a.frame.draws ≤ 1)
    (hrun : ∀ table ch s, runFrom table a.frame ch 0 s code =
      (performAll table a.frame ch s body, .done)) (k remaining : Nat)
    (hk : k + remaining = (n + c - 1) / c)
    (h : m.Progress a constants body temps memory (min (k * c) n) s) :
    ∃ t, m.runChunks a code k s remaining = (t, .done) ∧
      m.Progress a constants body temps memory n t := by
  have hdone : (m.runChunks a code k s remaining).2 = .done :=
    runChunks_done (fun ch s => by rw [hrun]) k remaining s
  refine ⟨_, Prod.ext rfl hdone, ?_⟩
  refine runChunks_steps hsize hc hn hlt (fun first count s hle hs => ?_) k remaining hk h hdone
  rw [hrun]
  exact hs.performAll hown hn hfit hbody htemps honce count hle

/-! ### Calls -/

theorem runChunks_first {code : List UInt8} {chunks : Nat} (hpos : 0 < chunks)
    (h : (m.runChunks a code 0 s chunks).2 = .done) :
    (runFrom m.noise a.frame (m.chunk a.count 0) 0 s code).2 = .done := by
  obtain ⟨chunks, rfl⟩ := Nat.exists_eq_add_of_lt hpos
  rw [Nat.zero_add, runChunks_succ] at h
  split at h
  · next hrun => rw [hrun]
  · next hrun =>
    rw [hrun]
    exact h

theorem exec_progress {code : List UInt8} (hown : a.constants = .own constants)
    (hchunk : 1 ≤ m.chunkSize) (hfits : a.count + m.chunkSize - 1 < 2 ^ 63) (hroom : m.hasScratch = true)
    (hcheck : a.check = .ok ()) (hheld : a.Held memory) (hapart : a.WindowsApart)
    (hbody : a.frame.Resolves body) (htemps : TemporariesDefined [] body)
    (honce : body.countP a.frame.draws ≤ 1)
    (hrun : ∀ table ch s, runFrom table a.frame ch 0 s code =
      (performAll table a.frame ch s body, .done)) (temps : Nat → Quad) :
    (m.exec code a memory).outcome = .ok ∧ ∃ s, (m.exec code a memory).memory = s.memory ∧
      m.Progress a constants body temps memory a.count.toNat s := by
  obtain ⟨n, hn⟩ := Int.eq_ofNat_of_zero_le (Arguments.check_eq_ok_iff.mp hcheck).1
  obtain ⟨c, hc⟩ := Int.eq_ofNat_of_zero_le (show 0 ≤ m.chunkSize by omega)
  have hchunks : (m.chunkCount a.count).toNat = (n + c - 1) / c := by
    rw [hn]
    exact chunkCount_toNat hc (by omega) (by omega)
  have hstart : m.Progress a constants body temps memory (min (0 * c) n) (m.store memory) := by
    rw [Nat.zero_mul, Nat.zero_min]
    exact ⟨rfl, fun _ => rfl, fun w _ i _ => by rw [if_neg (Nat.not_lt_zero i)]; rfl⟩
  obtain ⟨s, hs, hprogress⟩ := runChunks_progress hown hc (by omega) hn (by omega)
    (a.windowsFit hn hcheck hheld hapart) hbody htemps honce hrun 0 _ (Nat.zero_add _) hstart
  rw [← hchunks] at hs
  rw [exec_of_done hcheck (.inl hroom) hs, hn]
  exact ⟨rfl, s, rfl, hprogress⟩

theorem exec_of_no_instance {code : List UInt8} (hcheck : a.check = .ok ()) (hzero : a.count = 0)
    (hchunk : 1 ≤ m.chunkSize) (hfits : a.count + m.chunkSize - 1 < 2 ^ 63) :
    (m.exec code a memory).outcome = .ok := by
  have hnone : m.chunkCount a.count ≤ 0 := by
    rw [chunkCount_of_fits (Int.le_of_eq hzero.symm) hchunk hfits, hzero]
    exact Int.le_of_eq (Int.ediv_eq_zero_of_lt (by omega) (by omega))
  have hrun : m.runChunks a code 0 (m.store memory) (m.chunkCount a.count).toNat =
      (m.store memory, .done) := by
    rw [Int.toNat_of_nonpos hnone]
    rfl
  rw [exec_of_done hcheck (.inr hnone) hrun]

theorem exec_kernels_of_own {code : List UInt8} {m₀ : Machine} (temps : Nat → Quad)
    (hown : a.constants = .own constants)
    (hkernel : ∀ ins ∈ Code.body code, ins.op.layout = .kernel)
    (hrandom : (Code.body code).countP (·.op = .kernel .random) ≤ 1)
    (htemps : TemporariesDefined [] (Code.body code)) (hheld : a.Held memory)
    (hapart : a.WindowsApart) (hchunk₀ : 1 ≤ m₀.chunkSize)
    (hfits₀ : a.count + m₀.chunkSize - 1 < 2 ^ 63) (hok₀ : (m₀.exec code a memory).outcome = .ok)
    (hchunk : 1 ≤ m.chunkSize) (hfits : a.count + m.chunkSize - 1 < 2 ^ 63) :
    ((m.exec code a memory).outcome = .ok ↔
      Limit.temporaries * m.chunkSize < 2 ^ 63 ∨ a.count = 0) ∧
    ((m.exec code a memory).outcome = .ok → ∀ i : Nat, i < a.count → ∀ w ∈ a.windows,
      (m.exec code a memory).memory.cell w.buffer (w.start + i) =
        (Registers.run m.noise a.frame constants (m.random.skipQuads i) (Code.body code)
          (Registers.start memory temps i)).cells w.home) := by
  obtain ⟨hcheck, -, hend₀⟩ := exec_eq_ok hok₀
  have hnonneg := (Arguments.check_eq_ok_iff.mp hcheck).1
  by_cases hzero : a.count = 0
  · exact ⟨iff_of_true (exec_of_no_instance hcheck hzero hchunk hfits) (.inr hzero),
      fun _ i hi => by omega⟩
  · have hpos : ∀ m : Machine, 1 ≤ m.chunkSize → a.count + m.chunkSize - 1 < 2 ^ 63 →
        0 < m.chunkCount a.count := by
      intro m hchunk hfits
      rw [chunkCount_pos_iff hnonneg (by omega) hchunk (by omega)]
      omega
    have hfirst := runChunks_first (Int.pos_iff_toNat_pos.mp (hpos m₀ hchunk₀ hfits₀)) hend₀
    obtain ⟨hbody, hrun⟩ := runFrom_of_kernels hown hkernel hfirst
    have honce : (Code.body code).countP a.frame.draws ≤ 1 := by
      refine Nat.le_trans (List.countP_mono_left fun ins _ hdraws => ?_) hrandom
      exact (Bool.and_eq_true_iff.mp hdraws).1
    rw [← hasScratch_iff hchunk]
    cases hroom : m.hasScratch with
    | true =>
      obtain ⟨hok, s, hs, hprogress⟩ :=
        exec_progress hown hchunk hfits hroom hcheck hheld hapart hbody htemps honce hrun temps
      refine ⟨iff_of_true hok (.inl rfl), ?_⟩
      intro _ i hi w hw
      rw [hs, hprogress.cells w hw i hi, if_pos (by omega)]
      rfl
    | false =>
      have hfault : (m.exec code a memory).outcome ≠ .ok := by
        rw [exec_of_no_scratch code hcheck hroom (hpos m hchunk hfits)]
        exact faulted_outcome_ne_ok _ _ _ _
      exact ⟨iff_of_false hfault (by simp [hzero]), fun hok => absurd hok hfault⟩

/-- Kernel code that runs to its end for some chunk size does so for every one, on every machine, as
long as there is room for temporaries; the cells of instance `i` are then those of the plain meaning,
with the registers that instance `i` starts with and with its own place in the stream. -/
theorem exec_kernels_scalar (code : List UInt8) (a : Arguments) (memory : Memory) (m₀ m : Machine)
    (temps : Nat → Quad) (hkernel : ∀ ins ∈ Code.body code, ins.op.layout = .kernel)
    (hrandom : (Code.body code).countP (·.op = .kernel .random) ≤ 1)
    (htemps : TemporariesDefined [] (Code.body code)) (hheld : a.Held memory) (hapart : a.Apart)
    (hchunk₀ : 1 ≤ m₀.chunkSize) (hfits₀ : a.count + m₀.chunkSize - 1 < 2 ^ 63)
    (hok₀ : (m₀.exec code a memory).outcome = .ok) (hchunk : 1 ≤ m.chunkSize)
    (hfits : a.count + m.chunkSize - 1 < 2 ^ 63) :
    ((m.exec code a memory).outcome = .ok ↔
      Limit.temporaries * m.chunkSize < 2 ^ 63 ∨ a.count = 0) ∧
    ((m.exec code a memory).outcome = .ok → ∀ i : Nat, i < a.count → ∀ w ∈ a.windows,
      (m.exec code a memory).memory.cell w.buffer (w.start + i) =
        (Registers.run m.noise a.frame (a.constants.values memory) (m.random.skipQuads i)
          (Code.body code) (Registers.start memory temps i)).cells w.home) := by
  have hcheck := (exec_eq_ok hok₀).1
  have hnonneg := (Arguments.check_eq_ok_iff.mp hcheck).1
  -- Kernels write to bound windows only, so the constants stay what they were.
  have hsettle {m : Machine} (hchunk : 1 ≤ m.chunkSize)
      (hfits : a.count + m.chunkSize - 1 < 2 ^ 63) :
      m.exec code a memory = m.exec code (a.settle memory) memory := by
    refine exec_settle hchunk hfits fun _ w hw ins hins k hk => ?_
    refine hapart.constants.not_targets hcheck hw (fun hop => ?_) hk
    have hlayout := hkernel ins hins
    rw [hop] at hlayout
    cases hlayout
  rw [hsettle hchunk₀ hfits₀] at hok₀
  simp only [hsettle hchunk hfits, Registers.run_congr (a.settle_slot memory)]
  exact exec_kernels_of_own temps rfl hkernel hrandom htemps hheld hapart.windows hchunk₀ hfits₀ hok₀
    hchunk hfits

def shaking : Program :=
  { code := some [37, 1, 0, 0, 1, 0, 64, 0, 128, 3, 0, 128, 64, 128, 0]
    constants := [⟨Text.lit "one", Quad.splat Lane.one⟩]
    inputs := [Text.lit "x"]
    outputs := [Text.lit "y"] }

def shakingInPlace : Arguments :=
  { inputs := [⟨0, 1, 3⟩], outputs := [⟨0, 1, 3⟩], constants := .own [Quad.splat Lane.one]
    sets := [], count := 3 }

def shakingMemory : Memory :=
  { buffers := #[Array.replicate 4 (Quad.splat Lane.one)], views := #[] }

theorem shaking_body : Code.body shaking.bytes =
    [{ op := .kernel .random, mask := 1, sources := [0] },
      { op := .kernel (.binary .add), sources := [64, 0], destination := 128 },
      { op := .kernel (.binary .mul), sources := [128, 64], destination := 128 }] := by
  cbv

theorem shaking_temporariesDefined : TemporariesDefined [] (Code.body shaking.bytes) := by
  rw [shaking_body]
  refine ⟨?_, ?_, ?_, trivial⟩
  · rintro (_ | j) b hb <;> simp_all
  · rintro (_ | _ | j) b hb <;> simp_all
  · rintro (_ | _ | j) b hb <;> simp_all

theorem shaking_matches : shakingInPlace.Matches shaking shakingMemory :=
  ⟨⟨rfl, rfl, rfl, rfl, by simp [shaking]⟩, by decide, by decide⟩

theorem exec_shaking :
    (∀ ins ∈ Code.body shaking.bytes, ins.op.layout = .kernel) ∧
      TemporariesDefined [] (Code.body shaking.bytes) ∧ shakingInPlace.Held shakingMemory ∧
      shakingInPlace.Apart ∧
      ((new 1 0 .standard).exec shaking.bytes shakingInPlace shakingMemory).outcome = .ok ∧
      ((new 2 7 .standard).exec shaking.bytes shakingInPlace shakingMemory).outcome = .ok ∧
      ∀ i : Nat, i < shakingInPlace.count → ∀ w ∈ shakingInPlace.windows,
        ((new 2 7 .standard).exec shaking.bytes shakingInPlace shakingMemory).memory.cell
            w.buffer (w.start + i) =
          (Registers.run .standard shakingInPlace.frame [Quad.splat Lane.one]
            ((Random.Stream.ofSeed 7).skipQuads i) (Code.body shaking.bytes)
            (Registers.start shakingMemory (fun _ => Quad.zero) i)).cells w.home := by
  -- A buffer that is changed in place, in two chunks of which the second is not full.
  have hvalid : shaking.validate = .ok () := by cbv
  have hkernel : ∀ ins ∈ Code.body shaking.bytes, ins.op.layout = .kernel := by
    rw [shaking_body]
    decide
  have hrandom : (Code.body shaking.bytes).countP (·.op = .kernel .random) ≤ 1 := by
    rw [shaking_body]
    decide
  have hheld : shakingInPlace.Held shakingMemory := by
    unfold Arguments.Held
    decide
  have hapart : shakingInPlace.Apart := by
    refine ⟨?_, fun _ hlent => by cases hlent⟩
    unfold Arguments.WindowsApart
    decide
  have hok₀ := (exec_of_validate (m := new 1 0 .standard) hvalid shaking_matches
    (.inl (by decide))).1
  obtain ⟨hiff, hcells⟩ := exec_kernels_scalar shaking.bytes shakingInPlace shakingMemory
    (new 1 0 .standard) (new 2 7 .standard) (fun _ => Quad.zero) hkernel hrandom
    shaking_temporariesDefined hheld hapart (by decide) (by decide) hok₀ (by decide) (by decide)
  have hok := hiff.mpr (.inl (by decide))
  exact ⟨hkernel, shaking_temporariesDefined, hheld, hapart, hok₀, hok, hcells hok⟩

def filling : Program :=
  { code := some [53, 1, 0, 128, 0]
    constants := [⟨Text.lit "one", Quad.splat Lane.one⟩]
    outputs := [Text.lit "y"] }

def fillingArguments : Arguments :=
  { inputs := [], outputs := [⟨0, 0, 1⟩], constants := .own [Quad.splat Lane.one]
    sets := [], count := 1 }

/-- The same call, with one instance a chunk and with `2 ^ 58`: only the first has room. -/
theorem exec_filling_wrapped_scratch :
    Code.body filling.bytes =
        [{ op := .kernel (.unary .output), mask := 1, sources := [0], destination := 128 }] ∧
      (new (2 ^ 58) 0 .standard).canExist = true ∧
      fillingArguments.count + (new (2 ^ 58) 0 .standard).chunkSize - 1 < 2 ^ 63 ∧
      ((new 1 0 .standard).exec filling.bytes fillingArguments ⟨#[#[Quad.zero]], #[]⟩).outcome =
        .ok ∧
      ((new (2 ^ 58) 0 .standard).exec filling.bytes fillingArguments
        ⟨#[#[Quad.zero]], #[]⟩).outcome = .fault none := by
  refine ⟨by cbv, by decide, by decide, ?_, ?_⟩
  · have hvalid : filling.validate = .ok () := by cbv
    have hmatch : fillingArguments.Matches filling ⟨#[#[Quad.zero]], #[]⟩ :=
      ⟨⟨rfl, rfl, rfl, rfl, by simp [filling]⟩, by decide, by decide⟩
    exact (exec_of_validate hvalid hmatch (.inl (by decide))).1
  · rw [exec_of_no_scratch _ rfl (by decide) (by decide)]
    rfl

end Machine
end Quadlane
