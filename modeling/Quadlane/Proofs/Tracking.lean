import Quadlane.Proofs.Cells
import Quadlane.Proofs.Scalar
import Quadlane.Proofs.Shape

/-! A kernel instruction that is carried out on a chunk takes a step of the plain meaning for every
instance of the chunk. The executor keeps the registers of an instance in two places: the cells of
the temporaries that were written so far, and the cells of the bound buffers. -/

namespace Quadlane

/-! ### The instructions a run meets -/

def performAll (table : NoiseTable) (f : Frame) (c : Chunk) (s : Store) :
    List Instruction → Store
  | [] => s
  | ins :: rest =>
    match f.resolve s.memory ins with
    | none => s
    | some act => performAll table f c (act.perform table c s) rest

def Frame.Resolves (f : Frame) (body : List Instruction) : Prop :=
  ∀ ins ∈ body, ∃ k act, ins.op = .kernel k ∧ ins.sources.length = k.arity ∧
    ∀ m, f.resolve m ins = some act

theorem Frame.Resolves.tail {f : Frame} {ins : Instruction} {body : List Instruction}
    (h : f.Resolves (ins :: body)) : f.Resolves body :=
  fun ins' hins' => h ins' (List.mem_cons_of_mem _ hins')

theorem Opcode.layout_eq_kernel {op : Opcode} (h : op.layout = .kernel) : ∃ k, op = .kernel k := by
  cases op with
  | kernel k => exact ⟨k, rfl⟩
  | _ => simp [layout] at h

theorem Frame.resolve_kernel {f : Frame} {values : List Quad} (hown : f.constants = .own values)
    {ins : Instruction} (h : ins.op.layout = .kernel) (m m' : Memory) :
    f.resolve m ins = f.resolve m' ins := by
  obtain ⟨k, hop⟩ := Opcode.layout_eq_kernel h
  have hconstants : f.constants.values m = f.constants.values m' := by rw [hown]; rfl
  simp only [resolve, hop, sources_congr rfl hconstants]

theorem Frame.kernel_present {f : Frame} {m : Memory} {ins : Instruction} {act : Action}
    (h : ins.op.layout = .kernel) (hact : f.resolve m ins = some act) : act.isPresent := by
  cases denotes_of_resolve hact with
  | missing hop =>
    rcases hop with hop | ⟨c, hop⟩ <;> simp [hop, Opcode.layout] at h
  | _ => rfl

theorem runFrom_of_kernels {table : NoiseTable} {f : Frame} {c : Chunk} {offset : Nat} {s : Store}
    {code : List UInt8} {values : List Quad} (hown : f.constants = .own values)
    (hkernel : ∀ ins ∈ Code.bodyFrom offset code, ins.op.layout = .kernel)
    (hdone : (runFrom table f c offset s code).2 = .done) :
    f.Resolves (Code.bodyFrom offset code) ∧
      ∀ table c s, runFrom table f c offset s code =
        (performAll table f c s (Code.bodyFrom offset code), .done) := by
  induction hlen : code.length using Nat.strongRecOn generalizing offset s code with
  | ind len ih =>
    cases hsplit : Instruction.split offset code with
    | error e =>
      rw [runFrom_of_unreadable hsplit] at hdone
      simp at hdone
    | ok p =>
      obtain ⟨ins, rest⟩ := p
      rw [Code.bodyFrom_of_split hsplit] at hkernel ⊢
      by_cases hend : ins.op = .done
      · rw [if_pos hend]
        refine ⟨fun _ hins => absurd hins List.not_mem_nil, ?_⟩
        intro table c s
        rw [runFrom_of_done hsplit hend, performAll]
      · rw [if_neg hend] at hkernel ⊢
        have hlayout := hkernel ins (List.mem_cons_self ..)
        cases hact : f.resolve s.memory ins with
        | none => simp [runFrom_of_split hsplit hend, hact] at hdone
        | some act =>
          have hpresent := Frame.kernel_present hlayout hact
          rw [runFrom_of_resolve hsplit hend hact (act.reach_of_present c hpresent s)] at hdone
          have hshorter := Instruction.split_decreasing hsplit
          obtain ⟨hrest, hrun⟩ := ih rest.length (by omega)
            (fun ins' h => hkernel ins' (List.mem_cons_of_mem _ h)) hdone rfl
          have hall : ∀ m, f.resolve m ins = some act := fun m =>
            (Frame.resolve_kernel hown hlayout m s.memory).trans hact
          constructor
          · intro ins' hins'
            rcases List.mem_cons.mp hins' with rfl | hins'
            · obtain ⟨k, hop⟩ := Opcode.layout_eq_kernel hlayout
              have hlength := Instruction.split_sources_length hsplit
              rw [hop, Opcode.arity_kernel] at hlength
              exact ⟨k, act, hop, hlength, hall⟩
            · exact hrest ins' hins'
          · intro table c s
            rw [runFrom_of_resolve hsplit hend (hall s.memory)
              (act.reach_of_present c (Frame.kernel_present hlayout hact) s), performAll, hall]
            exact hrun table c _

/-- Windows that hold `n` cells each and have no cell in common but that of the same instance. -/
structure WindowsFit (ws : List Window) (n : Nat) (m : Memory) : Prop where
  inside : ∀ w ∈ ws, w.start + n ≤ m.bufferSize w.buffer
  aligned : ∀ w ∈ ws, ∀ w' ∈ ws, ∀ i i', i < n → i' < n → w.buffer = w'.buffer →
    w.start + i = w'.start + i' → w.home = w'.home ∧ i = i'

theorem WindowsFit.of_shape {ws : List Window} {n : Nat} {m m' : Memory} (h : WindowsFit ws n m)
    (hshape : m'.shape = m.shape) : WindowsFit ws n m' := by
  refine { h with inside := ?_ }
  intro w hw
  rw [Memory.bufferSize_of_shape hshape]
  exact h.inside w hw

/-- The executor holds the registers of instance `i` of a chunk: the temporaries written so far, and
its cell of every window. -/
structure Store.Tracks (s : Store) (c : Chunk) (ws : List Window) (written : List UInt8) (i : Nat)
    (r : Registers) : Prop where
  temporaries : ∀ b ∈ written, b < 64 → s.temporaries.get b.toNat i = r.temporaries b.toNat
  cells : ∀ w ∈ ws, s.memory.cell w.buffer (w.start + (c.first + i)) = r.cells w.home

namespace Store.Tracks

variable {s : Store} {c : Chunk} {a : Arguments} {written : List UInt8} {i j n : Nat} {r : Registers}
variable {d : UInt8} {dst : Slot}

theorem setRandom (h : s.Tracks c a.windows written i r) (random : Random.Stream) :
    Store.Tracks { s with random } c a.windows written i r :=
  ⟨h.temporaries, h.cells⟩

theorem assign (h : s.Tracks c a.windows written i r)
    (hfit : WindowsFit a.windows n s.memory) (hi : c.first + i < n)
    (hdst : a.frame.slot? d = some dst) (q : Quad) :
    (s.assign c i dst q).Tracks c a.windows (d :: written) i (r.set q dst) := by
  cases dst with
  | temporary t =>
    obtain ⟨-, rfl⟩ := Frame.lt_of_slot_temporary hdst
    refine ⟨?_, h.cells⟩
    intro b hb hlt
    simp only [Store.assign, Temporaries.get_set, Registers.set, and_true]
    split
    · rfl
    · next hne =>
      rcases List.mem_cons.mp hb with rfl | hb
      · exact absurd rfl hne
      · exact h.temporaries b hb hlt
  | bound w =>
    obtain ⟨hge, hw⟩ := Frame.mem_of_slot_bound hdst
    constructor
    · intro b hb hlt
      rcases List.mem_cons.mp hb with rfl | hb
      · exact absurd hlt hge
      · exact h.temporaries b hb hlt
    · intro w' hw'
      have hin := hfit.inside w hw
      simp only [Store.assign, Memory.cell_setCell, Registers.set]
      by_cases hhome : w'.home = w.home
      · have hboth := Prod.mk.inj hhome
        rw [if_pos hhome, if_pos ⟨hboth.1, by have := hboth.2; omega, by omega⟩]
      · rw [if_neg hhome, if_neg, h.cells w' hw']
        rintro ⟨hb, hcell, -⟩
        exact hhome (hfit.aligned w' hw' w hw _ _ hi hi hb (by omega)).1
  | unbound =>
    have hge := Frame.ge_of_slot_unbound hdst
    refine ⟨?_, h.cells⟩
    intro b hb hlt
    rcases List.mem_cons.mp hb with rfl | hb
    · exact absurd hlt hge
    · exact h.temporaries b hb hlt

theorem assign_other (h : s.Tracks c a.windows written j r)
    (hfit : WindowsFit a.windows n s.memory) (hi : c.first + i < n)
    (hj : c.first + j < n) (hne : j ≠ i) (hdst : a.frame.slot? d = some dst) (q : Quad) :
    (s.assign c i dst q).Tracks c a.windows written j r := by
  cases dst with
  | temporary t =>
    refine ⟨?_, h.cells⟩
    intro b hb hlt
    simp only [Store.assign, Temporaries.get_set]
    rw [if_neg fun heq => hne heq.2]
    exact h.temporaries b hb hlt
  | bound w =>
    obtain ⟨-, hw⟩ := Frame.mem_of_slot_bound hdst
    refine ⟨h.temporaries, ?_⟩
    intro w' hw'
    simp only [Store.assign, Memory.cell_setCell]
    rw [if_neg, h.cells w' hw']
    rintro ⟨hb, hcell, -⟩
    have := (hfit.aligned w' hw' w hw _ _ hj hi hb (by omega)).2
    omega
  | unbound => exact h

theorem value (h : s.Tracks c a.windows written i r) {m : Memory} {constants : List Quad}
    (hconstants : a.constants.values m = constants) {mask b : UInt8} {place : Nat}
    {source : Source} (hsource : a.frame.source? m mask place b = some source)
    (hread : mask.toNat.testBit place = false → b < 64 → b ∈ written) :
    s.value c i source = r.source a.frame constants mask place b := by
  unfold Frame.source? at hsource
  unfold Registers.source
  cases hkind : sourceKind mask place with
  | constant =>
    simp only [hkind, Arguments.frame_constants, hconstants, Option.map_eq_some_iff] at hsource
    obtain ⟨q, hq, rfl⟩ := hsource
    rw [if_pos ((sourceKind_eq_constant_iff mask place).mp hkind)]
    simp [Store.value, hq]
  | register =>
    have hbit := (sourceKind_eq_register_iff mask place).mp hkind
    simp only [hkind, Option.map_eq_some_iff] at hsource
    obtain ⟨slot, hslot, rfl⟩ := hsource
    simp only [hbit, Bool.false_eq_true, if_false, hslot, Option.map_some, Option.getD_some]
    cases slot with
    | temporary t =>
      obtain ⟨hlt, rfl⟩ := Frame.lt_of_slot_temporary hslot
      exact h.temporaries b (hread hbit hlt) hlt
    | bound w =>
      have hw := (Frame.mem_of_slot_bound hslot).2
      simpa only [Store.value, Registers.get, Nat.add_assoc] using h.cells w hw
    | unbound => rfl

theorem values (h : s.Tracks c a.windows written i r) {m : Memory} {constants : List Quad}
    (hconstants : a.constants.values m = constants) {mask : UInt8} {place : Nat}
    {bs : List UInt8} {sources : List Source}
    (hsources : a.frame.sources? m mask place bs = some sources)
    (hread : ∀ k b, bs[k]? = some b → mask.toNat.testBit (place + k) = false → b < 64 →
      b ∈ written) :
    sources.map (s.value c i) =
      bs.mapIdx fun k b => r.source a.frame constants mask (place + k) b := by
  induction bs generalizing place sources with
  | nil =>
    have : sources = [] := by simpa [Frame.sources?] using hsources.symm
    rw [this]
    rfl
  | cons b bs ih =>
    unfold Frame.sources? at hsources
    cases hsource : a.frame.source? m mask place b with
    | none => simp [hsource] at hsources
    | some source =>
      simp only [hsource, Option.map_eq_some_iff] at hsources
      obtain ⟨rest, hrest, rfl⟩ := hsources
      rw [List.map_cons, List.mapIdx_cons, h.value hconstants hsource (hread 0 b rfl),
        ih hrest ?_]
      · simp only [Nat.add_zero, Nat.add_assoc, Nat.add_comm 1]
      · intro k b' hb' hkind
        exact hread (k + 1) b' hb' (by rwa [← Nat.add_assoc, Nat.add_right_comm])

end Store.Tracks

/-! ### Kernels and the stream -/

namespace Kernel

variable {table : NoiseTable} {k : Kernel}

theorem apply_value (hk : k ≠ .random) (sources : List Quad) (s s' : Random.Stream) :
    (k.apply table sources s).1 = (k.apply table sources s').1 := by
  cases k with
  | random => exact absurd rfl hk
  | _ =>
    unfold apply
    split <;> simp_all

theorem apply_stream (hk : k ≠ .random) (sources : List Quad) (s : Random.Stream) :
    (k.apply table sources s).2 = s := by
  cases k with
  | random => exact absurd rfl hk
  | _ =>
    unfold apply
    split <;> simp_all

theorem apply_random_stream {sources : List Quad} (hlen : sources.length = 1)
    (s : Random.Stream) : (random.apply table sources s).2 = (randomQuad s).2 := by
  obtain ⟨a, rfl⟩ := List.length_eq_one_iff.mp hlen
  simp only [apply]

end Kernel

/-! ### One instruction on a chunk -/

def Frame.draws (f : Frame) (ins : Instruction) : Bool :=
  ins.op = .kernel .random && f.slot? ins.destination ≠ some .unbound

theorem Frame.resolve_kernel_cases {f : Frame} {m : Memory} {ins : Instruction} {k : Kernel}
    {act : Action} (hop : ins.op = .kernel k) (h : f.resolve m ins = some act) :
    ∃ dst sources, f.slot? ins.destination = some dst ∧
      f.sources? m ins.mask 0 ins.sources = some sources ∧
      (dst = .unbound ∧ act = .skip ∨ dst ≠ .unbound ∧ act = .kernel k dst sources) := by
  simp only [resolve, hop, Option.bind_eq_bind, Option.bind_eq_some_iff] at h
  obtain ⟨dst, hdst, sources, hsources, hguard⟩ := h
  refine ⟨dst, sources, hdst, hsources, ?_⟩
  obtain ⟨hunbound, rfl⟩ | ⟨hbound, -, rfl⟩ := guarded_cases hguard
  · exact .inl ⟨hunbound, rfl⟩
  · exact .inr ⟨hbound, rfl⟩

theorem Action.perform_skip (table : NoiseTable) (c : Chunk) (s : Store) :
    Action.skip.perform table c s = s :=
  perform_invariant table c _ (P := fun t => t = s) (fun _ _ _ h => h) rfl

theorem Store.assign_random (s : Store) (c : Chunk) (i : Nat) (dst : Slot) (q : Quad) :
    (s.assign c i dst q).random = s.random := by
  cases dst <;> rfl

theorem Frame.length_of_sources {f : Frame} {m : Memory} {mask : UInt8} {place : Nat}
    {bs : List UInt8} {sources : List Source} (h : f.sources? m mask place bs = some sources) :
    sources.length = bs.length := by
  induction bs generalizing place sources with
  | nil =>
    have : sources = [] := by simpa [sources?] using h.symm
    rw [this]
    rfl
  | cons b bs ih =>
    unfold sources? at h
    split at h
    · simp at h
    · obtain ⟨rest, hrest, rfl⟩ := Option.map_eq_some_iff.mp h
      simp only [List.length_cons, ih hrest]

section Instruction

variable (table : NoiseTable) {a : Arguments} {constants : List Quad} {c : Chunk} {n : Nat}
variable {s : Store} {ins : Instruction}
variable {written : List UInt8} {r : Nat → Registers} {σ : Nat → Random.Stream}

theorem foldl_kernel_random {k : Kernel} (dst : Slot) {sources : List Source}
    (hlen : sources.length = k.arity) (m : Nat) :
    ((List.range m).foldl ((Action.kernel k dst sources).onInstance table c) s).random =
      if k = .random then s.random.skipQuads m else s.random := by
  induction m with
  | zero => split <;> rfl
  | succ m ih =>
    rw [List.range_succ, List.foldl_append, List.foldl_cons, List.foldl_nil]
    generalize (List.range m).foldl ((Action.kernel k dst sources).onInstance table c) s = t at *
    simp only [Action.onInstance, Store.assign_random]
    by_cases hk : k = .random
    · subst hk
      rw [if_pos rfl, Kernel.apply_random_stream (by rw [List.length_map, hlen]; rfl), ih,
        if_pos rfl, Random.Stream.skipQuads]
    · rw [if_neg hk, Kernel.apply_stream hk, ih, if_neg hk]

theorem perform_random {k : Kernel} {act : Action} {m : Memory} (hop : ins.op = .kernel k)
    (hact : a.frame.resolve m ins = some act) (hlen : ins.sources.length = k.arity) :
    (act.perform table c s).random =
      if a.frame.draws ins then s.random.skipQuads c.count else s.random := by
  obtain ⟨dst, sources, hdst, hsources, ⟨rfl, rfl⟩ | ⟨hbound, rfl⟩⟩ :=
    Frame.resolve_kernel_cases hop hact
  · rw [Action.perform_skip]
    simp [Frame.draws, hdst]
  · have hdraws : a.frame.draws ins = decide (k = .random) := by
      simp [Frame.draws, hop, hdst, hbound]
    rw [Action.perform_of_present table c _ rfl, foldl_kernel_random table dst
      ((Frame.length_of_sources hsources).trans hlen)]
    simp [hdraws]

theorem foldl_kernel_tracks {k : Kernel} {dst : Slot} {sources : List Source}
    (hop : ins.op = .kernel k) (hdst : a.frame.slot? ins.destination = some dst)
    {memory : Memory} (hconstants : a.constants.values memory = constants)
    (hsources : a.frame.sources? memory ins.mask 0 ins.sources = some sources)
    (hlen : ins.sources.length = k.arity)
    (hread : ∀ j b, ins.sources[j]? = some b → ins.mask.toNat.testBit j = false → b < 64 →
      b ∈ written)
    (hfit : WindowsFit a.windows n s.memory) (hc : c.first + c.count ≤ n)
    (hσ : k = .random → ∀ i, σ i = s.random.skipQuads i)
    (h : ∀ i < c.count, s.Tracks c a.windows written i (r i)) (m : Nat)
    (hm : m ≤ c.count) :
    let t := (List.range m).foldl ((Action.kernel k dst sources).onInstance table c) s
    t.memory.shape = s.memory.shape ∧
      (∀ i < m, t.Tracks c a.windows (ins.destination :: written) i
        ((r i).step table a.frame constants (σ i) ins)) ∧
      ∀ i, m ≤ i → i < c.count → t.Tracks c a.windows written i (r i) := by
  -- The first `m` instances of a chunk have their destination set, the others are as they were.
  induction m with
  | zero => exact ⟨rfl, fun i hi => absurd hi (Nat.not_lt_zero i), fun i _ hi => h i hi⟩
  | succ m ih =>
    obtain ⟨hshape, hdone, htodo⟩ := ih (by omega)
    have hrandom := foldl_kernel_random table (c := c) (s := s) dst
      ((Frame.length_of_sources hsources).trans hlen) m
    rw [List.range_succ, List.foldl_append, List.foldl_cons, List.foldl_nil]
    generalize (List.range m).foldl ((Action.kernel k dst sources).onInstance table c) s = t at *
    have hvalues := (htodo m (Nat.le_refl m) (by omega)).values hconstants hsources
      (by simpa only [Nat.zero_add] using hread)
    simp only [Nat.zero_add] at hvalues
    obtain ⟨xs, hxs⟩ : ∃ xs, xs = ins.sources.mapIdx ((r m).source a.frame constants ins.mask) := ⟨_, rfl⟩
    have hstep : (Action.kernel k dst sources).onInstance table c t m =
        Store.assign { t with random := (k.apply table xs t.random).2 } c m dst
          (k.apply table xs t.random).1 := by
      simp only [Action.onInstance, hvalues, hxs]
    have hvalue : (k.apply table xs t.random).1 = (k.apply table xs (σ m)).1 := by
      by_cases hk : k = .random
      · rw [hrandom, if_pos hk, hσ hk]
      · exact Kernel.apply_value hk _ _ _
    have hregisters : (r m).step table a.frame constants (σ m) ins =
        (r m).set (k.apply table xs (σ m)).1 dst := by
      simp only [Registers.step, hop, hdst, hxs]
    have hfit' : WindowsFit a.windows n t.memory := hfit.of_shape hshape
    rw [hstep, hvalue]
    refine ⟨?_, ?_, ?_⟩
    · rw [Store.assign_shape]
      exact hshape
    · intro i hi
      rcases Nat.lt_succ_iff_lt_or_eq.mp hi with hlt | rfl
      · have htrack := (hdone i hlt).setRandom (k.apply table xs t.random).2
        exact htrack.assign_other (i := m) hfit' (by omega) (by omega) (by omega) hdst _
      · have htrack := (htodo i (Nat.le_refl i) (by omega)).setRandom (k.apply table xs t.random).2
        rw [hregisters]
        exact htrack.assign hfit' (by omega) hdst _
    · intro i hle hi
      have htrack := (htodo i (by omega) hi).setRandom (k.apply table xs t.random).2
      exact htrack.assign_other (i := m) hfit' (by omega) (by omega) (by omega) hdst _

/-- An instruction carried out on a chunk is a step of every instance. -/
theorem perform_tracks {k : Kernel} {act : Action} {m : Memory}
    (hconstants : a.constants.values m = constants) (hop : ins.op = .kernel k)
    (hact : a.frame.resolve m ins = some act) (hlen : ins.sources.length = k.arity)
    (hread : ∀ j b, ins.sources[j]? = some b → ins.mask.toNat.testBit j = false → b < 64 →
      b ∈ written)
    (hfit : WindowsFit a.windows n s.memory) (hc : c.first + c.count ≤ n)
    (hσ : a.frame.draws ins = true → ∀ i, σ i = s.random.skipQuads i)
    (h : ∀ i < c.count, s.Tracks c a.windows written i (r i)) {i : Nat}
    (hi : i < c.count) :
    (act.perform table c s).Tracks c a.windows (ins.destination :: written) i
      ((r i).step table a.frame constants (σ i) ins) := by
  obtain ⟨dst, sources, hdst, hsources, ⟨rfl, rfl⟩ | ⟨hbound, rfl⟩⟩ :=
    Frame.resolve_kernel_cases hop hact
  · have hge := Frame.ge_of_slot_unbound hdst
    have hstep : (r i).step table a.frame constants (σ i) ins = r i := by
      simp only [Registers.step, hop, hdst, Registers.set]
    rw [Action.perform_skip, hstep]
    refine ⟨?_, (h i hi).cells⟩
    intro b hb hlt
    rcases List.mem_cons.mp hb with rfl | hb
    · exact absurd hlt hge
    · exact (h i hi).temporaries b hb hlt
  · have hdraws : k = .random → ∀ i, σ i = s.random.skipQuads i := by
      rintro rfl
      exact hσ (by simp [Frame.draws, hop, hdst, hbound])
    exact (foldl_kernel_tracks table hop hdst hconstants hsources hlen hread hfit hc hdraws h c.count
      (Nat.le_refl _)).2.1 i hi

theorem perform_outside {k : Kernel} {act : Action} {m : Memory} (hop : ins.op = .kernel k)
    (hact : a.frame.resolve m ins = some act) {b : BufferId} {p : Nat}
    (hout : ∀ w ∈ a.windows, ∀ i < c.count,
      ¬ (b = w.buffer ∧ p = w.start + (c.first + i))) :
    (act.perform table c s).memory.cell b p = s.memory.cell b p := by
  refine act.perform_invariant table c (P := fun t => t.memory.cell b p = s.memory.cell b p)
    ?_ rfl
  intro t i hi ht
  obtain ⟨dst, sources, hdst, -, ⟨rfl, rfl⟩ | ⟨-, rfl⟩⟩ := Frame.resolve_kernel_cases hop hact
  · exact ht
  · simp only [Action.onInstance]
    cases dst with
    | temporary u => exact ht
    | unbound => exact ht
    | bound w =>
      have hw := (Frame.mem_of_slot_bound hdst).2
      simp only [Store.assign, Memory.cell_setCell]
      rw [if_neg, ht]
      rintro ⟨hb, hp, -⟩
      exact hout w hw i hi ⟨hb, by omega⟩

end Instruction
end Quadlane
