import Quadlane.Proofs.Emission

/-! Code that takes events out of a view, the last one first: each instance steps the cursor back and
reads the record that was in front of it. As the cursor is given as it was before the step, one is
subtracted from it, in a lane; a chunk steps back for all its instances before the first of them
reads. -/

namespace Quadlane

/-- The memory `t` is `m` with the last `n` of the first `total` records of a buffer in a window, the
last one first, and the cursor stepped back over them. -/
structure Memory.Received (m : Memory) (id : Nat) (b : BufferId) (w : Window) (total n : Nat)
    (t : Memory) : Prop where
  shape : t.shape = m.shape
  counter : t.views[id]?.map View.counter = some ((total - n : Nat) : Int)
  cell : ∀ b' j, t.cell b' j = if b' = w.buffer ∧ w.start ≤ j ∧ j < w.start + n then
    m.cell b (total - 1 - (j - w.start)) else m.cell b' j

section Receiving

variable {m : Memory} {id var : Nat} {b : BufferId} {w : Window} {total size : Nat}
variable {s : Store} {c : Chunk} {one : Quad} {table : NoiseTable}

theorem Memory.Received.consume (table : NoiseTable) (hm : m.HasRecords id var b size)
    (hsize : size ≤ 2 ^ 24) (htotal : total ≤ size) (hone : one.x = Lane.one)
    (hcount : c.first + c.count ≤ total) (h : m.Received id b w total c.first s.memory) :
    ((Action.cursor .consume id (.temporary 0) (.constant one)).perform table c s).memory.views[id]?.map
        View.counter = some ((total - (c.first + c.count) : Nat) : Int) ∧
    ∀ i < c.count, ((Action.cursor .consume id (.temporary 0) (.constant one)).perform table c
        s).temporaries.get 0 i = Quad.splat (Lane.ofInt (total - (c.first + i) : Nat)) := by
  -- The first pass steps back for all instances of the chunk.
  have hpositive : ∀ i, (s.value c i (.constant one)).x.isPositive = true := by
    intro i
    rw [Store.value, hone]
    decide
  have hsource : Source.constant one ≠ .register (.temporary 0) := Source.noConfusion
  have hpass := Action.perform_cursor (c := c) table (hm.of_shape h.shape) (by omega) .consume rfl
    hsource (fun i => ((total - (c.first + i) : Nat) : Int)) h.counter (by omega) (by omega)
    (fun i hi => by
      rw [if_pos (hpositive i), Cursor.next]
      omega)
  have hgiven := hpass.given
  simp only [hpositive, if_true] at hgiven
  exact ⟨hpass.counter, hgiven⟩

theorem Memory.Received.subtract (table : NoiseTable) (hsize : total ≤ 2 ^ 24) (hone : one.x = Lane.one)
    (hcount : c.first + c.count ≤ total) (t : Store)
    (hplaces : ∀ i < c.count, t.temporaries.get 0 i =
      Quad.splat (Lane.ofInt (total - (c.first + i) : Nat))) :
    ((Action.kernel (.binary .sub) (.temporary 1) [.register (.temporary 0), .constant one]).perform
        table c t).memory = t.memory ∧
    ∀ i < c.count, (((Action.kernel (.binary .sub) (.temporary 1)
        [.register (.temporary 0), .constant one]).perform table c t).temporaries.get 1 i).x =
      Lane.ofInt (total - 1 - (c.first + i) : Nat) := by
  -- The second one makes indices of the places.
  have hsteps := Action.perform_steps table c
    (.kernel (.binary .sub) (.temporary 1) [.register (.temporary 0), .constant one]) rfl (s := t)
    (P := fun i u => u.memory = t.memory ∧
      (∀ k, u.temporaries.get 0 k = t.temporaries.get 0 k) ∧
      ∀ k < i, (u.temporaries.get 1 k).x = Lane.ofInt (total - 1 - (c.first + k) : Nat))
    ⟨rfl, fun _ => rfl, fun _ hk => by omega⟩ ?_
  · exact ⟨hsteps.1, hsteps.2.2⟩
  rintro i u hi ⟨hmemory, hplace, hindex⟩
  have hset : ∀ q r k, (u.temporaries.set 1 i q).get r k =
      if r = 1 ∧ k = i then q else u.temporaries.get r k := fun q r k =>
    Temporaries.get_set u.temporaries 1 r i k q
  simp only [Action.onInstance, Kernel.apply, List.map_cons, List.map_nil, Store.assign, Store.value]
  refine ⟨hmemory, ?_, ?_⟩
  · intro k
    rw [hset, if_neg (by omega), hplace]
  · intro k hk
    rw [hset]
    by_cases heq : k = i
    · subst heq
      rw [if_pos ⟨rfl, rfl⟩, hplace, hplaces k hi]
      have hnext : total - (c.first + k) = total - 1 - (c.first + k) + 1 := by omega
      have hsmall : total - 1 - (c.first + k) < 2 ^ 24 := by omega
      rw [hnext, ← Lane.ofInt_sub_one hsmall, ← hone]
      rfl
    · rw [if_neg fun h => heq h.2]
      exact hindex k (by omega)

theorem Memory.Received.read (hm : m.HasRecords id var b size) (hsize : size ≤ 2 ^ 24)
    (htotal : total ≤ size) (hapart : w.buffer ≠ b) (hcount : c.first + c.count ≤ total)
    (hroom : w.start + (c.first + c.count) ≤ m.bufferSize w.buffer) {t : Store}
    (hshape : t.memory.shape = m.shape)
    (hcounter : t.memory.views[id]?.map View.counter = some ((total - (c.first + c.count) : Nat) : Int))
    (hcells : ∀ b' j, t.memory.cell b' j = if b' = w.buffer ∧ w.start ≤ j ∧ j < w.start + c.first then
      m.cell b (total - 1 - (j - w.start)) else m.cell b' j)
    (hindices : ∀ i < c.count, (t.temporaries.get 1 i).x =
      Lane.ofInt (total - 1 - (c.first + i) : Nat)) :
    m.Received id b w total (c.first + c.count)
      ((Action.read id var (.bound w) (.register (.temporary 1))).perform table c t).memory := by
  -- The third one reads.
  have hsteps := Action.perform_steps table c (.read id var (.bound w) (.register (.temporary 1)))
    rfl (s := t)
    (P := fun i u => u.memory.shape = m.shape ∧ u.temporaries = t.temporaries ∧
      ∀ b' j, u.memory.cell b' j =
        if b' = w.buffer ∧ w.start ≤ j ∧ j < w.start + (c.first + i) then
          m.cell b (total - 1 - (j - w.start)) else m.cell b' j)
    ⟨hshape, rfl, hcells⟩ ?_
  · refine ⟨hsteps.1, ?_, hsteps.2.2⟩
    have hmoves : ¬(Action.read id var (.bound w) (.register (.temporary 1))).Moves id := not_false
    rw [Action.perform_counter table hmoves, hcounter]
  rintro i u hi ⟨hshape, htemps, hcell⟩
  refine ⟨(Action.onInstance_shape ..).trans hshape, htemps, ?_⟩
  intro b' j
  have hindex : dataIndex (u.value c i (.register (.temporary 1))) =
      (total - 1 - (c.first + i) : Nat) := by
    rw [Store.value, htemps]
    exact dataIndex_ofInt (by omega) (hindices i hi)
  -- The window is in another buffer, so the records are still those from the start of the call.
  have hrecord : u.memory.readRecord id var (total - 1 - (c.first + i) : Nat) =
      m.cell b (total - 1 - (c.first + i)) := by
    rw [(hm.of_shape hshape).readRecord (by omega), hcell, if_neg fun heq => hapart heq.1.symm]
  rw [Action.onInstance, hindex, hrecord, Store.assign, Memory.cell_setCell, hcell,
    Memory.bufferSize_of_shape hshape]
  by_cases hnew : b' = w.buffer ∧ j = w.start + c.first + i
  · rw [if_pos ⟨hnew.1, hnew.2, by omega⟩, if_pos ⟨hnew.1, by omega, by omega⟩]
    congr 1
    omega
  · rw [if_neg fun heq => hnew ⟨heq.1, heq.2.1⟩]
    refine if_congr (and_congr_right fun hb => ?_) rfl rfl
    have hj : j ≠ w.start + c.first + i := fun hj => hnew ⟨hb, hj⟩
    omega

theorem Memory.Received.chunk (hm : m.HasRecords id var b size) (hsize : size ≤ 2 ^ 24)
    (htotal : total ≤ size) (hone : one.x = Lane.one) (hapart : w.buffer ≠ b)
    (hcount : c.first + c.count ≤ total)
    (hroom : w.start + (c.first + c.count) ≤ m.bufferSize w.buffer)
    (h : m.Received id b w total c.first s.memory) :
    m.Received id b w total (c.first + c.count)
      ((Action.read id var (.bound w) (.register (.temporary 1))).perform table c
        ((Action.kernel (.binary .sub) (.temporary 1) [.register (.temporary 0), .constant one]).perform
          table c ((Action.cursor .consume id (.temporary 0) (.constant one)).perform table c
            s))).memory := by
  obtain ⟨hcounter, hplaces⟩ := h.consume table hm hsize htotal hone hcount
  obtain ⟨hmemory, hindices⟩ := Memory.Received.subtract table (by omega) hone hcount _ hplaces
  refine Memory.Received.read hm hsize htotal hapart hcount hroom ?_ ?_ ?_ hindices
  · rw [hmemory, Action.perform_shape]
    exact h.shape
  · rw [hmemory]
    exact hcounter
  · intro b' j
    have hwrites : ¬(Action.cursor .consume id (.temporary 0) (.constant one)).Writes s.memory c b' j :=
      not_false
    rw [hmemory, Action.perform_cell table hwrites, h.cell]

end Receiving

/-! ### The code -/

/-- `consumeindex t0, s0, c0`, `sub t1, t0, c0` and `shareddataread o0, s0, var, t1`. -/
def reception (var : UInt8) : List Instruction :=
  [{ op := .cursor .consume, mask := 1, sources := [0] },
    { op := .kernel (.binary .sub), mask := 2, sources := [0, 0], destination := 1 },
    { op := .dataRead, var, sources := [1], destination := 128 }]

theorem performs_reception {a : Arguments} {m : Memory} {id : Nat} {b : BufferId} {size : Nat}
    {var : UInt8} {constants : List Quad} {one : Quad} {w : Window}
    (hset : a.sets[0]? = some (some id)) (hm : m.HasRecords id var.toNat b size)
    (hown : a.constants = .own constants) (hone : constants[0]? = some one)
    (hout : a.outputs[0]? = some w) :
    a.frame.Performs m (reception var)
      [.cursor .consume id (.temporary 0) (.constant one),
        .kernel (.binary .sub) (.temporary 1) [.register (.temporary 0), .constant one],
        .read id var.toNat (.bound w) (.register (.temporary 1))] := by
  have hslot : a.frame.slot? 1 = some (.temporary 1) := Frame.slot_of_lt (by decide)
  have houtput : a.frame.slot? 128 = some (.bound w) := by
    have hsplit : splitRegister 128 = some (.output, 0) := by decide
    rw [a.frame_slot, Arguments.slot?, hsplit]
    simp only [hout, Slot.ofWindow, Slot.rebind]
  have hconstant (m' : Memory) (mask : UInt8) (place : Nat) (hkind : sourceKind mask place = .constant) :
      a.frame.source? m' mask place 0 = some (.constant one) := by
    simp [Frame.source?, hkind, hown, Constants.values, hone]
  refine .cons ⟨rfl, ?_⟩ (.cons ⟨rfl, ?_⟩ (.cons ⟨rfl, ?_⟩ .nil))
  · intro m' _
    have hcond := hconstant m' 1 0 (by decide)
    simp [Frame.resolve, Frame.resolveOnSet, hset, slot_zero, hcond, Frame.guarded, Frame.onSet,
      Source.isBound]
  · intro m' _
    have hfirst : a.frame.source? m' 2 0 0 = some (.register (.temporary 0)) := by
      have hkind : sourceKind 2 0 = .register := by decide
      simp [Frame.source?, hkind, slot_zero]
    have hsecond := hconstant m' 2 1 (by decide)
    simp [Frame.resolve, Frame.sources?, hslot, hfirst, hsecond, Frame.guarded, Source.isBound]
  · intro m' hshape
    have hindex : a.frame.source? m' 0 0 1 = some (.register (.temporary 1)) := by
      have hkind : sourceKind 0 0 = .register := by decide
      simp [Frame.source?, hkind, hslot]
    simp [Frame.resolve, hset, houtput, hindex, Frame.readSet, (hm.of_shape hshape).hasVariable,
      Frame.guarded, Source.isBound]

/-- A call of such code that succeeds gives each of its instances an event, the last one first,
whatever the size of its chunks. -/
theorem Machine.exec_reception {m : Machine} {a : Arguments} {code : List UInt8} {memory : Memory}
    {n c id total size : Nat} {b : BufferId} {var : UInt8} {constants : List Quad} {one : Quad}
    {w : Window} (hchunk : m.chunkSize = c) (hc : 1 ≤ c) (hn : a.count = n) (hfits : n + c ≤ 2 ^ 63)
    (hcode : Code.body code = reception var) (hset : a.sets[0]? = some (some id))
    (hm : memory.HasRecords id var.toNat b size) (hsize : size ≤ 2 ^ 24) (htotal : total ≤ size)
    (hown : a.constants = .own constants) (hone : constants[0]? = some one)
    (hlane : one.x = Lane.one) (hout : a.outputs[0]? = some w) (hapart : w.buffer ≠ b)
    (hroom : w.start + n ≤ memory.bufferSize w.buffer) (hcount : n ≤ total)
    (hcounter : memory.views[id]?.map View.counter = some (total : Int))
    (hok : (m.exec code a memory).outcome = .ok) :
    memory.Received id b w total n (m.exec code a memory).memory := by
  have hperforms : a.frame.Performs memory (Code.bodyFrom 0 code) _ :=
    hcode ▸ performs_reception hset hm hown hone hout
  have hbegin : memory.Received id b w total 0 (m.store memory).memory := by
    refine ⟨rfl, hcounter, ?_⟩
    intro b' j
    rw [if_neg (by omega)]
    rfl
  obtain ⟨s, hs, hmemory⟩ := exec_steps (P := fun i s => memory.Received id b w total i s.memory)
    hchunk hc hn hfits
    (fun first count s hle hs => by
      rw [runFrom_of_performs hperforms hs.shape]
      exact Memory.Received.chunk (c := ⟨first, count⟩) hm hsize htotal hlane hapart
        (hle.trans hcount) (by dsimp only; omega) hs) hbegin hok
  exact hmemory ▸ hs

end Quadlane
