import Quadlane.Proofs.Confinement
import Quadlane.Proofs.Cursors
import Quadlane.Proofs.Indices
import Quadlane.Proofs.RunSteps

/-! Code that notes events in a view: each instance whose condition is positive takes the next slot and
writes a value to it. The slots are taken in one pass over a chunk and written to in a second one, and
travel in lanes in between. After all chunks the view nevertheless holds the list of the values noted,
in the order of the instances, as far as there is room. -/

namespace Quadlane

/-! ### Records of a view -/

structure Memory.HasRecords (m : Memory) (id var : Nat) (b : BufferId) (size : Nat) : Prop where
  view : m.HasView id fun v => v.size = size ∧ ∃ x, v.vars[var]? = some (x, some b)
  room : size ≤ m.bufferSize b

namespace Memory.HasRecords

variable {m m' : Memory} {id var : Nat} {b : BufferId} {size : Nat}

theorem of_shape (h : m.HasRecords id var b size) (hshape : m'.shape = m.shape) :
    m'.HasRecords id var b size := by
  obtain ⟨⟨v, hv, hsize, x, hvar⟩, hroom⟩ := h
  obtain ⟨v', hv', hsize', hvars⟩ := view_of_shape hshape hv
  refine ⟨⟨v', hv', hsize'.trans hsize, x, hvars ▸ hvar⟩, ?_⟩
  rwa [bufferSize_of_shape hshape]

theorem hasVariable (h : m.HasRecords id var b size) : Frame.hasVariable m id var = true := by
  obtain ⟨⟨v, hv, -, x, hvar⟩, -⟩ := h
  simp only [Frame.hasVariable, hv, decide_eq_true_eq]
  exact (Array.getElem?_eq_some_iff.mp hvar).1

theorem locate (h : m.HasRecords id var b size) {v : View (Option BufferId)}
    (hv : m.views[id]? = some v) (i : Int) :
    m.locate v var i = if 0 ≤ i ∧ i < size then some (b, i.toNat) else none := by
  obtain ⟨⟨u, hu, hsize, x, hvar⟩, hroom⟩ := h
  obtain rfl : u = v := Option.some.inj (hu.symm.trans hv)
  simp only [Memory.locate, hvar, View.isValid, hsize, Bool.and_eq_true, decide_eq_true_eq]
  refine if_congr ?_ rfl rfl
  omega

theorem readRecord (h : m.HasRecords id var b size) {i : Nat} (hi : i < size) :
    m.readRecord id var i = m.cell b i := by
  obtain ⟨v, hv, -⟩ := h.view
  simp only [Memory.readRecord, hv, h.locate hv]
  rw [if_pos (by omega)]
  rfl

theorem cell_writeRecord (h : m.HasRecords id var b size) (i : Int) (q : Quad) (b' : BufferId)
    (j : Nat) : (m.writeRecord id var i q).cell b' j =
      if b' = b ∧ (j : Int) = i ∧ j < size then q else m.cell b' j := by
  obtain ⟨v, hv, -⟩ := h.view
  have hroom := h.room
  simp only [writeRecord, hv, h.locate hv]
  by_cases hi : 0 ≤ i ∧ i < size
  · rw [if_pos hi, cell_setCell]
    refine if_congr ?_ rfl rfl
    refine and_congr_right fun _ => ?_
    omega
  · rw [if_neg hi, if_neg (by omega)]
    rfl

theorem moveCursor (h : m.HasRecords id var b size) (hsize : size ≤ 2 ^ 62) {c : Cursor}
    (hc : c.wraps = false) {counter : Int} (lower : 0 ≤ counter) (upper : counter ≤ size)
    (hcounter : m.views[id]?.map View.counter = some counter) :
    (m.moveCursor id c).1 = counter ∧
      (m.moveCursor id c).2.views[id]?.map View.counter = some (c.next size counter) ∧
      (m.moveCursor id c).2.buffers = m.buffers := by
  obtain ⟨v, hv, hvsize, -⟩ := h.view
  obtain rfl : v.counter = counter := by simpa [hv] using hcounter
  rw [← hvsize] at upper
  have hmove := View.move_eq lower upper (by omega) c
  rw [if_neg (by simp [hc])] at hmove
  simp only [Memory.moveCursor, hv, hmove, true_and]
  refine ⟨?_, rfl⟩
  have hlt := (Array.getElem?_eq_some_iff.mp hv).1
  simp [setView, hlt, hvsize]

end Memory.HasRecords

/-! ### A pass over a chunk that moves a cursor -/

section Cursor

variable {s t : Store} {c : Chunk} {r : Nat} {source : Source}

theorem Store.value_of_same (hsource : source ≠ .register (.temporary r))
    (hcells : ∀ b j, t.memory.cell b j = s.memory.cell b j)
    (htemps : ∀ r' ≠ r, ∀ i, t.temporaries.get r' i = s.temporaries.get r' i) (i : Nat) :
    t.value c i source = s.value c i source := by
  cases source with
  | constant q => rfl
  | register slot =>
    cases slot with
    | temporary r' => exact htemps r' (fun h => hsource (h ▸ rfl)) i
    | bound w => exact hcells _ _
    | unbound => rfl

/-- The store `t` is `s` after a cursor went through the first `i` instances of a chunk. It is at
`place k` when it comes to instance `k`, which is given that place if the source is positive. -/
structure Store.CursorAt (s : Store) (c : Chunk) (source : Source) (id r size : Nat)
    (place : Nat → Int) (i : Nat) (t : Store) : Prop where
  shape : t.memory.shape = s.memory.shape
  cells : ∀ b j, t.memory.cell b j = s.memory.cell b j
  others : ∀ r' ≠ r, ∀ k, t.temporaries.get r' k = s.temporaries.get r' k
  lower : 0 ≤ place i
  upper : place i ≤ size
  counter : t.memory.views[id]?.map View.counter = some (place i)
  given : ∀ k < i, t.temporaries.get r k =
    Quad.splat (Lane.ofInt (if (s.value c k source).x.isPositive then place k else -1))

section

variable {id var size i : Nat} {b : BufferId} {place : Nat → Int}

theorem Store.CursorAt.onInstance (table : NoiseTable) (h : s.memory.HasRecords id var b size)
    (hsize : size ≤ 2 ^ 62) {move : Cursor} (hmove : move.wraps = false)
    (hsource : source ≠ .register (.temporary r)) (ht : s.CursorAt c source id r size place i t)
    (hplace : place (i + 1) =
      if (s.value c i source).x.isPositive then move.next size (place i) else place i) :
    s.CursorAt c source id r size place (i + 1)
      ((Action.cursor move id (.temporary r) source).onInstance table c t i) := by
  have hvalue := Store.value_of_same (c := c) hsource ht.cells ht.others i
  have hothers : ∀ (q : Quad), ∀ r' ≠ r, ∀ k,
      (t.temporaries.set r i q).get r' k = s.temporaries.get r' k := by
    intro q r' hr k
    rw [Temporaries.get_set, if_neg fun heq => hr heq.1, ht.others r' hr k]
  have hgiven : ∀ index, index = (if (s.value c i source).x.isPositive then place i else -1) →
      ∀ k < i + 1, (t.temporaries.set r i (Quad.splat (Lane.ofInt index))).get r k =
        Quad.splat (Lane.ofInt (if (s.value c k source).x.isPositive then place k else -1)) := by
    intro index hindex k hk
    rw [Temporaries.get_set]
    by_cases heq : k = i
    · rw [if_pos ⟨rfl, heq⟩, hindex, heq]
    · rw [if_neg fun h => heq h.2]
      exact ht.given k (by omega)
  simp only [Action.onInstance, hvalue, Store.assign]
  by_cases hpositive : (s.value c i source).x.isPositive = true
  · rw [if_pos hpositive] at hplace hgiven
    rw [if_pos hpositive]
    obtain ⟨hindex, hmoved, hbuffers⟩ :=
      (h.of_shape ht.shape).moveCursor hsize hmove ht.lower ht.upper ht.counter
    obtain ⟨hlower, hupper⟩ := move.next_mem ht.lower ht.upper
    refine ⟨(Memory.moveCursor_shape ..).trans ht.shape, ?_, hothers _, hplace ▸ hlower,
      hplace ▸ hupper, hplace ▸ hmoved, hgiven _ hindex⟩
    intro b j
    rw [← ht.cells, Memory.cell, Memory.cell, hbuffers]
  · rw [if_neg hpositive] at hplace hgiven
    rw [if_neg hpositive]
    exact ⟨ht.shape, ht.cells, hothers _, hplace ▸ ht.lower, hplace ▸ ht.upper,
      hplace ▸ ht.counter, hgiven _ rfl⟩

theorem Action.perform_cursor (table : NoiseTable) (h : s.memory.HasRecords id var b size)
    (hsize : size ≤ 2 ^ 62) (move : Cursor) (hmove : move.wraps = false)
    (hsource : source ≠ .register (.temporary r)) (place : Nat → Int)
    (hstart : s.memory.views[id]?.map View.counter = some (place 0)) (lower : 0 ≤ place 0)
    (upper : place 0 ≤ size)
    (hplace : ∀ i < c.count, place (i + 1) =
      if (s.value c i source).x.isPositive then move.next size (place i) else place i) :
    s.CursorAt c source id r size place c.count
      ((cursor move id (.temporary r) source).perform table c s) :=
  perform_steps table c (cursor move id (.temporary r) source) rfl
    (P := s.CursorAt c source id r size place)
    ⟨rfl, fun _ _ => rfl, fun _ _ _ => rfl, lower, upper, hstart, fun _ hk => by omega⟩
    fun i _ hi ht => ht.onInstance table h hsize hmove hsource (hplace i hi)

end

end Cursor

/-! ### Noting events -/

def Source.given (m : Memory) (i : Nat) : Source → Quad
  | constant q => q
  | register (.bound w) => m.cell w.buffer (w.start + i)
  | register _ => Quad.zero

def Source.Apart (b : BufferId) : Source → Prop
  | constant _ => True
  | register (.bound w) => w.buffer ≠ b
  | register _ => False

def noted (cond value : Nat → Quad) (n : Nat) : List Quad :=
  ((List.range n).filter fun i => (cond i).x.isPositive).map value

theorem noted_succ (cond value : Nat → Quad) (n : Nat) :
    noted cond value (n + 1) =
      noted cond value n ++ if (cond n).x.isPositive then [value n] else [] := by
  rw [noted, List.range_succ, List.filter_append, List.map_append, ← noted]
  by_cases h : (cond n).x.isPositive = true
  · simp [h]
  · simp [h]

theorem getD_snoc (events : List Quad) (q d : Quad) (k : Nat) :
    (events ++ [q])[k]?.getD d = if k = events.length then q else events[k]?.getD d := by
  by_cases hk : k = events.length
  · simp [hk]
  · rw [if_neg hk, List.getElem?_append]
    split
    · rfl
    · rw [List.getElem?_eq_none (by simp; omega), List.getElem?_eq_none (by omega)]

/-- The memory `t` is `m` with events in the slots from `start` on, as far as there is room. -/
structure Memory.Noted (m : Memory) (id : Nat) (b : BufferId) (start size : Nat)
    (events : List Quad) (t : Memory) : Prop where
  shape : t.shape = m.shape
  counter : t.views[id]?.map View.counter = some ((min (start + events.length) size : Nat) : Int)
  cell : ∀ b' j, t.cell b' j =
    if b' = b ∧ start ≤ j ∧ j < size then events[j - start]?.getD (m.cell b' j) else m.cell b' j

section Noting

variable {m : Memory} {id var : Nat} {b : BufferId} {start size : Nat} {events : List Quad}
variable {s : Store} {c : Chunk} {source cond value : Source} {table : NoiseTable}

theorem Store.value_of_apart (hsource : source.Apart b)
    (h : ∀ b' ≠ b, ∀ j, s.memory.cell b' j = m.cell b' j) (i : Nat) :
    s.value c i source = source.given m (c.first + i) := by
  cases source with
  | constant q => rfl
  | register slot =>
    cases slot with
    | temporary r => exact hsource.elim
    | bound w =>
      rw [Store.value, Source.given, h _ hsource, Nat.add_assoc]
    | unbound => exact hsource.elim

theorem Memory.Noted.elsewhere {t : Memory} (h : m.Noted id b start size events t) :
    ∀ b' ≠ b, ∀ j, t.cell b' j = m.cell b' j := by
  intro b' hb j
  rw [h.cell, if_neg fun heq => hb heq.1]

def slotOf (cond : Nat → Quad) (value : Nat → Quad) (start size i : Nat) : Int :=
  if (cond i).x.isPositive then (min (start + (noted cond value i).length) size : Nat) else -1

theorem dataIndex_slotOf {cond value : Nat → Quad} (hsize : size ≤ 2 ^ 24) {i : Nat} :
    dataIndex (Quad.splat (Lane.ofInt (slotOf cond value start size i))) =
      slotOf cond value start size i := by
  unfold slotOf
  split
  · exact dataIndex_ofInt (by omega) rfl
  · exact dataIndex_ofInt_neg_one rfl

theorem Memory.Noted.acquire (table : NoiseTable) (hm : m.HasRecords id var b size)
    (hsize : size ≤ 2 ^ 62) (hcond : cond.Apart b)
    (h : m.Noted id b start size (noted (cond.given m) (value.given m) c.first) s.memory) :
    ((Action.cursor .acquire id (.temporary 0) cond).perform table c s).memory.views[id]?.map
        View.counter =
      some ((min (start + (noted (cond.given m) (value.given m) (c.first + c.count)).length) size :
        Nat) : Int) ∧
    ∀ i < c.count,
      ((Action.cursor .acquire id (.temporary 0) cond).perform table c s).temporaries.get 0 i =
        Quad.splat (Lane.ofInt (slotOf (cond.given m) (value.given m) start size (c.first + i))) := by
  -- The first pass hands out the slots.
  have hvalue := Store.value_of_apart (c := c) hcond h.elsewhere
  have hsource : cond ≠ .register (.temporary 0) := by
    rintro rfl
    exact hcond
  have hpass := Action.perform_cursor (c := c) table (hm.of_shape h.shape) hsize .acquire rfl hsource
    (fun i => ((min (start + (noted (cond.given m) (value.given m) (c.first + i)).length) size : Nat) :
      Int)) h.counter (by omega) (by omega) ?_
  · have hgiven := hpass.given
    simp only [hvalue] at hgiven
    exact ⟨hpass.counter, hgiven⟩
  · intro i _
    rw [hvalue, ← Nat.add_assoc, noted_succ]
    by_cases hpositive : (cond.given m (c.first + i)).x.isPositive = true
    · simp only [hpositive, if_true, List.length_append, List.length_singleton, Cursor.next]
      omega
    · simp only [hpositive, if_false, List.append_nil, Bool.false_eq_true]

theorem Memory.Noted.write (hm : m.HasRecords id var b size) (hsize : size ≤ 2 ^ 24)
    (hvalue : value.Apart b)
    (h : m.Noted id b start size (noted (cond.given m) (value.given m) c.first) s.memory)
    {t : Store} (hshape : t.memory.shape = m.shape)
    (hcells : ∀ b j, t.memory.cell b j = s.memory.cell b j)
    (hcounter : t.memory.views[id]?.map View.counter =
      some ((min (start + (noted (cond.given m) (value.given m) (c.first + c.count)).length) size :
        Nat) : Int))
    (hslots : ∀ i < c.count, t.temporaries.get 0 i =
      Quad.splat (Lane.ofInt (slotOf (cond.given m) (value.given m) start size (c.first + i)))) :
    m.Noted id b start size (noted (cond.given m) (value.given m) (c.first + c.count))
      ((Action.write id var (.register (.temporary 0)) value).perform table c t).memory := by
  -- The second pass writes to them.
  set events := noted (cond.given m) (value.given m) with hevents
  have hsteps := Action.perform_steps table c (.write id var (.register (.temporary 0)) value) rfl
    (s := t)
    (P := fun i u => u.memory.shape = m.shape ∧ u.temporaries = t.temporaries ∧
      ∀ b' j, u.memory.cell b' j = if b' = b ∧ start ≤ j ∧ j < size then
        (events (c.first + i))[j - start]?.getD (m.cell b' j) else m.cell b' j)
    ⟨hshape, rfl, fun b' j => by rw [hcells, h.cell]; rfl⟩ ?_
  · refine ⟨hsteps.1, ?_, hsteps.2.2⟩
    have hmoves : ¬(Action.write id var (.register (.temporary 0)) value).Moves id := not_false
    rw [Action.perform_counter table hmoves, hcounter]
  rintro i u hi ⟨hshape, htemps, hcell⟩
  refine ⟨(Action.onInstance_shape ..).trans hshape, htemps, ?_⟩
  intro b' j
  have hindex : dataIndex (u.value c i (.register (.temporary 0))) =
      slotOf (cond.given m) (value.given m) start size (c.first + i) := by
    rw [Store.value, htemps, hslots i hi]
    exact dataIndex_slotOf hsize
  have hgiven := Store.value_of_apart (c := c) (s := u) (m := m) hvalue
    (fun b' hb j => by rw [hcell, if_neg fun heq => hb heq.1]) i
  rw [Action.onInstance, (hm.of_shape hshape).cell_writeRecord, hindex, hgiven, hcell,
    ← Nat.add_assoc, hevents, noted_succ, ← hevents, slotOf, ← hevents]
  -- An instance that notes an event has the slot right behind those of the instances before it.
  generalize events (c.first + i) = E
  by_cases hpositive : (cond.given m (c.first + i)).x.isPositive = true
  · simp only [hpositive, if_true]
    by_cases hin : b' = b ∧ start ≤ j ∧ j < size
    · rw [if_pos hin, if_pos hin, getD_snoc]
      refine if_congr ?_ rfl rfl
      rw [and_iff_right hin.1]
      omega
    · rw [if_neg hin, if_neg hin, if_neg]
      rintro ⟨hb, hj, hlt⟩
      exact hin ⟨hb, by omega, hlt⟩
  · simp only [hpositive, Bool.false_eq_true, if_false, List.append_nil]
    rw [if_neg (by omega)]

theorem Memory.Noted.chunk (hm : m.HasRecords id var b size) (hsize : size ≤ 2 ^ 24)
    (hcond : cond.Apart b) (hvalue : value.Apart b)
    (h : m.Noted id b start size (noted (cond.given m) (value.given m) c.first) s.memory) :
    m.Noted id b start size (noted (cond.given m) (value.given m) (c.first + c.count))
      ((Action.write id var (.register (.temporary 0)) value).perform table c
        ((Action.cursor .acquire id (.temporary 0) cond).perform table c s)).memory := by
  obtain ⟨hcounter, hslots⟩ := h.acquire table hm (by omega) hcond
  refine Memory.Noted.write hm hsize hvalue h ((Action.perform_shape ..).trans h.shape) ?_ hcounter
    hslots
  intro b' j
  have hwrites : ¬(Action.cursor .acquire id (.temporary 0) cond).Writes s.memory c b' j := not_false
  exact Action.perform_cell table hwrites

end Noting

/-! ### The code -/

/-- `acquireindex t0, s0, cond` and `shareddatawrite s0, var, t0, value`; the masks tell whether the
condition and the value are constants. -/
def emission (var condMask valueMask cond value : UInt8) : List Instruction :=
  [{ op := .cursor .acquire, mask := condMask, sources := [cond] },
    { op := .dataWrite, var, mask := valueMask, sources := [0, value] }]

section Code

variable {a : Arguments} {m : Memory} {id : Nat} {b : BufferId} {size : Nat}
variable {var condMask valueMask condByte valueByte : UInt8} {cond value : Source}

theorem Source.Apart.isBound {source : Source} (h : source.Apart b) : source.isBound = true := by
  cases source with
  | constant q => rfl
  | register slot =>
    cases slot with
    | temporary r => rfl
    | bound w => rfl
    | unbound => exact h.elim

theorem slot_zero (a : Arguments) : a.frame.slot? 0 = some (.temporary 0) :=
  Frame.slot_of_lt (by decide)

theorem performs_emission (hset : a.sets[0]? = some (some id)) (hm : m.HasRecords id var.toNat b size)
    (hindex : sourceKind valueMask 0 = .register)
    (hcond : ∀ m', a.frame.source? m' condMask 0 condByte = some cond) (hcondApart : cond.Apart b)
    (hvalue : ∀ m', a.frame.source? m' valueMask 1 valueByte = some value)
    (hvalueApart : value.Apart b) :
    a.frame.Performs m (emission var condMask valueMask condByte valueByte)
      [.cursor .acquire id (.temporary 0) cond,
        .write id var.toNat (.register (.temporary 0)) value] := by
  refine .cons ⟨rfl, ?_⟩ (.cons ⟨rfl, ?_⟩ .nil)
  · intro m' _
    simp [Frame.resolve, Frame.resolveOnSet, hset, slot_zero, hcond, Frame.guarded, Frame.onSet,
      hcondApart.isBound]
  · intro m' hshape
    have hslot : a.frame.source? m' valueMask 0 0 = some (.register (.temporary 0)) := by
      rw [Frame.source?, hindex, slot_zero]
      rfl
    have hbound : Source.isBound (.register (.temporary 0)) = true := rfl
    simp [Frame.resolve, hset, hslot, hvalue, (hm.of_shape hshape).hasVariable,
      hvalueApart.isBound, hbound]

end Code

/-- A call of such code that succeeds notes the values of all its instances whose condition is positive,
in order, whatever the size of its chunks. -/
theorem Machine.exec_emission {m : Machine} {a : Arguments} {code : List UInt8} {memory : Memory}
    {n c id size : Nat} (start : Nat) {b : BufferId} {var condMask valueMask condByte valueByte : UInt8}
    {cond value : Source} (hchunk : m.chunkSize = c) (hc : 1 ≤ c) (hn : a.count = n)
    (hfits : n + c ≤ 2 ^ 63)
    (hcode : Code.body code = emission var condMask valueMask condByte valueByte)
    (hset : a.sets[0]? = some (some id)) (hm : memory.HasRecords id var.toNat b size)
    (hsize : size ≤ 2 ^ 24) (hindex : sourceKind valueMask 0 = .register)
    (hcond : ∀ m', a.frame.source? m' condMask 0 condByte = some cond) (hcondApart : cond.Apart b)
    (hvalue : ∀ m', a.frame.source? m' valueMask 1 valueByte = some value)
    (hvalueApart : value.Apart b)
    (hstart : memory.views[id]?.map View.counter = some (start : Int)) (hle : start ≤ size)
    (hok : (m.exec code a memory).outcome = .ok) :
    memory.Noted id b start size (noted (cond.given memory) (value.given memory) n)
      (m.exec code a memory).memory := by
  have hperforms : a.frame.Performs memory (Code.bodyFrom 0 code) _ :=
    hcode ▸ performs_emission hset hm hindex hcond hcondApart hvalue hvalueApart
  have hbegin : memory.Noted id b start size (noted (cond.given memory) (value.given memory) 0)
      (m.store memory).memory := by
    refine ⟨rfl, ?_, ?_⟩
    · simpa [noted, hle, store] using hstart
    · intro b' j
      simp [noted, store]
  obtain ⟨s, hs, hmemory⟩ := exec_steps (P := fun i s => memory.Noted id b start size
    (noted (cond.given memory) (value.given memory) i) s.memory) hchunk hc hn hfits
    (fun first count s _ hs => by
      rw [runFrom_of_performs hperforms hs.shape]
      exact Memory.Noted.chunk (c := ⟨first, count⟩) hm hsize hcondApart hvalueApart hs) hbegin hok
  exact hmemory ▸ hs

end Quadlane
