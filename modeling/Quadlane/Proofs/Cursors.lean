import Quadlane.Proofs.Shape

/-! Cursors stay within their views. Where a cursor goes is said without 64-bit arithmetic; in a view
of up to `2 ^ 62` records nothing overflows, so every move ends there. What cursor moves keep of a
view, a call keeps of it: nothing else that a call does changes more than the discard. -/

namespace Quadlane

namespace Cursor

def wraps : Cursor → Bool
  | acquire => false
  | acquireWrap => true
  | consume => false
  | consumeWrap => true

/-- Where a cursor goes from a place in its view, with no end to the integers. -/
def next (size counter : Int) : Cursor → Int
  | acquire => min (counter + 1) size
  | acquireWrap => if size = 0 then counter else (counter + 1) % size
  | consume => max (counter - 1) 0
  | consumeWrap => if size = 0 then counter else (counter - 1) % size

theorem next_mem {size counter : Int} (lower : 0 ≤ counter) (upper : counter ≤ size) (c : Cursor) :
    0 ≤ c.next size counter ∧ c.next size counter ≤ size := by
  have hmod (i : Int) (hsize : size ≠ 0) : 0 ≤ i % size ∧ i % size ≤ size :=
    ⟨Int.emod_nonneg i hsize, Int.le_of_lt (Int.emod_lt_of_pos i (by omega))⟩
  cases c with
  | acquire => simp only [next]; omega
  | acquireWrap =>
    simp only [next]
    split
    · omega
    · next hsize => exact hmod _ hsize
  | consume => simp only [next]; omega
  | consumeWrap =>
    simp only [next]
    split
    · omega
    · next hsize => exact hmod _ hsize

end Cursor

namespace View

variable {β : Type} {v : View β}

theorem acquire_eq (lower : 0 ≤ v.counter) (upper : v.counter ≤ v.size) (hsize : v.size < 2 ^ 63) :
    v.acquire = (v.counter, { v with counter := min (v.counter + 1) v.size }) := by
  rw [acquire]
  split
  · rw [wrap_of_mem (by omega) (by omega), min_eq_left (by omega)]
  · have hfull : min (v.counter + 1) v.size = v.counter := by omega
    rw [hfull]

theorem consume_eq (lower : 0 ≤ v.counter) :
    v.consume = (v.counter, { v with counter := max (v.counter - 1) 0 }) := by
  rw [consume]
  split
  · rw [max_eq_left (by omega)]
  · have hempty : max (v.counter - 1) 0 = v.counter := by omega
    rw [hempty]

theorem acquireWrap_eq (lower : 0 ≤ v.counter) (hpos : 0 < v.size)
    (hfits : v.counter + 1 < 2 ^ 63) :
    v.acquireWrap = (v.counter, { v with counter := (v.counter + 1) % v.size }) := by
  rw [acquireWrap, if_neg (by omega), wrap_of_mem (by omega) (by omega),
    Int.tmod_eq_emod_of_nonneg (by omega)]

theorem consumeWrap_eq (lower : 0 ≤ v.counter) (hpos : 0 < v.size)
    (hfits : v.counter - 1 + v.size < 2 ^ 63) :
    v.consumeWrap = (v.counter, { v with counter := (v.counter - 1) % v.size }) := by
  rw [consumeWrap, if_neg (by omega), wrap_of_mem (by omega) (by omega),
    Int.tmod_eq_emod_of_nonneg (by omega), Int.add_emod_right]

theorem move_eq (lower : 0 ≤ v.counter) (upper : v.counter ≤ v.size) (hsize : v.size ≤ 2 ^ 62)
    (c : Cursor) :
    v.move c = (if v.size = 0 ∧ c.wraps then -1 else v.counter,
      { v with counter := c.next v.size v.counter }) := by
  cases c with
  | acquire => simpa [move, Cursor.wraps, Cursor.next] using acquire_eq lower upper (by omega)
  | acquireWrap =>
    by_cases hzero : v.size = 0
    · simp only [move, acquireWrap, Cursor.wraps, Cursor.next]
      rw [if_pos (by omega), if_pos ⟨hzero, trivial⟩, if_pos hzero]
    · simpa [move, Cursor.wraps, Cursor.next, hzero] using
        acquireWrap_eq lower (by omega) (by omega)
  | consume => simpa [move, Cursor.wraps, Cursor.next] using consume_eq lower
  | consumeWrap =>
    by_cases hzero : v.size = 0
    · simp only [move, consumeWrap, Cursor.wraps, Cursor.next]
      rw [if_pos (by omega), if_pos ⟨hzero, trivial⟩, if_pos hzero]
    · simpa [move, Cursor.wraps, Cursor.next, hzero] using
        consumeWrap_eq lower (by omega) (by omega)

end View

/-- The cursor of a view is in it or right behind it; sizes are those that lanes can count to. -/
structure View.InRange {β : Type} (v : View β) : Prop where
  lower : 0 ≤ v.counter
  upper : v.counter ≤ v.size
  size : v.size ≤ View.maxSize

theorem View.InRange.move {β : Type} {v : View β} (h : v.InRange) (c : Cursor) :
    (v.move c).2.InRange := by
  have hsize : v.size ≤ 2 ^ 62 := h.size.trans (by decide)
  rw [move_eq h.lower h.upper hsize]
  have hnext := c.next_mem h.lower h.upper
  exact ⟨hnext.1, hnext.2, h.size⟩

def Memory.HasView (m : Memory) (id : Nat) (Q : View (Option BufferId) → Prop) : Prop :=
  ∃ v, m.views[id]? = some v ∧ Q v

section

variable {Q : View (Option BufferId) → Prop} {id : Nat}

theorem Memory.HasView.setView {m : Memory} (h : m.HasView id Q) {k : Nat}
    {u v : View (Option BufferId)} (hu : m.views[k]? = some u) (hv : Q u → Q v) :
    (m.setView k v).HasView id Q := by
  obtain ⟨old, hold, hQ⟩ := h
  by_cases hk : k = id
  · subst hk
    rw [hold, Option.some.injEq] at hu
    refine ⟨v, ?_, hv (hu ▸ hQ)⟩
    have hlt := (Array.getElem?_eq_some_iff.mp hold).1
    simp [Memory.setView, hlt]
  · exact ⟨old, by simpa [Memory.setView, hk] using hold, hQ⟩

theorem Store.assign_hasView (s : Store) (c : Chunk) (i : Nat) (dst : Slot) (q : Quad) :
    (s.assign c i dst q).memory.HasView id Q ↔ s.memory.HasView id Q := by
  cases dst <;> exact Iff.rfl

variable (hmove : ∀ v c, Q v → Q (v.move c).2)
  (hdiscard : ∀ v : View (Option BufferId), ∀ q, Q v → Q { v with discard := q })
include hmove hdiscard

theorem Action.onInstance_hasView (table : NoiseTable) (c : Chunk) (a : Action) {s : Store}
    (h : s.memory.HasView id Q) (i : Nat) : (a.onInstance table c s i).memory.HasView id Q := by
  cases a with
  | skip => exact h
  | kernel k dst sources => exact (Store.assign_hasView _ _ _ _ _).mpr h
  | cursor move view dst cond =>
    simp only [onInstance]
    split
    · refine (Store.assign_hasView _ _ _ _ _).mpr ?_
      unfold Memory.moveCursor
      split
      · exact h
      · next v hv => exact h.setView hv (hmove v move)
    · exact (Store.assign_hasView _ _ _ _ _).mpr h
  | read view var dst index => exact (Store.assign_hasView _ _ _ _ _).mpr h
  | write view var index value =>
    simp only [onInstance, Memory.writeRecord]
    split
    · exact h
    · next v hv =>
      split
      · exact h
      · exact h.setView hv (hdiscard v _)
  | valid view dst index => exact (Store.assign_hasView _ _ _ _ _).mpr h
  | missing p dst source => exact (Store.assign_hasView _ _ _ _ _).mpr h

theorem Machine.exec_hasView {m : Machine} {a : Arguments} (code : List UInt8) {memory : Memory}
    (h : memory.HasView id Q) : (m.exec code a memory).memory.HasView id Q :=
  exec_invariant code (P := fun mem => mem.HasView id Q)
    (fun c _ _ act _ _ hs => act.perform_invariant m.noise c (P := fun t => t.memory.HasView id Q)
      (fun _ i _ ht => act.onInstance_hasView hmove hdiscard m.noise c ht i) hs) h

end

def Memory.InRange (m : Memory) : Prop :=
  ∀ v ∈ m.views, v.InRange

theorem Machine.exec_inRange {m : Machine} {a : Arguments} (code : List UInt8) {memory : Memory}
    (h : memory.InRange) : (m.exec code a memory).memory.InRange := by
  intro v' hv'
  obtain ⟨id, hid⟩ := Array.getElem?_of_mem hv'
  -- The view was there before the call.
  obtain ⟨v, hv, -⟩ := Memory.view_of_shape (m.exec_shape (a := a) code memory).symm hid
  obtain ⟨u, hu, hrange⟩ := m.exec_hasView (Q := View.InRange) (fun _ c hv => hv.move c)
    (fun _ _ hv => ⟨hv.lower, hv.upper, hv.size⟩) (a := a) code
    ⟨v, hv, h v (Array.mem_of_getElem? hv)⟩
  rw [hid, Option.some.injEq] at hu
  exact hu ▸ hrange

end Quadlane
