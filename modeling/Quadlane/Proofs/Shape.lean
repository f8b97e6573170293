import Quadlane.Proofs.Calls
import Quadlane.Proofs.Decoding

/-! What no call can change: how many buffers there are and how long each one is, which views there
are, and of every view all but its cursor and its discard. This is the shape of the memory. Whether an
operand can be looked up depends on nothing else, so a lookup that succeeds once succeeds for the
whole call. -/

namespace Quadlane

def View.outline {β : Type} (v : View β) : Text × Int × Array (Text × β) :=
  (v.name, v.size, v.vars)

theorem View.move_outline {β : Type} (v : View β) (c : Cursor) :
    (v.move c).2.outline = v.outline := by
  cases c with
  | acquire =>
    simp only [move, acquire]
    split <;> rfl
  | acquireWrap =>
    simp only [move, acquireWrap]
    split <;> rfl
  | consume =>
    simp only [move, consume]
    split <;> rfl
  | consumeWrap =>
    simp only [move, consumeWrap]
    split <;> rfl

namespace Memory

def shape (m : Memory) : Array Nat × Array (Text × Int × Array (Text × Option BufferId)) :=
  (m.buffers.map Array.size, m.views.map View.outline)

theorem setCell_shape (m : Memory) (b : BufferId) (i : Nat) (q : Quad) :
    (m.setCell b i q).shape = m.shape := by
  refine Prod.ext ?_ rfl
  apply Array.ext
  · simp [shape, setCell]
  · intro k hk hk'
    simp only [shape, setCell, Array.getElem_map, Array.getElem_modify]
    split <;> simp

theorem setView_shape {m : Memory} {id : Nat} {v v' : View (Option BufferId)}
    (hv : m.views[id]? = some v) (houtline : v'.outline = v.outline) :
    (m.setView id v').shape = m.shape := by
  refine Prod.ext rfl ?_
  simp only [shape, setView, Array.map_setIfInBounds, houtline]
  apply Array.ext_getElem?
  intro k
  rw [Array.getElem?_setIfInBounds]
  split
  · next h =>
    subst h
    simp only [Array.getElem?_map, hv, Option.map_some, Array.size_map]
    have hid := (Array.getElem?_eq_some_iff.mp hv).1
    rw [if_pos hid]
  · rfl

theorem writeRecord_shape (m : Memory) (id var : Nat) (i : Int) (q : Quad) :
    (m.writeRecord id var i q).shape = m.shape := by
  unfold writeRecord
  split
  · rfl
  · next v hv =>
    split
    · exact setCell_shape ..
    · exact setView_shape hv rfl

theorem moveCursor_shape (m : Memory) (id : Nat) (c : Cursor) :
    (m.moveCursor id c).2.shape = m.shape := by
  unfold moveCursor
  split
  · rfl
  · next v hv => exact setView_shape hv (v.move_outline c)

section

variable {m m' : Memory}

theorem views_of_shape (h : m'.shape = m.shape) (id : Nat) :
    (m'.views[id]?).map View.outline = (m.views[id]?).map View.outline := by
  have hviews := congrArg Prod.snd h
  simp only [shape] at hviews
  rw [← Array.getElem?_map, ← Array.getElem?_map, hviews]

theorem view_of_shape (h : m'.shape = m.shape) {id : Nat} {v : View (Option BufferId)}
    (hv : m.views[id]? = some v) :
    ∃ v', m'.views[id]? = some v' ∧ v'.size = v.size ∧ v'.vars = v.vars := by
  have hview := views_of_shape h id
  rw [hv, Option.map_some] at hview
  obtain ⟨v', hv', houtline⟩ := Option.map_eq_some_iff.mp hview
  exact ⟨v', hv', congrArg (·.2.1) houtline, congrArg (·.2.2) houtline⟩

theorem bufferSize_of_shape (h : m'.shape = m.shape) (b : BufferId) :
    m'.bufferSize b = m.bufferSize b := by
  have hbuffers := congrArg Prod.fst h
  simp only [shape] at hbuffers
  have hsize := congrArg (·[b]?) hbuffers
  simp only [Array.getElem?_map] at hsize
  simp only [bufferSize, Array.getD_eq_getD_getElem?]
  cases hb : m.buffers[b]? <;> cases hb' : m'.buffers[b]? <;> simp_all

end
end Memory

theorem Store.assign_shape (s : Store) (c : Chunk) (i : Nat) (dst : Slot) (q : Quad) :
    (s.assign c i dst q).memory.shape = s.memory.shape := by
  cases dst with
  | temporary r => rfl
  | bound w => exact Memory.setCell_shape ..
  | unbound => rfl

namespace Action

variable (table : NoiseTable) (c : Chunk) (a : Action)

theorem onInstance_shape (s : Store) (i : Nat) :
    (a.onInstance table c s i).memory.shape = s.memory.shape := by
  cases a with
  | skip => rfl
  | kernel k dst sources => exact Store.assign_shape ..
  | cursor move view dst cond =>
    simp only [onInstance]
    split
    · rw [Store.assign_shape]
      exact Memory.moveCursor_shape ..
    · exact Store.assign_shape ..
  | read view var dst index => exact Store.assign_shape ..
  | write view var index value => exact Memory.writeRecord_shape ..
  | valid view dst index => exact Store.assign_shape ..
  | missing p dst source => exact Store.assign_shape ..

theorem reachFrom_le (p : Probe) (dst : Slot) (source : Source) (i : Nat) (s : Store) (n : Nat) :
    reachFrom c p dst source i s n ≤ n := by
  induction n generalizing i s with
  | zero => exact Nat.le_refl 0
  | succ n ih =>
    rw [reachFrom]
    split
    · exact Nat.zero_le _
    · exact Nat.succ_le_succ (ih _ _)

theorem reach_le (s : Store) : a.reach c s ≤ c.count := by
  cases a with
  | missing p dst source => exact reachFrom_le c p dst source 0 s c.count
  | _ => exact Nat.le_refl _

def isPresent : Action → Bool
  | missing _ _ _ => false
  | _ => true

theorem reach_of_present (h : a.isPresent) (s : Store) : a.reach c s = c.count := by
  cases a with
  | missing p dst source => cases h
  | _ => rfl

theorem perform_of_present (h : a.isPresent) (s : Store) :
    a.perform table c s = (List.range c.count).foldl (a.onInstance table c) s := by
  rw [perform, a.reach_of_present c h s]

theorem perform_invariant {P : Store → Prop} {s : Store}
    (hstep : ∀ s i, i < c.count → P s → P (a.onInstance table c s i)) (hs : P s) :
    P (a.perform table c s) :=
  List.foldlRecOn (List.range (a.reach c s)) (a.onInstance table c) hs fun t h i hi =>
    hstep t i ((List.mem_range.mp hi).trans_le (a.reach_le c s)) h

theorem perform_shape (s : Store) : (a.perform table c s).memory.shape = s.memory.shape :=
  a.perform_invariant table c (P := fun t => t.memory.shape = s.memory.shape)
    (fun _ i _ h => (a.onInstance_shape table c _ i).trans h) rfl

end Action

theorem Frame.resolve_present {f : Frame} {m : Memory} {ins : Instruction} {act : Action}
    (hsets : none ∉ f.sets) (h : f.resolve m ins = some act) : act.isPresent := by
  cases denotes_of_resolve h with
  | missing _ hview => exact absurd (List.mem_of_getElem? hview) hsets
  | _ => rfl

theorem runFrom_shape (table : NoiseTable) (f : Frame) (c : Chunk) (offset : Nat) (s : Store)
    (code : List UInt8) : (runFrom table f c offset s code).1.memory.shape = s.memory.shape :=
  runFrom_invariant (P := fun t => t.memory.shape = s.memory.shape)
    (fun _ _ act t _ h => (act.perform_shape table c t).trans h) rfl

namespace Machine

variable {m : Machine} {a : Arguments} (code : List UInt8)

theorem runChunks_invariant {P : Store → Prop}
    (hstep : ∀ c, ∀ ins ∈ Code.body code, ∀ act s, a.frame.resolve s.memory ins = some act →
      P s → P (act.perform m.noise c s)) {s : Store} (k remaining : Nat) (hs : P s) :
    P (m.runChunks a code k s remaining).1 := by
  induction remaining generalizing k s with
  | zero => exact hs
  | succ remaining ih =>
    have hrun := runFrom_invariant (hstep (m.chunk a.count k)) hs
    rw [runChunks_succ]
    split
    · next s' hdone =>
      rw [hdone] at hrun
      exact ih (k + 1) hrun
    · next s' ending _ hend =>
      rw [hend] at hrun
      exact hrun

/-- What the actions of the code keep of the memory, a call keeps of it. -/
theorem exec_invariant {P : Memory → Prop}
    (hstep : ∀ c, ∀ ins ∈ Code.body code, ∀ act s, a.frame.resolve s.memory ins = some act →
      P s.memory → P (act.perform m.noise c s).memory) {memory : Memory} (hm : P memory) :
    P (m.exec code a memory).memory := by
  unfold exec
  split
  · exact hm
  · dsimp only
    split
    · unfold faulted
      split <;> exact hm
    · have hrun := runChunks_invariant code (P := fun s => P s.memory) hstep
        (s := { memory, temporaries := m.temporaries, random := m.random }) 0
        (m.chunkCount a.count).toNat hm
      split
      · exact hrun
      · exact hrun
      · unfold faulted
        split <;> exact hrun

theorem exec_shape (memory : Memory) : (m.exec code a memory).memory.shape = memory.shape :=
  exec_invariant code (P := fun mem => mem.shape = memory.shape)
    (fun c _ _ act s _ h => (act.perform_shape m.noise c s).trans h) rfl

end Machine
end Quadlane
