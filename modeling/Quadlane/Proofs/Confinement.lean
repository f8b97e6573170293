import Quadlane.Proofs.Cells
import Quadlane.Proofs.Dispatching
import Quadlane.Proofs.Footprint
import Quadlane.Proofs.Scalar
import Quadlane.Proofs.Soundness

/-! A call writes only where an instruction that it dispatched points: to the cells of its instances in
the window of a destination, and to the records of a variable. Nothing is asked of the code, and the
call may end in any way. What the dispatched instructions are is read off the log of the run.

Constants may be cells of a buffer, and are read anew for each instruction. As long as no instruction
points to one of these cells they are the values that the caller saw. -/

namespace Quadlane

/-! ### What an action can change -/

def Slot.Covers (c : Chunk) (b : BufferId) (j : Nat) : Slot → Prop
  | bound w => w.buffer = b ∧ ∃ i < c.count, j = w.start + c.first + i
  | temporary _ | unbound => False

namespace Action

def Writes (m : Memory) (c : Chunk) (b : BufferId) (j : Nat) : Action → Prop
  | skip => False
  | kernel _ dst _ | cursor _ _ dst _ | read _ _ dst _ | valid _ dst _ | missing _ dst _ =>
    dst.Covers c b j
  | write view var _ _ => ∃ v x, m.views[view]? = some v ∧ v.vars[var]? = some (x, some b) ∧
      (j : Int) < v.size ∧ j < m.bufferSize b

def Moves (id : Nat) : Action → Prop
  | cursor _ view _ _ => view = id
  | _ => False

theorem Writes.of_shape {m m' : Memory} (hshape : m'.shape = m.shape) {c : Chunk} {b : BufferId}
    {j : Nat} {a : Action} (h : a.Writes m c b j) : a.Writes m' c b j := by
  cases a with
  | write view var index value =>
    obtain ⟨v, x, hv, hvar, hsize, hlt⟩ := h
    obtain ⟨v', hv', hsame, hvars⟩ := Memory.view_of_shape hshape hv
    refine ⟨v', x, hv', hvars ▸ hvar, hsame ▸ hsize, ?_⟩
    rwa [Memory.bufferSize_of_shape hshape]
  | _ => exact h

end Action

section

variable {c : Chunk} {b : BufferId} {j : Nat} {s : Store} {i id : Nat}

theorem Store.cell_assign {dst : Slot} (h : ¬dst.Covers c b j) (hi : i < c.count) (q : Quad) :
    (s.assign c i dst q).memory.cell b j = s.memory.cell b j := by
  cases dst with
  | temporary r => rfl
  | unbound => rfl
  | bound w =>
    rw [Store.assign, Memory.cell_setCell, if_neg]
    rintro ⟨rfl, rfl, -⟩
    exact h ⟨rfl, i, hi, rfl⟩

theorem Memory.cell_writeRecord {m : Memory} {view var : Nat} {index value : Source}
    (h : ¬(Action.write view var index value).Writes m c b j) (k : Int) (q : Quad) :
    (m.writeRecord view var k q).cell b j = m.cell b j := by
  unfold writeRecord
  split
  · rfl
  · next v hv =>
    split
    · next b' k' hlocate =>
      rw [cell_setCell, if_neg]
      rintro ⟨rfl, rfl, hlt⟩
      unfold locate at hlocate
      split at hlocate
      · next x b' hvar =>
        split at hlocate
        · next hin =>
          obtain ⟨rfl, rfl⟩ := Prod.mk.inj (Option.some.inj hlocate)
          simp only [View.isValid, Bool.and_eq_true, decide_eq_true_eq] at hin
          exact h ⟨v, x, hv, hvar, by omega, hlt⟩
        · cases hlocate
      · cases hlocate
    · rfl

theorem Action.onInstance_cell (table : NoiseTable) {a : Action} (h : ¬a.Writes s.memory c b j)
    (hi : i < c.count) : (a.onInstance table c s i).memory.cell b j = s.memory.cell b j := by
  cases a with
  | skip => rfl
  | kernel k dst sources => exact Store.cell_assign h hi _
  | cursor move view dst cond =>
    simp only [onInstance]
    split
    · rw [Store.cell_assign h hi]
      unfold Memory.moveCursor
      split <;> rfl
    · exact Store.cell_assign h hi _
  | read view var dst index => exact Store.cell_assign h hi _
  | write view var index value => exact Memory.cell_writeRecord h _ _
  | valid view dst index => exact Store.cell_assign h hi _
  | missing p dst source => exact Store.cell_assign h hi _

theorem Action.perform_cell (table : NoiseTable) {a : Action} (h : ¬a.Writes s.memory c b j) :
    (a.perform table c s).memory.cell b j = s.memory.cell b j := by
  have hkept := a.perform_invariant table c
    (P := fun t => t.memory.shape = s.memory.shape ∧ t.memory.cell b j = s.memory.cell b j)
    (fun t i hi ht => ⟨(a.onInstance_shape table c t i).trans ht.1,
      (a.onInstance_cell table (fun hw => h (hw.of_shape ht.1.symm)) hi).trans ht.2⟩) ⟨rfl, rfl⟩
  exact hkept.2

theorem Memory.counter_setView {m : Memory} {k : Nat} {u v : View (Option BufferId)}
    (hu : m.views[k]? = some u) (hv : k = id → v.counter = u.counter) :
    (m.setView k v).views[id]?.map View.counter = m.views[id]?.map View.counter := by
  rw [setView, Array.getElem?_setIfInBounds]
  split
  · next hk =>
    subst hk
    have hlt := (Array.getElem?_eq_some_iff.mp hu).1
    rw [if_pos hlt, hu, Option.map_some, Option.map_some, hv rfl]
  · rfl

theorem Store.views_assign (s : Store) (c : Chunk) (i : Nat) (dst : Slot) (q : Quad) :
    (s.assign c i dst q).memory.views = s.memory.views := by
  cases dst <;> rfl

theorem Action.onInstance_counter (table : NoiseTable) {a : Action} (h : ¬a.Moves id) :
    (a.onInstance table c s i).memory.views[id]?.map View.counter =
      s.memory.views[id]?.map View.counter := by
  cases a with
  | skip => rfl
  | kernel k dst sources => rw [onInstance, Store.views_assign]
  | cursor move view dst cond =>
    simp only [onInstance]
    split
    · rw [Store.views_assign]
      unfold Memory.moveCursor
      split
      · rfl
      · next v hv => exact Memory.counter_setView hv fun hview => absurd hview h
    · rw [Store.views_assign]
  | read view var dst index => rw [onInstance, Store.views_assign]
  | write view var index value =>
    simp only [onInstance, Memory.writeRecord]
    split
    · rfl
    · next v hv =>
      split
      · rfl
      · exact Memory.counter_setView hv fun _ => rfl
  | valid view dst index => rw [onInstance, Store.views_assign]
  | missing p dst source => rw [onInstance, Store.views_assign]

theorem Action.perform_counter (table : NoiseTable) {a : Action} (h : ¬a.Moves id) :
    (a.perform table c s).memory.views[id]?.map View.counter =
      s.memory.views[id]?.map View.counter :=
  a.perform_invariant table c
    (P := fun t => t.memory.views[id]?.map View.counter = s.memory.views[id]?.map View.counter)
    (fun _ _ _ ht => (a.onInstance_counter table h).trans ht) rfl

end

/-! ### What a run can change -/

theorem loggedFrom_invariant {P : Store → Prop} (table : NoiseTable) (f : Frame) (c : Chunk)
    (offset : Nat) (s : Store) (code : List UInt8)
    (hstep : ∀ d ∈ (loggedFrom table f c offset s code).1, ∀ t, P t →
      P (d.action.perform table c t)) (hs : P s) :
    P (loggedFrom table f c offset s code).2.1 := by
  fun_induction loggedFrom table f c offset s code with
  | case1 offset s => exact hs
  | case2 offset s byte rest hop => exact hs
  | case3 offset s byte rest hop => exact hs
  | case4 offset s byte rest op hdone hop hshort => exact hs
  | case5 offset s byte rest op hdone hop hlong next hfetch => exact hs
  | case6 offset s byte rest op hdone hop hlong a next hfetch d hstops =>
    exact hstep _ (List.mem_singleton_self _) s hs
  | case7 offset s byte rest op hdone hop hlong a next hfetch d hwhole later ih =>
    refine ih (fun d hd => hstep d (List.mem_cons_of_mem _ hd)) ?_
    exact hstep _ (List.mem_cons_self ..) s hs

namespace Machine

variable {m : Machine} {a : Arguments} {code : List UInt8} {memory : Memory}

theorem loggedChunks_invariant {P : Store → Prop} {k remaining : Nat} {s : Store}
    (hstep : ∀ entry ∈ (m.loggedChunks a code k s remaining).1, ∀ d ∈ entry.2, ∀ t, P t →
      P (d.action.perform m.noise entry.1 t)) (hs : P s) :
    P (m.loggedChunks a code k s remaining).2.1 := by
  induction remaining generalizing k s with
  | zero => exact hs
  | succ remaining ih =>
    have hrun := loggedFrom_invariant (P := P) m.noise a.frame (m.chunk a.count k) 0 s code
    rw [loggedChunks] at hstep ⊢
    generalize loggedFrom m.noise a.frame (m.chunk a.count k) 0 s code = run at hstep hrun ⊢
    obtain ⟨log, s', ending⟩ := run
    cases ending with
    | done =>
      refine ih (fun entry hentry => hstep entry (List.mem_cons_of_mem _ hentry)) ?_
      exact hrun (fun d hd => hstep _ (List.mem_cons_self ..) d hd) hs
    | error e => exact hrun (fun d hd => hstep _ (List.mem_cons_self ..) d hd) hs
    | fault offset => exact hrun (fun d hd => hstep _ (List.mem_cons_self ..) d hd) hs

theorem loggedChunks_entry {k remaining : Nat} {s : Store} {entry : Chunk × List Dispatch}
    (h : entry ∈ (m.loggedChunks a code k s remaining).1) :
    (∃ i < k + remaining, entry.1 = m.chunk a.count i) ∧
      entry.2.map Dispatch.item <+: (Code.walk code).items ∧ ∀ d ∈ entry.2, d.Exact a.frame := by
  induction remaining generalizing k s with
  | zero => cases h
  | succ remaining ih =>
    obtain ⟨hleads, hexact, -⟩ :=
      loggedFrom_walk m.noise a.frame (m.chunk a.count k) code 0 s code rfl
    rw [loggedChunks] at h
    generalize loggedFrom m.noise a.frame (m.chunk a.count k) 0 s code = run at h hleads hexact
    obtain ⟨log, s', ending⟩ := run
    have hfirst : (∃ i < k + (remaining + 1), m.chunk a.count k = m.chunk a.count i) ∧
        log.map Dispatch.item <+: (Code.walk code).items ∧ ∀ d ∈ log, d.Exact a.frame :=
      ⟨⟨k, by omega, rfl⟩, hleads, hexact⟩
    cases ending with
    | done =>
      rcases List.mem_cons.mp h with rfl | h
      · exact hfirst
      · obtain ⟨⟨i, hi, hchunk⟩, hrest⟩ := ih h
        exact ⟨⟨i, by omega, hchunk⟩, hrest⟩
    | error e => exact List.mem_singleton.mp h ▸ hfirst
    | fault offset => exact List.mem_singleton.mp h ▸ hfirst

theorem exec_log_invariant (m : Machine) (code : List UInt8) (a : Arguments) (memory : Memory)
    {P : Memory → Prop}
    (hstep : ∀ entry ∈ m.log code a memory, ∀ d ∈ entry.2, ∀ t : Store, P t.memory →
      P (d.action.perform m.noise entry.1 t).memory) (hm : P memory) :
    P (m.exec code a memory).memory := by
  have hfaulted (m : Machine) (mem : Memory) (phase : Phase) (offset : Option Nat) (h : P mem) :
      P (m.faulted mem phase offset).memory := by
    unfold faulted
    split <;> exact h
  cases hcheck : a.check with
  | error e => simpa only [exec, hcheck] using hm
  | ok _ =>
    have hrun := loggedChunks_invariant (P := fun s => P s.memory) (s := m.store memory) hstep hm
    rw [loggedChunks_run] at hrun
    rw [exec_eq code hcheck]
    split
    · exact hfaulted _ _ _ _ hm
    · generalize m.runChunks a code 0 (m.store memory) (m.chunkCount a.count).toNat = run at hrun ⊢
      obtain ⟨s, ending⟩ := run
      cases ending with
      | done => exact hrun
      | error e => exact hrun
      | fault offset => exact hfaulted _ _ _ _ hrun

theorem exec_writes {b : BufferId} {j : Nat}
    (h : (m.exec code a memory).memory.cell b j ≠ memory.cell b j) :
    ∃ entry ∈ m.log code a memory, ∃ d ∈ entry.2, d.action.Writes memory entry.1 b j := by
  by_contra hnone
  push Not at hnone
  have hkept := exec_log_invariant m code a memory
    (P := fun mem => mem.shape = memory.shape ∧ mem.cell b j = memory.cell b j)
    (fun entry hentry d hd t ht => ⟨(d.action.perform_shape m.noise entry.1 t).trans ht.1,
      (Action.perform_cell m.noise fun hw =>
        hnone entry hentry d hd (hw.of_shape ht.1.symm)).trans ht.2⟩) ⟨rfl, rfl⟩
  exact h hkept.2

end Machine

/-! ### Instructions -/

/-- The instruction may change the cell: its destination is bound to a window in which it is the cell
of an instance, or it writes records to a variable, and the cell is within the view and the buffer. -/
def Instruction.Targets (a : Arguments) (memory : Memory) (b : BufferId) (j : Nat)
    (ins : Instruction) : Prop :=
  (ins.op.hasDestination = true ∧ ∃ w, a.frame.slot? ins.destination = some (.bound w) ∧
    w.buffer = b ∧ ∃ i : Nat, (i : Int) < a.count ∧ j = w.start + i) ∨
  (ins.op = .dataWrite ∧ ∃ id v x, a.sets[ins.set.toNat]? = some (some id) ∧
    memory.views[id]? = some v ∧ v.vars[ins.var.toNat]? = some (x, some b) ∧
    (j : Int) < min v.size (memory.bufferSize b))

section

variable {a : Arguments} {memory mem : Memory} {c : Chunk} {b : BufferId} {j : Nat}
variable {ins : Instruction} {act : Action}

theorem targets_of_writes (h : a.frame.resolve mem ins = some act)
    (hc : (c.first + c.count : Int) ≤ a.count) (hw : act.Writes memory c b j) :
    ins.Targets a memory b j := by
  have hslot {dst : Slot} (hdst : a.frame.slot? ins.destination = some dst)
      (hcovers : dst.Covers c b j) : ∃ w, a.frame.slot? ins.destination = some (.bound w) ∧
        w.buffer = b ∧ ∃ i : Nat, (i : Int) < a.count ∧ j = w.start + i := by
    cases dst with
    | temporary r => cases hcovers
    | unbound => cases hcovers
    | bound w =>
      obtain ⟨hbuffer, i, hi, hj⟩ := hcovers
      exact ⟨w, hdst, hbuffer, c.first + i, by omega, by omega⟩
  cases Frame.denotes_of_resolve h with
  | skip => cases hw
  | kernel hop hdst _ => exact .inl ⟨by rw [hop]; rfl, hslot hdst hw⟩
  | cursor hop _ hdst _ => exact .inl ⟨by rw [hop]; rfl, hslot hdst hw⟩
  | read hop _ hdst _ => exact .inl ⟨by rw [hop]; rfl, hslot hdst hw⟩
  | write hop hview _ _ =>
    obtain ⟨v, x, hv, hvar, hsize, hlt⟩ := hw
    exact .inr ⟨hop, _, v, x, hview, hv, hvar, by omega⟩
  | valid hop _ hdst _ => exact .inl ⟨by rw [hop]; rfl, hslot hdst hw⟩
  | missing hop _ hdst _ =>
    refine .inl ⟨?_, hslot hdst hw⟩
    rcases hop with hop | ⟨c, hop⟩ <;> rw [hop] <;> rfl

end

theorem Arguments.ConstantsApart.not_targets {a : Arguments} {memory : Memory} {w : Window}
    (h : a.ConstantsApart) (hcheck : a.check = .ok ()) (hw : a.constants = .lent w)
    {ins : Instruction}
    (hviews : ins.op = .dataWrite → ∀ id, some id ∈ a.sets → ∀ v, memory.views[id]? = some v →
      ∀ x, (x, some w.buffer) ∉ v.vars) {k : Nat} (hk : k < w.length) :
    ¬ins.Targets a memory w.buffer (w.start + k) := by
  rintro (⟨-, w', hslot, hbuffer, i, hi, hcell⟩ | ⟨hop, id, v, x, hset, hv, hvar, -⟩)
  · have hmem := (Frame.mem_of_slot_bound hslot).2
    have hheld := (check_eq_ok_iff.mp hcheck).2.2.2.2 w' hmem
    rcases h w hw w' hmem with hne | hbelow | habove
    · exact hne hbuffer
    · omega
    · omega
  · exact hviews hop id (List.mem_of_getElem? hset) v hv x (Array.mem_of_getElem? hvar)

theorem Instruction.split_destination {offset : Nat} {code rest : List UInt8} {ins : Instruction}
    (h : split offset code = .ok (ins, rest)) (hop : ¬ins.op.hasDestination = true) :
    ins.destination = 0 := by
  obtain ⟨byte, op, operands, -, -, -, rfl, -⟩ := split_eq_ok h
  rw [ofOperands_op] at hop
  unfold ofOperands
  split <;> rfl

theorem Program.destination_ne_input {p : Program} (h : p.validate = .ok ()) :
    ∀ ins ∈ Code.body p.bytes, ∀ i, splitRegister ins.destination ≠ some (.input, i) := by
  obtain ⟨-, -, -, hcode⟩ := validate_ok h
  suffices hgen : ∀ offset code, p.checkCode offset code = .ok () →
      ∀ ins ∈ Code.bodyFrom offset code, ∀ i,
        splitRegister ins.destination ≠ some (.input, i) from hgen 0 p.bytes hcode
  intro offset code hcode
  induction hlen : code.length using Nat.strongRecOn generalizing offset code with
  | ind len ih =>
    obtain ⟨ins, rest, hsplit, ⟨hdone, -⟩ | ⟨hdone, hins, hrest⟩⟩ := checkCode_ok hcode
    · simp [Code.bodyFrom_of_split hsplit, hdone]
    · rw [Code.bodyFrom_of_split hsplit, if_neg hdone]
      have hshorter := Instruction.split_decreasing hsplit
      intro ins' hins'
      rcases List.mem_cons.mp hins' with rfl | hins'
      · obtain ⟨-, -, -, hdst⟩ := checkInstruction_ok hins
        intro i hi
        by_cases hhas : ins'.op.hasDestination = true
        · simp [checkDestination, hhas, checkRegister, hi] at hdst
        · -- Without a destination the byte is that of a temporary.
          rw [Instruction.split_destination hsplit hhas] at hi
          have hzero : splitRegister 0 = some (.temporary, 0) := by decide
          simp [hzero] at hi
      · exact ih rest.length (by omega) _ _ hrest rfl ins' hins'

namespace Machine

def dispatched (m : Machine) (code : List UInt8) (a : Arguments) (memory : Memory) :
    List Instruction :=
  (m.log code a memory).flatMap fun entry => entry.2.map fun d => d.item.2

variable {m : Machine} {a : Arguments} {code : List UInt8} {memory : Memory}

theorem log_entry {entry : Chunk × List Dispatch} (h : entry ∈ m.log code a memory)
    {d : Dispatch} (hd : d ∈ entry.2) :
    d.item.2 ∈ m.dispatched code a memory ∧
      (∃ k < (m.chunkCount a.count).toNat, entry.1 = m.chunk a.count k) ∧
      ∃ mem, a.frame.resolve mem d.item.2 = some d.action := by
  obtain ⟨⟨k, hk, hchunk⟩, -, hexact⟩ := loggedChunks_entry h
  refine ⟨List.mem_flatMap.mpr ⟨entry, h, List.mem_map.mpr ⟨d, hd, rfl⟩⟩, ?_, (hexact d hd).2⟩
  exact ⟨k, by omega, hchunk⟩

theorem exec_keeps_inputs {p : Program} (hvalid : p.validate = .ok ()) {b : BufferId}
    (houtputs : ∀ w ∈ a.outputs, w.buffer ≠ b)
    (hviews : ∀ id, some id ∈ a.sets → ∀ v, memory.views[id]? = some v → ∀ x, (x, some b) ∉ v.vars) :
    (m.exec p.bytes a memory).memory.buffer b = memory.buffer b := by
  -- All that the program can write to: everything but this buffer.
  let W : Footprint := { buffers := (· ≠ b), views := fun id => some id ∈ a.sets }
  have hclosed : W.Closed memory := by
    rintro id v x b' hid hv hvar rfl
    exact hviews id hid v hv x hvar
  have hagrees := exec_outside (m := m) (a := a) (W := W) (fun _ => id) hclosed p.bytes ?_
  · exact (hagrees.buffer b fun hb => hb rfl).symm
  · intro ins hins slot hslot
    have hinput := p.destination_ne_input hvalid ins hins
    rw [a.frame_slot, Arguments.slot?] at hslot
    split at hslot
    · cases hslot
    · next i hi => exact absurd hi (hinput i)
    · next i _ =>
      obtain rfl := Option.some.inj hslot
      cases hw : a.outputs[i]? with
      | none => exact trivial
      | some w => exact houtputs w (List.mem_of_getElem? hw)
    · exact Option.some.inj hslot ▸ trivial

-- The constant is the first cell of the output: the first chunk negates it, and the second starts
-- from what the first has left.
example :
    ((new 1 0 .standard).exec [10, 1, 0, 128, 0] ⟨[], [⟨0, 0, 2⟩], .lent ⟨0, 0, 1⟩, [], 2⟩
      ⟨#[#[Quad.splat Lane.one, Quad.zero]], #[]⟩).memory.buffers =
        #[#[Quad.splat Lane.one.neg, Quad.splat Lane.one]] := by
  decide +kernel

end Machine

/-! ### Constants that nothing points to -/

/-- The arguments with the constants of this moment for their own. -/
def Arguments.settle (a : Arguments) (memory : Memory) : Arguments :=
  { a with constants := .own (a.constants.values memory) }

theorem Arguments.check_settle (a : Arguments) (memory : Memory) :
    (a.settle memory).check = a.check := by
  have hlength : (a.settle memory).constants.length = a.constants.length :=
    a.constants.length_values memory
  unfold check
  rw [hlength]
  rfl

theorem Arguments.settle_slot (a : Arguments) (memory : Memory) :
    a.frame.slot? = (a.settle memory).frame.slot? := by
  funext b
  rw [a.frame_slot, (a.settle memory).frame_slot]
  rfl

namespace Machine

variable {m : Machine} {a : Arguments} {code : List UInt8} {memory : Memory}

theorem runChunks_congr {a' : Arguments} (hcount : a.count = a'.count) {P : Store → Prop}
    (hlookup : ∀ s, P s → ∀ ins, a.frame.resolve s.memory ins = a'.frame.resolve s.memory ins)
    {k remaining : Nat}
    (hstep : ∀ i < k + remaining, ∀ ins ∈ Code.body code, ∀ act s,
      a.frame.resolve s.memory ins = some act → P s →
        P (act.perform m.noise (m.chunk a.count i) s)) {s : Store} (hs : P s) :
    m.runChunks a code k s remaining = m.runChunks a' code k s remaining := by
  induction remaining generalizing k s with
  | zero => rfl
  | succ remaining ih =>
    have hchunk := hstep k (by omega)
    have hnext := runFrom_invariant hchunk hs
    rw [runChunks_succ, runChunks_succ, ← hcount, ← runFrom_congr hlookup hchunk hs]
    generalize runFrom m.noise a.frame (m.chunk a.count k) 0 s code = run at hnext ⊢
    obtain ⟨s', ending⟩ := run
    cases ending with
    | done => exact ih (fun i hi => hstep i (by omega)) hnext
    | error e => rfl
    | fault offset => rfl

/-- If no instruction of the code can change a constant, a call with a table that is lent does what it
does with a copy. -/
theorem exec_settle (hchunk : 1 ≤ m.chunkSize) (hfits : a.count + m.chunkSize - 1 < 2 ^ 63)
    (h : a.check = .ok () → ∀ w, a.constants = .lent w → ∀ ins ∈ Code.body code, ∀ i < w.length,
      ¬ins.Targets a memory w.buffer (w.start + i)) :
    m.exec code a memory = m.exec code (a.settle memory) memory := by
  have hcheck := a.check_settle memory
  cases hok : a.check with
  | error e => simp only [exec, hcheck, hok]
  | ok _ =>
    have hrun : m.runChunks a code 0 (m.store memory) (m.chunkCount a.count).toNat =
        m.runChunks (a.settle memory) code 0 (m.store memory) (m.chunkCount a.count).toNat := by
      have hcount : a.count = (a.settle memory).count := rfl
      refine runChunks_congr hcount (P := fun s => s.memory.shape = memory.shape ∧
        a.constants.values s.memory = a.constants.values memory) ?_ ?_ (s := m.store memory) ⟨rfl, rfl⟩
      · intro s hs ins
        have hconstants : a.frame.constants.values s.memory =
            (a.settle memory).frame.constants.values s.memory := hs.2
        exact Frame.resolve_congr (a.settle_slot memory) hconstants rfl fun _ _ => rfl
      · rintro i hi ins hins act s hact ⟨hshape, hvalues⟩
        have hwithin := chunk_within_of_fits (Arguments.check_eq_ok_iff.mp hok).1 hchunk hfits
          (by omega : i < (m.chunkCount a.count).toNat)
        refine ⟨(act.perform_shape m.noise _ s).trans hshape, ?_⟩
        refine (Constants.values_congr fun w hw j hj => ?_).trans hvalues
        refine Action.perform_cell m.noise fun hwrites => h hok w hw ins hins j hj ?_
        exact targets_of_writes hact hwithin (hwrites.of_shape hshape.symm)
    rw [exec_eq code hok, exec_eq code (hcheck.trans hok), hrun]
    rfl

end Machine
end Quadlane
