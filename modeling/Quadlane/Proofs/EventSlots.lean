import Quadlane.Proofs.Checking
import Quadlane.Proofs.Emission

/-! Emission as a program of its own, `acquireindex t0, s0, cond` and
`shareddatawrite s0, var, t0, value` and the terminator, with operands that the caller supplies. It runs to its end whenever the machine
can run at all, and then slot after slot holds the value of instance after instance. -/

namespace Quadlane

/-! ### Encoded instructions and a terminator -/

section Encoded

variable {instructions : List Instruction} {acts : List Action} {f : Frame} {memory : Memory}

def Code.ofInstructions (instructions : List Instruction) : List UInt8 :=
  instructions.flatMap Instruction.encode ++ [Opcode.done.toByte]

theorem split_terminator (offset : Nat) :
    Instruction.split offset [Opcode.done.toByte] = .ok ({ op := .done }, []) :=
  rfl

theorem split_ofInstructions {ins : Instruction} (h : ins.Complete) (offset : Nat) :
    Instruction.split offset (Code.ofInstructions (ins :: instructions)) =
      .ok (ins, Code.ofInstructions instructions) := by
  rw [Code.ofInstructions, List.flatMap_cons, List.append_assoc, h.split_encode]
  rfl

theorem Code.body_ofInstructions (h : ∀ ins ∈ instructions, ins.Complete ∧ ins.op ≠ .done) :
    body (ofInstructions instructions) = instructions := by
  have hall : ∀ offset, bodyFrom offset (ofInstructions instructions) = instructions := by
    induction instructions with
    | nil =>
      intro offset
      exact (bodyFrom_of_split (split_terminator offset)).trans (if_pos rfl)
    | cons ins instructions ih =>
      intro offset
      obtain ⟨hcomplete, hdone⟩ := h ins (List.mem_cons_self ..)
      rw [bodyFrom_of_split (split_ofInstructions hcomplete offset), if_neg hdone,
        ih fun i hi => h i (List.mem_cons_of_mem _ hi)]
  exact hall 0

theorem runFrom_ofInstructions (table : NoiseTable) (c : Chunk) (offset : Nat) {s : Store}
    (h : ∀ ins ∈ instructions, ins.Complete ∧ ins.op ≠ .done)
    (hperforms : f.Performs memory instructions acts) (hshape : s.memory.shape = memory.shape) :
    (runFrom table f c offset s (Code.ofInstructions instructions)).2 = .done := by
  induction hperforms generalizing offset s with
  | nil => exact congrArg Prod.snd (runFrom_of_done (split_terminator offset) rfl)
  | @cons ins act instructions acts hact _ ih =>
    obtain ⟨hcomplete, hdone⟩ := h ins (List.mem_cons_self ..)
    rw [runFrom_of_resolve (split_ofInstructions hcomplete offset) hdone (hact.2 s.memory hshape)
      (act.reach_of_present c hact.1 s)]
    exact ih _ (fun i hi => h i (List.mem_cons_of_mem _ hi))
      ((act.perform_shape table c s).trans hshape)

namespace Machine

variable {m : Machine} {a : Arguments}

theorem runChunks_ofInstructions (h : ∀ ins ∈ instructions, ins.Complete ∧ ins.op ≠ .done)
    (hperforms : a.frame.Performs memory instructions acts) (k remaining : Nat) {s : Store}
    (hshape : s.memory.shape = memory.shape) :
    (m.runChunks a (Code.ofInstructions instructions) k s remaining).2 = .done := by
  induction remaining generalizing k s with
  | zero => rfl
  | succ remaining ih =>
    have hend := runFrom_ofInstructions m.noise (m.chunk a.count k) 0 h hperforms hshape
    have hkept := runFrom_shape m.noise a.frame (m.chunk a.count k) 0 s
      (Code.ofInstructions instructions)
    rw [runChunks_succ]
    generalize runFrom m.noise a.frame (m.chunk a.count k) 0 s (Code.ofInstructions instructions) =
      run at hend hkept ⊢
    obtain ⟨s', ending⟩ := run
    obtain rfl : ending = .done := hend
    exact ih (k + 1) (hkept.trans hshape)

theorem exec_ofInstructions_ok_iff (h : ∀ ins ∈ instructions, ins.Complete ∧ ins.op ≠ .done)
    (hperforms : a.frame.Performs memory instructions acts) (hcheck : a.check = .ok ()) :
    (m.exec (Code.ofInstructions instructions) a memory).outcome = .ok ↔
      m.hasScratch = true ∨ m.chunkCount a.count ≤ 0 := by
  constructor
  · exact fun hok => (exec_eq_ok hok).2.1
  · intro hroom
    have hend := runChunks_ofInstructions (m := m) h hperforms 0 (m.chunkCount a.count).toNat
      (s := m.store memory) rfl
    rw [exec_of_done hcheck hroom (Prod.ext rfl hend)]

end Machine
end Encoded

/-! ### Operands that the caller supplies -/

inductive Supply where
  | input (i : Nat)
  | constant (i : Nat)

namespace Supply

variable {a : Arguments} {o : Supply} {b : BufferId}

def operand : Supply → Operand
  | input i => .input i
  | constant i => .constant i

def IsGiven (a : Arguments) : Supply → Prop
  | input i => i < a.inputs.length
  | constant i => i < a.constants.length

instance (a : Arguments) : (o : Supply) → Decidable (o.IsGiven a)
  | input i => inferInstanceAs (Decidable (i < a.inputs.length))
  | constant i => inferInstanceAs (Decidable (i < a.constants.length))

def source (a : Arguments) (m : Memory) : Supply → Source
  | input i => .register (.ofWindow a.inputs[i]?)
  | constant i => .constant ((a.constants.values m).getD i Quad.zero)

theorem source_settle (m : Memory) (hcheck : a.check = .ok ()) (h : o.IsGiven a) {mask : UInt8}
    {place : Nat} (hkind : sourceKind mask place = o.operand.kind) (m' : Memory) :
    (a.settle m).frame.source? m' mask place o.operand.index = some (o.source a m) := by
  obtain ⟨-, hinputs, -, hconstants, -⟩ := Arguments.check_eq_ok_iff.mp hcheck
  rw [Frame.source?, hkind]
  cases o with
  | input i =>
    have hsplit : splitRegister (Operand.input i).index = some (.input, i) :=
      splitRegister_register (by decide) (Nat.lt_of_lt_of_le h hinputs)
    show ((a.settle m).frame.slot? (Operand.input i).index).map Source.register = _
    rw [← a.settle_slot, a.frame_slot, Arguments.slot?, hsplit]
    rfl
  | constant i =>
    have hindex : (Operand.constant i).index.toNat = i :=
      toNat_lowByte (Nat.lt_of_lt_of_le h hconstants)
    have hlt : i < (a.constants.values m).length := (a.constants.length_values m).symm ▸ h
    show ((a.constants.values m)[(Operand.constant i).index.toNat]?).map Source.constant = _
    rw [hindex, List.getElem?_eq_getElem hlt, source, List.getD_eq_getElem _ _ hlt]
    rfl

theorem source_apart (m : Memory) (h : o.IsGiven a) (hapart : ∀ w ∈ a.inputs, w.buffer ≠ b) :
    (o.source a m).Apart b := by
  cases o with
  | input i =>
    rw [source, List.getElem?_eq_getElem h]
    exact hapart _ (List.getElem_mem h)
  | constant i => trivial

end Supply

/-! ### The program -/

def emitting (var : UInt8) (cond value : Supply) : List Instruction :=
  emission var (sourceMask [cond.operand.kind]) (sourceMask [.register, value.operand.kind])
    cond.operand.index value.operand.index

theorem emitting_complete (var : UInt8) (cond value : Supply) :
    ∀ ins ∈ emitting var cond value, ins.Complete ∧ ins.op ≠ .done := by
  simp only [emitting, emission, List.forall_mem_cons, List.not_mem_nil, false_imp_iff,
    implies_true, and_true]
  refine ⟨⟨⟨rfl, ?_, ?_, ?_, ?_⟩, by simp⟩, ⟨⟨rfl, ?_, ?_, ?_, ?_⟩, by simp⟩⟩ <;>
    simp [Opcode.layout, Opcode.hasDestination, Layout.hasSet, Layout.hasVariable,
      Layout.hasDestination]

def Supply.firing (a : Arguments) (memory : Memory) (n : Nat) (cond : Supply) : List Nat :=
  (List.range n).filter fun j => ((cond.source a memory).given memory j).x.isPositive

namespace Machine

theorem performs_emitting {a : Arguments} {memory : Memory} {var : UInt8} {cond value : Supply}
    {id size : Nat} {b : BufferId} (hcheck : a.check = .ok ()) (hcond : cond.IsGiven a)
    (hvalue : value.IsGiven a) (hset : a.sets[0]? = some (some id))
    (hview : memory.HasRecords id var.toNat b size) (hapart : ∀ w ∈ a.inputs, w.buffer ≠ b) :
    (a.settle memory).frame.Performs memory (emitting var cond value)
      [.cursor .acquire id (.temporary 0) (cond.source a memory),
        .write id var.toNat (.register (.temporary 0)) (value.source a memory)] :=
  performs_emission (a := a.settle memory) hset hview (sourceKind_sourceMask (by simp) rfl)
    (Supply.source_settle memory hcheck hcond (sourceKind_sourceMask (by simp) rfl))
    (Supply.source_apart memory hcond hapart)
    (Supply.source_settle memory hcheck hvalue (sourceKind_sourceMask (by simp) rfl))
    (Supply.source_apart memory hvalue hapart)

theorem emitting_not_targets {a : Arguments} {memory : Memory} {var : UInt8} {cond value : Supply}
    {id size : Nat} {b b' : BufferId} (hset : a.sets[0]? = some (some id))
    (hview : memory.HasRecords id var.toNat b size) (hb : b' ≠ b) {ins : Instruction}
    (hins : ins ∈ emitting var cond value) (j : Nat) : ¬ins.Targets a memory b' j := by
  obtain ⟨⟨v, hv, -, x, hvar⟩, -⟩ := hview
  simp only [emitting, emission, List.mem_cons, List.not_mem_nil, or_false] at hins
  rcases hins with rfl | rfl
  · rintro (⟨-, w, hslot, -⟩ | ⟨hop, -⟩)
    · exact absurd (slot_zero a) (by simp [show a.frame.slot? 0 = some (.bound w) from hslot])
    · cases hop
  · rintro (⟨hdst, -⟩ | ⟨-, id', v', x', hset', hv', hvar', -⟩)
    · cases hdst
    · obtain rfl : id = id' := by simpa [hset] using hset'
      obtain rfl : v = v' := Option.some.inj (hv.symm.trans hv')
      rw [hvar, Option.some.injEq, Prod.mk.injEq, Option.some.injEq] at hvar'
      exact hb hvar'.2.symm

/-- Whatever the size of the chunks, the slots from the cursor on hold the values of the instances
whose condition is positive, in order and as far as there is room, and nothing else is changed. The
call fails only where the number of cells for temporaries wraps around and there is an instance. The
records share no cell with the inputs and the constants. -/
theorem exec_emitting (m : Machine) (a : Arguments) (memory : Memory) (var : UInt8)
    (cond value : Supply) {n c k size id : Nat} {b : BufferId} (hchunk : m.chunkSize = c)
    (hc : 1 ≤ c) (hn : a.count = n) (hfits : n + c - 1 < 2 ^ 63) (hcheck : a.check = .ok ())
    (hcond : cond.IsGiven a) (hvalue : value.IsGiven a) (hset : a.sets[0]? = some (some id))
    (hview : memory.HasRecords id var.toNat b size)
    (hcounter : memory.views[id]?.map View.counter = some (k : Int)) (hk : k ≤ size)
    (hsize : size ≤ 2 ^ 24) (hapart : ∀ w ∈ a.inputs, w.buffer ≠ b)
    (hconstants : ∀ w, a.constants = .lent w → w.buffer ≠ b) :
    let result := m.exec (Code.ofInstructions (emitting var cond value)) a memory
    let js := cond.firing a memory n
    (result.outcome = .ok ↔ Limit.temporaries * c < 2 ^ 63 ∨ n = 0) ∧
    (result.outcome = .ok →
      (∀ q j, js[q]? = some j → k + q < size →
        result.memory.cell b (k + q) = (value.source a memory).given memory j) ∧
      (∀ b' i, ¬(b' = b ∧ k ≤ i ∧ i < min size (k + js.length)) →
        result.memory.cell b' i = memory.cell b' i) ∧
      result.memory.views[id]?.map View.counter =
        some ((min size (k + js.length) : Nat) : Int)) := by
  intro result js
  have hcomplete := emitting_complete var cond value
  have hbody := Code.body_ofInstructions hcomplete
  have hle : n + c ≤ 2 ^ 63 := by omega
  clear hfits
  have hsettle : result = m.exec (Code.ofInstructions (emitting var cond value)) (a.settle memory)
      memory := by
    refine exec_settle (by omega) (by omega) fun _ w hw ins hins i _ => ?_
    exact emitting_not_targets hset hview (hconstants w hw) (hbody ▸ hins) _
  have hcheck' := (a.check_settle memory).trans hcheck
  rw [hsettle]
  have hperforms := performs_emitting hcheck hcond hvalue hset hview hapart
  constructor
  · have hchunks : m.chunkCount (a.settle memory).count ≤ 0 ↔ n = 0 := by
      rw [show (a.settle memory).count = n from hn,
        chunkCount_of_fits (by omega) (by omega) (by omega), ← not_lt, ← Int.add_one_le_iff,
        Int.le_ediv_iff_mul_le (by omega)]
      omega
    rw [exec_ofInstructions_ok_iff hcomplete hperforms hcheck', hchunks,
      hasScratch_iff (by omega), hchunk]
    norm_cast
  · intro hok
    have hnoted := exec_emission (a := a.settle memory) k hchunk hc hn hle hbody hset hview hsize
      (sourceKind_sourceMask (by simp) rfl)
      (Supply.source_settle memory hcheck hcond (sourceKind_sourceMask (by simp) rfl))
      (Supply.source_apart memory hcond hapart)
      (Supply.source_settle memory hcheck hvalue (sourceKind_sourceMask (by simp) rfl))
      (Supply.source_apart memory hvalue hapart) hcounter hk hok
    replace hnoted : memory.Noted id b k size
        (js.map fun j => (value.source a memory).given memory j) _ := hnoted
    refine ⟨?_, ?_, ?_⟩
    · intro q j hj hroom
      rw [hnoted.cell, if_pos ⟨rfl, by omega, hroom⟩, Nat.add_sub_cancel_left, List.getElem?_map, hj]
      rfl
    · intro b' i hother
      rw [hnoted.cell]
      split
      · next hin =>
        have hpast : ¬ i < min size (k + js.length) := fun hlt => hother ⟨hin.1, hin.2.1, hlt⟩
        have hnone : js[i - k]? = none := List.getElem?_eq_none (by omega)
        rw [List.getElem?_map, hnone]
        rfl
      · rfl
    · rw [hnoted.counter, List.length_map, Nat.min_comm]

def fillingUp : Arguments :=
  { inputs := [⟨0, 0, 3⟩, ⟨1, 0, 3⟩], outputs := [], constants := .own [], sets := [some 0], count := 3 }

def nearlyFull : Memory :=
  { buffers := #[#[Quad.splat Lane.one, Quad.zero, Quad.splat Lane.one],
      #[⟨Lane.one, Lane.zero, Lane.zero, Lane.zero⟩, Quad.zero, Quad.splat Lane.one],
      #[Quad.zero, Quad.zero]]
    views := #[{ name := Text.lit "events", size := 2, counter := 1, vars := #[(Text.lit "x", some 2)] }] }

theorem nearlyFull_hasRecords : nearlyFull.HasRecords 0 0 2 2 :=
  ⟨⟨_, rfl, rfl, Text.lit "x", rfl⟩, by decide⟩

theorem exec_emitting_nearlyFull :
    fillingUp.check = .ok () ∧ nearlyFull.HasRecords 0 0 2 2 ∧
      (Supply.input 0).firing fillingUp nearlyFull 3 = [0, 2] ∧
      let result := (new 2 0 .standard).exec
        (Code.ofInstructions (emitting 0 (.input 0) (.input 1))) fillingUp nearlyFull
      result.outcome = .ok ∧
      result.memory.cell 2 1 = ⟨Lane.one, Lane.zero, Lane.zero, Lane.zero⟩ ∧
      result.memory.cell 2 0 = Quad.zero ∧
      result.memory.views[0]?.map View.counter = some 2 := by
  have hfiring : (Supply.input 0).firing fillingUp nearlyFull 3 = [0, 2] := by decide
  obtain ⟨hok, hnotes⟩ := exec_emitting (new 2 0 .standard) fillingUp nearlyFull 0 (.input 0)
    (.input 1) (c := 2) (n := 3) (k := 1) rfl (by decide) rfl (by decide) rfl (by decide)
    (by decide) rfl nearlyFull_hasRecords rfl (by decide) (by decide) (by decide)
    (fun _ hlent => by cases hlent)
  rw [hfiring] at hnotes
  have hdone := hok.mpr (.inl (by decide))
  obtain ⟨hslots, hrest, hcounter⟩ := hnotes hdone
  exact ⟨rfl, nearlyFull_hasRecords, hfiring, hdone, hslots 0 0 rfl (by decide),
    hrest 2 0 (by decide), hcounter⟩

/-- A machine with `2 ^ 58` instances a chunk can be made, and `1 + 2 ^ 58 - 1` does not overflow, but
it has no cells for temporaries: it does not note the value of the one instance. -/
theorem exec_emitting_wrapped_scratch :
    (new (2 ^ 58) 0 .standard).canExist = true ∧
      ({ fillingUp with count := 1 } : Arguments).check = .ok () ∧
      (Supply.input 0).firing { fillingUp with count := 1 } nearlyFull 1 = [0] ∧
      let result := (new (2 ^ 58) 0 .standard).exec
        (Code.ofInstructions (emitting 0 (.input 0) (.input 1))) { fillingUp with count := 1 }
        nearlyFull
      result.outcome = .fault none ∧ result.memory.cell 2 1 = Quad.zero ∧
      result.memory.views[0]?.map View.counter = some 1 := by
  refine ⟨by decide, rfl, by decide, ?_⟩
  rw [exec_of_no_scratch _ rfl (by decide) (by decide)]
  exact ⟨rfl, rfl, rfl⟩

end Machine
end Quadlane
