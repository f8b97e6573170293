import Mathlib
import Quadlane.Code.Listing
import Quadlane.Machine.Run

/-! Running a code and decoding it walk over the same instructions. The executor takes operand bytes
off the code as it needs them; `Frame.resolve` is what it makes of an instruction that was decoded
as a whole, and a run is described by the instructions that `Instruction.split` finds. -/

namespace Quadlane

theorem exists_of_five_le {code : List UInt8} (h : 5 ≤ code.length) :
    ∃ set var mask src dst rest, code = set :: var :: mask :: src :: dst :: rest := by
  rcases code with _ | ⟨set, _ | ⟨var, _ | ⟨mask, _ | ⟨src, _ | ⟨dst, rest⟩⟩⟩⟩⟩
  case cons.cons.cons.cons.cons => exact ⟨set, var, mask, src, dst, rest, rfl⟩
  all_goals simp at h

theorem takeBytes_of_le {n : Nat} {code : List UInt8} (h : n ≤ code.length) :
    takeBytes n code = (code.take n, code.drop n) := by
  induction n generalizing code with
  | zero => rfl
  | succ n ih =>
    cases code with
    | nil => simp at h
    | cons b rest =>
      have hrest : n ≤ rest.length := by simpa using h
      simp only [takeBytes, takeByte, ih hrest, List.take_succ_cons, List.drop_succ_cons]

namespace Frame

def resolveOnSet (f : Frame) (m : Memory) (make : Nat → Slot → Source → Action) (p : Probe)
    (ins : Instruction) : Option Action := do
  let set ← f.sets[ins.set.toNat]?
  let dst ← f.slot? ins.destination
  let source ← f.source? m ins.mask 0 (ins.sources.getD 0 0)
  guarded dst [source] true (onSet make p set dst source)

/-- The action of a decoded instruction; none if looking an operand up faults. -/
def resolve (f : Frame) (m : Memory) (ins : Instruction) : Option Action :=
  match ins.op with
  | .done => some .skip
  | .kernel k => do
    let dst ← f.slot? ins.destination
    let sources ← f.sources? m ins.mask 0 ins.sources
    guarded dst sources true (.kernel k dst sources)
  | .cursor c => f.resolveOnSet m (.cursor c) .cursor ins
  | .dataRead => do
    let set ← f.sets[ins.set.toNat]?
    let dst ← f.slot? ins.destination
    let index ← f.source? m ins.mask 0 (ins.sources.getD 0 0)
    readSet m set ins.var.toNat dst index
  | .dataWrite => do
    let view ← f.sets[ins.set.toNat]?.join
    let index ← f.source? m ins.mask 0 (ins.sources.getD 0 0)
    let value ← f.source? m ins.mask 1 (ins.sources.getD 1 0)
    if hasVariable m view ins.var.toNat && index.isBound && value.isBound then
      some (.write view ins.var.toNat index value)
    else none
  | .indexValid => f.resolveOnSet m .valid .valid ins

theorem guarded_cases {dst : Slot} {sources : List Source} {usable : Bool} {a act : Action}
    (h : guarded dst sources usable a = some act) :
    dst = .unbound ∧ act = .skip ∨
      dst ≠ .unbound ∧ (usable && sources.all Source.isBound) ∧ act = a := by
  unfold guarded at h
  split at h
  · next hunbound => exact .inl ⟨hunbound, (Option.some.inj h).symm⟩
  · next hbound =>
    split at h
    · next husable => exact .inr ⟨hbound, husable, (Option.some.inj h).symm⟩
    · cases h

/-- What an instruction can stand for: nothing, or the action of its opcode on the operands that its
bytes name. -/
inductive Denotes (f : Frame) (m : Memory) (ins : Instruction) : Action → Prop
  | skip : f.Denotes m ins .skip
  | kernel {k : Kernel} {dst : Slot} {sources : List Source} (hop : ins.op = .kernel k)
    (hdst : f.slot? ins.destination = some dst)
    (hsources : f.sources? m ins.mask 0 ins.sources = some sources) :
    f.Denotes m ins (.kernel k dst sources)
  | cursor {c : Cursor} {view : Nat} {dst : Slot} {cond : Source} (hop : ins.op = .cursor c)
    (hview : f.sets[ins.set.toNat]? = some (some view))
    (hdst : f.slot? ins.destination = some dst)
    (hcond : f.source? m ins.mask 0 (ins.sources.getD 0 0) = some cond) :
    f.Denotes m ins (.cursor c view dst cond)
  | read {view : Nat} {dst : Slot} {index : Source} (hop : ins.op = .dataRead)
    (hview : f.sets[ins.set.toNat]? = some (some view))
    (hdst : f.slot? ins.destination = some dst)
    (hindex : f.source? m ins.mask 0 (ins.sources.getD 0 0) = some index) :
    f.Denotes m ins (.read view ins.var.toNat dst index)
  | write {view : Nat} {index value : Source} (hop : ins.op = .dataWrite)
    (hview : f.sets[ins.set.toNat]? = some (some view))
    (hindex : f.source? m ins.mask 0 (ins.sources.getD 0 0) = some index)
    (hvalue : f.source? m ins.mask 1 (ins.sources.getD 1 0) = some value) :
    f.Denotes m ins (.write view ins.var.toNat index value)
  | valid {view : Nat} {dst : Slot} {index : Source} (hop : ins.op = .indexValid)
    (hview : f.sets[ins.set.toNat]? = some (some view))
    (hdst : f.slot? ins.destination = some dst)
    (hindex : f.source? m ins.mask 0 (ins.sources.getD 0 0) = some index) :
    f.Denotes m ins (.valid view dst index)
  | missing {p : Probe} {dst : Slot} {source : Source}
    (hop : ins.op = .indexValid ∨ ∃ c, ins.op = .cursor c)
    (hview : f.sets[ins.set.toNat]? = some none) (hdst : f.slot? ins.destination = some dst)
    (hsource : f.source? m ins.mask 0 (ins.sources.getD 0 0) = some source) :
    f.Denotes m ins (.missing p dst source)

theorem denotes_of_resolve {f : Frame} {m : Memory} {ins : Instruction} {act : Action}
    (h : f.resolve m ins = some act) : f.Denotes m ins act := by
  unfold resolve at h
  split at h
  · exact Option.some.inj h ▸ .skip
  · next k hop =>
    simp only [Option.bind_eq_bind, Option.bind_eq_some_iff] at h
    obtain ⟨dst, hdst, sources, hsources, hact⟩ := h
    obtain ⟨-, rfl⟩ | ⟨-, -, rfl⟩ := guarded_cases hact
    · exact .skip
    · exact .kernel hop hdst hsources
  · next c hop =>
    simp only [resolveOnSet, Option.bind_eq_bind, Option.bind_eq_some_iff] at h
    obtain ⟨set, hset, dst, hdst, cond, hcond, hact⟩ := h
    obtain ⟨-, rfl⟩ | ⟨-, -, rfl⟩ := guarded_cases hact
    · exact .skip
    · cases set with
      | some view => exact .cursor hop hset hdst hcond
      | none => exact .missing (.inr ⟨c, hop⟩) hset hdst hcond
  · next hop =>
    simp only [Option.bind_eq_bind, Option.bind_eq_some_iff] at h
    obtain ⟨set, hset, dst, hdst, index, hindex, hact⟩ := h
    cases set with
    | some view =>
      obtain ⟨-, rfl⟩ | ⟨-, -, rfl⟩ := guarded_cases hact
      · exact .skip
      · exact .read hop hset hdst hindex
    | none =>
      obtain ⟨-, rfl⟩ | ⟨-, hfalse, -⟩ := guarded_cases hact
      · exact .skip
      · cases hfalse
  · next hop =>
    simp only [Option.bind_eq_bind, Option.bind_eq_some_iff, Option.join_eq_some_iff] at h
    obtain ⟨view, hview, index, hindex, value, hvalue, hact⟩ := h
    split at hact
    · exact Option.some.inj hact ▸ .write hop hview hindex hvalue
    · cases hact
  · next hop =>
    simp only [resolveOnSet, Option.bind_eq_bind, Option.bind_eq_some_iff] at h
    obtain ⟨set, hset, dst, hdst, index, hindex, hact⟩ := h
    obtain ⟨-, rfl⟩ | ⟨-, -, rfl⟩ := guarded_cases hact
    · exact .skip
    · cases set with
      | some view => exact .valid hop hset hdst hindex
      | none => exact .missing (.inl hop) hset hdst hindex

section Congruence

variable {f f' : Frame} {m m' : Memory} (hslot : f.slot? = f'.slot?)
  (hconstants : f.constants.values m = f'.constants.values m')
include hslot hconstants

theorem source_congr (mask : UInt8) (place : Nat) (b : UInt8) :
    f.source? m mask place b = f'.source? m' mask place b := by
  unfold source?
  rw [hslot, hconstants]

theorem sources_congr (mask : UInt8) (place : Nat) (bytes : List UInt8) :
    f.sources? m mask place bytes = f'.sources? m' mask place bytes := by
  induction bytes generalizing place with
  | nil => rfl
  | cons b bytes ih => rw [sources?, sources?, ih, source_congr hslot hconstants]

theorem resolve_congr (hsets : f.sets = f'.sets) {ins : Instruction}
    (hvariable : ∀ view, f'.sets[ins.set.toNat]? = some (some view) →
      hasVariable m view ins.var.toNat = hasVariable m' view ins.var.toNat) :
    f.resolve m ins = f'.resolve m' ins := by
  have hsource := source_congr hslot hconstants
  unfold resolve
  cases ins.op with
  | done => rfl
  | kernel k => simp only [hslot, sources_congr hslot hconstants]
  | cursor c => simp only [resolveOnSet, hsets, hslot, hsource]
  | dataRead =>
    simp only [hsets, hslot, hsource]
    rcases hset : f'.sets[ins.set.toNat]? with _ | _ | view
    · rfl
    · rfl
    · simp only [Option.bind_eq_bind, Option.bind_some, readSet, hvariable view hset]
  | dataWrite =>
    simp only [hsets, hsource]
    rcases hset : f'.sets[ins.set.toNat]? with _ | _ | view
    · rfl
    · rfl
    · simp only [Option.bind_eq_bind, Option.bind_some, Option.join_some, hvariable view hset]
  | indexValid => simp only [resolveOnSet, hsets, hslot, hsource]

end Congruence

theorem fetchKernel_eq (f : Frame) (m : Memory) (k : Kernel) {code : List UInt8}
    (h : (Opcode.kernel k).width ≤ code.length) :
    (f.fetchKernel m k code).1 =
      f.resolve m (Instruction.ofOperands (.kernel k) (code.take (Opcode.kernel k).width)) := by
  have hwidth : (Opcode.kernel k).width = k.arity + 2 := by
    simp only [Opcode.width, Opcode.layout, Opcode.arity_kernel]
    omega
  rw [hwidth] at h ⊢
  cases code with
  | nil => simp at h
  | cons mask rest =>
    have hrest : k.arity + 1 ≤ rest.length := by simpa using h
    have hdrop : (rest.drop k.arity).length ≠ 0 := by simp; omega
    obtain ⟨d, tail, hd⟩ := List.exists_cons_of_length_pos (Nat.pos_of_ne_zero hdrop)
    have hdst : (rest.take (k.arity + 1))[k.arity]? = some d := by
      rw [List.getElem?_take_of_lt (by omega), ← Nat.add_zero k.arity, ← List.getElem?_drop, hd]
      rfl
    simp [fetchKernel, takeByte, takeBytes_of_le (Nat.le_of_succ_le hrest), hd, resolve,
      Instruction.ofOperands, Opcode.layout, Opcode.hasDestination,
      Layout.hasSet, Layout.hasVariable, Layout.hasDestination, List.take_take, hdst,
      Nat.add_comm 1]

theorem fetchOnSet_eq (f : Frame) (m : Memory) (make : Nat → Slot → Source → Action) (p : Probe)
    {op : Opcode} (hop : op.layout = .cursor ∨ op.layout = .valid) (harity : op.arity = 1)
    {code : List UInt8} (h : 4 ≤ code.length) :
    (f.fetchOnSet m make p code).1 =
      f.resolveOnSet m make p (Instruction.ofOperands op (code.take 4)) := by
  match code, h with
  | set :: mask :: src :: d :: rest, _ =>
    rcases hop with hop | hop <;>
      simp [fetchOnSet, takeByte, resolveOnSet, Instruction.ofOperands, hop, harity,
        Opcode.hasDestination, Layout.hasSet, Layout.hasVariable, Layout.hasDestination]

/-- Taking operands off the code gives what the whole instruction stands for. -/
theorem fetch_eq_resolve (f : Frame) (m : Memory) {op : Opcode} {code : List UInt8}
    (h : op.width ≤ code.length) :
    f.fetch m op code =
      (f.resolve m (Instruction.ofOperands op (code.take op.width)), code.drop op.width) := by
  refine Prod.ext ?_ (f.fetch_rest m op code)
  cases op with
  | done => rfl
  | kernel k => exact f.fetchKernel_eq m k h
  | cursor c =>
    have hwidth : (Opcode.cursor c).width = 4 := by simp [Opcode.width, Opcode.layout]
    rw [resolve, Instruction.ofOperands_op]
    rw [hwidth] at h ⊢
    exact f.fetchOnSet_eq m (.cursor c) .cursor (.inl rfl) (Opcode.arity_cursor c) h
  | indexValid =>
    rw [resolve, Instruction.ofOperands_op]
    exact f.fetchOnSet_eq m .valid .valid (.inr rfl) rfl h
  | dataRead =>
    obtain ⟨set, var, mask, src, d, rest, rfl⟩ := exists_of_five_le h
    rfl
  | dataWrite =>
    obtain ⟨set, var, mask, i, v, rest, rfl⟩ := exists_of_five_le h
    rfl

end Frame

namespace Instruction

variable {offset : Nat} {code rest : List UInt8} {ins : Instruction}

theorem split_eq_ok (h : split offset code = .ok (ins, rest)) :
    ∃ byte op operands, code = byte :: operands ∧ Opcode.ofByte? byte = some op ∧
      op.width ≤ operands.length ∧ ins = ofOperands op (operands.take op.width) ∧
      rest = operands.drop op.width := by
  cases code with
  | nil => simp [split] at h
  | cons byte operands =>
    cases hop : Opcode.ofByte? byte with
    | none => simp [split, hop] at h
    | some op =>
      by_cases hshort : (operands.take op.width).length < op.width
      · simp only [split, hop, hshort, if_true, reduceCtorEq] at h
      · simp only [split, hop, hshort, if_false, Except.ok.injEq, Prod.mk.injEq] at h
        rw [List.length_take] at hshort
        exact ⟨byte, op, operands, rfl, hop, by omega, h.1.symm, h.2.symm⟩

theorem ofOperands_sources_length {op : Opcode} {bytes : List UInt8} (h : op.width ≤ bytes.length) :
    (ofOperands op bytes).sources.length = op.arity := by
  cases op <;>
    simp [ofOperands, Opcode.layout, Opcode.width, Layout.hasSet,
      Layout.hasVariable] at h ⊢ <;> omega

theorem split_sources_length (h : split offset code = .ok (ins, rest)) :
    ins.sources.length = ins.op.arity := by
  obtain ⟨byte, op, operands, -, -, hwidth, rfl, -⟩ := split_eq_ok h
  rw [ofOperands_op]
  apply ofOperands_sources_length
  rw [List.length_take]
  omega

end Instruction

theorem Code.decodeFrom_nil (offset : Nat) : decodeFrom offset [] = ⟨[], none⟩ := by
  rw [decodeFrom]
  rfl

theorem Code.decodeFrom_of_split {offset : Nat} {code rest : List UInt8} {ins : Instruction}
    (h : Instruction.split offset code = .ok (ins, rest)) :
    decodeFrom offset code =
      ⟨(offset, ins) :: (decodeFrom (offset + ins.size) rest).items,
        (decodeFrom (offset + ins.size) rest).stop⟩ := by
  have hcode : code.isEmpty = false := by
    obtain ⟨byte, op, operands, rfl, -⟩ := Instruction.split_eq_ok h
    rfl
  rw [decodeFrom, hcode]
  simp only [Bool.false_eq_true, if_false]
  split
  · next hsplit => simp [h] at hsplit
  · next ins' rest' hsplit =>
    rw [h] at hsplit
    simp only [Except.ok.injEq, Prod.mk.injEq] at hsplit
    obtain ⟨rfl, rfl⟩ := hsplit
    rfl

def Code.bodyFrom (offset : Nat) (code : List UInt8) : List Instruction :=
  ((decodeFrom offset code).items.map (·.2)).takeWhile (·.op ≠ .done)

def Code.body (code : List UInt8) : List Instruction :=
  bodyFrom 0 code

theorem Code.bodyFrom_of_split {offset : Nat} {code rest : List UInt8} {ins : Instruction}
    (h : Instruction.split offset code = .ok (ins, rest)) :
    bodyFrom offset code =
      if ins.op = .done then [] else ins :: bodyFrom (offset + ins.size) rest := by
  rw [bodyFrom, decodeFrom_of_split h, List.map_cons, List.takeWhile_cons, ← bodyFrom]
  by_cases hdone : ins.op = .done <;> simp [hdone]

def ReadError.inRun : ReadError → RunError
  | pastEnd offset => .missingDone offset
  | unknownOpcode byte offset => .unknownOpcode byte offset
  | missingOperands op offset => .missingOperands op offset

/-! ### A run by the instructions it meets -/

section Run

variable {table : NoiseTable} {f : Frame} {c : Chunk} {offset : Nat} {s : Store}
variable {code rest : List UInt8} {ins : Instruction}

theorem runFrom_nil :
    runFrom table f c offset s [] = (s, .error (.missingDone offset)) := by
  rw [runFrom]

theorem runFrom_cons_unknown {byte : UInt8} (hop : Opcode.ofByte? byte = none) :
    runFrom table f c offset s (byte :: rest) = (s, .error (.unknownOpcode byte offset)) := by
  have hbyte : byte ≠ Opcode.done.toByte := by
    rw [Ne, ← Dispatch.ofByte?_eq_done_iff, hop]
    simp
  have hhandler : Dispatch.handler? byte = none := by rw [Dispatch.handler?_eq, hop]; rfl
  rw [runFrom, if_neg hbyte, hhandler]

theorem runFrom_cons_done {byte : UInt8} (hop : Opcode.ofByte? byte = some .done) :
    runFrom table f c offset s (byte :: rest) = (s, .done) := by
  rw [runFrom, if_pos ((Dispatch.ofByte?_eq_done_iff byte).mp hop)]

theorem runFrom_cons {byte : UInt8} {op : Opcode} (hop : Opcode.ofByte? byte = some op)
    (hdone : op ≠ .done) :
    runFrom table f c offset s (byte :: rest) =
      if (rest.take op.width).length < op.width then (s, .error (.missingOperands op offset))
      else match f.fetch s.memory op rest with
        | (none, _) => (s, .fault offset)
        | (some a, next) =>
          if a.reach c s < c.count then (a.perform table c s, .fault offset)
          else runFrom table f c (offset + 1 + op.width) (a.perform table c s) next := by
  have hbyte : byte ≠ Opcode.done.toByte := by
    rw [Ne, ← Dispatch.ofByte?_eq_done_iff, hop]
    exact fun h => hdone (Option.some.inj h)
  have hhandler : Dispatch.handler? byte = some op := by
    rw [Dispatch.handler?_eq, hop, Option.filter_some, if_pos (by simpa using hdone)]
  rw [runFrom, if_neg hbyte, hhandler]
  dsimp only
  split
  · rfl
  · split <;> simp_all

theorem runFrom_of_unreadable {e : ReadError} (h : Instruction.split offset code = .error e) :
    runFrom table f c offset s code = (s, .error e.inRun) := by
  cases code with
  | nil =>
    simp only [Instruction.split, Except.error.injEq] at h
    rw [runFrom_nil, ← h, ReadError.inRun]
  | cons byte rest =>
    cases hop : Opcode.ofByte? byte with
    | none =>
      simp only [Instruction.split, hop, Except.error.injEq] at h
      rw [runFrom_cons_unknown hop, ← h, ReadError.inRun]
    | some op =>
      by_cases hshort : (rest.take op.width).length < op.width
      · simp only [Instruction.split, hop, hshort, if_true, Except.error.injEq] at h
        have hdone : op ≠ .done := by
          rintro rfl
          simp [Opcode.width, Opcode.layout] at hshort
        rw [runFrom_cons hop hdone, if_pos hshort, ← h, ReadError.inRun]
      · simp only [Instruction.split, hop, hshort, if_false, reduceCtorEq] at h

theorem runFrom_of_done (h : Instruction.split offset code = .ok (ins, rest))
    (hdone : ins.op = .done) : runFrom table f c offset s code = (s, .done) := by
  obtain ⟨byte, op, operands, rfl, hop, -, rfl, -⟩ := Instruction.split_eq_ok h
  rw [Instruction.ofOperands_op] at hdone
  exact runFrom_cons_done (hdone ▸ hop)

theorem runFrom_of_split (h : Instruction.split offset code = .ok (ins, rest))
    (hdone : ins.op ≠ .done) :
    runFrom table f c offset s code =
      match f.resolve s.memory ins with
      | none => (s, .fault offset)
      | some a =>
        if a.reach c s < c.count then (a.perform table c s, .fault offset)
        else runFrom table f c (offset + ins.size) (a.perform table c s) rest := by
  obtain ⟨byte, op, operands, rfl, hop, hwidth, rfl, rfl⟩ := Instruction.split_eq_ok h
  rw [Instruction.ofOperands_op] at hdone
  have hlong : ¬ (operands.take op.width).length < op.width := by
    rw [List.length_take]
    omega
  rw [runFrom_cons hop hdone, if_neg hlong, f.fetch_eq_resolve s.memory hwidth,
    Instruction.size, Instruction.ofOperands_op, Nat.add_assoc]
  cases f.resolve s.memory (Instruction.ofOperands op (operands.take op.width)) <;> rfl

theorem runFrom_of_resolve (h : Instruction.split offset code = .ok (ins, rest))
    (hdone : ins.op ≠ .done) {a : Action} (hact : f.resolve s.memory ins = some a)
    (hwhole : a.reach c s = c.count) :
    runFrom table f c offset s code =
      runFrom table f c (offset + ins.size) (a.perform table c s) rest := by
  rw [runFrom_of_split h hdone, hact]
  exact if_neg (Nat.not_lt.mpr hwhole.ge)

theorem runFrom_invariant {P : Store → Prop} {offset : Nat} {code : List UInt8}
    (hstep : ∀ ins ∈ Code.bodyFrom offset code, ∀ a s, f.resolve s.memory ins = some a → P s →
      P (a.perform table c s)) (hs : P s) :
    P (runFrom table f c offset s code).1 := by
  induction hlen : code.length using Nat.strongRecOn generalizing offset s code with
  | ind len ih =>
    cases hsplit : Instruction.split offset code with
    | error e => rwa [runFrom_of_unreadable hsplit]
    | ok p =>
      obtain ⟨ins, rest⟩ := p
      by_cases hdone : ins.op = .done
      · rwa [runFrom_of_done hsplit hdone]
      · rw [Code.bodyFrom_of_split hsplit, if_neg hdone] at hstep
        rw [runFrom_of_split hsplit hdone]
        cases hact : f.resolve s.memory ins with
        | none => exact hs
        | some a =>
          have hshorter := Instruction.split_decreasing hsplit
          have hnext := hstep ins (List.mem_cons_self ..) a s hact hs
          dsimp only
          split
          · exact hnext
          · exact ih rest.length (by omega) (fun i hi => hstep i (List.mem_cons_of_mem _ hi)) hnext
              rfl

theorem runFrom_congr {f' : Frame} {P : Store → Prop} {offset : Nat} {code : List UInt8}
    (hlookup : ∀ s, P s → ∀ ins, f.resolve s.memory ins = f'.resolve s.memory ins)
    (hstep : ∀ ins ∈ Code.bodyFrom offset code, ∀ a s, f.resolve s.memory ins = some a → P s →
      P (a.perform table c s)) (hs : P s) :
    runFrom table f c offset s code = runFrom table f' c offset s code := by
  induction hlen : code.length using Nat.strongRecOn generalizing offset s code with
  | ind len ih =>
    cases hsplit : Instruction.split offset code with
    | error e => rw [runFrom_of_unreadable hsplit, runFrom_of_unreadable hsplit]
    | ok p =>
      obtain ⟨ins, rest⟩ := p
      by_cases hdone : ins.op = .done
      · rw [runFrom_of_done hsplit hdone, runFrom_of_done hsplit hdone]
      · rw [Code.bodyFrom_of_split hsplit, if_neg hdone] at hstep
        rw [runFrom_of_split hsplit hdone, runFrom_of_split hsplit hdone, ← hlookup s hs ins]
        cases hact : f.resolve s.memory ins with
        | none => rfl
        | some a =>
          have hshorter := Instruction.split_decreasing hsplit
          have hnext := hstep ins (List.mem_cons_self ..) a s hact hs
          dsimp only
          rw [ih rest.length (by omega) (fun i hi => hstep i (List.mem_cons_of_mem _ hi)) hnext rfl]

end Run
end Quadlane
