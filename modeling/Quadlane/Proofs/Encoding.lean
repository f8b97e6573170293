import Quadlane.Proofs.Decoding

/-! Instructions and their bytes determine each other. An instruction is complete if it has a byte for
every operand of its opcode and nothing else; decoding finds complete instructions only, and a code
that decodes to its end is the concatenation of their encodings. -/

namespace Quadlane

namespace Opcode

theorem mem_all (op : Opcode) : op ∈ all := by
  cases op with
  | kernel k =>
    cases k with
    | unary k => cases k <;> decide
    | binary k => cases k <;> decide
    | ternary k => cases k <;> decide
    | quaternary k => cases k <;> decide
    | random => decide
    | noise => decide
  | cursor c => cases c <;> decide
  | _ => decide

theorem toByte_toNat (op : Opcode) : op.toByte.toNat = all.idxOf op := by
  have hlt : all.idxOf op < all.length := List.idxOf_lt_length_of_mem op.mem_all
  have hlength : all.length = 61 := by decide
  exact UInt8.toNat_ofNat_of_lt' (show all.idxOf op < 256 by omega)

@[simp] theorem ofByte_toByte (op : Opcode) : ofByte? op.toByte = some op := by
  have hlt : all.idxOf op < all.length := List.idxOf_lt_length_of_mem op.mem_all
  rw [ofByte?, toByte_toNat, List.getElem?_eq_getElem hlt, List.getElem_idxOf hlt]

theorem toByte_of_ofByte {b : UInt8} {op : Opcode} (h : ofByte? b = some op) : op.toByte = b := by
  have hnodup : all.Nodup := by decide
  obtain ⟨hb, rfl⟩ := List.getElem?_eq_some_iff.mp h
  apply UInt8.toNat_inj.mp
  rw [toByte_toNat, hnodup.idxOf_getElem]

theorem arity_le_four (op : Opcode) : op.arity ≤ 4 := by
  have hall : ∀ op ∈ all, op.arity ≤ 4 := by decide
  exact hall op op.mem_all

theorem arity_of_layout_none {op : Opcode} (h : op.layout = .none) : op.arity = 0 := by
  cases op with
  | done => rfl
  | _ => simp [layout] at h

end Opcode

namespace Instruction

variable {offset : Nat} {code rest : List UInt8} {ins : Instruction}

structure Complete (ins : Instruction) : Prop where
  sources : ins.sources.length = ins.op.arity
  set : ins.op.layout.hasSet = false → ins.set = 0
  var : ins.op.layout.hasVariable = false → ins.var = 0
  mask : ins.op.layout = .none → ins.mask = 0
  destination : ins.op.hasDestination = false → ins.destination = 0

theorem ofOperands_complete {op : Opcode} {bytes : List UInt8} (h : op.width ≤ bytes.length) :
    (ofOperands op bytes).Complete := by
  refine ⟨?_, ?_, ?_, ?_, ?_⟩
  · rw [ofOperands_op, ofOperands_sources_length h]
  all_goals
    rw [ofOperands_op]
    intro hnone
    unfold ofOperands
    split
    · rfl
    · simp_all

theorem encode_ofOperands {op : Opcode} {bytes : List UInt8} (h : bytes.length = op.width) :
    (ofOperands op bytes).encode = op.toByte :: bytes := by
  cases op with
  | done =>
    obtain rfl : bytes = [] := List.length_eq_zero_iff.mp h
    rfl
  | kernel k =>
    obtain ⟨mask, bytes, rfl⟩ := List.exists_cons_of_length_pos (l := bytes) (by
      rw [h]; simp only [Opcode.width, Opcode.layout]; omega)
    have hlen : bytes.length = k.arity + 1 := by
      simp only [Opcode.width, Opcode.layout, Opcode.arity_kernel, List.length_cons] at h
      omega
    have hlast : k.arity < bytes.length := by omega
    have hsplit : bytes.take k.arity ++ [bytes[k.arity]] = bytes := by
      rw [List.take_append_getElem hlast, List.take_of_length_le (by omega)]
    simp only [ofOperands, encode, Opcode.layout, Opcode.arity_kernel, Opcode.hasDestination,
      Layout.hasSet, Layout.hasVariable, Layout.hasDestination]
    simpa [Nat.add_comm 1, hlast] using hsplit
  | cursor c =>
    have hfour : (Opcode.cursor c).width = 4 := by cases c <;> rfl
    obtain ⟨set, bytes, rfl⟩ := List.exists_cons_of_length_eq_add_one (h.trans hfour)
    obtain ⟨mask, src, dst, rfl⟩ := List.length_eq_three.mp (Nat.succ.inj (h.trans hfour))
    cases c <;> rfl
  | dataRead =>
    obtain ⟨set, bytes, rfl⟩ := List.exists_cons_of_length_eq_add_one h
    obtain ⟨var, bytes, rfl⟩ := List.exists_cons_of_length_eq_add_one (Nat.succ.inj h)
    obtain ⟨mask, src, dst, rfl⟩ := List.length_eq_three.mp (Nat.succ.inj (Nat.succ.inj h))
    rfl
  | dataWrite =>
    obtain ⟨set, bytes, rfl⟩ := List.exists_cons_of_length_eq_add_one h
    obtain ⟨var, bytes, rfl⟩ := List.exists_cons_of_length_eq_add_one (Nat.succ.inj h)
    obtain ⟨mask, index, value, rfl⟩ := List.length_eq_three.mp (Nat.succ.inj (Nat.succ.inj h))
    rfl
  | indexValid =>
    obtain ⟨set, bytes, rfl⟩ := List.exists_cons_of_length_eq_add_one h
    obtain ⟨mask, src, dst, rfl⟩ := List.length_eq_three.mp (Nat.succ.inj h)
    rfl

theorem eq_encode_of_split (h : split offset code = .ok (ins, rest)) :
    ins.Complete ∧ code = ins.encode ++ rest := by
  obtain ⟨byte, op, operands, rfl, hop, hwidth, rfl, rfl⟩ := split_eq_ok h
  have hlen : (operands.take op.width).length = op.width := by
    rw [List.length_take]
    omega
  refine ⟨ofOperands_complete (Nat.le_of_eq hlen.symm), ?_⟩
  rw [encode_ofOperands hlen, Opcode.toByte_of_ofByte hop, List.cons_append, List.take_append_drop]

theorem Complete.encode_eq (h : ins.Complete) :
    ∃ operands, ins.encode = ins.op.toByte :: operands ∧ operands.length = ins.op.width ∧
      ofOperands ins.op operands = ins := by
  obtain ⟨op, set, var, mask, sources, destination⟩ := ins
  obtain ⟨hsources, hset, hvar, hmask, hdst⟩ := h
  refine ⟨_, rfl, ?_⟩
  cases op with
  | done =>
    simp only [Opcode.arity_done, List.length_eq_zero_iff, Opcode.hasDestination, Opcode.layout,
      Layout.hasSet, Layout.hasVariable, Layout.hasDestination, forall_const] at *
    subst hsources hset hvar hmask hdst
    exact ⟨rfl, rfl⟩
  | kernel k =>
    simp only [Opcode.arity_kernel, Opcode.hasDestination, Opcode.layout, Opcode.width,
      Layout.hasSet, Layout.hasVariable, Layout.hasDestination, forall_const] at *
    subst hset hvar
    constructor
    · simp [hsources]
      omega
    · simp [ofOperands, Opcode.layout, Opcode.hasDestination, Layout.hasSet,
        Layout.hasVariable, Layout.hasDestination, ← hsources, Nat.add_comm 1]
  | cursor c =>
    obtain ⟨src, rfl⟩ := List.length_eq_one_iff.mp (hsources.trans (Opcode.arity_cursor c))
    obtain rfl := hvar rfl
    cases c <;> exact ⟨rfl, rfl⟩
  | dataRead =>
    obtain ⟨src, rfl⟩ := List.length_eq_one_iff.mp hsources
    exact ⟨rfl, rfl⟩
  | dataWrite =>
    obtain ⟨index, value, rfl⟩ := List.length_eq_two.mp hsources
    obtain rfl := hdst rfl
    exact ⟨rfl, rfl⟩
  | indexValid =>
    obtain ⟨src, rfl⟩ := List.length_eq_one_iff.mp hsources
    obtain rfl := hvar rfl
    exact ⟨rfl, rfl⟩

theorem Complete.split_encode (h : ins.Complete) (offset : Nat) (rest : List UInt8) :
    split offset (ins.encode ++ rest) = .ok (ins, rest) := by
  obtain ⟨operands, hencode, hlen, hins⟩ := h.encode_eq
  rw [hencode, List.cons_append, split]
  simp [← hlen, hins]

end Instruction

namespace Code

theorem decodeFrom_encode (offset : Nat) {instructions : List Instruction}
    (h : ∀ ins ∈ instructions, ins.Complete) :
    (decodeFrom offset (instructions.flatMap Instruction.encode)).stop = none ∧
      (decodeFrom offset (instructions.flatMap Instruction.encode)).items.map (·.2) =
        instructions := by
  induction instructions generalizing offset with
  | nil =>
    rw [List.flatMap_nil, decodeFrom_nil]
    exact ⟨rfl, rfl⟩
  | cons ins instructions ih =>
    have hins := h ins (List.mem_cons_self ..)
    obtain ⟨hstop, hitems⟩ := ih (offset + ins.size) fun i hi => h i (List.mem_cons_of_mem _ hi)
    rw [List.flatMap_cons, decodeFrom_of_split (hins.split_encode offset _)]
    exact ⟨hstop, by rw [List.map_cons, hitems]⟩

/-- A code that decodes to its end is made of the instructions that were found. -/
theorem eq_encode_of_decodeFrom {offset : Nat} {code : List UInt8}
    (h : (decodeFrom offset code).stop = none) :
    (∀ item ∈ (decodeFrom offset code).items,
      item.2.Complete ∧ item.1 < offset + code.length) ∧
    code = ((decodeFrom offset code).items.map (·.2)).flatMap Instruction.encode := by
  induction hlen : code.length using Nat.strongRecOn generalizing offset code with
  | ind len ih =>
    cases hsplit : Instruction.split offset code with
    | error e =>
      cases code with
      | nil =>
        rw [decodeFrom_nil]
        exact ⟨fun _ hitem => absurd hitem List.not_mem_nil, rfl⟩
      | cons byte rest =>
        rw [decodeFrom, List.isEmpty_cons] at h
        simp only [Bool.false_eq_true, if_false] at h
        split at h
        · simp at h
        · next hok => simp [hsplit] at hok
    | ok p =>
      obtain ⟨ins, rest⟩ := p
      obtain ⟨hins, rfl⟩ := Instruction.eq_encode_of_split hsplit
      have hlength := Instruction.split_length hsplit
      have hshorter := Instruction.split_decreasing hsplit
      rw [decodeFrom_of_split hsplit] at h ⊢
      obtain ⟨hitems, hrest⟩ := ih rest.length (by omega) h rfl
      constructor
      · intro item hitem
        rcases List.mem_cons.mp hitem with rfl | hitem
        · exact ⟨hins, by omega⟩
        · obtain ⟨hcomplete, hbound⟩ := hitems item hitem
          exact ⟨hcomplete, by omega⟩
      · rw [List.map_cons, List.flatMap_cons, ← hrest]

end Code

/-! ### Mask bits -/

theorem constantBits_lt (kinds : List SourceKind) : constantBits kinds < 2 ^ kinds.length := by
  induction kinds with
  | nil => decide
  | cons k kinds ih =>
    rw [constantBits, List.length_cons, Nat.pow_succ]
    split <;> omega

theorem sourceMask_toNat {kinds : List SourceKind} (h : kinds.length ≤ 4) :
    (sourceMask kinds).toNat = constantBits kinds := by
  have hbits := constantBits_lt kinds
  have hpow : 2 ^ kinds.length ≤ 2 ^ 4 := Nat.pow_le_pow_right (by decide) h
  rw [sourceMask, List.take_of_length_le h]
  exact UInt8.toNat_ofNat_of_lt' (show constantBits kinds < 256 by omega)

theorem constantBits_sourceKind (mask : UInt8) (i n : Nat) :
    constantBits ((List.range' i n).map (sourceKind mask)) = mask.toNat / 2 ^ i % 2 ^ n := by
  induction n generalizing i with
  | zero => rw [Nat.pow_zero, Nat.mod_one]; rfl
  | succ n ih =>
    rw [List.range'_succ, List.map_cons, constantBits, ih, Nat.pow_succ' (n := n), Nat.mod_mul,
      Nat.div_div_eq_div_mul, ← Nat.pow_succ]
    congr 1
    rw [sourceKind, Nat.testBit_eq_decide_div_mod_eq]
    by_cases hbit : mask.toNat / 2 ^ i % 2 = 1
    · simp [hbit]
    · simp [hbit]
      omega

namespace Instruction

def clearMask (ins : Instruction) : Instruction :=
  { ins with mask := (ins.mask.toNat % 2 ^ ins.op.arity).toUInt8 }

theorem clearMask_of_lt {ins : Instruction} (h : ins.mask.toNat < 2 ^ ins.op.arity) :
    ins.clearMask = ins := by
  rw [clearMask, Nat.mod_eq_of_lt h]
  simp

theorem make_eq_ok {op : Opcode} {set var : Int} {destination : Operand} {sources : List Operand}
    {ins : Instruction} (h : make op set var destination sources = .ok ins) :
    sources.length = op.arity ∧ ins =
      { op
        set := set.toNat.toUInt8
        var := var.toNat.toUInt8
        mask := sourceMask (sources.map (·.kind))
        sources := sources.map (·.index)
        destination := if op.hasDestination then destination.index else 0 } := by
  unfold make at h
  split at h
  · simp at h
  · next hlength =>
    split at h
    · simp at h
    · split at h
      · simp at h
      · exact ⟨Classical.not_not.mp hlength, (Except.ok.inj h).symm⟩

theorem sourceMask_sourceKind (mask : UInt8) {n : Nat} (h : n ≤ 4) :
    sourceMask ((List.range' 0 n).map (sourceKind mask)) = (mask.toNat % 2 ^ n).toUInt8 := by
  have hall : ((List.range' 0 n).map (sourceKind mask)).length ≤ 4 := by simpa using h
  rw [sourceMask, List.take_of_length_le hall, constantBits_sourceKind, Nat.pow_zero, Nat.div_one]

end Instruction

def Code.clearMasks (code : List UInt8) : List UInt8 :=
  ((decode code).items.map (·.2)).flatMap fun ins => ins.clearMask.encode

end Quadlane
