import Quadlane.Proofs.Checking

/-! Reading and writing instructions are inverse to each other, at any place of any code. Reading
finds an instruction exactly where its bytes stand; an instruction that is built from operands may
name a set or a variable that its layout has no byte for, and is read back without it. -/

namespace Quadlane

namespace Instruction

variable {ins : Instruction} {code : List UInt8} {offset next : Nat}

def asEncoded (ins : Instruction) : Instruction :=
  { ins with
    set := if ins.op.layout.hasSet then ins.set else 0
    var := if ins.op.layout.hasVariable then ins.var else 0 }

theorem encode_asEncoded (ins : Instruction) : ins.asEncoded.encode = ins.encode := by
  unfold encode asEncoded
  dsimp only
  cases ins.op.layout <;> rfl

theorem complete_asEncoded {op : Opcode} {set var : Int} {destination : Operand}
    {sources : List Operand} (h : make op set var destination sources = .ok ins) :
    ins.asEncoded.Complete := by
  obtain ⟨hlength, rfl⟩ := make_eq_ok h
  refine ⟨by simpa [asEncoded] using hlength, ?_, ?_, ?_, ?_⟩
  · intro hnone
    exact if_neg (by simpa [asEncoded] using hnone)
  · intro hnone
    exact if_neg (by simpa [asEncoded] using hnone)
  · intro hnone
    have hnil : sources = [] :=
      List.length_eq_zero_iff.mp (hlength.trans (Opcode.arity_of_layout_none hnone))
    simp [asEncoded, hnil, sourceMask, constantBits]
  · intro hnone
    exact if_neg (by simpa [asEncoded] using hnone)

theorem length_encode (h : ins.Complete) : ins.encode.length = ins.size := by
  obtain ⟨operands, hencode, hlength, -⟩ := h.encode_eq
  rw [hencode, List.length_cons, hlength, size, Nat.add_comm]

/-! ### At any place of a code -/

theorem extract_of_read (h : read code offset = .ok (ins, next)) :
    ins.encode = code.extract offset next := by
  unfold read at h
  split at h
  · cases h
  · next rest hsplit =>
    obtain ⟨rfl, rfl⟩ : _ = ins ∧ _ = next := Prod.mk.inj (Except.ok.inj h)
    obtain ⟨hcomplete, hcode⟩ := eq_encode_of_split hsplit
    rw [List.extract_eq_take_drop, hcode, Nat.add_sub_cancel_left, ← length_encode hcomplete,
      List.take_left]

theorem Complete.read_encode (h : ins.Complete) (before after : List UInt8) :
    read (before ++ ins.encode ++ after) before.length = .ok (ins, before.length + ins.size) := by
  rw [read, List.append_assoc, List.drop_left, h.split_encode]

/-! ### Bytes from integers -/

theorem operandBytes_length {op : Opcode} {place : Nat} {values : List Int} {bytes : List UInt8}
    (h : operandBytes op place values = .ok bytes) : bytes.length = values.length := by
  induction values generalizing place bytes with
  | nil =>
    obtain rfl : [] = bytes := Except.ok.inj h
    rfl
  | cons value values ih =>
    rw [operandBytes] at h
    split at h
    · cases h
    · cases hrest : operandBytes op (place + 1) values with
      | error e => simp [hrest, Except.map] at h
      | ok rest =>
        obtain rfl : value.toNat.toUInt8 :: rest = bytes := by simpa [hrest, Except.map] using h
        rw [List.length_cons, List.length_cons, ih hrest]

theorem eq_encode_of_assemble {byte : UInt8} {operands : List Int} {bytes : List UInt8}
    (h : assemble byte operands = .ok bytes) :
    ∃ ins : Instruction, ins.Complete ∧ bytes = ins.encode := by
  unfold assemble opcode at h
  cases hop : Opcode.ofByte? byte with
  | none => simp [hop] at h
  | some op =>
    simp only [hop] at h
    split at h
    · cases h
    · next hcount =>
      cases hoperands : operandBytes op 0 operands with
      | error e => simp [hoperands, Except.map] at h
      | ok rest =>
        obtain rfl : byte :: rest = bytes := by simpa [hoperands, Except.map] using h
        have hwidth : rest.length = op.width :=
          (operandBytes_length hoperands).trans (Classical.not_not.mp hcount)
        refine ⟨ofOperands op rest, ofOperands_complete hwidth.ge, ?_⟩
        rw [encode_ofOperands hwidth, Opcode.toByte_of_ofByte hop]

end Instruction

open Instruction

theorem Code.decode_encode {ins : Instruction} (h : ins.Complete) :
    decode ins.encode = ⟨[(0, ins)], none⟩ := by
  have hsplit := h.split_encode 0 []
  rw [List.append_nil] at hsplit
  rw [decode, decodeFrom_of_split hsplit, decodeFrom_nil]

/-- What can be read is the encoding of what it is read as, what is built from operands is read
back from its encoding wherever that stands, and a code that can be read to its end is the encodings
of its instructions one after the other. -/
theorem codec_round_trips :
    (∀ (code : List UInt8) (pc : Nat) (ins : Instruction) (next : Nat),
      read code pc = .ok (ins, next) →
        pc < next ∧ next ≤ code.length ∧ ins.encode = code.extract pc next) ∧
    (∀ (op : Opcode) (set var : Int) (dst : Operand) (srcs : List Operand) (ins : Instruction),
      make op set var dst srcs = .ok ins → ∀ before after : List UInt8,
        read (before ++ ins.encode ++ after) before.length =
          .ok ({ ins with
                  set := if op.layout.hasSet then ins.set else 0
                  var := if op.layout.hasVariable then ins.var else 0 },
            before.length + 1 + op.width)) ∧
    (∀ (byte : UInt8) (operands : List Int) (bytes : List UInt8),
      assemble byte operands = .ok bytes →
        ∃ ins, Code.decode bytes = ⟨[(0, ins)], none⟩ ∧ ins.encode = bytes) ∧
    (∀ code : List UInt8, (Code.decode code).stop = none →
      code = ((Code.decode code).items.map (·.2)).flatMap encode) := by
  refine ⟨fun code pc ins next h => ?_, fun op set var dst srcs ins h before after => ?_,
    fun byte operands bytes h => ?_, fun code h => (Code.eq_encode_of_decodeFrom h).2⟩
  · obtain ⟨hforward, hwithin⟩ := read_bounds h
    exact ⟨hforward, hwithin, extract_of_read h⟩
  · have hop : ins.op = op := by rw [(make_eq_ok h).2]
    have hread := (complete_asEncoded h).read_encode before after
    rw [encode_asEncoded, size, ← Nat.add_assoc] at hread
    subst hop
    exact hread
  · obtain ⟨ins, hcomplete, rfl⟩ := eq_encode_of_assemble h
    exact ⟨ins, Code.decode_encode hcomplete, rfl⟩

theorem codec_cursor_with_variable :
    make (.cursor .consumeWrap) 3 9 (.temp 1) [.constant 200] =
        .ok ⟨.cursor .consumeWrap, 3, 9, 1, [200], 1⟩ ∧
      read ([255] ++ encode ⟨.cursor .consumeWrap, 3, 9, 1, [200], 1⟩ ++ [0]) 1 =
        .ok (⟨.cursor .consumeWrap, 3, 0, 1, [200], 1⟩, 6) :=
  ⟨by decide, codec_round_trips.2.1 (.cursor .consumeWrap) 3 9 (.temp 1) [.constant 200] _
    (by decide) [255] [0]⟩

end Quadlane
