import Quadlane.Proofs.Reassembly
import Quadlane.Proofs.Soundness
import Quadlane.Session.Basic

/-! How a session ends the program that was entered. What the executor asks for is a statement
about instructions: the last one is the terminator, and there is no other. The session looks at the
last byte instead. The two agree unless the last operand of the last instruction is zero; such a
program is left as it is, without an end, and then refused. -/

namespace Quadlane

namespace Instruction

variable {ins : Instruction}

def lastOperand (ins : Instruction) : UInt8 :=
  if ins.op.hasDestination then ins.destination else ins.sources.getLastD 0

theorem encode_of_done (h : ins.op = .done) : ins.encode = [Opcode.done.toByte] := by
  simp [encode, h, Opcode.layout]

theorem Complete.getLast_encode (h : ins.Complete) (hop : ins.op ≠ .done) :
    ins.encode.getLast? = some ins.lastOperand := by
  obtain ⟨op, set, var, mask, sources, destination⟩ := ins
  cases op with
  | done => exact absurd rfl hop
  | dataWrite =>
    obtain ⟨index, value, rfl⟩ := List.length_eq_two.mp h.sources
    rfl
  | _ =>
    simp [encode, lastOperand, Opcode.layout, Opcode.hasDestination, Layout.hasDestination,
      List.getLast?_cons]

end Instruction

namespace Code

def last? (code : List UInt8) : Option Instruction :=
  ((decode code).items.map (·.2)).getLast?

def IsEnded (code : List UInt8) : Prop :=
  (last? code).map (·.op) = some .done

instance (code : List UInt8) : Decidable (IsEnded code) :=
  inferInstanceAs (Decidable (_ = _))

section Encoded

variable {instructions : List Instruction}

theorem isEnded_iff {code : List UInt8} :
    IsEnded code ↔ ∃ ins, last? code = some ins ∧ ins.op = .done :=
  Option.map_eq_some_iff

theorem last_encode (h : ∀ ins ∈ instructions, ins.Complete) :
    last? (instructions.flatMap Instruction.encode) = instructions.getLast? := by
  rw [last?, decode, (decodeFrom_encode 0 h).2]

theorem getLast_encode_iff (h : ∀ ins ∈ instructions, ins.Complete) :
    (instructions.flatMap Instruction.encode).getLast? = some Opcode.done.toByte ↔
      ∃ ins, instructions.getLast? = some ins ∧ (ins.op = .done ∨ ins.lastOperand = 0) := by
  -- The last byte says whether the last instruction is the terminator, unless the last operand of
  -- that is zero.
  have hzero : Opcode.done.toByte = 0 := by decide
  rcases List.eq_nil_or_concat instructions with rfl | ⟨front, ins, rfl⟩
  · simp
  · rw [List.concat_eq_append] at h ⊢
    have hins : ins.Complete := h ins (by simp)
    have hne : ins.encode ≠ [] := List.cons_ne_nil _ _
    have hlast : ((front ++ [ins]).flatMap Instruction.encode).getLast? = ins.encode.getLast? := by
      rw [List.flatMap_append, List.flatMap_singleton, List.getLast?_append_of_ne_nil _ hne]
    rw [hlast, List.getLast?_concat]
    by_cases hdone : ins.op = .done
    · simp [Instruction.encode_of_done hdone, hdone]
    · simp [hins.getLast_encode hdone, hdone, hzero]

theorem getLast_of_checkCode {p : Program} {offset : Nat}
    (h : ∀ ins ∈ instructions, ins.Complete)
    (hcode : p.checkCode offset (instructions.flatMap Instruction.encode) = .ok ()) :
    ∃ ins, instructions.getLast? = some ins ∧ ins.op = .done := by
  induction instructions generalizing offset with
  | nil =>
    obtain ⟨ins, rest, hsplit, -⟩ := Program.checkCode_ok hcode
    simp [Instruction.split] at hsplit
  | cons first instructions ih =>
    have hfirst := h first (List.mem_cons_self ..)
    obtain ⟨ins, rest, hsplit, hcases⟩ := Program.checkCode_ok hcode
    rw [List.flatMap_cons, hfirst.split_encode] at hsplit
    obtain ⟨rfl, rfl⟩ := Prod.mk.inj (Except.ok.inj hsplit)
    rcases hcases with ⟨hdone, hrest⟩ | ⟨-, -, hrest⟩
    · -- Nothing is left behind the terminator, as every instruction takes a byte.
      obtain rfl : instructions = [] := by
        cases instructions with
        | nil => rfl
        | cons next _ => simp [Instruction.encode] at hrest
      exact ⟨first, rfl, hdone⟩
    · obtain ⟨ins, hlast, hdone⟩ := ih (fun i hi => h i (List.mem_cons_of_mem _ hi)) hrest
      exact ⟨ins, by rw [List.getLast?_cons, hlast]; rfl, hdone⟩

theorem checkCode_ended {p : Program} (offset : Nat)
    (h : ∀ ins ∈ instructions, ins.Complete ∧ ins.op ≠ .done ∧ p.checkInstruction ins = .ok ()) :
    p.checkCode offset (instructions.flatMap Instruction.encode ++ [Opcode.done.toByte]) =
      .ok () := by
  induction instructions generalizing offset with
  | nil =>
    have hsplit : Instruction.split offset [Opcode.done.toByte] = .ok ({ op := .done }, []) := by
      rfl
    rw [List.flatMap_nil, List.nil_append, Program.checkCode.eq_def]
    split
    · next e herror => simp [hsplit] at herror
    · next ins rest hok =>
      rw [hsplit] at hok
      obtain ⟨rfl, rfl⟩ := Prod.mk.inj (Except.ok.inj hok)
      rfl
  | cons first instructions ih =>
    obtain ⟨hcomplete, hdone, hcheck⟩ := h first (List.mem_cons_self ..)
    have hrest := ih (offset + first.size) fun i hi => h i (List.mem_cons_of_mem _ hi)
    have hsplit := hcomplete.split_encode offset
      (instructions.flatMap Instruction.encode ++ [Opcode.done.toByte])
    rw [List.flatMap_cons, List.append_assoc, Program.checkCode.eq_def]
    split
    · next e herror => simp [hsplit] at herror
    · next ins rest hok =>
      rw [hsplit] at hok
      obtain ⟨rfl, rfl⟩ := Prod.mk.inj (Except.ok.inj hok)
      rw [if_neg hdone]
      simp only [hcheck]
      exact hrest

end Encoded
end Code

theorem Program.validate_of_checkCode {p : Program}
    (hconstants : p.constants.length ≤ Limit.constants)
    (hinputs : p.inputs.length ≤ Limit.inputs) (houtputs : p.outputs.length ≤ Limit.outputs)
    (hcode : p.checkCode 0 p.bytes = .ok ()) : p.validate = .ok () := by
  rw [validate, if_neg (Nat.not_lt.mpr hconstants), if_neg (Nat.not_lt.mpr hinputs),
    if_neg (Nat.not_lt.mpr houtputs), hcode]

namespace Session

def titled (p : Program) (code : Option (List UInt8)) : Program :=
  { p with code, name := if p.name.isEmpty then Text.lit "(repl)" else p.name }

def checked (p : Program) : Except ProgramError Program :=
  match p.validate with
  | .error e => .error (.invalid e)
  | .ok () => .ok p

/-- The code with an end, which it gets unless its last instruction is one. -/
def ended (p : Program) : Option (List UInt8) :=
  if Code.IsEnded p.bytes then p.code else some (p.bytes ++ [Opcode.done.toByte])

/-- The code with an end, which it gets unless its last byte looks like one. -/
def endedByByte (p : Program) : Option (List UInt8) :=
  if p.bytes.getLast? = some Opcode.done.toByte then p.code
  else some (p.bytes ++ [Opcode.done.toByte])

variable {s : Session} {p : Program}

theorem program_eq (h : Assembly.parse s.source = .ok p) :
    s.program = checked (titled p (endedByByte p)) := by
  rw [program, h]
  rfl

theorem checkSources_titled (code : Option (List UInt8)) (mask : UInt8) (i : Nat)
    (sources : List UInt8) :
    (titled p code).checkSources mask i sources = p.checkSources mask i sources := by
  induction sources generalizing i with
  | nil => rfl
  | cons b sources ih =>
    have hsource : (titled p code).checkSource (sourceKind mask i) b =
        p.checkSource (sourceKind mask i) b := rfl
    rw [Program.checkSources, Program.checkSources, hsource, ih]

theorem checkInstruction_titled (code : Option (List UInt8)) (ins : Instruction) :
    (titled p code).checkInstruction ins = p.checkInstruction ins := by
  rw [Program.checkInstruction, Program.checkInstruction, checkSources_titled]
  rfl

theorem code_of_getLast {b : UInt8} (h : p.bytes.getLast? = some b) : p.code = some p.bytes := by
  unfold Program.bytes at h ⊢
  cases hcode : p.code with
  | none => simp [hcode] at h
  | some code => rfl

theorem endedByByte_eq_iff
    (hended : Code.IsEnded p.bytes → p.bytes.getLast? = some Opcode.done.toByte) :
    endedByByte p = ended p ↔
      (p.bytes.getLast? = some Opcode.done.toByte → Code.IsEnded p.bytes) := by
  unfold endedByByte ended
  by_cases hlast : p.bytes.getLast? = some Opcode.done.toByte
  · by_cases hend : Code.IsEnded p.bytes
    · simp [hlast, hend]
    · simp [hlast, hend, code_of_getLast hlast]
  · have hend : ¬ Code.IsEnded p.bytes := fun hend => hlast (hended hend)
    simp [hlast, hend]

theorem checked_of_validate (h : p.validate = .ok ()) : checked p = .ok p := by
  rw [checked, h]

theorem checked_of_not_validate (h : p.validate ≠ .ok ()) :
    ∃ e, checked p = .error (.invalid e) := by
  unfold checked
  cases hvalid : p.validate with
  | error e => exact ⟨e, rfl⟩
  | ok _ => exact absurd hvalid h

section Parsed

variable {instructions : List Instruction}

theorem getLast_bytes_iff (hbytes : p.bytes = instructions.flatMap Instruction.encode)
    (hcomplete : ∀ ins ∈ instructions, ins.Complete) :
    p.bytes.getLast? = some Opcode.done.toByte ↔
      ∃ ins, Code.last? p.bytes = some ins ∧ (ins.op = .done ∨ ins.lastOperand = 0) := by
  rw [hbytes, Code.last_encode hcomplete]
  exact Code.getLast_encode_iff hcomplete

theorem getLast_of_isEnded (hbytes : p.bytes = instructions.flatMap Instruction.encode)
    (hcomplete : ∀ ins ∈ instructions, ins.Complete) (hend : Code.IsEnded p.bytes) :
    p.bytes.getLast? = some Opcode.done.toByte := by
  obtain ⟨ins, hins, hdone⟩ := Code.isEnded_iff.mp hend
  exact (getLast_bytes_iff hbytes hcomplete).mpr ⟨ins, hins, .inl hdone⟩

theorem endedByByte_eq_ended_iff (hbytes : p.bytes = instructions.flatMap Instruction.encode)
    (hcomplete : ∀ ins ∈ instructions, ins.Complete) :
    endedByByte p = ended p ↔
      ∀ ins, Code.last? p.bytes = some ins → ins.op ≠ .done → ins.lastOperand ≠ 0 := by
  rw [endedByByte_eq_iff (getLast_of_isEnded hbytes hcomplete),
    getLast_bytes_iff hbytes hcomplete, Code.isEnded_iff]
  constructor
  · intro himp ins hins hdone hzero
    obtain ⟨ins', hins', hdone'⟩ := himp ⟨ins, hins, .inr hzero⟩
    rw [hins] at hins'
    exact hdone (Option.some.inj hins' ▸ hdone')
  · rintro hall ⟨ins, hins, hdone | hzero⟩
    · exact ⟨ins, hins, hdone⟩
    · exact ⟨ins, hins, Classical.not_not.mp fun hdone => hall ins hins hdone hzero⟩

theorem not_validate_of_ne (hbytes : p.bytes = instructions.flatMap Instruction.encode)
    (hcomplete : ∀ ins ∈ instructions, ins.Complete) (hne : endedByByte p ≠ ended p) :
    (titled p (endedByByte p)).validate ≠ .ok () := by
  -- A code that only looks ended stays as it is, and does not pass the check.
  have hiff := endedByByte_eq_iff (getLast_of_isEnded hbytes hcomplete)
  obtain ⟨hzero, hend⟩ := Classical.not_imp.mp fun himp => hne (hiff.mpr himp)
  intro hvalid
  apply hend
  obtain ⟨-, -, -, hcode⟩ := Program.validate_ok hvalid
  have hkept : (titled p (endedByByte p)).bytes = p.bytes := by
    rw [endedByByte, if_pos hzero]
    rfl
  rw [hkept, hbytes] at hcode
  rw [Code.isEnded_iff, hbytes, Code.last_encode hcomplete]
  exact Code.getLast_of_checkCode hcomplete hcode

theorem checkCode_titled (hbytes : p.bytes = instructions.flatMap Instruction.encode)
    (hchecks : ∀ ins ∈ instructions,
      ins.Complete ∧ ins.op ≠ .done ∧ p.checkInstruction ins = .ok ()) :
    (titled p (some (p.bytes ++ [Opcode.done.toByte]))).checkCode 0
      (p.bytes ++ [Opcode.done.toByte]) = .ok () := by
  have hcheck : (titled p (some (p.bytes ++ [Opcode.done.toByte]))).checkCode 0
      (instructions.flatMap Instruction.encode ++ [Opcode.done.toByte]) = .ok () := by
    refine Code.checkCode_ended 0 fun ins hins => ?_
    rw [checkInstruction_titled]
    exact hchecks ins hins
  rwa [← hbytes] at hcheck

theorem not_isEnded (hbytes : p.bytes = instructions.flatMap Instruction.encode)
    (hcomplete : ∀ ins ∈ instructions, ins.Complete)
    (hdone : ∀ ins ∈ instructions, ins.op ≠ .done) : ¬ Code.IsEnded p.bytes := by
  rw [Code.isEnded_iff, hbytes, Code.last_encode hcomplete]
  rintro ⟨ins, hins, hop⟩
  exact hdone ins (List.mem_of_getLast? hins) hop

end Parsed

/-- A session completes the code as its last instruction asks for exactly if that is no instruction
whose last operand is zero. Otherwise the program is refused for want of an end. A program that the
session completes is accepted if its instructions are, none of them is an end, and it declares no
more than it may. -/
theorem program_ends_by_last_byte (h : Assembly.parse s.source = .ok p) :
    s.program = checked (titled p (endedByByte p)) ∧
    (endedByByte p = ended p ↔
      ∀ ins, Code.last? p.bytes = some ins → ins.op ≠ .done → ins.lastOperand ≠ 0) ∧
    (endedByByte p ≠ ended p → ∃ e, s.program = .error (.invalid e)) ∧
    (endedByByte p = ended p →
      (∀ item ∈ (Code.decode p.bytes).items,
        item.2.op ≠ .done ∧ p.checkInstruction item.2 = .ok ()) →
      p.constants.length ≤ Limit.constants → p.inputs.length ≤ Limit.inputs →
      p.outputs.length ≤ Limit.outputs →
      s.program = .ok (titled p (some (p.bytes ++ [Opcode.done.toByte])))) := by
  obtain ⟨instructions, hbytes, hinstructions⟩ := Assembly.bytes_of_parse h
  have hcomplete : ∀ ins ∈ instructions, ins.Complete := fun ins hins => (hinstructions ins hins).1
  refine ⟨program_eq h, endedByByte_eq_ended_iff hbytes hcomplete, ?_, ?_⟩
  · intro hne
    rw [program_eq h]
    exact checked_of_not_validate (not_validate_of_ne hbytes hcomplete hne)
  · intro heq hitems hconstants hinputs houtputs
    -- The instructions that were entered are those that the code decodes to.
    have hdecoded := (Code.decodeFrom_encode 0 hcomplete).2
    rw [← hbytes] at hdecoded
    have hchecks : ∀ ins ∈ instructions, ins.op ≠ .done ∧ p.checkInstruction ins = .ok () := by
      intro ins hins
      rw [← hdecoded] at hins
      obtain ⟨item, hitem, rfl⟩ := List.mem_map.mp hins
      exact hitems item hitem
    have hnot := not_isEnded hbytes hcomplete fun ins hins => (hchecks ins hins).1
    have hcode : endedByByte p = some (p.bytes ++ [Opcode.done.toByte]) := by
      rw [heq, ended, if_neg hnot]
    have hcheck := checkCode_titled hbytes fun ins hins => ⟨hcomplete ins hins, hchecks ins hins⟩
    rw [program_eq h, hcode]
    exact checked_of_validate (Program.validate_of_checkCode hconstants hinputs houtputs hcheck)

def entered (source : Text) : Session :=
  { new 128 1 with source }

theorem program_absolute_ended :
    ∃ q, (entered (Text.lit ".input x\nabs t1, i0\n")).program = .ok q ∧
      q.code = some [11, 0, 64, 1, 0] := by
  -- An instruction with the destination `t1` gets an end.
  have hparse : Assembly.parse (entered (Text.lit ".input x\nabs t1, i0\n")).source =
      .ok { code := some [11, 0, 64, 1], inputs := [Text.lit "x"] } := by
    decide +kernel
  have hitems : (Code.decode [11, 0, 64, 1]).items =
      [(0, { op := .kernel (.unary .abs), sources := [64], destination := 1 })] := by
    decide +kernel
  obtain ⟨-, hiff, -, hok⟩ := program_ends_by_last_byte hparse
  refine ⟨_, hok (hiff.mpr ?_) ?_ (by decide) (by decide) (by decide), rfl⟩
  · intro ins hins _ hzero
    simp only [Code.last?, Program.bytes, Option.getD_some, hitems] at hins
    obtain rfl := Option.some.inj hins
    exact absurd hzero (by decide)
  · intro item hitem
    simp only [Program.bytes, Option.getD_some, hitems, List.mem_singleton] at hitem
    subst hitem
    exact ⟨by decide, by decide +kernel⟩

/-- The destination `t0` is a byte that looks like an end. With one more the program would be valid;
it is left without, and refused. -/
theorem program_absolute_refused :
    (entered (Text.lit ".input x\nabs t0, i0\n")).program =
      .error (.invalid (.unreadable (.pastEnd 4))) ∧
    ∃ p, Assembly.parse (entered (Text.lit ".input x\nabs t0, i0\n")).source = .ok p ∧
      ¬ Code.IsEnded p.bytes ∧ (titled p (ended p)).validate = .ok () := by
  have hparse : Assembly.parse (entered (Text.lit ".input x\nabs t0, i0\n")).source =
      .ok { code := some [11, 0, 64, 0], inputs := [Text.lit "x"] } := by
    decide +kernel
  refine ⟨?_, _, hparse, by decide +kernel, by decide +kernel⟩
  rw [program_eq hparse, checked]
  have hvalidate : (titled { code := some [11, 0, 64, 0], inputs := [Text.lit "x"] }
      (endedByByte { code := some [11, 0, 64, 0], inputs := [Text.lit "x"] })).validate =
        .error (.unreadable (.pastEnd 4)) := by
    decide +kernel
  rw [hvalidate]

end Session
end Quadlane
