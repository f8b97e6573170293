import Quadlane.Proofs.Checking
import Quadlane.Proofs.Ending

/-! The programs that pass validation, given by a grammar instead of a check: instructions with
operands that the declarations cover, one after the other, and a terminator as the last byte. The
check reads from offset to offset. Every round takes at least a byte, so it is over after one round
for each byte and one more. -/

namespace Quadlane.Program

/-! ### The grammar -/

def IsDestination (p : Program) (r : UInt8) : Prop :=
  r.toNat < Limit.temporaries ∨ ∃ i < p.outputs.length, r.toNat = RegisterGroup.output.first + i

def IsSource (p : Program) (r : UInt8) : Prop :=
  p.IsDestination r ∨ ∃ i < p.inputs.length, r.toNat = RegisterGroup.input.first + i

structure Permits (p : Program) (ins : Instruction) : Prop where
  notDone : ins.op ≠ .done
  complete : ins.Complete
  mask : ∀ j, ins.op.arity ≤ j → ins.mask.toNat.testBit j = false
  constant : ∀ j b, ins.sources[j]? = some b → ins.mask.toNat.testBit j = true →
    b.toNat < p.constants.length
  register : ∀ j b, ins.sources[j]? = some b → ins.mask.toNat.testBit j = false → p.IsSource b
  destination : ins.op.hasDestination = true → p.IsDestination ins.destination
  set : ins.op.layout.hasSet = true → ins.set.toNat < p.sets.length
  var : ins.op.layout.hasVariable = true →
    ∀ d, p.sets[ins.set.toNat]? = some d → ins.var.toNat < d.vars.length

def Derives (p : Program) (code : List UInt8) : Prop :=
  ∃ instructions : List Instruction, (∀ ins ∈ instructions, p.Permits ins) ∧
    code = instructions.flatMap Instruction.encode ++ [Opcode.done.toByte]

/-! ### The check of an instruction -/

variable {p : Program}

theorem splitRegister_eq_some_iff {r : UInt8} {group : RegisterGroup} {i : Nat} :
    splitRegister r = some (group, i) ↔
      group ≠ .constant ∧ i < 64 ∧ r.toNat = group.first + i := by
  simp only [splitRegister, UInt8.lt_iff_toNat_lt, UInt8.reduceToNat]
  split_ifs <;> cases group <;> simp [RegisterGroup.first] <;> omega

theorem isDestination_iff (h : p.Limited) {r : UInt8} :
    p.checkRegister true r = .ok () ↔ p.IsDestination r := by
  simp only [checkRegister_ok_iff, splitRegister_eq_some_iff]
  constructor
  · rintro ⟨group, i, ⟨hgroup, hi, hr⟩, hinput, houtput⟩
    cases group with
    | constant => exact absurd rfl hgroup
    | temporary =>
      have hplace : r.toNat = i := hr.trans (Nat.zero_add i)
      exact .inl (hplace ▸ hi)
    | input => cases (hinput rfl).1
    | output => exact .inr ⟨i, houtput rfl, hr⟩
  · rintro (hlt | ⟨i, hi, hr⟩)
    · exact ⟨.temporary, r.toNat, ⟨by decide, hlt, (Nat.zero_add _).symm⟩, by simp, by simp⟩
    · exact ⟨.output, i, ⟨by decide, hi.trans_le h.outputs, hr⟩, by simp, fun _ => hi⟩

theorem isSource_iff (h : p.Limited) {r : UInt8} :
    p.checkRegister false r = .ok () ↔ p.IsSource r := by
  rw [IsSource, ← isDestination_iff h]
  simp only [checkRegister_ok_iff, splitRegister_eq_some_iff]
  constructor
  · rintro ⟨group, i, hplace, hinput, houtput⟩
    by_cases hgroup : group = .input
    · subst hgroup
      exact .inr ⟨i, (hinput rfl).2, hplace.2.2⟩
    · exact .inl ⟨group, i, hplace, fun heq => absurd heq hgroup, houtput⟩
  · rintro (⟨group, i, hplace, hinput, houtput⟩ | ⟨i, hi, hr⟩)
    · exact ⟨group, i, hplace, fun heq => ⟨trivial, (hinput heq).2⟩, houtput⟩
    · exact ⟨.input, i, ⟨by decide, hi.trans_le h.inputs, hr⟩, fun _ => ⟨trivial, hi⟩, by simp⟩

theorem lt_two_pow_iff {n k : Nat} : n < 2 ^ k ↔ ∀ j, k ≤ j → n.testBit j = false := by
  constructor
  · intro hlt j hj
    exact Nat.testBit_lt_two_pow (hlt.trans_le (Nat.pow_le_pow_right (by decide) hj))
  · exact Nat.lt_pow_two_of_testBit n

theorem permits_iff (h : p.Limited) {ins : Instruction} :
    p.Permits ins ↔ ins.op ≠ .done ∧ ins.Complete ∧ p.checkInstruction ins = .ok () := by
  simp only [checkInstruction_ok_iff, checkSet_ok_iff, checkSources_ok_iff, checkSource_ok_iff,
    checkMask_ok_iff, checkDestination_ok_iff, isDestination_iff h, isSource_iff h, lt_two_pow_iff,
    Nat.zero_add]
  constructor
  · intro hins
    refine ⟨hins.notDone, hins.complete, fun hset => ?_, fun j b hb => ⟨?_, ?_⟩, hins.mask,
      hins.destination⟩
    · exact ⟨_, List.getElem?_eq_getElem (hins.set hset),
        fun hvar => hins.var hvar _ (List.getElem?_eq_getElem (hins.set hset))⟩
    · intro hkind
      refine hins.constant j b hb ?_
      by_contra hbit
      simp [sourceKind, hbit] at hkind
    · intro hkind
      refine hins.register j b hb ?_
      by_contra hbit
      simp [sourceKind, hbit] at hkind
  · rintro ⟨hdone, hcomplete, hset, hsources, hmask, hdestination⟩
    refine ⟨hdone, hcomplete, hmask, ?_, ?_, hdestination, ?_, ?_⟩
    · intro j b hb hbit
      exact (hsources j b hb).1 (by simp [sourceKind, hbit])
    · intro j b hb hbit
      exact (hsources j b hb).2 (by simp [sourceKind, hbit])
    · intro hhas
      obtain ⟨d, hd, -⟩ := hset hhas
      exact (List.getElem?_eq_some_iff.mp hd).1
    · intro hhas d hd
      have hhasSet : ins.op.layout.hasSet = true := by
        cases hlayout : ins.op.layout <;> simp_all [Layout.hasSet, Layout.hasVariable]
      obtain ⟨d', hd', hvar⟩ := hset hhasSet
      rw [Option.some.inj (hd.symm.trans hd')]
      exact hvar hhas

/-! ### The check of a code -/

theorem derives_of_checkCode (h : p.Limited) {offset : Nat} {code : List UInt8}
    (hcode : p.checkCode offset code = .ok ()) : p.Derives code := by
  induction hlength : code.length using Nat.strongRecOn generalizing offset code with
  | ind length ih =>
    obtain ⟨ins, rest, hsplit, hcases⟩ := checkCode_ok hcode
    obtain ⟨hcomplete, rfl⟩ := Instruction.eq_encode_of_split hsplit
    rcases hcases with ⟨hdone, rfl⟩ | ⟨hdone, hins, hrest⟩
    · refine ⟨[], by simp, ?_⟩
      rw [Instruction.encode_of_done hdone]
      rfl
    · have hshorter := Instruction.split_decreasing hsplit
      obtain ⟨instructions, hall, rfl⟩ := ih rest.length (hlength ▸ hshorter) hrest rfl
      have hfirst : p.Permits ins := (permits_iff h).mpr ⟨hdone, hcomplete, hins⟩
      refine ⟨ins :: instructions, List.forall_mem_cons.mpr ⟨hfirst, hall⟩, ?_⟩
      rw [List.flatMap_cons, List.append_assoc]

theorem checkCode_of_derives (h : p.Limited) (offset : Nat) {code : List UInt8}
    (hcode : p.Derives code) : p.checkCode offset code = .ok () := by
  obtain ⟨instructions, hall, rfl⟩ := hcode
  refine Code.checkCode_ended offset fun ins hins => ?_
  obtain ⟨hdone, hcomplete, hcheck⟩ := (permits_iff h).mp (hall ins hins)
  exact ⟨hcomplete, hdone, hcheck⟩

/-! ### Round after round -/

def checkRound (p : Program) (offset : Nat) : Except ValidationError (Option Nat) :=
  match Instruction.read p.bytes offset with
  | .error e => .error (.unreadable e)
  | .ok (ins, next) =>
    if ins.op = .done then
      if next = p.bytes.length then .ok none else .error (.unreachable offset)
    else match p.checkInstruction ins with
      | .error e => .error (.operand ins.op offset e)
      | .ok () => .ok (some next)

/-- The answer of the check from an offset on, if so many rounds are enough for it. -/
def checkRounds (p : Program) : Nat → Nat → Option (Except ValidationError Unit)
  | 0, _ => none
  | rounds + 1, offset =>
    match p.checkRound offset with
    | .error e => some (.error e)
    | .ok none => some (.ok ())
    | .ok (some next) => p.checkRounds rounds next

theorem checkRounds_eq {rounds offset : Nat} (hoffset : offset ≤ p.bytes.length)
    (hrounds : p.bytes.length - offset < rounds) :
    p.checkRounds rounds offset = some (p.checkCode offset (p.bytes.drop offset)) := by
  induction rounds generalizing offset with
  | zero => exact absurd hrounds (Nat.not_lt_zero _)
  | succ rounds ih =>
    rw [checkRounds, checkRound, Instruction.read, checkCode.eq_def]
    rcases hsplit : Instruction.split offset (p.bytes.drop offset) with e | ⟨ins, rest⟩
    · rfl
    · have hlength := Instruction.split_length hsplit
      have hrest : p.bytes.drop (offset + ins.size) = rest := by
        obtain ⟨hcomplete, hcode⟩ := Instruction.eq_encode_of_split hsplit
        have hsize : ins.encode.length = ins.size := by
          have := congrArg List.length hcode
          rw [List.length_append] at this
          omega
        rw [← List.drop_drop, hcode, List.drop_left' hsize]
      rw [List.length_drop] at hlength
      have hpos : 0 < ins.size := by
        rw [Instruction.size]
        omega
      dsimp only
      split_ifs with hdone hend hempty hempty
      · rfl
      · rw [List.isEmpty_iff, ← List.length_eq_zero_iff] at hempty
        omega
      · rw [List.isEmpty_iff] at hempty
        subst hempty
        simp at hlength
        omega
      · rfl
      · rcases p.checkInstruction ins with e | ⟨⟩
        · rfl
        · dsimp only
          rw [ih (by omega) (by omega), hrest]

/-- Validation accepts the programs of the grammar, within the limits of the declarations, and no
others. Its loop ends on every code. -/
theorem validate_accepts_grammar (p : Program) :
    (p.validate = .ok () ↔
      p.constants.length ≤ 256 ∧ p.inputs.length ≤ 64 ∧ p.outputs.length ≤ 64 ∧
        p.Derives p.bytes) ∧
    (p.Limited → ∃ rounds ≤ p.bytes.length + 1, p.checkRounds rounds 0 = some p.validate) := by
  constructor
  · constructor
    · intro hvalid
      obtain ⟨hconstants, hinputs, houtputs, hcode⟩ := validate_ok hvalid
      exact ⟨hconstants, hinputs, houtputs,
        derives_of_checkCode ⟨hconstants, hinputs, houtputs⟩ hcode⟩
    · rintro ⟨hconstants, hinputs, houtputs, hcode⟩
      have hlimited : p.Limited := ⟨hconstants, hinputs, houtputs⟩
      exact validate_of_checkCode hconstants hinputs houtputs (checkCode_of_derives hlimited 0 hcode)
  · intro h
    refine ⟨_, le_rfl, ?_⟩
    have hrounds := checkRounds_eq (p := p) (Nat.zero_le _) (Nat.lt_succ_self _)
    rw [Nat.sub_zero, List.drop_zero] at hrounds
    rw [hrounds, validate, if_neg (Nat.not_lt.mpr h.constants), if_neg (Nat.not_lt.mpr h.inputs),
      if_neg (Nat.not_lt.mpr h.outputs)]

end Quadlane.Program
