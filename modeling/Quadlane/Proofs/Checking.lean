import Quadlane.Proofs.Encoding
import Quadlane.Proofs.Soundness

/-! What the check of an instruction asks for, part by part; that more declarations never turn an
instruction down which fewer let pass; and that an instruction made from operands of a program
passes the check of that program. -/

namespace Quadlane.Program

variable {p p' : Program}

theorem checkRegister_ok_iff {asDestination : Bool} {r : UInt8} :
    p.checkRegister asDestination r = .ok () ↔
      ∃ group i, splitRegister r = some (group, i) ∧
        (group = .input → asDestination = false ∧ i < p.inputs.length) ∧
        (group = .output → i < p.outputs.length) := by
  unfold checkRegister
  rcases splitRegister r with _ | ⟨group, i⟩
  · simp
  · cases group <;> cases asDestination <;> simp

theorem checkSource_ok_iff {kind : SourceKind} {b : UInt8} :
    p.checkSource kind b = .ok () ↔
      (kind = .constant → b.toNat < p.constants.length) ∧
        (kind = .register → p.checkRegister false b = .ok ()) := by
  cases kind <;> simp [checkSource]

theorem checkSources_ok_iff {mask : UInt8} {i : Nat} {bs : List UInt8} :
    p.checkSources mask i bs = .ok () ↔
      ∀ j b, bs[j]? = some b → p.checkSource (sourceKind mask (i + j)) b = .ok () := by
  induction bs generalizing i with
  | nil => simp [checkSources]
  | cons first bs ih =>
    rw [checkSources]
    constructor
    · intro hok j b hb
      rcases hfirst : p.checkSource (sourceKind mask i) first with e | ⟨⟩
      · simp [hfirst] at hok
      · rw [hfirst] at hok
        cases j with
        | zero => rwa [← Option.some.inj hb]
        | succ j =>
          rw [← Nat.add_assoc, Nat.add_right_comm]
          exact ih.mp hok j b hb
    · intro hall
      have hfirst : p.checkSource (sourceKind mask i) first = .ok () := hall 0 first rfl
      rw [hfirst]
      refine ih.mpr fun j b hb => ?_
      rw [Nat.add_right_comm, Nat.add_assoc]
      exact hall (j + 1) b hb

theorem checkSet_ok_iff {ins : Instruction} :
    p.checkSet ins = .ok () ↔
      (ins.op.layout.hasSet = true → ∃ d, p.sets[ins.set.toNat]? = some d ∧
        (ins.op.layout.hasVariable = true → ins.var.toNat < d.vars.length)) := by
  unfold checkSet
  rcases ins.op.layout.hasSet
  · simp
  · rcases p.sets[ins.set.toNat]? with _ | d
    · simp
    · cases ins.op.layout.hasVariable <;> simp

theorem checkMask_ok_iff {ins : Instruction} :
    checkMask ins = .ok () ↔ ins.mask.toNat < 2 ^ ins.op.arity := by
  unfold checkMask
  rw [Nat.shiftRight_eq_div_pow]
  simp [Nat.div_eq_zero_iff]

theorem checkDestination_ok_iff {ins : Instruction} :
    p.checkDestination ins = .ok () ↔
      (ins.op.hasDestination = true → p.checkRegister true ins.destination = .ok ()) := by
  unfold checkDestination
  cases ins.op.hasDestination <;> simp

theorem checkInstruction_ok_iff {ins : Instruction} :
    p.checkInstruction ins = .ok () ↔
      p.checkSet ins = .ok () ∧ p.checkSources ins.mask 0 ins.sources = .ok () ∧
        checkMask ins = .ok () ∧ p.checkDestination ins = .ok () := by
  refine ⟨checkInstruction_ok, ?_⟩
  rintro ⟨hset, hsources, hmask, hdst⟩
  simp [checkInstruction, hset, hsources, hmask, hdst, bind, Except.bind]

structure Limited (p : Program) : Prop where
  constants : p.constants.length ≤ Limit.constants
  inputs : p.inputs.length ≤ Limit.inputs
  outputs : p.outputs.length ≤ Limit.outputs

structure Extends (p p' : Program) : Prop where
  constants : p.constants.length ≤ p'.constants.length
  inputs : p.inputs.length ≤ p'.inputs.length
  outputs : p.outputs.length ≤ p'.outputs.length
  sets : p.sets <+: p'.sets

namespace Extends

@[refl]
theorem refl (p : Program) : p.Extends p :=
  ⟨le_rfl, le_rfl, le_rfl, List.prefix_rfl⟩

theorem getElem_sets (h : p.Extends p') {i : Nat} {d : SetDeclaration} (hd : p.sets[i]? = some d) :
    p'.sets[i]? = some d := by
  obtain ⟨rest, hrest⟩ := h.sets
  obtain ⟨hlt, -⟩ := List.getElem?_eq_some_iff.mp hd
  rw [← hrest, List.getElem?_append_left hlt, hd]

theorem checkRegister (h : p.Extends p') {asDestination : Bool} {r : UInt8}
    (hok : p.checkRegister asDestination r = .ok ()) :
    p'.checkRegister asDestination r = .ok () := by
  obtain ⟨group, i, hsplit, hinput, houtput⟩ := checkRegister_ok_iff.mp hok
  refine checkRegister_ok_iff.mpr ⟨group, i, hsplit, fun hgroup => ?_, fun hgroup => ?_⟩
  · exact (hinput hgroup).imp_right h.inputs.trans_lt'
  · exact (houtput hgroup).trans_le h.outputs

theorem checkSource (h : p.Extends p') {kind : SourceKind} {b : UInt8}
    (hok : p.checkSource kind b = .ok ()) : p'.checkSource kind b = .ok () := by
  obtain ⟨hconstant, hregister⟩ := checkSource_ok_iff.mp hok
  exact checkSource_ok_iff.mpr ⟨fun hkind => (hconstant hkind).trans_le h.constants,
    fun hkind => h.checkRegister (hregister hkind)⟩

theorem checkInstruction (h : p.Extends p') {ins : Instruction}
    (hok : p.checkInstruction ins = .ok ()) : p'.checkInstruction ins = .ok () := by
  obtain ⟨hset, hsources, hmask, hdst⟩ := checkInstruction_ok_iff.mp hok
  refine checkInstruction_ok_iff.mpr ⟨?_, ?_, hmask, ?_⟩
  · refine checkSet_ok_iff.mpr fun hhas => ?_
    obtain ⟨d, hd, hvar⟩ := checkSet_ok_iff.mp hset hhas
    exact ⟨d, h.getElem_sets hd, hvar⟩
  · exact checkSources_ok_iff.mpr fun j b hb =>
      h.checkSource (checkSources_ok_iff.mp hsources j b hb)
  · exact checkDestination_ok_iff.mpr fun hhas =>
      h.checkRegister (checkDestination_ok_iff.mp hdst hhas)

end Extends
end Quadlane.Program

namespace Quadlane

/-! ### Instructions made from operands -/

theorem testBit_constantBits (kinds : List SourceKind) (i : Nat) :
    (constantBits kinds).testBit i = decide (kinds[i]? = some .constant) := by
  induction kinds generalizing i with
  | nil => simp [constantBits]
  | cons k kinds ih =>
    cases i with
    | zero => cases k <;> simp [constantBits, Nat.testBit_zero]
    | succ i =>
      rw [constantBits, Nat.testBit_succ, List.getElem?_cons_succ, ← ih i]
      congr 1
      split <;> omega

theorem sourceKind_sourceMask {kinds : List SourceKind} (h : kinds.length ≤ 4) {i : Nat}
    {kind : SourceKind} (hkind : kinds[i]? = some kind) :
    sourceKind (sourceMask kinds) i = kind := by
  rw [sourceKind, sourceMask_toNat h, testBit_constantBits, hkind]
  cases kind <;> rfl

theorem toNat_lowByte {n : Nat} (h : n < 256) : (Operand.lowByte n).toNat = n := by
  have hmod : ((n : Int) % 256).toNat = n := by omega
  rw [Operand.lowByte, hmod]
  exact UInt8.toNat_ofNat_of_lt' h

theorem splitRegister_register {group : RegisterGroup} (hgroup : group ≠ .constant) {i : Nat}
    (hi : i < 64) : splitRegister (Operand.register group i).index = some (group, i) := by
  have hfirst : group.first ≤ 128 := by cases group <;> decide
  have hplace : (Operand.register group i).index.toNat = group.first + i := by
    rw [Operand.register, registerPlace, ← Int.natCast_add]
    exact toNat_lowByte (by omega)
  simp only [splitRegister, UInt8.lt_iff_toNat_lt, hplace, UInt8.reduceToNat]
  cases group with
  | constant => exact absurd rfl hgroup
  | temporary => simp [RegisterGroup.first, hi]
  | input => rw [RegisterGroup.first, if_neg (by omega), if_pos (by omega), Nat.add_sub_cancel_left]
  | output =>
    rw [RegisterGroup.first, if_neg (by omega), if_neg (by omega), if_pos (by omega),
      Nat.add_sub_cancel_left]

section Operands

variable {p : Program} {i : Nat}

theorem checkSource_constant (h : p.Limited) (hi : i < p.constants.length) :
    p.checkSource (Operand.constant i).kind (Operand.constant i).index = .ok () := by
  refine Program.checkSource_ok_iff.mpr ⟨fun _ => ?_, fun hkind => by cases hkind⟩
  rw [Operand.constant, toNat_lowByte (hi.trans_le h.constants)]
  exact hi

theorem checkRegister_input (h : p.Limited) (hi : i < p.inputs.length) :
    p.checkRegister false (Operand.input i).index = .ok () :=
  Program.checkRegister_ok_iff.mpr ⟨.input, i,
    splitRegister_register (by decide) (hi.trans_le h.inputs), fun _ => ⟨rfl, hi⟩, by simp⟩

theorem checkRegister_output (h : p.Limited) (hi : i < p.outputs.length) (asDestination : Bool) :
    p.checkRegister asDestination (Operand.output i).index = .ok () :=
  Program.checkRegister_ok_iff.mpr ⟨.output, i,
    splitRegister_register (by decide) (hi.trans_le h.outputs), by simp, fun _ => hi⟩

theorem checkRegister_temp (hi : i < 64) (asDestination : Bool) :
    p.checkRegister asDestination (Operand.temp i).index = .ok () :=
  Program.checkRegister_ok_iff.mpr
    ⟨.temporary, i, splitRegister_register (by decide) hi, by simp, by simp⟩

end Operands

namespace Instruction

variable {op : Opcode} {set var : Int} {destination : Operand} {sources : List Operand}
variable {ins : Instruction}

theorem isIndexByte_of_make (h : make op set var destination sources = .ok ins) :
    isIndexByte set = true ∧ isIndexByte var = true := by
  unfold make at h
  split at h
  · simp at h
  · split at h
    · simp at h
    · next hindex => simpa using hindex

theorem toNat_indexByte {i : Int} (h : isIndexByte i = true) : i.toNat.toUInt8.toNat = i.toNat := by
  simp only [isIndexByte, Bool.and_eq_true, decide_eq_true_eq] at h
  exact UInt8.toNat_ofNat_of_lt' (show i.toNat < 256 by omega)

theorem complete_of_make (h : make op set var destination sources = .ok ins)
    (hset : op.layout.hasSet = false → set = 0) (hvar : op.layout.hasVariable = false → var = 0) :
    ins.Complete := by
  obtain ⟨hlength, rfl⟩ := make_eq_ok h
  refine ⟨by simpa using hlength, ?_, ?_, ?_, ?_⟩
  · intro hnone
    simp [hset hnone]
  · intro hnone
    simp [hvar hnone]
  · intro hnone
    have hnil : sources = [] :=
      List.length_eq_zero_iff.mp (hlength.trans (Opcode.arity_of_layout_none hnone))
    simp [hnil, sourceMask, constantBits]
  · intro hnone
    simp [hnone]

theorem checkInstruction_of_make {p : Program} (h : make op set var destination sources = .ok ins)
    (hset : op.layout.hasSet = true → ∃ d, p.sets[set.toNat]? = some d ∧
      (op.layout.hasVariable = true → var < d.vars.length))
    (hsources : ∀ o ∈ sources, p.checkSource o.kind o.index = .ok ())
    (hdestination : op.hasDestination = true → p.checkRegister true destination.index = .ok ()) :
    p.checkInstruction ins = .ok () := by
  obtain ⟨hlength, rfl⟩ := make_eq_ok h
  obtain ⟨hsetByte, hvarByte⟩ := isIndexByte_of_make h
  have harity : sources.length ≤ 4 := hlength.trans_le op.arity_le_four
  have hkinds : (sources.map (·.kind)).length ≤ 4 := by simpa using harity
  refine Program.checkInstruction_ok_iff.mpr ⟨?_, ?_, ?_, ?_⟩
  · refine Program.checkSet_ok_iff.mpr fun hhas => ?_
    obtain ⟨d, hd, hvar⟩ := hset hhas
    refine ⟨d, by rwa [toNat_indexByte hsetByte], fun hhas => ?_⟩
    have hlt := hvar hhas
    rw [toNat_indexByte hvarByte]
    simp only [isIndexByte, Bool.and_eq_true, decide_eq_true_eq] at hvarByte
    omega
  · refine Program.checkSources_ok_iff.mpr fun j b hb => ?_
    rw [List.getElem?_map, Option.map_eq_some_iff] at hb
    obtain ⟨o, ho, rfl⟩ := hb
    have hkind : (sources.map (·.kind))[j]? = some o.kind := by
      rw [List.getElem?_map, ho]
      rfl
    rw [Nat.zero_add, sourceKind_sourceMask hkinds hkind]
    exact hsources o (List.mem_of_getElem? ho)
  · refine Program.checkMask_ok_iff.mpr ?_
    have hbits := constantBits_lt (sources.map (·.kind))
    rw [List.length_map, hlength] at hbits
    rwa [sourceMask_toNat hkinds]
  · refine Program.checkDestination_ok_iff.mpr fun hhas => ?_
    simpa [hhas] using hdestination hhas

end Instruction

end Quadlane
