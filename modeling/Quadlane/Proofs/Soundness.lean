import Quadlane.Program.Validation
import Quadlane.Proofs.Calls
import Quadlane.Proofs.Shape

/-! Validation is sound for the executor. The executor looks operands up without checking them; if
the program was validated and the caller binds what it declares, every lookup finds something, so a
call ends well unless its machine has no room for temporaries at all. -/

namespace Quadlane

structure Frame.Covers (f : Frame) (p : Program) (m : Memory) : Prop where
  inputs : f.inputs.length = p.inputs.length
  outputs : f.outputs.length = p.outputs.length
  constants : f.constants.length = p.constants.length
  setCount : f.sets.length = p.sets.length
  views : ∀ (i : Nat) (d : SetDeclaration) (set : Option Nat), p.sets[i]? = some d →
    f.sets[i]? = some set →
      ∃ id v, set = some id ∧ m.views[id]? = some v ∧ d.vars.length ≤ v.vars.size

/-- A caller binds what the program declares, each buffer long enough for all instances. -/
structure Arguments.Matches (a : Arguments) (p : Program) (m : Memory) : Prop
    extends a.frame.Covers p m where
  nonneg : 0 ≤ a.count
  held : ∀ w ∈ a.inputs ++ a.outputs, a.count ≤ w.length

theorem Frame.Covers.of_shape {f : Frame} {p : Program} {m m' : Memory} (h : f.Covers p m)
    (hshape : m'.shape = m.shape) : f.Covers p m' := by
  refine { h with views := ?_ }
  intro i d set hd hset
  obtain ⟨id, v, hid, hv, hvars⟩ := h.views i d set hd hset
  obtain ⟨v', hv', -, hsame⟩ := Memory.view_of_shape hshape hv
  exact ⟨id, v', hid, hv', by rwa [hsame]⟩

theorem Frame.Covers.sets_present {f : Frame} {p : Program} {m : Memory} (h : f.Covers p m) :
    none ∉ f.sets := by
  intro hnone
  obtain ⟨i, hi, hset⟩ := List.mem_iff_getElem.mp hnone
  have hdeclared : i < p.sets.length := h.setCount ▸ hi
  obtain ⟨id, v, hid, -⟩ := h.views i _ none (List.getElem?_eq_getElem hdeclared)
    (hset ▸ List.getElem?_eq_getElem hi)
  cases hid

/-! ### Operands that were checked can be looked up -/

namespace Frame.Covers

variable {a : Arguments} {p : Program} {m : Memory} {mask b : UInt8} {i : Nat}

theorem slot_of_checkRegister (h : a.frame.Covers p m) {asDestination : Bool}
    (hb : p.checkRegister asDestination b = .ok ()) : ∃ s, a.frame.slot? b = some s ∧ s ≠ .unbound := by
  unfold Program.checkRegister at hb
  rw [a.frame_slot]
  unfold Arguments.slot?
  split at hb
  · simp at hb
  · next j hsplit =>
    have hj : j < a.inputs.length := by
      rw [← a.frame_inputs, h.inputs]
      split at hb
      · simp at hb
      · split at hb
        · simp at hb
        · omega
    rw [hsplit]
    exact ⟨.bound a.inputs[j], by simp [hj, Slot.ofWindow, Slot.rebind], by simp⟩
  · next j hsplit =>
    have hj : j < a.outputs.length := by
      rw [← a.frame_outputs, h.outputs]
      split at hb
      · simp at hb
      · omega
    rw [hsplit]
    exact ⟨.bound a.outputs[j], by simp [hj, Slot.ofWindow, Slot.rebind], by simp⟩
  · next group hin hout hsplit =>
    obtain ⟨g, j⟩ := group
    rw [hsplit]
    cases g with
    | input => exact absurd rfl (hin j)
    | output => exact absurd rfl (hout j)
    | _ => exact ⟨.temporary j, rfl, by simp⟩

theorem source_of_checkSource (h : a.frame.Covers p m)
    (hb : p.checkSource (sourceKind mask i) b = .ok ()) :
    ∃ s, a.frame.source? m mask i b = some s ∧ s.isBound = true := by
  unfold source?
  cases hkind : sourceKind mask i with
  | constant =>
    simp only [hkind, Program.checkSource] at hb
    split at hb
    · simp at hb
    · have hlt : b.toNat < (a.frame.constants.values m).length := by
        rw [Constants.length_values, h.constants]
        omega
      exact ⟨.constant (a.frame.constants.values m)[b.toNat],
        by rw [List.getElem?_eq_getElem hlt]; rfl, rfl⟩
  | register =>
    simp only [hkind, Program.checkSource] at hb
    obtain ⟨s, hs, hbound⟩ := h.slot_of_checkRegister hb
    refine ⟨.register s, by simp [hs], ?_⟩
    cases s with
    | unbound => exact absurd rfl hbound
    | _ => rfl

theorem sources_of_checkSources (h : a.frame.Covers p m) {bs : List UInt8}
    (hbs : p.checkSources mask i bs = .ok ()) :
    ∃ l, a.frame.sources? m mask i bs = some l ∧ l.all Source.isBound = true := by
  induction bs generalizing i with
  | nil => exact ⟨[], rfl, rfl⟩
  | cons b bs ih =>
    unfold Program.checkSources at hbs
    split at hbs
    · simp at hbs
    · next hb =>
      obtain ⟨s, hs, hbound⟩ := h.source_of_checkSource hb
      obtain ⟨l, hl, hall⟩ := ih hbs
      refine ⟨s :: l, by simp [sources?, hs, hl], ?_⟩
      rw [List.all_cons, hbound, hall]
      rfl

theorem view_of_checkSet (h : a.frame.Covers p m) {ins : Instruction}
    (hset : ins.op.layout.hasSet = true) (hok : p.checkSet ins = .ok ()) :
    ∃ view, a.sets[ins.set.toNat]? = some (some view) ∧
      (ins.op.layout.hasVariable = true → hasVariable m view ins.var.toNat = true) := by
  unfold Program.checkSet at hok
  rw [hset] at hok
  simp only [Bool.not_true, Bool.false_eq_true, if_false] at hok
  split at hok
  · simp at hok
  · next d hd =>
    have hlt : ins.set.toNat < a.sets.length := by
      rw [← a.frame_sets, h.setCount]
      exact (List.getElem?_eq_some_iff.mp hd).1
    have hset : a.sets[ins.set.toNat]? = some a.sets[ins.set.toNat] :=
      List.getElem?_eq_getElem hlt
    obtain ⟨view, v, hview, hv, hvars⟩ := h.views _ d _ hd hset
    refine ⟨view, hview ▸ hset, ?_⟩
    intro hvar
    simp only [hvar, Bool.true_and, decide_eq_true_eq] at hok
    split at hok
    · simp at hok
    · simp only [hasVariable, hv, decide_eq_true_eq]
      omega

theorem guarded_of_bound {dst : Slot} {sources : List Source} (hdst : dst ≠ .unbound)
    (hsources : sources.all Source.isBound = true) (act : Action) :
    guarded dst sources true act = some act := by
  rw [guarded, if_neg hdst, hsources]
  rfl

theorem source_of_checkSources (h : a.frame.Covers p m) {bs : List UInt8}
    (hbs : p.checkSources mask 0 bs = .ok ()) {j : Nat} (hj : j < bs.length) :
    ∃ s, a.frame.source? m mask j (bs.getD j 0) = some s ∧ s.isBound = true := by
  suffices hgen : ∀ {bs : List UInt8} {i j : Nat}, p.checkSources mask i bs = .ok () →
      j < bs.length → ∃ s, a.frame.source? m mask (i + j) (bs.getD j 0) = some s ∧ s.isBound = true by
    simpa using hgen hbs hj
  intro bs
  induction bs with
  | nil => intro i j _ hj; simp at hj
  | cons b bs ih =>
    intro i j hbs hj
    unfold Program.checkSources at hbs
    split at hbs
    · simp at hbs
    · next hb =>
      cases j with
      | zero => exact h.source_of_checkSource hb
      | succ j =>
        have hlt : j < bs.length := by simpa using hj
        obtain ⟨s, hs, hbound⟩ := ih hbs hlt
        refine ⟨s, ?_, hbound⟩
        rw [List.getD_cons_succ, ← hs]
        congr 1
        omega

end Frame.Covers

theorem Program.checkInstruction_ok {p : Program} {ins : Instruction}
    (h : p.checkInstruction ins = .ok ()) :
    p.checkSet ins = .ok () ∧ p.checkSources ins.mask 0 ins.sources = .ok () ∧
      checkMask ins = .ok () ∧ p.checkDestination ins = .ok () := by
  unfold checkInstruction at h
  cases hset : p.checkSet ins with
  | error e => simp [hset, bind, Except.bind] at h
  | ok =>
    cases hsources : p.checkSources ins.mask 0 ins.sources with
    | error e => simp [hset, hsources, bind, Except.bind] at h
    | ok =>
      cases hmask : checkMask ins with
      | error e => simp [hset, hsources, hmask, bind, Except.bind] at h
      | ok =>
        refine ⟨rfl, rfl, rfl, ?_⟩
        simpa [hset, hsources, hmask, bind, Except.bind] using h

namespace Frame.Covers

variable {a : Arguments} {p : Program} {m : Memory} {ins : Instruction}

theorem slot_of_checkDestination (h : a.frame.Covers p m) (hdst : ins.op.hasDestination = true)
    (hok : p.checkDestination ins = .ok ()) :
    ∃ s, a.frame.slot? ins.destination = some s ∧ s ≠ .unbound := by
  rw [Program.checkDestination, if_pos hdst] at hok
  exact h.slot_of_checkRegister hok

theorem resolveOnSet_of_checkInstruction (h : a.frame.Covers p m) (make : Nat → Slot → Source → Action)
    (probe : Probe) (hset : ins.op.layout.hasSet = true) (hdst : ins.op.hasDestination = true)
    (hlen : ins.sources.length = 1) (hok : p.checkInstruction ins = .ok ()) :
    ∃ act, a.frame.resolveOnSet m make probe ins = some act := by
  obtain ⟨hokset, hoksources, -, hokdst⟩ := Program.checkInstruction_ok hok
  obtain ⟨view, hview, -⟩ := h.view_of_checkSet hset hokset
  obtain ⟨dst, hslot, hbound⟩ := h.slot_of_checkDestination hdst hokdst
  obtain ⟨source, hsource, hsrc⟩ := h.source_of_checkSources (j := 0) hoksources (by omega)
  refine ⟨make view dst source, ?_⟩
  simp only [resolveOnSet, Arguments.frame_sets, hview, hslot, hsource, Option.bind_eq_bind,
    Option.bind_some]
  exact guarded_of_bound hbound (by simpa using hsrc) _

theorem resolve_of_checkInstruction (h : a.frame.Covers p m)
    (hlen : ins.sources.length = ins.op.arity) (hok : p.checkInstruction ins = .ok ()) :
    ∃ act, a.frame.resolve m ins = some act := by
  obtain ⟨hokset, hoksources, -, hokdst⟩ := Program.checkInstruction_ok hok
  unfold resolve
  cases hop : ins.op with
  | done => exact ⟨.skip, rfl⟩
  | kernel k =>
    obtain ⟨dst, hslot, hbound⟩ := h.slot_of_checkDestination (by rw [hop]; rfl) hokdst
    obtain ⟨sources, hsources, hall⟩ := h.sources_of_checkSources hoksources
    refine ⟨.kernel k dst sources, ?_⟩
    simp [hslot, hsources, guarded_of_bound hbound hall]
  | cursor c =>
    refine h.resolveOnSet_of_checkInstruction (.cursor c) .cursor ?_ ?_ ?_ hok
    · rw [hop]; rfl
    · rw [hop]; rfl
    · rw [hlen, hop, Opcode.arity_cursor]
  | indexValid =>
    refine h.resolveOnSet_of_checkInstruction .valid .valid ?_ ?_ ?_ hok
    · rw [hop]; rfl
    · rw [hop]; rfl
    · rw [hlen, hop]; rfl
  | dataRead =>
    have harity : ins.sources.length = 1 := by rw [hlen, hop]; rfl
    obtain ⟨view, hview, hvar⟩ := h.view_of_checkSet (by rw [hop]; rfl) hokset
    obtain ⟨dst, hslot, hbound⟩ := h.slot_of_checkDestination (by rw [hop]; rfl) hokdst
    obtain ⟨index, hindex, hidx⟩ := h.source_of_checkSources (j := 0) hoksources (by omega)
    have hhas := hvar (by rw [hop]; rfl)
    refine ⟨.read view ins.var.toNat dst index, ?_⟩
    simp only [Arguments.frame_sets, hview, hslot, hindex, readSet, hhas, Option.bind_eq_bind,
      Option.bind_some]
    exact guarded_of_bound hbound (by simpa using hidx) _
  | dataWrite =>
    have harity : ins.sources.length = 2 := by rw [hlen, hop]; rfl
    obtain ⟨view, hview, hvar⟩ := h.view_of_checkSet (by rw [hop]; rfl) hokset
    obtain ⟨index, hindex, hidx⟩ := h.source_of_checkSources (j := 0) hoksources (by omega)
    obtain ⟨value, hvalue, hval⟩ := h.source_of_checkSources (j := 1) hoksources (by omega)
    have hhas := hvar (by rw [hop]; rfl)
    refine ⟨.write view ins.var.toNat index value, ?_⟩
    simp only [Arguments.frame_sets, hview, hindex, hvalue, hhas, hidx, hval, Option.bind_eq_bind,
      Option.bind_some, Option.join_some, Bool.and_self, if_true]

end Frame.Covers

/-! ### Code that was checked runs to its end -/

theorem Program.checkCode_ok {p : Program} {offset : Nat} {code : List UInt8}
    (h : p.checkCode offset code = .ok ()) :
    ∃ ins rest, Instruction.split offset code = .ok (ins, rest) ∧
      (ins.op = .done ∧ rest = [] ∨
        ins.op ≠ .done ∧ p.checkInstruction ins = .ok () ∧
          p.checkCode (offset + ins.size) rest = .ok ()) := by
  rw [checkCode.eq_def] at h
  split at h
  · simp at h
  · next ins rest hsplit =>
    refine ⟨ins, rest, hsplit, ?_⟩
    split at h
    · next hdone =>
      split at h
      · next hempty => exact .inl ⟨hdone, List.isEmpty_iff.mp hempty⟩
      · simp at h
    · next hdone =>
      split at h
      · simp at h
      · next hins => exact .inr ⟨hdone, hins, h⟩

section Run

variable {a : Arguments} {p : Program}

theorem runFrom_of_checkCode (table : NoiseTable) (c : Chunk) {offset : Nat} {s : Store}
    {code : List UInt8}
    (hcode : p.checkCode offset code = .ok ()) (hf : a.frame.Covers p s.memory) :
    (runFrom table a.frame c offset s code).2 = .done := by
  induction hlen : code.length using Nat.strongRecOn generalizing offset s code with
  | ind len ih =>
    obtain ⟨ins, rest, hsplit, ⟨hdone, -⟩ | ⟨hdone, hins, hrest⟩⟩ := Program.checkCode_ok hcode
    · rw [runFrom_of_done hsplit hdone]
    · obtain ⟨act, hact⟩ :=
        hf.resolve_of_checkInstruction (Instruction.split_sources_length hsplit) hins
      have hshorter := Instruction.split_decreasing hsplit
      have hcovers := hf.of_shape (act.perform_shape table c s)
      have hpresent := Frame.resolve_present hf.sets_present hact
      rw [runFrom_of_resolve hsplit hdone hact (act.reach_of_present c hpresent s)]
      exact ih rest.length (by omega) hrest hcovers rfl

theorem Machine.runChunks_of_checkCode {m : Machine} {code : List UInt8}
    (hcode : p.checkCode 0 code = .ok ()) (k remaining : Nat) {s : Store}
    (hf : a.frame.Covers p s.memory) : (m.runChunks a code k s remaining).2 = .done := by
  induction remaining generalizing k s with
  | zero => rfl
  | succ remaining ih =>
    have hend := runFrom_of_checkCode m.noise (m.chunk a.count k) hcode hf
    have hshape := runFrom_shape m.noise a.frame (m.chunk a.count k) 0 s code
    rw [runChunks_succ]
    split
    · next s' hrun =>
      rw [hrun] at hshape
      exact ih (k + 1) (hf.of_shape hshape)
    · next s' ending hne hrun =>
      rw [hrun] at hend
      exact absurd hend (by simpa using hne)

end Run

/-! ### Calls -/

theorem Program.validate_ok {p : Program} (h : p.validate = .ok ()) :
    p.constants.length ≤ Limit.constants ∧ p.inputs.length ≤ Limit.inputs ∧
      p.outputs.length ≤ Limit.outputs ∧ p.checkCode 0 p.bytes = .ok () := by
  unfold validate at h
  split at h
  · simp at h
  · split at h
    · simp at h
    · split at h
      · simp at h
      · exact ⟨by omega, by omega, by omega, h⟩

theorem Arguments.Matches.check_ok {a : Arguments} {p : Program} {memory : Memory}
    (h : a.Matches p memory) (hvalid : p.validate = .ok ()) : a.check = .ok () := by
  obtain ⟨hconstants, hinputs, houtputs, -⟩ := Program.validate_ok hvalid
  have hin : a.inputs.length = p.inputs.length := h.inputs
  have hout : a.outputs.length = p.outputs.length := h.outputs
  have hconst : a.constants.length = p.constants.length := h.constants
  have hnonneg := h.nonneg
  exact Arguments.check_eq_ok_iff.mpr ⟨hnonneg, by omega, by omega, by omega, h.held⟩

namespace Machine

variable {m : Machine} {p : Program} {a : Arguments} {memory : Memory}

/-- A validated program that is bound as declared runs to its end. -/
theorem exec_of_validate (hvalid : p.validate = .ok ()) (hmatch : a.Matches p memory)
    (hroom : m.hasScratch = true ∨ m.chunkCount a.count ≤ 0) :
    (m.exec p.bytes a memory).outcome = .ok ∧
      (m.exec p.bytes a memory).machine.phase = .done := by
  obtain ⟨-, -, -, hcode⟩ := Program.validate_ok hvalid
  have hend := runChunks_of_checkCode (m := m) hcode 0 (m.chunkCount a.count).toNat
    (s := m.store memory) hmatch.toCovers
  rw [exec_of_done (hmatch.check_ok hvalid) hroom (Prod.ext rfl hend)]
  exact ⟨rfl, rfl⟩

/-- A call of a validated program that is bound as declared ends well, whatever the machine did
before and whatever the values are; only if the machine could not get a chunk of cells for each of
its temporaries, because their number wraps around, does a call that has a chunk to run fail. -/
theorem exec_validated_iff (m : Machine) (p : Program) (a : Arguments) (memory : Memory)
    (hvalid : p.validate = .ok ()) (hmatch : a.Matches p memory) (hchunk : 1 ≤ m.chunkSize)
    (hsize : m.chunkSize < 2 ^ 63) (hcount : a.count < 2 ^ 63) :
    ((m.exec p.bytes a memory).outcome = .ok ∧
        (m.exec p.bytes a memory).machine.phase = .done) ↔
      Limit.temporaries * m.chunkSize < 2 ^ 63 ∨ a.count = 0 ∨
        2 ^ 63 ≤ a.count + m.chunkSize - 1 := by
  have hnonneg := hmatch.nonneg
  have hchunks := chunkCount_pos_iff hnonneg hcount hchunk hsize
  have hscratch := hasScratch_iff hchunk
  constructor
  · rintro ⟨hok, -⟩
    refine Classical.byContradiction fun hcond => ?_
    have hroom : m.hasScratch = false := by
      rw [← Bool.not_eq_true, hscratch]
      omega
    rw [exec_of_no_scratch _ (hmatch.check_ok hvalid) hroom (by omega)] at hok
    exact faulted_outcome_ne_ok _ _ _ _ hok
  · intro hcond
    apply exec_of_validate hvalid hmatch
    rw [hscratch]
    omega

def noting : Program :=
  { code := some [54, 0, 1, 0, 0, 59, 0, 0, 0, 0, 64, 1, 2, 64, 0, 128, 0]
    constants := [⟨Text.lit "one", Quad.splat Lane.one⟩]
    inputs := [Text.lit "x"]
    outputs := [Text.lit "y"]
    sets := [⟨Text.lit "events", [Text.lit "x"]⟩] }

def notingArguments : Arguments :=
  { inputs := [⟨0, 0, 3⟩], outputs := [⟨1, 0, 3⟩], constants := .own [Quad.splat Lane.one]
    sets := [some 0], count := 3 }

def notingMemory : Memory :=
  { buffers := Array.replicate 3 (Array.replicate 3 Quad.zero)
    views := #[{ name := Text.lit "events", size := 2, vars := #[(Text.lit "x", some 2)] }] }

theorem noting_matches : notingArguments.Matches noting notingMemory := by
  refine ⟨⟨rfl, rfl, rfl, rfl, ?_⟩, by decide, by decide⟩
  rintro (_ | i) d set hd hset
  · simp only [noting, notingArguments, Arguments.frame_sets, List.getElem?_cons_zero,
      Option.some.injEq] at hd hset
    subst hd hset
    exact ⟨0, _, rfl, rfl, Nat.le_refl 1⟩
  · simp [noting] at hd

theorem exec_noting :
    noting.validate = .ok () ∧ notingArguments.Matches noting notingMemory ∧
      ((new 2 0 .standard).exec noting.bytes notingArguments notingMemory).outcome = .ok ∧
      ((new 2 0 .standard).exec noting.bytes notingArguments notingMemory).machine.phase = .done := by
  -- Two chunks, the second one not full.
  have hvalid : noting.validate = .ok () := by cbv
  exact ⟨hvalid, noting_matches,
    (exec_validated_iff (new 2 0 .standard) noting notingArguments notingMemory hvalid
      noting_matches (by decide) (by decide) (by decide)).mpr (.inl (by decide))⟩

/-- With `2 ^ 58` instances a chunk the number of cells of all temporaries wraps to zero: there is
such a machine, but it cannot run a chunk. -/
theorem exec_wrapped_scratch :
    (new (2 ^ 58) 0 .standard).canExist = true ∧
      Program.validate { code := some [0] } = .ok () ∧
      Arguments.Matches ⟨[], [], .own [], [], 1⟩ { code := some [0] } ⟨#[], #[]⟩ ∧
      ((new (2 ^ 58) 0 .standard).exec [0] ⟨[], [], .own [], [], 1⟩ ⟨#[], #[]⟩).outcome =
        .fault none := by
  refine ⟨by decide, by cbv, ⟨⟨rfl, rfl, rfl, rfl, by simp⟩, by decide, by simp⟩, ?_⟩
  rw [exec_of_no_scratch [0] rfl (by decide) (by decide)]
  rfl

end Machine
end Quadlane
