import Quadlane.Proofs.BuilderCalls
import Quadlane.Proofs.Ending

/-! What a builder accepts, validation accepts. A caller who passes on only what earlier calls
returned cannot get hold of an operand beyond the declarations: an operand is returned once its name
is declared, the declarations only grow, and a declaration beyond the limits, like any index that
does not fit a byte, leaves an error behind instead of a program. -/

namespace Quadlane

namespace Builder

variable {b : Builder}

/-! ### Declarations -/

/-- Everything returned so far is one of the program. -/
structure Grounded (t : Transcript) (p : Program) : Prop where
  limited : p.Limited
  source : ∀ c o, (c, Answer.operand o) ∈ t → p.checkSource o.kind o.index = .ok ()
  destination : ∀ name o, (Call.output name, Answer.operand o) ∈ t →
    p.checkRegister true o.index = .ok ()
  recorded : Recorded t p.sets

theorem Grounded.extend {t : Transcript} {p p' : Program} (h : Grounded t p) (hgrows : p.Extends p')
    (hlimited : p'.Limited) {c : Call} {a : Answer}
    (hsource : ∀ o, a = .operand o → p'.checkSource o.kind o.index = .ok ())
    (hdestination : ∀ name o, c = .output name → a = .operand o →
      p'.checkRegister true o.index = .ok ())
    (hrecorded : Recorded (t ++ [(c, a)]) p'.sets) : Grounded (t ++ [(c, a)]) p' := by
  refine ⟨hlimited, fun c' o hmem => ?_, fun name o hmem => ?_, hrecorded⟩
  · rcases List.mem_append.mp hmem with hmem | hmem
    · exact hgrows.checkSource (h.source c' o hmem)
    · cases List.mem_singleton.mp hmem
      exact hsource o rfl
  · rcases List.mem_append.mp hmem with hmem | hmem
    · exact hgrows.checkRegister (h.destination name o hmem)
    · cases List.mem_singleton.mp hmem
      exact hdestination name o rfl rfl

theorem Grounded.call {t : Transcript} {c : Call} (h : Grounded t b.draft)
    (herror : (b.call c).2.error = none) :
    b.draft.Extends (b.call c).2.draft ∧
      Grounded (t ++ [(c, (b.call c).1)]) (b.call c).2.draft := by
  cases c with
  | constant name value =>
    have hd := constant_declared h.limited herror
    refine ⟨hd.grows, h.extend hd.grows hd.limited ?_ (by simp) ?_⟩
    · exact fun o ho => Answer.operand.inj ho ▸ hd.source
    · exact (hd.sets ▸ h.recorded).silent (by simp) _
  | input name =>
    have hd := input_declared h.limited herror
    refine ⟨hd.grows, h.extend hd.grows hd.limited ?_ (by simp) ?_⟩
    · exact fun o ho => Answer.operand.inj ho ▸ hd.source
    · exact (hd.sets ▸ h.recorded).silent (by simp) _
  | output name =>
    obtain ⟨hd, hdestination⟩ := output_declared h.limited herror
    refine ⟨hd.grows, h.extend hd.grows hd.limited ?_ ?_ ?_⟩
    · exact fun o ho => Answer.operand.inj ho ▸ hd.source
    · exact fun _ o _ ho => Answer.operand.inj ho ▸ hdestination
    · exact (hd.sets ▸ h.recorded).silent (by simp) _
  | dataSet name vars =>
    obtain ⟨hgrows, hlimited, -⟩ := b.dataSet_spec name vars
    exact ⟨hgrows, h.extend hgrows (hlimited h.limited) (by simp [Builder.call]) (by simp)
      (h.recorded.dataSet name vars)⟩
  | _ =>
    obtain ⟨-, ins, -, heq⟩ := call_emits rfl herror
    rw [heq]
    have hgrows : b.draft.Extends { b.draft with code := some (b.draft.bytes ++ ins.encode) } :=
      ⟨le_rfl, le_rfl, le_rfl, List.prefix_rfl⟩
    exact ⟨hgrows, h.extend hgrows ⟨h.limited.1, h.limited.2, h.limited.3⟩
      (by simp [Builder.call]) (by simp) (h.recorded.silent (by simp) _)⟩

theorem Grounded.after {t : Transcript} {calls : List Call} (h : Grounded t b.draft)
    (herror : (b.after calls).error = none) :
    Grounded (t ++ b.transcript calls) (b.after calls).draft := by
  induction calls generalizing b t with
  | nil => rwa [transcript, List.append_nil]
  | cons c calls ih =>
    have hstep := (h.call (error_of_after herror)).2
    rw [transcript, List.append_cons]
    exact ih hstep herror

/-! ### Code -/

def Emitted (p : Program) (ending : List UInt8) : Prop :=
  ∃ instructions : List Instruction, p.bytes = instructions.flatMap Instruction.encode ++ ending ∧
    ∀ ins ∈ instructions, ins.Complete ∧ ins.op ≠ .done ∧ p.checkInstruction ins = .ok ()

theorem Emitted.declare {p p' : Program} {ending : List UInt8} (h : Emitted p ending)
    (hgrows : p.Extends p') (hcode : p'.code = p.code) : Emitted p' ending := by
  obtain ⟨instructions, hbytes, hall⟩ := h
  refine ⟨instructions, by rw [Program.bytes, hcode]; exact hbytes, fun ins hins => ?_⟩
  obtain ⟨hcomplete, hop, hcheck⟩ := hall ins hins
  exact ⟨hcomplete, hop, hgrows.checkInstruction hcheck⟩

theorem Emitted.ended {p : Program} (h : Emitted p []) (ending : List UInt8) :
    Emitted { p with code := some (p.bytes ++ ending) } ending := by
  have hgrows : p.Extends { p with code := some (p.bytes ++ ending) } :=
    ⟨le_rfl, le_rfl, le_rfl, List.prefix_rfl⟩
  obtain ⟨instructions, hbytes, hall⟩ := h
  rw [List.append_nil] at hbytes
  refine ⟨instructions, by simp [Program.bytes, ← hbytes], fun ins hins => ?_⟩
  obtain ⟨hcomplete, hop, hcheck⟩ := hall ins hins
  exact ⟨hcomplete, hop, hgrows.checkInstruction hcheck⟩

theorem Emitted.absorb {p : Program} {ins : Instruction} (h : Emitted p ins.encode)
    (hcomplete : ins.Complete) (hop : ins.op ≠ .done) (hcheck : p.checkInstruction ins = .ok ()) :
    Emitted p [] := by
  obtain ⟨instructions, hbytes, hall⟩ := h
  refine ⟨instructions ++ [ins], by simp [hbytes], fun i hi => ?_⟩
  rcases List.mem_append.mp hi with hi | hi
  · exact hall i hi
  · rw [List.mem_singleton.mp hi]
    exact ⟨hcomplete, hop, hcheck⟩

namespace Grounded

variable {t : Transcript} {p : Program}

theorem checkRegister_of_isTemporary {o : Operand} (h : Transcript.IsTemporary o)
    (asDestination : Bool) :
    o.kind = .register ∧ p.checkRegister asDestination o.index = .ok () := by
  obtain ⟨i, hlower, hupper, rfl⟩ := h
  lift i to Nat using hlower
  exact ⟨rfl, checkRegister_temp (by omega) asDestination⟩

theorem checkSource (h : Grounded t p) {o : Operand} (ho : t.IsSource o) :
    p.checkSource o.kind o.index = .ok () := by
  rcases ho with ⟨c, hmem⟩ | htemporary
  · exact h.source c o hmem
  · obtain ⟨hkind, hregister⟩ := checkRegister_of_isTemporary (p := p) htemporary false
    rw [hkind]
    exact hregister

theorem checkDestination (h : Grounded t p) {o : Operand} (ho : t.IsDestination o) :
    p.checkRegister true o.index = .ok () := by
  rcases ho with ⟨name, hmem⟩ | htemporary
  · exact h.destination name o hmem
  · exact (checkRegister_of_isTemporary htemporary true).2

theorem exists_set (h : Grounded t p) {set : Int} (hset : t.IsSet set) :
    ∃ d, p.sets[set.toNat]? = some d := by
  obtain ⟨name, vars, i, hmem, rfl⟩ := hset
  obtain ⟨d, hd, -⟩ := h.recorded.answer name vars i hmem
  exact ⟨d, hd⟩

theorem exists_variable (h : Grounded t p) {set var : Int} (hvar : t.IsVariable set var) :
    ∃ d, p.sets[set.toNat]? = some d ∧ var < d.vars.length := by
  obtain ⟨name, vars, i, hmem, rfl, first, hfirst, hlt⟩ := hvar
  obtain ⟨d, hd, hfind⟩ := h.recorded.answer name vars i hmem
  rw [h.recorded.first name, hfind] at hfirst
  obtain rfl : d.vars = first := Option.some.inj hfirst
  exact ⟨d, hd, hlt⟩

structure Admits (p : Program) (r : Request) : Prop where
  op : r.op ≠ .done
  set : r.op.layout.hasSet = true → ∃ d, p.sets[r.set.toNat]? = some d ∧
    (r.op.layout.hasVariable = true → r.var < d.vars.length)
  noSet : r.op.layout.hasSet = false → r.set = 0
  noVariable : r.op.layout.hasVariable = false → r.var = 0
  sources : ∀ o ∈ r.srcs, p.checkSource o.kind o.index = .ok ()
  destination : r.op.hasDestination = true → p.checkRegister true r.dst.index = .ok ()

theorem admits (h : Grounded t p) {c : Call} {r : Request} (hc : c.request? = some r)
    (hdone : c ≠ .done) (hfitting : c.Fitting) (huses : c.Uses t) : Admits p r := by
  cases c with
  | constant | input | output | dataSet => cases hc
  | done => exact absurd rfl hdone
  | emit op dst srcs =>
    cases hc
    obtain ⟨hdst, hsrcs⟩ := huses
    have hlayout : op.layout = .kernel := hfitting
    refine ⟨?_, ?_, fun _ => rfl, fun _ => rfl, fun o ho => h.checkSource (hsrcs o ho),
      fun _ => h.checkDestination hdst⟩
    · rintro rfl
      cases hlayout
    · simp [hlayout, Layout.hasSet]
  | cursor op set cond dst =>
    cases hc
    obtain ⟨hset, hcond, hdst⟩ := huses
    have hlayout : op.layout = .cursor := hfitting
    obtain ⟨d, hd⟩ := h.exists_set hset
    refine ⟨?_, fun _ => ⟨d, hd, ?_⟩, ?_, fun _ => rfl, ?_, fun _ => h.checkDestination hdst⟩
    · rintro rfl
      cases hlayout
    · simp [hlayout, Layout.hasVariable]
    · simp [hlayout, Layout.hasSet]
    · simpa using h.checkSource hcond
  | read set var index dst =>
    cases hc
    obtain ⟨hvar, hindex, hdst⟩ := huses
    obtain ⟨d, hd, hlt⟩ := h.exists_variable hvar
    refine ⟨by simp, fun _ => ⟨d, hd, fun _ => hlt⟩, by simp [Opcode.layout, Layout.hasSet],
      by simp [Opcode.layout, Layout.hasVariable], by simpa using h.checkSource hindex,
      fun _ => h.checkDestination hdst⟩
  | write set var index value =>
    cases hc
    obtain ⟨hvar, hindex, hvalue⟩ := huses
    obtain ⟨d, hd, hlt⟩ := h.exists_variable hvar
    refine ⟨by simp, fun _ => ⟨d, hd, fun _ => hlt⟩, by simp [Opcode.layout, Layout.hasSet],
      by simp [Opcode.layout, Layout.hasVariable], ?_,
      by simp [Opcode.hasDestination, Opcode.layout, Layout.hasDestination]⟩
    simpa using ⟨h.checkSource hindex, h.checkSource hvalue⟩
  | indexValid set index dst =>
    cases hc
    obtain ⟨hset, hindex, hdst⟩ := huses
    obtain ⟨d, hd⟩ := h.exists_set hset
    refine ⟨by simp, fun _ => ⟨d, hd, ?_⟩, by simp [Opcode.layout, Layout.hasSet], fun _ => rfl,
      by simpa using h.checkSource hindex, fun _ => h.checkDestination hdst⟩
    simp [Opcode.layout, Layout.hasVariable]

end Grounded

theorem call_code {c : Call} (hc : c.IsDeclaration) : (b.call c).2.draft.code = b.draft.code := by
  cases c with
  | constant name value =>
    rcases declaration_cases (b.constant_eq name value) with ⟨i, -, heq⟩ | heq | ⟨-, -, heq⟩ <;>
      simp [call, heq, fail]
  | input name =>
    rcases declaration_cases (b.input_eq name) with ⟨i, -, heq⟩ | heq | ⟨-, -, heq⟩ <;>
      simp [call, heq, fail]
  | output name =>
    rcases declaration_cases (b.output_eq name) with ⟨i, -, heq⟩ | heq | ⟨-, -, heq⟩ <;>
      simp [call, heq, fail]
  | dataSet name vars => exact (b.dataSet_spec name vars).2.2
  | emit | cursor | read | write | indexValid | done => cases hc

theorem Emitted.call {t : Transcript} {c : Call} (h : Emitted b.draft []) (ht : Grounded t b.draft)
    (hdone : c ≠ .done) (huses : c.Uses t) (herror : (b.call c).2.error = none) :
    Emitted (b.call c).2.draft [] := by
  rcases declares_or_requests c with hdeclares | ⟨r, hr⟩
  · exact h.declare (ht.call herror).1 (call_code hdeclares)
  · obtain ⟨hfitting, ins, hmake, heq⟩ := call_emits hr herror
    have hadmits := ht.admits hr hdone hfitting huses
    have hop : ins.op = r.op := by rw [(Instruction.make_eq_ok hmake).2]
    rw [heq]
    exact (h.ended ins.encode).absorb
      (Instruction.complete_of_make hmake hadmits.noSet hadmits.noVariable) (hop ▸ hadmits.op)
      (Instruction.checkInstruction_of_make hmake hadmits.set hadmits.sources hadmits.destination)

theorem Emitted.after {t : Transcript} {calls : List Call} (h : Emitted b.draft [])
    (ht : Grounded t b.draft) (hlegal : Legal t b calls) (hdone : ∀ c ∈ calls, c ≠ .done)
    (herror : (b.after calls).error = none) : Emitted (b.after calls).draft [] := by
  induction calls generalizing b t with
  | nil => exact h
  | cons c calls ih =>
    have herror' : (b.call c).2.error = none := error_of_after herror
    exact ih (h.call ht (hdone c (List.mem_cons_self ..)) hlegal.1 herror') (ht.call herror').2
      hlegal.2 (fun c' hc' => hdone c' (List.mem_cons_of_mem _ hc')) herror

theorem Emitted.declarations {t : Transcript} {calls : List Call} {ending : List UInt8}
    (h : Emitted b.draft ending) (ht : Grounded t b.draft) (hcalls : ∀ c ∈ calls, c.IsDeclaration)
    (herror : (b.after calls).error = none) : Emitted (b.after calls).draft ending := by
  induction calls generalizing b t with
  | nil => exact h
  | cons c calls ih =>
    obtain ⟨hgrows, ht'⟩ := ht.call (error_of_after herror)
    exact ih (h.declare hgrows (call_code (hcalls c (List.mem_cons_self ..)))) ht'
      (fun c' hc' => hcalls c' (List.mem_cons_of_mem _ hc')) herror

theorem Emitted.done (h : Emitted b.draft []) (herror : (b.call .done).2.error = none) :
    Emitted (b.call .done).2.draft [Opcode.done.toByte] := by
  obtain ⟨-, ins, hmake, heq⟩ := call_emits rfl herror
  have hop : ins.op = .done := by rw [(Instruction.make_eq_ok hmake).2]
  rw [heq, Instruction.encode_of_done hop]
  exact h.ended _

theorem Legal.left {t : Transcript} {calls rest : List Call} (h : Legal t b (calls ++ rest)) :
    Legal t b calls := by
  induction calls generalizing b t with
  | nil => trivial
  | cons c calls ih => exact ⟨h.1, ih h.2⟩

theorem grounded_new (name : Text) : Grounded [] (new name).draft := by
  refine ⟨⟨Nat.zero_le _, Nat.zero_le _, Nat.zero_le _⟩, ?_, ?_, fun _ => rfl, ?_⟩
  all_goals simp

theorem program_ok {p : Program} (h : b.program = .ok p) : b.error = none ∧ b.draft = p := by
  unfold program at h
  split at h
  · cases h
  · next hnone => exact ⟨hnone, Except.ok.inj h⟩

/-- The program that a builder returns is valid if every call passed on only what earlier calls
returned and the end was emitted once, last. -/
theorem built_program_validates (name : Text) (before after : List Call) {p : Program}
    (hlegal : Legal [] (new name) (before ++ .done :: after)) (hbefore : ∀ c ∈ before, c ≠ .done)
    (hafter : ∀ c ∈ after, c.IsDeclaration)
    (hp : ((new name).after (before ++ .done :: after)).program = .ok p) : p.validate = .ok () := by
  obtain ⟨herror, rfl⟩ := program_ok hp
  have hground := (grounded_new name).after herror
  rw [after_append] at herror hground ⊢
  -- The last error is none, so there was none after `before` or after the end either.
  have hended : (((new name).after before).call .done).2.error = none := error_of_after herror
  have hopen : ((new name).after before).error = none := error_of_after herror
  have hgroundBefore := (grounded_new name).after hopen
  have hemitted : Emitted ((new name).after before).draft [] :=
    Emitted.after ⟨[], rfl, by simp⟩ (grounded_new name) hlegal.left hbefore hopen
  obtain ⟨instructions, hbytes, hall⟩ :=
    (hemitted.done hended).declarations (hgroundBefore.call hended).2 hafter herror
  refine Program.validate_of_checkCode hground.limited.constants hground.limited.inputs
    hground.limited.outputs ?_
  rw [show (((new name).after before).after (.done :: after)).draft.bytes = _ from hbytes]
  exact Code.checkCode_ended 0 hall

def noteCalls : List Call :=
  [.constant (Text.lit "dt") (Quad.splat .one), .dataSet (Text.lit "notes") [Text.lit "at"],
    .input (Text.lit "x"), .emit (.kernel (.binary .mul)) (.temp 63) [.constant 0, .input 0],
    .dataSet (Text.lit "notes") [], .cursor (.cursor .acquire) 0 (.temp 63) (.temp 1),
    .write 0 0 (.temp 1) (.temp 63), .output (Text.lit "x"),
    .emit (.kernel (.unary .output)) (.output 0) [.temp 63]]

theorem noteCalls_validates :
    ∃ p, ((new (Text.lit "note")).after
        (noteCalls ++ .done :: [.input (Text.lit "late")])).program = .ok p ∧
      p.validate = .ok () := by
  have htemporary : ∀ t : Transcript, ∀ i : Int, 0 ≤ i → i < 64 →
      t.IsSource (.temp i) ∧ t.IsDestination (.temp i) :=
    fun t i hlower hupper => ⟨.inr ⟨i, hlower, hupper, rfl⟩, .inr ⟨i, hlower, hupper, rfl⟩⟩
  have hlast : ∀ t, Transcript.IsSource t (.temp 63) ∧ Transcript.IsDestination t (.temp 63) :=
    fun t => htemporary t 63 (by decide) (by decide)
  have hslot : ∀ t, Transcript.IsSource t (.temp 1) ∧ Transcript.IsDestination t (.temp 1) :=
    fun t => htemporary t 1 (by decide) (by decide)
  refine ⟨_, rfl, built_program_validates (Text.lit "note") noteCalls [.input (Text.lit "late")]
    ?_ ?_ ?_ rfl⟩
  · refine ⟨trivial, trivial, trivial, ⟨(hlast _).2, ?_⟩, trivial, ⟨?_, (hlast _).1, (hslot _).2⟩,
      ⟨?_, (hslot _).1, (hlast _).1⟩, trivial, ⟨?_, ?_⟩, trivial, trivial, trivial⟩
    · intro o ho
      rcases List.mem_pair.mp ho with rfl | rfl
      · exact .inl ⟨_, List.mem_of_getElem? (i := 0) rfl⟩
      · exact .inl ⟨_, List.mem_of_getElem? (i := 2) rfl⟩
    · exact ⟨_, _, 0, List.mem_of_getElem? (i := 4) rfl, rfl⟩
    · exact ⟨_, _, 0, List.mem_of_getElem? (i := 4) rfl, rfl, _, rfl, by decide⟩
    · exact .inl ⟨_, List.mem_of_getElem? (i := 7) rfl⟩
    · intro o ho
      rw [List.mem_singleton.mp ho]
      exact (hlast _).1
  · simp [noteCalls]
  · simp [Call.IsDeclaration]

end Builder
end Quadlane
