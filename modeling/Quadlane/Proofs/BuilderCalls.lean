import Quadlane.Program.Builder
import Quadlane.Proofs.Checking

/-! What a caller can do with a builder, and what each call does. A declaration that leaves no error
returns an operand of the program; any other call that leaves none appends the instruction it asks
for. -/

namespace Quadlane

/-! ### Calls and what they return -/

namespace Builder

inductive Call where
  | constant (name : Text) (value : Quad)
  | input (name : Text)
  | output (name : Text)
  | dataSet (name : Text) (vars : List Text)
  | emit (op : Opcode) (dst : Operand) (srcs : List Operand)
  | cursor (op : Opcode) (set : Int) (cond dst : Operand)
  | read (set var : Int) (index dst : Operand)
  | write (set var : Int) (index value : Operand)
  | indexValid (set : Int) (index dst : Operand)
  | done

inductive Answer where
  | operand (o : Operand)
  | set (index : Nat)
  | nothing

def call (b : Builder) : Call → Answer × Builder
  | .constant name value => (.operand (b.constant name value).1, (b.constant name value).2)
  | .input name => (.operand (b.input name).1, (b.input name).2)
  | .output name => (.operand (b.output name).1, (b.output name).2)
  | .dataSet name vars => (.set (b.dataSet name vars).1, (b.dataSet name vars).2)
  | .emit op dst srcs => (.nothing, b.emit op dst srcs)
  | .cursor op set cond dst => (.nothing, b.cursor op set cond dst)
  | .read set var index dst => (.nothing, b.read set var index dst)
  | .write set var index value => (.nothing, b.write set var index value)
  | .indexValid set index dst => (.nothing, b.indexValid set index dst)
  | .done => (.nothing, b.done)

abbrev Transcript := List (Call × Answer)

def transcript (b : Builder) : List Call → Transcript
  | [] => []
  | c :: rest => (c, (b.call c).1) :: transcript (b.call c).2 rest

def after (b : Builder) : List Call → Builder
  | [] => b
  | c :: rest => after (b.call c).2 rest

namespace Call

def IsDeclaration : Call → Prop
  | constant .. | input .. | output .. | dataSet .. => True
  | _ => False

def vars? (name : Text) : Call → Option (List Text)
  | dataSet n vars => if n = name then some vars else none
  | _ => none

end Call

namespace Transcript

def firstVars? (t : Transcript) (name : Text) : Option (List Text) :=
  t.findSome? fun entry => entry.1.vars? name

def IsTemporary (o : Operand) : Prop :=
  ∃ i : Int, 0 ≤ i ∧ i < 64 ∧ o = .temp i

def IsSource (t : Transcript) (o : Operand) : Prop :=
  (∃ c, (c, Answer.operand o) ∈ t) ∨ IsTemporary o

def IsDestination (t : Transcript) (o : Operand) : Prop :=
  (∃ name, (Call.output name, Answer.operand o) ∈ t) ∨ IsTemporary o

def IsSet (t : Transcript) (set : Int) : Prop :=
  ∃ name vars, ∃ i : Nat, (Call.dataSet name vars, Answer.set i) ∈ t ∧ set = i

def IsVariable (t : Transcript) (set var : Int) : Prop :=
  ∃ name vars, ∃ i : Nat, (Call.dataSet name vars, Answer.set i) ∈ t ∧ set = i ∧
    ∃ first, t.firstVars? name = some first ∧ var < first.length

end Transcript

/-- A call passes on only what the calls before it returned. -/
def Call.Uses (t : Transcript) : Call → Prop
  | .emit _ dst srcs => t.IsDestination dst ∧ ∀ o ∈ srcs, t.IsSource o
  | .cursor _ set cond dst => t.IsSet set ∧ t.IsSource cond ∧ t.IsDestination dst
  | .read set var index dst => t.IsVariable set var ∧ t.IsSource index ∧ t.IsDestination dst
  | .write set var index value => t.IsVariable set var ∧ t.IsSource index ∧ t.IsSource value
  | .indexValid set index dst => t.IsSet set ∧ t.IsSource index ∧ t.IsDestination dst
  | _ => True

def Legal (t : Transcript) (b : Builder) : List Call → Prop
  | [] => True
  | c :: rest => c.Uses t ∧ Legal (t ++ [(c, (b.call c).1)]) (b.call c).2 rest

variable {b : Builder}

theorem after_append (b : Builder) (calls rest : List Call) :
    b.after (calls ++ rest) = (b.after calls).after rest := by
  induction calls generalizing b with
  | nil => rfl
  | cons c calls ih => exact ih (b.call c).2

/-! ### What one call can do -/

theorem error_fail (b : Builder) (e : BuildError) : (b.fail e).error ≠ none := by
  rw [fail]
  cases b.error <;> simp

theorem declaration_cases {α β : Type} {l : List α} {q : α → Bool} {limit : Nat} {found : Nat → β}
    {full fresh r : β}
    (hr : r = (l.findIdx? q).elim (if limit ≤ l.length then full else fresh) found) :
    (∃ i, l.findIdx? q = some i ∧ r = found i) ∨ r = full ∨
      l.findIdx? q = none ∧ l.length < limit ∧ r = fresh := by
  rcases hfind : l.findIdx? q with _ | i
  · rw [hfind, Option.elim_none] at hr
    by_cases hfull : limit ≤ l.length
    · rw [if_pos hfull] at hr
      exact .inr (.inl hr)
    · rw [if_neg hfull] at hr
      exact .inr (.inr ⟨rfl, Nat.not_le.mp hfull, hr⟩)
  · rw [hfind, Option.elim_some] at hr
    exact .inl ⟨i, rfl, hr⟩

theorem constant_eq (b : Builder) (name : Text) (value : Quad) :
    b.constant name value = (b.draft.constants.findIdx? (·.name = name)).elim
      (if Limit.constants ≤ b.draft.constants.length then
        (.constant (0 : Nat), b.fail (.tooManyConstants name))
      else (.constant b.draft.constants.length,
        { b with draft := { b.draft with constants := b.draft.constants ++ [⟨name, value⟩] } }))
      fun i => (.constant i, b) := by
  unfold constant
  split
  · next hfind => rw [hfind]; rfl
  · next hfind => rw [hfind]; rfl

theorem input_eq (b : Builder) (name : Text) :
    b.input name = (b.draft.inputs.findIdx? (· = name)).elim
      (if Limit.inputs ≤ b.draft.inputs.length then
        (.input (0 : Nat), b.fail (.tooManyInputs name))
      else (.input b.draft.inputs.length,
        { b with draft := { b.draft with inputs := b.draft.inputs ++ [name] } }))
      fun i => (.input i, b) := by
  unfold input
  split
  · next hfind => rw [hfind]; rfl
  · next hfind => rw [hfind]; rfl

theorem output_eq (b : Builder) (name : Text) :
    b.output name = (b.draft.outputs.findIdx? (· = name)).elim
      (if Limit.outputs ≤ b.draft.outputs.length then
        (.output (0 : Nat), b.fail (.tooManyOutputs name))
      else (.output b.draft.outputs.length,
        { b with draft := { b.draft with outputs := b.draft.outputs ++ [name] } }))
      fun i => (.output i, b) := by
  unfold output
  split
  · next hfind => rw [hfind]; rfl
  · next hfind => rw [hfind]; rfl

theorem findIdx_lt {α : Type} {l : List α} {q : α → Bool} {i : Nat} (h : l.findIdx? q = some i) :
    i < l.length :=
  (List.findIdx?_eq_some_iff_getElem.mp h).1

theorem call_error {e : BuildError} (h : b.error = some e) (c : Call) :
    (b.call c).2.error = some e := by
  have hfail : ∀ e', (b.fail e').error = some e := fun e' => by rw [fail, h]; rfl
  have hsome : b.error.isSome = true := by rw [h]; rfl
  cases c with
  | constant name value =>
    rcases declaration_cases (b.constant_eq name value) with ⟨i, -, heq⟩ | heq | ⟨-, -, heq⟩ <;>
      simp [call, heq, h, hfail]
  | input name =>
    rcases declaration_cases (b.input_eq name) with ⟨i, -, heq⟩ | heq | ⟨-, -, heq⟩ <;>
      simp [call, heq, h, hfail]
  | output name =>
    rcases declaration_cases (b.output_eq name) with ⟨i, -, heq⟩ | heq | ⟨-, -, heq⟩ <;>
      simp [call, heq, h, hfail]
  | dataSet name vars =>
    cases hfind : b.draft.sets.findIdx? (·.name = name) <;> simp [call, dataSet, hfind, h]
  | emit op dst srcs =>
    by_cases hlayout : op.layout = .kernel <;> simp [call, emit, append, hlayout, h, hfail]
  | cursor op set cond dst =>
    by_cases hlayout : op.layout = .cursor <;> simp [call, cursor, append, hlayout, h, hfail]
  | read | write | indexValid | done => simp [call, read, write, indexValid, done, append, h]

theorem error_of_after {calls : List Call} (h : (b.after calls).error = none) : b.error = none := by
  induction calls generalizing b with
  | nil => exact h
  | cons c calls ih =>
    rcases herror : b.error with _ | e
    · rfl
    · have hkept := ih h
      rw [call_error herror c] at hkept
      cases hkept

structure Declared (b : Builder) (o : Operand) (b' : Builder) : Prop where
  limited : b'.draft.Limited
  grows : b.draft.Extends b'.draft
  code : b'.draft.code = b.draft.code
  sets : b'.draft.sets = b.draft.sets
  source : b'.draft.checkSource o.kind o.index = .ok ()

theorem constant_declared (h : b.draft.Limited) {name : Text} {value : Quad}
    (herror : (b.constant name value).2.error = none) :
    Declared b (b.constant name value).1 (b.constant name value).2 := by
  rcases declaration_cases (b.constant_eq name value) with
    ⟨i, hfind, heq⟩ | heq | ⟨-, hlimit, heq⟩
  · rw [heq]
    exact ⟨h, .refl _, rfl, rfl, checkSource_constant h (findIdx_lt hfind)⟩
  · rw [heq] at herror
    exact absurd herror (error_fail b _)
  · rw [heq]
    have hlimited : Program.Limited
        { b.draft with constants := b.draft.constants ++ [⟨name, value⟩] } :=
      ⟨List.length_append.trans_le hlimit, h.inputs, h.outputs⟩
    exact ⟨hlimited, ⟨by simp, le_rfl, le_rfl, List.prefix_rfl⟩, rfl, rfl,
      checkSource_constant hlimited (by simp)⟩

theorem input_declared (h : b.draft.Limited) {name : Text}
    (herror : (b.input name).2.error = none) :
    Declared b (b.input name).1 (b.input name).2 := by
  rcases declaration_cases (b.input_eq name) with ⟨i, hfind, heq⟩ | heq | ⟨-, hlimit, heq⟩
  · rw [heq]
    exact ⟨h, .refl _, rfl, rfl, checkRegister_input h (findIdx_lt hfind)⟩
  · rw [heq] at herror
    exact absurd herror (error_fail b _)
  · rw [heq]
    have hlimited : Program.Limited { b.draft with inputs := b.draft.inputs ++ [name] } :=
      ⟨h.constants, List.length_append.trans_le hlimit, h.outputs⟩
    exact ⟨hlimited, ⟨le_rfl, by simp, le_rfl, List.prefix_rfl⟩, rfl, rfl,
      checkRegister_input hlimited (by simp)⟩

theorem output_declared (h : b.draft.Limited) {name : Text}
    (herror : (b.output name).2.error = none) :
    Declared b (b.output name).1 (b.output name).2 ∧
      (b.output name).2.draft.checkRegister true (b.output name).1.index = .ok () := by
  rcases declaration_cases (b.output_eq name) with ⟨i, hfind, heq⟩ | heq | ⟨-, hlimit, heq⟩
  · rw [heq]
    exact ⟨⟨h, .refl _, rfl, rfl, checkRegister_output h (findIdx_lt hfind) false⟩,
      checkRegister_output h (findIdx_lt hfind) true⟩
  · rw [heq] at herror
    exact absurd herror (error_fail b _)
  · rw [heq]
    have hlimited : Program.Limited { b.draft with outputs := b.draft.outputs ++ [name] } :=
      ⟨h.constants, h.inputs, List.length_append.trans_le hlimit⟩
    have hregister := checkRegister_output hlimited (i := b.draft.outputs.length) (by simp)
    exact ⟨⟨hlimited, ⟨le_rfl, le_rfl, by simp, List.prefix_rfl⟩, rfl, rfl,
      hregister false⟩,
      hregister true⟩

structure Request where
  op : Opcode
  set : Int := 0
  var : Int := 0
  dst : Operand := default
  srcs : List Operand := []

def Call.request? : Call → Option Request
  | .emit op dst srcs => some { op, dst, srcs }
  | .cursor op set cond dst => some { op, set, dst, srcs := [cond] }
  | .read set var index dst => some { op := .dataRead, set, var, dst, srcs := [index] }
  | .write set var index value => some { op := .dataWrite, set, var, srcs := [index, value] }
  | .indexValid set index dst => some { op := .indexValid, set, dst, srcs := [index] }
  | .done => some { op := .done }
  | _ => none

theorem append_ok {op : Opcode} {set var : Int} {dst : Operand} {srcs : List Operand}
    (h : (b.append op set var dst srcs).error = none) :
    ∃ ins, Instruction.make op set var dst srcs = .ok ins ∧
      b.append op set var dst srcs =
        { b with draft := { b.draft with code := some (b.draft.bytes ++ ins.encode) } } := by
  unfold append at h ⊢
  split at h
  · next hsome => simp [h] at hsome
  · next hnone =>
    rw [if_neg hnone]
    split at h
    · exact absurd h (error_fail b _)
    · next ins hmake => exact ⟨ins, hmake, rfl⟩

theorem emit_ok {op : Opcode} {dst : Operand} {srcs : List Operand}
    (h : (b.emit op dst srcs).error = none) :
    op.layout = .kernel ∧ b.emit op dst srcs = b.append op 0 0 dst srcs := by
  unfold emit at h ⊢
  split at h
  · next hlayout => exact ⟨hlayout, if_pos hlayout⟩
  · exact absurd h (error_fail b _)

theorem cursor_ok {op : Opcode} {set : Int} {cond dst : Operand}
    (h : (b.cursor op set cond dst).error = none) :
    op.layout = .cursor ∧ b.cursor op set cond dst = b.append op set 0 dst [cond] := by
  unfold cursor at h ⊢
  split at h
  · next hlayout => exact ⟨hlayout, if_pos hlayout⟩
  · exact absurd h (error_fail b _)

def Call.Fitting : Call → Prop
  | .emit op _ _ => op.layout = .kernel
  | .cursor op _ _ _ => op.layout = .cursor
  | _ => True

theorem call_emits {c : Call} {r : Request} (hc : c.request? = some r)
    (h : (b.call c).2.error = none) :
    c.Fitting ∧ ∃ ins, Instruction.make r.op r.set r.var r.dst r.srcs = .ok ins ∧
      (b.call c).2 =
        { b with draft := { b.draft with code := some (b.draft.bytes ++ ins.encode) } } := by
  cases c with
  | constant | input | output | dataSet => cases hc
  | emit =>
    cases hc
    obtain ⟨hlayout, heq⟩ := emit_ok h
    simp only [call, heq] at h ⊢
    exact ⟨hlayout, append_ok h⟩
  | cursor =>
    cases hc
    obtain ⟨hlayout, heq⟩ := cursor_ok h
    simp only [call, heq] at h ⊢
    exact ⟨hlayout, append_ok h⟩
  | read | write | indexValid | done =>
    cases hc
    exact ⟨trivial, append_ok h⟩

theorem declares_or_requests (c : Call) : c.IsDeclaration ∨ ∃ r, c.request? = some r := by
  cases c with
  | constant | input | output | dataSet => exact .inl trivial
  | _ => exact .inr ⟨_, rfl⟩

/-! ### Data sets -/

structure Recorded (t : Transcript) (sets : List SetDeclaration) : Prop where
  first : ∀ name, t.firstVars? name = (sets.find? (·.name = name)).map (·.vars)
  answer : ∀ name vars i, (Call.dataSet name vars, Answer.set i) ∈ t →
    ∃ d, sets[i]? = some d ∧ sets.find? (·.name = name) = some d

theorem find_of_findIdx {sets : List SetDeclaration} {name : Text} {i : Nat}
    (h : sets.findIdx? (·.name = name) = some i) :
    ∃ d, sets[i]? = some d ∧ sets.find? (·.name = name) = some d := by
  obtain ⟨hlt, hname, hbefore⟩ := List.findIdx?_eq_some_iff_getElem.mp h
  refine ⟨sets[i], List.getElem?_eq_getElem hlt,
    List.find?_eq_some_iff_getElem.mpr ⟨hname, i, hlt, rfl, ?_⟩⟩
  intro j hj
  simpa using hbefore j hj

theorem firstVars_snoc (t : Transcript) (c : Call) (a : Answer) (name : Text) :
    Transcript.firstVars? (t ++ [(c, a)]) name = (t.firstVars? name).or (c.vars? name) := by
  rw [Transcript.firstVars?, List.findSome?_append, List.findSome?_singleton]
  rfl

theorem Recorded.silent {t : Transcript} {sets : List SetDeclaration} (h : Recorded t sets)
    {c : Call} (hc : ∀ name vars, c ≠ .dataSet name vars) (a : Answer) :
    Recorded (t ++ [(c, a)]) sets := by
  refine ⟨fun name => ?_, fun name vars i hmem => ?_⟩
  · have hvars : c.vars? name = none := by
      cases c with
      | dataSet n vars => exact absurd rfl (hc n vars)
      | _ => rfl
    rw [firstVars_snoc, hvars, Option.or_none, h.first name]
  · rcases List.mem_append.mp hmem with hmem | hmem
    · exact h.answer name vars i hmem
    · cases List.mem_singleton.mp hmem
      exact absurd rfl (hc name vars)

theorem Recorded.dataSet {t : Transcript} (h : Recorded t b.draft.sets) (name : Text)
    (vars : List Text) :
    Recorded (t ++ [(.dataSet name vars, .set (b.dataSet name vars).1)])
      (b.dataSet name vars).2.draft.sets := by
  rcases hfind : b.draft.sets.findIdx? (·.name = name) with _ | i
  · have heq : b.dataSet name vars = (b.draft.sets.length,
        { b with draft := { b.draft with sets := b.draft.sets ++ [⟨name, vars⟩] } }) := by
      rw [Builder.dataSet, hfind]
    have hnone : b.draft.sets.find? (·.name = name) = none :=
      List.find?_eq_none.mpr fun d hd => by simpa using List.findIdx?_eq_none_iff.mp hfind d hd
    rw [heq]
    refine ⟨fun other => ?_, fun other vars' i hmem => ?_⟩
    · rw [firstVars_snoc, h.first, List.find?_append]
      by_cases hname : name = other
      · subst hname
        simp [hnone, Call.vars?]
      · simp [hname, Call.vars?]
    · rcases List.mem_append.mp hmem with hmem | hmem
      · obtain ⟨d, hd, hfirst⟩ := h.answer other vars' i hmem
        obtain ⟨hlt, -⟩ := List.getElem?_eq_some_iff.mp hd
        exact ⟨d, by rwa [List.getElem?_append_left hlt], by rw [List.find?_append, hfirst]; rfl⟩
      · cases List.mem_singleton.mp hmem
        exact ⟨⟨name, vars⟩, by simp, by simp [List.find?_append, hnone]⟩
  · have heq : b.dataSet name vars = (i, b) := by rw [Builder.dataSet, hfind]
    obtain ⟨d, hd, hfirst⟩ := find_of_findIdx hfind
    rw [heq]
    refine ⟨fun other => ?_, fun other vars' j hmem => ?_⟩
    · rw [firstVars_snoc, h.first]
      by_cases hname : name = other
      · subst hname
        rw [hfirst]
        rfl
      · simp [hname, Call.vars?]
    · rcases List.mem_append.mp hmem with hmem | hmem
      · exact h.answer other vars' j hmem
      · cases List.mem_singleton.mp hmem
        exact ⟨d, hd, hfirst⟩

theorem dataSet_spec (b : Builder) (name : Text) (vars : List Text) :
    b.draft.Extends (b.dataSet name vars).2.draft ∧
      (b.draft.Limited → (b.dataSet name vars).2.draft.Limited) ∧
      (b.dataSet name vars).2.draft.code = b.draft.code := by
  unfold Builder.dataSet
  split
  · exact ⟨.refl _, id, rfl⟩
  · exact ⟨⟨le_rfl, le_rfl, le_rfl, List.prefix_append _ _⟩, fun h => ⟨h.1, h.2, h.3⟩, rfl⟩

end Builder
end Quadlane
