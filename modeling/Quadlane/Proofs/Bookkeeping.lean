import Quadlane.Proofs.Building

/-! The books of a builder. Each category of names has a list of its own, which holds the first
declarations in the order of the calls, as far as the limit of the category allows; the answer to a
declaration is the place of its name in that list. Code grows by the instructions that are asked for
until a call fails, and is closed from then on, with the error of that call. -/

namespace Quadlane

/-! ### First occurrences -/

section FirstOccurrences

variable {α κ : Type} [DecidableEq κ]

/-- The elements with a key that none before them has. -/
def firstsBy (key : α → κ) (l : List α) : List α :=
  l.eraseDupsBy fun a b => key a = key b

variable {key : α → κ}

theorem firstsBy_cons (a : α) (l : List α) :
    firstsBy key (a :: l) = a :: firstsBy key (l.filter (key · ≠ key a)) := by
  rw [firstsBy, List.eraseDupsBy_cons, firstsBy]
  congr 3
  funext b
  simp

theorem firstsBy_concat (l : List α) (a : α) :
    firstsBy key (l ++ [a]) =
      if key a ∈ l.map key then firstsBy key l else firstsBy key l ++ [a] := by
  induction hlength : l.length using Nat.strongRecOn generalizing l with
  | ind length ih =>
    cases l with
    | nil => rw [List.nil_append, firstsBy_cons]; rfl
    | cons x l =>
      rw [List.cons_append, firstsBy_cons, firstsBy_cons, List.filter_append]
      by_cases hx : key a = key x
      · simp [hx]
      · have hmem : key a ∈ (l.filter (key · ≠ key x)).map key ↔ key a ∈ (x :: l).map key := by
          simp only [List.map_cons, List.mem_cons, hx, false_or, List.mem_map, List.mem_filter,
            decide_eq_true_eq]
          constructor
          · rintro ⟨y, ⟨hy, -⟩, heq⟩
            exact ⟨y, hy, heq⟩
          · rintro ⟨y, hy, heq⟩
            exact ⟨y, ⟨hy, heq ▸ hx⟩, heq⟩
        have hshorter : (l.filter (key · ≠ key x)).length < length := by
          rw [← hlength]
          exact Nat.lt_succ_of_le (List.length_filter_le ..)
        rw [List.filter_cons_of_pos (by simpa using hx), List.filter_nil, ih _ hshorter _ rfl]
        simp only [hmem]
        split <;> rfl

theorem mem_map_firstsBy {l : List α} {k : κ} : k ∈ (firstsBy key l).map key ↔ k ∈ l.map key := by
  induction l using List.reverseRecOn with
  | nil => rfl
  | append_singleton l a ih =>
    rw [firstsBy_concat, List.map_append, List.mem_append]
    split
    · next hold =>
      rw [ih, List.map_singleton, List.mem_singleton]
      exact ⟨.inl, fun h => h.elim id fun heq => heq ▸ hold⟩
    · rw [List.map_append, List.mem_append, ih]

theorem nodup_map_firstsBy (l : List α) : ((firstsBy key l).map key).Nodup := by
  induction l using List.reverseRecOn with
  | nil => exact List.nodup_nil
  | append_singleton l a ih =>
    rw [firstsBy_concat]
    split
    · exact ih
    · next hnew =>
      rw [List.map_append, List.map_singleton, ← List.concat_eq_append]
      exact ih.concat (mt mem_map_firstsBy.mp hnew)

end FirstOccurrences

namespace Builder

variable {b : Builder}

/-! ### Declarations by category -/

inductive Category where
  | constant
  | input
  | output
  | set
  deriving DecidableEq

inductive Declaration where
  | constant (c : Constant)
  | input (name : Text)
  | output (name : Text)
  | set (s : SetDeclaration)

namespace Declaration

def category : Declaration → Category
  | constant _ => .constant
  | input _ => .input
  | output _ => .output
  | set _ => .set

def name : Declaration → Text
  | constant c => c.name
  | input name => name
  | output name => name
  | set s => s.name

end Declaration

structure Bound where
  limit : Nat
  error : Text → BuildError

namespace Category

def bound? : Category → Option Bound
  | constant => some ⟨256, .tooManyConstants⟩
  | input => some ⟨64, .tooManyInputs⟩
  | output => some ⟨64, .tooManyOutputs⟩
  | set => none

def cut (k : Category) (l : List Declaration) : List Declaration :=
  k.bound?.elim l fun bound => l.take bound.limit

def answer : Category → Nat → Answer
  | constant, i => .operand (.constant i)
  | input, i => .operand (.input i)
  | output, i => .operand (.output i)
  | set, i => .set i

end Category

def Call.declaration? : Call → Option Declaration
  | .constant name value => some (.constant ⟨name, value⟩)
  | .input name => some (.input name)
  | .output name => some (.output name)
  | .dataSet name vars => some (.set ⟨name, vars⟩)
  | _ => none

def declared (p : Program) : Category → List Declaration
  | .constant => p.constants.map .constant
  | .input => p.inputs.map .input
  | .output => p.outputs.map .output
  | .set => p.sets.map .set

def place? (l : List Declaration) (name : Text) : Option Nat :=
  l.findIdx? (·.name = name)

def firstDeclared (k : Category) (calls : List Call) : List Declaration :=
  firstsBy Declaration.name ((calls.filterMap Call.declaration?).filter (·.category = k))

theorem place_eq_none_iff {l : List Declaration} {name : Text} :
    place? l name = none ↔ name ∉ l.map Declaration.name := by
  simp [place?, List.findIdx?_eq_none_iff]

theorem place_append_of_some {l l' : List Declaration} {name : Text} {i : Nat}
    (h : place? l name = some i) : place? (l ++ l') name = some i := by
  unfold place? at h ⊢
  rw [List.findIdx?_append, h, Option.some_or]

theorem place_concat {l : List Declaration} {d : Declaration} (h : place? l d.name = none) :
    place? (l ++ [d]) d.name = some l.length := by
  unfold place? at h ⊢
  rw [List.findIdx?_append, h]
  simp [List.findIdx?_cons]

/-- What a call does that declares a name: it finds the name, or there are too many, or the name
comes after all the others. -/
inductive Declares (b : Builder) (d : Declaration) : Answer × Builder → Prop where
  | found {i : Nat} (h : place? (declared b.draft d.category) d.name = some i) :
    Declares b d (d.category.answer i, b)
  | full {bound : Bound} (hbound : d.category.bound? = some bound)
    (h : place? (declared b.draft d.category) d.name = none)
    (hlimit : bound.limit ≤ (declared b.draft d.category).length) :
    Declares b d (d.category.answer 0, b.fail (bound.error d.name))
  | fresh {p : Program} (h : place? (declared b.draft d.category) d.name = none)
    (hlimit : ∀ bound ∈ d.category.bound?, (declared b.draft d.category).length < bound.limit)
    (hdeclared : ∀ k, declared p k = declared b.draft k ++ if d.category = k then [d] else [])
    (hcode : p.code = b.draft.code) :
    Declares b d (d.category.answer (declared b.draft d.category).length, { b with draft := p })

section Search

variable {α : Type} {l : List α} {f : α → Declaration} {q : α → Bool} {d : Declaration}
variable {p : Program}

-- The four kinds of declarations search their lists in the same way.
theorem declares_of_search {r : Answer × Builder}
    (hlist : declared b.draft d.category = l.map f)
    (hq : ∀ a, q a = decide ((f a).name = d.name))
    (hdeclared : ∀ k, declared p k = declared b.draft k ++ if d.category = k then [d] else [])
    (hcode : p.code = b.draft.code)
    (hfound : ∀ i, l.findIdx? q = some i → r = (d.category.answer i, b))
    (hfull : l.findIdx? q = none → ∀ bound, d.category.bound? = some bound →
      bound.limit ≤ l.length → r = (d.category.answer 0, b.fail (bound.error d.name)))
    (hfresh : l.findIdx? q = none → (∀ bound ∈ d.category.bound?, l.length < bound.limit) →
      r = (d.category.answer l.length, { b with draft := p })) : Declares b d r := by
  have hplace : place? (declared b.draft d.category) d.name = l.findIdx? q := by
    rw [hlist, place?, List.findIdx?_map, show q = _ from funext hq]
    rfl
  have hlength : (declared b.draft d.category).length = l.length := by
    rw [hlist, List.length_map]
  rcases hcase : l.findIdx? q with _ | i
  · by_cases hlimit : ∃ bound, d.category.bound? = some bound ∧ bound.limit ≤ l.length
    · obtain ⟨bound, hbound, hle⟩ := hlimit
      rw [hfull hcase bound hbound hle]
      exact .full hbound (hplace.trans hcase) (hlength ▸ hle)
    · have hroom : ∀ bound ∈ d.category.bound?, l.length < bound.limit := fun bound hbound =>
        Nat.not_le.mp fun hle => hlimit ⟨bound, hbound, hle⟩
      rw [hfresh hcase hroom, ← hlength]
      exact .fresh (hplace.trans hcase) (hlength ▸ hroom) hdeclared hcode
  · rw [hfound i hcase]
    exact .found (hplace.trans hcase)

theorem declares_operand {bound : Bound} {operand : Nat → Operand} {r : Operand × Builder}
    (hbound : d.category.bound? = some bound)
    (hanswer : ∀ i, d.category.answer i = .operand (operand i))
    (hlist : declared b.draft d.category = l.map f)
    (hq : ∀ a, q a = decide ((f a).name = d.name))
    (hr : r = (l.findIdx? q).elim
      (if bound.limit ≤ l.length then (operand 0, b.fail (bound.error d.name))
        else (operand l.length, { b with draft := p })) fun i => (operand i, b))
    (hdeclared : ∀ k, declared p k = declared b.draft k ++ if d.category = k then [d] else [])
    (hcode : p.code = b.draft.code) :
    Declares b d (.operand r.1, r.2) := by
  refine declares_of_search hlist hq hdeclared hcode (fun i h => ?_)
    (fun h bound' hbound' hle => ?_) fun h hroom => ?_
  · rw [hr, h, hanswer]
    rfl
  · obtain rfl := Option.some.inj (hbound.symm.trans hbound')
    rw [hr, h, Option.elim_none, if_pos hle, hanswer]
  · rw [hr, h, Option.elim_none, if_neg (Nat.not_le.mpr (hroom bound hbound)), hanswer]

end Search

theorem call_declares {c : Call} {d : Declaration} (hc : c.declaration? = some d) :
    Declares b d (b.call c) := by
  cases c with
  | constant name value =>
    obtain rfl := Option.some.inj hc
    refine declares_operand (l := b.draft.constants) (f := .constant) rfl (fun _ => rfl) rfl
      (fun _ => rfl) (b.constant_eq name value) (fun k => ?_) rfl
    cases k <;> simp [declared, Declaration.category]
  | input name =>
    obtain rfl := Option.some.inj hc
    refine declares_operand (l := b.draft.inputs) (f := .input) rfl (fun _ => rfl) rfl
      (fun _ => rfl) (b.input_eq name) (fun k => ?_) rfl
    cases k <;> simp [declared, Declaration.category]
  | output name =>
    obtain rfl := Option.some.inj hc
    refine declares_operand (l := b.draft.outputs) (f := .output) rfl (fun _ => rfl) rfl
      (fun _ => rfl) (b.output_eq name) (fun k => ?_) rfl
    cases k <;> simp [declared, Declaration.category]
  | dataSet name vars =>
    obtain rfl := Option.some.inj hc
    refine declares_of_search (l := b.draft.sets) (f := .set) (q := (·.name = name))
      (p := { b.draft with sets := b.draft.sets ++ [⟨name, vars⟩] }) rfl (fun _ => rfl)
      (fun k => ?_) rfl (fun i h => ?_) (fun h bound hbound hle => ?_) fun h hroom => ?_
    · cases k <;> simp [declared, Declaration.category]
    · simp only [call, dataSet, h, Declaration.category, Category.answer]
    · cases hbound
    · simp only [call, dataSet, h, Declaration.category, Category.answer]
  | emit | cursor | read | write | indexValid | done => cases hc

/-! ### Requests and failures -/

def Request.instruction (r : Request) : Except InstructionError Instruction :=
  Instruction.make r.op r.set r.var r.dst r.srcs

inductive Refused (r : Request) : InstructionError → Prop where
  | sources (h : r.srcs.length ≠ r.op.arity) : Refused r (.sourceCount r.op r.srcs.length)
  | index (hsources : r.srcs.length = r.op.arity)
    (h : ¬ ((0 ≤ r.set ∧ r.set ≤ 255) ∧ 0 ≤ r.var ∧ r.var ≤ 255)) : Refused r (.setOrVariable r.op)
  | destination (hsources : r.srcs.length = r.op.arity)
    (hindex : (0 ≤ r.set ∧ r.set ≤ 255) ∧ 0 ≤ r.var ∧ r.var ≤ 255)
    (h : r.op.hasDestination = true) (hkind : r.dst.kind = .constant) :
    Refused r (.constantDestination r.op)

inductive Fails (p : Program) : Call → BuildError → Prop where
  | limit {c : Call} {d : Declaration} {bound : Bound} (hc : c.declaration? = some d)
    (hbound : d.category.bound? = some bound)
    (hnew : d.name ∉ (declared p d.category).map Declaration.name)
    (hlimit : bound.limit ≤ (declared p d.category).length) : Fails p c (bound.error d.name)
  | notKernel {op : Opcode} {dst : Operand} {srcs : List Operand} (h : op.layout ≠ .kernel) :
    Fails p (.emit op dst srcs) (.notKernel op)
  | notCursor {op : Opcode} {set : Int} {cond dst : Operand} (h : op.layout ≠ .cursor) :
    Fails p (.cursor op set cond dst) (.notCursor op)
  | instruction {c : Call} {r : Request} {e : InstructionError} (hc : c.request? = some r)
    (hfitting : c.Fitting) (h : Refused r e) : Fails p c (.instruction e)

theorem refused_iff {r : Request} {e : InstructionError} :
    r.instruction = .error e ↔ Refused r e := by
  have hindex : (!Instruction.isIndexByte r.set || !Instruction.isIndexByte r.var) = true ↔
      ¬ ((0 ≤ r.set ∧ r.set ≤ 255) ∧ 0 ≤ r.var ∧ r.var ≤ 255) := by
    simp only [Instruction.isIndexByte, Bool.or_eq_true, Bool.not_eq_true', Bool.and_eq_false_iff,
      decide_eq_false_iff_not]
    omega
  constructor
  · intro h
    unfold Request.instruction Instruction.make at h
    split_ifs at h with hsources hbytes hdst
    · exact Except.error.inj h ▸ .sources hsources
    · exact Except.error.inj h ▸ .index (Classical.not_not.mp hsources) (hindex.mp hbytes)
    · rw [Bool.and_eq_true, decide_eq_true_eq] at hdst
      exact Except.error.inj h ▸ .destination (Classical.not_not.mp hsources)
        (Classical.not_not.mp (mt hindex.mpr hbytes)) hdst.1 hdst.2
  · intro h
    unfold Request.instruction Instruction.make
    cases h with
    | sources h => rw [if_pos h]
    | index hsources h => rw [if_neg (not_not_intro hsources), if_pos (hindex.mpr h)]
    | destination hsources hbytes h hkind =>
      rw [if_neg (not_not_intro hsources), if_neg (mt hindex.mp (not_not_intro hbytes)), if_pos]
      rw [h, hkind]
      rfl

theorem declaration_or_request (c : Call) :
    (∃ d, c.declaration? = some d ∧ c.request? = none) ∨
      ∃ r, c.request? = some r ∧ c.declaration? = none := by
  cases c with
  | constant | input | output | dataSet => exact .inl ⟨_, rfl, rfl⟩
  | _ => exact .inr ⟨_, rfl, rfl⟩

/-- What a call does that asks for an instruction: the opcode is not one for the call, or something
failed before, or the instruction is refused, or it is appended. -/
inductive Requests (b : Builder) (c : Call) (r : Request) : Builder → Prop where
  | unfitting {e : BuildError} (hfitting : ¬ c.Fitting) (h : Fails b.draft c e) :
    Requests b c r (b.fail e)
  | closed (hfitting : c.Fitting) (h : b.error ≠ none) : Requests b c r b
  | refused {e : InstructionError} (hfitting : c.Fitting) (h : Refused r e) :
    Requests b c r (b.fail (.instruction e))
  | made {ins : Instruction} (hfitting : c.Fitting) (hopen : b.error = none)
    (h : r.instruction = .ok ins) :
    Requests b c r
      { b with draft := { b.draft with code := some (b.draft.bytes ++ ins.encode) } }

theorem requests_append {c : Call} (r : Request) (hfitting : c.Fitting) :
    Requests b c r (b.append r.op r.set r.var r.dst r.srcs) := by
  unfold append
  split
  · next hsome => exact .closed hfitting (Option.isSome_iff_ne_none.mp hsome)
  · next hnone =>
    split
    · next hmake => exact .refused hfitting (refused_iff.mp hmake)
    · next hmake => exact .made hfitting (by simpa using hnone) hmake

theorem call_requests {c : Call} {r : Request} (hc : c.request? = some r) :
    Requests b c r (b.call c).2 := by
  cases c with
  | constant | input | output | dataSet => cases hc
  | emit op dst srcs =>
    obtain rfl := Option.some.inj hc
    by_cases hlayout : op.layout = .kernel
    · rw [call, emit, if_pos hlayout]
      exact requests_append _ hlayout
    · rw [call, emit, if_neg hlayout]
      exact .unfitting hlayout (.notKernel hlayout)
  | cursor op set cond dst =>
    obtain rfl := Option.some.inj hc
    by_cases hlayout : op.layout = .cursor
    · rw [call, cursor, if_pos hlayout]
      exact requests_append _ hlayout
    · rw [call, cursor, if_neg hlayout]
      exact .unfitting hlayout (.notCursor hlayout)
  | read | write | indexValid | done =>
    obtain rfl := Option.some.inj hc
    exact requests_append _ trivial

theorem call_error_iff (hopen : b.error = none) {c : Call} {e : BuildError} :
    (b.call c).2.error = some e ↔ Fails b.draft c e := by
  have hfail : ∀ e', (b.fail e').error = some e' := fun e' => by rw [fail, hopen]; rfl
  constructor
  · intro he
    rcases declaration_or_request c with ⟨d, hd, -⟩ | ⟨r, hr, -⟩
    · generalize hcall : b.call c = result at he
      obtain - | ⟨hbound, hplace, hlimit⟩ | - := hcall ▸ call_declares hd
      · cases hopen.symm.trans he
      · obtain rfl := Option.some.inj ((hfail _).symm.trans he)
        exact .limit hd hbound (place_eq_none_iff.mp hplace) hlimit
      · cases hopen.symm.trans he
    · generalize hcall : (b.call c).2 = after at he
      obtain ⟨-, h⟩ | ⟨-, h⟩ | ⟨hfitting, h⟩ | ⟨-, -, -⟩ := hcall ▸ call_requests hr
      · obtain rfl := Option.some.inj ((hfail _).symm.trans he)
        exact h
      · exact absurd hopen h
      · obtain rfl := Option.some.inj ((hfail _).symm.trans he)
        exact .instruction hr hfitting h
      · cases hopen.symm.trans he
  · intro h
    cases h with
    | @limit c d bound hd hbound hnew hlimit =>
      generalize hcall : b.call c = result
      obtain hplace | ⟨hbound', -, -⟩ | ⟨-, hroom, -, -⟩ := hcall ▸ call_declares hd
      · rw [place_eq_none_iff.mpr hnew] at hplace
        cases hplace
      · obtain rfl := Option.some.inj (hbound.symm.trans hbound')
        exact hfail _
      · exact absurd (hroom bound hbound) (Nat.not_lt.mpr hlimit)
    | notKernel h =>
      rw [call, emit, if_neg h]
      exact hfail _
    | notCursor h =>
      rw [call, cursor, if_neg h]
      exact hfail _
    | @instruction c r e hr hfitting h =>
      have hrefused := refused_iff.mpr h
      generalize hcall : (b.call c).2 = after
      obtain ⟨hunfitting, -⟩ | ⟨-, h'⟩ | ⟨-, h'⟩ | ⟨-, -, h'⟩ := hcall ▸ call_requests hr
      · exact absurd hfitting hunfitting
      · exact absurd hopen h'
      · obtain rfl := Except.error.inj (hrefused.symm.trans (refused_iff.mpr h'))
        exact hfail _
      · cases hrefused.symm.trans h'

theorem code_declaration {c : Call} {d : Declaration} (hc : c.declaration? = some d) :
    (b.call c).2.draft.code = b.draft.code := by
  generalize hcall : b.call c = result
  obtain - | - | ⟨-, -, -, hcode⟩ := hcall ▸ call_declares hc
  · rfl
  · rfl
  · exact hcode

theorem call_code_of_error {c : Call} (h : (b.call c).2.error ≠ none) :
    (b.call c).2.draft.code = b.draft.code := by
  rcases declaration_or_request c with ⟨d, hd, -⟩ | ⟨r, hr, -⟩
  · exact code_declaration hd
  · generalize hcall : (b.call c).2 = after at h
    obtain - | - | - | ⟨-, hopen, -⟩ := hcall ▸ call_requests hr
    · rfl
    · rfl
    · rfl
    · exact absurd hopen h

theorem after_of_error {e : BuildError} (h : b.error = some e) (calls : List Call) :
    (b.after calls).error = some e ∧ (b.after calls).draft.code = b.draft.code := by
  induction calls generalizing b with
  | nil => exact ⟨h, rfl⟩
  | cons c calls ih =>
    have hstep := call_error h c
    obtain ⟨herror, hcode⟩ := ih hstep
    exact ⟨herror, hcode.trans (call_code_of_error (by simp [hstep]))⟩

theorem declared_request {c : Call} {r : Request} (hc : c.request? = some r) (k : Category) :
    declared (b.call c).2.draft k = declared b.draft k := by
  generalize hcall : (b.call c).2 = after
  obtain - | - | - | - := hcall ▸ call_requests hc
  all_goals cases k <;> rfl

/-! ### Code -/

theorem code_after {calls : List Call} (h : (b.after calls).error = none) :
    ∃ instructions : List Instruction,
      List.Forall₂ (fun r ins => r.instruction = .ok ins) (calls.filterMap Call.request?)
        instructions ∧
      (b.after calls).draft.bytes = b.draft.bytes ++ instructions.flatMap Instruction.encode := by
  induction calls generalizing b with
  | nil => exact ⟨[], .nil, (List.append_nil _).symm⟩
  | cons c calls ih =>
    obtain ⟨instructions, hmade, hbytes⟩ := ih h
    have hstep : (b.call c).2.error = none := error_of_after h
    rcases declaration_or_request c with ⟨d, hd, hr⟩ | ⟨r, hr, -⟩
    · refine ⟨instructions, by rwa [List.filterMap_cons_none hr], hbytes.trans ?_⟩
      rw [Program.bytes, code_declaration hd, Program.bytes]
    · obtain ⟨-, ins, hins, hcall⟩ := call_emits hr hstep
      refine ⟨ins :: instructions, ?_, ?_⟩
      · rw [List.filterMap_cons_some hr]
        exact .cons hins hmade
      · rw [after, hbytes, hcall, List.flatMap_cons]
        simp [Program.bytes]

/-! ### Lists of declarations -/

section Cut

variable {k : Category} {l : List Declaration} {bound : Bound}

theorem Category.cut_prefix (k : Category) (l : List Declaration) : k.cut l <+: l := by
  unfold cut
  cases k.bound? with
  | none => exact List.prefix_rfl
  | some bound => exact List.take_prefix ..

theorem Category.length_cut_le (hbound : k.bound? = some bound) :
    (k.cut l).length ≤ bound.limit := by
  rw [cut, hbound]
  exact List.length_take_le ..

theorem Category.cut_concat_of_full (hbound : k.bound? = some bound)
    (h : bound.limit ≤ (k.cut l).length) (d : Declaration) : k.cut (l ++ [d]) = k.cut l := by
  have hlength : bound.limit ≤ l.length := h.trans (k.cut_prefix l).length_le
  rw [cut, cut, hbound]
  exact List.take_append_of_le_length hlength

theorem Category.cut_of_room
    (h : ∀ bound ∈ k.bound?, (k.cut l).length < bound.limit) (d : Declaration) :
    k.cut l = l ∧ k.cut (l ++ [d]) = l ++ [d] := by
  unfold cut at h ⊢
  cases hbound : k.bound? with
  | none => exact ⟨rfl, rfl⟩
  | some bound =>
    have hlt : l.length < bound.limit := by
      have := h bound hbound
      rw [hbound] at this
      simpa using this
    exact ⟨List.take_of_length_le hlt.le, List.take_of_length_le (by simpa using hlt)⟩

theorem Category.place_cut_concat {name : Text} (h : name ∈ l.map Declaration.name)
    (d : Declaration) : place? (k.cut (l ++ [d])) name = place? (k.cut l) name := by
  -- A name that was declared keeps its place, and stays without one if it was one too many.
  by_cases hfull : ∃ bound, k.bound? = some bound ∧ bound.limit ≤ (k.cut l).length
  · obtain ⟨bound, hbound, hle⟩ := hfull
    rw [cut_concat_of_full hbound hle]
  · have hroom : ∀ bound ∈ k.bound?, (k.cut l).length < bound.limit := fun bound hbound =>
      Nat.not_le.mp fun hle => hfull ⟨bound, hbound, hle⟩
    obtain ⟨hall, hmore⟩ := cut_of_room hroom d
    rw [hall, hmore]
    rcases hplace : place? l name with _ | i
    · exact absurd h (place_eq_none_iff.mp hplace)
    · exact place_append_of_some hplace

end Cut

theorem firstDeclared_silent {calls : List Call} {c : Call} (hc : c.declaration? = none)
    (k : Category) : firstDeclared k (calls ++ [c]) = firstDeclared k calls := by
  rw [firstDeclared, List.filterMap_append, List.filterMap_cons_none hc, List.filterMap_nil,
    List.append_nil, firstDeclared]

theorem firstDeclared_concat {calls : List Call} {c : Call} {d : Declaration}
    (hc : c.declaration? = some d) (k : Category) :
    firstDeclared k (calls ++ [c]) = firstDeclared k calls ++
      if d.category = k ∧ d.name ∉ (firstDeclared k calls).map Declaration.name then [d]
      else [] := by
  unfold firstDeclared
  rw [List.filterMap_append, List.filterMap_cons_some hc, List.filterMap_nil, List.filter_append]
  by_cases hk : d.category = k
  · rw [List.filter_cons_of_pos (by simpa using hk), List.filter_nil, firstsBy_concat]
    simp only [mem_map_firstsBy, hk, true_and, ite_not]
    split
    · rw [List.append_nil]
    · rfl
  · simp [hk]

theorem declared_after (name : Text) (calls : List Call) (k : Category) :
    declared ((new name).after calls).draft k = k.cut (firstDeclared k calls) := by
  induction calls using List.reverseRecOn with
  | nil => cases k <;> rfl
  | append_singleton calls c ih =>
    rw [after_append, after, after]
    rcases declaration_or_request c with ⟨d, hd, -⟩ | ⟨r, hr, hd⟩
    · rw [firstDeclared_concat hd]
      generalize hcall : ((new name).after calls).call c = result
      by_cases hk : d.category = k
      · subst hk
        obtain hplace | ⟨hbound, hplace, hlimit⟩ | ⟨hplace, hroom, hdeclared, -⟩ :=
          hcall ▸ call_declares hd
        · have hold : d.name ∈ (firstDeclared d.category calls).map Declaration.name := by
            by_contra hnew
            rw [ih, place_eq_none_iff.mpr fun hmem =>
              hnew (((d.category.cut_prefix _).map _).subset hmem)] at hplace
            cases hplace
          rw [if_neg fun h => h.2 hold, List.append_nil, ih]
        · rw [ih] at hlimit
          split
          · rw [Category.cut_concat_of_full hbound hlimit, ← ih]
            rfl
          · rw [List.append_nil, ← ih]
            rfl
        · rw [ih] at hroom hplace
          obtain ⟨hall, hmore⟩ := Category.cut_of_room hroom d
          rw [hall, place_eq_none_iff] at hplace
          rw [if_pos ⟨rfl, hplace⟩, hmore, hdeclared, ih, hall, if_pos rfl]
      · rw [if_neg fun h => hk h.1, List.append_nil, ← ih]
        obtain - | - | ⟨-, -, hdeclared, -⟩ := hcall ▸ call_declares hd
        · rfl
        · rfl
        · rw [hdeclared, if_neg hk, List.append_nil]
    · rw [firstDeclared_silent hd, declared_request hr, ih]

/-! ### Answers -/

theorem transcript_concat (b : Builder) (calls : List Call) (c : Call) :
    b.transcript (calls ++ [c]) = b.transcript calls ++ [(c, ((b.after calls).call c).1)] := by
  induction calls generalizing b with
  | nil => rfl
  | cons c' calls ih =>
    rw [List.cons_append, transcript, transcript, ih]
    rfl

theorem mem_of_mem_transcript {calls : List Call} {c : Call} {a : Answer}
    (h : (c, a) ∈ b.transcript calls) : c ∈ calls := by
  induction calls generalizing b with
  | nil => cases h
  | cons c' calls ih =>
    rcases List.mem_cons.mp h with heq | h
    · rw [(Prod.mk.inj heq).1]
      exact List.mem_cons_self ..
    · exact List.mem_cons_of_mem _ (ih h)

theorem name_mem_firstDeclared {calls : List Call} {c : Call} {d : Declaration} (hmem : c ∈ calls)
    (hc : c.declaration? = some d) :
    d.name ∈ (firstDeclared d.category calls).map Declaration.name := by
  refine mem_map_firstsBy.mpr (List.mem_map_of_mem ?_)
  exact List.mem_filter.mpr ⟨List.mem_filterMap.mpr ⟨c, hmem, hc⟩, by simp⟩

theorem call_answer {c : Call} {d : Declaration} (hc : c.declaration? = some d) :
    (b.call c).1 =
      d.category.answer ((place? (declared (b.call c).2.draft d.category) d.name).getD 0) := by
  generalize hcall : b.call c = result
  obtain hplace | ⟨-, hplace, -⟩ | ⟨hplace, -, hdeclared, -⟩ := hcall ▸ call_declares hc
  · rw [hplace]
    rfl
  · show _ = d.category.answer ((place? (declared b.draft d.category) d.name).getD 0)
    rw [hplace]
    rfl
  · rw [hdeclared, if_pos rfl, place_concat hplace]
    rfl

theorem transcript_answer (name : Text) {calls : List Call} {c : Call} {a : Answer}
    {d : Declaration} (h : (c, a) ∈ (new name).transcript calls) (hc : c.declaration? = some d) :
    a = d.category.answer
      ((place? (declared ((new name).after calls).draft d.category) d.name).getD 0) := by
  induction calls using List.reverseRecOn with
  | nil => cases h
  | append_singleton calls c' ih =>
    rw [transcript_concat, List.mem_append, List.mem_singleton] at h
    rcases h with h | h
    · rw [ih h, declared_after, declared_after]
      have hname := name_mem_firstDeclared (mem_of_mem_transcript h) hc
      rcases declaration_or_request c' with ⟨d', hd', -⟩ | ⟨-, -, hd'⟩
      · rw [firstDeclared_concat hd']
        split
        · rw [Category.place_cut_concat hname]
        · rw [List.append_nil]
      · rw [firstDeclared_silent hd']
    · obtain ⟨rfl, rfl⟩ := Prod.mk.inj h
      rw [after_append]
      exact call_answer hc

theorem register_injective {group : RegisterGroup} (hgroup : group ≠ .constant) {i j : Nat}
    (hi : i < 64) (hj : j < 64) (h : Operand.register group i = Operand.register group j) :
    i = j := by
  have hplace := splitRegister_register hgroup hi
  rw [h, splitRegister_register hgroup hj] at hplace
  exact (Prod.mk.inj (Option.some.inj hplace)).2.symm

theorem Category.answer_injective {k : Category} {i j : Nat}
    (hi : ∀ bound ∈ k.bound?, i < bound.limit) (hj : ∀ bound ∈ k.bound?, j < bound.limit)
    (h : k.answer i = k.answer j) : i = j := by
  cases k with
  | constant =>
    have hindex := congrArg Operand.index (Answer.operand.inj h)
    rw [← toNat_lowByte (hi _ rfl), ← toNat_lowByte (hj _ rfl)]
    exact congrArg UInt8.toNat hindex
  | input => exact register_injective (by decide) (hi _ rfl) (hj _ rfl) (Answer.operand.inj h)
  | output => exact register_injective (by decide) (hi _ rfl) (hj _ rfl) (Answer.operand.inj h)
  | set => exact Answer.set.inj h

theorem name_of_place {l : List Declaration} {name : Text} {i : Nat} (h : place? l name = some i) :
    (l.map Declaration.name)[i]? = some name := by
  obtain ⟨hlt, hname, -⟩ := List.findIdx?_eq_some_iff_getElem.mp h
  rw [List.getElem?_map, List.getElem?_eq_getElem hlt, Option.map_some, of_decide_eq_true hname]

theorem answers_differ {k : Category} {l : List Declaration} {first second : Text}
    (hlimit : ∀ bound ∈ k.bound?, l.length ≤ bound.limit) (hne : first ≠ second)
    (hfirst : first ∈ l.map Declaration.name) (hsecond : second ∈ l.map Declaration.name) :
    k.answer ((place? l first).getD 0) ≠ k.answer ((place? l second).getD 0) := by
  obtain ⟨i, hi⟩ := Option.ne_none_iff_exists'.mp (mt place_eq_none_iff.mp (not_not_intro hfirst))
  obtain ⟨j, hj⟩ := Option.ne_none_iff_exists'.mp (mt place_eq_none_iff.mp (not_not_intro hsecond))
  rw [hi, hj]
  intro h
  obtain rfl : i = j := Category.answer_injective
    (fun bound hbound => (findIdx_lt hi).trans_le (hlimit bound hbound))
    (fun bound hbound => (findIdx_lt hj).trans_le (hlimit bound hbound)) h
  exact hne (Option.some.inj ((name_of_place hi).symm.trans (name_of_place hj)))

/-! ### The books -/

theorem error_eq_none_iff (name : Text) (calls : List Call) :
    ((new name).after calls).error = none ↔ ∀ before c rest, calls = before ++ c :: rest →
      ∀ e, ¬ Fails ((new name).after before).draft c e := by
  constructor
  · rintro h before c rest rfl e hfails
    rw [after_append] at h
    have hbefore := error_of_after h
    have hstep : (((new name).after before).call c).2.error = none := error_of_after h
    rw [(call_error_iff hbefore).mpr hfails] at hstep
    cases hstep
  · intro h
    induction calls using List.reverseRecOn with
    | nil => rfl
    | append_singleton calls c ih =>
      have hopen := ih fun before c' rest heq => h before c' (rest ++ [c]) (by simp [heq])
      rw [after_append, after, after]
      by_contra herror
      obtain ⟨e, he⟩ := Option.ne_none_iff_exists'.mp herror
      exact h calls c [] rfl e ((call_error_iff hopen).mp he)

/-- What a builder and its answers are after some calls, by the calls alone. -/
structure Consistent (name : Text) (calls : List Call) (b : Builder) (t : Transcript) : Prop where
  /-- No name is listed twice. -/
  unique : ∀ k, ((declared b.draft k).map Declaration.name).Nodup
  /-- The lists are in the order of the first declarations, with the values given there. -/
  first : ∀ k, declared b.draft k = k.cut (firstDeclared k calls)
  /-- A name is answered by its place, as often as it is declared; zero stands for one too many. -/
  place : ∀ c a d, (c, a) ∈ t → c.declaration? = some d →
    a = d.category.answer ((place? (declared b.draft d.category) d.name).getD 0)
  /-- Different names of one category that are listed have different answers. -/
  distinct : ∀ c a d c' a' d', (c, a) ∈ t → (c', a') ∈ t → c.declaration? = some d →
    c'.declaration? = some d' → d.category = d'.category → d.name ≠ d'.name →
    d.name ∈ (declared b.draft d.category).map Declaration.name →
    d'.name ∈ (declared b.draft d'.category).map Declaration.name → a ≠ a'
  /-- There is an error as soon as a call has failed, and not before. -/
  sound : b.error = none ↔ ∀ before c rest, calls = before ++ c :: rest →
    ∀ e, ¬ Fails ((new name).after before).draft c e
  /-- Before that, the code is the instructions that were asked for, in order. -/
  code : b.error = none → ∃ instructions : List Instruction,
    List.Forall₂ (fun r ins => r.instruction = .ok ins) (calls.filterMap Call.request?)
      instructions ∧ b.draft.bytes = instructions.flatMap Instruction.encode
  /-- From then on the code and the error are those of the first failure. -/
  failed : ∀ before c rest e, calls = before ++ c :: rest →
    ((new name).after before).error = none → Fails ((new name).after before).draft c e →
    b.program = .error e ∧ b.draft.code = ((new name).after before).draft.code

/-- The books of a builder are consistent after any calls. -/
theorem books_consistent (name : Text) (calls : List Call) :
    Consistent name calls ((new name).after calls) ((new name).transcript calls) where
  unique k := by
    rw [declared_after]
    exact (nodup_map_firstsBy _).sublist ((k.cut_prefix _).sublist.map _)
  first := declared_after name calls
  place c a d h hc := transcript_answer name h hc
  distinct c a d c' a' d' h h' hc hc' hk hne hlisted hlisted' := by
    rw [transcript_answer name h hc, transcript_answer name h' hc', ← hk]
    refine answers_differ (fun bound hbound => ?_) hne hlisted (hk ▸ hlisted')
    rw [declared_after]
    exact Category.length_cut_le hbound
  sound := error_eq_none_iff name calls
  code h := code_after h
  failed := by
    rintro before c rest e rfl hopen hfails
    have herror := (call_error_iff hopen).mpr hfails
    obtain ⟨hkept, hcode⟩ := after_of_error herror rest
    rw [after_append, after, program, hkept]
    exact ⟨rfl, hcode.trans (call_code_of_error (by simp [herror]))⟩

end Builder
end Quadlane
