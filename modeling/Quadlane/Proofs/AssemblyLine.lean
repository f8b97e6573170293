import Quadlane.Assembly.Parse
import Quadlane.Proofs.Ascii
import Quadlane.Proofs.Encoding

/-! A line that shows an instruction is read as that instruction, but for mask bits of no source. The
names of the operands are read back one by one; on the line each name but the last has a comma, and
the commas are where the line is cut again. -/

namespace Quadlane

/-! ### Operands by their names -/

theorem Operand.lowByte_toNat (b : UInt8) : Operand.lowByte (b.toNat : Int) = b := by
  have hlt := b.toNat_lt
  have hmod : ((b.toNat : Int) % 256).toNat = b.toNat := by omega
  rw [lowByte, hmod]
  exact UInt8.ofNat_toNat

namespace Assembly

open Text

theorem parseNumber_decimal (letter : UInt8) {n limit : Nat} (h : n < limit) :
    parseNumber (letter :: decimal n) limit = .ok n := by
  simp only [parseNumber, List.drop_succ_cons, List.drop_zero, isDecimal_decimal, toNat_decimal,
    Bool.not_true, Bool.false_eq_true, if_false, Nat.not_le.mpr h]

theorem parseRegister_group {group : RegisterGroup} (hgroup : group ≠ .constant) {i : Nat}
    (hi : i < 64) :
    parseRegister (byte group.letter :: decimal i) = .ok (Operand.register group i) := by
  have hnumber := fun letter => parseNumber_decimal letter hi
  unfold parseRegister
  dsimp only
  cases group with
  | constant => exact absurd rfl hgroup
  | temporary =>
    rw [if_pos (by decide), Limit.temporaries, hnumber]
    rfl
  | input =>
    rw [if_neg (by decide), if_pos (by decide), Limit.inputs, hnumber]
    rfl
  | output =>
    rw [if_neg (by decide), if_neg (by decide), if_pos (by decide), Limit.outputs, hnumber]
    rfl

theorem register_of_splitRegister {b : UInt8} {group : RegisterGroup} {i : Nat}
    (h : splitRegister b = some (group, i)) :
    group ≠ .constant ∧ i < 64 ∧ Operand.register group i = ⟨.register, b⟩ := by
  have hplace : ∀ {group : RegisterGroup} {i : Nat}, group.first + i = b.toNat →
      Operand.register group i = ⟨.register, b⟩ := by
    intro group i hplace
    rw [Operand.register, registerPlace, ← Int.natCast_add, hplace, Operand.lowByte_toNat]
  unfold splitRegister at h
  simp only [UInt8.lt_iff_toNat_lt] at h
  split at h
  · next hlt =>
    obtain ⟨rfl, rfl⟩ := Prod.mk.inj (Option.some.inj h)
    exact ⟨by decide, hlt, hplace (Nat.zero_add _)⟩
  · next hge =>
    have hge : 64 ≤ b.toNat := Nat.not_lt.mp hge
    split at h
    · next hlt =>
      obtain ⟨rfl, rfl⟩ := Prod.mk.inj (Option.some.inj h)
      have hlt : b.toNat < 128 := hlt
      exact ⟨by decide, by omega, hplace (Nat.add_sub_cancel' hge)⟩
    · next hge =>
      have hge : 128 ≤ b.toNat := Nat.not_lt.mp hge
      split at h
      · next hlt =>
        obtain ⟨rfl, rfl⟩ := Prod.mk.inj (Option.some.inj h)
        have hlt : b.toNat < 192 := hlt
        exact ⟨by decide, by omega, hplace (Nat.add_sub_cancel' hge)⟩
      · simp at h

theorem parseRegister_registerName (b : UInt8) :
    parseRegister (registerName b) = .ok ⟨.register, b⟩ := by
  unfold registerName
  split
  · next group i hsplit =>
    obtain ⟨hgroup, hi, hregister⟩ := register_of_splitRegister hsplit
    rw [parseRegister_group hgroup hi, hregister]
  · unfold parseRegister
    dsimp only
    rw [if_neg (by decide), if_neg (by decide), if_neg (by decide), if_pos (by decide),
      parseNumber_decimal _ b.toNat_lt]
    show Except.ok (Operand.raw b.toNat) = _
    rw [Operand.raw, Operand.lowByte_toNat]

theorem parseSource_registerName (b : UInt8) :
    parseSource (registerName b) = .ok ⟨.register, b⟩ := by
  have hregister := parseRegister_registerName b
  obtain ⟨letter, digits, hname, hletter⟩ : ∃ letter digits, registerName b = letter :: digits ∧
      lowerByte letter ≠ byte 'c' := by
    unfold registerName
    split
    · next group i hsplit =>
      refine ⟨_, _, rfl, ?_⟩
      have hgroup := (register_of_splitRegister hsplit).1
      cases group <;> first | exact absurd rfl hgroup | decide
    · exact ⟨_, _, rfl, by decide⟩
  rw [hname] at hregister ⊢
  rw [parseSource, if_neg hletter, hregister]

theorem parseSource_name (o : Operand) : parseSource o.name = .ok o := by
  obtain ⟨kind, b⟩ := o
  cases kind with
  | register => exact parseSource_registerName b
  | constant =>
    rw [Operand.name, Operand.nameOf, parseSource, if_pos (by decide), Limit.constants,
      parseNumber_decimal _ b.toNat_lt]
    show Except.ok (Operand.constant b.toNat) = _
    rw [Operand.constant, Operand.lowByte_toNat]

theorem parseDestination_registerName (b : UInt8) :
    parseDestination (registerName b) = .ok ⟨.register, b⟩ := by
  simp [parseDestination, parseSource_registerName]

theorem parseIndexed_decimal (letter : Char) (hletter : byte letter ||| 0x20 = byte letter)
    (b : UInt8) : parseIndexed (byte letter :: decimal b.toNat) letter = .ok b.toNat := by
  rw [parseIndexed, if_pos hletter, parseNumber_decimal _ b.toNat_lt]

theorem parseSources_names (operands : List Operand) :
    parseSources (operands.map Operand.name) = .ok operands := by
  induction operands with
  | nil => rfl
  | cons o operands ih => simp [parseSources, parseSource_name, ih, Except.map]

end Assembly

/-! ### Instructions by the names of their operands -/

namespace Instruction

variable {ins : Instruction}

def operands (ins : Instruction) : List Operand :=
  ins.sources.zipIdx.map fun (b, i) => ⟨sourceKind ins.mask i, b⟩

theorem operands_index (ins : Instruction) : ins.operands.map (·.index) = ins.sources := by
  rw [operands, List.map_map]
  exact List.zipIdx_map_fst 0 ins.sources

theorem operands_kind (ins : Instruction) :
    ins.operands.map (·.kind) = (List.range' 0 ins.sources.length).map (sourceKind ins.mask) := by
  rw [operands, List.map_map, ← List.zipIdx_map_snd, List.map_map]
  rfl

theorem length_operands (ins : Instruction) : ins.operands.length = ins.sources.length := by
  rw [operands, List.length_map, List.length_zipIdx]

def headNames (ins : Instruction) : List Text :=
  (if ins.op.layout.hasDestination then [registerName ins.destination] else []) ++
  (if ins.op.layout.hasSet then [Text.byte 's' :: Text.decimal ins.set.toNat] else []) ++
  if ins.op.layout.hasVariable then [Text.byte 'v' :: Text.decimal ins.var.toNat] else []

theorem operandNames_eq (ins : Instruction) :
    ins.operandNames = ins.headNames ++ ins.operands.map Operand.name := by
  rw [operands, List.map_map]
  rfl

theorem length_headNames (ins : Instruction) :
    ins.headNames.length = Assembly.headCount ins.op.layout := by
  unfold headNames Assembly.headCount
  cases ins.op.layout <;> rfl

theorem Complete.parseHead (h : ins.Complete) (rest : List Text) :
    Assembly.parseHead ins.op.layout (ins.headNames ++ rest) =
      .ok { destination := if ins.op.hasDestination then ⟨.register, ins.destination⟩ else default
            set := ins.set.toNat
            var := ins.var.toNat } := by
  have hset := h.set
  have hvar := h.var
  unfold headNames Opcode.hasDestination
  cases hlayout : ins.op.layout <;> rw [hlayout] at hset hvar <;>
    simp only [Layout.hasDestination, Layout.hasSet, Layout.hasVariable, forall_const,
      Bool.true_eq_false, false_implies] at hset hvar ⊢ <;>
    simp [Assembly.parseHead, Assembly.parseDestination_registerName, *,
      Assembly.parseIndexed_decimal 's' (by decide),
      Assembly.parseIndexed_decimal 'v' (by decide), bind, Except.bind, pure,
      Except.pure]

theorem isIndexByte_toNat (b : UInt8) : isIndexByte (b.toNat : Int) = true := by
  have hlt : b.toNat < 256 := b.toNat_lt
  simp only [isIndexByte, Bool.and_eq_true, decide_eq_true_eq]
  omega

/-- The names of the operands of an instruction are read as that instruction. -/
theorem Complete.parseInstruction (h : ins.Complete) :
    Assembly.parseInstruction ins.op ins.operandNames = .ok ins.clearMask := by
  have hlength : ins.operands.length = ins.op.arity := ins.length_operands.trans h.sources
  have hmake : make ins.op ins.set.toNat ins.var.toNat
      (if ins.op.hasDestination then ⟨.register, ins.destination⟩ else default) ins.operands =
        .ok ins.clearMask := by
    have hkind : (ins.op.hasDestination &&
        decide ((if ins.op.hasDestination then (⟨.register, ins.destination⟩ : Operand)
          else default).kind = .constant)) = false := by
      cases ins.op.hasDestination <;> rfl
    have hdestination : (if ins.op.hasDestination then
        (if ins.op.hasDestination then (⟨.register, ins.destination⟩ : Operand)
          else default).index else 0) = ins.destination := by
      cases hdst : ins.op.hasDestination with
      | true => rfl
      | false => exact (h.destination hdst).symm
    rw [make, if_neg fun hne => hne hlength, isIndexByte_toNat, isIndexByte_toNat, hkind,
      hdestination, operands_index, operands_kind, h.sources,
      sourceMask_sourceKind _ ins.op.arity_le_four]
    simp [Instruction.clearMask]
  have hnames : ins.operandNames.length = Assembly.headCount ins.op.layout + ins.op.arity := by
    rw [operandNames_eq, List.length_append, List.length_map, length_headNames, hlength]
  unfold Assembly.parseInstruction
  simp only [hnames, ne_eq, not_true_eq_false, if_false]
  rw [operandNames_eq, h.parseHead, ← length_headNames, List.drop_left,
    Assembly.parseSources_names]
  simp only [hmake]

end Instruction

/-! ### Words of a line -/

namespace Assembly

open Text

structure IsName (t : Text) : Prop extends IsWord t where
  noComma : 44 ∉ t
  short : t.length ≤ 4

theorem isName_decimal {letter : UInt8} (hletter : isPlain letter = true ∧ letter ≠ 44) {n : Nat}
    (hn : n < 256) : IsName (letter :: decimal n) := by
  have hdigits : ∀ b ∈ decimal n, isDigit b = true := fun b => isDigit_of_mem_decimal
  refine ⟨⟨List.cons_ne_nil _ _, ?_⟩, ?_, ?_⟩
  · intro b hb
    rcases List.mem_cons.mp hb with rfl | hb
    · exact hletter.1
    · exact isPlain_of_isDigit (hdigits b hb)
  · intro hcomma
    rcases List.mem_cons.mp hcomma with hletter' | hcomma
    · exact hletter.2 hletter'.symm
    · exact absurd (hdigits 44 hcomma) (by decide)
  · have := length_decimal_le (n := n) (k := 3) (by decide) (by omega)
    rw [List.length_cons]
    omega

theorem isName_registerName (b : UInt8) : IsName (registerName b) := by
  unfold registerName
  split
  · next group i hsplit =>
    have hi := (register_of_splitRegister hsplit).2.1
    exact isName_decimal (by cases group <;> decide) (by omega)
  · exact isName_decimal (by decide) b.toNat_lt

theorem isName_name (o : Operand) : IsName o.name := by
  obtain ⟨kind, b⟩ := o
  cases kind with
  | register => exact isName_registerName b
  | constant => exact isName_decimal (by decide) b.toNat_lt

theorem isName_of_mem_operandNames (ins : Instruction) :
    ∀ t ∈ ins.operandNames, IsName t := by
  intro t ht
  rw [Instruction.operandNames_eq] at ht
  rcases List.mem_append.mp ht with ht | ht
  · unfold Instruction.headNames at ht
    simp only [List.mem_append] at ht
    rcases ht with (ht | ht) | ht
    · split at ht
      · rw [List.mem_singleton.mp ht]
        exact isName_registerName _
      · simp at ht
    · split at ht
      · rw [List.mem_singleton.mp ht]
        exact isName_decimal (by decide) ins.set.toNat_lt
      · simp at ht
    · split at ht
      · rw [List.mem_singleton.mp ht]
        exact isName_decimal (by decide) ins.var.toNat_lt
      · simp at ht
  · obtain ⟨o, -, rfl⟩ := List.mem_map.mp ht
    exact isName_name o

/-- Names as the words of a line: each but the last has a comma. -/
def commas : List Text → List Text
  | [] => []
  | [name] => [name]
  | name :: next :: names => (name ++ [44]) :: commas (next :: names)

theorem length_commas (names : List Text) : (commas names).length = names.length := by
  fun_induction commas names with
  | case1 => rfl
  | case2 => rfl
  | case3 name next names ih => rw [List.length_cons, List.length_cons, ih]

theorem commas_words {names : List Text} (h : ∀ t ∈ names, IsName t) :
    ∀ w ∈ commas names, IsWord w ∧ w.length ≤ 5 := by
  fun_induction commas names with
  | case1 => exact fun _ hw => absurd hw List.not_mem_nil
  | case2 name =>
    intro w hw
    obtain rfl := List.mem_singleton.mp hw
    have hname := h w (List.mem_cons_self ..)
    exact ⟨hname.toIsWord, Nat.le_succ_of_le hname.short⟩
  | case3 name next names ih =>
    intro w hw
    rcases List.mem_cons.mp hw with rfl | hw
    · have hname := h name (List.mem_cons_self ..)
      refine ⟨⟨by simp, ?_⟩, ?_⟩
      · intro b hb
        rcases List.mem_append.mp hb with hb | hb
        · exact hname.plain b hb
        · rw [List.mem_singleton.mp hb]
          decide
      · have := hname.short
        rw [List.length_append, List.length_singleton]
        omega
    · exact ih (fun t ht => h t (List.mem_cons_of_mem _ ht)) w hw

theorem commas_ne_nil (name : Text) (names : List Text) :
    ∃ word words, commas (name :: names) = word :: words := by
  cases names with
  | nil => exact ⟨_, _, rfl⟩
  | cons next names => exact ⟨_, _, rfl⟩

theorem words_commas (names : List Text) : words (commas names) = joinWith [44, 32] names := by
  fun_induction commas names with
  | case1 => rfl
  | case2 name => rw [words, joinWith_singleton, joinWith_singleton]
  | case3 name next names ih =>
    obtain ⟨word, rest, hcommas⟩ := commas_ne_nil next names
    rw [joinWith_cons, ← ih, hcommas, words_cons]
    simp

theorem splitOn_commas {name : Text} {names : List Text} (h : ∀ t ∈ name :: names, IsName t) :
    splitOn 44 (joinWith [44, 32] (name :: names)) = name :: names.map (32 :: ·) := by
  induction names generalizing name with
  | nil => rw [joinWith_singleton, splitOn_of_notMem (h name (List.mem_cons_self ..)).noComma]; rfl
  | cons next names ih =>
    have hrest := ih fun t ht => h t (List.mem_cons_of_mem _ ht)
    rw [joinWith_cons, List.cons_append, splitOn_append (h name (List.mem_cons_self ..)).noComma,
      List.singleton_append, splitOn, if_neg (by decide), hrest]
    rfl

theorem operandTexts_commas {names : List Text} (h : ∀ t ∈ names, IsName t) :
    operandTexts (commas names) = names := by
  cases names with
  | nil => rfl
  | cons name names =>
    obtain ⟨word, rest, hcommas⟩ := commas_ne_nil name names
    have hnot : (commas (name :: names)).isEmpty = false := by
      rw [hcommas]
      rfl
    have htrim : ∀ t ∈ names, trim (32 :: t) = t := by
      intro t ht
      have hname := h t (List.mem_cons_of_mem _ ht)
      rw [trim_blank hname.ascii, trim_word hname.toIsWord]
    rw [operandTexts, hnot, words_commas]
    show (splitOn 44 _).map trim = _
    rw [splitOn_commas h, List.map_cons, List.map_map,
      trim_word (h name (List.mem_cons_self ..)).toIsWord]
    exact congrArg (name :: ·) ((List.map_congr_left htrim).trans (List.map_id _))

end Assembly

namespace Opcode

open Text

theorem mnemonic_isWord (op : Opcode) : IsWord op.mnemonic ∧ op.mnemonic.length ≤ 20 := by
  have hall : all.all (fun op => !op.mnemonic.isEmpty && op.mnemonic.all isPlain &&
      op.mnemonic.length.ble 20) = true := by
    decide +kernel
  have hop := List.all_eq_true.mp hall op op.mem_all
  rw [Bool.and_eq_true, Bool.and_eq_true] at hop
  obtain ⟨⟨hne, hplain⟩, hlength⟩ := hop
  exact ⟨⟨by simpa using hne, List.all_eq_true.mp hplain⟩, Nat.le_of_ble_eq_true hlength⟩

theorem isDecimal_mnemonic (op : Opcode) : isDecimal op.mnemonic = false := by
  have hall : ∀ op ∈ all, isDecimal op.mnemonic = false := by decide +kernel
  exact hall op op.mem_all

theorem ofMnemonic_mnemonic (op : Opcode) : ofMnemonic? op.mnemonic = some op := by
  have hall : ∀ op ∈ all, ofMnemonic? op.mnemonic = some op := by decide +kernel
  exact hall op op.mem_all

theorem ofMnemonic_minus (t : Text) : ofMnemonic? (45 :: t) = none := by
  have hall : ∀ entry ∈ table, (Text.lit entry.2).head? ≠ some 45 := by decide +kernel
  rw [ofMnemonic?, Option.map_eq_none_iff, List.find?_eq_none]
  intro entry hentry heq
  apply hall entry hentry
  rw [of_decide_eq_true heq]
  rfl

end Opcode

/-! ### Lines -/

def Instruction.words (ins : Instruction) : List Text :=
  ins.op.mnemonic :: Assembly.commas ins.operandNames

theorem Instruction.words_isWord (ins : Instruction) :
    ∀ w ∈ ins.words, Text.IsWord w ∧ w.length ≤ 20 := by
  intro w hw
  rcases List.mem_cons.mp hw with rfl | hw
  · exact ins.op.mnemonic_isWord
  · obtain ⟨hword, hlength⟩ := Assembly.commas_words (Assembly.isName_of_mem_operandNames ins) w hw
    exact ⟨hword, by omega⟩

theorem Instruction.Complete.render_eq {ins : Instruction} (h : ins.Complete) :
    ins.render = Text.words ins.words := by
  have hcomma : Text.lit ", " = [44, 32] := by decide
  have hblank : Text.lit " " = [32] := by decide
  unfold render Instruction.words
  cases hnames : ins.operandNames with
  | nil =>
    rw [operandNames_eq, List.append_eq_nil_iff] at hnames
    have hlayout : ins.op.layout = .none := by
      have hhead := congrArg List.length hnames.1
      rw [length_headNames] at hhead
      cases hl : ins.op.layout with
      | none => rfl
      | _ => simp [hl, Assembly.headCount, Layout.hasDestination, Layout.hasSet] at hhead
    rw [if_pos hlayout, Assembly.commas, Text.words, Text.joinWith_singleton]
  | cons name names =>
    have hlayout : ins.op.layout ≠ .none := by
      intro hlayout
      have hlength := congrArg List.length hnames
      rw [operandNames_eq, List.length_append, List.length_map, length_headNames,
        length_operands, h.sources, hlayout] at hlength
      cases hop : ins.op <;> simp [hop, Opcode.layout, Assembly.headCount,
        Layout.hasDestination, Layout.hasSet, Layout.hasVariable] at hlayout hlength
    obtain ⟨word, rest, hcommas⟩ := Assembly.commas_ne_nil name names
    rw [if_neg hlayout, hcommas, Text.words_cons, ← hcommas, Assembly.words_commas, hcomma,
      hblank, List.append_assoc, List.singleton_append]

namespace Assembly

open Text

variable {ws : List Text}

theorem stripComment_words (h : ∀ w ∈ ws, IsWord w) : stripComment (words ws) = words ws := by
  have hkept : ∀ b ∈ words ws, (b ≠ byte '#' && b ≠ byte ';') = true :=
    forall_mem_words (by decide) (forall_byte (by decide +kernel)) h
  rw [stripComment, ← List.append_nil (words ws), List.takeWhile_append_of_pos hkept,
    List.takeWhile_nil]

theorem parseLine_words {w : Text} (h : ∀ v ∈ w :: ws, IsWord v) :
    parseLine (words (w :: ws)) = (parseCode (words (w :: ws))).map (·.map .instruction) := by
  have hw := h w (List.mem_cons_self ..)
  have hhead := head_words ws hw.nonempty
  have hplain : ∀ b, (words (w :: ws)).head? = some b → isPlain b = true := by
    intro b hb
    rw [hhead] at hb
    exact hw.plain b (List.mem_of_head? hb)
  have htrim := trim_of_ends (ascii_words h) hplain (getLast_words h)
  unfold parseLine
  rw [htrim, if_neg]
  intro hpoint
  exact absurd (hplain _ hpoint) (by decide)

theorem parseLine_instruction {label : Option Text} (hlabel : ∀ d ∈ label, isDecimal d = true)
    {ins : Instruction} (hins : ins.Complete) :
    parseLine (words (label.toList ++ ins.words)) = .ok (some (.instruction ins.clearMask)) := by
  have hwords : ∀ w ∈ ins.words, IsWord w := fun w hw => (ins.words_isWord w hw).1
  have hcode : ∀ w ∈ label.toList ++ ins.words, IsWord w := by
    intro w hw
    rcases List.mem_append.mp hw with hw | hw
    · exact .of_isDecimal (hlabel w (Option.mem_toList.mp hw))
    · exact hwords w hw
  have hbody : parseCode (words (label.toList ++ ins.words)) = .ok (some ins.clearMask) := by
    have hlower := lower_word ins.op.mnemonic_isWord.1
    have hoperands := operandTexts_commas (isName_of_mem_operandNames ins)
    unfold parseCode
    rw [stripComment_words hcode, fields_words hcode]
    cases label with
    | none =>
      simp [Instruction.words, Opcode.isDecimal_mnemonic, hlower, Opcode.ofMnemonic_mnemonic,
        hoperands, hins.parseInstruction, Except.map]
    | some d =>
      simp [Instruction.words, hlabel d rfl, hlower, Opcode.ofMnemonic_mnemonic, hoperands,
        hins.parseInstruction, Except.map]
  obtain ⟨w, ws, hcons⟩ : ∃ w ws, label.toList ++ ins.words = w :: ws := by
    cases label <;> exact ⟨_, _, rfl⟩
  rw [hcons] at hcode hbody ⊢
  rw [parseLine_words hcode, hbody]
  rfl

theorem parseLine_minus {d : Text} (h : ∀ w ∈ (45 :: d) :: ws, IsWord w) :
    parseLine (words ((45 :: d) :: ws)) = .error (.unknownMnemonic (45 :: d)) := by
  -- A negative number in front is taken for a mnemonic.
  have hdigit : isDecimal (45 :: d) = false := by
    simp [isDecimal, isDigit]
  rw [parseLine_words h]
  unfold parseCode
  rw [stripComment_words h, fields_words h]
  simp [hdigit, lower_word (h _ (List.mem_cons_self ..)), Opcode.ofMnemonic_minus, Except.map]

end Assembly
end Quadlane
