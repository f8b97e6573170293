import Quadlane.Assembly.Format
import Quadlane.Proofs.Numerals
import Quadlane.Proofs.Reassembly

/-! The assembly text of a program is read back as the program. Every line of the text shows one
item, and an item that was read from some line is read again from the line that shows it: names have
no blank in them, lanes are read from their texts, and instructions from theirs. The items of a
program are shown in groups, which add up to the same program. -/

namespace Quadlane

open Text

namespace Assembly

/-! ### Items and the lines that show them -/

namespace Item

def tokens : Item → List Text
  | name t => [lit ".name", t]
  | inputs ts => lit ".input" :: ts
  | outputs ts => lit ".output" :: ts
  | constant c => lit ".const" :: c.name :: c.value.toList.map Lane.render
  | set s => lit ".dataset" :: s.name :: s.vars
  | instruction ins => ins.words

def line (i : Item) : Text :=
  words i.tokens

def IsShown : Item → Prop
  | name t => IsToken t
  | inputs ts | outputs ts => ts ≠ [] ∧ ∀ t ∈ ts, IsToken t
  | constant c => IsToken c.name ∧ c.value.map Lane.canonical = c.value
  | set s => IsToken s.name ∧ ∀ t ∈ s.vars, IsToken t
  | instruction ins => ins.Complete ∧ ins.mask.toNat < 2 ^ ins.op.arity

theorem isVisible_of_isPlain {b : UInt8} (h : isPlain b = true) : isVisible b = true := by
  simp only [isPlain, isDigit, isVisible, byte, Bool.or_eq_true, Bool.and_eq_true,
    decide_eq_true_eq, beq_iff_eq, bne_iff_ne] at h ⊢
  grind

theorem isToken_of_isWord {w : Text} (h : IsWord w) : IsToken w :=
  .of_visible h.nonempty fun b hb => isVisible_of_isPlain (h.plain b hb)

theorem directive_word : ∀ w ∈ [".name", ".input", ".output", ".const", ".dataset"],
    lower (lit w) = lit w ∧ (lit w).head? = some (byte '.') ∧
      ∀ b ∈ lit w, isVisible b = true := by
  decide +kernel

theorem isToken_directive {w : String}
    (hw : w ∈ [".name", ".input", ".output", ".const", ".dataset"]) : IsToken (lit w) := by
  obtain ⟨-, hhead, hvisible⟩ := directive_word w hw
  refine .of_visible ?_ hvisible
  intro hnil
  rw [hnil] at hhead
  cases hhead

theorem isToken_tokens {i : Item} (h : i.IsShown) : ∀ w ∈ i.tokens, IsToken w := by
  cases i with
  | name t =>
    exact List.forall_mem_cons.mpr
      ⟨isToken_directive (by simp), List.forall_mem_singleton.mpr h⟩
  | inputs ts => exact List.forall_mem_cons.mpr ⟨isToken_directive (by simp), h.2⟩
  | outputs ts => exact List.forall_mem_cons.mpr ⟨isToken_directive (by simp), h.2⟩
  | constant c =>
    refine List.forall_mem_cons.mpr
      ⟨isToken_directive (by simp), List.forall_mem_cons.mpr ⟨h.1, ?_⟩⟩
    exact List.forall_mem_map.mpr fun a _ => a.render_spec.1
  | set s =>
    exact List.forall_mem_cons.mpr ⟨isToken_directive (by simp), List.forall_mem_cons.mpr h⟩
  | instruction ins => exact fun w hw => isToken_of_isWord (ins.words_isWord w hw).1

end Item

/-! ### Reading a line of tokens -/

section Tokens

variable {ws : List Text}

theorem notMem_words {b : UInt8} (hascii : b < 0x80) (hblank : (Rune.ascii b).isBlank = true)
    (hspace : b ≠ 32) (h : ∀ w ∈ ws, IsToken w) : b ∉ words ws := by
  intro hb
  refine forall_mem_joinWith (P := (· ≠ b)) ?_ ?_ b hb rfl
  · intro c hc
    rw [List.mem_singleton.mp hc]
    exact hspace.symm
  · rintro w hw c hc rfl
    exact (h w hw).notMem hascii hblank hc

theorem newline_notMem_words (h : ∀ w ∈ ws, IsToken w) : newline ∉ words ws :=
  notMem_words (by decide) (by decide) (by decide) h

theorem dropReturn_tokens (h : ∀ w ∈ ws, IsToken w) : dropReturn (words ws) = words ws := by
  rw [dropReturn, if_neg]
  intro hlast
  exact notMem_words (by decide) (by decide) (by decide) h (List.mem_of_getLast? hlast)

theorem stripComment_tokens (h : ∀ w ∈ ws, IsToken w) : stripComment (words ws) = words ws := by
  have hkept : ∀ b ∈ words ws, (b ≠ byte '#' && b ≠ byte ';') = true := by
    refine forall_mem_joinWith ?_ fun w hw => (h w hw).uncommented
    intro b hb
    rw [List.mem_singleton.mp hb]
    decide
  exact List.takeWhile_eq_self_iff.mpr hkept

theorem fields_line (h : ∀ w ∈ ws, IsToken w) : fields (stripComment (words ws)) = ws := by
  rw [stripComment_tokens h, fields_tokens h]

theorem parseLine_directive {w : String}
    (hw : w ∈ [".name", ".input", ".output", ".const", ".dataset"])
    (h : ∀ v ∈ lit w :: ws, IsToken v) :
    parseLine (words (lit w :: ws)) = (parseDirective (words (lit w :: ws))).map some := by
  have hne := (h (lit w) (List.mem_cons_self ..)).nonempty
  rw [parseLine, (isTight_words h).trim_eq,
    if_pos ((head_words ws hne).trans (Item.directive_word w hw).2.1)]

end Tokens

theorem parseLanes_render (lanes : List Lane) :
    parseLanes (lanes.map Lane.render) = .ok (lanes.map Lane.canonical) := by
  induction lanes with
  | nil => rfl
  | cons a lanes ih =>
    rw [List.map_cons, parseLanes, a.render_spec.2, ih]
    rfl

theorem parseVector_render (q : Quad) :
    parseVector (q.toList.map Lane.render) = .ok (q.map Lane.canonical) := by
  rw [parseVector, if_neg (by simp [Quad.toList]), parseLanes_render]
  rfl

theorem parseLine_line {i : Item} (h : i.IsShown) : parseLine i.line = .ok (some i) := by
  have htokens := Item.isToken_tokens h
  rw [Item.line]
  cases i with
  | name t =>
    rw [Item.tokens] at htokens ⊢
    rw [parseLine_directive (by simp) htokens, parseDirective, fields_line htokens]
    dsimp only
    rw [(Item.directive_word ".name" (by simp)).1, if_pos rfl]
    rfl
  | inputs ts =>
    obtain ⟨t, ts, rfl⟩ := List.exists_cons_of_ne_nil h.1
    rw [Item.tokens] at htokens ⊢
    rw [parseLine_directive (by simp) htokens, parseDirective, fields_line htokens]
    dsimp only
    rw [(Item.directive_word ".input" (by simp)).1, if_neg (by decide), if_pos rfl]
    rfl
  | outputs ts =>
    obtain ⟨t, ts, rfl⟩ := List.exists_cons_of_ne_nil h.1
    rw [Item.tokens] at htokens ⊢
    rw [parseLine_directive (by simp) htokens, parseDirective, fields_line htokens]
    dsimp only
    rw [(Item.directive_word ".output" (by simp)).1, if_neg (by decide), if_neg (by decide),
      if_pos rfl]
    rfl
  | constant c =>
    rw [Item.tokens] at htokens ⊢
    rw [parseLine_directive (by simp) htokens, parseDirective, fields_line htokens]
    dsimp only
    rw [(Item.directive_word ".const" (by simp)).1, if_neg (by decide), if_neg (by decide),
      if_neg (by decide), if_pos rfl, parseVector_render, h.2]
    rfl
  | set s =>
    rw [Item.tokens] at htokens ⊢
    rw [parseLine_directive (by simp) htokens, parseDirective, fields_line htokens]
    dsimp only
    rw [(Item.directive_word ".dataset" (by simp)).1, if_neg (by decide), if_neg (by decide),
      if_neg (by decide), if_neg (by decide), if_pos rfl]
    rfl
  | instruction ins =>
    have hline : parseLine (words ((none : Option Text).toList ++ ins.words)) = _ :=
      parseLine_instruction (by simp) h.1
    rwa [Instruction.clearMask_of_lt h.2] at hline

/-! ### What is read can be shown -/

theorem canonical_of_parseLanes {texts : List Text} {lanes : List Lane}
    (h : parseLanes texts = .ok lanes) : ∀ a ∈ lanes, a.canonical = a := by
  induction texts generalizing lanes with
  | nil =>
    obtain rfl := Except.ok.inj h
    simp
  | cons t texts ih =>
    rw [parseLanes] at h
    split at h
    · cases h
    · next a ha =>
      cases hrest : parseLanes texts with
      | error e => simp [hrest, Except.map] at h
      | ok rest =>
        obtain rfl : a :: rest = lanes := by simpa [hrest, Except.map] using h
        exact List.forall_mem_cons.mpr ⟨Lane.canonical_of_parse ha, ih hrest⟩

theorem canonical_of_parseVector {texts : List Text} {q : Quad} (h : parseVector texts = .ok q) :
    q.map Lane.canonical = q := by
  unfold parseVector at h
  split at h
  · cases h
  · split at h
    · cases h
    · next lanes hlanes =>
      have hcanonical := canonical_of_parseLanes hlanes
      split at h
      · next q' hq =>
        obtain rfl := Except.ok.inj h
        unfold Quad.ofLanes? at hq
        split at hq
        · obtain rfl := Option.some.inj hq
          simp_all [Quad.map, Quad.splat]
        · obtain rfl := Option.some.inj hq
          simp_all [Quad.map]
        · cases hq
      · cases h

theorem isToken_of_mem_line {line w : Text} (h : w ∈ fields (stripComment line)) : IsToken w :=
  isToken_of_mem_fields (fun _ hb =>
    List.mem_takeWhile_imp (p := fun b => b ≠ byte '#' && b ≠ byte ';') hb) h

theorem isShown_of_parseDirective {line : Text} {i : Item} (h : parseDirective line = .ok i) :
    i.IsShown := by
  have htokens : ∀ w ∈ fields (stripComment line), IsToken w := fun w => isToken_of_mem_line
  unfold parseDirective at h
  split at h
  · cases h
  · cases h
  · next directive name rest hfields =>
    rw [hfields, List.forall_mem_cons, List.forall_mem_cons] at htokens
    obtain ⟨-, hname, hrest⟩ := htokens
    have hnames : name :: rest ≠ [] ∧ ∀ t ∈ name :: rest, IsToken t :=
      ⟨List.cons_ne_nil _ _, List.forall_mem_cons.mpr ⟨hname, hrest⟩⟩
    dsimp only at h
    split at h
    · split at h
      · obtain rfl := Except.ok.inj h
        exact hname
      · cases h
    · split at h
      · obtain rfl := Except.ok.inj h
        exact hnames
      · split at h
        · obtain rfl := Except.ok.inj h
          exact hnames
        · split at h
          · split at h
            · cases h
            · next value hvalue =>
              obtain rfl := Except.ok.inj h
              exact ⟨hname, canonical_of_parseVector hvalue⟩
          · split at h
            · obtain rfl := Except.ok.inj h
              exact ⟨hname, hrest⟩
            · cases h

theorem isShown_of_parseLine {line : Text} {i : Item} (h : parseLine line = .ok (some i)) :
    i.IsShown := by
  have hline := h
  unfold parseLine at h
  dsimp only at h
  split at h
  · cases hdirective : parseDirective (trim line) with
    | error e => simp [hdirective, Except.map] at h
    | ok item =>
      obtain rfl : item = i := by simpa [hdirective, Except.map] using h
      exact isShown_of_parseDirective hdirective
  · cases hcode : parseCode line with
    | error e => simp [hcode, Except.map] at h
    | ok ins =>
      obtain ⟨ins, rfl, rfl⟩ : ∃ ins', ins = some ins' ∧ Item.instruction ins' = i := by
        simpa [hcode, Except.map] using h
      exact parseLine_ok hline

/-! ### The items of a program -/

def grouped (p : Program) (instructions : List Instruction) : List Item :=
  (if p.name.isEmpty then [] else [Item.name p.name]) ++
  (if p.inputs.isEmpty then [] else [Item.inputs p.inputs]) ++
  (if p.outputs.isEmpty then [] else [Item.outputs p.outputs]) ++
  p.constants.map Item.constant ++ p.sets.map Item.set ++ instructions.map Item.instruction

theorem programOf_grouped {p : Program} {instructions : List Instruction}
    (h : p.code = codeOf instructions) : programOf (grouped p instructions) = p := by
  obtain ⟨name, code, constants, inputs, outputs, sets⟩ := p
  obtain rfl : code = codeOf instructions := h
  unfold programOf grouped
  simp only [List.filterMap_append, List.flatMap_append, List.filterMap_map, List.flatMap_map]
  rcases name with _ | ⟨b, name⟩ <;> rcases inputs with _ | ⟨t, inputs⟩ <;>
    rcases outputs with _ | ⟨u, outputs⟩ <;>
    simp [Function.comp_def, List.filterMap_cons, Item.name?, Item.constant?, Item.set?,
      Item.instruction?, Item.inputNames, Item.outputNames]

/-- What a program has to be for its text to be read back. -/
structure IsShowable (p : Program) (instructions : List Instruction) : Prop where
  code : p.code = codeOf instructions
  items : ∀ i ∈ grouped p instructions, i.IsShown

theorem getLastD_mem {l : List Text} (h : l.getLastD [] ≠ []) : l.getLastD [] ∈ l := by
  rw [List.getLastD_eq_getLast?] at h ⊢
  cases hlast : l.getLast? with
  | none => simp [hlast] at h
  | some t => exact List.mem_of_getLast? hlast

theorem mem_of_filterMap {α : Type} {items : List Item} (make : α → Item)
    {select : Item → Option α} (h : ∀ i a, select i = some a → i = make a) {a : α}
    (ha : a ∈ items.filterMap select) : make a ∈ items := by
  obtain ⟨i, hi, ha⟩ := List.mem_filterMap.mp ha
  exact h i a ha ▸ hi

theorem isShown_grouped {items : List Item} (h : ∀ i ∈ items, i.IsShown) :
    ∀ i ∈ grouped (programOf items) (items.filterMap Item.instruction?), i.IsShown := by
  have hname : ∀ t ∈ items.filterMap Item.name?, (Item.name t).IsShown := fun t ht =>
    h _ (mem_of_filterMap .name (by intro i a h; cases i <;> cases h; rfl) ht)
  have hconstant : ∀ c ∈ items.filterMap Item.constant?, (Item.constant c).IsShown := fun c hc =>
    h _ (mem_of_filterMap .constant (by intro i a h; cases i <;> cases h; rfl) hc)
  have hset : ∀ s ∈ items.filterMap Item.set?, (Item.set s).IsShown := fun s hs =>
    h _ (mem_of_filterMap .set (by intro i a h; cases i <;> cases h; rfl) hs)
  have hinstruction : ∀ ins ∈ items.filterMap Item.instruction?, (Item.instruction ins).IsShown :=
    fun ins hins =>
      h _ (mem_of_filterMap .instruction (by intro i a h; cases i <;> cases h; rfl) hins)
  have hinputs : ∀ t ∈ items.flatMap Item.inputNames, IsToken t := by
    intro t ht
    obtain ⟨i, hi, ht⟩ := List.mem_flatMap.mp ht
    cases i <;> simp only [Item.inputNames, List.not_mem_nil] at ht
    exact (h _ hi).2 t ht
  have houtputs : ∀ t ∈ items.flatMap Item.outputNames, IsToken t := by
    intro t ht
    obtain ⟨i, hi, ht⟩ := List.mem_flatMap.mp ht
    cases i <;> simp only [Item.outputNames, List.not_mem_nil] at ht
    exact (h _ hi).2 t ht
  intro i hi
  simp only [grouped, List.mem_append] at hi
  rcases hi with ((((hi | hi) | hi) | hi) | hi) | hi
  · split at hi
    · cases hi
    · next hne =>
      rw [List.mem_singleton.mp hi]
      exact hname _ (getLastD_mem fun hnil => hne (List.isEmpty_iff.mpr hnil))
  · split at hi
    · cases hi
    · next hne =>
      rw [List.mem_singleton.mp hi]
      exact ⟨by simpa using hne, hinputs⟩
  · split at hi
    · cases hi
    · next hne =>
      rw [List.mem_singleton.mp hi]
      exact ⟨by simpa using hne, houtputs⟩
  · obtain ⟨c, hc, rfl⟩ := List.mem_map.mp hi
    exact hconstant c hc
  · obtain ⟨s, hs, rfl⟩ := List.mem_map.mp hi
    exact hset s hs
  · obtain ⟨ins, hins, rfl⟩ := List.mem_map.mp hi
    exact hinstruction ins hins

theorem isShown_of_mapM {source : Text} {lines : List (Option Item)}
    (h : ((rawLines source).zipIdx 1).mapM parseNumbered = .ok lines) :
    ∀ i ∈ lines.filterMap id, i.IsShown := by
  intro i hi
  obtain ⟨line, hline, rfl⟩ := List.mem_filterMap.mp hi
  obtain ⟨⟨raw, number⟩, -, hread⟩ := (mapM_eq_ok h).2 _ hline
  exact isShown_of_parseLine (parseNumbered_ok hread)

theorem isShowable_of_parse {source : Text} {p : Program} (h : parse source = .ok p) :
    ∃ instructions, IsShowable p instructions := by
  obtain ⟨lines, hlines, rfl⟩ := parse_eq_ok h
  exact ⟨_, rfl, isShown_grouped (isShown_of_mapM hlines)⟩

/-! ### The text of a program -/

theorem lit_newline : lit "\n" = [newline] := by
  decide

theorem setLine_eq {s : SetDeclaration} (h : (Item.set s).IsShown) :
    setLine s = (Item.set s).line ++ [newline] := by
  have htokens := Item.isToken_tokens h
  obtain ⟨name, vars⟩ := s
  rw [setLine, lit_newline, Item.line, Item.tokens]
  congr 1
  rw [Item.tokens] at htokens
  cases vars with
  | nil =>
    -- The empty list leaves a blank at the end.
    have hline : words [lit ".dataset", name, words []] = words [lit ".dataset", name] ++ [32] := by
      simp [words, joinWith]
    rw [hline, (isTight_words htokens).trim_append]
  | cons v vars =>
    have hline : words [lit ".dataset", name, words (v :: vars)] =
        words (lit ".dataset" :: name :: v :: vars) := by
      rw [words_cons, words_cons, words_cons, words_cons]
      rw [words, joinWith_singleton, words]
    rw [hline, (isTight_words htokens).trim_eq]

theorem bytes_eq {p : Program} {instructions : List Instruction}
    (h : p.code = codeOf instructions) :
    p.bytes = instructions.flatMap Instruction.encode := by
  rw [Program.bytes, h, codeOf]
  split
  · next hempty =>
    rw [List.isEmpty_iff.mp hempty]
    rfl
  · rfl

theorem disassemble_bytes {instructions : List Instruction}
    (h : ∀ ins ∈ instructions, (Item.instruction ins).IsShown) :
    Code.disassemble (instructions.flatMap Instruction.encode) =
      (((instructions.map Item.instruction).map Item.line).flatMap (· ++ [newline]), none) := by
  obtain ⟨hstop, hitems⟩ := Code.decodeFrom_encode 0 fun ins hins => (h ins hins).1
  have hcomplete : ∀ item ∈ (Code.decode (instructions.flatMap Instruction.encode)).items,
      item.2.Complete := by
    intro item hitem
    refine (h item.2 ?_).1
    rw [← hitems]
    exact List.mem_map_of_mem hitem
  apply Prod.ext
  · rw [disassemble_eq hcomplete]
    dsimp only
    nth_rewrite 2 [← hitems]
    rw [List.map_map, List.map_map]
    rfl
  · exact Option.map_eq_none_iff.mpr hstop

theorem directive_eq (word : String) (names : List Text) :
    directive word names =
      if names.isEmpty then [] else words (lit word :: names) ++ [newline] := by
  rw [directive, lit_newline]

theorem declarations_eq {p : Program} (h : ∀ i ∈ grouped p [], i.IsShown) :
    declarations p = ((grouped p []).map Item.line).flatMap (· ++ [newline]) := by
  have hconstants : p.constants.flatMap constantLine =
      ((p.constants.map Item.constant).map Item.line).flatMap (· ++ [newline]) := by
    rw [List.map_map, List.flatMap_map]
    exact List.flatMap_congr fun c _ => directive_eq ".const" _
  have hsets : p.sets.flatMap setLine =
      ((p.sets.map Item.set).map Item.line).flatMap (· ++ [newline]) := by
    rw [List.map_map, List.flatMap_map]
    refine List.flatMap_congr fun s hs => setLine_eq (h (.set s) ?_)
    simp [grouped, hs]
  rw [declarations, hconstants, hsets, grouped]
  simp only [List.map_append, List.flatMap_append, directive_eq]
  rcases p with ⟨_ | ⟨b, name⟩, code, constants, _ | ⟨t, inputs⟩, _ | ⟨u, outputs⟩, sets⟩ <;>
    simp [Item.line, Item.tokens]

theorem format_eq {p : Program} {instructions : List Instruction} (h : IsShowable p instructions) :
    format p = (((grouped p instructions).map Item.line).flatMap (· ++ [newline]), none) := by
  have hcode := disassemble_bytes fun ins hins => h.items (.instruction ins)
    (List.mem_append_right _ (List.mem_map_of_mem hins))
  have hgrouped : grouped p instructions = grouped p [] ++ instructions.map .instruction := by
    rw [grouped, grouped, List.map_nil, List.append_nil]
  have hdeclared : ∀ i ∈ grouped p [], i.IsShown := fun i hi =>
    h.items i (hgrouped ▸ List.mem_append_left _ hi)
  rw [format, bytes_eq h.code, hcode]
  dsimp only
  rw [declarations_eq hdeclared, hgrouped, List.map_append, List.flatMap_append]

theorem rawLines_format {p : Program} {instructions : List Instruction}
    (h : IsShowable p instructions) :
    rawLines (format p).1 = (grouped p instructions).map Item.line := by
  rw [format_eq h]
  refine rawLines_flatMap (List.forall_mem_map.mpr fun i hi => ?_)
  exact newline_notMem_words (Item.isToken_tokens (h.items i hi))

theorem parseNumbered_line {i : Item} (h : i.IsShown) (number : ℕ) :
    parseNumbered (i.line, number) =
      if i.line.length < lineLimit then .ok (some i) else .error .lineTooLong := by
  unfold parseNumbered
  dsimp only
  rw [show dropReturn i.line = i.line from dropReturn_tokens (Item.isToken_tokens h),
    parseLine_line h]
  split
  · next hlong => rw [if_neg (not_lt.mpr hlong)]
  · next hshort =>
    rw [if_pos (not_le.mp hshort)]
    rfl

theorem mapM_lines {items : List Item} (h : ∀ i ∈ items, i.IsShown) (first : ℕ) :
    ((items.map Item.line).zipIdx first).mapM parseNumbered =
      if ∀ line ∈ items.map Item.line, line.length < lineLimit then .ok (items.map some)
      else .error .lineTooLong := by
  induction items generalizing first with
  | nil => rfl
  | cons i items ih =>
    have hrest := ih (fun j hj => h j (List.mem_cons_of_mem _ hj)) (first + 1)
    rw [List.map_cons, List.zipIdx_cons, List.mapM_cons,
      parseNumbered_line (h i (List.mem_cons_self ..)), hrest]
    have hcons : (∀ line ∈ i.line :: items.map Item.line, line.length < lineLimit) ↔
        i.line.length < lineLimit ∧ ∀ line ∈ items.map Item.line, line.length < lineLimit :=
      List.forall_mem_cons
    by_cases hi : i.line.length < lineLimit
    · by_cases hall : ∀ line ∈ items.map Item.line, line.length < lineLimit
      · rw [if_pos hi, if_pos hall, if_pos (hcons.mpr ⟨hi, hall⟩)]
        rfl
      · rw [if_pos hi, if_neg hall, if_neg fun h => hall (hcons.mp h).2]
        rfl
    · rw [if_neg hi, if_neg fun h => hi (hcons.mp h).1]
      rfl

/-- The text of a program is read as the program, unless a line of it is too long. -/
theorem parse_format {p : Program} {instructions : List Instruction}
    (h : IsShowable p instructions) :
    parse (format p).1 =
      if ∀ line ∈ rawLines (format p).1, line.length < lineLimit then .ok p
      else .error .lineTooLong := by
  rw [parse, parseItems, rawLines_format h, mapM_lines h.items]
  split
  · show Except.ok (programOf (((grouped p instructions).map some).filterMap id)) = _
    rw [List.filterMap_map, Function.id_comp, List.filterMap_some, programOf_grouped h.code]
  · rfl

/-- The text of a program that was read is complete, and it is read as the same program again; only
a line that has become too long is refused. -/
theorem format_reads_back {source : Text} {p : Program} (h : parse source = .ok p) :
    (format p).2 = none ∧
      parse (format p).1 =
        if ∀ line ∈ rawLines (format p).1, line.length < lineLimit then .ok p
        else .error .lineTooLong := by
  obtain ⟨instructions, hp⟩ := isShowable_of_parse h
  exact ⟨congrArg Prod.snd (format_eq hp), parse_format hp⟩

theorem format_scattered_declarations :
    ∃ p, parse (lit "\t.INPUT a b\r\nadd t0, i0, c0 # sum\n.const k 0x1p-149 ;\n.Name " ++
        [0xE9, 0xFF] ++
        lit "\n.input c\n.const q nan -0 +INF 1e38\n.dataset d\n0007 done") = .ok p ∧
      (format p).1 = lit ".name " ++ [0xE9, 0xFF] ++
        lit "\n.input a b c\n.const k 1e-45 1e-45 1e-45 1e-45\n.const q NaN -0 +Inf 1e+38\n" ++
        lit ".dataset d\nadd t0, i0, c0\ndone\n" ∧
      parse (format p).1 = .ok p := by
  -- Declarations over several lines and between instructions, a name of stray bytes, and
  -- constants that are not finite, not normal or negative zero.
  have hparse : parse (lit "\t.INPUT a b\r\nadd t0, i0, c0 # sum\n.const k 0x1p-149 ;\n.Name " ++
      [0xE9, 0xFF] ++
      lit "\n.input c\n.const q nan -0 +INF 1e38\n.dataset d\n0007 done") =
      .ok { name := [0xE9, 0xFF], code := some [1, 2, 64, 0, 0, 0],
            constants := [⟨lit "k", Quad.splat ⟨1⟩⟩,
              ⟨lit "q", ⟨Lane.nan, ⟨0x80000000⟩, Lane.infinity false, ⟨0x7E967699⟩⟩⟩],
            inputs := [lit "a", lit "b", lit "c"], sets := [⟨lit "d", []⟩] } := by
    decide +kernel
  refine ⟨_, hparse, by decide +kernel, ?_⟩
  rw [(format_reads_back hparse).2, if_pos (by decide +kernel)]

end Assembly
end Quadlane
