import Quadlane.Proofs.AssemblyLine
import Quadlane.Proofs.Chunks

/-! Assembling what a code was disassembled to gives the code back, without the mask bits that belong
to no source. A listing, which has the offset in front of every instruction, is read alike as long as
no offset wraps around: a negative offset is taken for a mnemonic. -/

namespace Quadlane.Assembly

open Text

/-! ### Lines of a source text -/

variable {items : List (Nat × Instruction)} {label : Nat → Option Text}

def shownLine (label : Nat → Option Text) (item : Nat × Instruction) : Text :=
  words ((label item.1).toList ++ item.2.words)

def IsLabel (label : Option Text) : Prop :=
  ∀ d ∈ label, isDecimal d = true ∧ d.length ≤ 20

theorem shownLine_words {item : Nat × Instruction} (hlabel : IsLabel (label item.1)) :
    ∀ w ∈ (label item.1).toList ++ item.2.words, IsWord w ∧ w.length ≤ 20 := by
  intro w hw
  rcases List.mem_append.mp hw with hw | hw
  · obtain ⟨hdecimal, hlength⟩ := hlabel w (Option.mem_toList.mp hw)
    exact ⟨.of_isDecimal hdecimal, hlength⟩
  · exact item.2.words_isWord w hw

theorem length_shownLine {item : Nat × Instruction} (hlabel : IsLabel (label item.1))
    (hitem : item.2.Complete) : (shownLine label item).length < lineLimit := by
  have hwords := length_words_le fun w hw => (shownLine_words hlabel w hw).2
  have hlabels : (label item.1).toList.length ≤ 1 := by
    cases label item.1 <;> simp
  have hhead : headCount item.2.op.layout ≤ 3 := by
    cases item.2.op.layout <;> decide
  have harity := item.2.op.arity_le_four
  have hcount : item.2.words.length = 1 + (headCount item.2.op.layout + item.2.op.arity) := by
    rw [Instruction.words, List.length_cons, length_commas, Instruction.operandNames_eq,
      List.length_append, List.length_map, Instruction.length_headNames,
      Instruction.length_operands, hitem.sources, Nat.add_comm]
  rw [List.length_append, hcount] at hwords
  simp only [shownLine, lineLimit]
  omega

theorem dropReturn_words {ws : List Text} (h : ∀ w ∈ ws, IsWord w) :
    dropReturn (words ws) = words ws := by
  rw [dropReturn, if_neg]
  intro hlast
  exact absurd (getLast_words h 13 hlast) (by decide)

theorem parseNumbered_shownLine {item : Nat × Instruction} (hlabel : IsLabel (label item.1))
    (hitem : item.2.Complete) (number : Nat) :
    parseNumbered (shownLine label item, number) =
      .ok (some (.instruction item.2.clearMask)) := by
  have hlength := length_shownLine hlabel hitem
  have hwords := fun w hw => (shownLine_words hlabel w hw).1
  have hline := parseLine_instruction (fun d hd => (hlabel d hd).1) hitem
  unfold parseNumbered
  dsimp only
  rw [if_neg (Nat.not_le.mpr hlength), shownLine, dropReturn_words hwords, hline]
  rfl

theorem mapM_parseNumbered (hlabel : ∀ item ∈ items, IsLabel (label item.1))
    (hitems : ∀ item ∈ items, item.2.Complete) (first : Nat) :
    ((items.map (shownLine label)).zipIdx first).mapM parseNumbered =
      .ok (items.map fun item => some (.instruction item.2.clearMask)) := by
  induction items generalizing first with
  | nil => rfl
  | cons item items ih =>
    have hrest := ih (fun i hi => hlabel i (List.mem_cons_of_mem _ hi))
      (fun i hi => hitems i (List.mem_cons_of_mem _ hi)) (first + 1)
    rw [List.map_cons, List.zipIdx_cons, List.mapM_cons,
      parseNumbered_shownLine (hlabel item (List.mem_cons_self ..))
        (hitems item (List.mem_cons_self ..)), hrest]
    rfl

theorem bytes_programOf (items : List Item) :
    (programOf items).bytes = (items.filterMap Item.instruction?).flatMap Instruction.encode := by
  unfold programOf Program.bytes codeOf
  dsimp only
  split
  · next hempty =>
    rw [List.isEmpty_iff.mp hempty]
    rfl
  · rfl

theorem parse_shownLines {source : Text} (label : Nat → Option Text)
    (hlines : rawLines source = items.map (shownLine label))
    (hlabel : ∀ item ∈ items, IsLabel (label item.1)) (hitems : ∀ item ∈ items, item.2.Complete) :
    ∃ p, parse source = .ok p ∧
      p.bytes = (items.map (·.2)).flatMap fun ins => ins.clearMask.encode := by
  have hread : parseItems source =
      .ok (items.map fun item => .instruction item.2.clearMask) := by
    rw [parseItems, hlines, mapM_parseNumbered hlabel hitems]
    simp [Except.map, List.filterMap_map]
  refine ⟨_, by rw [parse, hread]; rfl, ?_⟩
  rw [bytes_programOf, List.filterMap_map]
  simp [Function.comp_def, Item.instruction?, List.flatMap_map]

/-! ### Cutting a text into lines -/

theorem rawLines_flatMap {lines : List Text} (h : ∀ line ∈ lines, newline ∉ line) :
    rawLines (lines.flatMap (· ++ [newline])) = lines := by
  simp only [rawLines, splitOn_flatMap h, List.getLast?_concat, if_true, List.dropLast_concat]

theorem rawLines_joinWith {lines : List Text} (h : ∀ line ∈ lines, newline ∉ line ∧ line ≠ []) :
    rawLines (joinWith [newline] lines) = lines := by
  cases lines with
  | nil => rfl
  | cons line lines =>
    have hlast : (line :: lines).getLast? ≠ some [] := fun hlast =>
      (h [] (List.mem_of_getLast? hlast)).2 rfl
    simp only [rawLines, splitOn_joinWith fun t ht => (h t ht).1, if_neg hlast]

theorem shownLine_newline {item : Nat × Instruction} (hlabel : ∀ d ∈ label item.1, IsWord d) :
    newline ∉ shownLine label item ∧ shownLine label item ≠ [] := by
  have hwords : ∀ w ∈ (label item.1).toList ++ item.2.words, IsWord w := by
    intro w hw
    rcases List.mem_append.mp hw with hw | hw
    · exact hlabel w (Option.mem_toList.mp hw)
    · exact (item.2.words_isWord w hw).1
  constructor
  · intro hmem
    exact forall_mem_words (P := (· ≠ newline)) (by decide) (forall_byte (by decide +kernel)) hwords
      _ hmem rfl
  · obtain ⟨w, ws, hcons⟩ : ∃ w ws, (label item.1).toList ++ item.2.words = w :: ws := by
      cases label item.1 <;> exact ⟨_, _, rfl⟩
    rw [hcons] at hwords
    rw [shownLine, hcons]
    exact words_ne_nil ws (hwords w (List.mem_cons_self ..)).nonempty

theorem disassemble_eq {code : List UInt8}
    (h : ∀ item ∈ (Code.decode code).items, item.2.Complete) :
    (Code.disassemble code).1 =
      ((Code.decode code).items.map (shownLine fun _ => none)).flatMap (· ++ [newline]) := by
  have hrender : (Code.decode code).items.map (·.2.render) =
      (Code.decode code).items.map (shownLine fun _ => none) :=
    List.map_congr_left fun item hitem => (h item hitem).render_eq
  rw [← hrender, List.flatMap_map]
  rfl

def listingLabel (base : Int) (offset : Nat) : Option Text :=
  some (zeroPadded 4 (wrap (base + offset)))

theorem listing_eq {code : List UInt8} (base : Int)
    (h : ∀ item ∈ (Code.decode code).items, item.2.Complete)
    (hstop : (Code.decode code).stop = none) :
    Code.listing code base = (Code.decode code).items.map (shownLine (listingLabel base)) := by
  have hblank : lit " " = [32] := by decide
  have hlines : ∀ item ∈ (Code.decode code).items,
      zeroPadded 4 (wrap (base + item.1)) ++ lit " " ++ item.2.render =
        shownLine (listingLabel base) item := by
    intro item hitem
    rw [(h item hitem).render_eq, hblank, List.append_assoc, List.singleton_append]
    rfl
  simp only [Code.listing, hstop, Option.map_none, Option.toList_none, List.append_nil]
  exact List.map_congr_left hlines

theorem zeroPadded_nonneg {i : Int} (h0 : 0 ≤ i) (h : i < 2 ^ 63) :
    isDecimal (zeroPadded 4 i) = true ∧ (zeroPadded 4 i).length ≤ 20 := by
  rw [zeroPadded, if_neg (Int.not_lt.mpr h0)]
  refine ⟨isDecimal_padLeft 4 (isDecimal_decimal _), ?_⟩
  have := length_decimal_le (n := i.natAbs) (k := 19) (by decide) (by omega)
  rw [padLeft, List.length_append, List.length_replicate]
  omega

theorem zeroPadded_neg {i : Int} (h : i < 0) :
    ∃ d, zeroPadded 4 i = 45 :: d ∧ IsWord (45 :: d) := by
  refine ⟨_, by rw [zeroPadded, if_pos h]; rfl, List.cons_ne_nil _ _, ?_⟩
  intro b hb
  rcases List.mem_cons.mp hb with rfl | hb
  · decide
  · exact (IsWord.of_isDecimal (isDecimal_padLeft 3 (isDecimal_decimal i.natAbs))).plain b hb

/-! ### What a text that is read consists of -/

theorem mapM_eq_ok {α β ε : Type} {f : α → Except ε β} {xs : List α} {ys : List β}
    (h : xs.mapM f = .ok ys) :
    (∀ x ∈ xs, ∃ y, f x = .ok y) ∧ ∀ y ∈ ys, ∃ x ∈ xs, f x = .ok y := by
  induction xs generalizing ys with
  | nil =>
    obtain rfl : [] = ys := Except.ok.inj h
    simp
  | cons x xs ih =>
    rw [List.mapM_cons] at h
    cases hx : f x with
    | error e => simp [hx, bind, Except.bind] at h
    | ok y =>
      cases hxs : xs.mapM f with
      | error e => simp [hx, hxs, bind, Except.bind] at h
      | ok rest =>
        obtain rfl : y :: rest = ys := by
          simpa [hx, hxs, bind, Except.bind, pure, Except.pure] using h
        obtain ⟨hread, hfrom⟩ := ih hxs
        constructor
        · intro x' hx'
          rcases List.mem_cons.mp hx' with rfl | hx'
          · exact ⟨y, hx⟩
          · exact hread x' hx'
        · intro y' hy'
          rcases List.mem_cons.mp hy' with rfl | hy'
          · exact ⟨x, List.mem_cons_self .., hx⟩
          · obtain ⟨x', hx', hy'⟩ := hfrom y' hy'
            exact ⟨x', List.mem_cons_of_mem _ hx', hy'⟩

theorem parse_eq_ok {source : Text} {p : Program} (h : parse source = .ok p) :
    ∃ lines, ((rawLines source).zipIdx 1).mapM parseNumbered = .ok lines ∧
      p = programOf (lines.filterMap id) := by
  unfold parse parseItems at h
  cases hlines : ((rawLines source).zipIdx 1).mapM parseNumbered with
  | error e => simp [hlines, Except.map] at h
  | ok lines =>
    simp only [hlines, Except.map, Except.ok.injEq] at h
    exact ⟨lines, rfl, h.symm⟩

theorem parseNumbered_ok {raw : Text} {number : Nat} {item : Option Item}
    (h : parseNumbered (raw, number) = .ok item) : parseLine (dropReturn raw) = .ok item := by
  unfold parseNumbered at h
  dsimp only at h
  split at h
  · simp at h
  · cases hparse : parseLine (dropReturn raw) with
    | error e => simp [hparse, Except.mapError] at h
    | ok item => simpa [hparse, Except.mapError] using h

theorem exists_parseLine {source : Text} {p : Program} (h : parse source = .ok p) {line : Text}
    (hline : line ∈ rawLines source) : ∃ item, parseLine (dropReturn line) = .ok item := by
  obtain ⟨lines, hlines, -⟩ := parse_eq_ok h
  obtain ⟨i, hi⟩ := List.mem_iff_getElem?.mp hline
  have hmem : (line, 1 + i) ∈ (rawLines source).zipIdx 1 :=
    List.mk_add_mem_zipIdx_iff_getElem?.mpr hi
  obtain ⟨item, hitem⟩ := (mapM_eq_ok hlines).1 _ hmem
  exact ⟨item, parseNumbered_ok hitem⟩

theorem parseOnSet_var {d t : Text} {head : Head}
    (h : (do
      let destination ← parseDestination d
      return { destination, set := ← parseIndexed t 's' }) = Except.ok head) : head.var = 0 := by
  cases hd : parseDestination d with
  | error e => simp [hd, bind, Except.bind] at h
  | ok destination =>
    cases ht : parseIndexed t 's' with
    | error e => simp [hd, ht, bind, Except.bind] at h
    | ok set =>
      obtain rfl : ({ destination, set } : Head) = head := by
        simpa [hd, ht, bind, Except.bind, pure, Except.pure] using h
      rfl

theorem parseHead_ok {layout : Layout} {operands : List Text} {head : Head}
    (h : parseHead layout operands = .ok head) :
    (layout.hasSet = false → head.set = 0) ∧ (layout.hasVariable = false → head.var = 0) := by
  unfold parseHead at h
  split at h
  · next d _ =>
    cases hd : parseDestination d with
    | error e => simp [hd, bind, Except.bind] at h
    | ok destination =>
      obtain rfl : ({ destination } : Head) = head := by
        simpa [hd, bind, Except.bind, pure, Except.pure] using h
      exact ⟨fun _ => rfl, fun _ => rfl⟩
  · next d t _ =>
    exact ⟨by simp [Layout.hasSet], fun _ => parseOnSet_var h⟩
  · next d t _ =>
    exact ⟨by simp [Layout.hasSet], fun _ => parseOnSet_var h⟩
  · simp [Layout.hasSet, Layout.hasVariable]
  · simp [Layout.hasSet, Layout.hasVariable]
  · obtain rfl := Except.ok.inj h
    exact ⟨fun _ => rfl, fun _ => rfl⟩

theorem parseInstruction_ok {op : Opcode} {operands : List Text} {ins : Instruction}
    (h : parseInstruction op operands = .ok ins) :
    ins.Complete ∧ ins.mask.toNat < 2 ^ ins.op.arity := by
  unfold parseInstruction at h
  dsimp only at h
  split at h
  · simp at h
  · split at h
    · simp at h
    · next head hhead =>
      split at h
      · simp at h
      · next sources hsources =>
        split at h
        · simp at h
        · next ins' hmake =>
          obtain rfl := Except.ok.inj h
          obtain ⟨hset, hvar⟩ := parseHead_ok hhead
          obtain ⟨hlength, rfl⟩ := Instruction.make_eq_ok hmake
          have hkinds : (sources.map (·.kind)).length = op.arity := by
            rw [List.length_map, hlength]
          have hmask : (sourceMask (sources.map (·.kind))).toNat =
              constantBits (sources.map (·.kind)) :=
            sourceMask_toNat (by rw [hkinds]; exact op.arity_le_four)
          refine ⟨⟨?_, ?_, ?_, ?_, ?_⟩, ?_⟩
          · rw [List.length_map, hlength]
          · intro hno
            simp [hset hno]
          · intro hno
            simp [hvar hno]
          · intro hnone
            have hnil : sources = [] := by
              rw [← List.length_eq_zero_iff, hlength]
              exact Opcode.arity_of_layout_none hnone
            rw [hnil]
            rfl
          · intro hno
            exact if_neg (by simp [hno])
          · rw [hmask, ← hkinds]
            exact constantBits_lt _

theorem parseDirective_ne_instruction {line : Text} {ins : Instruction} :
    parseDirective line ≠ .ok (.instruction ins) := by
  unfold parseDirective
  split
  · simp
  · simp
  · dsimp only
    repeat' split
    all_goals simp

theorem parseLine_ok {line : Text} {ins : Instruction}
    (h : parseLine line = .ok (some (.instruction ins))) :
    ins.Complete ∧ ins.mask.toNat < 2 ^ ins.op.arity := by
  unfold parseLine at h
  dsimp only at h
  split at h
  · cases hdirective : parseDirective (trim line) with
    | error e => simp [hdirective, Except.map] at h
    | ok item =>
      obtain rfl : item = .instruction ins := by simpa [hdirective, Except.map] using h
      exact absurd hdirective parseDirective_ne_instruction
  · unfold parseCode at h
    dsimp only at h
    split at h
    · simp [Except.map] at h
    · split at h
      · simp [Except.map] at h
      · next rest _ _ op _ =>
        cases hparse : parseInstruction op (operandTexts rest) with
        | error e => simp [hparse, Except.map] at h
        | ok ins' =>
          obtain rfl : ins' = ins := by simpa [hparse, Except.map] using h
          exact parseInstruction_ok hparse

theorem bytes_of_parse {source : Text} {p : Program} (h : parse source = .ok p) :
    ∃ instructions : List Instruction, p.bytes = instructions.flatMap Instruction.encode ∧
      ∀ ins ∈ instructions, ins.Complete ∧ ins.mask.toNat < 2 ^ ins.op.arity := by
  obtain ⟨lines, hlines, rfl⟩ := parse_eq_ok h
  refine ⟨_, bytes_programOf _, ?_⟩
  intro ins hins
  obtain ⟨item, hitem, hinstruction⟩ := List.mem_filterMap.mp hins
  obtain rfl : item = .instruction ins := by
    cases item <;> simp_all [Item.instruction?]
  obtain ⟨line, hline, rfl⟩ := List.mem_filterMap.mp hitem
  obtain ⟨⟨raw, number⟩, -, hread⟩ := (mapM_eq_ok hlines).2 _ hline
  exact parseLine_ok (parseNumbered_ok hread)

/-! ### There and back -/

theorem stop_of_disassemble {code : List UInt8} (h : (Code.disassemble code).2 = none) :
    (Code.decode code).stop = none :=
  Option.map_eq_none_iff.mp h

theorem parse_disassemble {code : List UInt8} (h : (Code.disassemble code).2 = none) :
    ∃ p, parse (Code.disassemble code).1 = .ok p ∧ p.bytes = Code.clearMasks code := by
  obtain ⟨hitems, -⟩ := Code.eq_encode_of_decodeFrom (stop_of_disassemble h)
  have hcomplete : ∀ item ∈ (Code.decode code).items, item.2.Complete :=
    fun item hitem => (hitems item hitem).1
  have hnone : ∀ d ∈ (none : Option Text), IsWord d := by simp
  refine parse_shownLines (fun _ => none) ?_ (by simp [IsLabel]) hcomplete
  rw [disassemble_eq hcomplete]
  refine rawLines_flatMap fun line hline => ?_
  obtain ⟨item, -, rfl⟩ := List.mem_map.mp hline
  exact (shownLine_newline hnone).1

theorem rawLines_listing {code : List UInt8} (base : Int)
    (hcomplete : ∀ item ∈ (Code.decode code).items, item.2.Complete)
    (hstop : (Code.decode code).stop = none) :
    rawLines (joinWith (lit "\n") (Code.listing code base)) =
      (Code.decode code).items.map (shownLine (listingLabel base)) := by
  have hnewline : lit "\n" = [newline] := by decide
  rw [listing_eq base hcomplete hstop, hnewline]
  refine rawLines_joinWith fun line hline => ?_
  obtain ⟨item, -, rfl⟩ := List.mem_map.mp hline
  refine shownLine_newline fun d hd => ?_
  obtain rfl := Option.mem_some.mp hd
  rcases Int.lt_or_le (wrap (base + item.1)) 0 with hneg | hnonneg
  · obtain ⟨d, hd, hword⟩ := zeroPadded_neg hneg
    rwa [hd]
  · exact .of_isDecimal (zeroPadded_nonneg hnonneg (wrap_upper _)).1

theorem parse_listing {code : List UInt8} (h : (Code.disassemble code).2 = none) {base : Int}
    (hlower : 0 ≤ base) (hupper : base < 2 ^ 63) (hlength : code.length < 2 ^ 63) :
    ((∃ p, parse (joinWith (lit "\n") (Code.listing code base)) = .ok p) ↔
      ∀ item ∈ (Code.decode code).items, base + item.1 < 2 ^ 63) ∧
    ∀ p, parse (joinWith (lit "\n") (Code.listing code base)) = .ok p →
      p.bytes = Code.clearMasks code := by
  have hstop := stop_of_disassemble h
  obtain ⟨hitems, -⟩ := Code.eq_encode_of_decodeFrom hstop
  have hcomplete : ∀ item ∈ (Code.decode code).items, item.2.Complete :=
    fun item hitem => (hitems item hitem).1
  have hlines := rawLines_listing base hcomplete hstop
  have hread : (∀ item ∈ (Code.decode code).items, base + item.1 < 2 ^ 63) →
      ∃ p, parse (joinWith (lit "\n") (Code.listing code base)) = .ok p ∧
        p.bytes = Code.clearMasks code := by
    intro hrange
    refine parse_shownLines (listingLabel base) hlines ?_ hcomplete
    intro item hitem d hd
    obtain rfl := Option.mem_some.mp hd
    have hlt := hrange item hitem
    rw [wrap_of_mem (by omega) (by omega)]
    exact zeroPadded_nonneg (by omega) hlt
  have hrange : (∃ p, parse (joinWith (lit "\n") (Code.listing code base)) = .ok p) →
      ∀ item ∈ (Code.decode code).items, base + item.1 < 2 ^ 63 := by
    rintro ⟨p, hp⟩ item hitem
    refine Int.not_le.mp fun hover => ?_
    -- The offset shows up as a negative number, and its line is refused.
    have hoffset := (hitems item hitem).2
    have hwrap := wrap_of_overflow hover (by omega)
    obtain ⟨d, hd, hword⟩ := zeroPadded_neg (i := wrap (base + item.1)) (by omega)
    have hwords : ∀ w ∈ (45 :: d) :: item.2.words, IsWord w := by
      intro w hw
      rcases List.mem_cons.mp hw with rfl | hw
      · exact hword
      · exact (item.2.words_isWord w hw).1
    have hline : shownLine (listingLabel base) item = words ((45 :: d) :: item.2.words) := by
      rw [shownLine, listingLabel, hd]
      rfl
    obtain ⟨read, hread⟩ := exists_parseLine hp (by
      rw [hlines]
      exact List.mem_map_of_mem hitem)
    rw [hline, dropReturn_words hwords, parseLine_minus hwords] at hread
    simp at hread
  refine ⟨⟨hrange, fun h => (hread h).imp fun _ hp => hp.1⟩, ?_⟩
  intro p hp
  obtain ⟨q, hq, hbytes⟩ := hread (hrange ⟨p, hp⟩)
  rw [hp] at hq
  obtain rfl := Except.ok.inj hq
  exact hbytes

theorem clearMasks_of_lt {code : List UInt8} (hstop : (Code.decode code).stop = none)
    (h : ∀ item ∈ (Code.decode code).items, item.2.mask.toNat < 2 ^ item.2.op.arity) :
    Code.clearMasks code = code := by
  have hsame : ∀ ins ∈ (Code.decode code).items.map (·.2),
      ins.clearMask.encode = ins.encode := by
    intro ins hins
    obtain ⟨item, hitem, rfl⟩ := List.mem_map.mp hins
    rw [Instruction.clearMask_of_lt (h item hitem)]
  rw [Code.clearMasks, List.flatMap_def, List.map_congr_left hsame, ← List.flatMap_def]
  exact (Code.eq_encode_of_decodeFrom hstop).2.symm

/-- Assembling a disassembled code gives it back without the mask bits of no source, and so does
assembling its listing, which can be read exactly if no offset in it reaches `2 ^ 63`. What is
assembled from any text has no such bits; it can be disassembled and assembled again to the same
bytes. -/
theorem disassembly_reassembles :
    (∀ code : List UInt8, (Code.disassemble code).2 = none →
      code = ((Code.decode code).items.map (·.2)).flatMap Instruction.encode ∧
      (∃ p, parse (Code.disassemble code).1 = .ok p ∧ p.bytes = Code.clearMasks code) ∧
      ((∀ item ∈ (Code.decode code).items, item.2.mask.toNat < 2 ^ item.2.op.arity) →
        Code.clearMasks code = code) ∧
      ∀ base : Int, 0 ≤ base → base < 2 ^ 63 → code.length < 2 ^ 63 →
        ((∃ p, parse (joinWith (lit "\n") (Code.listing code base)) = .ok p) ↔
          ∀ item ∈ (Code.decode code).items, base + item.1 < 2 ^ 63) ∧
        ∀ p, parse (joinWith (lit "\n") (Code.listing code base)) = .ok p →
          p.bytes = Code.clearMasks code) ∧
    ∀ source p, parse source = .ok p →
      (Code.disassemble p.bytes).2 = none ∧
      (∀ item ∈ (Code.decode p.bytes).items, item.2.mask.toNat < 2 ^ item.2.op.arity) ∧
      ∃ q, parse (Code.disassemble p.bytes).1 = .ok q ∧ q.bytes = p.bytes := by
  constructor
  · intro code h
    have hstop := stop_of_disassemble h
    exact ⟨(Code.eq_encode_of_decodeFrom hstop).2, parse_disassemble h, clearMasks_of_lt hstop,
      fun base hlower hupper hlength => parse_listing h hlower hupper hlength⟩
  · intro source p h
    obtain ⟨instructions, hbytes, hinstructions⟩ := bytes_of_parse h
    obtain ⟨hstop, hitems⟩ := Code.decodeFrom_encode 0 fun ins hins => (hinstructions ins hins).1
    rw [← hbytes] at hstop hitems
    have hmasks : ∀ item ∈ (Code.decode p.bytes).items,
        item.2.mask.toNat < 2 ^ item.2.op.arity := by
      intro item hitem
      have hmem : item.2 ∈ instructions := by
        rw [← hitems]
        exact List.mem_map_of_mem hitem
      exact (hinstructions item.2 hmem).2
    have haccepted : (Code.disassemble p.bytes).2 = none := Option.map_eq_none_iff.mpr hstop
    obtain ⟨q, hq, hsame⟩ := parse_disassemble haccepted
    exact ⟨haccepted, hmasks, q, hq, hsame.trans (clearMasks_of_lt hstop hmasks)⟩

theorem reassembled_after_done :
    (∃ p, parse (Code.disassemble [0, 1, 0xFF, 7, 200, 64]).1 = .ok p ∧
      p.bytes = [0, 1, 3, 7, 200, 64]) ∧
    ∃ p, parse (joinWith (lit "\n") (Code.listing [0, 1, 0xFF, 7, 200, 64] (2 ^ 63 - 2))) = .ok p ∧
      p.bytes = [0, 1, 3, 7, 200, 64] := by
  -- An instruction with all mask bits set and a register that does not exist, after the end; its
  -- listing starts at the last offset that does.
  have hcode : (Code.disassemble [0, 1, 0xFF, 7, 200, 64]).2 = none := by cbv
  have hclear : Code.clearMasks [0, 1, 0xFF, 7, 200, 64] = [0, 1, 3, 7, 200, 64] := by cbv
  have hitems : (Code.decode [0, 1, 0xFF, 7, 200, 64]).items.map (·.1) = [0, 1] := by cbv
  obtain ⟨-, hread, -, hlisting⟩ := disassembly_reassembles.1 _ hcode
  obtain ⟨hiff, hbytes⟩ := hlisting (2 ^ 63 - 2) (by decide) (by decide) (by decide)
  rw [hclear] at hread hbytes
  obtain ⟨p, hp⟩ := hiff.mpr fun item hitem => by
    have hoffset : item.1 ∈ [0, 1] := hitems ▸ List.mem_map_of_mem hitem
    rcases List.mem_cons.mp hoffset with h | h
    · omega
    · have := List.mem_singleton.mp h
      omega
  exact ⟨hread, p, hp, hbytes p hp⟩

/-- The offset after the last one is shown as a negative number. -/
theorem listing_wrapped_offset :
    (Code.disassemble [0, 0]).2 = none ∧
      joinWith (lit "\n") (Code.listing [0, 0] (2 ^ 63 - 1)) =
        lit "9223372036854775807 done\n-9223372036854775808 done" ∧
      parse (joinWith (lit "\n") (Code.listing [0, 0] (2 ^ 63 - 1))) =
        .error (.line 2 (lit "-9223372036854775808 done")
          (.unknownMnemonic (lit "-9223372036854775808"))) := by
  refine ⟨by cbv, by cbv, by cbv⟩

end Quadlane.Assembly
