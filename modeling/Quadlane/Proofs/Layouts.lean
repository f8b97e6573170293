import Quadlane.Proofs.Accesses
import Quadlane.Proofs.Merging
import Quadlane.Proofs.Spelling

/-! The layout of an instruction does not matter. A line is read by its words between commas, and of
each word only its sense counts; changes of case, blanks, leading zeros and comments leave the
senses as they are, and an offset in front is one word more. -/

namespace Quadlane

theorem Program.merge_code (p : Program) (c : List UInt8) :
    p.merge { code := some c } = { p with code := some (p.bytes ++ c) } := by
  unfold merge bytes
  cases p.code <;> simp [Option.merge]

namespace Assembly

open Text

/-! ### The words of a line -/

def linePieces (line : Text) : List (List Text) :=
  pieces (stripComment line)

def spelling (line : Text) : List (List (Option Opcode × Text)) :=
  (linePieces line).map (·.map sense)

def IsUncommented (t : Text) : Prop :=
  ∀ b ∈ t, (b ≠ byte '#' && b ≠ byte ';') = true

theorem stripComment_append {u : Text} (h : IsUncommented u) (t : Text) :
    stripComment (u ++ t) = u ++ stripComment t :=
  List.takeWhile_append_of_pos h

theorem stripComment_of_comment {u : Text} (h : ¬ IsUncommented u) (t : Text) :
    stripComment (u ++ t) = stripComment u := by
  rw [stripComment, List.takeWhile_append, if_neg]
  · rfl
  · intro hlength
    have hall : u.takeWhile (fun b => b ≠ byte '#' && b ≠ byte ';') = u :=
      (List.takeWhile_prefix _).eq_of_length hlength
    exact h (List.takeWhile_eq_self_iff.mp hall)

theorem stripComment_eq_self {u : Text} (h : IsUncommented u) : stripComment u = u :=
  List.takeWhile_eq_self_iff.mpr h

theorem stripComment_mark {mark : UInt8} (h : mark = byte '#' ∨ mark = byte ';') (t : Text) :
    stripComment (mark :: t) = [] := by
  rcases h with rfl | rfl <;> exact List.takeWhile_cons_of_neg (by decide)

theorem isUncommented_of_isBlank {w : Text} (h : IsBlank w) : IsUncommented w := by
  intro b hb
  have hhash : b ≠ byte '#' := fun heq => h.notMem (by decide) (by decide) (heq ▸ hb)
  have hsemicolon : b ≠ byte ';' := fun heq => h.notMem (by decide) (by decide) (heq ▸ hb)
  simp [hhash, hsemicolon]

theorem isUncommented_of_isSolid {s : Text} (h : IsSolid s) : IsUncommented s := by
  intro b hb
  have hb := h.visible b hb
  simp only [isVisible, Bool.and_eq_true, bne_iff_ne] at hb
  simp [hb.1.2, hb.2]

/-- Whether the place between two parts of a line is at an end of it, next to a comma or in front of
a comment. -/
def IsEdge (u v : Text) : Prop :=
  (u = [] ∨ u.getLast? = some (byte ',')) ∨ v = [] ∨
    ∃ b t, v = b :: t ∧ (b = byte ',' ∨ b = byte '#' ∨ b = byte ';')

theorem exists_linePieces_around (u v : Text) : (∃ k, ∀ t, linePieces (u ++ t) = k) ∨
    ∃ ps l h qs, (u = [] ∨ u.getLast? = some (byte ',') → l = []) ∧ (IsEdge u v → l = [] ∨ h = []) ∧
      ∀ m, byte ',' ∉ m → IsUncommented m →
        linePieces (u ++ (m ++ v)) = ps ++ fields (l ++ (m ++ h)) :: qs := by
  by_cases hu : IsUncommented u
  · right
    obtain ⟨ps, l, h, qs, hl, hh, hpieces⟩ := exists_pieces_around u (stripComment v)
    refine ⟨ps, l, h, qs, hl, ?_, fun m hcomma hm => ?_⟩
    · rintro (hfront | rfl | ⟨b, t, rfl, hcomma | hmark⟩)
      · exact .inl (hl hfront)
      · exact .inr (hh (.inl rfl))
      · have hstrip : stripComment (b :: t) = b :: stripComment t := by
          rw [hcomma]
          exact List.takeWhile_cons_of_pos (by decide)
        exact .inr (hh (.inr (by rw [hstrip, hcomma]; rfl)))
      · exact .inr (hh (.inl (stripComment_mark hmark t)))
    · rw [linePieces, stripComment_append hu, stripComment_append hm, hpieces m hcomma]
  · exact .inl ⟨linePieces u, fun t => congrArg pieces (stripComment_of_comment hu t)⟩

theorem linePieces_blanks {u v w w' : Text} (hw : IsBlank w) (hw' : IsBlank w')
    (hplace : IsEdge u v ∨ w ≠ [] ∧ w' ≠ []) :
    linePieces (u ++ (w ++ v)) = linePieces (u ++ (w' ++ v)) := by
  rcases exists_linePieces_around u v with ⟨k, hk⟩ | ⟨ps, l, h, qs, -, hedge, hpieces⟩
  · rw [hk, hk]
  · rw [hpieces w (notMem_comma hw) (isUncommented_of_isBlank hw),
      hpieces w' (notMem_comma hw') (isUncommented_of_isBlank hw')]
    have hfields : fields (l ++ (w ++ h)) = fields (l ++ (w' ++ h)) := by
      rcases hplace with hplace | ⟨hne, hne'⟩
      · rcases hedge hplace with rfl | rfl
        · rw [List.nil_append, List.nil_append, hw.fields_append, hw'.fields_append]
        · rw [List.append_nil, List.append_nil, fields_blank_end l hw,
            fields_blank_end l hw']
      · rw [fields_gap l hw hne, fields_gap l hw' hne']
    rw [hfields]

-- A carriage return at the end is a blank or in the comment.
theorem fields_dropReturn (raw : Text) :
    fields (stripComment (dropReturn raw)) = fields (stripComment raw) := by
  unfold dropReturn
  split
  · next hlast =>
    obtain ⟨line, rfl⟩ := List.getLast?_eq_some_iff.mp hlast
    rw [List.dropLast_concat]
    by_cases hline : IsUncommented line
    · have hreturn : IsBlank [13] :=
        isBlank_ascii (List.forall_mem_singleton.mpr ⟨by decide, by decide⟩)
      have hstrip : stripComment [13] = [13] := by decide
      rw [stripComment_append hline, stripComment_eq_self hline, hstrip,
        fields_blank_end _ hreturn]
    · rw [stripComment_of_comment hline]
  · rfl

theorem spelling_dropReturn (raw : Text) : spelling (dropReturn raw) = spelling raw := by
  rw [spelling, spelling, linePieces, pieces_congr (fields_dropReturn raw)]
  rfl

/-! ### Changes of layout -/

inductive Edit : Text → Text → Prop where
  /-- a letter in the other case -/
  | letter (u v : Text) {a b : UInt8} (h : lowerByte a = lowerByte b) :
    Edit (u ++ a :: v) (u ++ b :: v)
  /-- blanks at the ends and around commas, and others than there were between two words -/
  | blanks (u v : Text) {w w' : Text} (hw : IsBlank w) (hw' : IsBlank w')
    (hplace : IsEdge u v ∨ w ≠ [] ∧ w' ≠ []) (hline : newline ∉ w') :
    Edit (u ++ (w ++ v)) (u ++ (w' ++ v))
  /-- a zero between the letter and the number of an operand -/
  | zero (u v : Text) {w : Text} {a d : UInt8} (hw : IsBlank w)
    (hplace : w ≠ [] ∨ u = [] ∨ u.getLast? = some (byte ',')) (ha : isLetter a = true)
    (hd : isDigit d = true) : Edit (u ++ (w ++ a :: d :: v)) (u ++ (w ++ a :: 48 :: d :: v))
  /-- a comment at the end -/
  | comment (line text : Text) {c : UInt8} (hmark : c = byte '#' ∨ c = byte ';')
    (hline : newline ∉ text) : Edit line (line ++ c :: text)

theorem exists_linePieces_word (u v : Text) {w : Text} (hw : IsBlank w) :
    (∃ k, ∀ t, linePieces (u ++ t) = k) ∨ ∃ ps fs x y gs qs,
      (w ≠ [] ∨ u = [] ∨ u.getLast? = some (byte ',') → x = []) ∧
      ∀ s, s ≠ [] → (∀ b ∈ s, isVisible b = true ∧ b ≠ byte ',') →
        linePieces (u ++ (w ++ (s ++ v))) = ps ++ (fs ++ (x ++ (s ++ y)) :: gs) :: qs := by
  rcases exists_linePieces_around u v with hconstant | ⟨ps, l, r, qs, hl, -, hpieces⟩
  · exact .inl hconstant
  · right
    obtain ⟨fs, x, y, gs, hx, hfields⟩ : ∃ fs x y gs,
        (w ≠ [] ∨ u = [] ∨ u.getLast? = some (byte ',') → x = []) ∧
        ∀ s, IsSolid s → fields (l ++ (w ++ (s ++ r))) = fs ++ (x ++ (s ++ y)) :: gs := by
      -- After a blank or a comma the visible characters start their word.
      by_cases hne : w = []
      · by_cases hplace : u = [] ∨ u.getLast? = some (byte ',')
        · obtain ⟨y, gs, hfront⟩ := exists_fields_front r
          exact ⟨[], [], y, gs, fun _ => rfl, by rw [hne, hl hplace]; exact hfront⟩
        · obtain ⟨fs, x, y, gs, haround⟩ := exists_fields_around l r
          exact ⟨fs, x, y, gs, fun h => absurd (h.resolve_left (not_not.mpr hne)) hplace,
            by rw [hne]; exact haround⟩
      · obtain ⟨y, gs, hfront⟩ := exists_fields_front r
        exact ⟨fields l, [], y, gs, fun _ => rfl, fun s hs => by
          rw [fields_gap l hw hne, hfront s hs]; rfl⟩
    refine ⟨ps, fs, x, y, gs, qs, hx, fun s hne hs => ?_⟩
    have hsolid : IsSolid s := ⟨hne, fun b hb => (hs b hb).1⟩
    have hcomma : byte ',' ∉ w ++ s := by
      rw [List.mem_append, not_or]
      exact ⟨notMem_comma hw, fun hmem => (hs _ hmem).2 rfl⟩
    have huncommented : IsUncommented (w ++ s) := List.forall_mem_append.mpr
      ⟨isUncommented_of_isBlank hw, isUncommented_of_isSolid hsolid⟩
    have hline := hpieces (w ++ s) hcomma huncommented
    rwa [List.append_assoc, List.append_assoc, hfields s hsolid] at hline

theorem spelling_letter (u v : Text) {a b : UInt8} (h : lowerByte a = lowerByte b) :
    spelling (u ++ a :: v) = spelling (u ++ b :: v) := by
  by_cases hne : a = b
  · rw [hne]
  · obtain ⟨ha, hb⟩ := isLetter_of_lowerByte h hne
    have hletter := isVisible_of_isLetter ha
    have hletter' := isVisible_of_isLetter hb
    rcases exists_linePieces_word u v isBlank_nil with
      ⟨k, hk⟩ | ⟨ps, fs, x, y, gs, qs, -, hline⟩
    · rw [spelling, spelling, hk, hk]
    · have hbefore : linePieces (u ++ a :: v) = ps ++ (fs ++ (x ++ a :: y) :: gs) :: qs :=
        hline [a] (by simp) (by simpa using hletter)
      have hafter : linePieces (u ++ b :: v) = ps ++ (fs ++ (x ++ b :: y) :: gs) :: qs :=
        hline [b] (by simp) (by simpa using hletter')
      have hsense := sense_letter h (isVisible_ascii hletter.1).1 (isVisible_ascii hletter'.1).1 x y
      rw [spelling, spelling, hbefore, hafter]
      simp only [List.map_append, List.map_cons, hsense]

theorem spelling_zero (u v : Text) {w : Text} {a d : UInt8} (hw : IsBlank w)
    (hplace : w ≠ [] ∨ u = [] ∨ u.getLast? = some (byte ',')) (ha : isLetter a = true)
    (hd : isDigit d = true) :
    spelling (u ++ (w ++ a :: 48 :: d :: v)) = spelling (u ++ (w ++ a :: d :: v)) := by
  have hletter := isVisible_of_isLetter ha
  have hdigit := isVisible_of_isDigit hd
  have hzero : isVisible 48 = true ∧ (48 : UInt8) ≠ byte ',' := by decide
  rcases exists_linePieces_word u v hw with ⟨k, hk⟩ | ⟨ps, fs, x, y, gs, qs, hx, hline⟩
  · rw [spelling, spelling, hk, hk]
  · obtain rfl := hx hplace
    have hbefore : linePieces (u ++ (w ++ a :: d :: v)) = ps ++ (fs ++ (a :: d :: y) :: gs) :: qs :=
      hline [a, d] (by simp) (by simp [hletter, hdigit])
    have hafter : linePieces (u ++ (w ++ a :: 48 :: d :: v)) =
        ps ++ (fs ++ (a :: 48 :: d :: y) :: gs) :: qs :=
      hline [a, 48, d] (by simp) (by simp [hletter, hzero, hdigit])
    rw [spelling, spelling, hbefore, hafter]
    simp only [List.map_append, List.map_cons, sense_zero (isVisible_ascii hletter.1).1 hd]

theorem spelling_edit {line line' : Text} (h : Edit line line') :
    spelling line' = spelling line := by
  cases h with
  | letter u v h => exact (spelling_letter u v h).symm
  | blanks u v hw hw' hplace _ =>
    rw [spelling, spelling, linePieces_blanks hw hw' hplace]
  | zero u v hw hplace ha hd => exact spelling_zero u v hw hplace ha hd
  | @comment _ text mark hmark _ =>
    have hstrip : stripComment (line ++ mark :: text) = stripComment line := by
      by_cases hline : IsUncommented line
      · rw [stripComment_append hline, stripComment_mark hmark, List.append_nil,
          stripComment_eq_self hline]
      · exact stripComment_of_comment hline _
    rw [spelling, spelling, linePieces, hstrip]
    rfl

/-! ### Reading a line by its words -/

def arranged {α : Type} (label : List α) (word : α) : List α → List (List α)
  | [] => [label ++ [word]]
  | x :: xs => (label ++ [word, x]) :: xs.map ([·])

theorem arranged_map {α β : Type} (f : α → β) (label : List α) (word : α) (xs : List α) :
    (arranged label word xs).map (·.map f) = arranged (label.map f) (f word) (xs.map f) := by
  cases xs <;> simp [arranged, Function.comp_def]

theorem arranged_label {α : Type} (word : α) (xs : List α) : ∃ more qs,
    more ≠ [] ∧ arranged [] word xs = more :: qs ∧
      ∀ label, arranged [label] word xs = (label :: more) :: qs := by
  cases xs with
  | nil => exact ⟨[word], [], by simp, rfl, fun _ => rfl⟩
  | cons x xs => exact ⟨[word, x], xs.map ([·]), by simp, rfl, fun _ => rfl⟩

theorem exists_of_map_singleton {α β : Type} {f : α → β} {ps : List (List α)} {xs : List β}
    (h : ps.map (·.map f) = xs.map ([·])) : ∃ ys : List α, ps = ys.map ([·]) ∧ ys.map f = xs := by
  induction ps generalizing xs with
  | nil => exact ⟨[], rfl, (List.map_eq_nil_iff.mp h.symm).symm⟩
  | cons p ps ih =>
    obtain ⟨x, xs, rfl, hx, hxs⟩ := List.map_eq_cons_iff.mp h.symm
    obtain ⟨y, rfl, rfl⟩ := List.map_eq_singleton_iff.mp hx.symm
    obtain ⟨ys, rfl, rfl⟩ := ih hxs.symm
    exact ⟨y :: ys, rfl, rfl⟩

theorem exists_of_arranged {α β : Type} {f : α → β} {ps : List (List α)} {label : List β} {word : β}
    {xs : List β} (h : ps.map (·.map f) = arranged label word xs) :
    ∃ (label' : List α) (word' : α) (xs' : List α), ps = arranged label' word' xs' ∧
      label'.map f = label ∧ f word' = word ∧ xs'.map f = xs := by
  cases xs with
  | nil =>
    obtain ⟨p, rfl, hp⟩ := List.map_eq_singleton_iff.mp h
    obtain ⟨label', rest, rfl, rfl, hrest⟩ := List.map_eq_append_iff.mp hp
    obtain ⟨word', rfl, rfl⟩ := List.map_eq_singleton_iff.mp hrest
    exact ⟨label', word', [], rfl, rfl, rfl, rfl⟩
  | cons x xs =>
    obtain ⟨p, ps, rfl, hp, hps⟩ := List.map_eq_cons_iff.mp h
    obtain ⟨label', rest, rfl, rfl, hrest⟩ := List.map_eq_append_iff.mp hp
    obtain ⟨word', last, rfl, rfl, hlast⟩ := List.map_eq_cons_iff.mp hrest
    obtain ⟨x', rfl, rfl⟩ := List.map_eq_singleton_iff.mp hlast
    obtain ⟨xs', rfl, rfl⟩ := exists_of_map_singleton hps
    exact ⟨label', word', x' :: xs', rfl, rfl, rfl, rfl⟩

theorem pieces_operands {s : Text} (h : ∀ p ∈ splitOn (byte ',') s, IsOperand (trim p)) :
    pieces s = ((splitOn (byte ',') s).map trim).map ([·]) := by
  rw [pieces, List.map_map]
  refine List.map_congr_left fun p hp => ?_
  obtain ⟨hsolid, -⟩ := (h p hp).isSolid
  have htoken : IsToken (trim p) := .of_visible hsolid.nonempty hsolid.visible
  rw [← fields_trim, htoken.fields_eq]
  rfl

theorem trim_of_pieces {ps xs : List Text} (h : ps.map fields = xs.map ([·])) :
    ps.map trim = xs := by
  induction ps generalizing xs with
  | nil => exact (List.map_eq_nil_iff.mp h.symm).symm
  | cons p ps ih =>
    obtain ⟨x, xs, rfl, hx, hxs⟩ := List.map_eq_cons_iff.mp h.symm
    rw [List.map_cons, trim_eq_of_fields hx.symm, ih hxs.symm]

variable {t word : Text} {ins : Instruction}

theorem operandTexts_of_ne_nil {rest : List Text} (h : rest ≠ []) :
    operandTexts rest = (splitOn (byte ',') (words rest)).map trim := by
  rw [operandTexts, if_neg (by simpa using h)]

theorem pieces_of_instructionOf {rest : List Text} (ht : ∀ w ∈ fields t, IsToken w)
    (hfields : fields t = word :: rest) (h : instructionOf (word :: rest) = .ok (some ins)) :
    ∃ op xs, pieces t = arranged [] word xs ∧ Opcode.ofMnemonic? (lower word) = some op ∧
      parseInstruction op xs = .ok ins := by
  cases hop : Opcode.ofMnemonic? (lower word) with
  | none => simp [instructionOf, hop] at h
  | some op =>
    cases hparse : parseInstruction op (operandTexts rest) with
    | error e => simp [instructionOf, hop, hparse, Except.map] at h
    | ok ins' =>
      obtain rfl : ins' = ins := by simpa [instructionOf, hop, hparse, Except.map] using h
      refine ⟨op, operandTexts rest, ?_, rfl, hparse⟩
      obtain ⟨hcomma, -⟩ := word_of_ofMnemonic hop
      by_cases hrest : rest = []
      · subst hrest
        rw [← fields_nil] at hfields
        exact pieces_of_fields_cons hfields hcomma (pieces_of_isBlank isBlank_nil)
      · have htokens : ∀ w ∈ rest, IsToken w := fun w hw =>
          ht w (hfields ▸ List.mem_cons_of_mem _ hw)
        have hoperands := isOperand_of_parseInstruction hparse
        rw [operandTexts_of_ne_nil hrest] at hoperands ⊢
        have hpieces := pieces_operands fun p hp => hoperands _ (List.mem_map_of_mem hp)
        obtain ⟨x, xs, hsplit⟩ : ∃ x xs, (splitOn (byte ',') (words rest)).map trim = x :: xs :=
          List.exists_cons_of_ne_nil (by simp [splitOn_ne_nil])
        rw [hsplit] at hpieces ⊢
        rw [← fields_tokens htokens] at hfields
        exact pieces_of_fields_cons hfields hcomma hpieces

theorem instructionOf_of_pieces {op : Opcode} {xs : List Text} (ht : ∀ w ∈ fields t, IsToken w)
    (hpieces : pieces t = arranged [] word xs) (hop : Opcode.ofMnemonic? (lower word) = some op)
    (hxs : parseInstruction op xs = .ok ins) :
    ∃ rest, fields t = word :: rest ∧ instructionOf (word :: rest) = .ok (some ins) := by
  suffices hrest : ∃ rest, fields t = word :: rest ∧ operandTexts rest = xs by
    obtain ⟨rest, hfields, rfl⟩ := hrest
    exact ⟨rest, hfields, by simp [instructionOf, hop, hxs, Except.map]⟩
  cases xs with
  | nil =>
    obtain ⟨s, hfields, hs⟩ := fields_of_pieces_cons hpieces (.inr rfl)
    exact ⟨[], by rw [hfields, fields_of_pieces_nil hs], rfl⟩
  | cons x xs =>
    obtain ⟨s, hfields, hs⟩ := fields_of_pieces_cons hpieces (.inl (List.cons_ne_nil x []))
    refine ⟨fields s, hfields, ?_⟩
    have hne : fields s ≠ [] := by
      intro hnil
      rw [pieces_of_isBlank (isBlank_of_fields hnil)] at hs
      simp at hs
    have htokens : ∀ w ∈ fields s, IsToken w := fun w hw =>
      ht w (hfields ▸ List.mem_cons_of_mem _ hw)
    rw [operandTexts_of_ne_nil hne]
    exact trim_of_pieces ((pieces_congr (fields_tokens htokens)).trans hs)

/-! ### Reading a line by the senses of its words -/

def Denotes (label : Option (Option Opcode × Text)) (senses : List (List (Option Opcode × Text)))
    (ins : Instruction) : Prop :=
  (∀ d ∈ label, isDecimal d.2 = true) ∧ ∃ word xs op, senses = arranged label.toList word xs ∧
    word.1 = some op ∧ parseInstruction op (xs.map (·.2)) = .ok ins

theorem denotes_of_parseCode {line : Text} (h : parseCode line = .ok (some ins))
    (hoffset : ∀ word, (fields (stripComment line)).head? = some word → isDecimal word = false) :
    Denotes none (spelling line) ins := by
  rw [parseCode_eq] at h
  rcases hfields : fields (stripComment line) with _ | ⟨word, rest⟩
  · rw [hfields] at h
    cases h
  · have hword : isDecimal word = false := hoffset word (by rw [hfields]; rfl)
    have hdrop : dropOffset (word :: rest) = word :: rest := by simp [dropOffset, hword]
    rw [hfields, hdrop] at h
    obtain ⟨op, xs, hpieces, hop, hxs⟩ :=
      pieces_of_instructionOf (fun w => isToken_of_mem_line) hfields h
    refine ⟨by simp, sense word, xs.map sense, op, ?_, hop, ?_⟩
    · rw [spelling, linePieces, hpieces, arranged_map]
      rfl
    · rw [List.map_map]
      exact parseInstruction_plain.mpr hxs

theorem parseCode_of_denotes {label : Option (Option Opcode × Text)} {line : Text}
    (h : Denotes label (spelling line) ins) :
    parseCode line = .ok (some ins) ∧
      ∀ w ∈ (fields (stripComment line)).head?, w.head? ≠ some (byte '.') := by
  obtain ⟨hlabel, word, xs, op, hsenses, hop, hxs⟩ := h
  obtain ⟨label', word, xs, hpieces, hlabel', rfl, rfl⟩ := exists_of_arranged hsenses
  have htokens : ∀ w ∈ fields (stripComment line), IsToken w := fun w => isToken_of_mem_line
  rw [List.map_map] at hxs
  have hxs : parseInstruction op xs = .ok ins := parseInstruction_plain.mp hxs
  obtain ⟨-, hpoint, hnumber⟩ := word_of_ofMnemonic hop
  cases label with
  | none =>
    obtain rfl : label' = [] := List.map_eq_nil_iff.mp hlabel'
    obtain ⟨rest, hfields, hins⟩ := instructionOf_of_pieces htokens hpieces hop hxs
    have hdrop : dropOffset (word :: rest) = word :: rest := by simp [dropOffset, hnumber]
    rw [parseCode_eq, hfields, hdrop]
    exact ⟨hins, by simpa using hpoint⟩
  | some d =>
    obtain ⟨digits, rfl, rfl⟩ := List.map_eq_singleton_iff.mp hlabel'
    have hdigits : isDecimal digits = true := by
      rw [← isDecimal_plain]
      exact hlabel (sense digits) rfl
    obtain ⟨more, qs, hmore, hword, hcons⟩ := arranged_label word xs
    obtain ⟨s, hfields, hs⟩ :=
      fields_of_pieces_cons (hpieces.trans (hcons digits)) (.inl hmore)
    obtain ⟨rest, hrest, hins⟩ := instructionOf_of_pieces
      (fun w hw => htokens w (hfields ▸ List.mem_cons_of_mem _ hw)) (hs.trans hword.symm) hop hxs
    have hdrop : dropOffset (digits :: fields s) = fields s := by simp [dropOffset, hdigits]
    rw [parseCode_eq, hfields, hdrop, hrest]
    refine ⟨hins, fun w hw hpoint => ?_⟩
    obtain rfl : digits = w := Option.some.inj hw
    have hdigit := (isDecimal_iff.mp hdigits).2 _ (List.mem_of_head? hpoint)
    exact absurd hdigit (by decide)

theorem parseLine_eq_instruction_iff {line : Text} :
    parseLine line = .ok (some (.instruction ins)) ↔
      (trim line).head? ≠ some (byte '.') ∧ parseCode line = .ok (some ins) := by
  unfold parseLine
  dsimp only
  split
  · next hpoint =>
    simp only [hpoint, ne_eq, not_true_eq_false, false_and, iff_false]
    intro h
    cases hdirective : parseDirective (trim line) with
    | error e => simp [hdirective, Except.map] at h
    | ok item =>
      obtain rfl : item = .instruction ins := by simpa [hdirective, Except.map] using h
      exact parseDirective_ne_instruction hdirective
  · next hpoint =>
    cases parseCode line with
    | error e => simp [Except.map]
    | ok code => cases code <;> simp [Except.map, hpoint]

theorem head_trim {line : Text} (h : (trim line).head? = some (byte '.')) :
    ∃ w ∈ (fields (stripComment line)).head?, w.head? = some (byte '.') := by
  obtain ⟨t, ht⟩ := List.head?_eq_some_iff.mp h
  obtain ⟨w, v, hline, hw, -⟩ := exists_trim line
  obtain ⟨y, gs, hfields⟩ := exists_fields_front (stripComment (t ++ v))
  have hline : stripComment line = w ++ ([byte '.'] ++ stripComment (t ++ v)) := by
    rw [hline, ht, stripComment_append (isUncommented_of_isBlank hw)]
    exact congrArg (w ++ ·) (stripComment_append (isUncommented_of_isSolid isSolid_point) (t ++ v))
  refine ⟨[byte '.'] ++ y, ?_, rfl⟩
  rw [hline, hw.fields_append, hfields _ isSolid_point]
  rfl

theorem parseNumbered_of_denotes {label : Option (Option Opcode × Text)} {line : Text}
    (h : Denotes label (spelling line) ins) (hlength : line.length < lineLimit) (number : Nat) :
    parseNumbered (line, number) = .ok (some (.instruction ins)) := by
  rw [← spelling_dropReturn] at h
  obtain ⟨hcode, hhead⟩ := parseCode_of_denotes h
  have hline : parseLine (dropReturn line) = .ok (some (.instruction ins)) := by
    refine parseLine_eq_instruction_iff.mpr ⟨fun hpoint => ?_, hcode⟩
    obtain ⟨w, hw, hwpoint⟩ := head_trim hpoint
    exact hhead w hw hwpoint
  unfold parseNumbered
  dsimp only
  rw [if_neg (Nat.not_le.mpr hlength), hline]
  rfl

theorem denotes_of_parseNumbered {line : Text} {number : Nat}
    (h : parseNumbered (line, number) = .ok (some (.instruction ins)))
    (hoffset : ∀ word, (fields (stripComment line)).head? = some word → isDecimal word = false) :
    Denotes none (spelling line) ins := by
  rw [← spelling_dropReturn]
  refine denotes_of_parseCode (parseLine_eq_instruction_iff.mp (parseNumbered_ok h)).2 ?_
  rwa [fields_dropReturn]

/-! ### An offset in front -/

theorem spelling_offset {digits line : Text} (h : isDecimal digits = true) {more qs}
    (hline : spelling line = more :: qs) :
    spelling (digits ++ 32 :: line) = (sense digits :: more) :: qs := by
  have hdigit := (isDecimal_iff.mp h).2
  have hsolid : IsSolid digits :=
    ⟨(isDecimal_iff.mp h).1, fun b hb => (isVisible_of_isDigit (hdigit b hb)).1⟩
  have htoken : IsToken digits := .of_visible hsolid.nonempty hsolid.visible
  have hstrip : stripComment (digits ++ 32 :: line) = digits ++ 32 :: stripComment line := by
    rw [stripComment_append (isUncommented_of_isSolid hsolid)]
    exact congrArg (digits ++ ·) (List.takeWhile_cons_of_pos (by decide))
  have hcomma : byte ',' ∉ digits := fun hmem => (isVisible_of_isDigit (hdigit _ hmem)).2 rfl
  obtain ⟨ws, ps, hpieces, rfl, rfl⟩ := List.map_eq_cons_iff.mp hline
  have hfields := htoken.fields_append (stripComment line)
  rw [← hstrip] at hfields
  rw [spelling, linePieces, pieces_of_fields_cons hfields hcomma hpieces]
  rfl

/-- The line with its layout changed in any number of steps, and with an offset put in front at most
once. -/
def Relaid (line line' : Text) : Prop :=
  ∃ m m', Relation.ReflTransGen Edit line m ∧
    (m' = m ∨ ∃ digits, (∀ d ∈ digits, isDigit d = true) ∧ m' = digits ++ 32 :: m) ∧
    Relation.ReflTransGen Edit m' line'

theorem spelling_edits {line line' : Text} (h : Relation.ReflTransGen Edit line line') :
    spelling line' = spelling line := by
  induction h with
  | refl => rfl
  | tail _ hedit ih => rw [spelling_edit hedit, ih]

theorem Relaid.denotes {line line' : Text} (h : Relaid line line')
    (hline : Denotes none (spelling line) ins) : ∃ label, Denotes label (spelling line') ins := by
  obtain ⟨m, m', hfront, hoffset, hback⟩ := h
  rw [spelling_edits hback]
  rw [← spelling_edits hfront] at hline
  rcases hoffset with rfl | ⟨digits, hdigits, rfl⟩
  · exact ⟨none, hline⟩
  · by_cases hne : digits = []
    · have hspace : IsBlank [32] :=
        isBlank_ascii (List.forall_mem_singleton.mpr ⟨by decide, by decide⟩)
      have hblank := Edit.blanks [] m isBlank_nil hspace (.inl (.inl (.inl rfl))) (by decide)
      have hsame : spelling (32 :: m) = spelling m := spelling_edit hblank
      exact ⟨none, by rwa [hne, List.nil_append, hsame]⟩
    · have hdecimal : isDecimal digits = true := isDecimal_iff.mpr ⟨hne, hdigits⟩
      obtain ⟨-, word, xs, op, hsenses, hop, hxs⟩ := hline
      obtain ⟨more, qs, -, hword, hcons⟩ := arranged_label word xs
      refine ⟨some (sense digits), ?_, word, xs, op, ?_, hop, hxs⟩
      · intro d hd
        rwa [← Option.some.inj hd, sense, isDecimal_plain]
      · exact (spelling_offset hdecimal (hsenses.trans hword)).trans (hcons _).symm

/-! ### Lines in a text -/

theorem newline_edit {line line' : Text} (h : Edit line line') (hline : newline ∉ line) :
    newline ∉ line' := by
  have hvisible : ∀ b : UInt8, isVisible b = true → newline ≠ b := by
    rintro _ hb rfl
    exact absurd hb (by decide)
  cases h with
  | @letter u v a b h =>
    simp only [List.mem_append, List.mem_cons, not_or] at hline ⊢
    refine ⟨hline.1, ?_, hline.2.2⟩
    by_cases hne : a = b
    · exact hne ▸ hline.2.1
    · exact hvisible b (isVisible_of_isLetter (isLetter_of_lowerByte h hne).2).1
  | blanks u v hw hw' hplace hnewline =>
    simp only [List.mem_append, not_or] at hline ⊢
    exact ⟨hline.1, hnewline, hline.2.2⟩
  | @zero u v w a d hw hplace ha hd =>
    simp only [List.mem_append, List.mem_cons, not_or] at hline ⊢
    obtain ⟨hu, hw, ha, hd, hv⟩ := hline
    exact ⟨hu, hw, ha, by decide, hd, hv⟩
  | @comment _ text mark hmark hnewline =>
    simp only [List.mem_append, List.mem_cons, not_or]
    exact ⟨hline, by rcases hmark with rfl | rfl <;> decide, hnewline⟩

theorem Relaid.newline {line line' : Text} (h : Relaid line line') (hline : newline ∉ line) :
    newline ∉ line' := by
  have hedits : ∀ {m m' : Text}, Relation.ReflTransGen Edit m m' → Assembly.newline ∉ m →
      Assembly.newline ∉ m' := by
    intro m m' hedits hm
    induction hedits with
    | refl => exact hm
    | tail _ hedit ih => exact newline_edit hedit ih
  obtain ⟨m, m', hfront, hoffset, hback⟩ := h
  refine hedits hback ?_
  have hm := hedits hfront hline
  rcases hoffset with rfl | ⟨digits, hdigits, rfl⟩
  · exact hm
  · have hnot : Assembly.newline ∉ digits := fun hmem => absurd (hdigits _ hmem) (by decide)
    simp [hnot, hm]
    decide

theorem rawLines_newline {line : Text} (h : newline ∉ line) :
    rawLines (line ++ [newline]) = [line] := by
  rw [rawLines, splitOn_append h []]
  rfl

theorem programOf_instruction (ins : Instruction) :
    programOf [.instruction ins] = { code := some ins.encode } := by
  simp [programOf, codeOf, Item.name?, Item.instruction?, Item.constant?, Item.inputNames,
    Item.outputNames, Item.set?]

theorem parse_of_rawLines {t line : Text} (ht : rawLines t = [line])
    (h : parseNumbered (line, 1) = .ok (some (.instruction ins))) :
    parse t = .ok { code := some ins.encode } := by
  rw [parse, parseItems, ht, ← programOf_instruction]
  simp [h, Except.map, bind, Except.bind, pure, Except.pure]

theorem rawLines_line {line : Text} (hline : newline ∉ line) (hne : line ≠ []) :
    rawLines line = [line] := by
  rw [rawLines, splitOn_of_notMem hline]
  simp [hne]

theorem exists_of_parse_line {line : Text} {p : Program} (hline : newline ∉ line)
    (h : parse line = .ok p) (hcode : p.code ≠ none) :
    ∃ ins, parseNumbered (line, 1) = .ok (some (.instruction ins)) ∧
      p = { code := some ins.encode } := by
  by_cases hne : line = []
  · subst hne
    obtain rfl : programOf [] = p := Except.ok.inj h
    exact absurd rfl hcode
  · rw [parse, parseItems, rawLines_line hline hne] at h
    cases hread : parseNumbered (line, 1) with
    | error e => simp [hread, Except.map, bind, Except.bind] at h
    | ok item =>
      have hp : programOf ([item].filterMap id) = p := by
        simpa [hread, Except.map, bind, Except.bind, pure, Except.pure] using h
      subst hp
      cases item with
      | none => exact absurd rfl hcode
      | some item =>
        cases item with
        | instruction ins => exact ⟨ins, rfl, programOf_instruction ins⟩
        | name | inputs | outputs | constant | set => exact absurd rfl hcode

theorem parse_within {line : Text} (hline : newline ∉ line)
    (h : parseNumbered (line, 1) = .ok (some (.instruction ins))) {before : Text}
    (hbefore : IsClosed before) :
    parse (before ++ (line ++ [newline])) =
      (parse before).map fun p => { p with code := some (p.bytes ++ ins.encode) } := by
  rw [parse_append hbefore, parse_of_rawLines (rawLines_newline hline) h]
  cases parse before with
  | error e => rfl
  | ok p => exact congrArg Except.ok (p.merge_code ins.encode)

/-- A line that is read as an instruction without an offset is read as the same instruction in any
other layout, wherever it stands. -/
theorem layout_immaterial {line line' : Text} {p : Program} (hline : newline ∉ line)
    (hread : parse line = .ok p) (hcode : p.code ≠ none)
    (hoffset : ∀ word, (fields (stripComment line)).head? = some word → isDecimal word = false)
    (hrelaid : Relaid line line') (hlength : line'.length < lineLimit) :
    newline ∉ line' ∧ parse line' = .ok p ∧ ∀ before, IsClosed before →
      (∀ q, parse before = .ok q →
        parse (before ++ (line' ++ [newline])) = .ok { q with code := some (q.bytes ++ p.bytes) }) ∧
      ∀ after, parse (before ++ (line' ++ newline :: after)) =
        parse (before ++ (line ++ newline :: after)) := by
  obtain ⟨ins, hins, rfl⟩ := exists_of_parse_line hline hread hcode
  obtain ⟨label, hdenotes⟩ := hrelaid.denotes (denotes_of_parseNumbered hins hoffset)
  have hins' := parseNumbered_of_denotes hdenotes hlength 1
  have hline' := hrelaid.newline hline
  have hne' : line' ≠ [] := by
    rintro rfl
    obtain ⟨hcode, -⟩ := parseCode_of_denotes hdenotes
    rw [parseCode_eq, stripComment, List.takeWhile_nil, fields_nil] at hcode
    cases hcode
  refine ⟨hline', parse_of_rawLines (rawLines_line hline' hne') hins', fun before hbefore =>
    ⟨fun q hq => ?_, fun after => ?_⟩⟩
  · rw [parse_within hline' hins' hbefore, hq]
    rfl
  · have hcut : ∀ t : Text,
        before ++ (t ++ newline :: after) = before ++ (t ++ [newline]) ++ after := by
      simp
    have hclosed : ∀ t : Text, IsClosed (before ++ (t ++ [newline])) := fun t =>
      hbefore.append (isClosed_append_newline t)
    rw [hcut, hcut, parse_append (hclosed line'), parse_append (hclosed line),
      parse_within hline' hins' hbefore, parse_within hline hins hbefore, rawLines_append hbefore,
      rawLines_append hbefore, rawLines_newline hline', rawLines_newline hline, List.length_append,
      List.length_append]
    rfl

theorem layout_absolute :
    parse (lit "abs t1, i0") = .ok { code := some [11, 0, 64, 1] } ∧
      Relaid (lit "abs t1, i0") (lit "007 abs\t T01,i0;x") ∧
      parse (lit "007 abs\t T01,i0;x") = .ok { code := some [11, 0, 64, 1] } := by
  -- An instruction with a letter in the other case, other blanks, a zero more, a comment and an
  -- offset.
  have hread : parse (lit "abs t1, i0") = .ok { code := some [11, 0, 64, 1] } := by decide +kernel
  have hletter : Edit (lit "abs t1, i0") (lit "abs T1, i0") :=
    .letter (lit "abs ") (lit "1, i0") (a := byte 't') (b := byte 'T') (by decide)
  have hspace : IsBlank (lit " ") := isBlank_ascii (by decide +kernel)
  have hwide : IsBlank (lit "\t ") := isBlank_ascii (by decide +kernel)
  have hgap : Edit (lit "abs T1, i0") (lit "abs\t T1, i0") :=
    .blanks (lit "abs") (lit "T1, i0") hspace hwide (.inr (by decide)) (by decide)
  have hzero : Edit (lit "abs\t T1, i0") (lit "abs\t T01, i0") :=
    .zero (lit "abs") (lit ", i0") (a := byte 'T') (d := byte '1') hwide (.inl (by decide))
      (by decide) (by decide)
  have hcomma : Edit (lit "abs\t T01, i0") (lit "abs\t T01,i0") :=
    .blanks (lit "abs\t T01,") (lit "i0") hspace isBlank_nil (.inl (.inl (.inr (by decide))))
      (by decide)
  have hcomment : Edit (lit "abs\t T01,i0") (lit "abs\t T01,i0;x") :=
    .comment _ (lit "x") (c := byte ';') (.inr rfl) (by decide)
  have hrelaid : Relaid (lit "abs t1, i0") (lit "007 abs\t T01,i0;x") :=
    ⟨_, _, .tail (.tail (.tail (.tail (.single hletter) hgap) hzero) hcomma) hcomment,
      .inr ⟨lit "007", by decide +kernel, rfl⟩, .refl⟩
  have hoffset : ∀ word, (fields (stripComment (lit "abs t1, i0"))).head? = some word →
      isDecimal word = false := by
    intro word hword
    have hhead : (fields (stripComment (lit "abs t1, i0"))).head? = some (lit "abs") := by
      decide +kernel
    rw [← Option.some.inj (hhead.symm.trans hword)]
    decide
  exact ⟨hread, hrelaid, (layout_immaterial (by decide) hread (by simp) hoffset hrelaid
    (by decide)).2.1⟩

end Assembly
end Quadlane
