import Quadlane.Proofs.Formatting
import Quadlane.Proofs.Pieces

/-! Reading a source text by places. The words of a line, the operands of an instruction and the
bytes of an operand are looked at by their numbers, and sources and lanes are put into arrays of
four. In a checked reading each of these accesses may find nothing, which ends it for good; it never
comes to that, and so the checked reading is the reading. -/

namespace Quadlane.Assembly

open Text

/-! ### The words of an instruction -/

def dropOffset (fields : List Text) : List Text :=
  if (fields.head?.map isDecimal).getD false then fields.drop 1 else fields

def instructionOf : List Text → Except LineError (Option Instruction)
  | [] => .ok none
  | word :: rest =>
    match Opcode.ofMnemonic? (lower word) with
    | none => .error (.unknownMnemonic word)
    | some op => (parseInstruction op (operandTexts rest)).map some

theorem parseCode_eq (line : Text) :
    parseCode line = instructionOf (dropOffset (fields (stripComment line))) :=
  rfl

theorem isSolid_point : IsSolid [byte '.'] :=
  ⟨by simp, List.forall_mem_singleton.mpr (by decide)⟩

/-! ### Checked readings -/

/-- A reading that is over when it looks for something at a place that is not there. -/
abbrev Checked (ε α : Type) : Type := ExceptT ε Option α

namespace Checked

variable {ε ε' α β : Type}

def of (r : Except ε α) : Checked ε α :=
  ExceptT.mk (some r)

def get (l : List α) (i : Nat) : Checked ε α :=
  ExceptT.mk (l[i]?.map .ok)

def tail (l : List α) (i : Nat) : Checked ε (List α) :=
  ExceptT.mk (if i ≤ l.length then some (.ok (l.drop i)) else none)

def fill (count size : Nat) : Checked ε Unit :=
  ExceptT.mk (if count ≤ size then some (.ok ()) else none)

def number (s : Text) (limit : Nat) : Checked LineError Nat :=
  if s.length < 2 then throw (.malformedOperand s)
  else do
    let digits ← tail s 1
    if !isDecimal digits then throw (.malformedOperand s)
    else if limit ≤ toNat digits then throw (.outOfRange s)
    else return toNat digits

def place (s : Text) (limit : Nat) : Checked LineError Int :=
  (fun i : Nat => (i : Int)) <$> number s limit

def register (s : Text) : Checked LineError Operand :=
  if s.isEmpty then throw .emptyOperand
  else do
    let letter := lowerByte (← get s 0)
    if letter = byte 't' then Operand.temp <$> place s Limit.temporaries
    else if letter = byte 'i' then Operand.input <$> place s Limit.inputs
    else if letter = byte 'o' then Operand.output <$> place s Limit.outputs
    else if letter = byte 'r' then Operand.raw <$> place s 256
    else throw (.unknownOperand s)

def source (s : Text) : Checked LineError Operand :=
  if s.isEmpty then register s
  else do
    if lowerByte (← get s 0) = byte 'c' then Operand.constant <$> place s Limit.constants
    else register s

def destination (s : Text) : Checked LineError Operand := do
  let o ← source s
  if o.kind = .constant then throw (.constantDestination s) else return o

def indexed (s : Text) (letter : Char) : Checked LineError Nat :=
  if s.isEmpty then throw (.expectedIndex letter s)
  else do
    if (← get s 0) ||| 0x20 = byte letter then number s 256
    else throw (.expectedIndex letter s)

def sources : List Text → Checked LineError (List Operand)
  | [] => return []
  | s :: rest => do
    let o ← source s
    return o :: (← sources rest)

def head (layout : Layout) (operands : List Text) : Checked LineError Head :=
  match layout with
  | .none => return {}
  | .kernel => do
    return { destination := ← destination (← get operands 0) }
  | .cursor | .valid => do
    let destination ← destination (← get operands 0)
    return { destination, set := ← indexed (← get operands 1) 's' }
  | .read => do
    let destination ← destination (← get operands 0)
    let set ← indexed (← get operands 1) 's'
    return { destination, set, var := ← indexed (← get operands 2) 'v' }
  | .write => do
    let set ← indexed (← get operands 0) 's'
    return { set, var := ← indexed (← get operands 1) 'v' }

def instruction (op : Opcode) (operands : List Text) : Checked LineError Instruction :=
  let expected := headCount op.layout + op.arity
  if operands.length ≠ expected then throw (.operandCount op expected operands.length)
  else do
    let head ← head op.layout operands
    let srcs ← sources (← tail operands (headCount op.layout))
    fill srcs.length 4
    of ((Instruction.make op head.set head.var head.destination srcs).mapError .instruction)

def vector (lanes : List Text) : Checked VectorError Quad :=
  if lanes.length ≠ 1 && lanes.length ≠ 4 then throw (.laneCount lanes.length)
  else do
    fill lanes.length 4
    of (parseVector lanes)

def directive (line : Text) : Checked LineError Item :=
  let fields := fields (stripComment line)
  if fields.length < 2 then do
    throw (.directiveNeedsName (← get fields 0))
  else do
    let word := lower (← get fields 0)
    let arguments ← tail fields 1
    let name ← get arguments 0
    if word = lit ".name" then
      if arguments.length ≠ 1 then throw .nameTakesOne else return .name name
    else if word = lit ".input" then return .inputs arguments
    else if word = lit ".output" then return .outputs arguments
    else if word = lit ".const" then do
      let value ← (vector (← tail arguments 1)).adapt .vector
      return .constant ⟨name, value⟩
    else if word = lit ".dataset" then return .set ⟨name, ← tail arguments 1⟩
    else throw (.unknownDirective (← get fields 0))

def words (fields : List Text) : Checked LineError (Option Instruction) :=
  if fields.isEmpty then return none
  else do
    let word ← get fields 0
    match Opcode.ofMnemonic? (lower word) with
    | none => throw (.unknownMnemonic word)
    | some op => some <$> instruction op (operandTexts (← tail fields 1))

def code (line : Text) : Checked LineError (Option Instruction) :=
  let fields := fields (stripComment line)
  if fields.isEmpty then return none
  else do
    if isDecimal (← get fields 0) then words (← tail fields 1) else words fields

def line (text : Text) : Checked LineError (Option Item) :=
  let trimmed := trim text
  if trimmed.head? = some (byte '.') then some <$> directive trimmed
  else (·.map .instruction) <$> code text

def numbered (entry : Text × Nat) : Checked SourceError (Option Item) :=
  if lineLimit ≤ entry.1.length then throw .lineTooLong
  else (line (dropReturn entry.1)).adapt (.line entry.2 (trim (dropReturn entry.1)))

def parse (source : Text) : Checked SourceError Program := do
  let items ← ((rawLines source).zipIdx 1).mapM numbered
  return programOf (items.filterMap id)

/-! ### Every place is there -/

theorem of_ok_bind (a : α) (f : α → Checked ε β) : (of (.ok a) >>= f) = f a :=
  rfl

theorem map_of (f : α → β) (r : Except ε α) : f <$> of r = of (r.map f) := by
  cases r <;> rfl

theorem adapt_of (f : ε → ε') (r : Except ε α) : (of r).adapt f = of (r.mapError f) := by
  cases r <;> rfl

theorem get_cons (a : α) (l : List α) : get (a :: l) 0 = (of (.ok a) : Checked ε α) :=
  rfl

theorem get_cons_succ (a : α) (l : List α) (i : Nat) :
    get (a :: l) (i + 1) = (get l i : Checked ε α) :=
  rfl

theorem tail_of_le {l : List α} {i : Nat} (h : i ≤ l.length) :
    tail l i = (of (.ok (l.drop i)) : Checked ε (List α)) := by
  rw [tail, if_pos h]
  rfl

theorem fill_of_le {count size : Nat} (h : count ≤ size) :
    fill count size = (of (.ok ()) : Checked ε Unit) := by
  rw [fill, if_pos h]
  rfl

theorem number_eq (s : Text) (limit : Nat) : number s limit = of (parseNumber s limit) := by
  unfold number parseNumber
  dsimp only
  rcases s with _ | ⟨b, _ | ⟨digit, digits⟩⟩
  · rfl
  · rfl
  · rw [if_neg (by simp), tail_of_le (by simp), of_ok_bind]
    split
    · rfl
    · split <;> rfl

theorem map_place (f : Int → Operand) (s : Text) (limit : Nat) :
    f <$> place s limit = of ((do let i ← parseNumber s limit; pure (i : Int)).map f) := by
  rw [place, number_eq]
  cases parseNumber s limit <;> rfl

theorem register_eq (s : Text) : register s = of (parseRegister s) := by
  unfold register parseRegister
  cases s with
  | nil => rfl
  | cons b digits =>
    rw [List.isEmpty_cons, if_neg (by simp), get_cons, of_ok_bind]
    simp only [map_place]
    split_ifs <;> rfl

theorem source_eq (s : Text) : source s = of (parseSource s) := by
  unfold source parseSource
  cases s with
  | nil => exact register_eq []
  | cons b digits =>
    rw [List.isEmpty_cons, if_neg (by simp), get_cons, of_ok_bind]
    simp only [map_place, register_eq]
    split_ifs <;> rfl

theorem destination_eq (s : Text) : destination s = of (parseDestination s) := by
  unfold destination parseDestination
  rw [source_eq]
  cases parseSource s with
  | error e => rfl
  | ok o =>
    rw [of_ok_bind]
    dsimp only
    split <;> rfl

theorem indexed_eq (s : Text) (letter : Char) : indexed s letter = of (parseIndexed s letter) := by
  unfold indexed parseIndexed
  cases s with
  | nil => rfl
  | cons b digits =>
    rw [List.isEmpty_cons, if_neg (by simp), get_cons, of_ok_bind]
    simp only [number_eq]
    split <;> rfl

theorem sources_eq (operands : List Text) : sources operands = of (parseSources operands) := by
  induction operands with
  | nil => rfl
  | cons s operands ih =>
    rw [sources, parseSources, source_eq, ih]
    cases parseSource s with
    | error e => rfl
    | ok o => cases parseSources operands <;> rfl

theorem head_eq {layout : Layout} {operands : List Text}
    (h : headCount layout ≤ operands.length) :
    head layout operands = of (parseHead layout operands) := by
  cases layout with
  | none => rfl
  | kernel =>
    obtain ⟨d, rest, rfl⟩ := List.exists_cons_of_length_pos h
    simp only [head, parseHead, get_cons, of_ok_bind, destination_eq]
    cases parseDestination d <;> rfl
  | cursor | valid =>
    obtain ⟨d, rest, rfl⟩ := List.exists_cons_of_length_pos (Nat.lt_of_succ_lt h)
    obtain ⟨s, rest, rfl⟩ := List.exists_cons_of_length_pos (Nat.lt_of_succ_lt_succ h)
    simp only [head, parseHead, get_cons, get_cons_succ, of_ok_bind, destination_eq, indexed_eq]
    cases parseDestination d with
    | error e => rfl
    | ok destination => cases parseIndexed s 's' <;> rfl
  | read =>
    obtain ⟨d, rest, rfl⟩ :=
      List.exists_cons_of_length_pos (Nat.lt_of_succ_lt (Nat.lt_of_succ_lt h))
    obtain ⟨s, rest, rfl⟩ :=
      List.exists_cons_of_length_pos (Nat.lt_of_succ_lt (Nat.lt_of_succ_lt_succ h))
    obtain ⟨v, rest, rfl⟩ :=
      List.exists_cons_of_length_pos (Nat.lt_of_succ_lt_succ (Nat.lt_of_succ_lt_succ h))
    simp only [head, parseHead, get_cons, get_cons_succ, of_ok_bind, destination_eq, indexed_eq]
    cases parseDestination d with
    | error e => rfl
    | ok destination =>
      cases parseIndexed s 's' with
      | error e => rfl
      | ok set => cases parseIndexed v 'v' <;> rfl
  | write =>
    obtain ⟨s, rest, rfl⟩ := List.exists_cons_of_length_pos (Nat.lt_of_succ_lt h)
    obtain ⟨v, rest, rfl⟩ := List.exists_cons_of_length_pos (Nat.lt_of_succ_lt_succ h)
    simp only [head, parseHead, get_cons, get_cons_succ, of_ok_bind, indexed_eq]
    cases parseIndexed s 's' with
    | error e => rfl
    | ok set => cases parseIndexed v 'v' <;> rfl

theorem length_of_parseSources {operands : List Text} {srcs : List Operand}
    (h : parseSources operands = .ok srcs) : srcs.length = operands.length := by
  induction operands generalizing srcs with
  | nil =>
    obtain rfl := Except.ok.inj h
    rfl
  | cons s operands ih =>
    rw [parseSources] at h
    cases hs : parseSource s with
    | error e => simp [hs] at h
    | ok o =>
      cases hrest : parseSources operands with
      | error e => simp [hs, hrest, Except.map] at h
      | ok rest =>
        obtain rfl : o :: rest = srcs := by simpa [hs, hrest, Except.map] using h
        rw [List.length_cons, List.length_cons, ih hrest]

theorem instruction_eq (op : Opcode) (operands : List Text) :
    instruction op operands = of (parseInstruction op operands) := by
  unfold instruction parseInstruction
  dsimp only
  split
  · rfl
  · next hcount =>
    have hlength : operands.length = headCount op.layout + op.arity := Classical.not_not.mp hcount
    have hhead : headCount op.layout ≤ operands.length := by omega
    rw [head_eq hhead, tail_of_le hhead]
    cases parseHead op.layout operands with
    | error e => rfl
    | ok head =>
      rw [of_ok_bind, of_ok_bind, sources_eq]
      cases hsources : parseSources (operands.drop (headCount op.layout)) with
      | error e => rfl
      | ok srcs =>
        have hfour : srcs.length ≤ 4 := by
          rw [length_of_parseSources hsources, List.length_drop, hlength, Nat.add_sub_cancel_left]
          exact op.arity_le_four
        rw [of_ok_bind, fill_of_le hfour, of_ok_bind]
        dsimp only
        cases Instruction.make op head.set head.var head.destination srcs <;> rfl

theorem vector_eq (lanes : List Text) : vector lanes = of (parseVector lanes) := by
  unfold vector
  split
  · next hcount =>
    rw [parseVector, if_pos hcount]
    rfl
  · next hcount =>
    have hfour : lanes.length ≤ 4 := by
      simp only [Bool.and_eq_true, decide_eq_true_eq] at hcount
      omega
    rw [fill_of_le hfour, of_ok_bind]

theorem directive_eq {line : Text} (h : line.head? = some (byte '.')) :
    directive line = of (parseDirective line) := by
  obtain ⟨rest, rfl⟩ : ∃ rest, line = byte '.' :: rest := List.head?_eq_some_iff.mp h
  have hstrip : stripComment (byte '.' :: rest) = byte '.' :: stripComment rest := by
    rw [stripComment, List.takeWhile_cons_of_pos (by decide)]
    rfl
  obtain ⟨word, words, hfields⟩ : ∃ word words, fields (byte '.' :: stripComment rest) =
      word :: words := by
    obtain ⟨y, gs, hfront⟩ := exists_fields_front (stripComment rest)
    exact ⟨_, gs, hfront _ isSolid_point⟩
  unfold directive parseDirective
  rw [hstrip, hfields]
  dsimp only
  cases words with
  | nil => rfl
  | cons name words =>
    have hname : (name :: words).length ≠ 1 ↔ ¬ words.isEmpty = true := by
      simp [List.length_eq_zero_iff]
    have htail : (tail (name :: words) 1 : Checked LineError (List Text)) = of (.ok words) :=
      tail_of_le (by simp)
    rw [if_neg (by simp), get_cons, tail_of_le (by simp), of_ok_bind, of_ok_bind]
    simp only [List.drop_succ_cons, List.drop_zero, get_cons, of_ok_bind, htail, vector_eq,
      adapt_of, hname, ite_not]
    split_ifs with hword hempty
    · rfl
    · rfl
    · rfl
    · rfl
    · cases parseVector words <;> rfl
    · rfl
    · rfl

theorem words_eq (fields : List Text) : words fields = of (instructionOf fields) := by
  unfold words
  cases fields with
  | nil => rfl
  | cons word rest =>
    rw [List.isEmpty_cons, if_neg (by simp), get_cons, of_ok_bind, instructionOf]
    cases Opcode.ofMnemonic? (lower word) with
    | none => rfl
    | some op =>
      dsimp only
      rw [tail_of_le (by simp), of_ok_bind, instruction_eq, map_of]
      rfl

theorem code_eq (line : Text) : code line = of (parseCode line) := by
  rw [parseCode_eq, code]
  cases fields (stripComment line) with
  | nil => rfl
  | cons word rest =>
    rw [List.isEmpty_cons, if_neg (by simp), get_cons, of_ok_bind, dropOffset, List.head?_cons,
      Option.map_some, Option.getD_some]
    split
    · rw [tail_of_le (by simp), of_ok_bind, words_eq]
    · rw [words_eq]

theorem line_eq (text : Text) : line text = of (parseLine text) := by
  unfold line parseLine
  dsimp only
  split
  · next hpoint => rw [directive_eq hpoint, map_of]
  · rw [code_eq, map_of]

theorem numbered_eq (entry : Text × Nat) : numbered entry = of (parseNumbered entry) := by
  obtain ⟨raw, number⟩ := entry
  unfold numbered parseNumbered
  dsimp only
  split
  · rfl
  · rw [line_eq, adapt_of]

theorem mapM_eq {f : α → Checked ε β} {g : α → Except ε β} (h : ∀ a, f a = of (g a)) (l : List α) :
    l.mapM f = of (l.mapM g) := by
  induction l with
  | nil => rfl
  | cons a l ih =>
    rw [List.mapM_cons, List.mapM_cons, h, ih]
    cases g a with
    | error e => rfl
    | ok b => cases l.mapM g <;> rfl

theorem parse_eq (source : Text) : parse source = of (Assembly.parse source) := by
  unfold parse Assembly.parse parseItems
  rw [mapM_eq numbered_eq]
  cases ((rawLines source).zipIdx 1).mapM parseNumbered <;> rfl

end Checked
end Quadlane.Assembly
