import Quadlane.Image.File
import Quadlane.Proofs.ItemReading
import Quadlane.Proofs.Rounding

/-! An image holds a program as far as its texts are UTF-8 and its lists are not too long. Such a
program is read back from its image with every value that is not a number in one form; any other is
refused. -/

namespace Quadlane

/-- A program with its constants in the form they have in an image. -/
def Program.canonical (p : Program) : Program :=
  { p with constants := p.constants.map fun c => { c with value := c.value.map Lane.canonical } }

def Program.texts (p : Program) : List Text :=
  p.name :: (p.constants.map (·.name) ++ p.inputs ++ p.outputs ++
    p.sets.flatMap fun s => s.name :: s.vars)

def Program.listLengths (p : Program) : List Nat :=
  [p.constants.length, p.inputs.length, p.outputs.length, p.sets.length] ++
    p.sets.map (·.vars.length)

namespace Image

theorem reads_lane (depth : Nat) (a : Lane) : Reads depth (laneItem a) true := by
  have hsign : (if a.isNegative then 0x8000 else 0) ≤ 0x8000 := by split <;> omega
  unfold laneItem
  split
  · exact reads_half depth (by decide)
  · split
    · exact reads_half depth (by omega)
    · split
      · have hround := Format.round_le_infinity .half a.significand a.exponent
        have hinfinity : Format.half.infinity = 0x7C00 := by decide
        refine reads_half depth ?_
        rw [toHalf]
        omega
      · exact reads_single depth a.bits.toNat_lt

theorem decodeLane_laneItem (a : Lane) : decodeLane (laneItem a) = some a.canonical := by
  unfold laneItem Lane.canonical
  split
  · rfl
  · split
    · next hinfinite =>
      have ha := a.ofFields_magnitude
      rw [show a.magnitude = Format.single.infinity from beq_iff_eq.mp hinfinite] at ha
      rw [← ha]
      cases a.isNegative <;> rfl
    · split
      · next hhalf => simp [decodeLane, untag, hhalf]
      · simp [decodeLane, untag]

/-! ### Reading the fields of a program -/

theorem decodeText_textItem (t : Text) :
    decodeText (textItem t) = if t.isUtf8 then some t else none := by
  simp [decodeText, textItem, untag]

section Lists

variable {α β : Type} {item : α → Item} {decode : Item → Option β} {ok : α → Bool} {f : α → β}

theorem mapM_items {l : List α} (h : ∀ a ∈ l, decode (item a) = if ok a then some (f a) else none) :
    (l.map item).mapM decode = if l.all ok then some (l.map f) else none := by
  induction l with
  | nil => rfl
  | cons a l ih =>
    have hrest := ih fun b hb => h b (List.mem_cons_of_mem _ hb)
    rw [List.map_cons, List.mapM_cons, h a (List.mem_cons_self ..), hrest, List.all_cons]
    cases ok a <;> cases l.all ok <;> rfl

theorem decodeList_items {l : List α}
    (h : ∀ a ∈ l, decode (item a) = if ok a then some (f a) else none) :
    decodeList decode (.array (l.map item)) = if l.all ok then some (l.map f) else none :=
  mapM_items h

theorem field_listEntry {l : List α} {fields : List (Nat × Item)} {n : Nat}
    (hfields : fields.lookup n = if l.isEmpty then none else some (.array (l.map item)))
    (h : ∀ a ∈ l, decode (item a) = if ok a then some (f a) else none) :
    field fields n [] (decodeList decode) = if l.all ok then some (l.map f) else none := by
  rw [field, hfields]
  cases l with
  | nil => rfl
  | cons a l => exact decodeList_items h

end Lists

theorem bind_guarded {α β : Type} (b : Bool) (a : α) (f : α → Option β) :
    (if b then some a else none).bind f = if b then f a else none := by
  cases b <;> rfl

theorem decodeQuad_lanes (q : Quad) :
    decodeQuad (.array (q.toList.map laneItem)) = some (q.map Lane.canonical) := by
  simp [decodeQuad, untag, Quad.toList, decodeLane_laneItem, Quad.map]

theorem decodeConstant_constantItem (c : Constant) :
    decodeConstant (constantItem c) =
      if c.name.isUtf8 then some { c with value := c.value.map Lane.canonical } else none := by
  have hfields : decodeFields (constantItem c) =
      some [(1, textItem c.name), (2, .array (c.value.toList.map laneItem))] := rfl
  have hname : field [(1, textItem c.name), (2, .array (c.value.toList.map laneItem))] 1 []
      decodeText = if c.name.isUtf8 then some c.name else none := decodeText_textItem c.name
  have hvalue : field [(1, textItem c.name), (2, .array (c.value.toList.map laneItem))] 2
      Quad.zero decodeQuad = some (c.value.map Lane.canonical) := decodeQuad_lanes c.value
  rw [decodeConstant, hfields, Option.bind_eq_bind, Option.bind_some, hname, hvalue]
  cases c.name.isUtf8 <;> rfl

theorem decodeSet_setItem (s : SetDeclaration) :
    decodeSet (setItem s) = if s.name.isUtf8 && s.vars.all Text.isUtf8 then some s else none := by
  have hfields : decodeFields (setItem s) = some ((1, textItem s.name) ::
      if s.vars.isEmpty then [] else [(2, .array (s.vars.map textItem))]) := by
    rw [setItem, listEntry]
    cases s.vars.isEmpty <;> rfl
  have hvars : field ((1, textItem s.name) ::
      if s.vars.isEmpty then [] else [(2, .array (s.vars.map textItem))]) 2 []
      (decodeList decodeText) = if s.vars.all Text.isUtf8 then some (s.vars.map id) else none := by
    refine field_listEntry ?_ fun t _ => decodeText_textItem t
    cases s.vars.isEmpty <;> rfl
  have hname : field ((1, textItem s.name) ::
      if s.vars.isEmpty then [] else [(2, .array (s.vars.map textItem))]) 1 [] decodeText =
        if s.name.isUtf8 then some s.name else none := decodeText_textItem s.name
  rw [decodeSet, hfields, Option.bind_eq_bind, Option.bind_some, hname, hvars, List.map_id]
  cases s.name.isUtf8 <;> cases s.vars.all Text.isUtf8 <;> rfl

def codeItem (code : Option (List UInt8)) : Item :=
  code.elim (.simple 22) .bytes

theorem decodeCode_codeItem (code : Option (List UInt8)) :
    decodeCode (codeItem code) = some code := by
  cases code <;> rfl

theorem programItem_eq (p : Program) :
    programItem p =
      .map ((if p.name.isEmpty then [] else [entry 1 (textItem p.name)]) ++
        [entry 2 (codeItem p.code)] ++ listEntry 3 constantItem p.constants ++
        listEntry 4 textItem p.inputs ++ listEntry 5 textItem p.outputs ++
        listEntry 6 setItem p.sets) := by
  obtain ⟨name, code, constants, inputs, outputs, sets⟩ := p
  cases code <;> rfl

def programFields (p : Program) : List (Nat × Item) :=
  (if p.name.isEmpty then [] else [(1, textItem p.name)]) ++ [(2, codeItem p.code)] ++
    (if p.constants.isEmpty then [] else [(3, Item.array (p.constants.map constantItem))]) ++
    (if p.inputs.isEmpty then [] else [(4, Item.array (p.inputs.map textItem))]) ++
    (if p.outputs.isEmpty then [] else [(5, Item.array (p.outputs.map textItem))]) ++
    if p.sets.isEmpty then [] else [(6, Item.array (p.sets.map setItem))]

theorem decodeFields_programItem (p : Program) :
    decodeFields (programItem p) = some (programFields p) := by
  rw [programItem_eq]
  unfold programFields listEntry
  cases p.name.isEmpty <;> cases p.constants.isEmpty <;> cases p.inputs.isEmpty <;>
    cases p.outputs.isEmpty <;> cases p.sets.isEmpty <;> rfl

theorem lookup_programFields (p : Program) :
    (programFields p).lookup 1 = (if p.name.isEmpty then none else some (textItem p.name)) ∧
    (programFields p).lookup 2 = some (codeItem p.code) ∧
    (programFields p).lookup 3 =
      (if p.constants.isEmpty then none else some (.array (p.constants.map constantItem))) ∧
    (programFields p).lookup 4 =
      (if p.inputs.isEmpty then none else some (.array (p.inputs.map textItem))) ∧
    (programFields p).lookup 5 =
      (if p.outputs.isEmpty then none else some (.array (p.outputs.map textItem))) ∧
    (programFields p).lookup 6 =
      (if p.sets.isEmpty then none else some (.array (p.sets.map setItem))) := by
  unfold programFields
  cases p.name.isEmpty <;> cases p.constants.isEmpty <;> cases p.inputs.isEmpty <;>
    cases p.outputs.isEmpty <;> cases p.sets.isEmpty <;> exact ⟨rfl, rfl, rfl, rfl, rfl, rfl⟩

theorem decodeProgram_programItem (p : Program) :
    decodeProgram (programItem p) =
      if p.texts.all Text.isUtf8 then some p.canonical else none := by
  obtain ⟨hname, hcode, hconstants, hinputs, houtputs, hsets⟩ := lookup_programFields p
  have hname : field (programFields p) 1 [] decodeText =
      if p.name.isUtf8 then some p.name else none := by
    rw [field, hname]
    cases hempty : p.name with
    | nil =>
      have hutf8 : Text.isUtf8 [] = true := by
        rw [Text.isUtf8, Text.runes]
        rfl
      simp [hutf8]
    | cons b name => exact decodeText_textItem _
  have hcode : field (programFields p) 2 none decodeCode = some p.code := by
    rw [field, hcode]
    exact decodeCode_codeItem p.code
  have hconstants := field_listEntry hconstants fun c _ => decodeConstant_constantItem c
  have hinputs := field_listEntry hinputs fun t _ => decodeText_textItem t
  have houtputs := field_listEntry houtputs fun t _ => decodeText_textItem t
  have hsets := field_listEntry hsets fun s _ => decodeSet_setItem s
  have htexts : p.texts.all Text.isUtf8 = (p.name.isUtf8 && (p.constants.all (·.name.isUtf8) &&
      (p.inputs.all Text.isUtf8 && (p.outputs.all Text.isUtf8 &&
        p.sets.all fun s => s.name.isUtf8 && s.vars.all Text.isUtf8)))) := by
    simp [Program.texts, List.all_map, List.all_flatMap, Function.comp_def]
  rw [decodeProgram, decodeFields_programItem, Option.bind_eq_bind, Option.bind_some, hname, hcode,
    hconstants, hinputs, houtputs, hsets, htexts]
  -- The texts are looked at in this order, and the first that is refused ends it.
  simp only [Option.bind_eq_bind, bind_guarded, Option.bind_some, Bool.and_eq_true, ite_and]
  simp [Program.canonical]

/-! ### Reading the item of a program -/

theorem readsAll_listEntry {α : Type} {depth key : Nat} {item : α → Item} {ok : α → Bool}
    {l : List α} (hkey : key < 2 ^ 64) (h : ∀ a ∈ l, Reads depth (item a) (ok a)) :
    ReadsAll (depth + 1) (flatEntries (listEntry key item l))
      (decide (l.length ≤ maxElements) && l.all ok) := by
  have hlist := reads_array (ReadsAll.map h)
  rw [List.length_map] at hlist
  unfold listEntry
  cases l with
  | nil => exact .nil
  | cons a l =>
    have hentry := ReadsAll.cons (reads_unsigned (depth + 1) hkey) (.cons hlist .nil)
    rwa [Bool.true_and, Bool.and_true] at hentry

theorem readsAll_listEntry_true {α : Type} {depth key : Nat} {item : α → Item} {l : List α}
    (hkey : key < 2 ^ 64) (h : ∀ a ∈ l, Reads depth (item a) true) :
    ReadsAll (depth + 1) (flatEntries (listEntry key item l))
      (decide (l.length ≤ maxElements)) := by
  have hentry := readsAll_listEntry hkey h
  rwa [List.all_eq_true.mpr fun _ _ => rfl, Bool.and_true] at hentry

theorem length_listEntry_le {α : Type} (key : Nat) (item : α → Item) (l : List α) :
    (listEntry key item l).length ≤ 1 := by
  unfold listEntry
  split <;> simp

theorem reads_constant (depth : Nat) (c : Constant) :
    Reads (depth + 2) (constantItem c) true := by
  have hentries : ReadsAll (depth + 1) (flatEntries (listEntry 2 laneItem c.value.toList)) true :=
    readsAll_listEntry_true (by decide) fun a _ => reads_lane depth a
  exact reads_map (show 2 ≤ maxElements by decide)
    (.cons (reads_unsigned _ (by decide)) (.cons (reads_text _ _) hentries))

theorem reads_set (depth : Nat) (s : SetDeclaration) :
    Reads (depth + 2) (setItem s) (decide (s.vars.length ≤ maxElements)) := by
  have hvars : ReadsAll (depth + 1) (flatEntries (listEntry 2 textItem s.vars))
      (decide (s.vars.length ≤ maxElements)) :=
    readsAll_listEntry_true (by decide) fun t _ => reads_text depth t
  have hcount :
      (entry 1 (textItem s.name) :: listEntry 2 textItem s.vars).length ≤ maxElements := by
    have hvars := length_listEntry_le 2 textItem s.vars
    rw [List.length_cons, maxElements]
    omega
  exact reads_map hcount (.cons (reads_unsigned _ (by decide)) (.cons (reads_text _ _) hvars))

theorem reads_program (depth : Nat) (p : Program) :
    Reads (depth + 4) (programItem p) (p.listLengths.all (· ≤ maxElements)) := by
  have hname : ReadsAll (depth + 3)
      (flatEntries (if p.name.isEmpty then [] else [entry 1 (textItem p.name)])) true := by
    split
    · exact .nil
    · exact .cons (reads_unsigned _ (by decide)) (.cons (reads_text _ _) .nil)
  have hcode : ReadsAll (depth + 3) (flatEntries [entry 2 (codeItem p.code)]) true := by
    have hitem : Reads (depth + 3) (codeItem p.code) true := by
      cases p.code with
      | none => exact reads_null _
      | some bs => exact reads_bytes _ bs
    exact .cons (reads_unsigned _ (by decide)) (.cons hitem .nil)
  have hconstants : ReadsAll (depth + 3) (flatEntries (listEntry 3 constantItem p.constants)) _ :=
    readsAll_listEntry_true (by decide) fun c _ => reads_constant depth c
  have hinputs : ReadsAll (depth + 3) (flatEntries (listEntry 4 textItem p.inputs)) _ :=
    readsAll_listEntry_true (by decide) fun t _ => reads_text (depth + 2) t
  have houtputs : ReadsAll (depth + 3) (flatEntries (listEntry 5 textItem p.outputs)) _ :=
    readsAll_listEntry_true (by decide) fun t _ => reads_text (depth + 2) t
  have hsets : ReadsAll (depth + 3) (flatEntries (listEntry 6 setItem p.sets)) _ :=
    readsAll_listEntry (by decide) fun s _ => reads_set depth s
  have hall := ((((hname.append hcode).append hconstants).append hinputs).append houtputs).append
    hsets
  have hlengths : p.listLengths.all (· ≤ maxElements) = (true && true &&
      decide (p.constants.length ≤ maxElements) && decide (p.inputs.length ≤ maxElements) &&
        decide (p.outputs.length ≤ maxElements) && (decide (p.sets.length ≤ maxElements) &&
          p.sets.all fun s => decide (s.vars.length ≤ maxElements))) := by
    simp [Program.listLengths, List.all_map, Function.comp_def, Bool.and_assoc]
  rw [programItem_eq, hlengths]
  refine reads_map ?_ (by simpa only [flatEntries, List.flatMap_append] using hall)
  have hshort : (if p.name.isEmpty then [] else [entry 1 (textItem p.name)]).length ≤ 1 := by
    split <;> simp
  have hconstants := length_listEntry_le 3 constantItem p.constants
  have hinputs := length_listEntry_le 4 textItem p.inputs
  have houtputs := length_listEntry_le 5 textItem p.outputs
  have hsets := length_listEntry_le 6 setItem p.sets
  simp only [List.length_append, List.length_singleton, maxElements]
  omega

/-! ### Images -/

/-- Whether an image can hold the program: its texts are UTF-8 and no list is too long. -/
def IsPortable (p : Program) : Prop :=
  (∀ t ∈ p.texts, t.isUtf8 = true) ∧ ∀ n ∈ p.listLengths, n ≤ maxElements

instance (p : Program) : Decidable (IsPortable p) :=
  inferInstanceAs
    (Decidable ((∀ t ∈ p.texts, t.isUtf8 = true) ∧ ∀ n ∈ p.listLengths, n ≤ maxElements))

/-- What is read from the image of a program. -/
theorem decode_encode {p : Program} (hlength : (encode p).length < 2 ^ 64) :
    decode (encode p) = if IsPortable p then .ok p.canonical else .error .body := by
  have hheader : (bigEndian 4 signature ++ bigEndian 2 version).length = 6 := rfl
  have hshort : ¬ (encode p).length < 6 := by
    rw [encode, List.length_append, hheader]
    omega
  have hsignature : ofBigEndian ((encode p).take 4) = signature := rfl
  have hversion : ofBigEndian (((encode p).drop 4).take 2) = version := rfl
  have hbody : (encode p).drop 6 = (programItem p).encode := List.drop_left' hheader
  have hread : parseItem (programItem p).encode =
      if p.listLengths.all (· ≤ maxElements) then some (programItem p) else none := by
    refine (reads_program 28 p).parseItem ?_
    rw [encode, List.length_append] at hlength
    omega
  unfold decode
  rw [if_neg hshort, hsignature, hversion, hbody, hread, bind_guarded, decodeProgram_programItem]
  by_cases hlists : p.listLengths.all (· ≤ maxElements) = true
  · by_cases htexts : p.texts.all Text.isUtf8 = true
    · have hportable : IsPortable p :=
        ⟨List.all_eq_true.mp htexts,
          fun n hn => of_decide_eq_true (List.all_eq_true.mp hlists n hn)⟩
      simp [hlists, htexts, hportable]
    · have hportable : ¬ IsPortable p := fun h => htexts (List.all_eq_true.mpr h.1)
      simp [hlists, htexts, hportable]
  · have hportable : ¬ IsPortable p := fun h =>
      hlists (List.all_eq_true.mpr fun n hn => decide_eq_true (h.2 n hn))
    simp [hlists, hportable]

/-- A program whose texts are UTF-8 and whose lists are not too long is read back from its image,
each field as it was; a lane keeps its bits unless it is not a number. -/
theorem image_reads_back {p : Program} (htexts : ∀ t ∈ p.texts, t.isUtf8 = true)
    (hlists : ∀ n ∈ p.listLengths, n ≤ 131072) (hlength : (encode p).length < 2 ^ 64) :
    decode (encode p) =
      .ok { p with
        constants := p.constants.map fun c =>
          { c with value := c.value.map fun a => if a.isNaN then ⟨0x7FC00000⟩ else a } } := by
  have hportable : IsPortable p := ⟨htexts, hlists⟩
  rw [decode_encode hlength, if_pos hportable]
  rfl

theorem image_of_special_lanes :
    decode (encode
      { name := Text.lit "é", code := some [],
        constants := [⟨[], ⟨⟨0xFFC12345⟩, ⟨0x80000000⟩, ⟨0x33800000⟩, ⟨0x3DCCCCCD⟩⟩⟩],
        outputs := [Text.lit "o", []], sets := [⟨Text.lit "d", []⟩, ⟨[], [Text.lit "v"]⟩] }) =
      .ok
      { name := Text.lit "é", code := some [],
        constants := [⟨[], ⟨⟨0x7FC00000⟩, ⟨0x80000000⟩, ⟨0x33800000⟩, ⟨0x3DCCCCCD⟩⟩⟩],
        outputs := [Text.lit "o", []], sets := [⟨Text.lit "d", []⟩, ⟨[], [Text.lit "v"]⟩] } := by
  -- An empty code, empty names, and lanes with a payload, a sign, a half precision form and none.
  rw [image_reads_back (by decide +kernel) (by decide +kernel) (by decide +kernel)]
  decide +kernel

end Image
end Quadlane
