import Quadlane.Cli.Basic
import Quadlane.Proofs.Formatting
import Quadlane.Proofs.Images

/-! Assembling a file, printing the image and reading the printed text. A file that was written is
read with its new contents through the same path. What the image of an assembled file prints is read
as the program of the image if and only if the image can hold the program, the name taken from the
path is one word, and no line has become too long. -/

namespace Quadlane

/-! ### Reading a file that was written -/

namespace FileTree

variable {t : FileTree} {there : List Text} {contents : List UInt8}

def place (t : FileTree) (there : List Text) (contents : List UInt8) : FileTree :=
  { t with files := (there, contents) :: t.files.filter (·.1 ≠ there) }

theorem lookup_filter_ne {names : List Text} (h : names ≠ there)
    (files : List (List Text × List UInt8)) :
    (files.filter (·.1 ≠ there)).lookup names = files.lookup names := by
  induction files with
  | nil => rfl
  | cons file files ih =>
    obtain ⟨key, old⟩ := file
    by_cases hkey : key = there
    · have hne : (names == key) = false := by simpa [hkey] using h
      rw [List.filter_cons_of_neg (by simpa using hkey), ih, List.lookup_cons, hne]
    · rw [List.filter_cons_of_pos (by simpa using hkey), List.lookup_cons, List.lookup_cons, ih]

theorem lookup_place (t : FileTree) (there : List Text) (contents : List UInt8)
    (names : List Text) :
    (t.place there contents).files.lookup names =
      if names = there then some contents else t.files.lookup names := by
  show ((there, contents) :: t.files.filter (·.1 ≠ there)).lookup names = _
  rw [List.lookup_cons]
  by_cases h : names = there
  · rw [if_pos h, beq_iff_eq.mpr h]
  · rw [if_neg h, beq_eq_false_iff_ne.mpr h]
    exact lookup_filter_ne h t.files

theorem isDirectory_place {names : List Text} (h : t.isDirectory names = true) :
    (t.place there contents).isDirectory names = true := by
  rw [isDirectory, Bool.or_eq_true] at h ⊢
  refine h.imp_right fun h => ?_
  obtain ⟨f, hf, hnames⟩ := List.any_eq_true.mp h
  refine List.any_eq_true.mpr ⟨f, ?_, hnames⟩
  rcases List.mem_append.mp hf with hf | hf
  · exact List.mem_append_left _ hf
  · refine List.mem_append_right _ ?_
    obtain ⟨file, hfile, rfl⟩ := List.mem_map.mp hf
    by_cases hthere : file.1 = there
    · exact List.mem_map.mpr ⟨(there, contents), List.mem_cons_self .., hthere.symm⟩
    · exact List.mem_map_of_mem
        (List.mem_cons_of_mem _ (List.mem_filter.mpr ⟨hfile, by simpa using hthere⟩))

def IsName (name : Text) : Prop :=
  ¬ name.length > 255 ∧ ¬ (name.isEmpty || name = Text.lit ".") = true ∧ name ≠ Text.lit ".."

theorem follow_file {base : List Text} {name : Text} (hname : IsName name)
    (h : t.files.lookup (base ++ [name]) = some contents) :
    t.follow base [name] = .ok (.file (base ++ [name]) contents) := by
  obtain ⟨hlength, hskip, hup⟩ := hname
  rw [follow, if_neg hlength, if_neg hskip, if_neg hup]
  dsimp only
  rw [h]
  rfl

theorem follow_directory {base rest : List Text} {name : Text} (hname : IsName name)
    (h : t.files.lookup (base ++ [name]) = none)
    (hsink : ¬ t.sinks.contains (base ++ [name]) = true)
    (hdirectory : t.isDirectory (base ++ [name]) = true) :
    t.follow base (name :: rest) = t.follow (base ++ [name]) rest := by
  obtain ⟨hlength, hskip, hup⟩ := hname
  rw [follow, if_neg hlength, if_neg hskip, if_neg hup]
  dsimp only
  rw [h]
  dsimp only
  rw [if_neg hsink, if_pos hdirectory]

theorem follow_cons_ok {base rest : List Text} {name : Text} {p : Place}
    (h : t.follow base (name :: rest) = .ok p) :
    (∃ base', ∀ u : FileTree, u.follow base (name :: rest) = u.follow base' rest) ∨
    IsName name ∧
      (t.files.lookup (base ++ [name]) = none ∧ ¬ t.sinks.contains (base ++ [name]) = true ∧
          t.isDirectory (base ++ [name]) = true ∧ t.follow (base ++ [name]) rest = .ok p ∨
        rest = [] ∧ (p = .sink ∨
          (∃ old, t.files.lookup (base ++ [name]) = some old ∧ p = .file (base ++ [name]) old) ∨
          t.isDirectory (base ++ [name]) = false ∧ p = .vacant (base ++ [name]))) := by
  rw [follow] at h
  split at h
  · cases h
  · next hlength =>
    split at h
    · next hskip =>
      refine .inl ⟨base, fun u => ?_⟩
      rw [follow, if_neg hlength, if_pos hskip]
    · next hskip =>
      split at h
      · next hup =>
        refine .inl ⟨base.dropLast, fun u => ?_⟩
        rw [follow, if_neg hlength, if_neg hskip, if_pos hup]
      · next hup =>
        refine .inr ⟨⟨hlength, hskip, hup⟩, ?_⟩
        dsimp only at h
        split at h
        · next old hold =>
          split at h
          · next hrest =>
            exact .inr ⟨List.isEmpty_iff.mp hrest, .inr (.inl ⟨old, hold, (Except.ok.inj h).symm⟩)⟩
          · cases h
        · next hnone =>
          split at h
          · split at h
            · next hrest =>
              exact .inr ⟨List.isEmpty_iff.mp hrest, .inl (Except.ok.inj h).symm⟩
            · cases h
          · next hsink =>
            split at h
            · next hdirectory => exact .inl ⟨hnone, hsink, hdirectory, h⟩
            · next hdirectory =>
              split at h
              · next hrest =>
                exact .inr ⟨List.isEmpty_iff.mp hrest,
                  .inr (.inr ⟨by simpa using hdirectory, (Except.ok.inj h).symm⟩)⟩
              · cases h

/-- Places for a file: one that exists, or a name that is free. -/
inductive Holds (there : List Text) : Place → Prop where
  | file (contents : List UInt8) : Holds there (.file there contents)
  | vacant : Holds there (.vacant there)

theorem not_holds_of_follow_nil {base : List Text} {p : Place} (h : t.follow base [] = .ok p) :
    ¬ Holds there p := by
  rw [follow] at h
  obtain rfl := Except.ok.inj h
  nofun

theorem not_directory_of_follow {base names : List Text} {p : Place}
    (h : t.follow base names = .ok p) (hp : Holds there p) :
    t.files.lookup there ≠ none ∨ t.isDirectory there = false := by
  induction names generalizing base with
  | nil => exact absurd hp (not_holds_of_follow_nil h)
  | cons name rest ih =>
    rcases follow_cons_ok h with ⟨base', hsame⟩ | ⟨-, ⟨-, -, -, hrest⟩ | ⟨-, hlast⟩⟩
    · exact ih (hsame t ▸ h)
    · exact ih hrest
    · rcases hlast with rfl | ⟨old, hold, rfl⟩ | ⟨hdirectory, rfl⟩
      · cases hp
      · cases hp
        exact .inl (by simp [hold])
      · cases hp
        exact .inr hdirectory

theorem follow_place {base names : List Text} {p : Place} (h : t.follow base names = .ok p)
    (hp : Holds there p) :
    (t.place there contents).follow base names = .ok (.file there contents) := by
  induction names generalizing base with
  | nil => exact absurd hp (not_holds_of_follow_nil h)
  | cons name rest ih =>
    rcases follow_cons_ok h with
      ⟨base', hsame⟩ | ⟨hname, ⟨hnone, hsink, hdirectory, hrest⟩ | ⟨rfl, hlast⟩⟩
    · rw [hsame]
      exact ih (hsame t ▸ h)
    · -- The file does not take the place of a directory on the way.
      have hne : base ++ [name] ≠ there := by
        rintro rfl
        rcases not_directory_of_follow hrest hp with hlookup | hfalse
        · exact hlookup hnone
        · rw [hdirectory] at hfalse
          cases hfalse
      have hlookup := lookup_place t there contents (base ++ [name])
      rw [if_neg hne, hnone] at hlookup
      rw [follow_directory hname hlookup hsink (isDirectory_place hdirectory)]
      exact ih hrest
    · have hthere : base ++ [name] = there := by
        rcases hlast with rfl | ⟨old, -, rfl⟩ | ⟨-, rfl⟩ <;> cases hp <;> rfl
      have hlookup := lookup_place t there contents (base ++ [name])
      rw [if_pos hthere] at hlookup
      rw [follow_file hname hlookup, hthere]

theorem locate_of_landing {path : Text} {p : Place} (h : t.landing path = .ok p) :
    ∃ base names, t.route path = .ok (base, names) ∧ t.follow base names = .ok p := by
  unfold landing at h
  cases hroute : t.route path with
  | error e => simp [hroute, bind, Except.bind] at h
  | ok way =>
    obtain ⟨base, names⟩ := way
    simp only [hroute, bind, Except.bind] at h
    split at h
    · exact ⟨base, names, rfl, h⟩
    · split at h
      · cases h
      · split at h <;> cases h

theorem landing_of_target {path : Text} {names? : Option (List Text)}
    (h : t.target path = .ok names?) :
    ∃ p, t.landing path = .ok p ∧
      (names? = none ∧ p = .sink ∨ ∃ names, names? = some names ∧ Holds names p) := by
  unfold target at h
  split at h
  · cases h
  · cases h
  · next names hp =>
    cases h
    exact ⟨_, hp, .inr ⟨names, rfl, .vacant⟩⟩
  · next names old hp =>
    cases h
    exact ⟨_, hp, .inr ⟨names, rfl, .file old⟩⟩
  · next hp =>
    cases h
    exact ⟨_, hp, .inl ⟨rfl, rfl⟩⟩

/-- A file that was written is read with its new contents; a sink stays empty. -/
theorem read_of_write {path : Text} {t' : FileTree} (h : t.write path contents = .ok t') :
    t'.read path = .ok (if t.target path = .ok none then [] else contents) := by
  unfold write at h
  cases htarget : t.target path with
  | error e => simp [htarget, bind, Except.bind] at h
  | ok names? =>
    simp only [htarget, bind, Except.bind] at h
    obtain ⟨p, hlanding, hp⟩ := landing_of_target htarget
    obtain ⟨base, names, hroute, hfollow⟩ := locate_of_landing hlanding
    rcases hp with ⟨rfl, rfl⟩ | ⟨there, rfl, hp⟩
    · obtain rfl : t = t' := Except.ok.inj h
      have hlocate : t.locate path = .ok .sink := by
        rw [locate, hroute]
        exact hfollow
      rw [if_pos rfl, read, hlocate]
    · obtain rfl : t.place there contents = t' := Except.ok.inj h
      have hlocate : (t.place there contents).locate path = .ok (.file there contents) := by
        rw [locate, show (t.place there contents).route path = _ from hroute]
        exact follow_place hfollow hp
      rw [if_neg (by simp), read, hlocate]

end FileTree

/-! ### Programs with another name -/

namespace Assembly

variable {p : Program} {instructions : List Instruction}

theorem IsShowable.name (h : IsShowable p instructions) : p.name = [] ∨ p.name.IsToken := by
  by_cases hname : p.name = []
  · exact .inl hname
  · refine .inr (h.items (.name p.name) ?_)
    simp [grouped, hname]

theorem IsShowable.rename (h : IsShowable p instructions) {name : Text}
    (hname : name = [] ∨ name.IsToken) : IsShowable { p with name } instructions := by
  refine ⟨h.code, fun i hi => ?_⟩
  have hother : ∀ {i}, i ∈ (if p.inputs.isEmpty then [] else [Item.inputs p.inputs]) ∨
      i ∈ (if p.outputs.isEmpty then [] else [Item.outputs p.outputs]) ∨
      i ∈ p.constants.map Item.constant ∨ i ∈ p.sets.map Item.set ∨
      i ∈ instructions.map Item.instruction → i.IsShown := fun hi =>
    h.items _ (by simp only [grouped, List.mem_append]; tauto)
  simp only [grouped, List.mem_append] at hi
  by_cases hi' : i ∈ (if name.isEmpty then [] else [Item.name name])
  · split at hi'
    · cases hi'
    · next hne =>
      rw [List.mem_singleton.mp hi']
      exact hname.resolve_left (by simpa using hne)
  · exact hother (by tauto)

theorem IsShowable.canonical (h : IsShowable p instructions) : p.canonical = p := by
  have hsame : ∀ c ∈ p.constants,
      ({ c with value := c.value.map Lane.canonical } : Constant) = c := by
    intro c hc
    have hconstant := h.items (.constant c) (by simp [grouped, hc])
    rw [hconstant.2]
  rw [Program.canonical, List.map_congr_left hsame, List.map_id']

end Assembly

/-! ### Commands -/

namespace Cli

open Assembly

variable {f : Flags} {files : FileTree} {path : Text} {contents : List UInt8} {p : Program}

def defaultName (path : Text) : Text :=
  if (Path.base path).endsWith (Path.extension path) then
    (Path.base path).take ((Path.base path).length - (Path.extension path).length)
  else Path.base path

def named (path : Text) (p : Program) : Program :=
  { p with name := if p.name.isEmpty then defaultName path else p.name }

def imagePath (f : Flags) (path : Text) : Text :=
  if f.output.isEmpty then Path.withoutExtension path ++ Scenario.imageExtension else f.output

theorem assembleFile_ok (hread : files.read path = .ok contents)
    (hparse : parse contents = .ok p) (hexit : (assembleFile f files path).exit = 0) :
    (named path p).validate = .ok () ∧
      files.write (imagePath f path) (Image.encode (named path p)) =
        .ok (assembleFile f files path).files := by
  obtain ⟨files', hvalid, hwrite, hfiles⟩ : ∃ files', (named path p).validate = .ok () ∧
      files.write (imagePath f path) (Image.encode (named path p)) = .ok files' ∧
      (assembleFile f files path).files = files' := by
    unfold assembleFile at hexit ⊢
    rw [hread] at hexit ⊢
    dsimp only at hexit ⊢
    rw [hparse] at hexit ⊢
    dsimp only at hexit ⊢
    split at hexit
    · cases hexit
    · next hvalid =>
      split at hexit
      · cases hexit
      · next files' hwrite =>
        exact ⟨files', hvalid, hwrite, rfl⟩
  exact ⟨hvalid, hfiles ▸ hwrite⟩

theorem load_encode (hcanonical : p.canonical = p) (hvalid : p.validate = .ok ())
    (hlength : (Image.encode p).length < 2 ^ 64) :
    Image.load (Image.encode p) =
      if Image.IsPortable p then .ok p else .error (.image .body) := by
  rw [Image.load, Image.decode_encode hlength, hcanonical]
  split
  · next h =>
    split at h
    · cases h
    · next hportable =>
      cases h
      rw [if_neg hportable]
  · next h =>
    split at h
    · next hportable =>
      cases h
      rw [hvalid, if_pos hportable]
    · cases h

theorem disassembleFile_of_load (hread : files.read path = .ok contents)
    (hload : Image.load contents = .ok p) (hformat : (format p).2 = none) :
    disassembleFile files path = { output := .ofText (format p).1, files } := by
  unfold disassembleFile
  rw [hread]
  dsimp only
  rw [hload]
  dsimp only
  rw [show format p = ((format p).1, none) from Prod.ext rfl hformat]

theorem disassembleFile_of_error {e : Image.LoadError} (hread : files.read path = .ok contents)
    (hload : Image.load contents = .error e) : (disassembleFile files path).exit = 1 := by
  unfold disassembleFile
  rw [hread]
  dsimp only
  rw [hload]
  rfl

/-- What the image of an assembled file prints is read as the program in it if and only if the image
is kept and can hold the program, a name taken from the path is one word, and no line is too
long. -/
theorem assembled_image_prints_back (hread : files.read path = .ok contents)
    (hparse : parse contents = .ok p) (hexit : (assembleFile f files path).exit = 0)
    (hlength : (Image.encode (named path p)).length < 2 ^ 64) :
    ((disassembleFile (assembleFile f files path).files (imagePath f path)).exit = 0 ∧
      ∃ t, (disassembleFile (assembleFile f files path).files (imagePath f path)).output =
          .ofText t ∧
        parse t = .ok (named path p)) ↔
    files.target (imagePath f path) ≠ .ok none ∧ Image.IsPortable (named path p) ∧
      (p.name = [] → defaultName path = [] ∨ (defaultName path).IsToken) ∧
      ∀ line ∈ rawLines (format (named path p)).1, line.length < lineLimit := by
  obtain ⟨hvalid, hwrite⟩ := assembleFile_ok hread hparse hexit
  obtain ⟨instructions, hp⟩ := isShowable_of_parse hparse
  have hwritten := FileTree.read_of_write hwrite
  have hcanonical : (named path p).canonical = named path p :=
    congrArg (fun q : Program => { q with name := (named path p).name }) hp.canonical
  have hload := load_encode hcanonical hvalid hlength
  have hformat : (format (named path p)).2 = none := congrArg Prod.snd (format_eq hp)
  have hname : (named path p).name = [] ∨ (named path p).name.IsToken ↔
      (p.name = [] → defaultName path = [] ∨ (defaultName path).IsToken) := by
    by_cases hempty : p.name = []
    · simp [named, hempty]
    · simp [named, hempty, hp.name.resolve_left hempty]
  generalize (assembleFile f files path).files = files' at hwritten ⊢
  constructor
  · rintro ⟨hprinted, t, houtput, ht⟩
    have hsink : files.target (imagePath f path) ≠ .ok none := by
      intro hsink
      rw [if_pos hsink] at hwritten
      rw [disassembleFile_of_error hwritten rfl] at hprinted
      cases hprinted
    rw [if_neg hsink] at hwritten
    have hportable : Image.IsPortable (named path p) := by
      by_contra hportable
      rw [if_neg hportable] at hload
      rw [disassembleFile_of_error hwritten hload] at hprinted
      cases hprinted
    rw [if_pos hportable] at hload
    rw [disassembleFile_of_load hwritten hload hformat] at houtput
    obtain rfl : (format (named path p)).1 = t := by
      simpa [Output.ofText] using houtput
    obtain ⟨instructions', hq⟩ := isShowable_of_parse ht
    refine ⟨hsink, hportable, hname.mp hq.name, ?_⟩
    by_contra hlines
    rw [parse_format hq, if_neg hlines] at ht
    cases ht
  · rintro ⟨hsink, hportable, hdefault, hlines⟩
    have hq : IsShowable (named path p) instructions := hp.rename (hname.mpr hdefault)
    rw [if_neg hsink] at hwritten
    rw [if_pos hportable] at hload
    rw [disassembleFile_of_load hwritten hload hformat]
    exact ⟨rfl, _, rfl, by rw [parse_format hq, if_pos hlines]⟩

def single (name contents : Text) : FileTree :=
  { working := [Text.lit "work"], files := [([Text.lit "work", name], contents)] }

def drift : Program :=
  { code := some [1, 2, 64, 0, 128, 0], constants := [⟨Text.lit "by", Quad.splat ⟨0x3DCCCCCD⟩⟩],
    inputs := [Text.lit "x"], outputs := [Text.lit "y"] }

def driftFiles : FileTree :=
  single (Text.lit "drift.vvm")
    (Text.lit ".input x # place\n.const by 0.1\n.output y\nadd o0, i0, c0\ndone")

theorem drift_prints_back :
    (disassembleFile (assembleFile {} driftFiles (Text.lit "drift.vvm")).files
      (Text.lit "drift.vvmc")).exit = 0 ∧
    ∃ t, (disassembleFile (assembleFile {} driftFiles (Text.lit "drift.vvm")).files
        (Text.lit "drift.vvmc")).output = .ofText t ∧
      parse t = .ok { drift with name := Text.lit "drift" } := by
  -- The image takes the name of the file, and prints it.
  have hread : driftFiles.read (Text.lit "drift.vvm") =
      .ok (Text.lit ".input x # place\n.const by 0.1\n.output y\nadd o0, i0, c0\ndone") := by
    decide +kernel
  have hparse :
      parse (Text.lit ".input x # place\n.const by 0.1\n.output y\nadd o0, i0, c0\ndone") =
        .ok drift := by
    decide +kernel
  have himage : imagePath {} (Text.lit "drift.vvm") = Text.lit "drift.vvmc" := by decide +kernel
  have hname : named (Text.lit "drift.vvm") drift = { drift with name := Text.lit "drift" } := by
    decide +kernel
  have hdefault : (defaultName (Text.lit "drift.vvm")).IsToken :=
    .of_visible (by decide +kernel) (by decide +kernel)
  have hiff := assembled_image_prints_back (f := {}) hread hparse (by decide +kernel)
    (by decide +kernel)
  rw [himage, hname] at hiff
  exact hiff.mpr ⟨by decide +kernel, by decide +kernel, fun _ => .inr hdefault, by decide +kernel⟩

def blankFiles : FileTree :=
  single (Text.lit "a b.vvm") (Text.lit "done\n")

/-- The name of the file has a blank in it, and the text that is printed is refused. -/
theorem blank_name_refused :
    (assembleFile {} blankFiles (Text.lit "a b.vvm")).exit = 0 ∧
    (disassembleFile (assembleFile {} blankFiles (Text.lit "a b.vvm")).files
      (Text.lit "a b.vvmc")).exit = 0 ∧
    (disassembleFile (assembleFile {} blankFiles (Text.lit "a b.vvm")).files
      (Text.lit "a b.vvmc")).output.render [] = Text.lit ".name a b\ndone\n" ∧
    parse (Text.lit ".name a b\ndone\n") =
      .error (.line 1 (Text.lit ".name a b") .nameTakesOne) := by
  decide +kernel

end Cli
end Quadlane
