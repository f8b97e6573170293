import Quadlane.Proofs.Entries
import Quadlane.Proofs.Pieces

/-! An entry that is given piece by piece, with a backslash at the end of every piece but the last. If
its first piece does not start with a point, a session replies as it does to the whole line, in which a
blank stands for each backslash. A first piece that starts with a point is taken for a whole line, the
backslash included, although the line it begins may be a directive like any other. -/

namespace Quadlane.Session

open Assembly (newline parse)
open Text

def backslash : UInt8 := 92

def enter (s : Session) : List Text → Reply
  | [] => { session := s }
  | line :: lines =>
    let r := s.execute line
    if r.signal.isSome then r
    else
      let rest := r.session.enter lines
      { rest with output := r.output ++ rest.output }

def broken (pieces : List Text) (last : Text) : List Text :=
  pieces.map (· ++ [backslash]) ++ [last]

def whole (pieces : List Text) (last : Text) : Text :=
  words (pieces ++ [last])

variable {s : Session} {line first last t : Text} {lines pieces : List Text}

theorem enter_cons (h : (s.execute line).signal = none) :
    s.enter (line :: lines) =
      { (s.execute line).session.enter lines with
        output := (s.execute line).output ++ ((s.execute line).session.enter lines).output } := by
  rw [enter, h]
  rfl

theorem whole_cons (first : Text) (pieces : List Text) (last : Text) :
    whole (first :: pieces) last = first ++ 32 :: whole pieces last := by
  cases pieces with
  | nil => exact words_cons first last []
  | cons piece pieces => exact words_cons first piece (pieces ++ [last])

/-! ### Pieces that are joined -/

theorem append_of_ok {p : Program} (h : parse (s.pending ++ line ++ [newline]) = .ok p) :
    s.append line =
      { session := { s with
          source := s.source ++ (s.pending ++ line ++ [newline]), pending := []
          continuing := false } } := by
  rw [newline] at h
  simp only [append, h]
  rfl

theorem append_of_error {e : Assembly.SourceError}
    (h : parse (s.pending ++ line ++ [newline]) = .error e) :
    s.append line =
      { session := { s with pending := [], continuing := false }
        output := complain e.report.message } := by
  rw [newline] at h
  simp only [append, h]

theorem append_ends (s : Session) (line : Text) :
    (s.append line).session.continuing = false ∧ (s.append line).signal = none := by
  cases h : parse (s.pending ++ line ++ [newline]) with
  | ok p => rw [append_of_ok h]; exact ⟨rfl, rfl⟩
  | error e => rw [append_of_error h]; exact ⟨rfl, rfl⟩

theorem enter_append (h : s.execute line = s.append line) : s.enter [line] = s.append line := by
  have hsignal := (s.append_ends line).2
  rw [enter_cons (h ▸ hsignal), h, enter, ← hsignal]
  simp only [List.append_nil]

theorem append_joined (s : Session) (front line : Text) :
    { s with continuing := true, pending := s.pending ++ front }.append line =
      s.append (front ++ line) := by
  simp only [append, List.append_assoc]

theorem execute_of_continuing (h : s.continuing = true) (line : Text) :
    s.execute line =
      if line.getLast? = some backslash then
        { session := { s with continuing := true, pending := s.pending ++ line.dropLast ++ [32] } }
      else s.append line := by
  simp only [execute, h, Bool.not_true, Bool.false_and, Bool.false_eq_true, if_false]
  rfl

theorem enter_broken (h : s.continuing = true) (hlast : last.getLast? ≠ some backslash)
    (pieces : List Text) : s.enter (broken pieces last) = s.append (whole pieces last) := by
  induction pieces generalizing s with
  | nil =>
    have hexecute : s.execute last = s.append last := by
      rw [execute_of_continuing h, if_neg hlast]
    rw [broken, List.map_nil, List.nil_append, enter_append hexecute, whole,
      List.nil_append, words, joinWith_singleton]
  | cons piece pieces ih =>
    have hexecute : s.execute (piece ++ [backslash]) =
        { session := { s with continuing := true, pending := s.pending ++ (piece ++ [32]) } } := by
      rw [execute_of_continuing h, List.getLast?_concat, if_pos rfl, List.dropLast_concat,
        List.append_assoc]
    have hrest := @ih { s with continuing := true, pending := s.pending ++ (piece ++ [32]) } rfl
    rw [append_joined, List.append_assoc, List.singleton_append, ← whole_cons] at hrest
    have hlines : broken (piece :: pieces) last = (piece ++ [backslash]) :: broken pieces last := rfl
    rw [hlines, enter_cons (by rw [hexecute]), hexecute, hrest]
    rfl

/-! ### The first piece -/

theorem isSolid_backslash : IsSolid [backslash] where
  nonempty := List.cons_ne_nil _ _
  visible b hb := by
    rw [List.mem_singleton.mp hb]
    rfl

theorem trim_backslash (front : Text) : (trim (front ++ [backslash])).isEmpty = false := by
  obtain ⟨fs, x, y, gs, haround⟩ := exists_fields_around front []
  have hfields := haround [backslash] isSolid_backslash
  rw [List.append_nil, ← fields_trim] at hfields
  cases htrim : trim (front ++ [backslash]) with
  | nil =>
    rw [htrim, fields_nil] at hfields
    simp at hfields
  | cons b t => rfl

theorem head_append_backslash (front : Text) :
    (front ++ [backslash]).head? = some 46 ↔ front.head? = some 46 := by
  cases front with
  | nil => decide
  | cons b front => rfl

theorem execute_of_entry (h : s.continuing = false) (hread : read none line = .entry t) :
    s.execute line = s.append line := by
  unfold read at hread
  dsimp only at hread
  unfold execute
  simp only [h, Bool.not_false, Bool.true_and, decide_eq_true_eq]
  split at hread
  · cases hread
  · next hblank =>
    rw [if_neg hblank]
    split at hread
    · next hpoint =>
      rw [if_pos hpoint]
      unfold command? at hread
      cases hfields : line.fields with
      | nil => rfl
      | cons word rest =>
        rw [hfields] at hread
        dsimp only at hread ⊢
        cases hword : Command.ofName? word with
        | none => rfl
        | some c =>
          rw [hword] at hread
          cases hread
    · next hpoint =>
      rw [if_neg hpoint]
      split at hread
      · cases hread
      · next hlast => rw [if_neg hlast]

theorem execute_first (h : s.continuing = false) (hpoint : first.head? ≠ some 46) :
    s.execute (first ++ [backslash]) =
      { session := { s with continuing := true, pending := s.pending ++ (first ++ [32]) } } := by
  have hhead := mt (head_append_backslash first).mp hpoint
  simp only [execute, h, Bool.not_false, Bool.true_and, trim_backslash, Bool.false_eq_true, if_false,
    decide_eq_true_eq, hhead, List.getLast?_concat, List.dropLast_concat, List.append_assoc]
  rfl

theorem fields_backslash (first more : Text) :
    ∃ word rest rest', fields (first ++ [backslash]) = word :: rest ∧
      (fields (first ++ 32 :: more) = word :: rest' ∨ backslash ∈ word) := by
  obtain ⟨fs, x, hfront⟩ := exists_splitBlanks_append [] (runes first)
  have hjoined : fields (first ++ [backslash]) =
      (fs ++ [x.reverse ++ [Rune.ascii backslash]]).map ofRunes := by
    have hsplit := isSolid_backslash.splitBlanks_append x []
    rw [List.append_nil] at hsplit
    rw [fields, runes_append _ (starts_ascii (by decide) []), hfront, hsplit, runes]
    simp [splitBlanks]
  have hcut : fields (first ++ 32 :: more) =
      (fs ++ splitBlanks x (runes (32 :: more))).map ofRunes := by
    rw [fields, runes_append _ (starts_ascii (by decide) more), hfront]
  cases fs with
  | nil =>
    refine ⟨_, _, [], hjoined, .inr ?_⟩
    rw [ofRunes_append]
    exact List.mem_append_right _ (by decide)
  | cons f fs => exact ⟨_, _, _, hjoined, .inl hcut⟩

theorem command_whole {c : Command} {words : List Text}
    (h : command? (first ++ [backslash]) = some (c, words)) (more : Text) :
    (command? (first ++ 32 :: more)).isSome = true := by
  obtain ⟨word, rest, rest', hfields, hsame⟩ := fields_backslash first more
  rw [command?, hfields] at h
  obtain ⟨c', hword, -⟩ := Option.map_eq_some_iff.mp h
  have hname : c'.name = word := by simpa using List.find?_some hword
  have hclean : backslash ∉ word := by
    rw [← hname]
    cases c' <;> decide
  rw [command?, hsame.resolve_right hclean]
  simp [hword]

theorem read_first (hpoint : first.head? = some 46)
    (hread : read none (whole (first :: pieces) last) = .entry t) :
    read none (first ++ [backslash]) = .entry (first ++ [backslash] ++ [newline]) := by
  have hhead : (whole (first :: pieces) last).head? = some 46 := by
    rw [whole_cons, List.head?_append, hpoint, Option.some_or]
  have hnone : command? (first ++ [backslash]) = none := by
    cases hcommand : command? (first ++ [backslash]) with
    | none => rfl
    | some found =>
      have hwhole := command_whole hcommand (whole pieces last)
      rw [← whole_cons] at hwhole
      obtain ⟨found', hfound'⟩ := Option.isSome_iff_exists.mp hwhole
      unfold read at hread
      dsimp only at hread
      split at hread
      · cases hread
      · rw [hfound'] at hread
        cases hread
  rw [read, if_neg (by simp [trim_backslash]), if_pos ((head_append_backslash first).mpr hpoint),
    hnone]

/-! ### Pieces that are not joined -/

theorem append_source (s : Session) (line : Text) :
    ∃ added, (s.append line).session.source = s.source ++ added := by
  cases h : parse (s.pending ++ line ++ [newline]) with
  | ok p => exact ⟨_, by rw [append_of_ok h]⟩
  | error e => exact ⟨[], by rw [append_of_error h, List.append_nil]⟩

theorem execute_source (s : Session) (line : Text) :
    ∃ added, (s.execute line).session.source = s.source ++ added := by
  have hkept : ∃ added, s.source = s.source ++ added := ⟨[], (List.append_nil _).symm⟩
  unfold execute
  split
  · exact hkept
  · split
    · split
      · exact s.append_source line
      · split
        · rwa [(s.perform_kept _ _).1]
        · exact s.append_source line
    · split
      · exact hkept
      · exact s.append_source line

theorem enter_source (s : Session) (lines : List Text) :
    ∃ added, (s.enter lines).session.source = s.source ++ added := by
  induction lines generalizing s with
  | nil => exact ⟨[], (List.append_nil _).symm⟩
  | cons line lines ih =>
    obtain ⟨added, hadded⟩ := execute_source s line
    rw [enter]
    dsimp only
    split
    · exact ⟨added, hadded⟩
    · obtain ⟨more, hmore⟩ := ih (s.execute line).session
      exact ⟨added ++ more, by rw [hmore, hadded, List.append_assoc]⟩

theorem enter_ne_append {p : Program} {more : Text}
    (hfirst : s.execute (first ++ [backslash]) = s.append (first ++ [backslash]))
    (hwhole : parse (s.pending ++ (first ++ 32 :: more) ++ [newline]) = .ok p) :
    s.enter ((first ++ [backslash]) :: lines) ≠ s.append (first ++ 32 :: more) := by
  -- A first piece that is taken alone makes the session complain or has its backslash in the
  -- source.
  rw [enter_cons (hfirst ▸ (s.append_ends _).2), hfirst, append_of_ok hwhole]
  intro heq
  cases halone : parse (s.pending ++ (first ++ [backslash]) ++ [newline]) with
  | error e =>
    have houtput := congrArg Reply.output heq
    rw [append_of_error halone] at houtput
    cases houtput
  | ok q =>
    have hsource := congrArg (fun r => r.session.source) heq
    rw [append_of_ok halone] at hsource
    obtain ⟨added, hadded⟩ := enter_source _ lines
    dsimp only at hsource
    rw [hadded] at hsource
    simp [backslash] at hsource

/-- A first piece is joined to the pieces after it exactly if it does not start with a point; then the
reply is that to the whole line. -/
theorem continuation_transparent (hs : s.continuing = false)
    (hlast : last.getLast? ≠ some backslash)
    (hentry : read none (whole (first :: pieces) last) =
      .entry (whole (first :: pieces) last ++ [newline])) :
    (first.head? ≠ some 46 →
      s.enter (broken (first :: pieces) last) = s.execute (whole (first :: pieces) last)) ∧
    (first.head? = some 46 →
      s.execute (first ++ [backslash]) = s.append (first ++ [backslash])) ∧
    ((s.execute (first ++ [backslash])).session.continuing = true ↔ first.head? ≠ some 46) ∧
    (∀ p, parse (s.pending ++ whole (first :: pieces) last ++ [newline]) = .ok p →
      (s.enter (broken (first :: pieces) last) = s.execute (whole (first :: pieces) last) ↔
        first.head? ≠ some 46)) ∧
    (s.execute (whole (first :: pieces) last)).session.continuing = false ∧
    (s.execute (whole (first :: pieces) last)).signal = none := by
  have hwhole := execute_of_entry hs hentry
  have hlines : broken (first :: pieces) last = (first ++ [backslash]) :: broken pieces last := rfl
  have hjoined (hpoint : first.head? ≠ some 46) :
      s.enter (broken (first :: pieces) last) = s.execute (whole (first :: pieces) last) := by
    have hrest := @enter_broken
      { s with continuing := true, pending := s.pending ++ (first ++ [32]) } last rfl hlast pieces
    rw [append_joined, List.append_assoc, List.singleton_append, ← whole_cons] at hrest
    rw [hlines, enter_cons (by rw [execute_first hs hpoint]), execute_first hs hpoint, hrest, hwhole]
    rfl
  have halone (hpoint : first.head? = some 46) :
      s.execute (first ++ [backslash]) = s.append (first ++ [backslash]) :=
    execute_of_entry hs (read_first hpoint hentry)
  refine ⟨hjoined, halone, ⟨?_, ?_⟩, fun p hparse => ⟨?_, hjoined⟩, ?_⟩
  · intro hcontinuing hpoint
    rw [halone hpoint, (append_ends s _).1] at hcontinuing
    cases hcontinuing
  · intro hpoint
    rw [execute_first hs hpoint]
  · intro heq hpoint
    rw [whole_cons] at hparse
    rw [hwhole, hlines, whole_cons] at heq
    exact enter_ne_append (halone hpoint) hparse heq
  · rw [hwhole]
    exact append_ends s _

theorem multiplication_continued :
    (new 128 1).enter [lit "mul t0,\\", lit "c0,\\", lit "i0"] =
        (new 128 1).execute (lit "mul t0, c0, i0") ∧
      ((new 128 1).execute (lit "mul t0, c0, i0")).session.continuing = false := by
  -- An instruction in three pieces.
  have hentry : read none (whole [lit "mul t0,", lit "c0,"] (lit "i0")) =
      .entry (whole [lit "mul t0,", lit "c0,"] (lit "i0") ++ [newline]) := by
    cbv
  have hlines : broken [lit "mul t0,", lit "c0,"] (lit "i0") =
      [lit "mul t0,\\", lit "c0,\\", lit "i0"] := by
    cbv
  have hwhole : whole [lit "mul t0,", lit "c0,"] (lit "i0") = lit "mul t0, c0, i0" := by
    cbv
  obtain ⟨hjoined, -, -, -, hcontinuing, -⟩ :=
    continuation_transparent (s := new 128 1) rfl (by decide) hentry
  rw [← hlines, ← hwhole]
  exact ⟨hjoined (by decide), hcontinuing⟩

/-- A directive in two pieces: the first declares an input with a backslash in its name, and the second
is no line. -/
theorem directive_not_continued :
    parse ((new 128 1).enter [lit ".input x\\", lit "y"]).session.source =
        .ok { inputs := [lit "x\\"] } ∧
      ((new 128 1).enter [lit ".input x\\", lit "y"]).output ≠ [] ∧
      parse ((new 128 1).execute (lit ".input x y")).session.source =
        .ok { inputs := [lit "x", lit "y"] } ∧
      ((new 128 1).execute (lit ".input x y")).output = [] := by
  have hfirst : read none (lit ".input x\\") = .entry (lit ".input x\\\n") := by
    cbv
  have hsecond : read none (lit "y") = .entry (lit "y\n") := by
    cbv
  have hwhole : read none (lit ".input x y") = .entry (lit ".input x y\n") := by
    cbv
  have hdeclared : parse (lit ".input x\\" ++ [newline]) = .ok { inputs := [lit "x\\"] } := by
    decide +kernel
  have hrefused : parse (lit "y" ++ [newline]) =
      .error (.line 1 (lit "y") (.unknownMnemonic (lit "y"))) := by
    decide +kernel
  have hboth : parse (lit ".input x y" ++ [newline]) = .ok { inputs := [lit "x", lit "y"] } := by
    decide +kernel
  have hjoined := (execute_of_entry (s := new 128 1) rfl hwhole).trans (append_of_ok hboth)
  have halone := (execute_of_entry (s := new 128 1) rfl hfirst).trans (append_of_ok hdeclared)
  rw [enter_cons (by rw [halone]), halone,
    enter_append (execute_of_entry rfl hsecond), append_of_error hrefused, hjoined]
  exact ⟨hdeclared, by simp [complain, Output.line], hboth, rfl⟩

end Quadlane.Session
