import Quadlane.Proofs.Formatting

/-! Assembling is done line by line. A text whose last line is ended is assembled on its own
whatever follows it, and what follows as if it stood alone, up to the numbers of its lines; the
program of both is the program of the first with that of the second merged into it. -/

namespace Quadlane

open Text

/-- Two programs, one after the other. The name of the second counts if it has one. -/
def Program.merge (p q : Program) : Program :=
  { name := if q.name.isEmpty then p.name else q.name
    code := Option.merge (· ++ ·) p.code q.code
    constants := p.constants ++ q.constants
    inputs := p.inputs ++ q.inputs
    outputs := p.outputs ++ q.outputs
    sets := p.sets ++ q.sets }

namespace Assembly

def SourceError.shift (n : Nat) : SourceError → SourceError
  | .line number text cause => .line (number + n) text cause
  | .lineTooLong => .lineTooLong

/-! ### Lines of two texts -/

/-- Nothing that is put behind the text can become part of its last line. -/
def IsClosed (a : Text) : Prop :=
  a = [] ∨ a.getLast? = some newline

theorem isClosed_append_newline (t : Text) : IsClosed (t ++ [newline]) :=
  .inr List.getLast?_concat

theorem IsClosed.append {a b : Text} (ha : IsClosed a) (hb : IsClosed b) : IsClosed (a ++ b) := by
  rcases hb with rfl | hb
  · rwa [List.append_nil]
  · exact .inr (by rw [List.getLast?_append, hb, Option.some_or])

theorem rawLines_append {a : Text} (h : IsClosed a) (b : Text) :
    rawLines (a ++ b) = rawLines a ++ rawLines b := by
  rcases h with rfl | h
  · rfl
  · obtain ⟨t, rfl⟩ : ∃ t, a = t ++ [newline] := List.getLast?_eq_some_iff.mp h
    have hfirst : rawLines (t ++ [newline]) = splitOn newline t := by
      rw [rawLines, splitOn_append_splitOn newline t []]
      simp [splitOn]
    have hnonempty := splitOn_ne_nil newline b
    rw [hfirst, List.append_assoc, List.singleton_append, rawLines, rawLines,
      splitOn_append_splitOn, List.getLast?_append_of_ne_nil _ hnonempty]
    -- The last piece is one of `b`, so `b` alone decides whether it is a line.
    split
    · rw [List.dropLast_append_of_ne_nil hnonempty]
    · rfl

theorem parseNumbered_shift (raw : Text) (number n : Nat) :
    parseNumbered (raw, number + n) =
      (parseNumbered (raw, number)).mapError (SourceError.shift n) := by
  unfold parseNumbered
  dsimp only
  split
  · rfl
  · cases parseLine (dropReturn raw) <;> rfl

theorem mapM_parseNumbered_shift (lines : List Text) (first n : Nat) :
    (lines.zipIdx (first + n)).mapM parseNumbered =
      ((lines.zipIdx first).mapM parseNumbered).mapError (SourceError.shift n) := by
  induction lines generalizing first with
  | nil => rfl
  | cons line lines ih =>
    have hrest := ih (first + 1)
    rw [Nat.add_right_comm] at hrest
    rw [List.zipIdx_cons, List.zipIdx_cons, List.mapM_cons, List.mapM_cons, parseNumbered_shift,
      hrest]
    cases parseNumbered (line, first) with
    | error e => rfl
    | ok item => cases (lines.zipIdx (first + 1)).mapM parseNumbered <;> rfl

theorem parseItems_append {a : Text} (h : IsClosed a) (b : Text) :
    parseItems (a ++ b) = (do
      let items ← parseItems a
      let more ← (parseItems b).mapError (SourceError.shift (rawLines a).length)
      return items ++ more) := by
  unfold parseItems
  rw [rawLines_append h, List.zipIdx_append, List.mapM_append, mapM_parseNumbered_shift]
  cases ((rawLines a).zipIdx 1).mapM parseNumbered with
  | error e => rfl
  | ok items =>
    cases ((rawLines b).zipIdx 1).mapM parseNumbered with
    | error e => rfl
    | ok more => exact congrArg Except.ok (List.filterMap_append ..)

theorem isShown_of_parseItems {source : Text} {items : List Item}
    (h : parseItems source = .ok items) : ∀ i ∈ items, i.IsShown := by
  unfold parseItems at h
  cases hlines : ((rawLines source).zipIdx 1).mapM parseNumbered with
  | error e => simp [hlines, Except.map] at h
  | ok lines =>
    obtain rfl : lines.filterMap id = items := by simpa [hlines, Except.map] using h
    exact isShown_of_mapM hlines

/-! ### Programs of two texts -/

theorem codeOf_append (first second : List Instruction) :
    codeOf (first ++ second) = Option.merge (· ++ ·) (codeOf first) (codeOf second) := by
  rcases first with _ | ⟨ins, first⟩
  · cases second <;> rfl
  · rcases second with _ | ⟨ins', second⟩
    · rw [List.append_nil]
      rfl
    · simp [codeOf, Option.merge, List.flatMap_append]

-- An empty name would count among the items of one text, but not when two programs are merged.
theorem programOf_append {items more : List Item} (h : ∀ t, Item.name t ∈ more → t ≠ []) :
    programOf (items ++ more) = (programOf items).merge (programOf more) := by
  have hname : ((items ++ more).filterMap Item.name?).getLastD [] =
      if ((more.filterMap Item.name?).getLastD []).isEmpty
      then (items.filterMap Item.name?).getLastD []
      else (more.filterMap Item.name?).getLastD [] := by
    rw [List.filterMap_append]
    rcases List.eq_nil_or_concat (more.filterMap Item.name?) with hnone | ⟨before, t, hlast⟩
    · simp [hnone]
    · have hmem : t ∈ more.filterMap Item.name? := by simp [hlast]
      obtain ⟨i, hi, hit⟩ := List.mem_filterMap.mp hmem
      have hne : t ≠ [] := by
        cases i with
        | name t' => exact h t (Option.some.inj hit ▸ hi)
        | inputs | outputs | constant | set | instruction => cases hit
      rw [hlast, List.concat_eq_append, ← List.append_assoc, List.getLastD_concat,
        List.getLastD_concat, if_neg (by simpa using hne)]
  unfold programOf Program.merge
  rw [hname, List.filterMap_append, codeOf_append, List.filterMap_append, List.flatMap_append,
    List.flatMap_append, List.filterMap_append]

/-- The program of a text is the program of its first part merged with that of the rest. -/
theorem parse_append {a : Text} (h : IsClosed a) (b : Text) :
    parse (a ++ b) = (do
      let p ← parse a
      let q ← (parse b).mapError (SourceError.shift (rawLines a).length)
      return p.merge q) := by
  unfold parse
  rw [parseItems_append h]
  cases parseItems a with
  | error e => rfl
  | ok items =>
    cases hmore : parseItems b with
    | error e => rfl
    | ok more =>
      have hnames : ∀ t, Item.name t ∈ more → t ≠ [] := fun t ht =>
        (isShown_of_parseItems hmore _ ht : IsToken t).nonempty
      exact congrArg Except.ok (programOf_append hnames)

end Assembly
end Quadlane
