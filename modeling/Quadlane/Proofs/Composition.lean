import Quadlane.Proofs.Accesses
import Quadlane.Proofs.Merging

/-! Assembling is compositional by lines. The program of two texts is the two programs one after the
other, and a text is refused for its first bad line, whose number counts the lines before it. -/

namespace Quadlane

open Text

theorem Program.bytes_merge (p q : Program) : (p.merge q).bytes = p.bytes ++ q.bytes := by
  unfold bytes merge
  cases p.code <;> cases q.code <;> simp [Option.merge]

theorem Text.length_splitOn (separator : UInt8) (t : Text) :
    (splitOn separator t).length = t.count separator + 1 := by
  induction t with
  | nil => rfl
  | cons b t ih =>
    rw [splitOn]
    split
    · next hb => rw [List.length_cons, ih, hb, List.count_cons_self]
    · next hb =>
      rw [List.count_cons_of_ne hb]
      cases hpieces : splitOn separator t with
      | nil => exact absurd hpieces (splitOn_ne_nil separator t)
      | cons piece pieces => rw [← ih, hpieces, List.length_cons, List.length_cons]

namespace Assembly

theorem length_rawLines {a : Text} (h : IsClosed a) : (rawLines a).length = a.count newline := by
  rcases h with rfl | h
  · rfl
  · obtain ⟨t, rfl⟩ : ∃ t, a = t ++ [newline] := List.getLast?_eq_some_iff.mp h
    rw [rawLines, splitOn_append_splitOn newline t []]
    simp [splitOn, length_splitOn]

/-! ### The first bad line -/

def Reads (raw : Text) : Prop :=
  raw.length < lineLimit ∧ ∃ item, parseLine (dropReturn raw) = .ok item

theorem reads_iff {raw : Text} (number : Nat) :
    Reads raw ↔ ∃ item, parseNumbered (raw, number) = .ok item := by
  unfold Reads parseNumbered
  dsimp only
  by_cases hlong : lineLimit ≤ raw.length
  · simp [hlong, Nat.not_lt.mpr hlong]
  · rw [if_neg hlong]
    cases parseLine (dropReturn raw) <;> simp [Except.mapError, Nat.not_le.mp hlong]

theorem parseNumbered_eq_error_iff {raw text : Text} {number number' : Nat} {cause : LineError} :
    parseNumbered (raw, number') = .error (.line number text cause) ↔
      raw.length < lineLimit ∧ number = number' ∧ text = trim (dropReturn raw) ∧
        parseLine (dropReturn raw) = .error cause := by
  unfold parseNumbered
  dsimp only
  by_cases hlong : lineLimit ≤ raw.length
  · simp [hlong, Nat.not_lt.mpr hlong]
  · rw [if_neg hlong]
    cases parseLine (dropReturn raw) <;>
      simp [Except.mapError, Nat.not_le.mp hlong, eq_comm]

theorem mapM_parseNumbered_eq_error_iff {lines : List Text} {first : Nat} {e : SourceError} :
    (lines.zipIdx first).mapM parseNumbered = .error e ↔
      ∃ before raw after, lines = before ++ raw :: after ∧ (∀ line ∈ before, Reads line) ∧
        parseNumbered (raw, first + before.length) = .error e := by
  induction lines generalizing first with
  | nil => simp [pure, Except.pure]
  | cons line lines ih =>
    rw [List.zipIdx_cons, List.mapM_cons]
    cases hline : parseNumbered (line, first) with
    | error e' =>
      have hbad : ¬ Reads line := by
        rw [reads_iff first, hline]
        simp
      constructor
      · intro h
        obtain rfl : e' = e := Except.error.inj h
        exact ⟨[], line, lines, rfl, by simp, hline⟩
      · rintro ⟨before, raw, after, hlines, hbefore, hraw⟩
        cases before with
        | nil =>
          obtain ⟨rfl, rfl⟩ := List.cons.inj hlines
          obtain rfl := Except.error.inj (hline.symm.trans hraw)
          rfl
        | cons good before =>
          obtain ⟨rfl, rfl⟩ := List.cons.inj hlines
          exact absurd (hbefore line (List.mem_cons_self ..)) hbad
    | ok item =>
      have hgood : Reads line := (reads_iff first).mpr ⟨item, hline⟩
      have hrest : (do
          let items ← (lines.zipIdx (first + 1)).mapM parseNumbered
          return item :: items) = Except.error e ↔
          (lines.zipIdx (first + 1)).mapM parseNumbered = .error e := by
        cases (lines.zipIdx (first + 1)).mapM parseNumbered <;>
          simp [bind, Except.bind, pure, Except.pure]
      refine hrest.trans (ih.trans ⟨?_, ?_⟩)
      · rintro ⟨before, raw, after, rfl, hbefore, hraw⟩
        refine ⟨line :: before, raw, after, rfl, List.forall_mem_cons.mpr ⟨hgood, hbefore⟩, ?_⟩
        rwa [List.length_cons, ← Nat.add_assoc, Nat.add_right_comm]
      · rintro ⟨before, raw, after, hlines, hbefore, hraw⟩
        cases before with
        | nil =>
          obtain ⟨rfl, rfl⟩ := List.cons.inj hlines
          cases hline.symm.trans hraw
        | cons good before =>
          obtain ⟨rfl, rfl⟩ := List.cons.inj hlines
          refine ⟨before, raw, after, rfl, fun l hl => hbefore l (List.mem_cons_of_mem _ hl), ?_⟩
          rwa [List.length_cons, ← Nat.add_assoc, Nat.add_right_comm] at hraw

theorem parse_eq_error_iff {source : Text} {e : SourceError} :
    parse source = .error e ↔
      ∃ before raw after, rawLines source = before ++ raw :: after ∧ (∀ line ∈ before, Reads line) ∧
        parseNumbered (raw, before.length + 1) = .error e := by
  have hlines : parse source = .error e ↔
      ((rawLines source).zipIdx 1).mapM parseNumbered = .error e := by
    unfold parse parseItems
    cases ((rawLines source).zipIdx 1).mapM parseNumbered <;> simp [Except.map]
  rw [hlines, mapM_parseNumbered_eq_error_iff]
  simp only [Nat.add_comm 1]

/-- Two texts, of which the first ends its last line, are assembled one after the other; a text is
refused for its first bad line; and no text makes the assembler look at a place that is not
there. -/
theorem assembling_compositional :
    (∀ a b : Text, a = [] ∨ a.getLast? = some newline →
      (∀ p q, parse a = .ok p → parse b = .ok q →
        parse (a ++ b) = .ok (p.merge q) ∧ (p.merge q).bytes = p.bytes ++ q.bytes) ∧
      (∀ e, parse a = .error e → parse (a ++ b) = .error e) ∧
      (∀ p number text cause, parse a = .ok p → parse b = .error (.line number text cause) →
        parse (a ++ b) = .error (.line (number + a.count newline) text cause)) ∧
      ∀ p, parse a = .ok p → parse b = .error .lineTooLong →
        parse (a ++ b) = .error .lineTooLong) ∧
    (∀ source number text cause, parse source = .error (.line number text cause) ↔
      ∃ before raw after, rawLines source = before ++ raw :: after ∧ (∀ line ∈ before, Reads line) ∧
        raw.length < lineLimit ∧ number = before.length + 1 ∧ text = trim (dropReturn raw) ∧
        parseLine (dropReturn raw) = .error cause) ∧
    ∀ source, (Checked.parse source).run = some (parse source) := by
  refine ⟨fun a b hclosed => ?_, fun source number text cause => ?_, Checked.parse_eq⟩
  · have happend := parse_append hclosed b
    rw [length_rawLines hclosed] at happend
    refine ⟨fun p q hp hq => ?_, fun e he => ?_, fun p number text cause hp hb => ?_,
      fun p hp hb => ?_⟩
    · rw [happend, hp, hq]
      exact ⟨rfl, p.bytes_merge q⟩
    · rw [happend, he]
      rfl
    · rw [happend, hp, hb]
      rfl
    · rw [happend, hp, hb]
      rfl
  · rw [parse_eq_error_iff]
    simp only [parseNumbered_eq_error_iff]

theorem assembling_second_text_bad :
    parse (lit ".input x\r\nabs t0, i0\n") =
        .ok { code := some [11, 0, 64, 0], inputs := [lit "x"] } ∧
      parse (lit "done # end\n abs t0,\ndone") =
        .error (.line 2 (lit "abs t0,") .emptyOperand) ∧
      parse (lit ".input x\r\nabs t0, i0\n" ++ lit "done # end\n abs t0,\ndone") =
        .error (.line 4 (lit "abs t0,") .emptyOperand) := by
  -- The second line of the second text is bad. It is the fourth line of both.
  have hfirst : parse (lit ".input x\r\nabs t0, i0\n") =
      .ok { code := some [11, 0, 64, 0], inputs := [lit "x"] } := by
    decide +kernel
  have hsecond : parse (lit "done # end\n abs t0,\ndone") =
      .error (.line 2 (lit "abs t0,") .emptyOperand) := by
    decide +kernel
  exact ⟨hfirst, hsecond, (assembling_compositional.1 _ _ (.inr (by decide +kernel))).2.2.1
    _ _ _ _ hfirst hsecond⟩

end Assembly
end Quadlane
