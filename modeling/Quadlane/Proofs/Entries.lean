import Quadlane.Proofs.Merging
import Quadlane.Session.Basic

/-! What a session keeps of the lines it is given. Joined lines and single ones make up entries; an
entry is added to the source if it assembles on its own. As assembling is done line by line, the
source then assembles too, to the programs of these entries one after the other. -/

namespace Quadlane.Session

open Assembly (newline parse IsClosed isClosed_append_newline parse_append)

/-! ### The entries among the lines -/

inductive Reading where
  | blank
  | command (c : Command) (words : List Text)
  | continued (joined : Text)
  | entry (text : Text)

def command? (line : Text) : Option (Command × List Text) :=
  match line.fields with
  | [] => none
  | word :: words => (Command.ofName? word).map (·, words)

/-- A directive is never continued, except by a line that is joined already. -/
def read (joined : Option Text) (line : Text) : Reading :=
  match joined with
  | some t =>
    if line.getLast? = some 92 then .continued (t ++ line.dropLast ++ [32])
    else .entry (t ++ line ++ [newline])
  | none =>
    if line.trim.isEmpty then .blank
    else if line.head? = some 46 then
      match command? line with
      | some (c, words) => .command c words
      | none => .entry (line ++ [newline])
    else if line.getLast? = some 92 then .continued (line.dropLast ++ [32])
    else .entry (line ++ [newline])

namespace Reading

def joined? : Reading → Option Text
  | continued t => some t
  | _ => none

def text? : Reading → Option Text
  | entry t => some t
  | _ => none

end Reading

def entries (joined : Option Text) : List Text → List Text
  | [] => []
  | line :: lines =>
    (read joined line).text?.toList ++ entries (read joined line).joined? lines

-- A directive that is not joined to anything keeps its backslash.
example : entries none [Text.lit "add t0, \\", Text.lit "i0, i1", Text.lit ".input a\\"] =
    [Text.lit "add t0,  i0, i1\n", Text.lit ".input a\\\n"] := by
  cbv

def programs (texts : List Text) : List Program :=
  texts.filterMap fun t => (parse t).toOption

theorem programs_append (texts more : List Text) :
    programs (texts ++ more) = programs texts ++ programs more :=
  List.filterMap_append

def assembles (t : Text) : Bool :=
  (parse t).toOption.isSome

theorem isClosed_of_read {joined : Option Text} {line t : Text} (h : read joined line = .entry t) :
    IsClosed t := by
  unfold read at h
  split at h
  · split at h
    · cases h
    · exact Reading.entry.inj h ▸ isClosed_append_newline _
  · split at h
    · cases h
    · split at h
      · split at h
        · cases h
        · exact Reading.entry.inj h ▸ isClosed_append_newline _
      · split at h
        · cases h
        · exact Reading.entry.inj h ▸ isClosed_append_newline _

theorem joined_eq_none_of_read {joined : Option Text} {line : Text}
    (hjoined : (read joined line).joined? = none) (hentry : (read joined line).text? = none) :
    joined = none := by
  cases joined with
  | none => rfl
  | some t =>
    unfold read at hjoined hentry
    dsimp only at hjoined hentry
    split at hjoined
    · cases hjoined
    · next hlast =>
      rw [if_neg hlast] at hentry
      cases hentry

/-! ### One line -/

variable {s : Session}

def joined? (s : Session) : Option Text :=
  if s.continuing then some s.pending else none

def Tidy (s : Session) : Prop :=
  s.continuing = false → s.pending = []

def take (s : Session) : Reading → Session
  | .blank => s
  | .command c words => (s.perform c words).session
  | .continued t => { s with continuing := true, pending := t }
  | .entry t =>
    { s with
      source := s.source ++ if assembles t then t else []
      pending := []
      continuing := false }

theorem append_session (line : Text) :
    (s.append line).session = s.take (.entry (s.pending ++ line ++ [newline])) := by
  unfold append take assembles
  dsimp only [newline]
  cases parse (s.pending ++ line ++ [10]) with
  | error e => simp [Except.toOption]
  | ok p => simp [Except.toOption]

theorem execute_session (h : s.Tidy) (line : Text) :
    (s.execute line).session = s.take (read s.joined? line) := by
  unfold execute read joined?
  cases hcontinuing : s.continuing with
  | true =>
    simp only [Bool.not_true, Bool.false_and, Bool.false_eq_true, if_false, if_true]
    split
    · rfl
    · exact append_session line
  | false =>
    -- Nothing is pending here, so the entry is the line alone.
    have hpending := h hcontinuing
    have happend : (s.append line).session = s.take (.entry (line ++ [newline])) := by
      rw [append_session, hpending, List.nil_append]
    simp only [Bool.not_false, Bool.true_and, Bool.false_eq_true, if_false, decide_eq_true_eq]
    split
    · rfl
    · split
      · unfold command?
        rcases line.fields with _ | ⟨word, words⟩
        · exact happend
        · dsimp only
          cases Command.ofName? word with
          | none => exact happend
          | some c => rfl
      · split
        · rw [hpending, List.nil_append]
          rfl
        · exact happend

theorem run_kept (s : Session) (count : Nat) :
    (s.run count).session.source = s.source ∧ (s.run count).session.pending = s.pending ∧
      (s.run count).session.continuing = s.continuing := by
  unfold run
  split
  · exact ⟨rfl, rfl, rfl⟩
  · split
    · exact ⟨rfl, rfl, rfl⟩
    · dsimp only
      split <;> exact ⟨rfl, rfl, rfl⟩

theorem perform_kept (s : Session) (c : Command) (words : List Text) :
    (s.perform c words).session.source = s.source ∧
      (s.perform c words).session.pending = s.pending ∧
      (s.perform c words).session.continuing = s.continuing := by
  unfold perform
  cases c with
  | commands | opcodes | values | collect | reset | exit => exact ⟨rfl, rfl, rfl⟩
  | program =>
    dsimp only
    split <;> exact ⟨rfl, rfl, rfl⟩
  | set =>
    dsimp only
    split
    · split <;> exact ⟨rfl, rfl, rfl⟩
    · exact ⟨rfl, rfl, rfl⟩
  | run =>
    dsimp only
    split
    · exact run_kept s 4
    · split
      · next n _ => exact run_kept s n
      · exact ⟨rfl, rfl, rfl⟩

theorem joined_take (line : Text) :
    (s.take (read s.joined? line)).joined? = (read s.joined? line).joined? := by
  have hnone := @joined_eq_none_of_read s.joined? line
  cases hread : read s.joined? line with
  | blank =>
    rw [hread] at hnone
    exact hnone rfl rfl
  | command c words =>
    rw [hread] at hnone
    obtain ⟨-, hpending, hcontinuing⟩ := s.perform_kept c words
    have hkept : (s.perform c words).session.joined? = s.joined? := by
      rw [joined?, joined?, hpending, hcontinuing]
    exact hkept.trans (hnone rfl rfl)
  | continued t => rfl
  | entry t => rfl

/-! ### Many lines -/

def after (s : Session) (lines : List Text) : Session :=
  lines.foldl (fun s line => (s.execute line).session) s

/-- The session has been given these entries, and has kept those that assemble. -/
structure Keeps (s : Session) (texts : List Text) : Prop where
  tidy : s.Tidy
  source : s.source = (texts.filter assembles).flatten
  closed : IsClosed s.source
  program : parse s.source = .ok ((programs texts).foldl Program.merge {})

namespace Keeps

variable {texts : List Text} {t : Text}

theorem congr {s' : Session} (h : s.Keeps texts) (hsource : s'.source = s.source)
    (htidy : s'.Tidy) : s'.Keeps texts where
  tidy := htidy
  source := hsource ▸ h.source
  closed := hsource ▸ h.closed
  program := hsource ▸ h.program

theorem reject {e : Assembly.SourceError} (h : s.Keeps texts) (ht : parse t = .error e) :
    (s.take (.entry t)).Keeps (texts ++ [t]) := by
  have hrefused : assembles t = false := by simp [assembles, ht, Except.toOption]
  have hnone : programs [t] = [] := by simp [programs, ht, Except.toOption]
  have hsource : (s.take (.entry t)).source = s.source := by simp [take, hrefused]
  refine ⟨fun _ => rfl, ?_, hsource ▸ h.closed, ?_⟩
  · rw [hsource, h.source]
    simp [hrefused]
  · rw [hsource, h.program, programs_append, hnone, List.append_nil]

theorem accept {p : Program} (h : s.Keeps texts) (hclosed : IsClosed t) (ht : parse t = .ok p) :
    (s.take (.entry t)).Keeps (texts ++ [t]) := by
  have haccepted : assembles t = true := by simp [assembles, ht, Except.toOption]
  have hone : programs [t] = [p] := by simp [programs, ht, Except.toOption]
  have hsource : (s.take (.entry t)).source = s.source ++ t := by simp [take, haccepted]
  refine ⟨fun _ => rfl, ?_, hsource ▸ h.closed.append hclosed, ?_⟩
  · rw [hsource, h.source]
    simp [haccepted]
  · rw [hsource, parse_append h.closed, h.program, ht, programs_append, hone, List.foldl_append]
    rfl

theorem take (h : s.Keeps texts) (line : Text) :
    (s.take (read s.joined? line)).Keeps (texts ++ (read s.joined? line).text?.toList) := by
  cases hread : read s.joined? line with
  | blank => exact (List.append_nil texts).symm ▸ h
  | command c words =>
    -- A command may set values or use the machine; the text that was entered stays.
    obtain ⟨hsource, hpending, hcontinuing⟩ := s.perform_kept c words
    refine (List.append_nil texts).symm ▸ h.congr hsource fun hended => ?_
    exact hpending.trans (h.tidy (hcontinuing.symm.trans hended))
  | continued t => exact (List.append_nil texts).symm ▸ h.congr rfl (by simp [Tidy, Session.take])
  | entry t =>
    cases ht : parse t with
    | error e => exact h.reject ht
    | ok p => exact h.accept (isClosed_of_read hread) ht

theorem after (h : s.Keeps texts) (lines : List Text) :
    (s.after lines).Keeps (texts ++ entries s.joined? lines) := by
  induction lines generalizing s texts with
  | nil => exact (List.append_nil texts).symm ▸ h
  | cons line lines ih =>
    have hnext := ih (h.take line)
    rw [joined_take, List.append_assoc] at hnext
    rw [Session.after, List.foldl_cons, execute_session h.tidy]
    exact hnext

end Keeps

theorem keeps_new (chunkSize seed : Int) : (new chunkSize seed).Keeps [] :=
  ⟨fun _ => rfl, rfl, .inl rfl, rfl⟩

/-- Whatever lines a session is given, its source assembles to the programs of the entries that
assemble on their own, one after the other; any other entry leaves the session as it was. -/
theorem kept_source_assembles (chunkSize seed : Int) (lines : List Text) :
    let s := (new chunkSize seed).after lines
    let texts := entries none lines
    parse s.source = .ok ((programs texts).foldl Program.merge {}) ∧
      s.source = (texts.filter assembles).flatten ∧
      (s.continuing = false → s.pending = []) ∧
      ∀ line t e, read s.joined? line = .entry t → parse t = .error e →
        (s.execute line).session = { s with pending := [], continuing := false } := by
  intro s texts
  have h : s.Keeps texts := (keeps_new chunkSize seed).after lines
  refine ⟨h.program, h.source, h.tidy, ?_⟩
  intro line t e hread ht
  have hrefused : assembles t = false := by simp [assembles, ht, Except.toOption]
  rw [execute_session h.tidy, hread]
  simp [Session.take, hrefused]

end Quadlane.Session
