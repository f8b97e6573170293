import Quadlane.Proofs.Chunks
import Quadlane.Proofs.Frames

/-! How a call ends, from its three stages: the check of the arguments, the room for temporaries, and
the run over the chunks. -/

namespace Quadlane

namespace Arguments

theorem short_eq_none_iff {count : Int} {ws : List Window} :
    short? count ws = none ↔ ∀ w ∈ ws, count ≤ w.length := by
  rw [short?, Option.map_eq_none_iff, List.find?_eq_none]
  constructor
  · intro h w hw
    obtain ⟨i, hi⟩ := List.mem_iff_getElem?.mp hw
    have hlong := h (w, i) (List.mem_zipIdx_iff_getElem?.mpr hi)
    simp only [decide_eq_true_eq] at hlong
    omega
  · rintro h ⟨w, i⟩ hw
    have hlong := h w (List.fst_mem_of_mem_zipIdx hw)
    simp only [decide_eq_true_eq]
    omega

theorem check_eq_ok_iff {a : Arguments} :
    a.check = .ok () ↔ 0 ≤ a.count ∧ a.inputs.length ≤ Limit.inputs ∧
      a.outputs.length ≤ Limit.outputs ∧ a.constants.length ≤ Limit.constants ∧
      ∀ w ∈ a.inputs ++ a.outputs, a.count ≤ w.length := by
  constructor
  · intro h
    unfold check at h
    split at h
    · simp at h
    · split at h
      · simp at h
      · split at h
        · simp at h
        · split at h
          · simp at h
          · split at h
            · simp at h
            · next hin =>
              split at h
              · simp at h
              · next hout =>
                refine ⟨by omega, by omega, by omega, by omega, ?_⟩
                intro w hw
                rcases List.mem_append.mp hw with hw | hw
                · exact short_eq_none_iff.mp hin w hw
                · exact short_eq_none_iff.mp hout w hw
  · rintro ⟨hcount, hinputs, houtputs, hconstants, hheld⟩
    rw [check, if_neg (by omega), if_neg (by omega), if_neg (by omega), if_neg (by omega),
      short_eq_none_iff.mpr fun w hw => hheld w (List.mem_append_left _ hw),
      short_eq_none_iff.mpr fun w hw => hheld w (List.mem_append_right _ hw)]

end Arguments

namespace Machine

variable {m : Machine} {a : Arguments} {memory : Memory} {code : List UInt8}

def store (m : Machine) (memory : Memory) : Store :=
  { memory, temporaries := m.temporaries, random := m.random }

def conclude (m : Machine) : Store × Ending → Result
  | (s, .done) =>
    ⟨{ m with temporaries := s.temporaries, random := s.random, phase := .done }, s.memory, .ok⟩
  | (s, .error e) =>
    ⟨{ m with temporaries := s.temporaries, random := s.random, phase := .aborted }, s.memory,
      .error (.run e)⟩
  | (s, .fault offset) =>
    faulted { m with temporaries := s.temporaries, random := s.random } s.memory .dispatching
      (some offset)

theorem runChunks_succ (m : Machine) (a : Arguments) (code : List UInt8) (k : Nat) (s : Store)
    (remaining : Nat) :
    m.runChunks a code k s (remaining + 1) =
      match runFrom m.noise a.frame (m.chunk a.count k) 0 s code with
      | (s, .done) => m.runChunks a code (k + 1) s remaining
      | (s, ending) => (s, ending) := by
  rw [← m.bound_eq a]
  rfl

theorem exec_eq (code : List UInt8) (hcheck : a.check = .ok ()) :
    m.exec code a memory =
      if 0 < (m.chunkCount a.count).toNat && !m.hasScratch then
        (m.release a).faulted memory .notStarted none
      else (m.release a).conclude
        (m.runChunks a code 0 (m.store memory) (m.chunkCount a.count).toNat) := by
  simp only [exec, hcheck]
  split
  · rfl
  · unfold store
    rcases m.runChunks a code 0 _ (m.chunkCount a.count).toNat with ⟨s, ending⟩
    cases ending <;> rfl

theorem faulted_outcome_ne_ok (m : Machine) (memory : Memory) (phase : Phase)
    (offset : Option Nat) : (m.faulted memory phase offset).outcome ≠ .ok := by
  unfold faulted
  split <;> simp

theorem exec_of_no_scratch (code : List UInt8) (hcheck : a.check = .ok ())
    (hroom : m.hasScratch = false) (hchunks : 0 < m.chunkCount a.count) :
    m.exec code a memory = (m.release a).faulted memory .notStarted none := by
  have hpos : 0 < (m.chunkCount a.count).toNat := by omega
  simp only [exec, hcheck, hpos, hroom, decide_true, Bool.not_false, Bool.and_self, if_true]

theorem exec_of_done {s : Store} (hcheck : a.check = .ok ())
    (hroom : m.hasScratch = true ∨ m.chunkCount a.count ≤ 0)
    (hrun : m.runChunks a code 0 (m.store memory) (m.chunkCount a.count).toNat = (s, .done)) :
    m.exec code a memory =
      ⟨{ m.release a with temporaries := s.temporaries, random := s.random, phase := .done },
        s.memory, .ok⟩ := by
  have hskip : (decide (0 < (m.chunkCount a.count).toNat) && !m.hasScratch) = false := by
    rcases hroom with hroom | hroom
    · rw [hroom]
      simp
    · have : (m.chunkCount a.count).toNat = 0 := by omega
      simp [this]
  unfold store at hrun
  simp only [exec, hcheck, hskip, Bool.false_eq_true, if_false, hrun]

theorem faulted_outcome (h : m.recovers = false) (memory : Memory) (phase : Phase)
    (offset : Option Nat) : (m.faulted memory phase offset).outcome = .fault offset := by
  rw [faulted, if_neg (Bool.eq_false_iff.mp h)]

theorem faulted_settings (m : Machine) (memory : Memory) (phase : Phase) (offset : Option Nat) :
    (m.faulted memory phase offset).machine.chunkSize = m.chunkSize ∧
      (m.faulted memory phase offset).machine.recovers = m.recovers := by
  unfold faulted
  split <;> exact ⟨rfl, rfl⟩

theorem exec_settings (m : Machine) (code : List UInt8) (a : Arguments) (memory : Memory) :
    (m.exec code a memory).machine.chunkSize = m.chunkSize ∧
      (m.exec code a memory).machine.recovers = m.recovers := by
  unfold exec
  split
  · exact ⟨rfl, rfl⟩
  · dsimp only
    split
    · exact faulted_settings ..
    · split
      · exact ⟨rfl, rfl⟩
      · exact ⟨rfl, rfl⟩
      · exact faulted_settings ..

theorem exec_chunkSize (m : Machine) (code : List UInt8) (a : Arguments) (memory : Memory) :
    (m.exec code a memory).machine.chunkSize = m.chunkSize :=
  (m.exec_settings code a memory).1

theorem exec_eq_ok (h : (m.exec code a memory).outcome = .ok) :
    a.check = .ok () ∧ (m.hasScratch = true ∨ m.chunkCount a.count ≤ 0) ∧
      (m.runChunks a code 0 (m.store memory) (m.chunkCount a.count).toNat).2 = .done := by
  unfold exec at h
  split at h
  · simp at h
  · next hcheck =>
    dsimp only at h
    split at h
    · exact absurd h (faulted_outcome_ne_ok _ _ _ _)
    · next hroom =>
      refine ⟨hcheck, ?_, ?_⟩
      · by_cases hscratch : m.hasScratch = true
        · exact .inl hscratch
        · right
          simp only [hscratch, Bool.not_false, Bool.and_true, decide_eq_true_eq] at hroom
          omega
      · split at h
        · next hdone => exact hdone
        · simp at h
        · exact absurd h (faulted_outcome_ne_ok _ _ _ _)

end Machine
end Quadlane
