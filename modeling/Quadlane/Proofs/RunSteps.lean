import Quadlane.Proofs.Calls
import Quadlane.Proofs.Shape

/-! Induction along a run: what holds after each instance holds after a chunk, the body of a code is
carried out instruction by instruction, and what holds after each chunk holds after a call that
succeeds. -/

namespace Quadlane

theorem Code.bodyFrom_of_unreadable {offset : Nat} {code : List UInt8} {e : ReadError}
    (h : Instruction.split offset code = .error e) : bodyFrom offset code = [] := by
  cases code with
  | nil => rw [bodyFrom, decodeFrom_nil]; rfl
  | cons byte rest =>
    rw [bodyFrom, decodeFrom]
    simp only [List.isEmpty_cons, Bool.false_eq_true, if_false]
    split
    · rfl
    · next hsplit => simp [h] at hsplit

theorem Action.perform_steps (table : NoiseTable) (c : Chunk) (a : Action) (hpresent : a.isPresent)
    {P : Nat → Store → Prop} {s : Store} (hstart : P 0 s)
    (hstep : ∀ i t, i < c.count → P i t → P (i + 1) (a.onInstance table c t i)) :
    P c.count (a.perform table c s) := by
  have hall : ∀ n ≤ c.count, P n ((List.range n).foldl (a.onInstance table c) s) := by
    intro n
    induction n with
    | zero => exact fun _ => hstart
    | succ n ih =>
      intro hn
      rw [List.range_succ, List.foldl_append]
      exact hstep n _ hn (ih (Nat.le_of_succ_le hn))
  rw [a.perform_of_present table c hpresent]
  exact hall c.count (Nat.le_refl _)

def Frame.Performs (f : Frame) (m : Memory) : List Instruction → List Action → Prop :=
  List.Forall₂ fun ins act =>
    act.isPresent ∧ ∀ m' : Memory, m'.shape = m.shape → f.resolve m' ins = some act

theorem runFrom_of_performs {table : NoiseTable} {f : Frame} {c : Chunk} {offset : Nat} {m : Memory}
    {s : Store} {code : List UInt8} {acts : List Action}
    (h : f.Performs m (Code.bodyFrom offset code) acts) (hshape : s.memory.shape = m.shape) :
    (runFrom table f c offset s code).1 = acts.foldl (fun s act => act.perform table c s) s := by
  generalize hbody : Code.bodyFrom offset code = body at h
  induction h generalizing offset s code with
  | nil =>
    cases hsplit : Instruction.split offset code with
    | error e => rw [runFrom_of_unreadable hsplit, List.foldl_nil]
    | ok p =>
      rw [Code.bodyFrom_of_split hsplit] at hbody
      split at hbody
      · next hdone => rw [runFrom_of_done hsplit hdone, List.foldl_nil]
      · cases hbody
  | @cons ins act body acts hact hrest ih =>
    cases hsplit : Instruction.split offset code with
    | error e =>
      rw [Code.bodyFrom_of_unreadable hsplit] at hbody
      cases hbody
    | ok p =>
      rw [Code.bodyFrom_of_split hsplit] at hbody
      split at hbody
      · cases hbody
      · next hdone =>
        obtain ⟨rfl, htail⟩ := List.cons.inj hbody
        rw [runFrom_of_resolve hsplit hdone (hact.2 s.memory hshape)
          (act.reach_of_present c hact.1 s), List.foldl_cons]
        exact ih ((act.perform_shape table c s).trans hshape) htail

/-! ### Chunk after chunk -/

namespace Machine

variable {m : Machine} {a : Arguments} {code : List UInt8} {memory : Memory} {P : Nat → Store → Prop}
variable {n c : Nat}

theorem runChunks_steps (hsize : m.chunkSize = c) (hc : 1 ≤ c) (hn : a.count = n)
    (hlt : n < 2 ^ 63)
    (hstep : ∀ first count s, first + count ≤ n → P first s →
      P (first + count) (runFrom m.noise a.frame ⟨first, count⟩ 0 s code).1)
    (k remaining : Nat) (hk : k + remaining = (n + c - 1) / c) {s : Store} (h : P (min (k * c) n) s)
    (hdone : (m.runChunks a code k s remaining).2 = .done) :
    P n (m.runChunks a code k s remaining).1 := by
  induction remaining generalizing k s with
  | zero =>
    -- The chunks, rounded up, cover all instances.
    have hall : n ≤ k * c := by
      have hdiv := Nat.div_add_mod (n + c - 1) c
      have hmod := Nat.mod_lt (n + c - 1) hc
      rw [← hk, Nat.mul_comm] at hdiv
      simp only [Nat.add_zero] at hdiv
      omega
    rwa [Nat.min_eq_right hall] at h
  | succ remaining ih =>
    have hmore : k * c < n := by
      have hle : (k + 1) * c ≤ n + c - 1 := (Nat.le_div_iff_mul_le hc).mp (by omega)
      rw [Nat.succ_mul] at hle
      omega
    have hnext : k * c + min c (n - k * c) = min ((k + 1) * c) n := by
      rw [Nat.succ_mul]
      omega
    rw [Nat.min_eq_left (Nat.le_of_lt hmore)] at h
    have hchunk := hstep _ (min c (n - k * c)) s (by omega) h
    rw [runChunks_succ, hn, chunk_of_lt hsize hmore hlt] at hdone ⊢
    rw [hnext] at hchunk
    generalize runFrom m.noise a.frame ⟨k * c, min c (n - k * c)⟩ 0 s code = run at hdone hchunk ⊢
    obtain ⟨s', ending⟩ := run
    cases ending with
    | done => exact ih (k + 1) (by omega) hchunk hdone
    | error e => cases hdone
    | fault offset => cases hdone

theorem runChunks_done
    (h : ∀ ch s, (runFrom m.noise a.frame ch 0 s code).2 = .done) (k remaining : Nat) (s : Store) :
    (m.runChunks a code k s remaining).2 = .done := by
  induction remaining generalizing k s with
  | zero => rfl
  | succ remaining ih =>
    have hrun : runFrom m.noise a.frame (m.chunk a.count k) 0 s code =
        ((runFrom m.noise a.frame (m.chunk a.count k) 0 s code).1, .done) := Prod.ext rfl (h _ s)
    rw [runChunks_succ, hrun]
    exact ih (k + 1) _

/-- What holds after each chunk holds after a call that succeeds. -/
theorem exec_steps (hsize : m.chunkSize = c) (hc : 1 ≤ c) (hn : a.count = n)
    (hfits : n + c ≤ 2 ^ 63)
    (hstep : ∀ first count s, first + count ≤ n → P first s →
      P (first + count) (runFrom m.noise a.frame ⟨first, count⟩ 0 s code).1)
    (h : P 0 (m.store memory)) (hok : (m.exec code a memory).outcome = .ok) :
    ∃ s, P n s ∧ (m.exec code a memory).memory = s.memory := by
  obtain ⟨hcheck, hroom, hdone⟩ := exec_eq_ok hok
  have hchunks : (m.chunkCount a.count).toNat = (n + c - 1) / c := by
    rw [hn]
    exact chunkCount_toNat hsize hc hfits
  have hrun : m.runChunks a code 0 (m.store memory) (m.chunkCount a.count).toNat =
      ((m.runChunks a code 0 (m.store memory) (m.chunkCount a.count).toNat).1, .done) :=
    Prod.ext rfl hdone
  refine ⟨_, ?_, by rw [exec_of_done hcheck hroom hrun]⟩
  rw [hchunks] at hdone ⊢
  exact runChunks_steps hsize hc hn (by omega) hstep 0 _ (Nat.zero_add _)
    (by rwa [Nat.zero_mul, Nat.zero_min]) hdone

end Machine
end Quadlane
