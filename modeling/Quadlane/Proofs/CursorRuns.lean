import Quadlane.Proofs.Cursors
import Quadlane.Proofs.Chunks

/-! Runs of cursor operations, in any order and mix. Up to a size of `2 ^ 62` a cursor that starts
within its view stays there, and from `2 ^ 62 + 1` on some step back leaves it, because the sum that
is reduced modulo the size overflows. Operations that go round count modulo the size, so a whole turn
gives every slot once. A call on a machine is such a run for each of its views. -/

namespace Quadlane

inductive CursorCall where
  | move (c : Cursor)
  | reset

/-- What a call may give back for a view of the given size: an index within it or right behind it,
and -1 only where there is no slot to go round. -/
def CursorCall.Gives (size : Int) : CursorCall → Option Int → Prop
  | move c, i => ∃ k, i = some k ∧ (k = -1 ↔ size = 0 ∧ c.wraps) ∧ (k ≠ -1 → 0 ≤ k ∧ k ≤ size)
  | reset, i => i = none

namespace View

variable {β : Type}

def call (v : View β) : CursorCall → Option Int × View β
  | .move c => (some (v.move c).1, (v.move c).2)
  | .reset => (none, v.reset)

def run (v : View β) : List CursorCall → List (Option Int) × View β
  | [] => ([], v)
  | c :: calls => ((v.call c).1 :: ((v.call c).2.run calls).1, ((v.call c).2.run calls).2)

structure Within (size : Int) (v : View β) : Prop where
  size_eq : v.size = size
  lower : 0 ≤ v.counter
  upper : v.counter ≤ size

variable {v : View β} {size : Int}

theorem Within.move (h : v.Within size) (hsize : size ≤ 2 ^ 62) (c : Cursor) :
    (v.move c).2.Within size := by
  obtain ⟨rfl, lower, upper⟩ := h
  rw [move_eq lower upper hsize]
  exact ⟨rfl, (c.next_mem lower upper).1, (c.next_mem lower upper).2⟩

theorem Within.call (h : v.Within size) (hsize : size ≤ 2 ^ 62) (c : CursorCall) :
    c.Gives size (v.call c).1 ∧ (v.call c).2.Within size := by
  cases c with
  | move c =>
    refine ⟨⟨_, rfl, ?_⟩, h.move hsize c⟩
    obtain ⟨rfl, lower, upper⟩ := h
    rw [move_eq lower upper hsize]
    dsimp only
    split <;> grind
  | reset => exact ⟨rfl, h.size_eq, le_rfl, h.lower.trans h.upper⟩

theorem Within.run (h : v.Within size) (hsize : size ≤ 2 ^ 62) (calls : List CursorCall) :
    List.Forall₂ (CursorCall.Gives size) calls (v.run calls).1 ∧ (v.run calls).2.Within size := by
  induction calls generalizing v with
  | nil => exact ⟨.nil, h⟩
  | cons c calls ih =>
    obtain ⟨hgives, hcall⟩ := h.call hsize c
    obtain ⟨hall, hend⟩ := ih hcall
    exact ⟨.cons hgives hall, hend⟩

theorem exists_consumeWrap_neg (β : Type) (hlower : 2 ^ 62 < size) (hupper : size < 2 ^ 63) :
    ∃ v : View β, v.Within size ∧ v.consumeWrap.2.counter < 0 := by
  -- In a view of more than `2 ^ 62` records a step back from one of the last two places overflows
  -- to a negative number, whose remainder is not positive; it is zero for one of the two at most.
  by_contra hall
  push Not at hall
  have hzero (counter : Int) (hfirst : size - 1 ≤ counter) (hlast : counter ≤ size) :
      size ∣ counter - 1 + size - 2 ^ 64 := by
    have hnonneg := hall { name := [], size, counter } ⟨rfl, by dsimp only; omega, hlast⟩
    rw [consumeWrap, if_neg (by dsimp only; omega)] at hnonneg
    dsimp only at hnonneg
    rw [wrap_of_overflow (by omega) (by omega)] at hnonneg
    have hnonpos := Int.tmod_nonneg size (a := -(counter - 1 + size - 2 ^ 64)) (by omega)
    rw [Int.neg_tmod] at hnonpos
    exact Int.dvd_of_tmod_eq_zero (by omega)
  have hone := dvd_sub (hzero size (by omega) le_rfl) (hzero (size - 1) le_rfl (by omega))
  have hle := Int.le_of_dvd (by omega) hone
  omega

theorem run_wraps {moves : List Cursor} (hmoves : ∀ c ∈ moves, c.wraps) (lower : 0 ≤ v.counter)
    (upper : v.counter < v.size) (hsize : v.size ≤ 2 ^ 62) :
    (v.run (moves.map .move)).2.counter =
        (v.counter + moves.count .acquireWrap - moves.count .consumeWrap) % v.size ∧
      ∀ i ∈ (v.run (moves.map .move)).1, ∃ k, i = some k ∧ v.isValid k := by
  induction moves generalizing v with
  | nil => simp [run, Int.emod_eq_of_lt lower upper]
  | cons c moves ih =>
    have hmove := move_eq lower upper.le hsize c
    rw [if_neg (by omega)] at hmove
    have hnext : c.next v.size v.counter =
        (v.counter + [c].count .acquireWrap - [c].count .consumeWrap) % v.size := by
      have hc := hmoves c (List.mem_cons_self ..)
      cases c <;> simp_all [Cursor.wraps, Cursor.next] <;> omega
    have hpos : v.size ≠ 0 := by omega
    obtain ⟨hcounter, hvalid⟩ := ih (v := (v.move c).2)
      (fun c' hc' => hmoves c' (List.mem_cons_of_mem c hc'))
      (by rw [hmove]; exact hnext ▸ Int.emod_nonneg _ hpos)
      (by rw [hmove]; exact hnext ▸ Int.emod_lt_of_pos _ (by omega))
      (by rw [hmove]; exact hsize)
    have hcons (d : Cursor) : ((c :: moves).count d : Int) = [c].count d + moves.count d := by
      rw [← List.singleton_append, List.count_append]
      push_cast
      rfl
    simp only [List.map_cons, run, call, List.mem_cons, forall_eq_or_imp]
    rw [hmove] at hcounter hvalid ⊢
    refine ⟨?_, ⟨v.counter, rfl, by simp [isValid, lower, upper]⟩, hvalid⟩
    rw [hcounter, hcons, hcons]
    dsimp only
    rw [hnext, add_sub_assoc, Int.emod_add_emod]
    congr 1
    ring

theorem run_acquireWraps (n : Nat) (lower : 0 ≤ v.counter) (upper : v.counter < v.size)
    (hsize : v.size < 2 ^ 63) :
    (v.run (List.replicate n (.move .acquireWrap))).1 =
      (List.range n).map fun k : Nat => some ((v.counter + k) % v.size) := by
  induction n generalizing v with
  | zero => rfl
  | succ n ih =>
    have hmove : v.move .acquireWrap = _ := acquireWrap_eq lower (by omega) (by omega)
    have hpos : v.size ≠ 0 := by omega
    have hrest := ih (v := (v.move .acquireWrap).2)
      (by rw [hmove]; exact Int.emod_nonneg _ hpos)
      (by rw [hmove]; exact Int.emod_lt_of_pos _ (by omega)) (by rw [hmove]; exact hsize)
    rw [List.replicate_succ, List.range_succ_eq_map, List.map_cons, List.map_map]
    simp only [run, call]
    rw [hrest, hmove]
    refine congrArg₂ List.cons ?_ (List.map_congr_left fun k _ => ?_)
    · rw [Nat.cast_zero, add_zero, Int.emod_eq_of_lt lower upper]
    · dsimp only [Function.comp_apply]
      rw [Int.emod_add_emod, Nat.cast_succ]
      congr 2
      ring

theorem run_whole_turn (lower : 0 ≤ v.counter) (upper : v.counter < v.size)
    (hsize : v.size < 2 ^ 63) :
    (v.run (List.replicate v.size.toNat (.move .acquireWrap))).1 =
      ((List.range v.size.toNat).rotate v.counter.toNat).map fun k : Nat => some (k : Int) := by
  rw [run_acquireWraps _ lower upper hsize]
  apply List.ext_getElem
  · simp
  · intro k hk _
    simp only [List.getElem_map, List.getElem_range, List.getElem_rotate, List.length_range,
      Option.some.injEq]
    rw [Int.natCast_emod, Nat.cast_add, Int.toNat_of_nonneg lower,
      Int.toNat_of_nonneg (by omega), add_comm]

end View

/-- Sizes up to `2 ^ 62` are exactly those at which every run of cursor calls that starts within the
view stays there and gives indices of it. At these sizes, runs that go round count modulo the size,
and a call on a machine, however it ends, leaves every such cursor within its view. A whole turn
gives every slot once at any size. -/
theorem cursor_runs_stay_within (β : Type) :
    (∀ size : Int, 0 ≤ size → size < 2 ^ 63 →
      ((∀ v : View β, v.size = size → 0 ≤ v.counter → v.counter ≤ size →
          ∀ calls : List CursorCall,
            0 ≤ (v.run calls).2.counter ∧ (v.run calls).2.counter ≤ size ∧
              List.Forall₂ (CursorCall.Gives size) calls (v.run calls).1) ↔
        size ≤ 2 ^ 62)) ∧
    (∀ v : View β, 0 ≤ v.counter → v.counter < v.size → v.size ≤ 2 ^ 62 →
      ∀ moves : List Cursor, (∀ c ∈ moves, c.wraps) →
        (v.run (moves.map .move)).2.counter =
            (v.counter + moves.count .acquireWrap - moves.count .consumeWrap) % v.size ∧
          ∀ i ∈ (v.run (moves.map .move)).1, ∃ k, i = some k ∧ v.isValid k) ∧
    (∀ v : View β, 0 ≤ v.counter → v.counter < v.size → v.size < 2 ^ 63 →
      (v.run (List.replicate v.size.toNat (.move .acquireWrap))).1 =
        ((List.range v.size.toNat).rotate v.counter.toNat).map fun k : Nat => some (k : Int)) ∧
    (∀ (m : Machine) (code : List UInt8) (a : Arguments) (memory : Memory) (id : Nat)
      (v : View (Option BufferId)), memory.views[id]? = some v →
      0 ≤ v.counter → v.counter ≤ v.size → v.size ≤ 2 ^ 62 →
      ∃ v', (m.exec code a memory).memory.views[id]? = some v' ∧ v'.size = v.size ∧
        0 ≤ v'.counter ∧ v'.counter ≤ v'.size) := by
  refine ⟨fun size h0 hlimit => ⟨fun hall => ?_, fun hsize v hv lower upper calls => ?_⟩, ?_, ?_, ?_⟩
  · by_contra hlarge
    obtain ⟨v, hwithin, hneg⟩ := View.exists_consumeWrap_neg β (by omega) hlimit
    have hstep := (hall v hwithin.size_eq hwithin.lower hwithin.upper [.move .consumeWrap]).1
    exact absurd hneg (Int.not_lt.mpr hstep)
  · obtain ⟨hgives, hend⟩ := View.Within.run ⟨hv, lower, upper⟩ hsize calls
    exact ⟨hend.lower, hend.upper, hgives⟩
  · intro v lower upper hsize moves hmoves
    exact View.run_wraps hmoves lower upper hsize
  · intro v lower upper hsize
    exact View.run_whole_turn lower upper hsize
  · intro m code a memory id v hv lower upper hsize
    obtain ⟨v', hv', hwithin⟩ := m.exec_hasView (Q := View.Within v.size)
      (fun _ c h => h.move hsize c) (fun _ _ h => ⟨h.size_eq, h.lower, h.upper⟩) (a := a) code
      ⟨v, hv, rfl, lower, upper⟩
    exact ⟨v', hv', hwithin.size_eq, hwithin.lower, hwithin.upper.trans_eq hwithin.size_eq.symm⟩

def ringOfThree : View (Option BufferId) :=
  { name := [], size := 3, counter := 2 }

theorem ringOfThree_stays_within :
    (0 ≤ (ringOfThree.run [.move .consume, .move .acquireWrap, .reset]).2.counter ∧
      (ringOfThree.run [.move .consume, .move .acquireWrap, .reset]).2.counter ≤ 3) ∧
    (ringOfThree.run ([Cursor.acquireWrap, .consumeWrap, .acquireWrap].map .move)).2.counter = 0 ∧
    (ringOfThree.run (List.replicate 3 (.move .acquireWrap))).1 = [some 2, some 0, some 1] ∧
    ∃ v', ((Machine.new 2 0 .standard).exec [57, 0, 1, 0, 0, 0]
        ⟨[], [], .own [Quad.splat Lane.one], [some 0], 3⟩ ⟨#[], #[ringOfThree]⟩).memory.views[0]? = some v' ∧
      v'.size = 3 ∧ 0 ≤ v'.counter ∧ v'.counter ≤ v'.size := by
  -- A mixed run, a run that goes round, a whole turn, and a call that steps back three times in
  -- two chunks.
  obtain ⟨hmixed, hround, hturn, hexec⟩ := cursor_runs_stay_within (Option BufferId)
  have hmixed := (hmixed 3 (by decide) (by decide)).mpr (by decide) ringOfThree rfl (by decide)
    (by decide) [.move .consume, .move .acquireWrap, .reset]
  exact ⟨⟨hmixed.1, hmixed.2.1⟩,
    (hround ringOfThree (by decide) (by decide) (by decide) _ (by decide)).1,
    hturn ringOfThree (by decide) (by decide) (by decide),
    hexec _ _ _ _ 0 ringOfThree rfl (by decide) (by decide) (by decide)⟩

/-- A step back from the end of a view of `2 ^ 62 + 2 ^ 61` records. -/
theorem consumeWrap_leaves_view :
    ({ name := [], size := 6917529027641081856, counter := 6917529027641081856 } :
      OwnedView).consumeWrap.2.counter = -4611686018427387905 := by
  decide

end Quadlane
