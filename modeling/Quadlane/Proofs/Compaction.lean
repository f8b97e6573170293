import Quadlane.Proofs.ScriptRuns
import Quadlane.Proofs.Ticking

/-! Removing the dead keeps the living whole. Every row that is left stood at one place before, in
all columns alike, and the map from the new places to the old ones takes the rows left exactly to
the living ones. A removal step overwrites the very column that tells the living, so the map is
built along the recursion: a dead row is exchanged with the last one. -/

namespace Quadlane.Simulation
namespace Columns

variable {c : Columns} {a rows : Nat}

def living (a : Nat) (c : Columns) (first last : Nat) : Set Nat :=
  {row | first ≤ row ∧ row < last ∧ (c.cell a row).x.isPositive = true}

def Tall (rows : Nat) (c : Columns) : Prop :=
  ∀ b ∈ c, rows ≤ b.size

theorem Tall.moveRow (h : c.Tall rows) (source target : Nat) :
    (c.moveRow source target).Tall rows := by
  intro b hb
  obtain ⟨b', hb', rfl⟩ := Array.mem_map.mp hb
  rw [Array.size_setIfInBounds]
  exact h b' hb'

theorem Tall.le_size (h : c.Tall rows) (ha : a < c.size) : rows ≤ (c.getD a #[]).size := by
  rw [Array.getD_eq_getD_getElem?, Array.getElem?_eq_getElem ha]
  exact h _ (Array.getElem_mem ha)

theorem Tall.cell_moveRow (h : c.Tall rows) {target : Nat} (htarget : target < rows)
    (source column row : Nat) :
    (c.moveRow source target).cell column row =
      c.cell column (if row = target then source else row) := by
  rw [Columns.cell_moveRow]
  by_cases hrow : row = target
  · rw [if_pos hrow]
    by_cases hcolumn : column < c.size
    · rw [if_pos ⟨hrow, htarget.trans_le (h.le_size hcolumn)⟩]
    · -- A column that does not exist has the same cell everywhere.
      have hnone : c.getD column #[] = #[] := by
        rw [Array.getD_eq_getD_getElem?, Array.getElem?_eq_none (by omega)]
        rfl
      simp [cell, hnone]
  · rw [if_neg hrow, if_neg fun heq => hrow heq.1]

/-- What removing the dead rows from `first` up to `last` does: `origin` tells where a row that is
left stood before. -/
structure Removed (a : Nat) (origin : Nat → Nat) (c : Columns) (first last : Nat)
    (result : Columns × Nat) : Prop where
  bijOn : Set.BijOn origin (Set.Ico first result.2) (c.living a first last)
  cell : ∀ column row, first ≤ row → row < result.2 →
    result.1.cell column row = c.cell column (origin row)
  own : ∀ row ∈ c.living a first last, row < result.2 → origin row = row
  elsewhere : ∀ column row, row < first ∨ last ≤ row → result.1.cell column row = c.cell column row

theorem living_succ {first last : Nat} (hlt : first < last)
    (hpositive : (c.cell a first).x.isPositive = true) :
    c.living a first last = insert first (c.living a (first + 1) last) := by
  ext row
  simp only [living, Set.mem_ofPred_eq, Set.mem_insert_iff]
  constructor
  · rintro ⟨hle, hrow, halive⟩
    by_cases heq : row = first
    · exact .inl heq
    · exact .inr ⟨by omega, hrow, halive⟩
  · rintro (rfl | ⟨hle, hrow, halive⟩)
    · exact ⟨le_rfl, hlt, hpositive⟩
    · exact ⟨by omega, hrow, halive⟩

theorem living_moveRow (h : c.Tall rows) {first last : Nat} (hle : first ≤ last)
    (hlast : last < rows) (hdead : ¬ (c.cell a first).x.isPositive = true) :
    Set.BijOn (Equiv.swap first last) ((c.moveRow last first).living a first last)
      (c.living a first (last + 1)) := by
  -- The living after the last row took the place of a dead one are the living before, seen
  -- through the exchange of the two.
  refine ⟨?_, (Equiv.injective _).injOn, ?_⟩
  · rintro row ⟨hfirst, hrow, halive⟩
    rw [h.cell_moveRow (by omega)] at halive
    by_cases heq : row = first
    · rw [if_pos heq] at halive
      rw [heq, Equiv.swap_apply_left]
      exact ⟨hle, Nat.lt_succ_self last, halive⟩
    · rw [if_neg heq] at halive
      rw [Equiv.swap_apply_of_ne_of_ne heq (by omega)]
      exact ⟨hfirst, by omega, halive⟩
  · rintro row ⟨hfirst, hrow, halive⟩
    have hne : row ≠ first := fun heq => hdead (heq ▸ halive)
    refine ⟨Equiv.swap first last row, ⟨?_, ?_, ?_⟩, Equiv.swap_apply_self first last row⟩
    all_goals rcases eq_or_ne row last with rfl | hlt
    · rw [Equiv.swap_apply_right]
    · rwa [Equiv.swap_apply_of_ne_of_ne hne hlt]
    · rw [Equiv.swap_apply_right]
      omega
    · rw [Equiv.swap_apply_of_ne_of_ne hne hlt]
      omega
    · rw [Equiv.swap_apply_right, h.cell_moveRow (by omega), if_pos rfl]
      exact halive
    · rw [Equiv.swap_apply_of_ne_of_ne hne hlt, h.cell_moveRow (by omega), if_neg hne]
      exact halive

theorem Removed.keep {origin : Nat → Nat} {first last : Nat} {result : Columns × Nat}
    (h : Removed a origin c (first + 1) last result) (hlt : first < last) (hle : first < result.2)
    (hpositive : (c.cell a first).x.isPositive = true) :
    Removed a (Function.update origin first first) c first last result := by
  have hother : ∀ row, first + 1 ≤ row → Function.update origin first first row = origin row :=
    fun row hrow => Function.update_of_ne (by omega) _ _
  refine ⟨?_, ?_, ?_, ?_⟩
  · rw [living_succ hlt hpositive, ← Set.Ioo_insert_left hle]
    have hrest : Set.BijOn (Function.update origin first first) (Set.Ioo first result.2)
        (c.living a (first + 1) last) :=
      h.bijOn.congr fun row hrow => (hother row hrow.1).symm
    have hfirst : Function.update origin first first first = first := Function.update_self ..
    have hinsert := hrest.insert (a := first) (by
      rw [hfirst]
      exact fun hmem => absurd hmem.1 (by omega))
    rwa [hfirst] at hinsert
  · intro column row hfirst hrow
    rcases hfirst.eq_or_lt with rfl | hlt'
    · rw [Function.update_self]
      exact h.elsewhere column _ (.inl (Nat.lt_succ_self _))
    · rw [hother row hlt']
      exact h.cell column row hlt' hrow
  · intro row hmem hrow
    rcases hmem.1.eq_or_lt with rfl | hlt'
    · exact Function.update_self ..
    · rw [hother row hlt']
      exact h.own row ⟨hlt', hmem.2⟩ hrow
  · intro column row hrow
    exact h.elsewhere column row (hrow.imp_left Nat.lt_succ_of_lt)

theorem Removed.replace {origin : Nat → Nat} {first last : Nat} {result : Columns × Nat}
    (htall : c.Tall rows) (hle : first ≤ last) (hlast : last < rows) (hcount : result.2 ≤ last)
    (hdead : ¬ (c.cell a first).x.isPositive = true)
    (h : Removed a origin (c.moveRow last first) first last result) :
    Removed a (Equiv.swap first last ∘ origin) c first (last + 1) result := by
  have hmoved := htall.cell_moveRow (hle.trans_lt hlast) last
  refine ⟨(living_moveRow htall hle hlast hdead).comp h.bijOn, ?_, ?_, ?_⟩
  · intro column row hfirst hrow
    rw [h.cell column row hfirst hrow, hmoved]
    have horigin := (h.bijOn.mapsTo ⟨hfirst, hrow⟩).2.1
    congr 1
    rcases eq_or_ne (origin row) first with heq | hne
    · rw [if_pos heq, Function.comp_apply, heq, Equiv.swap_apply_left]
    · rw [if_neg hne, Function.comp_apply, Equiv.swap_apply_of_ne_of_ne hne horigin.ne]
  · rintro row ⟨hfirst, hrow, halive⟩ hcounted
    have hne : row ≠ first := fun heq => hdead (heq ▸ halive)
    have hlt : row < last := hcounted.trans_le hcount
    have hkept : row ∈ (c.moveRow last first).living a first last :=
      ⟨hfirst, hlt, by rwa [hmoved, if_neg hne]⟩
    rw [Function.comp_apply, h.own row hkept hcounted, Equiv.swap_apply_of_ne_of_ne hne hlt.ne]
  · intro column row hrow
    rw [h.elsewhere column row (by omega), hmoved, if_neg (by omega)]

theorem exists_removed (i count : Nat) (h : c.Tall rows) (hrows : i + count ≤ rows) :
    ∃ origin, Removed a origin c i (i + count) (compactFrom a c i count) := by
  induction count generalizing c i with
  | zero =>
    refine ⟨id, ?_, ?_, fun _ _ _ => rfl, fun _ _ _ => rfl⟩
    · have hnone : c.living a i (i + 0) = ∅ := by
        ext row
        simp only [living, Set.mem_ofPred_eq, Set.mem_empty_iff_false, iff_false]
        omega
      rw [hnone, compactFrom, Set.Ico_self]
      exact Set.bijOn_empty id
    · exact fun _ _ _ _ => rfl
  | succ count ih =>
    unfold compactFrom
    split
    · next hpositive =>
      obtain ⟨origin, hremoved⟩ := ih (i + 1) h (by omega)
      rw [Nat.add_right_comm] at hremoved
      exact ⟨_, hremoved.keep (by omega) (compactFrom_bounds a c (i + 1) count).1 hpositive⟩
    · next hdead =>
      obtain ⟨origin, hremoved⟩ := ih i (h.moveRow (i + count) i) (by omega)
      exact ⟨_, hremoved.replace h (Nat.le_add_right i count) hrows
        (compactFrom_bounds a _ i count).2 hdead⟩

theorem compactFrom_of_living (i count : Nat)
    (h : ∀ row, i ≤ row → row < i + count → (c.cell a row).x.isPositive = true) :
    compactFrom a c i count = (c, i + count) := by
  induction count generalizing i with
  | zero => rfl
  | succ count ih =>
    have hrest : ∀ row, i + 1 ≤ row → row < i + 1 + count → (c.cell a row).x.isPositive = true :=
      fun row hrow hlt => h row (by omega) (by omega)
    rw [compactFrom, if_pos (h i le_rfl (by omega)), ih (i + 1) hrest, Nat.add_right_comm]
    rfl

end Columns

namespace Progress

theorem compact_eq {p : Progress} {a : Nat} (halive : p.emitter.aliveColumn = some a) :
    p.compact = { p with
      back := (Columns.compactFrom a p.back 0 p.live).1
      live := (Columns.compactFrom a p.back 0 p.live).2 } := by
  rw [compact, halive]
  rfl

theorem compact_of_living {p : Progress} {a : Nat} (halive : p.emitter.aliveColumn = some a)
    (h : ∀ row, row < p.live → (p.back.cell a row).x.isPositive = true) : p.compact = p := by
  rw [compact_eq halive, Columns.compactFrom_of_living 0 p.live fun row _ hrow => h row (by omega)]
  simp only [Nat.zero_add]

/-- Compaction keeps every living instance once, with all its attributes, and nothing else. A row
that is alive and still in use stays where it is, and a second compaction has nothing to do. -/
theorem compact_keeps_living_rows (p : Progress) {a : Nat} (halive : p.emitter.aliveColumn = some a)
    (ha : a < p.back.size) (hrows : ∀ b ∈ p.back, p.emitter.capacity ≤ b.size)
    (hlive : p.live ≤ p.emitter.capacity) :
    p.compact.live =
        (List.range p.live).countP (fun row => (p.back.cell a row).x.isPositive) ∧
      (∃ origin : Nat → Nat,
        Set.BijOn origin (Set.Iio p.compact.live)
          {row | row < p.live ∧ (p.back.cell a row).x.isPositive = true} ∧
        ∀ column row, row < p.compact.live →
          p.compact.back.cell column row = p.back.cell column (origin row)) ∧
      (∀ column row, row < p.compact.live → (p.back.cell a row).x.isPositive = true →
        p.compact.back.cell column row = p.back.cell column row) ∧
      (∀ row, (p.back.cell a row).x.isNaN = true → (p.back.cell a row).x.isPositive = false) ∧
      (∀ row, row < p.compact.live → (p.compact.back.cell a row).x.isPositive = true) ∧
      (∀ column row, p.live ≤ row → p.compact.back.cell column row = p.back.cell column row) ∧
      p.compact.back.map (·.size) = p.back.map (·.size) ∧
      p.compact.compact = p.compact := by
  have htall : p.back.Tall p.live := fun b hb => hlive.trans (hrows b hb)
  obtain ⟨origin, hremoved⟩ := Columns.exists_removed (a := a) 0 p.live htall (Nat.zero_add _).le
  rw [Nat.zero_add] at hremoved
  have hcount := @Columns.compactFrom_live p.back a 0 p.live
    ((Nat.zero_add _).trans_le (htall.le_size ha))
  have hleft : ∀ row, row < (Columns.compactFrom a p.back 0 p.live).2 →
      ((Columns.compactFrom a p.back 0 p.live).1.cell a row).x.isPositive = true := by
    intro row hrow
    rw [hremoved.cell a row (Nat.zero_le row) hrow]
    exact (hremoved.bijOn.mapsTo ⟨Nat.zero_le row, hrow⟩).2.2
  rw [compact_eq halive]
  refine ⟨?_, ⟨origin, ?_, ?_⟩, ?_, ?_, hleft, ?_, Columns.sizes_compactFrom a p.back 0 p.live, ?_⟩
  · rw [hcount, Nat.zero_add, List.range_eq_range']
  · have hliving : p.back.living a 0 p.live =
        {row | row < p.live ∧ (p.back.cell a row).x.isPositive = true} := by
      ext row
      simp only [Columns.living, Set.mem_ofPred_eq, Nat.zero_le, true_and]
    have hrows : Set.Iio (Columns.compactFrom a p.back 0 p.live).2 =
        Set.Ico 0 (Columns.compactFrom a p.back 0 p.live).2 := by
      ext row
      simp
    rw [← hliving, hrows]
    exact hremoved.bijOn
  · exact fun column row hrow => hremoved.cell column row (Nat.zero_le row) hrow
  · intro column row hrow hpositive
    have hbelow : row < p.live :=
      hrow.trans_le ((Columns.compactFrom_bounds a p.back 0 p.live).2.trans (Nat.zero_add _).le)
    rw [hremoved.cell column row (Nat.zero_le row) hrow,
      hremoved.own row ⟨Nat.zero_le row, hbelow, hpositive⟩ hrow]
  · intro row hnan
    rw [Lane.isPositive, Lane.lt, hnan]
    simp
  · exact fun column row hrow => hremoved.elsewhere column row (.inr hrow)
  · exact compact_of_living halive hleft

def wilting : Progress :=
  let column := fun (xs : List Lane) => (xs.map Quad.splat).toArray
  let one := Lane.one
  let emitter : Emitter :=
    { name := Text.lit "reeds", attributes := [Text.lit "x", Text.lit "life"], capacity := 6
      alive := Text.lit "life", columns := #[], aliveColumn := some 1 }
  { emitter, front := #[]
    back := #[column [.ofInt 10, .ofInt 11, .ofInt 12, .ofInt 13, .ofInt 14, .ofInt 15],
      column [.zero, one, .nan, one, .neg one, one]]
    live := 5, machine := .new 2 1 NoiseTable.standard }

theorem wilting_compacted :
    wilting.compact.live = 2 ∧
      (∀ column, wilting.compact.back.cell column 1 = wilting.back.cell column 1) ∧
      wilting.compact.compact = wilting.compact := by
  obtain ⟨hlive, -, hown, -, -, -, -, hagain⟩ :=
    wilting.compact_keeps_living_rows rfl (by decide) (by decide) (by decide)
  have htwo : wilting.compact.live = 2 := hlive.trans (by decide)
  exact ⟨htwo, fun column => hown column 1 (by omega) (by decide), hagain⟩

end Progress
end Quadlane.Simulation
