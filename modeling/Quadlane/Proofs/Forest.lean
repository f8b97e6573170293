import Mathlib.Data.Finset.Card
import Mathlib.Data.Finset.Range
import Mathlib.Logic.Function.Iterate
import Quadlane.Simulation.Grouping

/-! Forests of parents have no cycle, whatever is found and linked in them. The invariant is a rank
that goes down from every emitter to its parent: a root that becomes the parent of the emitters below
it keeps the rank, and linking two roots raises the ranks of one tree above the other root. The search
for a root therefore ends, and it needs no more steps than there are emitters. -/

namespace Quadlane.Simulation.Forest

/-- The search for a root by its own recursion, without a bound on its steps: the call for `i` ends
with root `r` and leaves the forest `g`. -/
inductive Finds (f : Forest) : Nat → Nat → Forest → Prop
  | root {i : Nat} (h : f.parent i = i) : Finds f i i f
  | climb {i r : Nat} {g : Forest} (h : f.parent i ≠ i) (rest : Finds f (f.parent i) r g) :
    Finds f i r (g.set i r)

structure Ranked (f : Forest) (rank : Nat → Nat) : Prop where
  inside : ∀ i < f.length, f.parent i < f.length
  descends : ∀ i, f.parent i ≠ i → rank (f.parent i) < rank i

def root (f : Forest) (i : Nat) : Nat :=
  (f.find i).1

variable {f g : Forest} {rank : Nat → Nat} {i j r s : Nat}

theorem parent_set (f : Forest) (i r j : Nat) :
    Forest.parent (f.set i r) j = if j = i ∧ i < f.length then r else f.parent j := by
  unfold parent
  rw [List.getD_eq_getElem?_getD, List.getD_eq_getElem?_getD, List.getElem?_set]
  by_cases hij : i = j
  · subst hij
    by_cases hi : i < f.length <;> simp [hi]
  · rw [if_neg hij, if_neg fun h => hij h.1.symm]

theorem parent_of_ge (h : f.length ≤ i) : f.parent i = i := by
  rw [parent, List.getD_eq_getElem?_getD, List.getElem?_eq_none h, Option.getD_none]

theorem lt_of_parent_ne (h : f.parent i ≠ i) : i < f.length := by
  by_contra hge
  exact h (parent_of_ge (Nat.le_of_not_lt hge))

theorem parent_range (n i : Nat) : Forest.parent (List.range n) i = i := by
  unfold parent
  by_cases hi : i < n <;> simp [hi]

/-! ### The search ends -/

section Search

def below (f : Forest) (rank : Nat → Nat) (i : Nat) : Nat :=
  ((Finset.range f.length).filter fun x => rank x < rank i).card

theorem Ranked.below_parent (h : f.Ranked rank) (hi : f.parent i ≠ i) :
    f.below rank (f.parent i) < f.below rank i := by
  have hinside := h.inside i (lt_of_parent_ne hi)
  have hdown := h.descends i hi
  apply Finset.card_lt_card
  rw [Finset.ssubset_iff_of_subset]
  · exact ⟨f.parent i, by simp [hinside, hdown], by simp⟩
  · intro x hx
    rw [Finset.mem_filter] at hx ⊢
    exact ⟨hx.1, Nat.lt_trans hx.2 hdown⟩

theorem Ranked.climb_finds (h : f.Ranked rank) {steps : Nat} (hsteps : f.below rank i ≤ steps) :
    f.Finds i (f.climb steps i).1 (f.climb steps i).2 := by
  induction steps generalizing i with
  | zero =>
    have hroot : f.parent i = i := by
      by_contra hi
      have := h.below_parent hi
      omega
    exact .root hroot
  | succ steps ih =>
    by_cases hi : f.parent i = i
    · rw [climb, if_pos hi]
      exact .root hi
    · have hdown := h.below_parent hi
      rw [climb, if_neg hi]
      exact .climb hi (ih (by omega))

/-- As many steps as there are emitters are enough. -/
theorem Ranked.finds (h : f.Ranked rank) (i : Nat) : f.Finds i (f.root i) (f.find i).2 := by
  apply h.climb_finds
  calc f.below rank i ≤ (Finset.range f.length).card := Finset.card_filter_le _ _
    _ = f.length := Finset.card_range _

theorem Finds.unique (h : f.Finds i r g) {s : Nat} {g' : Forest} (h' : f.Finds i s g') :
    s = r ∧ g' = g := by
  induction h generalizing s g' with
  | root hi =>
    cases h' with
    | root => exact ⟨rfl, rfl⟩
    | climb hne => exact absurd hi hne
  | climb hi _ ih =>
    cases h' with
    | root hroot => exact absurd hroot hi
    | climb _ rest =>
      obtain ⟨rfl, rfl⟩ := ih rest
      exact ⟨rfl, rfl⟩

theorem Ranked.root_of_finds (h : f.Ranked rank) (hfind : f.Finds i r g) : f.root i = r :=
  (hfind.unique (h.finds i)).1

theorem Ranked.root_of_parent_eq (h : f.Ranked rank) (hi : f.parent i = i) : f.root i = i :=
  h.root_of_finds (.root hi)

theorem Ranked.root_parent (h : f.Ranked rank) (i : Nat) : f.root (f.parent i) = f.root i := by
  by_cases hi : f.parent i = i
  · rw [hi]
  · exact (h.root_of_finds (.climb hi (h.finds (f.parent i)))).symm

theorem Finds.parent_root (h : f.Finds i r g) : f.parent r = r := by
  induction h with
  | root hi => exact hi
  | climb _ _ ih => exact ih

theorem Ranked.parent_root (h : f.Ranked rank) (i : Nat) : f.parent (f.root i) = f.root i :=
  (h.finds i).parent_root

theorem Ranked.finds_lt (h : f.Ranked rank) (hfind : f.Finds i r g) (hi : i < f.length) :
    r < f.length := by
  induction hfind with
  | root => exact hi
  | climb _ _ ih => exact ih (h.inside _ hi)

theorem Ranked.root_lt (h : f.Ranked rank) (hi : i < f.length) : f.root i < f.length :=
  h.finds_lt (h.finds i) hi

theorem Ranked.rank_root_le (h : f.Ranked rank) (hfind : f.Finds i r g) : rank r ≤ rank i := by
  induction hfind with
  | root => exact Nat.le_refl _
  | climb hi _ ih => exact Nat.le_trans ih (Nat.le_of_lt (h.descends _ hi))

theorem Ranked.no_cycle (h : f.Ranked rank) {k : Nat} (hback : f.parent^[k + 1] i = i) :
    f.parent i = i := by
  by_contra hi
  have hpath : ∀ k x, rank (f.parent^[k] x) ≤ rank x := by
    intro k
    induction k with
    | zero => exact fun x => Nat.le_refl _
    | succ k ih =>
      intro x
      rw [Function.iterate_succ_apply]
      by_cases hx : f.parent x = x
      · rw [hx]
        exact ih x
      · exact Nat.le_trans (ih _) (Nat.le_of_lt (h.descends x hx))
  have hdown := hpath k (f.parent i)
  rw [← Function.iterate_succ_apply, hback] at hdown
  exact Nat.lt_irrefl _ (Nat.lt_of_le_of_lt hdown (h.descends i hi))

end Search

/-! ### Finding keeps the trees -/

section Compression

theorem Finds.length (h : f.Finds i r g) : g.length = f.length := by
  induction h with
  | root => rfl
  | climb _ _ ih => rw [List.length_set, ih]

theorem Finds.parent_eq (h : f.Finds i r g) (j : Nat) :
    g.parent j = f.parent j ∨
      (f.parent j ≠ j ∧ g.parent j = r ∧ ∃ g', f.Finds j r g') := by
  -- Only emitters below the root get another parent, and that is the root.
  induction h with
  | root => exact .inl rfl
  | @climb i r g hi rest ih =>
    rw [parent_set]
    by_cases hj : j = i ∧ i < g.length
    · obtain ⟨rfl, hlt⟩ := hj
      rw [if_pos ⟨rfl, hlt⟩]
      exact .inr ⟨hi, rfl, _, .climb hi rest⟩
    · rw [if_neg hj]
      exact ih

theorem Ranked.of_finds (h : f.Ranked rank) (hfind : f.Finds i r g) : g.Ranked rank := by
  constructor
  · intro j hj
    rw [hfind.length] at hj ⊢
    rcases hfind.parent_eq j with hsame | ⟨-, hroot, g', hj'⟩
    · rw [hsame]
      exact h.inside j hj
    · rw [hroot]
      exact h.finds_lt hj' hj
  · intro j hj
    rcases hfind.parent_eq j with hsame | ⟨hne, hroot, g', hj'⟩
    · rw [hsame] at hj ⊢
      exact h.descends j hj
    · -- The root is below the old parent or is that parent.
      cases hj' with
      | root hroot => exact absurd hroot hne
      | climb _ rest =>
        rw [hroot]
        exact Nat.lt_of_le_of_lt (h.rank_root_le rest) (h.descends j hne)

theorem Ranked.root_of_compressed (h : f.Ranked rank) (hfind : f.Finds i r g) (j : Nat) :
    g.root j = f.root j := by
  have hg := h.of_finds hfind
  have hroots : ∀ x, f.parent x = x → g.parent x = x := by
    intro x hx
    rcases hfind.parent_eq x with hsame | ⟨hne, -⟩
    · rw [hsame, hx]
    · exact absurd hx hne
  induction hrank : rank j using Nat.strongRecOn generalizing j with
  | ind n ih =>
    by_cases hj : f.parent j = j
    · rw [h.root_of_parent_eq hj, hg.root_of_parent_eq (hroots j hj)]
    · rcases hfind.parent_eq j with hsame | ⟨-, hroot, g', hj'⟩
      · have hdown := h.descends j hj
        rw [← hg.root_parent j, ← h.root_parent j, hsame]
        exact ih _ (hrank ▸ hdown) (f.parent j) rfl
      · rw [h.root_of_finds hj', ← hg.root_parent j, hroot]
        exact hg.root_of_parent_eq (hroots r hfind.parent_root)

theorem Ranked.roots_eq (h : f.Ranked rank) (l : List Nat) : f.roots l = l.map f.root := by
  induction l generalizing f with
  | nil => rfl
  | cons i l ih =>
    have hsame := h.root_of_compressed (h.finds i)
    calc f.roots (i :: l) = f.root i :: (f.find i).2.roots l := rfl
      _ = f.root i :: l.map (f.find i).2.root := by rw [ih (h.of_finds (h.finds i))]
      _ = (i :: l).map f.root := by rw [List.map_cons, funext hsame]

end Compression

/-! ### Linking joins two trees -/

section Linking

theorem Ranked.graft (h : f.Ranked rank) (hr : f.parent r = r) (hs : f.parent s = s)
    (hrlt : r < f.length) (hslt : s < f.length) :
    (∃ rank', Forest.Ranked (f.set r s) rank') ∧
      ∀ x, Forest.root (f.set r s) x = if f.root x = r then s else f.root x := by
  have hparent : ∀ x, Forest.parent (f.set r s) x = if x = r then s else f.parent x := by
    intro x
    rw [parent_set]
    by_cases hx : x = r <;> simp [hx, hrlt]
  by_cases hrs : r = s
  · -- Nothing changes if both are the same tree.
    subst hrs
    have hget : f[r] = r := by
      rw [parent, List.getD_eq_getElem?_getD, List.getElem?_eq_getElem hrlt] at hr
      exact hr
    have hsame : f.set r r = f := by
      have hself : f.set r f[r] = f := List.set_getElem_self hrlt
      rwa [hget] at hself
    rw [hsame]
    refine ⟨⟨rank, h⟩, fun x => ?_⟩
    split
    · next hx => exact hx
    · rfl
  · have hroot_s : f.root s = s := h.root_of_parent_eq hs
    have hroot_r : f.root r = r := h.root_of_parent_eq hr
    have hranked : Forest.Ranked (f.set r s)
        fun x => if f.root x = r then rank x + rank s + 1 else rank x := by
      constructor
      · intro x hx
        rw [List.length_set] at hx ⊢
        rw [hparent]
        split
        · exact hslt
        · exact h.inside x hx
      · intro x hx
        rw [hparent] at hx ⊢
        by_cases hxr : x = r
        · subst hxr
          rw [if_pos rfl, if_pos hroot_r, hroot_s, if_neg (Ne.symm hrs)]
          omega
        · -- An emitter and its parent are in one tree, so both ranks are raised or none is.
          rw [if_neg hxr] at hx ⊢
          have hdown := h.descends x hx
          rw [h.root_parent x]
          split <;> omega
    refine ⟨⟨_, hranked⟩, ?_⟩
    have hnew_s : Forest.root (f.set r s) s = s := by
      apply hranked.root_of_parent_eq
      rw [hparent, if_neg (Ne.symm hrs), hs]
    intro x
    induction hrank : rank x using Nat.strongRecOn generalizing x with
    | ind n ih =>
      rw [← hranked.root_parent x, hparent]
      by_cases hxr : x = r
      · subst hxr
        rw [if_pos rfl, hnew_s, if_pos hroot_r]
      · rw [if_neg hxr]
        by_cases hx : f.parent x = x
        · rw [hx, h.root_of_parent_eq hx, if_neg hxr]
          apply hranked.root_of_parent_eq
          rw [hparent, if_neg hxr, hx]
        · have hdown := h.descends x hx
          rw [ih _ (hrank ▸ hdown) (f.parent x) rfl, h.root_parent x]

theorem link_eq (f : Forest) (i j : Nat) :
    f.link i j = List.set ((f.find i).2.find j).2 (f.root i) ((f.find i).2.root j) :=
  rfl

theorem Ranked.link (h : f.Ranked rank) (hi : i < f.length) (hj : j < f.length) :
    (∃ rank', (f.link i j).Ranked rank') ∧
      ∀ x, (f.link i j).root x = if f.root x = f.root i then f.root j else f.root x := by
  have hfind := h.finds i
  have h₁ := h.of_finds hfind
  have hfind₁ := h₁.finds j
  have h₂ := h₁.of_finds hfind₁
  have hsame : ∀ x, ((f.find i).2.find j).2.root x = f.root x := fun x =>
    (h₁.root_of_compressed hfind₁ x).trans (h.root_of_compressed hfind x)
  have hlength : ((f.find i).2.find j).2.length = f.length := hfind₁.length.trans hfind.length
  have hfixed : ∀ x, ((f.find i).2.find j).2.parent (f.root x) = f.root x := by
    intro x
    have hroot := h₂.parent_root x
    rwa [hsame x] at hroot
  have hgraft := h₂.graft (hfixed i) (hfixed j) (hlength ▸ h.root_lt hi) (hlength ▸ h.root_lt hj)
  rw [link_eq, h.root_of_compressed hfind j]
  refine ⟨hgraft.1, fun x => ?_⟩
  rw [hgraft.2 x, hsame x]

theorem length_link (h : f.Ranked rank) (i j : Nat) : (f.link i j).length = f.length := by
  have hfind := h.finds i
  have hfind₁ := (h.of_finds hfind).finds j
  rw [link_eq, List.length_set, hfind₁.length, hfind.length]

end Linking

/-! ### All forests that arise -/

/-- What can become of so many emitters by finding and linking, in any order. -/
inductive Arises (count : Nat) : Forest → Prop
  | start : Arises count (List.range count)
  | find {f : Forest} (h : Arises count f) (i : Nat) : Arises count (f.find i).2
  | link {f : Forest} (h : Arises count f) {i j : Nat} (hi : i < count) (hj : j < count) :
    Arises count (f.link i j)

theorem ranked_range (count : Nat) : Forest.Ranked (List.range count) id where
  inside i hi := by rwa [parent_range]
  descends i hi := absurd (parent_range count i) hi

theorem Arises.ranked {count : Nat} (h : f.Arises count) :
    f.length = count ∧ ∃ rank, f.Ranked rank := by
  induction h with
  | start => exact ⟨List.length_range, id, ranked_range count⟩
  | find _ i ih =>
    obtain ⟨hlength, rank, hranked⟩ := ih
    have hfind := hranked.finds i
    exact ⟨hfind.length.trans hlength, rank, hranked.of_finds hfind⟩
  | link _ hi hj ih =>
    obtain ⟨hlength, rank, hranked⟩ := ih
    rw [← hlength] at hi hj
    exact ⟨(length_link hranked _ _).trans hlength, (hranked.link hi hj).1⟩

end Quadlane.Simulation.Forest
