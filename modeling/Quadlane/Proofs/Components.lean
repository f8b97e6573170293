import Mathlib.Data.List.Nodup
import Mathlib.Logic.Relation
import Quadlane.Proofs.Forest
import Quadlane.Simulation.World

/-! The groups of emitters are the connected components of sharing a data set. Linking every user of a
data set to its first user is enough: two emitters have one root exactly if a chain of emitters joins
them in which neighbours use a common data set. -/

namespace Quadlane.Simulation

open Relation

/-! ### Roots and chains -/

namespace Linking

def Shares (noted : List (Nat × Nat)) (i j : Nat) : Prop :=
  ∃ set, (i, set) ∈ noted ∧ (j, set) ∈ noted

variable {l : Linking} {count i j set : Nat} {noted more : List (Nat × Nat)}

theorem Shares.symm (h : Shares noted i j) : Shares noted j i := by
  obtain ⟨set, hi, hj⟩ := h
  exact ⟨set, hj, hi⟩

theorem chain_mono (hsub : noted ⊆ more) (h : ReflTransGen (Shares noted) i j) :
    ReflTransGen (Shares more) i j :=
  ReflTransGen.mono (fun _ _ ⟨set, hi, hj⟩ => ⟨set, hsub hi, hsub hj⟩) _ _ h

/-- The forest joins what is chained together by the uses noted so far. -/
structure Joins (l : Linking) (count : Nat) (noted : List (Nat × Nat)) : Prop where
  arises : l.forest.Arises count
  emitters : ∀ use ∈ noted, use.1 < count
  owner_noted : ∀ set j, l.owners.lookup set = some j → (j, set) ∈ noted
  owned : ∀ i set, (i, set) ∈ noted →
    ∃ j, l.owners.lookup set = some j ∧ l.forest.root i = l.forest.root j
  chained : ∀ i j, l.forest.root i = l.forest.root j → ReflTransGen (Shares noted) i j

theorem joins_start (count : Nat) : (start count).Joins count [] where
  arises := .start
  emitters := by simp
  owner_noted := by simp [start]
  owned := by simp
  chained i j h := by
    have hroot : ∀ x, Forest.root (List.range count) x = x := fun x =>
      (Forest.ranked_range count).root_of_parent_eq (Forest.parent_range count x)
    have hsame : i = j := by
      rw [← hroot i, ← hroot j]
      exact h
    rw [hsame]

theorem Joins.own (h : l.Joins count noted) (hi : i < count) (hnone : l.owners.lookup set = none) :
    Joins { l with owners := (set, i) :: l.owners } count (noted ++ [(i, set)]) := by
  -- The first user of a data set becomes its owner; no root changes.
  have hlookup : ∀ s, List.lookup s ((set, i) :: l.owners) =
      if s = set then some i else l.owners.lookup s := by
    intro s
    rw [List.lookup_cons]
    by_cases hs : s = set
    · simp [hs]
    · rw [if_neg hs, beq_false_of_ne hs]
  refine ⟨h.arises, ?_, ?_, ?_, ?_⟩
  · intro use huse
    rcases List.mem_append.mp huse with huse | huse
    · exact h.emitters use huse
    · rw [List.mem_singleton.mp huse]
      exact hi
  · intro s j hj
    dsimp only at hj
    rw [hlookup] at hj
    by_cases hs : s = set
    · rw [if_pos hs] at hj
      rw [hs, ← Option.some.inj hj]
      exact List.mem_append_right _ (List.mem_singleton_self _)
    · rw [if_neg hs] at hj
      exact List.mem_append_left _ (h.owner_noted s j hj)
  · intro x s hx
    dsimp only
    rw [hlookup]
    rcases List.mem_append.mp hx with hx | hx
    · obtain ⟨j, hj, hroot⟩ := h.owned x s hx
      have hs : s ≠ set := by
        rintro rfl
        rw [hnone] at hj
        cases hj
      exact ⟨j, by rw [if_neg hs, hj], hroot⟩
    · obtain ⟨rfl, rfl⟩ := Prod.mk.inj (List.mem_singleton.mp hx)
      exact ⟨x, if_pos rfl, rfl⟩
  · intro x y hxy
    exact chain_mono (List.subset_append_left _ _) (h.chained x y hxy)

theorem Joins.join (h : l.Joins count noted) (hi : i < count) (hj : l.owners.lookup set = some j) :
    Joins { l with forest := l.forest.link i j } count (noted ++ [(i, set)]) := by
  -- A later user is linked to the owner; the two trees become one.
  obtain ⟨hlength, rank, hranked⟩ := h.arises.ranked
  have hmem : (j, set) ∈ noted := h.owner_noted set j hj
  have hjlt : j < count := h.emitters _ hmem
  obtain ⟨-, hroot⟩ := hranked.link (hlength ▸ hi) (hlength ▸ hjlt)
  have hkept : noted ⊆ noted ++ [(i, set)] := List.subset_append_left _ _
  have hnew : (i, set) ∈ noted ++ [(i, set)] :=
    List.mem_append_right _ (List.mem_singleton_self _)
  refine ⟨h.arises.link hi hjlt, ?_, fun s k hk => hkept (h.owner_noted s k hk), ?_, ?_⟩
  · intro use huse
    rcases List.mem_append.mp huse with huse | huse
    · exact h.emitters use huse
    · rw [List.mem_singleton.mp huse]
      exact hi
  · intro x s hx
    rcases List.mem_append.mp hx with hx | hx
    · obtain ⟨k, hk, hsame⟩ := h.owned x s hx
      exact ⟨k, hk, by rw [hroot, hroot, hsame]⟩
    · obtain ⟨rfl, rfl⟩ := Prod.mk.inj (List.mem_singleton.mp hx)
      refine ⟨j, hj, ?_⟩
      rw [hroot, hroot, if_pos rfl]
      split <;> rfl
  · -- Both roots were the same before, or the chain goes over the two users of the data set.
    have hold : ∀ x y, l.forest.root x = l.forest.root y →
        ReflTransGen (Shares (noted ++ [(i, set)])) x y := fun x y hxy =>
      chain_mono hkept (h.chained x y hxy)
    have hbridge : Shares (noted ++ [(i, set)]) i j := ⟨set, hnew, hkept hmem⟩
    intro x y hxy
    rw [hroot, hroot] at hxy
    by_cases hx : l.forest.root x = l.forest.root i
    · by_cases hy : l.forest.root y = l.forest.root i
      · exact hold x y (hx.trans hy.symm)
      · rw [if_pos hx, if_neg hy] at hxy
        exact ((hold x i hx).tail hbridge).trans (hold j y hxy)
    · by_cases hy : l.forest.root y = l.forest.root i
      · rw [if_neg hx, if_pos hy] at hxy
        exact ((hold x j hxy).tail hbridge.symm).trans (hold i y hy.symm)
      · rw [if_neg hx, if_neg hy] at hxy
        exact hold x y hxy

theorem Joins.use (h : l.Joins count noted) (hi : i < count) :
    (l.use i set).Joins count (noted ++ [(i, set)]) := by
  unfold Linking.use
  split
  · next j hj => exact h.join hi hj
  · next hnone => exact h.own hi hnone

theorem joins_useAll (hemitters : ∀ use ∈ noted, use.1 < count) :
    ((start count).useAll noted).Joins count noted := by
  induction noted using List.reverseRecOn with
  | nil => exact joins_start count
  | append_singleton noted use ih =>
    have hrest := ih fun u hu => hemitters u (List.mem_append_left _ hu)
    have hlast := hemitters use (List.mem_append_right _ (List.mem_singleton_self _))
    rw [useAll, List.foldl_append]
    exact hrest.use hlast

/-- The roots are the same exactly along chains. -/
theorem Joins.root_eq_iff (h : l.Joins count noted) :
    l.forest.root i = l.forest.root j ↔ ReflTransGen (Shares noted) i j := by
  refine ⟨h.chained i j, fun hchain => ?_⟩
  induction hchain with
  | refl => rfl
  | tail _ hstep ih =>
    obtain ⟨set, hb, hc⟩ := hstep
    obtain ⟨k, hk, hbk⟩ := h.owned _ set hb
    obtain ⟨k', hk', hck⟩ := h.owned _ set hc
    obtain rfl : k = k' := Option.some.inj (hk.symm.trans hk')
    rw [ih, hbk, hck]

theorem mem_occurrences {uses : List (List Nat)} :
    (i, set) ∈ occurrences uses ↔ ∃ sets, uses[i]? = some sets ∧ set ∈ sets := by
  simp only [occurrences, List.mem_flatMap, List.mem_map, Prod.mk.injEq, Prod.exists,
    List.mem_zipIdx_iff_getElem?]
  constructor
  · rintro ⟨sets, k, hk, s, hs, rfl, rfl⟩
    exact ⟨sets, hk, hs⟩
  · rintro ⟨sets, hi, hset⟩
    exact ⟨sets, i, hi, set, hset, rfl, rfl⟩

theorem joins_of_isPrefix {uses : List (List Nat)} (h : noted <+: occurrences uses) :
    ((start uses.length).useAll noted).Joins uses.length noted := by
  apply joins_useAll
  rintro ⟨i, set⟩ huse
  obtain ⟨sets, hi, -⟩ := mem_occurrences.mp (h.subset huse)
  exact (List.getElem?_eq_some_iff.mp hi).1

theorem joins_ofUses (uses : List (List Nat)) :
    (ofUses uses).Joins uses.length (occurrences uses) :=
  joins_of_isPrefix (List.prefix_rfl)

end Linking

/-! ### Groups -/

section Groups

variable {uses : List (List Nat)} {g : List Nat} {i j : Nat}

def tree (uses : List (List Nat)) (r : Nat) : List Nat :=
  (List.range uses.length).filter ((Linking.ofUses uses).forest.root · = r)

theorem mem_tree {r : Nat} :
    i ∈ tree uses r ↔ i < uses.length ∧ (Linking.ofUses uses).forest.root i = r := by
  simp [tree]

theorem groups_eq (uses : List (List Nat)) :
    groups uses = ((List.range uses.length).map (tree uses)).filter (!·.isEmpty) := by
  obtain ⟨-, rank, hranked⟩ := (Linking.joins_ofUses uses).arises.ranked
  have htree : ∀ (r : Nat) (l : List Nat),
      ((l.zip (l.map (Linking.ofUses uses).forest.root)).filterMap
        fun x => if x.2 = r then some x.1 else none) =
        l.filter ((Linking.ofUses uses).forest.root · = r) := by
    intro r l
    induction l with
    | nil => rfl
    | cons i l ih =>
      rw [List.map_cons, List.zip_cons_cons, List.filterMap_cons, List.filter_cons, ih]
      by_cases hr : (Linking.ofUses uses).forest.root i = r <;> simp [hr]
  show ((List.range uses.length).map fun r => ((List.range uses.length).zip
      ((Linking.ofUses uses).forest.roots (List.range uses.length))).filterMap
        fun x => if x.2 = r then some x.1 else none).filter (!·.isEmpty) = _
  simp only [hranked.roots_eq, htree]
  rfl

-- The third emitter joins the trees of the first two; the fourth stays alone.
example : groups [[0], [1], [0, 1], [2]] = [[0, 1, 2], [3]] := by decide

theorem mem_groups : g ∈ groups uses ↔ g ≠ [] ∧ ∃ r < uses.length, g = tree uses r := by
  rw [groups_eq, List.mem_filter, List.mem_map]
  constructor
  · rintro ⟨⟨r, hr, rfl⟩, hne⟩
    exact ⟨by simpa using hne, r, List.mem_range.mp hr, rfl⟩
  · rintro ⟨hne, r, hr, rfl⟩
    exact ⟨⟨r, List.mem_range.mpr hr, rfl⟩, by simpa using hne⟩

theorem sorted_of_mem_groups (h : g ∈ groups uses) : g.Pairwise (· < ·) := by
  obtain ⟨-, r, -, rfl⟩ := mem_groups.mp h
  exact (List.pairwise_lt_range).filter _

theorem disjoint_groups (uses : List (List Nat)) : (groups uses).Pairwise List.Disjoint := by
  rw [groups_eq]
  apply List.Pairwise.filter
  rw [List.pairwise_map]
  refine List.pairwise_lt_range.imp fun {r s} hrs i hr hs => ?_
  rw [mem_tree] at hr hs
  exact absurd (hr.2.symm.trans hs.2) (Nat.ne_of_lt hrs)

theorem mem_flatten_groups : i ∈ (groups uses).flatten ↔ i < uses.length := by
  obtain ⟨hlength, rank, hranked⟩ := (Linking.joins_ofUses uses).arises.ranked
  rw [List.mem_flatten]
  constructor
  · rintro ⟨g, hg, hi⟩
    obtain ⟨-, r, -, rfl⟩ := mem_groups.mp hg
    exact (mem_tree.mp hi).1
  · intro hi
    have hmem : i ∈ tree uses ((Linking.ofUses uses).forest.root i) := mem_tree.mpr ⟨hi, rfl⟩
    have hroot := hranked.root_lt (hlength ▸ hi)
    exact ⟨_, mem_groups.mpr ⟨List.ne_nil_of_mem hmem, _, hlength ▸ hroot, rfl⟩, hmem⟩

theorem flatten_groups_perm (uses : List (List Nat)) :
    (groups uses).flatten.Perm (List.range uses.length) := by
  rw [List.perm_ext_iff_of_nodup _ List.nodup_range]
  · intro i
    rw [mem_flatten_groups, List.mem_range]
  · rw [List.nodup_flatten]
    refine ⟨fun g hg => ?_, disjoint_groups uses⟩
    exact (sorted_of_mem_groups hg).imp fun h => Nat.ne_of_lt h

theorem mem_same_group_iff (hi : i < uses.length) (hj : j < uses.length) :
    (∃ g ∈ groups uses, i ∈ g ∧ j ∈ g) ↔
      ReflTransGen (Linking.Shares (Linking.occurrences uses)) i j := by
  rw [← (Linking.joins_ofUses uses).root_eq_iff]
  constructor
  · rintro ⟨g, hg, hig, hjg⟩
    obtain ⟨-, r, -, rfl⟩ := mem_groups.mp hg
    exact (mem_tree.mp hig).2.trans (mem_tree.mp hjg).2.symm
  · intro hroot
    obtain ⟨g, hg, hig⟩ := List.mem_flatten.mp (mem_flatten_groups.mpr hi)
    obtain ⟨-, r, -, rfl⟩ := mem_groups.mp hg
    exact ⟨_, hg, hig, mem_tree.mpr ⟨hj, hroot.symm.trans (mem_tree.mp hig).2⟩⟩

theorem eq_of_shared {g' : List Nat} {sets sets' : List Nat} {v : Nat} (hg : g ∈ groups uses)
    (hg' : g' ∈ groups uses) (hi : i ∈ g) (hj : j ∈ g') (husei : uses[i]? = some sets)
    (husej : uses[j]? = some sets') (hv : v ∈ sets) (hv' : v ∈ sets') : g = g' := by
  have hshare : Linking.Shares (Linking.occurrences uses) i j :=
    ⟨v, Linking.mem_occurrences.mpr ⟨sets, husei, hv⟩, Linking.mem_occurrences.mpr ⟨sets', husej, hv'⟩⟩
  have hroot := (Linking.joins_ofUses uses).root_eq_iff.mpr (ReflTransGen.single hshare)
  obtain ⟨-, r, -, rfl⟩ := mem_groups.mp hg
  obtain ⟨-, s, -, rfl⟩ := mem_groups.mp hg'
  rw [← (mem_tree.mp hi).2, ← (mem_tree.mp hj).2, hroot]

end Groups

/-! ### Emitters -/

def Emitter.Touches (e : Emitter) (set : Nat) : Prop :=
  e.spawnSet = some set ∨ ∃ s ∈ e.scripts, set ∈ s.wiring.found

theorem Emitter.mem_uses {e : Emitter} {set : Nat} : set ∈ e.uses ↔ e.Touches set := by
  simp [Emitter.uses, Emitter.Touches]

def Neighbours (emitters : List Emitter) (i j : Nat) : Prop :=
  ∃ e e' set, emitters[i]? = some e ∧ emitters[j]? = some e' ∧ e.Touches set ∧ e'.Touches set

theorem shares_iff_neighbours {emitters : List Emitter} {i j : Nat} :
    Linking.Shares (Linking.occurrences (emitters.map Emitter.uses)) i j ↔
      Neighbours emitters i j := by
  have hmem : ∀ i set, (i, set) ∈ Linking.occurrences (emitters.map Emitter.uses) ↔
      ∃ e, emitters[i]? = some e ∧ e.Touches set := by
    intro i set
    rw [Linking.mem_occurrences]
    constructor
    · rintro ⟨sets, hi, hset⟩
      rw [List.getElem?_map] at hi
      obtain ⟨e, he, rfl⟩ := Option.map_eq_some_iff.mp hi
      exact ⟨e, he, Emitter.mem_uses.mp hset⟩
    · rintro ⟨e, he, htouch⟩
      exact ⟨e.uses, by rw [List.getElem?_map, he, Option.map_some], Emitter.mem_uses.mpr htouch⟩
  constructor
  · rintro ⟨set, hi, hj⟩
    obtain ⟨e, he, htouch⟩ := (hmem i set).mp hi
    obtain ⟨e', he', htouch'⟩ := (hmem j set).mp hj
    exact ⟨e, e', set, he, he', htouch, htouch'⟩
  · rintro ⟨e, e', set, he, he', htouch, htouch'⟩
    exact ⟨set, (hmem i set).mpr ⟨e, he, htouch⟩, (hmem j set).mpr ⟨e', he', htouch'⟩⟩

/-- Every emitter is in one group and there once, groups are in the order of the emitters, and two
emitters are in one group exactly if a chain of neighbours joins them. All the while the search for
roots ends: it is run on forests that arise by finding and linking, and these have no cycle. -/
theorem groups_are_components (emitters : List Emitter) :
    (groups (emitters.map Emitter.uses)).flatten.Perm (List.range emitters.length) ∧
    (∀ g ∈ groups (emitters.map Emitter.uses), g ≠ [] ∧ g.Pairwise (· < ·)) ∧
    (∀ i < emitters.length, ∀ j < emitters.length,
      (∃ g ∈ groups (emitters.map Emitter.uses), i ∈ g ∧ j ∈ g) ↔
        ReflTransGen (Neighbours emitters) i j) ∧
    (∀ noted, noted <+: Linking.occurrences (emitters.map Emitter.uses) →
      ((Linking.start emitters.length).useAll noted).forest.Arises emitters.length) ∧
    ∀ f : Forest, f.Arises emitters.length →
      (∀ i, f.Finds i (f.find i).1 (f.find i).2) ∧
      ∀ i k, f.parent^[k + 1] i = i → f.parent i = i := by
  have hlength : (emitters.map Emitter.uses).length = emitters.length := List.length_map _
  refine ⟨?_, ?_, ?_, ?_, ?_⟩
  · rw [← hlength]
    exact flatten_groups_perm _
  · exact fun g hg => ⟨(mem_groups.mp hg).1, sorted_of_mem_groups hg⟩
  · intro i hi j hj
    rw [← hlength] at hi hj
    rw [mem_same_group_iff hi hj]
    have hsame : Linking.Shares (Linking.occurrences (emitters.map Emitter.uses)) =
        Neighbours emitters := by
      funext i j
      exact propext shares_iff_neighbours
    rw [hsame]
  · intro noted hnoted
    rw [← hlength]
    exact (Linking.joins_of_isPrefix hnoted).arises
  · intro f hf
    obtain ⟨-, rank, hranked⟩ := hf.ranked
    exact ⟨hranked.finds, fun i k => hranked.no_cycle⟩

end Quadlane.Simulation
