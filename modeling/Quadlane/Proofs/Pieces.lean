import Quadlane.Proofs.Tokens

/-! Texts cut at commas and then at blanks. Blanks at the ends of a text and around its commas leave
the pieces alone, and between two words it does not matter which blanks there are. A text that is
cut at blanks and joined again has the pieces that it had. -/

namespace Quadlane.Text

/-! ### Blank texts -/

def IsBlank (w : Text) : Prop :=
  ∀ r ∈ runes w, r.isBlank = true

theorem isBlank_nil : IsBlank [] := by
  intro r hr
  rw [runes] at hr
  cases hr

theorem isBlank_ascii {w : Text} (h : ∀ b ∈ w, b < 0x80 ∧ (Rune.ascii b).isBlank = true) :
    IsBlank w := by
  rw [IsBlank, runes_of_ascii fun b hb => (h b hb).1]
  intro r hr
  obtain ⟨b, hb, rfl⟩ := List.mem_map.mp hr
  exact (h b hb).2

theorem IsSequence.starts {q : Text} {c : Char} (h : IsSequence q c) (s : Text) :
    Starts (q ++ s) := by
  intro b hb
  apply Bool.eq_false_iff.mpr
  rw [ne_eq, isContinuation_iff]
  cases h with
  | one h =>
    obtain rfl := Option.some.inj hb
    have := UInt8.lt_iff_toNat_lt.mp h
    simp at this
    omega
  | two h =>
    obtain rfl := Option.some.inj hb
    have := (isPair_iff.mp h).1
    omega
  | three h =>
    obtain rfl := Option.some.inj hb
    have := (isTriple_iff.mp h).1
    omega
  | four h =>
    obtain rfl := Option.some.inj hb
    have := (isQuadruple_iff.mp h).1
    omega

namespace IsBlank

variable {w : Text}

-- A stray byte is no blank, so `t` need not start a character here.
theorem runes_append (h : IsBlank w) (t : Text) : runes (w ++ t) = runes w ++ runes t := by
  generalize hrs : runes w = rs
  induction rs generalizing w with
  | nil => rw [eq_nil_of_runes hrs]; rfl
  | cons r rs ih =>
    rcases runes_cases w with rfl | ⟨q, c, s, hq, rfl, hrunes⟩ | ⟨a, s, -, -, hrunes⟩
    · rw [runes] at hrs
      cases hrs
    · obtain ⟨rfl, hs⟩ := List.cons.inj (hrunes.symm.trans hrs)
      have hblank : IsBlank s := fun r hr => h r (by rw [hrunes]; exact List.mem_cons_of_mem _ hr)
      rw [List.append_assoc, runes_sequence hq, ih hblank hs]
      rfl
    · have hstray := h (.stray a) (by rw [hrunes]; exact List.mem_cons_self ..)
      cases hstray

theorem starts (h : IsBlank w) (hne : w ≠ []) (t : Text) : Starts (w ++ t) := by
  rcases runes_cases w with rfl | ⟨q, c, s, hq, rfl, -⟩ | ⟨a, s, -, -, hrunes⟩
  · exact absurd rfl hne
  · rw [List.append_assoc]
    exact hq.starts _
  · have hstray := h (.stray a) (by rw [hrunes]; exact List.mem_cons_self ..)
    cases hstray

theorem notMem (h : IsBlank w) {b : UInt8} (hascii : b < 0x80)
    (hb : (Rune.ascii b).isBlank = false) : b ∉ w := by
  intro hmem
  have hblank := h _ (ascii_mem_runes hmem hascii)
  rw [hb] at hblank
  cases hblank

end IsBlank

/-! ### Cutting at blanks -/

theorem splitBlanks_blanks {ws : List Rune} (h : ∀ r ∈ ws, r.isBlank = true) (rs : List Rune) :
    splitBlanks [] (ws ++ rs) = splitBlanks [] rs := by
  induction ws with
  | nil => rfl
  | cons r ws ih =>
    rw [List.cons_append, splitBlanks, if_pos (h r (List.mem_cons_self ..))]
    exact ih fun r' hr' => h r' (List.mem_cons_of_mem _ hr')

theorem splitBlanks_append_blank (field rs : List Rune) {r : Rune} (hr : r.isBlank = true)
    (rs' : List Rune) :
    splitBlanks field (rs ++ r :: rs') = splitBlanks field rs ++ splitBlanks [] rs' := by
  induction rs generalizing field with
  | nil =>
    simp only [List.nil_append, splitBlanks, hr, if_true]
    split <;> rfl
  | cons r' rs ih =>
    rw [List.cons_append, splitBlanks, splitBlanks, ih, ih]
    split
    · split <;> rfl
    · rfl

theorem exists_splitBlanks_append (field rs : List Rune) :
    ∃ fs x, ∀ rs', splitBlanks field (rs ++ rs') = fs ++ splitBlanks x rs' := by
  induction rs generalizing field with
  | nil => exact ⟨[], field, fun _ => rfl⟩
  | cons r rs ih =>
    by_cases hr : r.isBlank = true
    · obtain ⟨fs, x, h⟩ := ih []
      refine ⟨splitBlanks field [] ++ fs, x, fun rs' => ?_⟩
      have hcut := splitBlanks_append_blank field [] hr (rs ++ rs')
      rw [List.nil_append] at hcut
      rw [List.cons_append, hcut, h, List.append_assoc]
    · obtain ⟨fs, x, h⟩ := ih (r :: field)
      exact ⟨fs, x, fun rs' => by rw [List.cons_append, splitBlanks, if_neg hr, h]⟩

theorem exists_splitBlanks (rs : List Rune) :
    ∃ y gs, ∀ field, field ≠ [] → splitBlanks field rs = (field.reverse ++ y) :: gs := by
  induction rs with
  | nil => exact ⟨[], [], fun field hne => by simp [splitBlanks, hne]⟩
  | cons r rs ih =>
    by_cases hr : r.isBlank = true
    · exact ⟨[], splitBlanks [] rs, fun field hne => by simp [splitBlanks, hr, hne]⟩
    · obtain ⟨y, gs, h⟩ := ih
      refine ⟨r :: y, gs, fun field hne => ?_⟩
      rw [splitBlanks, if_neg hr, h (r :: field) (List.cons_ne_nil r field)]
      simp

theorem splitBlanks_word {f rs : List Rune} (hne : f ≠ []) (hf : ∀ r ∈ f, r.isBlank = false)
    (hrs : ∀ r, rs.head? = some r → r.isBlank = true) :
    splitBlanks [] (f ++ rs) = f :: splitBlanks [] rs := by
  rw [splitBlanks_append [] hf, List.append_nil]
  cases rs with
  | nil => simp [splitBlanks, hne]
  | cons r rs =>
    have hr := hrs r rfl
    simp [splitBlanks, hr, hne]

theorem fields_nil : fields [] = [] := by
  rw [fields, runes]
  rfl

theorem IsBlank.fields_append {w : Text} (h : IsBlank w) (t : Text) :
    fields (w ++ t) = fields t := by
  rw [fields, h.runes_append, splitBlanks_blanks h, fields]

theorem IsBlank.fields_eq {w : Text} (h : IsBlank w) : fields w = [] := by
  rw [← List.append_nil w, h.fields_append, fields_nil]

theorem fields_gap (s : Text) {w : Text} (h : IsBlank w) (hne : w ≠ []) (t : Text) :
    fields (s ++ (w ++ t)) = fields s ++ fields t := by
  obtain ⟨r, rs, hw⟩ := List.exists_cons_of_ne_nil fun hnil => hne (eq_nil_of_runes hnil)
  have hblank : ∀ r' ∈ r :: rs, r'.isBlank = true := by
    rw [← hw]
    exact h
  rw [fields, runes_append s (h.starts hne t), h.runes_append, hw, List.cons_append,
    splitBlanks_append_blank _ _ (hblank r (List.mem_cons_self ..)),
    splitBlanks_blanks fun r' hr' => hblank r' (List.mem_cons_of_mem _ hr'), List.map_append,
    fields, fields]

theorem fields_blank_end (s : Text) {w : Text} (h : IsBlank w) : fields (s ++ w) = fields s := by
  by_cases hne : w = []
  · rw [hne, List.append_nil]
  · have happend := fields_gap s h hne []
    rwa [List.append_nil, fields_nil, List.append_nil] at happend

theorem runes_append_ascii {s : Text} (h : ∀ b ∈ s, b < 0x80) (t : Text) :
    runes (s ++ t) = s.map Rune.ascii ++ runes t := by
  induction s with
  | nil => rfl
  | cons b s ih =>
    rw [List.cons_append, runes_ascii (h b (List.mem_cons_self ..)),
      ih fun b' hb' => h b' (List.mem_cons_of_mem _ hb')]
    rfl

structure IsSolid (s : Text) : Prop where
  nonempty : s ≠ []
  visible : ∀ b ∈ s, isVisible b = true

theorem IsSolid.ascii {s : Text} (h : IsSolid s) : ∀ b ∈ s, b < 0x80 :=
  fun b hb => (isVisible_ascii (h.visible b hb)).1

theorem IsSolid.splitBlanks_append {s : Text} (h : IsSolid s) (field : List Rune) (t : Text) :
    splitBlanks field (runes (s ++ t)) =
      splitBlanks ((s.map Rune.ascii).reverse ++ field) (runes t) := by
  rw [runes_append_ascii h.ascii]
  refine Text.splitBlanks_append field ?_ _
  intro r hr
  obtain ⟨b, hb, rfl⟩ := List.mem_map.mp hr
  exact (isVisible_ascii (h.visible b hb)).2.1

theorem exists_fields_front (h : Text) :
    ∃ y gs, ∀ s, IsSolid s → fields (s ++ h) = (s ++ y) :: gs := by
  obtain ⟨y, gs, hrest⟩ := exists_splitBlanks (runes h)
  refine ⟨ofRunes y, gs.map ofRunes, fun s hs => ?_⟩
  rw [fields, hs.splitBlanks_append, hrest _ (by simp [hs.nonempty])]
  simp [ofRunes_append, ofRunes_map_ascii hs.ascii]

theorem exists_fields_around (l h : Text) :
    ∃ fs x y gs, ∀ s, IsSolid s → fields (l ++ (s ++ h)) = fs ++ (x ++ (s ++ y)) :: gs := by
  obtain ⟨fs, x, hfront⟩ := exists_splitBlanks_append [] (runes l)
  obtain ⟨y, gs, hrest⟩ := exists_splitBlanks (runes h)
  refine ⟨fs.map ofRunes, ofRunes x.reverse, ofRunes y, gs.map ofRunes, fun s hs => ?_⟩
  have hstarts : Starts (s ++ h) := by
    obtain ⟨b, t, rfl⟩ := List.exists_cons_of_ne_nil hs.nonempty
    exact starts_ascii (hs.ascii b (List.mem_cons_self ..)) _
  rw [fields, runes_append l hstarts, hfront, hs.splitBlanks_append,
    hrest _ (by simp [hs.nonempty])]
  simp [ofRunes_append, ofRunes_map_ascii hs.ascii]

/-! ### The first word -/

theorem isBlank_of_fields {t : Text} (h : fields t = []) : IsBlank t := by
  intro r hr
  by_contra hblank
  obtain ⟨front, rest, hrunes⟩ := List.append_of_mem hr
  obtain ⟨fs, x, hfront⟩ := exists_splitBlanks_append [] front
  obtain ⟨y, gs, hrest⟩ := exists_splitBlanks rest
  rw [fields, hrunes, hfront, splitBlanks, if_neg hblank, hrest _ (List.cons_ne_nil r x)] at h
  simp at h

def Breaks (s : Text) : Prop :=
  s = [] ∨ ∃ v s', s = v ++ s' ∧ IsBlank v ∧ v ≠ []

theorem Breaks.fields_append {s : Text} (h : Breaks s) (l : Text) :
    fields (l ++ s) = fields l ++ fields s := by
  rcases h with rfl | ⟨v, s', rfl, hv, hne⟩
  · rw [List.append_nil, fields_nil, List.append_nil]
  · rw [fields_gap l hv hne, hv.fields_append]

theorem exists_of_splitBlanks_cons {rs f : List Rune} {rest : List (List Rune)}
    (h : splitBlanks [] rs = f :: rest) :
    ∃ ws rs', rs = ws ++ (f ++ rs') ∧ (∀ r ∈ ws, r.isBlank = true) ∧
      (f ≠ [] ∧ ∀ r ∈ f, r.isBlank = false) ∧ splitBlanks [] rs' = rest ∧
      ∀ r, rs'.head? = some r → r.isBlank = true := by
  induction rs with
  | nil => cases h
  | cons r rs ih =>
    by_cases hr : r.isBlank = true
    · rw [splitBlanks, if_pos hr] at h
      obtain ⟨ws, rs', hrs, hws, hafter⟩ := ih h
      exact ⟨r :: ws, rs', by rw [hrs]; rfl, List.forall_mem_cons.mpr ⟨hr, hws⟩, hafter⟩
    · -- The word reaches to the next blank.
      have hword : ∀ r' ∈ (r :: rs).takeWhile (!·.isBlank), r'.isBlank = false := fun r' hr' => by
        simpa using List.mem_takeWhile_imp hr'
      have hne : (r :: rs).takeWhile (!·.isBlank) ≠ [] := by simp [hr]
      have hafter : ∀ r', ((r :: rs).dropWhile (!·.isBlank)).head? = some r' →
          r'.isBlank = true := fun r' hr' => by
        have hhead := List.head?_dropWhile_not (!·.isBlank) (r :: rs)
        rw [hr'] at hhead
        simpa using hhead
      have hall := splitBlanks_word hne hword hafter
      rw [List.takeWhile_append_dropWhile] at hall
      obtain ⟨rfl, rfl⟩ := List.cons.inj (hall.symm.trans h)
      exact ⟨[], _, (List.takeWhile_append_dropWhile ..).symm, by simp, ⟨hne, hword⟩, rfl, hafter⟩

theorem runes_ofRunes_take {t : Text} {rs rs' : List Rune} (h : runes t = rs ++ rs') :
    runes (ofRunes rs) = rs :=
  runes_ofRunes (h.trans (List.nil_append _).symm)

theorem exists_of_fields_cons {t f : Text} {rest : List Text} (h : fields t = f :: rest) :
    ∃ w s, t = w ++ (f ++ s) ∧ IsBlank w ∧ IsUnbroken f ∧ fields s = rest ∧ Breaks s := by
  obtain ⟨f, rest, hsplit, rfl, rfl⟩ := List.map_eq_cons_iff.mp h
  obtain ⟨ws, rs, hrunes, hws, ⟨hne, hf⟩, hrs, hhead⟩ := exists_of_splitBlanks_cons hsplit
  have hfront : runes (ofRunes ws) = ws := runes_ofRunes_take hrunes
  have hword : runes (ofRunes f) = f := runes_ofRunes hrunes
  rw [← List.append_assoc] at hrunes
  have hafter : runes (ofRunes rs) = rs := runes_ofRunes_drop hrunes
  refine ⟨ofRunes ws, ofRunes rs, ?_, ?_, ⟨fun hnil => hne ?_, ?_⟩, ?_, ?_⟩
  · rw [← ofRunes_append, ← ofRunes_append, ← List.append_assoc, ← hrunes, ofRunes_runes]
  · rwa [IsBlank, hfront]
  · rw [← hword, hnil, runes]
  · rwa [hword]
  · rw [fields, hafter, hrs]
  · rcases rs with _ | ⟨r, rs⟩
    · exact .inl rfl
    · have hone : runes (ofRunes [r]) = [r] := runes_ofRunes hrunes
      refine .inr ⟨ofRunes [r], ofRunes rs, ofRunes_append [r] rs, ?_, fun hnil => ?_⟩
      · intro r' hr'
        rw [hone, List.mem_singleton] at hr'
        exact hr' ▸ hhead r rfl
      · rw [hnil, runes] at hone
        cases hone

/-! ### Trimming -/

theorem exists_trim (t : Text) : ∃ w v, t = w ++ (trim t ++ v) ∧ IsBlank w ∧ IsBlank v := by
  have hrunes : runes t = (runes t).takeWhile Rune.isBlank ++
      ((((runes t).dropWhile Rune.isBlank).reverse.dropWhile Rune.isBlank).reverse ++
        (((runes t).dropWhile Rune.isBlank).reverse.takeWhile Rune.isBlank).reverse) := by
    rw [← List.reverse_append, List.takeWhile_append_dropWhile, List.reverse_reverse,
      List.takeWhile_append_dropWhile]
  refine ⟨ofRunes ((runes t).takeWhile Rune.isBlank),
    ofRunes (((runes t).dropWhile Rune.isBlank).reverse.takeWhile Rune.isBlank).reverse, ?_, ?_, ?_⟩
  · rw [trim, ← ofRunes_append, ← ofRunes_append, ← hrunes, ofRunes_runes]
  · rw [IsBlank, runes_ofRunes_take hrunes]
    exact fun r hr => List.mem_takeWhile_imp hr
  · rw [IsBlank, runes_ofRunes_drop (hrunes.trans (List.append_assoc ..).symm)]
    exact fun r hr => List.mem_takeWhile_imp (List.mem_reverse.mp hr)

theorem fields_trim (t : Text) : fields (trim t) = fields t := by
  obtain ⟨w, v, ht, hw, hv⟩ := exists_trim t
  calc fields (trim t) = fields (w ++ (trim t ++ v)) := by
        rw [hw.fields_append, fields_blank_end _ hv]
    _ = fields t := by rw [← ht]

theorem IsTight.trim_blanks {w x v : Text} (hw : IsBlank w) (hx : IsTight x) (hv : IsBlank v) :
    trim (w ++ (x ++ v)) = x := by
  have hstarts : Starts v := by
    by_cases hne : v = []
    · exact hne ▸ starts_nil
    · have := hv.starts hne []
      rwa [List.append_nil] at this
  rw [trim, hw.runes_append, runes_append x hstarts, List.dropWhile_append_of_pos hw,
    hx.dropWhile_front, List.reverse_append,
    List.dropWhile_append_of_pos fun r hr => hv r (List.mem_reverse.mp hr), hx.dropWhile_back,
    List.reverse_reverse, ofRunes_runes]

theorem trim_eq_of_fields {t x : Text} (h : fields t = [x]) : trim t = x := by
  obtain ⟨w, s, rfl, hw, hx, hs, -⟩ := exists_of_fields_cons h
  exact hx.isTight.trim_blanks hw (isBlank_of_fields hs)

/-! ### Cutting at commas -/

theorem splitOn_append_of {c : UInt8} {u v l h : Text} {ps qs : List Text}
    (hu : splitOn c u = ps ++ [l]) (hv : splitOn c v = h :: qs) :
    splitOn c (u ++ v) = ps ++ (l ++ h) :: qs := by
  induction u generalizing ps l with
  | nil =>
    obtain ⟨rfl, rfl⟩ : ps = [] ∧ l = [] := by
      rcases ps with _ | ⟨p, ps⟩
      · exact ⟨rfl, (List.cons.inj hu).1.symm⟩
      · simp [splitOn] at hu
    exact hv
  | cons b u ih =>
    rw [splitOn] at hu
    rw [List.cons_append, splitOn]
    by_cases hb : b = c
    · rw [if_pos hb] at hu ⊢
      rcases ps with _ | ⟨p, ps⟩
      · exact absurd (List.cons.inj hu).2 (splitOn_ne_nil c u)
      · obtain ⟨rfl, hrest⟩ := List.cons.inj hu
        rw [ih hrest]
        rfl
    · rw [if_neg hb] at hu ⊢
      rcases hpieces : splitOn c u with _ | ⟨p, rest⟩
      · exact absurd hpieces (splitOn_ne_nil c u)
      · rw [hpieces] at hu
        rcases ps with _ | ⟨p', ps⟩
        · obtain ⟨rfl, rfl⟩ := List.cons.inj hu
          rw [ih (hpieces.trans (List.nil_append _).symm)]
          rfl
        · obtain ⟨rfl, rfl⟩ := List.cons.inj hu
          rw [ih (hpieces.trans (List.cons_append ..).symm)]
          rfl

theorem splitOn_append_first {c : UInt8} {u v h : Text} {qs : List Text} (hu : c ∉ u)
    (hv : splitOn c v = h :: qs) : splitOn c (u ++ v) = (u ++ h) :: qs :=
  splitOn_append_of ((splitOn_of_notMem hu).trans (List.nil_append _).symm) hv

theorem exists_splitOn_concat (c : UInt8) (t : Text) : ∃ ps l, splitOn c t = ps ++ [l] := by
  obtain ⟨ps, l, h⟩ := (List.eq_nil_or_concat (splitOn c t)).resolve_left (splitOn_ne_nil c t)
  exact ⟨ps, l, h.trans List.concat_eq_append⟩

theorem last_splitOn {c : UInt8} {u l : Text} {ps : List Text} (h : splitOn c u = ps ++ [l])
    (hu : u = [] ∨ u.getLast? = some c) : l = [] := by
  suffices hlast : (splitOn c u).getLast? = some [] by
    rw [h, List.getLast?_concat] at hlast
    exact Option.some.inj hlast
  rcases hu with rfl | hu
  · rfl
  · obtain ⟨u, rfl⟩ := List.getLast?_eq_some_iff.mp hu
    rw [splitOn_append_splitOn c u []]
    exact List.getLast?_concat

theorem head_splitOn {c : UInt8} {v h : Text} {qs : List Text} (hsplit : splitOn c v = h :: qs)
    (hv : v = [] ∨ v.head? = some c) : h = [] := by
  rcases hv with rfl | hv
  · exact (List.cons.inj hsplit).1.symm
  · obtain ⟨v, rfl⟩ : ∃ v', v = c :: v' := List.head?_eq_some_iff.mp hv
    rw [splitOn, if_pos rfl] at hsplit
    exact (List.cons.inj hsplit).1.symm

def pieces (t : Text) : List (List Text) :=
  (splitOn (byte ',') t).map fields

theorem exists_pieces_around (u v : Text) : ∃ ps l h qs,
    (u = [] ∨ u.getLast? = some (byte ',') → l = []) ∧
    (v = [] ∨ v.head? = some (byte ',') → h = []) ∧
    ∀ m, byte ',' ∉ m → pieces (u ++ (m ++ v)) = ps ++ fields (l ++ (m ++ h)) :: qs := by
  obtain ⟨ps, l, hu⟩ := exists_splitOn_concat (byte ',') u
  obtain ⟨h, qs, hv⟩ := List.exists_cons_of_ne_nil (splitOn_ne_nil (byte ',') v)
  refine ⟨ps.map fields, l, h, qs.map fields, last_splitOn hu, head_splitOn hv, fun m hm => ?_⟩
  rw [pieces, splitOn_append_of hu (splitOn_append_first hm hv), List.map_append, List.map_cons]

theorem notMem_comma {w : Text} (h : IsBlank w) : byte ',' ∉ w :=
  h.notMem (by decide) (by decide)

theorem IsBlank.pieces_append {w : Text} (h : IsBlank w) (t : Text) :
    pieces (w ++ t) = pieces t := by
  obtain ⟨piece, rest, ht⟩ := List.exists_cons_of_ne_nil (splitOn_ne_nil (byte ',') t)
  rw [pieces, pieces, splitOn_append_first (notMem_comma h) ht, ht, List.map_cons, List.map_cons,
    h.fields_append]

theorem pieces_append {f s l : Text} {ps more : List Text} {qs : List (List Text)}
    (hf : splitOn (byte ',') f = ps ++ [l]) (hs : Breaks s) (hpieces : pieces s = more :: qs) :
    pieces (f ++ s) = ps.map fields ++ (fields l ++ more) :: qs := by
  rcases hs with rfl | ⟨v, s, rfl, hv, hne⟩
  · obtain ⟨rfl, rfl⟩ : fields [] = more ∧ [] = qs := List.cons.inj hpieces
    rw [List.append_nil, pieces, hf, fields_nil, List.append_nil, List.map_append]
    rfl
  · obtain ⟨piece, rest, hsplit⟩ := List.exists_cons_of_ne_nil (splitOn_ne_nil (byte ',') s)
    rw [hv.pieces_append, pieces, hsplit] at hpieces
    obtain ⟨rfl, rfl⟩ := List.cons.inj hpieces
    rw [pieces, splitOn_append_of hf (splitOn_append_first (notMem_comma hv) hsplit),
      List.map_append, List.map_cons, fields_gap l hv hne]

theorem pieces_of_isBlank {t : Text} (h : IsBlank t) : pieces t = [[]] := by
  rw [pieces, splitOn_of_notMem (notMem_comma h), List.map_singleton, h.fields_eq]

theorem pieces_congr {t t' : Text} (h : fields t = fields t') : pieces t = pieces t' := by
  -- By induction on the words: what follows the first word of each text has the same words again.
  generalize hfields : fields t = ws at h
  induction ws generalizing t t' with
  | nil =>
    rw [pieces_of_isBlank (isBlank_of_fields hfields), pieces_of_isBlank (isBlank_of_fields h.symm)]
  | cons f ws ih =>
    obtain ⟨w, s, rfl, hw, -, hs, hbreaks⟩ := exists_of_fields_cons hfields
    obtain ⟨w', s', rfl, hw', -, hs', hbreaks'⟩ := exists_of_fields_cons h.symm
    obtain ⟨ps, l, hf⟩ := exists_splitOn_concat (byte ',') f
    obtain ⟨more, qs, hpieces⟩ : ∃ more qs, pieces s = more :: qs :=
      List.exists_cons_of_ne_nil (by simp [pieces, splitOn_ne_nil])
    rw [hw.pieces_append, hw'.pieces_append, pieces_append hf hbreaks hpieces,
      pieces_append hf hbreaks' ((ih hs hs'.symm).symm.trans hpieces)]

theorem pieces_of_fields_cons {t s word : Text} {more : List Text} {qs : List (List Text)}
    (h : fields t = word :: fields s) (hcomma : byte ',' ∉ word) (hpieces : pieces s = more :: qs) :
    pieces t = (word :: more) :: qs := by
  obtain ⟨w, s', rfl, hw, hword, hs, hbreaks⟩ := exists_of_fields_cons h
  have hall := pieces_append ((splitOn_of_notMem hcomma).trans (List.nil_append _).symm) hbreaks
    ((pieces_congr hs).trans hpieces)
  rw [hw.pieces_append, hall, hword.fields_eq]
  rfl

theorem exists_of_splitOn_cons {c : UInt8} {t p : Text} {ps : List Text}
    (h : splitOn c t = p :: ps) : c ∉ p ∧ ∃ b, t = p ++ b ∧ (ps = [] → b = []) ∧
      ∀ s, c ∉ s → splitOn c (s ++ b) = s :: ps := by
  induction t generalizing p with
  | nil =>
    obtain ⟨rfl, rfl⟩ := List.cons.inj h
    refine ⟨by simp, [], rfl, fun _ => rfl, fun s hs => ?_⟩
    rw [List.append_nil, splitOn_of_notMem hs]
  | cons x t ih =>
    rw [splitOn] at h
    by_cases hx : x = c
    · rw [if_pos hx] at h
      obtain ⟨rfl, rfl⟩ := List.cons.inj h
      refine ⟨by simp, x :: t, rfl, fun hnil => absurd hnil (splitOn_ne_nil c t), fun s hs => ?_⟩
      rw [hx, splitOn_append hs]
    · rw [if_neg hx] at h
      rcases hpieces : splitOn c t with _ | ⟨p', ps'⟩
      · exact absurd hpieces (splitOn_ne_nil c t)
      · rw [hpieces] at h
        obtain ⟨rfl, rfl⟩ := List.cons.inj h
        obtain ⟨hp, b, rfl, hafter⟩ := ih hpieces
        exact ⟨by simp [hp, Ne.symm hx], b, rfl, hafter⟩

theorem fields_of_pieces_nil {t : Text} (h : pieces t = [[]]) : fields t = [] := by
  obtain ⟨p, hsplit, hp⟩ := List.map_eq_singleton_iff.mp h
  obtain ⟨-, b, rfl, hnil, -⟩ := exists_of_splitOn_cons hsplit
  rwa [hnil rfl, List.append_nil]

theorem fields_of_pieces_cons {t word : Text} {more : List Text} {qs : List (List Text)}
    (h : pieces t = (word :: more) :: qs) (hend : more ≠ [] ∨ qs = []) :
    ∃ s, fields t = word :: fields s ∧ pieces s = more :: qs := by
  -- The first word of the first piece is the first word, unless a comma follows it at once.
  obtain ⟨p, ps, hsplit, hp, rfl⟩ := List.map_eq_cons_iff.mp h
  obtain ⟨hcomma, b, rfl, hnil, hafter⟩ := exists_of_splitOn_cons hsplit
  obtain ⟨w, s, rfl, hw, hword, rfl, hbreaks⟩ := exists_of_fields_cons hp
  have hs : byte ',' ∉ s := fun hmem => hcomma (by simp [hmem])
  have hbreaks : Breaks (s ++ b) := by
    rcases hbreaks with rfl | ⟨v, s', rfl, hv, hne⟩
    · rw [fields_nil] at hend
      have hps : ps = [] := List.map_eq_nil_iff.mp (hend.resolve_left (by simp))
      rw [hnil hps]
      exact .inl rfl
    · exact .inr ⟨v, s' ++ b, List.append_assoc .., hv, hne⟩
  refine ⟨s ++ b, ?_, ?_⟩
  · rw [List.append_assoc, List.append_assoc, hw.fields_append, hbreaks.fields_append,
      hword.fields_eq]
    rfl
  · rw [pieces, hafter s hs, List.map_cons]

end Quadlane.Text
