-- SUMMARY: Secondary indices of a table: positions in the index as ranks, and how one changed row moves the others.
import Amax.Base.Table

/-! # Rankings

A secondary index lists the live rows of a table in increasing order of a
second key. The position of a row in the index is its rank, the number of p
rows with a smaller second key, and ranks are counts: changing one row changes
every rank by a difference of two indicators. -/

namespace Table

variable {κ ν γ : Type} [LinearOrder κ] [LinearOrder γ] {key : ν → κ}

/-- The live rows in increasing order of `f`. -/
def index (t : Table key) (p : ν → Bool) (f : ν → γ) : List ν :=
  (t.rows.filter p).insertionSort (fun a b => f a ≤ f b)

/-- The number of live rows below `g` in the order of `f`. -/
def rank (t : Table key) (p : ν → Bool) (f : ν → γ) (g : γ) : ℕ :=
  t.count (fun r => p r && decide (f r < g))

variable {p : ν → Bool} {f : ν → γ}

/-! ## Counting under one changed row -/

private theorem countP_insertRow {r : ν} {l : List ν} (q : ν → Bool)
    (h : l.Pairwise (fun a b => key a < key b)) :
    (insertRow key r l).countP q + ((l.find? (fun x => key x = key r)).map (q · |>.toNat)).getD 0 =
      l.countP q + (q r).toNat := by
  induction l with
  | nil => cases hr : q r <;> simp [insertRow, hr]
  | cons x xs ih =>
    obtain ⟨hx, hxs⟩ := List.pairwise_cons.mp h
    have ih' := ih hxs
    unfold insertRow
    split_ifs with hlt hgt
    · have hnone : xs.find? (fun y => key y = key r) = none :=
        List.find?_eq_none.mpr fun y hy => by simpa using (hlt.trans (hx y hy)).ne'
      cases hr : q r <;> simp [hlt.ne', hnone, List.countP_cons, hr]
    · simp only [List.countP_cons, List.find?_cons, hgt.ne, decide_false] at ih' ⊢
      omega
    · have heq : key x = key r := le_antisymm (not_lt.mp hlt) (not_lt.mp hgt)
      cases hr : q r <;> cases hx' : q x <;> simp [heq, hr, hx']

/-- Replacing a row changes a count by the difference of the two rows. -/
theorem count_set_of_find? {t : Table key} {a r : ν} (h : t.find? (key r) = some a)
    (q : ν → Bool) : (t.set r).count q + (q a).toNat = t.count q + (q r).toNat := by
  have := countP_insertRow (r := r) q t.sorted
  rw [show t.rows.find? (fun x => key x = key r) = some a from h] at this
  simpa [count, set] using this

/-- A new row adds its own indicator to a count. -/
theorem count_set_of_none {t : Table key} {r : ν} (h : t.find? (key r) = none) (q : ν → Bool) :
    (t.set r).count q = t.count q + (q r).toNat := by
  have := countP_insertRow (r := r) q t.sorted
  rw [show t.rows.find? (fun x => key x = key r) = none from h] at this
  simpa [count, set] using this

/-! ## Positions are ranks -/

/-- No two live rows share a secondary key. -/
def Distinct (t : Table key) (p : ν → Bool) (f : ν → γ) : Prop :=
  ∀ a ∈ t.rows, ∀ b ∈ t.rows, p a → p b → f a = f b → a = b

theorem mem_index {t : Table key} {r : ν} :
    r ∈ t.index p f ↔ r ∈ t.rows ∧ p r = true := by
  simp [index, List.mem_insertionSort]

/-- What `view` shows of an index it shows of the table. -/
theorem map_index (view : ν → ν) (hp : ∀ r, p (view r) = p r) (hf : ∀ r, f (view r) = f r)
    {t t' : Table key} (h : t'.rows.map view = t.rows.map view) :
    (t'.index p f).map view = (t.index p f).map view := by
  have hmap : ∀ t : Table key, (t.index p f).map view =
      ((t.rows.map view).filter p).insertionSort (fun a b => f a ≤ f b) := by
    intro t
    rw [index, List.map_insertionSort _ (fun a b => f a ≤ f b) _ _ (fun a _ b _ => by rw [hf, hf]),
      List.filter_map, show p ∘ view = p from funext hp]
  rw [hmap, hmap, h]

theorem nodup_rows (t : Table key) : t.rows.Nodup :=
  t.sorted.imp fun h e => h.ne (congrArg key e)

theorem index_sorted {t : Table key} (hd : t.Distinct p f) :
    (t.index p f).Pairwise (fun a b => f a < f b) := by
  have hle : (t.index p f).Pairwise (fun a b => f a ≤ f b) :=
    have : Std.Total (fun a b : ν => f a ≤ f b) := ⟨fun a b => le_total _ _⟩
    have : IsTrans ν (fun a b : ν => f a ≤ f b) := ⟨fun _ _ _ => le_trans⟩
    List.pairwise_insertionSort _ _
  have hnd : (t.index p f).Nodup :=
    (List.perm_insertionSort _ _).nodup_iff.mpr (t.nodup_rows.filter _)
  refine (hle.and hnd).imp_of_mem fun {a b} ha hb h => ?_
  obtain ⟨ha, hla⟩ := mem_index.mp ha
  obtain ⟨hb, hlb⟩ := mem_index.mp hb
  exact lt_of_le_of_ne h.1 fun e => h.2 (hd a ha b hb hla hlb e)

theorem rank_eq_countP_index (t : Table key) (g : γ) :
    t.rank p f g = (t.index p f).countP (fun r => f r < g) := by
  rw [index, (List.perm_insertionSort _ _).countP_eq, List.countP_filter, rank, count]
  simp only [Bool.and_comm]

/-- What only live rows satisfy is counted in the index as in the table. -/
theorem count_eq_countP_index (t : Table key) {q : ν → Bool} (h : ∀ r ∈ t.rows, q r → p r) :
    t.count q = (t.index p f).countP q := by
  rw [index, (List.perm_insertionSort _ _).countP_eq, List.countP_filter, count]
  refine List.countP_congr fun r hr => ?_
  rw [Bool.and_eq_true, iff_self_and]
  exact h r hr

private theorem countP_take {l : List ν} (h : l.Pairwise (fun a b => f a < f b)) {i : ℕ}
    (hi : i < l.length) : l.countP (fun r => f r < f l[i]) = i := by
  induction l generalizing i with
  | nil => simp at hi
  | cons x xs ih =>
    obtain ⟨hx, hxs⟩ := List.pairwise_cons.mp h
    cases i with
    | zero =>
      have : xs.countP (fun r => f r < f x) = 0 :=
        List.countP_eq_zero.mpr fun y hy => by simpa using (hx y hy).le
      simp [this]
    | succ i =>
      have hi' : i < xs.length := by simpa using hi
      simp [ih hxs hi', hx _ (List.getElem_mem hi')]

/-- A row stands at position `i` of the index exactly when it is p and has rank `i`. -/
theorem index_getElem?_iff {t : Table key} (hd : t.Distinct p f) {i : ℕ} {r : ν} :
    (t.index p f)[i]? = some r ↔
      r ∈ t.rows ∧ p r = true ∧ t.rank p f (f r) = i := by
  constructor
  · intro h
    obtain ⟨hi, rfl⟩ := List.getElem?_eq_some_iff.mp h
    obtain ⟨hm, hl⟩ := mem_index.mp (List.getElem_mem hi)
    exact ⟨hm, hl, by rw [rank_eq_countP_index, countP_take (index_sorted hd) hi]⟩
  · rintro ⟨hm, hl, hr⟩
    have hmem : r ∈ t.index p f := mem_index.mpr ⟨hm, hl⟩
    obtain ⟨j, hj, rfl⟩ := List.getElem_of_mem hmem
    rw [rank_eq_countP_index, countP_take (index_sorted hd) hj] at hr
    subst hr
    exact List.getElem?_eq_getElem hj

/-- A live row counts towards the rank of everything above it. -/
theorem rank_lt_rank {t : Table key} {r : ν} {g : γ} (hr : r ∈ t.rows) (hl : p r = true)
    (h : f r < g) : t.rank p f (f r) < t.rank p f g := by
  have hsplit : t.rank p f g =
      t.rank p f (f r) + t.count (fun x => p x && decide (f r ≤ f x ∧ f x < g)) := by
    simp only [rank, count]
    induction t.rows with
    | nil => rfl
    | cons x xs ih =>
      simp only [List.countP_cons, ih]
      rcases lt_or_ge (f x) (f r) with hx | hx
      · cases p x <;> simp [hx, hx.trans h, hx.not_ge]
        omega
      · cases p x <;> simp [hx.not_gt, hx]
        omega
  have hpos : 0 < t.count (fun x => p x && decide (f r ≤ f x ∧ f x < g)) :=
    List.countP_pos_iff.mpr ⟨r, hr, by simp [hl, h]⟩
  omega

/-- Between live rows, the order of the keys is the order of the ranks. -/
theorem lt_iff_rank_lt {t : Table key} {a b : ν} (ha : a ∈ t.rows) (hla : p a = true)
    (hb : b ∈ t.rows) (hlb : p b = true) :
    f a < f b ↔ t.rank p f (f a) < t.rank p f (f b) := by
  constructor
  · exact rank_lt_rank ha hla
  · intro h
    by_contra hnot
    rcases (not_lt.mp hnot).lt_or_eq with hlt | heq
    · exact absurd (rank_lt_rank hb hlb hlt) (by omega)
    · rw [heq] at h
      exact lt_irrefl _ h

/-! ## Moving one row -/

/-- Where position `k` goes when the row at position `i` leaves. -/
def closeGap (i k : ℕ) : ℕ := if i < k then k - 1 else k

/-- Where position `k ≠ i` goes when the row at position `i` moves to position `j`. -/
def shift (i j k : ℕ) : ℕ := if j ≤ closeGap i k then closeGap i k + 1 else closeGap i k

/-- The four ways a position can shift. -/
theorem shift_cases {i k : ℕ} (j : ℕ) (h : k ≠ i) :
    k < i ∧ k < j ∧ shift i j k = k ∨ k < i ∧ j ≤ k ∧ shift i j k = k + 1 ∨
      i < k ∧ k ≤ j ∧ shift i j k = k - 1 ∨ i < k ∧ j < k ∧ shift i j k = k := by
  simp only [shift, closeGap]
  split_ifs <;> omega

/-- The row `r`, put into `t` as `t'`, went to position `j` of the index. Before
it stood at position `i`, or nowhere, and then `i` is past every position of
interest: `bound` says from which position on nothing is claimed. -/
structure Moved (t t' : Table key) (p : ν → Bool) (f : ν → γ) (r : ν) (i j bound : ℕ) :
    Prop where
  self : (t'.index p f)[j]? = some r
  stay : ∀ {k y}, (t.index p f)[k]? = some y → key y ≠ key r → k < bound →
    (t'.index p f)[shift i j k]? = some y
  lt_iff : ∀ {k y}, (t.index p f)[k]? = some y → key y ≠ key r → k < bound →
    (f r < f y ↔ j ≤ closeGap i k)

/-- How a rank changes when the row `a` is replaced by `r`. -/
private theorem rank_set_of_find? {t : Table key} {a r : ν} (h : t.find? (key r) = some a) (g : γ) :
    (t.set r).rank p f g + (p a && decide (f a < g)).toNat =
      t.rank p f g + (p r && decide (f r < g)).toNat :=
  count_set_of_find? h _

private theorem mem_set_of_ne {t : Table key} {r y : ν} (hy : y ∈ t.rows) (hne : key y ≠ key r) :
    y ∈ (t.set r).rows :=
  mem_set.mpr (.inr ⟨hy, hne⟩)

/-- The common part of the two ways a row arrives: only the ranks differ. -/
private theorem moved_of_rank {t : Table key} {r : ν} {i bound : ℕ}
    (hd : t.Distinct p f) (hd' : (t.set r).Distinct p f) (hr : p r = true)
    (hrank : ∀ y ∈ t.rows, p y = true → key y ≠ key r → t.rank p f (f y) < bound →
      (t.set r).rank p f (f y) =
        closeGap i (t.rank p f (f y)) + (decide (f r < f y)).toNat) :
    Moved t (t.set r) p f r i ((t.set r).rank p f (f r)) bound := by
  have hself : r ∈ (t.set r).rows := mem_set.mpr (.inl rfl)
  have hlt : ∀ {k y}, (t.index p f)[k]? = some y → key y ≠ key r → k < bound →
      (f r < f y ↔ (t.set r).rank p f (f r) ≤ closeGap i k) := by
    intro k y hy hne hk
    obtain ⟨hm, hl, rfl⟩ := (index_getElem?_iff hd).mp hy
    have h := hrank y hm hl hne hk
    have hm' := mem_set_of_ne hm hne
    rw [lt_iff_rank_lt hself hr hm' hl]
    by_cases hb : f r < f y
    · have := (lt_iff_rank_lt hself hr hm' hl).mp hb
      simp only [hb, decide_true, Bool.toNat_true] at h
      omega
    · have hyr : f y < f r := lt_of_le_of_ne (not_lt.mp hb) fun e =>
        hne (congrArg key (hd' y hm' r hself hl hr e))
      have := (lt_iff_rank_lt hm' hl hself hr).mp hyr
      simp only [hb, decide_false, Bool.toNat_false] at h
      omega
  refine ⟨(index_getElem?_iff hd').mpr ⟨hself, hr, rfl⟩, ?_, hlt⟩
  intro k y hy hne hk
  have hj := hlt hy hne hk
  obtain ⟨hm, hl, rfl⟩ := (index_getElem?_iff hd).mp hy
  refine (index_getElem?_iff hd').mpr ⟨mem_set_of_ne hm hne, hl, ?_⟩
  rw [hrank y hm hl hne hk, shift]
  by_cases hb : f r < f y
  · simp [hb, hj.mp hb]
  · have := fun h => hb (hj.mpr h)
    simp only [hb, if_neg this, decide_false, Bool.toNat_false, Nat.add_zero]

/-- A live row replaced by a live row moves from its old rank to its new one. -/
theorem moved_of_replace {t : Table key} {a r : ν} (hd : t.Distinct p f)
    (hd' : (t.set r).Distinct p f) (hf : t.find? (key r) = some a) (ha : p a = true)
    (hr : p r = true) (bound : ℕ) :
    Moved t (t.set r) p f r (t.rank p f (f a))
      ((t.set r).rank p f (f r)) bound := by
  refine moved_of_rank hd hd' hr fun y hm hl _ _ => ?_
  have h := rank_set_of_find? (p := p) (f := f) hf (f y)
  have hiff := lt_iff_rank_lt (p := p) (f := f) (mem_of_find? hf) ha hm hl
  simp only [ha, hr, Bool.true_and] at h
  by_cases hlt : f a < f y
  · simp only [closeGap, if_pos (hiff.mp hlt)]
    simp only [hlt, decide_true, Bool.toNat_true] at h
    have := hiff.mp hlt
    omega
  · simp only [closeGap, if_neg (fun h => hlt (hiff.mpr h))]
    simpa [hlt] using h

/-- A live row that was not in the index before pushes back what it stands before. -/
theorem moved_of_entry {t : Table key} {r : ν} (hd : t.Distinct p f)
    (hd' : (t.set r).Distinct p f) (hf : ∀ a, t.find? (key r) = some a → p a = false)
    (hr : p r = true) {i bound : ℕ} (hi : bound ≤ i) :
    Moved t (t.set r) p f r i ((t.set r).rank p f (f r)) bound := by
  refine moved_of_rank hd hd' hr fun y hm hl _ hk => ?_
  rw [closeGap, if_neg (by omega)]
  cases ha : t.find? (key r) with
  | none =>
    have := count_set_of_none ha (fun x => p x && decide (f x < f y))
    simpa [rank, hr] using this
  | some a =>
    have := rank_set_of_find? (p := p) (f := f) ha (f y)
    simpa [hf a ha, hr] using this

/-- A row stays where it stands when what is written stands behind it, before and after. -/
theorem index_set_behind {t : Table key} {r y : ν} {k : ℕ} (hd : t.Distinct p f)
    (hd' : (t.set r).Distinct p f) (hy : (t.index p f)[k]? = some y)
    (hold : ∀ a, t.find? (key r) = some a → p a = true → f y < f a)
    (hnew : p r = true → f y < f r) : ((t.set r).index p f)[k]? = some y := by
  obtain ⟨hm, hl, rfl⟩ := (index_getElem?_iff hd).mp hy
  have hne : key y ≠ key r := fun he =>
    lt_irrefl _ (hold y (he ▸ find?_of_mem hm) hl)
  have hbehind : (p r && decide (f r < f y)) = false := by
    rw [Bool.and_eq_false_iff, decide_eq_false_iff_not, not_lt]
    cases hr : p r with
    | false => exact .inl rfl
    | true => exact .inr (hnew hr).le
  refine (index_getElem?_iff hd').mpr ⟨mem_set_of_ne hm hne, hl, ?_⟩
  cases ha : t.find? (key r) with
  | none =>
    have hcount := count_set_of_none ha (fun x => p x && decide (f x < f y))
    simpa only [rank, hbehind, Bool.toNat_false, Nat.add_zero] using hcount
  | some a =>
    have hgone : (p a && decide (f a < f y)) = false := by
      rw [Bool.and_eq_false_iff, decide_eq_false_iff_not, not_lt]
      cases hpa : p a with
      | false => exact .inl rfl
      | true => exact .inr (hold a ha hpa).le
    have hrank := rank_set_of_find? (p := p) (f := f) ha (f y)
    simpa only [hbehind, hgone, Bool.toNat_false, Nat.add_zero] using hrank

end Table
