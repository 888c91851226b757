-- SUMMARY: Finite tables ordered by a primary key: lookup, insertion, deletion, and sums and counts over their rows.
import Mathlib.Algebra.BigOperators.Group.List.Basic
import Mathlib.Algebra.BigOperators.Ring.List
import Mathlib.Algebra.Order.BigOperators.Group.List
import Mathlib.Data.List.Sort
import Mathlib.Tactic.Ring

/-! # Tables

A table is a list of rows in increasing order of a primary key, so that two
rows never share a key. The order is a field of the structure: a table with a
duplicated or misplaced key cannot be built. -/

/-- A finite table whose rows are ordered by `key`. -/
structure Table {κ ν : Type} [LinearOrder κ] (key : ν → κ) where
  rows : List ν
  sorted : rows.Pairwise (fun a b => key a < key b)

namespace Table

variable {κ ν : Type} [LinearOrder κ] {key : ν → κ}

-- ---------------------------------------------------------------------------
-- Operations
-- ---------------------------------------------------------------------------

/-- The table without rows. -/
def empty : Table key := ⟨[], List.Pairwise.nil⟩

/-- The row with primary key `k`, if there is one. -/
def find? (t : Table key) (k : κ) : Option ν := t.rows.find? (fun r => key r = k)

/-- Put `r` at its place in an ordered list, replacing a row with the same key. -/
def insertRow (key : ν → κ) (r : ν) : List ν → List ν
  | [] => [r]
  | x :: xs =>
    if key r < key x then r :: x :: xs
    else if key x < key r then x :: insertRow key r xs
    else r :: xs

theorem mem_of_mem_insertRow {r y : ν} {l : List ν} (h : y ∈ insertRow key r l) :
    y = r ∨ y ∈ l := by
  induction l with
  | nil => simpa [insertRow] using h
  | cons x xs ih =>
    unfold insertRow at h
    split_ifs at h <;> simp only [List.mem_cons] at h ⊢
    · exact h
    · rcases h with rfl | h
      · exact .inr (.inl rfl)
      · exact (ih h).imp_right .inr
    · exact h.imp_right .inr

theorem insertRow_sorted {r : ν} {l : List ν} (h : l.Pairwise (fun a b => key a < key b)) :
    (insertRow key r l).Pairwise (fun a b => key a < key b) := by
  induction l with
  | nil => simp [insertRow]
  | cons x xs ih =>
    obtain ⟨hx, hxs⟩ := List.pairwise_cons.mp h
    unfold insertRow
    split_ifs with hlt hgt
    · refine List.pairwise_cons.mpr ⟨fun y hy => ?_, h⟩
      rcases List.mem_cons.mp hy with rfl | hy
      · exact hlt
      · exact hlt.trans (hx y hy)
    · refine List.pairwise_cons.mpr ⟨fun y hy => ?_, ih hxs⟩
      rcases mem_of_mem_insertRow hy with rfl | hy
      · exact hgt
      · exact hx y hy
    · have heq : key r = key x := le_antisymm (not_lt.mp hgt) (not_lt.mp hlt)
      exact List.pairwise_cons.mpr ⟨fun y hy => heq ▸ hx y hy, hxs⟩

/-- Insert the row `r`, or replace the row that has its key. -/
def set (t : Table key) (r : ν) : Table key := ⟨insertRow key r t.rows, insertRow_sorted t.sorted⟩

/-- Delete the row with key `k`, if there is one. -/
def erase (t : Table key) (k : κ) : Table key :=
  ⟨t.rows.filter (fun r => key r ≠ k), t.sorted.filter _⟩

/-- The table without its first `n` rows. -/
def dropFirst (t : Table key) (n : ℕ) : Table key := ⟨t.rows.drop n, t.sorted.drop⟩

/-- The sum of `f` over all rows. -/
def sum (t : Table key) (f : ν → ℤ) : ℤ := (t.rows.map f).sum

/-- The number of rows that satisfy `p`. -/
def count (t : Table key) (p : ν → Bool) : ℕ := t.rows.countP p

-- ---------------------------------------------------------------------------
-- Lookup
-- ---------------------------------------------------------------------------

theorem key_inj (t : Table key) {a b : ν} (ha : a ∈ t.rows) (hb : b ∈ t.rows)
    (h : key a = key b) : a = b := by
  by_contra hne
  have hp := List.pairwise_iff_getElem.mp t.sorted
  obtain ⟨i, hi, rfl⟩ := List.getElem_of_mem ha
  obtain ⟨j, hj, rfl⟩ := List.getElem_of_mem hb
  rcases lt_trichotomy i j with hij | rfl | hij
  · exact (hp i j hi hj hij).ne h
  · exact hne rfl
  · exact (hp j i hj hi hij).ne h.symm

theorem find?_eq_some_iff {t : Table key} {k : κ} {r : ν} :
    t.find? k = some r ↔ r ∈ t.rows ∧ key r = k := by
  constructor
  · intro h
    exact ⟨List.mem_of_find?_eq_some h, by simpa using List.find?_some h⟩
  · rintro ⟨hr, rfl⟩
    cases hf : t.find? (key r) with
    | none => exact absurd (List.find?_eq_none.mp hf r hr) (by simp)
    | some y =>
      have hy : key y = key r := by simpa using List.find?_some hf
      rw [t.key_inj (List.mem_of_find?_eq_some hf) hr hy]

theorem find?_eq_none_iff {t : Table key} {k : κ} :
    t.find? k = none ↔ ∀ r ∈ t.rows, key r ≠ k := by
  simp [find?, List.find?_eq_none]

theorem mem_of_find? {t : Table key} {k : κ} {r : ν} (h : t.find? k = some r) : r ∈ t.rows :=
  (find?_eq_some_iff.mp h).1

theorem key_of_find? {t : Table key} {k : κ} {r : ν} (h : t.find? k = some r) : key r = k :=
  (find?_eq_some_iff.mp h).2

theorem find?_of_mem {t : Table key} {r : ν} (h : r ∈ t.rows) : t.find? (key r) = some r :=
  find?_eq_some_iff.mpr ⟨h, rfl⟩

@[simp] theorem find?_empty (k : κ) : (empty : Table key).find? k = none := rfl

private theorem find?_insertRow {r : ν} {l : List ν} {k : κ}
    (h : l.Pairwise (fun a b => key a < key b)) :
    (insertRow key r l).find? (fun x => key x = k) =
      if key r = k then some r else l.find? (fun x => key x = k) := by
  induction l with
  | nil => by_cases hk : key r = k <;> simp [insertRow, hk]
  | cons x xs ih =>
    have ih' := ih (List.pairwise_cons.mp h).2
    unfold insertRow
    by_cases hlt : key r < key x
    · rw [if_pos hlt]
      by_cases hk : key r = k <;> simp [hk]
    by_cases hgt : key x < key r
    · rw [if_neg hlt, if_pos hgt]
      by_cases hk : key r = k
      · have hx : key x ≠ k := fun e => hgt.ne (e.trans hk.symm)
        simp [hx, hk, ih']
      · simp [hk, ih', List.find?_cons]
    · have heq : key r = key x := le_antisymm (not_lt.mp hgt) (not_lt.mp hlt)
      by_cases hk : key x = k <;> simp [heq, hk]

private theorem map_insertRow {α : Type} (f : ν → α) {a r : ν} {l : List ν}
    (h : l.Pairwise (fun a b => key a < key b))
    (hf : l.find? (fun x => key x = key r) = some a) (heq : f r = f a) :
    (insertRow key r l).map f = l.map f := by
  induction l with
  | nil => cases hf
  | cons x xs ih =>
    obtain ⟨hx, hxs⟩ := List.pairwise_cons.mp h
    unfold insertRow
    split_ifs with hlt hgt
    · have hne : ∀ y ∈ x :: xs, key y ≠ key r := by
        simp only [List.mem_cons, forall_eq_or_imp]
        exact ⟨hlt.ne', fun y hy => (hlt.trans (hx y hy)).ne'⟩
      rw [List.find?_eq_none.mpr (by simpa using hne)] at hf
      cases hf
    · rw [List.find?_cons, decide_eq_false hgt.ne] at hf
      rw [List.map_cons, List.map_cons, ih hxs hf]
    · have hkey : key x = key r := le_antisymm (not_lt.mp hlt) (not_lt.mp hgt)
      rw [List.find?_cons, decide_eq_true hkey, Option.some.injEq] at hf
      rw [List.map_cons, List.map_cons, heq, hf]

theorem find?_set (t : Table key) (r : ν) (k : κ) :
    (t.set r).find? k = if key r = k then some r else t.find? k :=
  find?_insertRow t.sorted

@[simp] theorem find?_set_self (t : Table key) (r : ν) : (t.set r).find? (key r) = some r := by
  simp [find?_set]

theorem find?_set_ne (t : Table key) {r : ν} {k : κ} (h : key r ≠ k) :
    (t.set r).find? k = t.find? k := by
  simp [find?_set, h]

/-- A row that looks as the row before it leaves what `f` shows of the table. -/
theorem map_set_of_find? {α : Type} (f : ν → α) {t : Table key} {a r : ν}
    (h : t.find? (key r) = some a) (hf : f r = f a) : (t.set r).rows.map f = t.rows.map f :=
  map_insertRow f t.sorted h hf

theorem mem_set {t : Table key} {r y : ν} :
    y ∈ (t.set r).rows ↔ y = r ∨ (y ∈ t.rows ∧ key y ≠ key r) := by
  constructor
  · intro h
    have hy := find?_of_mem h
    rw [find?_set] at hy
    split_ifs at hy with he
    · exact .inl (Option.some.inj hy).symm
    · exact .inr ⟨mem_of_find? hy, fun e => he e.symm⟩
  · rintro (rfl | ⟨hy, hne⟩)
    · exact mem_of_find? (find?_set_self t y)
    · exact mem_of_find? ((find?_set_ne t (fun e => hne e.symm)).trans (find?_of_mem hy))

theorem find?_erase (t : Table key) (j k : κ) :
    (t.erase j).find? k = if k = j then none else t.find? k := by
  split_ifs with h
  · subst h
    simp [find?_eq_none_iff, erase]
  · cases hf : t.find? k with
    | none => simpa [find?_eq_none_iff, erase] using fun r hr _ => find?_eq_none_iff.mp hf r hr
    | some r =>
      obtain ⟨hr, rfl⟩ := find?_eq_some_iff.mp hf
      exact find?_eq_some_iff.mpr ⟨by simp [erase, hr, h], rfl⟩

theorem mem_erase {t : Table key} {k : κ} {r : ν} :
    r ∈ (t.erase k).rows ↔ r ∈ t.rows ∧ key r ≠ k := by
  simp [erase]

theorem mem_keys {t : Table key} {k : κ} : k ∈ t.rows.map key ↔ (t.find? k).isSome = true := by
  rw [Option.isSome_iff_exists]
  simp only [List.mem_map, find?_eq_some_iff]

/-- The keys come in order, so a table has no other list of them. -/
theorem keys_eq {t : Table key} {l : List κ} (hl : l.Pairwise (· < ·))
    (h : ∀ k, (t.find? k).isSome = true ↔ k ∈ l) : t.rows.map key = l :=
  (List.pairwise_map.mpr t.sorted).eq_of_mem_iff hl fun k => mem_keys.trans (h k)

/-- A table is determined by its lookups. -/
theorem ext_find? {t t' : Table key} (h : ∀ k, t.find? k = t'.find? k) : t = t' := by
  obtain ⟨l, hl⟩ := t
  obtain ⟨l', hl'⟩ := t'
  have : Std.Asymm (fun a b : ν => key a < key b) := ⟨fun _ _ => lt_asymm⟩
  have : Std.Irrefl (fun a b : ν => key a < key b) := ⟨fun _ => lt_irrefl _⟩
  obtain rfl : l = l' := hl.eq_of_mem_iff hl' fun {r} => by
    have hr := h (key r)
    constructor
    · intro hm
      exact mem_of_find? (hr.symm.trans (find?_of_mem (t := ⟨l, hl⟩) hm))
    · intro hm
      exact mem_of_find? (hr.trans (find?_of_mem (t := ⟨l', hl'⟩) hm))
  rfl

private theorem insertRow_append {x : ν} {l : List ν} (h : ∀ r ∈ l, key r < key x) :
    insertRow key x l = l ++ [x] := by
  induction l with
  | nil => rfl
  | cons r l ih =>
    have hr := h r List.mem_cons_self
    rw [insertRow, if_neg hr.not_gt, if_pos hr, ih fun y hy => h y (List.mem_cons_of_mem _ hy),
      List.cons_append]

/-- A row with a key above all others goes to the end. -/
theorem rows_set_append {t : Table key} {x : ν} (h : ∀ r ∈ t.rows, key r < key x) :
    (t.set x).rows = t.rows ++ [x] :=
  insertRow_append h

theorem erase_of_none {t : Table key} {k : κ} (h : t.find? k = none) : t.erase k = t := by
  refine ext_find? fun j => ?_
  rw [find?_erase]
  split_ifs with hj
  · rw [hj, h]
  · rfl

theorem find?_setOrErase (t : Table key) (r : ν) (c : Prop) [Decidable c] (k : κ) :
    (if c then t.erase (key r) else t.set r).find? k =
      if key r = k then (if c then none else some r) else t.find? k := by
  split_ifs with hc hk hk
  · rw [find?_erase, if_pos hk.symm]
  · rw [find?_erase, if_neg (fun e => hk e.symm)]
  · rw [find?_set, if_pos hk]
  · rw [find?_set, if_neg hk]

theorem set_set (t : Table key) {a b : ν} (h : key a = key b) : (t.set a).set b = t.set b := by
  refine ext_find? fun k => ?_
  by_cases hk : key b = k <;> simp [find?_set, h, hk]

-- ---------------------------------------------------------------------------
-- Sums
-- ---------------------------------------------------------------------------

theorem sum_congr {t : Table key} {f g : ν → ℤ} (h : ∀ r ∈ t.rows, f r = g r) :
    t.sum f = t.sum g := by
  simp only [sum, List.map_congr_left h]

theorem sum_add (t : Table key) (f g : ν → ℤ) : t.sum (fun r => f r + g r) = t.sum f + t.sum g := by
  simp only [sum, List.sum_map_add]

theorem sum_mul_left (t : Table key) (c : ℤ) (f : ν → ℤ) :
    t.sum (fun r => c * f r) = c * t.sum f := by
  simp only [sum, List.sum_map_mul_left]

theorem sum_eq_zero {t : Table key} {f : ν → ℤ} (h : ∀ r ∈ t.rows, f r = 0) : t.sum f = 0 := by
  rw [sum_congr h]
  simp [sum]

theorem sum_nonneg {t : Table key} {f : ν → ℤ} (h : ∀ r ∈ t.rows, 0 ≤ f r) : 0 ≤ t.sum f := by
  refine List.sum_nonneg fun x hx => ?_
  obtain ⟨r, hr, rfl⟩ := List.mem_map.mp hx
  exact h r hr

theorem sum_le_sum {t : Table key} {f g : ν → ℤ} (h : ∀ r ∈ t.rows, f r ≤ g r) :
    t.sum f ≤ t.sum g :=
  List.sum_le_sum h

private theorem sum_insertRow {r : ν} {l : List ν} (f : ν → ℤ)
    (h : l.Pairwise (fun a b => key a < key b)) :
    ((insertRow key r l).map f).sum =
      (l.map f).sum - ((l.find? (fun x => key x = key r)).map f).getD 0 + f r := by
  induction l with
  | nil => simp [insertRow]
  | cons x xs ih =>
    obtain ⟨hx, hxs⟩ := List.pairwise_cons.mp h
    have ih' := ih hxs
    unfold insertRow
    split_ifs with hlt hgt
    · have hnone : xs.find? (fun y => key y = key r) = none :=
        List.find?_eq_none.mpr fun y hy => by simpa using (hlt.trans (hx y hy)).ne'
      simp [hlt.ne', hnone]
      ring
    · simp [ih', hgt.ne]
      ring
    · have heq : key x = key r := le_antisymm (not_lt.mp hlt) (not_lt.mp hgt)
      simp [heq]
      ring

theorem sum_set (t : Table key) (r : ν) (f : ν → ℤ) :
    (t.set r).sum f = t.sum f - ((t.find? (key r)).map f).getD 0 + f r :=
  sum_insertRow f t.sorted

/-- Replacing the row `a` by `r` changes a sum by the difference of the two. -/
theorem sum_set_of_find? {t : Table key} {a r : ν} (h : t.find? (key r) = some a) (f : ν → ℤ) :
    (t.set r).sum f = t.sum f - f a + f r := by
  simp [sum_set, h]

/-- A new row adds its own value to a sum. -/
theorem sum_set_of_none {t : Table key} {r : ν} (h : t.find? (key r) = none) (f : ν → ℤ) :
    (t.set r).sum f = t.sum f + f r := by
  simp [sum_set, h]

/-- A row that stands for a missing one counts as nothing. -/
theorem sum_set_getD (t : Table key) {r d : ν} {f : ν → ℤ} (hd : f d = 0) :
    (t.set r).sum f = t.sum f - f ((t.find? (key r)).getD d) + f r := by
  rw [sum_set]
  cases t.find? (key r) with
  | none => simp [hd]
  | some a => simp

private theorem sum_filter_ne {l : List ν} {r : ν} (f : ν → ℤ)
    (h : l.Pairwise (fun a b => key a < key b)) (hr : r ∈ l) :
    ((l.filter (fun x => key x ≠ key r)).map f).sum = (l.map f).sum - f r := by
  induction l with
  | nil => simp at hr
  | cons x xs ih =>
    obtain ⟨hx, hxs⟩ := List.pairwise_cons.mp h
    rcases List.mem_cons.mp hr with rfl | hr
    · have hall : xs.filter (fun y => key y ≠ key r) = xs :=
        List.filter_eq_self.mpr fun y hy => by simpa using (hx y hy).ne'
      simp only [ne_eq, decide_not] at hall
      simp [hall]
    · have hne : key x ≠ key r := (hx r hr).ne
      have ih' := ih hxs hr
      simp only [ne_eq, decide_not] at ih'
      simp [hne, ih']
      ring

theorem sum_erase_of_find? {t : Table key} {k : κ} {a : ν} (h : t.find? k = some a) (f : ν → ℤ) :
    (t.erase k).sum f = t.sum f - f a := by
  obtain ⟨ha, rfl⟩ := find?_eq_some_iff.mp h
  exact sum_filter_ne f t.sorted ha

/-- A sum over the row with one key. -/
theorem sum_ite_key (t : Table key) (k : κ) (c : ℤ) :
    t.sum (fun r => if k = key r then c else 0) = if (t.find? k).isSome then c else 0 := by
  cases h : t.find? k with
  | none =>
    exact sum_eq_zero fun r hr => if_neg fun hk => find?_eq_none_iff.mp h r hr hk.symm
  | some a =>
    have herase := sum_erase_of_find? h fun r => if k = key r then c else 0
    have hzero : (t.erase k).sum (fun r => if k = key r then c else 0) = 0 :=
      sum_eq_zero fun r hr => if_neg (mem_erase.mp hr).2.symm
    rw [hzero, if_pos (key_of_find? h).symm] at herase
    rw [Option.isSome_some, if_pos rfl]
    omega

/-- A row that is deleted only when it counts as nothing. -/
theorem sum_setOrErase (t : Table key) {r : ν} {c : Prop} [Decidable c] {f : ν → ℤ}
    (hc : c → f r = 0) :
    (if c then t.erase (key r) else t.set r).sum f =
      t.sum f - ((t.find? (key r)).map f).getD 0 + f r := by
  split_ifs with h
  · rw [hc h]
    cases hr : t.find? (key r) with
    | none => simp [erase_of_none hr]
    | some a => simp [sum_erase_of_find? hr]
  · exact sum_set t r f

private theorem rows_filter {t a : Table key} {p : κ → Prop} [DecidablePred p]
    (ha : ∀ k, a.find? k = if p k then t.find? k else none) :
    a.rows = t.rows.filter (fun r => p (key r)) := by
  have heq : a = ⟨t.rows.filter (fun r => p (key r)), t.sorted.filter _⟩ := by
    refine ext_find? fun k => ?_
    ext r
    rw [ha k, find?_eq_some_iff]
    by_cases hk : p k
    · rw [if_pos hk, find?_eq_some_iff, List.mem_filter, and_assoc]
      refine and_congr_right fun _ => ⟨fun h => ⟨by simpa [h] using hk, h⟩, fun h => h.2⟩
    · rw [if_neg hk, List.mem_filter]
      refine ⟨nofun, fun h => ?_⟩
      obtain ⟨⟨-, hp⟩, rfl⟩ := h
      exact absurd (of_decide_eq_true hp) hk
  rw [heq]

/-- A table falls into the rows with certain keys and the others. -/
theorem sum_split {t a b : Table key} {p : κ → Prop} [DecidablePred p]
    (ha : ∀ k, a.find? k = if p k then t.find? k else none)
    (hb : ∀ k, b.find? k = if p k then none else t.find? k) (f : ν → ℤ) :
    t.sum f = a.sum f + b.sum f := by
  have hb' : ∀ k, b.find? k = if ¬p k then t.find? k else none := fun k => by rw [hb k, ite_not]
  unfold sum
  rw [rows_filter ha, rows_filter hb']
  induction t.rows with
  | nil => rfl
  | cons r l ih =>
    by_cases hr : p (key r)
    · simp [hr, ih, add_assoc]
    · simp [hr, ih, add_left_comm]

/-- One row counts for no more than the whole table when no row is negative. -/
theorem le_sum_of_mem {t : Table key} {f : ν → ℤ} {r : ν} (h : ∀ x ∈ t.rows, 0 ≤ f x)
    (hr : r ∈ t.rows) : f r ≤ t.sum f := by
  have hfind := find?_of_mem hr
  have hrest : 0 ≤ (t.erase (key r)).sum f :=
    sum_nonneg fun x hx => h x (mem_erase.mp hx).1
  rw [sum_erase_of_find? hfind] at hrest
  omega

end Table
