-- SUMMARY: What one changed row of the producers does to the election index and to the comparisons with cached records.
import Amax.Election.Positions

/-! # Moves in the election index

One changed row moves one producer from a position to another, and every other
producer by at most one position. The comparisons of the old and of the new
record of the producer with the cached records tell the two positions. -/

namespace Amax

open Table (shift closeGap)

-- ---------------------------------------------------------------------------
-- Shifts
-- ---------------------------------------------------------------------------

/-- The producer `n` goes from position `i` of the index to position `j`. -/
structure Shifts (idx idx' : List ProducerInfo) (n : Name) (i j : ℕ) : Prop where
  ranked : Ranked idx
  ranked' : Ranked idx'
  length : idx'.length = idx.length
  left_lt : i < idx.length
  arrived_lt : j < idx.length
  name_iff : ∀ m, position idx m = i ↔ m = n
  position_eq : ∀ m, position idx' m =
    if position idx m = i then j else shift i j (position idx m)
  stay : ∀ {c : ProducerElectedInfo} {k : ℕ}, Stands idx c k → k ≠ i → Stands idx' c (shift i j k)

/-- A row of the index is replaced. -/
structure Replaced (producers : Table ProducerInfo.owner) (a r : ProducerInfo) : Prop where
  electable : Electable producers
  found : producers.find? r.owner = some a
  indexed : a.indexed = true
  row : r.Electable

namespace Replaced

variable {producers : Table ProducerInfo.owner} {a r : ProducerInfo}

theorem old_electable (h : Replaced producers a r) : a.Electable :=
  (h.electable a (Table.mem_of_find? h.found)).electable h.indexed

theorem owner_eq (h : Replaced producers a r) : a.owner = r.owner := Table.key_of_find? h.found

theorem ranked (h : Replaced producers a r) : Ranked (electedProd producers) :=
  ranked_electedProd h.electable

theorem ranked' (h : Replaced producers a r) : Ranked (electedProd (producers.set r)) :=
  ranked_electedProd (h.electable.set h.row)

theorem length_eq (h : Replaced producers a r) :
    (electedProd (producers.set r)).length = (electedProd producers).length := by
  have hcount := Table.count_set_of_find? h.found (·.indexed)
  have hlen : ∀ t : Table ProducerInfo.owner, (electedProd t).length = t.count (·.indexed) :=
    fun t => by
      rw [electedProd, Table.index, List.length_insertionSort, ← List.countP_eq_length_filter,
        Table.count]
  rw [hlen, hlen]
  simp only [h.old_electable.indexed, h.row.indexed] at hcount
  omega

/-- Where the row stood and where it stands, and how its key compares with the others. -/
theorem moved (h : Replaced producers a r) :
    ∃ i j, (electedProd producers)[i]? = some a ∧ (electedProd (producers.set r))[j]? = some r ∧
      (∀ {k y}, (electedProd producers)[k]? = some y → k ≠ i →
        (electedProd (producers.set r))[shift i j k]? = some y ∧
          (r.byElectedProd < y.byElectedProd ↔ j ≤ closeGap i k)) := by
  have hd := distinct_byElectedProd producers
  have hm := Table.moved_of_replace hd (distinct_byElectedProd (producers.set r)) h.found
    h.old_electable.indexed h.row.indexed (electedProd producers).length
  have ha := (Table.index_getElem?_iff hd).mpr
    ⟨Table.mem_of_find? h.found, h.old_electable.indexed, rfl⟩
  refine ⟨_, _, ha, hm.self, fun {k y} hy hk => ?_⟩
  have hne : y.owner ≠ r.owner := fun ho =>
    hk (h.ranked.owner_inj hy ha (ho.trans h.owner_eq.symm))
  have hlt := (List.getElem?_eq_some_iff.mp hy).1
  exact ⟨hm.stay hy hne hlt, hm.lt_iff hy hne hlt⟩

end Replaced

/-- A replaced row shifts the index, and its key says in which direction. -/
theorem Replaced.shifts {producers : Table ProducerInfo.owner} {a r : ProducerInfo}
    (h : Replaced producers a r) :
    ∃ i j, Shifts (electedProd producers) (electedProd (producers.set r)) r.owner i j ∧
      (electedProd producers)[i]? = some a ∧ (electedProd (producers.set r))[j]? = some r ∧
      (∀ {k y}, (electedProd producers)[k]? = some y → k ≠ i →
        (r.byElectedProd < y.byElectedProd ↔ j ≤ closeGap i k)) ∧
      (r.byElectedProd < a.byElectedProd ∧ j ≤ i ∨ r.byElectedProd = a.byElectedProd ∧ j = i ∨
        a.byElectedProd < r.byElectedProd ∧ i ≤ j) := by
  obtain ⟨i, j, ha, hr, hmoved⟩ := h.moved
  have hi := (List.getElem?_eq_some_iff.mp ha).1
  have hj := (List.getElem?_eq_some_iff.mp hr).1
  rw [h.length_eq] at hj
  have hname : ∀ m, position (electedProd producers) m = i ↔ m = r.owner := fun m => by
    rw [position_eq_iff h.ranked ha, h.owner_eq]
  refine ⟨i, j, ⟨h.ranked, h.ranked', h.length_eq, hi, hj, hname, fun m => ?_, ?_⟩, ha, hr,
    fun hy hk => (hmoved hy hk).2, ?_⟩
  · split_ifs with hm
    · rw [position_eq_iff h.ranked' hr]
      exact (hname m).mp hm
    · by_cases hin : ∃ p ∈ electedProd producers, p.owner = m
      · obtain ⟨p, hp, rfl⟩ := hin
        obtain ⟨k, hk⟩ := List.mem_iff_getElem?.mp hp
        have hpos := (position_eq_iff h.ranked hk (n := p.owner)).mpr rfl
        rw [hpos] at hm ⊢
        rw [position_eq_iff h.ranked' (hmoved hk hm).1]
      · have hout : ∀ p ∈ electedProd producers, p.owner ≠ m := fun p hp ho => hin ⟨p, hp, ho⟩
        have hout' : ∀ p ∈ electedProd (producers.set r), p.owner ≠ m := by
          intro p hp ho
          obtain ⟨hp', hi⟩ := mem_electedProd.mp hp
          rcases Table.mem_set.mp hp' with rfl | ⟨hp', -⟩
          · exact hm ((hname m).mpr ho.symm)
          · exact hout p (mem_electedProd.mpr ⟨hp', hi⟩) ho
        rw [position_eq_length hout, position_eq_length hout', h.length_eq, shift, closeGap,
          if_pos hi, if_pos (by omega)]
        omega
  · rintro c k hc hk
    obtain ⟨p, hp, hpa, hn, hv⟩ := hc.row
    exact ⟨⟨p, (hmoved hp hk).1, hpa, hn, hv⟩, hc.active⟩
  · -- a producer between the two positions tells the direction
    rcases lt_trichotomy i j with hij | rfl | hij
    · have hnext := List.getElem?_eq_getElem (show i + 1 < (electedProd producers).length by omega)
      have hcmp := (hmoved hnext (by omega)).2
      have hup := (h.ranked.lt_iff ha hnext).mpr (by omega)
      simp only [closeGap, if_pos (Nat.lt_succ_self i), Nat.add_sub_cancel] at hcmp
      have hnot := mt hcmp.mp (by omega)
      exact .inr (.inr ⟨by omega, hij.le⟩)
    · rcases lt_trichotomy r.byElectedProd a.byElectedProd with hlt | heq | hgt
      · exact .inl ⟨hlt, le_rfl⟩
      · exact .inr (.inl ⟨heq, rfl⟩)
      · exact .inr (.inr ⟨hgt, le_rfl⟩)
    · have hprev := List.getElem?_eq_getElem (show j < (electedProd producers).length by omega)
      have hcmp := (hmoved hprev (by omega)).2
      have hup := (h.ranked.lt_iff hprev ha).mpr hij
      have hyes := hcmp.mpr (by rw [closeGap, if_neg (by omega)])
      exact .inl ⟨by omega, hij.le⟩

/-- A record stays where it stands when a row behind it is replaced by one behind it. -/
theorem Stands.behind {producers : Table ProducerInfo.owner} {r : ProducerInfo}
    {c : ProducerElectedInfo} {k : ℕ} (h : Stands (electedProd producers) c k)
    (hold : ∀ a, producers.find? r.owner = some a → a.indexed = true → c.key < a.byElectedProd)
    (hnew : r.indexed = true → c.key < r.byElectedProd) :
    Stands (electedProd (producers.set r)) c k := by
  obtain ⟨p, hp, hpa, hn, hv⟩ := h.row
  rw [h.key_eq hp] at hold hnew
  have hstay := Table.index_set_behind (distinct_byElectedProd producers)
    (distinct_byElectedProd (producers.set r)) hp hold hnew
  exact ⟨⟨p, hstay, hpa, hn, hv⟩, h.active⟩

/-- An inactive row that comes into the index stands behind every active producer. -/
theorem Stands.entry {producers : Table ProducerInfo.owner} {a r : ProducerInfo}
    (he : Electable producers) (hf : producers.find? r.owner = some a) (ha : a.indexed = false)
    (hr : r.Electable) (hi : r.isActive = false) {c : ProducerElectedInfo} {k : ℕ}
    (h : Stands (electedProd producers) c k) : Stands (electedProd (producers.set r)) c k := by
  refine h.behind (fun b hb hindexed => ?_) fun _ => ?_
  · rw [← Option.some.inj (hf.symm.trans hb), ha] at hindexed
    cases hindexed
  · obtain ⟨p, hp, hpa, -⟩ := h.row
    have hmem := mem_electedProd.mp (List.mem_of_getElem? hp)
    rw [h.key_eq hp]
    exact ProducerInfo.byElectedProd_lt ((he p hmem.1).electable hmem.2) hr hpa hi

-- ---------------------------------------------------------------------------
-- Moves
-- ---------------------------------------------------------------------------

/-- A producer moves from position `i` to position `j`, with the records `old`
and `new`. Up to position `bound` the old record compares as position `i` does,
and the new one is better than the records from position `above` on and worse
than those before position `below`. -/
structure Moves (idx idx' : List ProducerInfo) (bound : ℕ) (old new : ProducerElectedInfo)
    (i j above below : ℕ) : Prop extends Shifts idx idx' new.name i j where
  name_eq : old.name = new.name
  regular : new.Regular
  arrives : j ≤ bound → Stands idx' new j
  old_ge : ∀ {c k}, Stands idx c k → k < bound → old.ge c = decide (i ≤ k)
  old_eq : ∀ {c k}, Stands idx c k → k ≤ bound → old.eq c = decide (i = k)
  new_gt : ∀ {c k}, Stands idx c k → k ≤ bound → new.gt c = decide (above ≤ k)
  new_lt : ∀ {c k}, Stands idx c k → k ≤ bound → new.lt c = decide (k < below)
  order : j = i ∧ above = i + 1 ∧ below = i ∨ j ≤ i ∧ above = j ∧ below = j ∨
    i ≤ j ∧ above = j + 1 ∧ below = j + 1
  front : ∀ {k p}, k ≤ bound → idx'[k]? = some p → p.isActive = true

namespace Moves

variable {idx idx' : List ProducerInfo} {bound i j above below k l : ℕ}
  {old new c : ProducerElectedInfo} (h : Moves idx idx' bound old new i j above below)

include h

theorem new_ge (hc : Stands idx c k) (hk : k ≤ bound) : new.ge c = decide (below ≤ k) := by
  rw [ProducerElectedInfo.ge, h.new_lt hc hk, ← decide_not, decide_eq_decide]
  omega

theorem new_eq (hc : Stands idx c k) (hk : k ≤ bound) :
    new.eq c = decide (¬above ≤ k ∧ below ≤ k) := by
  have hr := hc.regular h.ranked
  have hgt := h.new_gt hc hk
  have hlt := h.new_lt hc hk
  rw [ProducerElectedInfo.gt_eq h.regular hr, decide_eq_decide] at hgt
  rw [ProducerElectedInfo.lt_eq h.regular hr, decide_eq_decide] at hlt
  rw [ProducerElectedInfo.eq_eq h.regular hr, decide_eq_decide]
  omega

theorem named (hc : Stands idx c k) : new.name = c.name ↔ i = k := by
  rw [eq_comm, ← h.name_iff, hc.position_eq h.ranked, eq_comm]

/-- A record that the move passes by on either side. -/
theorem still (hc : Stands idx c k) (hk : (k < i ∧ k < j ∨ i < k ∧ j < k) ∧ l = k) :
    Stands idx' c l := by
  have hne : k ≠ i := by omega
  have hshift := Table.shift_cases j hne
  rw [show l = shift i j k by omega]
  exact h.stay hc hne

/-- A record that the producer comes to stand before. -/
theorem pushed (hc : Stands idx c k) (hk : k < i ∧ j ≤ k ∧ l = k + 1) : Stands idx' c l := by
  have hne : k ≠ i := by omega
  have hshift := Table.shift_cases j hne
  rw [show l = shift i j k by omega]
  exact h.stay hc hne

/-- A record that the producer comes to stand behind. -/
theorem pulled (hc : Stands idx c k) (hk : i < k ∧ k ≤ j ∧ l = k - 1) : Stands idx' c l := by
  have hne : k ≠ i := by omega
  have hshift := Table.shift_cases j hne
  rw [show l = shift i j k by omega]
  exact h.stay hc hne

/-- The new record stands at its position. -/
theorem arrived (hj : l = j ∧ j ≤ bound) : Stands idx' new l :=
  hj.1 ▸ h.arrives hj.2

theorem occupied (hb : bound < idx.length) (hk : l ≤ bound) :
    ∃ p, idx'[l]? = some p ∧ p.isActive = true := by
  have hp := List.getElem?_eq_getElem (show l < idx'.length by rw [h.length]; omega)
  exact ⟨_, hp, h.front hk hp⟩

end Moves

/-- The producers up to `bound` stay active ones when the producer stays active
or both of its positions are behind them. -/
private theorem Shifts.front {idx idx' : List ProducerInfo} {n : Name} {i j bound : ℕ}
    (h : Shifts idx idx' n i j) {c : ProducerElectedInfo} (hc : Stands idx c bound) {r : ProducerInfo}
    (hr : idx'[j]? = some r) (hactive : r.isActive = true ∨ bound < i ∧ bound < j) :
    ∀ {k p}, k ≤ bound → idx'[k]? = some p → p.isActive = true := by
  intro k p hk hp
  have hstay : ∀ {d l}, Stands idx d l → l ≠ i → bound ≤ shift i j l → p.isActive = true := by
    intro d l hd hl hb
    obtain ⟨q, hq, hqa, -⟩ := (h.stay hd hl).row
    exact h.ranked'.active_of_lt hp hq (hk.trans hb) hqa
  by_cases hj : j < bound
  · by_cases hi : bound = i
    · -- the record before the last one takes its place
      obtain ⟨q, hq, hqa, -⟩ := hc.row
      have hlen := hc.lt_length
      have hprev := List.getElem?_eq_getElem (show bound - 1 < idx.length by omega)
      have hprevActive := h.ranked.active_of_lt hprev hq (by omega) hqa
      have hshift := Table.shift_cases j (show bound - 1 ≠ i by omega)
      exact hstay (.of_row hprev hprevActive) (by omega) (by omega)
    · have hshift := Table.shift_cases j hi
      exact hstay hc hi (by omega)
  · rcases hactive with hra | ⟨hbi, hbj⟩
    · exact h.ranked'.active_of_lt hp hr (by omega) hra
    · have hshift := Table.shift_cases j hbi.ne
      exact hstay hc hbi.ne (by omega)

section Moves

variable {producers : Table ProducerInfo.owner} {a r : ProducerInfo} {bound : ℕ}
  {tailNext : ProducerElectedInfo}

/-- An active producer moves. -/
theorem Replaced.moves (h : Replaced producers a r) (ha : a.isActive = true)
    (hr : r.isActive = true) (hb : Stands (electedProd producers) tailNext bound) :
    ∃ i j above below, Moves (electedProd producers) (electedProd (producers.set r)) bound
      a.getElectedInfo r.getElectedInfo i j above below := by
  obtain ⟨i, j, hs, hrow, hrow', hcmp, horder⟩ := h.shifts
  have hold : Stands (electedProd producers) a.getElectedInfo i := .of_row hrow ha
  have hgt : ∀ {c k}, Stands (electedProd producers) c k →
      (r.getElectedInfo.gt c = true ↔ if k = i then r.byElectedProd < a.byElectedProd
        else j ≤ closeGap i k) ∧
      (r.getElectedInfo.lt c = true ↔ if k = i then a.byElectedProd < r.byElectedProd
        else ¬j ≤ closeGap i k) := by
    intro c k hc
    obtain ⟨y, hy, hya, -⟩ := hc.row
    rw [ProducerElectedInfo.gt_eq h.row.regular (hc.regular hs.ranked),
      ProducerElectedInfo.lt_eq h.row.regular (hc.regular hs.ranked), hc.key_eq hy,
      ProducerInfo.key_getElectedInfo hr, decide_eq_true_iff, decide_eq_true_iff]
    split_ifs with hk
    · obtain rfl := Option.some.inj ((hk ▸ hy).symm.trans hrow)
      exact ⟨Iff.rfl, Iff.rfl⟩
    · refine ⟨hcmp hy hk, ?_⟩
      rw [← hcmp hy hk, not_lt]
      refine ⟨le_of_lt, fun hle => lt_of_le_of_ne hle fun heq => hk ?_⟩
      have ho := (ProducerInfo.byElectedProd_inj heq).trans h.owner_eq.symm
      exact hs.ranked.owner_inj hy hrow ho
  have hmoves : ∀ above below, (∀ k, above ≤ k ↔ if k = i then r.byElectedProd < a.byElectedProd
        else j ≤ closeGap i k) → (∀ k, k < below ↔ if k = i then a.byElectedProd < r.byElectedProd
        else ¬j ≤ closeGap i k) →
      (j = i ∧ above = i + 1 ∧ below = i ∨ j ≤ i ∧ above = j ∧ below = j ∨
        i ≤ j ∧ above = j + 1 ∧ below = j + 1) →
      Moves (electedProd producers) (electedProd (producers.set r)) bound
        a.getElectedInfo r.getElectedInfo i j above below := by
    intro above below habove hbelow hdir
    refine { hs with
      name_eq := h.owner_eq, regular := h.row.regular, arrives := fun _ => .of_row hrow' hr
      old_ge := ?_, old_eq := ?_, new_gt := ?_, new_lt := ?_, order := hdir
      front := hs.front hb hrow' (.inl hr) }
    · intro c k hc _
      rw [ProducerElectedInfo.ge, hold.lt_eq hs.ranked hc, ← decide_not, decide_eq_decide]
      omega
    · exact fun hc _ => hold.eq_eq hs.ranked hc
    · intro c k hc _
      rw [Bool.eq_iff_iff, (hgt hc).1, decide_eq_true_iff, habove]
    · intro c k hc _
      rw [Bool.eq_iff_iff, (hgt hc).2, decide_eq_true_iff, hbelow]
  rcases horder with ⟨hlt, hij⟩ | ⟨heq, hij⟩ | ⟨hlt, hij⟩
  · refine ⟨i, j, j, j, hmoves j j (fun k => ?_) (fun k => ?_) (.inr (.inl ⟨hij, rfl, rfl⟩))⟩ <;>
      simp only [closeGap] <;> split_ifs <;> omega
  · refine ⟨i, j, i + 1, i, hmoves _ _ (fun k => ?_) (fun k => ?_) (.inl ⟨hij, rfl, rfl⟩)⟩ <;>
      simp only [closeGap] <;> split_ifs <;> omega
  · refine ⟨i, j, j + 1, j + 1, hmoves _ _ (fun k => ?_) (fun k => ?_)
      (.inr (.inr ⟨hij, rfl, rfl⟩))⟩ <;>
      simp only [closeGap] <;> split_ifs <;> omega

/-- An inactive producer stands behind the active ones. -/
theorem Ranked.behind {idx : List ProducerInfo} (hr : Ranked idx) {i : ℕ} (hrow : idx[i]? = some a)
    (ha : a.isActive = false) {c : ProducerElectedInfo} (hc : Stands idx c bound) : bound < i := by
  obtain ⟨p, hp, hpa, -⟩ := hc.row
  by_contra hi
  rw [hr.active_of_lt hrow hp (not_lt.mp hi) hpa] at ha
  cases ha

/-- The votes of an inactive producer move behind all cached records. -/
theorem Replaced.moves_behind (h : Replaced producers a r) (ha : a.isActive = false)
    (hr : r.isActive = false) (hb : Stands (electedProd producers) tailNext bound)
    (hold : a.getElectedInfo.lt tailNext = true) (hnew : r.getElectedInfo.lt tailNext = true) :
    ∃ i j above below, Moves (electedProd producers) (electedProd (producers.set r)) bound
      a.getElectedInfo r.getElectedInfo i j above below := by
  obtain ⟨i, j, hs, hrow, hrow', -⟩ := h.shifts
  have hi := hs.ranked.behind hrow ha hb
  have hj : bound < j := by
    have hshift := Table.shift_cases j hi.ne
    have := hs.ranked'.behind hrow' hr (hs.stay hb hi.ne)
    omega
  have hreg := h.old_electable.regular
  have hreg' := h.row.regular
  have htail := hb.regular hs.ranked
  rw [ProducerElectedInfo.lt_eq hreg htail, decide_eq_true_iff] at hold
  rw [ProducerElectedInfo.lt_eq hreg' htail, decide_eq_true_iff] at hnew
  have hkey : ∀ {c k}, Stands (electedProd producers) c k → k ≤ bound →
      c.key < a.getElectedInfo.key ∧ c.key < r.getElectedInfo.key := by
    intro c k hc hk
    have := mt (hb.key_lt_iff hs.ranked hc).mp (not_lt.mpr hk)
    exact ⟨by omega, by omega⟩
  refine ⟨i, j, if j ≤ i then j else j + 1, if j ≤ i then j else j + 1, { hs with
    name_eq := h.owner_eq, regular := hreg', arrives := fun hle => absurd hle (not_le.mpr hj)
    old_ge := ?_, old_eq := ?_, new_gt := ?_, new_lt := ?_
    order := by split_ifs <;> omega
    front := hs.front hb hrow' (.inr ⟨hi, hj⟩) }⟩
  · intro c k hc hk
    have := hkey hc hk.le
    rw [ProducerElectedInfo.ge, ProducerElectedInfo.lt_eq hreg (hc.regular hs.ranked),
      ← decide_not, decide_eq_decide]
    omega
  · intro c k hc hk
    have := hkey hc hk
    rw [ProducerElectedInfo.eq_eq hreg (hc.regular hs.ranked), decide_eq_decide]
    omega
  · intro c k hc hk
    have := hkey hc hk
    rw [ProducerElectedInfo.gt_eq hreg' (hc.regular hs.ranked), decide_eq_decide]
    split_ifs <;> omega
  · intro c k hc hk
    have := hkey hc hk
    rw [ProducerElectedInfo.lt_eq hreg' (hc.regular hs.ranked), decide_eq_decide]
    split_ifs <;> omega

/-- An inactive producer becomes active again behind the backup queue. -/
theorem Replaced.moves_back (h : Replaced producers a r) (ha : a.isActive = false)
    (hr : r.isActive = true) (hvotes : r.getElectedVotes = a.getElectedVotes)
    (hb : Stands (electedProd producers) tailNext (bound + 1)) {tail : ProducerElectedInfo}
    (ht : Stands (electedProd producers) tail bound)
    (hnew : r.getElectedInfo.lt tail = true) :
    ∃ i j above below, Moves (electedProd producers) (electedProd (producers.set r)) (bound + 1)
      a.getElectedInfo r.getElectedInfo i j above below := by
  obtain ⟨i, j, hs, hrow, hrow', hcmp, horder⟩ := h.shifts
  have hi := hs.ranked.behind hrow ha hb
  have hreg' := h.row.regular
  have hkey' := ProducerInfo.key_getElectedInfo hr
  have hkey : a.getElectedInfo.key = r.byElectedProd := by
    rw [← hkey', ProducerElectedInfo.key, ProducerElectedInfo.key,
      show a.getElectedInfo.name = r.getElectedInfo.name from h.owner_eq,
      show a.getElectedInfo.electedVotes = r.getElectedInfo.electedVotes from hvotes.symm]
    rfl
  have hji : j ≤ i := by
    have := ProducerInfo.byElectedProd_lt h.row h.old_electable hr ha
    omega
  -- the record before position `bound + 1` and the new one have different keys
  have hlt : ∀ {c k}, Stands (electedProd producers) c k → k ≤ bound + 1 →
      (r.byElectedProd < c.key ↔ j ≤ k) ∧ r.byElectedProd ≠ c.key := by
    intro c k hc hk
    obtain ⟨y, hy, -⟩ := hc.row
    rw [hc.key_eq hy]
    refine ⟨?_, fun heq => ?_⟩
    · rw [hcmp hy (by omega), Table.closeGap, if_neg (by omega)]
    · have ho := (ProducerInfo.byElectedProd_inj heq).symm.trans h.owner_eq.symm
      have := hs.ranked.owner_inj hy hrow ho
      omega
  have hj : bound < j := by
    rw [ProducerElectedInfo.lt_eq hreg' (ht.regular hs.ranked), decide_eq_true_iff, hkey'] at hnew
    have := (hlt ht (by omega)).1
    omega
  refine ⟨i, j, j, j, { hs with
    name_eq := h.owner_eq, regular := hreg', arrives := fun _ => .of_row hrow' hr
    old_ge := ?_, old_eq := ?_, new_gt := ?_, new_lt := ?_
    order := .inr (.inl ⟨hji, rfl, rfl⟩), front := hs.front hb hrow' (.inl hr) }⟩
  · intro c k hc hk
    have := hlt hc hk.le
    rw [ProducerElectedInfo.ge,
      ProducerElectedInfo.lt_eq h.old_electable.regular (hc.regular hs.ranked), hkey,
      ← decide_not, decide_eq_decide]
    omega
  · intro c k hc hk
    have := hlt hc hk
    rw [ProducerElectedInfo.eq_eq h.old_electable.regular (hc.regular hs.ranked), hkey,
      decide_eq_decide]
    omega
  · intro c k hc hk
    have := hlt hc hk
    rw [ProducerElectedInfo.gt_eq hreg' (hc.regular hs.ranked), hkey', decide_eq_decide]
    omega
  · intro c k hc hk
    have := hlt hc hk
    rw [ProducerElectedInfo.lt_eq hreg' (hc.regular hs.ranked), hkey', decide_eq_decide]
    omega

end Moves

end Amax
