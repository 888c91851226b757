-- SUMMARY: Records that stand at a position of the election index, and how their comparisons are comparisons of positions.
import Amax.System.Queue

/-! # Positions in the election index

The queues compare cached records with each other, and look them up in the
index by the key they would have there. For the records of active producers
both are comparisons of positions. -/

namespace Amax

-- ---------------------------------------------------------------------------
-- The order of records
-- ---------------------------------------------------------------------------

namespace ProducerElectedInfo

/-- The key of a record in the order of the index. -/
def key (c : ProducerElectedInfo) : ℕ := electedKey c.name c.isActive c.electedVotes

/-- A record of an active producer, with votes that fit an asset. -/
structure Regular (c : ProducerElectedInfo) : Prop where
  active : c.isActive = true
  votes_nonneg : 0 ≤ c.electedVotes
  votes_le : c.electedVotes ≤ Asset.maxAmount

theorem key_lt_iff {a b : ProducerElectedInfo} (ha : a.Regular) (hb : b.Regular) :
    a.key < b.key ↔
      b.electedVotes < a.electedVotes ∨ a.electedVotes = b.electedVotes ∧ a.name < b.name := by
  have h₁ := ha.votes_nonneg
  have h₂ := ha.votes_le
  have h₃ := hb.votes_nonneg
  have h₄ := hb.votes_le
  simp only [Asset.maxAmount] at h₂ h₄
  simp only [key, electedKey, ha.active, hb.active, if_true, Fin.lt_def]
  omega

theorem key_inj {a b : ProducerElectedInfo} (ha : a.Regular) (hb : b.Regular)
    (h : a.key = b.key) : a.electedVotes = b.electedVotes ∧ a.name = b.name := by
  have h₁ := ha.votes_nonneg
  have h₂ := ha.votes_le
  have h₃ := hb.votes_nonneg
  have h₄ := hb.votes_le
  simp only [Asset.maxAmount] at h₂ h₄
  simp only [key, electedKey, ha.active, hb.active, if_true] at h
  refine ⟨by omega, Fin.ext (by omega)⟩

theorem gt_eq {a b : ProducerElectedInfo} (ha : a.Regular) (hb : b.Regular) :
    a.gt b = decide (a.key < b.key) := by
  rw [Bool.eq_iff_iff, decide_eq_true_iff, key_lt_iff ha hb]
  simp only [gt, ha.active, hb.active, lt_irrefl, gt_iff_lt, if_false]
  split_ifs with h₁ h₂
  · simp [h₁]
  · exact ⟨nofun, fun h => by omega⟩
  · have heq : a.electedVotes = b.electedVotes := by omega
    simp [heq]

theorem lt_eq {a b : ProducerElectedInfo} (ha : a.Regular) (hb : b.Regular) :
    a.lt b = decide (b.key < a.key) := by
  rw [Bool.eq_iff_iff, decide_eq_true_iff, key_lt_iff hb ha]
  simp only [lt, ha.active, hb.active, lt_irrefl, gt_iff_lt, if_false]
  split_ifs with h₁ h₂
  · simp [h₁]
  · exact ⟨nofun, fun h => by omega⟩
  · have heq : a.electedVotes = b.electedVotes := by omega
    simp [heq]

theorem eq_eq {a b : ProducerElectedInfo} (ha : a.Regular) (hb : b.Regular) :
    a.eq b = decide (a.key = b.key) := by
  rw [Bool.eq_iff_iff, decide_eq_true_iff]
  simp only [eq, ha.active, hb.active, decide_true, Bool.true_and, Bool.and_eq_true,
    decide_eq_true_eq]
  constructor
  · rintro ⟨hv, hn⟩
    rw [key, key, ha.active, hb.active, hv, hn]
  · exact key_inj ha hb

theorem Regular.congr {a b : ProducerElectedInfo} (h : b.Regular) (ha : a.isActive = true)
    (hv : a.electedVotes = b.electedVotes) : a.Regular :=
  ⟨ha, hv ▸ h.votes_nonneg, hv ▸ h.votes_le⟩

end ProducerElectedInfo

-- ---------------------------------------------------------------------------
-- Rows of the index
-- ---------------------------------------------------------------------------

/-- A row the elections can work with. -/
structure ProducerInfo.Electable (p : ProducerInfo) : Prop where
  owner_ne : p.owner ≠ 0
  votes_nonneg : 0 ≤ p.getElectedVotes
  votes_le : p.getElectedVotes ≤ Asset.maxAmount
  ext : p.ext.isSome = true
  indexed : p.indexed = true

namespace ProducerInfo

theorem Electable.regular {p : ProducerInfo} (h : p.Electable) : p.getElectedInfo.Regular :=
  ⟨rfl, h.votes_nonneg, h.votes_le⟩

/-- The record of an active producer has the key of its row. -/
theorem key_getElectedInfo {p : ProducerInfo} (h : p.isActive = true) :
    p.getElectedInfo.key = p.byElectedProd := by
  rw [ProducerElectedInfo.key, byElectedProd, h]
  rfl

theorem byElectedProd_inj {p q : ProducerInfo} (h : p.byElectedProd = q.byElectedProd) :
    p.owner = q.owner := by
  have hp := p.owner.isLt
  have hq := q.owner.isLt
  simp only [byElectedProd, electedKey] at h
  exact Fin.ext (by omega)

/-- Every active producer stands before every inactive one. -/
theorem byElectedProd_lt {p q : ProducerInfo} (hp : p.Electable) (hq : q.Electable)
    (ha : p.isActive = true) (hi : q.isActive = false) : p.byElectedProd < q.byElectedProd := by
  have h₁ := hp.votes_nonneg
  have h₂ := hq.votes_le
  simp only [Asset.maxAmount] at h₂
  simp only [byElectedProd, electedKey, ha, hi, if_true, Bool.false_eq_true, if_false]
  omega

end ProducerInfo

/-- A row as the contract keeps it: it is in the index as soon as it has an election record. -/
structure ProducerInfo.WellFormed (p : ProducerInfo) : Prop where
  owner_ne : p.owner ≠ 0
  votes_nonneg : 0 ≤ p.getElectedVotes
  votes_le : p.getElectedVotes ≤ Asset.maxAmount
  indexed_eq : p.indexed = p.ext.isSome

instance (p : ProducerInfo) : Decidable p.WellFormed :=
  decidable_of_iff (p.owner ≠ 0 ∧ 0 ≤ p.getElectedVotes ∧ p.getElectedVotes ≤ Asset.maxAmount ∧
      p.indexed = p.ext.isSome)
    ⟨fun ⟨ho, hn, hl, hi⟩ => ⟨ho, hn, hl, hi⟩, fun ⟨ho, hn, hl, hi⟩ => ⟨ho, hn, hl, hi⟩⟩

theorem ProducerInfo.WellFormed.electable {p : ProducerInfo} (h : p.WellFormed)
    (hi : p.indexed = true) : p.Electable :=
  ⟨h.owner_ne, h.votes_nonneg, h.votes_le, h.indexed_eq.symm.trans hi, hi⟩

theorem ProducerInfo.Electable.wellFormed {p : ProducerInfo} (h : p.Electable) : p.WellFormed :=
  ⟨h.owner_ne, h.votes_nonneg, h.votes_le, h.indexed.trans h.ext.symm⟩

/-- A table of which every producer in the index is electable. -/
def Electable (producers : Table ProducerInfo.owner) : Prop := ∀ p ∈ producers.rows, p.WellFormed

instance (producers : Table ProducerInfo.owner) : Decidable (Electable producers) :=
  inferInstanceAs (Decidable (∀ _ ∈ _, _))

theorem distinct_byElectedProd (producers : Table ProducerInfo.owner) :
    producers.Distinct (·.indexed) ProducerInfo.byElectedProd :=
  fun _ ha _ hb _ _ h => producers.key_inj ha hb (ProducerInfo.byElectedProd_inj h)

theorem Electable.set {producers : Table ProducerInfo.owner} (h : Electable producers)
    {p : ProducerInfo} (hp : p.Electable) : Electable (producers.set p) := by
  intro q hq
  rcases Table.mem_set.mp hq with rfl | ⟨hq, -⟩
  · exact hp.wellFormed
  · exact h q hq

theorem mem_electedProd {producers : Table ProducerInfo.owner} {p : ProducerInfo} :
    p ∈ electedProd producers ↔ p ∈ producers.rows ∧ p.indexed = true := by
  rw [electedProd, Table.mem_index]

/-- What the elections use of an index: it is sorted, and names are in it once. -/
structure Ranked (idx : List ProducerInfo) : Prop where
  sorted : idx.Pairwise (fun a b => a.byElectedProd < b.byElectedProd)
  nodup : (idx.map (·.owner)).Nodup
  electable : ∀ p ∈ idx, p.Electable

theorem ranked_electedProd {producers : Table ProducerInfo.owner} (h : Electable producers) :
    Ranked (electedProd producers) := by
  have hsorted := Table.index_sorted (distinct_byElectedProd producers)
  refine ⟨hsorted, ?_, fun p hp => ?_⟩
  · refine List.pairwise_map.mpr (hsorted.imp_of_mem fun {a b} ha hb hlt heq => ?_)
    have hrow := producers.key_inj (mem_electedProd.mp ha).1 (mem_electedProd.mp hb).1 heq
    rw [hrow] at hlt
    exact lt_irrefl _ hlt
  · obtain ⟨hrow, hi⟩ := mem_electedProd.mp hp
    exact (h p hrow).electable hi

namespace Ranked

variable {idx : List ProducerInfo} {p q : ProducerInfo} {k l : ℕ}

theorem lt_iff (h : Ranked idx) (hp : idx[k]? = some p) (hq : idx[l]? = some q) :
    p.byElectedProd < q.byElectedProd ↔ k < l := by
  obtain ⟨hk, rfl⟩ := List.getElem?_eq_some_iff.mp hp
  obtain ⟨hl, rfl⟩ := List.getElem?_eq_some_iff.mp hq
  have hpair := List.pairwise_iff_getElem.mp h.sorted
  constructor
  · intro hlt
    by_contra hnot
    rcases (not_lt.mp hnot).lt_or_eq with hlk | rfl
    · exact absurd (hpair l k hl hk hlk) (not_lt.mpr hlt.le)
    · exact lt_irrefl _ hlt
  · exact hpair k l hk hl

/-- The producers before an active one are active. -/
theorem active_of_lt (h : Ranked idx) (hp : idx[k]? = some p) (hq : idx[l]? = some q)
    (hkl : k ≤ l) (ha : q.isActive = true) : p.isActive = true := by
  by_contra hi
  have hlt := ProducerInfo.byElectedProd_lt (h.electable q (List.mem_of_getElem? hq))
    (h.electable p (List.mem_of_getElem? hp)) ha (Bool.eq_false_iff.mpr hi)
  have := (h.lt_iff hq hp).mp hlt
  omega

theorem owner_inj (h : Ranked idx) (hp : idx[k]? = some p) (hq : idx[l]? = some q)
    (ho : p.owner = q.owner) : k = l := by
  obtain ⟨hk, rfl⟩ := List.getElem?_eq_some_iff.mp hp
  obtain ⟨hl, rfl⟩ := List.getElem?_eq_some_iff.mp hq
  have hk' : k < (idx.map (·.owner)).length := by simpa using hk
  have hl' : l < (idx.map (·.owner)).length := by simpa using hl
  exact (@List.Nodup.getElem_inj_iff _ _ h.nodup k hk' l hl').mp (by simpa using ho)

/-- The lower bound of the key of a row is the row. -/
theorem findIdx_eq (h : Ranked idx) (hp : idx[k]? = some p) :
    (idx.findIdx fun r => p.byElectedProd ≤ r.byElectedProd) = k := by
  obtain ⟨hk, rfl⟩ := List.getElem?_eq_some_iff.mp hp
  refine (List.findIdx_eq hk).mpr ⟨by simp, fun l hl => ?_⟩
  have := (h.lt_iff (List.getElem?_eq_getElem (hl.trans hk)) hp).mpr hl
  simpa using this

end Ranked

-- ---------------------------------------------------------------------------
-- Records at positions
-- ---------------------------------------------------------------------------

/-- `c` is the record of the active producer at position `k` of the index. -/
structure Stands (idx : List ProducerInfo) (c : ProducerElectedInfo) (k : ℕ) : Prop where
  row : ∃ p, idx[k]? = some p ∧ p.isActive = true ∧ c.name = p.owner ∧
    c.electedVotes = p.getElectedVotes
  active : c.isActive = true

namespace Stands

variable {idx : List ProducerInfo} {c d : ProducerElectedInfo} {p : ProducerInfo} {k l : ℕ}

theorem of_row (hp : idx[k]? = some p) (ha : p.isActive = true) :
    Stands idx p.getElectedInfo k :=
  ⟨⟨p, hp, ha, rfl, rfl⟩, rfl⟩

theorem fill (hp : idx[k]? = some p) (ha : p.isActive = true) (hd : d.isActive = true) :
    Stands idx (p.fillElectedInfo d) k :=
  ⟨⟨p, hp, ha, rfl, rfl⟩, hd⟩

theorem lt_length (h : Stands idx c k) : k < idx.length := by
  obtain ⟨p, hp, -⟩ := h.row
  exact (List.getElem?_eq_some_iff.mp hp).1

theorem key_eq (h : Stands idx c k) (hp : idx[k]? = some p) : c.key = p.byElectedProd := by
  obtain ⟨q, hq, ha, hn, hv⟩ := h.row
  obtain rfl := Option.some.inj (hp.symm.trans hq)
  rw [ProducerElectedInfo.key, ProducerInfo.byElectedProd, h.active, ha, hn, hv]

theorem regular (hr : Ranked idx) (h : Stands idx c k) : c.Regular := by
  obtain ⟨p, hp, ha, hn, hv⟩ := h.row
  exact (hr.electable p (List.mem_of_getElem? hp)).regular.congr h.active hv

theorem name_ne (hr : Ranked idx) (h : Stands idx c k) : c.empty = false := by
  obtain ⟨p, hp, -, hn, -⟩ := h.row
  have := (hr.electable p (List.mem_of_getElem? hp)).owner_ne
  simpa [ProducerElectedInfo.empty, hn] using this

theorem key_lt_iff (hr : Ranked idx) (h : Stands idx c k) (h' : Stands idx d l) :
    c.key < d.key ↔ k < l := by
  obtain ⟨p, hp, -⟩ := h.row
  obtain ⟨q, hq, -⟩ := h'.row
  rw [h.key_eq hp, h'.key_eq hq]
  exact hr.lt_iff hp hq

theorem gt_eq (hr : Ranked idx) (h : Stands idx c k) (h' : Stands idx d l) :
    c.gt d = decide (k < l) := by
  rw [ProducerElectedInfo.gt_eq (h.regular hr) (h'.regular hr)]
  simp only [h.key_lt_iff hr h']

theorem lt_eq (hr : Ranked idx) (h : Stands idx c k) (h' : Stands idx d l) :
    c.lt d = decide (l < k) := by
  rw [ProducerElectedInfo.lt_eq (h.regular hr) (h'.regular hr)]
  simp only [h'.key_lt_iff hr h]

theorem eq_eq (hr : Ranked idx) (h : Stands idx c k) (h' : Stands idx d l) :
    c.eq d = decide (k = l) := by
  rw [ProducerElectedInfo.eq_eq (h.regular hr) (h'.regular hr), decide_eq_decide]
  have h₁ := h.key_lt_iff hr h'
  have h₂ := h'.key_lt_iff hr h
  omega

/-- `get_pos_itr` finds a record where it stands. -/
theorem getPosItr_eq (hr : Ranked idx) (h : Stands idx c k) :
    QueueHelper.getPosItr idx c = .ok k := by
  obtain ⟨p, hp, -, hn, hv⟩ := h.row
  have hkey := h.key_eq hp
  have hreg := h.regular hr
  have hmax : c.electedVotes < int64Max := by
    have := hreg.votes_le
    simp only [Asset.maxAmount, int64Max] at this ⊢
    omega
  have hpos : (idx.findIdx fun r => electedKey c.name c.isActive c.electedVotes ≤ r.byElectedProd)
      = k := by
    rw [show electedKey c.name c.isActive c.electedVotes = p.byElectedProd from hkey]
    exact hr.findIdx_eq hp
  simp only [QueueHelper.getPosItr, hpos, hp, Except.bind_ok_iff, check_ok_iff, exists_const,
    Except.pure_ok_iff]
  exact ⟨⟨hreg.votes_nonneg, hmax⟩, hn.symm, hv.symm, trivial⟩

/-- `fetch_prev` finds the record before the one it is given. -/
theorem fetchPrev_ok (hr : Ranked idx) (h : Stands idx c (k + 1)) (hd : d.isActive = true)
    (checking : Bool) (title : String) :
    ∃ prev, QueueHelper.fetchPrev idx c d checking title = .ok prev ∧ Stands idx prev k := by
  have hlen := h.lt_length
  obtain ⟨q, hq, hqa, -⟩ := h.row
  have hp : idx[k]? = some idx[k] := List.getElem?_eq_getElem (by omega)
  have hprev := fill hp (hr.active_of_lt hp hq (Nat.le_succ k) hqa) hd
  refine ⟨_, ?_, hprev⟩
  simp only [QueueHelper.fetchPrev, h.getPosItr_eq hr, Except.bind_ok_iff, Except.ok.injEq,
    exists_eq_left', check_ok_iff, exists_const, Nat.add_eq_zero_iff, one_ne_zero, and_false,
    if_false, Nat.add_sub_cancel, hp, Except.pure_ok_iff]
  refine ⟨fun hnil => by simp [hnil] at hlen, ?_, trivial⟩
  rw [h.lt_eq hr hprev, decide_eq_true_eq]
  omega

/-- `fetch_next` finds the record after the one it is given. -/
theorem fetchNext_ok (hr : Ranked idx) (h : Stands idx c k) (hp : idx[k + 1]? = some p)
    (ha : p.isActive = true) (hd : d.isActive = true) (checkFound : Bool) (title : String) :
    ∃ next, QueueHelper.fetchNext idx c d checkFound title = .ok next ∧
      Stands idx next (k + 1) := by
  have hext := (hr.electable p (List.mem_of_getElem? hp)).ext
  have hnext := fill hp ha hd
  refine ⟨_, ?_, hnext⟩
  simp only [QueueHelper.fetchNext, h.getPosItr_eq hr, Except.bind_ok_iff, Except.ok.injEq,
    exists_eq_left', hp, Option.filter_some, hext, if_true, check_ok_iff, exists_const,
    Except.pure_ok_iff]
  refine ⟨?_, trivial⟩
  rw [hnext.lt_eq hr h, decide_eq_true_eq]
  omega

/-- `fetch_next` answers an empty record when nothing follows and none is asked for. -/
theorem fetchNext_none (hr : Ranked idx) (h : Stands idx c k) (hk : idx.length ≤ k + 1)
    (title : String) : QueueHelper.fetchNext idx c d false title = .ok .clear := by
  simp only [QueueHelper.fetchNext, h.getPosItr_eq hr, Except.bind_ok_iff, Except.ok.injEq,
    exists_eq_left', List.getElem?_eq_none hk, Option.filter_none, Bool.false_eq_true, if_false,
    Except.pure_ok_iff]

end Stands

end Amax
