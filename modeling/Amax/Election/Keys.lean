-- SUMMARY: The key of the election index and the comparison of election records, on active and on inactive producers.
import Amax.Election.Standing
import Mathlib.Data.Prod.Lex

/-! # Keys and comparisons

The election order is written twice: in the key of the index `electedprod`, and
in the operators of the records the queues hold. A record does not say whether
its producer is active, so the two agree as long as activity does not decide. -/

namespace Amax

-- ---------------------------------------------------------------------------
-- The operators
-- ---------------------------------------------------------------------------

/-- The operators `<`, `>`, `<=`, `>=` and `==` are those of one strict total order. -/
structure StrictTotal {α : Type} (lt gt le ge eq : α → α → Bool) : Prop where
  eq_refl : ∀ a, eq a a = true
  eq_symm : ∀ a b, eq a b = true → eq b a = true
  eq_trans : ∀ a b c, eq a b = true → eq b c = true → eq a c = true
  lt_trans : ∀ a b c, lt a b = true → lt b c = true → lt a c = true
  lt_ne : ∀ a b, lt a b = true → eq a b = false
  trichotomy : ∀ a b, lt a b = true ∨ eq a b = true ∨ lt b a = true
  gt_iff : ∀ a b, gt a b = true ↔ lt b a = true
  le_iff : ∀ a b, le a b = true ↔ lt a b = true ∨ eq a b = true
  ge_iff : ∀ a b, ge a b = true ↔ lt b a = true ∨ eq a b = true

/-- Operators that compare by a rank in a linear order are those of one strict total order. -/
theorem StrictTotal.of_rank {α κ : Type} [LinearOrder κ] (rank : α → κ)
    {lt gt le ge eq : α → α → Bool} (hlt : ∀ a b, lt a b = true ↔ rank a < rank b)
    (hgt : ∀ a b, gt a b = true ↔ rank b < rank a) (hle : ∀ a b, le a b = true ↔ rank a ≤ rank b)
    (hge : ∀ a b, ge a b = true ↔ rank b ≤ rank a) (heq : ∀ a b, eq a b = true ↔ rank a = rank b) :
    StrictTotal lt gt le ge eq where
  eq_refl a := (heq a a).mpr rfl
  eq_symm a b h := (heq b a).mpr ((heq a b).mp h).symm
  eq_trans a b c h h' := (heq a c).mpr (((heq a b).mp h).trans ((heq b c).mp h'))
  lt_trans a b c h h' := (hlt a c).mpr (((hlt a b).mp h).trans ((hlt b c).mp h'))
  lt_ne a b h := by
    rw [Bool.eq_false_iff, Ne, heq]
    exact ((hlt a b).mp h).ne
  trichotomy a b := by
    rw [hlt, heq, hlt]
    exact lt_trichotomy (rank a) (rank b)
  gt_iff a b := by rw [hgt, hlt]
  le_iff a b := by rw [hle, hlt, heq, le_iff_lt_or_eq]
  ge_iff a b := by rw [hge, hlt, heq, le_iff_lt_or_eq, eq_comm (a := rank a)]

namespace ProducerElectedInfo

/-- What the operators compare, in the order they compare it. -/
def rank (a : ProducerElectedInfo) : Bool ×ₗ ℤ ×ₗ Nameᵒᵈ :=
  toLex (a.isActive, toLex (a.electedVotes, OrderDual.toDual a.name))

theorem rank_lt_iff (a b : ProducerElectedInfo) :
    a.rank < b.rank ↔ a.isActive < b.isActive ∨ a.isActive = b.isActive ∧
      (a.electedVotes < b.electedVotes ∨ a.electedVotes = b.electedVotes ∧ b.name < a.name) := by
  simp only [rank, Prod.Lex.lt_iff, ofLex_toLex, OrderDual.toDual_lt_toDual]

theorem lt_iff_rank (a b : ProducerElectedInfo) : a.lt b = true ↔ a.rank < b.rank := by
  rw [rank_lt_iff]
  simp only [lt]
  split_ifs with h₁ h₂ h₃ h₄
  · simp [h₁]
  · simp [h₁, h₂.ne']
  · have := le_antisymm (not_lt.mp h₂) (not_lt.mp h₁)
    simp [this, h₃]
  · simp [h₁, h₃, h₄.ne']
  · have ha := le_antisymm (not_lt.mp h₂) (not_lt.mp h₁)
    have hv := le_antisymm (not_lt.mp h₄) (not_lt.mp h₃)
    simp [ha, hv]

theorem gt_iff_rank (a b : ProducerElectedInfo) : a.gt b = true ↔ b.rank < a.rank := by
  rw [← lt_iff_rank]
  rfl

theorem eq_iff_rank (a b : ProducerElectedInfo) : a.eq b = true ↔ a.rank = b.rank := by
  simp only [eq, rank, Bool.and_eq_true, decide_eq_true_eq, toLex_inj, Prod.mk.injEq,
    OrderDual.toDual_inj, and_assoc]

/-- The operators of records are those of one strict total order. -/
theorem strictTotal : StrictTotal lt gt le ge eq :=
  .of_rank rank lt_iff_rank gt_iff_rank
    (fun a b => by rw [le, Bool.not_eq_true', ← not_lt, ← gt_iff_rank, Bool.not_eq_true])
    (fun a b => by rw [ge, Bool.not_eq_true', ← not_lt, ← lt_iff_rank, Bool.not_eq_true])
    eq_iff_rank

end ProducerElectedInfo

-- ---------------------------------------------------------------------------
-- Keys of rows
-- ---------------------------------------------------------------------------

namespace ProducerInfo

/-- The votes are such that the row has a key. -/
def InRange (p : ProducerInfo) : Prop := 0 ≤ p.getElectedVotes ∧ p.getElectedVotes < int64Max

/-- `p` comes before `q` by votes and name. -/
def Outranks (p q : ProducerInfo) : Prop :=
  q.getElectedVotes < p.getElectedVotes ∨
    p.getElectedVotes = q.getElectedVotes ∧ p.owner < q.owner

/-- The key of the index and the comparison of records agree on two rows. -/
structure Agree (p q : ProducerInfo) : Prop where
  lt_iff : p.byElectedProd < q.byElectedProd ↔ p.getElectedInfo.gt q.getElectedInfo = true
  eq_iff : p.byElectedProd = q.byElectedProd ↔ p.getElectedInfo.eq q.getElectedInfo = true

variable {p q : ProducerInfo}

theorem getElectedInfo_gt_iff (p q : ProducerInfo) :
    p.getElectedInfo.gt q.getElectedInfo = true ↔ p.Outranks q := by
  rw [ProducerElectedInfo.gt_iff_rank, ProducerElectedInfo.rank_lt_iff]
  simp only [getElectedInfo, fillElectedInfo, lt_irrefl, false_or, true_and, Outranks]
  rw [eq_comm (a := q.getElectedVotes)]

theorem getElectedInfo_eq_iff (p q : ProducerInfo) :
    p.getElectedInfo.eq q.getElectedInfo = true ↔
      p.getElectedVotes = q.getElectedVotes ∧ p.owner = q.owner := by
  simp only [ProducerElectedInfo.eq_iff_rank, ProducerElectedInfo.rank, getElectedInfo,
    fillElectedInfo, toLex_inj, Prod.mk.injEq, OrderDual.toDual_inj, true_and]

/-- Among producers of one activity the index is sorted by votes and names. -/
theorem byElectedProd_lt_iff (hp : p.InRange) (hq : q.InRange) (ha : p.isActive = q.isActive) :
    p.byElectedProd < q.byElectedProd ↔ p.Outranks q := by
  obtain ⟨hp₀, hp₁⟩ := hp
  obtain ⟨hq₀, hq₁⟩ := hq
  simp only [int64Max] at hp₁ hq₁
  simp only [byElectedProd, electedKey, ha, Outranks, Fin.lt_def]
  cases q.isActive with
  | true => simp only [if_true]; omega
  | false => simp only [Bool.false_eq_true, if_false]; omega

theorem byElectedProd_lt_of_active (hp : p.InRange) (hq : q.InRange) (ha : p.isActive = true)
    (hi : q.isActive = false) : p.byElectedProd < q.byElectedProd := by
  obtain ⟨hp₀, hp₁⟩ := hp
  obtain ⟨hq₀, hq₁⟩ := hq
  simp only [int64Max] at hp₁ hq₁
  simp only [byElectedProd, electedKey, ha, hi, if_true, Bool.false_eq_true, if_false]
  omega

theorem byElectedProd_eq_iff (hp : p.InRange) (hq : q.InRange) (ha : p.isActive = q.isActive) :
    p.byElectedProd = q.byElectedProd ↔
      p.getElectedVotes = q.getElectedVotes ∧ p.owner = q.owner := by
  constructor
  · intro h
    have hpq := (byElectedProd_lt_iff hp hq ha).not.mp h.not_lt
    have hqp := (byElectedProd_lt_iff hq hp ha.symm).not.mp h.not_gt
    have ho := byElectedProd_inj h
    simp only [Outranks, ho, lt_irrefl, and_false, or_false, not_lt] at hpq hqp
    exact ⟨le_antisymm hpq hqp, ho⟩
  · rintro ⟨hv, ho⟩
    rw [byElectedProd, byElectedProd, hv, ho, ha]

theorem agree_of_active_eq (hp : p.InRange) (hq : q.InRange) (ha : p.isActive = q.isActive) :
    Agree p q where
  lt_iff := by rw [byElectedProd_lt_iff hp hq ha, getElectedInfo_gt_iff]
  eq_iff := by rw [byElectedProd_eq_iff hp hq ha, getElectedInfo_eq_iff]

theorem Outranks.asymm (h : p.Outranks q) : ¬ q.Outranks p := by
  rintro (hv | ⟨hv, ho⟩) <;> rcases h with hv' | ⟨hv', ho'⟩
  · exact lt_asymm hv hv'
  · omega
  · omega
  · exact lt_asymm ho ho'

theorem Outranks.ne (h : p.Outranks q) :
    ¬ (p.getElectedVotes = q.getElectedVotes ∧ p.owner = q.owner) := by
  rintro ⟨hv, ho⟩
  rcases h with hv' | ⟨-, ho'⟩
  · exact hv'.ne' hv
  · exact ho'.ne ho

theorem outranks_trichotomy (p q : ProducerInfo) :
    p.Outranks q ∨ (p.getElectedVotes = q.getElectedVotes ∧ p.owner = q.owner) ∨
      q.Outranks p := by
  rcases lt_trichotomy p.getElectedVotes q.getElectedVotes with hv | hv | hv
  · exact .inr (.inr (.inl hv))
  · rcases lt_trichotomy p.owner q.owner with ho | ho | ho
    · exact .inl (.inr ⟨hv, ho⟩)
    · exact .inr (.inl ⟨hv, ho⟩)
    · exact .inr (.inr (.inr ⟨hv.symm, ho⟩))
  · exact .inl (.inl hv)

/-- Between an active and an inactive producer the active one comes first in the index. -/
theorem agree_iff_of_active (hp : p.InRange) (hq : q.InRange) (ha : p.isActive = true)
    (hi : q.isActive = false) : Agree p q ↔ p.Outranks q := by
  have hlt := byElectedProd_lt_of_active hp hq ha hi
  constructor
  · intro h
    rw [← getElectedInfo_gt_iff]
    exact h.lt_iff.mp hlt
  · intro h
    refine ⟨?_, ?_⟩
    · rw [getElectedInfo_gt_iff]
      exact iff_of_true hlt h
    · rw [getElectedInfo_eq_iff]
      exact iff_of_false hlt.ne h.ne

theorem agree_iff_of_inactive (hp : p.InRange) (hq : q.InRange) (hi : p.isActive = false)
    (ha : q.isActive = true) : Agree p q ↔ q.Outranks p := by
  have hlt := byElectedProd_lt_of_active hq hp ha hi
  constructor
  · intro h
    have hgt : ¬ p.Outranks q := by
      rw [← getElectedInfo_gt_iff, ← h.lt_iff]
      exact hlt.not_gt
    have hne : ¬ (p.getElectedVotes = q.getElectedVotes ∧ p.owner = q.owner) := by
      rw [← getElectedInfo_eq_iff, ← h.eq_iff]
      exact hlt.ne'
    exact ((outranks_trichotomy p q).resolve_left hgt).resolve_left hne
  · intro h
    refine ⟨?_, ?_⟩
    · rw [getElectedInfo_gt_iff]
      exact iff_of_false hlt.not_gt h.asymm
    · rw [getElectedInfo_eq_iff]
      exact iff_of_false hlt.ne' fun ⟨hv, ho⟩ => h.ne ⟨hv.symm, ho.symm⟩

theorem agree_iff (hp : p.InRange) (hq : q.InRange) :
    Agree p q ↔ p.isActive = q.isActive ∨ p.isActive = true ∧ p.Outranks q ∨
      q.isActive = true ∧ q.Outranks p := by
  cases ha : p.isActive with
  | true =>
    cases hb : q.isActive with
    | true => simp [agree_of_active_eq hp hq (ha.trans hb.symm)]
    | false => simp [agree_iff_of_active hp hq ha hb]
  | false =>
    cases hb : q.isActive with
    | true => simp [agree_iff_of_inactive hp hq ha hb]
    | false => simp [agree_of_active_eq hp hq (ha.trans hb.symm)]

/-- Every row before `p` in the index is active and would come before `p` if `p` were. -/
def Unobscured (idx : List ProducerInfo) (p : ProducerInfo) : Prop :=
  ∀ q ∈ idx, q.byElectedProd < p.byElectedProd → q.isActive = true ∧ q.Outranks p

end ProducerInfo

-- ---------------------------------------------------------------------------
-- Looking a record up
-- ---------------------------------------------------------------------------

/-- Every row of the index has a key. -/
def Keyed (producers : Table ProducerInfo.owner) : Prop :=
  ∀ p ∈ producers.rows, p.indexed = true → p.InRange

section lookup

variable {producers : Table ProducerInfo.owner} {p q : ProducerInfo} {k : ℕ}

private theorem Keyed.inRange (h : Keyed producers) (hp : p ∈ electedProd producers) :
    p.InRange := by
  obtain ⟨hrow, hi⟩ := mem_electedProd.mp hp
  exact h p hrow hi

/-- A row is at the key of its record or after it. -/
theorem ProducerInfo.key_le_byElectedProd (hp : p.InRange) :
    p.getElectedInfo.key ≤ p.byElectedProd := by
  obtain ⟨hp₀, hp₁⟩ := hp
  simp only [int64Max] at hp₁
  simp only [ProducerElectedInfo.key, ProducerInfo.byElectedProd, electedKey,
    ProducerInfo.getElectedInfo, ProducerInfo.fillElectedInfo, if_true]
  cases p.isActive with
  | true => exact le_rfl
  | false => simp only [Bool.false_eq_true, if_false]; omega

/-- A row comes before the key of a record if it is active and outranks the producer. -/
theorem ProducerInfo.byElectedProd_lt_key_iff (hp : p.InRange) (hq : q.InRange) :
    q.byElectedProd < p.getElectedInfo.key ↔ q.isActive = true ∧ q.Outranks p := by
  have hkey : p.getElectedInfo.key = ({ p with isActive := true } : ProducerInfo).byElectedProd :=
    rfl
  cases ha : q.isActive with
  | true =>
    rw [hkey, byElectedProd_lt_iff hq (q := { p with isActive := true }) hp ha]
    exact ⟨fun h => ⟨rfl, h⟩, fun h => h.2⟩
  | false =>
    rw [hkey]
    have hlt := byElectedProd_lt_of_active (p := { p with isActive := true }) hp hq rfl ha
    exact iff_of_false hlt.not_gt nofun

private theorem sorted_electedProd (producers : Table ProducerInfo.owner) :
    (electedProd producers).Pairwise (fun a b => a.byElectedProd < b.byElectedProd) :=
  Table.index_sorted (distinct_byElectedProd producers)

/-- The record of a row is found at the row if and only if no other row is between the place
its producer would have if it were active and the row. -/
theorem getPosItr_eq_iff (h : Keyed producers) (hp : (electedProd producers)[k]? = some p) :
    QueueHelper.getPosItr (electedProd producers) p.getElectedInfo = .ok k ↔
      p.Unobscured (electedProd producers) := by
  have hrange := h.inRange (List.mem_of_getElem? hp)
  have hfind : ((electedProd producers).findIdx fun r =>
      p.getElectedInfo.key ≤ r.byElectedProd) = k ↔ p.Unobscured (electedProd producers) := by
    obtain ⟨hk, rfl⟩ := List.getElem?_eq_some_iff.mp hp
    have hpair := List.pairwise_iff_getElem.mp (sorted_electedProd producers)
    rw [List.findIdx_eq hk]
    simp only [decide_eq_true_eq, decide_eq_false_iff_not, not_le]
    constructor
    · rintro ⟨-, hbefore⟩ q hq hlt
      obtain ⟨l, hl, rfl⟩ := List.getElem_of_mem hq
      have hlk : l < k := by
        by_contra hnot
        rcases (not_lt.mp hnot).lt_or_eq with hkl | rfl
        · exact lt_asymm hlt (hpair k l hk hl hkl)
        · exact lt_irrefl _ hlt
      exact (ProducerInfo.byElectedProd_lt_key_iff hrange (h.inRange hq)).mp (hbefore l hlk)
    · intro hun
      refine ⟨ProducerInfo.key_le_byElectedProd hrange, fun l hl => ?_⟩
      have hmem := List.getElem_mem (hl.trans hk)
      exact (ProducerInfo.byElectedProd_lt_key_iff hrange (h.inRange hmem)).mpr
        (hun _ hmem (hpair l k (hl.trans hk) hk hl))
  rw [← hfind]
  constructor
  · intro hok
    simp only [QueueHelper.getPosItr, Except.bind_ok_iff, check_ok_iff, exists_const] at hok
    obtain ⟨-, hok⟩ := hok
    split at hok
    · cases hok
    · simp only [Except.bind_ok_iff, check_ok_iff, exists_const, Except.pure_ok_iff] at hok
      exact hok.2.2
  · intro hpos
    simp only [QueueHelper.getPosItr, Except.bind_ok_iff, check_ok_iff, exists_const]
    refine ⟨hrange, ?_⟩
    rw [show ((electedProd producers).findIdx fun r => electedKey p.getElectedInfo.name
      p.getElectedInfo.isActive p.getElectedInfo.electedVotes ≤ r.byElectedProd) = k from hpos, hp]
    simp only [Except.bind_ok_iff, check_ok_iff, exists_const, Except.pure_ok_iff]
    exact ⟨rfl, rfl, trivial⟩

end lookup

/-- The key and the comparison agree on two rows if and only if the two have the same activity or
the active one also outranks the other. The operators are those of one strict total order, and
the lookup of the record of a row finds the row if and only if activity puts no other before it. -/
theorem keys_match_comparison (p : ProducerInfo) (hp : p.InRange) :
    (∀ q : ProducerInfo, q.InRange →
      (p.Agree q ↔ p.isActive = q.isActive ∨ p.isActive = true ∧ p.Outranks q ∨
        q.isActive = true ∧ q.Outranks p)) ∧
    StrictTotal ProducerElectedInfo.lt ProducerElectedInfo.gt ProducerElectedInfo.le
      ProducerElectedInfo.ge ProducerElectedInfo.eq ∧
    ∀ producers, Keyed producers → ∀ k, (electedProd producers)[k]? = some p →
      (QueueHelper.getPosItr (electedProd producers) p.getElectedInfo = .ok k ↔
        p.Unobscured (electedProd producers)) :=
  ⟨fun _ hq => ProducerInfo.agree_iff hp hq, ProducerElectedInfo.strictTotal,
    fun _ h _ hk => getPosItr_eq_iff h hk⟩

/-- A producer with elected votes, active or not. -/
def candidate (owner : Name) (isActive : Bool) (votes : ℤ) : ProducerInfo where
  owner
  isActive
  lastClaimedTime := 0
  unclaimedRewards := .none
  producerAuthority := .none
  ext := some ⟨votes, 0⟩
  indexed := true

theorem keys_match_comparison_active :
    (candidate 1 true 5).Agree (candidate 2 true 3) ∧
      QueueHelper.getPosItr (electedProd ((Table.empty.set (candidate 1 true 5)).set
        (candidate 2 false 3))) (candidate 2 false 3).getElectedInfo = .ok 1 := by
  refine ⟨((keys_match_comparison _ ⟨by decide, by decide⟩).1 _ ⟨by decide, by decide⟩).mpr
    (.inl rfl), ((keys_match_comparison _ ⟨by decide, by decide⟩).2.2 _ ?_ _ rfl).mpr ?_⟩
  · simp only [Keyed, ProducerInfo.InRange]
    decide
  · simp only [ProducerInfo.Unobscured, ProducerInfo.Outranks]
    decide

/-- An inactive producer with more votes than an active one follows it in the index, but its
record is larger, and is not found. -/
theorem keys_mismatch_inactive :
    ¬ (candidate 1 false 5).Agree (candidate 2 true 3) ∧
      QueueHelper.getPosItr (electedProd ((Table.empty.set (candidate 1 false 5)).set
        (candidate 2 true 3))) (candidate 1 false 5).getElectedInfo =
          .error ⟨.queue, "producer elected position not found"⟩ := by
  refine ⟨fun h => ?_, by decide +kernel⟩
  exact absurd (h.lt_iff.mpr (by decide)) (by decide)

end Amax
