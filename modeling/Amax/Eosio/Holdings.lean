-- SUMMARY: The two tables of a token contract: balances by account and symbol code, supplies by symbol code, and the gap between them.
import Amax.Base.Table
import Amax.Eosio.Types
import Mathlib.Data.Prod.Lex
import Mathlib.Data.List.Lex
import Mathlib.Data.Char
import Mathlib.Algebra.Group.Pi.Basic

/-! # Holdings

A token contract keeps one row for each account and symbol code, and one row
for each currency. What is written here holds of any row types from which an
owner, a balance and a supply can be read. While an action is under way the
balances of a currency may differ from its supply; the difference is its gap. -/

namespace Amax

section Holdings

variable {ν σ : Type} (owner : ν → Name) (balance : ν → Asset) (supply : σ → Asset)

-- ---------------------------------------------------------------------------
-- Tables
-- ---------------------------------------------------------------------------

/-- The rows of `accounts`, whose scope is an account and whose key a symbol code. -/
abbrev Holdings := Table fun r : ν => toLex (owner r, (balance r).symbol.code)

/-- The rows of `stat`, whose key is a symbol code. -/
abbrev Currencies := Table fun u : σ => (supply u).symbol.code

variable {owner balance supply}

/-- The sum of all balances of a symbol code. -/
def Holdings.held (t : Holdings owner balance) (code : List Char) : ℤ :=
  t.sum fun r => if (balance r).symbol.code = code then (balance r).amount else 0

/-- What an account holds of a symbol code; a missing row counts as zero. -/
def Holdings.amount (t : Holdings owner balance) (n : Name) (code : List Char) : ℤ :=
  ((t.find? (toLex (n, code))).map fun r => (balance r).amount).getD 0

/-- The supply of a symbol code; a missing currency counts as zero. -/
def Currencies.supplied (t : Currencies supply) (code : List Char) : ℤ :=
  ((t.find? code).map fun u => (supply u).amount).getD 0

/-- Every balance is one of a currency, and the balances of each currency differ
from its supply by its gap. -/
structure Circulates (accounts : Holdings owner balance) (stats : Currencies supply)
    (gap : List Char → ℤ) : Prop where
  issued : ∀ r ∈ accounts.rows, ∃ u ∈ stats.rows, (supply u).symbol = (balance r).symbol
  nonneg : ∀ r ∈ accounts.rows, 0 ≤ (balance r).amount
  held : ∀ u ∈ stats.rows,
    accounts.held (supply u).symbol.code =
      (supply u).amount + gap (supply u).symbol.code

-- ---------------------------------------------------------------------------
-- Amounts and sums
-- ---------------------------------------------------------------------------

variable {accounts : Holdings owner balance} {stats : Currencies supply} {gap : List Char → ℤ}
variable {r r₀ : ν} {u u₀ : σ} {d : ℤ}

namespace Holdings

theorem amount_set (n : Name) (code : List Char) :
    amount (accounts.set r) n code =
      if owner r = n ∧ (balance r).symbol.code = code then (balance r).amount
      else accounts.amount n code := by
  unfold amount
  rw [Table.find?_set]
  by_cases h : owner r = n ∧ (balance r).symbol.code = code
  · rw [if_pos h, if_pos (by rw [h.1, h.2])]
    rfl
  · rw [if_neg h, if_neg fun e => h (Prod.mk.inj (toLex_inj.mp e))]

/-- The row that takes the place of another one has its key. -/
private theorem find?_key {n : Name} {code : List Char}
    (h : accounts.find? (toLex (n, code)) = some r₀) (howner : owner r = owner r₀)
    (hsym : (balance r).symbol = (balance r₀).symbol) :
    owner r = n ∧ (balance r).symbol.code = code := by
  have hkey := Table.key_of_find? h
  obtain ⟨hn, hcode⟩ := Prod.mk.inj (toLex_inj.mp hkey)
  exact ⟨howner.trans hn, by rw [hsym, hcode]⟩

/-- A row that takes the place of another one of its owner and symbol. -/
theorem amount_set_row {n : Name} {code : List Char}
    (h : accounts.find? (toLex (n, code)) = some r₀) (howner : owner r = owner r₀)
    (hsym : (balance r).symbol = (balance r₀).symbol)
    (hd : (balance r).amount = (balance r₀).amount + d) (m : Name) (c : List Char) :
    amount (accounts.set r) m c = accounts.amount m c + if n = m ∧ code = c then d else 0 := by
  obtain ⟨rfl, rfl⟩ := find?_key h howner hsym
  rw [amount_set]
  split_ifs with hc
  · obtain ⟨rfl, rfl⟩ := hc
    simp [amount, h, hd]
  · exact (add_zero _).symm

theorem amount_set_new (h : accounts.find? (toLex (owner r, (balance r).symbol.code)) = none)
    (n : Name) (code : List Char) :
    amount (accounts.set r) n code = accounts.amount n code +
      if owner r = n ∧ (balance r).symbol.code = code then (balance r).amount else 0 := by
  rw [amount_set]
  split_ifs with hc
  · obtain ⟨rfl, rfl⟩ := hc
    simp [amount, h]
  · exact (add_zero _).symm

theorem amount_erase {n m : Name} {code c : List Char}
    (h : accounts.find? (toLex (m, c)) = some r) (hzero : (balance r).amount = 0) :
    amount (accounts.erase (toLex (m, c))) n code = accounts.amount n code := by
  unfold amount
  rw [Table.find?_erase]
  split_ifs with hk
  · rw [hk, h]
    exact hzero.symm
  · rfl

theorem amount_nonneg (h : ∀ r ∈ accounts.rows, 0 ≤ (balance r).amount) (n : Name)
    (code : List Char) : 0 ≤ accounts.amount n code := by
  unfold amount
  cases hr : accounts.find? (toLex (n, code)) with
  | none => exact le_rfl
  | some r => exact h r (Table.mem_of_find? hr)

/-- A balance is a part of what is held. -/
theorem amount_le_held (h : ∀ r ∈ accounts.rows, 0 ≤ (balance r).amount) (n : Name)
    (code : List Char) : accounts.amount n code ≤ accounts.held code := by
  have hterm : ∀ r ∈ accounts.rows,
      0 ≤ if (balance r).symbol.code = code then (balance r).amount else 0 := by
    intro r hr
    split_ifs
    · exact h r hr
    · exact le_rfl
  unfold amount
  cases hr : accounts.find? (toLex (n, code)) with
  | none => exact Table.sum_nonneg hterm
  | some r =>
    have hkey := Table.key_of_find? hr
    have hcode : (balance r).symbol.code = code := (Prod.mk.inj (toLex_inj.mp hkey)).2
    have hle := Table.le_sum_of_mem hterm (Table.mem_of_find? hr)
    rwa [if_pos hcode] at hle

/-- Two balances are apart. -/
theorem amount_add_le_held (h : ∀ r ∈ accounts.rows, 0 ≤ (balance r).amount) {n m : Name}
    (hne : n ≠ m) (code : List Char) :
    accounts.amount n code + accounts.amount m code ≤ accounts.held code := by
  cases hr : accounts.find? (toLex (n, code)) with
  | none =>
    have hzero : accounts.amount n code = 0 := by simp [amount, hr]
    rw [hzero, zero_add]
    exact amount_le_held h m code
  | some r =>
    have hkey := Table.key_of_find? hr
    have hcode : (balance r).symbol.code = code := (Prod.mk.inj (toLex_inj.mp hkey)).2
    have hn : accounts.amount n code = (balance r).amount := by simp [amount, hr]
    have hm : amount (accounts.erase (toLex (n, code))) m code = accounts.amount m code := by
      unfold amount
      rw [Table.find?_erase, if_neg fun e => hne (Prod.mk.inj (toLex_inj.mp e)).1.symm]
    have hheld : held (accounts.erase (toLex (n, code))) code =
        accounts.held code - (balance r).amount := by
      unfold held
      rw [Table.sum_erase_of_find? hr, if_pos hcode]
    have hrest : ∀ r ∈ (accounts.erase (toLex (n, code))).rows, 0 ≤ (balance r).amount :=
      fun r hr => h r (Table.mem_erase.mp hr).1
    have hle := amount_le_held hrest m code
    rw [hm, hheld] at hle
    omega

/-- A row that takes the place of another one of its owner and symbol. -/
theorem held_set {n : Name} {code : List Char}
    (h : accounts.find? (toLex (n, code)) = some r₀) (howner : owner r = owner r₀)
    (hsym : (balance r).symbol = (balance r₀).symbol)
    (hd : (balance r).amount = (balance r₀).amount + d) (c : List Char) :
    held (accounts.set r) c = accounts.held c +
      (Pi.single (M := fun _ => ℤ) code d : List Char → ℤ) c := by
  obtain ⟨rfl, rfl⟩ := find?_key h howner hsym
  unfold held
  rw [Table.sum_set_of_find? h, hsym]
  by_cases hc : (balance r₀).symbol.code = c
  · subst hc
    simp only [if_true, Pi.single_eq_same, hd]
    ring
  · rw [if_neg hc, if_neg hc, Pi.single_eq_of_ne (Ne.symm hc)]
    ring

theorem held_set_new (h : accounts.find? (toLex (owner r, (balance r).symbol.code)) = none)
    (code : List Char) :
    held (accounts.set r) code = accounts.held code +
      (Pi.single (M := fun _ => ℤ) (balance r).symbol.code (balance r).amount :
        List Char → ℤ) code := by
  unfold held
  rw [Table.sum_set_of_none h]
  by_cases hc : (balance r).symbol.code = code
  · subst hc
    rw [if_pos rfl, Pi.single_eq_same]
  · rw [if_neg hc, Pi.single_eq_of_ne (Ne.symm hc)]

theorem held_erase {n : Name} {c : List Char} (h : accounts.find? (toLex (n, c)) = some r)
    (hzero : (balance r).amount = 0) (code : List Char) :
    held (accounts.erase (toLex (n, c))) code = accounts.held code := by
  unfold held
  rw [Table.sum_erase_of_find? h, hzero]
  simp

end Holdings

theorem Currencies.supplied_set {code : List Char} (h : stats.find? code = some u₀)
    (hsym : (supply u).symbol = (supply u₀).symbol)
    (hd : (supply u).amount = (supply u₀).amount + d) (c : List Char) :
    supplied (stats.set u) c = stats.supplied c + if code = c then d else 0 := by
  have hkey : (supply u).symbol.code = code := by rw [hsym, Table.key_of_find? h]
  unfold supplied
  rw [Table.find?_set, hkey]
  split_ifs with hc
  · subst hc
    simp [h, hd]
  · exact (add_zero _).symm

-- ---------------------------------------------------------------------------
-- What keeps the balances and the supplies together
-- ---------------------------------------------------------------------------

namespace Circulates

theorem empty :
    Circulates (Table.empty : Holdings owner balance) (Table.empty : Currencies supply) 0 where
  issued _ h := nomatch h
  nonneg _ h := nomatch h
  held _ h := nomatch h

/-- The currency of a balance. -/
theorem find?_currency (h : Circulates accounts stats gap) (hr : r ∈ accounts.rows)
    (hu : stats.find? (balance r).symbol.code = some u) :
    (supply u).symbol = (balance r).symbol := by
  obtain ⟨u', hu', hsym⟩ := h.issued r hr
  have hfind := Table.find?_of_mem hu'
  rw [hsym, hu] at hfind
  rw [Option.some.inj hfind, hsym]

/-- Nothing is held of a symbol code without a currency. -/
theorem held_eq_zero (h : Circulates accounts stats gap) {code : List Char}
    (hnone : stats.find? code = none) : accounts.held code = 0 := by
  refine Table.sum_eq_zero fun r hr => if_neg fun hc => ?_
  obtain ⟨u, hu, hsym⟩ := h.issued r hr
  exact Table.find?_eq_none_iff.mp hnone u hu (by rw [hsym, hc])

theorem held_eq_supplied (h : Circulates accounts stats 0) (code : List Char) :
    accounts.held code = stats.supplied code := by
  unfold Currencies.supplied
  cases hu : stats.find? code with
  | none => exact h.held_eq_zero hu
  | some u =>
    have := h.held u (Table.mem_of_find? hu)
    rw [Table.key_of_find? hu] at this
    simpa using this

theorem congr {gap' : List Char → ℤ} (h : Circulates accounts stats gap) (hgap : gap = gap') :
    Circulates accounts stats gap' :=
  hgap ▸ h

/-- Two changes that make up for each other leave no gap. -/
theorem settled {code : List Char} {x y : ℤ}
    (h : Circulates accounts stats (gap + Pi.single code x + Pi.single code y))
    (hxy : x + y = 0) : Circulates accounts stats gap := by
  refine h.congr (funext fun c => ?_)
  by_cases hc : c = code
  · subst hc
    simp only [Pi.add_apply, Pi.single_eq_same]
    omega
  · simp [Pi.single_eq_of_ne hc]

/-- A new currency that nobody holds. -/
theorem create (h : Circulates accounts stats gap)
    (hnone : stats.find? (supply u).symbol.code = none)
    (hgap : (supply u).amount + gap (supply u).symbol.code = 0) :
    Circulates accounts (stats.set u) gap where
  issued r hr := by
    obtain ⟨u', hu', hsym⟩ := h.issued r hr
    refine ⟨u', Table.mem_set.mpr (.inr ⟨hu', fun e => ?_⟩), hsym⟩
    exact Table.find?_eq_none_iff.mp hnone u' hu' e
  nonneg := h.nonneg
  held u' hu' := by
    rcases Table.mem_set.mp hu' with rfl | ⟨hu', -⟩
    · rw [h.held_eq_zero hnone, hgap]
    · exact h.held u' hu'

/-- A change of a supply opens a gap. -/
theorem supplied {code : List Char} (h : Circulates accounts stats gap)
    (hrow : stats.find? code = some u₀) (hsym : (supply u).symbol = (supply u₀).symbol)
    (hd : (supply u).amount = (supply u₀).amount + d) :
    Circulates accounts (stats.set u) (gap + Pi.single code (-d)) := by
  have hkey : (supply u).symbol.code = code := by rw [hsym, Table.key_of_find? hrow]
  subst hkey
  refine ⟨fun r hr => ?_, h.nonneg, fun u' hu' => ?_⟩
  · obtain ⟨u', hu', hsym'⟩ := h.issued r hr
    by_cases he : (supply u').symbol.code = (supply u).symbol.code
    · refine ⟨u, Table.mem_set.mpr (.inl rfl), ?_⟩
      have hfind := Table.find?_of_mem hu'
      rw [he, hrow] at hfind
      rw [hsym, Option.some.inj hfind, hsym']
    · exact ⟨u', Table.mem_set.mpr (.inr ⟨hu', he⟩), hsym'⟩
  · rcases Table.mem_set.mp hu' with rfl | ⟨hu', hne⟩
    · have := h.held u₀ (Table.mem_of_find? hrow)
      rw [← hsym] at this
      rw [Pi.add_apply, Pi.single_eq_same, this, hd]
      ring
    · rw [Pi.add_apply, Pi.single_eq_of_ne hne, h.held u' hu', add_zero]

/-- A currency whose row changes in other fields only. -/
theorem modified {code : List Char} (h : Circulates accounts stats gap)
    (hrow : stats.find? code = some u₀) (hsame : supply u = supply u₀) :
    Circulates accounts (stats.set u) gap :=
  (h.supplied (d := 0) hrow (by rw [hsame]) (by rw [hsame, add_zero])).congr (by simp)

/-- A balance that changes opens a gap the other way. -/
theorem changed {n : Name} {code : List Char} (h : Circulates accounts stats gap)
    (hrow : accounts.find? (toLex (n, code)) = some r₀) (howner : owner r = owner r₀)
    (hsym : (balance r).symbol = (balance r₀).symbol)
    (hd : (balance r).amount = (balance r₀).amount + d) (hnonneg : 0 ≤ (balance r).amount) :
    Circulates (accounts.set r) stats (gap + Pi.single code d) where
  issued r' hr' := by
    rcases Table.mem_set.mp hr' with rfl | ⟨hr', -⟩
    · rw [hsym]
      exact h.issued r₀ (Table.mem_of_find? hrow)
    · exact h.issued r' hr'
  nonneg r' hr' := by
    rcases Table.mem_set.mp hr' with rfl | ⟨hr', -⟩
    · exact hnonneg
    · exact h.nonneg r' hr'
  held u' hu' := by
    rw [Holdings.held_set hrow howner hsym hd, h.held u' hu', Pi.add_apply, add_assoc]

/-- A row whose other fields change. -/
theorem touched {n : Name} {code : List Char} (h : Circulates accounts stats gap)
    (hrow : accounts.find? (toLex (n, code)) = some r₀) (howner : owner r = owner r₀)
    (hsame : balance r = balance r₀) : Circulates (accounts.set r) stats gap :=
  (h.changed (d := 0) hrow howner (by rw [hsame]) (by rw [hsame, add_zero])
    (hsame ▸ h.nonneg r₀ (Table.mem_of_find? hrow))).congr (by simp)

/-- A new row of a currency. -/
theorem opened (h : Circulates accounts stats gap)
    (hnone : accounts.find? (toLex (owner r, (balance r).symbol.code)) = none)
    (hu : u ∈ stats.rows) (hsym : (supply u).symbol = (balance r).symbol)
    (hnonneg : 0 ≤ (balance r).amount) :
    Circulates (accounts.set r) stats
      (gap + Pi.single (balance r).symbol.code (balance r).amount) where
  issued r' hr' := by
    rcases Table.mem_set.mp hr' with rfl | ⟨hr', -⟩
    · exact ⟨u, hu, hsym⟩
    · exact h.issued r' hr'
  nonneg r' hr' := by
    rcases Table.mem_set.mp hr' with rfl | ⟨hr', -⟩
    · exact hnonneg
    · exact h.nonneg r' hr'
  held u' hu' := by
    rw [Holdings.held_set_new hnone, h.held u' hu', Pi.add_apply, add_assoc]

/-- An empty row that goes. -/
theorem closed (h : Circulates accounts stats gap) {n : Name} {code : List Char}
    (hrow : accounts.find? (toLex (n, code)) = some r) (hzero : (balance r).amount = 0) :
    Circulates (accounts.erase (toLex (n, code))) stats gap where
  issued r' hr' := h.issued r' (Table.mem_erase.mp hr').1
  nonneg r' hr' := h.nonneg r' (Table.mem_erase.mp hr').1
  held u' hu' := by rw [Holdings.held_erase hrow hzero, h.held u' hu']

end Circulates

end Holdings

end Amax
