-- SUMMARY: Chain primitives the contracts are written with: names, symbols, assets, time points, machine words and failing checks.
import Amax.Base.Run
import Mathlib.Data.Int.DivMod
import Mathlib.Data.Fin.Basic
import Mathlib.Order.Fin.Basic
import Mathlib.Tactic.Linarith

/-! # Chain primitives

Account names, assets and times as the contract library defines them, and
checks that abort the whole action. -/

namespace Amax

-- ---------------------------------------------------------------------------
-- Checks
-- ---------------------------------------------------------------------------

/-- The part of the code a failed check stands in. -/
inductive Site where
  /-- The checks of an action and of the helpers it calls. -/
  | action
  /-- Asset arithmetic: symbols and the range of amounts. -/
  | asset
  /-- The tally of elected votes is not negative. -/
  | tally
  /-- `process_elected_producer` and `queue_helper`. -/
  | queue
  /-- `producer_change_helper`. -/
  | change
  /-- An action sent to another contract. -/
  | sent
  /-- The share of the voters in a claim. -/
  | share
  /-- `allocate_producer_rewards` and the two `calc_` functions of the reward contract. -/
  | accrual
  /-- The fee of a transfer. -/
  | fee
  /-- The stake of the RAM market is not negative. -/
  | stake
  deriving DecidableEq

/-- Why an action was aborted. -/
structure Abort where
  site : Site
  message : String
  deriving DecidableEq

abbrev Result := Except Abort

/-- Why a computation was aborted, if it was. -/
def abortOf {α : Type} : Result α → Option Abort
  | .ok _ => none
  | .error e => some e

theorem abortOf_eq_none_iff {α : Type} {r : Result α} : abortOf r = none ↔ ∃ a, r = .ok a := by
  cases r <;> simp [abortOf]

/-- `check`, `CHECK` and `ASSERT`: abort the action unless `c` holds. -/
def check (site : Site) (c : Prop) [Decidable c] (message : String) : Result Unit :=
  if c then .ok () else .error ⟨site, message⟩

theorem check_ok_iff {site : Site} {c : Prop} [Decidable c] {m : String} {u : Unit} :
    check site c m = .ok u ↔ c := by
  unfold check
  split_ifs with h <;> simp [h]

theorem check_error_iff {site : Site} {c : Prop} [Decidable c] {m : String} {e : Abort} :
    check site c m = .error e ↔ ¬c ∧ e = ⟨site, m⟩ := by
  unfold check
  split_ifs with h <;> simp [h, eq_comm]

theorem check_of {site : Site} {c : Prop} [Decidable c] {m : String} (h : c) :
    check site c m = .ok () :=
  if_pos h

theorem check_bind_of_not {α : Type} {site : Site} {c : Prop} [Decidable c] {m : String}
    {f : Unit → Result α} (h : ¬c) : (check site c m >>= f) = .error ⟨site, m⟩ := by
  rw [check, if_neg h]
  rfl

-- ---------------------------------------------------------------------------
-- Where a computation can fail
-- ---------------------------------------------------------------------------

/-- No check at `site` stops the computation. -/
def Avoids {α : Type} (site : Site) (r : Result α) : Prop := ∀ e, r = .error e → e.site ≠ site

namespace Avoids

variable {α β : Type} {site : Site} {r : Result α}

theorem ok (a : α) : Avoids site (.ok a : Result α) := nofun

theorem error {e : Abort} (h : e.site ≠ site) : Avoids site (.error e : Result α) := by
  intro e' he'
  obtain rfl : e = e' := Except.error.inj he'
  exact h

theorem bind {f : α → Result β} (h : Avoids site r) (hf : ∀ a, r = .ok a → Avoids site (f a)) :
    Avoids site (r >>= f) := by
  intro e he
  rcases Except.bind_error_iff.mp he with he | ⟨a, ha, he⟩
  · exact h e he
  · exact hf a ha e he

theorem ite {c : Prop} [Decidable c] {r' : Result α} (h : Avoids site r) (h' : Avoids site r') :
    Avoids site (if c then r else r') := by
  split_ifs
  · exact h
  · exact h'

/-- A check at another site. -/
theorem check {s : Site} {c : Prop} [Decidable c] {m : String} (hs : s ≠ site) :
    Avoids site (Amax.check s c m) := by
  intro e he
  rw [(check_error_iff.mp he).2]
  exact hs

/-- A check at another site, after which the checked condition holds. -/
theorem check_bind {s : Site} {c : Prop} [Decidable c] {m : String} {f : Unit → Result β}
    (hs : s ≠ site) (hf : c → Avoids site (f ())) : Avoids site (Amax.check s c m >>= f) :=
  bind (check hs) fun _ h => hf (check_ok_iff.mp h)

/-- A check at this site that never fails. -/
theorem checked_bind {s : Site} {c : Prop} [Decidable c] {m : String} {f : Unit → Result β}
    (hc : c) (hf : Avoids site (f ())) : Avoids site (Amax.check s c m >>= f) :=
  bind (by rw [check_of hc]; exact ok ()) fun _ _ => hf

end Avoids

/-- The computation succeeds with a value that satisfies `P`. -/
def Yields {α : Type} (r : Result α) (P : α → Prop) : Prop := ∃ a, r = .ok a ∧ P a

namespace Yields

variable {α β : Type} {r : Result α} {P : α → Prop}

theorem ok {a : α} (h : P a) : Yields (.ok a : Result α) P := ⟨a, rfl, h⟩

theorem bind {f : α → Result β} {Q : β → Prop} (h : Yields r P) (hf : ∀ a, P a → Yields (f a) Q) :
    Yields (r >>= f) Q := by
  obtain ⟨a, rfl, ha⟩ := h
  exact hf a ha

theorem ite {c : Prop} [Decidable c] {r' : Result α} (h : c → Yields r P) (h' : ¬c → Yields r' P) :
    Yields (if c then r else r') P := by
  split_ifs with hc
  · exact h hc
  · exact h' hc

theorem check {s : Site} {c : Prop} [Decidable c] {m : String} {f : Unit → Result β} {Q : β → Prop}
    (hc : c) (hf : Yields (f ()) Q) : Yields (Amax.check s c m >>= f) Q := by
  rw [check_of hc]
  exact hf

theorem mono {Q : α → Prop} (h : Yields r P) (hPQ : ∀ a, P a → Q a) : Yields r Q := by
  obtain ⟨a, ha, hP⟩ := h
  exact ⟨a, ha, hPQ a hP⟩

end Yields

/-- If the computation succeeds, its value satisfies `P`. -/
def Ensures {α : Type} (r : Result α) (P : α → Prop) : Prop := ∀ a, r = .ok a → P a

namespace Ensures

variable {α β : Type} {r : Result α} {P : α → Prop}

theorem ok {a : α} (h : P a) : Ensures (.ok a : Result α) P := by
  intro b hb
  exact Except.ok.inj hb ▸ h

theorem error (e : Abort) : Ensures (.error e : Result α) P := nofun

theorem bind {f : α → Result β} {Q : β → Prop} (h : Ensures r P)
    (hf : ∀ a, P a → Ensures (f a) Q) : Ensures (r >>= f) Q := by
  intro b hb
  obtain ⟨a, ha, hb⟩ := Except.bind_ok_iff.mp hb
  exact hf a (h a ha) b hb

/-- The first value is the one the computation gives. -/
theorem bind_eq {f : α → Result β} {Q : β → Prop} (hf : ∀ a, r = .ok a → Ensures (f a) Q) :
    Ensures (r >>= f) Q :=
  bind (P := (r = .ok ·)) (fun _ h => h) hf

theorem ite {c : Prop} [Decidable c] {r' : Result α} (h : c → Ensures r P)
    (h' : ¬c → Ensures r' P) : Ensures (if c then r else r') P := by
  split_ifs with hc
  · exact h hc
  · exact h' hc

theorem check {s : Site} {c : Prop} [Decidable c] {m : String} {f : Unit → Result β} {Q : β → Prop}
    (hf : c → Ensures (f ()) Q) : Ensures (Amax.check s c m >>= f) Q :=
  bind_eq fun _ h => hf (check_ok_iff.mp h)

theorem mono {Q : α → Prop} (h : Ensures r P) (hPQ : ∀ a, P a → Q a) : Ensures r Q :=
  fun a ha => hPQ a (h a ha)

theorem of_yields (h : Yields r P) : Ensures r P := by
  intro a ha
  obtain ⟨b, hb, hP⟩ := h
  exact Except.ok.inj (hb.symm.trans ha) ▸ hP

/-- What every round of a fold keeps holds of what it gives. -/
theorem foldlM {f : β → α → Result β} {I : β → Prop} (hf : ∀ b a, I b → Ensures (f b a) I) {b : β}
    (h : I b) (as : List α) : Ensures (as.foldlM f b) I := by
  induction as generalizing b with
  | nil => exact .ok h
  | cons a as ih =>
    rw [List.foldlM_cons]
    exact .bind (hf b a h) fun _ h' => ih h'

theorem and_yields {Q : α → Prop} (h : Ensures r P) (hq : Yields r Q) :
    Yields r fun a => P a ∧ Q a := by
  obtain ⟨a, ha, hQ⟩ := hq
  exact ⟨a, ha, h a ha, hQ⟩

end Ensures

/-- No check of the elections stops the computation, and the value it gives satisfies `P`. -/
def Safe {α : Type} (r : Result α) (P : α → Prop) : Prop :=
  match r with
  | .ok a => P a
  | .error e => e.site ≠ .queue ∧ e.site ≠ .change

namespace Safe

variable {α β : Type} {r : Result α} {P : α → Prop}

theorem ok {a : α} (h : P a) : Safe (.ok a : Result α) P := h

theorem error {e : Abort} (hq : e.site ≠ .queue) (hc : e.site ≠ .change) :
    Safe (.error e : Result α) P := ⟨hq, hc⟩

theorem bind {f : α → Result β} {Q : β → Prop} (h : Safe r P) (hf : ∀ a, P a → Safe (f a) Q) :
    Safe (r >>= f) Q := by
  cases r with
  | error e => exact h
  | ok a => exact hf a h

theorem ite {c : Prop} [Decidable c] {r' : Result α} (h : c → Safe r P) (h' : ¬c → Safe r' P) :
    Safe (if c then r else r') P := by
  split_ifs with hc
  · exact h hc
  · exact h' hc

/-- A check of something else, after which the checked condition holds. -/
theorem check {s : Site} {c : Prop} [Decidable c] {m : String} {f : Unit → Result β} {Q : β → Prop}
    (hs : s ≠ .queue ∧ s ≠ .change) (hf : c → Safe (f ()) Q) : Safe (Amax.check s c m >>= f) Q := by
  by_cases hc : c
  · rw [check_of hc]
    exact hf hc
  · rw [Amax.check, if_neg hc]
    exact hs

theorem mono {Q : α → Prop} (h : Safe r P) (hPQ : ∀ a, r = .ok a → P a → Q a) : Safe r Q := by
  cases r with
  | error e => exact h
  | ok a => exact hPQ a rfl h

theorem of_yields (h : Yields r P) : Safe r P := by
  obtain ⟨a, rfl, ha⟩ := h
  exact ha

theorem of_avoids (hq : Avoids .queue r) (hc : Avoids .change r) : Safe r (r = .ok ·) := by
  cases r with
  | error e => exact ⟨hq e rfl, hc e rfl⟩
  | ok a => rfl

theorem of_ok {a : α} (h : Safe r P) (hr : r = .ok a) : P a := by
  rw [hr] at h
  exact h

theorem avoids (h : Safe r P) : Avoids .queue r ∧ Avoids .change r := by
  cases r with
  | error e => exact ⟨.error h.1, .error h.2⟩
  | ok a => exact ⟨.ok a, .ok a⟩

theorem foldlM {f : β → α → Result β} {I : β → Prop} {P : β → α → Prop}
    (step : ∀ b a, I b → P b a → Safe (f b a) I) {b : β} {as : List α} (h : I b)
    (hP : Fold.Along f P b as) : Safe (as.foldlM f b) I := by
  induction as generalizing b with
  | nil => exact h
  | cons a as ih =>
    obtain ⟨ha, has⟩ := hP
    have hstep := step b a h ha
    rw [List.foldlM_cons]
    cases hf : f b a with
    | error e =>
      rw [hf] at hstep
      exact hstep
    | ok b' =>
      rw [hf] at hstep has
      exact ih hstep has

end Safe

/-- Two computations fail both, or succeed both with values that `Q` relates. -/
def Together {α β : Type} (r : Result α) (r' : Result β) (Q : α → β → Prop) : Prop :=
  (∃ e e', r = .error e ∧ r' = .error e') ∨ ∃ a b, r = .ok a ∧ r' = .ok b ∧ Q a b

namespace Together

variable {α α' β β' : Type} {r : Result α} {r' : Result α'} {P : α → α' → Prop}

theorem ok {a : α} {a' : α'} (h : P a a') : Together (.ok a : Result α) (.ok a' : Result α') P :=
  .inr ⟨a, a', rfl, rfl, h⟩

theorem error (e e' : Abort) : Together (.error e : Result α) (.error e' : Result α') P :=
  .inl ⟨e, e', rfl, rfl⟩

theorem bind {f : α → Result β} {f' : α' → Result β'} {Q : β → β' → Prop} (h : Together r r' P)
    (hf : ∀ a a', r = .ok a → r' = .ok a' → P a a' → Together (f a) (f' a') Q) :
    Together (r >>= f) (r' >>= f') Q := by
  rcases h with ⟨e, e', rfl, rfl⟩ | ⟨a, a', rfl, rfl, ha⟩
  · exact .error e e'
  · exact hf a a' rfl rfl ha

/-- Checks of one condition. -/
theorem check {s s' : Site} {c c' : Prop} [Decidable c] [Decidable c'] {m m' : String}
    {f : Unit → Result β} {f' : Unit → Result β'} {Q : β → β' → Prop} (hc : c ↔ c')
    (hf : c → c' → Together (f ()) (f' ()) Q) :
    Together (Amax.check s c m >>= f) (Amax.check s' c' m' >>= f') Q := by
  by_cases h : c
  · have h' := hc.mp h
    rw [check_of h, check_of h']
    exact hf h h'
  · have h' : ¬c' := fun h' => h (hc.mpr h')
    rw [check_bind_of_not h, check_bind_of_not h']
    exact .error _ _

theorem ite {c c' : Prop} [Decidable c] [Decidable c'] {q : Result α} {q' : Result α'}
    (hc : c ↔ c') (h : c → c' → Together r r' P) (h' : ¬c → ¬c' → Together q q' P) :
    Together (if c then r else q) (if c' then r' else q') P := by
  by_cases hp : c
  · rw [if_pos hp, if_pos (hc.mp hp)]
    exact h hp (hc.mp hp)
  · have hp' : ¬c' := fun h' => hp (hc.mpr h')
    rw [if_neg hp, if_neg hp']
    exact h' hp hp'

/-- One computation performed twice. -/
theorem refl (r : Result α) : Together r r fun a b => a = b := by
  cases r with
  | error e => exact .error e e
  | ok a => exact .ok rfl

theorem of_yields {P : α → Prop} {P' : α' → Prop} (h : Yields r P) (h' : Yields r' P') :
    Together r r' fun a a' => P a ∧ P' a' := by
  obtain ⟨a, ha, hP⟩ := h
  obtain ⟨a', ha', hP'⟩ := h'
  exact .inr ⟨a, a', ha, ha', hP, hP'⟩

/-- Neither succeeds without the other. -/
theorem of_iff (h : (∃ a, r = .ok a) ↔ ∃ a', r' = .ok a')
    (hP : ∀ a a', r = .ok a → r' = .ok a' → P a a') : Together r r' P := by
  cases hr : r with
  | ok a =>
    obtain ⟨a', hr'⟩ := h.mp ⟨a, hr⟩
    rw [hr']
    exact .ok (hP a a' hr hr')
  | error e =>
    cases hr' : r' with
    | ok a' =>
      obtain ⟨a, ha⟩ := h.mpr ⟨a', hr'⟩
      exact absurd (hr.symm.trans ha) nofun
    | error e' => exact .error e e'

theorem mono {Q : α → α' → Prop} (h : Together r r' P) (hPQ : ∀ a a', P a a' → Q a a') :
    Together r r' Q := by
  rcases h with ⟨e, e', he, he'⟩ | ⟨a, a', ha, ha', hP⟩
  · exact .inl ⟨e, e', he, he'⟩
  · exact .inr ⟨a, a', ha, ha', hPQ a a' hP⟩

end Together

/-- The computation gives `a`, unless an amount leaves its range. -/
def UpToRange {α : Type} (r : Result α) (a : α) : Prop :=
  (∃ e, r = .error e ∧ e.site = .asset) ∨ r = .ok a

namespace UpToRange

variable {α β : Type} {r : Result α} {a : α}

theorem ok (a : α) : UpToRange (.ok a : Result α) a := .inr rfl

theorem bind {f : α → Result β} {b : β} (h : UpToRange r a) (hf : UpToRange (f a) b) :
    UpToRange (r >>= f) b := by
  rcases h with ⟨e, rfl, he⟩ | rfl
  · exact .inl ⟨e, rfl, he⟩
  · exact hf

theorem check {site : Site} {c : Prop} [Decidable c] {m : String} {f : Unit → Result β} {b : β}
    (h : c) (hf : UpToRange (f ()) b) : UpToRange (check site c m >>= f) b :=
  bind (a := ()) (.inr (check_of h)) hf

theorem eq_of_ok (h : UpToRange r a) {b : α} (hb : r = .ok b) : b = a := by
  rcases h with ⟨e, he, -⟩ | h
  · simp [hb] at he
  · simpa [hb] using h

theorem site_of_error (h : UpToRange r a) {e : Abort} (he : r = .error e) : e.site = .asset := by
  rcases h with ⟨e', he', hs⟩ | h
  · obtain rfl : e' = e := by simpa [he'] using he
    exact hs
  · simp [he] at h

theorem avoids (h : UpToRange r a) {site : Site} (hs : site ≠ .asset) : Avoids site r :=
  fun _ he => h.site_of_error he ▸ hs.symm

end UpToRange

-- ---------------------------------------------------------------------------
-- Machine words
-- ---------------------------------------------------------------------------

def int64Max : ℤ := 2 ^ 63 - 1

/-- The value of `x` stored in an `int64_t`. -/
def toInt64 (x : ℤ) : ℤ := Int.bmod x (2 ^ 64)

/-- The value of `x` stored in an `int128_t`. -/
def toInt128 (x : ℤ) : ℤ := Int.bmod x (2 ^ 128)

theorem toInt128_of_lt {x : ℤ} (h₀ : 0 ≤ x) (h : x < 2 ^ 127) : toInt128 x = x := by
  refine Int.bmod_eq_of_le ?_ ?_ <;> norm_num at h ⊢ <;> omega

-- ---------------------------------------------------------------------------
-- Names
-- ---------------------------------------------------------------------------

/-- An account name: a 64-bit number, printed in base 32. The name `0` is empty. -/
abbrev Name := Fin (2 ^ 64)

instance Name.instNeZero : NeZero (2 ^ 64) := ⟨by decide⟩

instance Name.instLawfulBEq : LawfulBEq Name := inferInstance

private def nameChars : List Char := ".12345abcdefghijklmnopqrstuvwxyz".toList

/-- `name::to_string`. -/
def nameToString (n : Name) : String :=
  let digit (i : ℕ) : ℕ := if i = 12 then n.val % 16 else n.val / 2 ^ (59 - 5 * i) % 32
  let chars := (List.range 13).map fun i => nameChars.getD (digit i) '.'
  String.ofList (chars.reverse.dropWhile (· = '.')).reverse

-- ---------------------------------------------------------------------------
-- Symbols and assets
-- ---------------------------------------------------------------------------

/-- A token symbol: its code and the number of decimal places. -/
structure Symbol where
  code : List Char
  precision : ℕ
  deriving DecidableEq

/-- `symbol{}`, which is not a valid symbol. -/
def Symbol.none : Symbol := ⟨[], 0⟩

/-- A code is one to seven capital letters. -/
def Symbol.isValid (s : Symbol) : Bool :=
  !s.code.isEmpty && s.code.length ≤ 7 && s.code.all Char.isUpper

structure Asset where
  amount : ℤ
  symbol : Symbol
  deriving DecidableEq

namespace Asset

/-- `asset::max_amount`. -/
def maxAmount : ℤ := 2 ^ 62 - 1

/-- `asset{}`. -/
def none : Asset := ⟨0, Symbol.none⟩

def isAmountWithinRange (a : Asset) : Bool := -maxAmount ≤ a.amount && a.amount ≤ maxAmount

def isValid (a : Asset) : Bool := a.isAmountWithinRange && a.symbol.isValid

/-- The constructor `asset( amount, symbol )`, which checks both. -/
def make (amount : ℤ) (symbol : Symbol) : Result Asset := do
  check .asset (-maxAmount ≤ amount ∧ amount ≤ maxAmount)
    "magnitude of asset amount must be less than 2^62"
  check .asset symbol.isValid "invalid symbol name"
  return ⟨amount, symbol⟩

/-- The check after `amount += a`. The 64-bit sum of an amount in range and any
other 64-bit amount is in range only when it did not wrap. -/
def checkSum (amount : ℤ) : Result Unit := do
  check .asset (-maxAmount ≤ amount) "addition underflow"
  check .asset (amount ≤ maxAmount) "addition overflow"

/-- `operator+=`. -/
def add (a b : Asset) : Result Asset := do
  check .asset (b.symbol = a.symbol) "attempt to add asset with different symbol"
  checkSum (a.amount + b.amount)
  return ⟨a.amount + b.amount, a.symbol⟩

/-- `operator-=`. -/
def sub (a b : Asset) : Result Asset := do
  check .asset (b.symbol = a.symbol) "attempt to subtract asset with different symbol"
  check .asset (-maxAmount ≤ a.amount - b.amount) "subtraction underflow"
  check .asset (a.amount - b.amount ≤ maxAmount) "subtraction overflow"
  return ⟨a.amount - b.amount, a.symbol⟩

/-- The unary minus keeps the symbol and checks nothing. -/
def neg (a : Asset) : Asset := ⟨-a.amount, a.symbol⟩

/-- `to_string`. -/
def toString (a : Asset) : String :=
  let digits := (a.amount.natAbs / 10 ^ a.symbol.precision).repr
  let rest := (a.amount.natAbs % 10 ^ a.symbol.precision).repr
  let fraction := "".pushn '0' (a.symbol.precision - rest.length) ++ rest
  (if a.amount < 0 then "-" else "") ++ digits ++
    (if a.symbol.precision = 0 then "" else "." ++ fraction) ++ " " ++ String.ofList a.symbol.code

example : toString ⟨-12345, ⟨['V', 'O', 'T', 'E'], 4⟩⟩ = "-1.2345 VOTE" := by decide +kernel

/-- `operator<=`, which compares only amounts of one symbol. -/
def le (a b : Asset) : Result Bool := do
  check .asset (a.symbol = b.symbol) "comparison of assets with different symbols is not allowed"
  return a.amount ≤ b.amount

/-- `operator<`, which compares only amounts of one symbol. -/
def lt (a b : Asset) : Result Bool := do
  check .asset (a.symbol = b.symbol) "comparison of assets with different symbols is not allowed"
  return a.amount < b.amount

@[simp] theorem neg_amount (a : Asset) : a.neg.amount = -a.amount := rfl

theorem checkSum_ok_iff {x : ℤ} {u : Unit} :
    checkSum x = .ok u ↔ -maxAmount ≤ x ∧ x ≤ maxAmount := by
  simp only [checkSum, Except.bind_ok_iff, check_ok_iff, exists_const]

theorem make_ok_iff {x : ℤ} {s : Symbol} {a : Asset} :
    make x s = .ok a ↔
      (-maxAmount ≤ x ∧ x ≤ maxAmount) ∧ s.isValid ∧ a = ⟨x, s⟩ := by
  simp only [make, Except.bind_ok_iff, check_ok_iff, Except.pure_ok_iff, exists_const,
    eq_comm (b := a)]

theorem add_ok_iff {a b c : Asset} :
    a.add b = .ok c ↔ b.symbol = a.symbol ∧
      (-maxAmount ≤ a.amount + b.amount ∧ a.amount + b.amount ≤ maxAmount) ∧
      c = ⟨a.amount + b.amount, a.symbol⟩ := by
  simp only [add, Except.bind_ok_iff, check_ok_iff, checkSum_ok_iff, Except.pure_ok_iff,
    exists_const, eq_comm (b := c)]

theorem sub_ok_iff {a b c : Asset} :
    a.sub b = .ok c ↔ b.symbol = a.symbol ∧
      (-maxAmount ≤ a.amount - b.amount ∧ a.amount - b.amount ≤ maxAmount) ∧
      c = ⟨a.amount - b.amount, a.symbol⟩ := by
  simp only [sub, Except.bind_ok_iff, check_ok_iff, Except.pure_ok_iff, exists_const, and_assoc,
    eq_comm (b := c)]

theorem add_avoids {site : Site} (hs : .asset ≠ site) (a b : Asset) : Avoids site (a.add b) :=
  .check_bind hs fun _ => .bind (.check_bind hs fun _ => .check hs) fun _ _ => .ok _

theorem sub_avoids {site : Site} (hs : .asset ≠ site) (a b : Asset) : Avoids site (a.sub b) :=
  .check_bind hs fun _ => .check_bind hs fun _ => .check_bind hs fun _ => .ok _

theorem lt_avoids {site : Site} (hs : .asset ≠ site) (a b : Asset) : Avoids site (a.lt b) :=
  .check_bind hs fun _ => .ok _

theorem le_ok_iff {a b : Asset} {r : Bool} :
    a.le b = .ok r ↔ a.symbol = b.symbol ∧ decide (a.amount ≤ b.amount) = r := by
  simp only [le, Except.bind_ok_iff, check_ok_iff, Except.pure_ok_iff, exists_const]

theorem lt_ok_iff {a b : Asset} {r : Bool} :
    a.lt b = .ok r ↔ a.symbol = b.symbol ∧ decide (a.amount < b.amount) = r := by
  simp only [lt, Except.bind_ok_iff, check_ok_iff, Except.pure_ok_iff, exists_const]

end Asset

-- ---------------------------------------------------------------------------
-- Time
-- ---------------------------------------------------------------------------

/-- `time_point`: microseconds since 1970. `time_point()` is `0`. -/
abbrev TimePoint := ℕ

/-- `block_timestamp`: half-second slots since 2000. -/
abbrev Slot := ℕ

def blockTimestampEpoch : ℕ := 946684800000
def blockIntervalMs : ℕ := 500

def TimePoint.secSinceEpoch (t : TimePoint) : ℕ := t / 1000000

/-- The conversion of a time point to the slot it lies in. -/
def TimePoint.toSlot (t : TimePoint) : Slot :=
  ((((t / 1000 : ℕ) : ℤ) - blockTimestampEpoch) / blockIntervalMs).toNat

/-- The conversion of a slot to the time point it begins at. -/
def Slot.toTimePoint (s : Slot) : TimePoint := (s * blockIntervalMs + blockTimestampEpoch) * 1000

def seconds (n : ℕ) : ℕ := n * 1000000

end Amax
