-- SUMMARY: The growth of the RAM supply: what each action adds, and the sum of the rates in force over a run.
import Amax.Ram.Contract
import Mathlib.Algebra.BigOperators.Intervals

/-! # The growth of the supply

Every action of the market but `setram` first adds the bytes of the blocks since
the last increase. The bytes are a 32-bit product, so what is added falls short
of the rate when the market was idle for too long. -/

namespace Amax.Ram

variable {d : Doubles} {env : Env} {s s' s₁ : State} {tx : Transaction} {sent : List Sent}

-- ---------------------------------------------------------------------------
-- One increase
-- ---------------------------------------------------------------------------

/-- The number of blocks since the last increase. -/
def State.elapsed (s : State) (env : Env) : ℕ := TimePoint.toSlot env.now - s.lastRamIncrease

/-- The bytes the rate gives for these blocks. -/
def State.due (s : State) (env : Env) : ℕ := s.elapsed env * s.newRamPerBlock.val

/-- The size of RAM and the balance of the market grow by `n` bytes. -/
structure GrowsBy (s s' : State) (n : ℤ) : Prop where
  size : s'.maxRamSize = s.maxRamSize + n
  market : s'.market = s.market.map fun es =>
    { es with base := { es.base with amount := es.base.amount + n } }

theorem GrowsBy.unique {n m : ℤ} (h : GrowsBy s s' n) (h' : GrowsBy s s' m) : n = m := by
  have h₁ := h.size
  have h₂ := h'.size
  omega

theorem due_of_le (h : TimePoint.toSlot env.now ≤ s.lastRamIncrease) : s.due env = 0 := by
  rw [State.due, State.elapsed, Nat.sub_eq_zero_of_le h, Nat.zero_mul]

/-- What one increase does: it adds the bytes that are due, modulo `2 ^ 32`. -/
structure Increases (env : Env) (s s' : State) : Prop where
  grows : GrowsBy s s' (s.due env % 2 ^ 32 : ℕ)
  last : s'.lastRamIncrease = max s.lastRamIncrease (TimePoint.toSlot env.now)
  rate : s'.newRamPerBlock = s.newRamPerBlock

theorem updateRamSupply_increases (h : updateRamSupply env s = .ok s') : Increases env s s' := by
  unfold updateRamSupply at h
  dsimp only at h
  split_ifs at h with hlast
  · obtain rfl := Except.pure_ok_iff.mp h
    have hdue : ((s.due env % 2 ^ 32 : ℕ) : ℤ) = 0 := by rw [due_of_le hlast]; rfl
    refine ⟨⟨by rw [hdue, add_zero], ?_⟩, (max_eq_left hlast).symm, rfl⟩
    rw [hdue]
    simp only [add_zero, Option.map_id']
  · simp only [Except.bind_ok_iff, Except.pure_ok_iff] at h
    obtain ⟨es, hes, rfl⟩ := h
    have hmarket : s.market = some es := by
      unfold State.getMarket at hes
      cases hm : s.market with
      | none => simp [hm] at hes
      | some es' => simpa [hm] using hes
    exact ⟨⟨rfl, by rw [hmarket]; rfl⟩, (max_eq_right (not_le.mp hlast).le).symm, rfl⟩

/-- While there is a market the supply can be increased. -/
theorem updateRamSupply_yields {es : ExchangeState} (h : s.market = some es) :
    Yields (updateRamSupply env s) (Increases env s) := by
  have hok : ∃ s', updateRamSupply env s = .ok s' := by
    unfold updateRamSupply
    dsimp only
    split_ifs
    · exact ⟨s, rfl⟩
    · simp only [State.getMarket, h]
      exact ⟨_, rfl⟩
  obtain ⟨s', hs'⟩ := hok
  exact ⟨s', hs', updateRamSupply_increases hs'⟩

/-- An increase adds what is due if and only if the product fits 32 bits. -/
theorem Increases.grows_due_iff (h : Increases env s s') :
    GrowsBy s s' (s.due env) ↔ s.due env < 2 ^ 32 := by
  constructor
  · intro hdue
    have hmod := h.grows.unique hdue
    omega
  · intro hlt
    have hgrows := h.grows
    rwa [Nat.mod_eq_of_lt hlt] at hgrows

-- ---------------------------------------------------------------------------
-- One transaction
-- ---------------------------------------------------------------------------

/-- The rate after an action. -/
def Action.rate (current : Fin (2 ^ 16)) : Action → Fin (2 ^ 16)
  | .setramrate bytesPerBlock => bytesPerBlock
  | _ => current

/-- The action sets the size of RAM. -/
def Action.isSetram : Action → Bool
  | .setram _ => true
  | _ => false

/-- `s'` has the size, the rate and the last increase of `s₁`, but for a rate the action sets. -/
structure Follows (tx : Transaction) (s₁ s' : State) : Prop where
  size : s'.maxRamSize = s₁.maxRamSize
  last : s'.lastRamIncrease = s₁.lastRamIncrease
  rate : s'.newRamPerBlock = tx.action.rate s₁.newRamPerBlock

private theorem buyram_follows {payer receiver : Name} {quant : Asset}
    (h : buyram d env s payer receiver quant = .ok (s', sent)) :
    ∃ s₁, updateRamSupply env s = .ok s₁ ∧ s'.maxRamSize = s₁.maxRamSize ∧
      s'.lastRamIncrease = s₁.lastRamIncrease ∧ s'.newRamPerBlock = s₁.newRamPerBlock := by
  simp only [buyram, Except.bind_ok_iff, Except.pure_ok_iff, Prod.exists, Prod.mk.injEq] at h
  obtain ⟨-, -, -, -, s₁, hs₁, -, -, -, -, -, -, -, -, -, -, -, -, -, -, -, -, -, rfl, -⟩ := h
  exact ⟨s₁, hs₁, rfl, rfl, rfl⟩

private theorem sellram_follows {account : Name} {bytes : ℤ}
    (h : sellram d env s account bytes = .ok (s', sent)) :
    ∃ s₁, updateRamSupply env s = .ok s₁ ∧ s'.maxRamSize = s₁.maxRamSize ∧
      s'.lastRamIncrease = s₁.lastRamIncrease ∧ s'.newRamPerBlock = s₁.newRamPerBlock := by
  simp only [sellram, Except.bind_ok_iff, check_ok_iff, exists_const] at h
  obtain ⟨-, s₁, hs₁, -, h⟩ := h
  cases hrow : s₁.totals.find? account with
  | none => simp [hrow] at h
  | some row =>
    simp only [hrow, Except.bind_ok_iff, Except.pure_ok_iff, Prod.exists, Prod.mk.injEq] at h
    obtain ⟨-, -, -, -, -, -, -, -, -, -, -, -, -, -, -, -, -, -, -, rfl, -⟩ := h
    exact ⟨s₁, hs₁, rfl, rfl, rfl⟩

/-- Every action but `setram` first increases the supply. -/
theorem transact_follows (h : transact d tx s = .ok (s', sent)) (ha : tx.action.isSetram = false) :
    ∃ s₁, updateRamSupply tx.env s = .ok s₁ ∧ Follows tx s₁ s' := by
  simp only [transact, Except.bind_ok_iff, check_ok_iff, exists_const, Prod.exists,
    Except.pure_ok_iff, Prod.mk.injEq] at h
  obtain ⟨_, _, h, -, rfl, rfl⟩ := h
  obtain ⟨env, action⟩ := tx
  cases action with
  | buyram payer receiver quant =>
    obtain ⟨s₁, hs₁, hsize, hlast, hrate⟩ := buyram_follows h
    exact ⟨s₁, hs₁, hsize, hlast, hrate⟩
  | buyrambytes payer receiver bytes =>
    simp only [perform, buyrambytes, Except.bind_ok_iff] at h
    obtain ⟨-, -, -, -, quant, -, h⟩ := h
    obtain ⟨s₁, hs₁, hsize, hlast, hrate⟩ := buyram_follows h
    exact ⟨s₁, hs₁, hsize, hlast, hrate⟩
  | sellram account bytes =>
    obtain ⟨s₁, hs₁, hsize, hlast, hrate⟩ := sellram_follows h
    exact ⟨s₁, hs₁, hsize, hlast, hrate⟩
  | setram size => cases ha
  | setramrate rate =>
    simp only [perform, setramrate, Except.bind_ok_iff, Except.pure_ok_iff, Prod.mk.injEq] at h
    obtain ⟨-, -, s₁, hs₁, rfl, -⟩ := h
    exact ⟨s₁, hs₁, rfl, rfl, rfl⟩

/-- `setram` sets a size far from the end of a 64-bit word, and leaves the rate and the last
increase. -/
theorem transact_setram (h : transact d tx s = .ok (s', sent)) (ha : tx.action.isSetram = true) :
    s'.maxRamSize < 2 ^ 50 ∧ s'.lastRamIncrease = s.lastRamIncrease ∧
      s'.newRamPerBlock = s.newRamPerBlock := by
  simp only [transact, Except.bind_ok_iff, check_ok_iff, exists_const, Prod.exists,
    Except.pure_ok_iff, Prod.mk.injEq] at h
  obtain ⟨_, _, h, -, rfl, rfl⟩ := h
  obtain ⟨env, action⟩ := tx
  cases action with
  | setram size =>
    simp only [perform, setram, requireAuth, Except.bind_ok_iff, check_ok_iff, exists_const,
      Except.pure_ok_iff, Prod.mk.injEq] at h
    obtain ⟨-, -, hsize, -, _, -, rfl, -⟩ := h
    refine ⟨?_, rfl, rfl⟩
    simp only [State.grow]
    omega
  | _ => cases ha

-- ---------------------------------------------------------------------------
-- Runs
-- ---------------------------------------------------------------------------

def Transaction.slot (tx : Transaction) : Slot := TimePoint.toSlot tx.env.now

/-- The blocks of the transactions come one after the other. -/
def Ordered (txs : List Transaction) : Prop := txs.Pairwise fun a b => a.slot ≤ b.slot

instance (txs : List Transaction) : Decidable (Ordered txs) :=
  have : DecidableRel fun a b : Transaction => a.slot ≤ b.slot := fun _ _ => Nat.decLe _ _
  inferInstanceAs (Decidable (txs.Pairwise _))

/-- The bytes that `setram` adds in a run. -/
def State.raised (d : Doubles) (s : State) : List Transaction → ℤ
  | [] => 0
  | tx :: txs =>
    let s' := (Run.next (transact d) s tx).1
    (if tx.action.isSetram then s'.maxRamSize - s.maxRamSize else 0) + s'.raised d txs

/-- The rate in force at a slot: the one after the transactions of the blocks before it. -/
def State.rateAt (d : Doubles) (s : State) (txs : List Transaction) (t : Slot) : ℕ :=
  (s.final d (txs.takeWhile fun tx => decide (tx.slot < t))).newRamPerBlock.val

/-- If the transaction increases the supply, the bytes that are due fit 32 bits. -/
def Fits (d : Doubles) (s : State) (tx : Transaction) : Prop :=
  tx.action.isSetram = false → (∃ r, transact d tx s = .ok r) → s.due tx.env < 2 ^ 32

/-- The size after a run falls short by `deficit` of what the rates give. -/
structure FallsShort (d : Doubles) (s : State) (txs : List Transaction) (deficit : ℤ) : Prop where
  nonneg : 0 ≤ deficit
  size : (s.final d txs).maxRamSize - s.raised d txs + deficit =
    s.maxRamSize + ∑ t ∈ Finset.Ioc s.lastRamIncrease (s.final d txs).lastRamIncrease,
      (s.rateAt d txs t : ℤ)
  zero_iff : deficit = 0 ↔ Run.Along (transact d) (Fits d) s txs

/-- One transaction: the size grows by `setram` and by what is due since the last increase, and
falls short if that does not fit. -/
structure Advances (d : Doubles) (tx : Transaction) (s s' : State) (deficit : ℤ) : Prop where
  nonneg : 0 ≤ deficit
  size : s'.maxRamSize - (if tx.action.isSetram then s'.maxRamSize - s.maxRamSize else 0) + deficit =
    s.maxRamSize + (s'.lastRamIncrease - s.lastRamIncrease : ℕ) * s.newRamPerBlock.val
  zero_iff : deficit = 0 ↔ Fits d s tx
  last_le : s.lastRamIncrease ≤ s'.lastRamIncrease
  last_slot : s'.lastRamIncrease = s.lastRamIncrease ∨ s'.lastRamIncrease = tx.slot
  rate_eq : s'.lastRamIncrease < tx.slot → s'.newRamPerBlock = s.newRamPerBlock

theorem next_advances (d : Doubles) (s : State) (tx : Transaction) :
    ∃ deficit, Advances d tx s (Run.next (transact d) s tx).1 deficit := by
  cases hok : transact d tx s with
  | error e =>
    rw [Run.next_error hok]
    refine ⟨0, le_rfl, by simp, ⟨fun _ _ ⟨r, hr⟩ => ?_, fun _ => rfl⟩, le_rfl, .inl rfl, fun _ => rfl⟩
    rw [hok] at hr
    cases hr
  | ok r =>
    obtain ⟨s', sent⟩ := r
    rw [Run.next_ok hok]
    dsimp only
    cases ha : tx.action.isSetram with
    | true =>
      obtain ⟨-, hlast, hrate⟩ := transact_setram hok ha
      refine ⟨0, le_rfl, ?_, ⟨fun _ h => ?_, fun _ => rfl⟩, hlast.ge, .inl hlast, fun _ => hrate⟩
      · simp [ha, hlast]
      · rw [ha] at h
        cases h
    | false =>
      obtain ⟨s₁, hs₁, hfollows⟩ := transact_follows hok ha
      have hinc := updateRamSupply_increases hs₁
      have hlast : s'.lastRamIncrease = max s.lastRamIncrease tx.slot := hfollows.last.trans hinc.last
      have hdue : (s'.lastRamIncrease - s.lastRamIncrease) * s.newRamPerBlock.val = s.due tx.env := by
        have helapsed : max s.lastRamIncrease tx.slot - s.lastRamIncrease = s.elapsed tx.env := by
          rcases le_total s.lastRamIncrease tx.slot with hle | hle
          · rw [max_eq_right hle]
            rfl
          · rw [max_eq_left hle, Nat.sub_self]
            exact (Nat.sub_eq_zero_of_le hle).symm
        rw [hlast, helapsed, State.due]
      have hle : s.due tx.env % 2 ^ 32 ≤ s.due tx.env := Nat.mod_le _ _
      refine ⟨s.due tx.env - (s.due tx.env % 2 ^ 32 : ℕ), by omega, ?_, ?_, ?_, ?_, ?_⟩
      · have hsize := hfollows.size.trans hinc.grows.size
        rw [← Nat.cast_mul, hdue, ha, if_neg Bool.false_ne_true]
        omega
      · constructor
        · intro hzero _ _
          omega
        · intro hfits
          have hlt := hfits ha ⟨_, hok⟩
          omega
      · rw [hlast]
        exact le_max_left _ _
      · rw [hlast]
        exact (max_choice _ _)
      · intro hlt
        rw [hlast] at hlt
        exact absurd hlt (le_max_right _ _).not_gt

theorem rateAt_cons (d : Doubles) (s : State) (tx : Transaction) (txs : List Transaction)
    (t : Slot) : s.rateAt d (tx :: txs) t =
      if tx.slot < t then (Run.next (transact d) s tx).1.rateAt d txs t
        else s.newRamPerBlock.val := by
  unfold State.rateAt
  rw [List.takeWhile_cons]
  by_cases h : tx.slot < t
  · rw [if_pos h, if_pos (decide_eq_true h)]
    rfl
  · rw [if_neg h, if_neg (by rwa [decide_eq_true_eq])]
    rfl

/-- Before the first transaction the rate is the one the run starts with. -/
theorem rateAt_of_le {txs : List Transaction} {t : Slot} (h : ∀ tx ∈ txs, t ≤ tx.slot) :
    s.rateAt d txs t = s.newRamPerBlock.val := by
  cases txs with
  | nil => rfl
  | cons tx txs => rw [rateAt_cons, if_neg (h tx List.mem_cons_self).not_gt]

theorem final_last_le (txs : List Transaction) :
    s.lastRamIncrease ≤ (s.final d txs).lastRamIncrease := by
  induction txs generalizing s with
  | nil => exact le_rfl
  | cons tx txs ih =>
    obtain ⟨_, hadv⟩ := next_advances d s tx
    exact hadv.last_le.trans ih

/-- The rates of a run are those of its first transaction, up to the increase it makes, and those
of the rest. -/
theorem sum_rateAt_cons {tx : Transaction} {txs : List Transaction} (h : Ordered (tx :: txs))
    {deficit : ℤ} (hadv : Advances d tx s s₁ deficit) (hs₁ : (Run.next (transact d) s tx).1 = s₁) :
    ∑ t ∈ Finset.Ioc s.lastRamIncrease (s₁.final d txs).lastRamIncrease,
        (s.rateAt d (tx :: txs) t : ℤ) =
      (s₁.lastRamIncrease - s.lastRamIncrease : ℕ) * s.newRamPerBlock.val +
        ∑ t ∈ Finset.Ioc s₁.lastRamIncrease (s₁.final d txs).lastRamIncrease,
          (s₁.rateAt d txs t : ℤ) := by
  rw [← Finset.sum_Ioc_consecutive _ hadv.last_le (final_last_le txs)]
  congr 1
  · have hrate : ∀ t ∈ Finset.Ioc s.lastRamIncrease s₁.lastRamIncrease,
        (s.rateAt d (tx :: txs) t : ℤ) = s.newRamPerBlock.val := by
      intro t ht
      obtain ⟨hlo, hhi⟩ := Finset.mem_Ioc.mp ht
      have hslot : ¬ tx.slot < t := by
        rcases hadv.last_slot with hlast | hlast
        · exact absurd hlo (hhi.trans_eq hlast).not_gt
        · exact (hhi.trans_eq hlast).not_gt
      rw [rateAt_cons, if_neg hslot]
    rw [Finset.sum_congr rfl hrate, Finset.sum_const, Nat.card_Ioc, nsmul_eq_mul]
  · refine Finset.sum_congr rfl fun t ht => ?_
    obtain ⟨hlo, -⟩ := Finset.mem_Ioc.mp ht
    rw [rateAt_cons, hs₁]
    split_ifs with hslot
    · rfl
    · -- no increase since the last one, so the rate has not changed either
      have hle : ∀ tx' ∈ txs, t ≤ tx'.slot := fun tx' htx' =>
        (not_lt.mp hslot).trans (List.rel_of_pairwise_cons h htx')
      rw [rateAt_of_le hle, hadv.rate_eq (hlo.trans_le (not_lt.mp hslot))]

/-- The size after a run falls short of what the rates give, by nothing if and only if every
increase fits. -/
theorem final_fallsShort {txs : List Transaction} (h : Ordered txs) :
    ∃ deficit, FallsShort d s txs deficit := by
  induction txs generalizing s with
  | nil => exact ⟨0, le_rfl, by simp [State.final, Run.final, State.raised], by simp [Run.Along]⟩
  | cons tx txs ih =>
    obtain ⟨deficit₁, hadv⟩ := next_advances d s tx
    obtain ⟨deficit₂, hrest⟩ := ih (s := (Run.next (transact d) s tx).1) (List.Pairwise.of_cons h)
    refine ⟨deficit₁ + deficit₂, add_nonneg hadv.nonneg hrest.nonneg, ?_, ?_⟩
    · have hsum := sum_rateAt_cons h hadv rfl
      have hone := hadv.size
      have hothers := hrest.size
      simp only [State.final, Run.final, State.raised] at hsum hothers ⊢
      omega
    · rw [Run.Along, ← hadv.zero_iff, ← hrest.zero_iff]
      have h₁ := hadv.nonneg
      have h₂ := hrest.nonneg
      omega

/-- One increase adds the bytes that are due, to the size and to the market, if and only if their
product fits 32 bits; and over every run the size is what `setram` and the rates in force make it
if and only if every increase fits. -/
theorem supply_follows_rate (s : State) :
    (∀ env es, s.market = some es → Yields (updateRamSupply env s) fun s' =>
      (GrowsBy s s' (s.elapsed env * s.newRamPerBlock.val : ℕ) ↔
        s.elapsed env * s.newRamPerBlock.val < 2 ^ 32)) ∧
    ∀ d txs, Ordered txs →
      ((s.final d txs).maxRamSize - s.raised d txs = s.maxRamSize +
          ∑ t ∈ Finset.Ioc s.lastRamIncrease (s.final d txs).lastRamIncrease,
            (s.rateAt d txs t : ℤ) ↔
        Run.Along (transact d) (Fits d) s txs) := by
  refine ⟨fun env es h => (updateRamSupply_yields h).mono fun _ hinc => hinc.grows_due_iff,
    fun d txs h => ?_⟩
  obtain ⟨deficit, hshort⟩ := final_fallsShort (d := d) (s := s) h
  rw [← hshort.zero_iff]
  have hsize := hshort.size
  omega

private def coreToken : Symbol := ⟨['A', 'M', 'A', 'X'], 8⟩

/-- The market as `init` leaves it. -/
private def opened : State where
  coreSymbol := coreToken
  market := some {
    supply := ⟨100000000000000, ramcoreSymbol⟩
    base := ⟨68719476736, ramSymbol⟩
    quote := ⟨1000000000, coreToken⟩ }

private def flat : Doubles := ⟨fun _ _ _ => 0, fun _ _ _ => 0, fun cost => cost⟩

private def clock (time : ℕ) : Env := { now := seconds time, hasAuth := fun _ => true }

/-- The rate is `rate` for some time, and nothing is sold. -/
private def idle (rate : Fin (2 ^ 16)) (time : ℕ) : List Transaction :=
  [⟨clock 1800000000, .setramrate rate⟩, ⟨clock (1800000000 + time), .setramrate 0⟩]

theorem supply_follows_rate_minute :
    let s := opened.final flat (idle 5 60)
    s.maxRamSize = 68719476736 + 120 * 5 ∧
      s.maxRamSize - opened.raised flat (idle 5 60) = opened.maxRamSize +
        ∑ t ∈ Finset.Ioc opened.lastRamIncrease s.lastRamIncrease,
          (opened.rateAt flat (idle 5 60) t : ℤ) ∧
      Yields (updateRamSupply (clock 1800000000) opened) fun s' =>
        GrowsBy opened s' (opened.elapsed (clock 1800000000) * opened.newRamPerBlock.val : ℕ) := by
  refine ⟨by decide +kernel, ((supply_follows_rate opened).2 flat _ (by decide +kernel)).mpr ?_,
    ((supply_follows_rate opened).1 (clock 1800000000) _ rfl).mono fun _ h =>
      h.mpr (by decide +kernel)⟩
  exact ⟨fun _ _ => by decide +kernel, fun _ _ => by decide +kernel, trivial⟩

/-- The largest rate over 65536 seconds without a trade: `131072 * 65535` bytes are due, and
less than `2 ^ 32` are added. -/
theorem supply_wraps_idle :
    let s := opened.final flat [⟨clock 1800000000, .setramrate 65535⟩]
    let later := clock (1800000000 + 65536)
    s.elapsed later * s.newRamPerBlock.val = 8589803520 ∧
      (∃ s', updateRamSupply later s = .ok s' ∧ s'.maxRamSize = s.maxRamSize + 4294836224 ∧
        ¬ GrowsBy s s' 8589803520) ∧
      ¬ ((opened.final flat (idle 65535 65536)).maxRamSize -
          opened.raised flat (idle 65535 65536) = opened.maxRamSize +
        ∑ t ∈ Finset.Ioc opened.lastRamIncrease
            (opened.final flat (idle 65535 65536)).lastRamIncrease,
          (opened.rateAt flat (idle 65535 65536) t : ℤ)) := by
  intro s later
  have hdue : s.due later = 8589803520 := by decide +kernel
  refine ⟨hdue, ?_, fun heq => ?_⟩
  · obtain ⟨s', hs', hinc⟩ : Yields (updateRamSupply later s) (Increases later s) :=
      updateRamSupply_yields rfl
    have hsize := hinc.grows.size
    rw [hdue] at hsize
    refine ⟨s', hs', hsize, fun h => ?_⟩
    have := h.size
    omega
  · have hordered : Ordered (idle 65535 65536) := by decide +kernel
    obtain ⟨deficit, hshort⟩ := final_fallsShort (d := flat) (s := opened) hordered
    have hsize := hshort.size
    obtain ⟨-, hfits, -⟩ := hshort.zero_iff.mp (by omega)
    have hlt := hfits rfl ⟨_, rfl⟩
    have hsecond : State.due s later < 2 ^ 32 := hlt
    omega

end Amax.Ram
