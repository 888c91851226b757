-- SUMMARY: Claims behind a delay and moves behind a pause: what any run can pay out or move within a window of time.
import Amax.Base.Run

/-! # Locks

A locked claim is requested at a time and paid once a delay has passed. Nothing
that is requested within a window shorter than the delay is paid in it, so that
a run within the window pays no more than what was pending when it opened. In
the same way moves that are a pause apart happen once within it. -/

namespace Run

variable {σ α ε ω : Type} {exec : α → σ → Except ε (σ × List ω)}

-- ---------------------------------------------------------------------------
-- Claims
-- ---------------------------------------------------------------------------

/-- One step of a claim, which is pending since a time: what it pays, and what is pending then. -/
inductive LockStep (delay now : ℕ) : Option (ℕ × ℤ) → ℤ → Option (ℕ × ℤ) → Prop
  | keep (claim : Option (ℕ × ℤ)) : LockStep delay now claim 0 claim
  | settle (claim : Option (ℕ × ℤ)) : LockStep delay now claim 0 none
  | shrink {requested : ℕ} {amount rest : ℤ} (nonneg : 0 ≤ rest) (le : rest ≤ amount) :
      LockStep delay now (some (requested, amount)) 0 (some (requested, rest))
  | renew (claim : Option (ℕ × ℤ)) (amount : ℤ) : LockStep delay now claim 0 (some (now, amount))
  | pay {requested : ℕ} {amount paid : ℤ} (due : requested + delay ≤ now)
      (le : 0 ≤ amount → paid ≤ amount) : LockStep delay now (some (requested, amount)) paid none

/-- What is paid so far and what may still be paid is at most `bound`: a claim that was requested
since the window opened is not due in it. -/
def Locked (opened : ℕ) (bound paid : ℤ) (claim : Option (ℕ × ℤ)) : Prop :=
  paid ≤ bound ∧ ∀ c ∈ claim, opened ≤ c.1 ∨ (0 ≤ c.2 ∧ paid + c.2 ≤ bound)

theorem Locked.step {opened delay now : ℕ} {bound paid amount : ℤ} {claim claim' : Option (ℕ × ℤ)}
    (h : Locked opened bound paid claim) (hstep : LockStep delay now claim amount claim')
    (hopen : opened ≤ now) (hclose : now < opened + delay) :
    Locked opened bound (paid + amount) claim' := by
  obtain ⟨hpaid, hclaim⟩ := h
  cases hstep with
  | keep => exact ⟨by omega, fun c hc => by simpa using hclaim c hc⟩
  | settle => exact ⟨by omega, fun c hc => absurd hc (Option.not_mem_none c)⟩
  | renew =>
    refine ⟨by omega, fun c hc => ?_⟩
    obtain rfl := Option.some.inj hc
    exact .inl hopen
  | shrink nonneg le =>
    refine ⟨by omega, fun c hc => ?_⟩
    obtain rfl := Option.some.inj hc
    rcases hclaim _ rfl with hlate | ⟨-, hbound⟩
    · exact .inl hlate
    · exact .inr ⟨nonneg, by dsimp only at hbound ⊢; omega⟩
  | pay due le =>
    refine ⟨?_, fun c hc => absurd hc (Option.not_mem_none c)⟩
    rcases hclaim _ rfl with hlate | ⟨hnonneg, hbound⟩
    · dsimp only at hlate
      omega
    · have hle := le hnonneg
      dsimp only at hbound
      omega

/-- Within a window that is not longer than the delay, a run pays at most what was pending when the
window opened. A run may also leave the regime of the lock, in which nothing is said of it. -/
theorem locked {claim : σ → Option (ℕ × ℤ)} {free : σ → Prop} {now : α → ℕ}
    {paid : σ → α → ℤ} {P : σ → α → Prop} {delay opened : ℕ}
    (step : ∀ s a s' out, P s a → exec a s = .ok (s', out) →
      free s' ∨ (¬free s ∧ LockStep delay (now a) (claim s) (paid s a) (claim s')))
    (hfree : ∀ s a s' out, exec a s = .ok (s', out) → free s → free s')
    {s : σ} {as : List α} (hnonneg : ∀ c ∈ claim s, 0 ≤ c.2) (hP : Along exec P s as)
    (hwindow : ∀ a ∈ as, opened ≤ now a ∧ now a < opened + delay) :
    free (final exec s as) ∨ total exec paid s as ≤ ((claim s).map Prod.snd).getD 0 := by
  have hstart : Locked opened (((claim s).map Prod.snd).getD 0) 0 (claim s) := by
    cases hc : claim s with
    | none => exact ⟨le_rfl, fun c hc => absurd hc (Option.not_mem_none c)⟩
    | some c =>
      have hc₀ := hnonneg c hc
      refine ⟨hc₀, fun c' hc' => ?_⟩
      obtain rfl := Option.some.inj hc'
      exact .inr ⟨hc₀, (zero_add _).le⟩
  have hall := invariant_total (f := paid)
    (I := fun s' n => free s' ∨ Locked opened (((claim s).map Prod.snd).getD 0) n (claim s'))
    (P := fun s' a => P s' a ∧ opened ≤ now a ∧ now a < opened + delay)
    (fun s₁ n a s₂ out h ⟨hp, hopen, hclose⟩ hok => by
      rcases h with h | h
      · exact .inl (hfree s₁ a s₂ out hok h)
      · rcases step s₁ a s₂ out hp hok with h' | ⟨-, hstep⟩
        · exact .inl h'
        · exact .inr (h.step hstep hopen hclose))
    (.inr hstart) (along_and.mpr ⟨hP, along_of_forall hwindow s⟩)
  rw [zero_add] at hall
  exact hall.imp id And.left

-- ---------------------------------------------------------------------------
-- Moves
-- ---------------------------------------------------------------------------

/-- Moves that wait for `ready` of the clock of the last move happen at most once while no move
within the window makes another one ready. -/
theorem paced {clock : σ → ℕ} {moves : List ω → ℤ} {P : σ → α → Prop} {ready : ℕ → α → Prop}
    {opened : ℕ}
    (step : ∀ s a s' out, P s a → exec a s = .ok (s', out) →
      (moves out = 0 ∧ clock s' = clock s) ∨
        (moves out = 1 ∧ ready (clock s) a ∧ opened ≤ clock s'))
    (hpause : ∀ s a last, P s a → opened ≤ last → ¬ready last a)
    {s : σ} {as : List α} (hP : Along exec P s as) :
    tally exec (fun _ out => moves out) s as ≤ 1 := by
  have hall := invariant_tally (f := fun _ out => moves out)
    (I := fun s' n => n = 0 ∨ (n = 1 ∧ opened ≤ clock s')) (P := P)
    (fun s₁ n a s₂ out h hp hok => by
      rcases step s₁ a s₂ out hp hok with ⟨hmoves, hclock⟩ | ⟨hmoves, hready, hlate⟩
      · rw [hmoves, add_zero, hclock]
        exact h
      · rcases h with rfl | ⟨-, hlast⟩
        · exact .inr ⟨by rw [hmoves]; rfl, hlate⟩
        · exact absurd hready (hpause s₁ a _ hp hlast))
    (.inl rfl) hP
  rw [zero_add] at hall
  omega

end Run
