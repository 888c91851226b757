-- SUMMARY: Runs of fallible actions: a failed action changes nothing, and an invariant of one step is an invariant of a run.
import Mathlib.Algebra.Order.Ring.Int
import Mathlib.Data.List.Induction
import Mathlib.Logic.Basic
import Mathlib.Tactic.Ring

/-! # Runs

An action maps a state to a new state and a list of outputs, or fails. A run
performs a list of actions; an action that fails leaves the state as it is and
has no output. -/

namespace Except

variable {ε α β : Type}

/-- A bind succeeds when both of its steps do. -/
theorem bind_ok_iff {x : Except ε α} {f : α → Except ε β} {b : β} :
    (x >>= f) = .ok b ↔ ∃ a, x = .ok a ∧ f a = .ok b := by
  cases x with
  | error e => simp [bind, Except.bind]
  | ok a => simp [bind, Except.bind]

/-- A bind fails with `e` when its first step does, or its second after it. -/
theorem bind_error_iff {x : Except ε α} {f : α → Except ε β} {e : ε} :
    (x >>= f) = .error e ↔ x = .error e ∨ ∃ a, x = .ok a ∧ f a = .error e := by
  cases x with
  | error e' => simp [bind, Except.bind]
  | ok a => simp [bind, Except.bind]

theorem pure_ok_iff {a b : α} : (pure a : Except ε α) = .ok b ↔ a = b := by
  simp [pure, Except.pure]

end Except

namespace Run

variable {σ α ε ω : Type} (exec : α → σ → Except ε (σ × List ω))

/-- The state after one action, and what the action put out. -/
def next (s : σ) (a : α) : σ × List ω :=
  match exec a s with
  | .ok r => r
  | .error _ => (s, [])

/-- The state after a list of actions. -/
def final (s : σ) : List α → σ
  | [] => s
  | a :: as => final (next exec s a).1 as

/-- Everything a list of actions puts out, in order. -/
def outputs (s : σ) : List α → List ω
  | [] => []
  | a :: as => (next exec s a).2 ++ outputs (next exec s a).1 as

/-- The sum of `f` over the successful actions of a run and their outputs. -/
def tally (f : α → List ω → ℤ) (s : σ) : List α → ℤ
  | [] => 0
  | a :: as =>
    (match exec a s with
      | .ok r => f a r.2
      | .error _ => 0) + tally f (next exec s a).1 as

/-- The sum of `f` over the successful actions of a run and the states they are performed in. -/
def total (f : σ → α → ℤ) (s : σ) : List α → ℤ
  | [] => 0
  | a :: as =>
    (match exec a s with
      | .ok _ => f s a
      | .error _ => 0) + total f (next exec s a).1 as

/-- What an observer of the run has noted, who sees the states around every action. -/
def observed {β : Type} (note : β → σ → σ → β) (b : β) (s : σ) : List α → β
  | [] => b
  | a :: as => observed note (note b s (next exec s a).1) (next exec s a).1 as

/-- What `f` finds in the successful actions of a run and the states they are performed in, in
order. -/
def found {β : Type} (f : σ → α → Option β) (s : σ) : List α → List β
  | [] => []
  | a :: as =>
    (match exec a s with
      | .ok _ => (f s a).toList
      | .error _ => []) ++ found f (next exec s a).1 as

/-- Every action of the run satisfies `P` in the state it is performed in. -/
def Along (P : σ → α → Prop) (s : σ) : List α → Prop
  | [] => True
  | a :: as => P s a ∧ Along P (next exec s a).1 as

instance {P : σ → α → Prop} [∀ s a, Decidable (P s a)] :
    ∀ (s : σ) (as : List α), Decidable (Along exec P s as)
  | _, [] => isTrue trivial
  | s, a :: as =>
    have := instDecidableAlong (P := P) (next exec s a).1 as
    inferInstanceAs (Decidable (P s a ∧ Along exec P (next exec s a).1 as))

variable {exec}

theorem next_ok {s s' : σ} {a : α} {out : List ω} (h : exec a s = .ok (s', out)) :
    next exec s a = (s', out) := by
  simp [next, h]

theorem next_error {s : σ} {a : α} {e : ε} (h : exec a s = .error e) :
    next exec s a = (s, []) := by
  simp [next, h]

theorem final_append (s : σ) (as bs : List α) :
    final exec s (as ++ bs) = final exec (final exec s as) bs := by
  induction as generalizing s with
  | nil => rfl
  | cons a as ih => exact ih _

theorem along_append {P : σ → α → Prop} {s : σ} {as bs : List α} :
    Along exec P s (as ++ bs) ↔ Along exec P s as ∧ Along exec P (final exec s as) bs := by
  induction as generalizing s with
  | nil => simp [Along, final]
  | cons a as ih => simp [Along, final, ih, and_assoc]

theorem along_true (s : σ) (as : List α) : Along exec (fun _ _ => True) s as := by
  induction as generalizing s with
  | nil => trivial
  | cons a as ih => exact ⟨trivial, ih _⟩

theorem Along.mono {P Q : σ → α → Prop} (hPQ : ∀ s a, P s a → Q s a) {s : σ} {as : List α}
    (h : Along exec P s as) : Along exec Q s as := by
  induction as generalizing s with
  | nil => trivial
  | cons a as ih => exact ⟨hPQ s a h.1, ih h.2⟩

theorem along_and {P Q : σ → α → Prop} {s : σ} {as : List α} :
    Along exec (fun s a => P s a ∧ Q s a) s as ↔ Along exec P s as ∧ Along exec Q s as := by
  induction as generalizing s with
  | nil => simp [Along]
  | cons a as ih => simp only [Along, ih, and_and_and_comm]

theorem along_of_forall {P : α → Prop} {as : List α} (h : ∀ a ∈ as, P a) (s : σ) :
    Along exec (fun _ a => P a) s as := by
  induction as generalizing s with
  | nil => trivial
  | cons a as ih =>
    exact ⟨h a List.mem_cons_self, ih (fun b hb => h b (List.mem_cons_of_mem a hb)) _⟩

/-- What every successful step keeps, together with the outputs so far, every
run keeps. -/
theorem invariant_outputs {I : σ → List ω → Prop} {P : σ → α → Prop}
    (step : ∀ s l a s' out, I s l → P s a → exec a s = .ok (s', out) → I s' (l ++ out))
    {s : σ} {l : List ω} {as : List α} (h : I s l) (hP : Along exec P s as) :
    I (final exec s as) (l ++ outputs exec s as) := by
  induction as generalizing s l with
  | nil => simpa [final, outputs] using h
  | cons a as ih =>
    obtain ⟨ha, has⟩ := hP
    simp only [final, outputs, ← List.append_assoc]
    refine ih ?_ has
    cases he : exec a s with
    | error e => simpa [next, he] using h
    | ok r => simpa [next, he] using step s l a r.1 r.2 h ha he

/-- What every successful step keeps, every run keeps. -/
theorem invariant {I : σ → Prop} {P : σ → α → Prop}
    (step : ∀ s a s' out, I s → P s a → exec a s = .ok (s', out) → I s')
    {s : σ} {as : List α} (h : I s) (hP : Along exec P s as) : I (final exec s as) :=
  invariant_outputs (I := fun s _ => I s) (l := [])
    (fun s _ a s' out hs hp he => step s a s' out hs hp he) h hP

/-- What every successful step keeps, together with a sum over the actions so
far, every run keeps. -/
theorem invariant_tally {I : σ → ℤ → Prop} {P : σ → α → Prop} {f : α → List ω → ℤ}
    (step : ∀ s n a s' out, I s n → P s a → exec a s = .ok (s', out) → I s' (n + f a out))
    {s : σ} {n : ℤ} {as : List α} (h : I s n) (hP : Along exec P s as) :
    I (final exec s as) (n + tally exec f s as) := by
  induction as generalizing s n with
  | nil => simpa [final, tally] using h
  | cons a as ih =>
    obtain ⟨ha, has⟩ := hP
    simp only [final, tally, ← add_assoc]
    refine ih ?_ has
    cases he : exec a s with
    | error e => simpa [next, he] using h
    | ok r => simpa [next, he] using step s n a r.1 r.2 h ha he

/-- What every successful step keeps, together with a sum over the actions so far and their
states, every run keeps. -/
theorem invariant_total {I : σ → ℤ → Prop} {P : σ → α → Prop} {f : σ → α → ℤ}
    (step : ∀ s n a s' out, I s n → P s a → exec a s = .ok (s', out) → I s' (n + f s a))
    {s : σ} {n : ℤ} {as : List α} (h : I s n) (hP : Along exec P s as) :
    I (final exec s as) (n + total exec f s as) := by
  induction as generalizing s n with
  | nil => simpa [final, total] using h
  | cons a as ih =>
    obtain ⟨ha, has⟩ := hP
    simp only [final, total, ← add_assoc]
    refine ih ?_ has
    cases he : exec a s with
    | error e => simpa [next, he] using h
    | ok r => simpa [next, he] using step s n a r.1 r.2 h ha he

/-- What every successful step keeps, together with what has been found so far, every run keeps. -/
theorem invariant_found {β : Type} {I : σ → List β → Prop} {P : σ → α → Prop}
    {f : σ → α → Option β}
    (step : ∀ s l a s' out, I s l → P s a → exec a s = .ok (s', out) → I s' (l ++ (f s a).toList))
    {s : σ} {l : List β} {as : List α} (h : I s l) (hP : Along exec P s as) :
    I (final exec s as) (l ++ found exec f s as) := by
  induction as generalizing s l with
  | nil => simpa [final, found] using h
  | cons a as ih =>
    obtain ⟨ha, has⟩ := hP
    simp only [final, found, ← List.append_assoc]
    refine ih ?_ has
    cases he : exec a s with
    | error e => simpa [next, he] using h
    | ok r => simpa [next, he] using step s l a r.1 r.2 h ha he

/-- The second list has the actions of the first in their order, and any number of `extra`
actions, of which the first has none. -/
inductive Extends (extra : α → Prop) : List α → List α → Prop where
  | nil : Extends extra [] []
  | shared {a : α} {as bs : List α} (ha : ¬extra a) (h : Extends extra as bs) :
      Extends extra (a :: as) (a :: bs)
  | more {a : α} {as bs : List α} (ha : extra a) (h : Extends extra as bs) :
      Extends extra as (a :: bs)

/-- What a shared action of two runs keeps, and an extra action of the second at a cost, the two
runs keep at the cost of all extra actions. -/
theorem Extends.invariant {I : σ → σ → ℤ → Prop} {extra : α → Prop} {cost : σ → α → ℤ}
    (hcost : ∀ s a, ¬extra a → cost s a = 0)
    (shared : ∀ s t n a, I s t n → ¬extra a → I (next exec s a).1 (next exec t a).1 n)
    (more : ∀ s t n a t' out, I s t n → extra a → exec a t = .ok (t', out) →
      I s t' (n + cost t a))
    {s t : σ} {n : ℤ} {as bs : List α} (h : I s t n) (he : Extends extra as bs) :
    I (final exec s as) (final exec t bs) (n + total exec cost t bs) := by
  induction he generalizing s t n with
  | nil => simpa [final, total] using h
  | @shared a as bs ha _ ih =>
    have hterm : (match exec a t with
        | .ok _ => cost t a
        | .error _ => 0) = 0 := by
      cases exec a t with
      | error e => rfl
      | ok r => exact hcost t a ha
    rw [total, hterm, zero_add]
    exact ih (shared s t n a h ha)
  | @more a as bs ha _ ih =>
    simp only [final, total, ← add_assoc]
    refine ih ?_
    cases hr : exec a t with
    | error e => simpa [next, hr] using h
    | ok r => simpa [next, hr] using more s t n a r.1 r.2 h ha hr

theorem observed_append {β : Type} (note : β → σ → σ → β) (b : β) (s : σ) (as bs : List α) :
    observed exec note b s (as ++ bs) =
      observed exec note (observed exec note b s as) (final exec s as) bs := by
  induction as generalizing b s with
  | nil => rfl
  | cons a as ih => exact ih _ _

/-- What every successful step keeps, together with the notes of an observer, every run keeps
whose notes all satisfy `Q`. -/
theorem invariant_observed {β : Type} {I : σ → β → Prop} {P : σ → α → Prop} {Q : β → Prop}
    {note : β → σ → σ → β} (hnote : ∀ b s, note b s s = b)
    (step : ∀ s b a s' out, I s b → Q b → P s a → exec a s = .ok (s', out) → I s' (note b s s'))
    {s : σ} {b : β} {as : List α} (h : I s b) (hP : Along exec P s as)
    (hQ : ∀ pre, pre <+: as → Q (observed exec note b s pre)) :
    I (final exec s as) (observed exec note b s as) := by
  induction as generalizing s b with
  | nil => exact h
  | cons a as ih =>
    obtain ⟨ha, has⟩ := hP
    have hrest : ∀ pre, pre <+: as → Q (observed exec note (note b s (next exec s a).1)
        (next exec s a).1 pre) := fun pre hpre => hQ (a :: pre) (List.cons_prefix_cons.mpr ⟨rfl, hpre⟩)
    refine ih ?_ has hrest
    cases he : exec a s with
    | error e => simpa [next, he, hnote] using h
    | ok r => simpa [next, he] using step s b a r.1 r.2 h (hQ [] List.nil_prefix) ha he

theorem total_add (f g : σ → α → ℤ) (s : σ) (as : List α) :
    total exec (fun s a => f s a + g s a) s as = total exec f s as + total exec g s as := by
  induction as generalizing s with
  | nil => rfl
  | cons a as ih =>
    simp only [total, ih]
    cases exec a s with
    | error e => ring
    | ok r => ring

theorem total_mul_left (c : ℤ) (f : σ → α → ℤ) (s : σ) (as : List α) :
    total exec (fun s a => c * f s a) s as = c * total exec f s as := by
  induction as generalizing s with
  | nil => exact (mul_zero c).symm
  | cons a as ih =>
    simp only [total, ih]
    cases exec a s with
    | error e => ring
    | ok r => ring

/-- A sum is zero when its terms are. -/
theorem total_eq_zero {f : σ → α → ℤ} {s : σ} {as : List α}
    (h : Along exec (fun s a => ∀ r, exec a s = .ok r → f s a = 0) s as) :
    total exec f s as = 0 := by
  induction as generalizing s with
  | nil => rfl
  | cons a as ih =>
    obtain ⟨ha, has⟩ := h
    rw [total, ih has, add_zero]
    cases he : exec a s with
    | error e => rfl
    | ok r => exact ha r he

/-- A mark that is set or kept, and kept only where what holds now held before: since the
mark was set, what holds now has held in every state of the run. -/
theorem held_since {β : Type} (mark : σ → Option β) (good : σ → Prop) (sets : α → β → Prop)
    {P : σ → α → Prop}
    (step : ∀ s a s' out b, P s a → exec a s = .ok (s', out) → mark s' = some b →
      (good s' ∧ sets a b) ∨ (mark s = some b ∧ (good s' → good s)))
    {s : σ} (h₀ : mark s = none) {as : List α} (hP : Along exec P s as) {b : β}
    (hmark : mark (final exec s as) = some b) (hgood : good (final exec s as)) :
    ∃ pre a mid, as = pre ++ a :: mid ∧ sets a b ∧ ∀ mid₁ mid₂, mid = mid₁ ++ mid₂ →
      mark (final exec s (pre ++ a :: mid₁)) = some b ∧
        good (final exec s (pre ++ a :: mid₁)) := by
  induction as using List.reverseRecOn with
  | nil => simp [final, h₀] at hmark
  | append_singleton as a ih =>
    obtain ⟨has, ha, -⟩ := along_append.mp hP
    have hlast : final exec s (as ++ [a]) = (next exec (final exec s as) a).1 := final_append s as [a]
    -- what an earlier setting says goes on to the new end of the run
    have hextend (hm : mark (final exec s as) = some b) (hg : good (final exec s as)) :
        ∃ pre a' mid, as ++ [a] = pre ++ a' :: mid ∧ sets a' b ∧ ∀ mid₁ mid₂, mid = mid₁ ++ mid₂ →
          mark (final exec s (pre ++ a' :: mid₁)) = some b ∧
            good (final exec s (pre ++ a' :: mid₁)) := by
      obtain ⟨pre, a', mid, rfl, hsets, hmid⟩ := ih has hm hg
      refine ⟨pre, a', mid ++ [a], by simp, hsets, fun mid₁ mid₂ hsplit => ?_⟩
      rcases List.eq_nil_or_concat mid₂ with rfl | ⟨mid₂', a'', rfl⟩
      · rw [List.append_nil] at hsplit
        rw [← hsplit, ← List.cons_append, ← List.append_assoc]
        exact ⟨hmark, hgood⟩
      · rw [List.concat_eq_append, ← List.append_assoc] at hsplit
        exact hmid mid₁ mid₂' (List.append_inj_left' hsplit rfl)
    cases he : exec a (final exec s as) with
    | error e =>
      rw [hlast, next_error he] at hmark hgood
      exact hextend hmark hgood
    | ok r =>
      have hstep := step (final exec s as) a r.1 r.2 b ha he
      rw [hlast, next_ok he] at hmark hgood
      rcases hstep hmark with ⟨hg, hset⟩ | ⟨hm, hg⟩
      · refine ⟨as, a, [], rfl, hset, fun mid₁ mid₂ hsplit => ?_⟩
        obtain ⟨rfl, -⟩ := List.append_eq_nil_iff.mp hsplit.symm
        rw [hlast, next_ok he]
        exact ⟨hmark, hg⟩
      · exact hextend hm (hg hgood)

theorem tally_add (f g : α → List ω → ℤ) (s : σ) (as : List α) :
    tally exec (fun a out => f a out + g a out) s as = tally exec f s as + tally exec g s as := by
  induction as generalizing s with
  | nil => rfl
  | cons a as ih =>
    simp only [tally, ih]
    cases exec a s with
    | error e => ring
    | ok r => ring

theorem tally_neg (f : α → List ω → ℤ) (s : σ) (as : List α) :
    tally exec (fun a out => -f a out) s as = -tally exec f s as := by
  induction as generalizing s with
  | nil => rfl
  | cons a as ih =>
    simp only [tally, ih]
    cases exec a s with
    | error e => ring
    | ok r => ring

/-- A sum over the outputs of the actions is one over the outputs of the run. -/
theorem tally_outputs {f : List ω → ℤ} (hnil : f [] = 0)
    (happend : ∀ l l', f (l ++ l') = f l + f l') (s : σ) (as : List α) :
    tally exec (fun _ out => f out) s as = f (outputs exec s as) := by
  induction as generalizing s with
  | nil => exact hnil.symm
  | cons a as ih =>
    simp only [tally, outputs, happend, ih]
    cases he : exec a s with
    | error e => simp [next, he, hnil]
    | ok r => simp [next, he]

theorem tally_nonneg {f : α → List ω → ℤ}
    (hf : ∀ s a s' out, exec a s = .ok (s', out) → 0 ≤ f a out) (s : σ) (as : List α) :
    0 ≤ tally exec f s as := by
  induction as generalizing s with
  | nil => exact le_rfl
  | cons a as ih =>
    refine add_nonneg ?_ (ih _)
    cases he : exec a s with
    | error e => exact le_rfl
    | ok r => exact hf s a r.1 r.2 he

end Run

namespace Fold

variable {ε α β : Type} (f : β → α → Except ε β)

/-- Every element of the list satisfies `P` where the fold meets it. -/
def Along (P : β → α → Prop) (b : β) : List α → Prop
  | [] => True
  | a :: as => P b a ∧ match f b a with
    | .ok b' => Along P b' as
    | .error _ => True

/-- What `g` gathers from the elements of the list where the fold meets them. -/
def gathered {γ : Type} (g : β → α → List γ) (b : β) : List α → List γ
  | [] => []
  | a :: as => g b a ++ match f b a with
    | .ok b' => gathered g b' as
    | .error _ => []

variable {f}

instance {P : β → α → Prop} [∀ b a, Decidable (P b a)] :
    ∀ (b : β) (as : List α), Decidable (Along f P b as)
  | _, [] => isTrue trivial
  | b, a :: as =>
    have (r : Except ε β) : Decidable (match r with
        | .ok b' => Along f P b' as
        | .error _ => True) :=
      match r with
      | .ok b' => instDecidableAlong b' as
      | .error _ => isTrue trivial
    inferInstanceAs (Decidable (P b a ∧ _))

theorem along_of_invariant {I : β → Prop} {P : β → α → Prop} (hP : ∀ b a, I b → P b a)
    (step : ∀ b a b', I b → f b a = .ok b' → I b') {b : β} (h : I b) (as : List α) :
    Along f P b as := by
  induction as generalizing b with
  | nil => trivial
  | cons a as ih =>
    refine ⟨hP b a h, ?_⟩
    cases hf : f b a with
    | error e => trivial
    | ok b' => exact ih (step b a b' h hf)

/-- What a successful fold gathers sums up to what its elements count for. -/
theorem sum_gathered {γ : Type} {g : β → α → List γ} {μ : γ → ℤ} {ν : α → ℤ}
    (step : ∀ b a b', f b a = .ok b' → ((g b a).map μ).sum = ν a) {b b' : β} {as : List α}
    (hok : as.foldlM f b = .ok b') : ((gathered f g b as).map μ).sum = (as.map ν).sum := by
  induction as generalizing b with
  | nil => rfl
  | cons a as ih =>
    rw [List.foldlM_cons, Except.bind_ok_iff] at hok
    obtain ⟨b₁, hfirst, hrest⟩ := hok
    rw [gathered, hfirst, List.map_append, List.sum_append, List.map_cons, List.sum_cons,
      step b a b₁ hfirst, ih hrest]

/-- A fold over folds is a fold over all of their elements. -/
theorem foldlM_flatMap {γ : Type} (g : γ → List α) (cs : List γ) (b : β) :
    (cs.flatMap g).foldlM f b = cs.foldlM (fun b c => (g c).foldlM f b) b := by
  induction cs generalizing b with
  | nil => rfl
  | cons c cs ih =>
    rw [List.flatMap_cons, List.foldlM_append, List.foldlM_cons]
    exact bind_congr fun b' => ih b'

end Fold
