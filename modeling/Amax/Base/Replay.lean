-- SUMMARY: Replaying a log of partial steps through states that keep a property.
import Mathlib.Data.List.Basic
import Mathlib.Data.List.Destutter

/-! # Replays

A log is replayed entry by entry, and every entry has to apply where the ones
before it lead. Here every state on the way also has a property, so that it is
known of each prefix of the log that is not empty. -/

namespace Replay

variable {α σ : Type}

/-- Each entry of a log applies where the ones before it lead, and leads to a state with `P`. -/
inductive Passes (step : α → σ → Option σ) (P : σ → Prop) : σ → List α → σ → Prop
  | nil (x : σ) : Passes step P x [] x
  | cons {x y z : σ} {a : α} {l : List α} (applies : step a x = some y) (holds : P y)
      (rest : Passes step P y l z) : Passes step P x (a :: l) z

namespace Passes

variable {step : α → σ → Option σ} {P : σ → Prop} {x y z : σ} {a : α} {l l' : List α}

theorem nil_iff : Passes step P x [] z ↔ x = z := by
  constructor
  · intro h
    cases h
    rfl
  · rintro rfl
    exact .nil x

theorem cons_iff : Passes step P x (a :: l) z ↔
    ∃ y, step a x = some y ∧ P y ∧ Passes step P y l z := by
  constructor
  · intro h
    cases h with
    | cons applies holds rest => exact ⟨_, applies, holds, rest⟩
  · rintro ⟨y, applies, holds, rest⟩
    exact .cons applies holds rest

theorem append_iff : Passes step P x (l ++ l') z ↔
    ∃ y, Passes step P x l y ∧ Passes step P y l' z := by
  induction l generalizing x with
  | nil => simp only [List.nil_append, nil_iff, exists_eq_left']
  | cons a l ih =>
    simp only [List.cons_append, cons_iff, ih]
    constructor
    · rintro ⟨y, happ, hP, y', hl, hl'⟩
      exact ⟨y', ⟨y, happ, hP, hl⟩, hl'⟩
    · rintro ⟨y', ⟨y, happ, hP, hl⟩, hl'⟩
      exact ⟨y, happ, hP, y', hl, hl'⟩

/-- One more entry at the end of the log. -/
theorem concat (h : Passes step P x l y) (applies : step a y = some z) (holds : P z) :
    Passes step P x (l ++ [a]) z :=
  append_iff.mpr ⟨y, h, .cons applies holds (.nil z)⟩

/-- The property holds after a log, unless it is empty. -/
theorem last (h : Passes step P x l z) : x = z ∨ P z := by
  induction h with
  | nil x => exact .inl rfl
  | cons _ holds _ ih =>
    rcases ih with rfl | hP
    · exact .inr holds
    · exact .inr hP

/-- The whole log is valid from its first entry on. -/
theorem foldlM_eq (h : Passes step P x l z) : l.foldlM (fun x a => step a x) x = some z := by
  induction h with
  | nil x => rfl
  | cons applies _ _ ih => rw [List.foldlM_cons, applies]; exact ih

end Passes

-- ---------------------------------------------------------------------------
-- Followers
-- ---------------------------------------------------------------------------

/-- The log leads from `x` through the states `ys`, one after each entry. -/
inductive Path (step : α → σ → Option σ) : σ → List α → List σ → Prop
  | nil (x : σ) : Path step x [] []
  | cons {x y : σ} {a : α} {l : List α} {ys : List σ} (applies : step a x = some y)
      (rest : Path step y l ys) : Path step x (a :: l) (y :: ys)

namespace Path

variable {step : α → σ → Option σ} {P : σ → Prop} {x y z : σ} {a : α} {l l' : List α} {ys : List σ}

theorem append_iff : Path step x (l ++ l') ys ↔
    ∃ ys₁ ys₂, ys = ys₁ ++ ys₂ ∧ Path step x l ys₁ ∧ Path step (ys₁.getLastD x) l' ys₂ := by
  induction l generalizing x ys with
  | nil =>
    constructor
    · intro h
      exact ⟨[], ys, rfl, .nil x, h⟩
    · rintro ⟨ys₁, ys₂, rfl, h₁, h₂⟩
      cases h₁
      exact h₂
  | cons a l ih =>
    constructor
    · intro h
      cases h with
      | cons applies rest =>
        obtain ⟨ys₁, ys₂, rfl, h₁, h₂⟩ := ih.mp rest
        exact ⟨_ :: ys₁, ys₂, rfl, .cons applies h₁, by rwa [List.getLastD_cons]⟩
    · rintro ⟨ys₁, ys₂, rfl, h₁, h₂⟩
      cases h₁ with
      | cons applies rest =>
        rw [List.getLastD_cons] at h₂
        exact .cons applies (ih.mpr ⟨_, ys₂, rfl, rest, h₂⟩)

theorem passes (h : Path step x l ys) (hP : ∀ y ∈ ys, P y) : Passes step P x l (ys.getLastD x) := by
  induction h with
  | nil x => exact .nil x
  | cons applies _ ih =>
    rw [List.getLastD_cons]
    exact .cons applies (hP _ List.mem_cons_self) (ih fun y hy => hP y (List.mem_cons_of_mem _ hy))

/-- A log leads to one state only. -/
theorem last_eq (h : Path step x l ys) (hz : Passes step P x l z) : ys.getLastD x = z := by
  have hfold := (h.passes (P := fun _ => True) fun _ _ => trivial).foldlM_eq
  rw [hz.foldlM_eq] at hfold
  exact (Option.some.inj hfold).symm

end Path

/-- What a follower has been, when it now is `x`: a state it keeps is not noted again. -/
def push [DecidableEq σ] (past : List σ) (x : σ) : List σ :=
  if past.getLast? = some x then past else past ++ [x]

theorem getLast?_push [DecidableEq σ] (past : List σ) (x : σ) :
    (push past x).getLast? = some x := by
  unfold push
  split_ifs with h
  · exact h
  · exact List.getLast?_concat

/-- A follower is at `x` and has the log `l` ahead of it. Where it has been and where the log
leads are, in this order, states of the history, which all have `P`. -/
structure Trails (step : α → σ → Option σ) (P : σ → Prop) (history past : List σ) (x : σ)
    (l : List α) : Prop where
  here : past.getLast? = some x
  ahead : ∃ ys, Path step x l ys ∧ (past ++ ys).Sublist history
  holds : ∀ y ∈ history, P y

namespace Trails

variable {step : α → σ → Option σ} {P Q : σ → Prop} {history past : List σ} {x y z : σ} {a : α}
  {l l' : List α}

theorem sublist (h : Trails step P history past x l) : past.Sublist history := by
  obtain ⟨ys, -, hsub⟩ := h.ahead
  exact (List.sublist_append_left past ys).trans hsub

private theorem holds_grow (h : Trails step P history past x l) (hz : P z) :
    ∀ y ∈ history ++ [z], P y := by
  intro y hy
  rcases List.mem_append.mp hy with hy | hy
  · exact h.holds y hy
  · exact List.mem_singleton.mp hy ▸ hz

/-- The history goes on, and nothing is logged. -/
theorem skip (h : Trails step P history past x l) (hz : P z) :
    Trails step P (history ++ [z]) past x l := by
  obtain ⟨ys, hpath, hsub⟩ := h.ahead
  exact ⟨h.here, ⟨ys, hpath, hsub.trans (List.sublist_append_left _ _)⟩, h.holds_grow hz⟩

/-- The history goes on, and so does the log. -/
theorem record (h : Trails step P history past x l) (hl : Passes step Q x l y)
    (applies : step a y = some z) (hz : P z) : Trails step P (history ++ [z]) past x (l ++ [a]) := by
  obtain ⟨ys, hpath, hsub⟩ := h.ahead
  refine ⟨h.here, ⟨ys ++ [z], ?_, ?_⟩, h.holds_grow hz⟩
  · rw [← hpath.last_eq hl] at applies
    exact Path.append_iff.mpr ⟨ys, [z], rfl, hpath, .cons applies (.nil z)⟩
  · rw [← List.append_assoc]
    exact hsub.append_right [z]

/-- The history goes on, and the log begins again with it. -/
theorem restart (h : Trails step P history past x l) (applies : step a x = some z) (hz : P z) :
    Trails step P (history ++ [z]) past x [a] :=
  ⟨h.here, ⟨[z], .cons applies (.nil z), h.sublist.append_right [z]⟩, h.holds_grow hz⟩

section push

variable [DecidableEq σ]

private theorem push_sublist {ys : List σ} (h : (past ++ x :: ys).Sublist history) :
    (push past x ++ ys).Sublist history := by
  unfold push
  split_ifs
  · exact ((List.sublist_cons_self x ys).append_left past).trans h
  · rwa [List.append_assoc, List.singleton_append]

/-- The follower takes the first entries of the log. -/
theorem advance (h : Trails step P history past x (l ++ l')) (hl : Passes step Q x l y) :
    Trails step P history (push past y) y l' := by
  obtain ⟨ys, hpath, hsub⟩ := h.ahead
  obtain ⟨ys₁, ys₂, rfl, h₁, h₂⟩ := Path.append_iff.mp hpath
  rw [h₁.last_eq hl] at h₂
  refine ⟨getLast?_push past y, ⟨ys₂, h₂, ?_⟩, h.holds⟩
  rcases List.eq_nil_or_concat ys₁ with rfl | ⟨ys₀, w, rfl⟩
  · rw [push, if_pos (h.here.trans (congrArg some (h₁.last_eq hl)))]
    exact hsub
  · have hw := h₁.last_eq hl
    rw [List.concat_eq_append, List.getLastD_concat] at hw
    subst hw
    refine push_sublist (List.Sublist.trans ?_ hsub)
    rw [List.concat_eq_append, List.append_assoc, List.singleton_append]
    exact (List.sublist_append_right ys₀ (w :: ys₂)).append_left past

/-- The history goes on, and the follower goes where it is. -/
theorem jump (h : Trails step P history past x l) (hz : P z) :
    Trails step P (history ++ [z]) (push past z) z [] := by
  refine ⟨getLast?_push past z, ⟨[], .nil z, ?_⟩, h.holds_grow hz⟩
  exact push_sublist (h.sublist.append_right [z])

end push

end Trails

-- ---------------------------------------------------------------------------
-- States without repetitions
-- ---------------------------------------------------------------------------

section destutter

variable [DecidableEq σ]

end destutter

end Replay
