-- SUMMARY: Patches of partial maps: what recorded edits do to a map, and how recorded edits compose.
import Amax.Base.Patch
import Mathlib.Logic.Function.Basic

/-! # Patches of maps

A patch is a table with at most one edit for each key: the key gets a value,
gets a new value, or loses its value. A patch is valid on a map when every edit
finds its key in the state it needs, and patches that follow each other compose
key by key. -/

namespace MapPatch

/-- An edit of one key. -/
inductive Edit (α : Type) where
  | add (a : α)
  | modify (a : α)
  | del
  deriving DecidableEq

variable {α : Type}

/-- What an edit, or no edit, does to the value `v` of a key: afterwards it is `v'`. -/
def Takes : Option (Edit α) → Option α → Option α → Prop
  | none, v, v' => v' = v
  | some (.add a), v, v' => v = none ∧ v' = some a
  | some (.modify a), v, v' => v ≠ none ∧ v' = some a
  | some .del, v, v' => v ≠ none ∧ v' = none

/-- What an edit does to the set of keys that have a value. -/
def Edit.kind : Edit α → Patch.Kind
  | .add _ => .add
  | .modify _ => .modify
  | .del => .del

/-- The one edit that does what two edits of a key do, if they fit together. -/
def compose : Option (Edit α) → Edit α → Option (Option (Edit α))
  | none, e => some (some e)
  | some (.add _), .modify a => some (some (.add a))
  | some (.add _), .del => some none
  | some (.modify _), .modify a => some (some (.modify a))
  | some (.modify _), .del => some (some .del)
  | some .del, .add a => some (some (.modify a))
  | some (.add _), .add _ => none
  | some (.modify _), .add _ => none
  | some .del, .modify _ => none
  | some .del, .del => none

/-- The one edit that does what two edits of a key, or none, do. -/
def composeWith (e : Option (Edit α)) : Option (Edit α) → Option (Option (Edit α))
  | none => some e
  | some e' => compose e e'

theorem Takes.unique {e : Option (Edit α)} {v v' v'' : Option α} (h : Takes e v v')
    (h' : Takes e v v'') : v' = v'' := by
  cases e with
  | none => exact h.trans h'.symm
  | some e => cases e <;> exact h.2.trans h'.2.symm

/-- Edits that follow each other compose. -/
theorem Takes.compose {e : Option (Edit α)} {e' : Edit α} {v v' v'' : Option α} (h : Takes e v v')
    (h' : Takes (some e') v' v'') : ∃ c, MapPatch.compose e e' = some c ∧ Takes c v v'' := by
  cases e with
  | none =>
    obtain rfl : v' = v := h
    exact ⟨some e', rfl, h'⟩
  | some e =>
    cases e <;> cases e' <;> simp_all [Takes, MapPatch.compose]

/-- An edit that is valid for the set of keys is valid for their values. -/
theorem Takes.lift {e : Option (Edit α)} {v : Option α} {b b' : Prop}
    (h : Patch.Takes (e.map Edit.kind) b b') (hv : b ↔ v.isSome) :
    ∃ v', Takes e v v' ∧ (b' ↔ v'.isSome) := by
  cases e with
  | none => exact ⟨v, rfl, h.symm.trans hv⟩
  | some e =>
    cases e with
    | add a => exact ⟨some a, ⟨by simpa [hv] using h.1, rfl⟩, by simpa using h.2⟩
    | modify a =>
      have hne := Option.isSome_iff_ne_none.mp (hv.mp h.1)
      exact ⟨some a, ⟨hne, rfl⟩, by simpa using h.2⟩
    | del =>
      have hne := Option.isSome_iff_ne_none.mp (hv.mp h.1)
      exact ⟨none, ⟨hne, rfl⟩, by simpa using h.2⟩

section Table

variable {κ ν : Type} [LinearOrder κ] {key : ν → κ}

/-- The edit a table holds for `k`. -/
def editAt (t : Table key) (edit : ν → Edit α) (k : κ) : Option (Edit α) := (t.find? k).map edit

/-- The edits of `t` turn the map `S` into the map `S'`. -/
def Turns (t : Table key) (edit : ν → Edit α) (S S' : κ → Option α) : Prop :=
  ∀ k, Takes (editAt t edit k) (S k) (S' k)

/-- Perform one edit, if its key is in the state it needs. -/
def step (e : Edit α) (k : κ) (S : κ → Option α) : Option (κ → Option α) :=
  match e, S k with
  | .add a, none => some (Function.update S k (some a))
  | .modify a, some _ => some (Function.update S k (some a))
  | .del, some _ => some (Function.update S k none)
  | _, _ => none

/-- Perform all edits of a table. -/
def run (t : Table key) (edit : ν → Edit α) (S : κ → Option α) : Option (κ → Option α) :=
  t.rows.foldlM (fun S r => step (edit r) (key r) S) S

variable {t : Table key} {edit : ν → Edit α} {S S' S'' : κ → Option α}

private theorem step_iff {e : Edit α} {n : κ} :
    step e n S = some S' ↔ Takes (some e) (S n) (S' n) ∧ ∀ m, m ≠ n → S' m = S m := by
  have hupdate : ∀ v : Option α, Function.update S n v = S' ↔ S' n = v ∧ ∀ m, m ≠ n → S' m = S m := by
    intro v
    constructor
    · rintro rfl
      exact ⟨Function.update_self n v S, fun m hm => Function.update_of_ne hm v S⟩
    · rintro ⟨hn, hm⟩
      funext m
      by_cases hmn : m = n
      · rw [hmn, Function.update_self, hn]
      · rw [Function.update_of_ne hmn, hm m hmn]
  cases e <;> cases hS : S n <;> simp [step, hS, Takes, hupdate]

private theorem foldlM_step_iff {l : List ν} (hl : l.Pairwise (fun a b => key a < key b)) :
    l.foldlM (fun S r => step (edit r) (key r) S) S = some S' ↔
      ∀ k, Takes ((l.find? (fun r => key r = k)).map edit) (S k) (S' k) := by
  induction l generalizing S with
  | nil =>
    simp only [List.foldlM_nil, List.find?_nil, Option.map_none, Takes, Option.pure_def,
      Option.some.injEq]
    exact ⟨fun h k => congrFun h.symm k, fun h => funext fun k => (h k).symm⟩
  | cons r rs ih =>
    obtain ⟨hr, hrs⟩ := List.pairwise_cons.mp hl
    have hfresh : rs.find? (fun x => key x = key r) = none :=
      List.find?_eq_none.mpr fun x hx => by simpa using (hr x hx).ne'
    simp only [List.foldlM_cons, Option.bind_eq_bind, Option.bind_eq_some_iff, ih hrs, step_iff]
    constructor
    · rintro ⟨T, ⟨hT, hrest⟩, h⟩ k
      have hk := h k
      by_cases hkey : key r = k
      · subst hkey
        simp only [hfresh, Option.map_none, Takes] at hk
        simpa [hk] using hT
      · rw [hrest k (Ne.symm hkey)] at hk
        simpa [List.find?_cons, hkey] using hk
    · intro h
      refine ⟨Function.update S (key r) (S' (key r)), ⟨?_, fun m hm => ?_⟩, fun k => ?_⟩
      · have hk := h (key r)
        simp only [List.find?_cons, decide_true, Option.map_some] at hk
        rwa [Function.update_self]
      · exact Function.update_of_ne hm _ S
      · have hk := h k
        by_cases hkey : key r = k
        · subst hkey
          simp only [hfresh, Option.map_none, Takes, Function.update_self]
        · rw [Function.update_of_ne (Ne.symm hkey)]
          simpa [List.find?_cons, hkey] using hk

/-- Running a patch succeeds exactly when its edits are valid. -/
theorem run_eq_some_iff : run t edit S = some S' ↔ Turns t edit S S' :=
  foldlM_step_iff t.sorted

/-- A patch that is valid on the set of keys is valid on their values. -/
theorem Turns.lift {K K' : Finset κ} (h : Patch.Turns t (fun r => (edit r).kind) K K')
    (hS : ∀ k, k ∈ K ↔ (S k).isSome) :
    ∃ S', Turns t edit S S' ∧ ∀ k, k ∈ K' ↔ (S' k).isSome := by
  have hkey : ∀ k, ∃ v, Takes (editAt t edit k) (S k) v ∧ (k ∈ K' ↔ v.isSome) := fun k => by
    refine Takes.lift ?_ (hS k)
    rw [editAt, Option.map_map]
    exact h k
  choose S' hS' using hkey
  exact ⟨S', fun k => (hS' k).1, fun k => (hS' k).2⟩

/-- A patch that takes up one more edit does what the patch and the edit do. -/
theorem Turns.push {t' : Table key} {n : κ} {e : Edit α} {c : Option (Edit α)}
    (h : Turns t edit S S') (hc : compose (editAt t edit n) e = some c)
    (ht : ∀ m, editAt t' edit m = if m = n then c else editAt t edit m)
    (hs : step e n S' = some S'') : Turns t' edit S S'' := by
  obtain ⟨htakes, hrest⟩ := step_iff.mp hs
  intro m
  rw [ht]
  split_ifs with hm
  · subst hm
    obtain ⟨c', hc', hcomposed⟩ := (h m).compose htakes
    obtain rfl : c = c' := Option.some.inj (hc.symm.trans hc')
    exact hcomposed
  · rw [hrest m hm]
    exact h m

/-- A patch has room for every edit that is valid on the map it leads to. -/
theorem Turns.compose_isSome {n : κ} {e : Edit α} (h : Turns t edit S S')
    (hs : step e n S' = some S'') : ∃ c, compose (editAt t edit n) e = some c := by
  obtain ⟨c, hc, -⟩ := (h n).compose (step_iff.mp hs).1
  exact ⟨c, hc⟩

/-- A patch whose edits are the compositions of two patches does what they do. -/
theorem Turns.trans {t' t'' : Table key} (h : Turns t edit S S') (h' : Turns t' edit S' S'')
    (hc : ∀ k, composeWith (editAt t edit k) (editAt t' edit k) = some (editAt t'' edit k)) :
    Turns t'' edit S S'' := by
  intro k
  have hk := hc k
  have hfirst := h k
  have hsecond := h' k
  cases he : editAt t' edit k with
  | none =>
    rw [he] at hk hsecond
    rw [show S'' k = S' k from hsecond, ← Option.some.inj hk]
    exact hfirst
  | some e =>
    rw [he] at hk hsecond
    obtain ⟨c, hcomp, htakes⟩ := hfirst.compose hsecond
    obtain rfl : c = editAt t'' edit k := Option.some.inj (hcomp.symm.trans hk)
    exact htakes

end Table

end MapPatch
