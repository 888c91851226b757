-- SUMMARY: Patches of finite sets: what recorded edits do to membership, and how recorded edits compose.
import Amax.Base.Table
import Mathlib.Data.Finset.Card

/-! # Patches

A patch is a table with at most one edit for each key: the key joins the set,
stays in it with a new value, or leaves it. A patch is valid on a set when every
edit finds its key in the state it needs, and patches that follow each other
compose key by key. -/

namespace Patch

/-- The kinds of edits. -/
inductive Kind where
  | add
  | modify
  | del
  deriving DecidableEq

/-- What an edit, or no edit, does to one key: `b` says that the key is in the
set before it and `b'` that it is in the set after it. -/
def Takes : Option Kind → Prop → Prop → Prop
  | none, b, b' => (b ↔ b')
  | some .add, b, b' => ¬b ∧ b'
  | some .modify, b, b' => b ∧ b'
  | some .del, b, b' => b ∧ ¬b'

/-- The one edit that does what two edits of a key do, if they fit together. -/
def compose : Option Kind → Kind → Option (Option Kind)
  | none, k => some (some k)
  | some .add, .modify => some (some .add)
  | some .add, .del => some none
  | some .modify, .modify => some (some .modify)
  | some .modify, .del => some (some .del)
  | some .del, .add => some (some .modify)
  | some .add, .add => none
  | some .modify, .add => none
  | some .del, .modify => none
  | some .del, .del => none

theorem Takes.compose {e : Option Kind} {k : Kind} {b b' b'' : Prop} (h : Takes e b b')
    (h' : Takes (some k) b' b'') : ∃ e', compose e k = some e' ∧ Takes e' b b'' := by
  cases e with
  | none => exact ⟨some k, rfl, by cases k <;> simp_all [Takes]⟩
  | some e => cases e <;> cases k <;> simp_all [Takes, Patch.compose]

section Table

variable {κ ν : Type} [LinearOrder κ] {key : ν → κ}

/-- The kind of the edit a table holds for `k`. -/
def kindAt (t : Table key) (kind : ν → Kind) (k : κ) : Option Kind := (t.find? k).map kind

/-- The edits of `t` turn the set `S` into the set `S'`. -/
def Turns (t : Table key) (kind : ν → Kind) (S S' : Finset κ) : Prop :=
  ∀ k, Takes (kindAt t kind k) (k ∈ S) (k ∈ S')

/-- Perform one edit, if its key is in the state it needs. -/
def step (kind : Kind) (k : κ) (S : Finset κ) : Option (Finset κ) :=
  match kind with
  | .add => if k ∈ S then none else some (insert k S)
  | .modify => if k ∈ S then some S else none
  | .del => if k ∈ S then some (S.erase k) else none

/-- Perform all edits of a table. -/
def run (t : Table key) (kind : ν → Kind) (S : Finset κ) : Option (Finset κ) :=
  t.rows.foldlM (fun S e => step (kind e) (key e) S) S

variable {t : Table key} {kind : ν → Kind} {S S' S'' : Finset κ}

theorem turns_empty (S : Finset κ) : Turns (Table.empty : Table key) kind S S :=
  fun _ => Iff.rfl

/-- A patch that adds the keys of `S`, and does nothing else. -/
def Adds (t : Table key) (kind : ν → Kind) (S : Finset κ) : Prop :=
  ∀ k, kindAt t kind k = if k ∈ S then some .add else none

theorem adds_empty : Adds (Table.empty : Table key) kind ∅ := fun _ => rfl

theorem Adds.turns (h : Adds t kind S) : Turns t kind ∅ S := by
  intro k
  rw [h k]
  by_cases hk : k ∈ S <;> simp [hk, Takes]

theorem Adds.find?_eq_none (h : Adds t kind S) {k : κ} (hk : k ∉ S) : t.find? k = none := by
  simpa [kindAt, hk] using h k

theorem Adds.set (h : Adds t kind S) {e : ν} (he : kind e = .add) :
    Adds (t.set e) kind (insert (key e) S) := by
  intro k
  have hk := h k
  simp only [kindAt, Table.find?_set, Finset.mem_insert] at hk ⊢
  by_cases hke : key e = k
  · simp [hke, he]
  · simp [hke, Ne.symm hke, hk]

/-- The patch has one row for each key it adds. -/
theorem Adds.length_eq (h : Adds t kind S) : t.rows.length = S.card := by
  have hnodup : (t.rows.map key).Nodup :=
    List.pairwise_map.mpr (t.sorted.imp fun hlt => hlt.ne)
  have hset : (t.rows.map key).toFinset = S := by
    ext k
    have hk := h k
    rw [List.mem_toFinset, List.mem_map]
    constructor
    · rintro ⟨e, he, rfl⟩
      by_contra hnot
      rw [kindAt, Table.find?_of_mem he, if_neg hnot] at hk
      cases hk
    · intro hS
      rw [if_pos hS, kindAt, Option.map_eq_some_iff] at hk
      obtain ⟨e, he, -⟩ := hk
      exact ⟨e, Table.mem_of_find? he, Table.key_of_find? he⟩
  rw [← hset, List.toFinset_card_of_nodup hnodup, List.length_map]

/-- The set after a patch is determined by the patch and the set before it. -/
theorem Turns.unique (h : Turns t kind S S') (h' : Turns t kind S S'') : S' = S'' := by
  ext k
  have hk := h k
  have hk' := h' k
  cases he : kindAt t kind k with
  | none =>
    rw [he] at hk hk'
    exact hk.symm.trans hk'
  | some e => cases e <;> simp_all [Takes]

private theorem step_iff {k : Kind} {n : κ} :
    step k n S = some S' ↔
      Takes (some k) (n ∈ S) (n ∈ S') ∧ ∀ m, m ≠ n → (m ∈ S ↔ m ∈ S') := by
  constructor
  · cases k <;> simp only [step] <;> split_ifs with hn <;>
      simp only [Option.some.injEq, IsEmpty.forall_iff] <;> rintro rfl <;> simp_all [Takes]
  · rintro ⟨h, hm⟩
    cases k with
    | add =>
      simp only [step, if_neg h.1, Option.some.injEq]
      ext m
      by_cases hmn : m = n
      · simp [hmn, h.2]
      · simp [hmn, hm m hmn]
    | modify =>
      simp only [step, if_pos h.1, Option.some.injEq]
      ext m
      by_cases hmn : m = n
      · simp [hmn, h.1, h.2]
      · exact hm m hmn
    | del =>
      simp only [step, if_pos h.1, Option.some.injEq]
      ext m
      by_cases hmn : m = n
      · simp [hmn, h.2]
      · simp [hmn, hm m hmn]

private theorem foldlM_step_iff {l : List ν} (hl : l.Pairwise (fun a b => key a < key b)) :
    l.foldlM (fun S e => step (kind e) (key e) S) S = some S' ↔
      ∀ k, Takes ((l.find? (fun e => key e = k)).map kind) (k ∈ S) (k ∈ S') := by
  induction l generalizing S with
  | nil =>
    simp only [List.foldlM_nil, List.find?_nil, Option.map_none, Takes, Option.pure_def,
      Option.some.injEq]
    exact ⟨fun h k => by rw [h], fun h => Finset.ext h⟩
  | cons e es ih =>
    obtain ⟨he, hes⟩ := List.pairwise_cons.mp hl
    have hfresh : es.find? (fun x => key x = key e) = none :=
      List.find?_eq_none.mpr fun x hx => by simpa using (he x hx).ne'
    simp only [List.foldlM_cons, Option.bind_eq_bind, Option.bind_eq_some_iff, ih hes, step_iff]
    constructor
    · rintro ⟨T, ⟨hT, hrest⟩, h⟩ k
      by_cases hk : key e = k
      · subst hk
        have := h (key e)
        simp only [hfresh, Option.map_none, Takes] at this
        simpa [this] using hT
      · have := h k
        rw [← hrest k (Ne.symm hk)] at this
        simpa [List.find?_cons, hk] using this
    · intro h
      refine ⟨if key e ∈ S' then insert (key e) S else S.erase (key e), ⟨?_, ?_⟩, fun k => ?_⟩
      · have := h (key e)
        simp only [List.find?_cons, decide_true, Option.map_some] at this
        by_cases hin : key e ∈ S' <;> simpa [hin] using this
      · intro m hm
        by_cases hin : key e ∈ S' <;> simp [hin, hm]
      · by_cases hk : key e = k
        · subst hk
          simp only [hfresh, Option.map_none, Takes]
          by_cases hin : key e ∈ S' <;> simp [hin]
        · have := h k
          simp only [List.find?_cons, hk, decide_false] at this
          have hmem : (k ∈ if key e ∈ S' then insert (key e) S else S.erase (key e)) ↔ k ∈ S := by
            split_ifs <;> simp [Ne.symm hk]
          rwa [hmem]

/-- Running a patch succeeds exactly when its edits are valid. -/
theorem run_eq_some_iff : run t kind S = some S' ↔ Turns t kind S S' :=
  foldlM_step_iff t.sorted

/-- One more edit at `n`, recorded into a patch with its own edit for `n`. -/
theorem Turns.edit {t' : Table key} {n : κ} {k : Kind} {e : Option Kind} (h : Turns t kind S S')
    (hc : compose (kindAt t kind n) k = some e)
    (ht : ∀ m, kindAt t' kind m = if m = n then e else kindAt t kind m)
    (hs : step k n S' = some S'') : Turns t' kind S S'' := by
  obtain ⟨hk, hrest⟩ := step_iff.mp hs
  intro m
  rw [ht]
  split_ifs with hm
  · subst hm
    obtain ⟨e', he', htakes⟩ := (h m).compose hk
    rw [hc, Option.some.injEq] at he'
    exact he' ▸ htakes
  · have := h m
    rwa [hrest m hm] at this

/-- A patch has room for every edit that is valid on the set it leads to. -/
theorem Turns.compose_isSome {n : κ} {k : Kind} (h : Turns t kind S S')
    (hs : step k n S' = some S'') : ∃ e, compose (kindAt t kind n) k = some e := by
  obtain ⟨e, he, -⟩ := (h n).compose (step_iff.mp hs).1
  exact ⟨e, he⟩

/-- Two patches in a row are the patch that composes them key by key. -/
theorem Turns.trans {t' t'' : Table key} (h : Turns t kind S S') (h' : Turns t' kind S' S'')
    (ht : ∀ m, match kindAt t' kind m with
      | none => kindAt t'' kind m = kindAt t kind m
      | some k => compose (kindAt t kind m) k = some (kindAt t'' kind m)) :
    Turns t'' kind S S'' := by
  intro m
  have hm := ht m
  have h₁ := h m
  have h₂ := h' m
  cases he : kindAt t' kind m with
  | none =>
    simp only [he] at hm h₂
    rw [hm]
    simp only [Takes] at h₂
    rwa [h₂] at h₁
  | some k =>
    simp only [he] at hm h₂
    obtain ⟨e, hc, htakes⟩ := h₁.compose h₂
    rw [hm, Option.some.injEq] at hc
    exact hc ▸ htakes

end Table

end Patch
