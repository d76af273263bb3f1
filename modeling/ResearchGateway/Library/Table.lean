import Mathlib.Data.List.Nodup
import Mathlib.Data.List.Basic
import Mathlib.Data.List.Perm.Subperm

/-! Tables whose rows have distinct keys.

The rows stand in insertion order. `put` overwrites the row with the same key,
`insert` appends a row whose key is new, `keep` deletes the rows that fail a test
and `mapRows` rewrites rows without touching their keys. Key uniqueness is a
field, so no operation can build a table that breaks it. -/
namespace Library

structure Table (ρ κ : Type) (key : ρ → κ) where
  rows : List ρ
  unique : (rows.map key).Nodup

namespace Table
variable {ρ κ : Type} {key : ρ → κ}

def empty : Table ρ κ key := ⟨[], List.nodup_nil⟩

def keep (t : Table ρ κ key) (p : ρ → Bool) : Table ρ κ key where
  rows := t.rows.filter p
  unique := t.unique.sublist (List.filter_sublist.map key)

/-- Tables are told apart by their rows. -/
theorem ext_rows {t t' : Table ρ κ key} (h : t.rows = t'.rows) : t = t' := by
  cases t
  cases t'
  congr

theorem keep_keep {t : Table ρ κ key} {p q r : ρ → Bool} (h : ∀ x ∈ t.rows, (p x && q x) = r x) :
    (t.keep q).keep p = t.keep r := by
  refine ext_rows ?_
  show (t.rows.filter q).filter p = t.rows.filter r
  rw [List.filter_filter]
  exact List.filter_congr h

theorem keep_congr {t : Table ρ κ key} {p q : ρ → Bool} (h : ∀ x ∈ t.rows, p x = q x) :
    t.keep p = t.keep q := ext_rows (List.filter_congr h)

theorem keep_all {t : Table ρ κ key} {p : ρ → Bool} (h : ∀ x ∈ t.rows, p x = true) : t.keep p = t :=
  ext_rows (List.filter_eq_self.mpr h)

variable [DecidableEq κ]

def find? (t : Table ρ κ key) (k : κ) : Option ρ := t.rows.find? fun r => key r = k

def Fresh (t : Table ρ κ key) (k : κ) : Prop := ∀ r ∈ t.rows, key r ≠ k

instance (t : Table ρ κ key) (k : κ) : Decidable (t.Fresh k) :=
  inferInstanceAs (Decidable (∀ r ∈ t.rows, key r ≠ k))

def insert (t : Table ρ κ key) (r : ρ) (h : t.Fresh (key r)) : Table ρ κ key where
  rows := t.rows ++ [r]
  unique := by
    rw [List.map_append, List.map_singleton]
    refine List.Nodup.append t.unique (List.nodup_singleton _) ?_
    intro k hk hk'
    obtain ⟨x, hx, rfl⟩ := List.mem_map.mp hk
    exact h x hx (List.mem_singleton.mp hk')

def mapRows (t : Table ρ κ key) (f : ρ → ρ) (hf : ∀ r, key (f r) = key r) : Table ρ κ key where
  rows := t.rows.map f
  unique := by
    have : (t.rows.map f).map key = t.rows.map key := by
      rw [List.map_map]
      exact List.map_congr_left fun r _ => hf r
    rw [this]
    exact t.unique

/-- Overwrite the row with the key of `r`, if there is one. -/
def put (t : Table ρ κ key) (r : ρ) : Table ρ κ key :=
  t.mapRows (fun x => if key x = key r then r else x) (by intro x; split <;> simp_all)

/-- A row is found under its own key, and only there. -/
theorem find?_eq_some {t : Table ρ κ key} {k : κ} {r : ρ} :
    t.find? k = some r ↔ r ∈ t.rows ∧ key r = k := by
  constructor
  · intro h
    exact ⟨List.mem_of_find?_eq_some h, by simpa using List.find?_some h⟩
  · rintro ⟨hr, rfl⟩
    cases hf : t.find? (key r) with
    | none => simp [find?, List.find?_eq_none] at hf; exact absurd rfl (hf r hr)
    | some x =>
      have hx : key x = key r := by simpa using List.find?_some hf
      rw [List.inj_on_of_nodup_map t.unique (List.mem_of_find?_eq_some hf) hr hx]

theorem find?_eq_none {t : Table ρ κ key} {k : κ} : t.find? k = none ↔ t.Fresh k := by
  simp [find?, Fresh, List.find?_eq_none]

theorem key_of_find? {t : Table ρ κ key} {k : κ} {r : ρ} (h : t.find? k = some r) : key r = k :=
  (find?_eq_some.mp h).2

theorem find?_insert (t : Table ρ κ key) (r : ρ) (h : t.Fresh (key r)) (k : κ) :
    (t.insert r h).find? k = if key r = k then some r else t.find? k := by
  by_cases hk : key r = k
  · subst hk
    rw [if_pos rfl]
    exact find?_eq_some.mpr ⟨List.mem_append_right _ (List.mem_singleton_self r), rfl⟩
  · simp [find?, insert, List.find?_append, hk]

theorem find?_mapRows (t : Table ρ κ key) (f : ρ → ρ) (hf : ∀ r, key (f r) = key r) (k : κ) :
    (t.mapRows f hf).find? k = (t.find? k).map f := by
  simp only [find?, mapRows, List.find?_map, Function.comp_def, hf]

theorem find?_put (t : Table ρ κ key) (r : ρ) (k : κ) :
    (t.put r).find? k = if key r = k then (t.find? k).map (fun _ => r) else t.find? k := by
  rw [put, find?_mapRows]
  by_cases hk : key r = k
  · subst hk
    rw [if_pos rfl]
    refine Option.map_congr fun x hx => ?_
    rw [if_pos (key_of_find? hx)]
  · rw [if_neg hk]
    cases hf : t.find? k with
    | none => rfl
    | some x =>
      have hx : key x ≠ key r := by
        rw [key_of_find? hf]
        exact Ne.symm hk
      simp [hx]

theorem find?_keep (t : Table ρ κ key) (p : ρ → Bool) (k : κ) :
    (t.keep p).find? k = (t.find? k).filter p := by
  cases hf : t.find? k with
  | none =>
    rw [Option.filter_none, find?_eq_none]
    intro r hr
    exact find?_eq_none.mp hf r (List.mem_of_mem_filter hr)
  | some r =>
    obtain ⟨hr, hk⟩ := find?_eq_some.mp hf
    cases hp : p r with
    | true =>
      rw [Option.filter_some_pos hp]
      exact find?_eq_some.mpr ⟨List.mem_filter.mpr ⟨hr, hp⟩, hk⟩
    | false =>
      rw [Option.filter_some_neg (by simp [hp]), find?_eq_none]
      intro x hx hxk
      obtain ⟨hx, hpx⟩ := List.mem_filter.mp hx
      rw [List.inj_on_of_nodup_map t.unique hx hr (hxk.trans hk.symm), hp] at hpx
      exact Bool.false_ne_true hpx

/-- Rows that pass a test are counted by their keys. -/
theorem count_le {t t' : Table ρ κ key} {p : ρ → Bool} (more : List κ)
    (h : ∀ k r, t'.find? k = some r → p r = true →
      (∃ x, t.find? k = some x ∧ p x = true) ∨ k ∈ more) :
    (t'.rows.filter p).length ≤ (t.rows.filter p).length + more.length := by
  have hnodup : ((t'.rows.filter p).map key).Nodup := t'.unique.sublist (List.filter_sublist.map key)
  have hsub : (t'.rows.filter p).map key ⊆ (t.rows.filter p).map key ++ more := by
    intro k hk
    obtain ⟨r, hr, rfl⟩ := List.mem_map.mp hk
    obtain ⟨hr, hp⟩ := List.mem_filter.mp hr
    rcases h _ r (find?_eq_some.mpr ⟨hr, rfl⟩) hp with ⟨x, hx, hpx⟩ | hmore
    · obtain ⟨hx, hkey⟩ := find?_eq_some.mp hx
      exact List.mem_append_left _ (List.mem_map.mpr ⟨x, List.mem_filter.mpr ⟨hx, hpx⟩, hkey⟩)
    · exact List.mem_append_right _ hmore
  simpa using (List.subperm_of_subset hnodup hsub).length_le

/-- One more row passes the test when those that passed still do and a new one does. -/
theorem count_lt {t t' : Table ρ κ key} {p : ρ → Bool} {k : κ} {r : ρ}
    (hkept : ∀ k x, t.find? k = some x → p x = true → ∃ y, t'.find? k = some y ∧ p y = true)
    (hr : t'.find? k = some r) (hp : p r = true) (hnew : ∀ x, t.find? k = some x → p x = false) :
    (t.rows.filter p).length < (t'.rows.filter p).length := by
  have hnodup : (k :: (t.rows.filter p).map key).Nodup := by
    refine List.nodup_cons.mpr ⟨fun hk => ?_, t.unique.sublist (List.filter_sublist.map key)⟩
    obtain ⟨x, hx, hkey⟩ := List.mem_map.mp hk
    obtain ⟨hx, hpx⟩ := List.mem_filter.mp hx
    rw [hnew x (find?_eq_some.mpr ⟨hx, hkey⟩)] at hpx
    cases hpx
  have hsub : k :: (t.rows.filter p).map key ⊆ (t'.rows.filter p).map key := by
    have hpass {k : κ} {y : ρ} (hy : t'.find? k = some y) (hpy : p y = true) :
        k ∈ (t'.rows.filter p).map key := by
      obtain ⟨hmem, hkey⟩ := find?_eq_some.mp hy
      exact List.mem_map.mpr ⟨y, List.mem_filter.mpr ⟨hmem, hpy⟩, hkey⟩
    intro k' hk'
    rcases List.mem_cons.mp hk' with rfl | hk'
    · exact hpass hr hp
    · obtain ⟨x, hx, rfl⟩ := List.mem_map.mp hk'
      obtain ⟨hx, hpx⟩ := List.mem_filter.mp hx
      obtain ⟨y, hy, hpy⟩ := hkept _ x (find?_eq_some.mpr ⟨hx, rfl⟩) hpx
      exact hpass hy hpy
  have hle := (List.subperm_of_subset hnodup hsub).length_le
  simp only [List.length_cons, List.length_map] at hle
  omega

/-- Composite keys are distinct when the second parts are, among equal first parts. -/
theorem nodup_composite {ρ β : Type} (f : ρ → κ) (g : ρ → β) (rows : List ρ)
    (h : ∀ k, ((rows.filter fun r => f r = k).map g).Nodup) : (rows.map fun r => (f r, g r)).Nodup := by
  induction rows with
  | nil => exact List.nodup_nil
  | cons r rest ih =>
    have hgroup := h (f r)
    rw [List.filter_cons_of_pos (by simp), List.map_cons, List.nodup_cons] at hgroup
    refine List.nodup_cons.mpr ⟨fun hmem => ?_, ih fun k => ?_⟩
    · obtain ⟨x, hx, hkey⟩ := List.mem_map.mp hmem
      obtain ⟨hf, hg⟩ := Prod.mk.inj hkey
      refine hgroup.1 (List.mem_map.mpr ⟨x, List.mem_filter.mpr ⟨hx, by simpa using hf⟩, hg⟩)
    · exact (h k).sublist (((List.sublist_cons_self r rest).filter _).map g)

end Table

end Library
