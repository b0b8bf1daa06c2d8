import CallScript.Bindings
import Mathlib.Data.List.Sort

/-! # Lookups in bindings

Binding a name changes the lookup of this name and of no other, and the names stay as they are if it
was bound before. Bindings with the same lookups are the same bindings. -/

namespace CallScript.Bindings

variable {α : Type} {name key : String} {value : α} {entries : List (String × α)}

theorem lookup?_put :
    lookup? key (put name value entries) =
      if name = key then some value else lookup? key entries := by
  induction entries with
  | nil => rfl
  | cons entry rest ih =>
    obtain ⟨first, old⟩ := entry
    rw [put]
    split
    next => rw [lookup?]
    next =>
      split
      next same =>
        subst same
        rw [lookup?, lookup?]
        split <;> rfl
      next different =>
        rw [lookup?, ih, lookup?]
        by_cases here : first = key
        · have other : name ≠ key := fun same => different (same.trans here.symm)
          rw [if_pos here, if_pos here, if_neg other]
        · rw [if_neg here, if_neg here]

theorem mem_of_lookup? (found : lookup? name entries = some value) : (name, value) ∈ entries := by
  induction entries with
  | nil => cases found
  | cons entry rest ih =>
    obtain ⟨first, old⟩ := entry
    rw [lookup?] at found
    split at found
    next same =>
      cases found
      rw [same]
      exact List.mem_cons_self
    next => exact List.mem_cons_of_mem _ (ih found)

/-- In a sorted list a name is looked up to the one entry that it has. -/
theorem lookup?_eq_some_iff (sorted : entries.Pairwise (fun a b => a.1 < b.1)) :
    lookup? name entries = some value ↔ (name, value) ∈ entries := by
  refine ⟨mem_of_lookup?, fun member => ?_⟩
  induction entries with
  | nil => cases member
  | cons entry rest ih =>
    obtain ⟨later, sorted⟩ := List.pairwise_cons.mp sorted
    rw [lookup?]
    rcases List.mem_cons.mp member with rfl | member
    · exact if_pos rfl
    · rw [if_neg, ih sorted member]
      intro same
      have behind : entry.1 < name := later _ member
      rw [same] at behind
      exact String.lt_irrefl name behind

/-- A name that is bound in a sorted list is replaced there. -/
theorem names_put (sorted : entries.Pairwise (fun a b => a.1 < b.1))
    (bound : (lookup? name entries).isSome = true) :
    (put name value entries).map (·.1) = entries.map (·.1) := by
  induction entries with
  | nil => cases bound
  | cons entry rest ih =>
    obtain ⟨first, old⟩ := entry
    obtain ⟨later, sorted⟩ := List.pairwise_cons.mp sorted
    rw [put]
    by_cases same : name = first
    · subst same
      rw [if_neg (String.lt_irrefl name), if_pos rfl]
      rfl
    · -- the name is bound further on, so it does not come before the first one
      rw [lookup?, if_neg (Ne.symm same)] at bound
      have behind : first < name := by
        obtain ⟨old, found⟩ := Option.isSome_iff_exists.mp bound
        exact later _ (mem_of_lookup? found)
      rw [if_neg (String.lt_asymm behind), if_neg same, List.map_cons, List.map_cons,
        ih sorted bound]

/-- A name behind all others comes to the end. -/
theorem put_of_all_lt (behind : ∀ entry ∈ entries, entry.1 < name) :
    put name value entries = entries ++ [(name, value)] := by
  induction entries with
  | nil => rfl
  | cons entry rest ih =>
    obtain ⟨first, old⟩ := entry
    obtain ⟨before, behind⟩ := List.forall_mem_cons.mp behind
    have other : name ≠ first := by
      rintro rfl
      exact String.lt_irrefl name before
    rw [put, if_neg (String.lt_asymm before), if_neg other, ih behind, List.cons_append]

theorem get?_insert (b : Bindings α) :
    (b.insert name value).get? key = if name = key then some value else b.get? key :=
  lookup?_put

theorem get?_insert_of_ne (b : Bindings α) (different : name ≠ key) :
    (b.insert name value).get? key = b.get? key := by
  rw [get?_insert, if_neg different]

theorem contains_insert (b : Bindings α) :
    (b.insert name value).contains key = (decide (name = key) || b.contains key) := by
  rw [contains, get?_insert, contains]
  by_cases same : name = key <;> simp [same]

theorem contains_iff_mem_names {b : Bindings α} :
    b.contains key = true ↔ key ∈ b.names := by
  rw [contains, get?, names]
  induction b.entries with
  | nil => simp [lookup?]
  | cons entry rest ih =>
    rw [lookup?, List.map_cons, List.mem_cons]
    split
    next same => simp [same]
    next different => rw [ih, or_iff_right (Ne.symm different)]

theorem names_insert_of_contains {b : Bindings α} (bound : b.contains name = true) :
    (b.insert name value).names = b.names :=
  names_put b.sorted bound

/-- Bindings are determined by their lookups. -/
theorem ext_get? {a b : Bindings α} (same : ∀ key, a.get? key = b.get? key) : a = b := by
  have irreflexive : Std.Irrefl fun x y : String × α => x.1 < y.1 :=
    ⟨fun x => String.lt_irrefl x.1⟩
  have antisymmetric : Std.Antisymm fun x y : String × α => x.1 < y.1 :=
    ⟨fun x y less greater => absurd greater (String.lt_asymm less)⟩
  have entries : a.entries = b.entries := by
    apply List.Pairwise.eq_of_mem_iff a.sorted b.sorted
    intro entry
    rw [← lookup?_eq_some_iff a.sorted, ← lookup?_eq_some_iff b.sorted]
    exact Eq.congr_left (same entry.1)
  cases a
  cases b
  cases entries
  rfl

/-- Bindings of two names do not depend on their order. -/
theorem insert_comm {other : String} (b : Bindings α) (different : name ≠ other) (value old : α) :
    (b.insert name value).insert other old = (b.insert other old).insert name value := by
  apply ext_get?
  intro key
  rw [get?_insert, get?_insert, get?_insert, get?_insert]
  by_cases first : name = key
  · rw [if_neg (fun second => different (first.trans second.symm)), if_pos first, if_pos first]
  · rw [if_neg first, if_neg first]

/-! ## All of other bindings -/

/-- Entries that are added one after the other to bindings are found in front of these. -/
theorem get?_foldl_insert (sorted : entries.Pairwise (fun a b => a.1 < b.1)) (b : Bindings α) :
    (entries.foldl (fun b entry => b.insert entry.1 entry.2) b).get? key =
      (lookup? key entries).or (b.get? key) := by
  induction entries generalizing b with
  | nil => rfl
  | cons entry rest ih =>
    obtain ⟨name, value⟩ := entry
    obtain ⟨later, sorted⟩ := List.pairwise_cons.mp sorted
    rw [List.foldl_cons, ih sorted, get?_insert, lookup?]
    by_cases same : name = key
    · -- a later entry would replace the value, but has another name
      have last : lookup? key rest = none := by
        cases found : lookup? key rest with
        | none => rfl
        | some old =>
          have behind : name < key := later _ (mem_of_lookup? found)
          exact absurd behind (same ▸ String.lt_irrefl name)
      rw [if_pos same, if_pos same, last, Option.none_or, Option.some_or]
    · rw [if_neg same, if_neg same]

/-- Where both bind a name, the inner bindings win. -/
theorem get?_union (outer inner : Bindings α) :
    (outer.union inner).get? key = (inner.get? key).or (outer.get? key) :=
  get?_foldl_insert inner.sorted outer

end CallScript.Bindings
