/-!
# Bindings

Names with what they are bound to, each name once, in the order of the names. The order is part of
the type, so that bindings are determined by their lookups and are listed in one way only.
-/

namespace CallScript

/-- Names with what they are bound to. -/
structure Bindings (α : Type) where
  entries : List (String × α)
  sorted : entries.Pairwise (fun a b => a.1 < b.1)

namespace Bindings

variable {α : Type}

def empty : Bindings α := ⟨[], .nil⟩

instance : Inhabited (Bindings α) := ⟨empty⟩

def lookup? (name : String) : List (String × α) → Option α
  | [] => none
  | (key, value) :: rest => if key = name then some value else lookup? name rest

def get? (b : Bindings α) (name : String) : Option α :=
  lookup? name b.entries

def contains (b : Bindings α) (name : String) : Bool :=
  (b.get? name).isSome

def names (b : Bindings α) : List String :=
  b.entries.map (·.1)

/-- Puts a name in its place in a sorted list; an entry of the same name is replaced. -/
def put (name : String) (value : α) : List (String × α) → List (String × α)
  | [] => [(name, value)]
  | (key, old) :: rest =>
    if name < key then (name, value) :: (key, old) :: rest
    else if name = key then (name, value) :: rest
    else (key, old) :: put name value rest

theorem mem_put {name : String} {value : α} {entries : List (String × α)} {e : String × α}
    (h : e ∈ put name value entries) : e.1 = name ∨ e ∈ entries := by
  induction entries with
  | nil =>
    simp only [put, List.mem_singleton] at h
    exact .inl (h ▸ rfl)
  | cons entry rest ih =>
    obtain ⟨key, old⟩ := entry
    simp only [put] at h
    split at h
    · rcases List.mem_cons.mp h with rfl | h
      · exact .inl rfl
      · exact .inr h
    · split at h
      · rcases List.mem_cons.mp h with rfl | h
        · exact .inl rfl
        · exact .inr (List.mem_cons_of_mem _ h)
      · rcases List.mem_cons.mp h with rfl | h
        · exact .inr List.mem_cons_self
        · exact (ih h).imp_right (List.mem_cons_of_mem _)

theorem pairwise_put (name : String) (value : α) {entries : List (String × α)}
    (h : entries.Pairwise (fun a b => a.1 < b.1)) :
    (put name value entries).Pairwise (fun a b => a.1 < b.1) := by
  induction entries with
  | nil => simp [put]
  | cons entry rest ih =>
    obtain ⟨key, old⟩ := entry
    obtain ⟨hkey, hrest⟩ := List.pairwise_cons.mp h
    simp only [put]
    split
    · next hlt =>
      refine List.pairwise_cons.mpr ⟨fun e he => ?_, h⟩
      rcases List.mem_cons.mp he with rfl | he
      · exact hlt
      · exact String.lt_trans hlt (hkey e he)
    · split
      · next heq =>
        refine List.pairwise_cons.mpr ⟨fun e he => ?_, hrest⟩
        exact heq ▸ hkey e he
      · next hlt hne =>
        refine List.pairwise_cons.mpr ⟨fun e he => ?_, ih hrest⟩
        rcases mem_put he with he | he
        · rw [he]
          exact Std.lt_of_le_of_ne (Std.not_lt.mp hlt) (Ne.symm hne)
        · exact hkey e he

/-- Binds a name, which replaces what it was bound to. -/
def insert (b : Bindings α) (name : String) (value : α) : Bindings α :=
  ⟨put name value b.entries, pairwise_put name value b.sorted⟩

/-- Adds all of `inner`; where both bind a name, `inner` wins. -/
def union (outer inner : Bindings α) : Bindings α :=
  inner.entries.foldl (fun b entry => b.insert entry.1 entry.2) outer

end Bindings

end CallScript
