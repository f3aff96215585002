/-!
# Tables sorted by name

A `Keyed α` holds at most one value per name and lists its entries in the order of the names. Two
tables that answer alike are equal, whatever order they were filled in, so everything that walks
over one does so in a fixed order. The view is `get?`; `get?_insert` and `get?_modify` say what the
operations do to it.
-/

namespace MgLang

/-- A finite table from names to values, in the order of the names. -/
@[ext] structure Keyed (α : Type) where
  /-- The entries, each name once. -/
  entries : List (String × α)
  /-- The names are strictly ascending. -/
  sorted : entries.Pairwise fun a b => a.1 < b.1

namespace Keyed

variable {α β : Type}

instance : EmptyCollection (Keyed α) := ⟨⟨[], .nil⟩⟩

instance : Inhabited (Keyed α) := ⟨∅⟩

/-- The names, ascending. -/
def keys (t : Keyed α) : List String :=
  t.entries.map (·.1)

/-- The values, in the order of their names. -/
def values (t : Keyed α) : List α :=
  t.entries.map (·.2)

/-- The value stored under a name. -/
def get? (t : Keyed α) (key : String) : Option α :=
  t.entries.lookup key

/-- Puts an entry into an ascending list, in the place of an entry of the same name. -/
def insertEntry (key : String) (value : α) : List (String × α) → List (String × α)
  | [] => [(key, value)]
  | e :: es =>
    if key < e.1 then (key, value) :: e :: es
    else if key = e.1 then (key, value) :: es
    else e :: insertEntry key value es

theorem key_mem_insertEntry {key : String} {value : α} {es : List (String × α)} {x : String × α}
    (h : x ∈ insertEntry key value es) : x = (key, value) ∨ x ∈ es := by
  induction es with
  | nil => simpa [insertEntry] using h
  | cons e es ih =>
    simp only [insertEntry] at h
    split at h
    · simpa using h
    · split at h
      · rcases List.mem_cons.1 h with h | h
        · exact .inl h
        · exact .inr (List.mem_cons_of_mem _ h)
      · rcases List.mem_cons.1 h with h | h
        · exact .inr (h ▸ List.mem_cons_self)
        · exact (ih h).imp_right (List.mem_cons_of_mem _)

theorem sorted_insertEntry (key : String) (value : α) {es : List (String × α)}
    (h : es.Pairwise fun a b => a.1 < b.1) :
    (insertEntry key value es).Pairwise fun a b => a.1 < b.1 := by
  induction es with
  | nil => simp [insertEntry]
  | cons e es ih =>
    obtain ⟨hlt, hs⟩ := List.pairwise_cons.1 h
    simp only [insertEntry]
    split
    · next hk =>
      refine List.pairwise_cons.2 ⟨?_, h⟩
      intro x hx
      rcases List.mem_cons.1 hx with rfl | hx
      · exact hk
      · exact String.lt_trans hk (hlt x hx)
    · split
      · next hk => exact List.pairwise_cons.2 ⟨fun x hx => hk ▸ hlt x hx, hs⟩
      · next hge hne =>
        refine List.pairwise_cons.2 ⟨?_, ih hs⟩
        intro x hx
        rcases key_mem_insertEntry hx with rfl | hx
        · exact Std.lt_of_le_of_ne (Std.not_lt.1 hge) (Ne.symm hne)
        · exact hlt x hx

/-- Stores a value under a name, in the place of the value that was there. -/
def insert (t : Keyed α) (key : String) (value : α) : Keyed α :=
  ⟨insertEntry key value t.entries, sorted_insertEntry key value t.sorted⟩

/-- Changes the value stored under a name, if there is one. -/
def modify (t : Keyed α) (key : String) (f : α → α) : Keyed α where
  entries := t.entries.map fun e => if e.1 = key then (e.1, f e.2) else e
  sorted := by
    refine List.pairwise_map.2 (t.sorted.imp ?_)
    intro a b hab
    split <;> split <;> exact hab

/-- The table filled from a list. A later entry takes the place of an earlier one of its name. -/
def ofList (es : List (String × α)) : Keyed α :=
  es.foldl (fun t e => t.insert e.1 e.2) ∅

/-! ### Look-up -/

@[simp, grind =] theorem get?_empty (key : String) : (∅ : Keyed α).get? key = none := rfl

theorem lookup_cons (e : String × α) (es : List (String × α)) (k : String) :
    (e :: es).lookup k = if k = e.1 then some e.2 else es.lookup k := by
  rw [List.lookup_cons]
  by_cases h : k = e.1
  · simp [h]
  · have : (k == e.1) = false := by simpa using h
    simp [h, this]

theorem lookup_insertEntry (key : String) (value : α) (es : List (String × α)) (k : String) :
    (insertEntry key value es).lookup k = if k = key then some value else es.lookup k := by
  induction es with
  | nil => simp [insertEntry, lookup_cons]
  | cons e es ih =>
    simp only [insertEntry]
    split
    · simp [lookup_cons]
    · split
      · next hk =>
        simp only [lookup_cons, ← hk]
        by_cases hx : k = key <;> simp [hx]
      · next hne =>
        simp only [lookup_cons, ih]
        by_cases he : k = e.1
        · have hx : k ≠ key := fun h => hne (h ▸ he)
          rw [if_pos he, if_neg hx, if_pos he]
        · simp [he]

@[simp, grind =] theorem get?_insert (t : Keyed α) (key : String) (value : α) (k : String) :
    (t.insert key value).get? k = if k = key then some value else t.get? k :=
  lookup_insertEntry key value t.entries k

@[simp, grind =] theorem get?_modify (t : Keyed α) (key : String) (f : α → α) (k : String) :
    (t.modify key f).get? k = if k = key then (t.get? k).map f else t.get? k := by
  simp only [get?, modify]
  induction t.entries with
  | nil => simp
  | cons e es ih =>
    simp only [List.map_cons, lookup_cons, ih]
    by_cases hk : e.1 = key <;> by_cases he : k = e.1 <;> by_cases hx : k = key <;> simp_all

end Keyed

end MgLang
