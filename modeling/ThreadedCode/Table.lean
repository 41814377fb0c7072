/-!
Finite maps that remember the order in which their keys first came. Writing to a key that is there
keeps its place; a key that was erased and comes again goes to the end.
-/

namespace ThreadedCode

structure Table (κ α : Type) where
  entries : List (κ × α)
deriving DecidableEq

namespace Table

variable {κ α : Type}

instance : EmptyCollection (Table κ α) := ⟨⟨[]⟩⟩

instance : Inhabited (Table κ α) := ⟨∅⟩

def keys (t : Table κ α) : List κ := t.entries.map (·.1)

def values (t : Table κ α) : List α := t.entries.map (·.2)

def isEmpty (t : Table κ α) : Bool := t.entries.isEmpty

variable [DecidableEq κ]

def get? (t : Table κ α) (k : κ) : Option α :=
  (t.entries.find? fun e => e.1 = k).map (·.2)

def contains (t : Table κ α) (k : κ) : Bool := (t.get? k).isSome

/-- Entries with the value of one key set, in place or else at the end. -/
def insertEntry (k : κ) (a : α) : List (κ × α) → List (κ × α)
  | [] => [(k, a)]
  | e :: rest => if e.1 = k then (k, a) :: rest else e :: insertEntry k a rest

def insert (t : Table κ α) (k : κ) (a : α) : Table κ α := ⟨insertEntry k a t.entries⟩

def erase (t : Table κ α) (k : κ) : Table κ α := ⟨t.entries.filter fun e => e.1 ≠ k⟩

def set (t : Table κ α) (k : κ) : Option α → Table κ α
  | none => t.erase k
  | some a => t.insert k a

@[simp]
theorem get?_empty (k : κ) : (∅ : Table κ α).get? k = none := rfl

theorem find?_insertEntry (k j : κ) (a : α) (entries : List (κ × α)) :
    ((insertEntry k a entries).find? fun e => e.1 = j).map (·.2) =
      if j = k then some a else (entries.find? fun e => e.1 = j).map (·.2) := by
  induction entries with
  | nil =>
    by_cases h : j = k
    · simp [insertEntry, h]
    · simp [insertEntry, h, Ne.symm h]
  | cons e rest ih =>
    by_cases hk : e.1 = k
    · by_cases h : j = k
      · simp [insertEntry, hk, h]
      · simp [insertEntry, hk, h, Ne.symm h]
    · by_cases he : e.1 = j
      · have h : j ≠ k := fun h => hk (he.trans h)
        simp [insertEntry, he, h]
      · simp [insertEntry, hk, he, ih]

theorem get?_insert (t : Table κ α) (k j : κ) (a : α) :
    (t.insert k a).get? j = if j = k then some a else t.get? j :=
  find?_insertEntry k j a t.entries

theorem find?_filter_ne (k j : κ) (entries : List (κ × α)) :
    (entries.filter fun e => e.1 ≠ k).find? (fun e => e.1 = j) =
      if j = k then none else entries.find? fun e => e.1 = j := by
  induction entries with
  | nil => simp
  | cons e rest ih =>
    by_cases hk : e.1 = k
    · by_cases h : j = k
      · simp_all
      · simp_all [Ne.symm h]
    · by_cases he : e.1 = j
      · have h : j ≠ k := fun h => hk (he.trans h)
        simp [he, h]
      · simpa [hk, he] using ih

theorem get?_erase (t : Table κ α) (k j : κ) :
    (t.erase k).get? j = if j = k then none else t.get? j := by
  have h := find?_filter_ne (α := α) k j t.entries
  by_cases hj : j = k
  · simp_all [get?, erase]
  · simp_all [get?, erase]

theorem get?_set (t : Table κ α) (k j : κ) (a : Option α) :
    (t.set k a).get? j = if j = k then a else t.get? j := by
  cases a with
  | none => exact get?_erase t k j
  | some a => exact get?_insert t k j a

theorem get?_eq_none_iff (t : Table κ α) (k : κ) : t.get? k = none ↔ k ∉ t.keys := by
  simp only [get?, keys, Option.map_eq_none_iff, List.find?_eq_none, decide_eq_true_eq,
    List.mem_map, not_exists, not_and]

theorem mem_entries_of_get? {t : Table κ α} {k : κ} {a : α} (h : t.get? k = some a) :
    (k, a) ∈ t.entries := by
  obtain ⟨e, he, rfl⟩ := Option.map_eq_some_iff.mp h
  have hk : e.1 = k := by simpa using List.find?_some he
  have hm := List.mem_of_find?_eq_some he
  rwa [← hk]

/-- With one entry for each key, an entry is what a look-up of its key finds. -/
theorem get?_eq_some_iff {t : Table κ α} (nodup : t.keys.Nodup) (k : κ) (a : α) :
    t.get? k = some a ↔ (k, a) ∈ t.entries := by
  refine ⟨mem_entries_of_get?, fun h => ?_⟩
  obtain ⟨entries⟩ := t
  simp only [keys, get?] at *
  induction entries with
  | nil => simp at h
  | cons e rest ih =>
    rw [List.map_cons, List.nodup_cons] at nodup
    rcases List.mem_cons.mp h with rfl | h
    · simp
    · have hk : e.1 ≠ k := fun hk => nodup.1 (hk ▸ List.mem_map_of_mem h)
      simpa [hk] using ih nodup.2 h

theorem insertEntry_of_fresh (k : κ) (a : α) (entries : List (κ × α))
    (fresh : k ∉ entries.map (·.1)) : insertEntry k a entries = entries ++ [(k, a)] := by
  induction entries with
  | nil => rfl
  | cons e rest ih =>
    rw [List.map_cons, List.mem_cons, not_or] at fresh
    rw [insertEntry, if_neg (Ne.symm fresh.1), ih fresh.2, List.cons_append]

theorem entries_insert_of_fresh {t : Table κ α} {k : κ} (a : α) (fresh : k ∉ t.keys) :
    (t.insert k a).entries = t.entries ++ [(k, a)] :=
  insertEntry_of_fresh k a t.entries fresh

theorem keys_insertEntry (k : κ) (a : α) (entries : List (κ × α)) :
    (insertEntry k a entries).map (·.1) =
      if k ∈ entries.map (·.1) then entries.map (·.1) else entries.map (·.1) ++ [k] := by
  induction entries with
  | nil => simp [insertEntry]
  | cons e rest ih =>
    by_cases h : e.1 = k
    · simp [insertEntry, h]
    · rw [insertEntry, if_neg h, List.map_cons, ih, List.map_cons]
      by_cases hk : k ∈ rest.map (·.1)
      · rw [if_pos hk, if_pos (List.mem_cons_of_mem _ hk)]
      · rw [if_neg hk, if_neg (by simp [Ne.symm h, hk]), List.cons_append]

theorem nodup_keys_insert {t : Table κ α} (nodup : t.keys.Nodup) (k : κ) (a : α) :
    (t.insert k a).keys.Nodup := by
  have hk : (t.insert k a).keys = if k ∈ t.keys then t.keys else t.keys ++ [k] :=
    keys_insertEntry k a t.entries
  rw [hk]
  by_cases h : k ∈ t.keys
  · rwa [if_pos h]
  · rw [if_neg h]
    refine List.nodup_append.mpr ⟨nodup, by simp, fun x hx y hy => ?_⟩
    rintro rfl
    exact h (List.mem_singleton.mp hy ▸ hx)

theorem insertEntry_insertEntry (k : κ) (a b : α) (entries : List (κ × α)) :
    insertEntry k b (insertEntry k a entries) = insertEntry k b entries := by
  induction entries with
  | nil => simp [insertEntry]
  | cons e rest ih =>
    by_cases h : e.1 = k
    · simp [insertEntry, h]
    · simp [insertEntry, h, ih]

@[simp]
theorem insert_insert (t : Table κ α) (k : κ) (a b : α) :
    (t.insert k a).insert k b = t.insert k b :=
  congrArg mk (insertEntry_insertEntry k a b t.entries)

theorem insertEntry_of_find? (k : κ) (a : α) (entries : List (κ × α))
    (h : (entries.find? fun e => e.1 = k).map (·.2) = some a) :
    insertEntry k a entries = entries := by
  induction entries with
  | nil => simp at h
  | cons e rest ih =>
    by_cases hk : e.1 = k
    · have ha : e.2 = a := by simpa [hk] using h
      simp [insertEntry, ← hk, ← ha]
    · have hr := ih (by simpa [hk] using h)
      simp [insertEntry, hk, hr]

theorem insert_of_get? {t : Table κ α} {k : κ} {a : α} (h : t.get? k = some a) :
    t.insert k a = t :=
  congrArg mk (insertEntry_of_find? k a t.entries h)

def ofList (entries : List (κ × α)) : Table κ α :=
  entries.foldl (fun t e => t.insert e.1 e.2) ∅

end Table

end ThreadedCode
