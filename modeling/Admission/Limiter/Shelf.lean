/-!
# Shelves

A shelf keeps one value under each key, in the order in which the keys came.

* `Shelf.get?_put_self` and `Shelf.get?_put_of_ne` say what is found after a value has been put
  under a key;
* `Shelf.put_put` says that of two values put under one key the second one stays.
-/

namespace Admission

/-- Values under keys, each key once. -/
structure Shelf (K V : Type) where
  /-- The keys with their values. -/
  entries : List (K × V)
  deriving Repr

namespace Shelf

variable {K V : Type} [DecidableEq K]

/-- The value under a key among some entries. -/
def find? (key : K) : List (K × V) → Option V
  | [] => none
  | (k, v) :: rest => if k = key then some v else find? key rest

/-- Some entries with a value put under a key: in place of the old value, or else at the end. -/
def replace (key : K) (value : V) : List (K × V) → List (K × V)
  | [] => [(key, value)]
  | (k, v) :: rest => if k = key then (k, value) :: rest else (k, v) :: replace key value rest

/-- A shelf without values. -/
def empty : Shelf K V := ⟨[]⟩

/-- The number of keys. -/
def size (s : Shelf K V) : Nat := s.entries.length

/-- The value under a key. -/
def get? (s : Shelf K V) (key : K) : Option V := find? key s.entries

/-- Put a value under a key. -/
def put (s : Shelf K V) (key : K) (value : V) : Shelf K V := ⟨replace key value s.entries⟩

theorem find?_replace (key other : K) (value : V) (entries : List (K × V)) :
    find? other (replace key value entries) =
      if key = other then some value else find? other entries := by
  induction entries with
  | nil => simp [replace, find?]
  | cons entry rest ih =>
    obtain ⟨k, v⟩ := entry
    by_cases hk : k = key
    · by_cases ho : key = other <;> simp [replace, find?, hk, ho]
    · by_cases ho : k = other
      · subst ho
        simp [replace, find?, hk, Ne.symm hk]
      · simp [replace, find?, hk, ho, ih]

/-- Of two values put under one key in turn, the second one counts. -/
theorem replace_replace (key : K) (first second : V) (entries : List (K × V)) :
    replace key second (replace key first entries) = replace key second entries := by
  induction entries with
  | nil => simp [replace]
  | cons entry rest ih =>
    obtain ⟨k, v⟩ := entry
    by_cases hk : k = key
    · simp [replace, hk]
    · simp [replace, hk, ih]

@[simp] theorem get?_empty (key : K) : (empty : Shelf K V).get? key = none := rfl

theorem get?_put (s : Shelf K V) (key other : K) (value : V) :
    (s.put key value).get? other = if key = other then some value else s.get? other :=
  find?_replace key other value s.entries

@[simp] theorem get?_put_self (s : Shelf K V) (key : K) (value : V) :
    (s.put key value).get? key = some value := by
  simp [get?_put]

theorem get?_put_of_ne (s : Shelf K V) {key other : K} (h : key ≠ other) (value : V) :
    (s.put key value).get? other = s.get? other := by
  simp [get?_put, h]

theorem put_put (s : Shelf K V) (key : K) (first second : V) :
    (s.put key first).put key second = s.put key second :=
  congrArg Shelf.mk (replace_replace key first second s.entries)

end Shelf

end Admission
