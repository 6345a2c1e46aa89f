/-!
# Finite maps from text

A finite map is kept as the list of its pairs in ascending order of key, each key once. Keys are
ordered by code point, which is the order of their UTF-8 bytes.
-/

namespace ChangeCapture

namespace Keyed

variable {α : Type}

/-- Puts a pair in its place; an older pair with the same key gives way. -/
def insert (key : String) (value : α) : List (String × α) → List (String × α)
  | [] => [(key, value)]
  | (k, v) :: rest =>
      if key = k then (key, value) :: rest
      else if key < k then (key, value) :: (k, v) :: rest
      else (k, v) :: insert key value rest

def get? (key : String) : List (String × α) → Option α
  | [] => none
  | (k, v) :: rest => if key = k then some v else get? key rest

/-- The map of a list of pairs, in which the last pair of a key counts. -/
def ofList (pairs : List (String × α)) : List (String × α) :=
  pairs.foldl (fun map p => insert p.1 p.2 map) []

theorem get?_insert_self (key : String) (value : α) (map : List (String × α)) :
    get? key (insert key value map) = some value := by
  induction map with
  | nil => simp [insert, get?]
  | cons p rest ih =>
      obtain ⟨k, v⟩ := p
      unfold insert
      split
      · simp [get?]
      · split <;> simp [get?, *]

theorem get?_insert_ne {key other : String} (h : other ≠ key) (value : α)
    (map : List (String × α)) : get? other (insert key value map) = get? other map := by
  induction map with
  | nil => simp [insert, get?, h]
  | cons p rest ih =>
      obtain ⟨k, v⟩ := p
      unfold insert
      split
      · next hk => subst hk; simp [get?, h]
      · split
        · simp [get?, h]
        · simp [get?, ih]

end Keyed

end ChangeCapture
