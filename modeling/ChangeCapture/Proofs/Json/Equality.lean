import ChangeCapture.Json.Basic

/-!
# Equality of JSON values

Whether two values are the same can be computed.
-/

namespace ChangeCapture.Json

mutual

/-- Whether two values are the same. -/
def same : Json → Json → Bool
  | .null, .null => true
  | .bool a, .bool b => decide (a = b)
  | .int m, .int n => decide (m = n)
  | .double x, .double y => decide (x = y)
  | .str s, .str t => decide (s = t)
  | .arr xs, .arr ys => sameItems xs ys
  | .obj xs, .obj ys => sameMembers xs ys
  | _, _ => false

def sameItems : List Json → List Json → Bool
  | [], [] => true
  | x :: xs, y :: ys => same x y && sameItems xs ys
  | _, _ => false

def sameMembers : List (String × Json) → List (String × Json) → Bool
  | [], [] => true
  | (k, x) :: xs, (l, y) :: ys => decide (k = l) && same x y && sameMembers xs ys
  | _, _ => false

end

mutual

theorem same_self : ∀ v : Json, same v v
  | .null => rfl
  | .bool _ => by simp [same]
  | .int _ => by simp [same]
  | .double _ => by simp [same]
  | .str _ => by simp [same]
  | .arr items => sameItems_self items
  | .obj members => sameMembers_self members

theorem sameItems_self : ∀ items : List Json, sameItems items items
  | [] => rfl
  | v :: rest => by simp [sameItems, same_self v, sameItems_self rest]

theorem sameMembers_self : ∀ members : List (String × Json), sameMembers members members
  | [] => rfl
  | (_, v) :: rest => by simp [sameMembers, same_self v, sameMembers_self rest]

end

mutual

theorem eq_of_same : ∀ {v w : Json}, same v w → v = w
  | .null, .null, _ => rfl
  | .bool _, .bool _, h => by simpa [same] using h
  | .int _, .int _, h => by simpa [same] using h
  | .double _, .double _, h => by simpa [same] using h
  | .str _, .str _, h => by simpa [same] using h
  | .arr _, .arr _, h => by rw [eq_of_sameItems h]
  | .obj _, .obj _, h => by rw [eq_of_sameMembers h]

theorem eq_of_sameItems : ∀ {xs ys : List Json}, sameItems xs ys → xs = ys
  | [], [], _ => rfl
  | x :: xs, y :: ys, h => by
      obtain ⟨hx, hxs⟩ : same x y ∧ sameItems xs ys := by simpa [sameItems] using h
      rw [eq_of_same hx, eq_of_sameItems hxs]

theorem eq_of_sameMembers : ∀ {xs ys : List (String × Json)}, sameMembers xs ys → xs = ys
  | [], [], _ => rfl
  | (k, x) :: xs, (l, y) :: ys, h => by
      obtain ⟨⟨rfl, hx⟩, hxs⟩ : (k = l ∧ same x y) ∧ sameMembers xs ys := by
        simpa [sameMembers] using h
      rw [eq_of_same hx, eq_of_sameMembers hxs]

end

instance : DecidableEq Json := fun v w =>
  decidable_of_iff (same v w) ⟨eq_of_same, fun h => h ▸ same_self v⟩

end ChangeCapture.Json
