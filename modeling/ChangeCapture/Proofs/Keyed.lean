import ChangeCapture.Keyed
import Mathlib.Data.List.Induction
import Mathlib.Data.String.Basic

/-!
# Maps in order

A map built by insertions is in strictly ascending order of key, and a list in that order is a map
already.
-/

namespace ChangeCapture.Keyed

variable {α : Type}

/-- Pairs in strictly ascending order of key. -/
def IsSorted (map : List (String × α)) : Prop := map.Pairwise fun p q => p.1 < q.1

theorem isSorted_iff_keys {map : List (String × α)} :
    IsSorted map ↔ (map.map Prod.fst).Pairwise (· < ·) := List.pairwise_map.symm

theorem IsSorted.nodup {map : List (String × α)} (h : IsSorted map) : (map.map Prod.fst).Nodup :=
  (isSorted_iff_keys.mp h).imp fun hlt => ne_of_lt hlt

theorem mem_of_get? {key : String} {value : α} {map : List (String × α)}
    (h : get? key map = some value) : (key, value) ∈ map := by
  induction map with
  | nil => exact nomatch h
  | cons p rest ih =>
      obtain ⟨k, v⟩ := p
      unfold get? at h
      split at h
      · next hk =>
          obtain rfl := Option.some.inj h
          exact hk ▸ List.mem_cons_self
      · exact List.mem_cons_of_mem _ (ih h)

theorem mem_insert {key : String} {value : α} {map : List (String × α)} {p : String × α}
    (h : p ∈ insert key value map) : p = (key, value) ∨ p ∈ map := by
  induction map with
  | nil => exact Or.inl (List.mem_singleton.mp h)
  | cons q rest ih =>
      obtain ⟨k, v⟩ := q
      unfold insert at h
      split at h
      · rcases List.mem_cons.mp h with heq | hrest
        · exact Or.inl heq
        · exact Or.inr (List.mem_cons_of_mem _ hrest)
      · split at h
        · exact List.mem_cons.mp h
        · rcases List.mem_cons.mp h with heq | hrest
          · exact Or.inr (heq ▸ List.mem_cons_self)
          · exact (ih hrest).imp_right (List.mem_cons_of_mem _)

theorem IsSorted.insert {map : List (String × α)} (h : IsSorted map) (key : String) (value : α) :
    IsSorted (insert key value map) := by
  induction map with
  | nil => exact List.pairwise_singleton _ _
  | cons q rest ih =>
      obtain ⟨k, v⟩ := q
      obtain ⟨hbefore, hrest⟩ := List.pairwise_cons.mp h
      unfold Keyed.insert
      split
      · next hkey => exact List.pairwise_cons.mpr ⟨fun p hp => hkey ▸ hbefore p hp, hrest⟩
      · next hne =>
          split
          · next hlt =>
              refine List.pairwise_cons.mpr ⟨fun p hp => ?_, h⟩
              rcases List.mem_cons.mp hp with rfl | hp
              · exact hlt
              · exact lt_trans hlt (hbefore p hp)
          · next hnlt =>
              have hgt : k < key := lt_of_le_of_ne (not_lt.mp hnlt) (Ne.symm hne)
              refine List.pairwise_cons.mpr ⟨fun p hp => ?_, ih hrest⟩
              rcases mem_insert hp with rfl | hp
              · exact hgt
              · exact hbefore p hp

theorem ofList_append_singleton (pairs : List (String × α)) (p : String × α) :
    ofList (pairs ++ [p]) = insert p.1 p.2 (ofList pairs) := by
  simp [ofList]

theorem isSorted_ofList (pairs : List (String × α)) : IsSorted (ofList pairs) := by
  induction pairs using List.reverseRecOn with
  | nil => exact List.Pairwise.nil
  | append_singleton pairs p ih =>
      rw [ofList_append_singleton]
      exact ih.insert p.1 p.2

theorem mem_ofList {pairs : List (String × α)} {p : String × α} (h : p ∈ ofList pairs) :
    p ∈ pairs := by
  induction pairs using List.reverseRecOn with
  | nil => exact nomatch h
  | append_singleton pairs q ih =>
      rw [ofList_append_singleton] at h
      rcases mem_insert h with rfl | hp
      · exact List.mem_append_right pairs List.mem_cons_self
      · exact List.mem_append_left [q] (ih hp)

theorem get?_ofList_of_mem {pairs : List (String × α)} {key : String} {value : α}
    (hdistinct : (pairs.map Prod.fst).Nodup) (h : (key, value) ∈ pairs) :
    get? key (ofList pairs) = some value := by
  induction pairs using List.reverseRecOn with
  | nil => exact nomatch h
  | append_singleton pairs p ih =>
      rw [List.map_append, List.map_singleton, List.nodup_append] at hdistinct
      obtain ⟨hpairs, -, hnew⟩ := hdistinct
      rw [ofList_append_singleton]
      rcases List.mem_append.mp h with h | h
      · have hne : key ≠ p.1 := hnew key (List.mem_map_of_mem h) p.1 List.mem_cons_self
        rw [get?_insert_ne hne]
        exact ih hpairs h
      · obtain rfl := List.mem_singleton.mp h
        exact get?_insert_self key value (ofList pairs)

/-- Lists with the same distinct keys are told apart by their maps. -/
theorem eq_of_ofList_eq {xs ys : List (String × α)} (h : ofList xs = ofList ys)
    (hdistinct : (xs.map Prod.fst).Nodup) (hkeys : xs.map Prod.fst = ys.map Prod.fst) :
    xs = ys := by
  have hlength : xs.length = ys.length := by simpa using congrArg List.length hkeys
  refine List.ext_getElem hlength fun i hi hi' => ?_
  have hkey : xs[i].1 = ys[i].1 := by
    simpa using List.getElem_of_eq hkeys (show i < (xs.map Prod.fst).length by simpa using hi)
  have hx : get? xs[i].1 (ofList xs) = some xs[i].2 :=
    get?_ofList_of_mem hdistinct (List.getElem_mem hi)
  have hy : get? ys[i].1 (ofList ys) = some ys[i].2 :=
    get?_ofList_of_mem (hkeys ▸ hdistinct) (List.getElem_mem hi')
  rw [h, hkey, hy] at hx
  exact Prod.ext hkey (Option.some.inj hx).symm

theorem insert_of_forall_lt {key : String} {value : α} {map : List (String × α)}
    (h : ∀ p ∈ map, p.1 < key) : insert key value map = map ++ [(key, value)] := by
  induction map with
  | nil => rfl
  | cons q rest ih =>
      obtain ⟨k, v⟩ := q
      have hk : k < key := h (k, v) List.mem_cons_self
      rw [insert, if_neg hk.ne', if_neg hk.asymm, ih fun p hp => h p (List.mem_cons_of_mem _ hp)]
      rfl

theorem ofList_eq_self {map : List (String × α)} (h : IsSorted map) : ofList map = map := by
  induction map using List.reverseRecOn with
  | nil => rfl
  | append_singleton map p ih =>
      obtain ⟨hmap, -, hlast⟩ := List.pairwise_append.mp h
      rw [ofList_append_singleton, ih hmap]
      exact insert_of_forall_lt fun q hq => hlast q hq p List.mem_cons_self

end ChangeCapture.Keyed
