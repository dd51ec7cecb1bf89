/-
TemePCom/Lib/OrdMap.lean

Ordered maps with unique keys: `Std.ExtTreeMap` over a key order whose `compare`
decides equality, read as C++'s `std::map`.

`insertIfNew` is `std::map::insert`, which leaves a present key alone.  The
lookup laws are stated with `=` on keys and `some`/`none` on lookups, so that
proofs about programs never meet `compare` or membership instances; the last
section relates iteration to lookups.
-/
import Mathlib

namespace OrdMap

open Std (ExtTreeMap)

variable {κ β : Type*} [Ord κ] [Std.TransOrd κ]
variable {t : ExtTreeMap κ β compare} {k a : κ} {v w : β}

/-! ### Lookups -/

theorem mem_iff : k ∈ t ↔ ∃ v, t[k]? = some v := by
  rw [ExtTreeMap.mem_iff_isSome_getElem?, Option.isSome_iff_exists]

theorem not_mem_iff : k ∉ t ↔ t[k]? = none := by
  rw [mem_iff, ← Option.ne_none_iff_exists', not_not]

theorem mem_of_lookup (h : t[k]? = some v) : k ∈ t := mem_iff.mpr ⟨v, h⟩

theorem lookup_empty : (∅ : ExtTreeMap κ β compare)[k]? = none := ExtTreeMap.getElem?_empty

variable [Std.LawfulEqOrd κ]

theorem lookup_insertIfNew_self (h : t[k]? = none) : (t.insertIfNew k v)[k]? = some v := by
  rw [ExtTreeMap.getElem?_insertIfNew,
    if_pos ⟨Std.compare_eq_iff_eq.mpr rfl, not_mem_iff.mpr h⟩]

theorem lookup_insertIfNew_of_ne (h : k ≠ a) : (t.insertIfNew k v)[a]? = t[a]? := by
  rw [ExtTreeMap.getElem?_insertIfNew, if_neg fun hc => h (Std.compare_eq_iff_eq.mp hc.1)]

/-- `insert` leaves a present key alone. -/
theorem lookup_insertIfNew_of_some (h : t[a]? = some w) :
    (t.insertIfNew k v)[a]? = some w := by
  rw [ExtTreeMap.getElem?_insertIfNew, if_neg, h]
  rintro ⟨hc, hk⟩
  rw [Std.compare_eq_iff_eq.mp hc] at hk
  exact hk (mem_of_lookup h)

/-- What `insert` adds is at its key, the rest was there. -/
theorem lookup_of_insertIfNew (h : (t.insertIfNew k v)[a]? = some w) :
    t[a]? = some w ∨ (k = a ∧ v = w ∧ t[a]? = none) := by
  by_cases hka : k = a
  · subst hka
    rcases ht : t[k]? with - | w'
    · rw [lookup_insertIfNew_self ht] at h
      exact Or.inr ⟨rfl, Option.some.inj h, rfl⟩
    · rw [lookup_insertIfNew_of_some ht] at h
      exact Or.inl h
  · rw [lookup_insertIfNew_of_ne hka] at h
    exact Or.inl h

theorem lookup_erase_self : (t.erase k)[k]? = none := by
  rw [ExtTreeMap.getElem?_erase, if_pos (Std.compare_eq_iff_eq.mpr rfl)]

theorem lookup_erase_of_ne (h : k ≠ a) : (t.erase k)[a]? = t[a]? := by
  rw [ExtTreeMap.getElem?_erase, if_neg fun hc => h (Std.compare_eq_iff_eq.mp hc)]

theorem erase_eq_self (h : t[k]? = none) : t.erase k = t := by
  apply ExtTreeMap.ext_getElem?
  intro a
  by_cases hka : k = a
  · rw [← hka, lookup_erase_self, h]
  · exact lookup_erase_of_ne hka

/-- What is left after `erase` was there before. -/
theorem lookup_of_erase (h : (t.erase k)[a]? = some v) : k ≠ a ∧ t[a]? = some v := by
  by_cases hka : k = a
  · rw [hka, lookup_erase_self] at h
    cases h
  · exact ⟨hka, by rwa [lookup_erase_of_ne hka] at h⟩

theorem lookup_modify_self {f : β → β} : (t.modify k f)[k]? = t[k]?.map f := by
  rw [ExtTreeMap.getElem?_modify, if_pos (Std.compare_eq_iff_eq.mpr rfl)]

theorem lookup_modify_of_ne {f : β → β} (h : k ≠ a) : (t.modify k f)[a]? = t[a]? := by
  rw [ExtTreeMap.getElem?_modify, if_neg fun hc => h (Std.compare_eq_iff_eq.mp hc)]

/-! ### Iteration -/

theorem mem_toList : (k, v) ∈ t.toList ↔ t[k]? = some v :=
  ExtTreeMap.mem_toList_iff_getElem?_eq_some

/-- Every key is visited once. -/
theorem nodup_keys (t : ExtTreeMap κ β compare) : (t.toList.map Prod.fst).Nodup := by
  rw [List.Nodup, List.pairwise_map]
  exact ExtTreeMap.distinct_keys_toList.imp fun hne heq =>
    hne (Std.compare_eq_iff_eq.mpr heq)

/-- A search through the entries finds one that is there. -/
theorem lookup_of_find {p : κ × β → Bool} (h : t.toList.find? p = some (k, v)) :
    t[k]? = some v ∧ p (k, v) = true :=
  ⟨mem_toList.mp (List.mem_of_find?_eq_some h), List.find?_some h⟩

end OrdMap
