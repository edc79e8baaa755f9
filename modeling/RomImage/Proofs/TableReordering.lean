/-
# Symbols in another order

A table does not depend on the order in which its symbols were filed, but for symbols of one name, of which
the last one counts.  So a table can be filled again from its own symbols in any order, and symbols that are
reordered without changing the order of those of one name (`IsStableReordering`) make the same table.
-/
import Mathlib.Logic.Equiv.Basic
import Mathlib.Order.Fin.Basic
import RomImage.Proofs.TableContents

namespace RomImage

namespace SymbolTable

variable {xs ys : List Symbol} {name : String} {s : Symbol}

/-! ## Symbols with different names -/

/-- If no name comes twice, each name leads to the symbol that has it. -/
theorem get?_ofList_of_names_differ (h : ∀ u ∈ xs, ∀ v ∈ xs, u.name = v.name → u = v) :
    (ofList xs).get? name = some s ↔ s ∈ xs ∧ s.name = name := by
  constructor
  · intro hget
    obtain ⟨front, back, rfl, hname, _⟩ := get?_ofList_eq_some_iff.1 hget
    exact ⟨List.mem_append_right front List.mem_cons_self, hname⟩
  · rintro ⟨hs, rfl⟩
    cases hget : (ofList xs).get? s.name with
    | none => exact absurd rfl (get?_ofList_eq_none_iff.1 hget s hs)
    | some u =>
        obtain ⟨front, back, rfl, hname, _⟩ := get?_ofList_eq_some_iff.1 hget
        rw [h u (List.mem_append_right front List.mem_cons_self) s hs hname]

/-- A table is filled again by its own symbols, in whatever order they come. -/
theorem ofList_of_perm {t : SymbolTable} (h : xs.Perm t.toList) : ofList xs = t := by
  have hdiffer : ∀ u ∈ xs, ∀ v ∈ xs, u.name = v.name → u = v :=
    fun u hu v hv => eq_of_name_eq (h.mem_iff.1 hu) (h.mem_iff.1 hv)
  apply ext_get?
  intro name
  apply Option.ext
  intro s
  rw [get?_ofList_of_names_differ hdiffer, get?_eq_some_iff, h.mem_iff]

/-! ## Symbols of one name in their order -/

/-- The second list is the first one reordered, each symbol of it at a place of its own, such that symbols
of one name stay in their order. -/
def IsStableReordering (xs ys : List Symbol) : Prop :=
  ∃ place : Fin xs.length ≃ Fin ys.length, (∀ i, ys.get (place i) = xs.get i) ∧
    ∀ i j, i < j → (xs.get i).name = (xs.get j).name → place i < place j

/-- A reordering is undone by another one. -/
theorem IsStableReordering.symm (h : IsStableReordering xs ys) : IsStableReordering ys xs := by
  obtain ⟨place, hsame, hstable⟩ := h
  have hback : ∀ i, xs.get (place.symm i) = ys.get i := by
    intro i
    rw [← hsame, Equiv.apply_symm_apply]
  refine ⟨place.symm, hback, fun i j hlt hname => ?_⟩
  by_contra hle
  rcases lt_or_eq_of_le (not_lt.1 hle) with hgt | heq
  · have hmoved := hstable _ _ hgt (by rw [hback, hback, hname])
    rw [Equiv.apply_symm_apply, Equiv.apply_symm_apply] at hmoved
    exact lt_asymm hlt hmoved
  · exact hlt.ne' (place.symm.injective heq)

/-- A name leads to the symbol at the last of the places where symbols of the name stand. -/
theorem get?_ofList_iff_place :
    (ofList xs).get? name = some s ↔
      ∃ i, xs.get i = s ∧ s.name = name ∧ ∀ j, i < j → (xs.get j).name ≠ name := by
  rw [get?_ofList_eq_some_iff]
  constructor
  · rintro ⟨front, back, rfl, hname, hback⟩
    refine ⟨⟨front.length, by simp⟩, by simp, hname, fun j hlt => ?_⟩
    obtain ⟨k, hk⟩ := Nat.exists_eq_add_of_lt (Fin.lt_def.1 hlt)
    have hget : (front ++ s :: back)[j.1]? = back[k]? := by
      rw [hk, List.getElem?_append_right (by simp; omega)]
      simp [Nat.add_assoc]
    rw [List.getElem?_eq_getElem j.2] at hget
    exact hback _ (List.mem_of_getElem? hget.symm)
  · rintro ⟨i, rfl, hname, hlast⟩
    refine ⟨xs.take i, xs.drop (i + 1), ?_, hname, fun u hu => ?_⟩
    · rw [List.get_eq_getElem, ← List.drop_eq_getElem_cons, List.take_append_drop]
    · obtain ⟨k, hk, rfl⟩ := List.mem_iff_getElem.1 hu
      rw [List.getElem_drop]
      rw [List.length_drop] at hk
      exact hlast ⟨i + 1 + k, by omega⟩ (Fin.lt_def.2 (by simp; omega))

/-- Reordering leaves each name with its last symbol. -/
theorem IsStableReordering.get?_ofList (h : IsStableReordering xs ys)
    (hget : (ofList xs).get? name = some s) : (ofList ys).get? name = some s := by
  obtain ⟨place, hsame, hstable⟩ := h
  obtain ⟨i, rfl, hname, hlast⟩ := get?_ofList_iff_place.1 hget
  refine get?_ofList_iff_place.2 ⟨place i, hsame i, hname, fun j hlt hj => ?_⟩
  obtain ⟨k, rfl⟩ := place.surjective j
  rw [hsame] at hj
  rcases lt_trichotomy i k with hik | rfl | hki
  · exact hlast k hik hj
  · exact lt_irrefl _ hlt
  · exact lt_asymm hlt (hstable k i hki (hj.trans hname.symm))

/-- Reordered symbols make the same table. -/
theorem ofList_of_isStableReordering (h : IsStableReordering xs ys) : ofList xs = ofList ys := by
  apply ext_get?
  intro name
  apply Option.ext
  intro s
  exact ⟨h.get?_ofList, h.symm.get?_ofList⟩

/-- A table is determined by its symbols and not by the order in which they were filed: it is filled again by
its symbols in any order, and a list of symbols makes the same table when it is reordered without changing
the order of symbols of one name. -/
theorem ofList_reordered :
    (∀ (t : SymbolTable) (symbols : List Symbol), symbols.Perm t.toList → ofList symbols = t) ∧
    ∀ xs ys : List Symbol, IsStableReordering xs ys → ofList xs = ofList ys :=
  ⟨fun _ _ => ofList_of_perm, fun _ _ => ofList_of_isStableReordering⟩

/-- Symbols of which two share a name. -/
def repeatedSymbols : List Symbol :=
  [⟨"start", 1, 0, none⟩, ⟨"end", 2, 0, none⟩, ⟨"start", 3, 4, some ".text"⟩]

/-- The same symbols with the one of another name in front. -/
def reorderedSymbols : List Symbol :=
  [⟨"end", 2, 0, none⟩, ⟨"start", 1, 0, none⟩, ⟨"start", 3, 4, some ".text"⟩]

/-- Their table is the same, and is filled again by the two symbols that it holds. -/
theorem ofList_reordered_repeatedSymbols :
    [⟨"start", 3, 4, some ".text"⟩, ⟨"end", 2, 0, none⟩].Perm (ofList repeatedSymbols).toList ∧
      IsStableReordering repeatedSymbols reorderedSymbols ∧
      ofList [⟨"start", 3, 4, some ".text"⟩, ⟨"end", 2, 0, none⟩] = ofList repeatedSymbols ∧
      ofList repeatedSymbols = ofList reorderedSymbols := by
  have hperm : [⟨"start", 3, 4, some ".text"⟩, ⟨"end", 2, 0, none⟩].Perm
      (ofList repeatedSymbols).toList := by
    decide +kernel
  have hstable : IsStableReordering repeatedSymbols reorderedSymbols :=
    ⟨Equiv.swap ⟨0, by decide⟩ ⟨1, by decide⟩, by decide +kernel, by decide +kernel⟩
  exact ⟨hperm, hstable, ofList_reordered.1 _ _ hperm, ofList_reordered.2 _ _ hstable⟩

end SymbolTable

end RomImage
