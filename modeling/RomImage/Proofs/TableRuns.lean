/-
# Runs with a symbol table

What a table answers after any symbols have been filed, said of the symbols alone (`IsAnswer`): a name stands
for the last symbol that was filed with it, the size is the number of different names, and the symbols come
in the order of the bytes of their names.  Questions asked in between change nothing
(`answers_empty_isAnswer`).
-/
import Mathlib.Data.Finset.Card
import RomImage.Proofs.NameOrder
import RomImage.Proofs.TableContents
import RomImage.Symbol.Table

namespace RomImage

/-! ## What has been filed -/

/-- The symbol is the last one of the name that was filed. -/
def IsLastFiled (filed : List Symbol) (name : String) (s : Symbol) : Prop :=
  ∃ front back, filed = front ++ s :: back ∧ s.name = name ∧ ∀ u ∈ back, u.name ≠ name

/-- The different names that were filed. -/
def filedNames (filed : List Symbol) : Finset String :=
  (filed.map (·.name)).toFinset

theorem mem_filedNames {filed : List Symbol} {name : String} :
    name ∈ filedNames filed ↔ ∃ s ∈ filed, s.name = name := by
  rw [filedNames, List.mem_toFinset, List.mem_map]

/-- The answer is right for a table into which these symbols were filed, one after another. -/
inductive IsAnswer (filed : List Symbol) : TableQuery → TableAnswer → Prop
  | get {name : String} {found : Option Symbol} :
    (∀ s, found = some s ↔ IsLastFiled filed name s) → (found = none ↔ name ∉ filedNames filed) →
    IsAnswer filed (.get name) (.symbol found)
  | offset {name : String} {found : Option UInt32} :
    (∀ offset, found = some offset ↔ ∃ s, IsLastFiled filed name s ∧ s.offset = offset) →
    (found = none ↔ name ∉ filedNames filed) → IsAnswer filed (.offset name) (.offset found)
  | require {name : String} {found : Except MissingSymbol UInt32} :
    (∀ offset, found = .ok offset ↔ ∃ s, IsLastFiled filed name s ∧ s.offset = offset) →
    (∀ e, found = .error e ↔ e = ⟨name⟩ ∧ name ∉ filedNames filed) →
    IsAnswer filed (.require name) (.required found)
  | contains {name : String} {holds : Bool} :
    (holds = true ↔ name ∈ filedNames filed) → IsAnswer filed (.contains name) (.flag holds)
  | size : IsAnswer filed .size (.count (filedNames filed).card)
  | isEmpty {holds : Bool} :
    (holds = true ↔ (filedNames filed).card = 0) → IsAnswer filed .isEmpty (.flag holds)
  | symbols {all : List Symbol} :
    all.Pairwise (fun s u => encodeUtf8 s.name.toList < encodeUtf8 u.name.toList) →
    (∀ s, s ∈ all ↔ IsLastFiled filed s.name s) → IsAnswer filed .symbols (.symbols all)

/-! ## Answers -/

namespace SymbolTable

variable {filed : List Symbol} {name : String}

theorem get?_ofList_iff_isLastFiled {s : Symbol} :
    (ofList filed).get? name = some s ↔ IsLastFiled filed name s :=
  get?_ofList_eq_some_iff

theorem get?_ofList_eq_none_iff_not_mem :
    (ofList filed).get? name = none ↔ name ∉ filedNames filed := by
  rw [get?_ofList_eq_none_iff, mem_filedNames]
  simp

/-- The address of a name is that of the last symbol that was filed with it. -/
theorem offset?_ofList_eq_some_iff {offset : UInt32} :
    (ofList filed).offset? name = some offset ↔ ∃ s, IsLastFiled filed name s ∧ s.offset = offset := by
  simp only [offset?, Option.map_eq_some_iff, get?_ofList_iff_isLastFiled]

theorem offset?_ofList_eq_none_iff :
    (ofList filed).offset? name = none ↔ name ∉ filedNames filed := by
  rw [offset?, Option.map_eq_none_iff, get?_ofList_eq_none_iff_not_mem]

/-- A name that has to be there leads to its address. -/
theorem require_eq_ok_iff {t : SymbolTable} {offset : UInt32} :
    t.require name = .ok offset ↔ t.offset? name = some offset := by
  rw [require]
  cases t.offset? name <;> simp

/-- A name that has to be there and is not is reported. -/
theorem require_eq_error_iff {t : SymbolTable} {e : MissingSymbol} :
    t.require name = .error e ↔ e = ⟨name⟩ ∧ t.offset? name = none := by
  rw [require]
  cases t.offset? name <;> simp [eq_comm]

/-- The names of a table are those that were filed. -/
theorem filedNames_ofList : filedNames (ofList filed).toList = filedNames filed := by
  ext name
  have hget : (∃ s ∈ (ofList filed).toList, s.name = name) ↔ (ofList filed).get? name ≠ none := by
    simp only [← get?_eq_some_iff, Option.ne_none_iff_exists']
  rw [mem_filedNames, hget, Ne, get?_ofList_eq_none_iff_not_mem, not_not]

/-- No name stands twice in a table. -/
theorem nodup_names (t : SymbolTable) : (t.toList.map (·.name)).Nodup := by
  apply List.pairwise_map.2
  apply t.sorted.imp
  intro s u hlt heq
  rw [heq] at hlt
  exact String.lt_irrefl _ hlt

/-- A table has as many symbols as different names were filed. -/
theorem size_ofList : (ofList filed).size = (filedNames filed).card := by
  rw [← filedNames_ofList, filedNames, List.toFinset_card_of_nodup (nodup_names _), List.length_map, size]

/-- A table that was filled with symbols answers every question rightly. -/
theorem isAnswer_answer (filed : List Symbol) (q : TableQuery) :
    IsAnswer filed q ((ofList filed).answer q) := by
  cases q with
  | get name =>
      exact .get (fun s => get?_ofList_iff_isLastFiled) get?_ofList_eq_none_iff_not_mem
  | offset name =>
      exact .offset (fun offset => offset?_ofList_eq_some_iff) offset?_ofList_eq_none_iff
  | require name =>
      refine .require (fun offset => ?_) (fun e => ?_)
      · rw [require_eq_ok_iff, offset?_ofList_eq_some_iff]
      · rw [require_eq_error_iff, offset?_ofList_eq_none_iff]
  | contains name =>
      refine .contains ?_
      rw [contains, Option.isSome_iff_ne_none, Ne, get?_ofList_eq_none_iff_not_mem, not_not]
  | size =>
      rw [answer, size_ofList]
      exact .size
  | isEmpty =>
      refine .isEmpty ?_
      rw [isEmpty, List.isEmpty_iff, ← List.length_eq_zero_iff, ← size_ofList, size]
  | symbols =>
      refine .symbols ?_ fun s => ?_
      · apply (ofList filed).sorted.imp
        intro s u
        exact name_lt_iff.1
      · rw [← get?_ofList_iff_isLastFiled, get?_eq_some_iff, and_iff_left rfl]

end SymbolTable

/-! ## Runs -/

/-- The questions of a run, each with the symbols that were filed before it. -/
def questions (filed : List Symbol) : List TableStep → List (List Symbol × TableQuery)
  | [] => []
  | .insert s :: steps => questions (filed ++ [s]) steps
  | .ask q :: steps => (filed, q) :: questions filed steps

/-- A symbol that is filed last goes into the table of the others. -/
theorem SymbolTable.ofList_concat (filed : List Symbol) (s : Symbol) :
    ofList (filed ++ [s]) = (ofList filed).insert s := by
  rw [ofList, List.foldl_append, ← ofList, List.foldl_cons, List.foldl_nil]

/-- A table that is used after some symbols were filed answers every question by all that were filed before
it. -/
theorem forall₂_isAnswer_answers (filed : List Symbol) (steps : List TableStep) :
    List.Forall₂ (fun asked a => IsAnswer asked.1 asked.2 a) (questions filed steps)
      ((SymbolTable.ofList filed).answers steps) := by
  induction steps generalizing filed with
  | nil => exact .nil
  | cons step steps ih =>
      cases step with
      | insert s =>
          rw [questions, SymbolTable.answers, ← SymbolTable.ofList_concat]
          exact ih (filed ++ [s])
      | ask q =>
          exact .cons (SymbolTable.isAnswer_answer filed q) (ih filed)

/-- In a run with a table that is empty at first, every question is answered rightly by the symbols that were
filed before it. -/
theorem answers_empty_isAnswer (steps : List TableStep) :
    List.Forall₂ (fun asked a => IsAnswer asked.1 asked.2 a) (questions [] steps)
      (SymbolTable.empty.answers steps) :=
  forall₂_isAnswer_answers [] steps

end RomImage
