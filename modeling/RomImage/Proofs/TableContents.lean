/-
# What a symbol table holds

A table holds at most one symbol of each name, so it is determined by what looking names up gives
(`ext_get?`).  The table of a list of symbols holds the last one of each name
(`get?_ofList_eq_some_iff`), and a sequence of definitions makes such a table unless an address is too
wide, when the first such definition is reported.
-/
import RomImage.Proofs.Outcome
import RomImage.Symbol.Table

namespace RomImage

namespace SymbolTable

/-! ## Look-up -/

/-- Two symbols of a table that share their name are one. -/
theorem eq_of_name_eq {t : SymbolTable} {s u : Symbol} (hs : s ∈ t.toList) (hu : u ∈ t.toList)
    (hname : s.name = u.name) : s = u := by
  -- names in strict order differ, whichever of the two symbols stands first
  have hforward : t.toList.Pairwise (fun a b => a.name = b.name → a = b) := by
    apply t.sorted.imp
    intro a b hlt heq
    rw [heq] at hlt
    exact absurd hlt (String.lt_irrefl _)
  have hbackward : t.toList.Pairwise (flip fun a b => a.name = b.name → a = b) := by
    apply hforward.imp
    intro a b hab heq
    exact (hab heq.symm).symm
  exact hforward.forall_of_forall_of_flip (fun _ _ _ => rfl) hbackward hs hu hname

/-- Looking a name up finds the symbol of that name. -/
theorem get?_eq_some_iff {t : SymbolTable} {name : String} {s : Symbol} :
    t.get? name = some s ↔ s ∈ t.toList ∧ s.name = name := by
  constructor
  · intro h
    exact ⟨List.mem_of_find?_eq_some h, by simpa using List.find?_some h⟩
  · rintro ⟨hs, rfl⟩
    cases hget : t.get? s.name with
    | none =>
        have hnone := List.find?_eq_none.1 hget s hs
        simp at hnone
    | some u =>
        have hu := List.mem_of_find?_eq_some hget
        have hname : u.name = s.name := by simpa using List.find?_some hget
        rw [eq_of_name_eq hu hs hname]

/-- Tables in which every name leads to the same symbol are equal. -/
theorem ext_get? {t u : SymbolTable} (h : ∀ name, t.get? name = u.get? name) : t = u := by
  have hnodup : ∀ v : SymbolTable, v.toList.Nodup := by
    intro v
    apply v.sorted.imp
    rintro a b hlt rfl
    exact String.lt_irrefl _ hlt
  have hperm : t.toList.Perm u.toList := by
    rw [List.perm_ext_iff_of_nodup (hnodup t) (hnodup u)]
    intro s
    have hmem : ∀ v : SymbolTable, s ∈ v.toList ↔ v.get? s.name = some s := by
      intro v
      rw [get?_eq_some_iff, and_iff_left rfl]
    rw [hmem t, hmem u, h]
  -- both lists are in the strict order of names, which leaves one arrangement
  have hlist : t.toList = u.toList := by
    apply hperm.eq_of_pairwise _ t.sorted u.sorted
    intro a b _ _ hab hba
    exact absurd hba (String.lt_asymm hab)
  cases t
  cases u
  cases hlist
  rfl

/-! ## Tables of lists -/

/-- Looking a name up after a list of symbols has been filed finds the last symbol of that name, or else
what was filed before. -/
theorem get?_foldl_insert (symbols : List Symbol) (t : SymbolTable) (name : String) :
    (symbols.foldl insert t).get? name
      = (symbols.reverse.find? (·.name = name)).or (t.get? name) := by
  -- the table that is filed into varies, since the first symbol goes into it before the others
  induction symbols generalizing t with
  | nil => rfl
  | cons s symbols ih =>
      rw [List.foldl_cons, ih, get?_insert, List.reverse_cons, List.find?_append, Option.or_assoc]
      by_cases h : s.name = name <;> simp [h]

/-- The table of a list of symbols holds the last symbol of each name. -/
theorem get?_ofList_eq_some_iff {symbols : List Symbol} {name : String} {s : Symbol} :
    (ofList symbols).get? name = some s ↔
      ∃ front back, symbols = front ++ s :: back ∧ s.name = name ∧ ∀ u ∈ back, u.name ≠ name := by
  rw [ofList, get?_foldl_insert, get?_empty, Option.or_none, List.find?_eq_some_iff_append]
  constructor
  · rintro ⟨hname, back, front, hsplit, hback⟩
    refine ⟨front.reverse, back.reverse, ?_, by simpa using hname, ?_⟩
    · rw [List.reverse_eq_iff] at hsplit
      rw [hsplit]
      simp
    · intro u hu
      simpa using hback u (List.mem_reverse.1 hu)
  · rintro ⟨front, back, rfl, hname, hback⟩
    refine ⟨by simpa using hname, back.reverse, front.reverse, by simp, ?_⟩
    intro u hu
    simpa using hback u (List.mem_reverse.1 hu)

/-- Nothing is filed under a name that no symbol of the list has. -/
theorem get?_ofList_eq_none_iff {symbols : List Symbol} {name : String} :
    (ofList symbols).get? name = none ↔ ∀ s ∈ symbols, s.name ≠ name := by
  rw [ofList, get?_foldl_insert, get?_empty, Option.or_none, List.find?_eq_none]
  simp only [List.mem_reverse, decide_eq_true_eq]

/-- The same for symbols that are made of other things, each of which tells its symbol. -/
theorem get?_ofList_map_iff {α : Type} {f : α → Symbol} {xs : List α} {Tells : α → Symbol → Prop}
    (h : ∀ x ∈ xs, ∀ s, Tells x s ↔ f x = s) {name : String} {s : Symbol} :
    (ofList (xs.map f)).get? name = some s ↔
      ∃ front x back, xs = front ++ x :: back ∧ (f x).name = name ∧
        (∀ y ∈ back, (f y).name ≠ name) ∧ Tells x s := by
  rw [get?_ofList_eq_some_iff]
  constructor
  · rintro ⟨front, back, hsplit, hname, hback⟩
    obtain ⟨front, rest, rfl, rfl, hrest⟩ := List.map_eq_append_iff.1 hsplit
    obtain ⟨x, back, rfl, hx, rfl⟩ := List.map_eq_cons_iff.1 hrest
    refine ⟨front, x, back, rfl, hx ▸ hname, fun y hy => ?_, (h x (by simp) s).2 hx⟩
    exact hback (f y) (List.mem_map_of_mem hy)
  · rintro ⟨front, x, back, rfl, hname, hback, htells⟩
    obtain rfl := (h x (by simp) s).1 htells
    refine ⟨front.map f, back.map f, by simp, hname, fun u hu => ?_⟩
    obtain ⟨y, hy, rfl⟩ := List.mem_map.1 hu
    exact hback y hy

end SymbolTable

/-! ## Tables of definitions -/

/-- The definition is what the symbol says. -/
structure Definition.Defines (d : Definition) (s : Symbol) : Prop where
  name_eq : s.name = d.name
  offset_eq : s.offset.toNat = d.address
  size_eq : s.size = d.size
  sectionName_eq : s.sectionName = d.sectionName

/-- The symbol of a definition, its address cut to 32 bits. -/
def Definition.cut (d : Definition) : Symbol :=
  ⟨d.name, UInt32.ofNat d.address, d.size, d.sectionName⟩

/-- A definition whose address fits gives its symbol. -/
theorem Definition.symbol_of_lt {d : Definition} (h : d.address < UInt32.size) :
    d.symbol = .ok d.cut :=
  if_pos h

/-- A definition whose address is too wide is reported. -/
theorem Definition.symbol_of_le {d : Definition} (h : UInt32.size ≤ d.address) :
    d.symbol = .error (.addressTooWide d.name d.address) :=
  if_neg (Nat.not_lt.2 h)

/-- A definition whose address fits defines its symbol and no other. -/
theorem Definition.defines_iff {d : Definition} {s : Symbol} (h : d.address < UInt32.size) :
    d.Defines s ↔ d.cut = s := by
  constructor
  · rintro ⟨hname, hoffset, hsize, hsect⟩
    obtain ⟨name, offset, size, sectionName⟩ := s
    obtain rfl : name = d.name := hname
    obtain rfl : size = d.size := hsize
    obtain rfl : sectionName = d.sectionName := hsect
    rw [cut, ← hoffset, UInt32.ofNat_toNat]
  · rintro rfl
    exact ⟨rfl, UInt32.toNat_ofNat_of_lt h, rfl, rfl⟩

/-- Either all addresses fit or there is a first that does not. -/
theorem Definition.all_lt_or_first_le (ds : List Definition) :
    (∀ d ∈ ds, d.address < UInt32.size) ∨
      ∃ front d back, ds = front ++ d :: back ∧ (∀ e ∈ front, e.address < UInt32.size) ∧
        UInt32.size ≤ d.address := by
  cases hfind : ds.find? (fun d => decide (UInt32.size ≤ d.address)) with
  | none =>
      refine .inl fun d hd => ?_
      simpa using List.find?_eq_none.1 hfind d hd
  | some d =>
      obtain ⟨hd, front, back, hsplit, hfront⟩ := List.find?_eq_some_iff_append.1 hfind
      refine .inr ⟨front, d, back, hsplit, fun e he => ?_, by simpa using hd⟩
      simpa using hfront e he

namespace SymbolTable

/-- Definitions whose addresses all fit make the table of their symbols. -/
theorem ofDefinitions_eq_ok {ds : List Definition} (h : ∀ d ∈ ds, d.address < UInt32.size) :
    ofDefinitions ds = .ok (ofList (ds.map Definition.cut)) := by
  rw [ofDefinitions, mapM_eq_ok_map fun d hd => Definition.symbol_of_lt (h d hd)]
  rfl

/-- The first definition whose address is too wide is reported, whatever comes after it. -/
theorem ofDefinitions_eq_error {front back : List Definition} {d : Definition}
    (hfront : ∀ e ∈ front, e.address < UInt32.size) (hd : UInt32.size ≤ d.address) :
    ofDefinitions (front ++ d :: back) = .error (.addressTooWide d.name d.address) := by
  rw [ofDefinitions, mapM_eq_error (fun e he => Definition.symbol_of_lt (hfront e he))
    (Definition.symbol_of_le hd)]
  rfl

/-- In the table of definitions whose addresses fit, a name leads to what the last definition of it
defines. -/
theorem get?_ofList_cut_iff {ds : List Definition} (h : ∀ d ∈ ds, d.address < UInt32.size)
    {name : String} {s : Symbol} :
    (ofList (ds.map Definition.cut)).get? name = some s ↔
      ∃ front d back, ds = front ++ d :: back ∧ d.name = name ∧ (∀ e ∈ back, e.name ≠ name) ∧
        d.Defines s := by
  have hdefines : ∀ d ∈ ds, ∀ u, d.Defines u ↔ d.cut = u := by
    intro d hd u
    exact Definition.defines_iff (h d hd)
  exact get?_ofList_map_iff hdefines

end SymbolTable

end RomImage
