/-
# Symbol tables

A link symbol is a name with an address, and what its source tells besides.  Only the address decides
anything; size and section are kept to be shown.

A table files each symbol under its name and keeps the symbols in strictly increasing order of their
names, so a table is determined by what it holds.  A later definition of a name replaces the earlier
one (`get?_insert`).  In a run symbols are filed and questions asked in any order; only the filing changes
the table.

A definition is a symbol as its source gives it, with an address that may be too wide for a table.  A
sequence of definitions makes a table if every address fits; otherwise the first that does not is reported.
-/
import RomImage.Text.Basic

namespace RomImage

/-! ## Symbols -/

/-- A symbol of a linked object. -/
structure Symbol where
  /-- The name, by which a table files the symbol. -/
  name : String
  /-- The address that the name stands for. -/
  offset : UInt32
  /-- The size its source gives, zero if it gives none. -/
  size : UInt32 := 0
  /-- The section its source names, if any. -/
  sectionName : Option String := none
  deriving DecidableEq, Repr

/-- The names that the checks of an image ask for. -/
inductive Landmark
  /-- The start of the code window. -/
  | codeStart
  /-- The end of the code window. -/
  | codeEnd
  /-- The end of the code that is needed at start-up only. -/
  | initEnd
  /-- The compatibility table. -/
  | compatTable
  /-- The entry point that the compatibility table announces. -/
  | compatEntry
  deriving DecidableEq, Repr

/-- The name of the symbol that marks the place. -/
def Landmark.name : Landmark → String
  | codeStart => "code32flat_start"
  | codeEnd => "code32flat_end"
  | initEnd => "code32init_end"
  | compatTable => "csm_compat_table"
  | compatEntry => "entry_csm"

/-- A name that a table should hold and does not. -/
structure MissingSymbol where
  name : String
  deriving DecidableEq, Repr

/-- The wording of a missing symbol. -/
def MissingSymbol.message (e : MissingSymbol) : String :=
  "symbol `" ++ e.name ++ "` is missing from the symbol table"

/-! ## The order of names -/

/-- Of two different names that are not in order, the second comes first. -/
theorem name_lt_of_not_lt {a b : String} (hlt : ¬ a < b) (hne : a ≠ b) : b < a := by
  rcases String.le_total a b with h | h
  · exact absurd (String.le_antisymm h (String.not_lt.1 hlt)) hne
  · by_cases hb : b < a
    · exact hb
    · exact absurd (String.le_antisymm (String.not_lt.1 hb) h) hne

/-- Puts `s` at the place of its name, over the symbol that has the name already, if any. -/
def insertByName (s : Symbol) : List Symbol → List Symbol
  | [] => [s]
  | t :: ts =>
    if s.name < t.name then s :: t :: ts
    else if s.name = t.name then s :: ts
    else t :: insertByName s ts

/-- What an insertion leaves is the new symbol or was there before. -/
theorem mem_of_mem_insertByName {s u : Symbol} {ts : List Symbol} (h : u ∈ insertByName s ts) :
    u = s ∨ u ∈ ts := by
  induction ts with
  | nil => simpa [insertByName] using h
  | cons t ts ih =>
    unfold insertByName at h
    split at h
    · simpa using h
    · split at h
      · rcases List.mem_cons.1 h with h | h
        · exact .inl h
        · exact .inr (List.mem_cons_of_mem t h)
      · rcases List.mem_cons.1 h with h | h
        · exact .inr (h ▸ List.mem_cons_self)
        · exact (ih h).imp id (List.mem_cons_of_mem t)

/-- Insertion keeps the names strictly increasing. -/
theorem pairwise_insertByName (s : Symbol) {ts : List Symbol}
    (h : ts.Pairwise (fun a b => a.name < b.name)) :
    (insertByName s ts).Pairwise (fun a b => a.name < b.name) := by
  induction ts with
  | nil => simp [insertByName]
  | cons t ts ih =>
    obtain ⟨hhead, htail⟩ := List.pairwise_cons.1 h
    unfold insertByName
    split
    · rename_i hlt
      refine List.pairwise_cons.2 ⟨fun u hu => ?_, h⟩
      rcases List.mem_cons.1 hu with rfl | hu
      · exact hlt
      · exact String.lt_trans hlt (hhead u hu)
    · split
      · rename_i heq
        exact List.pairwise_cons.2 ⟨fun u hu => heq ▸ hhead u hu, htail⟩
      · rename_i hlt hne
        refine List.pairwise_cons.2 ⟨fun u hu => ?_, ih htail⟩
        rcases mem_of_mem_insertByName hu with rfl | hu
        · exact name_lt_of_not_lt hlt hne
        · exact hhead u hu

/-! ## Tables -/

/-- A symbol table: symbols by name, the names strictly increasing. -/
structure SymbolTable where
  /-- The symbols, in the order of their names. -/
  toList : List Symbol
  /-- No name comes twice or out of order. -/
  sorted : toList.Pairwise (fun a b => a.name < b.name)
  deriving DecidableEq

namespace SymbolTable

/-- The table without symbols. -/
def empty : SymbolTable :=
  ⟨[], .nil⟩

/-- The table with `s` filed under its name; a symbol that had the name is replaced. -/
def insert (t : SymbolTable) (s : Symbol) : SymbolTable :=
  ⟨insertByName s t.toList, pairwise_insertByName s t.sorted⟩

/-- The table of the symbols of a list, the last of each name. -/
def ofList (symbols : List Symbol) : SymbolTable :=
  symbols.foldl insert empty

/-- The symbol filed under a name. -/
def get? (t : SymbolTable) (name : String) : Option Symbol :=
  t.toList.find? (·.name = name)

/-- The address filed under a name. -/
def offset? (t : SymbolTable) (name : String) : Option UInt32 :=
  (t.get? name).map (·.offset)

/-- The address filed under a name that has to be there. -/
def require (t : SymbolTable) (name : String) : Except MissingSymbol UInt32 :=
  match t.offset? name with
  | some offset => .ok offset
  | none => .error ⟨name⟩

/-- Whether a symbol is filed under the name. -/
def contains (t : SymbolTable) (name : String) : Bool :=
  (t.get? name).isSome

/-- The number of symbols. -/
def size (t : SymbolTable) : Nat :=
  t.toList.length

/-- Whether there is no symbol. -/
def isEmpty (t : SymbolTable) : Bool :=
  t.toList.isEmpty

/-- Looking a name up right after an insertion finds the new symbol if the name is its own, and what
was filed before otherwise. -/
theorem get?_insert (t : SymbolTable) (s : Symbol) (name : String) :
    (t.insert s).get? name = if s.name = name then some s else t.get? name := by
  unfold insert get?
  simp only
  induction t.toList with
  | nil => by_cases h : s.name = name <;> simp [insertByName, h]
  | cons u us ih =>
    unfold insertByName
    split
    · by_cases h : s.name = name <;> simp [h]
    · split
      · rename_i heq
        by_cases h : s.name = name
        · simp [h]
        · have hu : ¬ u.name = name := heq ▸ h
          simp [h, hu]
      · rename_i hne
        by_cases hu : u.name = name
        · have h : ¬ s.name = name := fun h => hne (h.trans hu.symm)
          simp [h, hu]
        · simp [hu, ih]

/-- Nothing is filed in the empty table. -/
@[simp]
theorem get?_empty (name : String) : empty.get? name = none :=
  rfl

end SymbolTable

/-! ## Questions -/

/-- A question to a symbol table. -/
inductive TableQuery
  /-- Which symbol has the name? -/
  | get (name : String)
  /-- Which address has the name? -/
  | offset (name : String)
  /-- Which address has the name, which should be there? -/
  | require (name : String)
  /-- Is the name there? -/
  | contains (name : String)
  /-- How many symbols are there? -/
  | size
  /-- Is there no symbol? -/
  | isEmpty
  /-- Which symbols are there, in order? -/
  | symbols
  deriving DecidableEq, Repr

/-- The answer to a question. -/
inductive TableAnswer
  | symbol (found : Option Symbol)
  | offset (found : Option UInt32)
  | required (found : Except MissingSymbol UInt32)
  | flag (holds : Bool)
  | count (n : Nat)
  | symbols (all : List Symbol)

/-- The answer of a table. -/
def SymbolTable.answer (t : SymbolTable) : TableQuery → TableAnswer
  | .get name => .symbol (t.get? name)
  | .offset name => .offset (t.offset? name)
  | .require name => .required (t.require name)
  | .contains name => .flag (t.contains name)
  | .size => .count t.size
  | .isEmpty => .flag t.isEmpty
  | .symbols => .symbols t.toList

/-- One step of a run with a table. -/
inductive TableStep
  | insert (s : Symbol)
  | ask (q : TableQuery)
  deriving DecidableEq, Repr

/-- The answers that the questions of a run get, in order. -/
def SymbolTable.answers (t : SymbolTable) : List TableStep → List TableAnswer
  | [] => []
  | .insert s :: steps => (t.insert s).answers steps
  | .ask q :: steps => t.answer q :: t.answers steps

/-! ## Definitions -/

/-- Why no table could be read from a source of symbols. -/
inductive SymbolError
  /-- A listing has no symbol section. -/
  | missingListing
  /-- The address of a definition needs more than 32 bits. -/
  | addressTooWide (name : String) (address : Nat)
  /-- An object file breaks the rules of its format. -/
  | malformedObject
  deriving DecidableEq, Repr

/-- The wording of each error. -/
def SymbolError.message : SymbolError → String
  | missingListing => "symbol dump has no `SYMBOL TABLE:` section"
  | addressTooWide name address =>
    "symbol `" ++ name ++ "` address " ++ hex address ++ " does not fit in 32 bits"
  | malformedObject => "malformed ELF object"

/-- A symbol as its source defines it. -/
structure Definition where
  name : String
  address : Nat
  size : UInt32
  sectionName : Option String
  deriving DecidableEq, Repr

/-- The symbol that is defined, if its address fits in 32 bits. -/
def Definition.symbol (d : Definition) : Except SymbolError Symbol :=
  if d.address < UInt32.size then .ok ⟨d.name, UInt32.ofNat d.address, d.size, d.sectionName⟩
  else .error (.addressTooWide d.name d.address)

/-- The table that a sequence of definitions makes, a later one of a name over an earlier. -/
def SymbolTable.ofDefinitions (ds : List Definition) : Except SymbolError SymbolTable :=
  (ds.mapM Definition.symbol).map SymbolTable.ofList

end RomImage
