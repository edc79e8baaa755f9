/-
# What a run does to the files

A run succeeds exactly if its two input files can be read, make a final image, and its output can be
written (`Invocation.Delivers`).  It then changes one file, the one that the output path leads to, which
holds the image of the inputs as they were before the run, also if the output is one of them.  A run
that fails changes no file (`run_eq_ok_iff_delivers`).
-/
import RomImage.Command.Session
import RomImage.Proofs.Outcome
import RomImage.Symbol.Listing

namespace RomImage

namespace Invocation

variable {i : Invocation} {files : FileSystem} {final : FinalImage} {name : FileName}

/-! ## Preparing the image -/

/-- The result of preparing the image, apart from what it logs. -/
theorem result_prepare (i : Invocation) (symbolSource raw : Except FileError Bytes) :
    (i.prepare symbolSource raw).result = (do
      let source ← symbolSource.mapError (.unreadable i.symbols)
      let symbols ← (SymbolTable.ofSource source).mapError (.unparsed i.symbols)
      let payload ← raw.mapError (.unreadable i.raw)
      (finalize symbols payload i.options).result.mapError .refused) := by
  unfold prepare
  simp only [Logged.result_bind]
  rfl

/-- An image is prepared exactly if both files are read, the one makes a table of symbols, and the other
is finalized with it. -/
theorem prepare_eq_ok_iff {symbolSource raw : Except FileError Bytes} :
    (i.prepare symbolSource raw).result = .ok final ↔
      ∃ source symbols payload, symbolSource = .ok source ∧
        SymbolTable.ofSource source = .ok symbols ∧ raw = .ok payload ∧
        (finalize symbols payload i.options).result = .ok final := by
  rw [result_prepare]
  simp only [bind_eq_ok_iff, mapError_eq_ok_iff]
  constructor
  · rintro ⟨source, hsource, symbols, hsymbols, payload, hpayload, hfinal⟩
    exact ⟨source, symbols, payload, hsource, hsymbols, hpayload, hfinal⟩
  · rintro ⟨source, symbols, payload, hsource, hsymbols, hpayload, hfinal⟩
    exact ⟨source, hsource, symbols, hsymbols, payload, hpayload, hfinal⟩

/-! ## Runs -/

/-- The files before a run let it succeed: the inputs make the image `final`, with the size and the window
that the invocation asks for, and the output path leads to the file `name`. -/
structure Delivers (i : Invocation) (files : FileSystem) (final : FinalImage)
    (name : FileName) : Prop where
  image_eq : ∃ source symbols raw, files.read i.symbols = .ok source ∧
    SymbolTable.ofSource source = .ok symbols ∧ files.read i.raw = .ok raw ∧
    (finalize symbols raw ⟨i.sizeKib, i.window⟩).result = .ok final
  output_eq : files.openPath .writing i.output = .ok name

/-- A run that can deliver its image succeeds, and leaves the image in the output file. -/
theorem run_of_delivers (h : i.Delivers files final name) :
    (i.run files).result = .ok () ∧ (i.run files).files = files.put name final.image := by
  have hprepared := prepare_eq_ok_iff.2 h.image_eq
  have hwritten := FileSystem.write_of_openPath h.output_eq final.image
  unfold run
  simp only [hprepared, hwritten, and_self]

/-- A run that can not deliver an image fails, and leaves the files alone. -/
theorem delivers_or_run_fails (i : Invocation) (files : FileSystem) :
    (∃ final name, i.Delivers files final name) ∨
      (∃ e, (i.run files).result = .error e) ∧ (i.run files).files = files := by
  cases hprepared : (i.prepare (files.read i.symbols) (files.read i.raw)).result with
  | error e =>
      right
      unfold run
      simp only [hprepared, and_true]
      exact ⟨e, rfl⟩
  | ok final =>
      -- the image is made, so that only the output path is left to decide
      cases hopen : files.openPath .writing i.output with
      | ok name => exact .inl ⟨final, name, prepare_eq_ok_iff.1 hprepared, hopen⟩
      | error e =>
          right
          have hwritten : files.write i.output final.image = .error e := by
            rw [FileSystem.write, hopen]
            rfl
          unfold run
          simp only [hprepared, hwritten, and_true]
          exact ⟨_, rfl⟩

/-- A run succeeds exactly if the files let it deliver an image.  Then the output file holds that image
and every other file is as before; if the run fails, every file is. -/
theorem run_eq_ok_iff_delivers (i : Invocation) (files : FileSystem) :
    ((i.run files).result = .ok () ↔ ∃ final name, i.Delivers files final name) ∧
    (∀ final name, i.Delivers files final name → ∀ file,
      (i.run files).files.contents file
        = if file = name then some final.image else files.contents file) ∧
    ∀ e, (i.run files).result = .error e → (i.run files).files = files := by
  refine ⟨⟨?_, ?_⟩, ?_, ?_⟩
  · intro hok
    rcases delivers_or_run_fails i files with hdelivers | ⟨⟨e, he⟩, _⟩
    · exact hdelivers
    · rw [hok] at he
      cases he
  · rintro ⟨final, name, h⟩
    exact (run_of_delivers h).1
  · intro final name h file
    rw [(run_of_delivers h).2]
    rfl
  · intro e he
    rcases delivers_or_run_fails i files with ⟨final, name, h⟩ | ⟨_, hfiles⟩
    · rw [(run_of_delivers h).1] at he
      cases he
    · exact hfiles

/-- The landmarks of four bytes of code at the end of the address space. -/
def fourByteEntries : List ListingEntry :=
  [⟨Landmark.codeStart.name, 0xffffc, 0, ".text", "g      ".toList, false⟩,
    ⟨Landmark.codeEnd.name, 0x100000, 0, ".text", "g      ".toList, false⟩,
    ⟨Landmark.initEnd.name, 0xffffe, 0, ".text", "g      ".toList, false⟩]

/-- A listing of these landmarks, and the four bytes. -/
def fourByteFiles : FileSystem where
  contents
    | .here "symbols" => some (encodeUtf8 (listing 8 [] fourByteEntries []))
    | .here "rom" => some [1, 2, 3, 4]
    | _ => none
  locate _ _ path := .ok (.here path)

/-- A run that puts its image in the place of its payload. -/
def inPlace : Invocation :=
  ⟨"symbols", 1, "rom", "rom", .standard, .quiet⟩

/-- The image of the four bytes. -/
def fourByteImage : FinalImage :=
  ⟨List.replicate 1020 0 ++ [1, 2, 3, 4], ⟨4, 2, ⟨1024⟩⟩⟩

set_option maxRecDepth 20000 in
/-- The payload is replaced by its image, which is computed from the payload as it was. -/
theorem run_inPlace :
    (inPlace.run fourByteFiles).result = .ok () ∧
      (inPlace.run fourByteFiles).files.contents (.here "rom") = some fourByteImage.image := by
  have h : inPlace.Delivers fourByteFiles fourByteImage (.here "rom") :=
    ⟨⟨_, _, _, rfl, rfl, rfl, rfl⟩, rfl⟩
  obtain ⟨hresult, hfiles, _⟩ := run_eq_ok_iff_delivers inPlace fourByteFiles
  exact ⟨hresult.2 ⟨_, _, h⟩, hfiles fourByteImage _ h (.here "rom")⟩

end Invocation

end RomImage
