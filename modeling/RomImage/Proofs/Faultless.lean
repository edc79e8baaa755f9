/-
# No broken precondition

Neither amending a compatibility table nor finalizing ever breaks the precondition of an edit, a read or
a sum of words, whatever the symbols, the image, the window and the request (`result_ne_fault`).  So that
nothing is left out, `checkedFinalize` also computes the size of the image and the end of the window in
words and scans the payload with checked arithmetic; it is `finalize`, records included.  The scans come
after the code range has been accepted, so they only meet payloads that fit a size class, and the
length of such a payload is a word.
-/
import RomImage.Proofs.CheckedScans
import RomImage.Proofs.ShippedImage

namespace RomImage

/-! ## The compatibility table -/

/-- Amending a located table ends in an amended image or in a refusal, never in a fault. -/
theorem CompatTable.amend_ne_fault {table start : UInt32} {image : Bytes} {place : Nat}
    (h : locate table start image.length = .ok place) (entry : UInt16) (broken : Fault) :
    amend image place entry ≠ .error (.fault broken) := by
  obtain ⟨declared, _, hamend⟩ := amend_of_locate entry h
  rw [hamend]
  split <;> simp

/-- Amending the table of an image, if there is one, never ends in a fault. -/
theorem CompatTable.patch_ne_fault (image : Bytes) (symbols : SymbolTable) (window : RomWindow)
    (broken : Fault) : (patch image symbols window).result ≠ .error (.fault broken) := by
  intro h
  rcases undefined_or_defined symbols with hundefined | ⟨table, address, htable, haddress⟩
  · rw [result_patch_of_undefined hundefined] at h
    cases h
  · rw [result_patch_of_defined htable haddress] at h
    simp only [bind_eq_error_iff] at h
    -- each of the steps can only refuse the table in a way of its own
    rcases h with hstart | ⟨start, _, hplace | ⟨place, hplace, hentry | ⟨entry, _, hamend |
      ⟨outcome, _, hdone⟩⟩⟩⟩
    · cases hlandmark : symbols.landmark .codeStart <;> rw [hlandmark] at hstart <;> cases hstart
    · unfold locate at hplace
      split at hplace <;> cases hplace
    · unfold relativeEntry at hentry
      split at hentry <;> cases hentry
    · exact amend_ne_fault hplace entry broken hamend
    · cases hdone

/-! ## Sums and products of words -/

/-- The product of two words, a fault if it is no word. -/
def mulWord (a b : Nat) : Except Fault Nat :=
  if a * b < wordCount then .ok (a * b) else .error .wordOverflow

/-- The size class of a request, its size computed in words. -/
def SizeClass.checkedResolve (requestedKib : UInt32) (payloadLen : Nat) : Except Fault SizeClass :=
  if requestedKib = 0 then .ok (resolve 0 payloadLen)
  else (mulWord requestedKib.toNat bytesPerKib).map SizeClass.mk

/-- The size of every request is a word. -/
theorem SizeClass.checkedResolve_eq_ok (requestedKib : UInt32) (payloadLen : Nat) :
    checkedResolve requestedKib payloadLen = .ok (resolve requestedKib payloadLen) := by
  unfold checkedResolve
  split
  · rename_i hzero
    rw [hzero]
  · rename_i hpos
    have hword := bytes_resolve_lt requestedKib payloadLen
    rw [resolve, if_neg hpos, ofKib] at hword ⊢
    rw [mulWord, if_pos hword]
    rfl

/-- The address behind a window, computed in words. -/
def RomWindow.checkedStop (w : RomWindow) : Except Fault Nat :=
  addWord w.base.toNat w.size.toNat

/-- The address behind a window is a word. -/
theorem RomWindow.checkedStop_eq_ok (w : RomWindow) : w.checkedStop = .ok w.stop := by
  have hbase := w.base.toNat_lt
  have hsize := w.size.toNat_lt
  apply addWord_eq_ok
  rw [wordCount, UInt64.size]
  omega

/-! ## Warnings -/

/-- What is to be said about dates that were found. -/
def DateAdvisory.ofFindings : List Finding → Option DateAdvisory
  | [] => some .missing
  | [_] => none
  | dates => some (.multiple dates)

/-- What is to be said about version strings that were found. -/
def VersionAdvisory.ofFindings : List Finding → Option VersionAdvisory
  | [] => none
  | versions => some ⟨versions⟩

/-- Warns about the dates and then about the version strings of an image, both looked for with checked
arithmetic. -/
def checkedWarnAbout (image : Bytes) : Logged Fault Unit := do
  let dates ← .ofExcept (checkedDates image)
  warnIf ((DateAdvisory.ofFindings dates).map DateAdvisory.message)
  let versions ← .ofExcept (checkedVersions image)
  warnIf ((VersionAdvisory.ofFindings versions).map VersionAdvisory.message)

/-- Warning with checked arithmetic is warning. -/
theorem checkedWarnAbout_eq {image : Bytes} (h : image.length < wordCount) :
    checkedWarnAbout image = warnAbout image := by
  rw [checkedWarnAbout, checkedDates_eq_ok h, checkedVersions_eq_ok h]
  rfl

/-- Warning never fails, so that no error is seen in another way. -/
theorem mapError_warnAbout {ε ε' : Type} (f : ε' → ε) (image : Bytes) :
    (warnAbout image : Logged ε' Unit).mapError f = warnAbout image := by
  unfold warnAbout
  cases checkDates image <;> cases checkVersions image <;> rfl

/-! ## Finalizing -/

/-- The final image of a payload, as `finalize` makes it, with every sum and product of words and every
read of the payload checked. -/
def checkedFinalize (symbols : SymbolTable) (raw : Bytes) (options : FinalizeOptions) :
    Logged FinalizeError FinalImage := do
  let size ← .ofExcept
    ((SizeClass.checkedResolve options.requestedKib raw.length).mapError .fault)
  .log .debug ("final size " ++ size.label ++ " for " ++ toString raw.length ++
    " bytes of payload")
  let _ ← .ofExcept (options.window.checkedStop.mapError .fault)
  let range ← .ofExcept
    ((CodeRange.validate symbols raw.length size options.window).mapError .layout)
  .log .debug ("code window " ++ hex range.start.toNat ++ ".." ++ hex range.stop.toNat ++
    ", init ends at " ++ hex range.initEnd.toNat)
  (checkedWarnAbout raw).mapError .fault
  let patched ← (CompatTable.patch raw symbols options.window).mapError .compat
  let payload := patched.getD raw
  let image ← .ofExcept ((padFront payload size).mapError .fault)
  return ⟨image, ⟨payload.length, range.fixedSize, size⟩⟩

/-- The length of a payload whose code range is accepted is a word. -/
theorem CodeRange.Accepted.length_lt {symbols : SymbolTable} {payloadLen : Nat} {size : SizeClass}
    {window : RomWindow} {range : CodeRange}
    (h : Accepted symbols payloadLen size window range) : payloadLen < wordCount := by
  have hlength := h.length_eq
  have hlt := (range.stop - range.start).toNat_lt
  rw [wordCount, UInt64.size]
  omega

/-- Checked finalizing is finalizing: it makes the same image or refuses it in the same way, and keeps
the same records. -/
theorem checkedFinalize_eq (symbols : SymbolTable) (raw : Bytes) (options : FinalizeOptions) :
    checkedFinalize symbols raw options = finalize symbols raw options := by
  unfold checkedFinalize finalize
  simp only [SizeClass.checkedResolve_eq_ok, RomWindow.checkedStop_eq_ok, mapError_ok,
    Logged.ofExcept_ok_bind]
  cases hrange : CodeRange.validate symbols raw.length
      (.resolve options.requestedKib raw.length) options.window with
  | error refusal => rfl
  | ok range =>
      -- the payload is scanned only now that its length is known to be a word
      have hlen := (CodeRange.validate_eq_ok_iff.1 hrange).length_lt
      simp only [checkedWarnAbout_eq hlen, mapError_warnAbout]

/-- Finalizing refuses a payload for its code range or for its table; an accepted payload can always be
padded. -/
theorem finalize_eq_error {symbols : SymbolTable} {raw : Bytes} {options : FinalizeOptions}
    {e : FinalizeError} (h : (finalize symbols raw options).result = .error e) :
    (∃ refusal, e = .layout refusal) ∨
      ∃ refusal, (CompatTable.patch raw symbols options.window).result = .error refusal ∧
        e = .compat refusal := by
  rw [result_finalize] at h
  simp only [bind_eq_error_iff, mapError_eq_error_iff, mapError_eq_ok_iff] at h
  rcases h with ⟨refusal, _, rfl⟩ | ⟨range, hrange, ⟨refusal, hrefusal, rfl⟩ |
    ⟨patched, hpatched, hrest⟩⟩
  · exact .inl ⟨refusal, rfl⟩
  · exact .inr ⟨refusal, hrefusal, rfl⟩
  · have hfits := (CodeRange.validate_eq_ok_iff.1 hrange).fits
    rw [padFront_eq_ok (by rw [length_getD_of_patch hpatched]; exact hfits)] at hrest
    simp [pure, Except.pure] at hrest

/-- Amending the table of an image never breaks a precondition, and neither does finalizing, even when
it is done with checked arithmetic, which changes neither its outcome nor its records. -/
theorem result_ne_fault (symbols : SymbolTable) (image : Bytes) (window : RomWindow) (raw : Bytes)
    (options : FinalizeOptions) :
    (∀ broken, (CompatTable.patch image symbols window).result ≠ .error (.fault broken)) ∧
    checkedFinalize symbols raw options = finalize symbols raw options ∧
    ∀ broken, (checkedFinalize symbols raw options).result ≠ .error (.fault broken) ∧
      (checkedFinalize symbols raw options).result ≠ .error (.compat (.fault broken)) := by
  refine ⟨CompatTable.patch_ne_fault image symbols window,
    checkedFinalize_eq symbols raw options, ?_⟩
  rw [checkedFinalize_eq]
  intro broken
  constructor
  · intro h
    rcases finalize_eq_error h with ⟨refusal, hrefusal⟩ | ⟨refusal, _, hrefusal⟩ <;> cases hrefusal
  · intro h
    rcases finalize_eq_error h with ⟨refusal, hrefusal⟩ | ⟨refusal, hpatch, hrefusal⟩
    · cases hrefusal
    · cases hrefusal
      exact CompatTable.patch_ne_fault raw symbols options.window broken hpatch

end RomImage
