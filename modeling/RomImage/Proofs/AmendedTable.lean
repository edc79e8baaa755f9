/-
# Amended compatibility tables

What amending the compatibility table makes of an image.  `CompatTable.Amendable` collects what has to
hold of an image and its symbols; `patch_eq_some_iff` says that then, and only then, the table is
amended, and `IsAmended` describes the outcome byte by byte, which leaves no byte open
(`IsAmended.unique`).  The declared length of a table sums to zero afterwards if it holds the balance
byte; a shorter length sums to what it did before (`patch_balances_iff`).
-/
import RomImage.Proofs.CodeWindow
import RomImage.Proofs.EditedBytes
import RomImage.Rom.CompatTable

namespace RomImage

namespace CompatTable

/-! ## Places and entry points -/

/-- A table is located at the exact difference of the addresses, if its head lies in the image. -/
theorem locate_eq_ok_iff {table start : UInt32} {imageLen place : Nat} :
    locate table start imageLen = .ok place ↔
      start.toNat + place = table.toNat ∧ place + headLength ≤ imageLen := by
  have hlt := table.toNat_lt
  unfold locate
  simp only [UInt32.le_iff_toNat_le, rangeFits_iff, headLength, entryField, wordCount,
    UInt64.size]
  constructor
  · intro h
    split at h
    · rename_i hfits
      obtain ⟨hle, _, hin⟩ := hfits
      obtain rfl := Except.ok.inj h
      rw [UInt32.toNat_sub_of_le _ _ (UInt32.le_iff_toNat_le.2 hle)] at hin ⊢
      omega
    · cases h
  · rintro ⟨hplace, hin⟩
    have hdiff : (table - start).toNat = place := by
      rw [UInt32.toNat_sub_of_le _ _ (UInt32.le_iff_toNat_le.2 (by omega))]
      omega
    rw [hdiff, if_pos (by omega)]

/-- A table whose head does not lie in the image is refused. -/
theorem locate_eq_error {table start : UInt32} {imageLen : Nat}
    (h : ¬ (start.toNat ≤ table.toNat ∧
      table.toNat - start.toNat + headLength ≤ imageLen)) :
    locate table start imageLen =
      .error (.tableOutOfRange (table - start).toNat headLength imageLen) := by
  rw [locate, if_neg]
  rintro ⟨hle, hfits⟩
  apply h
  rw [← UInt32.toNat_sub_of_le _ _ hle]
  exact ⟨UInt32.le_iff_toNat_le.1 hle, (rangeFits_iff.1 hfits).2⟩

/-- An entry point is taken relative to the base exactly, if it is less than 64 KiB above it. -/
theorem relativeEntry_eq_ok_iff {address base : UInt32} {entry : UInt16} :
    relativeEntry address base = .ok entry ↔ base.toNat + entry.toNat = address.toNat := by
  have haddress := address.toNat_lt
  have hentry := entry.toNat_lt
  unfold relativeEntry
  simp only [UInt32.le_iff_toNat_le, UInt16.size]
  constructor
  · intro h
    split at h
    · rename_i hnear
      obtain ⟨hle, hlt⟩ := hnear
      obtain rfl := Except.ok.inj h
      rw [UInt32.toNat_toUInt16, Nat.mod_eq_of_lt hlt,
        UInt32.toNat_sub_of_le _ _ (UInt32.le_iff_toNat_le.2 hle)]
      omega
    · cases h
  · intro h
    have hdiff : (address - base).toNat = entry.toNat := by
      rw [UInt32.toNat_sub_of_le _ _ (UInt32.le_iff_toNat_le.2 (by omega))]
      omega
    rw [if_pos ⟨by omega, by omega⟩]
    congr 1
    apply UInt16.toNat_inj.1
    rw [UInt32.toNat_toUInt16, hdiff, Nat.mod_eq_of_lt hentry]

/-- An entry point in the 64 KiB from the base on has a relative address. -/
theorem exists_relativeEntry {address base : UInt32} (hle : base.toNat ≤ address.toNat)
    (hnear : address.toNat ≤ base.toNat + 0xffff) :
    ∃ entry, relativeEntry address base = .ok entry := by
  have hword : (UInt16.ofNat (address.toNat - base.toNat)).toNat
      = address.toNat - base.toNat := by
    rw [UInt16.toNat_ofNat']
    omega
  exact ⟨UInt16.ofNat (address.toNat - base.toNat), relativeEntry_eq_ok_iff.2 (by omega)⟩

/-- An entry point that is not less than 64 KiB above the base is refused. -/
theorem relativeEntry_eq_error {address base : UInt32}
    (h : ¬ (base.toNat ≤ address.toNat ∧ address.toNat ≤ base.toNat + 0xffff)) :
    relativeEntry address base = .error (.entryOutOfRange address base) := by
  rw [relativeEntry, if_neg]
  rintro ⟨hle, hlt⟩
  rw [UInt32.toNat_sub_of_le _ _ hle, UInt16.size] at hlt
  have hle' := UInt32.le_iff_toNat_le.1 hle
  apply h
  omega

/-! ## The amended image -/

/-- The image with the entry point of the table at `place` set. -/
def entered (image : Bytes) (place : Nat) (entry : UInt16) : Bytes :=
  written image (place + entryField) (entryBytes entry)

/-- The image with the entry point set and the first `size` bytes of the table balanced. -/
def amended (image : Bytes) (place : Nat) (entry : UInt16) (size : Nat) : Bytes :=
  balanced (entered image place entry) place size balanceField

/-- Setting the entry point keeps the length. -/
theorem length_entered {image : Bytes} {place : Nat} (entry : UInt16)
    (h : place + headLength ≤ image.length) :
    (entered image place entry).length = image.length :=
  length_written h

/-- Setting the entry point changes nothing in front of it. -/
theorem getElem?_entered_of_lt {image : Bytes} {place i : Nat} {entry : UInt16}
    (h : place + headLength ≤ image.length) (hi : i < place + entryField) :
    (entered image place entry)[i]? = image[i]? := by
  rw [entered, getElem?_written h, if_neg (by omega)]

/-- If the head of a table lies in the image, so does its balance byte, also after the entry point is
set. -/
theorem balanceField_lt_entered {image : Bytes} {place : Nat} (entry : UInt16)
    (h : place + headLength ≤ image.length) :
    place + balanceField < (entered image place entry).length := by
  rw [length_entered entry h]
  simp only [headLength, entryField] at h
  rw [balanceField]
  omega

/-- Amending a table keeps the length of the image. -/
theorem length_amended {image : Bytes} {place size : Nat} {entry : UInt16}
    (h : place + headLength ≤ image.length) :
    (amended image place entry size).length = image.length := by
  rw [amended, length_balanced (balanceField_lt_entered entry h), length_entered entry h]

/-- If the head of a table lies in the image, its entry point can be set. -/
theorem overwrite_entryField {image : Bytes} {place : Nat} (entry : UInt16)
    (hhead : rangeFits image.length place headLength = true) :
    overwrite image (place + entryField) (entryBytes entry) = .ok (entered image place entry) := by
  obtain ⟨hword, hin⟩ := rangeFits_iff.1 hhead
  simp only [headLength, entryField] at hword hin
  apply overwrite_eq_ok
  apply rangeFits_iff.2
  simp only [entryField, entryBytes, List.length_cons, List.length_nil]
  omega

/-- If the head of a table and a range of it lie in the image, the range can be balanced. -/
theorem balance_entered {image : Bytes} {place size : Nat} (entry : UInt16)
    (hhead : rangeFits image.length place headLength = true)
    (hfits : rangeFits image.length place size = true) :
    balance (entered image place entry) place size balanceField
      = .ok (amended image place entry size) := by
  obtain ⟨hword, hin⟩ := rangeFits_iff.1 hhead
  have hlen := length_entered entry hin
  simp only [headLength, entryField] at hword hin
  apply balance_eq_ok
  · apply rangeFits_iff.2
    rw [hlen, balanceField]
    omega
  · rw [hlen]
    exact hfits

/-- A table whose head lies in the image is amended if its declared length does too, and refused
otherwise. -/
theorem amend_eq {image : Bytes} {place : Nat} {entry : UInt16} {declared : UInt8}
    (hhead : rangeFits image.length place headLength = true)
    (hdeclared : image[place + lengthField]? = some declared) :
    amend image place entry =
      if rangeFits image.length place declared.toNat then
        .ok ⟨amended image place entry declared.toNat, declared.toNat,
          balanceOf (entered image place entry) place declared.toNat balanceField⟩
      else .error (.tableOutOfRange place declared.toNat image.length) := by
  obtain ⟨hword, hin⟩ := rangeFits_iff.1 hhead
  have hlen := length_entered entry hin
  -- the declared length is read after the entry point is set, which leaves it as it was
  have hlengthAt : (entered image place entry)[place + lengthField]? = some declared := by
    rw [getElem?_entered_of_lt hin (by simp only [lengthField, entryField]; omega), hdeclared]
  simp only [headLength, entryField] at hword hin
  have hentryWord := addWord_eq_ok (show place + entryField < wordCount by
    rw [entryField]; omega)
  have hlengthWord := addWord_eq_ok (show place + lengthField < wordCount by
    rw [lengthField]; omega)
  have hbalanceWord := addWord_eq_ok (show place + balanceField < wordCount by
    rw [balanceField]; omega)
  simp only [amend, hentryWord, hlengthWord, hbalanceWord, overwrite_entryField entry hhead,
    mapError_ok, bind, Except.bind, byteAt, hlengthAt, hlen]
  by_cases hfits : rangeFits image.length place declared.toNat = true
  · have hset : (amended image place entry declared.toNat)[place + balanceField]?
        = some (balanceOf (entered image place entry) place declared.toNat balanceField) := by
      rw [amended, getElem?_balanced (by rw [hlen, balanceField]; omega), if_pos rfl]
    rw [if_pos hfits, if_pos hfits, balance_entered entry hhead hfits]
    simp only [mapError_ok, hset]
    rfl
  · rw [if_neg hfits, if_neg hfits]

/-! ## The amended image, byte by byte -/

/-- What a payload that is made of `raw` by amending the table at `place` holds: the entry point
`address`, relative to the base of the window, and the byte that balances the declared length. -/
structure IsAmended (raw payload : Bytes) (place address : Nat) (declared : UInt8) : Prop where
  length_eq : payload.length = raw.length
  /-- No byte but the balance byte and the two of the entry point is changed. -/
  frame : ∀ i, i ≠ place + balanceField → i ≠ place + entryField → i ≠ place + entryField + 1 →
    payload[i]? = raw[i]?
  /-- The entry point stands in its two bytes, the least significant first. -/
  entry : ∃ low high, payload[place + entryField]? = some low ∧
    payload[place + entryField + 1]? = some high ∧ low.toNat + 256 * high.toNat = address
  /-- The table declares the length that it declared before. -/
  declared_eq : payload[place + lengthField]? = some declared
  /-- The balance byte completes the other bytes of the declared length to a multiple of 256. -/
  balance : ∃ b, payload[place + balanceField]? = some b ∧
    (b.toNat + byteTotal ((bytesIn payload place declared.toNat).eraseIdx balanceField)) % 256 = 0

/-- The two bytes of an entry point make it up again. -/
theorem getElem?_entered_entryField {image : Bytes} {place : Nat} (entry : UInt16)
    (h : place + headLength ≤ image.length) :
    ∃ low high, (entered image place entry)[place + entryField]? = some low ∧
      (entered image place entry)[place + entryField + 1]? = some high ∧
      low.toNat + 256 * high.toNat = entry.toNat := by
  have hentry := entry.toNat_lt
  refine ⟨UInt8.ofNat (entry.toNat % 256), UInt8.ofNat (entry.toNat / 256), ?_, ?_, ?_⟩
  · rw [entered, getElem?_written h, if_pos (by simp [entryBytes]), Nat.sub_self]
    rfl
  · rw [entered, getElem?_written h, if_pos (by simp [entryBytes]), Nat.add_sub_cancel_left]
    rfl
  · rw [UInt8.toNat_ofNat', UInt8.toNat_ofNat']
    omega

/-- The amended image is described by `IsAmended`. -/
theorem isAmended_amended {image : Bytes} {place : Nat} {declared : UInt8} (entry : UInt16)
    (h : place + headLength ≤ image.length)
    (hdeclared : image[place + lengthField]? = some declared) :
    IsAmended image (amended image place entry declared.toNat) place entry.toNat declared := by
  have hbalanceAt := balanceField_lt_entered entry h
  -- outside the balance byte, the amended image is the one with the entry point set
  have hget : ∀ i, i ≠ place + balanceField →
      (amended image place entry declared.toNat)[i]? = (entered image place entry)[i]? := by
    intro i hi
    rw [amended, getElem?_balanced hbalanceAt, if_neg hi]
  obtain ⟨low, high, hlow, hhigh, haddress⟩ := getElem?_entered_entryField entry h
  refine ⟨length_amended h, ?_, ?_, ?_, ?_⟩
  · intro i hbalance hentry hentry'
    rw [hget i hbalance, entered, getElem?_written h, if_neg]
    simp only [entryBytes, List.length_cons, List.length_nil]
    omega
  · refine ⟨low, high, ?_, ?_, haddress⟩
    · rw [hget _ (by simp only [entryField, balanceField]; omega), hlow]
    · rw [hget _ (by simp only [entryField, balanceField]; omega), hhigh]
  · rw [hget _ (by simp only [lengthField, balanceField]; omega), getElem?_entered_of_lt h
      (by simp only [lengthField, entryField]; omega), hdeclared]
  · refine ⟨balanceOf (entered image place entry) place declared.toNat balanceField, ?_, ?_⟩
    · rw [amended, getElem?_balanced hbalanceAt, if_pos rfl]
    · exact balanced_balances hbalanceAt

/-- The description of an amended image leaves no byte open. -/
theorem IsAmended.unique {raw p q : Bytes} {place address : Nat} {declared : UInt8}
    (hp : IsAmended raw p place address declared) (hq : IsAmended raw q place address declared) :
    p = q := by
  obtain ⟨lowP, highP, hlowP, hhighP, haddressP⟩ := hp.entry
  obtain ⟨lowQ, highQ, hlowQ, hhighQ, haddressQ⟩ := hq.entry
  have hltP := lowP.toNat_lt
  have hltQ := lowQ.toNat_lt
  have hlow : lowP = lowQ := UInt8.toNat_inj.1 (by omega)
  have hhigh : highP = highQ := UInt8.toNat_inj.1 (by omega)
  have hothers : ∀ i, i ≠ place + balanceField → p[i]? = q[i]? := by
    intro i hi
    by_cases hentry : i = place + entryField
    · rw [hentry, hlowP, hlowQ, hlow]
    · by_cases hentry' : i = place + entryField + 1
      · rw [hentry', hhighP, hhighQ, hhigh]
      · rw [hp.frame i hi hentry hentry', hq.frame i hi hentry hentry']
  -- the balance bytes complete the same bytes
  obtain ⟨b, hb, hbalanceP⟩ := hp.balance
  obtain ⟨c, hc, hbalanceQ⟩ := hq.balance
  rw [eraseIdx_bytesIn_congr hothers] at hbalanceP
  have hbc : b = c := eq_of_balances hbalanceP hbalanceQ
  apply List.ext_getElem?
  intro i
  by_cases hi : i = place + balanceField
  · rw [hi, hb, hc, hbc]
  · exact hothers i hi

/-! ## When a table is amended -/

/-- What has to hold for the table at `place` to be amended: the symbols name it and its entry point,
its head and the length that it declares lie in the image, and the entry point is near the base. -/
structure Amendable (image : Bytes) (symbols : SymbolTable) (window : RomWindow) (place : Nat)
    (entry : UInt16) (declared : UInt8) : Prop where
  place_eq : ∃ start table : UInt32, symbols.offset? Landmark.codeStart.name = some start ∧
    symbols.offset? Landmark.compatTable.name = some table ∧ start.toNat + place = table.toNat
  entry_eq : ∃ address : UInt32, symbols.offset? Landmark.compatEntry.name = some address ∧
    window.base.toNat + entry.toNat = address.toNat
  head_le : place + headLength ≤ image.length
  declared_eq : image[place + lengthField]? = some declared
  declared_le : place + declared.toNat ≤ image.length

variable {image payload : Bytes} {symbols : SymbolTable} {window : RomWindow}

/-- The symbols leave the table or its entry point undefined, or they define both. -/
theorem undefined_or_defined (symbols : SymbolTable) :
    (symbols.offset? Landmark.compatTable.name = none ∨
        symbols.offset? Landmark.compatEntry.name = none) ∨
      ∃ table address : UInt32, symbols.offset? Landmark.compatTable.name = some table ∧
        symbols.offset? Landmark.compatEntry.name = some address := by
  cases symbols.offset? Landmark.compatTable.name with
  | none => exact .inl (.inl rfl)
  | some table =>
      cases symbols.offset? Landmark.compatEntry.name with
      | none => exact .inl (.inr rfl)
      | some address => exact .inr ⟨table, address, rfl, rfl⟩

/-- Without a table or without its entry point there is nothing to amend. -/
theorem result_patch_of_undefined
    (h : symbols.offset? Landmark.compatTable.name = none ∨
      symbols.offset? Landmark.compatEntry.name = none) :
    (patch image symbols window).result = .ok none := by
  unfold patch
  split
  · rename_i htable hentry
    rcases h with h | h
    · rw [h] at htable
      cases htable
    · rw [h] at hentry
      cases hentry
  · rfl

/-- With both, the steps of amending it decide. -/
theorem result_patch_of_defined {table address : UInt32}
    (htable : symbols.offset? Landmark.compatTable.name = some table)
    (hentry : symbols.offset? Landmark.compatEntry.name = some address) :
    (patch image symbols window).result = (do
      let start ← (symbols.landmark .codeStart).mapError .missingSymbol
      let place ← locate table start image.length
      let entry ← relativeEntry address window.base
      let outcome ← amend image place entry
      return some outcome.image) := by
  unfold patch
  rw [htable, hentry]
  simp only [Logged.result_bind]
  rfl

/-- A table that has been located declares a length, and is amended if that length lies in the image. -/
theorem amend_of_locate {table start : UInt32} {place : Nat} (entry : UInt16)
    (h : locate table start image.length = .ok place) :
    ∃ declared, image[place + lengthField]? = some declared ∧
      amend image place entry =
        if place + declared.toNat ≤ image.length then
          .ok ⟨amended image place entry declared.toNat, declared.toNat,
            balanceOf (entered image place entry) place declared.toNat balanceField⟩
        else .error (.tableOutOfRange place declared.toNat image.length) := by
  have htable := table.toNat_lt
  obtain ⟨hplace, hhead⟩ := locate_eq_ok_iff.1 h
  have hbound : place + lengthField < image.length := by
    simp only [headLength, entryField] at hhead
    rw [lengthField]
    omega
  refine ⟨image[place + lengthField], List.getElem?_eq_getElem hbound, ?_⟩
  have hdeclared := image[place + lengthField].toNat_lt
  have hheadFits : rangeFits image.length place headLength = true := by
    apply rangeFits_iff.2
    simp only [headLength, entryField, wordCount, UInt64.size] at hhead ⊢
    omega
  -- the sums are far from the end of the words, so the exact bound decides
  have hfits : rangeFits image.length place image[place + lengthField].toNat = true ↔
      place + image[place + lengthField].toNat ≤ image.length := by
    rw [rangeFits_iff, wordCount, UInt64.size]
    omega
  rw [amend_eq hheadFits (List.getElem?_eq_getElem hbound)]
  simp only [hfits]

/-- A table is amended if and only if it can be, and then the image is the amended one. -/
theorem patch_eq_some_iff :
    (patch image symbols window).result = .ok (some payload) ↔
      ∃ place entry declared, Amendable image symbols window place entry declared ∧
        payload = amended image place entry declared.toNat := by
  constructor
  · intro h
    rcases undefined_or_defined symbols with hundefined | ⟨table, address, htable, haddress⟩
    · rw [result_patch_of_undefined hundefined] at h
      cases h
    · rw [result_patch_of_defined htable haddress] at h
      simp only [bind_eq_ok_iff, mapError_eq_ok_iff, SymbolTable.landmark_eq_ok_iff, pure,
        Except.pure, Except.ok.injEq, Option.some.injEq] at h
      obtain ⟨start, hstart, place, hplace, entry, hentry, outcome, houtcome, rfl⟩ := h
      obtain ⟨hdiff, hhead⟩ := locate_eq_ok_iff.1 hplace
      have hnear := relativeEntry_eq_ok_iff.1 hentry
      obtain ⟨declared, hdeclared, hamend⟩ := amend_of_locate entry hplace
      rw [hamend] at houtcome
      split at houtcome
      · rename_i hin
        obtain rfl := Except.ok.inj houtcome
        exact ⟨place, entry, declared, ⟨⟨start, table, hstart, htable, hdiff⟩,
          ⟨address, haddress, hnear⟩, hhead, hdeclared, hin⟩, rfl⟩
      · cases houtcome
  · rintro ⟨place, entry, declared, h, rfl⟩
    obtain ⟨start, table, hstart, htable, hdiff⟩ := h.place_eq
    obtain ⟨address, haddress, hnear⟩ := h.entry_eq
    have hplace := locate_eq_ok_iff.2 ⟨hdiff, h.head_le⟩
    have hentry := relativeEntry_eq_ok_iff.2 hnear
    obtain ⟨declared', hdeclared, hamend⟩ := amend_of_locate entry hplace
    obtain rfl := Option.some.inj (h.declared_eq.symm.trans hdeclared)
    rw [if_pos h.declared_le] at hamend
    rw [result_patch_of_defined htable haddress, SymbolTable.landmark_eq_ok_iff.2 hstart]
    simp only [mapError_ok, bind, Except.bind, hplace, hentry, hamend]
    rfl

/-- An image is left alone if and only if there is no table or no entry point for it. -/
theorem patch_eq_none_iff :
    (patch image symbols window).result = .ok none ↔
      symbols.offset? Landmark.compatTable.name = none ∨
        symbols.offset? Landmark.compatEntry.name = none := by
  constructor
  · intro h
    rcases undefined_or_defined symbols with hundefined | ⟨table, address, htable, haddress⟩
    · exact hundefined
    · rw [result_patch_of_defined htable haddress] at h
      simp [bind_eq_ok_iff, pure, Except.pure] at h
  · exact result_patch_of_undefined

/-! ## The sum of the declared length -/

/-- The first bytes of an amended table sum to a multiple of 256 if the balance byte is among them;
fewer bytes are left as they were. -/
theorem byteTotal_amended_iff {place size : Nat} (entry : UInt16)
    (h : place + headLength ≤ image.length) :
    byteTotal (bytesIn (amended image place entry size) place size) % 256 = 0 ↔
      balanceField < size ∨ byteTotal (bytesIn image place size) % 256 = 0 := by
  have hbalanceAt := balanceField_lt_entered entry h
  by_cases hsize : balanceField < size
  · exact iff_of_true (byteTotal_balanced hbalanceAt hsize) (.inl hsize)
  · have hkept : bytesIn (amended image place entry size) place size
        = bytesIn image place size := by
      rw [amended, bytesIn_balanced_of_le hbalanceAt (by omega)]
      apply bytesIn_congr
      intro i _ hi
      apply getElem?_entered_of_lt h
      simp only [balanceField] at hsize
      rw [entryField]
      omega
    rw [hkept]
    exact ⟨.inr, fun hsum => hsum.resolve_left hsize⟩

/-- When a table has been amended, the length that it declares lies in the image and sums to a multiple
of 256 if it holds the balance byte.  If the declared length ends before that byte, it sums to a
multiple of 256 only if it did so before. -/
theorem patch_balances_iff (h : (patch image symbols window).result = .ok (some payload)) :
    ∃ (start table : UInt32) (place : Nat) (declared : UInt8),
      symbols.offset? Landmark.codeStart.name = some start ∧
      symbols.offset? Landmark.compatTable.name = some table ∧
      start.toNat + place = table.toNat ∧
      payload[place + lengthField]? = some declared ∧
      place + declared.toNat ≤ payload.length ∧
      (byteTotal (bytesIn payload place declared.toNat) % 256 = 0 ↔
        balanceField < declared.toNat ∨
          byteTotal (bytesIn image place declared.toNat) % 256 = 0) := by
  obtain ⟨place, entry, declared, hcan, rfl⟩ := patch_eq_some_iff.1 h
  obtain ⟨start, table, hstart, htable, hdiff⟩ := hcan.place_eq
  have hspec := isAmended_amended entry hcan.head_le hcan.declared_eq
  refine ⟨start, table, place, declared, hstart, htable, hdiff, hspec.declared_eq, ?_,
    byteTotal_amended_iff entry hcan.head_le⟩
  rw [hspec.length_eq]
  exact hcan.declared_le

/-! ## Short tables -/

/-- Symbols of an image that is a compatibility table and nothing else. -/
def tableSymbols : SymbolTable :=
  .ofList [⟨Landmark.codeStart.name, 0xf0000, 0, none⟩,
    ⟨Landmark.compatTable.name, 0xf0000, 0, none⟩,
    ⟨Landmark.compatEntry.name, 0xf1234, 0, none⟩]

/-- A bare head of a table that declares the given length. -/
def bareTable (declared : UInt8) : Bytes :=
  [0x49, 0, 0, 0, 0, declared, 0, 0, 0, 0, 0, 0, 0, 0, 0, 0]

/-- A table that declares all of its head is balanced. -/
theorem patch_balances_iff_bareTable :
    ∃ payload, (patch (bareTable 16) tableSymbols .standard).result = .ok (some payload) ∧
      ∃ (start table : UInt32) (place : Nat) (declared : UInt8),
        tableSymbols.offset? Landmark.codeStart.name = some start ∧
        tableSymbols.offset? Landmark.compatTable.name = some table ∧
        start.toNat + place = table.toNat ∧
        payload[place + lengthField]? = some declared ∧
        place + declared.toNat ≤ payload.length ∧
        (byteTotal (bytesIn payload place declared.toNat) % 256 = 0 ↔
          balanceField < declared.toNat ∨
            byteTotal (bytesIn (bareTable 16) place declared.toNat) % 256 = 0) := by
  have h : (patch (bareTable 16) tableSymbols .standard).result
      = .ok (some [0x49, 0, 0, 0, 0x61, 16, 0, 0, 0, 0, 0, 0, 0, 0, 0x34, 0x12]) := rfl
  exact ⟨_, h, patch_balances_iff h⟩

/-- A table that declares a single byte, which is not zero, is not. -/
theorem patch_leaves_unbalanced :
    ∃ payload, (patch (bareTable 1) tableSymbols .standard).result = .ok (some payload) ∧
      payload[lengthField]? = some 1 ∧ byteTotal (bytesIn payload 0 1) % 256 ≠ 0 :=
  ⟨[0x49, 0, 0, 0, 0xb7, 1, 0, 0, 0, 0, 0, 0, 0, 0, 0x34, 0x12], rfl, by decide, by decide⟩

end CompatTable

end RomImage
