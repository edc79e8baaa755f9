/-
# Listings of findings

A listing of findings can be read in one way only: advisories of the same wording list findings with the
same texts, as they are decoded, and the same positions (`message_eq_iff_sameShown`).  The forms that a
listing is made of tell themselves apart whatever follows them (`SelfDelimiting`): each shown character,
because of what stands behind a backslash; a quoted text, because no form of a character begins with a
quote; a position, because of the bracket that closes it.  So a text may hold quotes, brackets and commas.
-/
import Mathlib.Data.List.Forall2
import RomImage.Advisory
import RomImage.Proofs.TextPieces

namespace RomImage

/-! ## Forms that tell where they end -/

section

variable {α β : Type} {form : α → List Char} {key : α → β}

/-- The forms of two things with other keys differ, and so they do in front of whatever follows; and what
follows the forms of two things with the same key is not changed by them. -/
def SelfDelimiting (form : α → List Char) (key : α → β) : Prop :=
  ∀ a b s t, form a ++ s = form b ++ t → key a = key b ∧ s = t

/-- The digits of a number end at a character that is no digit. -/
theorem toDigits_append_stop_inj {radix n m : Nat} {stop : Char} {s t : List Char} (hlt : 1 < radix)
    (hradix : radix ≤ 16) (hstop : stop.toNat < 48 ∨ 122 < stop.toNat)
    (h : Nat.toDigits radix n ++ stop :: s = Nat.toDigits radix m ++ stop :: t) :
    n = m ∧ s = t := by
  have hnot : ∀ n, stop ∉ Nat.toDigits radix n := by
    intro n
    obtain ⟨values, hdigits, _⟩ := exists_hasDigits_toDigits hlt n
    exact hdigits.not_mem hradix hstop
  -- up to the first such character both are the digits alone
  have hpieces := congrArg (List.splitOn stop) h
  rw [splitOn_append_cons s (hnot n), splitOn_append_cons t (hnot m)] at hpieces
  obtain rfl := toDigits_inj hlt hradix (List.cons.inj hpieces).1
  exact ⟨rfl, (List.cons.inj (List.append_cancel_left h)).2⟩

/-- A sequence of forms, none of which begins with the character that ends the sequence. -/
theorem SelfDelimiting.sequence {stop : Char} (h : SelfDelimiting form key)
    (hne : ∀ a, form a ≠ []) (hstop : ∀ a, (form a).head? ≠ some stop) :
    SelfDelimiting (fun xs => xs.flatMap form ++ [stop]) (List.map key) := by
  -- in front of the end of a sequence no further form can be meant
  have hopen : ∀ x xs s t, ¬ (x :: xs).flatMap form ++ [stop] ++ s = stop :: t := by
    intro x xs s t heq
    apply hstop x
    obtain ⟨c, cs, hform⟩ := List.exists_cons_of_ne_nil (hne x)
    rw [List.flatMap_cons, hform] at heq
    rw [hform, List.head?_cons, (List.cons.inj heq).1]
  intro xs
  induction xs with
  | nil =>
      intro ys s t heq
      cases ys with
      | nil => exact ⟨rfl, (List.cons.inj heq).2⟩
      | cons y ys => exact absurd heq.symm (hopen y ys t s)
  | cons x xs ih =>
      intro ys s t heq
      cases ys with
      | nil => exact absurd heq (hopen x xs s t)
      | cons y ys =>
          simp only [List.flatMap_cons, List.append_assoc] at heq
          obtain ⟨hkey, hrest⟩ := h x y _ _ heq
          simp only [← List.append_assoc] at hrest
          obtain ⟨hkeys, hst⟩ := ih ys s t hrest
          exact ⟨by rw [List.map_cons, List.map_cons, hkey, hkeys], hst⟩

end

/-! ## Quoted texts -/

/-- The characters that stand behind a backslash as one other character. -/
def markedForms : List (Char × Char) :=
  [('\x00', '0'), ('\t', 't'), ('\r', 'r'), ('\n', 'n'), ('"', '"'), ('\\', '\\')]

/-- A character stands for itself, or as another one behind a backslash, or as its code point. -/
theorem quotedChar_cases (c : Char) :
    (c ≠ '\\' ∧ quotedChar c = [c]) ∨
    (∃ mark, (c, mark) ∈ markedForms ∧ quotedChar c = ['\\', mark]) ∨
    quotedChar c = '\\' :: 'u' :: '\x7b' :: (Nat.toDigits 16 c.toNat ++ ['\x7d']) := by
  by_cases hmarked : c ∈ markedForms.map Prod.fst
  · right
    left
    obtain ⟨p, hmem, rfl⟩ := List.mem_map.1 hmarked
    have hforms : ∀ p ∈ markedForms, quotedChar p.1 = ['\\', p.2] := by decide
    exact ⟨p.2, hmem, hforms p hmem⟩
  · have hplain : c ≠ '\x00' ∧ c ≠ '\t' ∧ c ≠ '\r' ∧ c ≠ '\n' ∧ c ≠ '"' ∧ c ≠ '\\' := by
      simpa [markedForms] using hmarked
    obtain ⟨h0, ht, hr, hn, hquote, hbackslash⟩ := hplain
    rw [quotedChar, if_neg h0, if_neg ht, if_neg hr, if_neg hn, if_neg hquote, if_neg hbackslash]
    split
    · exact .inr (.inr rfl)
    · exact .inl ⟨hbackslash, rfl⟩

/-- A shown character tells which one it is, and where it ends. -/
theorem selfDelimiting_quotedChar : SelfDelimiting quotedChar id := by
  have hmarks : ∀ p ∈ markedForms, ∀ q ∈ markedForms, p.2 = q.2 → p.1 = q.1 := by decide
  have hcode : ∀ p ∈ markedForms, p.2 ≠ 'u' := by decide
  intro c d s t h
  rcases quotedChar_cases c with ⟨hc, hform⟩ | ⟨mark, hmem, hform⟩ | hform <;>
    rcases quotedChar_cases d with ⟨hd, hform'⟩ | ⟨mark', hmem', hform'⟩ | hform' <;>
    rw [hform, hform'] at h <;>
    simp only [List.cons_append, List.nil_append, List.append_assoc, List.cons.injEq] at h
  -- both stand for themselves
  · exact h
  · exact absurd h.1 hc
  · exact absurd h.1 hc
  · exact absurd h.1.symm hd
  · -- both are marked, by the same character
    exact ⟨hmarks _ hmem _ hmem' h.2.1, h.2.2⟩
  · exact absurd h.2.1 (hcode _ hmem)
  · exact absurd h.1.symm hd
  · exact absurd h.2.1.symm (hcode _ hmem')
  · -- both are shown by their code points
    obtain ⟨hpoint, hst⟩ :=
      toDigits_append_stop_inj (by decide) (by decide) (.inr (by decide)) h.2.2.2
    exact ⟨Char.toNat_inj.1 hpoint, hst⟩

/-- A character is not shown by nothing. -/
theorem quotedChar_ne_nil (c : Char) : quotedChar c ≠ [] := by
  rcases quotedChar_cases c with ⟨_, hform⟩ | ⟨_, _, hform⟩ | hform
  all_goals
    rw [hform]
    exact List.cons_ne_nil _ _

/-- A quoted text tells which one it is, and where it ends. -/
theorem selfDelimiting_quoted : SelfDelimiting quoted id := by
  intro cs ds s t h
  have hbody := selfDelimiting_quotedChar.sequence quotedChar_ne_nil head_quotedChar_ne_quote
  obtain ⟨htext, hst⟩ := hbody cs ds s t (List.cons.inj h).2
  rw [List.map_id, List.map_id] at htext
  exact ⟨htext, hst⟩

/-! ## Findings -/

/-- What a listing shows of a finding: its text, as it is decoded, and its position. -/
def Finding.shown (f : Finding) : List Char × Nat :=
  (decodeLossy f.text, f.position)

/-- A shown finding tells what is shown of it, and where it ends. -/
theorem Finding.selfDelimiting_render : SelfDelimiting render shown := by
  intro f g s t h
  simp only [render, List.cons_append, List.append_assoc, List.cons.injEq, true_and] at h
  obtain ⟨htext, hrest⟩ := selfDelimiting_quoted _ _ _ _ h
  have hdigits : ∀ n : Nat, (toString n).toList = Nat.toDigits 10 n := fun _ => String.toList_ofList
  simp only [List.nil_append, List.cons.injEq, true_and, hdigits] at hrest
  obtain ⟨hposition, hst⟩ :=
    toDigits_append_stop_inj (by decide) (by decide) (.inl (by decide)) hrest
  exact ⟨Prod.ext htext hposition, hst⟩

/-- The finding as it is shown behind another one. -/
def Finding.renderNext (f : Finding) : List Char :=
  ',' :: ' ' :: f.render

/-- Behind another one, too, a finding tells what is shown of it, and where it ends. -/
theorem Finding.selfDelimiting_renderNext : SelfDelimiting renderNext shown := by
  intro f g s t h
  simp only [renderNext, List.cons_append, List.cons.injEq, true_and] at h
  exact selfDelimiting_render f g s t h

/-- Lists that are joined are the first one, and each of the others behind a separator. -/
theorem intercalate_cons {α : Type} (sep first : List α) (others : List (List α)) :
    List.intercalate sep (first :: others) = first ++ others.flatMap (sep ++ ·) := by
  induction others generalizing first with
  | nil => rw [List.intercalate_singleton, List.flatMap_nil, List.append_nil]
  | cons next others ih =>
      rw [List.intercalate_cons_cons, ih, List.flatMap_cons]
      simp only [List.append_assoc]

/-- A listing that is not empty shows the first finding, and each of the others behind one. -/
theorem Finding.renderAll_cons (f : Finding) (fs : List Finding) :
    renderAll (f :: fs) = '[' :: (f.render ++ (fs.flatMap renderNext ++ [']'])) := by
  rw [renderAll, List.map_cons, intercalate_cons, List.flatMap_map, List.append_assoc]
  rfl

/-- A listing tells what is shown of each finding. -/
theorem Finding.map_shown_of_renderAll {fs gs : List Finding} (h : renderAll fs = renderAll gs) :
    fs.map shown = gs.map shown := by
  have hempty : ∀ f fs, renderAll (f :: fs) ≠ renderAll [] := by
    intro f fs heq
    rw [renderAll_cons] at heq
    cases (List.cons.inj (List.cons.inj heq).2).1
  cases fs with
  | nil =>
      cases gs with
      | nil => rfl
      | cons g gs => exact absurd h.symm (hempty g gs)
  | cons f fs =>
      cases gs with
      | nil => exact absurd h (hempty f fs)
      | cons g gs =>
          rw [renderAll_cons, renderAll_cons] at h
          obtain ⟨hfirst, hrest⟩ := selfDelimiting_render f g _ _ (List.cons.inj h).2
          have hnext : SelfDelimiting (fun fs => fs.flatMap renderNext ++ [']']) (List.map shown) :=
            selfDelimiting_renderNext.sequence (fun _ => List.cons_ne_nil _ _)
              (fun _ => by simp [renderNext])
          obtain ⟨hothers, _⟩ := hnext fs gs [] [] (congrArg (· ++ []) hrest)
          rw [List.map_cons, List.map_cons, hfirst, hothers]

/-! ## Advisories -/

/-- The findings stand at the same position, and their texts are decoded to the same characters. -/
def Finding.SameShown (f g : Finding) : Prop :=
  f.position = g.position ∧ decodeLossy f.text = decodeLossy g.text

/-- Listings are the same exactly if they are listings of findings of which the same is shown, one by
one. -/
theorem Finding.renderAll_eq_iff {fs gs : List Finding} :
    renderAll fs = renderAll gs ↔ List.Forall₂ SameShown fs gs := by
  have hshown : SameShown = fun f g => f.shown = g.shown := by
    funext f g
    rw [SameShown, shown, shown, Prod.mk.injEq, and_comm]
  have hlists : List.Forall₂ SameShown fs gs ↔ fs.map shown = gs.map shown := by
    rw [hshown, ← List.forall₂_eq_eq_eq, List.forall₂_map_left_iff, List.forall₂_map_right_iff]
  rw [hlists]
  constructor
  · exact map_shown_of_renderAll
  · intro h
    have hrender : ∀ fs : List Finding, fs.map render = (fs.map shown).map fun p =>
        '(' :: (quoted p.1 ++ [',', ' '] ++ (toString p.2).toList ++ [')']) := by
      intro fs
      rw [List.map_map]
      rfl
    rw [renderAll, renderAll, hrender, hrender, h]

/-- Two advisories on version strings have the same wording if and only if they list as many findings, one
by one with the same position and the same text as it is decoded; and so have two advisories on dates. -/
theorem message_eq_iff_sameShown (fs gs : List Finding) :
    ((VersionAdvisory.mk fs).message = (VersionAdvisory.mk gs).message ↔
      List.Forall₂ Finding.SameShown fs gs) ∧
    ((DateAdvisory.multiple fs).message = (DateAdvisory.multiple gs).message ↔
      List.Forall₂ Finding.SameShown fs gs) := by
  rw [← Finding.renderAll_eq_iff, ← String.ofList_inj]
  exact ⟨String.append_right_inj _, String.append_right_inj _⟩

end RomImage
