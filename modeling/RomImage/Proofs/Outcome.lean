/-
# Outcomes of sequences

How a sequence of steps that may fail comes to its outcome: it succeeds if each step does, and its
error is that of the first step that fails.
-/

namespace RomImage

variable {ε ε' α β : Type}

/-- A sequence succeeds if its first step does and the rest succeeds after it. -/
theorem bind_eq_ok_iff {x : Except ε α} {f : α → Except ε β} {b : β} :
    x >>= f = .ok b ↔ ∃ a, x = .ok a ∧ f a = .ok b := by
  cases x <;> simp [bind, Except.bind]

/-- The error of a sequence is that of its first step, or else that of the rest. -/
theorem bind_eq_error_iff {x : Except ε α} {f : α → Except ε β} {e : ε} :
    x >>= f = .error e ↔ x = .error e ∨ ∃ a, x = .ok a ∧ f a = .error e := by
  cases x <;> simp [bind, Except.bind]

@[simp]
theorem mapError_ok (f : ε' → ε) (a : α) : (.ok a : Except ε' α).mapError f = .ok a := rfl

@[simp]
theorem mapError_error (f : ε' → ε) (e : ε') :
    (.error e : Except ε' α).mapError f = .error (f e) := rfl

/-- Seeing errors in another way does not touch a success. -/
theorem mapError_eq_ok_iff {x : Except ε' α} {f : ε' → ε} {a : α} :
    x.mapError f = .ok a ↔ x = .ok a := by
  cases x <;> simp

/-- An error seen in another way is an error. -/
theorem mapError_eq_error_iff {x : Except ε' α} {f : ε' → ε} {e : ε} :
    x.mapError f = .error e ↔ ∃ e', x = .error e' ∧ f e' = e := by
  cases x <;> simp

/-- An outcome without its error is a value if it is a success. -/
theorem toOption_eq_some_iff {x : Except ε α} {a : α} : x.toOption = some a ↔ x = .ok a := by
  cases x <;> simp [Except.toOption]

/-- A guarded computation succeeds if the guard lets it go on and it succeeds. -/
theorem guard_eq_ok_iff {p : Prop} [Decidable p] {x : Except ε α} {e : ε} {a : α} :
    (if p then .error e else x) = .ok a ↔ ¬ p ∧ x = .ok a := by
  by_cases h : p <;> simp [h]

/-! ## One step for each element of a list -/

/-- Steps that all succeed give the list of their results. -/
theorem mapM_eq_ok_map {f : α → Except ε β} {g : α → β} {xs : List α}
    (h : ∀ x ∈ xs, f x = .ok (g x)) : xs.mapM f = .ok (xs.map g) := by
  induction xs with
  | nil => rfl
  | cons x xs ih =>
      have hhead := h x List.mem_cons_self
      have htail := ih fun y hy => h y (List.mem_cons_of_mem x hy)
      rw [List.mapM_cons, hhead, htail]
      rfl

/-- The error of steps for the elements of a list is that of the first element whose step fails. -/
theorem mapM_eq_error {f : α → Except ε β} {g : α → β} {front back : List α} {x : α} {e : ε}
    (hfront : ∀ y ∈ front, f y = .ok (g y)) (hx : f x = .error e) :
    (front ++ x :: back).mapM f = .error e := by
  rw [List.mapM_append, mapM_eq_ok_map hfront, List.mapM_cons, hx]
  rfl

/-! ## The error of an outcome -/

/-- The error of an outcome, if it is one. -/
def errorOf : Except ε α → Option ε
  | .ok _ => none
  | .error e => some e

@[simp]
theorem errorOf_ok (a : α) : errorOf (.ok a : Except ε α) = none := rfl

@[simp]
theorem errorOf_error (e : ε) : errorOf (.error e : Except ε α) = some e := rfl

/-- The outcomes with a given error. -/
theorem errorOf_eq_some_iff {x : Except ε α} {e : ε} : errorOf x = some e ↔ x = .error e := by
  cases x <;> simp

/-- An outcome without an error is a success. -/
theorem errorOf_eq_none_iff {x : Except ε α} : errorOf x = none ↔ ∃ a, x = .ok a := by
  cases x <;> simp

end RomImage
