/-
# Log records

What a run says about itself, besides its result.  A record has a level and a text; a `Logged`
computation keeps the records made so far also when it fails (`records_bind_ok`,
`records_bind_error`).
-/

namespace RomImage

/-! ## Levels and records -/

/-- How much a record matters. -/
inductive Level
  | error
  | warn
  | info
  | debug
  deriving DecidableEq, Repr

/-- The place of a level, the weightiest first. -/
def Level.rank : Level → Nat
  | error => 0
  | warn => 1
  | info => 2
  | debug => 3

/-- The level's name. -/
def Level.name : Level → String
  | error => "ERROR"
  | warn => "WARN"
  | info => "INFO"
  | debug => "DEBUG"

/-- Whether a log kept at level `limit` holds records of level `l`. -/
def Level.admits (limit l : Level) : Bool :=
  l.rank ≤ limit.rank

/-- One entry of a log. -/
structure Record where
  level : Level
  message : String
  deriving DecidableEq, Repr

/-- The level's name in brackets, filled up to the width of the longest. -/
def Level.tag (l : Level) : String :=
  "[" ++ l.name ++ String.ofList (List.replicate (5 - l.name.length) ' ') ++ "]"

/-- A record as it stands on a terminal: the lines of its text after the first are indented. -/
def Record.render (r : Record) : String :=
  let indented := r.message.toList.flatMap fun c => if c = '\n' then "\n    ".toList else [c]
  r.level.tag ++ " " ++ String.ofList indented ++ "\n"

/-! ## Logged computations -/

/-- A computation that may fail, with what it logged until it ended. -/
structure Logged (ε α : Type) where
  records : List Record
  result : Except ε α

namespace Logged

variable {ε ε' α β : Type}

/-- A value, nothing logged. -/
protected def pure (a : α) : Logged ε α :=
  ⟨[], .ok a⟩

/-- Goes on with the value, if there is one; the log grows at its end. -/
protected def bind (x : Logged ε α) (f : α → Logged ε β) : Logged ε β :=
  match x.result with
  | .ok a => ⟨x.records ++ (f a).records, (f a).result⟩
  | .error e => ⟨x.records, .error e⟩

instance : Monad (Logged ε) where
  pure := Logged.pure
  bind := Logged.bind

/-- Logs one record. -/
def log (level : Level) (message : String) : Logged ε Unit :=
  ⟨[⟨level, message⟩], .ok ()⟩

/-- A result that logs nothing. -/
def ofExcept (x : Except ε α) : Logged ε α :=
  ⟨[], x⟩

/-- The same computation, its error seen as one of a larger computation. -/
def mapError (f : ε' → ε) (x : Logged ε' α) : Logged ε α :=
  ⟨x.records, x.result.mapError f⟩

/-- After a success, the log goes on. -/
theorem records_bind_ok {x : Logged ε α} {f : α → Logged ε β} {a : α} (h : x.result = .ok a) :
    (x >>= f).records = x.records ++ (f a).records := by
  simp only [bind, Logged.bind, h]

/-- After a failure, the log stays as it was. -/
theorem records_bind_error {x : Logged ε α} {f : α → Logged ε β} {e : ε}
    (h : x.result = .error e) : (x >>= f).records = x.records := by
  simp only [bind, Logged.bind, h]

/-- A step that succeeds without a record is left out. -/
theorem ofExcept_ok_bind (a : α) (f : α → Logged ε β) : (ofExcept (.ok a) >>= f) = f a :=
  rfl

/-- A step that fails without a record ends everything. -/
theorem ofExcept_error_bind (e : ε) (f : α → Logged ε β) :
    (ofExcept (.error e) >>= f) = ⟨[], .error e⟩ :=
  rfl

/-- Steps that log nothing leave the log as it is. -/
theorem records_bind_of_silent {x : Logged ε α} {f : α → Logged ε β}
    (h : ∀ a, (f a).records = []) : (x >>= f).records = x.records := by
  cases hx : x.result with
  | error e => exact records_bind_error hx
  | ok a => rw [records_bind_ok hx, h a, List.append_nil]

/-- The result of a sequence, without its log, is that of the sequence of results. -/
theorem result_bind (x : Logged ε α) (f : α → Logged ε β) :
    (x >>= f).result = x.result >>= fun a => (f a).result := by
  simp only [bind, Logged.bind, Except.bind]
  cases x.result <;> rfl

end Logged

end RomImage
