/-!
Computations that may fail and that keep a log. What was logged before a failure is kept.
-/

namespace Wabbit

/-- The log of a computation and what came out of it. -/
structure Logged (ω ε α : Type) where
  log : List ω
  result : Except ε α

namespace Logged

variable {ω ε α β : Type}

def write (entry : ω) : Logged ω ε Unit := ⟨[entry], .ok ()⟩

def ofExcept (result : Except ε α) : Logged ω ε α := ⟨[], result⟩

/-- Goes on with the result, if there is one. -/
def bind (x : Logged ω ε α) (f : α → Logged ω ε β) : Logged ω ε β :=
  match x.result with
  | .ok a => ⟨x.log ++ (f a).log, (f a).result⟩
  | .error e => ⟨x.log, .error e⟩

instance : Monad (Logged ω ε) where
  pure a := ⟨[], .ok a⟩
  bind := bind

@[simp]
theorem result_pure (a : α) : (pure a : Logged ω ε α).result = .ok a := rfl

@[simp]
theorem log_pure (a : α) : (pure a : Logged ω ε α).log = [] := rfl

/-- A failure is the result of everything that follows it. -/
theorem result_bind (x : Logged ω ε α) (f : α → Logged ω ε β) :
    (x >>= f).result = x.result.bind fun a => (f a).result := by
  change (bind x f).result = _
  unfold bind
  cases x.result <;> rfl

instance : LawfulMonad (Logged ω ε) := LawfulMonad.mk' (Logged ω ε)
  (by rintro α ⟨log, error | value⟩ <;> simp [Functor.map, bind])
  (by intro α β a f; simp [Bind.bind, bind, pure])
  (by
    rintro α β γ ⟨log, error | value⟩ f g
    · rfl
    · simp only [Bind.bind, bind]
      cases (f value).result <;> simp)

/-- Changes the entries of the log and the error. -/
def adapt {ω' ε' : Type} (entry : ω → ω') (error : ε → ε') (x : Logged ω ε α) : Logged ω' ε' α :=
  ⟨x.log.map entry, x.result.mapError error⟩

end Logged

end Wabbit
