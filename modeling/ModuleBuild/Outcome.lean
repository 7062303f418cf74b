/-!
# Outcomes

Combinators on the outcome of something that may fail. Each takes its continuation as a computation
in a monad; the lemmas beside it say when the continuation is run and that otherwise nothing is.
-/

namespace ModuleBuild.Outcome

variable {m : Type → Type} [Monad m] {ε ε' α β : Type}

/-- Goes on with the value. -/
def bindM (f : α → m (Except ε β)) : Except ε α → m (Except ε β)
  | .error e => return .error e
  | .ok a => f a

/-- Changes the value. -/
def mapM (f : α → m β) : Except ε α → m (Except ε β) := bindM fun a => Except.ok <$> f a

/-- Tries something else after an error. -/
def recoverM (f : ε → m (Except ε' α)) : Except ε α → m (Except ε' α)
  | .error e => f e
  | .ok a => return .ok a

/-- Changes the error. -/
def mapErrorM (f : ε → m ε') : Except ε α → m (Except ε' α) := recoverM fun e => Except.error <$> f e

theorem mapM_error (f : α → m β) (e : ε) : mapM f (.error e) = pure (.error e) := rfl

theorem mapM_ok (f : α → m β) (a : α) :
    mapM f (.ok a : Except ε α) = Except.ok <$> f a := rfl

theorem mapErrorM_ok (f : ε → m ε') (a : α) : mapErrorM f (.ok a) = pure (.ok a) := rfl

theorem mapErrorM_error (f : ε → m ε') (e : ε) :
    mapErrorM f (.error e : Except ε α) = Except.error <$> f e := rfl

/-- Whether there is an error. -/
def isError : Except ε α → Bool
  | .error _ => true
  | .ok _ => false

/-- The error, if there is one. -/
def error? : Except ε α → Option ε
  | .error e => some e
  | .ok _ => none

/-- Whether two outcomes are the same. -/
def same [DecidableEq ε] [DecidableEq α] : Except ε α → Except ε α → Bool
  | .error d, .error e => d = e
  | .ok a, .ok b => a = b
  | _, _ => false

/-- An outcome within an outcome as one; the outer error counts first. -/
def flatten : Except ε (Except ε α) → Except ε α
  | .error e => .error e
  | .ok o => o

/-- All values in order, or the first error. -/
def collect : List (Except ε α) → Except ε (List α)
  | [] => .ok []
  | .error e :: _ => .error e
  | .ok a :: rest => (collect rest).map (a :: ·)

/-- Outcomes without an error are collected as their values. -/
theorem collect_map_ok (as : List α) : collect (as.map (.ok : α → Except ε α)) = .ok as := by
  induction as with
  | nil => rfl
  | cons a as ih => simp [collect, ih, Except.map]

/-- The first error wins, whatever follows it. -/
theorem collect_append_error (as : List α) (e : ε) (rest : List (Except ε α)) :
    collect (as.map .ok ++ .error e :: rest) = .error e := by
  induction as with
  | nil => rfl
  | cons a as ih => simp [collect, ih, Except.map]

end ModuleBuild.Outcome
