import FiberScheduler.Fault
import FiberScheduler.Notice

/-!
# Acts

An act reads and changes a state, may end in a fault, and leaves a log of notices
and of what its actors report. A fault keeps the state and the log as they were
when it arose, so whoever catches it goes on from there.
-/

namespace FiberScheduler

inductive Entry (ρ : Type) where
  | notice (notice : Notice)
  | report (report : ρ)

structure Outcome (ρ σ α : Type) where
  result : Except Fault α
  state : σ
  log : List (Entry ρ)

def Act (ρ σ α : Type) : Type :=
  σ → Outcome ρ σ α

namespace Act

variable {ρ σ τ α β : Type}

def run (x : Act ρ σ α) (s : σ) : Outcome ρ σ α :=
  x s

protected def pure (a : α) : Act ρ σ α := fun s =>
  ⟨.ok a, s, []⟩

protected def bind (x : Act ρ σ α) (f : α → Act ρ σ β) : Act ρ σ β := fun s =>
  match x s with
  | ⟨.ok a, s', log⟩ =>
    match f a s' with
    | ⟨result, s'', log'⟩ => ⟨result, s'', log ++ log'⟩
  | ⟨.error fault, s', log⟩ => ⟨.error fault, s', log⟩

instance : Monad (Act ρ σ) where
  pure := Act.pure
  bind := Act.bind

def fail (fault : Fault) : Act ρ σ α := fun s =>
  ⟨.error fault, s, []⟩

def get : Act ρ σ σ := fun s =>
  ⟨.ok s, s, []⟩

def modify (f : σ → σ) : Act ρ σ Unit := fun s =>
  ⟨.ok (), f s, []⟩

def log (entry : Entry ρ) : Act ρ σ Unit := fun s =>
  ⟨.ok (), s, [entry]⟩

def note (notice : Notice) : Act ρ σ Unit :=
  log (.notice notice)

def report (r : ρ) : Act ρ σ Unit :=
  log (.report r)

def lift (x : Except Fault α) : Act ρ σ α := fun s =>
  ⟨x, s, []⟩

def attempt (x : Act ρ σ α) : Act ρ σ (Except Fault α) := fun s =>
  match x s with
  | ⟨result, s', log⟩ => ⟨.ok result, s', log⟩

/-- Notes a programming error; a strict system also stops at it. -/
def blame (mode : Mode) (notice : Notice) (fault : Fault) : Act ρ σ Unit := do
  note notice
  match mode with
  | .strict => fail fault
  | .lenient => pure ()

def zoom (view : σ → τ) (put : σ → τ → σ) (x : Act ρ τ α) : Act ρ σ α := fun s =>
  match x (view s) with
  | ⟨result, t, log⟩ => ⟨result, put s t, log⟩

/-! ## Laws -/

section
variable (s : σ)

@[simp] theorem pure_apply (a : α) : (pure a : Act ρ σ α) s = ⟨.ok a, s, []⟩ := rfl

@[simp] theorem get_apply : (get : Act ρ σ σ) s = ⟨.ok s, s, []⟩ := rfl

@[simp] theorem modify_apply (f : σ → σ) : (modify f : Act ρ σ Unit) s = ⟨.ok (), f s, []⟩ := rfl

@[simp] theorem fail_apply (fault : Fault) : (fail fault : Act ρ σ α) s = ⟨.error fault, s, []⟩ := rfl

@[simp] theorem note_apply (notice : Notice) :
    (note notice : Act ρ σ Unit) s = ⟨.ok (), s, [.notice notice]⟩ := rfl

@[simp] theorem report_apply (r : ρ) : (report r : Act ρ σ Unit) s = ⟨.ok (), s, [.report r]⟩ := rfl

@[simp] theorem lift_apply (x : Except Fault α) : (lift x : Act ρ σ α) s = ⟨x, s, []⟩ := rfl

theorem blame_apply (mode : Mode) (notice : Notice) (fault : Fault) :
    (blame mode notice fault : Act ρ σ Unit) s =
    ⟨if mode = .strict then .error fault else .ok (), s, [.notice notice]⟩ := by
  cases mode <;> rfl

theorem bind_of_ok {x : Act ρ σ α} {f : α → Act ρ σ β} {a : α} {t : σ} {log : List (Entry ρ)}
    (h : x s = ⟨.ok a, t, log⟩) :
    (x >>= f) s = ⟨(f a t).result, (f a t).state, log ++ (f a t).log⟩ := by
  show Act.bind x f s = _
  simp [Act.bind, h]

theorem bind_of_error {x : Act ρ σ α} {f : α → Act ρ σ β} {fault : Fault} {t : σ}
    {log : List (Entry ρ)} (h : x s = ⟨.error fault, t, log⟩) :
    (x >>= f) s = ⟨.error fault, t, log⟩ := by
  show Act.bind x f s = _
  simp [Act.bind, h]

end

instance : LawfulMonad (Act ρ σ) :=
  LawfulMonad.mk' _
    (by
      intro α x
      funext s
      show Act.bind x (fun a => Act.pure a) s = x s
      unfold Act.bind
      rcases x s with ⟨_ | a, t, l⟩ <;> simp [Act.pure])
    (by
      intro α β a f
      funext s
      show Act.bind (Act.pure a) f s = f a s
      simp [Act.bind, Act.pure])
    (by
      intro α β γ x f g
      funext s
      show Act.bind (Act.bind x f) g s = Act.bind x (fun a => Act.bind (f a) g) s
      unfold Act.bind
      rcases x s with ⟨_ | a, t, l⟩
      · rfl
      · dsimp only
        rcases f a t with ⟨_ | b, u, l'⟩
        · rfl
        · simp [List.append_assoc])

end Act

end FiberScheduler
