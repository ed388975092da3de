/-!
# Jobs

A unit of work. It is claimed for one run at a time; while it is claimed it may
carry a wait group, which is signaled when the run has ended.
-/

namespace FiberScheduler

structure Job (κ : Type) where
  code : κ
  /-- Whether the body needs an extended stack. -/
  extended : Bool
  /-- Whether the body may run only once. -/
  oneShot : Bool
  /-- Whether the body has been started. -/
  started : Bool
  /-- Whether a run of the job is pending. -/
  scheduled : Bool
  /-- The group to signal after the pending run. -/
  completion : Option Nat
  deriving Repr

namespace Job

variable {κ : Type}

def new (code : κ) (extended oneShot : Bool) : Job κ :=
  ⟨code, extended, oneShot, false, false, none⟩

/-- Whether a run would do nothing. -/
def spent (j : Job κ) : Bool :=
  j.oneShot && j.started

def describe (j : Job κ) : String :=
  s!"Job \x7b scheduled: {j.scheduled}, extended_stack: {j.extended}, .. \x7d"

end Job

end FiberScheduler
