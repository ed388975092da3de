/-!
# Directories

What is known by name: groups and jobs, each by its index.
-/

namespace FiberScheduler

abbrev Directory : Type := List (String × Nat)

namespace Directory

def find? (d : Directory) (name : String) : Option Nat :=
  d.lookup name

def erase (d : Directory) (name : String) : Directory :=
  d.filter (·.1 ≠ name)

def insert (d : Directory) (name : String) (index : Nat) : Directory :=
  (name, index) :: d.erase name

end Directory

end FiberScheduler
