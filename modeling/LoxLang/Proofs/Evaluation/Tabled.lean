import LoxLang.Proofs.Evaluation.Steps

/-!
# Running with a table of hops

A tree need not carry the hops of its occurrences itself.  They may stand in a table that is read at
the moment an occurrence is reached, under what the tree carries in their place, such as a number that
tells occurrences apart.  Everything else about a run is as before.

* `Tabled.steps` — the steps of a run with a table.
* `Tabled.interpret` — a whole program, after which the sink is flushed.
* **`Tabled.evaluate_untabled`**, **`Tabled.interpret_untabled`** — with the table that gives everything
  back, it is the run of the program.
-/

namespace LoxLang

namespace Tabled

/-- The steps of a run that reads the hops of its variables from a table. -/
def steps (table : Option Nat → Option Nat) : Steps Action :=
  { Steps.own with
    look := fun name key => .look name (table key)
    assign := fun name key value => .assign name (table key) value }

/-- Runs a program and flushes the sink. -/
def interpret (table : Option Nat → Option Nat) (allowance : Nat) (program : List Stmt)
    (machine : Machine) : Option (Option Fault × Machine) :=
  ((steps table).executeAll allowance program machine).flushed

variable (allowance : Nat)

/-- **With the table that gives everything back, a run is a run.** -/
theorem evaluate_untabled (value : Expr) :
    (steps id).evaluate allowance value = Action.evaluate allowance value :=
  congrFun (Steps.own_run allowance).evaluate value

theorem executeAll_untabled (stmts : List Stmt) :
    (steps id).executeAll allowance stmts = Action.executeAll allowance stmts :=
  congrFun (Steps.own_run allowance).executeAll stmts

theorem interpret_untabled (program : List Stmt) (machine : Machine) :
    interpret id allowance program machine = machine.interpret allowance program := by
  rw [interpret, executeAll_untabled]
  rfl

end Tabled

end LoxLang
