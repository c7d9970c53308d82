/-
Reconciliation contexts.

The work of a reconciliation carries a context, which names the reconciliation.  Two places can hold
one: the thread, where guards are entered and left, and the task, which wins while it runs.

* `Ambient.current?` : the name of the reconciliation that work belongs to;
* `Ambient.enter`, `Ambient.leave` : a guard puts a context on the thread, and restores what was
  there;
* `Ambient.begin`, `Ambient.finish` : a task with its own guard on the thread.
-/

namespace CollectorTemplate

/-- What names a reconciliation. -/
structure ReconcileContext where
  id : String
  /-- Which contexts are cancelled together: those that were cloned from one another. -/
  family : Nat := 0
  deriving Repr, DecidableEq, Inhabited

/-- Where work finds the context it belongs to. -/
structure Ambient where
  thread : Option ReconcileContext := none
  task : Option ReconcileContext := none
  deriving Repr, DecidableEq, Inhabited

/-- What a guard restores on the thread. -/
structure Guard where
  previous : Option ReconcileContext
  deriving Repr, DecidableEq, Inhabited

/-- What the end of a task restores. -/
structure Suspended where
  guard : Guard
  task : Option ReconcileContext
  deriving Repr, DecidableEq, Inhabited

namespace Ambient

/-- The reconciliation that work belongs to. -/
def current? (a : Ambient) : Option String := (a.task.or a.thread).map (·.id)

/-- Puts a context on the thread. -/
def enter (context : ReconcileContext) (a : Ambient) : Guard × Ambient :=
  (⟨a.thread⟩, { a with thread := some context })

/-- Restores what was on the thread when a guard was entered. -/
def leave (guard : Guard) (a : Ambient) : Ambient := { a with thread := guard.previous }

/-- Begins a task. -/
def begin (context : ReconcileContext) (a : Ambient) : Suspended × Ambient :=
  let (guard, inner) := a.enter context
  (⟨guard, a.task⟩, { inner with task := some context })

/-- Ends a task. -/
def finish (suspended : Suspended) (a : Ambient) : Ambient :=
  { a.leave suspended.guard with task := suspended.task }

end Ambient

end CollectorTemplate
