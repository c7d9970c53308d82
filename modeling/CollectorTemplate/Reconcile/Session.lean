/-
Sessions of reconciliation.

A session is what happens on one thread: contexts are created, cloned and cancelled, guards are
entered and left in any order, tasks run, and template data is built.  Contexts and guards go by
labels.

* `Step`, `Answer` : what happens, and what comes of it;
* `Session` : what the thread knows;
* `Session.step`, `Session.run` : one step, and steps in a row.

All contexts that were cloned from one another are cancelled together.
-/
import CollectorTemplate.Template.Build
import CollectorTemplate.Text.Uuid

namespace CollectorTemplate

/-- What happens in a session. -/
inductive Step
  /-- A new context, under a given name or a made-up one. -/
  | create (label : String) (id : Option String)
  | clone (source label : String)
  | cancel (label : String)
  | isCancelled (label : String)
  | enter (label guard : String)
  | exit (guard : String)
  | current
  /-- A task that runs to its end. -/
  | scope (label : String) (steps : List Step)
  | build (label : String) (resource : Monitoring)
  deriving Inhabited

/-- What comes of a step. -/
inductive Answer
  /-- The name of a context, and whether it was made up. -/
  | context (id : String) (generated : Bool)
  | isCancelled (value : Bool)
  /-- Of all contexts by label, whether they are cancelled. -/
  | allCancelled (contexts : List (String × Bool))
  | current (id : Option String)
  | scope (inside : List Answer) (after : Option String)
  | built (result : Except Error TemplateData) (after : Option String)
  deriving Inhabited

/-- What a thread knows. -/
structure Session where
  ambient : Ambient := {}
  /-- The contexts, in the order of their labels. -/
  contexts : List (String × ReconcileContext) := []
  guards : List (String × Guard) := []
  /-- The families that are cancelled. -/
  cancelled : List Nat := []
  /-- How many families there are. -/
  families : Nat := 0
  deriving Inhabited

namespace Session

def context (s : Session) (label : String) : ReconcileContext :=
  (Entries.find? label s.contexts).getD default

/-- Whether a context is cancelled. -/
def isCancelled (s : Session) (context : ReconcileContext) : Bool :=
  s.cancelled.contains context.family

/-- A new context, of a family of its own. -/
def create (s : Session) (label id : String) : Session :=
  { s with
    contexts := Entries.insert label ⟨id, s.families⟩ s.contexts
    families := s.families + 1 }

/-- A context of the same family under another label. -/
def clone (s : Session) (source label : String) : Session :=
  { s with contexts := Entries.insert label (s.context source) s.contexts }

/-- Cancels the family of a context. -/
def cancel (s : Session) (label : String) : Session :=
  { s with cancelled := (s.context label).family :: s.cancelled }

/-- Enters a guard.  One that goes by the same label is left afterwards. -/
def enter (s : Session) (label guard : String) : Session :=
  let (new, ambient) := s.ambient.enter (s.context label)
  let ambient :=
    match Entries.find? guard s.guards with
    | some old => ambient.leave old
    | none => ambient
  { s with ambient := ambient, guards := Entries.insert guard new s.guards }

/-- Leaves a guard, if there is one of that label. -/
def exit (s : Session) (guard : String) : Session :=
  match Entries.find? guard s.guards with
  | some old =>
    { s with ambient := s.ambient.leave old, guards := s.guards.filter (·.1 != guard) }
  | none => s

mutual

/-- What comes of a step, and what the thread knows then. -/
def step (s : Session) : Step → Answer × Session
  | .create label id =>
    let name := id.getD (Text.uuid s.families)
    (.context name id.isNone, s.create label name)
  | .clone source label => (.context (s.context source).id false, s.clone source label)
  | .cancel label =>
    let s := s.cancel label
    (.allCancelled (s.contexts.map fun entry => (entry.1, s.isCancelled entry.2)), s)
  | .isCancelled label => (.isCancelled (s.isCancelled (s.context label)), s)
  | .enter label guard =>
    let s := s.enter label guard
    (.current s.ambient.current?, s)
  | .exit guard =>
    let s := s.exit guard
    (.current s.ambient.current?, s)
  | .current => (.current s.ambient.current?, s)
  | .scope label steps =>
    let (suspended, ambient) := s.ambient.begin (s.context label)
    let (inside, s) := run { s with ambient := ambient } steps
    let s := { s with ambient := s.ambient.finish suspended }
    (.scope inside s.ambient.current?, s)
  | .build label resource =>
    let context := s.context label
    let (result, ambient) := (build {} context (s.isCancelled context) resource s.ambient).value
    (.built result ambient.current?, { s with ambient := ambient })

/-- What comes of steps in a row, and what the thread knows then. -/
def run (s : Session) : List Step → List Answer × Session
  | [] => ([], s)
  | first :: rest =>
    let (answer, s) := s.step first
    let (answers, s) := run s rest
    (answer :: answers, s)

end

end Session

end CollectorTemplate
