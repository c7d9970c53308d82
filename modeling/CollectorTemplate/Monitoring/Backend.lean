/-
Backends that store traces.

* `TracesBackend.name` : the name of a backend in manifests;
* `TracesBackend.parse` : the backend of a name in any case.
-/
import CollectorTemplate.Error

namespace CollectorTemplate

/-- Where traces are stored. -/
inductive TracesBackend
  /-- A persistent volume. -/
  | pv
  /-- Object storage that speaks S3. -/
  | s3
  /-- The object storage of Google Cloud. -/
  | gcs
  deriving Repr, DecidableEq, Inhabited

namespace TracesBackend

/-- The name in manifests. -/
def name : TracesBackend → String
  | pv => "pv"
  | s3 => "s3"
  | gcs => "gcs"

def all : List TracesBackend := [pv, s3, gcs]

/-- The backend with exactly this name. -/
def ofName? (name : String) : Option TracesBackend := all.find? (·.name == name)

/-- The backend of a name in any case.  No letter outside ASCII becomes a letter of a name in lower
case, so only those of ASCII are changed. -/
def parse (text : String) : Except Error TracesBackend :=
  match ofName? (String.ofList (text.toList.map Char.toLower)) with
  | some backend => .ok backend
  | none =>
    .error (.invalidInput ("Invalid traces backend: " ++ text ++ ". Expected: pv, s3, or gcs"))

theorem ofName?_name (backend : TracesBackend) : ofName? backend.name = some backend := by
  cases backend <;> decide

end TracesBackend

end CollectorTemplate
