/-
Configuration.

The configuration holds the values that template keys fall back to where a resource leaves a field
unset, and the settings of the log.  Reserved names are fixed and not configurable.

* `Defaults` : the fallback values;
* `LogSettings` : what the configuration says about the log.
-/

namespace CollectorTemplate

/-- The values that template keys fall back to. -/
structure Defaults where
  replicas : Int := 2
  storageSize : String := "5Gi"
  storageRetention : String := "90d"
  cpuLimit : String := "500m"
  memoryLimit : String := "512Mi"
  cpuRequest : String := "100m"
  memoryRequest : String := "256Mi"
  tracesBackend : String := "pv"
  tracesRetention : String := "2160h"
  sampleRatio : String := "0.1"
  deriving Repr, DecidableEq, Inhabited

/-- What the configuration says about the log. -/
structure LogSettings where
  format : Option String := none
  filter : Option String := none
  file : Option String := none
  deriving Repr, DecidableEq, Inhabited

structure Settings where
  defaults : Defaults := {}
  logging : LogSettings := {}
  deriving Repr, DecidableEq, Inhabited

end CollectorTemplate
