import DualDeployment.Framework.Glob
import DualDeployment.Impl.Applier

/-!
# The dependencies of a chart

`internal/source/helmloader.go`, the part that decides whether the subcharts of
an expanded chart have to be fetched (`resolveDepsPlan`). The chart's directory is
what is read of it: `Chart.yaml`, the entries of `charts/`, and whether there is a
`Chart.lock`. `ExpandedChart` adds what Helm's `Build` reads.
-/

namespace DDO.Impl

/-- An `oci://` repository, also as `registry.IsOCI` tells it. -/
def isOCI (repoURL : String) : Bool := "oci://".toList.isPrefixOf repoURL.toList

/-- `chart.Dependency`: the fields that are read. -/
structure Dependency where
  name : String
  repository : String

/-- `chart.Metadata`: the fields that are read. -/
structure Chartfile where
  name : String
  dependencies : List Dependency

/-- An entry of `charts/`: a directory or a packed chart. -/
inductive ChartsEntry where
  | dir (name : String)
  | archive (chart version : String)
  deriving DecidableEq

def ChartsEntry.name : ChartsEntry → String
  | .dir name => name
  | .archive chart version => chart ++ "-" ++ version ++ ".tgz"

/-- What `os.Stat` says of `Chart.lock`. -/
inductive LockStat where
  | present
  | absent
  | failed (err : String)

/-- The directory of a chart: `Chart.yaml` as it is loaded, the entries of
`charts/` if there is one, and the state of `Chart.lock`. A dependency's name with
a slash leads to other places: `otherDir` tells whether there is a directory, and
`otherGlob` whether something matches. -/
structure ChartDir where
  chartfile : Except String Chartfile
  charts : Option (List ChartsEntry)
  lock : LockStat
  otherDir : String → Bool
  otherGlob : String → Bool

namespace ChartDir

def entries (c : ChartDir) : List ChartsEntry := c.charts.getD []

def unpackedSubchartExists (c : ChartDir) (name : String) : Bool :=
  if '/' ∈ name.toList then c.otherDir name
  else if name = "" ∨ name = "." then c.charts.isSome
  -- the chart's own directory
  else if name = ".." then true
  else .dir name ∈ c.entries

def vendoredSubchartExists (c : ChartDir) (name : String) : Bool :=
  c.unpackedSubchartExists name ||
    if '/' ∈ name.toList then c.otherGlob name
    -- a malformed pattern matches nothing
    else c.entries.any fun e => Glob.globMatch (name ++ "-*.tgz") e.name = some true

def isFile (repository : String) : Bool := "file://".toList.isPrefixOf repository.toList

/-- The error for a dependency that `Build` cannot resolve. -/
def buildError (c : ChartDir) (chart : String) (d : Dependency) : Option Err :=
  if d.repository = "" then
    if c.unpackedSubchartExists d.name then none
    else
      some (.text ("source: chart " ++ quote chart ++ " dependency " ++ quote d.name ++
        " declares no repository but is not vendored as an unpacked charts/" ++ d.name ++
        " directory; Build cannot resolve it — provide an oci:// repository or vendor it unpacked"))
  else if isFile d.repository || isOCI d.repository then none
  else
    some (.text ("source: chart " ++ quote chart ++ " dependency " ++ quote d.name ++
      " uses unsupported repository " ++ quote d.repository ++
      "; when any dependency must be fetched, every dependency repository must be oci:// (or file://) " ++
      "because Build re-resolves the whole Chart.lock — vendor all subcharts, or republish this one via OCI"))

def resolveDepsPlan (c : ChartDir) : Except Err Bool :=
  match c.chartfile with
  | .error e => .error (.text ("source: read Chart.yaml: " ++ e))
  | .ok m =>
    let fetch := m.dependencies.any fun d => !c.vendoredSubchartExists d.name
    if m.dependencies.isEmpty then .ok false
    else if !fetch then .ok false
    else
      match m.dependencies.findSome? (c.buildError m.name) with
      | some e => .error e
      | none =>
        match c.lock with
        | .present => .ok true
        | .absent =>
          .error (.text ("source: chart " ++ quote m.name ++
            " declares unvendored dependencies but has no Chart.lock; " ++
            "commit Chart.lock for deterministic resolution"))
        | .failed e => .error (.text ("source: stat Chart.lock: " ++ e))

end ChartDir

/-- `chart.Dependency` in a `Chart.lock`. -/
structure LockedDependency where
  name : String
  version : String
  repository : String

/-- An expanded chart, for `downloader.Manager.Build`: its directory; what `Build`
makes of `Chart.lock` before it fetches anything, which is an error if the lock is
not that of `Chart.yaml`; and what is wrong with a locked dependency that is not
fetched, because it lies in the chart. -/
structure ExpandedChart where
  dir : ChartDir
  locked : Except String (List LockedDependency)
  localError : LockedDependency → Option String

end DDO.Impl
