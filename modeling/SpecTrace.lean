import SpecTrace.Python.Text
import SpecTrace.Python.Utf8
import SpecTrace.Python.Str
import SpecTrace.Python.Json
import SpecTrace.Store.Dumps
import SpecTrace.Drift.Extract
import SpecTrace.Drift.Keywords
import SpecTrace.Drift.Detect
import SpecTrace.Drift.Snapshot
import SpecTrace.Drift.Main
import SpecTrace.Mapping.Scanner
import SpecTrace.Mapping.Sections
import SpecTrace.Mapping.Report
import SpecTrace.Mapping.Document
import SpecTrace.Store.Loads
import SpecTrace.Store.Scanners
import SpecTrace.Store.RoundTrip
import SpecTrace.Store.Files
import SpecTrace.Store.History
