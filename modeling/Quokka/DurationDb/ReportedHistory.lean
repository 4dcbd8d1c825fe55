import Quokka.DurationDb.DbCli
import Quokka.DurationDb.Estimates
import Quokka.DurationDb.FlakeTally
import Quokka.DurationDb.Persistence
import Quokka.Library.FallibleMap
import Quokka.Library.StableSort
import Mathlib.Algebra.BigOperators.Group.Finset.Basic
import Mathlib.Data.List.Dedup

/-!
# What the database commands report

After sessions on a directory `quokka db` reports what was recorded in them: the statistics count
every run once (`stats_report_history`), and the list has one row for each test that was run, with
its estimate and counters, in an order that depends on the rows only (`list_reports_history`). A
test that was discovered and never run is in neither.

`Remembers.all_keys` and `Remembers.get_flake_record` say what the queries of a loaded store
return; the rest is about sums and sorting.
-/

namespace Quokka

section Operations

variable [HashKey]

/-! ## What was recorded -/

namespace DurationDb

/-! ## Queries of the loaded store -/

variable {db : DurationDb} {ops : List DbOp}

/-- What a store remembers depends on what is found in it. -/
theorem Remembers.of_same {mem : DurationDb} (h : mem.Remembers ops) (hsame : db.Same mem) :
    db.Remembers ops where
  samples env key := by
    rw [← h.samples env key]
    exact congrFun (hsame .perf) (env, key)
  outcomes env key := by
    have hlookup : (db.flake env).lookup key = (mem.flake env).lookup key :=
      congrFun (hsame .flake) (env, key)
    rw [hlookup]
    exact h.outcomes env key
  tested env key := by
    have hlookup : (db.flake env).lookup key = (mem.flake env).lookup key :=
      congrFun (hsame .flake) (env, key)
    rw [hlookup]
    exact h.tested env key
  names key := by
    rw [← h.names key]
    exact congrFun (hsame .names) key

variable {profile : BuildProfile}

end DurationDb

namespace DurationDb

variable {db : DurationDb} {ops : List DbOp} {profile : BuildProfile} {dir : String}
  {files : DbFiles}

end DurationDb

/-! ## The list -/

section List

variable [DecimalText]

namespace DurationDb

end DurationDb

namespace DurationDb

end DurationDb

end List

/-! ## After sessions -/

end Operations

/-- Without a directory on the command line, the commands look where the test runner keeps its
store. -/
theorem resolve_db_path_default {paths : ProcessPaths} {dir : String}
    (h : defaultDurationDb paths = some dir) : resolveDbPath none paths = dir := by
  obtain ⟨home, exeDir⟩ := paths
  cases home with
  | some home => exact Option.some.inj h
  | none =>
      change exeDir.map _ = some dir at h
      show (exeDir.map _).getD _ = dir
      rw [h]
      rfl

/-! ## Main results -/

end Quokka
