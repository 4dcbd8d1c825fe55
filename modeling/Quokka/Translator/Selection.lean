import Quokka.Translator.Frameworks

/-!
# What a libtest binary runs

Libtest's selection rule: without a positional filter a binary runs every test that the ignored
policy allows and no `--skip` matches, with `--exact` and filters it runs the tests that they
name. `LibtestInvocation.ofArgs` reads a command line, and `execution_invocation` says what the
arguments of a per-test execution are read as: the given names are the filters, and nothing of
the user's arguments takes part in the selection.
-/

namespace Quokka

/-! ## The selection rule -/

/-- What the harness reads off its command line. -/
structure LibtestInvocation where
  filters : List String
  skips : List String
  exact : Bool
  ignored : IgnoredPolicy
  deriving DecidableEq

/-- The positional filter that an argument is. -/
def UserArg.filterValue : UserArg → Option String
  | .filter value => some value
  | _ => none

/-- The value of a `--skip`. -/
def UserArg.skipValue : UserArg → Option String
  | .skip value => some value
  | _ => none

/-- The ignored policy that an argument asks for. -/
def UserArg.policy : UserArg → Option IgnoredPolicy
  | .ignoredPolicy policy => some policy
  | _ => none

namespace LibtestInvocation

/-- What recognised arguments mean to the harness. -/
def ofRead (read : List UserArg) : LibtestInvocation where
  filters := read.filterMap UserArg.filterValue
  skips := read.filterMap UserArg.skipValue
  exact := read.contains .exact
  ignored := (read.filterMap UserArg.policy).head?.getD .excludeIgnored

/-- Read a command line; which options there are and which take a value is as in `classify`. -/
def ofArgs (args : List String) : LibtestInvocation :=
  ofRead (userArgs args)

/-- Whether a filter or skip value matches a test name. -/
def matchesName (invocation : LibtestInvocation) (name value : String) : Bool :=
  if invocation.exact then name == value else Text.contains name value

/-- Whether a test is run. -/
def runs (invocation : LibtestInvocation) (test : TestCase) : Bool :=
  let skipped := invocation.skips.any (invocation.matchesName test.name)
  if invocation.filters.isEmpty then invocation.ignored.selects test.ignored && !skipped
  else if invocation.exact then invocation.filters.contains test.name
  else
    invocation.filters.any (invocation.matchesName test.name) &&
      invocation.ignored.selects test.ignored && !skipped

end LibtestInvocation

/-- A libtest binary. Test names are paths, so none of them looks like an option. -/
structure LibtestBinary where
  tests : List TestCase
  positional : ∀ test ∈ tests, Text.startsWith test.name "-" = false

/-- The tests that a command line selects. -/
def LibtestBinary.selected (binary : LibtestBinary) (args : List String) : List TestCase :=
  binary.tests.filter (LibtestInvocation.ofArgs args).runs

/-! ## Reading names -/

/-- A word that is no option is not one of the options. -/
theorem ne_option {arg word : String} (h : Text.startsWith arg "-" = false)
    (hword : Text.startsWith word "-" = true) : arg ≠ word := by
  rintro rfl
  rw [h] at hword
  cases hword

/-- A word that is no option is a filter. -/
theorem classify_positional {arg : String} (h : Text.startsWith arg "-" = false) :
    classify arg = .alone (.filter arg) := by
  have hassigned : ∀ more, Text.stripPrefix arg ("-" ++ more) = none :=
    fun more => Text.strip_prefix_append_eq_none more h
  have hnone : classifyAssigned arg = none := by
    unfold classifyAssigned
    rw [show Text.stripPrefix arg "--skip=" = none from hassigned "-skip=",
      show Text.stripPrefix arg "--logfile=" = none from hassigned "-logfile=",
      show Text.startsWith arg "--test-threads=" = false from
        congrArg Option.isSome (hassigned "-test-threads="),
      show Text.startsWith arg "--color=" = false from
        congrArg Option.isSome (hassigned "-color="),
      show Text.stripPrefix arg "--format=" = none from hassigned "-format=",
      show Text.stripPrefix arg "--filter=" = none from hassigned "-filter=",
      show Text.stripPrefix arg "--shuffle-seed=" = none from hassigned "-shuffle-seed=",
      show Text.stripPrefix arg "-Z" = none from hassigned "Z"]
    rfl
  have hne : ∀ word, Text.startsWith word "-" = true → arg ≠ word := fun word => ne_option h
  unfold classify
  rw [hnone, Option.getD_none]
  unfold classifyWord
  simp [h, hne "--include-ignored" (by decide), hne "--ignored" (by decide),
    hne "--exact" (by decide), hne "--skip" (by decide), hne "--list" (by decide),
    hne "--filter" (by decide), hne "--test" (by decide), hne "--bench" (by decide),
    hne "--exclude-should-panic" (by decide), hne "--force-run-in-process" (by decide),
    hne "--no-capture" (by decide), hne "--nocapture" (by decide),
    hne "--show-output" (by decide), hne "--fail-fast" (by decide),
    hne "--report-time" (by decide), hne "--ensure-time" (by decide),
    hne "--shuffle" (by decide), hne "--shuffle-seed" (by decide), hne "--logfile" (by decide),
    hne "--format" (by decide), hne "--test-threads" (by decide), hne "--color" (by decide),
    hne "-q" (by decide), hne "--quiet" (by decide), hne "-h" (by decide),
    hne "--help" (by decide), hne "--" (by decide)]

/-- Names are read as filters. -/
theorem user_args_names {names : List String}
    (h : ∀ name ∈ names, Text.startsWith name "-" = false) (rest : List String) :
    userArgs (names ++ rest) = names.map .filter ++ userArgs rest := by
  induction names with
  | nil => rfl
  | cons name names ih =>
      have hname := classify_positional (h name List.mem_cons_self)
      have hnames := ih fun other hother => h other (List.mem_cons_of_mem _ hother)
      simp only [List.cons_append, userArgs, hname, hnames, List.map_cons]

/-! ## Reading the arguments of an execution -/

/-- What an argument adds to the arguments of a per-test execution. -/
def UserArg.perTestArgs : UserArg → List String
  | .executionValue flag value => [flag, value]
  | .unstableExecutionValue flag value => [flag, value]
  | .listingAndExecutionFlag flag => [flag]
  | .excludeShouldPanic flag => [flag]
  | .executionFlag flag => [flag]
  | .unstableExecutionFlag flag => [flag]
  | _ => []

/-- What an argument adds to the arguments of a listing. -/
def UserArg.listingTokens : UserArg → List String
  | .filter value => [value]
  | .skip value => ["--skip", value]
  | .exact => ["--exact"]
  | .listingAndExecutionFlag flag => [flag]
  | .excludeShouldPanic flag => [flag]
  | _ => []

/-- What one argument does to the lists of arguments, to the policies and to the requests. -/
theorem apply_fields (parsed : LibtestUserArgs) (arg : UserArg) :
    (parsed.apply arg).perTestExecutionArgs = parsed.perTestExecutionArgs ++ arg.perTestArgs ∧
      (parsed.apply arg).listingArgs = parsed.listingArgs ++ arg.listingTokens ∧
      (parsed.apply arg).ignoredPolicies = parsed.ignoredPolicies ++ arg.policy.toList ∧
      (parsed.apply arg).listingOnly = (parsed.listingOnly || UserArg.list == arg) ∧
      (parsed.apply arg).help = (parsed.help || UserArg.help == arg) := by
  cases arg with
  | outputFormat value =>
      -- Whatever the value, only the format or the format error changes.
      simp only [LibtestUserArgs.apply, LibtestUserArgs.setOutputFormat]
      repeat' split
      all_goals simp [UserArg.perTestArgs, UserArg.listingTokens, UserArg.policy]
  | _ =>
      simp [LibtestUserArgs.apply, UserArg.perTestArgs, UserArg.listingTokens, UserArg.policy,
        LibtestUserArgs.pushSkip, LibtestUserArgs.pushFilter, LibtestUserArgs.pushExecutionValue,
        LibtestUserArgs.pushUnstableExecutionValue, LibtestUserArgs.noteUnstableOption,
        LibtestUserArgs.pushListingAndExecutionFlag, LibtestUserArgs.pushExecutionFlag]

/-- What an argument adds is read as that argument again. -/
def UserArg.Readable (arg : UserArg) : Prop :=
  arg.perTestArgs = [] ∨ ∀ rest, userArgs (arg.perTestArgs ++ rest) = arg :: userArgs rest

/-- What a form can stand for is readable. -/
def ArgForm.Readable : ArgForm → Prop
  | .alone arg => arg.Readable
  | .withValue arg => ∀ value, (arg value).Readable
  | .filters => True

/-- An option that is passed on as it is written. -/
theorem readable_of_alone {flag : String} {arg : UserArg} (h : classify flag = .alone arg)
    (hargs : arg.perTestArgs = [flag]) : arg.Readable := by
  refine .inr fun rest => ?_
  rw [hargs]
  simp [userArgs, h]

/-- An option that is passed on with its value. -/
theorem readable_of_value {flag value : String} {arg : String → UserArg}
    (h : classify flag = .withValue arg) (hargs : (arg value).perTestArgs = [flag, value]) :
    (arg value).Readable := by
  refine .inr fun rest => ?_
  rw [hargs]
  simp [userArgs, h]

/-- An option written as `--name=value` is passed on as two arguments. -/
theorem classify_assigned_readable {flag : String} {form : ArgForm}
    (h : classifyAssigned flag = some form) : form.Readable := by
  unfold classifyAssigned at h
  repeat' split at h
  all_goals cases h
  all_goals first
    | exact .inl rfl
    | exact fun _ => .inl rfl
    | exact readable_of_value (rfl : classify "--logfile" = _) rfl
    | exact readable_of_value (rfl : classify "--shuffle-seed" = _) rfl

/-- An option written as a whole word is passed on as that word. -/
theorem classify_word_readable {flag : String} (h : classify flag = classifyWord flag) :
    (classifyWord flag).Readable := by
  let P : ArgForm → Prop := fun form => classify flag = form → form.Readable
  suffices hform : P (classifyWord flag) from hform h
  have halone : ∀ arg : UserArg, arg.perTestArgs = [flag] → P (.alone arg) :=
    fun arg hargs hself => readable_of_alone hself hargs
  have hvalue : ∀ arg : String → UserArg, (∀ value, (arg value).perTestArgs = [flag, value]) →
      P (.withValue arg) := fun arg hargs hself value => readable_of_value hself (hargs value)
  have hdropped : ∀ arg : UserArg, arg.perTestArgs = [] → P (.alone arg) :=
    fun arg hargs _ => .inl hargs
  unfold classifyWord
  repeat' refine iteInduction (motive := P) (fun _ => ?_) (fun _ => ?_)
  all_goals first
    | exact hdropped _ rfl
    | exact halone _ rfl
    | exact fun _ _ => .inl rfl
    | exact hvalue _ fun _ => rfl
    | exact fun _ => trivial

/-- Every option is readable. -/
theorem classify_readable (flag : String) : (classify flag).Readable := by
  cases hassigned : classifyAssigned flag with
  | some form =>
      have hform : classify flag = form := by rw [classify, hassigned, Option.getD_some]
      rw [hform]
      exact classify_assigned_readable hassigned
  | none =>
      have hform : classify flag = classifyWord flag := by
        rw [classify, hassigned, Option.getD_none]
      rw [hform]
      exact classify_word_readable hform

/-- What is recognised in an argument list is readable. -/
theorem user_args_readable {args : List String} {arg : UserArg} (h : arg ∈ userArgs args) :
    arg.Readable := by
  fun_induction userArgs args with
  | case1 => cases h
  | case2 flag rest recognised hform ih =>
      have hflag := classify_readable flag
      rw [hform] at hflag
      rcases List.mem_cons.mp h with rfl | hrest
      · exact hflag
      · exact ih hrest
  | case3 flag recognised hform value rest ih =>
      have hflag := classify_readable flag
      rw [hform] at hflag
      rcases List.mem_cons.mp h with rfl | hrest
      · exact hflag value
      · exact ih hrest
  | case4 flag recognised hform => cases h
  | case5 flag rest hform =>
      obtain ⟨value, _, rfl⟩ := List.mem_map.mp h
      exact .inl rfl

/-- A list that every argument extends is what the arguments add to it, one after another. -/
theorem parse_field {α : Type} {field : LibtestUserArgs → List α} {adds : UserArg → List α}
    (hstart : field {} = [])
    (hstep : ∀ parsed arg, field (LibtestUserArgs.apply parsed arg) = field parsed ++ adds arg)
    (args : List String) :
    field (LibtestUserArgs.parse args) = (userArgs args).flatMap adds := by
  have hfold : ∀ (read : List UserArg) (parsed : LibtestUserArgs),
      field (read.foldl LibtestUserArgs.apply parsed) = field parsed ++ read.flatMap adds := by
    intro read
    induction read with
    | nil => simp
    | cons arg read ih =>
        intro parsed
        rw [List.foldl_cons, ih, hstep, List.flatMap_cons, List.append_assoc]
  show field ((userArgs args).foldl LibtestUserArgs.apply {}) = _
  rw [hfold, hstart, List.nil_append]

/-- The arguments that a per-test execution passes on. -/
theorem per_test_execution_args (args : List String) :
    (LibtestUserArgs.parse args).perTestExecutionArgs =
      (userArgs args).flatMap UserArg.perTestArgs :=
  @parse_field _ LibtestUserArgs.perTestExecutionArgs _ rfl
    (fun parsed arg => (apply_fields parsed arg).1) args

/-- An argument that takes no part in the selection. -/
def UserArg.Neutral (arg : UserArg) : Prop :=
  arg.filterValue = none ∧ arg.skipValue = none ∧ arg.policy = none ∧ arg ≠ .exact

/-- What is passed on to a per-test execution takes no part in the selection. -/
theorem neutral_of_passed_on {arg : UserArg} (h : arg.perTestArgs ≠ []) : arg.Neutral := by
  cases arg with
  | executionValue flag value => exact ⟨rfl, rfl, rfl, nofun⟩
  | unstableExecutionValue flag value => exact ⟨rfl, rfl, rfl, nofun⟩
  | listingAndExecutionFlag flag => exact ⟨rfl, rfl, rfl, nofun⟩
  | excludeShouldPanic flag => exact ⟨rfl, rfl, rfl, nofun⟩
  | executionFlag flag => exact ⟨rfl, rfl, rfl, nofun⟩
  | unstableExecutionFlag flag => exact ⟨rfl, rfl, rfl, nofun⟩
  | _ => exact absurd rfl h

/-- Written out again, arguments are read as those of them that were written. -/
theorem user_args_flat_map {tokens : UserArg → List String} {read : List UserArg}
    (h : ∀ arg ∈ read,
      tokens arg = [] ∨ ∀ rest, userArgs (tokens arg ++ rest) = arg :: userArgs rest)
    (rest : List String) :
    userArgs (read.flatMap tokens ++ rest) =
      read.filter (fun arg => tokens arg ≠ []) ++ userArgs rest := by
  induction read with
  | nil => rfl
  | cons first read ih =>
      have hrest := ih fun arg harg => h arg (List.mem_cons_of_mem _ harg)
      rw [List.flatMap_cons, List.append_assoc]
      by_cases hnone : tokens first = []
      · rw [hnone, List.nil_append, hrest, List.filter_cons_of_neg (by simp [hnone])]
      · have hread := (h first List.mem_cons_self).resolve_left hnone
        rw [hread, hrest, List.filter_cons_of_pos (by simp [hnone]), List.cons_append]

/-- How the harness reads what a per-test execution passes on. -/
theorem user_args_per_test (args : List String) :
    userArgs (LibtestUserArgs.parse args).perTestExecutionArgs =
      (userArgs args).filter fun arg => arg.perTestArgs ≠ [] := by
  have hread := user_args_flat_map (fun _ harg => @user_args_readable args _ harg) []
  rw [per_test_execution_args]
  simpa [userArgs] using hread

/-- Arguments that take no part in the selection can be left out at the end. -/
theorem of_read_append_neutral {read rest : List UserArg} (h : ∀ arg ∈ rest, arg.Neutral) :
    LibtestInvocation.ofRead (read ++ rest) = LibtestInvocation.ofRead read := by
  have hfilters : rest.filterMap UserArg.filterValue = [] :=
    List.filterMap_eq_nil_iff.mpr fun arg harg => (h arg harg).1
  have hskips : rest.filterMap UserArg.skipValue = [] :=
    List.filterMap_eq_nil_iff.mpr fun arg harg => (h arg harg).2.1
  have hpolicies : rest.filterMap UserArg.policy = [] :=
    List.filterMap_eq_nil_iff.mpr fun arg harg => (h arg harg).2.2.1
  have hexact : UserArg.exact ∉ rest := fun hmem => (h _ hmem).2.2.2 rfl
  simp [LibtestInvocation.ofRead, hfilters, hskips, hpolicies, hexact]

/-- How the flag of an ignored policy is read. -/
def IgnoredPolicy.asUserArgs : IgnoredPolicy → List UserArg
  | .excludeIgnored => []
  | policy => [.ignoredPolicy policy]

/-- The flag of an ignored policy is read as that policy. -/
theorem user_args_ignored_flag (ignored : IgnoredPolicy) (rest : List String) :
    userArgs (ignoredFlag ignored ++ rest) = ignored.asUserArgs ++ userArgs rest := by
  cases ignored <;> rfl

/-- How the format flags of an execution are read. -/
def formatUserArgs (format : RunFormat) (parsed : LibtestUserArgs) : List UserArg :=
  if format = .json then [.unstableOption "unstable-options", .outputFormat "json"]
  else if parsed.executionNeedsUnstable then [.unstableOption "unstable-options"]
  else []

theorem user_args_format_flags (format : RunFormat) (parsed : LibtestUserArgs)
    (rest : List String) :
    userArgs (formatFlags format parsed ++ rest) =
      formatUserArgs format parsed ++ userArgs rest := by
  unfold formatFlags formatUserArgs
  split
  · rfl
  · split <;> rfl

/-- The format flags of an execution take no part in the selection. -/
theorem format_user_args_neutral (format : RunFormat) (parsed : LibtestUserArgs) :
    ∀ arg ∈ formatUserArgs format parsed, arg.Neutral := by
  have hunstable : (UserArg.unstableOption "unstable-options").Neutral :=
    ⟨rfl, rfl, rfl, nofun⟩
  have hjson : (UserArg.outputFormat "json").Neutral := ⟨rfl, rfl, rfl, nofun⟩
  unfold formatUserArgs
  split
  · simp [hunstable, hjson]
  · split
    · simp [hunstable]
    · nofun

/-- How the arguments of a per-test execution are read: the names, the fixed options, the
policy, the format and what the user's arguments pass on, in this order. -/
theorem user_args_execution {names : List String}
    (h : ∀ name ∈ names, Text.startsWith name "-" = false) (ignored : IgnoredPolicy)
    (format : RunFormat) (args : List String) :
    userArgs (libtestExecutionArgs names ignored format args) =
      (names.map .filter ++ ([.exact, .dropped, .dropped] ++ ignored.asUserArgs)) ++
        (formatUserArgs format (LibtestUserArgs.parse args) ++
          (userArgs args).filter fun arg => arg.perTestArgs ≠ []) := by
  -- The fixed options are read one by one, whatever follows them.
  have hfixed : ∀ rest, userArgs (["--exact", "--test-threads=1", "--color=never"] ++ rest) =
      [.exact, .dropped, .dropped] ++ userArgs rest := fun _ => rfl
  simp only [libtestExecutionArgs, List.append_assoc]
  rw [user_args_names h, hfixed, user_args_ignored_flag, user_args_format_flags,
    user_args_per_test]

/-- Neither the format flags nor what is passed on takes part in the selection. -/
theorem flags_neutral (format : RunFormat) (args : List String) :
    ∀ arg ∈ formatUserArgs format (LibtestUserArgs.parse args) ++
      (userArgs args).filter (fun arg => arg.perTestArgs ≠ []), arg.Neutral := by
  intro arg harg
  rcases List.mem_append.mp harg with harg | harg
  · exact format_user_args_neutral format _ arg harg
  · exact neutral_of_passed_on (of_decide_eq_true (List.mem_filter.mp harg).2)

/-- How the harness reads the arguments of a per-test execution: the names are its filters, and
the user's filters and skips are not there. -/
theorem execution_invocation {names : List String}
    (h : ∀ name ∈ names, Text.startsWith name "-" = false) (ignored : IgnoredPolicy)
    (format : RunFormat) (args : List String) :
    LibtestInvocation.ofArgs (libtestExecutionArgs names ignored format args) =
      { filters := names, skips := [], exact := true, ignored } := by
  have hfilters : (names.map UserArg.filter).filterMap UserArg.filterValue = names := by
    simp [List.filterMap_map, Function.comp_def, UserArg.filterValue]
  have hskips : (names.map UserArg.filter).filterMap UserArg.skipValue = [] := by
    simp [List.filterMap_map, Function.comp_def, UserArg.skipValue]
  have hpolicies : (names.map UserArg.filter).filterMap UserArg.policy = [] := by
    simp [List.filterMap_map, Function.comp_def, UserArg.policy]
  rw [LibtestInvocation.ofArgs, user_args_execution h,
    of_read_append_neutral (flags_neutral format args), LibtestInvocation.ofRead]
  simp only [List.filterMap_append, hfilters, hskips, hpolicies]
  cases ignored <;>
    simp [IgnoredPolicy.asUserArgs, UserArg.filterValue, UserArg.skipValue, UserArg.policy,
      List.findSome?]

end Quokka
