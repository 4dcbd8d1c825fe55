import Quokka.Translator.Selection

/-!
# Arguments read again

The arguments of a per-test execution and of a listing are option lists for the same parser that
read the user's arguments. `execution_args_reread` reads the former again: the names are its
filters and the user's execution flags its flags. A listing writes the user's filters, skips and
selection flags into one list without the `--` that the user may have written, so a filter that
looks like an option is read as one; `listing_args_reread_iff` says that this is the only way to
lose the selection.
-/

namespace Quokka

/-! ## Reading the fields of parsed arguments -/

/-- The ignored policies of an argument list are those of its options, in order. -/
theorem parse_ignored_policies (args : List String) :
    (LibtestUserArgs.parse args).ignoredPolicies =
      (userArgs args).filterMap UserArg.policy := by
  rw [List.filterMap_eq_flatMap_toList]
  exact @parse_field _ LibtestUserArgs.ignoredPolicies _ rfl
    (fun parsed arg => (apply_fields parsed arg).2.2.1) args

/-- The arguments that a listing passes on. -/
theorem parse_listing_args (args : List String) :
    (LibtestUserArgs.parse args).listingArgs = (userArgs args).flatMap UserArg.listingTokens :=
  @parse_field _ LibtestUserArgs.listingArgs _ rfl
    (fun parsed arg => (apply_fields parsed arg).2.1) args

/-- A field that one option sets says whether the option is there. -/
theorem parse_flag {field : LibtestUserArgs → Bool} {flag : UserArg} (hstart : field {} = false)
    (hstep : ∀ parsed arg,
      field (LibtestUserArgs.apply parsed arg) = (field parsed || flag == arg))
    (args : List String) :
    field (LibtestUserArgs.parse args) = (userArgs args).contains flag := by
  have hfold : ∀ (read : List UserArg) (parsed : LibtestUserArgs),
      field (read.foldl LibtestUserArgs.apply parsed) =
        (field parsed || read.contains flag) := by
    intro read
    induction read with
    | nil => simp
    | cons arg read ih =>
        intro parsed
        rw [List.foldl_cons, ih, hstep, List.contains_cons, Bool.or_assoc]
  show field ((userArgs args).foldl LibtestUserArgs.apply {}) = _
  rw [hfold, hstart, Bool.false_or]

/-- `--list` is what asks for a listing only. -/
theorem parse_listing_only (args : List String) :
    (LibtestUserArgs.parse args).listingOnly = (userArgs args).contains .list :=
  parse_flag rfl (fun parsed arg => (apply_fields parsed arg).2.2.2.1) args

/-- `--help` is what asks for the help text. -/
theorem parse_help (args : List String) :
    (LibtestUserArgs.parse args).help = (userArgs args).contains .help :=
  parse_flag rfl (fun parsed arg => (apply_fields parsed arg).2.2.2.2) args

/-- An argument list whose only formats are `json` has no format error, and its format is the
default or JSON. -/
theorem parse_json_only {args : List String}
    (h : ∀ value, .outputFormat value ∈ userArgs args → value = "json")
    (hquiet : .quiet ∉ userArgs args) :
    (LibtestUserArgs.parse args).formatError = none ∧
      (LibtestUserArgs.parse args).outputFormat =
        if .outputFormat "json" ∈ userArgs args then .json else .pretty := by
  have hfold : ∀ (read : List UserArg) (parsed : LibtestUserArgs),
      (∀ value, .outputFormat value ∈ read → value = "json") → .quiet ∉ read →
      (read.foldl LibtestUserArgs.apply parsed).formatError = parsed.formatError ∧
        (read.foldl LibtestUserArgs.apply parsed).outputFormat =
          if .outputFormat "json" ∈ read then .json else parsed.outputFormat := by
    intro read
    induction read with
    | nil => simp
    | cons arg read ih =>
        intro parsed hjson hquiet
        obtain ⟨herror, hformat⟩ := ih (parsed.apply arg)
          (fun value hvalue => hjson value (List.mem_cons_of_mem _ hvalue))
          (fun hmem => hquiet (List.mem_cons_of_mem _ hmem))
        rw [List.foldl_cons, herror, hformat]
        cases arg with
        | outputFormat value =>
            obtain rfl := hjson value List.mem_cons_self
            simp [LibtestUserArgs.apply, LibtestUserArgs.setOutputFormat]
        | quiet => exact absurd List.mem_cons_self hquiet
        | _ =>
            simp [LibtestUserArgs.apply, LibtestUserArgs.pushSkip, LibtestUserArgs.pushFilter,
              LibtestUserArgs.pushExecutionValue, LibtestUserArgs.pushUnstableExecutionValue,
              LibtestUserArgs.noteUnstableOption, LibtestUserArgs.pushListingAndExecutionFlag,
              LibtestUserArgs.pushExecutionFlag]
  exact hfold _ _ h hquiet

/-! ## Per-test executions -/

/-- The ignored policies that an argument list asking for `ignored` names. -/
def IgnoredPolicy.requested : IgnoredPolicy → List IgnoredPolicy
  | .excludeIgnored => []
  | policy => [policy]

theorem policy_as_user_args (ignored : IgnoredPolicy) :
    ignored.asUserArgs.filterMap UserArg.policy = ignored.requested := by
  cases ignored <;> rfl

/-- An option that asks for something other than a selection of tests to run. -/
def UserArg.isRequest : UserArg → Bool
  | .list => true
  | .help => true
  | .quiet => true
  | .outputFormat _ => true
  | _ => false

/-- The only request in the arguments of an execution is the one for the JSON format. -/
theorem request_of_execution {names : List String}
    (h : ∀ name ∈ names, Text.startsWith name "-" = false) {ignored : IgnoredPolicy}
    {format : RunFormat} {args : List String} {arg : UserArg} (hrequest : arg.isRequest = true)
    (hmem : arg ∈ userArgs (libtestExecutionArgs names ignored format args)) :
    arg = .outputFormat "json" ∧ format = .json := by
  rw [user_args_execution h] at hmem
  rcases List.mem_append.mp hmem with hmem | hmem
  · -- Names, fixed options and policies are no requests.
    rcases List.mem_append.mp hmem with hname | hfixed
    · obtain ⟨name, _, rfl⟩ := List.mem_map.mp hname
      cases hrequest
    · cases ignored <;> cases arg <;>
        simp [IgnoredPolicy.asUserArgs, UserArg.isRequest] at hfixed hrequest
  · rcases List.mem_append.mp hmem with hflag | hpassed
    · unfold formatUserArgs at hflag
      split at hflag
      · rename_i hjson
        rcases List.mem_cons.mp hflag with rfl | hflag
        · cases hrequest
        · exact ⟨List.mem_singleton.mp hflag, hjson⟩
      · split at hflag
        · obtain rfl := List.mem_singleton.mp hflag
          cases hrequest
        · cases hflag
    · have hargs : arg.perTestArgs ≠ [] := of_decide_eq_true (List.mem_filter.mp hpassed).2
      cases arg with
      | list => exact absurd rfl hargs
      | help => exact absurd rfl hargs
      | quiet => exact absurd rfl hargs
      | outputFormat value => exact absurd rfl hargs
      | _ => cases hrequest

/-- A JSON execution asks for the JSON format. -/
theorem json_of_execution {names : List String}
    (h : ∀ name ∈ names, Text.startsWith name "-" = false) (ignored : IgnoredPolicy)
    (args : List String) :
    .outputFormat "json" ∈ userArgs (libtestExecutionArgs names ignored .json args) := by
  rw [user_args_execution h]
  simp [formatUserArgs]

/-- Arguments that are not written add nothing. -/
theorem flat_map_filter_written {tokens : UserArg → List String} (read : List UserArg) :
    (read.filter fun arg => tokens arg ≠ []).flatMap tokens = read.flatMap tokens := by
  induction read with
  | nil => rfl
  | cons arg read ih =>
      by_cases hnone : tokens arg = []
      · rw [List.filter_cons_of_neg (by simp [hnone]), ih, List.flatMap_cons, hnone,
          List.nil_append]
      · rw [List.filter_cons_of_pos (by simp [hnone]), List.flatMap_cons, ih, List.flatMap_cons]

/-- The format flags add nothing to the arguments of a listing or of an execution. -/
theorem format_user_args_tokens (format : RunFormat) (parsed : LibtestUserArgs) :
    (formatUserArgs format parsed).flatMap UserArg.listingTokens = [] ∧
      (formatUserArgs format parsed).flatMap UserArg.perTestArgs = [] := by
  unfold formatUserArgs
  split
  · exact ⟨rfl, rfl⟩
  · split <;> exact ⟨rfl, rfl⟩

section Reread

variable {names : List String} (h : ∀ name ∈ names, Text.startsWith name "-" = false)
variable (ignored : IgnoredPolicy) (format : RunFormat) (args : List String)

include h

/-- A listing passes the names, `--exact` and the flags that every test is given. -/
theorem listing_args_reread :
    (LibtestUserArgs.parse (libtestExecutionArgs names ignored format args)).listingArgs =
      names ++ "--exact" ::
        ((userArgs args).filter fun arg => arg.perTestArgs ≠ []).flatMap
          UserArg.listingTokens := by
  have hnames : (names.map UserArg.filter).flatMap UserArg.listingTokens = names := by
    simp [List.flatMap_map, UserArg.listingTokens]
  have hasked : ignored.asUserArgs.flatMap UserArg.listingTokens = [] := by
    cases ignored <;> rfl
  obtain ⟨hlisting, -⟩ := format_user_args_tokens format (LibtestUserArgs.parse args)
  rw [parse_listing_args, user_args_execution h ignored format args]
  simp only [List.flatMap_append, hnames, hasked, hlisting]
  simp [UserArg.listingTokens]

/-- The policy is the one that the execution was asked for. -/
theorem ignored_policies_reread :
    (LibtestUserArgs.parse (libtestExecutionArgs names ignored format args)).ignoredPolicies =
      ignored.requested := by
  have hnames : (names.map UserArg.filter).filterMap UserArg.policy = [] := by
    simp [List.filterMap_map, Function.comp_def, UserArg.policy]
  have hneutral : ∀ arg ∈ formatUserArgs format (LibtestUserArgs.parse args) ++
      (userArgs args).filter (fun arg => arg.perTestArgs ≠ []), arg.policy = none :=
    fun arg harg => (flags_neutral format args arg harg).2.2.1
  rw [parse_ignored_policies, user_args_execution h ignored format args, List.filterMap_append,
    List.filterMap_eq_nil_iff.mpr hneutral, List.filterMap_append, hnames, List.filterMap_append,
    policy_as_user_args, List.append_nil]
  rfl

/-- Every test is given the same flags again. -/
theorem per_test_args_reread :
    (LibtestUserArgs.parse (libtestExecutionArgs names ignored format args)).perTestExecutionArgs =
      (LibtestUserArgs.parse args).perTestExecutionArgs := by
  have hasked : ignored.asUserArgs.flatMap UserArg.perTestArgs = [] := by
    cases ignored <;> rfl
  obtain ⟨-, hpassed⟩ := format_user_args_tokens format (LibtestUserArgs.parse args)
  rw [per_test_execution_args, per_test_execution_args,
    user_args_execution h ignored format args]
  simp only [List.flatMap_append, hasked, hpassed, flat_map_filter_written]
  simp [List.flatMap_map, UserArg.perTestArgs]

/-- Of the requests an execution has the JSON format alone, if it is the format. -/
theorem output_format_reread :
    (LibtestUserArgs.parse (libtestExecutionArgs names ignored format args)).formatError =
        none ∧
      (LibtestUserArgs.parse (libtestExecutionArgs names ignored format args)).outputFormat =
        (if format = .json then .json else .pretty) := by
  have hrequest : ∀ arg ∈ userArgs (libtestExecutionArgs names ignored format args),
      arg.isRequest = true → arg = .outputFormat "json" ∧ format = .json :=
    fun arg hmem hrequest => request_of_execution h hrequest hmem
  have hvalue : ∀ value, .outputFormat value ∈
      userArgs (libtestExecutionArgs names ignored format args) → value = "json" :=
    fun value hmem => UserArg.outputFormat.inj (hrequest _ hmem rfl).1
  have hjson : .outputFormat "json" ∈
      userArgs (libtestExecutionArgs names ignored format args) ↔ format = .json := by
    constructor
    · exact fun hmem => (hrequest _ hmem rfl).2
    · intro hformat
      subst hformat
      exact json_of_execution h ignored args
  obtain ⟨herror, houtput⟩ :=
    parse_json_only hvalue fun hmem => nomatch (hrequest _ hmem rfl).1
  refine ⟨herror, ?_⟩
  rw [houtput]
  simp only [hjson]

end Reread

/-- Names that do not begin with `-` are the filters of the execution's arguments, and beside
them the arguments hold `--exact`, the configured policy, the run format and the user's
execution flags and values: nothing else of the user's arguments is there. -/
theorem execution_args_reread {names : List String}
    (h : ∀ name ∈ names, Text.startsWith name "-" = false) (ignored : IgnoredPolicy)
    (format : RunFormat) (args : List String) :
    let reread := libtestExecutionArgs names ignored format args
    (userArgs reread).filterMap UserArg.filterValue = names ∧
      (userArgs reread).filterMap UserArg.skipValue = [] ∧
      (LibtestUserArgs.parse reread).listingArgs =
        names ++ "--exact" ::
          ((userArgs args).filter fun arg => arg.perTestArgs ≠ []).flatMap
            UserArg.listingTokens ∧
      (LibtestUserArgs.parse reread).ignoredPolicies = ignored.requested ∧
      (LibtestUserArgs.parse reread).listingOnly = false ∧
      (LibtestUserArgs.parse reread).help = false ∧
      (LibtestUserArgs.parse reread).formatError = none ∧
      (LibtestUserArgs.parse reread).outputFormat =
        (if format = .json then .json else .pretty) ∧
      (LibtestUserArgs.parse reread).perTestExecutionArgs =
        (LibtestUserArgs.parse args).perTestExecutionArgs := by
  intro reread
  have hinvocation : LibtestInvocation.ofArgs reread = _ :=
    execution_invocation h ignored format args
  have hrequest : ∀ arg ∈ userArgs reread, arg.isRequest = true →
      arg = .outputFormat "json" ∧ format = .json :=
    fun arg hmem hrequest => request_of_execution h hrequest hmem
  have hlist : UserArg.list ∉ userArgs reread := fun hmem => nomatch (hrequest _ hmem rfl).1
  have hhelp : UserArg.help ∉ userArgs reread := fun hmem => nomatch (hrequest _ hmem rfl).1
  obtain ⟨herror, houtput⟩ := output_format_reread h ignored format args
  refine ⟨congrArg LibtestInvocation.filters hinvocation,
    congrArg LibtestInvocation.skips hinvocation, listing_args_reread h ignored format args,
    ignored_policies_reread h ignored format args, ?_, ?_, herror, houtput,
    per_test_args_reread h ignored format args⟩
  · rw [parse_listing_only]
    simpa using hlist
  · rw [parse_help]
    simpa using hhelp

/-- Of a command line with a filter, a skip, a request and a value option, only the latter
reaches an execution. -/
theorem filter_and_skip_stay_out :
    let args := ["--skip", "slow", "net", "--list", "--format=terse", "--logfile", "--exact",
      "--ignored"]
    let reread := libtestExecutionArgs ["a::b", "ü"] .includeIgnored .text args
    (userArgs reread).filterMap UserArg.filterValue = ["a::b", "ü"] ∧
      (LibtestUserArgs.parse reread).perTestExecutionArgs = ["--logfile", "--exact"] := by
  intro args reread
  have h := @execution_args_reread ["a::b", "ü"] (by decide) .includeIgnored .text args
  exact ⟨h.1, h.2.2.2.2.2.2.2.2⟩

/-! ## Listings -/

/-- The selection flag that an argument is. -/
def UserArg.selectionFlag : UserArg → Option String
  | .exact => some "--exact"
  | .listingAndExecutionFlag flag => some flag
  | .excludeShouldPanic flag => some flag
  | _ => none

/-- The two readings select by the same filters, skips and flags. -/
structure SameSelection (again read : List UserArg) : Prop where
  filters : again.filterMap UserArg.filterValue = read.filterMap UserArg.filterValue
  skips : again.filterMap UserArg.skipValue = read.filterMap UserArg.skipValue
  flags : again.filterMap UserArg.selectionFlag = read.filterMap UserArg.selectionFlag

/-- How the options that a listing starts with are read. -/
def listingUserArgs (ignored : IgnoredPolicy) (format : ListFormat) (parsed : LibtestUserArgs) :
    List UserArg :=
  (match format with
    | .text =>
        if parsed.listingNeedsUnstable then [.list, .unstableOption "unstable-options"]
        else [.list]
    | .json => [.unstableOption "unstable-options", .list, .outputFormat "json"]) ++
    ignored.asUserArgs

theorem user_args_listing (ignored : IgnoredPolicy) (format : ListFormat)
    (args : List String) :
    userArgs (libtestListingArgs ignored format args) =
      listingUserArgs ignored format (LibtestUserArgs.parse args) ++
        userArgs (LibtestUserArgs.parse args).listingArgs := by
  have hpolicy := user_args_ignored_flag ignored (LibtestUserArgs.parse args).listingArgs
  simp only [libtestListingArgs, listingUserArgs, List.append_assoc, ← hpolicy]
  cases format with
  | json => rfl
  | text => by_cases hunstable : (LibtestUserArgs.parse args).listingNeedsUnstable <;>
      simp [hunstable] <;> rfl

/-- The options that a listing starts with select nothing, but for the ignored policy. -/
theorem listing_user_args_select (ignored : IgnoredPolicy) (format : ListFormat)
    (parsed : LibtestUserArgs) :
    let fixed := listingUserArgs ignored format parsed
    fixed.filterMap UserArg.filterValue = [] ∧ fixed.filterMap UserArg.skipValue = [] ∧
      fixed.filterMap UserArg.selectionFlag = [] ∧
      fixed.filterMap UserArg.policy = ignored.requested ∧ .list ∈ fixed := by
  by_cases hunstable : parsed.listingNeedsUnstable <;> cases format <;> cases ignored <;>
    simp [listingUserArgs, hunstable, IgnoredPolicy.asUserArgs, IgnoredPolicy.requested,
      UserArg.filterValue, UserArg.skipValue, UserArg.selectionFlag, UserArg.policy] <;>
    rfl

/-- An argument that adds nothing to a listing selects nothing by itself. -/
theorem select_of_listing_tokens_nil {arg : UserArg} (h : arg.listingTokens = []) :
    arg.filterValue = none ∧ arg.skipValue = none ∧ arg.selectionFlag = none := by
  cases arg <;> simp_all [UserArg.listingTokens, UserArg.filterValue, UserArg.skipValue,
    UserArg.selectionFlag]

/-- A listing passes no ignored policy on from the user's arguments. -/
theorem policy_of_listing_tokens {arg : UserArg} (h : arg.listingTokens ≠ []) :
    arg.policy = none := by
  cases arg with
  | ignoredPolicy policy => exact absurd rfl h
  | _ => rfl

/-- What a listing passes on is read as the same argument, unless it is a filter that looks like
an option. -/
theorem listing_tokens_reread {arg : UserArg} (hreadable : arg.Readable)
    (hplain : ∀ value, arg.filterValue = some value → Text.startsWith value "-" = false) :
    arg.listingTokens = [] ∨
      ∀ rest, userArgs (arg.listingTokens ++ rest) = arg :: userArgs rest := by
  cases arg with
  | filter value =>
      refine .inr fun rest => ?_
      have hvalue := classify_positional (hplain value rfl)
      simp [UserArg.listingTokens, userArgs, hvalue]
  | skip value => exact .inr fun _ => rfl
  | exact => exact .inr fun _ => rfl
  | listingAndExecutionFlag flag => exact .inr (hreadable.resolve_left (List.cons_ne_nil _ _))
  | excludeShouldPanic flag => exact .inr (hreadable.resolve_left (List.cons_ne_nil _ _))
  | _ => exact .inl rfl

/-- Leaving out what a listing does not pass on keeps the selection. -/
theorem same_selection_filter (read : List UserArg) :
    SameSelection (read.filter fun arg => arg.listingTokens ≠ []) read := by
  have hkeep : ∀ {α : Type} (field : UserArg → Option α),
      (∀ arg, arg.listingTokens = [] → field arg = none) →
      (read.filter fun arg => arg.listingTokens ≠ []).filterMap field = read.filterMap field := by
    intro α field hfield
    rw [List.filterMap_filter]
    refine List.filterMap_congr fun arg _ => ?_
    by_cases hnone : arg.listingTokens = []
    · simp [hnone, hfield arg hnone]
    · simp [hnone]
  exact ⟨hkeep _ fun arg h => (select_of_listing_tokens_nil h).1,
    hkeep _ fun arg h => (select_of_listing_tokens_nil h).2.1,
    hkeep _ fun arg h => (select_of_listing_tokens_nil h).2.2⟩

/-! ### Filters that look like options

The characters that the arguments of a reading take in a listing cannot be more than the
characters they were read from, and they are as many only where no filter looks like an option.
-/

/-- The characters that an argument takes in a listing. -/
def UserArg.size (arg : UserArg) : Nat :=
  (arg.listingTokens.map String.length).sum

/-- An argument read from `room` characters takes no more of them in a listing, and a filter that
looks like an option takes fewer. -/
def UserArg.Fits (room : Nat) (arg : UserArg) : Prop :=
  arg.size ≤ room ∧
    (arg.size = room →
      ∀ value, arg.filterValue = some value → Text.startsWith value "-" = false)

/-- What `flag` stands for fits in `flag` and its value. -/
def ArgForm.Fits (flag : String) : ArgForm → Prop
  | .alone arg => arg.Fits flag.length
  | .withValue arg => ∀ value, (arg value).Fits (flag.length + value.length)
  | .filters => 0 < flag.length

/-- An argument that is no filter fits where its tokens do. -/
theorem UserArg.fits_of_size {room : Nat} {arg : UserArg} (hsize : arg.size ≤ room)
    (hfilter : arg.filterValue = none) : arg.Fits room :=
  ⟨hsize, fun _ _ hvalue => nomatch hfilter.symm.trans hvalue⟩

/-- A filter fits with room to spare. -/
theorem UserArg.fits_of_filter {room : Nat} {value : String} (h : value.length < room) :
    (UserArg.filter value).Fits room := by
  have hsize : (UserArg.filter value).size = value.length := by
    simp [UserArg.size, UserArg.listingTokens]
  refine ⟨by omega, fun heq => ?_⟩
  omega

/-- The value of an option written as `--name=value` is shorter than the option. -/
theorem length_of_strip_prefix {arg pattern value : String}
    (h : Text.stripPrefix arg pattern = some value) :
    arg.length = pattern.length + value.length := by
  rw [Text.strip_prefix_eq_some] at h
  rw [h, String.length_append]

theorem size_skip (value : String) : (UserArg.skip value).size = 6 + value.length := by
  have hskip : "--skip".length = 6 := rfl
  simp [UserArg.size, UserArg.listingTokens, hskip]

/-- An argument that a listing leaves out fits anywhere. -/
theorem UserArg.fits_of_left_out {arg : UserArg} (room : Nat) (h : arg.listingTokens = []) :
    arg.Fits room := by
  have hsize : arg.size = 0 := by simp [UserArg.size, h]
  exact UserArg.fits_of_size (by omega) (select_of_listing_tokens_nil h).1

/-- An option written as `--name=value` fits. -/
theorem classify_assigned_fits {flag : String} {form : ArgForm}
    (h : classifyAssigned flag = some form) : form.Fits flag := by
  unfold classifyAssigned at h
  split at h
  · rename_i value hvalue
    obtain rfl := Option.some.inj h
    have hlength := length_of_strip_prefix hvalue
    have hpattern : "--skip=".length = 7 := rfl
    have hsize := size_skip value
    exact UserArg.fits_of_size (by omega) rfl
  split at h
  · obtain rfl := Option.some.inj h
    exact UserArg.fits_of_left_out _ rfl
  split at h
  · obtain rfl := Option.some.inj h
    exact UserArg.fits_of_left_out _ rfl
  split at h
  · obtain rfl := Option.some.inj h
    exact UserArg.fits_of_left_out _ rfl
  split at h
  · rename_i value hvalue
    obtain rfl := Option.some.inj h
    have hlength := length_of_strip_prefix hvalue
    have hpattern : "--filter=".length = 9 := rfl
    exact UserArg.fits_of_filter (by omega)
  split at h
  · obtain rfl := Option.some.inj h
    exact UserArg.fits_of_left_out _ rfl
  split at h
  · split at h
    · obtain rfl := Option.some.inj h
      exact fun _ => UserArg.fits_of_left_out _ rfl
    · obtain rfl := Option.some.inj h
      exact UserArg.fits_of_left_out _ rfl
  · cases h

/-- An option written as a whole word fits. -/
theorem classify_word_fits (flag : String) : (classifyWord flag).Fits flag := by
  let P : ArgForm → Prop := ArgForm.Fits flag
  have hleft : ∀ arg : UserArg, arg.listingTokens = [] → P (.alone arg) :=
    fun arg harg => UserArg.fits_of_left_out _ harg
  have hvalue : ∀ arg : String → UserArg, (∀ value, (arg value).listingTokens = []) →
      P (.withValue arg) := fun arg harg value => UserArg.fits_of_left_out _ (harg value)
  have hself : ∀ arg : UserArg, arg.listingTokens = [flag] → arg.filterValue = none →
      P (.alone arg) := by
    intro arg harg hfilter
    refine UserArg.fits_of_size ?_ hfilter
    simp [UserArg.size, harg]
  show P (classifyWord flag)
  unfold classifyWord
  refine iteInduction (fun _ => hleft _ rfl) fun _ => ?_
  refine iteInduction (fun _ => hleft _ rfl) fun _ => ?_
  refine iteInduction (fun hexact => hself _ (hexact ▸ rfl) rfl) fun _ => ?_
  refine iteInduction (fun hskip value => ?_) fun _ => ?_
  · subst hskip
    exact UserArg.fits_of_size (Nat.le_of_eq (size_skip value)) rfl
  refine iteInduction (fun _ => hleft _ rfl) fun _ => ?_
  refine iteInduction (fun hfilter value => ?_) fun _ => ?_
  · subst hfilter
    have hlength : "--filter".length = 8 := rfl
    exact UserArg.fits_of_filter (by omega)
  refine iteInduction (fun _ => hself _ rfl rfl) fun _ => ?_
  refine iteInduction (fun _ => hself _ rfl rfl) fun _ => ?_
  refine iteInduction (fun _ => hleft _ rfl) fun _ => ?_
  refine iteInduction (fun _ => hleft _ rfl) fun _ => ?_
  refine iteInduction (fun _ => hvalue _ fun _ => rfl) fun _ => ?_
  refine iteInduction (fun _ => hvalue _ fun _ => rfl) fun _ => ?_
  refine iteInduction (fun _ => hvalue _ fun _ => rfl) fun _ => ?_
  refine iteInduction (fun _ => hvalue _ fun _ => rfl) fun _ => ?_
  refine iteInduction (fun _ => hleft _ rfl) fun _ => ?_
  refine iteInduction (fun _ => hleft _ rfl) fun _ => ?_
  refine iteInduction (fun hdashes => ?_) fun _ => ?_
  · subst hdashes
    show 0 < "--".length
    decide
  refine iteInduction (fun _ => hleft _ rfl) fun hplain => ?_
  -- Any other word is a filter that does not look like an option.
  have hsize : (UserArg.filter flag).size = flag.length := by
    simp [UserArg.size, UserArg.listingTokens]
  refine ⟨Nat.le_of_eq hsize, fun _ value hvalue => ?_⟩
  obtain rfl : flag = value := Option.some.inj hvalue
  exact Bool.eq_false_of_not_eq_true hplain

theorem classify_fits (flag : String) : (classify flag).Fits flag := by
  cases hassigned : classifyAssigned flag with
  | some form =>
      rw [classify, hassigned, Option.getD_some]
      exact classify_assigned_fits hassigned
  | none =>
      rw [classify, hassigned, Option.getD_none]
      exact classify_word_fits flag

/-- The characters that the arguments of a reading take in a listing. -/
def totalSize (read : List UserArg) : Nat :=
  (read.map UserArg.size).sum

theorem total_size_cons (arg : UserArg) (read : List UserArg) :
    totalSize (arg :: read) = arg.size + totalSize read := by
  simp [totalSize]

/-- A reading from `room` characters takes no more of them in a listing, and fewer when one of its
filters looks like an option. -/
def ReadingFits (room : Nat) (read : List UserArg) : Prop :=
  totalSize read ≤ room ∧
    (totalSize read = room → ∀ value ∈ read.filterMap UserArg.filterValue,
      Text.startsWith value "-" = false)

theorem ReadingFits.cons {room rest : Nat} {arg : UserArg} {read : List UserArg}
    (harg : arg.Fits room) (hread : ReadingFits rest read) :
    ReadingFits (room + rest) (arg :: read) := by
  obtain ⟨hle, hplain⟩ := harg
  obtain ⟨hrest, hrestPlain⟩ := hread
  have hcons := total_size_cons arg read
  refine ⟨by omega, fun heq value hvalue => ?_⟩
  -- Neither part has room to spare.
  have hfull : arg.size = room ∧ totalSize read = rest := by omega
  obtain ⟨filter, hmem, hfilter⟩ := List.mem_filterMap.mp hvalue
  rcases List.mem_cons.mp hmem with rfl | hmem
  · exact hplain hfull.1 value hfilter
  · exact hrestPlain hfull.2 value (List.mem_filterMap.mpr ⟨filter, hmem, hfilter⟩)

theorem user_args_fit (args : List String) :
    ReadingFits (args.map String.length).sum (userArgs args) := by
  fun_induction userArgs args with
  | case1 => exact ⟨Nat.le_refl _, fun _ _ hnone => absurd hnone List.not_mem_nil⟩
  | case2 flag rest recognised hform ih =>
      have hfits := classify_fits flag
      rw [hform] at hfits
      exact ReadingFits.cons hfits ih
  | case3 flag recognised hform value rest ih =>
      have hfits := classify_fits flag
      rw [hform] at hfits
      have hread := ReadingFits.cons (hfits value) ih
      rwa [Nat.add_assoc] at hread
  | case4 flag recognised hform =>
      exact ⟨Nat.zero_le _, fun _ _ hnone => absurd hnone List.not_mem_nil⟩
  | case5 flag rest hform =>
      -- The filters after `--` leave the characters of `--` to spare.
      have hflag := classify_fits flag
      rw [hform] at hflag
      have hdashes : 0 < flag.length := hflag
      have hsizes : (rest.map UserArg.filter).map UserArg.size = rest.map String.length := by
        simp [UserArg.size, UserArg.listingTokens]
      have hsize : totalSize (rest.map .filter) = (rest.map String.length).sum := by
        rw [totalSize, hsizes]
      rw [List.map_cons, List.sum_cons]
      exact ⟨by omega, fun heq => by omega⟩

/-- The characters of a reading are those of its filters, skips and selection flags. -/
theorem total_size_eq (read : List UserArg) :
    totalSize read =
      ((read.filterMap UserArg.filterValue).map String.length).sum +
        ((read.filterMap UserArg.skipValue).map fun value => 6 + value.length).sum +
        ((read.filterMap UserArg.selectionFlag).map String.length).sum := by
  induction read with
  | nil => rfl
  | cons arg read ih =>
      rw [total_size_cons, ih]
      cases arg with
      | skip value =>
          rw [size_skip]
          simp [List.filterMap_cons, UserArg.filterValue, UserArg.skipValue,
            UserArg.selectionFlag]
          omega
      | filter value =>
          simp [List.filterMap_cons, UserArg.size, UserArg.listingTokens, UserArg.filterValue,
            UserArg.skipValue, UserArg.selectionFlag]
          omega
      | exact | listingAndExecutionFlag flag | excludeShouldPanic flag =>
          simp [List.filterMap_cons, UserArg.size, UserArg.listingTokens, UserArg.filterValue,
            UserArg.skipValue, UserArg.selectionFlag]
          omega
      | _ =>
          simp [List.filterMap_cons, UserArg.size, UserArg.listingTokens, UserArg.filterValue,
            UserArg.skipValue, UserArg.selectionFlag]

/-- The arguments that a listing passes on are as long as its reading. -/
theorem length_listing_args (read : List UserArg) :
    ((read.flatMap UserArg.listingTokens).map String.length).sum = totalSize read := by
  induction read with
  | nil => rfl
  | cons arg read ih =>
      rw [List.flatMap_cons, List.map_append, List.sum_append, ih]
      rfl

/-- A selection is as long as its filters, skips and flags. -/
theorem SameSelection.total_size {again read : List UserArg} (h : SameSelection again read) :
    totalSize again = totalSize read := by
  rw [total_size_eq, total_size_eq, h.filters, h.skips, h.flags]

/-- Without filters that look like options, what a listing passes on is read as it was. -/
theorem user_args_listing_args {args : List String}
    (h : ∀ value ∈ (userArgs args).filterMap UserArg.filterValue,
      Text.startsWith value "-" = false) :
    userArgs (LibtestUserArgs.parse args).listingArgs =
      (userArgs args).filter fun arg => arg.listingTokens ≠ [] := by
  have hplain : ∀ arg ∈ userArgs args, ∀ value, arg.filterValue = some value →
      Text.startsWith value "-" = false :=
    fun arg harg value hvalue => h value (List.mem_filterMap.mpr ⟨arg, harg, hvalue⟩)
  have hread := user_args_flat_map (fun arg harg =>
    listing_tokens_reread (user_args_readable harg) (hplain arg harg)) []
  rw [parse_listing_args]
  simpa [userArgs] using hread

/-- What a listing passes on is read as the same selection exactly when no filter looks like an
option. -/
theorem same_selection_iff (args : List String) :
    SameSelection (userArgs (LibtestUserArgs.parse args).listingArgs) (userArgs args) ↔
      ∀ value ∈ (userArgs args).filterMap UserArg.filterValue,
        Text.startsWith value "-" = false := by
  constructor
  · intro hsame
    -- Reading again loses no character, so every filter was written out as it is.
    have hsize := hsame.total_size
    rw [← length_listing_args (userArgs args), ← parse_listing_args] at hsize
    rw [← hsame.filters]
    exact (user_args_fit _).2 hsize
  · intro hplain
    rw [user_args_listing_args hplain]
    exact same_selection_filter (userArgs args)

/-- The arguments of a listing select what the user's arguments do, under the configured policy
and as a listing, exactly when no positional filter of the user begins with `-`. -/
theorem listing_args_reread_iff (ignored : IgnoredPolicy) (format : ListFormat)
    (args : List String) :
    let reread := libtestListingArgs ignored format args
    (SameSelection (userArgs reread) (userArgs args) ∧
        (LibtestUserArgs.parse reread).ignoredPolicies = ignored.requested ∧
        (LibtestUserArgs.parse reread).listingOnly = true) ↔
      ∀ value ∈ (userArgs args).filterMap UserArg.filterValue,
        Text.startsWith value "-" = false := by
  intro reread
  have hread : userArgs reread = _ := user_args_listing ignored format args
  obtain ⟨hfilters, hskips, hflags, hpolicies, hlist⟩ :=
    listing_user_args_select ignored format (LibtestUserArgs.parse args)
  -- The options that the listing starts with take no part in the selection.
  have hfixed : SameSelection (userArgs reread) (userArgs args) ↔
      SameSelection (userArgs (LibtestUserArgs.parse args).listingArgs) (userArgs args) := by
    rw [hread]
    constructor <;> intro hsame
    · obtain ⟨h₁, h₂, h₃⟩ := hsame
      rw [List.filterMap_append, hfilters, List.nil_append] at h₁
      rw [List.filterMap_append, hskips, List.nil_append] at h₂
      rw [List.filterMap_append, hflags, List.nil_append] at h₃
      exact ⟨h₁, h₂, h₃⟩
    · refine ⟨?_, ?_, ?_⟩
      · rw [List.filterMap_append, hfilters, List.nil_append, hsame.filters]
      · rw [List.filterMap_append, hskips, List.nil_append, hsame.skips]
      · rw [List.filterMap_append, hflags, List.nil_append, hsame.flags]
  rw [hfixed, same_selection_iff]
  constructor
  · exact fun h => h.1
  · intro hplain
    refine ⟨hplain, ?_, ?_⟩
    · have hnone : ((userArgs args).filter fun arg => arg.listingTokens ≠ []).filterMap
          UserArg.policy = [] :=
        List.filterMap_eq_nil_iff.mpr fun arg harg =>
          policy_of_listing_tokens (of_decide_eq_true (List.mem_filter.mp harg).2)
      rw [parse_ignored_policies, hread, List.filterMap_append, hpolicies,
        user_args_listing_args hplain, hnone, List.append_nil]
    · rw [parse_listing_only, hread]
      simp [hlist]

/-- The user selects the tests whose names contain `--exact`; the listing selects every test and
matches names exactly. -/
theorem filter_is_read_as_flag :
    ¬ ∀ (ignored : IgnoredPolicy) (format : ListFormat) (args : List String),
      let reread := libtestListingArgs ignored format args
      SameSelection (userArgs reread) (userArgs args) ∧
        (LibtestUserArgs.parse reread).ignoredPolicies = ignored.requested ∧
        (LibtestUserArgs.parse reread).listingOnly = true := by
  intro h
  have hfilters := (h .excludeIgnored .text ["--", "--exact"]).1.filters
  have hagain : (userArgs (libtestListingArgs .excludeIgnored .text ["--", "--exact"])).filterMap
      UserArg.filterValue = [] := by decide
  have hread : (userArgs ["--", "--exact"]).filterMap UserArg.filterValue = ["--exact"] := by
    decide
  rw [hagain, hread] at hfilters
  cases hfilters

end Quokka
