import Quokka.CommandLine
import Quokka.Library.FallibleMap
import Quokka.Library.KeyedUpdate
import Quokka.Library.Search
import Quokka.Scheduler.MemoryOverrides
import Quokka.Translator.Rereading

/-!
# Accepted configurations

Which command lines `resolveConfig` accepts (`config_accepted_iff`), and what holds of the
configuration that comes of one (`accepted_config_valid`): the bounds and the agreements that the
rest of the runner relies on.
-/

namespace Quokka

/-! ## Single values -/

theorem exists_choose_value_iff {α : Type} {field value : String} {choices : List (String × α)} :
    (∃ chosen, chooseValue field choices value = .ok chosen) ↔
      value ∈ choices.map Prod.fst := by
  unfold chooseValue
  cases hlookup : choices.lookup value with
  | some chosen =>
      refine iff_of_true ⟨chosen, rfl⟩ ?_
      obtain ⟨before, after, hchoices, -⟩ := List.lookup_eq_some_iff.mp hlookup
      rw [hchoices]
      simp
  | none =>
      refine iff_of_false (fun ⟨_, h⟩ => by cases h) fun hmem => ?_
      obtain ⟨⟨key, chosen⟩, hchoice, rfl⟩ := List.mem_map.mp hmem
      have hnone := List.lookup_eq_none_iff.mp hlookup _ hchoice
      simp at hnone

/-- The requests about ignored tests that do not contradict each other. -/
def Agree (policies : List IgnoredPolicy) : Prop :=
  ∀ first ∈ policies, ∀ second ∈ policies, first = second

/-- Once a request has been taken, all others must be the same. -/
theorem resolve_policies_of_taken {taken : IgnoredPolicy} (htaken : taken ≠ .excludeIgnored)
    {policies : List IgnoredPolicy} {ignored : IgnoredPolicy} :
    policies.foldlM resolvePolicy taken = .ok ignored ↔
      ignored = taken ∧ ∀ policy ∈ policies, policy = taken := by
  induction policies with
  | nil =>
      rw [List.foldlM_nil]
      constructor
      · intro h
        cases h
        exact ⟨rfl, by simp⟩
      · rintro ⟨rfl, -⟩
        rfl
  | cons policy policies ih =>
      rw [Except.foldlM_cons_eq_ok, List.forall_mem_cons]
      unfold resolvePolicy
      rw [if_neg htaken]
      by_cases hsame : policy = taken
      · subst hsame
        rw [if_neg (by simp)]
        constructor
        · rintro ⟨next, hnext, hrest⟩
          cases hnext
          obtain ⟨hignored, hall⟩ := ih.mp hrest
          exact ⟨hignored, rfl, hall⟩
        · rintro ⟨hignored, -, hall⟩
          exact ⟨_, rfl, ih.mpr ⟨hignored, hall⟩⟩
      · rw [if_pos (Ne.symm hsame)]
        refine iff_of_false ?_ fun h => hsame h.2.1
        rintro ⟨next, hnext, -⟩
        cases hnext

/-- Requests are accepted when they agree, and then they are the policy. -/
theorem resolve_policies {policies : List IgnoredPolicy} {ignored : IgnoredPolicy}
    (hasked : ∀ policy ∈ policies, policy ≠ .excludeIgnored) :
    policies.foldlM resolvePolicy .excludeIgnored = .ok ignored ↔
      Agree policies ∧ ignored = policies.head?.getD .excludeIgnored := by
  cases policies with
  | nil =>
      rw [List.foldlM_nil]
      constructor
      · intro h
        cases h
        exact ⟨fun _ hmem => absurd hmem List.not_mem_nil, rfl⟩
      · rintro ⟨-, rfl⟩
        rfl
  | cons policy policies =>
      have hfirst : resolvePolicy .excludeIgnored policy = .ok policy := if_pos rfl
      rw [List.foldlM_cons, hfirst]
      show policies.foldlM resolvePolicy policy = .ok ignored ↔ _
      rw [resolve_policies_of_taken (hasked policy List.mem_cons_self), and_comm]
      refine and_congr ⟨fun hall => ?_, fun hagree other hother => ?_⟩ Iff.rfl
      · have hsame : ∀ other ∈ policy :: policies, other = policy := by simpa using hall
        exact fun first hfirst second hsecond =>
          (hsame first hfirst).trans (hsame second hsecond).symm
      · exact hagree other (List.mem_cons_of_mem _ hother) policy List.mem_cons_self

/-! ## Requests about ignored tests -/

/-- What a form can stand for never asks for the default. -/
def ArgForm.AsksNoDefault : ArgForm → Prop
  | .alone arg => arg.policy ≠ some .excludeIgnored
  | .withValue arg => ∀ value, (arg value).policy ≠ some .excludeIgnored
  | .filters => True

theorem classify_asks_no_default (flag : String) : (classify flag).AsksNoDefault := by
  cases hassigned : classifyAssigned flag with
  | some form =>
      rw [classify, hassigned, Option.getD_some]
      unfold classifyAssigned at hassigned
      repeat' split at hassigned
      all_goals cases hassigned
      all_goals simp [ArgForm.AsksNoDefault, UserArg.policy]
  | none =>
      rw [classify, hassigned, Option.getD_none]
      unfold classifyWord
      repeat' refine iteInduction (motive := ArgForm.AsksNoDefault) (fun _ => ?_) (fun _ => ?_)
      all_goals simp [ArgForm.AsksNoDefault, UserArg.policy]

/-- The libtest arguments never ask for the default about ignored tests. -/
theorem user_args_ask_no_default (args : List String) :
    ∀ arg ∈ userArgs args, arg.policy ≠ some .excludeIgnored := by
  fun_induction userArgs args with
  | case1 => simp
  | case2 flag rest recognised hform ih =>
      have hflag := classify_asks_no_default flag
      rw [hform] at hflag
      exact List.forall_mem_cons.mpr ⟨hflag, ih⟩
  | case3 flag recognised hform value rest ih =>
      have hflag := classify_asks_no_default flag
      rw [hform] at hflag
      exact List.forall_mem_cons.mpr ⟨hflag value, ih⟩
  | case4 => simp
  | case5 flag rest hform => simp [UserArg.policy]

/-- No request is one for the default. -/
theorem ignored_policies_ask (tpx : TpxConfig) :
    ∀ policy ∈ tpx.ignoredPolicies, policy ≠ .excludeIgnored := by
  intro policy hmem
  unfold TpxConfig.ignoredPolicies libtestUserIgnoredPolicies at hmem
  rw [parse_ignored_policies] at hmem
  obtain hflag | hlibtest := List.mem_append.mp hmem
  · obtain hinclude | honly := List.mem_append.mp hflag
    · split at hinclude
      · rw [List.mem_singleton.mp hinclude]
        decide
      · cases hinclude
    · split at honly
      · rw [List.mem_singleton.mp honly]
        decide
      · cases honly
  · obtain ⟨arg, harg, hpolicy⟩ := List.mem_filterMap.mp hlibtest
    rintro rfl
    exact user_args_ask_no_default _ arg harg hpolicy

/-! ## Overrides, shard and assignments -/

/-- The test that an override is for. -/
def CgroupMemoryMaxOverride.key (candidate : CgroupMemoryMaxOverride) : String × String :=
  (candidate.target, candidate.test)

theorem resolve_override_eq_ok {resolved next : List CgroupMemoryMaxOverride} {raw : String} :
    resolveOverride resolved raw = .ok next ↔
      ∃ parsed, CgroupMemoryMaxOverride.parse raw = some parsed ∧
        parsed.key ∉ resolved.map CgroupMemoryMaxOverride.key ∧ next = resolved ++ [parsed] := by
  unfold resolveOverride
  cases hparse : CgroupMemoryMaxOverride.parse raw with
  | none =>
      refine iff_of_false (fun h => by cases h) ?_
      rintro ⟨parsed, hparsed, -⟩
      cases hparsed
  | some parsed =>
      have hany : (resolved.any fun existing =>
          existing.target == parsed.target && existing.test == parsed.test) = true ↔
          parsed.key ∈ resolved.map CgroupMemoryMaxOverride.key := by
        simp [CgroupMemoryMaxOverride.key, Prod.ext_iff]
      dsimp only
      split
      case isTrue htaken =>
        refine iff_of_false (fun h => by cases h) ?_
        rintro ⟨other, hother, hfresh, -⟩
        cases hother
        exact hfresh (hany.mp htaken)
      case isFalse hfree =>
        constructor
        · intro h
          cases h
          exact ⟨parsed, rfl, mt hany.mpr hfree, rfl⟩
        · rintro ⟨other, hother, -, rfl⟩
          cases hother
          rfl

/-- Overrides are accepted when each of them can be parsed and no two are for one test. -/
theorem exists_resolve_overrides_iff (raw : List String) :
    (∃ overrides, resolveOverrides raw = .ok overrides) ↔
      (∀ flag ∈ raw, (CgroupMemoryMaxOverride.parse flag).isSome = true) ∧
        DistinctOverrides (raw.filterMap CgroupMemoryMaxOverride.parse) := by
  have hfold : ∀ (flags : List String) (resolved : List CgroupMemoryMaxOverride),
      (∃ overrides, flags.foldlM resolveOverride resolved = .ok overrides) ↔
        (∀ flag ∈ flags, (CgroupMemoryMaxOverride.parse flag).isSome = true) ∧
          ((flags.filterMap CgroupMemoryMaxOverride.parse).map
            CgroupMemoryMaxOverride.key).Nodup ∧
          ∀ candidate ∈ flags.filterMap CgroupMemoryMaxOverride.parse,
            candidate.key ∉ resolved.map CgroupMemoryMaxOverride.key := by
    intro flags
    induction flags with
    | nil => exact fun resolved => iff_of_true ⟨resolved, rfl⟩ (by simp)
    | cons flag flags ih =>
        intro resolved
        rw [List.forall_mem_cons]
        cases hparse : CgroupMemoryMaxOverride.parse flag with
        | none =>
            refine iff_of_false ?_ fun h => by cases h.1.1
            rintro ⟨overrides, h⟩
            obtain ⟨next, hnext, -⟩ := Except.foldlM_cons_eq_ok.mp h
            obtain ⟨parsed, hparsed, -⟩ := resolve_override_eq_ok.mp hnext
            rw [hparse] at hparsed
            cases hparsed
        | some parsed =>
            rw [List.filterMap_cons_some hparse, List.map_cons, List.nodup_cons,
              List.forall_mem_cons]
            constructor
            · rintro ⟨overrides, h⟩
              obtain ⟨next, hnext, hrest⟩ := Except.foldlM_cons_eq_ok.mp h
              obtain ⟨_, hparsed, hfresh, rfl⟩ := resolve_override_eq_ok.mp hnext
              cases hparse.symm.trans hparsed
              obtain ⟨hall, hnodup, hapart⟩ := (ih _).mp ⟨overrides, hrest⟩
              refine ⟨⟨rfl, hall⟩, ⟨fun hmem => ?_, hnodup⟩, hfresh, fun candidate hmem hin => ?_⟩
              · obtain ⟨candidate, hcandidate, hkey⟩ := List.mem_map.mp hmem
                exact hapart candidate hcandidate (by simp [hkey])
              · exact hapart candidate hmem (by simpa using Or.inl (List.mem_map.mp hin))
            · rintro ⟨⟨-, hall⟩, ⟨hnew, hnodup⟩, hfresh, hapart⟩
              have hrest := (ih (resolved ++ [parsed])).mpr ⟨hall, hnodup, fun candidate hmem => ?_⟩
              · obtain ⟨overrides, hrest⟩ := hrest
                exact ⟨overrides, Except.foldlM_cons_eq_ok.mpr
                  ⟨_, resolve_override_eq_ok.mpr ⟨parsed, hparse, hfresh, rfl⟩, hrest⟩⟩
              · rw [List.map_append, List.mem_append, not_or]
                refine ⟨hapart candidate hmem, fun hin => ?_⟩
                rw [List.map_singleton, List.mem_singleton] at hin
                exact hnew (List.mem_map.mpr ⟨candidate, hmem, hin⟩)
  exact (hfold raw []).trans
    (and_congr_right fun _ => ⟨fun h => h.1, fun h => ⟨h, fun _ _ => List.not_mem_nil⟩⟩)

theorem resolve_env_eq_ok {entry name value : String} :
    resolveEnv entry = .ok (name, value) ↔
      entry = name ++ "=" ++ value ∧ '=' ∉ name.toList := by
  rw [← Text.split_once_char rfl]
  unfold resolveEnv
  cases Text.splitOnce entry "=" with
  | none => exact iff_of_false (fun h => by cases h) fun h => by cases h
  | some assigned => rw [Except.ok.injEq, Option.some.injEq]

/-- An assignment is one with an equals sign. -/
theorem exists_resolve_env_iff (entry : String) :
    (∃ assigned, resolveEnv entry = .ok assigned) ↔ '=' ∈ entry.toList := by
  have hnone : Text.splitOnce entry "=" = none ↔ '=' ∉ entry.toList := by
    have hseparator : "=".toList = ['='] := rfl
    rw [Text.splitOnce, Option.map_eq_none_iff, Text.split_first_eq_none, hseparator,
      List.singleton_infix_iff]
  unfold resolveEnv
  cases hsplit : Text.splitOnce entry "=" with
  | none =>
      refine iff_of_false ?_ (hnone.mp hsplit)
      rintro ⟨assigned, h⟩
      cases h
  | some assigned =>
      refine iff_of_true ⟨assigned, rfl⟩ ?_
      by_contra hmissing
      rw [hnone.mpr hmissing] at hsplit
      cases hsplit

/-- A declared output has a name and a directory. -/
theorem resolve_declared_output_eq_ok {entry name directory : String} :
    resolveDeclaredOutput entry = .ok (name, directory) ↔
      entry = name ++ "=" ++ directory ∧ '=' ∉ name.toList ∧ name ≠ "" ∧ directory ≠ "" := by
  rw [← and_assoc, ← Text.split_once_char rfl]
  unfold resolveDeclaredOutput
  cases Text.splitOnce entry "=" with
  | none =>
      refine iff_of_false (fun h => by cases h) ?_
      rintro ⟨h, -⟩
      cases h
  | some assigned =>
      obtain ⟨start, rest⟩ := assigned
      dsimp only
      rw [Option.some.injEq, Prod.mk.injEq]
      split
      case isTrue hempty =>
        refine iff_of_false (fun h => by cases h) ?_
        rintro ⟨⟨rfl, rfl⟩, hname, hdirectory⟩
        simp [hname, hdirectory] at hempty
      case isFalse hfull =>
        simp only [Bool.or_eq_true, String.isEmpty_iff, not_or] at hfull
        rw [Except.ok.injEq, Prod.mk.injEq]
        refine ⟨fun h => ⟨h, ?_⟩, fun h => h.1⟩
        obtain ⟨rfl, rfl⟩ := h
        exact hfull

theorem exists_resolve_shard_iff (tpx : TpxConfig) :
    (∃ shard, tpx.resolveShard = .ok shard) ↔ tpx.shardIndex < max tpx.shardCount 1 := by
  unfold TpxConfig.resolveShard
  dsimp only
  split
  case isTrue hlow =>
    refine iff_of_false (fun ⟨_, h⟩ => by cases h) (UInt16.not_lt.mpr hlow)
  case isFalse hin =>
    exact iff_of_true ⟨_, rfl⟩ (UInt16.not_le.mp hin)

/-- A value for the memory limit that can be read. -/
def EnvVar.Readable : EnvVar → Prop
  | .notPresent => True
  | .notUnicode _ => False
  | .present value => (CgroupMemoryMax.parse value).isSome = true

theorem exists_resolve_memory_max_iff (value : EnvVar) :
    (∃ limit, resolveMemoryMax value = .ok limit) ↔ value.Readable := by
  cases value with
  | notPresent => exact iff_of_true ⟨_, rfl⟩ trivial
  | notUnicode lossy => exact iff_of_false (by rintro ⟨limit, h⟩; cases h) id
  | present value =>
      simp only [resolveMemoryMax, EnvVar.Readable]
      cases CgroupMemoryMax.parse value with
      | some limit => exact iff_of_true ⟨_, rfl⟩ rfl
      | none => exact iff_of_false (by rintro ⟨limit, h⟩; cases h) (fun h => by cases h)

theorem exists_resolve_duration_db_iff (tpx : TpxConfig) :
    (∃ durationDb, tpx.resolveDurationDb = .ok durationDb) ↔
      (tpx.noDurationDb = true → tpx.durationDb = none) := by
  unfold TpxConfig.resolveDurationDb
  cases tpx.noDurationDb with
  | false => cases tpx.durationDb <;> exact iff_of_true ⟨_, rfl⟩ (fun h => by cases h)
  | true =>
      cases tpx.durationDb with
      | none => exact iff_of_true ⟨_, rfl⟩ fun _ => rfl
      | some path =>
          refine iff_of_false (by rintro ⟨durationDb, h⟩; cases h) fun h => ?_
          cases h rfl

/-! ## What is accepted -/

/-- The configuration is made of the values that the flags stand for. -/
structure Resolves (surroundings : Surroundings) (tpx : TpxConfig) (resolved : ResolvedConfig) :
    Prop where
  ignored : tpx.ignoredPolicies.foldlM resolvePolicy .excludeIgnored =
    .ok resolved.config.ignored
  listFormat : chooseValue "list-format" listFormats tpx.listFormat =
    .ok resolved.config.listFormat
  listing : ¬(resolved.config.ignored = .ignoredOnly ∧ resolved.config.listFormat = .text)
  runFormat : chooseValue "run-format" runFormats tpx.runFormat = .ok resolved.config.runFormat
  batchMode : chooseValue "batch-mode" tpx.batchModes tpx.batchMode = .ok resolved.config.batchMode
  batchFailurePolicy :
    chooseValue "batch-failure-policy" batchFailurePolicies tpx.batchFailurePolicy =
      .ok resolved.config.batchFailurePolicy
  durationDb : tpx.resolveDurationDb = .ok resolved.config.durationDb
  cgroupGranularity :
    chooseValue "cgroup-granularity" cgroupGranularities tpx.cgroupGranularity =
      .ok resolved.config.cgroupGranularity
  cgroupMemoryMax : resolveMemoryMax surroundings.cgroupMemoryMaxBytes =
    .ok resolved.config.cgroupMemoryMax
  overrides : resolveOverrides tpx.cgroupMemoryMaxOverrides =
    .ok resolved.config.cgroupMemoryMaxOverrides
  shard : tpx.resolveShard = .ok resolved.config.shard
  env : tpx.env.mapM resolveEnv = .ok resolved.config.extraEnv
  outputs : tpx.declaredOutputEnv.mapM resolveDeclaredOutput =
    .ok resolved.config.declaredOutputEnv
  direct : resolved.config.directLibtestArgs = tpx.directLibtestArgs
  extra : resolved.config.extraTestArgs = tpx.testArg
  flaky : resolved.config.flakyAttempts = (max tpx.flakyAttempts 1).toNat
  limits : resolved.limits =
    { maxInflightListings := max tpx.maxInflightListings 1
      maxInflightTestActions := max tpx.maxInflightTestActions 1
      maxInflightPerTarget := max tpx.maxInflightPerTarget 1 }

/-- The flags are accepted. -/
structure TpxConfig.Accepted (surroundings : Surroundings) (tpx : TpxConfig) : Prop where
  policies : Agree tpx.ignoredPolicies
  listFormat : tpx.listFormat ∈ ["text", "json"]
  listing : .ignoredOnly ∈ tpx.ignoredPolicies → tpx.listFormat = "json"
  runFormat : tpx.runFormat ∈ ["text", "json"]
  batchMode : tpx.batchMode ∈ ["per-test", "duration-bucketed", "fixed-chunk", "target"]
  batchFailurePolicy : tpx.batchFailurePolicy ∈ ["isolate", "fail-all"]
  durationDb : tpx.noDurationDb = true → tpx.durationDb = none
  cgroupGranularity : tpx.cgroupGranularity ∈ ["logical-test", "action"]
  cgroupMemoryMax : surroundings.cgroupMemoryMaxBytes.Readable
  overrides : ∀ flag ∈ tpx.cgroupMemoryMaxOverrides,
    (CgroupMemoryMaxOverride.parse flag).isSome = true
  distinct : DistinctOverrides
    (tpx.cgroupMemoryMaxOverrides.filterMap CgroupMemoryMaxOverride.parse)
  shard : tpx.shardIndex < max tpx.shardCount 1
  env : ∀ entry ∈ tpx.env, '=' ∈ entry.toList
  outputs : ∀ entry ∈ tpx.declaredOutputEnv, ∃ name directory : String,
    entry = name ++ "=" ++ directory ∧ '=' ∉ name.toList ∧ name ≠ "" ∧ directory ≠ ""

section Accepted

variable {surroundings : Surroundings} {outer : OuterCli} {tpx : TpxConfig}
  {resolved : ResolvedConfig}

theorem resolves_of_ok (h : resolveConfig surroundings outer tpx = .ok resolved) :
    Resolves surroundings tpx resolved := by
  unfold resolveConfig at h
  obtain ⟨ignored, hignored, h⟩ := Except.bind_eq_ok.mp h
  obtain ⟨listFormat, hlistFormat, h⟩ := Except.bind_eq_ok.mp h
  by_cases hlisting : ignored = .ignoredOnly ∧ listFormat = .text
  · rw [if_pos hlisting] at h
    cases h
  rw [if_neg hlisting] at h
  obtain ⟨runFormat, hrunFormat, h⟩ := Except.bind_eq_ok.mp h
  obtain ⟨batchMode, hbatchMode, h⟩ := Except.bind_eq_ok.mp h
  obtain ⟨batchFailurePolicy, hpolicy, h⟩ := Except.bind_eq_ok.mp h
  obtain ⟨durationDb, hdurationDb, h⟩ := Except.bind_eq_ok.mp h
  obtain ⟨cgroupGranularity, hgranularity, h⟩ := Except.bind_eq_ok.mp h
  obtain ⟨cgroupMemoryMax, hlimit, h⟩ := Except.bind_eq_ok.mp h
  obtain ⟨overrides, hoverrides, h⟩ := Except.bind_eq_ok.mp h
  obtain ⟨shard, hshard, h⟩ := Except.bind_eq_ok.mp h
  obtain ⟨extraEnv, henv, h⟩ := Except.bind_eq_ok.mp h
  obtain ⟨declaredOutputEnv, houtputs, h⟩ := Except.bind_eq_ok.mp h
  cases h
  refine ⟨hignored, hlistFormat, hlisting, hrunFormat, hbatchMode, hpolicy, hdurationDb,
    hgranularity, hlimit, ?_, hshard, henv, houtputs, rfl, rfl, rfl, rfl⟩
  cases hresolved : resolveOverrides tpx.cgroupMemoryMaxOverrides with
  | error failure => rw [hresolved] at hoverrides; cases hoverrides
  | ok found => rw [hresolved] at hoverrides; cases hoverrides; rfl

/-- The list format `json` is the one whose word is `json`. -/
theorem choose_list_format {listFormat : ListFormat}
    (h : chooseValue "list-format" listFormats tpx.listFormat = .ok listFormat) :
    listFormat = .json ↔ tpx.listFormat = "json" := by
  have hwords : tpx.listFormat ∈ ["text", "json"] := exists_choose_value_iff.mp ⟨_, h⟩
  simp only [List.mem_cons, List.not_mem_nil, or_false] at hwords
  obtain htext | hjson := hwords
  · rw [htext] at h ⊢
    cases h
    decide
  · rw [hjson] at h ⊢
    cases h
    decide

theorem accepted_of_resolves (h : Resolves surroundings tpx resolved) :
    tpx.Accepted surroundings where
  policies := ((resolve_policies (ignored_policies_ask tpx)).mp h.ignored).1
  listFormat := exists_choose_value_iff.mp ⟨_, h.listFormat⟩
  listing hmem := by
    obtain ⟨hagree, hignored⟩ := (resolve_policies (ignored_policies_ask tpx)).mp h.ignored
    cases hpolicies : tpx.ignoredPolicies with
    | nil => rw [hpolicies] at hmem; cases hmem
    | cons policy policies =>
        rw [hpolicies] at hmem hagree hignored
        have honly : resolved.config.ignored = .ignoredOnly :=
          hignored.trans (hagree policy List.mem_cons_self _ hmem)
        cases hformat : resolved.config.listFormat with
        | text => exact absurd ⟨honly, hformat⟩ h.listing
        | json => exact (choose_list_format h.listFormat).mp hformat
  runFormat := exists_choose_value_iff.mp ⟨_, h.runFormat⟩
  batchMode := exists_choose_value_iff.mp ⟨_, h.batchMode⟩
  batchFailurePolicy := exists_choose_value_iff.mp ⟨_, h.batchFailurePolicy⟩
  durationDb := (exists_resolve_duration_db_iff tpx).mp ⟨_, h.durationDb⟩
  cgroupGranularity := exists_choose_value_iff.mp ⟨_, h.cgroupGranularity⟩
  cgroupMemoryMax := (exists_resolve_memory_max_iff _).mp ⟨_, h.cgroupMemoryMax⟩
  overrides := ((exists_resolve_overrides_iff _).mp ⟨_, h.overrides⟩).1
  distinct := ((exists_resolve_overrides_iff _).mp ⟨_, h.overrides⟩).2
  shard := (exists_resolve_shard_iff tpx).mp ⟨_, h.shard⟩
  env entry hentry :=
    (exists_resolve_env_iff entry).mp (Except.exists_mapM_eq_ok_iff.mp ⟨_, h.env⟩ entry hentry)
  outputs entry hentry := by
    obtain ⟨⟨name, directory⟩, hparts⟩ :=
      Except.exists_mapM_eq_ok_iff.mp ⟨_, h.outputs⟩ entry hentry
    exact ⟨name, directory, resolve_declared_output_eq_ok.mp hparts⟩

/-- A command line is accepted exactly when every flag has one of its values, the flags do not
contradict each other and the shard is one of those there are. -/
theorem config_accepted_iff (surroundings : Surroundings) (outer : OuterCli) (tpx : TpxConfig) :
    (∃ resolved, resolveConfig surroundings outer tpx = .ok resolved) ↔
      tpx.Accepted surroundings := by
  constructor
  · rintro ⟨resolved, h⟩
    exact accepted_of_resolves (resolves_of_ok h)
  · intro h
    obtain ⟨ignored, hignored⟩ : ∃ ignored, tpx.ignoredPolicies.foldlM resolvePolicy
        .excludeIgnored = .ok ignored :=
      ⟨_, (resolve_policies (ignored_policies_ask tpx)).mpr ⟨h.policies, rfl⟩⟩
    obtain ⟨listFormat, hlistFormat⟩ : ∃ listFormat,
        chooseValue "list-format" listFormats tpx.listFormat = .ok listFormat :=
      exists_choose_value_iff.mpr h.listFormat
    obtain ⟨runFormat, hrunFormat⟩ : ∃ runFormat,
        chooseValue "run-format" runFormats tpx.runFormat = .ok runFormat :=
      exists_choose_value_iff.mpr h.runFormat
    obtain ⟨batchMode, hbatchMode⟩ : ∃ batchMode,
        chooseValue "batch-mode" tpx.batchModes tpx.batchMode = .ok batchMode :=
      exists_choose_value_iff.mpr h.batchMode
    obtain ⟨policy, hpolicy⟩ : ∃ policy,
        chooseValue "batch-failure-policy" batchFailurePolicies tpx.batchFailurePolicy =
          .ok policy :=
      exists_choose_value_iff.mpr h.batchFailurePolicy
    obtain ⟨durationDb, hdurationDb⟩ := (exists_resolve_duration_db_iff tpx).mpr h.durationDb
    obtain ⟨granularity, hgranularity⟩ : ∃ granularity,
        chooseValue "cgroup-granularity" cgroupGranularities tpx.cgroupGranularity =
          .ok granularity :=
      exists_choose_value_iff.mpr h.cgroupGranularity
    obtain ⟨limit, hlimit⟩ := (exists_resolve_memory_max_iff _).mpr h.cgroupMemoryMax
    obtain ⟨overrides, hoverrides⟩ :=
      (exists_resolve_overrides_iff _).mpr ⟨h.overrides, h.distinct⟩
    obtain ⟨shard, hshard⟩ := (exists_resolve_shard_iff tpx).mpr h.shard
    obtain ⟨extraEnv, henv⟩ : ∃ extraEnv, tpx.env.mapM resolveEnv = .ok extraEnv :=
      Except.exists_mapM_eq_ok_iff.mpr fun entry hentry =>
        (exists_resolve_env_iff entry).mpr (h.env entry hentry)
    obtain ⟨outputs, houtputs⟩ : ∃ outputs,
        tpx.declaredOutputEnv.mapM resolveDeclaredOutput = .ok outputs := by
      refine Except.exists_mapM_eq_ok_iff.mpr fun entry hentry => ?_
      obtain ⟨name, directory, hparts⟩ := h.outputs entry hentry
      exact ⟨_, resolve_declared_output_eq_ok.mpr hparts⟩
    have hlisting : ¬(ignored = .ignoredOnly ∧ listFormat = .text) := by
      rintro ⟨rfl, rfl⟩
      obtain ⟨-, hhead⟩ := (resolve_policies (ignored_policies_ask tpx)).mp hignored
      have hmem : .ignoredOnly ∈ tpx.ignoredPolicies := by
        cases hpolicies : tpx.ignoredPolicies with
        | nil => rw [hpolicies] at hhead; cases hhead
        | cons policy policies =>
            rw [hpolicies] at hhead
            rw [hhead]
            exact List.mem_cons_self
      cases (choose_list_format hlistFormat).mpr (h.listing hmem)
    unfold resolveConfig
    rw [hignored, hlistFormat, hrunFormat, hbatchMode, hpolicy, hdurationDb, hgranularity, hlimit,
      hoverrides, hshard, henv, houtputs]
    exact ⟨_, if_neg hlisting⟩

/-! ## What an accepted configuration is like -/

/-- The configuration that the rest of the runner can rely on. -/
structure ResolvedConfig.Valid (resolved : ResolvedConfig) : Prop where
  shard : resolved.config.shard.index < resolved.config.shard.count
  listings : 0 < resolved.limits.maxInflightListings
  test_actions : 0 < resolved.limits.maxInflightTestActions
  per_target : 0 < resolved.limits.maxInflightPerTarget
  report_queue : 0 < resolved.limits.maxReportQueue
  flaky_attempts : 0 < resolved.config.flakyAttempts
  overrides : DistinctOverrides resolved.config.cgroupMemoryMaxOverrides
  listing : resolved.config.ignored = .ignoredOnly → resolved.config.listFormat = .json
  policies : ∀ policy ∈ libtestUserIgnoredPolicies resolved.config.effectiveLibtestArgs,
    policy = resolved.config.ignored
  env : ∀ assigned ∈ resolved.config.extraEnv, '=' ∉ assigned.1.toList
  outputs : ∀ output ∈ resolved.config.declaredOutputEnv,
    '=' ∉ output.1.toList ∧ output.1 ≠ "" ∧ output.2 ≠ ""

/-- Every accepted command line gives a configuration whose shard exists, whose limits let
something run, whose overrides are for different tests, whose libtest arguments ask for the same
ignored tests as the configuration and whose listing can tell which tests are ignored. -/
theorem accepted_config_valid (surroundings : Surroundings) (outer : OuterCli) (tpx : TpxConfig)
    (resolved : ResolvedConfig) (h : resolveConfig surroundings outer tpx = .ok resolved) :
    resolved.Valid := by
  have hresolves := resolves_of_ok h
  obtain ⟨hagree, hignored⟩ := (resolve_policies (ignored_policies_ask tpx)).mp hresolves.ignored
  refine ⟨?_, ?_, ?_, ?_, ?_, ?_, distinct_of_resolved hresolves.overrides, fun honly => ?_,
    fun policy hpolicy => ?_, fun assigned hassigned => ?_, fun output houtput => ?_⟩
  · have hshard := hresolves.shard
    unfold TpxConfig.resolveShard at hshard
    dsimp only at hshard
    split at hshard
    · cases hshard
    case isFalse hin =>
      rw [← Except.ok.inj hshard]
      exact UInt16.not_le.mp hin
  · rw [hresolves.limits]
    exact Nat.le_max_right _ _
  · rw [hresolves.limits]
    exact Nat.le_max_right _ _
  · rw [hresolves.limits]
    exact Nat.le_max_right _ _
  · rw [hresolves.limits]
    exact Nat.zero_lt_succ _
  · rw [hresolves.flaky]
    show 0 < (if tpx.flakyAttempts ≤ 1 then 1 else tpx.flakyAttempts).toNat
    split
    · decide
    case isFalse hmore =>
      have hlt := UInt32.lt_iff_toNat_lt.mp (UInt32.not_le.mp hmore)
      exact Nat.lt_trans Nat.one_pos hlt
  · cases hformat : resolved.config.listFormat with
    | json => rfl
    | text => exact absurd ⟨honly, hformat⟩ hresolves.listing
  · have hmem : policy ∈ tpx.ignoredPolicies := by
      unfold RunnerConfig.effectiveLibtestArgs at hpolicy
      rw [hresolves.extra, hresolves.direct] at hpolicy
      exact List.mem_append_right _ hpolicy
    cases hpolicies : tpx.ignoredPolicies with
    | nil => rw [hpolicies] at hmem; cases hmem
    | cons first policies =>
        rw [hpolicies] at hmem hagree hignored
        exact (hagree policy hmem first List.mem_cons_self).trans hignored.symm
  · obtain ⟨entry, -, hentry⟩ := Except.exists_of_mem_mapM hresolves.env hassigned
    exact (resolve_env_eq_ok.mp hentry).2
  · obtain ⟨entry, -, hentry⟩ := Except.exists_of_mem_mapM hresolves.outputs houtput
    exact (resolve_declared_output_eq_ok.mp hentry).2

end Accepted

/-- Flags for the third of three shards, with the ignored tests. -/
def TpxConfig.thirdShard : TpxConfig where
  includeIgnored := true
  shardIndex := 2
  shardCount := 3
  env := ["RUST_LOG=a=b"]
  declaredOutputEnv := ["REPORT=out"]
  testArg := ["--include-ignored"]

/-- The flags for the third of three shards are accepted. -/
theorem third_shard_valid :
    ∃ resolved, resolveConfig ⟨.notPresent, ⟨none⟩⟩ {} TpxConfig.thirdShard = .ok resolved ∧
      resolved.Valid := by
  obtain ⟨resolved, h⟩ : ∃ resolved,
      resolveConfig ⟨.notPresent, ⟨none⟩⟩ {} TpxConfig.thirdShard = .ok resolved := ⟨_, rfl⟩
  exact ⟨resolved, h, accepted_config_valid _ _ _ _ h⟩

/-- Without flags the configuration is the default one. -/
example : resolveConfig ⟨.notPresent, ⟨none⟩⟩ {} {} =
    .ok ⟨RunnerConfig.withoutFlags, {}, none, ⟨none, none⟩⟩ := rfl

/-! ## Libtest options written out and read back -/

/-- The libtest options that the flags stand for. -/
def TpxConfig.directUserArgs (tpx : TpxConfig) : List UserArg :=
  let flag (isSet : Bool) (arg : UserArg) : List UserArg := if isSet then [arg] else []
  tpx.libtestFilters.map .filter ++
  (flag tpx.libtestExact .exact ++
  (tpx.libtestSkip.map .skip ++
  (flag tpx.libtestForceRunInProcess (.executionFlag "--force-run-in-process") ++
  (flag tpx.libtestExcludeShouldPanic (.excludeShouldPanic "--exclude-should-panic") ++
  (flag tpx.libtestTest (.listingAndExecutionFlag "--test") ++
  (flag tpx.libtestBench (.listingAndExecutionFlag "--bench") ++
  (flag tpx.libtestList .list ++
  (flag tpx.libtestFailFast (.unstableExecutionFlag "--fail-fast") ++
  (flag tpx.libtestHelp .help ++
  (tpx.libtestLogfile.toList.map (.executionValue "--logfile") ++
  (flag tpx.libtestNoCapture (.executionFlag "--no-capture") ++
  (tpx.libtestTestThreads.toList.map (fun _ => .dropped) ++
  (flag tpx.libtestQuiet .quiet ++
  (tpx.libtestColor.toList.map (fun _ => .dropped) ++
  (tpx.libtestFormat.toList.map .outputFormat ++
  (flag tpx.libtestShowOutput (.executionFlag "--show-output") ++
  (tpx.libtestUnstableOptions.map .unstableOption ++
  (flag tpx.libtestReportTime (.unstableExecutionFlag "--report-time") ++
  (flag tpx.libtestEnsureTime (.unstableExecutionFlag "--ensure-time") ++
  (flag tpx.libtestShuffle (.unstableExecutionFlag "--shuffle") ++
  tpx.libtestShuffleSeed.toList.map (.unstableExecutionValue "--shuffle-seed")
  ))))))))))))))))))))

/-- Whether an argument list ends between two arguments: no option waits for its value, and no
`--` makes filters of what follows. -/
def closedArgs : List String → Bool
  | [] => true
  | arg :: rest =>
      match classify arg with
      | .alone _ => closedArgs rest
      | .withValue _ =>
          match rest with
          | _ :: rest => closedArgs rest
          | [] => false
      | .filters => false

theorem user_args_flag {flag : String} {arg : UserArg} (h : classify flag = .alone arg)
    (isSet : Bool) (rest : List String) :
    userArgs (flagArg isSet flag ++ rest) =
      (if isSet then [arg] else []) ++ userArgs rest := by
  cases isSet with
  | false => rfl
  | true => simp [flagArg, userArgs, h]

theorem user_args_values {flag : String} {arg : String → UserArg}
    (h : classify flag = .withValue arg) (values rest : List String) :
    userArgs (valueArgs flag values ++ rest) = values.map arg ++ userArgs rest := by
  induction values with
  | nil => rfl
  | cons value values ih =>
      show userArgs (flag :: value :: (valueArgs flag values ++ rest)) = _
      rw [List.map_cons, List.cons_append, ← ih]
      simp [userArgs, h]

/-- The options that were written are read as what they stand for. -/
theorem user_args_direct {tpx : TpxConfig}
    (h : ∀ value ∈ tpx.libtestFilters, Text.startsWith value "-" = false) :
    userArgs tpx.directLibtestArgs = tpx.directUserArgs := by
  have hseed := user_args_values (rfl : classify "--shuffle-seed" = _)
    tpx.libtestShuffleSeed.toList []
  rw [List.append_nil] at hseed
  unfold TpxConfig.directLibtestArgs TpxConfig.directUserArgs
  rw [user_args_names h, user_args_flag (rfl : classify "--exact" = _),
    user_args_values (rfl : classify "--skip" = _),
    user_args_flag (rfl : classify "--force-run-in-process" = _),
    user_args_flag (rfl : classify "--exclude-should-panic" = _),
    user_args_flag (rfl : classify "--test" = _), user_args_flag (rfl : classify "--bench" = _),
    user_args_flag (rfl : classify "--list" = _),
    user_args_flag (rfl : classify "--fail-fast" = _),
    user_args_flag (rfl : classify "--help" = _),
    user_args_values (rfl : classify "--logfile" = _),
    user_args_flag (rfl : classify "--no-capture" = _),
    user_args_values (rfl : classify "--test-threads" = _),
    user_args_flag (rfl : classify "--quiet" = _),
    user_args_values (rfl : classify "--color" = _),
    user_args_values (rfl : classify "--format" = _),
    user_args_flag (rfl : classify "--show-output" = _),
    user_args_values (rfl : classify "-Z" = _),
    user_args_flag (rfl : classify "--report-time" = _),
    user_args_flag (rfl : classify "--ensure-time" = _),
    user_args_flag (rfl : classify "--shuffle" = _), hseed]
  simp [userArgs]

/-- What follows a closed argument list is read as if it stood alone. -/
theorem user_args_append {args : List String} (h : closedArgs args = true) (more : List String) :
    userArgs (args ++ more) = userArgs args ++ userArgs more := by
  fun_induction closedArgs args with
  | case1 => rfl
  | case2 flag rest arg hform ih => simp [userArgs, hform, ih h]
  | case3 flag arg hform value rest ih => simp [userArgs, hform, ih h]
  | case4 => cases h
  | case5 => cases h

/-- An argument list that is not closed changes the reading of an option with a value behind it. -/
theorem closed_of_user_args_append {args : List String}
    (h : userArgs (args ++ ["--skip", "slow"]) = userArgs args ++ [.skip "slow"]) :
    closedArgs args = true := by
  fun_induction closedArgs args with
  | case1 => rfl
  | case2 flag rest arg hform ih =>
      simp only [List.cons_append, userArgs, hform, List.cons.injEq, true_and] at h
      exact ih h
  | case3 flag arg hform value rest ih =>
      simp only [List.cons_append, userArgs, hform, List.cons.injEq, true_and] at h
      exact ih h
  | case4 flag arg hform =>
      -- The option takes `--skip` for its value, so there is one argument too many.
      simp only [List.cons_append, List.nil_append, userArgs, hform] at h
      have hlength := congrArg List.length h
      simp [classify_positional (show Text.startsWith "slow" "-" = false by decide)] at hlength
  | case5 flag rest hform =>
      simp only [List.cons_append, userArgs, hform, List.map_append] at h
      have hlength := congrArg List.length (List.append_cancel_left h)
      simp at hlength

/-- Whatever libtest options clap has taken out of the command line, `LibtestUserArgs` reads the
same ones in what is made of them again, provided that no filter looks like an option; and behind
`--test-arg` arguments this is so exactly when those are closed. -/
theorem libtest_options_reread_iff (args : List String) :
    (∀ tpx : TpxConfig, tpx.testArg = args →
        (∀ value ∈ tpx.libtestFilters, Text.startsWith value "-" = false) →
        userArgs tpx.effectiveLibtestArgs = userArgs args ++ tpx.directUserArgs) ↔
      closedArgs args = true := by
  constructor
  · intro h
    exact closed_of_user_args_append
      (h { testArg := args, libtestSkip := ["slow"] } rfl fun _ hmem => by cases hmem)
  · rintro hclosed tpx rfl hfilters
    rw [TpxConfig.effectiveLibtestArgs, user_args_append hclosed, user_args_direct hfilters]

end Quokka
