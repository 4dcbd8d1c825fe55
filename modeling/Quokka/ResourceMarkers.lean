import Quokka.Execution
import Quokka.Library.Lines
import Quokka.Library.LossyUtf8

/-!
# Resource markers

The marker lines that `resource_supervisor.sh` echoes to the action's error output, and how
`parse_resource_failures` finds them there. A marker is found exactly where it starts a line: the
script echoes it behind whatever the test process wrote last, so output without a final line feed
hides it. `markers_found_iff` says so for any number of markers between any outputs that do not
hold the token.
-/

namespace Quokka

/-! ## The lines of the supervisor -/

/-- The counters of a `memory.events` file before and after a run. -/
structure OomCounters where
  oomBefore : Nat
  oomAfter : Nat
  oomKillBefore : Nat
  oomKillAfter : Nat
  deriving DecidableEq

/-- What the supervisor reports. A setup failure quotes paths, which are bytes on one line. -/
inductive ResourceMarker where
  | logicalTimeout (logicalIndex : UInt64) (timeoutSeconds : Nat)
  | logicalOom (logicalIndex : UInt64) (memoryMax : CgroupMemoryMax) (counters : OomCounters)
  | actionTimeout (timeoutSeconds : Nat)
  | actionOom (memoryMax : CgroupMemoryMax) (counters : OomCounters)
  | setup (message : {message : List UInt8 // 0x0A ∉ message})

/-- The end of an out-of-memory marker. -/
def oomText (memoryMax : CgroupMemoryMax) (counters : OomCounters) : String :=
  "memory.max=" ++ memoryMax.shellValue ++
    " oom=" ++ toString counters.oomBefore ++ "->" ++ toString counters.oomAfter ++
    " oom_kill=" ++ toString counters.oomKillBefore ++ "->" ++ toString counters.oomKillAfter

namespace ResourceMarker

/-- What a marker says after its token, up to the message of a setup failure. -/
def text : ResourceMarker → String
  | .logicalTimeout logicalIndex timeoutSeconds =>
      "logical test timeout: index=" ++ toString logicalIndex.toNat ++ " seconds=" ++
        toString timeoutSeconds
  | .logicalOom logicalIndex memoryMax counters =>
      "logical test cgroup OOM: index=" ++ toString logicalIndex.toNat ++ " " ++
        oomText memoryMax counters
  | .actionTimeout timeoutSeconds =>
      "test action timeout: seconds=" ++ toString timeoutSeconds
  | .actionOom memoryMax counters => "test action cgroup OOM: " ++ oomText memoryMax counters
  | .setup _ => "cgroup setup failure: "

/-- The message of a setup failure. -/
def message : ResourceMarker → List UInt8
  | .setup message => message.val
  | _ => []

/-- The line that the script echoes. -/
def line (token : ResourceMarkerToken) (marker : ResourceMarker) : List UInt8 :=
  Text.bytes ("quokka resource " ++ token.text ++ " ") ++
    (Text.bytes marker.text ++ (marker.message ++ [0x0A]))

/-- The failure that a marker reports; its details are the marker without the token. -/
def failure (marker : ResourceMarker) : ResourceFailure :=
  match marker with
  | .logicalTimeout logicalIndex _ =>
      .logicalTimeout logicalIndex.toNat ("quokka " ++ marker.text)
  | .logicalOom logicalIndex _ _ => .logicalOom logicalIndex.toNat ("quokka " ++ marker.text)
  | .actionTimeout _ => .actionTimeout ("quokka " ++ marker.text)
  | .actionOom _ _ => .actionOom ("quokka " ++ marker.text)
  | .setup message =>
      .setup ("quokka " ++
        (marker.text ++ String.ofList (Text.chomp (Text.decoded message.val))))

end ResourceMarker

/-- A marker and what the test process wrote before it. -/
structure SupervisorReport where
  output : List UInt8
  marker : ResourceMarker

/-- The error output of an action: outputs of test processes, each with a marker behind it, and
whatever follows the last marker. -/
def supervisedStderr (token : ResourceMarkerToken) (reports : List SupervisorReport)
    (following : List UInt8) : List UInt8 :=
  reports.flatMap (fun report => report.output ++ report.marker.line token) ++ following

/-- Whether what comes next starts a line. -/
def endsLine (output : List UInt8) : Bool :=
  output.getLast?.all (· == 0x0A)

/-! ## Printable text -/

/-- A printable ASCII character. -/
def IsPrintable (c : Char) : Prop :=
  32 ≤ c.toNat ∧ c.toNat < 127

instance (c : Char) : Decidable (IsPrintable c) :=
  inferInstanceAs (Decidable (_ ∧ _))

theorem IsPrintable.isAscii {c : Char} (h : IsPrintable c) : Text.IsAscii c := by
  obtain ⟨hlow, hhigh⟩ := h
  exact ⟨by omega, by omega⟩

/-- Text of printable characters. -/
def Printable (text : String) : Prop :=
  ∀ c ∈ text.toList, IsPrintable c

instance (text : String) : Decidable (Printable text) :=
  List.decidableBAll _ _

theorem Printable.append {first second : String} (hfirst : Printable first)
    (hsecond : Printable second) : Printable (first ++ second) := by
  intro c hc
  rw [String.toList_append] at hc
  exact (List.mem_append.mp hc).elim (hfirst c) (hsecond c)

theorem printable_digits (n : Nat) : Printable (toString n) := by
  intro c hc
  obtain ⟨hlow, hhigh⟩ := Text.digit_bounds n c hc
  exact ⟨by omega, by omega⟩

theorem printable_shell_value (limit : CgroupMemoryMax) : Printable limit.shellValue := by
  cases limit with
  | bytes limit => exact printable_digits _
  | unlimited => exact (by decide : Printable "max")

theorem printable_oom_text (memoryMax : CgroupMemoryMax) (counters : OomCounters) :
    Printable (oomText memoryMax counters) := by
  have hbefore := ((show Printable "memory.max=" by decide).append
    (printable_shell_value memoryMax)).append (show Printable " oom=" by decide)
  have hoom := ((hbefore.append (printable_digits counters.oomBefore)).append
    (show Printable "->" by decide)).append (printable_digits counters.oomAfter)
  exact (((hoom.append (show Printable " oom_kill=" by decide)).append
    (printable_digits counters.oomKillBefore)).append (show Printable "->" by decide)).append
    (printable_digits counters.oomKillAfter)

theorem printable_marker_text (marker : ResourceMarker) : Printable marker.text := by
  cases marker with
  | logicalTimeout logicalIndex timeoutSeconds =>
      exact (((show Printable "logical test timeout: index=" by decide).append
        (printable_digits _)).append (show Printable " seconds=" by decide)).append
        (printable_digits _)
  | logicalOom logicalIndex memoryMax counters =>
      exact (((show Printable "logical test cgroup OOM: index=" by decide).append
        (printable_digits _)).append (show Printable " " by decide)).append
        (printable_oom_text memoryMax counters)
  | actionTimeout timeoutSeconds =>
      exact (show Printable "test action timeout: seconds=" by decide).append
        (printable_digits _)
  | actionOom memoryMax counters =>
      exact (show Printable "test action cgroup OOM: " by decide).append
        (printable_oom_text memoryMax counters)
  | setup message => exact (show Printable "cgroup setup failure: " by decide)

theorem Printable.ascii {text : String} (h : Printable text) :
    ∀ c ∈ text.toList, Text.IsAscii c :=
  fun c hc => (h c hc).isAscii

/-- Printable text has no line feed and no carriage return. -/
theorem Printable.one_line {text : String} (h : Printable text) :
    '\n' ∉ text.toList ∧ '\r' ∉ text.toList := by
  constructor <;>
  · intro hmem
    have hlow := (h _ hmem).1
    revert hlow
    decide

/-! ## Tokens -/

/-- A token cannot be part of two overlapping occurrences of a marker's beginning. -/
structure TokenText (token : ResourceMarkerToken) : Prop where
  printable : Printable token.text
  no_q : 'q' ∉ token.text.toList

theorem hex_digit_of_mem {n : Nat} {c : Char} (h : c ∈ Nat.toDigits 16 n) :
    c ∈ "0123456789abcdef".toList := by
  induction n using Nat.strongRecOn with
  | ind n ih =>
      have hdigit : ∀ d < 16, d.digitChar ∈ "0123456789abcdef".toList := by decide
      rw [Nat.toDigits_eq_if (by decide)] at h
      split at h
      · rename_i hlt
        obtain rfl := List.mem_singleton.mp h
        exact hdigit n hlt
      · rcases List.mem_append.mp h with h | h
        · exact ih (n / 16) (by omega) h
        · obtain rfl := List.mem_singleton.mp h
          exact hdigit (n % 16) (by omega)

/-- The token of an action is hexadecimal. -/
theorem token_text (domain : String) (fields : List String) :
    TokenText (ResourceMarkerToken.fromStableFields domain fields) := by
  have hdigits : ∀ c ∈ (ResourceMarkerToken.fromStableFields domain fields).text.toList,
      c ∈ "0123456789abcdef".toList := by
    intro c hc
    simp only [ResourceMarkerToken.fromStableFields, hex16, String.toList_ofList,
      List.mem_append] at hc
    rcases hc with hzero | hdigit
    · obtain rfl := (List.mem_replicate.mp hzero).2
      decide
    · exact hex_digit_of_mem hdigit
  have hprintable : Printable "0123456789abcdef" := by decide
  exact ⟨fun c hc => hprintable c (hdigits c hc),
    fun hq => absurd (hdigits 'q' hq) (by decide)⟩

/-! ## Reading a marker -/

/-- Decimal digits are read as their number. -/
theorem parse_unsigned_digits {bound n : Nat} (h : n < bound) :
    parseUnsigned bound (toString n) = some n := by
  have hlist : (toString n).toList = Nat.toDigits 10 n := Nat.toList_repr
  have hdigits : ∀ c ∈ Nat.toDigits 10 n, c.isDigit = true :=
    fun c hc => Nat.isDigit_of_mem_toDigits (by decide) (by decide) hc
  have hvalue :
      (Nat.toDigits 10 n).foldl (fun acc c => acc * 10 + (c.toNat - '0'.toNat)) 0 = n := by
    have hread := @Nat.ofDigitChars_ten_toDigits n
    rw [Nat.ofDigitChars_eq_foldl] at hread
    simpa only [Nat.mul_comm] using hread
  unfold parseUnsigned
  rw [hlist]
  -- The first digit is no plus sign.
  cases hchars : Nat.toDigits 10 n with
  | nil => exact absurd hchars Nat.toDigits_ne_nil
  | cons c chars =>
      rw [hchars] at hdigits hvalue
      have hplus : c ≠ '+' := by
        intro hc
        have hdigit := hdigits c List.mem_cons_self
        rw [hc] at hdigit
        cases hdigit
      have hall : (c :: chars).all Char.isDigit = true := List.all_eq_true.mpr hdigits
      split
      · rename_i heq
        exact absurd (List.cons.inj heq).1 hplus
      · simp only [List.isEmpty_cons, hall, Bool.not_true, Bool.or_false, Bool.false_eq_true,
          if_false, hvalue, if_pos h]

/-- A visible ASCII character is no whitespace. -/
theorem not_whitespace {c : Char} (h : 33 ≤ c.toNat ∧ c.toNat < 127) :
    Text.isWhitespace c = false := by
  simp only [Text.isWhitespace, Bool.or_eq_false_iff, Bool.and_eq_false_iff,
    decide_eq_false_iff_not, beq_eq_false_iff_ne]
  omega

/-- The index of a logical marker is its first field. -/
theorem find_index (n : Nat) (fields : String) :
    (Text.splitWhitespace (" index=" ++ toString n ++ " " ++ fields)).findSome?
      (fun token => Text.stripPrefix token "index=") = some (toString n) := by
  have hword : ∀ c ∈ "index=".toList ++ (toString n).toList, Text.isWhitespace c = false := by
    intro c hc
    rcases List.mem_append.mp hc with hc | hc
    · have hname : "index=".toList.all (fun c => !Text.isWhitespace c) = true := by decide
      simpa using List.all_eq_true.mp hname c hc
    · obtain ⟨hlow, hhigh⟩ := Text.digit_bounds n c hc
      exact not_whitespace ⟨by omega, by omega⟩
  have hchars : (" index=" ++ toString n ++ " " ++ fields).toList =
      [] ++ ' ' :: (("index=".toList ++ (toString n).toList) ++ ' ' :: fields.toList) := by
    simp [String.toList_append]
  have hpieces :
      Text.pieces Text.isWhitespace [] (" index=" ++ toString n ++ " " ++ fields).toList =
      [] :: ("index=".toList ++ (toString n).toList) ::
        Text.pieces Text.isWhitespace [] fields.toList := by
    rw [hchars, Text.pieces_append (by simp) (by decide), Text.pieces_append hword (by decide)]
    rfl
  have hstrip : Text.stripPrefix (String.ofList ("index=".toList ++ (toString n).toList))
      "index=" = some (toString n) := by
    rw [Text.strip_prefix_eq_some]
    exact String.toList_inj.mp (by simp)
  have hnonempty : ("index=".toList ++ (toString n).toList).isEmpty = false := rfl
  rw [Text.splitWhitespace, hpieces]
  simp only [List.filter_cons, List.isEmpty_nil, hnonempty, Bool.not_true, Bool.not_false,
    Bool.false_eq_true, if_false, if_true, List.map_cons, List.findSome?_cons, hstrip]

/-- A logical marker has its index. -/
theorem parse_logical_failure (index : UInt64) (fields line : String) (timeout : Bool) :
    parseLogicalFailure (" index=" ++ toString index.toNat ++ " " ++ fields) line timeout =
      if timeout then .logicalTimeout index.toNat ("quokka " ++ line)
      else .logicalOom index.toNat ("quokka " ++ line) := by
  unfold parseLogicalFailure
  rw [find_index]
  simp only [parse_unsigned_digits index.toNat_lt]

/-- What tells the marker lines apart. -/
def markerHeads : List String :=
  ["logical test timeout:", "logical test cgroup OOM:", "test action timeout: ",
    "test action cgroup OOM: ", "cgroup setup failure: "]

theorem marker_heads_differ : ∀ head ∈ markerHeads, ∀ other ∈ markerHeads, other ≠ head →
    ¬ other.toList <+: head.toList := by
  decide

theorem strip_head (head fields : String) :
    Text.stripPrefix (head ++ fields) head = some fields :=
  Text.strip_prefix_eq_some.mpr rfl

theorem strip_other_head {head other : String} (hhead : head ∈ markerHeads)
    (hother : other ∈ markerHeads) (hne : other ≠ head) (fields : String) :
    Text.stripPrefix (head ++ fields) other = none :=
  Text.strip_prefix_other fields
    ⟨marker_heads_differ head hhead other hother hne,
      marker_heads_differ other hother head hhead hne.symm⟩

theorem logical_timeout_text (logicalIndex : UInt64) (timeoutSeconds : Nat) :
    ResourceMarker.text (.logicalTimeout logicalIndex timeoutSeconds) =
      "logical test timeout:" ++ (" index=" ++ toString logicalIndex.toNat ++ " " ++
        ("seconds=" ++ toString timeoutSeconds)) := by
  have hhead : "logical test timeout: index=" = "logical test timeout:" ++ " index=" := by simp
  have hfield : " seconds=" = " " ++ "seconds=" := by simp
  unfold ResourceMarker.text
  rw [hhead, hfield]
  simp only [String.append_assoc]

theorem logical_oom_text (logicalIndex : UInt64) (memoryMax : CgroupMemoryMax)
    (counters : OomCounters) :
    ResourceMarker.text (.logicalOom logicalIndex memoryMax counters) =
      "logical test cgroup OOM:" ++ (" index=" ++ toString logicalIndex.toNat ++ " " ++
        oomText memoryMax counters) := by
  have hhead : "logical test cgroup OOM: index=" = "logical test cgroup OOM:" ++ " index=" := by
    simp
  unfold ResourceMarker.text
  rw [hhead]
  simp only [String.append_assoc]

theorem action_timeout_text (timeoutSeconds : Nat) :
    ResourceMarker.text (.actionTimeout timeoutSeconds) =
      "test action timeout: " ++ ("seconds=" ++ toString timeoutSeconds) := by
  have hhead : "test action timeout: seconds=" = "test action timeout: " ++ "seconds=" := by simp
  show "test action timeout: seconds=" ++ toString timeoutSeconds = _
  rw [hhead, String.append_assoc]

/-- A marker behind the beginning of its line is read as its failure. -/
theorem parse_marker_line (linePrefix : String) (marker : ResourceMarker) :
    parseMarkerLine linePrefix (linePrefix ++ (marker.text ++
      String.ofList (Text.chomp (Text.decoded marker.message)))) = some marker.failure := by
  have hnone : ∀ marker : ResourceMarker, marker.message = [] → ∀ text : String,
      text ++ String.ofList (Text.chomp (Text.decoded marker.message)) = text := by
    intro marker hmessage text
    rw [hmessage]
    exact String.append_empty
  unfold parseMarkerLine
  rw [strip_head]
  -- The patterns are tried in the order of `markerHeads`.
  cases marker with
  | logicalTimeout logicalIndex timeoutSeconds =>
      show _ = some (ResourceFailure.logicalTimeout logicalIndex.toNat
        ("quokka " ++ ResourceMarker.text (.logicalTimeout logicalIndex timeoutSeconds)))
      rw [hnone _ rfl, logical_timeout_text]
      simp only [Option.bind_eq_bind, Option.bind_some, strip_head, parse_logical_failure, if_true]
  | logicalOom logicalIndex memoryMax counters =>
      show _ = some (ResourceFailure.logicalOom logicalIndex.toNat
        ("quokka " ++ ResourceMarker.text (.logicalOom logicalIndex memoryMax counters)))
      rw [hnone _ rfl, logical_oom_text]
      have hother := @strip_other_head "logical test cgroup OOM:" "logical test timeout:"
        (by decide) (by decide) (by decide)
      simp only [Option.bind_eq_bind, Option.bind_some, hother, strip_head, parse_logical_failure,
        Bool.false_eq_true, if_false]
  | actionTimeout timeoutSeconds =>
      show _ = some (ResourceFailure.actionTimeout
        ("quokka " ++ ResourceMarker.text (.actionTimeout timeoutSeconds)))
      rw [hnone _ rfl, action_timeout_text]
      have hother : ∀ other ∈ markerHeads, other ≠ "test action timeout: " → ∀ fields,
          Text.stripPrefix ("test action timeout: " ++ fields) other = none :=
        fun other hmem hne => strip_other_head (by decide) hmem hne
      simp only [Option.bind_eq_bind, Option.bind_some, Text.startsWith, strip_head,
        hother "logical test timeout:" (by decide) (by decide),
        hother "logical test cgroup OOM:" (by decide) (by decide), Option.isSome_some, if_true]
  | actionOom memoryMax counters =>
      show _ = some (ResourceFailure.actionOom
        ("quokka " ++ ("test action cgroup OOM: " ++ oomText memoryMax counters)))
      have htext : ResourceMarker.text (.actionOom memoryMax counters) =
          "test action cgroup OOM: " ++ oomText memoryMax counters := rfl
      rw [hnone _ rfl, htext]
      have hother : ∀ other ∈ markerHeads, other ≠ "test action cgroup OOM: " → ∀ fields,
          Text.stripPrefix ("test action cgroup OOM: " ++ fields) other = none :=
        fun other hmem hne => strip_other_head (by decide) hmem hne
      simp only [Option.bind_eq_bind, Option.bind_some, Text.startsWith, strip_head,
        hother "logical test timeout:" (by decide) (by decide),
        hother "logical test cgroup OOM:" (by decide) (by decide),
        hother "test action timeout: " (by decide) (by decide), Option.isSome_none,
        Option.isSome_some, Bool.false_eq_true, if_false, if_true]
  | setup message =>
      show _ = some (ResourceFailure.setup ("quokka " ++ ("cgroup setup failure: " ++
        String.ofList (Text.chomp (Text.decoded message.val)))))
      have htext : ResourceMarker.text (.setup message) = "cgroup setup failure: " := rfl
      have hmessage : ResourceMarker.message (.setup message) = message.val := rfl
      rw [htext, hmessage]
      have hother : ∀ other ∈ markerHeads, other ≠ "cgroup setup failure: " → ∀ fields,
          Text.stripPrefix ("cgroup setup failure: " ++ fields) other = none :=
        fun other hmem hne => strip_other_head (by decide) hmem hne
      simp only [Option.bind_eq_bind, Option.bind_some, Text.startsWith, strip_head,
        hother "logical test timeout:" (by decide) (by decide),
        hother "logical test cgroup OOM:" (by decide) (by decide),
        hother "test action timeout: " (by decide) (by decide),
        hother "test action cgroup OOM: " (by decide) (by decide), Option.isSome_none,
        Option.isSome_some, Bool.false_eq_true, if_false, if_true]

/-! ## Finding the markers -/

/-- What each line of an error output contributes. -/
def lineFailure (token : ResourceMarkerToken) (line : List Char) : Option ResourceFailure :=
  parseMarkerLine ("quokka resource " ++ token.text ++ " ") (String.ofList line)

theorem parse_resource_failures_eq (stderr : List UInt8) (token : ResourceMarkerToken) :
    parseResourceFailures stderr token =
      (Text.lineChars [] (Text.decoded stderr)).filterMap (lineFailure token) := by
  unfold parseResourceFailures Text.lines
  rw [List.filterMap_map]
  show List.filterMap _ (Text.lineChars [] (String.ofList (Text.decoded stderr)).toList) = _
  rw [String.toList_ofList]
  rfl

/-- A line without the token reports nothing. -/
theorem line_failure_none {token : ResourceMarkerToken} {line : List Char}
    (h : ¬ token.text.toList <:+: line) : lineFailure token line = none := by
  unfold lineFailure parseMarkerLine
  cases hstrip : Text.stripPrefix (String.ofList line)
      ("quokka resource " ++ token.text ++ " ") with
  | none => rfl
  | some rest =>
      rw [Text.strip_prefix_eq_some] at hstrip
      have hline : line = "quokka resource ".toList ++ token.text.toList ++
          (" ".toList ++ rest.toList) := by
        have hchars := congrArg String.toList hstrip
        rw [String.toList_ofList] at hchars
        simpa [String.toList_append] using hchars
      exact absurd ⟨_, _, hline.symm⟩ h

/-- Output that does not hold the token's bytes does not hold its text. -/
theorem token_not_decoded {token : ResourceMarkerToken} (htoken : TokenText token)
    {output : List UInt8} (h : ¬ Text.bytes token.text <:+: output) :
    ¬ token.text.toList <:+: Text.decoded output := by
  rintro ⟨before, after, hdecoded⟩
  have hascii := htoken.printable.ascii
  obtain ⟨start, tail, hbytes, _⟩ :=
    Text.bytes_of_decoded (hdecoded.symm.trans (List.append_assoc ..)) hascii
  refine h ⟨start, tail, ?_⟩
  rw [Text.bytes_ascii hascii, hbytes, List.append_assoc]

/-- Whether a line feed is the last thing that is read says whether it was the last byte. -/
theorem ends_line_iff {output : List UInt8} {full line : List Char}
    (hdecoded : Text.decoded output = full ++ line) (hline : '\n' ∉ line)
    (hfull : full = [] ∨ ∃ body, full = body ++ ['\n']) : endsLine output = true ↔ line = [] := by
  have hnewline : ∀ c ∈ ['\n'], Text.IsAscii c := by
    intro c hc
    obtain rfl := List.mem_singleton.mp hc
    exact ⟨by decide, by decide⟩
  constructor
  · intro hends
    rcases List.eq_nil_or_concat output with rfl | ⟨start, last, rfl⟩
    · exact (List.append_eq_nil_iff.mp hdecoded.symm).2
    · have hlast : last = 0x0A := by simpa [endsLine] using hends
      subst hlast
      have happend : Text.decoded (start ++ [0x0A]) = Text.decoded start ++ ['\n'] :=
        Text.decoded_append (by decide) start []
      rw [List.concat_eq_append, happend] at hdecoded
      -- The line feed at the end is not in the unfinished line.
      rcases List.eq_nil_or_concat line with rfl | ⟨before, c, rfl⟩
      · rfl
      · have hc : c = '\n' := by
          rw [List.concat_eq_append, ← List.append_assoc] at hdecoded
          exact (List.append_inj' hdecoded rfl).2.symm |> List.singleton_inj.mp
        exact absurd (by simp [hc]) hline
  · rintro rfl
    rw [List.append_nil] at hdecoded
    rcases hfull with rfl | ⟨body, rfl⟩
    · cases output with
      | nil => rfl
      | cons first rest =>
          rw [Text.decoded_step] at hdecoded
          cases hdecoded
    · have hend : Text.decoded output = body ++ (['\n'] ++ []) := hdecoded
      obtain ⟨start, tail, rfl, htail⟩ := Text.bytes_of_decoded hend hnewline
      cases tail with
      | nil => simp [endsLine, Text.asciiByte]
      | cons first rest =>
          rw [Text.decoded_step] at htail
          cases htail

/-- Behind other text on its line, a marker is not read. -/
theorem hidden_marker {token : ResourceMarkerToken} (htoken : TokenText token)
    {line : List Char} (hline : line ≠ []) (hno : ¬ token.text.toList <:+: line)
    (content : List Char) :
    lineFailure token (line ++ (("quokka resource " ++ token.text ++ " ").toList ++ content)) =
      none := by
  let start := "quokka resource " ++ token.text ++ " "
  have hstart : start.toList = 'q' :: ("uokka resource ".toList ++ token.text.toList ++ [' ']) := by
    show ("quokka resource " ++ token.text ++ " ").toList = _
    rw [String.toList_append, String.toList_append]
    rfl
  have hno_q : 'q' ∉ "uokka resource ".toList ++ token.text.toList ++ [' '] := by
    intro hq
    rcases List.mem_append.mp hq with hq | hq
    · rcases List.mem_append.mp hq with hq | hq
      · revert hq
        decide
      · exact htoken.no_q hq
    · revert hq
      decide
  unfold lineFailure parseMarkerLine
  cases hstrip : Text.stripPrefix (String.ofList (line ++ (start.toList ++ content))) start with
  | none => rfl
  | some rest =>
      exfalso
      rw [Text.strip_prefix_eq_some] at hstrip
      have hchars := congrArg String.toList hstrip
      have hright : (start ++ rest).toList = start.toList ++ rest.toList := String.toList_append
      rw [String.toList_ofList, hright] at hchars
      -- Either the line starts with the marker's beginning, or that overlaps with itself.
      rcases List.append_eq_append_iff.mp hchars with ⟨overlap, hoverlap, hrest⟩ | ⟨left, hleft, _⟩
      · cases overlap with
        | nil =>
            rw [List.append_nil] at hoverlap
            refine hno ⟨"quokka resource ".toList, [' '], ?_⟩
            rw [← hoverlap]
            show _ = ("quokka resource " ++ token.text ++ " ").toList
            rw [String.toList_append, String.toList_append]
            rfl
        | cons c overlap =>
            have hc : c = 'q' := by
              rw [hstart] at hrest
              exact (List.cons.inj hrest).1.symm
            cases line with
            | nil => exact hline rfl
            | cons first line =>
                rw [hstart, hc] at hoverlap
                exact hno_q (by rw [(List.cons.inj hoverlap).2]; simp)
      · refine hno ⟨"quokka resource ".toList, [' '] ++ left, ?_⟩
        rw [hleft]
        show _ = ("quokka resource " ++ token.text ++ " ").toList ++ left
        rw [String.toList_append, String.toList_append]
        simp

/-- A marker's line is read behind what is on the line before it, and what follows it is read on
its own. -/
theorem decoded_report {token : ResourceMarkerToken} (htoken : TokenText token)
    (output : List UInt8) (marker : ResourceMarker) (rest : List UInt8) :
    Text.decoded (output ++ marker.line token ++ rest) =
      Text.decoded output ++ (("quokka resource " ++ token.text ++ " ").toList ++
        (marker.text.toList ++ (Text.decoded marker.message ++ '\n' :: Text.decoded rest))) := by
  have hstart : ∀ c ∈ ("quokka resource " ++ token.text ++ " ").toList, Text.IsAscii c :=
    (((show Printable "quokka resource " by decide).append htoken.printable).append
      (show Printable " " by decide)).ascii
  have htext := (printable_marker_text marker).ascii
  -- The line begins with an ASCII byte, so nothing of the output before it runs into it.
  obtain ⟨first, tail, hfirst, hlt⟩ : ∃ first tail,
      marker.line token ++ rest = first :: tail ∧ first < 0x80 := by
    rw [ResourceMarker.line, Text.bytes_ascii hstart, String.toList_append, String.toList_append]
    exact ⟨Text.asciiByte 'q', _, rfl, by decide⟩
  have houtput : Text.decoded (output ++ marker.line token ++ rest) =
      Text.decoded output ++ Text.decoded (marker.line token ++ rest) := by
    rw [List.append_assoc, hfirst, Text.decoded_append hlt]
  have hmessage : Text.decoded (marker.message ++ 0x0A :: rest) =
      Text.decoded marker.message ++ '\n' :: Text.decoded rest := by
    rw [Text.decoded_append (by decide), Text.decoded_ascii (by decide)]
    rfl
  rw [houtput, ResourceMarker.line, Text.bytes_ascii hstart, Text.bytes_ascii htext]
  simp only [List.append_assoc, List.singleton_append]
  rw [Text.decoded_ascii_bytes hstart, Text.decoded_ascii_bytes htext, hmessage]

/-- The message of a setup failure is on one line. -/
theorem message_one_line (marker : ResourceMarker) : '\n' ∉ Text.decoded marker.message := by
  intro hmem
  obtain ⟨before, after, hsplit⟩ := List.append_of_mem hmem
  have hnewline : ∀ c ∈ ['\n'], Text.IsAscii c := by
    intro c hc
    obtain rfl := List.mem_singleton.mp hc
    exact ⟨by decide, by decide⟩
  have hdecoded : Text.decoded marker.message = before ++ (['\n'] ++ after) := hsplit
  obtain ⟨start, tail, hbytes, _⟩ := Text.bytes_of_decoded hdecoded hnewline
  have hbyte : (0x0A : UInt8) ∈ marker.message := by
    rw [hbytes]
    simp [Text.asciiByte]
  cases marker with
  | setup message => exact message.property hbyte
  | _ => cases hbyte

/-- What a marker's line begins with. -/
def markerStart (token : ResourceMarkerToken) : String :=
  "quokka resource " ++ token.text ++ " "

theorem printable_marker_start {token : ResourceMarkerToken} (htoken : TokenText token) :
    Printable (markerStart token) :=
  ((show Printable "quokka resource " by decide).append htoken.printable).append
    (show Printable " " by decide)

/-- Only the message of a marker may end with a carriage return. -/
theorem chomp_marker_line {token : ResourceMarkerToken} (htoken : TokenText token)
    (line : List Char) (marker : ResourceMarker) :
    Text.chomp (line ++ ((markerStart token).toList ++
        (marker.text.toList ++ Text.decoded marker.message))) =
      line ++ ((markerStart token).toList ++
        (marker.text.toList ++ Text.chomp (Text.decoded marker.message))) := by
  have hstart := printable_marker_start htoken
  have hlast : (line ++ (markerStart token ++ marker.text).toList).getLast? ≠ some '\r' := by
    intro hlast
    rw [List.getLast?_append] at hlast
    cases hend : (markerStart token ++ marker.text).toList.getLast? with
    | none =>
        rw [List.getLast?_eq_none_iff, String.toList_append] at hend
        have hnil := (List.append_eq_nil_iff.mp hend).1
        exact absurd hnil (by simp [markerStart, String.toList_append])
    | some c =>
        rw [hend] at hlast
        obtain rfl : c = '\r' := Option.some.inj hlast
        exact (hstart.append (printable_marker_text marker)).one_line.2 (List.mem_of_getLast? hend)
  have happend := Text.chomp_append hlast (Text.decoded marker.message)
  rw [String.toList_append] at happend
  simpa only [List.append_assoc] using happend

/-- A marker is read where its line has nothing else before it. -/
theorem line_failure_marker {token : ResourceMarkerToken} (htoken : TokenText token)
    {line : List Char} (hno : ¬ token.text.toList <:+: line) (marker : ResourceMarker) :
    lineFailure token (line ++ ((markerStart token).toList ++ (marker.text.toList ++
        Text.chomp (Text.decoded marker.message)))) =
      if line = [] then some marker.failure else none := by
  by_cases hempty : line = []
  · rw [if_pos hempty, hempty, List.nil_append]
    have hstring : String.ofList ((markerStart token).toList ++ (marker.text.toList ++
        Text.chomp (Text.decoded marker.message))) = markerStart token ++ (marker.text ++
          String.ofList (Text.chomp (Text.decoded marker.message))) :=
      String.toList_inj.mp (by simp [String.toList_append])
    rw [lineFailure, hstring]
    exact parse_marker_line (markerStart token) marker
  · rw [if_neg hempty]
    exact hidden_marker htoken hempty hno _

/-- A marker is read exactly where it starts a line, and what follows it is read on its own. -/
theorem parse_report {token : ResourceMarkerToken} (htoken : TokenText token)
    {output : List UInt8} (h : ¬ Text.bytes token.text <:+: output) (marker : ResourceMarker)
    (rest : List UInt8) :
    parseResourceFailures (output ++ marker.line token ++ rest) token =
      (if endsLine output then [marker.failure] else []) ++ parseResourceFailures rest token := by
  obtain ⟨full, line, hdecoded, hline, hfull⟩ := Text.exists_unfinished_line (Text.decoded output)
  have hends := ends_line_iff hdecoded hline hfull
  have hno := token_not_decoded htoken h
  rw [hdecoded] at hno
  -- The marker's line, with what the output left on it.
  let content := (markerStart token).toList ++
    (marker.text.toList ++ Text.decoded marker.message)
  have hcontent : '\n' ∉ line ++ content := by
    simp only [List.mem_append, content, not_or]
    exact ⟨hline, (printable_marker_start htoken).one_line.1,
      (printable_marker_text marker).one_line.1, message_one_line marker⟩
  have hlines : Text.lineChars [] (Text.decoded (output ++ marker.line token ++ rest)) =
      Text.lineChars [] full ++ Text.chomp (line ++ content) ::
        Text.lineChars [] (Text.decoded rest) := by
    rw [decoded_report htoken, hdecoded, ← Text.line_chars_line hcontent,
      ← Text.line_chars_append_full hfull]
    simp only [List.append_assoc, content, markerStart]
  have hfull_none : (Text.lineChars [] full).filterMap (lineFailure token) = [] := by
    refine List.filterMap_eq_nil_iff.mpr fun other hother => line_failure_none fun hfound => hno ?_
    have hpart := hfound.trans (Text.infix_of_mem_line_chars hother)
    exact hpart.trans (List.prefix_append full line).isInfix
  have hmarker := line_failure_marker htoken
    (fun hfound => hno (hfound.trans (List.suffix_append full line).isInfix)) marker
  rw [parse_resource_failures_eq, hlines, chomp_marker_line htoken, List.filterMap_append,
    hfull_none, List.filterMap_cons, hmarker, parse_resource_failures_eq]
  by_cases hempty : line = []
  · rw [if_pos hempty, if_pos (hends.mpr hempty)]
    rfl
  · rw [if_neg hempty, if_neg fun h => hempty (hends.mp h), List.nil_append]

/-- The markers that start a line are read, in the order in which they were echoed. -/
theorem parse_reports {token : ResourceMarkerToken} (htoken : TokenText token)
    {reports : List SupervisorReport}
    (h : ∀ report ∈ reports, ¬ Text.bytes token.text <:+: report.output)
    (following : List UInt8) :
    parseResourceFailures (supervisedStderr token reports following) token =
      (reports.filter fun report => endsLine report.output).map (fun report =>
        report.marker.failure) ++ parseResourceFailures following token := by
  induction reports with
  | nil => rfl
  | cons report reports ih =>
      have hrest := ih fun other hother => h other (List.mem_cons_of_mem _ hother)
      have hcons : supervisedStderr token (report :: reports) following =
          report.output ++ report.marker.line token ++
            supervisedStderr token reports following := by
        simp [supervisedStderr]
      rw [hcons, parse_report htoken (h report List.mem_cons_self), hrest]
      cases hends : endsLine report.output <;> simp [hends]

/-- Every marker that the supervisor echoed is read as its failure, in order and with its index,
and lines without the token report nothing. -/
def MarkersFound (token : ResourceMarkerToken) (reports : List SupervisorReport)
    (following : List UInt8) : Prop :=
  let stderr := supervisedStderr token reports following
  parseResourceFailures stderr token =
      reports.map (fun report => report.marker.failure) ++
        parseResourceFailures following token ∧
    ∀ line ∈ Text.lineChars [] (Text.decoded stderr), ¬ token.text.toList <:+: line →
      lineFailure token line = none

/-- For outputs that do not hold the token, all markers are found exactly when each output is
empty or ends with a line feed. -/
theorem markers_found_iff (domain : String) (fields : List String)
    {reports : List SupervisorReport} (following : List UInt8)
    (h : ∀ report ∈ reports, ¬ Text.bytes
      (ResourceMarkerToken.fromStableFields domain fields).text <:+: report.output) :
    MarkersFound (ResourceMarkerToken.fromStableFields domain fields) reports following ↔
      ∀ report ∈ reports, endsLine report.output = true := by
  have hparse := parse_reports (token_text domain fields) h following
  constructor
  · rintro ⟨hfound, _⟩ report hreport
    rw [hparse] at hfound
    -- A marker that is not found is missing from the length.
    have hlength := congrArg List.length hfound
    simp only [List.length_append, List.length_map] at hlength
    have hall := List.length_filter_eq_length_iff.mp (Nat.add_right_cancel hlength)
    exact hall report hreport
  · intro hends
    refine ⟨?_, fun line _ => line_failure_none⟩
    rw [hparse, List.filter_eq_self.mpr hends]

/-- Two outputs that end their lines, with a timeout and an out-of-memory marker behind them. -/
theorem two_markers_found :
    MarkersFound (ResourceMarkerToken.fromStableFields "quokka" ["//app:test", "0"])
      [⟨[], .logicalTimeout 2 300⟩,
        ⟨[0xE2, 0x82, 0x0A], .logicalOom 7 .unlimited ⟨0, 1, 0, 1⟩⟩] [0x78] :=
  (markers_found_iff "quokka" ["//app:test", "0"] [0x78] (by decide +kernel)).mpr
    (by decide +kernel)

/-- The test process wrote one byte without a line feed and ended by itself while its time ran out,
so that no message of the shell about a killed job comes before the marker. -/
theorem marker_hidden_by_output :
    ¬ ∀ (domain : String) (fields : List String) (reports : List SupervisorReport)
      (following : List UInt8),
      (∀ report ∈ reports, ¬ Text.bytes
        (ResourceMarkerToken.fromStableFields domain fields).text <:+: report.output) →
      MarkersFound (ResourceMarkerToken.fromStableFields domain fields) reports following := by
  intro h
  have hoc : ∀ report ∈ [SupervisorReport.mk [0x78] (.logicalTimeout 2 300)], ¬ Text.bytes
      (ResourceMarkerToken.fromStableFields "quokka" ["//app:test", "0"]).text <:+:
        report.output := by decide +kernel
  have hfound := (h "quokka" ["//app:test", "0"] _ [] hoc).1
  rw [parse_reports (token_text _ _) hoc] at hfound
  exact absurd (congrArg List.length hfound) (by decide)

end Quokka
