import Quokka.Batching
import Quokka.Execution

/-!
# The transport deadline of a request

Every request carries a deadline that should leave the logical commands their own timeouts and a
minute of grace. The sum is computed with saturating arithmetic, but its seconds are then cast to
the signed field of the wire, where 2^63 seconds and more become negative, and a negative deadline
is read back as no time at all. `deadline_covers_iff` says exactly which deadlines cover their
commands.
-/

namespace Quokka

/-! ## Durations on the wire -/

/-- A message of the wire: the seconds are an `i64`, the nanoseconds an `i32`. -/
def ProtoDuration.OnWire (d : ProtoDuration) : Prop :=
  -(2 ^ 63) ≤ d.seconds ∧ d.seconds < 2 ^ 63 ∧ -(2 ^ 31) ≤ d.nanos ∧ d.nanos < 2 ^ 31

instance (d : ProtoDuration) : Decidable d.OnWire :=
  inferInstanceAs (Decidable (_ ∧ _))

/-- The largest duration of the wire. -/
def ProtoDuration.largest : ProtoDuration := ⟨2 ^ 63 - 1, 999999999⟩

/-- `Duration::new`, which panics when the carry of the nanoseconds overflows the seconds. -/
def Duration.checkedNew (secs nanos : Nat) : MayPanic Duration :=
  if secs + nanos / nanosPerSec < UInt64.size then .ok (.new secs nanos)
  else .error "overflow in Duration::new"

/-- `duration_from_proto` with the panic of `Duration::new`. -/
def durationFromProtoChecked (d : ProtoDuration) : MayPanic Duration :=
  Duration.checkedNew (max d.seconds 0).toNat (min (max d.nanos 0) 1999999999).toNat

/-- Reading a duration never panics: a carry of one second still fits. -/
theorem duration_from_proto_returns {d : ProtoDuration} (h : d.OnWire) :
    durationFromProtoChecked d = .ok (durationFromProto d) := by
  obtain ⟨_, hseconds, _, _⟩ := h
  have hsecs : (max d.seconds 0).toNat < 2 ^ 63 := by omega
  have hcarry : (min (max d.nanos 0) 1999999999).toNat / Duration.nanosPerSec ≤ 1 := by
    show _ / 1000000000 ≤ 1
    omega
  have hsize : UInt64.size = 2 ^ 64 := rfl
  exact if_pos (by omega)

/-- A duration of the standard library: its seconds are a `u64`. -/
def Duration.Valid (d : Duration) : Prop := d.asSecs < 2 ^ 64

/-- The cast to `i64` keeps what is below 2^63 and makes the rest negative. -/
theorem cast_seconds {secs : Nat} (h : secs < 2 ^ 64) :
    (secs : Int).bmod (2 ^ 64) = if secs < 2 ^ 63 then (secs : Int) else (secs : Int) - 2 ^ 64 := by
  split
  · exact Int.bmod_eq_of_le (by omega) (by omega)
  · have hwrap := Int.sub_mul_bmod_self_right (secs : Int) 1 (2 ^ 64)
    rw [← hwrap]
    refine (Int.bmod_eq_of_le (by omega) (by omega)).trans ?_
    omega

instance (d : Duration) : Decidable d.Valid :=
  inferInstanceAs (Decidable (_ < _))

theorem to_proto_seconds (d : Duration) :
    (durationToProto d).seconds = (d.asSecs : Int).bmod (2 ^ 64) := by
  delta durationToProto
  with_reducible rfl

theorem to_proto_nanos (d : Duration) : (durationToProto d).nanos = d.subsecNanos := by
  delta durationToProto
  with_reducible rfl

theorem subsec_nanos_lt (d : Duration) : d.subsecNanos < 1000000000 :=
  Nat.mod_lt _ (by decide)

theorem secs_and_nanos (d : Duration) : d.asSecs * 1000000000 + d.subsecNanos = d.nanos :=
  Nat.div_add_mod' ..

/-- The clamp of the nanoseconds keeps the part of a second. -/
theorem clamp_nanos {nanos : Nat} (h : nanos < 1000000000) :
    (min (max (nanos : Int) 0) 1999999999).toNat = nanos := by
  omega

/-- What is read back: all of it below 2^63 seconds, and less than a second from there on. -/
theorem nanos_reread {d : Duration} (hvalid : d.Valid) :
    (durationFromProto (durationToProto d)).nanos =
      if d.asSecs < 2 ^ 63 then d.nanos else d.subsecNanos := by
  have hnanos := subsec_nanos_lt d
  have hsum := secs_and_nanos d
  have hread : (durationFromProto (durationToProto d)).nanos =
      (max ((d.asSecs : Int).bmod (2 ^ 64)) 0).toNat * 1000000000 + d.subsecNanos := by
    rw [← to_proto_seconds]
    simp only [durationFromProto, Duration.new, to_proto_nanos, clamp_nanos hnanos]
    rfl
  rw [hread, cast_seconds hvalid]
  by_cases h : d.asSecs < 2 ^ 63
  · have hsecs : (max (d.asSecs : Int) 0).toNat = d.asSecs := by omega
    rw [if_pos h, if_pos h, hsecs, hsum]
  · have hlt : d.asSecs < 2 ^ 64 := hvalid
    have hsecs : (max ((d.asSecs : Int) - 2 ^ 64) 0).toNat = 0 := by omega
    rw [if_neg h, if_neg h, hsecs, Nat.zero_mul, Nat.zero_add]

/-- Reading a duration inverts writing it exactly below 2^63 seconds. -/
theorem duration_reread_iff {d : Duration} (hvalid : d.Valid) :
    durationFromProto (durationToProto d) = d ↔ d.asSecs < 2 ^ 63 := by
  have hnanos := nanos_reread hvalid
  have hsum := secs_and_nanos d
  have hext : durationFromProto (durationToProto d) = d ↔
      (durationFromProto (durationToProto d)).nanos = d.nanos :=
    ⟨congrArg _, congrArg Duration.mk⟩
  rw [hext, hnanos]
  by_cases h : d.asSecs < 2 ^ 63
  · simp only [h, if_true]
  · rw [if_neg h]
    omega

/-! ## The deadline of a request -/

/-- The seconds that the commands need together: their timeouts and a minute of grace. -/
def secondsNeeded (timeout count : Nat) : Nat := count * timeout + 60

/-- The deadline of the request covers its commands: it is not negative, it leaves them what they
need, or is the largest one when that does not fit, and it is not shorter than one timeout. -/
structure Covers (deadline : ProtoDuration) (timeout count : Nat) : Prop where
  nonneg : 0 ≤ deadline.seconds ∧ 0 ≤ deadline.nanos
  covers : secondsNeeded timeout count < 2 ^ 63 →
    (Duration.fromSecs (secondsNeeded timeout count)).nanos ≤ (durationFromProto deadline).nanos
  largest : 2 ^ 63 ≤ secondsNeeded timeout count →
    durationFromProto deadline = durationFromProto .largest
  one : (Duration.fromSecs timeout).nanos ≤ (durationFromProto deadline).nanos

/-- The number of commands that the code counts: at most `u32::MAX`. -/
def countedCommands (count : Nat) : Nat := min count (UInt32.size - 1)

theorem from_secs_nanos (secs : Nat) : (Duration.fromSecs secs).nanos = secs * 1000000000 := by
  simp only [Duration.fromSecs, Duration.new, Duration.nanosPerSec, Nat.add_zero]

/-- The saturating sum: exact as long as its seconds fit, else the largest duration. -/
theorem supervised_action_timeout_eq (timeout count : Nat) :
    supervisedActionTimeout (.fromSecs timeout) count =
      if secondsNeeded timeout (countedCommands count) < 2 ^ 64 then
        .fromSecs (secondsNeeded timeout (countedCommands count))
      else Duration.max := by
  have hmax : Duration.max.nanos = (2 ^ 64 - 1) * 1000000000 + 999999999 := rfl
  have hproduct : (Duration.fromSecs timeout).nanos * countedCommands count =
      countedCommands count * timeout * 1000000000 := by
    show (timeout * 1000000000 + 0) * _ = _
    rw [Nat.add_zero, Nat.mul_comm, Nat.mul_assoc]
  have hgrace : (Duration.fromSecs 60).nanos = 60000000000 := rfl
  have hnanos : (supervisedActionTimeout (.fromSecs timeout) count).nanos =
      min (min (countedCommands count * timeout * 1000000000) Duration.max.nanos + 60000000000)
        Duration.max.nanos := by
    rw [← hproduct, ← hgrace]
    rfl
  have hneeded : secondsNeeded timeout (countedCommands count) =
      countedCommands count * timeout + 60 := rfl
  by_cases hfits : secondsNeeded timeout (countedCommands count) < 2 ^ 64
  · rw [if_pos hfits]
    refine congrArg Duration.mk (hnanos.trans ?_)
    show _ = secondsNeeded timeout (countedCommands count) * 1000000000 + 0
    omega
  · rw [if_neg hfits]
    refine congrArg Duration.mk (hnanos.trans ?_)
    show _ = Duration.max.nanos
    omega

theorem valid_of_lt {secs : Nat} (h : secs < 2 ^ 64) :
    (Duration.fromSecs secs).Valid ∧ (Duration.fromSecs secs).asSecs = secs := by
  have hsecs : (Duration.fromSecs secs).asSecs = secs := by
    rw [Duration.asSecs, from_secs_nanos]
    exact Nat.mul_div_cancel secs (by decide)
  refine ⟨?_, hsecs⟩
  show (Duration.fromSecs secs).asSecs < 2 ^ 64
  rw [hsecs]
  exact h

/-- What is read back of a supervised deadline. -/
theorem supervised_reread (timeout count : Nat) :
    (durationFromProto (durationToProto
      (supervisedActionTimeout (.fromSecs timeout) count))).nanos =
      if secondsNeeded timeout (countedCommands count) < 2 ^ 63 then
        secondsNeeded timeout (countedCommands count) * 1000000000
      else if secondsNeeded timeout (countedCommands count) < 2 ^ 64 then 0 else 999999999 := by
  rw [supervised_action_timeout_eq]
  generalize secondsNeeded timeout (countedCommands count) = needed
  by_cases hfits : needed < 2 ^ 64
  · obtain ⟨hvalid, hsecs⟩ := valid_of_lt hfits
    have hsub : (Duration.fromSecs needed).subsecNanos = 0 := by
      rw [Duration.subsecNanos, from_secs_nanos]
      exact Nat.mul_mod_left needed _
    rw [if_pos hfits, if_pos hfits, nanos_reread hvalid, hsecs, hsub, from_secs_nanos]
  · have hvalid : Duration.max.Valid := by
      show Duration.max.asSecs < 2 ^ 64
      decide
    have hsecs : ¬ Duration.max.asSecs < 2 ^ 63 := by decide
    have hsmall : ¬ needed < 2 ^ 63 := by omega
    rw [if_neg hfits, if_neg hsmall, if_neg hfits, nanos_reread hvalid, if_neg hsecs]
    decide

/-- The deadline of the request covers its commands exactly when the seconds fit into the wire's
field, and the commands can be counted or need no time. -/
theorem covers_iff {timeout count : Nat} (hcount : 1 ≤ count) :
    Covers (durationToProto (supervisedActionTimeout (.fromSecs timeout) count)) timeout count ↔
      secondsNeeded timeout count < 2 ^ 63 ∧ (count < 2 ^ 32 ∨ timeout = 0) := by
  have hread := supervised_reread timeout count
  have hsize : UInt32.size = 2 ^ 32 := rfl
  have hmono : countedCommands count * timeout ≤ count * timeout :=
    Nat.mul_le_mul_right _ (Nat.min_le_left ..)
  have hcounted : secondsNeeded timeout (countedCommands count) =
      countedCommands count * timeout + 60 := rfl
  have hall : secondsNeeded timeout count = count * timeout + 60 := rfl
  have hlargest : (durationFromProto .largest).nanos =
      (2 ^ 63 - 1) * 1000000000 + 999999999 := by decide
  constructor
  · intro h
    have hfits : secondsNeeded timeout count < 2 ^ 63 := by
      by_contra hlarge
      have heq := congrArg Duration.nanos (h.largest (by omega))
      rw [hread, hlargest] at heq
      -- a deadline of whole seconds, or of less than one, is not the largest
      split at heq
      · omega
      · split at heq <;> omega
    have hcovers := h.covers hfits
    rw [hread, if_pos (by omega), from_secs_nanos] at hcovers
    have hproduct : count * timeout ≤ countedCommands count * timeout := by omega
    rcases Nat.eq_zero_or_pos timeout with hzero | hpos
    · exact ⟨hfits, .inr hzero⟩
    · have hcount := Nat.le_of_mul_le_mul_right hproduct hpos
      have hbound : countedCommands count ≤ UInt32.size - 1 := Nat.min_le_right ..
      exact ⟨hfits, .inl (by omega)⟩
  · rintro ⟨hfits, hsmall⟩
    have hsame : secondsNeeded timeout (countedCommands count) = secondsNeeded timeout count := by
      rcases hsmall with hlt | rfl
      · have heq : countedCommands count = count := Nat.min_eq_left (by omega)
        rw [heq]
      · rfl
    have hone : timeout ≤ count * timeout := Nat.le_mul_of_pos_left timeout hcount
    have hdeadline : supervisedActionTimeout (.fromSecs timeout) count =
        .fromSecs (secondsNeeded timeout count) := by
      rw [supervised_action_timeout_eq, hsame, if_pos (by omega)]
    have hseconds := (valid_of_lt (show secondsNeeded timeout count < 2 ^ 64 by omega)).2
    rw [hsame, if_pos hfits] at hread
    constructor
    · rw [hdeadline, to_proto_seconds, to_proto_nanos, hseconds, cast_seconds (by omega),
        if_pos hfits]
      omega
    · intro _
      rw [hread, from_secs_nanos]
    · intro hlarge
      omega
    · rw [hread, from_secs_nanos]
      omega

/-! ## Built requests -/

variable [SupervisorScript]

/-- Exactly when the transport deadlines cover their commands: for testing requests, for listing
requests, and for the decoder, which never panics and inverts the encoder below 2^63 seconds. -/
theorem deadline_covers_iff :
    (∀ (req : TestingRequest) (timeout : UInt64),
      req.logicalTimeout = .fromSecs timeout.toNat → 1 ≤ req.commands.length →
      (Covers (buildTestingRequest req).timeout timeout.toNat req.commands.length ↔
        secondsNeeded timeout.toNat req.commands.length < 2 ^ 63 ∧
          (req.commands.length < 2 ^ 32 ∨ timeout.toNat = 0))) ∧
    (∀ (spec : TargetSpec) (listingArgs : List String) (profile : SchedulingProfile)
      (timeout : UInt64) (cgroupGranularity : CgroupGranularity)
      (cgroupMemoryMax : CgroupMemoryMax) (resourceMarkerToken : ResourceMarkerToken)
      (extraEnv : List (String × String)),
      (Covers (buildListingRequest spec listingArgs profile (.fromSecs timeout.toNat)
          cgroupGranularity cgroupMemoryMax resourceMarkerToken extraEnv).timeout
          timeout.toNat 1 ↔
        secondsNeeded timeout.toNat 1 < 2 ^ 63)) ∧
    (∀ d : ProtoDuration, d.OnWire → durationFromProtoChecked d = .ok (durationFromProto d)) ∧
    (∀ d : Duration, d.Valid →
      (durationFromProto (durationToProto d) = d ↔ d.asSecs < 2 ^ 63)) := by
  refine ⟨?_, ?_, fun d h => duration_from_proto_returns h, fun d h => duration_reread_iff h⟩
  · intro req timeout htimeout hcount
    have htimeouts : (buildTestingRequest req).timeout = durationToProto
        (supervisedActionTimeout (.fromSecs timeout.toNat) req.commands.length) := by
      rw [← htimeout]
      rfl
    rw [htimeouts]
    exact covers_iff hcount
  · intro spec listingArgs profile timeout granularity memoryMax token extraEnv
    have hcovers := @covers_iff timeout.toNat 1 (Nat.le_refl 1)
    exact hcovers.trans (and_iff_left (.inl (by decide)))

omit [SupervisorScript] in
/-- A request of one command with the default timeout. -/
theorem default_deadline_covers :
    Covers (@buildTestingRequest ⟨"set -u\n"⟩
      { target := 1, suite := "suite", testcases := ["t"], baseCommand := [], env := []
        commands := [⟨0, ["t"]⟩], variant := none, repeatCount := none
        profile := {}, caching := .enabled, logicalTimeout := .fromSecs 600
        cgroupGranularity := .action, cgroupMemoryMax := .unlimited
        resourceMarkerToken := ⟨""⟩ }).timeout 600 1 ∧
      durationFromProtoChecked ⟨660, 0⟩ = .ok (.fromSecs 660) ∧
      durationFromProto (durationToProto (.fromSecs 660)) = .fromSecs 660 :=
  let h := @deadline_covers_iff ⟨"set -u\n"⟩
  ⟨(h.1 _ 600 rfl (by decide)).mpr ⟨by decide, .inl (by decide)⟩,
    h.2.2.1 _ (by decide), (h.2.2.2 _ (by decide)).mpr (by decide)⟩

omit [SupervisorScript] in
/-- With a time limit of 2^63 - 60 seconds the deadline of a single command is no time at all. -/
theorem large_timeout_is_immediate :
    ¬ Covers (@buildTestingRequest ⟨"set -u\n"⟩
      { target := 1, suite := "suite", testcases := ["t"], baseCommand := [], env := []
        commands := [⟨0, ["t"]⟩], variant := none, repeatCount := none
        profile := {}, caching := .enabled, logicalTimeout := .fromSecs (2 ^ 63 - 60)
        cgroupGranularity := .action, cgroupMemoryMax := .unlimited
        resourceMarkerToken := ⟨""⟩ }).timeout (2 ^ 63 - 60) 1 ∧
      durationFromProto (durationToProto
        (supervisedActionTimeout (.fromSecs (2 ^ 63 - 60)) 1)) = .zero := by
  refine ⟨fun h => absurd h.one ?_, ?_⟩
  · decide +kernel
  · decide +kernel

end Quokka
