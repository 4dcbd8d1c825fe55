import Quokka.Library.Text

/-!
# Lossy decoding and ASCII

`Text.fromUtf8Lossy` on bytes of any encoding. An ASCII byte always stands for itself: it ends an
unfinished sequence before it (`decoded_append`), and an ASCII character in the decoded text comes
from that byte (`decoded_cons`). So ASCII text can be found in the decoded text exactly where its
bytes are.
-/

namespace Text

/-- The decoded characters. -/
def decoded (input : List UInt8) : List Char :=
  lossyChars input.length input

/-- What a decoding step leaves to decode. -/
def Scalar.rest : Scalar → List UInt8
  | .valid _ rest => rest
  | .invalid rest => rest

/-- The character that a decoding step yields. -/
def Scalar.char : Scalar → Char
  | .valid c _ => c
  | .invalid _ => '\uFFFD'

/-- The step with more bytes to follow. -/
def Scalar.append (more : List UInt8) : Scalar → Scalar
  | .valid c rest => .valid c (rest ++ more)
  | .invalid rest => .invalid (rest ++ more)

@[simp] theorem Scalar.append_rest (more : List UInt8) (scalar : Scalar) :
    (scalar.append more).rest = scalar.rest ++ more := by
  cases scalar <;> rfl

@[simp] theorem Scalar.append_char (more : List UInt8) (scalar : Scalar) :
    (scalar.append more).char = scalar.char := by
  cases scalar <;> rfl

/-- A step leaves a suffix of the bytes after the first one. -/
theorem next_scalar_rest (first : UInt8) (rest : List UInt8) :
    (nextScalar first rest).rest <:+ rest := by
  have hone : ∀ (b : UInt8) (rest : List UInt8), rest <:+ b :: rest := List.suffix_cons
  have htwo : ∀ (b1 b2 : UInt8) (rest : List UInt8), rest <:+ b1 :: b2 :: rest :=
    fun b1 b2 rest => (hone b2 rest).trans (hone b1 _)
  have hthree : ∀ (b1 b2 b3 : UInt8) (rest : List UInt8), rest <:+ b1 :: b2 :: b3 :: rest :=
    fun b1 b2 b3 rest => (hone b3 rest).trans (htwo b1 b2 _)
  fun_cases nextScalar first rest
  all_goals first
    | exact List.suffix_rfl
    | exact hone _ _
    | exact htwo _ _ _
    | exact hthree _ _ _ _

/-- Decoding with fuel left takes one step. -/
theorem lossy_chars_step (fuel : Nat) (first : UInt8) (rest : List UInt8) :
    lossyChars (fuel + 1) (first :: rest) =
      (nextScalar first rest).char :: lossyChars fuel (nextScalar first rest).rest := by
  rw [lossyChars]
  cases nextScalar first rest <;> rfl

/-- Any fuel for every byte is enough. -/
theorem lossy_chars_fuel {fuel more : Nat} {input : List UInt8} (h : input.length ≤ fuel)
    (hmore : input.length ≤ more) : lossyChars fuel input = lossyChars more input := by
  induction fuel generalizing more input with
  | zero =>
      obtain rfl : input = [] := List.eq_nil_of_length_eq_zero (by omega)
      cases more <;> rfl
  | succ fuel ih =>
      cases input with
      | nil => cases more <;> rfl
      | cons first rest =>
          have hrest := (next_scalar_rest first rest).length_le
          rw [List.length_cons] at h hmore
          obtain ⟨more, rfl⟩ : ∃ left, more = left + 1 := ⟨more - 1, by omega⟩
          rw [lossy_chars_step, lossy_chars_step,
            ih (show (nextScalar first rest).rest.length ≤ fuel by omega)
              (show (nextScalar first rest).rest.length ≤ more by omega)]

/-- Decoding takes one step after another. -/
theorem decoded_step (first : UInt8) (rest : List UInt8) :
    decoded (first :: rest) =
      (nextScalar first rest).char :: decoded (nextScalar first rest).rest := by
  have hrest := (next_scalar_rest first rest).length_le
  show lossyChars (rest.length + 1) (first :: rest) = _
  rw [lossy_chars_step, lossy_chars_fuel hrest (Nat.le_refl _)]
  rfl

/-! ## ASCII bytes -/

/-- An ASCII byte stands for itself. -/
theorem next_scalar_ascii {first : UInt8} (h : first < 0x80) (rest : List UInt8) :
    nextScalar first rest = .valid (Char.ofNat first.toNat) rest := by
  simp [nextScalar, h]

theorem decoded_ascii {first : UInt8} (h : first < 0x80) (rest : List UInt8) :
    decoded (first :: rest) = Char.ofNat first.toNat :: decoded rest := by
  rw [decoded_step, next_scalar_ascii h]
  rfl

/-- Continuation bytes are those from 0x80 to 0xBF. -/
theorem continuation_bounds {b : UInt8} (h : isContinuation b = true) :
    128 ≤ b.toNat ∧ b.toNat < 192 := by
  have hall : ∀ n : Fin 256, isContinuation (UInt8.ofNat n.val) = true →
      128 ≤ n.val ∧ n.val < 192 := by decide +kernel
  have hb := hall ⟨b.toNat, b.toNat_lt⟩
  rw [UInt8.ofNat_toNat] at hb
  exact hb h

/-- Second bytes are continuation bytes, and narrower where a short encoding exists. -/
theorem second_fits_bounds {first second : UInt8} (h : secondFits first second = true) :
    128 ≤ second.toNat ∧ second.toNat < 192 ∧ (first = 0xE0 → 160 ≤ second.toNat) ∧
      (first = 0xF0 → 144 ≤ second.toNat) := by
  unfold secondFits at h
  simp only [beq_iff_eq] at h
  split at h
  · simp [UInt8.le_iff_toNat_le] at h
    subst first
    refine ⟨by omega, by omega, fun _ => h.1, nofun⟩
  split at h
  · simp [UInt8.le_iff_toNat_le] at h
    subst first
    refine ⟨by omega, by omega, nofun, nofun⟩
  split at h
  · simp [UInt8.le_iff_toNat_le] at h
    subst first
    refine ⟨by omega, by omega, nofun, fun _ => h.1⟩
  split at h
  · simp [UInt8.le_iff_toNat_le] at h
    subst first
    refine ⟨by omega, by omega, nofun, nofun⟩
  · obtain ⟨hlow, hhigh⟩ := continuation_bounds h
    exact ⟨hlow, hhigh, by grind, by grind⟩

/-- An ASCII byte continues no sequence. -/
theorem not_continuation {b : UInt8} (h : b < 0x80) : isContinuation b = false := by
  have hb : b.toNat < 128 := h
  refine Bool.eq_false_iff.mpr fun hcont => ?_
  have hlow := (continuation_bounds hcont).1
  omega

/-- An ASCII byte is no second byte. -/
theorem not_second_fits {b : UInt8} (h : b < 0x80) (first : UInt8) :
    secondFits first b = false := by
  have hb : b.toNat < 128 := h
  refine Bool.eq_false_iff.mpr fun hfits => ?_
  have hlow := (second_fits_bounds hfits).1
  omega

/-- An ASCII byte after a sequence, finished or not, takes no part in it. -/
theorem next_scalar_append {b : UInt8} (h : b < 0x80) (first : UInt8) (rest more : List UInt8) :
    nextScalar first (rest ++ b :: more) = (nextScalar first rest).append (b :: more) := by
  have hcont := not_continuation h
  have hfits := not_second_fits h first
  fun_cases nextScalar first rest <;>
    simp only [nextScalar, Scalar.append, List.cons_append, List.nil_append, if_true, if_false,
      Bool.false_eq_true, *]

/-- An ASCII byte ends what is before it. -/
theorem decoded_append {b : UInt8} (h : b < 0x80) (input more : List UInt8) :
    decoded (input ++ b :: more) = decoded input ++ decoded (b :: more) := by
  match input with
  | [] => rfl
  | first :: rest =>
      have hrest := (next_scalar_rest first rest).length_le
      rw [List.cons_append, decoded_step, next_scalar_append h, Scalar.append_char,
        Scalar.append_rest, decoded_append h, decoded_step first rest, List.cons_append]
termination_by input.length
decreasing_by
  rw [List.length_cons]
  omega

/-! ## ASCII characters -/

/-- What is no code point is the null character. -/
theorem to_nat_of_nat (n : Nat) : (Char.ofNat n).toNat = if n.isValidChar then n else 0 := by
  unfold Char.ofNat
  by_cases h : n.isValidChar
  · rw [dif_pos h, if_pos h]
    rfl
  · rw [dif_neg h, if_neg h]
    rfl

/-- An ASCII character comes from the byte that it is. -/
theorem next_scalar_char {first : UInt8} {rest : List UInt8}
    (hpos : 0 < (nextScalar first rest).char.toNat)
    (hlt : (nextScalar first rest).char.toNat < 128) :
    first.toNat = (nextScalar first rest).char.toNat ∧ (nextScalar first rest).rest = rest := by
  -- A longer sequence encodes a code point from 128 on.
  have hlarge : ∀ {n : Nat}, 128 ≤ n → 0 < (Char.ofNat n).toNat → (Char.ofNat n).toNat < 128 →
      False := by
    intro n hn hpos hlt
    rw [to_nat_of_nat] at hpos hlt
    split at hpos
    · rw [if_pos ‹_›] at hlt
      omega
    · omega
  revert hpos hlt
  fun_cases nextScalar first rest with
  | case1 =>
      intro hpos hlt
      rename_i hascii
      have hfirst : first.toNat < 128 := hascii
      have hvalid : first.toNat.isValidChar := .inl (by omega)
      exact ⟨by rw [Scalar.char, to_nat_of_nat, if_pos hvalid], rfl⟩
  | case2 hfirst hrange b1 rest1 hcont =>
      intro hpos hlt
      simp only [Bool.and_eq_true, decide_eq_true_eq, UInt8.le_iff_toNat_le] at hrange
      have hlow : 194 ≤ first.toNat := hrange.1
      have hhigh : first.toNat ≤ 223 := hrange.2
      have hmod : 2 ≤ first.toNat % 32 := by omega
      exact (hlarge (by omega) hpos hlt).elim
  | case5 hfirst htwo hrange b1 hfits b2 rest2 hcont =>
      intro hpos hlt
      simp only [Bool.and_eq_true, decide_eq_true_eq, UInt8.le_iff_toNat_le] at hrange
      have hlow : 224 ≤ first.toNat := hrange.1
      have hhigh : first.toNat ≤ 239 := hrange.2
      obtain ⟨hb1, hb1', hshort, _⟩ := second_fits_bounds hfits
      refine (hlarge ?_ hpos hlt).elim
      by_cases hfirst : first = 0xE0
      · -- The second byte of the shortest three byte sequences carries the high bits.
        have hsecond := hshort hfirst
        unfold payload
        omega
      · have hne : first.toNat ≠ 224 := fun heq => hfirst (UInt8.toNat_inj.mp heq)
        omega
  | case10 hfirst htwo hthree hrange b1 hfits b2 hcont b3 rest3 hcont' =>
      intro hpos hlt
      simp only [Bool.and_eq_true, decide_eq_true_eq, UInt8.le_iff_toNat_le] at hrange
      have hlow : 240 ≤ first.toNat := hrange.1
      have hhigh : first.toNat ≤ 244 := hrange.2
      obtain ⟨hb1, hb1', _, hshort⟩ := second_fits_bounds hfits
      refine (hlarge ?_ hpos hlt).elim
      by_cases hfirst : first = 0xF0
      · have hsecond := hshort hfirst
        unfold payload
        omega
      · have hne : first.toNat ≠ 240 := fun heq => hfirst (UInt8.toNat_inj.mp heq)
        omega
  | _ =>
      intro _ hlt
      have hreplacement : '\uFFFD'.toNat = 65533 := rfl
      simp only [Scalar.char, hreplacement] at hlt
      omega

/-- The byte of an ASCII character. -/
def asciiByte (c : Char) : UInt8 :=
  UInt8.ofNat c.toNat

/-- A character that only its own byte decodes to. -/
def IsAscii (c : Char) : Prop :=
  0 < c.toNat ∧ c.toNat < 128

theorem to_nat_ascii_byte {c : Char} (h : IsAscii c) : (asciiByte c).toNat = c.toNat := by
  have hlt := h.2
  simp [asciiByte]
  omega

/-- ASCII text is encoded character by character. -/
theorem bytes_ascii {text : String} (h : ∀ c ∈ text.toList, IsAscii c) :
    bytes text = text.toList.map asciiByte := by
  have hchar : ∀ c, IsAscii c → String.utf8EncodeChar c = [asciiByte c] := by
    intro c hc
    have hval : c.val.toNat ≤ 127 := by
      have hlt := hc.2
      show c.toNat ≤ 127
      omega
    have hsize : c.utf8Size = 1 := by
      have hle : c.val ≤ 127 := hval
      simp [Char.utf8Size, hle]
    rw [String.utf8EncodeChar_eq_singleton hsize]
    rfl
  rw [bytes_eq]
  generalize text.toList = chars at h
  induction chars with
  | nil => rfl
  | cons c chars ih =>
      rw [List.flatMap_cons, hchar c (h c List.mem_cons_self),
        ih fun c hmem => h c (List.mem_cons_of_mem _ hmem)]
      rfl

/-- ASCII characters are read as they are. -/
theorem decoded_ascii_bytes {text : List Char} (h : ∀ c ∈ text, IsAscii c) (more : List UInt8) :
    decoded (text.map asciiByte ++ more) = text ++ decoded more := by
  induction text with
  | nil => rfl
  | cons c text ih =>
      have hc := h c List.mem_cons_self
      have hbyte := to_nat_ascii_byte hc
      have hlt : asciiByte c < 0x80 := by
        show (asciiByte c).toNat < 128
        rw [hbyte]
        exact hc.2
      rw [List.map_cons, List.cons_append, decoded_ascii hlt, hbyte, Char.ofNat_toNat,
        ih fun c hmem => h c (List.mem_cons_of_mem _ hmem), List.cons_append]

/-- An ASCII character at the front of the decoded text is the first byte. -/
theorem decoded_cons {input : List UInt8} {c : Char} {rest : List Char}
    (h : decoded input = c :: rest) (hc : IsAscii c) :
    ∃ tail, input = asciiByte c :: tail ∧ decoded tail = rest := by
  cases input with
  | nil => cases h
  | cons first tail =>
      rw [decoded_step] at h
      obtain ⟨hchar, hrest⟩ := List.cons.inj h
      have hpos : 0 < (nextScalar first tail).char.toNat := by rw [hchar]; exact hc.1
      have hlt : (nextScalar first tail).char.toNat < 128 := by rw [hchar]; exact hc.2
      obtain ⟨hfirst, htail⟩ := next_scalar_char hpos hlt
      refine ⟨tail, ?_, by rw [← hrest, htail]⟩
      have hbyte : first = asciiByte c := by
        refine UInt8.toNat_inj.mp ?_
        rw [hfirst, hchar, to_nat_ascii_byte hc]
      rw [hbyte]

/-- ASCII text at the front of the decoded text is there in bytes. -/
theorem bytes_of_decoded_prefix {input : List UInt8} {text rest : List Char}
    (h : decoded input = text ++ rest) (htext : ∀ c ∈ text, IsAscii c) :
    ∃ tail, input = text.map asciiByte ++ tail ∧ decoded tail = rest := by
  induction text generalizing input with
  | nil => exact ⟨input, rfl, h⟩
  | cons c text ih =>
      obtain ⟨tail, rfl, htail⟩ := decoded_cons h (htext c List.mem_cons_self)
      obtain ⟨after, rfl, hafter⟩ := ih htail fun c hmem => htext c (List.mem_cons_of_mem _ hmem)
      exact ⟨after, rfl, hafter⟩

/-- ASCII text in the decoded text is there in bytes. -/
theorem bytes_of_decoded {input : List UInt8} {before text rest : List Char}
    (h : decoded input = before ++ (text ++ rest)) (htext : ∀ c ∈ text, IsAscii c) :
    ∃ start tail, input = start ++ (text.map asciiByte ++ tail) ∧ decoded tail = rest := by
  induction before generalizing input with
  | nil =>
      have hbegins : decoded input = text ++ rest := h
      obtain ⟨tail, htail, hrest⟩ := bytes_of_decoded_prefix hbegins htext
      exact ⟨[], tail, htail, hrest⟩
  | cons c before ih =>
      cases input with
      | nil => cases h
      | cons first rest =>
          rw [decoded_step] at h
          obtain ⟨start, tail, hrest, htail⟩ := ih (List.cons.inj h).2
          obtain ⟨skipped, hskipped⟩ := next_scalar_rest first rest
          refine ⟨first :: (skipped ++ start), tail, ?_, htail⟩
          rw [← hskipped, hrest]
          simp

end Text
