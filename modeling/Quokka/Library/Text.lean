import Mathlib.Data.List.Basic

/-!
# String slices

The string operations of a systems language's standard library over Lean's `String`. Each
works on the list of characters, so that it is structurally recursive and can be evaluated.

Read `cutPrefix` first; the other searches are built on it. The last section turns bytes into
text, keeping every well formed sequence and replacing each ill formed one.
-/

namespace Text

/-- The rest of `text` after the prefix `pattern`. -/
def cutPrefix : List Char → List Char → Option (List Char)
  | [], text => some text
  | _ :: _, [] => none
  | p :: pattern, c :: text => if p = c then cutPrefix pattern text else none

/-- A prefix is cut exactly when the text is the prefix and the rest. -/
theorem cut_prefix_eq_some {pattern text rest : List Char} :
    cutPrefix pattern text = some rest ↔ text = pattern ++ rest := by
  induction pattern generalizing text with
  | nil => simp [cutPrefix, eq_comm]
  | cons p pattern ih =>
      cases text with
      | nil => simp [cutPrefix]
      | cons c text =>
          by_cases h : p = c
          · simp [cutPrefix, h, ih]
          · simp [cutPrefix, h, Ne.symm h]

/-- The text around the first occurrence of `pattern`. -/
def splitFirst (pattern : List Char) : List Char → Option (List Char × List Char)
  | [] => (cutPrefix pattern []).map fun rest => ([], rest)
  | c :: text =>
      match cutPrefix pattern (c :: text) with
      | some rest => some ([], rest)
      | none => (splitFirst pattern text).map fun (before, rest) => (c :: before, rest)

/-- The text around the last occurrence of `pattern`. -/
def splitLast (pattern : List Char) (text : List Char) : Option (List Char × List Char) :=
  (splitFirst pattern.reverse text.reverse).map fun (after, before) =>
    (before.reverse, after.reverse)

/-- `str::strip_prefix`. -/
def stripPrefix (text pattern : String) : Option String :=
  (cutPrefix pattern.toList text.toList).map String.ofList

/-- `str::strip_suffix`. -/
def stripSuffix (text pattern : String) : Option String :=
  (cutPrefix pattern.toList.reverse text.toList.reverse).map fun rest =>
    String.ofList rest.reverse

/-- `str::starts_with`. -/
def startsWith (text pattern : String) : Bool :=
  (stripPrefix text pattern).isSome

/-- `str::contains`. -/
def contains (text pattern : String) : Bool :=
  (splitFirst pattern.toList text.toList).isSome

/-- `str::split_once`. -/
def splitOnce (text pattern : String) : Option (String × String) :=
  (splitFirst pattern.toList text.toList).map fun (before, rest) =>
    (String.ofList before, String.ofList rest)

/-- `str::rsplit_once`. -/
def rsplitOnce (text pattern : String) : Option (String × String) :=
  (splitLast pattern.toList text.toList).map fun (before, rest) =>
    (String.ofList before, String.ofList rest)

/-- A stripped prefix and the rest make up the text. -/
theorem strip_prefix_eq_some {text pattern rest : String} :
    stripPrefix text pattern = some rest ↔ text = pattern ++ rest := by
  simp only [stripPrefix, Option.map_eq_some_iff, cut_prefix_eq_some]
  constructor
  · rintro ⟨chars, hchars, rfl⟩
    exact String.toList_inj.mp (by simp [hchars])
  · rintro rfl
    exact ⟨rest.toList, by simp, by simp⟩

/-- What is left and a stripped suffix make up the text. -/
theorem strip_suffix_eq_some {text pattern rest : String} :
    stripSuffix text pattern = some rest ↔ text = rest ++ pattern := by
  simp only [stripSuffix, Option.map_eq_some_iff, cut_prefix_eq_some]
  constructor
  · rintro ⟨chars, hchars, rfl⟩
    refine String.toList_inj.mp ?_
    rw [← List.reverse_inj, hchars]
    simp
  · rintro rfl
    exact ⟨rest.toList.reverse, by simp, by simp⟩

/-- A text does not end with what has another last character. -/
theorem strip_suffix_other {text pattern : String} {last other : Char} {start front : List Char}
    (htext : text.toList = start ++ [last]) (hpattern : pattern.toList = front ++ [other])
    (h : last ≠ other) : stripSuffix text pattern = none := by
  cases hstrip : stripSuffix text pattern with
  | none => rfl
  | some rest =>
      rw [strip_suffix_eq_some] at hstrip
      have hlist : start ++ [last] = (rest.toList ++ front) ++ [other] := by
        rw [← htext, hstrip, String.toList_append, hpattern, List.append_assoc]
      exact absurd (List.singleton_inj.mp (List.append_inj' hlist rfl).2) h

/-- A text that does not start with a prefix does not start with a longer one. -/
theorem strip_prefix_append_eq_none {text pattern : String} (more : String)
    (h : startsWith text pattern = false) : stripPrefix text (pattern ++ more) = none := by
  cases hmore : stripPrefix text (pattern ++ more) with
  | none => rfl
  | some rest =>
      rw [strip_prefix_eq_some, String.append_assoc] at hmore
      have hprefix := strip_prefix_eq_some.mpr hmore
      simp [startsWith, hprefix] at h

/-- A text does not start with what differs from its own beginning. -/
theorem strip_prefix_other {head pattern : String} (more : String)
    (h : ¬ pattern.toList <+: head.toList ∧ ¬ head.toList <+: pattern.toList) :
    stripPrefix (head ++ more) pattern = none := by
  cases hstrip : stripPrefix (head ++ more) pattern with
  | none => rfl
  | some rest =>
      rw [strip_prefix_eq_some] at hstrip
      have hpattern : pattern.toList <+: (head ++ more).toList := by
        rw [hstrip, String.toList_append]
        exact List.prefix_append _ _
      have hhead : head.toList <+: (head ++ more).toList := by
        rw [String.toList_append]
        exact List.prefix_append _ _
      rcases List.prefix_or_prefix_of_prefix hpattern hhead with hprefix | hprefix
      · exact absurd hprefix h.1
      · exact absurd hprefix h.2

/-- A number is written with the digits from `0` to `9`. -/
theorem digit_bounds (n : Nat) :
    ∀ c ∈ (toString n).toList, 48 ≤ c.toNat ∧ c.toNat ≤ 57 := by
  intro c hc
  have hlist : (toString n).toList = Nat.toDigits 10 n := Nat.toList_repr
  rw [hlist] at hc
  have hdigit : c.isDigit = true := Nat.isDigit_of_mem_toDigits (by decide) (by decide) hc
  simp only [Char.isDigit, Bool.and_eq_true, decide_eq_true_eq] at hdigit
  exact hdigit

/-- `char::is_whitespace`: the Unicode property White_Space. -/
def isWhitespace (c : Char) : Bool :=
  (9 ≤ c.toNat && c.toNat ≤ 13) || c.toNat == 0x20 || c.toNat == 0x85 || c.toNat == 0xA0 ||
    c.toNat == 0x1680 || (0x2000 ≤ c.toNat && c.toNat ≤ 0x200A) || c.toNat == 0x2028 ||
    c.toNat == 0x2029 || c.toNat == 0x202F || c.toNat == 0x205F || c.toNat == 0x3000

/-- `str::trim_start`. -/
def trimStart (text : String) : String :=
  String.ofList (text.toList.dropWhile isWhitespace)

/-- `str::trim_end`. -/
def trimEnd (text : String) : String :=
  String.ofList (text.toList.reverse.dropWhile isWhitespace).reverse

/-- `str::trim`. -/
def trim (text : String) : String :=
  trimEnd (trimStart text)

/-- Trimming at the end leaves a beginning. -/
theorem prefix_of_trim_end (text : String) : (trimEnd text).toList <+: text.toList := by
  rw [trimEnd, String.toList_ofList]
  have hsuffix : text.toList.reverse.dropWhile isWhitespace <:+ text.toList.reverse :=
    List.dropWhile_suffix isWhitespace
  simpa using List.reverse_prefix.mpr hsuffix

/-- A text that ends with another character is not trimmed at its end. -/
theorem trim_end_eq_self {text : String} {start : List Char} {last : Char}
    (h : text.toList = start ++ [last]) (hlast : isWhitespace last = false) :
    trimEnd text = text := by
  have hreverse : text.toList.reverse = last :: start.reverse := by
    rw [h]
    simp
  rw [trimEnd, hreverse, List.dropWhile_cons_of_neg (by simp [hlast]), ← hreverse,
    List.reverse_reverse, String.ofList_toList]

/-- A text that begins and ends with other characters is not trimmed. -/
theorem trim_eq_self {text : String} {first last : Char} {middle : List Char}
    (h : text.toList = first :: (middle ++ [last])) (hfirst : isWhitespace first = false)
    (hlast : isWhitespace last = false) : trim text = text := by
  have hstart : trimStart text = text := by
    rw [trimStart, h, List.dropWhile_cons_of_neg (by simp [hfirst]), ← h, String.ofList_toList]
  rw [trim, hstart, trim_end_eq_self (List.cons_append ▸ h) hlast]

/-- Only the end behind the last visible character is trimmed. -/
theorem trim_end_append {head : String} {start : List Char} {last : Char}
    (h : head.toList = start ++ [last]) (hlast : isWhitespace last = false) (more : String) :
    trimEnd (head ++ more) = head ++ trimEnd more := by
  have hhead : head.toList.reverse.dropWhile isWhitespace = head.toList.reverse := by
    rw [h, List.reverse_append, List.reverse_singleton, List.singleton_append,
      List.dropWhile_cons_of_neg (by simp [hlast])]
  refine String.toList_inj.mp ?_
  simp only [trimEnd, String.toList_append, String.toList_ofList, List.reverse_append,
    List.dropWhile_append]
  split
  case isTrue hempty =>
    rw [List.isEmpty_iff.mp hempty, hhead]
    simp
  case isFalse => simp

/-- Of a word and what follows it only the end is trimmed. -/
theorem trim_word {word : String} (hword : ∀ c ∈ word.toList, isWhitespace c = false)
    (hne : word.toList ≠ []) (more : String) : trim (word ++ more) = word ++ trimEnd more := by
  have hstart : trimStart (word ++ more) = word ++ more := by
    obtain ⟨first, rest, hfirst⟩ := List.exists_cons_of_ne_nil hne
    have hvisible := hword first (hfirst ▸ List.mem_cons_self)
    rw [trimStart, String.toList_append, hfirst, List.cons_append,
      List.dropWhile_cons_of_neg (by simp [hvisible]), ← List.cons_append, ← hfirst,
      ← String.toList_append, String.ofList_toList]
  have hlast := (List.dropLast_append_getLast hne).symm
  rw [trim, hstart, trim_end_append hlast (hword _ (List.getLast_mem hne))]

/-- The visible characters of a text. -/
def visible (text : List Char) : Nat :=
  text.countP fun c => !isWhitespace c

theorem visible_drop_while (text : List Char) :
    visible (text.dropWhile isWhitespace) = visible text := by
  induction text with
  | nil => rfl
  | cons c text ih =>
      cases hc : isWhitespace c with
      | true => simpa [visible, hc] using ih
      | false => rw [List.dropWhile_cons_of_neg (by simp [hc])]

/-- Trimming removes nothing visible. -/
theorem visible_trim (text : String) : visible (trim text).toList = visible text.toList := by
  have hreverse : ∀ text : List Char, visible text.reverse = visible text := fun text =>
    (List.reverse_perm text).countP_eq _
  rw [trim, trimEnd, String.toList_ofList, hreverse, visible_drop_while, hreverse, trimStart,
    String.toList_ofList, visible_drop_while]

theorem visible_append (first second : List Char) :
    visible (first ++ second) = visible first + visible second :=
  List.countP_append

/-- What is contained is no more visible. -/
theorem visible_le_of_infix {part text : List Char} (h : part <:+: text) :
    visible part ≤ visible text :=
  h.sublist.countP_le

/-- What begins with a visible character is no part of the space before the text. -/
theorem infix_drop_while {c : Char} (h : isWhitespace c = false) {part text : List Char} :
    c :: part <:+: text.dropWhile isWhitespace ↔ c :: part <:+: text := by
  induction text with
  | nil => rfl
  | cons d text ih =>
      cases hd : isWhitespace d with
      | true =>
          rw [List.dropWhile_cons_of_pos hd, ih, List.infix_cons_iff, List.cons_prefix_cons]
          constructor
          · exact .inr
          · rintro (⟨rfl, -⟩ | hrest)
            · rw [h] at hd
              cases hd
            · exact hrest
      | false => rw [List.dropWhile_cons_of_neg (by simp [hd])]

/-- What is left does not begin with space. -/
theorem eq_cons_of_drop_while (text : List Char) :
    text.dropWhile isWhitespace = [] ∨
      ∃ c rest, text.dropWhile isWhitespace = c :: rest ∧ isWhitespace c = false := by
  cases hleft : text.dropWhile isWhitespace with
  | nil => exact .inl rfl
  | cons c rest =>
      have hc := List.head?_dropWhile_not isWhitespace text
      rw [hleft] at hc
      exact .inr ⟨c, rest, rfl, by simpa using hc⟩

/-- A trimmed text is contained in a text exactly when it is in what trimming leaves of it. -/
theorem trim_infix_trim (part text : String) :
    (trim part).toList <:+: (trim text).toList ↔ (trim part).toList <:+: text.toList := by
  have htext : (trim text).toList =
      ((text.toList.dropWhile isWhitespace).reverse.dropWhile isWhitespace).reverse := by
    rw [trim, trimEnd, String.toList_ofList, trimStart, String.toList_ofList]
  rcases eq_cons_of_drop_while (trimStart part).toList.reverse with
    hnil | ⟨last, rest, hlast, hvisible⟩
  · have hpart : (trim part).toList = [] := by
      rw [trim, trimEnd, String.toList_ofList, hnil, List.reverse_nil]
    rw [hpart]
    exact iff_of_true List.nil_infix List.nil_infix
  have hreverse : (trim part).toList.reverse = last :: rest := by
    rw [trim, trimEnd, String.toList_ofList, hlast, List.reverse_reverse]
  have hend : (trim part).toList <:+: (trim text).toList ↔
      (trim part).toList <:+: text.toList.dropWhile isWhitespace := by
    rw [← List.reverse_infix, hreverse, htext, List.reverse_reverse, infix_drop_while hvisible,
      ← hreverse, List.reverse_infix]
  rw [hend]
  -- The first character of the trimmed text is the first one of `trimStart`.
  obtain ⟨first, middle, hfirst⟩ := List.exists_cons_of_ne_nil
    (show (trim part).toList ≠ [] by rw [← List.reverse_ne_nil_iff, hreverse]; nofun)
  have hstart := prefix_of_trim_end (trimStart part)
  rw [← trim, hfirst, trimStart, String.toList_ofList] at hstart
  rcases eq_cons_of_drop_while part.toList with hnil | ⟨c, tail, hcons, hc⟩
  · rw [hnil, List.prefix_nil] at hstart
    cases hstart
  · rw [hcons, List.cons_prefix_cons] at hstart
    rw [hfirst, hstart.1, infix_drop_while hc]

/-- Split at the characters satisfying `isBreak`, collecting the current piece in `piece`. -/
def pieces (isBreak : Char → Bool) (piece : List Char) : List Char → List (List Char)
  | [] => [piece.reverse]
  | c :: text =>
      if isBreak c then piece.reverse :: pieces isBreak [] text
      else pieces isBreak (c :: piece) text

/-- `str::split_whitespace`. -/
def splitWhitespace (text : String) : List String :=
  ((pieces isWhitespace [] text.toList).filter fun piece => !piece.isEmpty).map String.ofList

/-- Text without a break before a break is a piece. -/
theorem pieces_append {isBreak : Char → Bool} {word : List Char} {c : Char}
    (hword : ∀ d ∈ word, isBreak d = false) (hc : isBreak c = true) (piece text : List Char) :
    pieces isBreak piece (word ++ c :: text) =
      (piece.reverse ++ word) :: pieces isBreak [] text := by
  induction word generalizing piece with
  | nil => simp [pieces, hc]
  | cons d word ih =>
      have hd := hword d List.mem_cons_self
      rw [List.cons_append, pieces, if_neg (by simp [hd]),
        ih fun d hmem => hword d (List.mem_cons_of_mem _ hmem)]
      simp

/-- A last line feed is trimmed. -/
theorem trim_newline (text : String) : trim (text ++ "\n") = trim text := by
  have hnewline : isWhitespace '\n' = true := by decide
  refine String.toList_inj.mp ?_
  simp only [trim, trimEnd, trimStart, String.toList_ofList, String.toList_append,
    List.dropWhile_append]
  split
  case isTrue hempty =>
    rw [List.isEmpty_iff.mp hempty]
    rfl
  case isFalse =>
    rw [List.reverse_append]
    show (('\n' :: (text.toList.dropWhile isWhitespace).reverse).dropWhile
      isWhitespace).reverse = _
    rw [List.dropWhile_cons_of_pos hnewline]

/-- A text without a break is one piece. -/
theorem pieces_word {isBreak : Char → Bool} {word : List Char}
    (hword : ∀ c ∈ word, isBreak c = false) (piece : List Char) :
    pieces isBreak piece word = [piece.reverse ++ word] := by
  induction word generalizing piece with
  | nil => simp [pieces]
  | cons c word ih =>
      rw [pieces, if_neg (by simp [hword c List.mem_cons_self]),
        ih fun d hmem => hword d (List.mem_cons_of_mem _ hmem)]
      simp

/-- The first word of a text that begins with it. -/
theorem head_split_whitespace {word rest : String}
    (hword : ∀ c ∈ word.toList, isWhitespace c = false) (hne : word.toList ≠ [])
    (hrest : rest.toList = [] ∨ ∃ c more, rest.toList = c :: more ∧ isWhitespace c = true) :
    (splitWhitespace (word ++ rest)).head? = some word := by
  have hpieces : ∃ others,
      pieces isWhitespace [] (word ++ rest).toList = word.toList :: others := by
    rw [String.toList_append]
    rcases hrest with hnil | ⟨c, more, hrest, hc⟩
    · exact ⟨[], by rw [hnil, List.append_nil, pieces_word hword]; rfl⟩
    · exact ⟨_, by rw [hrest, pieces_append hword hc]; rfl⟩
  obtain ⟨others, hothers⟩ := hpieces
  rw [splitWhitespace, hothers, List.filter_cons_of_pos (by simpa using hne), List.map_cons,
    String.ofList_toList]
  rfl

/-- A terminated line loses one carriage return before its line feed. -/
def chomp (line : List Char) : List Char :=
  if line.getLast? = some '\r' then line.dropLast else line

/-- The lines of a text; a last line without a line feed counts unless it is empty. -/
def lineChars (line : List Char) : List Char → List (List Char)
  | [] => if line.isEmpty then [] else [line.reverse]
  | '\n' :: text => chomp line.reverse :: lineChars [] text
  | c :: text => lineChars (c :: line) text

/-- `str::lines`. -/
def lines (text : String) : List String :=
  (lineChars [] text.toList).map String.ofList

/-! ## Bytes as text -/

/-- The UTF-8 bytes of a string. -/
def bytes (text : String) : List UInt8 :=
  text.toUTF8.data.toList

/-- `str::from_utf8`, and `String::from_utf8`. -/
def fromUtf8 (input : List UInt8) : Option String :=
  String.fromUTF8? ⟨input.toArray⟩

/-- Encoding a string and decoding the bytes gives the string back. -/
@[simp] theorem from_utf8_bytes (text : String) : fromUtf8 (bytes text) = some text := by
  have hdata : (⟨(bytes text).toArray⟩ : ByteArray) = text.toUTF8 := by simp [bytes]
  simp only [fromUtf8, hdata, String.fromUTF8?, String.toUTF8_eq_toByteArray,
    dif_pos text.isValidUTF8]
  rfl

/-- Bytes that are decoded are those of the text. -/
theorem bytes_of_from_utf8 {input : List UInt8} {text : String}
    (h : fromUtf8 input = some text) : bytes text = input := by
  unfold fromUtf8 String.fromUTF8? at h
  split at h
  · obtain rfl := Option.some.inj h
    simp [bytes, String.fromUTF8]
  · cases h

/-- A string is encoded character by character. -/
theorem bytes_of_list (text : List Char) :
    bytes (String.ofList text) = text.flatMap String.utf8EncodeChar := by
  show (text.flatMap String.utf8EncodeChar).toByteArray.data.toList = _
  simp

theorem bytes_eq (text : String) : bytes text = text.toList.flatMap String.utf8EncodeChar := by
  have hlist := bytes_of_list text.toList
  rwa [String.ofList_toList] at hlist

/-- One text begins with another exactly when its bytes do. -/
theorem bytes_prefix_iff {first second : String} :
    bytes first <+: bytes second ↔ first.toList <+: second.toList := by
  have hbytes : ∀ text : String, (bytes text).toByteArray = text.toList.utf8Encode := by
    intro text
    rw [String.utf8Encode_toList]
    exact ByteArray.ext (by simp [bytes])
  constructor
  · rintro ⟨rest, hrest⟩
    refine List.isPrefix_of_utf8Encode_append_eq_utf8Encode rest.toByteArray ?_
    rw [← hbytes, ← hbytes, ← hrest, List.toByteArray_append]
  · rintro ⟨rest, hrest⟩
    rw [bytes_eq, bytes_eq, ← hrest, List.flatMap_append]
    exact List.prefix_append _ _

/-- A character takes at most four bytes. -/
theorem length_bytes_of_list_le (text : List Char) :
    (bytes (String.ofList text)).length ≤ 4 * text.length := by
  rw [bytes_of_list]
  induction text with
  | nil => simp
  | cons c text ih =>
      have hc : (String.utf8EncodeChar c).length ≤ 4 := by
        rw [String.length_utf8EncodeChar]
        exact Char.utf8Size_le_four c
      rw [List.flatMap_cons, List.length_append, List.length_cons]
      omega

/-- One step of a UTF-8 decoder: a scalar value or the longest ill formed prefix, with the
bytes after it. -/
inductive Scalar where
  | valid (c : Char) (rest : List UInt8)
  | invalid (rest : List UInt8)

/-- A continuation byte. -/
def isContinuation (b : UInt8) : Bool :=
  b &&& 0xC0 == 0x80

/-- Whether `second` may follow the leading byte `first` of a three or four byte sequence. -/
def secondFits (first second : UInt8) : Bool :=
  if first == 0xE0 then 0xA0 ≤ second && second ≤ 0xBF
  else if first == 0xED then 0x80 ≤ second && second ≤ 0x9F
  else if first == 0xF0 then 0x90 ≤ second && second ≤ 0xBF
  else if first == 0xF4 then 0x80 ≤ second && second ≤ 0x8F
  else isContinuation second

/-- The payload bits of a continuation byte. -/
def payload (b : UInt8) : Nat :=
  b.toNat % 64

/-- Decode the sequence that starts with the byte `first`. -/
def nextScalar (first : UInt8) (rest : List UInt8) : Scalar :=
  if first < 0x80 then .valid (Char.ofNat first.toNat) rest
  else if 0xC2 ≤ first && first ≤ 0xDF then
    match rest with
    | b1 :: rest1 =>
        if isContinuation b1 then
          .valid (Char.ofNat (first.toNat % 32 * 64 + payload b1)) rest1
        else .invalid rest
    | [] => .invalid rest
  else if 0xE0 ≤ first && first ≤ 0xEF then
    match rest with
    | b1 :: rest1 =>
        if secondFits first b1 then
          match rest1 with
          | b2 :: rest2 =>
              if isContinuation b2 then
                .valid (Char.ofNat (first.toNat % 16 * 4096 + payload b1 * 64 + payload b2)) rest2
              else .invalid rest1
          | [] => .invalid rest1
        else .invalid rest
    | [] => .invalid rest
  else if 0xF0 ≤ first && first ≤ 0xF4 then
    match rest with
    | b1 :: rest1 =>
        if secondFits first b1 then
          match rest1 with
          | b2 :: rest2 =>
              if isContinuation b2 then
                match rest2 with
                | b3 :: rest3 =>
                    if isContinuation b3 then
                      .valid (Char.ofNat (first.toNat % 8 * 262144 + payload b1 * 4096 +
                        payload b2 * 64 + payload b3)) rest3
                    else .invalid rest2
                | [] => .invalid rest2
              else .invalid rest1
          | [] => .invalid rest1
        else .invalid rest
    | [] => .invalid rest
  else .invalid rest

/-- Decode at most `fuel` sequences, each ill formed one as U+FFFD. -/
def lossyChars : Nat → List UInt8 → List Char
  | 0, _ => []
  | _ + 1, [] => []
  | fuel + 1, first :: rest =>
      match nextScalar first rest with
      | .valid c tail => c :: lossyChars fuel tail
      | .invalid tail => '\uFFFD' :: lossyChars fuel tail

/-- `String::from_utf8_lossy`. -/
def fromUtf8Lossy (input : List UInt8) : String :=
  String.ofList (lossyChars input.length input)

example : fromUtf8Lossy [0x61, 0xE2, 0x82, 0xAC, 0xE2, 0x82, 0x62, 0xFF] = "a€\uFFFDb\uFFFD" := by
  decide

end Text
