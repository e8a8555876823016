import Metrology.Proofs.Expression.LongestNumbers
import Metrology.Proofs.Expression.Sweep

/-!
# What a sweep finds: code points and numbers

From an offset on, a sweep reads the code points that `Utf8.decodeAll` finds there (`Sweep.Stands`):
it decodes the first one and goes on where the others stand (`Sweep.Stands.starts`). The signs,
digits, points and exponent parts that it passes byte by byte are those that scanning finds in the
code points, so that a number is what the lexer says it is (`Sweep.agrees_number`).
-/

set_option autoImplicit false
set_option relaxedAutoImplicit false

namespace Metrology

namespace Sweep

variable {text : Text} {ending : Option Utf8.Fault} {offset : Nat} {codes : List Nat}

/-! ### Code points -/

/-- Code points stand at an offset of a text, up to its end or a fault. -/
def Stands (text : Text) (ending : Option Utf8.Fault) (offset : Nat) (codes : List Nat) : Prop :=
  Utf8.decodeAll (text.drop offset) = (codes, ending)

theorem result_continuation {count bits target : Nat} {rest : Text}
    (hdrop : text.drop target = rest) (hcount : count ≤ rest.length) :
    (continuation text count bits target offset).result =
      match Utf8.continuation? count bits rest with
      | some (code, _) => .ok (code, offset)
      | none => .error ⟨.encoding .malformed, offset⟩ := by
  induction count generalizing bits target rest with
  | zero => rfl
  | succ count ih =>
    cases rest with
    | nil => cases hcount
    | cons byte rest =>
      have hbyte : text[target]? = some byte := by rw [← List.head?_drop, hdrop, List.head?_cons]
      have hrest : text.drop (target + 1) = rest := by
        rw [← List.drop_drop, hdrop, List.drop_one, List.tail_cons]
      have hbehind := fun bits ↦ @ih bits (target + 1) rest hrest (Nat.le_of_succ_le_succ hcount)
      cases hsix : Utf8.payload? byte with
      | none => simp [continuation, Utf8.continuation?, hbyte, hsix]
      | some six => simp [continuation, Utf8.continuation?, hbyte, hsix, hbehind]

/-- What decoding finds at an offset, in a form of a length. -/
def decoded (offset length : Nat) :
    Except Utf8.Fault (Nat × Text) → Except Lexer.Refusal ((Nat × Nat) × Nat)
  | .ok (code, _) => .ok ((code, length), offset)
  | .error fault => .error ⟨.encoding fault, offset⟩

theorem result_form {count least bits : Nat} {lead : UInt8} {rest : Text}
    (hdrop : text.drop offset = lead :: rest) : (form text count least bits offset).result =
      decoded offset (count + 1) (Utf8.form count least bits rest) := by
  have hlength : text.length = offset + (rest.length + 1) := by
    have hlength := congrArg List.length hdrop
    rw [List.length_drop, List.length_cons] at hlength
    omega
  have hrest : text.drop (offset + 1) = rest := by
    rw [← List.drop_drop, hdrop, List.drop_one, List.tail_cons]
  unfold Utf8.form
  by_cases hshort : rest.length < count
  · simp [form, hshort, hlength, decoded]
  · have hcontinuation := @result_continuation text offset count bits (offset + 1) rest hrest
      (Nat.le_of_not_lt hshort)
    cases hread : Utf8.continuation? count bits rest with
    | none => simp [form, hshort, hlength, decoded, hcontinuation, hread]
    | some read =>
      by_cases hleast : read.1 < least
      · simp [form, hshort, hlength, decoded, hcontinuation, hread, hleast]
      · simp [form, hshort, hlength, decoded, hcontinuation, hread, hleast]

theorem length_of_form {count least bits code : Nat} {rest after : Text}
    (hread : Utf8.form count least bits rest = .ok (code, after)) :
    rest.length = after.length + count := by
  unfold Utf8.form at hread
  split at hread
  · cases hread
  · split at hread
    · next hcontinuation =>
      split at hread
      · cases hread
      · cases hread
        exact Utf8.length_of_continuation? hcontinuation
    · cases hread

/-- A sweep decodes as decoding from the left does, and knows the length of what it finds. -/
theorem exists_result_decode {lead : UInt8} {rest : Text}
    (hdrop : text.drop offset = lead :: rest) :
    ∃ length, (decode text offset).result = decoded offset length (Utf8.decode lead rest) ∧
      ∀ code after, Utf8.decode lead rest = .ok (code, after) →
        rest.length + 1 = after.length + length := by
  have hlead : text[offset]? = some lead := by rw [← List.head?_drop, hdrop, List.head?_cons]
  have hform : ∀ count least bits, ∃ length,
      (form text count least bits offset).result =
          decoded offset length (Utf8.form count least bits rest) ∧
        ∀ code after, Utf8.form count least bits rest = .ok (code, after) →
          rest.length + 1 = after.length + length := by
    refine fun count least bits ↦ ⟨count + 1, result_form hdrop, fun code after hread ↦ ?_⟩
    rw [length_of_form hread, Nat.add_assoc]
  simp only [decode, Traced.result_stateT_bind, result_here, result_byteAt, Traced.ok_bind, hlead,
    Option.getD_some, Utf8.decode]
  by_cases hascii : lead.toNat < 0x80
  · simp only [if_pos hascii]
    exact ⟨1, rfl, fun code after hread ↦ by cases hread; rfl⟩
  simp only [if_neg hascii]
  by_cases hcontinues : lead.toNat < 0xC0
  · simp only [if_pos hcontinues]
    exact ⟨0, rfl, fun code after hread ↦ by cases hread⟩
  simp only [if_neg hcontinues]
  by_cases htwo : lead.toNat < 0xE0
  · simpa only [if_pos htwo] using hform _ _ _
  simp only [if_neg htwo]
  by_cases hthree : lead.toNat < 0xF0
  · simpa only [if_pos hthree] using hform _ _ _
  simp only [if_neg hthree]
  by_cases hfour : lead.toNat < 0xF8
  · simpa only [if_pos hfour] using hform _ _ _
  · simp only [if_neg hfour]
    exact ⟨0, rfl, fun code after hread ↦ by cases hread⟩

/-! ### Characters of numbers -/

theorem lt_of_isDigit {code : Nat} (hdigit : isDigit code = true) : code < 0x80 := by
  simp [isDigit] at hdigit
  omega

theorem lt_of_isSign {code : Nat} (hsign : isSign code = true) : code < 0x80 := by
  simp [isSign] at hsign
  omega

theorem length_signCodes_scan (codes : List Nat) : (Sign.codes (Sign.scan codes).1).length =
    if codes.head?.any isSign then 1 else 0 := by
  cases codes with
  | nil => rfl
  | cons first rest =>
    by_cases hplus : first = 43
    · simp [Sign.scan, Sign.code, Sign.codes, isSign, hplus]
    · by_cases hminus : first = 45
      · simp [Sign.scan, Sign.code, Sign.codes, isSign, hminus]
      · simp [Sign.scan, Sign.code, Sign.codes, isSign, hplus, hminus]

/-- A digit stands where scanning finds digits. -/
theorem head?_any_isDigit (codes : List Nat) :
    codes.head?.any isDigit = !(scanDigits codes).1.isEmpty := by
  cases codes with
  | nil => rfl
  | cons first rest => by_cases hdigit : isDigit first = true <;> simp [scanDigits, hdigit]

theorem size_of_ascii {code : Nat} (hascii : code < 0x80) : Utf8.size code = 1 := by
  rw [Utf8.size, Utf8.encode, if_pos hascii]
  rfl

theorem sizeAll_of_ascii {codes : List Nat} (hascii : ∀ code ∈ codes, code < 0x80) :
    Utf8.sizeAll codes = codes.length := by
  rw [Utf8.sizeAll, ← List.length_map UInt8.toNat, Utf8.map_toNat_encodeAll hascii]

theorem ascii_of_mem_mantissa {code : Nat}
    (hcode : code ∈ (Mantissa.scan codes).1.codes) : code < 0x80 := by
  rcases List.mem_append.mp hcode with hleft | hfraction
  · rcases List.mem_append.mp hleft with hsign | hwhole
    · exact (by decide : ∀ sign ∈ [43, 45], sign < 0x80) code (Numeral.mem_of_mem_signCodes hsign)
    · exact lt_of_isDigit (Numeral.isDigit_of_mem_map
        (fun _ hdigit ↦ Numeral.lt_ten_of_mem_scanDigits hdigit) hwhole)
  · cases hscan : (Mantissa.scan codes).1.fraction with
    | none =>
      rw [hscan] at hfraction
      cases hfraction
    | some digits =>
      rw [hscan] at hfraction
      rcases List.mem_cons.mp hfraction with rfl | hdigit
      · decide
      · exact lt_of_isDigit (Numeral.isDigit_of_mem_map
          (fun _ hmem ↦ Numeral.lt_ten_of_mem_scanFraction hscan hmem) hdigit)

/-- No digit stands behind a mantissa. -/
theorem isDigit_head_mantissa (codes : List Nat) :
    ∀ code ∈ (Mantissa.scan codes).2.head?, isDigit code = false := by
  have hwhole := isDigit_head_scanDigits (Sign.scan codes).2
  simp only [Mantissa.scan]
  generalize (scanDigits (Sign.scan codes).2).2 = after at *
  cases after with
  | nil => exact hwhole
  | cons first rest =>
    by_cases hpoint : first = 46
    · simpa [Mantissa.scanFraction, hpoint] using isDigit_head_scanDigits rest
    · simpa [Mantissa.scanFraction, hpoint] using hwhole

/-- No digit stands behind an exponent part, nor where there is none behind a mantissa. -/
theorem isDigit_head_exponent (hcodes : ∀ code ∈ codes.head?, isDigit code = false) :
    ∀ code ∈ (ExponentPart.scan codes).2.head?, isDigit code = false := by
  unfold ExponentPart.scan
  split
  · exact hcodes
  · next first rest =>
    split
    · dsimp only
      split
      · exact hcodes
      · next digits behind _ hscan =>
        have hbehind := isDigit_head_scanDigits (Sign.scan rest).2
        rwa [hscan] at hbehind
    · exact hcodes

/-! ### Code points that stand at an offset -/

/-- A code point stands at an offset, and others behind it. -/
structure Starts (text : Text) (ending : Option Utf8.Fault) (offset first : Nat)
    (rest : List Nat) : Prop where
  lt : offset < text.length
  decode : (decode text offset).result = .ok ((first, Utf8.size first), offset)
  rest : Stands text ending (offset + Utf8.size first) rest
  ascii : first < 0x80 → (text[offset]?.getD 0).toNat = first
  beyond : 0x80 ≤ first → 0x80 ≤ (text[offset]?.getD 0).toNat

/-- Before the end of a text stands a byte. -/
theorem exists_drop (hoffset : offset < text.length) :
    ∃ lead rest, text.drop offset = lead :: rest ∧ text[offset]? = some lead :=
  ⟨_, _, List.drop_eq_getElem_cons hoffset, List.getElem?_eq_getElem hoffset⟩

namespace Stands

/-- Behind the end there is neither a code point nor a fault. -/
theorem lt (hstands : Stands text ending offset codes) (hsome : (codes, ending) ≠ ([], none)) :
    offset < text.length := by
  by_contra hbeyond
  rw [Stands, List.drop_eq_nil_of_le (Nat.le_of_not_lt hbeyond), Utf8.decodeAll] at hstands
  exact hsome hstands.symm

theorem starts {first : Nat} {rest : List Nat}
    (hstands : Stands text ending offset (first :: rest)) :
    Starts text ending offset first rest := by
  have hoffset := hstands.lt (by simp)
  obtain ⟨lead, others, hdrop, hlead⟩ := exists_drop hoffset
  obtain ⟨length, hdecode, hlength⟩ := exists_result_decode hdrop
  rw [Stands, hdrop] at hstands
  cases hread : Utf8.decode lead others with
  | error fault =>
    rw [Utf8.decodeAll_cons_of_fault hread] at hstands
    cases hstands
  | ok read =>
    obtain ⟨code, after⟩ := read
    rw [Utf8.decodeAll_cons_of_decode hread] at hstands
    cases hstands
    have hcodes := Utf8.encode_of_decode hread
    have hsize := congrArg List.length hcodes
    rw [List.length_append, List.length_cons, ← Utf8.size] at hsize
    have hbehind := hlength _ _ hread
    have hafter : text.drop (offset + Utf8.size first) = after := by
      rw [← List.drop_drop, hdrop, ← hcodes, Utf8.size, List.drop_left]
    refine ⟨hoffset, ?_, by rw [Stands, hafter], fun hascii ↦ ?_, fun hbeyond ↦ ?_⟩
    · rw [hdecode, hread, show length = Utf8.size first by omega]
      rfl
    · rw [Utf8.encode, if_pos hascii] at hcodes
      cases hcodes
      rw [hlead, Option.getD_some, Utf8.toNat_toUInt8 (by omega)]
    · rw [hlead, Option.getD_some]
      by_contra hascii
      rw [Utf8.decode, if_pos (Nat.lt_of_not_le hascii)] at hread
      cases hread
      exact hascii hbeyond

theorem le (hstands : Stands text none offset []) : text.length ≤ offset := by
  by_contra hinside
  obtain ⟨lead, others, hdrop, _⟩ := exists_drop (Nat.lt_of_not_le hinside)
  rw [Stands, hdrop] at hstands
  cases hread : Utf8.decode lead others with
  | error fault =>
    rw [Utf8.decodeAll_cons_of_fault hread] at hstands
    cases hstands
  | ok read =>
    rw [Utf8.decodeAll_cons_of_decode hread] at hstands
    cases hstands

theorem fault {fault : Utf8.Fault} (hstands : Stands text (some fault) offset []) :
    offset < text.length ∧ (decode text offset).result = .error ⟨.encoding fault, offset⟩ ∧
      0x80 ≤ (text[offset]?.getD 0).toNat := by
  have hoffset := hstands.lt (by simp)
  obtain ⟨lead, others, hdrop, hlead⟩ := exists_drop hoffset
  obtain ⟨length, hdecode, _⟩ := exists_result_decode hdrop
  rw [Stands, hdrop] at hstands
  cases hread : Utf8.decode lead others with
  | ok read =>
    rw [Utf8.decodeAll_cons_of_decode hread] at hstands
    cases hstands
  | error other =>
    rw [Utf8.decodeAll_cons_of_fault hread] at hstands
    cases hstands
    refine ⟨hoffset, by rw [hdecode, hread]; rfl, ?_⟩
    rw [hlead, Option.getD_some]
    by_contra hascii
    rw [Utf8.decode, if_pos (Nat.lt_of_not_le hascii)] at hread
    cases hread

/-- A byte passes a test for characters below `0x80` when the code point that stands there does. -/
theorem test_byte (hstands : Stands text ending offset codes) (hoffset : offset < text.length)
    (test : Nat → Bool) (htest : ∀ code, test code = true → code < 0x80) :
    test (text[offset]?.getD 0).toNat = codes.head?.any test := by
  have hbeyond : ∀ code, 0x80 ≤ code → test code = false := fun code hcode ↦
    Bool.eq_false_iff.mpr fun htrue ↦ Nat.not_lt.mpr hcode (htest code htrue)
  cases codes with
  | nil =>
    cases ending with
    | none => exact absurd hstands.le (Nat.not_le.mpr hoffset)
    | some fault => exact hbeyond _ hstands.fault.2.2
  | cons first rest =>
    rcases Nat.lt_or_ge first 0x80 with hascii | hother
    · simp [hstands.starts.ascii hascii]
    · simp [hbeyond _ hother, hbeyond _ (hstands.starts.beyond hother)]

/-- Behind a character below `0x80` the other code points stand at the next offset. -/
theorem rest_of_ascii {first : Nat} {rest : List Nat}
    (hstands : Stands text ending offset (first :: rest)) (hascii : first < 0x80) :
    Stands text ending (offset + 1) rest :=
  size_of_ascii hascii ▸ hstands.starts.rest

theorem eq_nil (hstands : Stands text ending offset codes) (hoffset : text.length ≤ offset) :
    codes = [] := by
  by_contra hsome
  exact Nat.not_lt.mpr hoffset (hstands.lt (by simp [hsome]))

/-! ### Numbers -/

theorem result_sees (hstands : Stands text ending offset codes) (test : Nat → Bool)
    (htest : ∀ code, test code = true → code < 0x80) :
    (sees text test offset).result = .ok (codes.head?.any test, offset) := by
  rcases Nat.lt_or_ge offset text.length with hoffset | hoffset
  · simp only [sees, Traced.result_stateT_bind, result_here, Traced.ok_bind, if_pos hoffset,
      result_byteAt, Traced.result_stateT_pure, hstands.test_byte hoffset test htest]
  · simp [sees, Nat.not_lt.mpr hoffset, hstands.eq_nil hoffset]

theorem result_digitStep (hstands : Stands text ending offset codes)
    (hoffset : offset < text.length) (count : Nat) : (digitStep text count offset).result =
      .ok (if codes.head?.any isDigit then (some (count + 1), offset + 1) else (none, offset)) := by
  have hbyte := hstands.test_byte hoffset isDigit fun _ ↦ lt_of_isDigit
  simp only [digitStep, Traced.result_stateT_bind, result_here, result_byteAt, Traced.ok_bind,
    hbyte]
  cases codes.head?.any isDigit <;> simp

/-- Digits are passed up to the first character that is none. -/
theorem result_digits (hstands : Stands text ending offset codes) (count : Nat) :
    (digits text count offset).result = .ok (count + (codes.takeWhile isDigit).length,
        offset + (codes.takeWhile isDigit).length) ∧
      Stands text ending (offset + (codes.takeWhile isDigit).length) (codes.dropWhile isDigit) := by
  induction codes generalizing offset count with
  | nil =>
    refine ⟨?_, hstands⟩
    rcases Nat.lt_or_ge offset text.length with hoffset | hoffset
    · rw [digits, Traced.loop_of_lt digitStep_progresses hoffset]
      simp [hstands.result_digitStep hoffset]
    · rw [digits, Traced.loop_of_le digitStep_progresses hoffset]
      rfl
  | cons first rest ih =>
    have hoffset := hstands.starts.lt
    have hstep := hstands.result_digitStep hoffset count
    by_cases hdigit : isDigit first = true
    · obtain ⟨hread, hbehind⟩ := ih (hstands.rest_of_ascii (lt_of_isDigit hdigit)) (count + 1)
      rw [digits] at hread
      rw [List.takeWhile_cons_of_pos hdigit, List.dropWhile_cons_of_pos hdigit, List.length_cons]
      rw [Nat.add_right_comm, Nat.add_assoc] at hbehind
      refine ⟨?_, by simpa [Nat.add_assoc] using hbehind⟩
      rw [digits, Traced.loop_of_lt digitStep_progresses hoffset]
      simp [hstep, hdigit, hread]
      omega
    · rw [List.takeWhile_cons_of_neg hdigit, List.dropWhile_cons_of_neg hdigit]
      refine ⟨?_, hstands⟩
      rw [digits, Traced.loop_of_lt digitStep_progresses hoffset]
      simp [hstep, hdigit]

/-- What stands behind code points. -/
theorem behind {taken rest : List Nat} (hstands : Stands text ending offset (taken ++ rest)) :
    Stands text ending (offset + Utf8.sizeAll taken) rest := by
  induction taken generalizing offset with
  | nil => exact hstands
  | cons first others ih =>
    rw [Utf8.sizeAll_cons, ← Nat.add_assoc]
    exact ih hstands.starts.rest

theorem behind_ascii {taken rest : List Nat} (hstands : Stands text ending offset (taken ++ rest))
    (hascii : ∀ code ∈ taken, code < 0x80) : Stands text ending (offset + taken.length) rest :=
  sizeAll_of_ascii hascii ▸ hstands.behind

/-- Digits are passed up to the first character that is none, and counted. -/
theorem result_scanDigits (hstands : Stands text ending offset codes) (count : Nat) :
    (digits text count offset).result = .ok (count + (scanDigits codes).1.length,
        offset + (scanDigits codes).1.length) ∧
      Stands text ending (offset + (scanDigits codes).1.length) (scanDigits codes).2 := by
  rw [scanDigits, List.length_map]
  exact hstands.result_digits count

/-- What stands behind a sign. -/
theorem behind_sign (hstands : Stands text ending offset codes) :
    Stands text ending (offset + if codes.head?.any isSign then 1 else 0) (Sign.scan codes).2 := by
  rw [← length_signCodes_scan]
  refine behind_ascii ((Sign.codes_scan codes).symm ▸ hstands) fun code hcode ↦ ?_
  exact (by decide : ∀ sign ∈ [43, 45], sign < 0x80) code (Numeral.mem_of_mem_signCodes hcode)

/-- The digits behind a point are passed as they are scanned. -/
theorem result_fraction (hstands : Stands text ending offset codes) (whole : Nat) :
    (fraction text whole offset).result = .ok ((whole +
        ((Mantissa.scanFraction codes).1.getD []).length, (Mantissa.scanFraction codes).1.isSome),
      offset + (Mantissa.fractionCodes (Mantissa.scanFraction codes).1).length) ∧
    Stands text ending (offset + (Mantissa.fractionCodes (Mantissa.scanFraction codes).1).length)
      (Mantissa.scanFraction codes).2 := by
  have hpointed := hstands.result_sees (· == 46) (by simp)
  cases codes with
  | nil =>
    exact ⟨by simp [fraction, hpointed, Mantissa.scanFraction, Mantissa.fractionCodes], hstands⟩
  | cons first rest =>
    by_cases hpoint : first = 46
    · obtain ⟨hdigits, hrest⟩ := (hstands.rest_of_ascii (by omega)).result_scanDigits whole
      rw [Nat.add_right_comm, Nat.add_assoc] at hrest
      simp only [Mantissa.scanFraction, if_pos hpoint, Mantissa.fractionCodes, List.length_cons,
        List.length_map]
      refine ⟨?_, hrest⟩
      simp [fraction, hpointed, hpoint, hdigits]
      omega
    · simp only [Mantissa.scanFraction, if_neg hpoint]
      exact ⟨by simp [fraction, hpointed, hpoint, Mantissa.fractionCodes], hstands⟩

/-- A mantissa is passed as it is scanned. -/
theorem result_mantissa {first : Nat} {rest : List Nat}
    (hstands : Stands text ending offset (first :: rest)) {found : Mantissa} {after : List Nat}
    (hscan : Mantissa.scan (first :: rest) = (found, after)) :
    (mantissa text offset).result = .ok ((found.digits.length, found.fraction.isSome),
      offset + found.codes.length) ∧ Stands text ending (offset + found.codes.length) after := by
  have hsign := hstands.test_byte hstands.starts.lt isSign fun _ ↦ lt_of_isSign
  obtain ⟨hwhole, hpoint⟩ := hstands.behind_sign.result_scanDigits 0
  obtain ⟨hfraction, hafter⟩ :=
    hpoint.result_fraction (0 + (scanDigits (Sign.scan (first :: rest)).2).1.length)
  have hlength := length_signCodes_scan (first :: rest)
  simp only [Mantissa.scan, Prod.mk.injEq] at hscan
  obtain ⟨rfl, rfl⟩ := hscan
  refine ⟨?_, ?_⟩
  · simp only [mantissa, Traced.result_stateT_bind, result_here, result_byteAt, Traced.ok_bind,
      hsign, result_skip, hwhole, hfraction]
    simp [Mantissa.digits, Mantissa.codes, hlength, Nat.add_assoc]
  · simpa [Mantissa.codes, hlength, Nat.add_assoc] using hafter

/-- Behind its letter an exponent part is passed when it has digits, and nothing is passed when it
has none. -/
theorem result_exponentPart_of_letter {first : Nat} {rest : List Nat}
    (hstands : Stands text ending offset (first :: rest))
    (hletter : (first == 101 || first == 69) = true) :
    (exponentPart text offset).result = .ok
      (if (scanDigits (Sign.scan rest).2).1 = [] then (false, offset)
      else (true, offset + 1 + (Sign.codes (Sign.scan rest).1).length +
        (scanDigits (Sign.scan rest).2).1.length)) := by
  have hletters := hstands.result_sees (fun byte ↦ byte == 101 || byte == 69) (by simp)
  have hrest := hstands.rest_of_ascii (by simp at hletter; omega)
  have hsigned := hrest.result_sees isSign fun _ ↦ lt_of_isSign
  have hunsigned := hrest.behind_sign
  have hdigit := hunsigned.result_sees isDigit fun _ ↦ lt_of_isDigit
  have hdigits := (hunsigned.result_scanDigits 0).1
  rw [head?_any_isDigit] at hdigit
  rw [length_signCodes_scan]
  generalize (scanDigits (Sign.scan rest).2).1 = found at *
  cases found with
  | nil => simp [exponentPart, hletters, hletter, hsigned, hdigit]
  | cons digit digits => simp [exponentPart, hletters, hletter, hsigned, hdigit, hdigits]

/-- An exponent part is passed as it is scanned. -/
theorem result_exponentPart (hstands : Stands text ending offset codes)
    {part? : Option ExponentPart} {after : List Nat}
    (hscan : ExponentPart.scan codes = (part?, after)) :
    (exponentPart text offset).result =
        .ok (part?.isSome, offset + ((part?.map ExponentPart.codes).getD []).length) ∧
      Stands text ending (offset + ((part?.map ExponentPart.codes).getD []).length) after := by
  have hletters := hstands.result_sees (fun byte ↦ byte == 101 || byte == 69) (by simp)
  cases codes with
  | nil =>
    cases hscan
    exact ⟨by simp [exponentPart, hletters], hstands⟩
  | cons first rest =>
    by_cases hfirst : first = ExponentPart.letter true ∨ first = ExponentPart.letter false
    · have hletter : (first == 101 || first == 69) = true := by
        rcases hfirst with rfl | rfl <;> decide
      have hrest := hstands.rest_of_ascii (by simp at hletter; omega)
      have hafter := (hrest.behind_sign.result_scanDigits 0).2
      rw [← length_signCodes_scan] at hafter
      rw [hstands.result_exponentPart_of_letter hletter]
      simp only [ExponentPart.scan, if_pos hfirst] at hscan
      generalize scanDigits (Sign.scan rest).2 = scanned at *
      obtain ⟨found, behind⟩ := scanned
      cases found with
      | nil =>
        cases hscan
        exact ⟨rfl, hstands⟩
      | cons digit digits =>
        cases hscan
        have hlength : offset + 1 + (Sign.codes (Sign.scan rest).1).length +
            (digit :: digits).length = offset + (ExponentPart.codes
              ⟨decide (first = ExponentPart.letter true), (Sign.scan rest).1,
                digit :: digits⟩).length := by
          simp [ExponentPart.codes]
          omega
        rw [hlength] at hafter ⊢
        exact ⟨rfl, hafter⟩
    · simp only [ExponentPart.scan, if_neg hfirst] at hscan
      cases hscan
      have hnone : (first == 101 || first == 69) = false := by
        simpa [ExponentPart.letter, and_comm] using hfirst
      exact ⟨by simp [exponentPart, hletters, hnone], hstands⟩

/-- The bytes of code points that stand at an offset. -/
theorem take_drop {taken rest : List Nat} (hstands : Stands text ending offset (taken ++ rest)) :
    (text.drop offset).take (Utf8.sizeAll taken) = Utf8.encodeAll taken := by
  obtain ⟨after, hafter⟩ := Utf8.encodeAll_prefix_of_decodeAll hstands
  rw [← hafter, Utf8.encodeAll_append, List.append_assoc, Utf8.sizeAll, List.take_left]

end Stands

/-! ### What the lexer says of a number -/

/-- What a sweep comes to where the lexer reads from code points. A fault that ends the code points
may end the sweep in a lexeme that goes up to the fault. -/
inductive Agrees (ending : Option Utf8.Fault) (offset : Nat) :
    Except Lexer.Failure Lexer.Lexeme → Except Lexer.Refusal (TokenKind × Nat) → Prop
  | read (lexeme : Lexer.Lexeme) :
      Agrees ending offset (.ok lexeme) (.ok (lexeme.kind, offset + Utf8.sizeAll lexeme.codes))
  | stopped {lexeme : Lexer.Lexeme} {fault : Utf8.Fault} (hrest : lexeme.rest = [])
      (hending : ending = some fault) : Agrees ending offset (.ok lexeme)
        (.error ⟨.encoding fault, offset + Utf8.sizeAll lexeme.codes⟩)
  | failed (failure : Lexer.Failure) :
      Agrees ending offset (.error failure) (.error ⟨failure.fault, offset + failure.offset⟩)

theorem result_sees_pointOrDigit (hstands : Stands text ending offset codes) :
    (sees text (fun byte ↦ byte == 46 || isDigit byte) offset).result =
      .ok (codes.head?.any fun code ↦ code == 46 || isDigit code, offset) :=
  hstands.result_sees _ (by simp [isDigit]; omega)

/-- A point behind a numeral is refused together with it. -/
theorem result_literal_of_point {rest : List Nat} (hascii : ∀ code ∈ codes, code < 0x80)
    (hstands : Stands text ending offset (codes ++ 46 :: rest)) (pointed scaled : Bool) :
    (literal text offset pointed scaled (offset + codes.length)).result =
      .error ⟨.malformedNumber (Lexer.textWithPoint codes), offset⟩ := by
  have hsees := result_sees_pointOrDigit (hstands.behind_ascii hascii)
  have hslice : (text.drop offset).take (codes.length + 1) = Lexer.textWithPoint codes := by
    have hsize : Utf8.sizeAll (codes ++ [46]) = codes.length + 1 := by
      rw [Utf8.sizeAll_append, sizeAll_of_ascii hascii]
      rfl
    rw [Lexer.textWithPoint, ← hsize]
    exact Stands.take_drop (by rwa [List.append_assoc])
  simp [literal, hsees, hslice, Nat.add_assoc]

/-- A written numeral has an integer when there is neither a point nor an exponent part. -/
theorem integer?_of_isWritten {numeral : Numeral} (hwritten : numeral.IsWritten) :
    (if numeral.mantissa.fraction.isSome || numeral.exponent.isSome then none
      else (Numeral.scan numeral.codes).bind (·.1.integer?)) = numeral.integer? := by
  rw [hwritten.scan_codes, Option.bind_some, Numeral.integer?]
  cases numeral.mantissa.fraction <;> cases numeral.exponent <;> simp

/-- A numeral behind which neither a point nor a digit stands is converted. -/
theorem result_literal {numeral : Numeral} {behind : List Nat} (hwritten : numeral.IsWritten)
    (hstands : Stands text ending offset (numeral.codes ++ behind))
    (hbehind : (behind.head?.any fun code ↦ code == 46 || isDigit code) = false) :
    (literal text offset numeral.mantissa.fraction.isSome numeral.exponent.isSome
        (offset + numeral.codes.length)).result =
      if numeral.convert.inRange then
        .ok (.number numeral.convert.value numeral.integer?,
          offset + Utf8.sizeAll numeral.codes)
      else .error ⟨.numberOutOfRange (Utf8.encodeAll numeral.codes), offset⟩ := by
  have hascii : ∀ code ∈ numeral.codes, code < 0x80 :=
    fun code hcode ↦ (hwritten.smallLetter_not_mem hcode).1
  have hsees := result_sees_pointOrDigit (hstands.behind_ascii hascii)
  have hslice := hstands.take_drop
  rw [sizeAll_of_ascii hascii] at hslice
  have htext : Utf8.encodeAll numeral.codes = numeral.text :=
    Utf8.encodeAll_of_decodeAll hwritten.decodeAll_text
  have hinteger := integer?_of_isWritten hwritten
  have hdouble := hwritten.double?_text
  by_cases hrange : numeral.convert.inRange = true
  · rw [if_pos hrange] at hdouble ⊢
    simpa [literal, hsees, hbehind, hslice, htext, hdouble, hwritten.map_toNat_text,
      sizeAll_of_ascii hascii] using hinteger
  · rw [if_neg hrange] at hdouble ⊢
    simp [literal, hsees, hbehind, hslice, htext, hdouble]

/-- What the lexer says of a numeral that it found. -/
theorem agrees_literal {numeral : Numeral} {behind : List Nat} (hwritten : numeral.IsWritten)
    (hstands : Stands text ending offset (numeral.codes ++ behind))
    (hdigit : ∀ code ∈ behind.head?, isDigit code = false) {input : List Nat}
    (hscan : Numeral.scan input = some (numeral, behind)) : Agrees ending offset
      (Lexer.number input) (literal text offset numeral.mantissa.fraction.isSome
        numeral.exponent.isSome (offset + numeral.codes.length)).result := by
  rw [Lexer.number, hscan]
  by_cases hpoint : behind.head? = some 46
  · obtain ⟨rest, rfl⟩ := List.head?_eq_some_iff.mp hpoint
    rw [result_literal_of_point (fun _ hcode ↦ (hwritten.smallLetter_not_mem hcode).1) hstands]
    exact .failed ⟨_, 0⟩
  · have hbehind : (behind.head?.any fun code ↦ code == 46 || isDigit code) = false := by
      cases behind with
      | nil => rfl
      | cons first rest => simpa [hdigit first rfl] using hpoint
    rw [result_literal hwritten hstands hbehind]
    simp only [if_neg hpoint]
    split
    · exact .read ⟨_, numeral.codes, behind⟩
    · exact .failed ⟨_, 0⟩

theorem agrees_number {first : Nat} {rest : List Nat}
    (hstands : Stands text ending offset (first :: rest)) :
    Agrees ending offset (Lexer.number (first :: rest)) (number text offset).result := by
  generalize hmantissa : Mantissa.scan (first :: rest) = scanned
  obtain ⟨found, after⟩ := scanned
  obtain ⟨hfound, hafter⟩ := hstands.result_mantissa hmantissa
  have hcodes := Mantissa.codes_scan (first :: rest)
  rw [hmantissa] at hcodes
  by_cases hdigits : found.digits = []
  · have hslice : (text.drop offset).take found.codes.length = Utf8.encodeAll found.codes := by
      have hascii : ∀ code ∈ found.codes, code < 0x80 := by
        have hall := @ascii_of_mem_mantissa (first :: rest)
        rw [hmantissa] at hall
        exact fun code ↦ hall
      rw [← sizeAll_of_ascii hascii]
      exact Stands.take_drop (hcodes ▸ hstands)
    have hresult : (number text offset).result =
        .error ⟨.malformedNumber (Utf8.encodeAll found.codes), offset⟩ := by
      simp [number, hfound, hdigits, hslice]
    have hscan : Numeral.scan (first :: rest) = none := by
      rw [Numeral.scan, hmantissa]
      exact if_pos hdigits
    rw [hresult, Lexer.number, hscan, hmantissa]
    exact .failed ⟨_, 0⟩
  · generalize hexponent : ExponentPart.scan after = scanned
    obtain ⟨part?, behind⟩ := scanned
    obtain ⟨hpart, -⟩ := hafter.result_exponentPart hexponent
    have hscan := Numeral.scan_of_mantissa hmantissa hdigits
    rw [hexponent] at hscan
    have hhead := isDigit_head_mantissa (first :: rest)
    rw [hmantissa] at hhead
    have hdigit := isDigit_head_exponent hhead
    rw [hexponent] at hdigit
    have hagrees := agrees_literal (Numeral.isWritten_of_scan hscan)
      ((Numeral.codes_scan hscan).symm ▸ hstands) hdigit hscan
    have hresult : (number text offset).result = (literal text offset found.fraction.isSome
        part?.isSome (offset + (⟨found, part?⟩ : Numeral).codes.length)).result := by
      simp [number, hfound, hdigits, hpart, Numeral.codes, Nat.add_assoc]
    rwa [hresult]

end Sweep

end Metrology
