import ElGamalVoting.Envelopes.RoundTrips

/- Election ids in URLs (`_parse_eid` of `services/api/api.py`).

   The parser tells its two forms apart by length and mark alone and leaves the characters to the
   library: `bytes.fromhex` skips white space between the pairs of digits, `str.isdigit` holds of
   every digit of Unicode, and `int` reads the decimal ones among them, up to the interpreter's limit
   of digits. `ElectionIdText` is the grammar the parser documents; it is accepted exactly, but for
   three kinds of texts (`parse_eid_strict_iff`). -/
namespace ElGamalVoting
open Lib

/-- The digits of Unicode that are no decimal digits, by ranges. -/
def otherDigits : List (Nat × Nat) :=
  [(0xB2, 0xB3), (0xB9, 0xB9), (0x1369, 0x1371), (0x19DA, 0x19DA), (0x2070, 0x2070), (0x2074, 0x2079),
    (0x2080, 0x2089), (0x2460, 0x2468), (0x2474, 0x247C), (0x2488, 0x2490), (0x24EA, 0x24EA),
    (0x24F5, 0x24FD), (0x24FF, 0x24FF), (0x2776, 0x277E), (0x2780, 0x2788), (0x278A, 0x2792),
    (0x10A40, 0x10A43), (0x10E60, 0x10E68), (0x11052, 0x1105A), (0x1F100, 0x1F10A)]

def isDigitChar (c : Nat) : Bool :=
  (digitValue c).isSome || otherDigits.any fun r => decide (r.1 ≤ c ∧ c ≤ r.2)

/-- `str.isdigit` -/
def isDigitStr (s : PyStr) : Bool := s ≠ [] && s.all isDigitChar

/-- `int` of a text, with the limit of digits. -/
def intOfText (s : PyStr) : Py Int :=
  if maxStrDigits < digitCount s then
    .error (.valueError (s!"Exceeds the limit ({maxStrDigits} digits) for integer string conversion: " ++
      s!"value has {digitCount s} digits; use sys.set_int_max_str_digits() to increase the limit"))
  else match intOfStr s with
    | some n => .ok n
    | none => .error (.valueError "invalid literal for int() with base 10")

/-- `seg[:2].lower() == "0x"` -/
def isMarked (seg : PyStr) : Bool := seg.take 2 = pyStr "0x" || seg.take 2 = pyStr "0X"

def hexPart (seg : PyStr) : PyStr := if isMarked seg then seg.drop 2 else seg

def messageText (s : PyStr) : String := String.ofList (s.map Char.ofNat)

def parseEid (seg : PyStr) : Py Bytes :=
  if (hexPart seg).length = 64 then
    match fromHex (hexPart seg) with
    | some b => .ok b
    | none => .error (.valueError "non-hexadecimal number found in fromhex() arg")
  else if ¬ isMarked seg ∧ isDigitStr seg then do
    let n ← intOfText seg
    if 2 ^ 256 ≤ n then .error (.valueError s!"election id {messageText seg} out of range (> 2^256)")
    else toBytes n 32
  else .error (.valueError (s!"bad election id '{messageText seg}': use a decimal id (e.g. 1) or a " ++
    "64-char hex value"))

/-! ## The grammar -/

/-- The number a text of digits denotes. -/
def numeral (base : Nat) (value : Nat → Option Nat) (s : PyStr) : Nat :=
  s.foldl (fun acc c => base * acc + (value c).getD 0) 0

/-- The texts of an election id, with the number each denotes: a decimal numeral below `2^256` that is
    not 64 characters long, or 64 hexadecimal digits with an optional mark. -/
inductive ElectionIdText : PyStr → Nat → Prop
  | decimal {seg : PyStr} (nonempty : seg ≠ []) (digits : ∀ c ∈ seg, 48 ≤ c ∧ c ≤ 57)
      (length : seg.length ≠ 64) (small : numeral 10 digitValue seg < 2 ^ 256) :
      ElectionIdText seg (numeral 10 digitValue seg)
  | hex {mark body : PyStr} (mark_eq : mark = [] ∨ mark = pyStr "0x" ∨ mark = pyStr "0X")
      (length : body.length = 64) (digits : ∀ c ∈ body, (hexValue c).isSome) :
      ElectionIdText (mark ++ body) (numeral 16 hexValue body)

/-- The parser returns on the texts of the grammar, with 32 bytes of the number they denote, and
    raises `ValueError` on every other. -/
structure ParsesExactly (seg : PyStr) : Prop where
  returns : Returns (parseEid seg) ↔ ∃ n, ElectionIdText seg n
  value : ∀ b, parseEid seg = .ok b → b.length = 32 ∧ ElectionIdText seg (beNat b)
  refused : (¬ ∃ n, ElectionIdText seg n) → ∃ text, parseEid seg = .error (.valueError text)

/-- White space among the pairs of digits. -/
def SpacedHex (seg : PyStr) : Prop :=
  (hexPart seg).length = 64 ∧ (∃ c ∈ hexPart seg, isAsciiSpace c = true) ∧ (fromHex (hexPart seg)).isSome

/-- Decimal digits of which one is not an ASCII digit. -/
def ForeignDigits (seg : PyStr) : Prop :=
  seg.length ≠ 64 ∧ (∀ c ∈ seg, (digitValue c).isSome) ∧ (∃ c ∈ seg, 57 < c) ∧
    seg.length ≤ maxStrDigits ∧ numeral 10 digitValue seg < 2 ^ 256

/-- More digits than the interpreter converts, for a number that is small all the same. -/
def OverlongDigits (seg : PyStr) : Prop :=
  maxStrDigits < seg.length ∧ (∀ c ∈ seg, 48 ≤ c ∧ c ≤ 57) ∧ numeral 10 digitValue seg < 2 ^ 256

/-! ## Characters -/

theorem digitValue_isSome {c : Nat} (h : (digitValue c).isSome) : ∃ z ∈ digitZeros, ∃ k < 10, c = z + k := by
  rw [digitValue, Option.isSome_map] at h
  obtain ⟨z, hz⟩ := Option.isSome_iff_exists.mp h
  have hrange := List.find?_some hz
  rw [decide_eq_true_eq] at hrange
  exact ⟨z, List.mem_of_find?_eq_some hz, c - z, by omega, by omega⟩

/-- Neither white space nor a sign nor an underscore nor the letter of the mark. -/
def plainDigit (c : Nat) : Bool := !isPySpace c && !(c ∈ [0x2B, 0x2D, 0x5F, 0x58, 0x78])

theorem plainDigit_of_isDigitChar {c : Nat} (h : isDigitChar c = true) : plainDigit c = true := by
  have hdecimal : ∀ z ∈ digitZeros, ∀ k < 10, plainDigit (z + k) = true := by decide +kernel
  have hother : ∀ r ∈ otherDigits, ∀ k < r.2 + 1 - r.1, plainDigit (r.1 + k) = true := by decide +kernel
  rw [isDigitChar, Bool.or_eq_true, List.any_eq_true] at h
  rcases h with h | ⟨r, hr, hrange⟩
  · obtain ⟨z, hz, k, hk, rfl⟩ := digitValue_isSome h
    exact hdecimal z hz k hk
  · rw [decide_eq_true_eq] at hrange
    have hplain := hother r hr (c - r.1) (by omega)
    rwa [Nat.add_sub_of_le hrange.1] at hplain

theorem digitValue_ascii {c : Nat} (h : 48 ≤ c ∧ c ≤ 57) : (digitValue c).isSome := by
  have hall : ∀ k < 10, (digitValue (48 + k)).isSome = true := by decide
  have hdigit := hall (c - 48) (by omega)
  rwa [Nat.add_sub_of_le h.1] at hdigit

theorem ascii_of_digitValue {c : Nat} (h : (digitValue c).isSome) (hle : c ≤ 57) : 48 ≤ c ∧ c ≤ 57 := by
  obtain ⟨z, hz, k, -, rfl⟩ := digitValue_isSome h
  have hleast : ∀ z ∈ digitZeros, 48 ≤ z := by decide
  have hz48 := hleast z hz
  omega

theorem not_isMarked_of_digits {seg : PyStr} (h : ∀ c ∈ seg, isDigitChar c = true) : isMarked seg = false := by
  rw [Bool.eq_false_iff]
  intro hmarked
  have hletter : ∃ c ∈ seg, plainDigit c = false := by
    simp only [isMarked, Bool.or_eq_true, decide_eq_true_eq] at hmarked
    rcases hmarked with hmark | hmark
    · exact ⟨0x78, List.mem_of_mem_take (hmark ▸ by decide : 0x78 ∈ seg.take 2), by decide⟩
    · exact ⟨0x58, List.mem_of_mem_take (hmark ▸ by decide : 0x58 ∈ seg.take 2), by decide⟩
  obtain ⟨c, hc, hplain⟩ := hletter
  rw [plainDigit_of_isDigitChar (h c hc)] at hplain
  cases hplain

theorem hexPart_of_digits {seg : PyStr} (h : ∀ c ∈ seg, isDigitChar c = true) : hexPart seg = seg := by
  rw [hexPart, not_isMarked_of_digits h]
  rfl

/-! ## Hexadecimal -/

theorem hexValue_lt {c v : Nat} (h : hexValue c = some v) : v < 16 := by
  unfold hexValue at h
  split at h
  · cases h
    omega
  · split at h
    · cases h
      omega
    · split at h
      · cases h
        omega
      · cases h

theorem hexValue_isSome_not_space {c : Nat} (h : (hexValue c).isSome) : isAsciiSpace c = false := by
  rw [isAsciiSpace]
  unfold hexValue at h
  split at h
  · simp
    omega
  · split at h
    · simp
      omega
    · split at h
      · simp
        omega
      · cases h

/-- Without white space the text is all digits, two for each byte, and denotes the bytes' number. -/
theorem fromHex_eq_some {s : PyStr} {b : Bytes} (h : fromHex s = some b)
    (hspace : ∀ c ∈ s, isAsciiSpace c = false) :
    (∀ c ∈ s, (hexValue c).isSome) ∧ s.length = 2 * b.length ∧ ∀ acc,
      s.foldl (fun acc c => 16 * acc + (hexValue c).getD 0) acc =
        b.foldl (fun acc x => acc * 256 + x.toNat) acc := by
  fun_induction fromHex s generalizing b with
  | case1 =>
    cases h
    exact ⟨fun c hc => absurd hc List.not_mem_nil, rfl, fun _ => rfl⟩
  | case2 c hc => simp [hspace c List.mem_cons_self] at hc
  | case3 c hc => cases h
  | case4 c d rest hc ih => simp [hspace c List.mem_cons_self] at hc
  | case5 c d rest hc ih =>
    obtain ⟨hi, hhi, h⟩ := Option.bind_eq_some_iff.mp h
    obtain ⟨lo, hlo, h⟩ := Option.bind_eq_some_iff.mp h
    obtain ⟨tail, htail, h⟩ := Option.bind_eq_some_iff.mp h
    cases h
    obtain ⟨hdigits, hlength, hvalue⟩ := ih htail fun e he =>
      hspace e (List.mem_cons_of_mem _ (List.mem_cons_of_mem _ he))
    refine ⟨?_, ?_, ?_⟩
    · intro e he
      rcases List.mem_cons.mp he with rfl | he
      · rw [hhi]
        rfl
      · rcases List.mem_cons.mp he with rfl | he
        · rw [hlo]
          rfl
        · exact hdigits e he
    · rw [List.length_cons, List.length_cons, List.length_cons, hlength]
      omega
    · intro acc
      have hbyte : (UInt8.ofNat (16 * hi + lo)).toNat = 16 * hi + lo := by
        rw [UInt8.toNat_ofNat']
        have hhi16 := hexValue_lt hhi
        have hlo16 := hexValue_lt hlo
        omega
      rw [List.foldl_cons, List.foldl_cons, List.foldl_cons, hhi, hlo, hbyte, hvalue]
      simp only [Option.getD_some]
      congr 1
      omega

theorem fromHex_of_digits {s : PyStr} (hdigits : ∀ c ∈ s, (hexValue c).isSome) (heven : s.length % 2 = 0) :
    (fromHex s).isSome := by
  fun_induction fromHex s with
  | case1 => rfl
  | case2 c hc => rfl
  | case3 c hc => cases heven
  | case4 c d rest hc ih =>
    rw [hexValue_isSome_not_space (hdigits c List.mem_cons_self)] at hc
    cases hc
  | case5 c d rest hc ih =>
    obtain ⟨hi, hhi⟩ := Option.isSome_iff_exists.mp (hdigits c List.mem_cons_self)
    obtain ⟨lo, hlo⟩ := Option.isSome_iff_exists.mp (hdigits d (List.mem_cons_of_mem _ List.mem_cons_self))
    have hrest := ih (fun e he => hdigits e (List.mem_cons_of_mem _ (List.mem_cons_of_mem _ he))) (by
      rw [List.length_cons, List.length_cons] at heven
      omega)
    obtain ⟨tail, htail⟩ := Option.isSome_iff_exists.mp hrest
    rw [hhi, hlo, htail]
    rfl

/-! ## Decimal -/

theorem moreDigits_eq {s : PyStr} (hplain : ∀ c ∈ s, plainDigit c = true) (acc : Nat) :
    moreDigits acc s = if ∀ c ∈ s, (digitValue c).isSome then
      some (s.foldl (fun acc c => 10 * acc + (digitValue c).getD 0) acc) else none := by
  induction s generalizing acc with
  | nil => rw [if_pos fun c hc => absurd hc List.not_mem_nil]; rfl
  | cons c s ih =>
    have htail := ih fun d hd => hplain d (List.mem_cons_of_mem _ hd)
    have hunfold : moreDigits acc (c :: s) = (digitValue c).bind fun v => moreDigits (10 * acc + v) s := by
      cases s with
      | nil => cases hc : digitValue c <;> simp [moreDigits, hc]
      | cons d s =>
        have hunderscore : c ≠ 0x5F := by
          rintro rfl
          exact absurd (hplain 0x5F List.mem_cons_self) (by decide)
        rw [moreDigits, if_neg hunderscore]
    rw [hunfold]
    cases hc : digitValue c with
    | none =>
      rw [if_neg fun h => by simpa [hc] using h c List.mem_cons_self]
      rfl
    | some v =>
      rw [Option.bind_some, htail, List.foldl_cons, hc, Option.getD_some]
      simp [hc]

theorem digits_eq {s : PyStr} (hplain : ∀ c ∈ s, plainDigit c = true) (hne : s ≠ []) :
    digits s = if ∀ c ∈ s, (digitValue c).isSome then some (numeral 10 digitValue s) else none := by
  cases s with
  | nil => exact absurd rfl hne
  | cons c s =>
    have hmore := fun acc => moreDigits_eq (fun d hd => hplain d (List.mem_cons_of_mem _ hd)) acc
    rw [digits, numeral, List.foldl_cons]
    cases hc : digitValue c with
    | none =>
      rw [if_neg fun h => by simpa [hc] using h c List.mem_cons_self]
      rfl
    | some v =>
      rw [Option.bind_some, hmore, Option.getD_some, Nat.mul_zero, Nat.zero_add]
      simp [hc]

/-- `int` of a text of digits: there is neither white space nor a sign to look at. -/
theorem intOfStr_eq {s : PyStr} (hplain : ∀ c ∈ s, plainDigit c = true) (hne : s ≠ []) :
    intOfStr s = if ∀ c ∈ s, (digitValue c).isSome then some (numeral 10 digitValue s : Int) else none := by
  have hstrip : stripBy isIntSpace s = s := by
    refine stripBy_eq_self fun c hc => isIntSpace_eq_false ?_
    have hdigit := hplain c hc
    rw [plainDigit, Bool.and_eq_true, Bool.not_eq_true'] at hdigit
    exact hdigit.1
  have hmap : (digits s).map Int.ofNat =
      if ∀ c ∈ s, (digitValue c).isSome then some (numeral 10 digitValue s : Int) else none := by
    rw [digits_eq hplain hne]
    split <;> rfl
  rw [intOfStr, hstrip]
  split
  · exact absurd (hplain 0x2B List.mem_cons_self) (by decide)
  · exact absurd (hplain 0x2D List.mem_cons_self) (by decide)
  · exact hmap

/-! ## The two forms -/

theorem isDigitChar_ascii {seg : PyStr} (h : ∀ c ∈ seg, 48 ≤ c ∧ c ≤ 57) : ∀ c ∈ seg, isDigitChar c = true := by
  intro c hc
  rw [isDigitChar, digitValue_ascii (h c hc), Bool.true_or]

theorem hexPart_mark_append {mark body : PyStr} (hmark : mark = [] ∨ mark = pyStr "0x" ∨ mark = pyStr "0X")
    (hdigits : ∀ c ∈ body, (hexValue c).isSome) : hexPart (mark ++ body) = body := by
  rcases hmark with rfl | rfl | rfl
  · -- the letter of a mark is no hexadecimal digit
    have hunmarked : isMarked body = false := by
      rw [Bool.eq_false_iff]
      intro hmarked
      simp only [isMarked, Bool.or_eq_true, decide_eq_true_eq] at hmarked
      rcases hmarked with h | h
      · exact absurd (hdigits 0x78 (List.mem_of_mem_take (h ▸ by decide : 0x78 ∈ body.take 2))) (by decide)
      · exact absurd (hdigits 0x58 (List.mem_of_mem_take (h ▸ by decide : 0x58 ∈ body.take 2))) (by decide)
    rw [List.nil_append, hexPart, hunmarked]
    rfl
  · rfl
  · rfl

theorem mark_append_hexPart (seg : PyStr) :
    ∃ mark, (mark = [] ∨ mark = pyStr "0x" ∨ mark = pyStr "0X") ∧ seg = mark ++ hexPart seg := by
  cases hmarked : isMarked seg with
  | false => exact ⟨[], .inl rfl, by rw [hexPart, hmarked]; rfl⟩
  | true =>
    refine ⟨seg.take 2, .inr ?_, ?_⟩
    · simpa only [isMarked, Bool.or_eq_true, decide_eq_true_eq] using hmarked
    · rw [hexPart, hmarked, if_pos rfl, List.take_append_drop]

/-- Where 64 characters are left, the grammar is that of hexadecimal digits. -/
theorem electionIdText_long {seg : PyStr} {n : Nat} (hlength : (hexPart seg).length = 64) :
    ElectionIdText seg n ↔ (∀ c ∈ hexPart seg, (hexValue c).isSome) ∧ n = numeral 16 hexValue (hexPart seg) := by
  constructor
  · intro h
    cases h with
    | decimal nonempty digits length small =>
      rw [hexPart_of_digits (isDigitChar_ascii digits)] at hlength
      exact absurd hlength length
    | hex mark_eq length digits =>
      rw [hexPart_mark_append mark_eq digits]
      exact ⟨digits, rfl⟩
  · rintro ⟨hdigits, rfl⟩
    obtain ⟨mark, hmark, hseg⟩ := mark_append_hexPart seg
    have htext := ElectionIdText.hex hmark hlength hdigits
    rwa [← hseg] at htext

/-- Elsewhere it is that of decimal digits. -/
theorem electionIdText_short {seg : PyStr} {n : Nat} (hlength : (hexPart seg).length ≠ 64) :
    ElectionIdText seg n ↔ seg ≠ [] ∧ (∀ c ∈ seg, 48 ≤ c ∧ c ≤ 57) ∧ numeral 10 digitValue seg < 2 ^ 256 ∧
      n = numeral 10 digitValue seg := by
  constructor
  · intro h
    cases h with
    | decimal nonempty digits length small => exact ⟨nonempty, digits, small, rfl⟩
    | hex mark_eq length digits =>
      rw [hexPart_mark_append mark_eq digits] at hlength
      exact absurd length hlength
  · rintro ⟨hne, hdigits, hsmall, rfl⟩
    refine .decimal hne hdigits ?_ hsmall
    rwa [hexPart_of_digits (isDigitChar_ascii hdigits)] at hlength

/-! ## The parser -/

theorem ParsesExactly.of_ok {seg : PyStr} {b : Bytes} (hparse : parseEid seg = .ok b) (hlength : b.length = 32)
    (htext : ElectionIdText seg (beNat b)) : ParsesExactly seg where
  returns := ⟨fun _ => ⟨_, htext⟩, fun _ => ⟨b, hparse⟩⟩
  value b' hb' := by
    obtain rfl := Except.ok.inj (hparse.symm.trans hb')
    exact ⟨hlength, htext⟩
  refused h := absurd ⟨_, htext⟩ h

theorem ParsesExactly.of_error {seg : PyStr} {text : String} (hparse : parseEid seg = .error (.valueError text))
    (htext : ¬ ∃ n, ElectionIdText seg n) : ParsesExactly seg where
  returns := by
    refine ⟨?_, fun h => absurd h htext⟩
    rintro ⟨b, hb⟩
    rw [hparse] at hb
    cases hb
  value b hb := by
    rw [hparse] at hb
    cases hb
  refused _ := ⟨text, hparse⟩

/-- A text that is refused is parsed exactly when it is not in the grammar. -/
theorem parsesExactly_iff_of_error {seg : PyStr} {text : String}
    (hparse : parseEid seg = .error (.valueError text)) : ParsesExactly seg ↔ ¬ ∃ n, ElectionIdText seg n := by
  refine ⟨fun h htext => ?_, ParsesExactly.of_error hparse⟩
  obtain ⟨b, hb⟩ := h.returns.mpr htext
  rw [hparse] at hb
  cases hb

/-- With 64 characters the parser is exact but for white space. -/
theorem parsesExactly_long {seg : PyStr} (hlength : (hexPart seg).length = 64) :
    ParsesExactly seg ↔ ¬ SpacedHex seg := by
  cases hhex : fromHex (hexPart seg) with
  | none =>
    have hparse : parseEid seg = .error (.valueError "non-hexadecimal number found in fromhex() arg") := by
      rw [parseEid, if_pos hlength, hhex]
    have htext : ¬ ∃ n, ElectionIdText seg n := by
      rintro ⟨n, hn⟩
      have hsome := fromHex_of_digits ((electionIdText_long hlength).mp hn).1 (by rw [hlength])
      rw [hhex] at hsome
      cases hsome
    refine ⟨fun _ hspaced => ?_, fun _ => .of_error hparse htext⟩
    rw [SpacedHex, hhex] at hspaced
    cases hspaced.2.2
  | some b =>
    have hparse : parseEid seg = .ok b := by
      rw [parseEid, if_pos hlength, hhex]
    by_cases hspace : ∃ c ∈ hexPart seg, isAsciiSpace c = true
    · refine ⟨fun h => ?_, fun h => absurd ⟨hlength, hspace, by rw [hhex]; rfl⟩ h⟩
      -- white space is no digit, and yet the parser returns
      obtain ⟨n, hn⟩ := h.returns.mp ⟨b, hparse⟩
      obtain ⟨c, hc, hblank⟩ := hspace
      rw [hexValue_isSome_not_space (((electionIdText_long hlength).mp hn).1 c hc)] at hblank
      cases hblank
    · have hnone : ∀ c ∈ hexPart seg, isAsciiSpace c = false := by
        intro c hc
        rw [Bool.eq_false_iff]
        exact fun hblank => hspace ⟨c, hc, hblank⟩
      obtain ⟨hdigits, htwo, hvalue⟩ := fromHex_eq_some hhex hnone
      refine ⟨fun _ hspaced => hspace hspaced.2.1, fun _ => .of_ok hparse (by omega) ?_⟩
      exact (electionIdText_long hlength).mpr ⟨hdigits, (hvalue 0).symm⟩

/-- The result for a text of decimal digits of any script. -/
theorem parseEid_decimal {seg : PyStr} (hlength : (hexPart seg).length ≠ 64) (hne : seg ≠ [])
    (hdigits : ∀ c ∈ seg, (digitValue c).isSome) :
    (maxStrDigits < seg.length ∨ 2 ^ 256 ≤ numeral 10 digitValue seg) ∧
        (∃ text, parseEid seg = .error (.valueError text)) ∨
      (seg.length ≤ maxStrDigits ∧ numeral 10 digitValue seg < 2 ^ 256) ∧
        parseEid seg = .ok (beBytes 32 (numeral 10 digitValue seg)) := by
  have hdigit : ∀ c ∈ seg, isDigitChar c = true := fun c hc => by
    rw [isDigitChar, hdigits c hc, Bool.true_or]
  have hisdigit : isDigitStr seg = true := by
    rw [isDigitStr, Bool.and_eq_true, decide_eq_true_eq, List.all_eq_true]
    exact ⟨hne, hdigit⟩
  have hcount : digitCount seg = seg.length := List.countP_eq_length.mpr hdigits
  have hint : intOfStr seg = some (numeral 10 digitValue seg : Int) := by
    rw [intOfStr_eq (fun c hc => plainDigit_of_isDigitChar (hdigit c hc)) hne, if_pos hdigits]
  rw [parseEid, if_neg hlength, if_pos ⟨by rw [not_isMarked_of_digits hdigit]; decide, hisdigit⟩, intOfText, hcount]
  by_cases hlong : maxStrDigits < seg.length
  · rw [if_pos hlong, error_bind]
    exact .inl ⟨.inl hlong, _, rfl⟩
  · rw [if_neg hlong, hint, ok_bind]
    by_cases hbig : 2 ^ 256 ≤ numeral 10 digitValue seg
    · rw [if_pos (by exact_mod_cast hbig)]
      exact .inl ⟨.inr hbig, _, rfl⟩
    · rw [if_neg (by exact_mod_cast hbig), toBytes_ok (by omega) (by exact_mod_cast Nat.not_le.mp hbig),
        Int.toNat_natCast]
      exact .inr ⟨⟨by omega, by omega⟩, rfl⟩

/-- The result for every other text. -/
theorem parseEid_other {seg : PyStr} (hlength : (hexPart seg).length ≠ 64)
    (hother : seg = [] ∨ ∃ c ∈ seg, digitValue c = none) : ∃ text, parseEid seg = .error (.valueError text) := by
  rw [parseEid, if_neg hlength]
  split
  · rename_i hdigit
    have hall := hdigit.2
    rw [isDigitStr, Bool.and_eq_true, decide_eq_true_eq, List.all_eq_true] at hall
    obtain ⟨c, hc, hnone⟩ := hother.resolve_left hall.1
    have hint : intOfStr seg = none := by
      rw [intOfStr_eq (fun c hc => plainDigit_of_isDigitChar (hall.2 c hc)) hall.1, if_neg]
      intro hsome
      have := hsome c hc
      rw [hnone] at this
      cases this
    rw [intOfText]
    split
    · exact ⟨_, rfl⟩
    · rw [hint]
      exact ⟨_, rfl⟩
  · exact ⟨_, rfl⟩

/-- Elsewhere the parser is exact but for digits of other scripts and for too many digits. -/
theorem parsesExactly_short {seg : PyStr} (hlength : (hexPart seg).length ≠ 64) :
    ParsesExactly seg ↔ ¬ ForeignDigits seg ∧ ¬ OverlongDigits seg := by
  -- not of 64 digits, so only the decimal form is left
  by_cases hdecimal : seg ≠ [] ∧ ∀ c ∈ seg, (digitValue c).isSome
  · obtain ⟨hne, hdigits⟩ := hdecimal
    have hseg : seg.length ≠ 64 := by
      rwa [hexPart_of_digits fun c hc => by rw [isDigitChar, hdigits c hc, Bool.true_or]] at hlength
    have hascii : (¬ ∃ c ∈ seg, 57 < c) ↔ ∀ c ∈ seg, 48 ≤ c ∧ c ≤ 57 := by
      constructor
      · intro h c hc
        exact ascii_of_digitValue (hdigits c hc) (Nat.not_lt.mp fun hgt => h ⟨c, hc, hgt⟩)
      · rintro h ⟨c, hc, hgt⟩
        have hle := (h c hc).2
        omega
    rcases parseEid_decimal hlength hne hdigits with ⟨hrange, text, hparse⟩ | ⟨⟨hfits, hsmall⟩, hparse⟩
    · -- refused: in the grammar only with too many digits
      rw [parsesExactly_iff_of_error hparse]
      constructor
      · intro htext
        refine ⟨fun hforeign => ?_, fun hover => ?_⟩
        · obtain ⟨-, -, -, hshort, hlt⟩ := hforeign
          omega
        · exact htext ⟨_, (electionIdText_short hlength).mpr ⟨hne, hover.2.1, hover.2.2, rfl⟩⟩
      · rintro ⟨-, hover⟩ ⟨n, hn⟩
        obtain ⟨-, hplain, hlt, -⟩ := (electionIdText_short hlength).mp hn
        exact hover ⟨by omega, hplain, hlt⟩
    · -- accepted: in the grammar unless a digit is foreign
      constructor
      · intro h
        obtain ⟨n, hn⟩ := h.returns.mp ⟨_, hparse⟩
        obtain ⟨-, hplain, -, -⟩ := (electionIdText_short hlength).mp hn
        refine ⟨fun hforeign => hascii.mpr hplain hforeign.2.2.1, fun hover => ?_⟩
        exact absurd hover.1 (by omega)
      · rintro ⟨hforeign, -⟩
        have hplain := hascii.mp fun hgt => hforeign ⟨hseg, hdigits, hgt, hfits, hsmall⟩
        refine .of_ok hparse (length_beBytes _ _) ?_
        rw [beNat_beBytes 32 _ hsmall]
        exact (electionIdText_short hlength).mpr ⟨hne, hplain, hsmall, rfl⟩
  -- neither form: refused, and in no grammar
  · have hother : seg = [] ∨ ∃ c ∈ seg, digitValue c = none := by
      by_contra hno
      rw [not_or] at hno
      refine hdecimal ⟨hno.1, fun c hc => ?_⟩
      rw [Option.isSome_iff_ne_none]
      exact fun hnone => hno.2 ⟨c, hc, hnone⟩
    obtain ⟨text, hparse⟩ := parseEid_other hlength hother
    rw [parsesExactly_iff_of_error hparse]
    have hnot : ∀ hd : ∀ c ∈ seg, (digitValue c).isSome, seg = [] := fun hd => by
      by_contra hne
      exact hdecimal ⟨hne, hd⟩
    constructor
    · intro _
      refine ⟨fun hforeign => ?_, fun hover => ?_⟩
      · obtain ⟨c, hc, -⟩ := hforeign.2.2.1
        rw [hnot hforeign.2.1] at hc
        exact absurd hc List.not_mem_nil
      · have hlong := hover.1
        rw [hnot fun c hc => digitValue_ascii (hover.2.1 c hc)] at hlong
        exact absurd hlong (by decide)
    · rintro - ⟨n, hn⟩
      obtain ⟨hne, hplain, -⟩ := (electionIdText_short hlength).mp hn
      exact hne (hnot fun c hc => digitValue_ascii (hplain c hc))

/-- The parser is exact on a text if and only if it is none of three kinds: hexadecimal digits with
    white space among them, decimal digits not all of which are ASCII digits, and a small number written
    with more digits than the interpreter converts. -/
theorem parse_eid_strict_iff (seg : PyStr) :
    ParsesExactly seg ↔ ¬ SpacedHex seg ∧ ¬ ForeignDigits seg ∧ ¬ OverlongDigits seg := by
  by_cases hlength : (hexPart seg).length = 64
  · rw [parsesExactly_long hlength]
    have hforeign : ¬ ForeignDigits seg := by
      intro h
      rw [hexPart_of_digits fun c hc => by rw [isDigitChar, h.2.1 c hc, Bool.true_or]] at hlength
      exact h.1 hlength
    have hover : ¬ OverlongDigits seg := by
      intro h
      rw [hexPart_of_digits (isDigitChar_ascii h.2.1)] at hlength
      have hlong := h.1
      rw [hlength] at hlong
      exact absurd hlong (by decide)
    exact ⟨fun h => ⟨h, hforeign, hover⟩, fun h => h.1⟩
  · rw [parsesExactly_short hlength]
    exact ⟨fun h => ⟨fun hspaced => hlength hspaced.1, h⟩, fun h => h.2⟩

/-- Sixty-four blanks are taken for an election id, of no bytes at all. -/
theorem parse_eid_blanks : parseEid (List.replicate 64 32) = .ok [] ∧ ¬ ParsesExactly (List.replicate 64 32) := by
  have hblanks : SpacedHex (List.replicate 64 32) := ⟨by decide, ⟨32, by decide, by decide⟩, by decide⟩
  exact ⟨by decide, fun h => ((parsesExactly_long hblanks.1).mp h) hblanks⟩

end ElGamalVoting
