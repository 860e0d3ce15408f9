import Mathlib.Data.List.Nodup
import ElGamalVoting.Envelopes.CanonicalText
import ElGamalVoting.Envelopes.JsonLoads
import ElGamalVoting.Frontend.RegisterDigest

/- `json.loads` reads back what `json.dumps` writes.

   `render` is the text `json.dumps` writes, with a gap after each comma and colon: none under
   the compact separators, a space under the default ones. The scanner of `json.loads` is run on
   it symbolically, one lemma for each kind of token: a string unit by unit, where a high
   surrogate that stands alone must not meet a low one; a number up to the first character that
   is none of it; an array and an object item by item.

   What is written is read back by an interpreter whose stack is deep enough and whose limit on
   the digits of an integer is not passed (`readable`). Floats are left out. -/
namespace ElGamalVoting
open Lib

/-! ## The text -/

def escapeCode (c : Nat) : PyStr := (escapeChar c).map UInt8.toNat

/-- A string with its quotation marks. -/
def literal (s : PyStr) : PyStr := 0x22 :: (s.flatMap escapeCode ++ [0x22])

namespace Json

mutual
/-- `json.dumps`, with the fields in the order given and a gap after each separator. -/
def render (gap : PyStr) : Json → PyStr
  | null => pyStr "null"
  | bool b => pyStr (if b then "true" else "false")
  | int n => pyStr (toString n)
  | float t => pyStr (floatWord t)
  | str s => literal s
  | arr [] => [0x5B, 0x5D]
  | arr (item :: items) => 0x5B :: (render gap item ++ renderItems gap items)
  | obj [] => [0x7B, 0x7D]
  | obj (field :: fields) => 0x7B :: (renderField gap field ++ renderFields gap fields)

/-- The items after the first, and the closing bracket. -/
def renderItems (gap : PyStr) : List Json → PyStr
  | [] => [0x5D]
  | item :: items => 0x2C :: (gap ++ (render gap item ++ renderItems gap items))

/-- The fields after the first, and the closing bracket. -/
def renderFields (gap : PyStr) : List (PyStr × Json) → PyStr
  | [] => [0x7D]
  | field :: fields => 0x2C :: (gap ++ (renderField gap field ++ renderFields gap fields))

def renderField (gap : PyStr) : PyStr × Json → PyStr
  | (name, value) => literal name ++ 0x3A :: (gap ++ render gap value)
end

mutual
/-- No floats, no two surrogates that make a pair, no integer of too many digits, and no deeper
    than the stack allows. -/
def readable (depth : Nat) : Json → Bool
  | null | bool _ => true
  | int n => decide ((Nat.toDigits 10 n.natAbs).length ≤ maxStrDigits)
  | float _ => false
  | str s => WellPaired s
  | arr items => readableItems depth items
  | obj fields => readableFields depth fields

def readableItems : Nat → List Json → Bool
  | 0, _ => false
  | _ + 1, [] => true
  | depth + 1, item :: items => readable depth item && readableItems (depth + 1) items

def readableFields : Nat → List (PyStr × Json) → Bool
  | 0, _ => false
  | _ + 1, [] => true
  | depth + 1, field :: fields => readableField depth field && readableFields (depth + 1) fields

def readableField (depth : Nat) : PyStr × Json → Bool
  | (name, value) => WellPaired name && readable depth value
end

end Json

/-! ## Scanning -/

/-- The scanner returns the value and the rest. -/
def Reads {α : Type} {s : PyStr} (r : Py (Scanned α s)) (value : α) (rest : PyStr) : Prop :=
  ∃ h, r = .ok ⟨value, rest, h⟩

/-- The text goes on with a separator or a closing bracket, or ends. -/
def Stops (x : PyStr) : Prop := ∀ c ∈ x.head?, c ∈ [0x2C, 0x5D, 0x7D]

/-! ### Strings -/

theorem Reads.plain {c : Nat} (hlo : 0x20 ≤ c) (hquote : c ≠ 0x22) (hslash : c ≠ 0x5C) {t v x : PyStr}
    (h : Reads (scanString t) v x) : Reads (scanString (c :: t)) (c :: v) x := by
  obtain ⟨hlt, heq⟩ := h
  refine ⟨Nat.lt_succ_of_lt hlt, ?_⟩
  rw [scanString.eq_def]
  simp only [if_neg hquote, if_neg (Nat.not_lt.mpr hlo), if_pos hslash, heq]
  rfl

theorem Reads.short {c : Nat} {b : UInt8} (hb : (c, b) ∈ shortEscapes) {t v x : PyStr}
    (h : Reads (scanString t) v x) : Reads (scanString (0x5C :: b.toNat :: t)) (c :: v) x := by
  have htable : ∀ p ∈ shortEscapes, p.2.toNat ≠ 'u'.toNat ∧ shortEscape p.2.toNat = some p.1 := by decide
  obtain ⟨hne, hvalue⟩ := htable _ hb
  obtain ⟨hlt, heq⟩ := h
  refine ⟨Nat.lt_succ_of_lt (Nat.lt_succ_of_lt hlt), ?_⟩
  rw [scanString, if_neg (by decide), if_neg (by decide), if_neg (by decide)]
  simp only [if_pos hne, hvalue, heq]
  rfl

/-- The code points of a hexadecimal text. -/
theorem hex_codes (b : Bytes) : (utf8 (hex b)).map UInt8.toNat =
    b.flatMap fun x => [(hexDigit (x.toNat / 16)).toNat, (hexDigit (x.toNat % 16)).toNat] := by
  have hdigit : ∀ n < 16, (String.utf8EncodeChar (hexDigit n)).map UInt8.toNat = [(hexDigit n).toNat] := by
    decide
  rw [utf8_eq_flatMap, hex, String.toList_ofList]
  induction b with
  | nil => rfl
  | cons x b ih =>
    have hx := x.toNat_lt
    have hhi := hdigit (x.toNat / 16) (by omega)
    have hlo := hdigit (x.toNat % 16) (by omega)
    simp only [List.flatMap_cons, List.map_append, hhi, hlo, ih, List.cons_append, List.nil_append]

/-- The escape of a unit, and the unit its four digits are read as. -/
theorem unicodeEscape_codes {u : Nat} (hu : u < 0x10000) (x : PyStr) :
    ∃ digits : PyStr, digits.length = 4 ∧
      (unicodeEscape u).map UInt8.toNat ++ x = 0x5C :: 'u'.toNat :: (digits ++ x) ∧
      scanUnit (digits ++ x) = some u := by
  have hbytes : beBytes 2 u = [UInt8.ofNat (u / 256 % 256), UInt8.ofNat (u % 256)] := rfl
  have htag : (utf8 "\\u").map UInt8.toNat = [0x5C, 'u'.toNat] := by decide
  refine ⟨(utf8 (hex (beBytes 2 u))).map UInt8.toNat, ?_, ?_, ?_⟩
  · rw [List.length_map, length_utf8_hex, length_beBytes]
  · rw [unicodeEscape, List.map_append, htag]
    rfl
  · rw [hex_codes, hbytes]
    have hhi : (UInt8.ofNat (u / 256 % 256)).toNat = u / 256 := by
      rw [UInt8.toNat_ofNat']
      omega
    have hlo : (UInt8.ofNat (u % 256)).toNat = u % 256 := by
      rw [UInt8.toNat_ofNat']
      omega
    simp only [List.flatMap_cons, List.flatMap_nil, List.append_nil, List.cons_append, List.nil_append, hhi, hlo,
      scanUnit, List.getElem?_cons_zero, List.getElem?_cons_succ, Option.bind_eq_bind, Option.bind_some,
      hexValue_hexDigit (show u / 256 / 16 < 16 by omega), hexValue_hexDigit (show u / 256 % 16 < 16 by omega),
      hexValue_hexDigit (show u % 256 / 16 < 16 by omega), hexValue_hexDigit (show u % 256 % 16 < 16 by omega),
      Option.pure_def, Option.some.injEq]
    omega

theorem scanLow_unicodeEscape {u : Nat} (hu : u < 0x10000) (t : PyStr) :
    scanLow ((unicodeEscape u).map UInt8.toNat ++ t) = if isLow u then some u else none := by
  obtain ⟨digits, -, htext, hscan⟩ := unicodeEscape_codes hu t
  have htag : (0x5C :: 'u'.toNat :: (digits ++ t)).take 2 = pyStr "\\u" := by
    have hcodes : pyStr "\\u" = [0x5C, 'u'.toNat] := by decide
    rw [hcodes]
    rfl
  rw [htext, scanLow, if_pos htag]
  simp only [List.drop_succ_cons, List.drop_zero, hscan, isLow, decide_eq_true_eq]

/-- A unit that is no part of a pair. -/
theorem Reads.unit {u : Nat} (hu : u < 0x10000) {t v x : PyStr}
    (halone : isHigh u = true → scanLow t = none) (h : Reads (scanString t) v x) :
    Reads (scanString ((unicodeEscape u).map UInt8.toNat ++ t)) (u :: v) x := by
  obtain ⟨digits, hlength, htext, hscan⟩ := unicodeEscape_codes hu t
  have hdrop : (digits ++ t).drop 4 = t := by rw [← hlength, List.drop_left]
  have hlow : (if 0xD800 ≤ u ∧ u < 0xDC00 then scanLow ((digits ++ t).drop 4) else none) = none := by
    split
    · next hhigh =>
      rw [hdrop]
      exact halone (by simpa [isHigh] using hhigh)
    · rfl
  rw [← hdrop] at h
  obtain ⟨hlt, heq⟩ := h
  rw [htext]
  refine ⟨?_, ?_⟩
  · rw [hdrop] at hlt
    simp only [List.length_cons, List.length_append]
    omega
  · rw [scanString, if_neg (by decide), if_neg (by decide), if_neg (by decide)]
    simp only [ne_eq, not_true_eq_false, if_false, hscan, hlow, heq]
    rfl

/-- Two units that are a pair. -/
theorem Reads.pair {hi lo : Nat} (hhi : isHigh hi = true) (hlo : isLow lo = true) {t v x : PyStr}
    (h : Reads (scanString t) v x) :
    Reads (scanString ((unicodeEscape hi).map UInt8.toNat ++ ((unicodeEscape lo).map UInt8.toNat ++ t)))
      ((0x10000 + (hi - 0xD800) * 0x400 + (lo - 0xDC00)) :: v) x := by
  simp only [isHigh, isLow, Bool.decide_and, Bool.and_eq_true, decide_eq_true_eq] at hhi hlo
  obtain ⟨low, hlowLength, hlowText, -⟩ := unicodeEscape_codes (u := lo) (by omega) t
  obtain ⟨digits, hlength, htext, hscan⟩ :=
    unicodeEscape_codes (u := hi) (by omega) (0x5C :: 'u'.toNat :: (low ++ t))
  have hdrop : (digits ++ 0x5C :: 'u'.toNat :: (low ++ t)).drop 4 = 0x5C :: 'u'.toNat :: (low ++ t) := by
    rw [← hlength, List.drop_left]
  have hdropAll : (digits ++ 0x5C :: 'u'.toNat :: (low ++ t)).drop 10 = t := by
    have hlen : (digits ++ 0x5C :: 'u'.toNat :: low).length = 10 := by
      rw [List.length_append, List.length_cons, List.length_cons, hlength, hlowLength]
    have hassoc : digits ++ 0x5C :: 'u'.toNat :: (low ++ t) = (digits ++ 0x5C :: 'u'.toNat :: low) ++ t := by
      rw [List.append_assoc]
      rfl
    rw [hassoc, ← hlen, List.drop_left]
  have hpair : (if 0xD800 ≤ hi ∧ hi < 0xDC00 then
      scanLow ((digits ++ 0x5C :: 'u'.toNat :: (low ++ t)).drop 4) else none) = some lo := by
    rw [if_pos hhi, hdrop, ← hlowText, scanLow_unicodeEscape (by omega)]
    exact if_pos (by simpa [isLow] using hlo)
  rw [← hdropAll] at h
  obtain ⟨hlt, heq⟩ := h
  rw [hlowText, htext]
  refine ⟨?_, ?_⟩
  · rw [hdropAll] at hlt
    simp only [List.length_cons, List.length_append]
    omega
  · rw [scanString, if_neg (by decide), if_neg (by decide), if_neg (by decide)]
    simp only [ne_eq, not_true_eq_false, if_false, hscan, hpair, heq]
    rfl

theorem escapeCode_cases {c : Nat} (hc : c < 0x10000) :
    (∃ b, (c, b) ∈ shortEscapes ∧ escapeCode c = [0x5C, b.toNat]) ∨
      (0x20 ≤ c ∧ c ≤ 0x7E ∧ c ≠ 0x22 ∧ c ≠ 0x5C ∧ escapeCode c = [c]) ∨
      escapeCode c = (unicodeEscape c).map UInt8.toNat := by
  have hesc := escapeChar_escapedAs hc
  rw [escapeCode]
  revert hesc
  generalize escapeChar c = text
  intro hesc
  cases hesc with
  | short b hb => exact Or.inl ⟨b, hb, rfl⟩
  | plain hlo hhi hquote hslash =>
    refine Or.inr (Or.inl ⟨hlo, hhi, hquote, hslash, ?_⟩)
    rw [List.map_cons, List.map_nil, UInt8.toNat_ofNat', Nat.mod_eq_of_lt (by omega)]
  | unicode digits hdigits =>
    have htag : utf8 "\\u" = [0x5C, 0x75] := by decide
    refine Or.inr (Or.inr ?_)
    rw [unicodeEscape, htag, hdigits]
    rfl

/-- A character outside the basic plane is written as the two units of its pair. -/
theorem escapeCode_astral {c : Nat} (hlo : 0x10000 ≤ c) :
    escapeCode c = (unicodeEscape (0xD800 + (c - 0x10000) / 0x400)).map UInt8.toNat ++
      (unicodeEscape (0xDC00 + (c - 0x10000) % 0x400)).map UInt8.toNat := by
  rw [escapeCode, escapeChar, if_neg (by omega), if_neg (by omega), if_neg (by omega), if_neg (by omega),
    if_neg (by omega), if_neg (by omega), if_neg (by omega), if_neg (by omega), if_neg (by omega), List.map_append]

/-- A string that does not start with a low surrogate does not complete a pair. -/
theorem scanLow_escaped {s : PyStr} (hs : WellPaired s = true) (hlow : ∀ c ∈ s.head?, isLow c = false)
    (x : PyStr) : scanLow (s.flatMap escapeCode ++ 0x22 :: x) = none := by
  have htag : pyStr "\\u" = [0x5C, 'u'.toNat] := by decide
  cases s with
  | nil =>
    rw [scanLow, if_neg]
    intro h
    rw [htag] at h
    cases x <;> simp at h
  | cons c s =>
    have hc := lt_of_wellPaired hs c List.mem_cons_self
    have hnot := hlow c rfl
    rw [List.flatMap_cons, List.append_assoc]
    by_cases hbasic : c < 0x10000
    · rcases escapeCode_cases hbasic with ⟨b, hb, heq⟩ | ⟨-, -, -, hslash, heq⟩ | heq
      · have hne : ∀ p ∈ shortEscapes, p.2.toNat ≠ 'u'.toNat := by decide
        rw [heq, scanLow, if_neg]
        intro h
        rw [htag] at h
        exact hne _ hb (List.cons.inj (List.cons.inj h).2).1
      · rw [heq, scanLow, if_neg]
        intro h
        rw [htag] at h
        exact hslash (List.cons.inj h).1
      · rw [heq, scanLow_unicodeEscape hbasic, hnot]
        rfl
    · have hhigh : isLow (0xD800 + (c - 0x10000) / 0x400) = false := by
        simp only [isLow, decide_eq_false_iff_not]
        omega
      rw [escapeCode_astral (by omega), List.append_assoc, scanLow_unicodeEscape (by omega), hhigh]
      rfl

/-- A string is read back up to its closing quotation mark. -/
theorem reads_escaped {s : PyStr} (hs : WellPaired s = true) (x : PyStr) :
    Reads (scanString (s.flatMap escapeCode ++ 0x22 :: x)) s x := by
  induction s with
  | nil =>
    have hquote : scanString (0x22 :: x) = .ok ⟨[], x, Nat.lt_succ_self _⟩ := by
      rw [scanString.eq_def]
      rfl
    exact ⟨_, hquote⟩
  | cons c s ih =>
    obtain ⟨-, hpair, hs'⟩ := wellPaired_cons hs
    have hrest := ih hs'
    rw [List.flatMap_cons, List.append_assoc]
    by_cases hbasic : c < 0x10000
    · rcases escapeCode_cases hbasic with ⟨b, hb, heq⟩ | ⟨hlo, -, hquote, hslash, heq⟩ | heq
      · rw [heq]
        exact hrest.short hb
      · rw [heq]
        exact hrest.plain hlo hquote hslash
      · rw [heq]
        refine hrest.unit hbasic fun hhigh => scanLow_escaped hs' (fun d hd => ?_) x
        have hnone := hpair hhigh
        rw [Option.mem_def.mp hd] at hnone
        exact hnone
    · have hc := lt_of_wellPaired hs c List.mem_cons_self
      rw [escapeCode_astral (by omega), List.append_assoc]
      have hhi : isHigh (0xD800 + (c - 0x10000) / 0x400) = true := by
        simp only [isHigh, decide_eq_true_eq]
        omega
      have hlo : isLow (0xDC00 + (c - 0x10000) % 0x400) = true := by
        simp only [isLow, decide_eq_true_eq]
        omega
      have hread := hrest.pair hhi hlo
      have hvalue : 0x10000 + (0xD800 + (c - 0x10000) / 0x400 - 0xD800) * 0x400 +
          (0xDC00 + (c - 0x10000) % 0x400 - 0xDC00) = c := by omega
      rwa [hvalue] at hread

/-! ### Numbers and words -/

/-- A positive number does not start with a zero. -/
theorem toDigits_head {n : Nat} (hn : 0 < n) : ∃ c cs, Nat.toDigits 10 n = c :: cs ∧ c ≠ '0' := by
  induction n using Nat.strongRecOn with
  | ind n ih =>
    by_cases hlt : n < 10
    · have hdigit : ∀ m < 10, 0 < m → Nat.digitChar m ≠ '0' := by decide
      exact ⟨_, [], Nat.toDigits_of_lt_base hlt, hdigit n hlt hn⟩
    · obtain ⟨c, cs, heq, hne⟩ := ih (n / 10) (by omega) (by omega)
      refine ⟨c, cs ++ [Nat.digitChar (n % 10)], ?_, hne⟩
      rw [Nat.toDigits_of_base_le (by decide) (by omega), heq]
      rfl

theorem decimal_toDigits (n : Nat) : decimal ((Nat.toDigits 10 n).map Char.toNat) = n := by
  rw [decimal, List.foldl_map]
  exact Nat.ofDigitChars_ten_toDigits

theorem isDigit_toDigits {n : Nat} : ∀ c ∈ (Nat.toDigits 10 n).map Char.toNat, isDigit c = true := by
  intro c hc
  obtain ⟨d, hd, rfl⟩ := List.mem_map.mp hc
  have hbounds := isDigit_bounds (Nat.isDigit_of_mem_toDigits (by decide) (by decide) hd)
  simp only [isDigit, decide_eq_true_eq]
  omega

theorem takeWhile_isDigit {digits x : PyStr} (hd : ∀ c ∈ digits, isDigit c = true) (hx : Stops x) :
    (digits ++ x).takeWhile isDigit = digits := by
  rw [List.takeWhile_append_of_pos hd]
  cases x with
  | nil => rw [List.takeWhile_nil, List.append_nil]
  | cons c x =>
    have hstop : ∀ c ∈ [0x2C, 0x5D, 0x7D], isDigit c = false := by decide
    rw [List.takeWhile_cons, hstop c (hx c rfl)]
    exact List.append_nil digits

/-- The digits of a number are its integer part. -/
theorem intPart_toDigits (n : Nat) {x : PyStr} (hx : Stops x) :
    intPart ((Nat.toDigits 10 n).map Char.toNat ++ x) = (Nat.toDigits 10 n).map Char.toNat := by
  rcases Nat.eq_zero_or_pos n with rfl | hn
  · rw [Nat.toDigits_zero]
    rfl
  · obtain ⟨c, cs, heq, hne⟩ := toDigits_head hn
    have htake := takeWhile_isDigit (isDigit_toDigits (n := n)) hx
    rw [heq] at htake ⊢
    have hzero : ¬ c.toNat = 0x30 := fun h => hne (Char.toNat_inj.mp h)
    rw [List.map_cons, List.cons_append] at htake ⊢
    rw [intPart, if_neg hzero]
    exact htake

theorem fracPart_stops {x : PyStr} (hx : Stops x) : fracPart x = [] := by
  cases x with
  | nil => rfl
  | cons c x =>
    have hstop : ∀ c ∈ [0x2C, 0x5D, 0x7D], c ≠ 0x2E := by decide
    exact if_neg fun h => hstop c (hx c rfl) h.1

theorem expPart_stops {x : PyStr} (hx : Stops x) : expPart x = [] := by
  cases x with
  | nil => rfl
  | cons c x =>
    have hstop : ∀ c ∈ [0x2C, 0x5D, 0x7D], c ≠ 'e'.toNat ∧ c ≠ 'E'.toNat := by decide
    have hc := hstop c (hx c rfl)
    exact if_neg fun h => h.1.elim hc.1 hc.2

/-- An integer by its parts: the sign, the digits and what stops them. -/
theorem reads_parts {s sign digits x : PyStr} (hsign : (s.take 1).filter (· = 0x2D) = sign)
    (hbody : s.drop sign.length = digits ++ x) (hint : intPart (digits ++ x) = digits) (hne : digits ≠ [])
    (hlimit : digits.length ≤ maxStrDigits) (hx : Stops x) :
    Reads (scanNumber s) (.int (if sign = [] then decimal digits else -(decimal digits : Int))) x := by
  have hshorter : x.length < s.length := by
    have hlength := congrArg List.length hbody
    rw [List.length_drop, List.length_append] at hlength
    have hpos := List.length_pos_of_ne_nil hne
    omega
  refine ⟨hshorter, ?_⟩
  rw [scanNumber]
  simp only [hsign, hbody, hint, List.drop_left, fracPart_stops hx, expPart_stops hx, List.length_nil, List.drop_zero,
    dif_neg hne, and_self, if_true, if_neg (Nat.not_lt.mpr hlimit)]

theorem negText (n : Nat) :
    pyStr (toString (Int.negSucc n)) = 0x2D :: (Nat.toDigits 10 (n + 1)).map Char.toNat := by
  have hrepr : toString (Int.negSucc n) = "-" ++ toString (n + 1) := rfl
  rw [hrepr, pyStr, String.toList_append, List.map_append]
  exact congrArg (0x2D :: ·) (congrArg (List.map Char.toNat) Nat.toList_repr)

/-- A number is read with its sign, up to the first character that is no part of it. -/
theorem reads_int {n : Int} (hn : (Nat.toDigits 10 n.natAbs).length ≤ maxStrDigits) {x : PyStr}
    (hx : Stops x) : Reads (scanNumber (pyStr (toString n) ++ x)) (.int n) x := by
  have hne : ∀ m, (Nat.toDigits 10 m).map Char.toNat ≠ [] := fun m h =>
    Nat.toDigits_ne_nil (List.map_eq_nil_iff.mp h)
  have hlimit : ((Nat.toDigits 10 n.natAbs).map Char.toNat).length ≤ maxStrDigits := by
    rw [List.length_map]
    exact hn
  cases n with
  | ofNat n =>
    have htext : pyStr (toString (Int.ofNat n)) = (Nat.toDigits 10 n).map Char.toNat :=
      congrArg (List.map Char.toNat) Nat.toList_repr
    obtain ⟨c, cs, hcs⟩ := List.exists_cons_of_ne_nil (hne n)
    have hsign : (((Nat.toDigits 10 n).map Char.toNat ++ x).take 1).filter (· = 0x2D) = [] := by
      have hdigit := isDigit_toDigits c (hcs ▸ List.mem_cons_self)
      simp only [isDigit, decide_eq_true_eq] at hdigit
      have hminus : ¬ c = 0x2D := by omega
      rw [hcs]
      simp [hminus]
    have hread := reads_parts hsign rfl (intPart_toDigits n hx) (hne n) hlimit hx
    rw [decimal_toDigits, if_pos rfl] at hread
    rw [htext]
    exact hread
  | negSucc n =>
    have hsign : ((0x2D :: ((Nat.toDigits 10 (n + 1)).map Char.toNat ++ x)).take 1).filter (· = 0x2D) = [0x2D] := rfl
    have hread := reads_parts hsign rfl (intPart_toDigits (n + 1) hx) (hne (n + 1)) hlimit hx
    rw [decimal_toDigits, if_neg (List.cons_ne_nil _ _)] at hread
    rw [negText]
    exact hread

/-- The words, by their first characters. -/
def jsonWords : List (String × Json) :=
  [("null", .null), ("true", .bool true), ("false", .bool false), ("NaN", .float "nan"),
    ("Infinity", .float "inf"), ("-Infinity", .float "-inf")]

theorem scanWord_eq_none {s : PyStr} (h : ∀ w ∈ jsonWords, s.take w.1.length ≠ pyStr w.1) :
    scanWord s = none := by
  rw [scanWord]
  split
  · rfl
  · next w hfind =>
    have hmatch := List.find?_some hfind
    simp only [decide_eq_true_eq] at hmatch
    exact absurd hmatch.2 (h w (List.mem_of_find?_eq_some hfind))

theorem scanWord_eq_some {w : String × Json} (hw : w ∈ jsonWords) (x : PyStr) :
    ∃ hlt, scanWord (pyStr w.1 ++ x) = some ⟨w.2, x, hlt⟩ := by
  have hlength : ∀ v ∈ jsonWords, (pyStr v.1).length = v.1.length ∧ v.1.length ≠ 0 := by decide
  -- the first characters of the words differ
  have hfirst : (jsonWords.map fun v => (pyStr v.1).head?).Nodup := by decide
  have htake : (pyStr w.1 ++ x).take w.1.length = pyStr w.1 := by
    rw [← (hlength w hw).1, List.take_left]
  have hdrop : (pyStr w.1 ++ x).drop w.1.length = x := by
    rw [← (hlength w hw).1, List.drop_left]
  have hlt : x.length < (pyStr w.1 ++ x).length := by
    have hpos := hlength w hw
    rw [List.length_append]
    omega
  refine ⟨hlt, ?_⟩
  rw [scanWord]
  split
  · next hfind =>
    have hnone := List.find?_eq_none.mp hfind w hw
    exact absurd (decide_eq_true ⟨(hlength w hw).2, htake⟩) hnone
  · next v hfind =>
    have hmem : v ∈ jsonWords := List.mem_of_find?_eq_some hfind
    have hmatch := List.find?_some hfind
    simp only [decide_eq_true_eq] at hmatch
    have hhead : (pyStr v.1).head? = (pyStr w.1).head? := by
      have hne : pyStr w.1 ≠ [] := by
        intro hnil
        have hzero := hlength w hw
        rw [hnil] at hzero
        exact hzero.2 hzero.1.symm
      rw [← hmatch.2, List.head?_take, if_neg hmatch.1, List.head?_append_of_ne_nil _ hne]
    have hsame : v = w := List.inj_on_of_nodup_map hfirst hmem hw hhead
    subst hsame
    simp only [hdrop]

/-- The text of a number starts with a digit, or with a minus sign and a digit. -/
theorem intText_head (n : Int) : (∃ c t, pyStr (toString n) = c :: t ∧ isDigit c = true) ∨
    ∃ c t, pyStr (toString n) = 0x2D :: c :: t ∧ isDigit c = true := by
  have hdigits : ∀ m, ∃ c t, (Nat.toDigits 10 m).map Char.toNat = c :: t ∧ isDigit c = true := by
    intro m
    obtain ⟨c, t, heq⟩ := List.exists_cons_of_ne_nil
      (show (Nat.toDigits 10 m).map Char.toNat ≠ [] from fun h => Nat.toDigits_ne_nil (List.map_eq_nil_iff.mp h))
    exact ⟨c, t, heq, isDigit_toDigits c (heq ▸ List.mem_cons_self)⟩
  cases n with
  | ofNat n =>
    obtain ⟨c, t, heq, hc⟩ := hdigits n
    exact Or.inl ⟨c, t, (congrArg (List.map Char.toNat) Nat.toList_repr).trans heq, hc⟩
  | negSucc n =>
    obtain ⟨c, t, heq, hc⟩ := hdigits (n + 1)
    exact Or.inr ⟨c, t, negText n ▸ congrArg (0x2D :: ·) heq, hc⟩

/-- A number does not start like a word. -/
theorem scanWord_int (n : Int) (x : PyStr) : scanWord (pyStr (toString n) ++ x) = none := by
  have hfirst : ∀ w ∈ jsonWords, ∀ c ∈ (pyStr w.1).head?, isDigit c = false := by decide
  have hsecond : ∀ w ∈ jsonWords, ∀ c ∈ (pyStr w.1).tail.head?, isDigit c = false := by decide
  have hlong : ∀ w ∈ jsonWords, 2 ≤ w.1.length := by decide
  refine scanWord_eq_none fun w hw htake => ?_
  obtain ⟨k, hk⟩ := Nat.exists_eq_add_of_le (hlong w hw)
  rw [hk, Nat.add_comm 2 k] at htake
  rcases intText_head n with ⟨c, t, heq, hc⟩ | ⟨c, t, heq, hc⟩
  · rw [heq, List.cons_append, List.take_succ_cons] at htake
    have hnot := hfirst w hw c (by rw [← htake]; rfl)
    rw [hc] at hnot
    cases hnot
  · rw [heq, List.cons_append, List.cons_append, List.take_succ_cons, List.take_succ_cons] at htake
    have hnot := hsecond w hw c (by rw [← htake]; rfl)
    rw [hc] at hnot
    cases hnot

/-! ### Values -/

theorem skipSpace_cons {c : Nat} (hc : isJsonSpace c = false) (t : PyStr) : skipSpace (c :: t) = c :: t := by
  rw [skipSpace, List.dropWhile_cons, hc]
  rfl

theorem skipSpace_gap {gap : PyStr} (hgap : ∀ c ∈ gap, isJsonSpace c = true) {c : Nat}
    (hc : isJsonSpace c = false) (t : PyStr) : skipSpace (gap ++ c :: t) = c :: t := by
  rw [skipSpace, List.dropWhile_append_of_pos hgap]
  exact skipSpace_cons hc t

theorem Reads.string {depth : Nat} {t v x : PyStr} (h : Reads (scanString t) v x) :
    Reads (scanOnce depth (0x22 :: t)) (.str v) x := by
  obtain ⟨hlt, heq⟩ := h
  refine ⟨Nat.lt_succ_of_lt hlt, ?_⟩
  rw [scanOnce.eq_def]
  simp only [if_true, heq]
  rfl

/-- A value that starts with none of the brackets and is no string. -/
theorem Reads.simple {depth : Nat} {s : PyStr} {v : Json} {x : PyStr}
    (hhead : ∀ c ∈ s.head?, c ≠ 0x22 ∧ c ≠ 0x5B ∧ c ≠ 0x7B) (hne : s ≠ [])
    (h : (∃ hlt, scanWord s = some ⟨v, x, hlt⟩) ∨ scanWord s = none ∧ Reads (scanNumber s) v x) :
    Reads (scanOnce depth s) v x := by
  cases s with
  | nil => exact absurd rfl hne
  | cons c t =>
    obtain ⟨h₁, h₂, h₃⟩ := hhead c rfl
    rcases h with ⟨hlt, hword⟩ | ⟨hword, hlt, hnumber⟩
    · refine ⟨hlt, ?_⟩
      rw [scanOnce.eq_def]
      simp only [if_neg h₁, if_neg h₂, if_neg h₃, hword]
    · refine ⟨hlt, ?_⟩
      rw [scanOnce.eq_def]
      simp only [if_neg h₁, if_neg h₂, if_neg h₃, hword, hnumber]

theorem reads_emptyArray (depth : Nat) (x : PyStr) :
    Reads (scanOnce (depth + 1) (0x5B :: 0x5D :: x)) (.arr []) x := by
  refine ⟨by simp only [List.length_cons]; omega, ?_⟩
  rw [scanOnce.eq_def]
  simp [skipSpace_cons (show isJsonSpace 0x5D = false by decide)]

theorem Reads.array {depth c : Nat} {t : PyStr} {items : List Json} {x : PyStr} (hc : isJsonSpace c = false)
    (hclose : c ≠ 0x5D) (h : Reads (scanItems depth (c :: t)) items x) :
    Reads (scanOnce (depth + 1) (0x5B :: c :: t)) (.arr items) x := by
  have hskip := skipSpace_cons hc t
  rw [← hskip] at h
  obtain ⟨hlt, heq⟩ := h
  refine ⟨by rw [hskip] at hlt; exact Nat.lt_succ_of_lt hlt, ?_⟩
  have hnot : ¬ (skipSpace (c :: t)).head? = some 0x5D := by
    rw [hskip, List.head?_cons, Option.some.injEq]
    exact hclose
  rw [scanOnce.eq_def]
  simp only [Nat.reduceEqDiff, if_false, if_true, dif_neg hnot, heq]
  rfl

theorem reads_emptyObject (depth : Nat) (x : PyStr) :
    Reads (scanOnce (depth + 1) (0x7B :: 0x7D :: x)) (.obj []) x := by
  refine ⟨by simp only [List.length_cons]; omega, ?_⟩
  rw [scanOnce.eq_def]
  simp [skipSpace_cons (show isJsonSpace 0x7D = false by decide)]

theorem Reads.object {depth : Nat} {t : PyStr} {fields : List (PyStr × Json)} {x : PyStr}
    (h : Reads (scanPairs depth (0x22 :: t)) fields x) :
    Reads (scanOnce (depth + 1) (0x7B :: 0x22 :: t)) (.obj fields) x := by
  have hskip := skipSpace_cons (show isJsonSpace 0x22 = false by decide) t
  rw [← hskip] at h
  obtain ⟨hlt, heq⟩ := h
  refine ⟨by rw [hskip] at hlt; exact Nat.lt_succ_of_lt hlt, ?_⟩
  have hnot : ¬ (skipSpace (0x22 :: t)).head? = some 0x7D := by
    rw [hskip, List.head?_cons, Option.some.injEq]
    decide
  rw [scanOnce.eq_def]
  simp only [Nat.reduceEqDiff, if_false, if_true, dif_neg hnot, heq]
  rfl

theorem Reads.lastItem {depth : Nat} {s : PyStr} {v : Json} {x : PyStr}
    (h : Reads (scanOnce depth s) v (0x5D :: x)) : Reads (scanItems depth s) [v] x := by
  obtain ⟨hlt, heq⟩ := h
  have hskip := skipSpace_cons (show isJsonSpace 0x5D = false by decide) x
  refine ⟨by rw [List.length_cons] at hlt; omega, ?_⟩
  rw [scanItems.eq_def, heq]
  simp [hskip]

theorem Reads.nextItem {depth : Nat} {s t : PyStr} {v : Json} {vs : List Json} {x : PyStr}
    (h : Reads (scanOnce depth s) v (0x2C :: t)) (hmore : Reads (scanItems depth (skipSpace t)) vs x) :
    Reads (scanItems depth s) (v :: vs) x := by
  have hskip : skipSpace ((skipSpace (0x2C :: t)).drop 1) = skipSpace t := by
    rw [skipSpace_cons (by decide)]
    rfl
  rw [← hskip] at hmore
  obtain ⟨hlt, heq⟩ := h
  obtain ⟨hlt', heq'⟩ := hmore
  have hcomma : (skipSpace (0x2C :: t)).head? = some 0x2C := by rw [skipSpace_cons (by decide)]; rfl
  refine ⟨?_, ?_⟩
  · have hle := length_skipSpace_le t
    rw [hskip] at hlt'
    rw [List.length_cons] at hlt
    omega
  · rw [scanItems.eq_def, heq]
    simp only [ok_bind, hcomma, if_true, heq']
    rfl

/-- What the scanner sees behind a separator. -/
theorem skipSpace_separator {c : Nat} (hc : isJsonSpace c = false) (t : PyStr) :
    (skipSpace (c :: t)).head? = some c ∧ skipSpace ((skipSpace (c :: t)).drop 1) = skipSpace t := by
  rw [skipSpace_cons hc]
  exact ⟨rfl, rfl⟩

theorem Reads.lastField {depth : Nat} {t u k : PyStr} {v : Json} {x : PyStr}
    (hk : Reads (scanString t) k (0x3A :: u)) (hv : Reads (scanOnce depth (skipSpace u)) v (0x7D :: x)) :
    Reads (scanPairs depth (0x22 :: t)) [(k, v)] x := by
  obtain ⟨hcolon, hskip⟩ := skipSpace_separator (show isJsonSpace 0x3A = false by decide) u
  have hle := length_skipSpace_le u
  obtain ⟨hbrace, -⟩ := skipSpace_separator (show isJsonSpace 0x7D = false by decide) x
  rw [← hskip] at hv
  obtain ⟨hlt, heq⟩ := hk
  obtain ⟨hlt', heq'⟩ := hv
  refine ⟨?_, ?_⟩
  · rw [hskip] at hlt'
    simp only [List.length_cons] at hlt hlt' ⊢
    omega
  · rw [scanPairs.eq_def]
    simp only [ne_eq, not_true_eq_false, if_false, heq, ok_bind, hcolon, heq', hbrace]
    simp [skipSpace_cons (show isJsonSpace 0x7D = false by decide)]

theorem Reads.nextField {depth : Nat} {t u w k : PyStr} {v : Json} {vs : List (PyStr × Json)} {x : PyStr}
    (hk : Reads (scanString t) k (0x3A :: u)) (hv : Reads (scanOnce depth (skipSpace u)) v (0x2C :: w))
    (hmore : Reads (scanPairs depth (skipSpace w)) vs x) :
    Reads (scanPairs depth (0x22 :: t)) ((k, v) :: vs) x := by
  obtain ⟨hcolon, hskip⟩ := skipSpace_separator (show isJsonSpace 0x3A = false by decide) u
  obtain ⟨hcomma, hskip'⟩ := skipSpace_separator (show isJsonSpace 0x2C = false by decide) w
  have hle := length_skipSpace_le u
  have hle' := length_skipSpace_le w
  rw [← hskip] at hv
  rw [← hskip'] at hmore
  obtain ⟨hlt, heq⟩ := hk
  obtain ⟨hlt', heq'⟩ := hv
  obtain ⟨hlt'', heq''⟩ := hmore
  refine ⟨?_, ?_⟩
  · rw [hskip] at hlt'
    rw [hskip'] at hlt''
    simp only [List.length_cons] at hlt hlt' hlt'' ⊢
    omega
  · rw [scanPairs.eq_def]
    simp only [ne_eq, not_true_eq_false, if_false, heq, ok_bind, hcolon, heq', hcomma, if_true, heq'']
    rfl

/-! ## Reading a text back -/

theorem readableItems_pos {depth : Nat} {items : List Json} (h : Json.readableItems depth items = true) :
    ∃ d, depth = d + 1 := by
  cases depth with
  | zero => rw [Json.readableItems] at h; cases h
  | succ d => exact ⟨d, rfl⟩

theorem readableFields_pos {depth : Nat} {fields : List (PyStr × Json)}
    (h : Json.readableFields depth fields = true) : ∃ d, depth = d + 1 := by
  cases depth with
  | zero => rw [Json.readableFields] at h; cases h
  | succ d => exact ⟨d, rfl⟩

/-- The text of a readable value starts with what is neither white space nor a closing bracket. -/
theorem render_head (gap : PyStr) {depth : Nat} {j : Json} (hj : j.readable depth = true) (x : PyStr) :
    ∃ c t, j.render gap ++ x = c :: t ∧ isJsonSpace c = false ∧ c ≠ 0x5D ∧ c ≠ 0xFEFF := by
  cases j with
  | null => exact ⟨_, _, rfl, by decide, by decide, by decide⟩
  | bool b => cases b <;> exact ⟨_, _, rfl, by decide, by decide, by decide⟩
  | int n =>
    have hdigit : ∀ c, isDigit c = true → isJsonSpace c = false ∧ c ≠ 0x5D ∧ c ≠ 0xFEFF := by
      intro c hc
      simp only [isDigit, decide_eq_true_eq] at hc
      simp only [isJsonSpace, decide_eq_false_iff_not]
      omega
    rw [Json.render]
    rcases intText_head n with ⟨c, t, heq, hc⟩ | ⟨c, t, heq, hc⟩
    · exact ⟨c, t ++ x, by rw [heq]; rfl, hdigit c hc⟩
    · exact ⟨0x2D, c :: t ++ x, by rw [heq]; rfl, by decide, by decide, by decide⟩
  | float t => simp [Json.readable] at hj
  | str s => exact ⟨0x22, _, by rw [Json.render, literal]; rfl, by decide, by decide, by decide⟩
  | arr items => cases items <;> exact ⟨0x5B, _, by rw [Json.render]; rfl, by decide, by decide, by decide⟩
  | obj fields => cases fields <;> exact ⟨0x7B, _, by rw [Json.render]; rfl, by decide, by decide, by decide⟩

theorem stops_renderItems (gap : PyStr) (items : List Json) (x : PyStr) :
    Stops (Json.renderItems gap items ++ x) := by
  cases items <;> rw [Json.renderItems] <;> rintro c ⟨⟩ <;> decide

theorem stops_renderFields (gap : PyStr) (fields : List (PyStr × Json)) (x : PyStr) :
    Stops (Json.renderFields gap fields ++ x) := by
  cases fields <;> rw [Json.renderFields] <;> rintro c ⟨⟩ <;> decide

section
variable {gap : PyStr}

mutual
/-- A value is read back, and what follows it is left. -/
theorem reads_render (hgap : ∀ c ∈ gap, isJsonSpace c = true) (depth : Nat) (j : Json)
    (hj : j.readable depth = true) {x : PyStr} (hx : Stops x) :
    Reads (scanOnce depth (j.render gap ++ x)) j x := by
  -- the texts of the empty containers have a shape of their own; the others read item by item
  cases j with
  | null =>
    rw [Json.render]
    exact Reads.simple (by rintro c ⟨⟩; decide) (List.cons_ne_nil _ _)
      (Or.inl (scanWord_eq_some (w := ("null", .null)) (by simp [jsonWords]) x))
  | bool b =>
    rw [Json.render]
    cases b with
    | false =>
      exact Reads.simple (by rintro c ⟨⟩; decide) (List.cons_ne_nil _ _)
        (Or.inl (scanWord_eq_some (w := ("false", .bool false)) (by simp [jsonWords]) x))
    | true =>
      exact Reads.simple (by rintro c ⟨⟩; decide) (List.cons_ne_nil _ _)
        (Or.inl (scanWord_eq_some (w := ("true", .bool true)) (by simp [jsonWords]) x))
  | int n =>
    rw [Json.readable, decide_eq_true_eq] at hj
    rw [Json.render]
    have hdigit : ∀ c, isDigit c = true → c ≠ 0x22 ∧ c ≠ 0x5B ∧ c ≠ 0x7B := by
      intro c hc
      simp only [isDigit, decide_eq_true_eq] at hc
      omega
    refine Reads.simple (fun c hc => ?_) (fun hnil => ?_) (Or.inr ⟨scanWord_int n x, reads_int hj hx⟩)
    · rcases intText_head n with ⟨d, t, heq, hd⟩ | ⟨d, t, heq, hd⟩
      · rw [heq] at hc
        cases hc
        exact hdigit _ hd
      · rw [heq] at hc
        cases hc
        decide
    · rcases intText_head n with ⟨d, t, heq, hd⟩ | ⟨d, t, heq, hd⟩ <;> rw [heq] at hnil <;> cases hnil
  | float t => simp [Json.readable] at hj
  | str s =>
    rw [Json.readable] at hj
    rw [Json.render, literal, List.cons_append, List.append_assoc]
    exact (reads_escaped hj x).string
  | arr items =>
    rw [Json.readable] at hj
    obtain ⟨d, rfl⟩ := readableItems_pos hj
    cases items with
    | nil =>
      rw [Json.render]
      exact reads_emptyArray d x
    | cons item items =>
      rw [Json.readableItems, Bool.and_eq_true] at hj
      obtain ⟨c, t, heq, hc, hclose, -⟩ := render_head gap hj.1 (Json.renderItems gap items ++ x)
      have hitems := reads_items hgap d item items hj.1 hj.2 x
      rw [Json.render, List.cons_append, List.append_assoc, heq]
      rw [heq] at hitems
      exact hitems.array hc hclose
  | obj fields =>
    rw [Json.readable] at hj
    obtain ⟨d, rfl⟩ := readableFields_pos hj
    cases fields with
    | nil =>
      rw [Json.render]
      exact reads_emptyObject d x
    | cons field fields =>
      cases field with
      | mk name value =>
        rw [Json.readableFields, Json.readableField, Bool.and_eq_true, Bool.and_eq_true] at hj
        have hfields := reads_fields hgap d name value fields hj.1.1 hj.1.2 hj.2 x
        rw [Json.render, List.cons_append, List.append_assoc]
        rw [Json.renderField, literal] at hfields ⊢
        exact hfields.object
termination_by sizeOf j
decreasing_by
  all_goals
    subst_vars
    simp only [Json.arr.sizeOf_spec, Json.obj.sizeOf_spec, List.cons.sizeOf_spec, Prod.mk.sizeOf_spec]
    omega

/-- The items of an array from the first one on. -/
theorem reads_items (hgap : ∀ c ∈ gap, isJsonSpace c = true) (depth : Nat) (item : Json) (items : List Json)
    (hitem : item.readable depth = true)
    (hitems : Json.readableItems (depth + 1) items = true) (x : PyStr) :
    Reads (scanItems depth (item.render gap ++ (Json.renderItems gap items ++ x))) (item :: items) x := by
  have hfirst := reads_render hgap depth item hitem (stops_renderItems gap items x)
  cases items with
  | nil =>
    rw [Json.renderItems] at hfirst ⊢
    exact hfirst.lastItem
  | cons next items =>
    rw [Json.readableItems, Bool.and_eq_true] at hitems
    rw [Json.renderItems, List.cons_append, List.append_assoc, List.append_assoc] at hfirst ⊢
    refine hfirst.nextItem ?_
    obtain ⟨c, t, heq, hc, -⟩ := render_head gap hitems.1 (Json.renderItems gap items ++ x)
    have hmore := reads_items hgap depth next items hitems.1 hitems.2 x
    rw [heq] at hmore ⊢
    rw [skipSpace_gap hgap hc]
    exact hmore
termination_by sizeOf item + sizeOf items
decreasing_by
  · have hpos : 0 < sizeOf items := by cases items <;> simp
    omega
  · subst_vars
    simp only [List.cons.sizeOf_spec]
    omega

/-- The fields of an object from the first one on. -/
theorem reads_fields (hgap : ∀ c ∈ gap, isJsonSpace c = true) (depth : Nat) (name : PyStr) (value : Json)
    (fields : List (PyStr × Json)) (hname : WellPaired name = true) (hvalue : value.readable depth = true)
    (hfields : Json.readableFields (depth + 1) fields = true) (x : PyStr) :
    Reads (scanPairs depth (Json.renderField gap (name, value) ++ (Json.renderFields gap fields ++ x)))
      ((name, value) :: fields) x := by
  have hfirst := reads_render hgap depth value hvalue (stops_renderFields gap fields x)
  have hkey := reads_escaped hname (0x3A :: (gap ++ (value.render gap ++ (Json.renderFields gap fields ++ x))))
  obtain ⟨c, t, heq, hc, -⟩ := render_head gap hvalue (Json.renderFields gap fields ++ x)
  have hskip : skipSpace (gap ++ (value.render gap ++ (Json.renderFields gap fields ++ x))) =
      value.render gap ++ (Json.renderFields gap fields ++ x) := by
    rw [heq]
    exact skipSpace_gap hgap hc t
  rw [← hskip] at hfirst
  have htext : Json.renderField gap (name, value) ++ (Json.renderFields gap fields ++ x) =
      0x22 :: (name.flatMap escapeCode ++ 0x22 :: 0x3A ::
        (gap ++ (value.render gap ++ (Json.renderFields gap fields ++ x)))) := by
    rw [Json.renderField, literal]
    simp only [List.cons_append, List.append_assoc, List.nil_append]
  rw [htext]
  cases fields with
  | nil =>
    rw [Json.renderFields] at hfirst hkey ⊢
    exact hkey.lastField hfirst
  | cons next fields =>
    cases next with
    | mk name' value' =>
      rw [Json.readableFields, Json.readableField, Bool.and_eq_true, Bool.and_eq_true] at hfields
      have hmore := reads_fields hgap depth name' value' fields hfields.1.1 hfields.1.2 hfields.2 x
      rw [Json.renderFields, List.cons_append] at hfirst hkey ⊢
      refine hkey.nextField hfirst ?_
      have hquote : ∀ u : PyStr, skipSpace (gap ++ (0x22 :: u)) = 0x22 :: u := fun u =>
        skipSpace_gap hgap (by decide) u
      rw [List.append_assoc, List.append_assoc, Json.renderField, literal]
      rw [Json.renderField, literal] at hmore
      simp only [List.cons_append] at hmore ⊢
      rw [hquote]
      exact hmore
termination_by sizeOf value + sizeOf fields
decreasing_by
  · have hpos : 0 < sizeOf fields := by cases fields <;> simp
    omega
  · subst_vars
    simp only [List.cons.sizeOf_spec, Prod.mk.sizeOf_spec]
    omega
end

/-- `json.loads` of the text of a value. -/
theorem jsonLoads_render (hgap : ∀ c ∈ gap, isJsonSpace c = true) {depth : Nat} {j : Json}
    (hj : j.readable depth = true) : jsonLoads depth (j.render gap) = .ok j := by
  obtain ⟨c, t, heq, hc, -, hbom⟩ := render_head gap hj []
  obtain ⟨hlt, hread⟩ := reads_render hgap depth j hj (x := []) (by rintro c ⟨⟩)
  have hskip : skipSpace (j.render gap) = j.render gap ++ [] := by
    rw [List.append_nil] at heq ⊢
    rw [heq]
    exact skipSpace_cons hc t
  rw [List.append_nil] at heq
  have hstart : ¬ (j.render gap).head? = some 0xFEFF := by
    rw [heq, List.head?_cons, Option.some.injEq]
    exact hbom
  rw [jsonLoads, if_neg hstart, hskip, hread]
  rfl

end

/-! ## The bytes of the text -/

theorem decodeUtf8_ascii {b : Bytes} (h : ∀ c ∈ b, c.toNat < 0x80) : decodeUtf8 b = some (b.map UInt8.toNat) := by
  induction b with
  | nil => rfl
  | cons c b ih =>
    have hc : c < 0x80 := UInt8.lt_iff_toNat_lt.mpr (h c List.mem_cons_self)
    rw [decodeUtf8.eq_def]
    simp only [if_pos hc, ih fun d hd => h d (List.mem_cons_of_mem c hd), Option.map_some, List.map_cons]

theorem ascii_unicodeEscape (u : Nat) : ∀ c ∈ (unicodeEscape u).map UInt8.toNat, c < 0x80 := by
  have htag : (utf8 "\\u").map UInt8.toNat = [0x5C, 'u'.toNat] := by decide
  have hdigit : ∀ n < 16, (hexDigit n).toNat < 0x80 := by decide
  intro c hc
  rw [unicodeEscape, List.map_append, htag, hex_codes, List.mem_append, List.mem_flatMap] at hc
  rcases hc with hc | ⟨b, -, hc⟩
  · have htable : ∀ c ∈ [0x5C, 'u'.toNat], c < 0x80 := by decide
    exact htable c hc
  · have hb := b.toNat_lt
    simp only [List.mem_cons, List.not_mem_nil, or_false] at hc
    rcases hc with rfl | rfl
    · exact hdigit _ (by omega)
    · exact hdigit _ (by omega)

theorem ascii_escapeCode (c : Nat) : ∀ d ∈ escapeCode c, d < 0x80 := by
  intro d hd
  by_cases hbasic : c < 0x10000
  · have hshort : ∀ p ∈ shortEscapes, ∀ d ∈ [0x5C, p.2.toNat], d < 0x80 := by decide
    rcases escapeCode_cases hbasic with ⟨b, hb, heq⟩ | ⟨-, hhi, -, -, heq⟩ | heq
    · exact hshort _ hb d (heq ▸ hd)
    · rw [heq, List.mem_singleton] at hd
      omega
    · exact ascii_unicodeEscape c d (heq ▸ hd)
  · rw [escapeCode_astral (by omega), List.mem_append] at hd
    rcases hd with hd | hd
    · exact ascii_unicodeEscape _ d hd
    · exact ascii_unicodeEscape _ d hd

theorem ascii_literal (s : PyStr) : ∀ c ∈ literal s, c < 0x80 := by
  intro c hc
  simp only [literal, List.mem_cons, List.mem_append, List.mem_flatMap, List.not_mem_nil, or_false] at hc
  rcases hc with rfl | ⟨d, -, hc⟩ | rfl
  · decide
  · exact ascii_escapeCode d c hc
  · decide

theorem ascii_int (n : Int) : ∀ c ∈ pyStr (toString n), c < 0x80 := by
  have hdigits : ∀ m, ∀ c ∈ (Nat.toDigits 10 m).map Char.toNat, c < 0x80 := by
    intro m c hc
    have hdigit := isDigit_toDigits c hc
    simp only [isDigit, decide_eq_true_eq] at hdigit
    omega
  intro c hc
  cases n with
  | ofNat n =>
    have htext : pyStr (toString (Int.ofNat n)) = (Nat.toDigits 10 n).map Char.toNat :=
      congrArg (List.map Char.toNat) Nat.toList_repr
    exact hdigits n c (htext ▸ hc)
  | negSucc n =>
    rw [negText] at hc
    rcases List.mem_cons.mp hc with rfl | hc
    · decide
    · exact hdigits (n + 1) c hc

section
variable {gap : PyStr}

mutual
theorem ascii_render (hgap : ∀ c ∈ gap, c < 0x80) (depth : Nat) (j : Json) (hj : j.readable depth = true) :
    ∀ c ∈ j.render gap, c < 0x80 := by
  intro c hc
  cases j with
  | null =>
    have hword : ∀ c ∈ pyStr "null", c < 0x80 := by decide
    exact hword c (by rwa [Json.render] at hc)
  | bool b =>
    have hword : ∀ b : Bool, ∀ c ∈ pyStr (if b then "true" else "false"), c < 0x80 := by decide
    exact hword b c (by rwa [Json.render] at hc)
  | int n => exact ascii_int n c (by rwa [Json.render] at hc)
  | float t => simp [Json.readable] at hj
  | str s => exact ascii_literal s c (by rwa [Json.render] at hc)
  | arr items =>
    rw [Json.readable] at hj
    cases items with
    | nil =>
      rw [Json.render] at hc
      exact (by decide : ∀ c ∈ [0x5B, 0x5D], c < 0x80) c hc
    | cons item items =>
      obtain ⟨d, rfl⟩ := readableItems_pos hj
      rw [Json.readableItems, Bool.and_eq_true] at hj
      rw [Json.render, List.mem_cons, List.mem_append] at hc
      rcases hc with rfl | hc | hc
      · decide
      · exact ascii_render hgap d item hj.1 c hc
      · exact ascii_items hgap d items hj.2 c hc
  | obj fields =>
    rw [Json.readable] at hj
    cases fields with
    | nil =>
      rw [Json.render] at hc
      exact (by decide : ∀ c ∈ [0x7B, 0x7D], c < 0x80) c hc
    | cons field fields =>
      cases field with
      | mk name value =>
        obtain ⟨d, rfl⟩ := readableFields_pos hj
        rw [Json.readableFields, Json.readableField, Bool.and_eq_true, Bool.and_eq_true] at hj
        rw [Json.render, Json.renderField, List.mem_cons, List.mem_append, List.mem_append, List.mem_cons,
          List.mem_append] at hc
        rcases hc with rfl | (hc | rfl | hc | hc) | hc
        · decide
        · exact ascii_literal name c hc
        · decide
        · exact hgap c hc
        · exact ascii_render hgap d value hj.1.2 c hc
        · exact ascii_fields hgap d fields hj.2 c hc
termination_by sizeOf j
decreasing_by
  all_goals
    subst_vars
    simp only [Json.arr.sizeOf_spec, Json.obj.sizeOf_spec, List.cons.sizeOf_spec, Prod.mk.sizeOf_spec]
    omega

theorem ascii_items (hgap : ∀ c ∈ gap, c < 0x80) (depth : Nat) (items : List Json)
    (hitems : Json.readableItems (depth + 1) items = true) : ∀ c ∈ Json.renderItems gap items, c < 0x80 := by
  intro c hc
  cases items with
  | nil =>
    rw [Json.renderItems, List.mem_singleton] at hc
    omega
  | cons item items =>
    rw [Json.readableItems, Bool.and_eq_true] at hitems
    rw [Json.renderItems, List.mem_cons, List.mem_append, List.mem_append] at hc
    rcases hc with rfl | hc | hc | hc
    · decide
    · exact hgap c hc
    · exact ascii_render hgap depth item hitems.1 c hc
    · exact ascii_items hgap depth items hitems.2 c hc
termination_by sizeOf items
decreasing_by
  all_goals
    subst_vars
    simp only [List.cons.sizeOf_spec]
    omega

theorem ascii_fields (hgap : ∀ c ∈ gap, c < 0x80) (depth : Nat) (fields : List (PyStr × Json))
    (hfields : Json.readableFields (depth + 1) fields = true) :
    ∀ c ∈ Json.renderFields gap fields, c < 0x80 := by
  intro c hc
  cases fields with
  | nil =>
    rw [Json.renderFields, List.mem_singleton] at hc
    omega
  | cons field fields =>
    cases field with
    | mk name value =>
      rw [Json.readableFields, Json.readableField, Bool.and_eq_true, Bool.and_eq_true] at hfields
      rw [Json.renderFields, Json.renderField, List.mem_cons, List.mem_append, List.mem_append, List.mem_append,
        List.mem_cons, List.mem_append] at hc
      rcases hc with rfl | hc | (hc | rfl | hc | hc) | hc
      · decide
      · exact hgap c hc
      · exact ascii_literal name c hc
      · decide
      · exact hgap c hc
      · exact ascii_render hgap depth value hfields.1.2 c hc
      · exact ascii_fields hgap depth fields hfields.2 c hc
termination_by sizeOf fields
decreasing_by
  all_goals
    subst_vars
    simp only [List.cons.sizeOf_spec, Prod.mk.sizeOf_spec]
    omega
end

end

/-- The bytes of an ASCII text, which is what `dumps` returns. -/
def asciiBytes (s : PyStr) : Bytes := s.map UInt8.ofNat

/-- The separators of `json.dumps` are followed by nothing or by a space. -/
def isGap (gap : PyStr) : Bool := gap = [] ∨ gap = [0x20]

/-- The bytes of a printed value are decoded and read as the value. -/
theorem loads_render {gap : PyStr} (hgap : isGap gap = true) {depth : Nat} {j : Json}
    (hj : j.readable depth = true) :
    (decodeUtf8 (asciiBytes (j.render gap))).map (jsonLoads depth) = some (.ok j) := by
  have hspace : ∀ c ∈ gap, isJsonSpace c = true ∧ c < 0x80 := by
    rw [isGap, decide_eq_true_eq] at hgap
    rcases hgap with rfl | rfl <;> decide
  have hascii := ascii_render (fun c hc => (hspace c hc).2) depth j hj
  have hcodes : (asciiBytes (j.render gap)).map UInt8.toNat = j.render gap := by
    rw [asciiBytes, List.map_map]
    calc (j.render gap).map (UInt8.toNat ∘ UInt8.ofNat) = (j.render gap).map id := by
          refine List.map_congr_left fun c hc => ?_
          have hlt := hascii c hc
          rw [Function.comp_apply, UInt8.toNat_ofNat', id_eq]
          omega
      _ = j.render gap := List.map_id _
  have hbytes : ∀ b ∈ asciiBytes (j.render gap), b.toNat < 0x80 := by
    intro b hb
    exact hascii b.toNat (hcodes ▸ List.mem_map_of_mem hb)
  rw [decodeUtf8_ascii hbytes, hcodes, Option.map_some,
    jsonLoads_render (fun c hc => (hspace c hc).1) hj]

/-- `json.loads(json.dumps(value).encode())` is the value, under the compact separators and under
    the default ones. -/
theorem loads_dumps {gap : PyStr} (hgap : isGap gap = true) {depth : Nat} {j : Json}
    (hj : j.readable depth = true) :
    (decodeUtf8 (asciiBytes (j.render gap))).map (jsonLoads depth) = some (.ok j) :=
  loads_render hgap hj

/-! A value with strings in and outside the basic plane, a lone surrogate, a negative number, an
    empty object and two levels of nesting. -/
namespace JsonSample

def value : Json :=
  .obj [(pyStr "peers", .arr [.str [0xE9, 0x1F600, 0xD800, 0x22], .int (-120), .obj []]), ([], .bool true),
    (pyStr "relay_token", .null)]

end JsonSample

theorem loads_dumps_sample :
    (decodeUtf8 (asciiBytes (JsonSample.value.render [0x20]))).map (jsonLoads 3) = some (.ok JsonSample.value) :=
  loads_dumps (by decide) (by decide +kernel)

/-! ## The canonical text -/

theorem codes_quoted (s : PyStr) : (quoted s).map UInt8.toNat = literal s := by
  rw [quoted_eq, literal, List.map_cons, List.map_append, List.map_flatMap]
  rfl

theorem codes_utf8_digits (n : Nat) : (utf8 (toString n)).map UInt8.toNat = (Nat.toDigits 10 n).map Char.toNat := by
  have hdigit : ∀ k < 10, (String.utf8EncodeChar (Char.ofNat (48 + k))).map UInt8.toNat = [48 + k] := by
    decide +kernel
  rw [utf8_nat]
  have hall : ∀ c ∈ Nat.toDigits 10 n, c.isDigit = true := fun c hc =>
    Nat.isDigit_of_mem_toDigits (by decide) (by decide) hc
  generalize Nat.toDigits 10 n = l at hall
  induction l with
  | nil => rfl
  | cons c l ih =>
    have hbounds := isDigit_bounds (hall c List.mem_cons_self)
    have hchar : c = Char.ofNat (48 + (c.toNat - 48)) := by
      rw [Nat.add_sub_cancel' hbounds.1, Char.ofNat_toNat]
    have hcode := hdigit (c.toNat - 48) (by omega)
    rw [← hchar, Nat.add_sub_cancel' hbounds.1] at hcode
    rw [List.flatMap_cons, List.map_append, hcode, ih fun d hd => hall d (List.mem_cons_of_mem c hd), List.map_cons]
    rfl

theorem codes_int (n : Int) : (utf8 (toString n)).map UInt8.toNat = pyStr (toString n) := by
  cases n with
  | ofNat n => exact (codes_utf8_digits n).trans (congrArg (List.map Char.toNat) Nat.toList_repr).symm
  | negSucc n =>
    have hrepr : toString (Int.negSucc n) = "-" ++ toString (n + 1) := rfl
    rw [negText, hrepr, utf8_append, List.map_append, codes_utf8_digits]
    rfl

/-- The items after the first, where each item has its text. -/
theorem codes_restText {α : Type} {f : α → Bytes} {g : α → PyStr} {close : UInt8} {items : List α}
    (h : ∀ a ∈ items, (f a).map UInt8.toNat = g a) :
    (restText f close items).map UInt8.toNat = items.flatMap (fun a => 0x2C :: g a) ++ [close.toNat] := by
  rw [restText, List.map_append, List.map_flatMap]
  congr 1
  refine List.flatMap_congr fun a ha => ?_
  rw [List.map_cons, h a ha]
  rfl

theorem renderItems_compact (items : List Json) :
    Json.renderItems [] items = items.flatMap (fun item => 0x2C :: item.render []) ++ [0x5D] := by
  induction items with
  | nil => rw [Json.renderItems]; rfl
  | cons item items ih => rw [Json.renderItems, ih, List.flatMap_cons, List.nil_append, List.append_assoc]; rfl

theorem renderFields_compact (fields : List (PyStr × Json)) :
    Json.renderFields [] fields = fields.flatMap (fun f => 0x2C :: Json.renderField [] f) ++ [0x7D] := by
  induction fields with
  | nil => rw [Json.renderFields]; rfl
  | cons f fields ih => rw [Json.renderFields, ih, List.flatMap_cons, List.nil_append, List.append_assoc]; rfl

/-- The canonical writer's text is the compact one. -/
theorem codes_text (j : Json) (hj : j.plain = true) : j.text.map UInt8.toNat = j.render [] := by
  cases j with
  | null => decide +kernel
  | bool b => cases b <;> decide +kernel
  | int n =>
    rw [Json.text, Json.render]
    exact codes_int n
  | float t => simp [Json.plain] at hj
  | str s =>
    rw [Json.text, Json.render]
    exact codes_quoted s
  | arr items =>
    rw [Json.plain, Json.plainItems_iff] at hj
    have hitem : ∀ item ∈ items, item.text.map UInt8.toNat = item.render [] := fun item hmem =>
      codes_text item (hj item hmem)
    have htext := Json.text_arr items []
    rw [List.append_nil, List.append_nil] at htext
    rw [htext]
    cases items with
    | nil => decide +kernel
    | cons item items =>
      rw [intercalate_close, List.map_cons, List.map_append, hitem item List.mem_cons_self,
        codes_restText fun a ha => hitem a (List.mem_cons_of_mem item ha), Json.render, renderItems_compact]
      rfl
  | obj fields =>
    rw [Json.plain, Json.plainFields_iff] at hj
    have hfield : ∀ f ∈ fields, (Json.textField f).map UInt8.toNat = Json.renderField [] f := by
      intro f hf
      have hvalue := codes_text f.2 (hj f hf).2
      have hcolon : (utf8 ":").map UInt8.toNat = [0x3A] := by decide
      rw [Json.textField.eq_def, Json.renderField.eq_def]
      simp only [List.map_append, codes_quoted, hcolon, hvalue, List.append_assoc, List.nil_append, List.cons_append]
    have htext := Json.text_obj fields []
    rw [List.append_nil, List.append_nil] at htext
    rw [htext]
    cases fields with
    | nil => decide +kernel
    | cons field fields =>
      rw [intercalate_close, List.map_cons, List.map_append, hfield field List.mem_cons_self,
        codes_restText fun a ha => hfield a (List.mem_cons_of_mem field ha), Json.render, renderFields_compact]
      rfl
termination_by sizeOf j
decreasing_by
  · subst_vars
    have hlt := List.sizeOf_lt_of_mem hmem
    simp only [Json.arr.sizeOf_spec]
    omega
  · subst_vars
    have hlt := List.sizeOf_lt_of_mem hf
    cases f
    simp only [Json.obj.sizeOf_spec, Prod.mk.sizeOf_spec] at hlt ⊢
    omega

theorem readableItems_iff {depth : Nat} {items : List Json} :
    Json.readableItems (depth + 1) items = true ↔ ∀ item ∈ items, item.readable depth = true := by
  induction items with
  | nil => simp [Json.readableItems]
  | cons item items ih => simp [Json.readableItems, ih]

theorem readableFields_iff {depth : Nat} {fields : List (PyStr × Json)} :
    Json.readableFields (depth + 1) fields = true ↔
      ∀ f ∈ fields, WellPaired f.1 = true ∧ f.2.readable depth = true := by
  induction fields with
  | nil => simp [Json.readableFields]
  | cons f fields ih =>
    cases f
    simp [Json.readableFields, Json.readableField, ih]

theorem plain_of_readable (depth : Nat) (j : Json) (hj : j.readable depth = true) : j.plain = true := by
  cases j with
  | null => rfl
  | bool b => rfl
  | int n => rfl
  | float t => simp [Json.readable] at hj
  | str s =>
    rw [Json.readable] at hj
    rw [Json.plain]
    exact hj
  | arr items =>
    rw [Json.readable] at hj
    obtain ⟨d, rfl⟩ := readableItems_pos hj
    rw [readableItems_iff] at hj
    rw [Json.plain, Json.plainItems_iff]
    exact fun item hmem => plain_of_readable d item (hj item hmem)
  | obj fields =>
    rw [Json.readable] at hj
    obtain ⟨d, rfl⟩ := readableFields_pos hj
    rw [readableFields_iff] at hj
    rw [Json.plain, Json.plainFields_iff]
    exact fun f hmem => ⟨(hj f hmem).1, plain_of_readable d f.2 (hj f hmem).2⟩
termination_by sizeOf j
decreasing_by
  · subst_vars
    have hlt := List.sizeOf_lt_of_mem hmem
    simp only [Json.arr.sizeOf_spec]
    omega
  · subst_vars
    have hlt := List.sizeOf_lt_of_mem hmem
    cases f
    simp only [Json.obj.sizeOf_spec, Prod.mk.sizeOf_spec] at hlt ⊢
    omega

theorem canonItems_eq_map (items : List Json) : Json.canonItems items = items.map Json.canon := by
  induction items with
  | nil => simp [Json.canonItems]
  | cons item items ih => simp [Json.canonItems, ih]

/-- A sorted value is sorted. -/
theorem canon_canon (j : Json) : j.canon.canon = j.canon := by
  cases j with
  | null => simp [Json.canon]
  | bool b => simp [Json.canon]
  | int n => simp [Json.canon]
  | float t => simp [Json.canon]
  | str s => simp [Json.canon]
  | arr items =>
    have hitem : ∀ item ∈ items, item.canon.canon = item.canon := fun item hmem => canon_canon item
    rw [Json.canon, Json.canon, canonItems_eq_map, canonItems_eq_map, List.map_map]
    exact congrArg Json.arr (List.map_congr_left hitem)
  | obj fields =>
    have hvalue : ∀ f ∈ fields, f.2.canon.canon = f.2.canon := fun f hmem => canon_canon f.2
    have htotal : Std.Total fun a b : PyStr × Json => keyLe a.1 b.1 = true :=
      ⟨fun a b => Frontend.keyLe_total a.1 b.1⟩
    have htrans : IsTrans (PyStr × Json) fun a b => keyLe a.1 b.1 = true :=
      ⟨fun _ _ _ hab hbc => Frontend.keyLe_trans hab hbc⟩
    have hsorted := List.pairwise_insertionSort (fun a b : PyStr × Json => keyLe a.1 b.1 = true)
      (Json.canonFields fields)
    have hsame : Json.canonFields ((Json.canonFields fields).insertionSort fun a b => keyLe a.1 b.1) =
        (Json.canonFields fields).insertionSort fun a b => keyLe a.1 b.1 := by
      rw [Frontend.canonFields_map]
      calc _ = ((Json.canonFields fields).insertionSort fun a b => keyLe a.1 b.1).map id := by
            refine List.map_congr_left fun f hf => ?_
            rw [List.mem_insertionSort, Frontend.canonFields_map] at hf
            obtain ⟨g, hg, rfl⟩ := List.mem_map.mp hf
            rw [hvalue g hg]
            rfl
        _ = _ := List.map_id _
    rw [Json.canon, Json.canon, hsame, hsorted.insertionSort_eq]
termination_by sizeOf j
decreasing_by
  · subst_vars
    have hlt := List.sizeOf_lt_of_mem hmem
    simp only [Json.arr.sizeOf_spec]
    omega
  · subst_vars
    have hlt := List.sizeOf_lt_of_mem hmem
    cases f
    simp only [Json.obj.sizeOf_spec, Prod.mk.sizeOf_spec] at hlt ⊢
    omega

/-- The canonical bytes of a value are read back with its fields sorted. -/
theorem loads_canonical {depth : Nat} {j : Json} (hj : j.canon.readable depth = true) :
    (decodeUtf8 j.dumps).map (jsonLoads depth) = some (.ok j.canon) := by
  have hplain := plain_of_readable depth _ hj
  have hcodes := codes_text j.canon hplain
  have hbytes : asciiBytes (j.canon.render []) = j.dumps := by
    rw [asciiBytes, ← hcodes, List.map_map, Json.dumps_eq]
    calc j.canon.text.map (UInt8.ofNat ∘ UInt8.toNat) = j.canon.text.map id := by
          refine List.map_congr_left fun b _ => ?_
          rw [Function.comp_apply, UInt8.ofNat_toNat, id_eq]
      _ = j.canon.text := List.map_id _
  rw [← hbytes]
  exact loads_render (by decide) hj

theorem dumps_canon (j : Json) : j.canon.dumps = j.dumps := by
  rw [Json.dumps_eq, canon_canon, Json.dumps_eq]

/-- What is read from the canonical bytes of a value has the same canonical bytes: a signature over
    them is checked over what was signed. -/
theorem canonical_bytes_survive {depth : Nat} {j : Json} (hj : j.canon.readable depth = true) :
    ∃ parsed, (decodeUtf8 j.dumps).map (jsonLoads depth) = some (.ok parsed) ∧ parsed.dumps = j.dumps :=
  ⟨j.canon, loads_canonical hj, dumps_canon j⟩

theorem canonical_bytes_survive_sample : ∃ parsed,
    (decodeUtf8 JsonSample.value.dumps).map (jsonLoads 3) = some (.ok parsed) ∧
      parsed.dumps = JsonSample.value.dumps :=
  canonical_bytes_survive (by decide +kernel)

end ElGamalVoting
