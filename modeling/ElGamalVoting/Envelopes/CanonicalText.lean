import ElGamalVoting.Envelopes.Canonical
import ElGamalVoting.Envelopes.ConfigCodec

/- What the canonical text of a JSON value determines.

   The text is ASCII: a character outside the basic plane is written as the escapes
   of its two UTF-16 units, so the text of a string determines its UTF-16 form, and
   the string itself unless two of its characters are the surrogates of a third
   (`WellPaired`). Numbers end where no digit follows, and every other value is
   delimited by itself. So equal texts are of values that agree once the fields of
   their objects are sorted (`dumps_injective`). -/
namespace ElGamalVoting
open Lib

/-! ## UTF-16 -/

def isHigh (c : Nat) : Bool := 0xD800 ≤ c ∧ c < 0xDC00
def isLow (c : Nat) : Bool := 0xDC00 ≤ c ∧ c < 0xE000

def utf16Char (c : Nat) : List Nat :=
  if c < 0x10000 then [c]
  else [0xD800 + (c - 0x10000) / 0x400, 0xDC00 + (c - 0x10000) % 0x400]

def utf16 (s : PyStr) : List Nat := s.flatMap utf16Char

/-- Code points, with no high surrogate directly before a low one. -/
def WellPaired : PyStr → Bool
  | [] => true
  | c :: s => c < 0x110000 ∧ ¬ (isHigh c ∧ s.head?.any isLow) ∧ WellPaired s

theorem wellPaired_cons {c : Nat} {s : PyStr} (h : WellPaired (c :: s) = true) :
    c < 0x110000 ∧ (isHigh c = true → s.head?.any isLow = false) ∧ WellPaired s = true := by
  rw [WellPaired, decide_eq_true_eq] at h
  refine ⟨h.1, fun hhigh => ?_, h.2.2⟩
  simpa [hhigh] using h.2.1

/-- The unit a high surrogate would be of a character outside the basic plane does not start
    the rest of the string. -/
theorem utf16_unpaired {c d : Nat} {s t : PyStr} (hs : WellPaired (c :: s) = true)
    (hd : 0x10000 ≤ d) (hd' : d < 0x110000) (hc : c = 0xD800 + (d - 0x10000) / 0x400) :
    utf16 s ≠ (0xDC00 + (d - 0x10000) % 0x400) :: utf16 t := by
  intro h
  obtain ⟨-, hpair, hrest⟩ := wellPaired_cons hs
  have hhigh : isHigh c = true := by
    rw [isHigh, decide_eq_true_eq]
    omega
  cases s with
  | nil => cases h
  | cons e s =>
    have he := (wellPaired_cons hrest).1
    rw [utf16, List.flatMap_cons, utf16Char] at h
    split at h
    · -- the next character is the low surrogate itself
      have hlow : e = 0xDC00 + (d - 0x10000) % 0x400 := (List.cons.inj h).1
      have hislow : isLow e = true := by
        rw [isLow, decide_eq_true_eq]
        omega
      have hnot := hpair hhigh
      simp [hislow] at hnot
    · have hunit := (List.cons.inj h).1
      omega

theorem utf16_injective {s t : PyStr} (hs : WellPaired s = true) (ht : WellPaired t = true)
    (h : utf16 s = utf16 t) : s = t := by
  induction s generalizing t with
  | nil =>
    cases t with
    | nil => rfl
    | cons d t =>
      rw [utf16, utf16, List.flatMap_nil, List.flatMap_cons, utf16Char] at h
      split at h <;> cases h
  | cons c s ih =>
    cases t with
    | nil =>
      rw [utf16, utf16, List.flatMap_nil, List.flatMap_cons, utf16Char] at h
      split at h <;> cases h
    | cons d t =>
      obtain ⟨hc, -, hs'⟩ := wellPaired_cons hs
      obtain ⟨hd, -, ht'⟩ := wellPaired_cons ht
      rw [utf16, utf16, List.flatMap_cons, List.flatMap_cons, utf16Char, utf16Char] at h
      split at h <;> split at h <;> simp only [List.cons_append, List.nil_append] at h
      · obtain ⟨rfl, htail⟩ := List.cons.inj h
        rw [ih hs' ht' htail]
      · obtain ⟨hunit, htail⟩ := List.cons.inj h
        exact absurd htail (utf16_unpaired hs (by omega) hd hunit)
      · obtain ⟨hunit, htail⟩ := List.cons.inj h
        exact absurd htail.symm (utf16_unpaired ht (by omega) hc hunit.symm)
      · obtain ⟨hhigh, hlows⟩ := List.cons.inj h
        obtain ⟨hlow, htail⟩ := List.cons.inj hlows
        obtain rfl : c = d := by omega
        rw [ih hs' ht' htail]

theorem utf16_lt {s : PyStr} (hs : WellPaired s = true) : ∀ u ∈ utf16 s, u < 0x10000 := by
  induction s with
  | nil => simp [utf16]
  | cons c s ih =>
    obtain ⟨hc, -, hs'⟩ := wellPaired_cons hs
    intro u hu
    rw [utf16, List.flatMap_cons, List.mem_append] at hu
    rcases hu with hu | hu
    · rw [utf16Char] at hu
      split at hu
      · obtain rfl := List.mem_singleton.mp hu
        assumption
      · simp only [List.mem_cons, List.not_mem_nil, or_false] at hu
        omega
    · exact ih hs' u hu

/-! ## The text of a string -/

/-- The two-byte escapes, by the code point they stand for. -/
def shortEscapes : List (Nat × UInt8) :=
  [(0x22, 0x22), (0x5C, 0x5C), (0x0A, 0x6E), (0x0D, 0x72), (0x09, 0x74), (0x0C, 0x66), (0x08, 0x62)]

inductive EscapedAs (u : Nat) : Bytes → Prop
  | short (b : UInt8) (h : (u, b) ∈ shortEscapes) : EscapedAs u [0x5C, b]
  | plain (hlo : 0x20 ≤ u) (hhi : u ≤ 0x7E) (hquote : u ≠ 0x22) (hslash : u ≠ 0x5C) :
      EscapedAs u [UInt8.ofNat u]
  | unicode (digits : Bytes) (h : utf8 (hex (beBytes 2 u)) = digits) :
      EscapedAs u (0x5C :: 0x75 :: digits)

theorem escapeChar_escapedAs {u : Nat} (hu : u < 0x10000) : EscapedAs u (escapeChar u) := by
  have hshort : ∀ p ∈ shortEscapes, escapeChar p.1 = [0x5C, p.2] := by decide
  have hunicode : unicodeEscape u = 0x5C :: 0x75 :: utf8 (hex (beBytes 2 u)) := by
    have htag : utf8 "\\u" = [0x5C, 0x75] := by decide
    rw [unicodeEscape, htag]
    rfl
  by_cases hmem : ∃ b, (u, b) ∈ shortEscapes
  · obtain ⟨b, hb⟩ := hmem
    rw [hshort _ hb]
    exact .short b hb
  · have hnot : ∀ p ∈ shortEscapes, u ≠ p.1 := fun p hp hu => hmem ⟨p.2, hu ▸ hp⟩
    simp only [shortEscapes, List.mem_cons, List.not_mem_nil, or_false, forall_eq_or_imp, forall_eq]
      at hnot
    obtain ⟨h1, h2, h3, h4, h5, h6, h7⟩ := hnot
    rw [escapeChar, if_neg h1, if_neg h2, if_neg h3, if_neg h4, if_neg h5, if_neg h6, if_neg h7]
    rw [if_pos hu]
    split
    · rename_i hplain
      exact .plain hplain.1 hplain.2 h1 h2
    · rw [hunicode]
      exact .unicode _ rfl

/-- No escaped unit begins another. -/
theorem escapeChar_prefix {u v : Nat} (hu : u < 0x10000) (hv : v < 0x10000) {x y : Bytes}
    (h : escapeChar u ++ x = escapeChar v ++ y) : u = v ∧ x = y := by
  have hbyte : ∀ w, 0x20 ≤ w → w ≤ 0x7E → (UInt8.ofNat w).toNat = w := by
    intro w _ _
    rw [UInt8.toNat_ofNat']
    omega
  have htable : ∀ p ∈ shortEscapes, ∀ q ∈ shortEscapes, p.2 = q.2 → p.1 = q.1 := by decide
  have hnotU : ∀ p ∈ shortEscapes, p.2 ≠ 0x75 := by decide
  have hslash : ∀ w, 0x20 ≤ w → w ≤ 0x7E → w ≠ 0x5C → UInt8.ofNat w ≠ 0x5C := by
    intro w hlo hhi hne heq
    have := congrArg UInt8.toNat heq
    rw [hbyte w hlo hhi] at this
    exact hne this
  have hescU := escapeChar_escapedAs hu
  have hescV := escapeChar_escapedAs hv
  revert hescU hescV h
  generalize escapeChar u = a
  generalize escapeChar v = b
  intro h hescU hescV
  cases hescU with
  | short c hc =>
    cases hescV with
    | short d hd =>
      obtain ⟨-, h⟩ := List.cons.inj h
      obtain ⟨hcd, hxy⟩ := List.cons.inj h
      exact ⟨htable _ hc _ hd hcd, hxy⟩
    | plain hlo hhi _ hne => exact absurd (List.cons.inj h).1.symm (hslash v hlo hhi hne)
    | unicode _ _ => exact absurd (List.cons.inj (List.cons.inj h).2).1 (hnotU _ hc)
  | plain hlo hhi _ hne =>
    cases hescV with
    | short d hd => exact absurd (List.cons.inj h).1 (hslash u hlo hhi hne)
    | plain hlo' hhi' _ _ =>
      obtain ⟨hhead, hxy⟩ := List.cons.inj h
      have := congrArg UInt8.toNat hhead
      rw [hbyte u hlo hhi, hbyte v hlo' hhi'] at this
      exact ⟨this, hxy⟩
    | unicode _ _ => exact absurd (List.cons.inj h).1 (hslash u hlo hhi hne)
  | unicode digits hdigits =>
    cases hescV with
    | short d hd => exact absurd (List.cons.inj (List.cons.inj h).2).1.symm (hnotU _ hd)
    | plain hlo hhi _ hne => exact absurd (List.cons.inj h).1.symm (hslash v hlo hhi hne)
    | unicode digits' hdigits' =>
      obtain ⟨-, h⟩ := List.cons.inj h
      obtain ⟨-, h⟩ := List.cons.inj h
      have hlen : digits.length = digits'.length := by
        rw [← hdigits, ← hdigits', length_utf8_hex, length_utf8_hex, length_beBytes, length_beBytes]
      obtain ⟨hsame, hxy⟩ := List.append_inj h hlen
      rw [← hdigits, ← hdigits'] at hsame
      have hunits := beBytes_inj (w := 2) (by omega) (by omega) (hex_injective (utf8_injective hsame))
      exact ⟨hunits, hxy⟩

theorem escapeChar_head {u : Nat} (hu : u < 0x10000) :
    ∃ b rest, escapeChar u = b :: rest ∧ b ≠ 0x22 := by
  have hesc := escapeChar_escapedAs hu
  revert hesc
  generalize escapeChar u = a
  intro hesc
  cases hesc with
  | short b hb => exact ⟨_, _, rfl, by decide⟩
  | plain hlo hhi hne _ =>
    refine ⟨_, _, rfl, fun heq => hne ?_⟩
    have := congrArg UInt8.toNat heq
    rw [UInt8.toNat_ofNat'] at this
    have h22 : (0x22 : UInt8).toNat = 0x22 := rfl
    omega
  | unicode _ _ => exact ⟨_, _, rfl, by decide⟩

/-- A quotation mark ends the escaped units. -/
theorem escaped_injective {us vs : List Nat} (hus : ∀ u ∈ us, u < 0x10000)
    (hvs : ∀ v ∈ vs, v < 0x10000) {x y : Bytes}
    (h : us.flatMap escapeChar ++ 0x22 :: x = vs.flatMap escapeChar ++ 0x22 :: y) :
    us = vs ∧ x = y := by
  induction us generalizing vs with
  | nil =>
    cases vs with
    | nil => exact ⟨rfl, (List.cons.inj h).2⟩
    | cons v vs =>
      obtain ⟨b, rest, hesc, hb⟩ := escapeChar_head (hvs v List.mem_cons_self)
      rw [List.flatMap_nil, List.flatMap_cons, hesc] at h
      exact absurd (List.cons.inj h).1.symm hb
  | cons u us ih =>
    cases vs with
    | nil =>
      obtain ⟨b, rest, hesc, hb⟩ := escapeChar_head (hus u List.mem_cons_self)
      rw [List.flatMap_nil, List.flatMap_cons, hesc] at h
      exact absurd (List.cons.inj h).1 hb
    | cons v vs =>
      rw [List.flatMap_cons, List.flatMap_cons, List.append_assoc, List.append_assoc] at h
      obtain ⟨rfl, htail⟩ := escapeChar_prefix (hus u List.mem_cons_self) (hvs v List.mem_cons_self) h
      obtain ⟨rfl, hxy⟩ := ih (fun w hw => hus w (List.mem_cons_of_mem _ hw))
        (fun w hw => hvs w (List.mem_cons_of_mem _ hw)) htail
      exact ⟨rfl, hxy⟩

/-- A character outside the basic plane is escaped unit by unit. -/
theorem flatMap_escapeChar {s : PyStr} (hs : ∀ c ∈ s, c < 0x110000) :
    s.flatMap escapeChar = (utf16 s).flatMap escapeChar := by
  induction s with
  | nil => rfl
  | cons c s ih =>
    have hc := hs c List.mem_cons_self
    rw [utf16, List.flatMap_cons, List.flatMap_cons, List.flatMap_append,
      ih fun d hd => hs d (List.mem_cons_of_mem _ hd), utf16]
    congr 1
    rw [utf16Char]
    split
    · rw [List.flatMap_singleton]
    · rename_i hbig
      have hunit : ∀ w, 0xD800 ≤ w → w < 0x10000 → escapeChar w = unicodeEscape w := by
        intro w hlo hhi
        rw [escapeChar, if_neg (by omega), if_neg (by omega), if_neg (by omega), if_neg (by omega),
          if_neg (by omega), if_neg (by omega), if_neg (by omega), if_neg (by omega), if_pos hhi]
      have hescape : escapeChar c = unicodeEscape (0xD800 + (c - 0x10000) / 0x400) ++
          unicodeEscape (0xDC00 + (c - 0x10000) % 0x400) := by
        rw [escapeChar, if_neg (by omega), if_neg (by omega), if_neg (by omega), if_neg (by omega),
          if_neg (by omega), if_neg (by omega), if_neg (by omega), if_neg (by omega), if_neg hbig]
      rw [hescape, List.flatMap_cons, List.flatMap_singleton, hunit _ (by omega) (by omega),
        hunit _ (by omega) (by omega)]

theorem lt_of_wellPaired {s : PyStr} (hs : WellPaired s = true) : ∀ c ∈ s, c < 0x110000 := by
  induction s with
  | nil => simp
  | cons c s ih =>
    obtain ⟨hc, -, hs'⟩ := wellPaired_cons hs
    intro d hd
    rcases List.mem_cons.mp hd with rfl | hd
    · exact hc
    · exact ih hs' d hd

theorem quoted_eq (s : PyStr) : quoted s = 0x22 :: (s.flatMap escapeChar ++ [0x22]) := by
  have hquote : utf8 "\"" = [0x22] := by decide
  rw [quoted, hquote]
  rfl

theorem quoted_prefix {s t : PyStr} (hs : WellPaired s = true) (ht : WellPaired t = true) {x y : Bytes}
    (h : quoted s ++ x = quoted t ++ y) : s = t ∧ x = y := by
  rw [quoted_eq, quoted_eq, flatMap_escapeChar (lt_of_wellPaired hs),
    flatMap_escapeChar (lt_of_wellPaired ht)] at h
  rw [List.cons_append, List.cons_append, List.append_assoc, List.append_assoc] at h
  have htail := (List.cons.inj h).2
  obtain ⟨hunits, hxy⟩ := escaped_injective (utf16_lt hs) (utf16_lt ht) htail
  exact ⟨utf16_injective hs ht hunits, hxy⟩

/-! ## The text of a number -/

/-- The bytes of a decimal number. -/
def isNumeral (b : UInt8) : Bool := b = 0x2D ∨ 0x30 ≤ b ∧ b ≤ 0x39

/-- The bytes of any number. -/
def isNumberByte (b : UInt8) : Bool := isNumeral b ∨ b ∈ ([0x2B, 0x2E, 0x45, 0x65] : List UInt8)

/-- What may follow a value: nothing, or a comma or a closing bracket. -/
def Ends (x : Bytes) : Prop := ∀ b ∈ x.head?, b ∈ [0x2C, 0x5D, 0x7D]

theorem not_isNumeral_of_ends {x : Bytes} (hx : Ends x) {b : UInt8} (hb : b ∈ x.head?) :
    isNumeral b = false := by
  have hall : ∀ b ∈ ([0x2C, 0x5D, 0x7D] : List UInt8), isNumeral b = false := by decide +kernel
  exact hall b (hx b hb)

/-- Two texts end together where what satisfies `p` ends. -/
theorem append_inj_of_all {p : UInt8 → Bool} {a b x y : Bytes} (ha : ∀ c ∈ a, p c = true)
    (hb : ∀ c ∈ b, p c = true) (hx : ∀ c ∈ x.head?, p c = false) (hy : ∀ c ∈ y.head?, p c = false)
    (h : a ++ x = b ++ y) : a = b ∧ x = y := by
  have htake : ∀ {a x : Bytes}, (∀ c ∈ a, p c = true) → (∀ c ∈ x.head?, p c = false) →
      (a ++ x).takeWhile p = a := by
    intro a x ha hx
    rw [List.takeWhile_append_of_pos ha]
    cases x with
    | nil => simp
    | cons c x => simp [hx c rfl]
  have hab : a = b := by rw [← htake ha hx, h, htake hb hy]
  subst hab
  exact ⟨rfl, List.append_cancel_left h⟩

theorem utf8_digits {l : List Char} (hl : ∀ c ∈ l, c.isDigit = true) :
    ∀ b ∈ l.flatMap String.utf8EncodeChar, isNumeral b = true := by
  intro b hb
  obtain ⟨c, hc, hb⟩ := List.mem_flatMap.mp hb
  have hbounds := hl c hc
  rw [Char.isDigit, Bool.and_eq_true, decide_eq_true_eq, decide_eq_true_eq] at hbounds
  have hlo : 48 ≤ c.toNat := UInt32.le_iff_toNat_le.mp hbounds.1
  have hhi : c.toNat ≤ 57 := UInt32.le_iff_toNat_le.mp hbounds.2
  have hall : ∀ n : Fin 10, ∀ b ∈ String.utf8EncodeChar (Char.ofNat (48 + n)), isNumeral b = true := by
    decide +kernel
  have hchar : c = Char.ofNat (48 + (c.toNat - 48)) := by
    rw [Nat.add_sub_cancel' hlo, Char.ofNat_toNat]
  rw [hchar] at hb
  exact hall ⟨c.toNat - 48, by omega⟩ b hb

theorem utf8_nat (n : Nat) : utf8 (toString n) = (Nat.toDigits 10 n).flatMap String.utf8EncodeChar := by
  rw [utf8_eq_flatMap]
  congr 1
  exact Nat.toList_repr

theorem nat_numeral (n : Nat) : ∀ b ∈ utf8 (toString n), isNumeral b = true := by
  rw [utf8_nat]
  exact utf8_digits fun c hc => Nat.isDigit_of_mem_toDigits (by decide) (by decide) hc

theorem int_numeral (n : Int) : ∀ b ∈ utf8 (toString n), isNumeral b = true := by
  cases n with
  | ofNat n => exact nat_numeral n
  | negSucc n =>
    intro b hb
    have htext : toString (Int.negSucc n) = "-" ++ toString (n + 1) := rfl
    rw [htext, utf8_append, List.mem_append] at hb
    rcases hb with hb | hb
    · have hminus : ∀ b ∈ utf8 "-", isNumeral b = true := by decide +kernel
      exact hminus b hb
    · exact nat_numeral (n + 1) b hb

theorem natText_injective {n m : Nat} (h : toString n = toString m) : n = m := by
  have hdigits : ∀ k : Nat, Nat.ofDigitChars 10 (toString k).toList 0 = k := by
    intro k
    have htext : (toString k).toList = Nat.toDigits 10 k := Nat.toList_repr
    rw [htext, Nat.ofDigitChars_ten_toDigits]
  rw [← hdigits n, h, hdigits]

theorem natText_ne_minus (n : Nat) (s : String) : toString n ≠ "-" ++ s := by
  intro h
  have htext : (toString n).toList = Nat.toDigits 10 n := Nat.toList_repr
  have hmem : '-' ∈ Nat.toDigits 10 n := by
    rw [← htext, h, String.toList_append]
    exact List.mem_append_left _ (by decide)
  have hdigit := Nat.isDigit_of_mem_toDigits (by decide) (by decide) hmem
  exact absurd hdigit (by decide)

theorem intText_injective {n m : Int} (h : toString n = toString m) : n = m := by
  cases n with
  | ofNat n =>
    cases m with
    | ofNat m => rw [natText_injective (n := n) (m := m) h]
    | negSucc m => exact absurd h (natText_ne_minus n _)
  | negSucc n =>
    cases m with
    | ofNat m => exact absurd h.symm (natText_ne_minus m _)
    | negSucc m =>
      have hsucc : toString (n + 1) = toString (m + 1) := by
        have h' : "-" ++ toString (n + 1) = "-" ++ toString (m + 1) := h
        exact String.append_right_inj "-" |>.mp h'
      have := natText_injective hsucc
      omega

theorem int_prefix {n m : Int} {x y : Bytes} (hx : Ends x) (hy : Ends y)
    (h : utf8 (toString n) ++ x = utf8 (toString m) ++ y) : n = m ∧ x = y := by
  obtain ⟨htext, hxy⟩ := append_inj_of_all (int_numeral n) (int_numeral m)
    (fun b hb => not_isNumeral_of_ends hx hb) (fun b hb => not_isNumeral_of_ends hy hb) h
  exact ⟨intText_injective (utf8_injective htext), hxy⟩

/-- The text of a number that is not written as an integer. -/
def isFloatText (t : String) : Bool :=
  (utf8 t).head?.any isNumeral ∧ (utf8 t).all isNumberByte ∧ ¬ (utf8 t).all isNumeral

theorem floatWord_of_isFloatText {t : String} (ht : isFloatText t = true) : floatWord t = t := by
  have hwords : ∀ w ∈ ["nan", "inf", "-inf"], isFloatText w = false := by decide +kernel
  have hne : ∀ w ∈ ["nan", "inf", "-inf"], t ≠ w := by
    rintro w hw rfl
    exact Bool.false_ne_true ((hwords t hw).symm.trans ht)
  rw [floatWord, if_neg (hne _ (by simp)), if_neg (hne _ (by simp)), if_neg (hne _ (by simp))]

theorem not_isNumberByte_of_ends {x : Bytes} (hx : Ends x) {b : UInt8} (hb : b ∈ x.head?) :
    isNumberByte b = false := by
  have hall : ∀ b ∈ ([0x2C, 0x5D, 0x7D] : List UInt8), isNumberByte b = false := by decide +kernel
  exact hall b (hx b hb)

/-- It is not taken for an integer. -/
theorem float_ne_int {t : String} (ht : isFloatText t = true) {m : Int} {x y : Bytes} (hx : Ends x)
    (hy : Ends y) : utf8 t ++ x ≠ utf8 (toString m) ++ y := by
  intro h
  simp only [isFloatText, decide_eq_true_eq] at ht
  obtain ⟨-, hbytes, hnot⟩ := ht
  have hnumber : ∀ b ∈ utf8 (toString m), isNumberByte b = true := by
    intro b hb
    simp [isNumberByte, int_numeral m b hb]
  obtain ⟨htext, -⟩ := append_inj_of_all (List.all_eq_true.mp hbytes) hnumber
    (fun b hb => not_isNumberByte_of_ends hx hb) (fun b hb => not_isNumberByte_of_ends hy hb) h
  exact hnot (htext ▸ List.all_eq_true.mpr (int_numeral m))

/-! ## The text of a value -/

namespace Json

mutual
/-- The value with the fields of its objects sorted. -/
def canon : Json → Json
  | arr items => arr (canonItems items)
  | obj fields => obj ((canonFields fields).insertionSort fun a b => keyLe a.1 b.1)
  | value => value

def canonItems : List Json → List Json
  | [] => []
  | item :: items => canon item :: canonItems items

def canonFields : List (PyStr × Json) → List (PyStr × Json)
  | [] => []
  | field :: fields => canonField field :: canonFields fields

def canonField : PyStr × Json → PyStr × Json
  | (name, value) => (name, canon value)
end

mutual
/-- The text with the fields in the order given. -/
def text : Json → Bytes
  | null => utf8 "null"
  | bool b => utf8 (if b then "true" else "false")
  | int n => utf8 (toString n)
  | float t => utf8 (floatWord t)
  | str s => quoted s
  | arr items => utf8 "[" ++ (utf8 ",").intercalate (textItems items) ++ utf8 "]"
  | obj fields => utf8 "\x7b" ++ (utf8 ",").intercalate (textFields fields) ++ utf8 "\x7d"

def textItems : List Json → List Bytes
  | [] => []
  | item :: items => text item :: textItems items

def textFields : List (PyStr × Json) → List Bytes
  | [] => []
  | field :: fields => textField field :: textFields fields

def textField : PyStr × Json → Bytes
  | (name, value) => quoted name ++ utf8 ":" ++ text value
end

mutual
/-- No floats, and strings in which no two surrogates make a pair. -/
def plain : Json → Bool
  | float _ => false
  | str s => WellPaired s
  | arr items => plainItems items
  | obj fields => plainFields fields
  | _ => true

def plainItems : List Json → Bool
  | [] => true
  | item :: items => plain item && plainItems items

def plainFields : List (PyStr × Json) → Bool
  | [] => true
  | field :: fields => plainField field && plainFields fields

def plainField : PyStr × Json → Bool
  | (name, value) => WellPaired name && plain value
end

mutual
/-- As parsed from a text: floats have the text of one, and no two surrogates make a pair. -/
def written : Json → Bool
  | float t => isFloatText t
  | str s => WellPaired s
  | arr items => writtenItems items
  | obj fields => writtenFields fields
  | _ => true

def writtenItems : List Json → Bool
  | [] => true
  | item :: items => written item && writtenItems items

def writtenFields : List (PyStr × Json) → Bool
  | [] => true
  | field :: fields => writtenField field && writtenFields fields

def writtenField : PyStr × Json → Bool
  | (name, value) => WellPaired name && written value
end

/-- The text of a field, from its name and the text of its value. -/
def joinField (f : PyStr × Bytes) : Bytes := quoted f.1 ++ utf8 ":" ++ f.2

theorem textFields_eq (fields : List (PyStr × Json)) :
    textFields fields = fields.map fun f => joinField (f.1, text f.2) := by
  induction fields with
  | nil => simp [textFields]
  | cons f fields ih =>
    obtain ⟨name, value⟩ := f
    simp [textFields, textField, joinField, ih]

mutual
theorem dumps_eq (j : Json) : dumps j = text (canon j) := by
  match j with
  | null | bool _ | int _ | float _ | str _ => simp [dumps, canon, text]
  | arr items => rw [dumps, canon, text, dumpsItems_eq items]
  | obj fields =>
    rw [dumps, canon, text, textFields_eq, dumpsFields_eq fields]
    have hsort := List.map_insertionSort (r := fun a b : PyStr × Json => keyLe a.1 b.1)
      (s := fun a b : PyStr × Bytes => keyLe a.1 b.1) (fun f => (f.1, text f.2)) (canonFields fields)
      (fun _ _ _ _ => Iff.rfl)
    simp only [← hsort, List.map_map]
    rfl

theorem dumpsItems_eq (items : List Json) : dumpsItems items = textItems (canonItems items) := by
  match items with
  | [] => simp [dumpsItems, canonItems, textItems]
  | item :: items => rw [dumpsItems, canonItems, textItems, dumps_eq item, dumpsItems_eq items]

theorem dumpsFields_eq (fields : List (PyStr × Json)) :
    dumpsFields fields = (canonFields fields).map fun f => (f.1, text f.2) := by
  match fields with
  | [] => simp [dumpsFields, canonFields]
  | (name, value) :: fields =>
    rw [dumpsFields, canonFields, dumpsField, canonField, List.map_cons, dumps_eq value,
      dumpsFields_eq fields]
end

theorem textItems_eq (items : List Json) : textItems items = items.map text := by
  induction items with
  | nil => simp [textItems]
  | cons item items ih => simp [textItems, ih]

theorem plainItems_iff {items : List Json} :
    plainItems items = true ↔ ∀ item ∈ items, plain item = true := by
  induction items with
  | nil => simp [plainItems]
  | cons item items ih => simp [plainItems, ih]

theorem plainFields_iff {fields : List (PyStr × Json)} :
    plainFields fields = true ↔ ∀ f ∈ fields, WellPaired f.1 = true ∧ plain f.2 = true := by
  induction fields with
  | nil => simp [plainFields]
  | cons f fields ih =>
    obtain ⟨name, value⟩ := f
    simp [plainFields, plainField, ih]

theorem writtenItems_iff {items : List Json} :
    writtenItems items = true ↔ ∀ item ∈ items, written item = true := by
  induction items with
  | nil => simp [writtenItems]
  | cons item items ih => simp [writtenItems, ih]

theorem writtenFields_iff {fields : List (PyStr × Json)} :
    writtenFields fields = true ↔ ∀ f ∈ fields, WellPaired f.1 = true ∧ written f.2 = true := by
  induction fields with
  | nil => simp [writtenFields]
  | cons f fields ih =>
    obtain ⟨name, value⟩ := f
    simp [writtenFields, writtenField, ih]

theorem written_of_plain (j : Json) (hj : j.plain = true) : j.written = true := by
  match j with
  | null | bool _ | int _ => simp [written]
  | float _ => simp [plain] at hj
  | str s => simpa [plain, written] using hj
  | arr items =>
    rw [plain, plainItems_iff] at hj
    rw [written, writtenItems_iff]
    intro item hitem
    exact written_of_plain item (hj item hitem)
  | obj fields =>
    rw [plain, plainFields_iff] at hj
    rw [written, writtenFields_iff]
    intro f hf
    exact ⟨(hj f hf).1, written_of_plain f.2 (hj f hf).2⟩
termination_by sizeOf j
decreasing_by
  · have := List.sizeOf_lt_of_mem hitem
    simp only [arr.sizeOf_spec]
    omega
  · have := List.sizeOf_lt_of_mem hf
    obtain ⟨name, value⟩ := f
    simp only [obj.sizeOf_spec, Prod.mk.sizeOf_spec] at this ⊢
    omega

/-- The kinds of value, which the first byte of the text tells apart. All numbers are of one. -/
def kind : Json → Nat
  | null => 0
  | bool _ => 1
  | int _ => 2
  | str _ => 3
  | arr _ => 4
  | obj _ => 5
  | float _ => 2

def kindOf (b : UInt8) : Nat :=
  if b = 0x6E then 0 else if b = 0x74 ∨ b = 0x66 then 1 else if isNumeral b then 2
  else if b = 0x22 then 3 else if b = 0x5B then 4 else if b = 0x7B then 5 else 6

theorem text_head {j : Json} (hj : j.written = true) :
    ∃ b rest, text j = b :: rest ∧ kindOf b = j.kind := by
  have hnumeral : ∀ b, isNumeral b = true → kindOf b = 2 := by
    intro b hb
    have hn : b ≠ 0x6E ∧ b ≠ 0x74 ∧ b ≠ 0x66 := by
      refine ⟨?_, ?_, ?_⟩ <;> rintro rfl <;> exact absurd hb (by decide)
    simp [kindOf, hn, hb]
  cases j with
  | null => exact ⟨0x6E, _, by rw [text]; rfl, rfl⟩
  | bool b =>
    cases b with
    | true => exact ⟨0x74, _, by rw [text]; rfl, rfl⟩
    | false => exact ⟨0x66, _, by rw [text]; rfl, rfl⟩
  | int n =>
    have hne : utf8 (toString n) ≠ [] := by
      intro hnil
      have hempty : toString n = "" := utf8_injective hnil
      cases n with
      | ofNat n =>
        have htext : (toString n).toList = Nat.toDigits 10 n := Nat.toList_repr
        have hempty : toString n = "" := hempty
        rw [hempty] at htext
        exact Nat.toDigits_ne_nil htext.symm
      | negSucc n =>
        have hminus : "-" ++ toString (n + 1) = "" := hempty
        have := congrArg String.toList hminus
        rw [String.toList_append] at this
        cases this
    obtain ⟨b, rest, heq⟩ := List.exists_cons_of_ne_nil hne
    exact ⟨b, rest, by rw [text, heq], hnumeral b (int_numeral n b (by rw [heq]; exact List.mem_cons_self))⟩
  | float t =>
    have hword := floatWord_of_isFloatText (by simpa only [written] using hj)
    simp only [written, isFloatText, decide_eq_true_eq] at hj
    cases ht : utf8 t with
    | nil => simp [ht] at hj
    | cons b rest => exact ⟨b, rest, by rw [text, hword, ht], hnumeral b (by simpa [ht] using hj.1)⟩
  | str s => exact ⟨0x22, _, by rw [text, quoted_eq], rfl⟩
  | arr items => exact ⟨0x5B, _, by rw [text]; rfl, rfl⟩
  | obj fields => exact ⟨0x7B, _, by rw [text]; rfl, rfl⟩

theorem kind_eq {j j' : Json} (hj : j.written = true) (hj' : j'.written = true) {x y : Bytes}
    (h : text j ++ x = text j' ++ y) : j.kind = j'.kind := by
  obtain ⟨b, rest, htext, hb⟩ := text_head hj
  obtain ⟨b', rest', htext', hb'⟩ := text_head hj'
  rw [htext, htext'] at h
  rw [← hb, ← hb', (List.cons.inj h).1]

/-- A value does not start as what follows one. -/
theorem text_not_ends {j : Json} (hj : j.written = true) : ∃ b rest, text j = b :: rest ∧
    b ∉ ([0x2C, 0x5D, 0x7D] : List UInt8) := by
  obtain ⟨b, rest, htext, hb⟩ := text_head hj
  refine ⟨b, rest, htext, fun hmem => ?_⟩
  have hall : ∀ b ∈ ([0x2C, 0x5D, 0x7D] : List UInt8), kindOf b = 6 := by decide +kernel
  rw [hall b hmem] at hb
  cases j <;> cases hb

end Json

/-! ## Lists of values -/

section
variable {α : Type} {f : α → Bytes}

/-- The texts after the first, each behind its comma, and the closing bracket. -/
def restText (f : α → Bytes) (close : UInt8) (items : List α) : Bytes :=
  items.flatMap (fun a => 0x2C :: f a) ++ [close]

theorem intercalate_close (close : UInt8) (a : α) (items : List α) :
    (utf8 ",").intercalate ((a :: items).map f) ++ [close] = f a ++ restText f close items := by
  have hcomma : utf8 "," = [0x2C] := by decide
  induction items generalizing a with
  | nil => simp [restText]
  | cons b items ih =>
    rw [List.map_cons, List.map_cons, List.intercalate_cons_cons, List.append_assoc, ← List.map_cons, ih b,
      hcomma]
    simp [restText]

theorem ends_restText {close : UInt8} (hclose : close ∈ ([0x5D, 0x7D] : List UInt8)) (items : List α)
    (x : Bytes) : Ends (restText f close items ++ x) := by
  cases items with
  | nil =>
    intro b hb
    obtain rfl : close = b := Option.some.inj hb
    exact List.mem_cons_of_mem _ hclose
  | cons a items =>
    intro b hb
    obtain rfl : (0x2C : UInt8) = b := Option.some.inj hb
    exact List.mem_cons_self

/-- What is true of each item of two lists: its text ends by itself. -/
def Delimited (f : α → Bytes) (as bs : List α) : Prop :=
  ∀ a ∈ as, ∀ b ∈ bs, ∀ x y, Ends x → Ends y → f a ++ x = f b ++ y → a = b ∧ x = y

theorem restText_injective {close : UInt8} (hclose : close ∈ ([0x5D, 0x7D] : List UInt8))
    {as bs : List α} (hitems : Delimited f as bs) {x y : Bytes}
    (h : restText f close as ++ x = restText f close bs ++ y) : as = bs ∧ x = y := by
  have hne : close ≠ 0x2C := by
    rintro rfl
    exact absurd hclose (by decide)
  induction as generalizing bs with
  | nil =>
    cases bs with
    | nil => exact ⟨rfl, (List.cons.inj h).2⟩
    | cons b bs => exact absurd (List.cons.inj h).1 hne
  | cons a as ih =>
    cases bs with
    | nil => exact absurd (List.cons.inj h).1.symm hne
    | cons b bs =>
      have hrest : f a ++ (restText f close as ++ x) = f b ++ (restText f close bs ++ y) := by
        simp only [restText, List.flatMap_cons, List.cons_append, List.append_assoc] at h ⊢
        exact (List.cons.inj h).2
      obtain ⟨rfl, htail⟩ := hitems a List.mem_cons_self b List.mem_cons_self _ _
        (ends_restText hclose as x) (ends_restText hclose bs y) hrest
      obtain ⟨rfl, hxy⟩ := ih (fun c hc d hd => hitems c (List.mem_cons_of_mem _ hc) d
        (List.mem_cons_of_mem _ hd)) htail
      exact ⟨rfl, hxy⟩

/-- Items between brackets, separated by commas. -/
theorem intercalate_injective {close : UInt8} (hclose : close ∈ ([0x5D, 0x7D] : List UInt8))
    {as bs : List α} (hitems : Delimited f as bs)
    (has : ∀ a ∈ as, ∃ b rest, f a = b :: rest ∧ b ∉ ([0x2C, 0x5D, 0x7D] : List UInt8))
    (hbs : ∀ a ∈ bs, ∃ b rest, f a = b :: rest ∧ b ∉ ([0x2C, 0x5D, 0x7D] : List UInt8))
    {x y : Bytes}
    (h : (utf8 ",").intercalate (as.map f) ++ [close] ++ x =
      (utf8 ",").intercalate (bs.map f) ++ [close] ++ y) : as = bs ∧ x = y := by
  have hmem : close ∈ ([0x2C, 0x5D, 0x7D] : List UInt8) := List.mem_cons_of_mem _ hclose
  cases as with
  | nil =>
    cases bs with
    | nil => exact ⟨rfl, (List.cons.inj h).2⟩
    | cons b bs =>
      obtain ⟨c, rest, hc, hnot⟩ := hbs b List.mem_cons_self
      rw [intercalate_close, hc] at h
      exact absurd ((List.cons.inj h).1 ▸ hmem) hnot
  | cons a as =>
    cases bs with
    | nil =>
      obtain ⟨c, rest, hc, hnot⟩ := has a List.mem_cons_self
      rw [intercalate_close, hc] at h
      exact absurd ((List.cons.inj h).1.symm ▸ hmem) hnot
    | cons b bs =>
      rw [intercalate_close, intercalate_close, List.append_assoc, List.append_assoc] at h
      obtain ⟨rfl, htail⟩ := hitems a List.mem_cons_self b List.mem_cons_self _ _
        (ends_restText hclose as x) (ends_restText hclose bs y) h
      obtain ⟨rfl, hxy⟩ := restText_injective hclose (fun c hc d hd =>
        hitems c (List.mem_cons_of_mem _ hc) d (List.mem_cons_of_mem _ hd)) htail
      exact ⟨rfl, hxy⟩

end

namespace Json

theorem text_arr (items : List Json) (x : Bytes) : text (arr items) ++ x =
    0x5B :: ((utf8 ",").intercalate (items.map text) ++ [0x5D] ++ x) := by
  have hopen : utf8 "[" = [0x5B] := by decide
  have hclose : utf8 "]" = [0x5D] := by decide
  rw [text, textItems_eq, hopen, hclose, List.append_assoc, List.append_assoc, List.append_assoc]
  rfl

theorem text_obj (fields : List (PyStr × Json)) (x : Bytes) : text (obj fields) ++ x =
    0x7B :: ((utf8 ",").intercalate (fields.map textField) ++ [0x7D] ++ x) := by
  have hopen : utf8 "\x7b" = [0x7B] := by decide
  have hclose : utf8 "\x7d" = [0x7D] := by decide
  have hfields : textFields fields = fields.map textField := by
    induction fields with
    | nil => simp [textFields]
    | cons f fields ih => simp [textFields, ih]
  rw [text, hfields, hopen, hclose, List.append_assoc, List.append_assoc, List.append_assoc]
  rfl

theorem textField_split {f g : PyStr × Json} {x y : Bytes} (h : textField f ++ x = textField g ++ y)
    (hf : WellPaired f.1 = true) (hg : WellPaired g.1 = true) :
    f.1 = g.1 ∧ text f.2 ++ x = text g.2 ++ y := by
  obtain ⟨name, value⟩ := f
  obtain ⟨name', value'⟩ := g
  rw [textField, textField, List.append_assoc, List.append_assoc, List.append_assoc,
    List.append_assoc] at h
  obtain ⟨hname, htail⟩ := quoted_prefix hf hg h
  exact ⟨hname, List.append_cancel_left htail⟩

theorem textField_not_ends (f : PyStr × Json) : ∃ b rest, textField f = b :: rest ∧
    b ∉ ([0x2C, 0x5D, 0x7D] : List UInt8) := by
  obtain ⟨name, value⟩ := f
  exact ⟨0x22, _, by rw [textField, quoted_eq]; rfl, by decide⟩

/-- The text of a value ends by itself, and that of a plain one has no other value. -/
theorem text_split (j j' : Json) (hj : j.written = true) (hj' : j'.plain = true) {x y : Bytes}
    (hx : Ends x) (hy : Ends y) (h : text j ++ x = text j' ++ y) : j = j' ∧ x = y := by
  have hkind := kind_eq hj (written_of_plain j' hj') h
  match j, j' with
  | null, null => exact ⟨rfl, List.append_cancel_left h⟩
  | bool b, bool b' =>
    cases b with
    | true =>
      cases b' with
      | true => exact ⟨rfl, List.append_cancel_left h⟩
      | false =>
        rw [text, text] at h
        exact absurd (List.cons.inj h).1 (by decide)
    | false =>
      cases b' with
      | true =>
        rw [text, text] at h
        exact absurd (List.cons.inj h).1 (by decide)
      | false => exact ⟨rfl, List.append_cancel_left h⟩
  | int n, int m =>
    rw [text, text] at h
    obtain ⟨rfl, hxy⟩ := int_prefix hx hy h
    exact ⟨rfl, hxy⟩
  | str s, str t =>
    rw [text, text] at h
    obtain ⟨rfl, hxy⟩ := quoted_prefix (by simpa [written] using hj) (by simpa [plain] using hj') h
    exact ⟨rfl, hxy⟩
  | float t, int m =>
    have ht : isFloatText t = true := by simpa [written] using hj
    rw [text, text, floatWord_of_isFloatText ht] at h
    exact absurd h (float_ne_int ht hx hy)
  | arr items, arr items' =>
    rw [written, writtenItems_iff] at hj
    rw [plain, plainItems_iff] at hj'
    rw [text_arr, text_arr] at h
    obtain ⟨rfl, hxy⟩ := intercalate_injective (by decide)
      (fun a ha b hb x y hx hy h => text_split a b (hj a ha) (hj' b hb) hx hy h)
      (fun a ha => text_not_ends (hj a ha))
      (fun a ha => text_not_ends (written_of_plain a (hj' a ha))) (List.cons.inj h).2
    exact ⟨rfl, hxy⟩
  | obj fields, obj fields' =>
    rw [written, writtenFields_iff] at hj
    rw [plain, plainFields_iff] at hj'
    rw [text_obj, text_obj] at h
    obtain ⟨rfl, hxy⟩ := intercalate_injective (by decide) (fun a ha b hb x y hx hy h => by
        obtain ⟨hname, hvalue⟩ := textField_split h (hj a ha).1 (hj' b hb).1
        obtain ⟨hsame, hxy⟩ := text_split a.2 b.2 (hj a ha).2 (hj' b hb).2 hx hy hvalue
        exact ⟨Prod.ext hname hsame, hxy⟩)
      (fun a _ => textField_not_ends a) (fun a _ => textField_not_ends a) (List.cons.inj h).2
    exact ⟨rfl, hxy⟩
termination_by sizeOf j
decreasing_by
  · have := List.sizeOf_lt_of_mem ha
    simp only [arr.sizeOf_spec]
    omega
  · have := List.sizeOf_lt_of_mem ha
    obtain ⟨name, value⟩ := a
    simp only [obj.sizeOf_spec, Prod.mk.sizeOf_spec] at this ⊢
    omega

/-- A plain value and one of the same canonical text agree up to the order of their fields. -/
theorem dumps_injective {j j' : Json} (hj : j.canon.written = true) (hj' : j'.canon.plain = true)
    (h : j.dumps = j'.dumps) : j.canon = j'.canon := by
  have hends : Ends [] := by
    intro b hb
    cases hb
  rw [dumps_eq, dumps_eq] at h
  exact (text_split _ _ hj hj' hends hends (by rw [h])).1

end Json

/-! ## Ballots and configurations -/

theorem encBytes_injective {a b : Bytes} (h : encBytes a = encBytes b) : a = b := by
  have htext : pyStr (hex a) = pyStr (hex b) := List.append_cancel_left (Json.str.inj h)
  have hread := congrArg fromHex htext
  rw [show fromHex (pyStr (hex a)) = some a from fromHex_hex a,
    show fromHex (pyStr (hex b)) = some b from fromHex_hex b] at hread
  exact Option.some.inj hread

/-- Characters of the basic plane outside the surrogates. -/
theorem wellPaired_of_lt {s : PyStr} (h : ∀ c ∈ s, c < 0xD800) : WellPaired s = true := by
  induction s with
  | nil => rfl
  | cons c s ih =>
    have hc := h c List.mem_cons_self
    have hhigh : isHigh c = false := by
      rw [isHigh, decide_eq_false_iff_not]
      omega
    rw [WellPaired, decide_eq_true_eq, ih fun d hd => h d (List.mem_cons_of_mem _ hd), hhigh]
    exact ⟨by omega, by simp, rfl⟩

theorem plain_encBytes (b : Bytes) : (encBytes b).plain = true := by
  rw [encBytes, Json.plain]
  apply wellPaired_of_lt
  intro c hc
  rcases List.mem_append.mp hc with hc | hc
  · have hall : ∀ c ∈ pyStr "0x", c < 0xD800 := by decide
    exact hall c hc
  · rw [pyStr, hex, String.toList_ofList] at hc
    obtain ⟨d, hd, rfl⟩ := List.mem_map.mp hc
    obtain ⟨x, -, hd⟩ := List.mem_flatMap.mp hd
    have hx := x.toNat_lt
    have hall : ∀ m : Fin 16, (hexDigit m).toNat < 0xD800 := by decide
    simp only [List.mem_cons, List.not_mem_nil, or_false] at hd
    rcases hd with rfl | rfl
    · exact hall ⟨x.toNat / 16, by omega⟩
    · exact hall ⟨x.toNat % 16, by omega⟩

theorem canon_encBytes (b : Bytes) : (encBytes b).canon = encBytes b := by
  rw [encBytes, Json.canon]
  all_goals simp

theorem canon_encCiphertext (ct : Ciphertext) : (encCiphertext ct).canon = encCiphertext ct := by
  rfl

theorem canonItems_map {α : Type} {enc : α → Json} (l : List α) (h : ∀ a ∈ l, (enc a).canon = enc a) :
    Json.canonItems (l.map enc) = l.map enc := by
  induction l with
  | nil => simp [Json.canonItems]
  | cons a l ih =>
    rw [List.map_cons, Json.canonItems, h a List.mem_cons_self,
      ih fun b hb => h b (List.mem_cons_of_mem _ hb)]

theorem canon_encBallot (b : BallotEnvelope) : (encBallot b).canon =
    .obj [(pyStr "attestation", .obj [(pyStr "electionId", encBytes b.attestation.electionId),
        (pyStr "nonce", .int b.attestation.nonce), (pyStr "pseudonym", encBytes b.attestation.pseudonym),
        (pyStr "scheme", .str (pyStr b.attestation.scheme.value)),
        (pyStr "signature", encBytes b.attestation.signature), (pyStr "vk", encBytes b.attestation.vk),
        (pyStr "weight", .int b.attestation.weight)]),
      (pyStr "ciphertexts", .arr (b.ciphertexts.map encCiphertext)),
      (pyStr "electionId", encBytes b.electionId), (pyStr "pseudonym", encBytes b.pseudonym),
      (pyStr "vk", encBytes b.vk), (pyStr "voterSignature", encBytes b.voterSignature),
      (pyStr "zkProof", encBytes b.zkProof)] := by
  rw [← canonItems_map b.ciphertexts fun ct _ => canon_encCiphertext ct]
  rfl

theorem plain_encBallot (b : BallotEnvelope) : (encBallot b).canon.plain = true := by
  have hcts : ∀ j ∈ b.ciphertexts.map encCiphertext, j.plain = true := by
    intro j hj
    obtain ⟨ct, -, rfl⟩ := List.mem_map.mp hj
    simp +decide [encCiphertext, Json.plain, Json.plainFields, Json.plainField, plain_encBytes]
  have hscheme : WellPaired (pyStr b.attestation.scheme.value) = true := by
    cases b.attestation.scheme
    decide
  rw [canon_encBallot]
  simp +decide [Json.plain, Json.plainFields, Json.plainField, plain_encBytes, hscheme,
    Json.plainItems_iff.mpr hcts]

theorem encCiphertext_injective {ct ct' : Ciphertext} (h : encCiphertext ct = encCiphertext ct') :
    ct = ct' := by
  simp only [encCiphertext, Json.obj.injEq, List.cons.injEq, Prod.mk.injEq, true_and, and_true] at h
  cases ct
  cases ct'
  rw [Ciphertext.mk.injEq]
  exact ⟨encBytes_injective h.1, encBytes_injective h.2⟩

/-- The text of a ballot determines it. -/
theorem ballotText_injective {b b' : BallotEnvelope} (h : (encBallot b).dumps = (encBallot b').dumps) :
    b = b' := by
  have hcanon := Json.dumps_injective (Json.written_of_plain _ (plain_encBallot b)) (plain_encBallot b') h
  rw [canon_encBallot, canon_encBallot] at hcanon
  simp only [Json.obj.injEq, List.cons.injEq, Prod.mk.injEq, true_and, and_true, Json.arr.injEq,
    Json.int.injEq] at hcanon
  obtain ⟨⟨hid, hnonce, hpseudonym, hsignature, hvk, hweight⟩, hcts, hid', hpseudonym', hvk',
    hvoter, hproof⟩ := hcanon
  have hcts := List.map_injective_iff.mpr (fun _ _ => encCiphertext_injective) hcts
  obtain ⟨electionId, pseudonym, vk, ciphertexts, zkProof, voterSignature, attestation⟩ := b
  obtain ⟨_, _, _, _, _, _, attestation'⟩ := b'
  obtain ⟨attId, attPseudonym, attVk, weight, signature, scheme, nonce⟩ := attestation
  obtain ⟨_, _, _, _, _, scheme', _⟩ := attestation'
  cases scheme
  cases scheme'
  cases encBytes_injective hid
  cases encBytes_injective hpseudonym
  cases encBytes_injective hvk
  cases encBytes_injective hsignature
  cases encBytes_injective hid'
  cases encBytes_injective hpseudonym'
  cases encBytes_injective hvk'
  cases encBytes_injective hvoter
  cases encBytes_injective hproof
  cases hnonce
  cases hweight
  cases hcts
  rfl

/-- The strings a configuration carries as they are. -/
def ElectionConfig.texts (c : ElectionConfig) : List PyStr :=
  c.protocolVersion :: c.keypers.map KeyperIdentity.url

theorem canon_encKeyper (k : KeyperIdentity) :
    Json.canon (.obj [(pyStr "signingKey", encBytes k.signingKey), (pyStr "url", .str k.url)]) =
      .obj [(pyStr "signingKey", encBytes k.signingKey), (pyStr "url", .str k.url)] := by
  rfl

/-- The names of a configuration's fields, in the order they are written. -/
def configNames : List PyStr :=
  ["electionId", "numCandidates", "budget", "mode", "variant", "weighted", "scale", "duplicatePolicy",
    "votingStart", "votingEnd", "threshold", "keypers", "eligibilityKey", "resultPublisherKey",
    "gatewayKeys", "adminKey", "protocolVersion", "selfSubmitFee"].map pyStr

/-- Sorting fields is choosing their values by the places of the sorted names. -/
theorem sorted_fields (names : List PyStr) (values : Nat → Json) :
    (names.zipIdx.map fun n => (n.1, values n.2)).insertionSort (fun a b => keyLe a.1 b.1) =
      (names.zipIdx.insertionSort fun a b => keyLe a.1 b.1).map fun n => (n.1, values n.2) :=
  (List.map_insertionSort (r := fun a b : PyStr × Nat => keyLe a.1 b.1)
    (s := fun a b : PyStr × Json => keyLe a.1 b.1) (fun n => (n.1, values n.2)) names.zipIdx
    (fun _ _ _ _ => Iff.rfl)).symm

/-- The values of a configuration's fields, by place. -/
def configValues (c : ElectionConfig) : List Json :=
  [encBytes c.electionId, .int c.numCandidates, .int c.budget, .str (pyStr c.mode.value),
    .str (pyStr c.variant.value), .bool c.weighted, .int c.scale,
    .str (pyStr c.duplicatePolicy.value), .int c.votingStart, .int c.votingEnd,
    .obj [(pyStr "n", .int c.threshold.n), (pyStr "t", .int c.threshold.t)],
    .arr (c.keypers.map fun k =>
      .obj [(pyStr "signingKey", encBytes k.signingKey), (pyStr "url", .str k.url)]),
    encBytes c.eligibilityKey, encBytes c.resultPublisherKey, .arr (c.gatewayKeys.map encBytes),
    encBytes c.adminKey, .str c.protocolVersion, .str (pyStr (toString c.selfSubmitFeeWei))]

theorem canon_encConfig (c : ElectionConfig) : (encConfig c).canon =
    .obj ((configNames.zipIdx.insertionSort fun a b => keyLe a.1 b.1).map fun n =>
      (n.1, (configValues c).getD n.2 .null)) := by
  have hfields : (encConfig c).canon = .obj ((configNames.zipIdx.map fun n =>
      (n.1, (configValues c).getD n.2 .null)).insertionSort fun a b => keyLe a.1 b.1) := by
    rw [configValues, ← canonItems_map c.gatewayKeys fun g _ => canon_encBytes g,
      ← canonItems_map c.keypers fun k _ => canon_encKeyper k]
    rfl
  rw [hfields, sorted_fields configNames fun i => (configValues c).getD i .null]

theorem mem_sorted {names : List PyStr} {n : PyStr × Nat} :
    n ∈ names.zipIdx.insertionSort (fun a b => keyLe a.1 b.1) ↔ n ∈ names.zipIdx :=
  (List.perm_insertionSort _ _).mem_iff

theorem wellPaired_nat (n : Nat) : WellPaired (pyStr (toString n)) = true := by
  apply wellPaired_of_lt
  intro c hc
  have htext : (toString n).toList = Nat.toDigits 10 n := Nat.toList_repr
  rw [pyStr, htext] at hc
  obtain ⟨d, hd, rfl⟩ := List.mem_map.mp hc
  have hdigit := Nat.isDigit_of_mem_toDigits (by decide) (by decide) hd
  rw [Char.isDigit, Bool.and_eq_true, decide_eq_true_eq, decide_eq_true_eq] at hdigit
  have hhi : d.toNat ≤ 57 := UInt32.le_iff_toNat_le.mp hdigit.2
  omega

theorem plain_configValues {c : ElectionConfig} (h : ∀ s ∈ c.texts, WellPaired s = true) :
    ∀ v ∈ configValues c, v.plain = true := by
  have hkeypers : Json.plainItems (c.keypers.map fun k =>
      .obj [(pyStr "signingKey", encBytes k.signingKey), (pyStr "url", .str k.url)]) = true := by
    rw [Json.plainItems_iff]
    intro j hj
    obtain ⟨k, hk, rfl⟩ := List.mem_map.mp hj
    have hurl := h k.url (List.mem_cons_of_mem _ (List.mem_map_of_mem hk))
    simp +decide [Json.plain, Json.plainFields, Json.plainField, plain_encBytes, hurl]
  have hgateways : Json.plainItems (c.gatewayKeys.map encBytes) = true := by
    rw [Json.plainItems_iff]
    intro j hj
    obtain ⟨g, -, rfl⟩ := List.mem_map.mp hj
    exact plain_encBytes g
  have hmode : WellPaired (pyStr c.mode.value) = true := by cases c.mode <;> decide
  have hvariant : WellPaired (pyStr c.variant.value) = true := by cases c.variant <;> decide
  have hpolicy : WellPaired (pyStr c.duplicatePolicy.value) = true := by
    cases c.duplicatePolicy <;> decide
  have hversion := h c.protocolVersion List.mem_cons_self
  have hfee := wellPaired_nat c.selfSubmitFeeWei
  rw [Nat.toString_eq_repr] at hfee
  simp +decide [configValues, Json.plain, Json.plainFields, Json.plainField, plain_encBytes, hkeypers,
    hgateways, hmode, hvariant, hpolicy, hversion, hfee]

theorem plain_encConfig {c : ElectionConfig} (h : ∀ s ∈ c.texts, WellPaired s = true) :
    (encConfig c).canon.plain = true := by
  rw [canon_encConfig, Json.plain, Json.plainFields_iff]
  intro f hf
  obtain ⟨n, hn, rfl⟩ := List.mem_map.mp hf
  have hname : n.1 ∈ configNames := (List.mem_zipIdx' (mem_sorted.mp hn)).2 ▸ List.getElem_mem _
  have hnames : ∀ name ∈ configNames, WellPaired name = true := by decide
  refine ⟨hnames _ hname, ?_⟩
  rw [List.getD_eq_getElem?_getD]
  cases hv : (configValues c)[n.2]? with
  | none => rfl
  | some v => exact plain_configValues h v (List.mem_of_getElem? hv)

/-- The text of a configuration whose strings are well paired determines it. -/
theorem configText_injective {c c' : ElectionConfig} (h : ∀ s ∈ c.texts, WellPaired s = true)
    (h' : ∀ s ∈ c'.texts, WellPaired s = true) (htext : (encConfig c).dumps = (encConfig c').dumps) :
    c = c' := by
  have hcanon := Json.dumps_injective (Json.written_of_plain _ (plain_encConfig h)) (plain_encConfig h') htext
  rw [canon_encConfig, canon_encConfig, Json.obj.injEq, List.map_inj_left] at hcanon
  -- sorting moves the fields of both configs alike, so each value is found at its own place
  have hvalues : configValues c = configValues c' := by
    refine List.ext_getElem rfl ?_
    intro i hi hi'
    have hmem : (configNames[i], i) ∈ configNames.zipIdx.insertionSort (fun a b => keyLe a.1 b.1) :=
      mem_sorted.mpr (List.mem_zipIdx_iff_getElem?.mpr (List.getElem?_eq_getElem _))
    have hvalue := (Prod.mk.inj (hcanon _ hmem)).2
    rwa [List.getD_eq_getElem?_getD, List.getD_eq_getElem?_getD, List.getElem?_eq_getElem hi,
      List.getElem?_eq_getElem hi'] at hvalue
  have hfields : c.fields = c'.fields := by
    simp only [configValues, List.cons.injEq, Json.int.injEq, Json.str.injEq, Json.bool.injEq,
      Json.arr.injEq, Json.obj.injEq, Prod.mk.injEq, true_and, and_true] at hvalues
    obtain ⟨hid, hcandidates, hbudget, hmode, hvariant, hweighted, hscale, hpolicy, hstart, hend,
      ⟨hn, ht⟩, hkeypers, heligibility, hpublisher, hgateways, hadmin, hversion, hfee⟩ := hvalues
    have hthreshold : c.threshold = c'.threshold := by
      cases h₁ : c.threshold
      cases h₂ : c'.threshold
      rw [h₁, h₂] at hn ht
      rw [Threshold.mk.injEq]
      exact ⟨by exact_mod_cast ht, by exact_mod_cast hn⟩
    have hkeypers : c.keypers = c'.keypers := by
      refine List.map_injective_iff.mpr ?_ hkeypers
      intro k k' hk
      simp only [Json.obj.injEq, List.cons.injEq, Prod.mk.injEq, Json.str.injEq, true_and, and_true] at hk
      cases k
      cases k'
      rw [KeyperIdentity.mk.injEq]
      exact ⟨encBytes_injective hk.1, hk.2⟩
    have hmode : c.mode = c'.mode := by
      revert hmode
      cases c.mode <;> cases c'.mode <;> decide
    have hvariant : c.variant = c'.variant := by
      revert hvariant
      cases c.variant <;> cases c'.variant <;> decide
    have hpolicy : c.duplicatePolicy = c'.duplicatePolicy := by
      revert hpolicy
      cases c.duplicatePolicy <;> cases c'.duplicatePolicy <;> decide
    -- the fee is read back from its decimal text
    have hfee : c.selfSubmitFeeWei = c'.selfSubmitFeeWei := by
      have hread := congrArg intOfStr hfee
      rw [intOfStr_toString, intOfStr_toString] at hread
      exact_mod_cast Option.some.inj hread
    have hgateways := List.map_injective_iff.mpr (fun _ _ => encBytes_injective) hgateways
    simp only [ElectionConfig.fields, ConfigFields.mk.injEq]
    exact ⟨encBytes_injective hid, hcandidates, hbudget, hmode, hvariant, hweighted, hscale, hpolicy,
      hstart, hend, hthreshold, hkeypers, encBytes_injective heligibility,
      encBytes_injective hpublisher, hgateways, encBytes_injective hadmin, hversion, by rw [hfee]⟩
  have hcheck := check_fields c
  rw [hfields, check_fields] at hcheck
  exact (Except.ok.inj hcheck).symm

end ElGamalVoting
