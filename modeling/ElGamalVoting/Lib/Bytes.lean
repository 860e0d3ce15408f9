import Mathlib.Tactic.Ring
import Mathlib.Data.List.Basic
import Mathlib.Data.List.Induction

/- Byte strings as lists of bytes, big-endian integers of a fixed width, and
   the hexadecimal text of a byte string. `beBytes w n` is the `w`-byte
   big-endian encoding of `n` (its low `w` bytes when `n` does not fit), and
   `beNat` reads any byte string back as a number. -/
namespace Lib

abbrev Bytes := List UInt8

/-- Named, so that a test of membership refers to it. -/
instance lawfulBEq_bytes : LawfulBEq Bytes := inferInstance

/-- The UTF-8 bytes of a string. -/
def utf8 (s : String) : Bytes := s.toByteArray.data.toList

theorem utf8_append (a b : String) : utf8 (a ++ b) = utf8 a ++ utf8 b := by
  simp [utf8, String.toByteArray_append]

theorem utf8_eq_flatMap (s : String) : utf8 s = s.toList.flatMap String.utf8EncodeChar := by
  conv_lhs => rw [← String.ofList_toList (s := s)]
  rw [utf8, String.toByteArray_ofList]
  simp [List.utf8Encode]

theorem utf8_injective : Function.Injective utf8 := by
  intro a b h
  have hbytes : a.toByteArray.data = b.toByteArray.data := Array.toList_inj.mp h
  exact String.toByteArray_inj.mp (ByteArray.ext hbytes)

/-- The `w` low bytes of `n`, big-endian, in front of a byte string. -/
def beBytesOnto : Nat → Nat → Bytes → Bytes
  | 0, _, rest => rest
  | w + 1, n, rest => beBytesOnto w (n / 256) (UInt8.ofNat (n % 256) :: rest)

def beBytes (w n : Nat) : Bytes := beBytesOnto w n []

def beNat (b : Bytes) : Nat := b.foldl (fun acc x => acc * 256 + x.toNat) 0

theorem beBytesOnto_eq (w n : Nat) (rest : Bytes) : beBytesOnto w n rest = beBytes w n ++ rest := by
  induction w generalizing n rest with
  | zero => rfl
  | succ w ih =>
    have hone : beBytes (w + 1) n = beBytesOnto w (n / 256) [UInt8.ofNat (n % 256)] := rfl
    rw [beBytesOnto, ih, hone, ih, List.append_assoc, List.singleton_append]

theorem beBytes_succ (w n : Nat) :
    beBytes (w + 1) n = beBytes w (n / 256) ++ [UInt8.ofNat (n % 256)] :=
  beBytesOnto_eq w (n / 256) [UInt8.ofNat (n % 256)]

@[simp] theorem length_beBytes (w n : Nat) : (beBytes w n).length = w := by
  induction w generalizing n with
  | zero => rfl
  | succ w ih => simp [beBytes_succ, ih]

theorem beNat_append_singleton (b : Bytes) (x : UInt8) :
    beNat (b ++ [x]) = beNat b * 256 + x.toNat := by
  simp [beNat, List.foldl_append]

theorem beNat_beBytes (w n : Nat) (h : n < 256 ^ w) : beNat (beBytes w n) = n := by
  induction w generalizing n with
  | zero =>
    have : n = 0 := by simpa using h
    subst this
    rfl
  | succ w ih =>
    have hn : n / 256 < 256 ^ w := by rw [pow_succ] at h; omega
    rw [beBytes_succ, beNat_append_singleton, ih _ hn]
    have : (UInt8.ofNat (n % 256)).toNat = n % 256 := by
      rw [UInt8.toNat_ofNat']
      omega
    rw [this]
    omega

theorem beBytes_inj {w x y : Nat} (hx : x < 256 ^ w) (hy : y < 256 ^ w)
    (h : beBytes w x = beBytes w y) : x = y := by
  have := congrArg beNat h
  rwa [beNat_beBytes _ _ hx, beNat_beBytes _ _ hy] at this

theorem beNat_lt (b : Bytes) : beNat b < 256 ^ b.length := by
  induction b using List.reverseRecOn with
  | nil => exact Nat.one_pos
  | append_singleton b x ih =>
    have hx := x.toNat_lt
    rw [beNat_append_singleton, List.length_append, List.length_singleton, pow_succ]
    omega

/-- Byte strings of one length are the numbers below a power. -/
theorem beNat_inj {a b : Bytes} (hlen : a.length = b.length) (h : beNat a = beNat b) : a = b := by
  induction a using List.reverseRecOn generalizing b with
  | nil => exact (List.length_eq_zero_iff.mp hlen.symm).symm
  | append_singleton a x ih =>
    induction b using List.reverseRecOn with
    | nil => simp at hlen
    | append_singleton b y _ =>
      have hx := x.toNat_lt
      have hy := y.toNat_lt
      rw [beNat_append_singleton, beNat_append_singleton] at h
      rw [List.length_append, List.length_append] at hlen
      rw [ih (Nat.add_right_cancel hlen) (by omega), UInt8.toNat_inj.mp (by omega : x.toNat = y.toNat)]

/-! Hexadecimal text. -/

def hexDigit (n : Nat) : Char := if n < 10 then Char.ofNat (48 + n) else Char.ofNat (87 + n)

/-- The lowercase hexadecimal text of a byte string, two digits a byte. -/
def hex (b : Bytes) : String :=
  String.ofList (b.flatMap fun x => [hexDigit (x.toNat / 16), hexDigit (x.toNat % 16)])

/-- The value of one hexadecimal digit, given as a code point. -/
def hexValue (c : Nat) : Option Nat :=
  if 48 ≤ c ∧ c ≤ 57 then some (c - 48)
  else if 97 ≤ c ∧ c ≤ 102 then some (c - 87)
  else if 65 ≤ c ∧ c ≤ 70 then some (c - 55)
  else none

/-- The six ASCII white-space code points. -/
def isAsciiSpace (c : Nat) : Bool := c == 32 || (9 ≤ c && c ≤ 13)

/-- The bytes a hexadecimal text stands for: pairs of digits, with ASCII white
    space skipped before each pair and at the end, and `none` for anything else. -/
def fromHex : List Nat → Option Bytes
  | [] => some []
  | [c] => if isAsciiSpace c then some [] else none
  | c :: d :: rest =>
    if isAsciiSpace c then fromHex (d :: rest)
    else do
      let hi ← hexValue c
      let lo ← hexValue d
      let tail ← fromHex rest
      pure (UInt8.ofNat (16 * hi + lo) :: tail)

theorem hexValue_hexDigit {n : Nat} (h : n < 16) : hexValue (hexDigit n).toNat = some n := by
  have hall : ∀ m : Fin 16, hexValue (hexDigit m).toNat = some m.val := by decide
  exact hall ⟨n, h⟩

theorem not_isAsciiSpace_hexDigit {n : Nat} (h : n < 16) : isAsciiSpace (hexDigit n).toNat = false := by
  have hall : ∀ m : Fin 16, isAsciiSpace (hexDigit m).toNat = false := by decide
  exact hall ⟨n, h⟩

/-- Reading back the hexadecimal text of a byte string. -/
theorem fromHex_hex (b : Bytes) : fromHex ((hex b).toList.map Char.toNat) = some b := by
  rw [hex, String.toList_ofList]
  induction b with
  | nil => rfl
  | cons x b ih =>
    have hx := x.toNat_lt
    have hhi : x.toNat / 16 < 16 := by omega
    have hlo : x.toNat % 16 < 16 := by omega
    have hbyte : UInt8.ofNat (16 * (x.toNat / 16) + x.toNat % 16) = x := by
      rw [Nat.div_add_mod, UInt8.ofNat_toNat]
    simp only [List.flatMap_cons, List.cons_append, List.nil_append, List.map_cons, fromHex,
      not_isAsciiSpace_hexDigit hhi, hexValue_hexDigit hhi, hexValue_hexDigit hlo, ih,
      Bool.false_eq_true, if_false]
    show some (UInt8.ofNat (16 * (x.toNat / 16) + x.toNat % 16) :: b) = some (x :: b)
    rw [hbyte]

theorem hex_injective : Function.Injective hex := by
  intro a b h
  have h' := congrArg (fun s : String => fromHex (s.toList.map Char.toNat)) h
  simp only [fromHex_hex, Option.some.injEq] at h'
  exact h'

theorem length_utf8_hex (b : Bytes) : (utf8 (hex b)).length = 2 * b.length := by
  have hdigit : ∀ n, n < 16 → (String.utf8EncodeChar (hexDigit n)).length = 1 := by
    intro n hn
    have hall : ∀ m : Fin 16, (String.utf8EncodeChar (hexDigit m)).length = 1 := by decide
    exact hall ⟨n, hn⟩
  rw [utf8_eq_flatMap, hex, String.toList_ofList]
  induction b with
  | nil => rfl
  | cons x b ih =>
    have hx := x.toNat_lt
    rw [List.flatMap_cons, List.flatMap_append, List.length_append, ih, List.length_cons,
      List.flatMap_cons, List.flatMap_singleton, List.length_append, hdigit _ (by omega),
      hdigit _ (by omega)]
    omega

end Lib
