import ElGamalVoting.Envelopes.Codecs

/- The canonical text of a JSON value: `json.dumps` with sorted keys, compact
   separators and the default escapes, under which the text is ASCII. The
   digests of a ballot and of a configuration are taken over it. -/
namespace ElGamalVoting
open Lib

/-- Code-point order, the order `sort_keys` sorts names by. -/
def keyLe : PyStr → PyStr → Bool
  | [], _ => true
  | _ :: _, [] => false
  | a :: as, b :: bs => a < b || (a == b && keyLe as bs)

/-- `\uXXXX`, four hexadecimal digits. -/
def unicodeEscape (unit : Nat) : Bytes := utf8 "\\u" ++ utf8 (hex (beBytes 2 unit))

/-- One code point inside a string: printable ASCII as it is, the short escapes,
    and everything else by its UTF-16 units. -/
def escapeChar (c : Nat) : Bytes :=
  if c = 0x22 then utf8 "\\\""
  else if c = 0x5C then utf8 "\\\\"
  else if c = 0x0A then utf8 "\\n"
  else if c = 0x0D then utf8 "\\r"
  else if c = 0x09 then utf8 "\\t"
  else if c = 0x0C then utf8 "\\f"
  else if c = 0x08 then utf8 "\\b"
  else if 0x20 ≤ c ∧ c ≤ 0x7E then [UInt8.ofNat c]
  else if c < 0x10000 then unicodeEscape c
  else unicodeEscape (0xD800 + (c - 0x10000) / 0x400) ++
    unicodeEscape (0xDC00 + (c - 0x10000) % 0x400)

def quoted (s : PyStr) : Bytes := utf8 "\"" ++ s.flatMap escapeChar ++ utf8 "\""

/-- The word for a float that is no number, and the text of any other. -/
def floatWord (text : String) : String :=
  if text = "nan" then "NaN"
  else if text = "inf" then "Infinity"
  else if text = "-inf" then "-Infinity"
  else text

namespace Json

mutual
def dumps : Json → Bytes
  | null => utf8 "null"
  | bool b => utf8 (if b then "true" else "false")
  | int n => utf8 (toString n)
  | float text => utf8 (floatWord text)
  | str s => quoted s
  | arr items => utf8 "[" ++ (utf8 ",").intercalate (dumpsItems items) ++ utf8 "]"
  | obj fields =>
    let sorted := (dumpsFields fields).insertionSort fun a b => keyLe a.1 b.1
    utf8 "\x7b" ++ (utf8 ",").intercalate (sorted.map fun f => quoted f.1 ++ utf8 ":" ++ f.2) ++
      utf8 "\x7d"

def dumpsItems : List Json → List Bytes
  | [] => []
  | item :: items => dumps item :: dumpsItems items

def dumpsFields : List (PyStr × Json) → List (PyStr × Bytes)
  | [] => []
  | field :: fields => dumpsField field :: dumpsFields fields

def dumpsField : PyStr × Json → PyStr × Bytes
  | (name, value) => (name, dumps value)
end

mutual
/-- Every integer has few enough digits: of another no text is made. -/
def printable : Json → Bool
  | int n => decide ((Nat.toDigits 10 n.natAbs).length ≤ maxStrDigits)
  | arr items => printableItems items
  | obj fields => printableFields fields
  | _ => true

def printableItems : List Json → Bool
  | [] => true
  | item :: items => printable item && printableItems items

def printableFields : List (PyStr × Json) → Bool
  | [] => true
  | field :: fields => printableField field && printableFields fields

def printableField : PyStr × Json → Bool
  | (_, value) => printable value
end

example : dumps (.obj [(pyStr "b", .int (-1)), (pyStr "a", .arr [.str (pyStr "é\n"), .bool true])]) =
    utf8 "\x7b\"a\":[\"\\u00e9\\n\",true],\"b\":-1\x7d" := by decide +kernel

end Json
end ElGamalVoting
