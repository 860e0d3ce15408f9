import ElGamalVoting.Envelopes.Codecs
import ElGamalVoting.Lib.Double

/- Reading JSON (`json.loads` of Python's standard library on a text, and the strict UTF-8
   decoder before it).

   A scanner returns what it read and the rest of the text, which is shorter than what it
   was given (`Scanned`): the recursion ends by that. A value nested deeper than the
   interpreter's stack allows raises, and so does a number of more digits than it converts.
   Error messages end before the position in the text. -/
namespace ElGamalVoting
open Lib

/-! UTF-8. -/

def isContinuation (b : UInt8) : Bool := 0x80 ≤ b ∧ b < 0xC0

/-- `bytes.decode("utf-8")`: no surrogates and no longer form than needed. -/
def decodeUtf8 : Bytes → Option PyStr
  | [] => some []
  | a :: rest =>
    if a < 0x80 then (decodeUtf8 rest).map (a.toNat :: ·)
    else match rest with
      | [] => none
      | b :: rest =>
        if 0xC2 ≤ a ∧ a < 0xE0 then
          if isContinuation b then
            (decodeUtf8 rest).map ((a.toNat % 0x20 * 0x40 + b.toNat % 0x40) :: ·)
          else none
        else match rest with
          | [] => none
          | c :: rest =>
            if 0xE0 ≤ a ∧ a < 0xF0 then
              let v := a.toNat % 0x10 * 0x1000 + b.toNat % 0x40 * 0x40 + c.toNat % 0x40
              if isContinuation b ∧ isContinuation c ∧ 0x800 ≤ v ∧ ¬ (0xD800 ≤ v ∧ v < 0xE000) then
                (decodeUtf8 rest).map (v :: ·)
              else none
            else match rest with
              | [] => none
              | d :: rest =>
                let v := a.toNat % 0x08 * 0x40000 + b.toNat % 0x40 * 0x1000 + c.toNat % 0x40 * 0x40 +
                  d.toNat % 0x40
                if 0xF0 ≤ a ∧ a < 0xF5 ∧ isContinuation b ∧ isContinuation c ∧ isContinuation d ∧
                    0x10000 ≤ v ∧ v < 0x110000 then
                  (decodeUtf8 rest).map (v :: ·)
                else none

/-! The scanner. -/

/-- What was read of a text, and the rest of it. -/
structure Scanned (α : Type) (s : PyStr) where
  value : α
  rest : PyStr
  shorter : rest.length < s.length

def jsonError {α : Type} (msg : String) : Py α := .error (.jsonDecodeError msg)

def isJsonSpace (c : Nat) : Bool := c = 0x20 ∨ c = 0x09 ∨ c = 0x0A ∨ c = 0x0D

def skipSpace (s : PyStr) : PyStr := s.dropWhile isJsonSpace

theorem length_skipSpace_le (s : PyStr) : (skipSpace s).length ≤ s.length :=
  (List.dropWhile_suffix isJsonSpace).length_le

def isDigit (c : Nat) : Bool := 0x30 ≤ c ∧ c ≤ 0x39

def decimal (digits : PyStr) : Nat := digits.foldl (fun acc c => 10 * acc + (c - 0x30)) 0

/-- The integer part of a number: a zero, or digits that do not start with one. -/
def intPart (s : PyStr) : PyStr :=
  match s with
  | [] => []
  | c :: _ => if c = 0x30 then [c] else s.takeWhile isDigit

def fracPart (s : PyStr) : PyStr :=
  match s with
  | [] => []
  | c :: t => if c = 0x2E ∧ t.takeWhile isDigit ≠ [] then c :: t.takeWhile isDigit else []

def expPart (s : PyStr) : PyStr :=
  match s with
  | [] => []
  | c :: t =>
    let sign := (t.take 1).filter fun c => c = 0x2B ∨ c = 0x2D
    let digits := (t.drop sign.length).takeWhile isDigit
    if (c = 'e'.toNat ∨ c = 'E'.toNat) ∧ digits ≠ [] then c :: sign ++ digits else []

/-! The text of a float. -/

/-- `repr` of the float `n * 10 ^ e`, given by its shortest decimal. -/
def decimalText (n : Nat) (e : Int) : String :=
  let point := (toString n).length + e
  let digits := ((toString n).toList.reverse.dropWhile (· = '0')).reverse
  let zeros (k : Nat) : List Char := List.replicate k '0'
  String.ofList (
    if point ≤ -4 ∨ 16 < point then
      let exponent := point - 1
      digits.take 1 ++ (if digits.length ≤ 1 then [] else '.' :: digits.drop 1) ++
        ['e', if exponent < 0 then '-' else '+'] ++ zeros (2 - (toString exponent.natAbs).length) ++
        (toString exponent.natAbs).toList
    else if point ≤ 0 then ['0', '.'] ++ zeros (-point).toNat ++ digits
    else if digits.length ≤ point then digits ++ zeros (point.toNat - digits.length) ++ ['.', '0']
    else digits.take point.toNat ++ '.' :: digits.drop point.toNat)

/-- `repr` of what `float` makes of the parts of a number. -/
def floatText (sign int frac exp : PyStr) : String :=
  let magnitude : Int := decimal ((exp.drop 1).filter isDigit)
  let exponent := if 0x2D ∈ exp then -magnitude else magnitude
  let text := match Double.ofDecimal (decimal (int ++ frac.drop 1)) (exponent - (frac.length - 1 : Nat)) with
    | none => "inf"
    | some x =>
      if x.significand = 0 then "0.0"
      else decimalText (Double.shortest x).1 (Double.shortest x).2
  if sign = [] then text else "-" ++ text

example : floatText [] (pyStr "1") [] (pyStr "e400") = "inf" := by decide +kernel
example : floatText [0x2D] (pyStr "12") (pyStr ".50") (pyStr "e-6") = "-1.25e-05" := by decide +kernel

/-- The four digits of an escape. -/
def scanUnit (s : PyStr) : Option Nat := do
  let a ← s[0]? >>= hexValue
  let b ← s[1]? >>= hexValue
  let c ← s[2]? >>= hexValue
  let d ← s[3]? >>= hexValue
  pure (a * 0x1000 + b * 0x100 + c * 0x10 + d)

/-- The low surrogate of an escape that follows. -/
def scanLow (s : PyStr) : Option Nat :=
  if s.take 2 = pyStr "\\u" then
    match scanUnit (s.drop 2) with
    | none => none
    | some low => if 0xDC00 ≤ low ∧ low < 0xE000 then some low else none
  else none

def shortEscape (c : Nat) : Option Nat :=
  if c = 0x22 ∨ c = 0x5C ∨ c = 0x2F then some c
  else if c = 'b'.toNat then some 0x08
  else if c = 'f'.toNat then some 0x0C
  else if c = 'n'.toNat then some 0x0A
  else if c = 'r'.toNat then some 0x0D
  else if c = 't'.toNat then some 0x09
  else none

/-- A string, from after its opening quotation mark. -/
def scanString (s : PyStr) : Py (Scanned PyStr s) :=
  match s with
  | [] => jsonError "Unterminated string starting at"
  | c :: t =>
    if c = 0x22 then .ok ⟨[], t, by simp⟩
    else if c < 0x20 then jsonError "Invalid control character at"
    else if c ≠ 0x5C then do
      let r ← scanString t
      pure ⟨c :: r.value, r.rest, Nat.lt_succ_of_lt r.shorter⟩
    else match t with
      | [] => jsonError "Unterminated string starting at"
      | e :: u =>
        if e ≠ 'u'.toNat then
          match shortEscape e with
          | none => jsonError "Invalid \\escape"
          | some v => do
            let r ← scanString u
            pure ⟨v :: r.value, r.rest, Nat.lt_succ_of_lt (Nat.lt_succ_of_lt r.shorter)⟩
        else match scanUnit u with
          | none => jsonError "Invalid \\uXXXX escape"
          | some unit =>
            match (if 0xD800 ≤ unit ∧ unit < 0xDC00 then scanLow (u.drop 4) else none) with
            | some low => do
              -- a pair of surrogates is one character
              let r ← scanString (u.drop 10)
              pure ⟨(0x10000 + (unit - 0xD800) * 0x400 + (low - 0xDC00)) :: r.value, r.rest, by
                have := r.shorter
                rw [List.length_drop] at this
                simp only [List.length_cons]
                omega⟩
            | none => do
              let r ← scanString (u.drop 4)
              pure ⟨unit :: r.value, r.rest, by
                have := r.shorter
                rw [List.length_drop] at this
                simp only [List.length_cons]
                omega⟩
termination_by s.length
decreasing_by
  all_goals simp only [List.length_cons, List.length_drop]; omega

def scanNumber (s : PyStr) : Py (Scanned Json s) :=
  let sign := (s.take 1).filter (· = 0x2D)
  let body := s.drop sign.length
  let int := intPart body
  if hint : int = [] then jsonError "Expecting value"
  else
    let frac := fracPart (body.drop int.length)
    let exp := expPart ((body.drop int.length).drop frac.length)
    let rest := ((body.drop int.length).drop frac.length).drop exp.length
    have hshorter : rest.length < s.length := by
      have hne : body ≠ [] := by
        intro hnil
        refine hint ?_
        show intPart body = []
        rw [hnil]
        rfl
      have hbody : 0 < body.length := List.length_pos_of_ne_nil hne
      have hpos : 0 < int.length := List.length_pos_of_ne_nil hint
      have hle : body.length ≤ s.length := by
        show (s.drop sign.length).length ≤ s.length
        rw [List.length_drop]
        omega
      show (((body.drop int.length).drop frac.length).drop exp.length).length < s.length
      rw [List.length_drop, List.length_drop, List.length_drop]
      omega
    if frac = [] ∧ exp = [] then
      if maxStrDigits < int.length then
        .error (.valueError (s!"Exceeds the limit ({maxStrDigits} digits) for integer string " ++
          s!"conversion: value has {int.length} digits"))
      else .ok ⟨.int (if sign = [] then decimal int else -(decimal int : Int)), rest, hshorter⟩
    else .ok ⟨.float (floatText sign int frac exp), rest, hshorter⟩

/-- A word that stands for a value. -/
def scanWord (s : PyStr) : Option (Scanned Json s) :=
  let words : List (String × Json) := [("null", .null), ("true", .bool true), ("false", .bool false),
    ("NaN", .float "nan"), ("Infinity", .float "inf"), ("-Infinity", .float "-inf")]
  match hfind : words.find? fun w => w.1.length ≠ 0 ∧ s.take w.1.length = pyStr w.1 with
  | none => none
  | some w => some ⟨w.2, s.drop w.1.length, by
      have h := List.find?_some hfind
      simp only [decide_eq_true_eq] at h
      have htake : s ≠ [] := by
        rintro rfl
        have hlen := congrArg List.length h.2
        rw [List.take_nil, List.length_nil, pyStr, List.length_map, String.length_toList] at hlen
        exact h.1 hlen.symm
      have := List.length_pos_of_ne_nil htake
      rw [List.length_drop]
      omega⟩

def recursionError {α : Type} : Py α := .error (.runtimeError "maximum recursion depth exceeded")

mutual
/-- A value at the start of the text. -/
def scanOnce (depth : Nat) (s : PyStr) : Py (Scanned Json s) :=
  match s with
  | [] => jsonError "Expecting value"
  | c :: t =>
    if c = 0x22 then do
      let r ← scanString t
      pure ⟨.str r.value, r.rest, Nat.lt_succ_of_lt r.shorter⟩
    else if c = 0x5B then
      match depth with
      | 0 => recursionError
      | depth + 1 =>
        if hclose : (skipSpace t).head? = some 0x5D then
          .ok ⟨.arr [], (skipSpace t).drop 1, by
            have := length_skipSpace_le t
            rw [List.length_drop, List.length_cons]
            omega⟩
        else do
          let r ← scanItems depth (skipSpace t)
          pure ⟨.arr r.value, r.rest, by
            have := length_skipSpace_le t
            have := r.shorter
            rw [List.length_cons]
            omega⟩
    else if c = 0x7B then
      match depth with
      | 0 => recursionError
      | depth + 1 =>
        if hclose : (skipSpace t).head? = some 0x7D then
          .ok ⟨.obj [], (skipSpace t).drop 1, by
            have := length_skipSpace_le t
            rw [List.length_drop, List.length_cons]
            omega⟩
        else do
          let r ← scanPairs depth (skipSpace t)
          pure ⟨.obj r.value, r.rest, by
            have := length_skipSpace_le t
            have := r.shorter
            rw [List.length_cons]
            omega⟩
    else match scanWord (c :: t) with
      | some r => .ok r
      | none => scanNumber (c :: t)
termination_by 2 * s.length
decreasing_by
  all_goals
    have := length_skipSpace_le t
    simp only [List.length_cons]
    omega

/-- The items of an array from the first one on. -/
def scanItems (depth : Nat) (s : PyStr) : Py (Scanned (List Json) s) := do
  let r ← scanOnce depth s
  if (skipSpace r.rest).head? = some 0x2C then do
    let more ← scanItems depth (skipSpace ((skipSpace r.rest).drop 1))
    pure ⟨r.value :: more.value, more.rest, by
      have := r.shorter
      have := more.shorter
      have := length_skipSpace_le r.rest
      have := length_skipSpace_le ((skipSpace r.rest).drop 1)
      rw [List.length_drop] at this
      omega⟩
  else if (skipSpace r.rest).head? = some 0x5D then
    pure ⟨[r.value], (skipSpace r.rest).drop 1, by
      have := r.shorter
      have := length_skipSpace_le r.rest
      rw [List.length_drop]
      omega⟩
  else jsonError "Expecting ',' delimiter"
termination_by 2 * s.length + 1
decreasing_by
  · omega
  · have := r.shorter
    have := length_skipSpace_le r.rest
    have := length_skipSpace_le ((skipSpace r.rest).drop 1)
    rw [List.length_drop] at this
    omega

/-- The fields of an object from the first one on. -/
def scanPairs (depth : Nat) (s : PyStr) : Py (Scanned (List (PyStr × Json)) s) :=
  match s with
  | [] => jsonError "Expecting property name enclosed in double quotes"
  | c :: t =>
    if c ≠ 0x22 then jsonError "Expecting property name enclosed in double quotes"
    else do
      let k ← scanString t
      if (skipSpace k.rest).head? ≠ some 0x3A then jsonError "Expecting ':' delimiter"
      else do
        let r ← scanOnce depth (skipSpace ((skipSpace k.rest).drop 1))
        if (skipSpace r.rest).head? = some 0x2C then do
          let more ← scanPairs depth (skipSpace ((skipSpace r.rest).drop 1))
          pure ⟨(k.value, r.value) :: more.value, more.rest, by
            have := k.shorter
            have := r.shorter
            have := more.shorter
            have := length_skipSpace_le k.rest
            have := length_skipSpace_le ((skipSpace k.rest).drop 1)
            have := length_skipSpace_le r.rest
            have := length_skipSpace_le ((skipSpace r.rest).drop 1)
            simp only [List.length_drop, List.length_cons] at *
            omega⟩
        else if (skipSpace r.rest).head? = some 0x7D then
          pure ⟨[(k.value, r.value)], (skipSpace r.rest).drop 1, by
            have := k.shorter
            have := r.shorter
            have := length_skipSpace_le k.rest
            have := length_skipSpace_le ((skipSpace k.rest).drop 1)
            have := length_skipSpace_le r.rest
            simp only [List.length_drop, List.length_cons] at *
            omega⟩
        else jsonError "Expecting ',' delimiter"
termination_by 2 * s.length + 1
decreasing_by
  · have := k.shorter
    have := length_skipSpace_le k.rest
    have := length_skipSpace_le ((skipSpace k.rest).drop 1)
    simp only [List.length_drop, List.length_cons] at *
    omega
  · have := k.shorter
    have := r.shorter
    have := length_skipSpace_le k.rest
    have := length_skipSpace_le ((skipSpace k.rest).drop 1)
    have := length_skipSpace_le r.rest
    have := length_skipSpace_le ((skipSpace r.rest).drop 1)
    simp only [List.length_drop, List.length_cons] at *
    omega
end

/-- `json.loads` of a text, in an interpreter whose stack allows values nested `depth` deep. -/
def jsonLoads (depth : Nat) (s : PyStr) : Py Json :=
  if s.head? = some 0xFEFF then jsonError "Unexpected UTF-8 BOM (decode using utf-8-sig)"
  else do
    let r ← scanOnce depth (skipSpace s)
    if skipSpace r.rest = [] then pure r.value else jsonError "Extra data"

end ElGamalVoting
