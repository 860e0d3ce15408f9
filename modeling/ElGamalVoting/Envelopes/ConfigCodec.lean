import ElGamalVoting.Envelopes.ArtifactCodecs

/- The election configuration on the wire (`dec_config` of `envelopes/codecs.py`) and
   the checks a configuration is built under (`core/config.py`).

   The decoder reads the fields, converts them and hands them to the two
   `__post_init__` checks, whose `ValueError` it raises again as a `CodecError`. Two
   conversions of Python are taken as they are (`PyConversions`): the text of a
   container and the integer part of a float, which no encoder of this project
   writes. Encoding a configuration with a 32-byte id and decoding it gives it back. -/
namespace ElGamalVoting
open Lib

/-! Python's conversions of a JSON value. -/

structure PyConversions where
  /-- `repr` of an array or an object. -/
  repr : Json → PyStr
  /-- `int` of a float, given by its text. -/
  truncate : String → Py Int

/-- The truth value of an object, `bool(value)`. A float is zero by its text. -/
def truthy : Json → Bool
  | .null => false
  | .bool b => b
  | .int n => n ≠ 0
  | .float text => text ≠ "0.0" ∧ text ≠ "-0.0"
  | .str s => s ≠ []
  | .arr items => ¬ items.isEmpty
  | .obj fields => ¬ fields.isEmpty

/-- `str(value)`. -/
def strOf (conv : PyConversions) : Json → PyStr
  | .null => pyStr "None"
  | .bool b => pyStr (if b then "True" else "False")
  | .int n => pyStr (toString n)
  | .float text => pyStr text
  | .str s => s
  | value => conv.repr value

/-- The code points of the digit zero, one for each run of ten decimal digits. -/
def digitZeros : List Nat :=
  [0x30, 0x660, 0x6F0, 0x7C0, 0x966, 0x9E6, 0xA66, 0xAE6, 0xB66, 0xBE6, 0xC66, 0xCE6, 0xD66, 0xDE6,
    0xE50, 0xED0, 0xF20, 0x1040, 0x1090, 0x17E0, 0x1810, 0x1946, 0x19D0, 0x1A80, 0x1A90, 0x1B50,
    0x1BB0, 0x1C40, 0x1C50, 0xA620, 0xA8D0, 0xA900, 0xA9D0, 0xA9F0, 0xAA50, 0xABF0, 0xFF10, 0x104A0,
    0x10D30, 0x11066, 0x110F0, 0x11136, 0x111D0, 0x112F0, 0x11450, 0x114D0, 0x11650, 0x116C0,
    0x11730, 0x118E0, 0x11950, 0x11C50, 0x11D50, 0x11DA0, 0x11F50, 0x16A60, 0x16AC0, 0x16B50,
    0x1D7CE, 0x1D7D8, 0x1D7E2, 0x1D7EC, 0x1D7F6, 0x1E140, 0x1E2F0, 0x1E4F0, 0x1E950, 0x1FBF0]

def digitValue (c : Nat) : Option Nat :=
  (digitZeros.find? fun z => z ≤ c ∧ c < z + 10).map fun z => c - z

/-- The white space `str.strip` removes. -/
def isPySpace (c : Nat) : Bool :=
  (9 ≤ c ∧ c ≤ 13) ∨ (28 ≤ c ∧ c ≤ 32) ∨ (0x2000 ≤ c ∧ c ≤ 0x200A) ∨
    c ∈ [0x85, 0xA0, 0x1680, 0x2028, 0x2029, 0x202F, 0x205F, 0x3000]

/-- A text without the characters of a kind at its ends. -/
def stripBy (drops : Nat → Bool) (s : PyStr) : PyStr := ((s.dropWhile drops).reverse.dropWhile drops).reverse

def pyStrip (s : PyStr) : PyStr := stripBy isPySpace s

/-- The white space `int` skips: the four separators of ASCII are no white space to it. -/
def isIntSpace (c : Nat) : Bool := isPySpace c ∧ ¬ (28 ≤ c ∧ c ≤ 31)

/-- The digits after the first: one underscore may stand between two of them. -/
def moreDigits (acc : Nat) : PyStr → Option Nat
  | [] => some acc
  | [c] => (digitValue c).map fun v => 10 * acc + v
  | c :: d :: rest =>
    if c = 0x5F then (digitValue d).bind fun v => moreDigits (10 * acc + v) rest
    else (digitValue c).bind fun v => moreDigits (10 * acc + v) (d :: rest)

def digits : PyStr → Option Nat
  | [] => none
  | c :: rest => (digitValue c).bind fun v => moreDigits v rest

/-- `int` of a text: white space around a decimal number with an optional sign. -/
def intOfStr (s : PyStr) : Option Int :=
  match stripBy isIntSpace s with
  | 0x2B :: rest => (digits rest).map Int.ofNat
  | 0x2D :: rest => (digits rest).map fun n => -(n : Int)
  | rest => (digits rest).map Int.ofNat

/-- `int(value)`. -/
def intOf (conv : PyConversions) : Json → Py Int
  | .bool b => .ok (if b then 1 else 0)
  | .int n => .ok n
  | .float text => conv.truncate text
  | .str s =>
    match intOfStr s with
    | some n => .ok n
    | none => .error (.valueError "invalid literal for int() with base 10")
  | value => .error (.typeError
      ("int() argument must be a string, a bytes-like object or a real number, not " ++
        s!"'{value.typeName}'"))

/-! The checks of a configuration. -/

def mkThreshold (t n : Int) : Py Threshold :=
  if h₁ : n < 1 then .error (.valueError "The committee size (n) must be at least 1.")
  else if h₂ : ¬ (1 ≤ t ∧ t ≤ n) then
    .error (.valueError (s!"The threshold must satisfy 1 <= t <= n (t is the quorum: t of n keypers " ++
      s!"decrypt); got t={t}, n={n}."))
  else if h₃ : t * 2 ≤ n then
    .error (.valueError (s!"The threshold must be a majority: t > n/2. Got t={t}, n={n} " ++
      s!"— use t >= {n / 2 + 1}. Two disjoint groups of {t} fit in a " ++
      s!"committee of {n}, so they could each claim the same quorum."))
  else .ok ⟨t.toNat, n.toNat, by omega, by omega, by omega⟩

/-- The arguments a configuration is built from, before its checks. -/
structure ConfigFields where
  electionId : Bytes
  numCandidates : Int
  budget : Int
  mode : Mode
  variant : Variant
  weighted : Bool
  scale : Int
  duplicatePolicy : DuplicatePolicy
  votingStart : Int
  votingEnd : Int
  threshold : Threshold
  keypers : List KeyperIdentity
  eligibilityKey : Bytes
  resultPublisherKey : Bytes
  gatewayKeys : List Bytes
  adminKey : Bytes
  protocolVersion : PyStr
  selfSubmitFeeWei : Int

/-- `ElectionConfig.__post_init__`, with the ballot bounds where it checks them. -/
def ConfigFields.check (f : ConfigFields) : Py ElectionConfig :=
  if h₁ : f.numCandidates < 1 then .error (.valueError "There must be at least one candidate.")
  else if h₂ : f.selfSubmitFeeWei < 0 then
    .error (.valueError "Self-submit fee cannot be negative.")
  else if h₃ : f.budget < 1 then .error (.valueError "The budget must be at least 1.")
  else if h₄ : f.scale < 1 then
    .error (.valueError "Scale must be at least 1 (1 means no scaling).")
  else if h₅ : maxNumCandidates < f.numCandidates then
    .error (.valueError (s!"Too many candidates: {f.numCandidates} exceeds the {maxNumCandidates} " ++
      "the ballot proof format can encode."))
  else if h₆ : maxBudget < f.budget then
    .error (.valueError (s!"Budget too large: {f.budget} exceeds {maxBudget} (the proof encodes " ++
      "budget+1 as two bytes)."))
  else if h₇ : maxProofBranches < f.numCandidates * (f.budget + 1) then
    .error (.valueError (s!"This election is too expensive to tally: {f.numCandidates} candidates x " ++
      s!"(budget {f.budget} + 1) = {f.numCandidates * (f.budget + 1)} proof branches per ballot, over the " ++
      s!"{maxProofBranches} limit. Every keyper and auditor verifies every " ++
      "ballot, at roughly 3 ms per branch. Reduce the candidates or the budget."))
  else if h₈ : f.votingEnd ≤ f.votingStart then
    .error (.valueError "Voting end must be after voting start.")
  else if h₉ : f.keypers.length ≠ f.threshold.n then
    .error (.valueError (s!"The committee needs exactly {f.threshold.n} keypers, but got " ++
      s!"{f.keypers.length}."))
  else if h₁₀ : ¬ (f.keypers.map KeyperIdentity.signingKey).Nodup then
    .error (.valueError "Duplicate keyper: each committee member must be a distinct wallet.")
  else .ok {
    electionId := f.electionId
    numCandidates := f.numCandidates.toNat
    budget := f.budget.toNat
    mode := f.mode
    variant := f.variant
    weighted := f.weighted
    duplicatePolicy := f.duplicatePolicy
    votingStart := f.votingStart
    votingEnd := f.votingEnd
    threshold := f.threshold
    keypers := f.keypers
    eligibilityKey := f.eligibilityKey
    resultPublisherKey := f.resultPublisherKey
    gatewayKeys := f.gatewayKeys
    adminKey := f.adminKey
    protocolVersion := f.protocolVersion
    scale := f.scale.toNat
    selfSubmitFeeWei := f.selfSubmitFeeWei.toNat
    one_le_numCandidates := by omega
    one_le_budget := by omega
    one_le_scale := by omega
    numCandidates_le := by omega
    budget_le := by omega
    branches_le := by
      have hprod : ((f.numCandidates.toNat * (f.budget.toNat + 1) : Nat) : Int) =
          f.numCandidates * (f.budget + 1) := by
        rw [Nat.cast_mul, Nat.cast_add, Int.toNat_of_nonneg (by omega), Int.toNat_of_nonneg (by omega)]
        rfl
      omega
    start_lt_end := by omega
    length_keypers := not_not.mp h₉
    nodup_keys := not_not.mp h₁₀ }

/-! The decoder. -/

/-- A member of an enumeration by its text. -/
def decEnum {α : Type} (members : List α) (value : α → String) (cls : String) (raw : Json)
    (name : String) : Py α :=
  match raw with
  | .str s =>
    match members.find? fun m => pyStr (value m) = s with
    | some m => .ok m
    | none => .error (.codecError s!"{name}: invalid {cls}")
  | _ => .error (.codecError s!"{name}: invalid {cls}")

def decKeyper (conv : PyConversions) (k : Json) (i : Nat) : Py KeyperIdentity := do
  let signingKey ← decBytes (← req k "signingKey") s!"keypers[{i}].signingKey" none
  let url ← req k "url"
  pure ⟨signingKey, strOf conv url⟩

/-- The fee: absent or false it is zero, and a text or a number is converted. -/
def decFee (conv : PyConversions) (d : Json) : Py Int :=
  let fee := getOr d "selfSubmitFee" (.int 0)
  if truthy fee then intOf conv fee else .ok 0

/-- The arguments of the configuration but the fee, in the order they are read. -/
def decConfigBeforeFee (conv : PyConversions) (d th : Json) (keypers : List Json) : Py ConfigFields := do
  let electionId ← decBytes (← req d "electionId") "electionId" (some 32)
  let numCandidates ← decInt (← req d "numCandidates") "numCandidates" (some 1)
  let budget ← decInt (← req d "budget") "budget" (some 1)
  let mode ← decEnum [Mode.exact, .atMost] Mode.value "Mode" (← req d "mode") "mode"
  let variant ← decEnum [Variant.A, .B] Variant.value "Variant" (← req d "variant") "variant"
  let weighted ← req d "weighted"
  let scale ← decInt (getOr d "scale" (.int 1)) "scale" (some 1)
  let duplicatePolicy ← decEnum [DuplicatePolicy.firstWins, .lastWins] DuplicatePolicy.value
    "DuplicatePolicy" (← req d "duplicatePolicy") "duplicatePolicy"
  let votingStart ← decInt (← req d "votingStart") "votingStart" none
  let votingEnd ← decInt (← req d "votingEnd") "votingEnd" none
  let t ← decInt (← req th "t") "threshold.t" none
  let n ← decInt (← req th "n") "threshold.n" none
  let threshold ← mkThreshold t n
  let keypers ← keypers.zipIdx.mapM fun k => decKeyper conv k.1 k.2
  let eligibilityKey ← decBytes (← req d "eligibilityKey") "eligibilityKey" none
  let resultPublisherKey ← decBytes (← req d "resultPublisherKey") "resultPublisherKey" none
  let gatewayKeys ← decList (← req d "gatewayKeys") "gatewayKeys"
  let gatewayKeys ← gatewayKeys.zipIdx.mapM fun g => decBytes g.1 s!"gatewayKeys[{g.2}]" none
  let adminKey ← decBytes (← req d "adminKey") "adminKey" none
  let protocolVersion ← req d "protocolVersion"
  pure {
    electionId, numCandidates, budget, mode, variant, weighted := truthy weighted, scale,
    duplicatePolicy, votingStart, votingEnd, threshold, keypers, eligibilityKey, resultPublisherKey,
    gatewayKeys, adminKey, protocolVersion := strOf conv protocolVersion, selfSubmitFeeWei := 0 }

/-- The configuration; the fee is the last argument read. -/
def decConfigFields (conv : PyConversions) (d th : Json) (keypers : List Json) : Py ElectionConfig := do
  let f ← decConfigBeforeFee conv d th keypers
  let selfSubmitFeeWei ← decFee conv d
  ConfigFields.check { f with selfSubmitFeeWei }

/-- A `ValueError` is raised again as a `CodecError`; one already is. -/
def asCodecError {α : Type} (x : Py α) : Py α :=
  match x with
  | .error (.valueError msg) => .error (.codecError s!"invalid election config: {msg}")
  | x => x

def decConfig (conv : PyConversions) (d : Json) : Py ElectionConfig := do
  let th ← req d "threshold"
  let keypers ← decList (← req d "keypers") "keypers"
  asCodecError (decConfigFields conv d th keypers)

/-! ## A number is read back from its decimal text -/

theorem isDigit_bounds {c : Char} (hc : c.isDigit = true) : 48 ≤ c.toNat ∧ c.toNat ≤ 57 := by
  rw [Char.isDigit, Bool.and_eq_true, decide_eq_true_eq, decide_eq_true_eq] at hc
  exact ⟨UInt32.le_iff_toNat_le.mp hc.1, UInt32.le_iff_toNat_le.mp hc.2⟩

theorem digitValue_of_isDigit {c : Char} (hc : c.isDigit = true) :
    digitValue c.toNat = some (c.toNat - '0'.toNat) := by
  obtain ⟨hlo, hhi⟩ := isDigit_bounds hc
  have hzero : (decide (48 ≤ c.toNat ∧ c.toNat < 48 + 10)) = true := by
    rw [decide_eq_true_eq]
    omega
  have hfind : digitZeros.find? (fun z => decide (z ≤ c.toNat ∧ c.toNat < z + 10)) = some 48 :=
    List.find?_cons_of_pos hzero
  rw [digitValue, hfind]
  rfl

theorem moreDigits_of_isDigit {l : List Char} (hl : ∀ c ∈ l, c.isDigit = true) (acc : Nat) :
    moreDigits acc (l.map Char.toNat) = some (Nat.ofDigitChars 10 l acc) := by
  induction l generalizing acc with
  | nil => rw [Nat.ofDigitChars_nil]; rfl
  | cons c l ih =>
    have hc := hl c List.mem_cons_self
    have hl' := fun d hd => hl d (List.mem_cons_of_mem c hd)
    rw [Nat.ofDigitChars_cons, ← ih hl']
    cases l with
    | nil => simp [moreDigits, digitValue_of_isDigit hc]
    | cons d l =>
      have hbounds := isDigit_bounds hc
      have hunderscore : c.toNat ≠ 0x5F := by omega
      rw [List.map_cons, List.map_cons, moreDigits, if_neg hunderscore, digitValue_of_isDigit hc]
      rfl

theorem digits_of_isDigit {l : List Char} (hl : ∀ c ∈ l, c.isDigit = true) (hne : l ≠ []) :
    digits (l.map Char.toNat) = some (Nat.ofDigitChars 10 l 0) := by
  cases l with
  | nil => exact absurd rfl hne
  | cons c l =>
    rw [List.map_cons, digits, digitValue_of_isDigit (hl c List.mem_cons_self), Option.bind_some,
      moreDigits_of_isDigit fun d hd => hl d (List.mem_cons_of_mem c hd), Nat.ofDigitChars_cons]
    rw [Nat.mul_zero, Nat.zero_add]

theorem dropWhile_eq_self {drops : Nat → Bool} {s : PyStr} (h : ∀ c ∈ s, drops c = false) :
    s.dropWhile drops = s := by
  cases s with
  | nil => rfl
  | cons c s => rw [List.dropWhile_cons, h c List.mem_cons_self, if_neg Bool.false_ne_true]

theorem stripBy_eq_self {drops : Nat → Bool} {s : PyStr} (h : ∀ c ∈ s, drops c = false) :
    stripBy drops s = s := by
  rw [stripBy, dropWhile_eq_self h, dropWhile_eq_self fun c hc => h c (List.mem_reverse.mp hc),
    List.reverse_reverse]

theorem isIntSpace_eq_false {c : Nat} (h : isPySpace c = false) : isIntSpace c = false := by
  simp [isIntSpace, h]

theorem intOfStr_toString (n : Nat) : intOfStr (pyStr (toString n)) = some (n : Int) := by
  have hdigits : ∀ c ∈ Nat.toDigits 10 n, c.isDigit = true := fun c hc =>
    Nat.isDigit_of_mem_toDigits (by decide) (by decide) hc
  have htext : pyStr (toString n) = (Nat.toDigits 10 n).map Char.toNat :=
    congrArg (List.map Char.toNat) Nat.toList_repr
  have hstrip : stripBy isIntSpace (pyStr (toString n)) = (Nat.toDigits 10 n).map Char.toNat := by
    rw [htext]
    apply stripBy_eq_self
    intro c hc
    obtain ⟨d, hd, rfl⟩ := List.mem_map.mp hc
    apply isIntSpace_eq_false
    have hbounds := isDigit_bounds (hdigits d hd)
    rw [isPySpace, decide_eq_false_iff_not]
    simp only [List.mem_cons, List.not_mem_nil, or_false]
    omega
  have hvalue : digits ((Nat.toDigits 10 n).map Char.toNat) = some n := by
    rw [digits_of_isDigit hdigits Nat.toDigits_ne_nil, Nat.ofDigitChars_ten_toDigits]
  rw [intOfStr, hstrip]
  split
  -- a digit is no sign
  · rename_i rest heq
    obtain ⟨d, hd, hsign⟩ := List.mem_map.mp (heq ▸ List.mem_cons_self : 0x2B ∈ _)
    have hbounds := isDigit_bounds (hdigits d hd)
    omega
  · rename_i rest heq
    obtain ⟨d, hd, hsign⟩ := List.mem_map.mp (heq ▸ List.mem_cons_self : 0x2D ∈ _)
    have hbounds := isDigit_bounds (hdigits d hd)
    omega
  · rw [hvalue]
    rfl

/-! ## A configuration is read back -/

theorem mkThreshold_of (th : Threshold) : mkThreshold th.t th.n = .ok th := by
  have h₁ := th.one_le_t
  have h₂ := th.t_le_n
  have h₃ := th.majority
  rw [mkThreshold, dif_neg (by omega), dif_neg (by omega), dif_neg (by omega)]
  rfl

/-- The arguments that build a configuration. -/
def ElectionConfig.fields (c : ElectionConfig) : ConfigFields where
  electionId := c.electionId
  numCandidates := c.numCandidates
  budget := c.budget
  mode := c.mode
  variant := c.variant
  weighted := c.weighted
  scale := c.scale
  duplicatePolicy := c.duplicatePolicy
  votingStart := c.votingStart
  votingEnd := c.votingEnd
  threshold := c.threshold
  keypers := c.keypers
  eligibilityKey := c.eligibilityKey
  resultPublisherKey := c.resultPublisherKey
  gatewayKeys := c.gatewayKeys
  adminKey := c.adminKey
  protocolVersion := c.protocolVersion
  selfSubmitFeeWei := c.selfSubmitFeeWei

/-- A configuration passes its own checks. -/
theorem check_fields (c : ElectionConfig) : c.fields.check = .ok c := by
  have h₁ : ¬ c.fields.numCandidates < 1 := Int.not_lt.mpr (Int.ofNat_le.mpr c.one_le_numCandidates)
  have h₂ : ¬ c.fields.selfSubmitFeeWei < 0 := Int.not_lt.mpr (Int.natCast_nonneg _)
  have h₃ : ¬ c.fields.budget < 1 := Int.not_lt.mpr (Int.ofNat_le.mpr c.one_le_budget)
  have h₄ : ¬ c.fields.scale < 1 := Int.not_lt.mpr (Int.ofNat_le.mpr c.one_le_scale)
  have h₅ : ¬ (maxNumCandidates : Int) < c.fields.numCandidates :=
    Int.not_lt.mpr (Int.ofNat_le.mpr c.numCandidates_le)
  have h₆ : ¬ (maxBudget : Int) < c.fields.budget := Int.not_lt.mpr (Int.ofNat_le.mpr c.budget_le)
  have h₇ : ¬ (maxProofBranches : Int) < c.fields.numCandidates * (c.fields.budget + 1) :=
    Int.not_lt.mpr (Int.ofNat_le.mpr c.branches_le)
  have h₈ : ¬ c.fields.votingEnd ≤ c.fields.votingStart := Int.not_le.mpr c.start_lt_end
  have h₉ : ¬ c.fields.keypers.length ≠ c.fields.threshold.n := not_not.mpr c.length_keypers
  have h₁₀ : ¬ ¬ (c.fields.keypers.map KeyperIdentity.signingKey).Nodup := not_not.mpr c.nodup_keys
  rw [ConfigFields.check, dif_neg h₁, dif_neg h₂, dif_neg h₃, dif_neg h₄, dif_neg h₅, dif_neg h₆,
    dif_neg h₇, dif_neg h₈, dif_neg h₉, dif_neg h₁₀]
  rfl

/-- Reading a field as it was written, with what decodes it. -/
theorem read_field {α β : Type} {d v : Json} {key : String} {dec : Json → Py α} {a : α} {f : α → Py β}
    (hr : req d key = .ok v) (hdec : dec v = .ok a) :
    (do let v ← req d key; let x ← dec v; f x) = f a := by
  rw [hr, ok_bind, hdec, ok_bind]

theorem decBytes_any (b : Bytes) (name : String) : decBytes (encBytes b) name none = .ok b :=
  decBytes_encBytes b name fun _ hs => by cases hs

theorem decInt_any (n : Int) (name : String) : decInt (.int n) name none = .ok n := rfl

def encKeyper (k : KeyperIdentity) : Json :=
  .obj [(pyStr "signingKey", encBytes k.signingKey), (pyStr "url", .str k.url)]

theorem decKeyper_enc (conv : PyConversions) (k : KeyperIdentity) (i : Nat) :
    decKeyper conv (encKeyper k) i = .ok k := by
  have hurl : req (encKeyper k) "url" = .ok (.str k.url) := rfl
  rw [decKeyper, read_field (v := encBytes k.signingKey) rfl (decBytes_any k.signingKey _), hurl, ok_bind]
  rfl

theorem decMode_enc (m : Mode) (name : String) :
    decEnum [Mode.exact, .atMost] Mode.value "Mode" (.str (pyStr m.value)) name = .ok m := by
  cases m <;> rfl

theorem decVariant_enc (v : Variant) (name : String) :
    decEnum [Variant.A, .B] Variant.value "Variant" (.str (pyStr v.value)) name = .ok v := by
  cases v <;> rfl

theorem decPolicy_enc (p : DuplicatePolicy) (name : String) :
    decEnum [DuplicatePolicy.firstWins, .lastWins] DuplicatePolicy.value "DuplicatePolicy"
      (.str (pyStr p.value)) name = .ok p := by
  cases p <;> rfl

theorem decFee_enc (conv : PyConversions) (c : ElectionConfig) :
    decFee conv (encConfig c) = .ok (c.selfSubmitFeeWei : Int) := by
  have hfield : getOr (encConfig c) "selfSubmitFee" (.int 0) =
      .str (pyStr (toString c.selfSubmitFeeWei)) := rfl
  have htext : pyStr (toString c.selfSubmitFeeWei) ≠ [] := by
    intro hnil
    have hvalue := intOfStr_toString c.selfSubmitFeeWei
    rw [hnil] at hvalue
    cases hvalue
  have htruthy : truthy (.str (pyStr (toString c.selfSubmitFeeWei))) = true := by
    simpa [truthy] using htext
  rw [decFee, hfield, htruthy, if_pos rfl, intOf, intOfStr_toString]

/-- Decoding the encoding of a configuration with a 32-byte id returns it. -/
theorem decConfig_encConfig (conv : PyConversions) {c : ElectionConfig} (hid : c.electionId.length = 32) :
    decConfig conv (encConfig c) = .ok c := by
  have hth : req (encConfig c) "threshold" =
      .ok (.obj [(pyStr "t", .int c.threshold.t), (pyStr "n", .int c.threshold.n)]) := rfl
  have hkeypers : req (encConfig c) "keypers" = .ok (.arr (c.keypers.map encKeyper)) := rfl
  have hlist : ∀ items name, decList (.arr items) name = .ok items := fun _ _ => rfl
  have hweighted : req (encConfig c) "weighted" = .ok (.bool c.weighted) := rfl
  have hversion : req (encConfig c) "protocolVersion" = .ok (.str c.protocolVersion) := rfl
  have hscale : getOr (encConfig c) "scale" (.int 1) = .int c.scale := rfl
  have hpositive : ∀ (n : Nat) name, 1 ≤ n → decInt (.int n) name (some 1) = .ok (n : Int) :=
    fun n name hn => decInt_ok (by exact_mod_cast hn) name
  have hbefore : decConfigBeforeFee conv (encConfig c)
      (.obj [(pyStr "t", .int c.threshold.t), (pyStr "n", .int c.threshold.n)])
      (c.keypers.map encKeyper) = .ok { c.fields with selfSubmitFeeWei := 0 } := by
    rw [decConfigBeforeFee, read_encBytes (b := c.electionId) rfl hid,
      read_field (v := .int c.numCandidates) rfl (hpositive _ _ c.one_le_numCandidates),
      read_field (v := .int c.budget) rfl (hpositive _ _ c.one_le_budget),
      read_field (v := .str (pyStr c.mode.value)) rfl (decMode_enc c.mode _),
      read_field (v := .str (pyStr c.variant.value)) rfl (decVariant_enc c.variant _),
      hweighted, ok_bind, hscale, hpositive _ _ c.one_le_scale, ok_bind,
      read_field (v := .str (pyStr c.duplicatePolicy.value)) rfl (decPolicy_enc c.duplicatePolicy _),
      read_field (v := .int c.votingStart) rfl (decInt_any _ _),
      read_field (v := .int c.votingEnd) rfl (decInt_any _ _),
      read_field (v := .int c.threshold.t) rfl (decInt_any _ _),
      read_field (v := .int c.threshold.n) rfl (decInt_any _ _), mkThreshold_of, ok_bind,
      mapM_zipIdx_map (fun k _ i => decKeyper_enc conv k i), ok_bind,
      read_field (v := encBytes c.eligibilityKey) rfl (decBytes_any _ _),
      read_field (v := encBytes c.resultPublisherKey) rfl (decBytes_any _ _),
      read_field (v := .arr (c.gatewayKeys.map encBytes)) rfl (hlist _ _),
      mapM_zipIdx_map (fun g _ i => decBytes_any g _), ok_bind,
      read_field (v := encBytes c.adminKey) rfl (decBytes_any _ _), hversion, ok_bind]
    rfl
  have hfields : decConfigFields conv (encConfig c)
      (.obj [(pyStr "t", .int c.threshold.t), (pyStr "n", .int c.threshold.n)])
      (c.keypers.map encKeyper) = .ok c := by
    rw [decConfigFields, hbefore, ok_bind, decFee_enc, ok_bind]
    exact check_fields c
  rw [decConfig, hth, ok_bind, hkeypers, ok_bind, hlist, ok_bind, hfields]
  rfl

end ElGamalVoting
