import ElGamalVoting.Envelopes.CanonicalText

/- The canonical JSON of the admin app (`canonicalize` of `frontend/apps/admin/src/adminSign.ts`)
   against the one of the server (`json.dumps` with sorted keys).

   The app sorts names by their UTF-16 units and leaves every character that needs no escape as
   it is; the server sorts by code points and escapes all but printable ASCII. The two texts of
   a value are the same exactly where its strings are `Simple` (`canonicalize_eq_dumps` and
   `simple_of_ascii`). -/
namespace ElGamalVoting
open Lib

namespace Frontend

def isSurrogate (c : Nat) : Bool := 0xD800 ≤ c ∧ c < 0xE000

/-- One code point inside a string of `JSON.stringify`: the short escapes, control characters
    and lone surrogates by their number, and everything else as it is. -/
def stringifyChar (c : Nat) : Bytes :=
  if c = 0x22 then utf8 "\\\""
  else if c = 0x5C then utf8 "\\\\"
  else if c = 0x0A then utf8 "\\n"
  else if c = 0x0D then utf8 "\\r"
  else if c = 0x09 then utf8 "\\t"
  else if c = 0x0C then utf8 "\\f"
  else if c = 0x08 then utf8 "\\b"
  else if c < 0x20 ∨ isSurrogate c then unicodeEscape c
  else String.utf8EncodeChar (Char.ofNat c)

/-- `JSON.stringify` of a string. -/
def stringify (s : PyStr) : Bytes := utf8 "\"" ++ s.flatMap stringifyChar ++ utf8 "\""

/-- The order of UTF-16 units, the order `sort` sorts names by. -/
def unitLe (a b : PyStr) : Bool := keyLe (utf16 a) (utf16 b)

mutual
/-- The UTF-8 bytes of the canonical text. A float keeps the text Python has for it: the server writes
    none that it could be compared with. -/
def canonicalize : Json → Bytes
  | .null => utf8 "null"
  | .bool b => utf8 (if b then "true" else "false")
  | .int n => utf8 (toString n)
  | .float text => utf8 (floatWord text)
  | .str s => stringify s
  | .arr items => utf8 "[" ++ (utf8 ",").intercalate (canonicalizeItems items) ++ utf8 "]"
  | .obj fields =>
    let sorted := (canonicalizeFields fields).insertionSort fun a b => unitLe a.1 b.1
    utf8 "\x7b" ++ (utf8 ",").intercalate (sorted.map fun f => stringify f.1 ++ utf8 ":" ++ f.2) ++
      utf8 "\x7d"

def canonicalizeItems : List Json → List Bytes
  | [] => []
  | item :: items => canonicalize item :: canonicalizeItems items

def canonicalizeFields : List (PyStr × Json) → List (PyStr × Bytes)
  | [] => []
  | field :: fields => canonicalizeField field :: canonicalizeFields fields

def canonicalizeField : PyStr × Json → PyStr × Bytes
  | (name, value) => (name, canonicalize value)
end

/-! ## Strings both sides write alike -/

/-- A code point that both sides write in the same way. -/
def isSimple (c : Nat) : Bool := c ≤ 0x7E ∨ isSurrogate c

def Simple (s : PyStr) : Bool := s.all isSimple

theorem stringifyChar_eq {c : Nat} (h : isSimple c = true) : stringifyChar c = escapeChar c := by
  have hascii : ∀ c < 0x7F, stringifyChar c = escapeChar c := by decide +kernel
  simp only [isSimple, decide_eq_true_eq] at h
  by_cases hlow : c < 0x7F
  · exact hascii c hlow
  · have hsurr : isSurrogate c = true := by
      rcases h with h | h
      · omega
      · exact h
    have hrange : 0xD800 ≤ c ∧ c < 0xE000 := by simpa [isSurrogate] using hsurr
    -- a surrogate is none of the short escapes and not printable
    rw [stringifyChar, escapeChar, if_neg (by omega), if_neg (by omega), if_neg (by omega),
      if_neg (by omega), if_neg (by omega), if_neg (by omega), if_neg (by omega), if_pos (Or.inr hsurr),
      if_neg (by omega), if_neg (by omega), if_neg (by omega), if_neg (by omega), if_neg (by omega),
      if_neg (by omega), if_neg (by omega), if_neg (by omega), if_pos (by omega)]

theorem stringify_eq {s : PyStr} (h : Simple s = true) : stringify s = quoted s := by
  have hall := List.all_eq_true.mp h
  rw [stringify, quoted, List.flatMap_congr fun c hc => stringifyChar_eq (hall c hc)]

theorem utf16_of_simple {s : PyStr} (h : Simple s = true) : utf16 s = s := by
  induction s with
  | nil => rfl
  | cons c s ih =>
    simp only [Simple, List.all_cons, Bool.and_eq_true] at h
    have hc : c < 0x10000 := by
      have hsimple := h.1
      simp only [isSimple, isSurrogate, decide_eq_true_eq] at hsimple
      omega
    have htail : utf16 s = s := ih h.2
    rw [utf16] at htail
    rw [utf16, List.flatMap_cons, htail, utf16Char, if_pos hc]
    rfl

/-- Orders that agree on the members of a list sort it alike. -/
theorem insertionSort_congr {α : Type} {r r' : α → α → Bool} {l : List α}
    (h : ∀ a ∈ l, ∀ b ∈ l, r a b = r' a b) :
    l.insertionSort (fun a b => r a b) = l.insertionSort fun a b => r' a b := by
  have hinsert : ∀ (a : α) (m : List α), (∀ b ∈ m, r a b = r' a b) →
      m.orderedInsert (fun a b => r a b) a = m.orderedInsert (fun a b => r' a b) a := by
    intro a m hm
    induction m with
    | nil => rfl
    | cons b m ih =>
      rw [List.orderedInsert_cons, List.orderedInsert_cons, hm b List.mem_cons_self,
        ih fun c hc => hm c (List.mem_cons_of_mem b hc)]
  induction l with
  | nil => rfl
  | cons a l ih =>
    rw [List.insertionSort_cons, List.insertionSort_cons,
      ih fun b hb c hc => h b (List.mem_cons_of_mem a hb) c (List.mem_cons_of_mem a hc)]
    refine hinsert a _ ?_
    intro b hb
    rw [List.mem_insertionSort] at hb
    exact h a List.mem_cons_self b (List.mem_cons_of_mem a hb)

mutual
/-- Every string of the value and every name in it is simple. -/
def simpleValue : Json → Bool
  | .str s => Simple s
  | .arr items => simpleItems items
  | .obj fields => simpleFields fields
  | _ => true

def simpleItems : List Json → Bool
  | [] => true
  | item :: items => simpleValue item && simpleItems items

def simpleFields : List (PyStr × Json) → Bool
  | [] => true
  | field :: fields => simpleField field && simpleFields fields

def simpleField : PyStr × Json → Bool
  | (name, value) => Simple name && simpleValue value
end

theorem simpleItems_iff {items : List Json} :
    simpleItems items = true ↔ ∀ item ∈ items, simpleValue item = true := by
  induction items with
  | nil => simp [simpleItems]
  | cons item items ih => simp [simpleItems, ih]

theorem simpleFields_iff {fields : List (PyStr × Json)} :
    simpleFields fields = true ↔ ∀ f ∈ fields, Simple f.1 = true ∧ simpleValue f.2 = true := by
  induction fields with
  | nil => simp [simpleFields]
  | cons f fields ih =>
    obtain ⟨name, value⟩ := f
    simp [simpleFields, simpleField, ih]

theorem canonicalizeItems_eq (items : List Json) : canonicalizeItems items = items.map canonicalize := by
  induction items with
  | nil => simp [canonicalizeItems]
  | cons item items ih => simp [canonicalizeItems, ih]

theorem canonicalizeFields_eq (fields : List (PyStr × Json)) :
    canonicalizeFields fields = fields.map fun f => (f.1, canonicalize f.2) := by
  induction fields with
  | nil => simp [canonicalizeFields]
  | cons f fields ih =>
    obtain ⟨name, value⟩ := f
    simp [canonicalizeFields, canonicalizeField, ih]

theorem dumpsItems_map (items : List Json) : Json.dumpsItems items = items.map Json.dumps := by
  induction items with
  | nil => simp [Json.dumpsItems]
  | cons item items ih => simp [Json.dumpsItems, ih]

theorem dumpsFields_map (fields : List (PyStr × Json)) :
    Json.dumpsFields fields = fields.map fun f => (f.1, f.2.dumps) := by
  induction fields with
  | nil => simp [Json.dumpsFields]
  | cons f fields ih =>
    obtain ⟨name, value⟩ := f
    simp [Json.dumpsFields, Json.dumpsField, ih]

/-- The server writes a simple value as the app does. -/
theorem canonicalize_eq_dumps (j : Json) (hj : simpleValue j = true) : canonicalize j = j.dumps := by
  match j with
  | .null | .bool _ | .int _ | .float _ => simp [canonicalize, Json.dumps]
  | .str s =>
    rw [canonicalize, Json.dumps]
    exact stringify_eq (by simpa [simpleValue] using hj)
  | .arr items =>
    rw [simpleValue, simpleItems_iff] at hj
    rw [canonicalize, Json.dumps, canonicalizeItems_eq, dumpsItems_map,
      List.map_congr_left fun item hitem => canonicalize_eq_dumps item (hj item hitem)]
  | .obj fields =>
    rw [simpleValue, simpleFields_iff] at hj
    have hvalues : canonicalizeFields fields = Json.dumpsFields fields := by
      rw [canonicalizeFields_eq, dumpsFields_map]
      refine List.map_congr_left ?_
      intro f hf
      rw [canonicalize_eq_dumps f.2 (hj f hf).2]
    have hnames : ∀ f ∈ Json.dumpsFields fields, Simple f.1 = true := by
      intro f hf
      rw [dumpsFields_map] at hf
      obtain ⟨g, hg, rfl⟩ := List.mem_map.mp hf
      exact (hj g hg).1
    have hsort : (Json.dumpsFields fields).insertionSort (fun a b => unitLe a.1 b.1) =
        (Json.dumpsFields fields).insertionSort fun a b => keyLe a.1 b.1 := by
      refine insertionSort_congr ?_
      intro a ha b hb
      rw [unitLe, utf16_of_simple (hnames a ha), utf16_of_simple (hnames b hb)]
    have htexts : ((Json.dumpsFields fields).insertionSort fun a b => keyLe a.1 b.1).map
          (fun f => stringify f.1 ++ utf8 ":" ++ f.2) =
        ((Json.dumpsFields fields).insertionSort fun a b => keyLe a.1 b.1).map
          fun f => quoted f.1 ++ utf8 ":" ++ f.2 := by
      refine List.map_congr_left ?_
      intro f hf
      rw [List.mem_insertionSort] at hf
      rw [stringify_eq (hnames f hf)]
    simp only [canonicalize, Json.dumps, hvalues, hsort, htexts]
termination_by sizeOf j
decreasing_by
  · have := List.sizeOf_lt_of_mem hitem
    simp only [Json.arr.sizeOf_spec]
    omega
  · have := List.sizeOf_lt_of_mem hf
    obtain ⟨name, value⟩ := f
    simp only [Json.obj.sizeOf_spec, Prod.mk.sizeOf_spec] at this ⊢
    omega

/-! ## The server's text is ASCII -/

/-- A byte of printable ASCII. -/
def isAscii (b : UInt8) : Bool := b.toNat ≤ 0x7E

theorem utf8EncodeChar_ascii {ch : Char} (h : ∀ b ∈ String.utf8EncodeChar ch, isAscii b = true) :
    ch.toNat ≤ 0x7E := by
  have hval : ch.toNat = ch.val.toNat := rfl
  have hbyte : ∀ n, isAscii (UInt8.ofNat n) = true → n % 256 ≤ 0x7E := by
    intro n hn
    simpa [isAscii, UInt8.toNat_ofNat'] using hn
  -- the first byte of a longer encoding is at least 0xC0
  unfold String.utf8EncodeChar at h
  simp only at h
  split at h
  · have := hbyte _ (h _ List.mem_cons_self)
    omega
  split at h
  · have := hbyte _ (h _ List.mem_cons_self)
    omega
  split at h
  · have := hbyte _ (h _ List.mem_cons_self)
    omega
  · have := hbyte _ (h _ List.mem_cons_self)
    omega

theorem ascii_hex (b : Bytes) : ∀ x ∈ utf8 (hex b), isAscii x = true := by
  have hdigit : ∀ n : Fin 16, ∀ x ∈ String.utf8EncodeChar (hexDigit n), isAscii x = true := by decide +kernel
  rw [utf8_eq_flatMap, hex, String.toList_ofList]
  intro x hx
  obtain ⟨ch, hch, hx⟩ := List.mem_flatMap.mp hx
  obtain ⟨y, -, hch⟩ := List.mem_flatMap.mp hch
  have hy := y.toNat_lt
  simp only [List.mem_cons, List.not_mem_nil, or_false] at hch
  rcases hch with rfl | rfl
  · exact hdigit ⟨y.toNat / 16, by omega⟩ x hx
  · exact hdigit ⟨y.toNat % 16, by omega⟩ x hx

theorem ascii_unicodeEscape (unit : Nat) : ∀ x ∈ unicodeEscape unit, isAscii x = true := by
  have htag : ∀ x ∈ utf8 "\\u", isAscii x = true := by decide +kernel
  intro x hx
  rcases List.mem_append.mp hx with hx | hx
  · exact htag x hx
  · exact ascii_hex _ x hx

theorem ascii_escapeChar (c : Nat) : ∀ x ∈ escapeChar c, isAscii x = true := by
  by_cases hlow : c < 0x7F
  · have hall : ∀ c < 0x7F, ∀ x ∈ escapeChar c, isAscii x = true := by decide +kernel
    exact hall c hlow
  · rw [escapeChar, if_neg (by omega), if_neg (by omega), if_neg (by omega), if_neg (by omega),
      if_neg (by omega), if_neg (by omega), if_neg (by omega), if_neg (by omega)]
    split
    · exact ascii_unicodeEscape c
    · intro x hx
      rcases List.mem_append.mp hx with hx | hx
      · exact ascii_unicodeEscape _ x hx
      · exact ascii_unicodeEscape _ x hx

theorem ascii_quoted (s : PyStr) : ∀ x ∈ quoted s, isAscii x = true := by
  intro x hx
  rw [quoted_eq] at hx
  rcases List.mem_cons.mp hx with rfl | hx
  · decide
  · rcases List.mem_append.mp hx with hx | hx
    · obtain ⟨c, -, hx⟩ := List.mem_flatMap.mp hx
      exact ascii_escapeChar c x hx
    · rw [List.mem_singleton.mp hx]
      decide

theorem ascii_int (n : Int) : ∀ x ∈ utf8 (toString n), isAscii x = true := by
  intro x hx
  have hnumeral := int_numeral n x hx
  simp only [isNumeral, decide_eq_true_eq, UInt8.le_iff_toNat_le] at hnumeral
  rcases hnumeral with rfl | ⟨-, hle⟩
  · decide
  · have h39 : (0x39 : UInt8).toNat = 0x39 := rfl
    simp only [isAscii, decide_eq_true_eq]
    omega

theorem mem_intercalate {sep x : UInt8} {texts : List Bytes} (h : x ∈ [sep].intercalate texts) :
    x = sep ∨ ∃ t ∈ texts, x ∈ t := by
  induction texts with
  | nil => cases h
  | cons t texts ih =>
    cases texts with
    | nil => exact Or.inr ⟨t, List.mem_cons_self, by simpa using h⟩
    | cons u texts =>
      rw [List.intercalate_cons_cons, List.mem_append, List.mem_append, List.mem_singleton] at h
      rcases h with (h | h) | h
      · exact Or.inr ⟨t, List.mem_cons_self, h⟩
      · exact Or.inl h
      · rcases ih h with h | ⟨v, hv, h⟩
        · exact Or.inl h
        · exact Or.inr ⟨v, List.mem_cons_of_mem t hv, h⟩

theorem mem_intercalate_of_mem {sep x : UInt8} {texts : List Bytes} {t : Bytes} (ht : t ∈ texts)
    (hx : x ∈ t) : x ∈ [sep].intercalate texts := by
  induction texts with
  | nil => cases ht
  | cons u texts ih =>
    cases texts with
    | nil =>
      obtain rfl : t = u := by simpa using ht
      simpa using hx
    | cons v texts =>
      rw [List.intercalate_cons_cons, List.mem_append, List.mem_append]
      rcases List.mem_cons.mp ht with rfl | ht
      · exact Or.inl (Or.inl hx)
      · exact Or.inr (ih ht)

/-- Bytes of a list or an object: those of the brackets, of the commas and of the parts. -/
theorem ascii_bracket {texts : List Bytes} {l r : String} (hl : ∀ x ∈ utf8 l, isAscii x = true)
    (hr : ∀ x ∈ utf8 r, isAscii x = true) (h : ∀ t ∈ texts, ∀ x ∈ t, isAscii x = true) :
    ∀ x ∈ utf8 l ++ (utf8 ",").intercalate texts ++ utf8 r, isAscii x = true := by
  have hcomma : utf8 "," = [0x2C] := by decide
  intro x hx
  rw [hcomma] at hx
  rcases List.mem_append.mp hx with hx | hx
  · rcases List.mem_append.mp hx with hx | hx
    · exact hl x hx
    · rcases mem_intercalate hx with rfl | ⟨t, ht, hx⟩
      · decide
      · exact h t ht x hx
  · exact hr x hx

/-- The text of a value without floats is ASCII. -/
theorem ascii_text (j : Json) (hj : j.plain = true) : ∀ x ∈ j.text, isAscii x = true := by
  match j with
  | .null =>
    rw [Json.text]
    decide +kernel
  | .bool b =>
    rw [Json.text]
    cases b <;> decide +kernel
  | .int n =>
    rw [Json.text]
    exact ascii_int n
  | .float _ => simp [Json.plain] at hj
  | .str s =>
    rw [Json.text]
    exact ascii_quoted s
  | .arr items =>
    rw [Json.plain, Json.plainItems_iff] at hj
    rw [Json.text, Json.textItems_eq]
    refine ascii_bracket (by decide +kernel) (by decide +kernel) ?_
    intro t ht
    obtain ⟨item, hitem, rfl⟩ := List.mem_map.mp ht
    exact ascii_text item (hj item hitem)
  | .obj fields =>
    rw [Json.plain, Json.plainFields_iff] at hj
    rw [Json.text, Json.textFields_eq]
    refine ascii_bracket (by decide +kernel) (by decide +kernel) ?_
    intro t ht x hx
    obtain ⟨f, hf, rfl⟩ := List.mem_map.mp ht
    have hcolon : ∀ x ∈ utf8 ":", isAscii x = true := by decide +kernel
    rcases List.mem_append.mp hx with hx | hx
    · rcases List.mem_append.mp hx with hx | hx
      · exact ascii_quoted f.1 x hx
      · exact hcolon x hx
    · exact ascii_text f.2 (hj f hf).2 x hx
termination_by sizeOf j
decreasing_by
  · have := List.sizeOf_lt_of_mem hitem
    simp only [Json.arr.sizeOf_spec]
    omega
  · have := List.sizeOf_lt_of_mem hf
    obtain ⟨name, value⟩ := f
    simp only [Json.obj.sizeOf_spec, Prod.mk.sizeOf_spec] at this ⊢
    omega

/-! ## A text of the app that is ASCII is of a simple value -/

theorem simple_of_stringify {s : PyStr} (hs : WellPaired s = true)
    (h : ∀ x ∈ stringify s, isAscii x = true) : Simple s = true := by
  refine List.all_eq_true.mpr ?_
  intro c hc
  have hbytes : ∀ x ∈ stringifyChar c, isAscii x = true := by
    intro x hx
    exact h x (List.mem_append_left _ (List.mem_append_right _ (List.mem_flatMap.mpr ⟨c, hc, hx⟩)))
  have hlt := lt_of_wellPaired hs c hc
  by_contra hnot
  simp only [isSimple, decide_eq_true_eq, not_or, Bool.not_eq_true] at hnot
  obtain ⟨hhigh, hsurr⟩ := hnot
  have hvalid : Nat.isValidChar c := by
    simp only [isSurrogate, decide_eq_false_iff_not] at hsurr
    unfold Nat.isValidChar
    omega
  rw [stringifyChar, if_neg (by omega), if_neg (by omega), if_neg (by omega), if_neg (by omega),
    if_neg (by omega), if_neg (by omega), if_neg (by omega), if_neg (by simp [hsurr]; omega)] at hbytes
  have hle := utf8EncodeChar_ascii hbytes
  have hnat : (Char.ofNat c).toNat = c := by
    unfold Char.ofNat
    rw [dif_pos hvalid]
    rfl
  rw [hnat] at hle
  exact hhigh hle

theorem simple_of_ascii (j : Json) (hj : j.written = true)
    (h : ∀ x ∈ canonicalize j, isAscii x = true) : simpleValue j = true := by
  have hcomma : utf8 "," = [0x2C] := by decide
  match j with
  | .null | .bool _ | .int _ | .float _ => simp [simpleValue]
  | .str s =>
    rw [canonicalize] at h
    rw [simpleValue]
    exact simple_of_stringify (by simpa [Json.written] using hj) h
  | .arr items =>
    rw [Json.written, Json.writtenItems_iff] at hj
    rw [canonicalize, canonicalizeItems_eq, hcomma] at h
    rw [simpleValue, simpleItems_iff]
    intro item hitem
    refine simple_of_ascii item (hj item hitem) ?_
    intro x hx
    refine h x (List.mem_append_left _ (List.mem_append_right _ ?_))
    exact mem_intercalate_of_mem (List.mem_map_of_mem hitem) hx
  | .obj fields =>
    rw [Json.written, Json.writtenFields_iff] at hj
    rw [canonicalize, canonicalizeFields_eq, hcomma] at h
    rw [simpleValue, simpleFields_iff]
    intro f hf
    have htext : ∀ x ∈ stringify f.1 ++ utf8 ":" ++ canonicalize f.2, isAscii x = true := by
      intro x hx
      refine h x (List.mem_append_left _ (List.mem_append_right _ ?_))
      refine mem_intercalate_of_mem (List.mem_map.mpr ⟨(f.1, canonicalize f.2), ?_, rfl⟩) hx
      rw [List.mem_insertionSort]
      exact List.mem_map.mpr ⟨f, hf, rfl⟩
    refine ⟨simple_of_stringify (hj f hf).1 fun x hx => ?_,
      simple_of_ascii f.2 (hj f hf).2 fun x hx => ?_⟩
    · exact htext x (List.mem_append_left _ (List.mem_append_left _ hx))
    · exact htext x (List.mem_append_right _ hx)
termination_by sizeOf j
decreasing_by
  · have := List.sizeOf_lt_of_mem hitem
    simp only [Json.arr.sizeOf_spec]
    omega
  · have := List.sizeOf_lt_of_mem hf
    obtain ⟨name, value⟩ := f
    simp only [Json.obj.sizeOf_spec, Prod.mk.sizeOf_spec] at this ⊢
    omega

end Frontend
end ElGamalVoting
