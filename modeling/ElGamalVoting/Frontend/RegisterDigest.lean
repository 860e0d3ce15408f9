import ElGamalVoting.Core.WriteAuth
import ElGamalVoting.Envelopes.ConfigInversion
import ElGamalVoting.Frontend.AdminSign
import ElGamalVoting.Frontend.Canonicalize

/- The digest of a registration: the one the admin app signs over the config object it sends
   (`registerDigest(lowercaseHex(config))` of `frontend/apps/admin/src/adminSign.ts`) against
   the one the server recomputes from the config it decoded (`register_digest` of
   `core/authz.py`).

   The app writes the object as it is, but for the case of what starts with `0x`; the server
   writes the decoded config. The two agree exactly on the objects that are already in the form
   the server writes (`CanonicalObject`). -/
namespace ElGamalVoting
open Lib

namespace Frontend

/-! The app. -/

def asciiLower (c : Nat) : Nat := if 0x41 ≤ c ∧ c ≤ 0x5A then c + 32 else c

/-- What is used of `toLowerCase`: on ASCII it is the ASCII one, lone surrogates stay, and the
    result is a string again. -/
structure LowerCase (lower : PyStr → PyStr) : Prop where
  simple : ∀ s, Simple s = true → lower s = s.map asciiLower
  paired : ∀ s, WellPaired s = true → WellPaired (lower s) = true

section
variable (lower : PyStr → PyStr)

def lowerText (s : PyStr) : PyStr := if s.take 2 = pyStr "0x" then lower s else s

mutual
def lowercaseHex : Json → Json
  | .str s => .str (lowerText lower s)
  | .arr items => .arr (lowercaseItems items)
  | .obj fields => .obj (lowercaseFields fields)
  | value => value

def lowercaseItems : List Json → List Json
  | [] => []
  | item :: items => lowercaseHex item :: lowercaseItems items

def lowercaseFields : List (PyStr × Json) → List (PyStr × Json)
  | [] => []
  | field :: fields => lowercaseField field :: lowercaseFields fields

def lowercaseField : PyStr × Json → PyStr × Json
  | (name, value) => (name, lowercaseHex value)
end

end

def registerDigest (E : EthLib) (config : Json) : Bytes := E.keccak (canonicalize config)

mutual
/-- The JSON of an object of the app: integers are in the safe range and no name stands twice. -/
def ofApp : Json → Bool
  | .int n => -(2 ^ 53 - 1) ≤ n ∧ n ≤ 2 ^ 53 - 1
  | .arr items => ofAppItems items
  | .obj fields => decide (fields.map Prod.fst).Nodup && ofAppFields fields
  | _ => true

def ofAppItems : List Json → Bool
  | [] => true
  | item :: items => ofApp item && ofAppItems items

def ofAppFields : List (PyStr × Json) → Bool
  | [] => true
  | field :: fields => ofAppField field && ofAppFields fields

def ofAppField : PyStr × Json → Bool
  | (_, value) => ofApp value
end

section
variable {lower : PyStr → PyStr}

theorem lowercaseItems_eq (items : List Json) :
    lowercaseItems lower items = items.map (lowercaseHex lower) := by
  induction items with
  | nil => simp [lowercaseItems]
  | cons item items ih => simp [lowercaseItems, ih]

theorem lowercaseFields_eq (fields : List (PyStr × Json)) :
    lowercaseFields lower fields = fields.map fun f => (f.1, lowercaseHex lower f.2) := by
  induction fields with
  | nil => simp [lowercaseFields]
  | cons f fields ih =>
    obtain ⟨name, value⟩ := f
    simp [lowercaseFields, lowercaseField, ih]

theorem written_lowercaseHex (hlower : LowerCase lower) (j : Json) (hj : j.written = true) :
    (lowercaseHex lower j).written = true := by
  match j with
  | .null | .bool _ | .int _ => simp [lowercaseHex, Json.written]
  | .float _ => simpa [lowercaseHex] using hj
  | .str s =>
    simp only [lowercaseHex, Json.written, lowerText] at hj ⊢
    split
    · exact hlower.paired s hj
    · exact hj
  | .arr items =>
    rw [Json.written, Json.writtenItems_iff] at hj
    rw [lowercaseHex, Json.written, lowercaseItems_eq, Json.writtenItems_iff]
    intro item hitem
    obtain ⟨item', hitem', rfl⟩ := List.mem_map.mp hitem
    exact written_lowercaseHex hlower item' (hj item' hitem')
  | .obj fields =>
    rw [Json.written, Json.writtenFields_iff] at hj
    rw [lowercaseHex, Json.written, lowercaseFields_eq, Json.writtenFields_iff]
    intro f hf
    obtain ⟨f', hf', rfl⟩ := List.mem_map.mp hf
    exact ⟨(hj f' hf').1, written_lowercaseHex hlower f'.2 (hj f' hf').2⟩
termination_by sizeOf j
decreasing_by
  · have := List.sizeOf_lt_of_mem hitem'
    simp only [Json.arr.sizeOf_spec]
    omega
  · have := List.sizeOf_lt_of_mem hf'
    obtain ⟨name, value⟩ := f'
    simp only [Json.obj.sizeOf_spec, Prod.mk.sizeOf_spec] at this ⊢
    omega

end

/-! ## Objects up to the order of their fields -/

theorem keyLe_total (a b : PyStr) : keyLe a b = true ∨ keyLe b a = true := by
  induction a generalizing b with
  | nil => exact Or.inl rfl
  | cons x a ih =>
    cases b with
    | nil => exact Or.inr rfl
    | cons y b =>
      simp only [keyLe, Bool.or_eq_true, Bool.and_eq_true, decide_eq_true_eq, beq_iff_eq]
      rcases Nat.lt_trichotomy x y with h | rfl | h
      · exact Or.inl (Or.inl h)
      · rcases ih b with h | h
        · exact Or.inl (Or.inr ⟨rfl, h⟩)
        · exact Or.inr (Or.inr ⟨rfl, h⟩)
      · exact Or.inr (Or.inl h)

theorem keyLe_trans {a b c : PyStr} (hab : keyLe a b = true) (hbc : keyLe b c = true) :
    keyLe a c = true := by
  induction a generalizing b c with
  | nil => rfl
  | cons x a ih =>
    cases b with
    | nil => cases hab
    | cons y b =>
      cases c with
      | nil => cases hbc
      | cons z c =>
        simp only [keyLe, Bool.or_eq_true, Bool.and_eq_true, decide_eq_true_eq, beq_iff_eq] at hab hbc ⊢
        rcases hab with hxy | ⟨rfl, hab⟩
        · rcases hbc with hyz | ⟨rfl, -⟩
          · exact Or.inl (Nat.lt_trans hxy hyz)
          · exact Or.inl hxy
        · rcases hbc with hyz | ⟨rfl, hbc⟩
          · exact Or.inl hyz
          · exact Or.inr ⟨rfl, ih hab hbc⟩

theorem keyLe_antisymm {a b : PyStr} (hab : keyLe a b = true) (hba : keyLe b a = true) : a = b := by
  induction a generalizing b with
  | nil =>
    cases b with
    | nil => rfl
    | cons y b => cases hba
  | cons x a ih =>
    cases b with
    | nil => cases hab
    | cons y b =>
      simp only [keyLe, Bool.or_eq_true, Bool.and_eq_true, decide_eq_true_eq, beq_iff_eq] at hab hba
      rcases hab with hxy | ⟨rfl, hab⟩
      · rcases hba with hyx | ⟨rfl, -⟩ <;> omega
      · rcases hba with hyx | ⟨-, hba⟩
        · omega
        · rw [ih hab hba]

section
variable {fields fields' : List (PyStr × Json)}

theorem value_unique (hnodup : (fields.map Prod.fst).Nodup) {name : PyStr} {v w : Json}
    (hv : (name, v) ∈ fields) (hw : (name, w) ∈ fields) : v = w :=
  congrArg Prod.snd (List.inj_on_of_nodup_map hnodup hv hw rfl)

/-- Fields in another order sort alike. -/
theorem insertionSort_perm (hnodup : (fields'.map Prod.fst).Nodup) (h : fields.Perm fields') :
    (fields.insertionSort fun a b => keyLe a.1 b.1) = fields'.insertionSort fun a b => keyLe a.1 b.1 := by
  have htotal : Std.Total fun a b : PyStr × Json => keyLe a.1 b.1 = true :=
    ⟨fun a b => keyLe_total a.1 b.1⟩
  have htrans : IsTrans (PyStr × Json) fun a b => keyLe a.1 b.1 = true :=
    ⟨fun _ _ _ hab hbc => keyLe_trans hab hbc⟩
  refine List.Perm.eq_of_pairwise ?_ (List.pairwise_insertionSort _ fields)
    (List.pairwise_insertionSort _ fields') ?_
  · intro a b ha hb hab hba
    rw [List.mem_insertionSort] at ha hb
    obtain ⟨name, v⟩ := a
    obtain ⟨name', w⟩ := b
    obtain rfl : name = name' := keyLe_antisymm hab hba
    rw [value_unique hnodup (h.mem_iff.mp ha) hb]
  · exact (List.perm_insertionSort _ fields).trans (h.trans (List.perm_insertionSort _ fields').symm)

theorem canonFields_map (fields : List (PyStr × Json)) :
    Json.canonFields fields = fields.map fun f => (f.1, f.2.canon) := by
  induction fields with
  | nil => simp [Json.canonFields]
  | cons f fields ih =>
    obtain ⟨name, value⟩ := f
    simp [Json.canonFields, Json.canonField, ih]

theorem nodup_canonFields (h : (fields.map Prod.fst).Nodup) :
    ((Json.canonFields fields).map Prod.fst).Nodup := by
  rw [canonFields_map, List.map_map]
  exact h

/-- Objects are the same up to order where they have the same names with the same values. -/
theorem canon_obj_eq_iff (hnodup : (fields.map Prod.fst).Nodup) (hnodup' : (fields'.map Prod.fst).Nodup) :
    (Json.obj fields).canon = (Json.obj fields').canon ↔
      (∀ name, name ∈ fields.map Prod.fst ↔ name ∈ fields'.map Prod.fst) ∧
      ∀ name v w, (name, v) ∈ fields → (name, w) ∈ fields' → v.canon = w.canon := by
  rw [Json.canon, Json.canon, Json.obj.injEq]
  constructor
  · intro h
    have hperm : (Json.canonFields fields).Perm (Json.canonFields fields') := by
      have hsorted := List.perm_insertionSort (fun a b => keyLe a.1 b.1 = true) (Json.canonFields fields)
      rw [h] at hsorted
      exact hsorted.symm.trans (List.perm_insertionSort _ _)
    have hnames := hperm.map Prod.fst
    simp only [canonFields_map, List.map_map] at hnames
    refine ⟨fun name => hnames.mem_iff, ?_⟩
    intro name v w hv hw
    have hmem : (name, v.canon) ∈ Json.canonFields fields' := by
      refine hperm.mem_iff.mp ?_
      rw [canonFields_map]
      exact List.mem_map.mpr ⟨(name, v), hv, rfl⟩
    have hmem' : (name, w.canon) ∈ Json.canonFields fields' := by
      rw [canonFields_map]
      exact List.mem_map.mpr ⟨(name, w), hw, rfl⟩
    exact value_unique (nodup_canonFields hnodup') hmem hmem'
  · rintro ⟨hnames, hvalues⟩
    refine insertionSort_perm (nodup_canonFields hnodup') ?_
    refine (List.perm_ext_iff_of_nodup (List.Nodup.of_map _ (nodup_canonFields hnodup))
      (List.Nodup.of_map _ (nodup_canonFields hnodup'))).mpr ?_
    rintro ⟨name, u⟩
    rw [canonFields_map, canonFields_map, List.mem_map, List.mem_map]
    constructor
    · rintro ⟨⟨_, v⟩, hv, hu⟩
      cases hu
      obtain ⟨⟨_, w⟩, hw, rfl⟩ := List.mem_map.mp ((hnames _).mp (List.mem_map.mpr ⟨_, hv, rfl⟩))
      exact ⟨_, hw, by rw [hvalues _ v w hv hw]⟩
    · rintro ⟨⟨_, w⟩, hw, hu⟩
      cases hu
      obtain ⟨⟨_, v⟩, hv, rfl⟩ := List.mem_map.mp ((hnames _).mpr (List.mem_map.mpr ⟨_, hw, rfl⟩))
      exact ⟨_, hv, by rw [hvalues _ v w hv hw]⟩

end

/-! ## Where the two texts are the same -/

theorem canonItems_eq_map (items : List Json) : Json.canonItems items = items.map Json.canon := by
  induction items with
  | nil => simp [Json.canonItems]
  | cons item items ih => simp [Json.canonItems, ih]

theorem written_canon (j : Json) (hj : j.written = true) : j.canon.written = true := by
  match j with
  | .null | .bool _ | .int _ | .float _ | .str _ => simpa [Json.canon] using hj
  | .arr items =>
    rw [Json.written, Json.writtenItems_iff] at hj
    rw [Json.canon, Json.written, canonItems_eq_map, Json.writtenItems_iff]
    intro item hitem
    obtain ⟨item', hitem', rfl⟩ := List.mem_map.mp hitem
    exact written_canon item' (hj item' hitem')
  | .obj fields =>
    rw [Json.written, Json.writtenFields_iff] at hj
    rw [Json.canon, Json.written, canonFields_map, Json.writtenFields_iff]
    intro f hf
    rw [List.mem_insertionSort] at hf
    obtain ⟨f', hf', rfl⟩ := List.mem_map.mp hf
    exact ⟨(hj f' hf').1, written_canon f'.2 (hj f' hf').2⟩
termination_by sizeOf j
decreasing_by
  · have := List.sizeOf_lt_of_mem hitem'
    simp only [Json.arr.sizeOf_spec]
    omega
  · have := List.sizeOf_lt_of_mem hf'
    obtain ⟨name, value⟩ := f'
    simp only [Json.obj.sizeOf_spec, Prod.mk.sizeOf_spec] at this ⊢
    omega

section
variable {lower : PyStr → PyStr}

/-- The app writes a value as the server writes another. -/
def Agrees (lower : PyStr → PyStr) (v w : Json) : Prop :=
  (lowercaseHex lower v).canon = w.canon ∧ simpleValue (lowercaseHex lower v) = true

theorem texts_agree_iff (hlower : LowerCase lower) {v w : Json} (hv : v.written = true)
    (hw : w.canon.plain = true) : canonicalize (lowercaseHex lower v) = w.dumps ↔ Agrees lower v w := by
  have hwritten := written_lowercaseHex hlower v hv
  constructor
  · intro h
    have hsimple : simpleValue (lowercaseHex lower v) = true := by
      refine simple_of_ascii _ hwritten ?_
      rw [h, Json.dumps_eq]
      exact ascii_text _ hw
    rw [canonicalize_eq_dumps _ hsimple] at h
    exact ⟨Json.dumps_injective (written_canon _ hwritten) hw h, hsimple⟩
  · rintro ⟨hcanon, hsimple⟩
    rw [canonicalize_eq_dumps _ hsimple, Json.dumps_eq, Json.dumps_eq, hcanon]

theorem agrees_obj_iff {fields fields' : List (PyStr × Json)} (hnodup : (fields.map Prod.fst).Nodup)
    (hnodup' : (fields'.map Prod.fst).Nodup) (hsimple : ∀ f ∈ fields', Simple f.1 = true) :
    Agrees lower (.obj fields) (.obj fields') ↔
      (∀ name, name ∈ fields.map Prod.fst ↔ name ∈ fields'.map Prod.fst) ∧
      ∀ f ∈ fields', ∀ v, (f.1, v) ∈ fields → Agrees lower v f.2 := by
  have hnames : (lowercaseFields lower fields).map Prod.fst = fields.map Prod.fst := by
    rw [lowercaseFields_eq, List.map_map]
    rfl
  have hmem : ∀ name v, (name, v) ∈ fields → (name, lowercaseHex lower v) ∈ lowercaseFields lower fields := by
    intro name v hv
    rw [lowercaseFields_eq]
    exact List.mem_map.mpr ⟨(name, v), hv, rfl⟩
  rw [Agrees, lowercaseHex, canon_obj_eq_iff (hnames ▸ hnodup) hnodup', hnames, simpleValue, simpleFields_iff]
  constructor
  · rintro ⟨⟨hsame, hvalues⟩, hall⟩
    refine ⟨hsame, ?_⟩
    rintro ⟨name, w⟩ hw v hv
    exact ⟨hvalues name _ w (hmem name v hv) hw, (hall _ (hmem name v hv)).2⟩
  · rintro ⟨hsame, hvalues⟩
    refine ⟨⟨hsame, ?_⟩, ?_⟩
    · intro name u w hu hw
      rw [lowercaseFields_eq] at hu
      obtain ⟨⟨_, v⟩, hv, hu⟩ := List.mem_map.mp hu
      cases hu
      exact (hvalues _ hw v hv).1
    · intro f hf
      rw [lowercaseFields_eq] at hf
      obtain ⟨⟨name, v⟩, hv, rfl⟩ := List.mem_map.mp hf
      obtain ⟨⟨_, w⟩, hw, rfl⟩ := List.mem_map.mp ((hsame name).mp (List.mem_map.mpr ⟨_, hv, rfl⟩))
      exact ⟨hsimple (_, w) hw, (hvalues _ hw v hv).2⟩

theorem agrees_arr_iff {items items' : List Json} :
    Agrees lower (.arr items) (.arr items') ↔ List.Forall₂ (Agrees lower) items items' := by
  rw [Agrees, lowercaseHex, Json.canon, Json.canon, simpleValue, lowercaseItems_eq, canonItems_eq_map,
    canonItems_eq_map, simpleItems_iff, Json.arr.injEq]
  induction items generalizing items' with
  | nil =>
    cases items' with
    | nil => simp
    | cons => simp
  | cons v items ih =>
    cases items' with
    | nil => simp
    | cons w items' =>
      rw [List.forall₂_cons, ← ih, Agrees]
      simp only [List.map_cons, List.cons.injEq, List.forall_mem_cons]
      tauto

/-! ## The fields of a configuration -/

theorem agrees_int (n : Int) : Agrees lower (.int n) (.int n) := ⟨rfl, rfl⟩

theorem agrees_bool_iff {v : Json} {b : Bool} (hb : truthy v = b) :
    Agrees lower v (.bool b) ↔ ∃ b, v = .bool b := by
  constructor
  · rintro ⟨h, -⟩
    cases v with
    | bool b => exact ⟨b, rfl⟩
    | _ => simp [lowercaseHex, Json.canon] at h
  · rintro ⟨b', rfl⟩
    cases hb
    exact ⟨rfl, rfl⟩

theorem agrees_str_iff {s t : PyStr} :
    Agrees lower (.str s) (.str t) ↔ lowerText lower s = t ∧ Simple t = true := by
  have hcanon : ∀ u : PyStr, (Json.str u).canon = .str u := fun u => by simp [Json.canon]
  rw [Agrees, lowercaseHex, hcanon, hcanon, simpleValue, Json.str.injEq]
  constructor
  · rintro ⟨rfl, h⟩
    exact ⟨rfl, h⟩
  · rintro ⟨rfl, h⟩
    exact ⟨rfl, h⟩

/-- A name of an enumeration is not taken for hexadecimal digits. -/
theorem agrees_word {s : String} (hs : (pyStr s).take 2 ≠ pyStr "0x") (hsimple : Simple (pyStr s) = true) :
    Agrees lower (.str (pyStr s)) (.str (pyStr s)) := by
  rw [agrees_str_iff, lowerText, if_neg hs]
  exact ⟨rfl, hsimple⟩

/-! Hexadecimal fields. -/

theorem hexValue_lower {c n : Nat} (h : hexValue c = some n) :
    c ≤ 0x7E ∧ n < 16 ∧ asciiLower c = (hexDigit n).toNat := by
  have hlow : c < 0x7F := by
    unfold hexValue at h
    split at h
    · omega
    split at h
    · omega
    split at h
    · omega
    · cases h
  have hall : ∀ c < 0x7F, ∀ n ∈ hexValue c, n < 16 ∧ asciiLower c = (hexDigit n).toNat := by
    decide +kernel
  exact ⟨by omega, hall c hlow n h⟩

theorem asciiSpace_le {c : Nat} (h : isAsciiSpace c = true) : c ≤ 0x7E := by
  simp only [isAsciiSpace, Bool.or_eq_true, beq_iff_eq, Bool.and_eq_true, decide_eq_true_eq] at h
  omega

theorem isSimple_of_le {c : Nat} (h : c ≤ 0x7E) : isSimple c = true := by
  simp [isSimple, h]

theorem fromHex_simple {body : PyStr} {raw : Bytes} (h : Lib.fromHex body = some raw) : Simple body = true := by
  fun_induction Lib.fromHex body generalizing raw with
  | case1 => rfl
  | case2 c hspace => simp [Simple, isSimple_of_le (asciiSpace_le hspace)]
  | case3 c hspace => cases h
  | case4 c d rest hspace ih =>
    have hrest := ih h
    simp only [Simple, List.all_cons] at hrest ⊢
    simp [isSimple_of_le (asciiSpace_le hspace), hrest]
  | case5 c d rest hspace ih =>
    obtain ⟨hi, hhi, h⟩ := Option.bind_eq_some_iff.mp h
    obtain ⟨lo, hlo, h⟩ := Option.bind_eq_some_iff.mp h
    obtain ⟨tail, htail, -⟩ := Option.bind_eq_some_iff.mp h
    have hrest := ih htail
    simp only [Simple, List.all_cons] at hrest ⊢
    simp [isSimple_of_le (hexValue_lower hhi).1, isSimple_of_le (hexValue_lower hlo).1, hrest]

theorem fromHex_lower {body : PyStr} {raw : Bytes} (h : Lib.fromHex body = some raw)
    (hspace : ∀ c ∈ body, isAsciiSpace c = false) : body.map asciiLower = pyStr (hex raw) := by
  fun_induction Lib.fromHex body generalizing raw with
  | case1 =>
    cases h
    rfl
  | case2 c hc => simp [hspace c List.mem_cons_self] at hc
  | case3 c hc => cases h
  | case4 c d rest hc ih => simp [hspace c List.mem_cons_self] at hc
  | case5 c d rest hc ih =>
    obtain ⟨hi, hhi, h⟩ := Option.bind_eq_some_iff.mp h
    obtain ⟨lo, hlo, h⟩ := Option.bind_eq_some_iff.mp h
    obtain ⟨tail, htail, h⟩ := Option.bind_eq_some_iff.mp h
    cases h
    obtain ⟨-, hhi16, hc⟩ := hexValue_lower hhi
    obtain ⟨-, hlo16, hd⟩ := hexValue_lower hlo
    have hrest := ih htail fun e he => hspace e (List.mem_cons_of_mem _ (List.mem_cons_of_mem _ he))
    have hbyte : (UInt8.ofNat (16 * hi + lo)).toNat = 16 * hi + lo := by
      rw [UInt8.toNat_ofNat']
      omega
    rw [List.map_cons, List.map_cons, hrest, hc, hd, pyStr, pyStr, hex, hex, String.toList_ofList,
      String.toList_ofList, List.flatMap_cons, hbyte,
      show (16 * hi + lo) / 16 = hi by omega, show (16 * hi + lo) % 16 = lo by omega]
    rfl

theorem mem_hex {c : Nat} {raw : Bytes} (hc : c ∈ pyStr (hex raw)) :
    ∃ n, n < 16 ∧ c = (hexDigit n).toNat := by
  rw [pyStr, hex, String.toList_ofList] at hc
  obtain ⟨ch, hch, rfl⟩ := List.mem_map.mp hc
  obtain ⟨x, -, hch⟩ := List.mem_flatMap.mp hch
  have hx := x.toNat_lt
  simp only [List.mem_cons, List.not_mem_nil, or_false] at hch
  rcases hch with rfl | rfl
  · exact ⟨_, by omega, rfl⟩
  · exact ⟨_, by omega, rfl⟩

theorem simple_hex (raw : Bytes) : Simple (pyStr (hex raw)) = true := by
  have hdigit : ∀ n : Fin 16, isSimple (hexDigit n).toNat = true := by decide
  refine List.all_eq_true.mpr ?_
  intro c hc
  obtain ⟨n, hn, rfl⟩ := mem_hex hc
  exact hdigit ⟨n, hn⟩

theorem isAsciiSpace_lower {c : Nat} (h : isAsciiSpace c = true) : isAsciiSpace (asciiLower c) = true := by
  have hle := asciiSpace_le h
  have hall : ∀ c < 0x7F, isAsciiSpace c = true → isAsciiSpace (asciiLower c) = true := by decide +kernel
  exact hall c (by omega) h

/-- A hexadecimal field is written as the server writes its bytes unless it has white space. -/
theorem agrees_hex_iff (hlower : LowerCase lower) {s : PyStr} {raw : Bytes}
    (h : HexOf s raw) : Agrees lower (.str s) (encBytes raw) ↔ ∀ c ∈ s, isAsciiSpace c = false := by
  obtain ⟨htag, hbody⟩ := h
  have hsplit : s = pyStr "0x" ++ s.drop 2 := by rw [← htag, List.take_append_drop]
  have hsimple : Simple s = true := by
    have htail := fromHex_simple hbody
    rw [hsplit]
    simp only [Simple, List.all_append, Bool.and_eq_true] at htail ⊢
    exact ⟨by decide, htail⟩
  have hlowered : lowerText lower s = pyStr "0x" ++ (s.drop 2).map asciiLower := by
    rw [lowerText, if_pos htag, hlower.simple s hsimple]
    conv_lhs => rw [hsplit]
    rw [List.map_append]
    rfl
  have htagSpace : ∀ c ∈ pyStr "0x", isAsciiSpace c = false := by decide
  rw [encBytes, agrees_str_iff, hlowered, List.append_cancel_left_eq]
  constructor
  · rintro ⟨hdigits, -⟩ c hc
    rw [hsplit] at hc
    rcases List.mem_append.mp hc with hc | hc
    · exact htagSpace c hc
    · by_contra hspace
      have hmem : asciiLower c ∈ pyStr (hex raw) := hdigits ▸ List.mem_map_of_mem hc
      obtain ⟨n, hn, hdigit⟩ := mem_hex hmem
      have hlow := isAsciiSpace_lower (by simpa using hspace : isAsciiSpace c = true)
      rw [hdigit, not_isAsciiSpace_hexDigit hn] at hlow
      cases hlow
  · intro hspace
    have hdigits := fromHex_lower hbody fun c hc => hspace c (List.mem_of_mem_drop hc)
    have hdigitsSimple := simple_hex raw
    refine ⟨hdigits, ?_⟩
    simp only [Simple, List.all_append, Bool.and_eq_true] at hdigitsSimple ⊢
    exact ⟨by decide, hdigitsSimple⟩

/-! Texts. -/

/-- A text that both sides write alike: it is simple, and where it looks like hexadecimal digits
    it has no capital letter. -/
def SameText (s : PyStr) : Prop :=
  Simple s = true ∧ (s.take 2 = pyStr "0x" → ∀ c ∈ s, ¬ (0x41 ≤ c ∧ c ≤ 0x5A))

theorem map_asciiLower_eq_iff {s : PyStr} :
    s.map asciiLower = s ↔ ∀ c ∈ s, ¬ (0x41 ≤ c ∧ c ≤ 0x5A) := by
  have hchar : ∀ c, asciiLower c = c ↔ ¬ (0x41 ≤ c ∧ c ≤ 0x5A) := by
    intro c
    rw [asciiLower]
    split <;> omega
  rw [← List.map_id s, List.map_map, List.map_inj_left]
  simp only [Function.comp_apply, id_eq, hchar, List.map_id]

theorem agrees_text_iff (hlower : LowerCase lower) {s : PyStr} :
    Agrees lower (.str s) (.str s) ↔ SameText s := by
  rw [agrees_str_iff, SameText, and_comm]
  refine and_congr_right ?_
  intro hsimple
  rw [lowerText]
  split
  case isTrue htag => 
    rw [hlower.simple s hsimple, map_asciiLower_eq_iff]
    exact ⟨fun h _ => h, fun h => h htag⟩
  case isFalse htag => simp [htag]

/-! The fee. -/

theorem dropWhile_reverse_cons {p : Nat → Bool} {a : Nat} (ha : p a = false) (l : PyStr) :
    ((a :: l).reverse.dropWhile p).reverse = a :: (l.reverse.dropWhile p).reverse := by
  rw [List.reverse_cons, List.dropWhile_append]
  split
  case isTrue hempty =>
    rw [List.isEmpty_iff.mp hempty]
    simp [ha]
  case isFalse => rw [List.reverse_append, List.reverse_singleton, List.singleton_append]

/-- Hexadecimal digits are not a decimal number. -/
theorem intOfStr_hex {s : PyStr} (h : s.take 2 = pyStr "0x") : intOfStr s = none := by
  obtain ⟨t, rfl⟩ : ∃ t, s = 0x30 :: 0x78 :: t := by
    refine ⟨s.drop 2, ?_⟩
    conv_lhs => rw [← List.take_append_drop 2 s, h]
    rfl
  have hstrip : stripBy isIntSpace (0x30 :: 0x78 :: t) =
      0x30 :: 0x78 :: (t.reverse.dropWhile isIntSpace).reverse := by
    have hleft : (0x30 :: 0x78 :: t).dropWhile isIntSpace = 0x30 :: 0x78 :: t := rfl
    rw [stripBy, hleft, dropWhile_reverse_cons (by decide), dropWhile_reverse_cons (by decide)]
  have hx : digitValue 0x78 = none := by decide
  have hmore : ∀ rest : PyStr, moreDigits 0 (0x78 :: rest) = none := by
    intro rest
    cases rest with
    | nil => rw [moreDigits, hx, Option.map_none]
    | cons d rest => rw [moreDigits, if_neg (by decide), hx, Option.bind_none]
  have hzero : digitValue 0x30 = some 0 := by decide
  rw [intOfStr, hstrip]
  show (digits (0x30 :: 0x78 :: _)).map Int.ofNat = none
  rw [digits, hzero, Option.bind_some, hmore, Option.map_none]

/-- The text of a number is that of the fee read from it. -/
theorem fee_text {conv : PyConversions} {fields : List (PyStr × Json)} {n m : Nat}
    (hfee : decFee conv (.obj fields) = .ok (n : Int))
    (hv : Json.lookup fields "selfSubmitFee" = some (.str (pyStr (toString m)))) : m = n := by
  have hget : getOr (.obj fields) "selfSubmitFee" (.int 0) = .str (pyStr (toString m)) := by
    rw [getOr, hv]
    rfl
  have hne : pyStr (toString m) ≠ [] := by
    intro hnil
    have hvalue := intOfStr_toString m
    rw [hnil] at hvalue
    cases hvalue
  have htruthy : truthy (.str (pyStr (toString m))) = true := by simpa [truthy] using hne
  simp only [decFee, hget, htruthy, if_true, intOf, intOfStr_toString, Except.ok.injEq] at hfee
  exact_mod_cast hfee

theorem agrees_fee_iff {conv : PyConversions} {fields : List (PyStr × Json)} {n : Nat} {v : Json}
    (hfee : decFee conv (.obj fields) = .ok (n : Int)) (hv : Json.lookup fields "selfSubmitFee" = some v) :
    Agrees lower v (.str (pyStr (toString n))) ↔ v = .str (pyStr (toString n)) := by
  have hsimple : Simple (pyStr (toString n)) = true := by
    refine List.all_eq_true.mpr ?_
    intro c hc
    obtain ⟨ch, hch, rfl⟩ := List.mem_map.mp hc
    have htext : (toString n).toList = Nat.toDigits 10 n := Nat.toList_repr
    rw [htext] at hch
    have := isDigit_bounds (Nat.isDigit_of_mem_toDigits (by decide) (by decide) hch)
    exact isSimple_of_le (by omega)
  -- what is accepted does not start as hexadecimal digits do
  have hnot : ∀ s, v = .str s → s.take 2 ≠ pyStr "0x" := by
    rintro s rfl htag
    have hne : s ≠ [] := by
      rintro rfl
      cases htag
    have hget : getOr (.obj fields) "selfSubmitFee" (.int 0) = .str s := by
      rw [getOr, hv]
      rfl
    have htruthy : truthy (.str s) = true := by simpa [truthy] using hne
    simp only [decFee, hget, htruthy, if_true, intOf, intOfStr_hex htag] at hfee
    cases hfee
  constructor
  · intro h
    cases v with
    | str s =>
      rw [agrees_str_iff, lowerText, if_neg (hnot s rfl)] at h
      rw [h.1]
    | _ => simp [Agrees, lowercaseHex, Json.canon] at h
  · rintro rfl
    rw [agrees_str_iff, lowerText, if_neg (hnot _ rfl)]
    exact ⟨rfl, hsimple⟩

end

/-! ## The objects that both sides write alike -/

/-- The object has these fields and no other. -/
def HasNames (fields : List (PyStr × Json)) (names : List PyStr) : Prop :=
  ∀ name, name ∈ fields.map Prod.fst ↔ name ∈ names

def NoSpace (s : PyStr) : Prop := ∀ c ∈ s, isAsciiSpace c = false

/-- A committee member in the form the server writes. -/
def CanonicalKeyper : Json → Prop
  | .obj fields => HasNames fields [pyStr "signingKey", pyStr "url"] ∧
    (∀ s, Json.lookup fields "signingKey" = some (.str s) → NoSpace s) ∧
    ∀ s, Json.lookup fields "url" = some (.str s) → SameText s
  | _ => False

/-- The fields of an object in the form the server writes: all of them and no other, with no
    white space among hexadecimal digits, a truth value for `weighted`, the decimal text of the
    fee, and texts that need no escape and no lower case. -/
structure CanonicalFields (fields : List (PyStr × Json)) : Prop where
  names : HasNames fields configNames
  hex : ∀ name ∈ ["electionId", "eligibilityKey", "resultPublisherKey", "adminKey"], ∀ s,
    Json.lookup fields name = some (.str s) → NoSpace s
  threshold : ∀ th, Json.lookup fields "threshold" = some (.obj th) →
    HasNames th [pyStr "t", pyStr "n"]
  keypers : ∀ items, Json.lookup fields "keypers" = some (.arr items) → ∀ k ∈ items, CanonicalKeyper k
  gatewayKeys : ∀ items, Json.lookup fields "gatewayKeys" = some (.arr items) → ∀ s, .str s ∈ items →
    NoSpace s
  weighted : ∃ b, Json.lookup fields "weighted" = some (.bool b)
  protocolVersion : ∀ s, Json.lookup fields "protocolVersion" = some (.str s) → SameText s
  selfSubmitFee : ∃ n : Nat, Json.lookup fields "selfSubmitFee" = some (.str (pyStr (toString n)))

def CanonicalObject : Json → Prop
  | .obj fields => CanonicalFields fields
  | _ => False

/-- The urls and the protocol version of an object are texts. -/
def TypedTexts : Json → Prop
  | .obj fields => (∃ s, Json.lookup fields "protocolVersion" = some (.str s)) ∧
    ∀ items, Json.lookup fields "keypers" = some (.arr items) → ∀ k ∈ items, ∀ kf, k = .obj kf →
      ∃ s, Json.lookup kf "url" = some (.str s)
  | _ => True

section
variable {lower : PyStr → PyStr} {conv : PyConversions} {fields : List (PyStr × Json)} {c : ElectionConfig}

/-- An object is written as one with the given names. -/
theorem agrees_fields_iff {fields' : List (PyStr × Json)} (names : List PyStr)
    (hnodup : (fields.map Prod.fst).Nodup) (hnames : fields'.map Prod.fst = names)
    (hnodup' : names.Nodup) (hsimple : ∀ name ∈ names, Simple name = true) :
    Agrees lower (.obj fields) (.obj fields') ↔
      HasNames fields names ∧ ∀ f ∈ fields', ∀ v, (f.1, v) ∈ fields → Agrees lower v f.2 := by
  subst hnames
  exact agrees_obj_iff hnodup hnodup' fun f hf => hsimple f.1 (List.mem_map_of_mem hf)

theorem mem_of_lookup {key : String} {v : Json} (h : Json.lookup fields key = some v) :
    (pyStr key, v) ∈ fields := by
  obtain ⟨f, hf, rfl⟩ := Option.map_eq_some_iff.mp h
  have hname := List.find?_some hf
  have hmem := List.mem_of_find?_eq_some hf
  rw [beq_iff_eq] at hname
  rw [List.mem_reverse] at hmem
  rwa [← hname]

theorem lookup_of_mem (hnodup : (fields.map Prod.fst).Nodup) {key : String} {v : Json}
    (h : (pyStr key, v) ∈ fields) : Json.lookup fields key = some v := by
  cases hlook : Json.lookup fields key with
  | none =>
    rw [Json.lookup, Option.map_eq_none_iff, List.find?_eq_none] at hlook
    exact absurd (beq_self_eq_true (pyStr key)) (hlook _ (List.mem_reverse.mpr h))
  | some w => rw [value_unique hnodup (mem_of_lookup hlook) h]

theorem ofAppFields_iff : ofAppFields fields = true ↔ ∀ f ∈ fields, ofApp f.2 = true := by
  induction fields with
  | nil => simp [ofAppFields]
  | cons f fields ih =>
    obtain ⟨name, value⟩ := f
    simp [ofAppFields, ofAppField, ih]

theorem ofAppItems_iff {items : List Json} :
    ofAppItems items = true ↔ ∀ item ∈ items, ofApp item = true := by
  induction items with
  | nil => simp [ofAppItems]
  | cons item items ih => simp [ofAppItems, ih]

theorem ofApp_obj (h : ofApp (.obj fields) = true) :
    (fields.map Prod.fst).Nodup ∧ ∀ key v, Json.lookup fields key = some v → ofApp v = true := by
  rw [ofApp, Bool.and_eq_true, decide_eq_true_eq, ofAppFields_iff] at h
  exact ⟨h.1, fun key v hv => h.2 _ (mem_of_lookup hv)⟩

/-- A committee member is written alike exactly where it is in the form of the server. -/
theorem agrees_keyper_iff (hlower : LowerCase lower) {value : Json} {k : KeyperIdentity}
    (happ : ofApp value = true) (hread : KeyperRead conv value k)
    (htext : ∀ kf, value = .obj kf → ∃ s, Json.lookup kf "url" = some (.str s)) :
    Agrees lower value (encKeyper k) ↔ CanonicalKeyper value := by
  obtain ⟨kf, url, rfl, ⟨s, hs, hhex⟩, hurl, hstr⟩ := hread.object
  obtain ⟨u, hu⟩ := htext kf rfl
  rw [hurl, Option.some.injEq] at hu
  subst hu
  have hnodup := (ofApp_obj happ).1
  have hkeyUrl : u = k.url := hstr
  have hnames : ([pyStr "signingKey", pyStr "url"] : List PyStr).Nodup := by decide
  have hsimple : ∀ name ∈ ([pyStr "signingKey", pyStr "url"] : List PyStr), Simple name = true := by decide
  rw [encKeyper, agrees_fields_iff [pyStr "signingKey", pyStr "url"] hnodup rfl hnames hsimple]
  refine and_congr_right ?_
  intro _
  constructor
  · intro h
    refine ⟨?_, ?_⟩
    · intro s' hs'
      rw [hs, Option.some.injEq, Json.str.injEq] at hs'
      subst hs'
      exact (agrees_hex_iff hlower hhex).mp (h _ List.mem_cons_self _ (mem_of_lookup hs))
    · intro u' hu'
      rw [hurl, Option.some.injEq, Json.str.injEq] at hu'
      subst hu'
      refine (agrees_text_iff hlower).mp ?_
      have hagree := h _ (List.mem_cons_of_mem _ List.mem_cons_self) _ (mem_of_lookup hurl)
      rwa [← hkeyUrl] at hagree
  · rintro ⟨hkey, hu⟩ f hf v hv
    simp only [List.mem_cons, List.not_mem_nil, or_false] at hf
    rcases hf with rfl | rfl
    · cases (lookup_of_mem hnodup hv).symm.trans hs
      exact (agrees_hex_iff hlower hhex).mpr (hkey s hs)
    · cases (lookup_of_mem hnodup hv).symm.trans hurl
      rw [← hkeyUrl]
      exact (agrees_text_iff hlower).mpr (hu u hurl)

theorem agrees_keypers_iff (hlower : LowerCase lower) {items : List Json} {ks : List KeyperIdentity}
    (happ : ∀ item ∈ items, ofApp item = true) (hread : List.Forall₂ (KeyperRead conv) items ks)
    (htext : ∀ k ∈ items, ∀ kf, k = .obj kf → ∃ s, Json.lookup kf "url" = some (.str s)) :
    Agrees lower (.arr items) (.arr (ks.map encKeyper)) ↔ ∀ k ∈ items, CanonicalKeyper k := by
  rw [agrees_arr_iff]
  induction hread with
  | nil => simp
  | @cons item k items ks hhead _ ih =>
    rw [List.map_cons, List.forall₂_cons, List.forall_mem_cons,
      agrees_keyper_iff hlower (happ item List.mem_cons_self) hhead (htext item List.mem_cons_self),
      ih (fun i hi => happ i (List.mem_cons_of_mem item hi))
        (fun i hi => htext i (List.mem_cons_of_mem item hi))]

theorem agrees_gateways_iff (hlower : LowerCase lower) {items : List Json} {keys : List Bytes}
    (hread : List.Forall₂ (fun v g => ∃ s, v = Json.str s ∧ HexOf s g) items keys) :
    Agrees lower (.arr items) (.arr (keys.map encBytes)) ↔ ∀ s, .str s ∈ items → NoSpace s := by
  rw [agrees_arr_iff]
  induction hread with
  | nil => simp
  | @cons item key items keys hhead _ ih =>
    obtain ⟨s, rfl, hs⟩ := hhead
    rw [List.map_cons, List.forall₂_cons, agrees_hex_iff hlower hs, ih]
    constructor
    · rintro ⟨hfirst, hrest⟩ t ht
      rcases List.mem_cons.mp ht with ht | ht
      · cases ht
        exact hfirst
      · exact hrest t ht
    · intro h
      exact ⟨h s List.mem_cons_self, fun t ht => h t (List.mem_cons_of_mem _ ht)⟩

theorem agrees_threshold_iff {th : List (PyStr × Json)} {t n : Nat} (happ : ofApp (.obj th) = true)
    (ht : Json.lookup th "t" = some (.int t)) (hn : Json.lookup th "n" = some (.int n)) :
    Agrees lower (.obj th) (.obj [(pyStr "t", .int t), (pyStr "n", .int n)]) ↔
      HasNames th [pyStr "t", pyStr "n"] := by
  have hnodup := (ofApp_obj happ).1
  rw [agrees_fields_iff [pyStr "t", pyStr "n"] hnodup rfl (by decide) (by decide), and_iff_left]
  intro f hf v hv
  simp only [List.mem_cons, List.not_mem_nil, or_false] at hf
  rcases hf with rfl | rfl
  · cases (lookup_of_mem hnodup hv).symm.trans ht
    exact agrees_int _
  · cases (lookup_of_mem hnodup hv).symm.trans hn
    exact agrees_int _

/-- The server reads the texts of an object as they are. -/
theorem paired_texts (hwritten : (Json.obj fields).written = true) (hread : ConfigRead conv fields c)
    (htyped : TypedTexts (.obj fields)) : ∀ s ∈ c.texts, WellPaired s = true := by
  have hvalue : ∀ {fs : List (PyStr × Json)} {key : String} {v : Json}, (Json.obj fs).written = true →
      Json.lookup fs key = some v → v.written = true := by
    intro fs key v hfs hv
    rw [Json.written, Json.writtenFields_iff] at hfs
    exact (hfs _ (mem_of_lookup hv)).2
  intro s hs
  rw [ElectionConfig.texts] at hs
  rcases List.mem_cons.mp hs with rfl | hs
  · obtain ⟨version, hversion⟩ := htyped.1
    obtain ⟨v, hv, hstr⟩ := hread.protocolVersion
    cases hv.symm.trans hversion
    have hpaired := hvalue hwritten hversion
    rw [Json.written] at hpaired
    rwa [← hstr]
  · obtain ⟨k, hk, rfl⟩ := List.mem_map.mp hs
    obtain ⟨items, hitems, hmembers⟩ := hread.keypers
    obtain ⟨item, hitem, hkeyper⟩ := forall₂_exists_left hmembers hk
    obtain ⟨kf, url, rfl, -, hurl, hstr⟩ := hkeyper.object
    obtain ⟨u, hu⟩ := htyped.2 items hitems _ hitem kf rfl
    cases hurl.symm.trans hu
    have hitemsWritten := hvalue hwritten hitems
    rw [Json.written, Json.writtenItems_iff] at hitemsWritten
    have hpaired := hvalue (hitemsWritten _ hitem) hu
    rw [Json.written] at hpaired
    rwa [← hstr]

/-! The whole object, field by field. -/

/-- What stands under a key is written as the server writes `value`. -/
def AgreesAt (lower : PyStr → PyStr) (fields : List (PyStr × Json)) (key : String) (value : Json) : Prop :=
  ∀ v, (pyStr key, v) ∈ fields → Agrees lower v value

theorem agreesAt_iff (hnodup : (fields.map Prod.fst).Nodup) {key : String} {v value : Json}
    (hv : Json.lookup fields key = some v) :
    AgreesAt lower fields key value ↔ Agrees lower v value := by
  constructor
  · intro h
    exact h v (mem_of_lookup hv)
  · intro h v' hv'
    cases (lookup_of_mem hnodup hv').symm.trans hv
    exact h

theorem agreesAt_hex_iff (hlower : LowerCase lower) (hnodup : (fields.map Prod.fst).Nodup)
    {key : String} {raw : Bytes} (hread : ∃ s, Json.lookup fields key = some (.str s) ∧ HexOf s raw) :
    AgreesAt lower fields key (encBytes raw) ↔
      ∀ s, Json.lookup fields key = some (.str s) → NoSpace s := by
  obtain ⟨s, hs, hhex⟩ := hread
  rw [agreesAt_iff hnodup hs, agrees_hex_iff hlower hhex]
  constructor
  · intro h t ht
    cases hs.symm.trans ht
    exact h
  · intro h
    exact h s hs

theorem agreesAt_threshold_iff (happ : ofApp (.obj fields) = true) (hread : ConfigRead conv fields c) :
    AgreesAt lower fields "threshold" (.obj [(pyStr "t", .int c.threshold.t), (pyStr "n", .int c.threshold.n)]) ↔
      ∀ th, Json.lookup fields "threshold" = some (.obj th) → HasNames th [pyStr "t", pyStr "n"] := by
  obtain ⟨hnodup, hvalues⟩ := ofApp_obj happ
  obtain ⟨th, hth, ht, hn⟩ := hread.threshold
  rw [agreesAt_iff hnodup hth, agrees_threshold_iff (hvalues _ _ hth) ht hn]
  constructor
  · intro h th' hth'
    cases hth.symm.trans hth'
    exact h
  · intro h
    exact h th hth

theorem agreesAt_keypers_iff (hlower : LowerCase lower) (happ : ofApp (.obj fields) = true)
    (hread : ConfigRead conv fields c) (htyped : TypedTexts (.obj fields)) :
    AgreesAt lower fields "keypers" (.arr (c.keypers.map encKeyper)) ↔
      ∀ items, Json.lookup fields "keypers" = some (.arr items) → ∀ k ∈ items, CanonicalKeyper k := by
  obtain ⟨hnodup, hvalues⟩ := ofApp_obj happ
  obtain ⟨keypers, hkeypers, hmembers⟩ := hread.keypers
  have hkeypersApp := hvalues _ _ hkeypers
  rw [ofApp, ofAppItems_iff] at hkeypersApp
  rw [agreesAt_iff hnodup hkeypers,
    agrees_keypers_iff hlower hkeypersApp hmembers (htyped.2 keypers hkeypers)]
  constructor
  · intro h items hitems
    cases hkeypers.symm.trans hitems
    exact h
  · intro h
    exact h keypers hkeypers

theorem agreesAt_gateways_iff (hlower : LowerCase lower) (hnodup : (fields.map Prod.fst).Nodup)
    (hread : ConfigRead conv fields c) :
    AgreesAt lower fields "gatewayKeys" (.arr (c.gatewayKeys.map encBytes)) ↔
      ∀ items, Json.lookup fields "gatewayKeys" = some (.arr items) → ∀ s, .str s ∈ items → NoSpace s := by
  obtain ⟨gateways, hgateways, hkeys⟩ := hread.gatewayKeys
  rw [agreesAt_iff hnodup hgateways, agrees_gateways_iff hlower hkeys]
  constructor
  · intro h items hitems
    cases hgateways.symm.trans hitems
    exact h
  · intro h
    exact h gateways hgateways

theorem agreesAt_weighted_iff (hnodup : (fields.map Prod.fst).Nodup) (hread : ConfigRead conv fields c) :
    AgreesAt lower fields "weighted" (.bool c.weighted) ↔
      ∃ b, Json.lookup fields "weighted" = some (.bool b) := by
  obtain ⟨w, hweighted, htruthy⟩ := hread.weighted
  rw [agreesAt_iff hnodup hweighted, agrees_bool_iff htruthy, hweighted]
  simp only [Option.some.injEq]

theorem agreesAt_version_iff (hlower : LowerCase lower) (hnodup : (fields.map Prod.fst).Nodup)
    (hread : ConfigRead conv fields c) (htyped : TypedTexts (.obj fields)) :
    AgreesAt lower fields "protocolVersion" (.str c.protocolVersion) ↔
      ∀ s, Json.lookup fields "protocolVersion" = some (.str s) → SameText s := by
  obtain ⟨version, hversion⟩ := htyped.1
  obtain ⟨v, hv, hstr⟩ := hread.protocolVersion
  cases hv.symm.trans hversion
  have htext : version = c.protocolVersion := hstr
  rw [← htext, agreesAt_iff hnodup hversion, agrees_text_iff hlower]
  constructor
  · intro h s hs
    cases hversion.symm.trans hs
    exact h
  · intro h
    exact h version hversion

/-- The fee is there, as every name is. -/
theorem agreesAt_fee_iff (hnodup : (fields.map Prod.fst).Nodup) (hread : ConfigRead conv fields c)
    (hnames : HasNames fields configNames) :
    AgreesAt lower fields "selfSubmitFee" (.str (pyStr (toString c.selfSubmitFeeWei))) ↔
      ∃ n : Nat, Json.lookup fields "selfSubmitFee" = some (.str (pyStr (toString n))) := by
  obtain ⟨⟨name, fee⟩, hmem, hname⟩ := List.mem_map.mp
    ((hnames (pyStr "selfSubmitFee")).mpr (List.mem_of_getElem? (i := 17) rfl))
  replace hname : name = pyStr "selfSubmitFee" := hname
  subst hname
  have hfee := lookup_of_mem hnodup hmem
  rw [agreesAt_iff hnodup hfee, agrees_fee_iff hread.selfSubmitFee hfee]
  constructor
  · rintro rfl
    exact ⟨_, hfee⟩
  · rintro ⟨n, hn⟩
    cases hfee.symm.trans hn
    rw [fee_text hread.selfSubmitFee hfee]

/-- The numbers and the words of the policies are always written alike, so only the other
    fields count. -/
theorem agrees_fields_of_read (hnodup : (fields.map Prod.fst).Nodup) (hread : ConfigRead conv fields c) :
    Agrees lower (.obj fields) (encConfig c) ↔
      HasNames fields configNames ∧ AgreesAt lower fields "electionId" (encBytes c.electionId) ∧
      AgreesAt lower fields "weighted" (.bool c.weighted) ∧
      AgreesAt lower fields "threshold"
        (.obj [(pyStr "t", .int c.threshold.t), (pyStr "n", .int c.threshold.n)]) ∧
      AgreesAt lower fields "keypers" (.arr (c.keypers.map encKeyper)) ∧
      AgreesAt lower fields "eligibilityKey" (encBytes c.eligibilityKey) ∧
      AgreesAt lower fields "resultPublisherKey" (encBytes c.resultPublisherKey) ∧
      AgreesAt lower fields "gatewayKeys" (.arr (c.gatewayKeys.map encBytes)) ∧
      AgreesAt lower fields "adminKey" (encBytes c.adminKey) ∧
      AgreesAt lower fields "protocolVersion" (.str c.protocolVersion) ∧
      AgreesAt lower fields "selfSubmitFee" (.str (pyStr (toString c.selfSubmitFeeWei))) := by
  rw [encConfig, agrees_fields_iff configNames hnodup rfl (by decide +kernel) (by decide +kernel)]
  refine and_congr_right ?_
  intro _
  have hint : ∀ {key : String} {n : Int}, Json.lookup fields key = some (.int n) →
      AgreesAt lower fields key (.int n) := by
    intro key n hv
    exact (agreesAt_iff hnodup hv).mpr (agrees_int n)
  have hword : ∀ {key s : String}, Json.lookup fields key = some (.str (pyStr s)) →
      (pyStr s).take 2 ≠ pyStr "0x" → Simple (pyStr s) = true →
      AgreesAt lower fields key (.str (pyStr s)) := by
    intro key s hv hs hsimple
    exact (agreesAt_iff hnodup hv).mpr (agrees_word hs hsimple)
  have hmode : AgreesAt lower fields "mode" (.str (pyStr c.mode.value)) :=
    hword hread.mode (by cases c.mode <;> decide) (by cases c.mode <;> decide)
  have hvariant : AgreesAt lower fields "variant" (.str (pyStr c.variant.value)) :=
    hword hread.variant (by cases c.variant <;> decide) (by cases c.variant <;> decide)
  have hpolicy : AgreesAt lower fields "duplicatePolicy" (.str (pyStr c.duplicatePolicy.value)) :=
    hword hread.duplicatePolicy (by cases c.duplicatePolicy <;> decide)
      (by cases c.duplicatePolicy <;> decide)
  -- the scale alone may be absent, and is then nothing to compare
  have hscale : AgreesAt lower fields "scale" (.int c.scale) := by
    intro v hv
    have hscale := hread.scale
    rw [lookup_of_mem hnodup hv, Option.getD_some] at hscale
    subst hscale
    exact agrees_int _
  simp only [List.forall_mem_cons]
  constructor
  · rintro ⟨hid, -, -, -, -, hweighted, -, -, -, -, hth, hkeypers, heligibility, hpublisher, hgateways,
      hadmin, hversion, hfee, -⟩
    exact ⟨hid, hweighted, hth, hkeypers, heligibility, hpublisher, hgateways, hadmin, hversion, hfee⟩
  · rintro ⟨hid, hweighted, hth, hkeypers, heligibility, hpublisher, hgateways, hadmin, hversion, hfee⟩
    exact ⟨hid, hint hread.numCandidates, hint hread.budget, hmode, hvariant, hweighted, hscale, hpolicy,
      hint hread.votingStart, hint hread.votingEnd, hth, hkeypers, heligibility, hpublisher, hgateways,
      hadmin, hversion, hfee, by simp⟩

theorem agrees_config_iff (hlower : LowerCase lower) (happ : ofApp (.obj fields) = true)
    (hread : ConfigRead conv fields c) (htyped : TypedTexts (.obj fields)) :
    Agrees lower (.obj fields) (encConfig c) ↔ CanonicalFields fields := by
  have hnodup := (ofApp_obj happ).1
  -- field by field; the fee last, for it needs that all names are there
  rw [agrees_fields_of_read hnodup hread, agreesAt_hex_iff hlower hnodup hread.electionId,
    agreesAt_weighted_iff hnodup hread, agreesAt_threshold_iff happ hread,
    agreesAt_keypers_iff hlower happ hread htyped, agreesAt_hex_iff hlower hnodup hread.eligibilityKey,
    agreesAt_hex_iff hlower hnodup hread.resultPublisherKey, agreesAt_gateways_iff hlower hnodup hread,
    agreesAt_hex_iff hlower hnodup hread.adminKey, agreesAt_version_iff hlower hnodup hread htyped]
  constructor
  · rintro ⟨hnames, hid, hweighted, hth, hkeypers, heligibility, hpublisher, hgateways, hadmin, hversion,
      hfee⟩
    refine ⟨hnames, ?_, hth, hkeypers, hgateways, hweighted, hversion,
      (agreesAt_fee_iff hnodup hread hnames).mp hfee⟩
    intro name hname
    simp only [List.mem_cons, List.not_mem_nil, or_false] at hname
    rcases hname with rfl | rfl | rfl | rfl
    · exact hid
    · exact heligibility
    · exact hpublisher
    · exact hadmin
  · intro h
    exact ⟨h.names, h.hex _ (by decide), h.weighted, h.threshold, h.keypers, h.hex _ (by decide),
      h.hex _ (by decide), h.gatewayKeys, h.hex _ (by decide), h.protocolVersion,
      (agreesAt_fee_iff hnodup hread h.names).mpr h.selfSubmitFee⟩

/-- The digest the app signs is the one the server recomputes exactly for the objects in the
    form the server writes. -/
theorem register_digests_agree_iff {E : EthLib} (hlower : LowerCase lower) {d : Json}
    (hdec : decConfig conv d = .ok c) (happ : ofApp d = true) (hwritten : d.written = true)
    (htyped : TypedTexts d)
    (hhash : NoCollision E (canonicalize (lowercaseHex lower d)) (encConfig c).dumps) :
    registerDigest E (lowercaseHex lower d) = ElGamalVoting.registerDigest E c ↔ CanonicalObject d := by
  obtain ⟨fields, rfl, hread⟩ := decConfig_reads hdec
  have hplain := plain_encConfig (paired_texts hwritten hread htyped)
  have htexts : registerDigest E (lowercaseHex lower (.obj fields)) = ElGamalVoting.registerDigest E c ↔
      canonicalize (lowercaseHex lower (.obj fields)) = (encConfig c).dumps := by
    constructor
    · exact hhash
    · intro h
      rw [registerDigest, ElGamalVoting.registerDigest, h]
  rw [htexts, texts_agree_iff hlower hwritten hplain, agrees_config_iff hlower happ hread htyped]
  rfl

end

/-! ## Two registrations -/

namespace RegisterSample

/-- `toLowerCase` on ASCII texts. -/
def lowerAscii (s : PyStr) : PyStr := s.map asciiLower

theorem lowerAscii_lowerCase : LowerCase lowerAscii := by
  have hchar : ∀ c, (c < 0x110000 → asciiLower c < 0x110000) ∧ isHigh (asciiLower c) = isHigh c ∧
      isLow (asciiLower c) = isLow c := by
    intro c
    rw [asciiLower]
    split
    · refine ⟨by omega, ?_, ?_⟩
      · simp only [isHigh, decide_eq_decide]
        omega
      · simp only [isLow, decide_eq_decide]
        omega
    · exact ⟨id, rfl, rfl⟩
  refine ⟨fun _ _ => rfl, ?_⟩
  intro s hs
  induction s with
  | nil => rfl
  | cons c s ih =>
    obtain ⟨hlt, hpair, htail⟩ := wellPaired_cons hs
    obtain ⟨hlt', hhigh, -⟩ := hchar c
    have hhead : (lowerAscii s).head?.any isLow = s.head?.any isLow := by
      cases s with
      | nil => rfl
      | cons d s => exact (hchar d).2.2
    have htail' := ih htail
    simp only [lowerAscii, List.map_cons, WellPaired, decide_eq_true_eq] at htail' ⊢
    refine ⟨hlt' hlt, ?_, htail'⟩
    rintro ⟨hc, hlow⟩
    rw [hhigh] at hc
    have hlow' : (lowerAscii s).head?.any isLow = true := hlow
    rw [hhead, hpair hc] at hlow'
    cases hlow'

/-- The object of a configuration with one field given by its text. -/
def withText (c : ElectionConfig) (name text : PyStr) : Json :=
  match encConfig c with
  | .obj fields => .obj (fields.map fun f => if f.1 = name then (f.1, .str text) else f)
  | value => value

def conversions : PyConversions := ⟨fun _ => [], fun _ => .ok 0⟩

/-- A wallet gives the address of the admin in mixed case. -/
def checksummed : ElectionConfig := { smallConfig with adminKey := [0xAB, 0xCD] }
def checksummedObject : Json := withText checksummed (pyStr "adminKey") (pyStr "0xaBCd")

/-- A protocol version with an accent. -/
def accented : ElectionConfig := { smallConfig with protocolVersion := [0x76, 0xE9] }

theorem typed_of_lookup {fields : List (PyStr × Json)} (ks : List KeyperIdentity) {s : PyStr}
    (hversion : Json.lookup fields "protocolVersion" = some (.str s))
    (hkeypers : Json.lookup fields "keypers" = some (.arr (ks.map encKeyper))) :
    TypedTexts (.obj fields) := by
  refine ⟨⟨s, hversion⟩, ?_⟩
  intro items hitems k hk kf hkf
  cases hkeypers.symm.trans hitems
  obtain ⟨keyper, -, rfl⟩ := List.mem_map.mp hk
  cases hkf
  exact ⟨keyper.url, rfl⟩

/-- The address in mixed case is signed as the server writes it. -/
theorem checksummed_agrees :
    (decConfig conversions checksummedObject = .ok checksummed ∧ ofApp checksummedObject = true ∧
      checksummedObject.written = true ∧ TypedTexts checksummedObject) ∧
    CanonicalObject checksummedObject ∧
    registerDigest plainEth (lowercaseHex lowerAscii checksummedObject) =
      ElGamalVoting.registerDigest plainEth checksummed := by
  have htyped : TypedTexts checksummedObject :=
    typed_of_lookup smallConfig.keypers (s := []) rfl rfl
  obtain ⟨hdec, happ, hwritten, hsame⟩ : decConfig conversions checksummedObject = .ok checksummed ∧
      ofApp checksummedObject = true ∧ checksummedObject.written = true ∧
      registerDigest plainEth (lowercaseHex lowerAscii checksummedObject) =
        ElGamalVoting.registerDigest plainEth checksummed := by decide +kernel
  have hiff := register_digests_agree_iff (E := plainEth) lowerAscii_lowerCase hdec happ hwritten htyped
    fun h => h
  exact ⟨⟨hdec, happ, hwritten, htyped⟩, hiff.mp hsame, hsame⟩

/-- A protocol version with an accent is signed over another digest than the server verifies. -/
theorem accented_disagrees :
    decConfig conversions (encConfig accented) = .ok accented ∧ ofApp (encConfig accented) = true ∧
    (encConfig accented).written = true ∧ TypedTexts (encConfig accented) ∧
    registerDigest plainEth (lowercaseHex lowerAscii (encConfig accented)) ≠
      ElGamalVoting.registerDigest plainEth accented := by
  have htyped : TypedTexts (encConfig accented) :=
    typed_of_lookup smallConfig.keypers (s := [0x76, 0xE9]) rfl rfl
  obtain ⟨happ, hwritten, hne⟩ : ofApp (encConfig accented) = true ∧ (encConfig accented).written = true ∧
      registerDigest plainEth (lowercaseHex lowerAscii (encConfig accented)) ≠
        ElGamalVoting.registerDigest plainEth accented := by decide +kernel
  exact ⟨decConfig_encConfig _ (by decide), happ, hwritten, htyped, hne⟩

end RegisterSample

end Frontend
end ElGamalVoting
