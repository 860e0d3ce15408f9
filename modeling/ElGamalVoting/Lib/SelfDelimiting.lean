import ElGamalVoting.Lib.Bytes

/- Self-delimiting byte codes: whatever follows a code word, the word and the rest can be
   told apart. Such codes compose, so a value made of lists and tuples has one. -/
namespace Lib
variable {α β : Type}

def SelfDelimiting (code : α → Bytes) : Prop :=
  ∀ a b x y, code a ++ x = code b ++ y → a = b ∧ x = y

theorem SelfDelimiting.injective {code : α → Bytes} (h : SelfDelimiting code) {a b : α}
    (heq : code a = code b) : a = b :=
  (h a b [] [] (by rw [heq])).1

/-- A number in unary. -/
def unaryCode (n : Nat) : Bytes := List.replicate n 1 ++ [0]

theorem unaryCode_selfDelimiting : SelfDelimiting unaryCode := by
  intro a b x y h
  induction a generalizing b with
  | zero =>
    cases b with
    | zero => exact ⟨rfl, List.cons.inj h |>.2⟩
    | succ b => exact absurd (List.cons.inj h).1 (by decide)
  | succ a ih =>
    cases b with
    | zero => exact absurd (List.cons.inj h).1 (by decide)
    | succ b =>
      obtain ⟨rfl, hxy⟩ := ih b (List.cons.inj h).2
      exact ⟨rfl, hxy⟩

/-- The words of a list, each announced, and an end mark. -/
def listCode (code : α → Bytes) : List α → Bytes
  | [] => [0]
  | a :: as => 1 :: (code a ++ listCode code as)

theorem listCode_selfDelimiting {code : α → Bytes} (h : SelfDelimiting code) :
    SelfDelimiting (listCode code) := by
  intro as bs x y heq
  induction as generalizing bs with
  | nil =>
    cases bs with
    | nil => exact ⟨rfl, List.cons.inj heq |>.2⟩
    | cons b bs => exact absurd (List.cons.inj heq).1 (by decide)
  | cons a as ih =>
    cases bs with
    | nil => exact absurd (List.cons.inj heq).1 (by decide)
    | cons b bs =>
      have hrest : code a ++ (listCode code as ++ x) = code b ++ (listCode code bs ++ y) := by
        simpa [listCode] using heq
      obtain ⟨rfl, htail⟩ := h a b _ _ hrest
      obtain ⟨rfl, hxy⟩ := ih bs htail
      exact ⟨rfl, hxy⟩

def pairCode (code : α → Bytes) (code' : β → Bytes) (p : α × β) : Bytes := code p.1 ++ code' p.2

theorem pairCode_selfDelimiting {code : α → Bytes} {code' : β → Bytes} (h : SelfDelimiting code)
    (h' : SelfDelimiting code') : SelfDelimiting (pairCode code code') := by
  intro p q x y heq
  rw [pairCode, pairCode, List.append_assoc, List.append_assoc] at heq
  obtain ⟨h1, heq⟩ := h _ _ _ _ heq
  obtain ⟨h2, hxy⟩ := h' _ _ _ _ heq
  exact ⟨Prod.ext h1 h2, hxy⟩

/-- A byte is its own word. -/
def byteCode (x : UInt8) : Bytes := [x]

theorem byteCode_selfDelimiting : SelfDelimiting byteCode := by
  intro a b x y h
  exact ⟨(List.cons.inj h).1, (List.cons.inj h).2⟩

/-- The words of a list run together, where no word is empty: a list that ended earlier would
    leave bytes over. -/
theorem SelfDelimiting.flatMap_inj {code : α → Bytes} (h : SelfDelimiting code) (hne : ∀ a, code a ≠ [])
    {as bs : List α} (heq : as.flatMap code = bs.flatMap code) : as = bs := by
  induction as generalizing bs with
  | nil =>
    cases bs with
    | nil => rfl
    | cons b bs =>
      rw [List.flatMap_nil, List.flatMap_cons] at heq
      exact absurd (List.append_eq_nil_iff.mp heq.symm).1 (hne b)
  | cons a as ih =>
    cases bs with
    | nil =>
      rw [List.flatMap_nil, List.flatMap_cons] at heq
      exact absurd (List.append_eq_nil_iff.mp heq).1 (hne a)
    | cons b bs =>
      rw [List.flatMap_cons, List.flatMap_cons] at heq
      obtain ⟨rfl, htail⟩ := h a b _ _ heq
      rw [ih htail]

/-- As many strings of one size are read back from their concatenation. -/
theorem flatten_inj {k : Nat} {xs ys : List Bytes} (hxs : ∀ x ∈ xs, x.length = k)
    (hys : ∀ y ∈ ys, y.length = k) (hcount : xs.length = ys.length) (h : xs.flatten = ys.flatten) :
    xs = ys := by
  have hsizes (l : List Bytes) (hl : ∀ x ∈ l, x.length = k) :
      l.map List.length = List.replicate l.length k := by
    rw [List.eq_replicate_iff, List.length_map]
    refine ⟨rfl, ?_⟩
    intro n hn
    obtain ⟨b, hb, rfl⟩ := List.mem_map.mp hn
    exact hl b hb
  rw [List.eq_iff_flatten_eq, hsizes xs hxs, hsizes ys hys, hcount]
  exact ⟨h, rfl⟩

end Lib
