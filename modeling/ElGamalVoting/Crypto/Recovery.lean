import ElGamalVoting.Crypto.Dkg

/- Threshold combination and discrete-log recovery (`crypto/recovery.py`).

   `lagrangeCoefficient` works on Python integers: it skips the ids equal to the
   node itself, and `pow(den, -1, q)` raises when the denominator is not
   invertible, that is when two different ids are congruent modulo the order.
   The baby-step table is a dictionary from point encodings to exponents.

   `combineShares_recover`: over distinct nodes below the order, at least the
   threshold of them, the combination is the secret's multiple.
   `babyStepGiantStepWithTable_iff`: below the order, the search returns the one
   exponent within the bound, and nothing when there is none. -/
namespace ElGamalVoting
open Lib

/-- Python's `pow(den, -1, q)` for the prime curve order, by Fermat. -/
def invMod (den : Int) : Py Int :=
  if den % curveOrder = 0 then .error (.valueError "base is not invertible for the given modulus")
  else .ok (powMod curveOrder 256 (den % curveOrder).toNat (curveOrder - 2) : Nat)

/-- `λ_j`, the product over the other ids of `(0 - k) / (j - k)`. -/
def lagrangeCoefficient (jId : Int) (allIds : List Int) : Py Int := do
  let (num, den) := allIds.foldl (fun (acc : Int × Int) kId =>
    if kId = jId then acc
    else (acc.1 * (0 - kId) % curveOrder, acc.2 * (jId - kId) % curveOrder)) (1, 1)
  let inv ← invMod den
  pure (num * inv % curveOrder)

section
variable {G₂ : Type} [AddCommGroup G₂]

/-- Lagrange-combine `(keyper_id, sigma_i)` pairs into `σ`. -/
def combineShares (shares : List (Int × G₂)) : Py G₂ :=
  let allIds := shares.map Prod.fst
  shares.foldlM (fun result s => do
    let lam ← lagrangeCoefficient s.1 allIds
    pure (result + mul s.2 lam)) 0

variable [DecidableEq G₂] (g : PointGroup g2Bytes G₂)

/-- The dictionary key of a point: one byte for the identity, its encoding else. -/
def pointKey (P : G₂) : Bytes := if P = 0 then [0x00] else g.toCompressed P

structure BabyStepTable (G₂ : Type) where
  maxVal : Int
  n : Nat
  negStep : G₂
  table : Dict Bytes Int

/-- The table after `k` turns of the loop, with the next point to enter. -/
def babySteps : Nat → Dict Bytes Int × G₂
  | 0 => (∅, 0)
  | k + 1 => ((babySteps k).1.set (pointKey g (babySteps k).2) k, (babySteps k).2 + g.gen)

def buildBabyStepTable (maxVal : Int) : BabyStepTable G₂ :=
  let n := if 0 < maxVal then maxVal.toNat.sqrt + 2 else 1
  { maxVal, n, negStep := -mul g.gen n, table := (babySteps g n).1 }

/-- The giant-step loop: turns left, index and point of the current turn. -/
def giantSteps (T : BabyStepTable G₂) : Nat → Int → G₂ → Option Int
  | 0, _, _ => none
  | turns + 1, i, gamma =>
    match T.table.get? (pointKey g gamma) with
    | some j =>
      if i * T.n + j ≤ T.maxVal then some (i * T.n + j)
      else giantSteps T turns (i + 1) (gamma + T.negStep)
    | none => giantSteps T turns (i + 1) (gamma + T.negStep)

def babyStepGiantStepWithTable (target : G₂) (T : BabyStepTable G₂) : Option Int :=
  if T.maxVal = 0 then (if target = 0 then some 0 else none)
  else if target = 0 then some 0
  else giantSteps g T (T.n + 1) 0 target

def babyStepGiantStep (target : G₂) (maxVal : Int) : Option Int :=
  if maxVal = 0 then (if target = 0 then some 0 else none)
  else if target = 0 then some 0
  else babyStepGiantStepWithTable g target (buildBabyStepTable g maxVal)

end

/-! ## Lagrange combination -/

theorem invMod_ok {den : Int} (h : (den : ZMod curveOrder) ≠ 0) :
    ∃ inv, invMod den = .ok inv ∧ (inv : ZMod curveOrder) = (den : ZMod curveOrder)⁻¹ := by
  have hmod : den % curveOrder ≠ 0 := by
    intro h0
    rw [← PointGroup.cast_emod, h0, Int.cast_zero] at h
    exact h rfl
  refine ⟨_, if_neg hmod, ?_⟩
  have hb := emod_curveOrder_bounds den
  have hcast : (((den % curveOrder).toNat : Nat) : ZMod curveOrder) = den := by
    rw [← Int.cast_natCast, Int.toNat_of_nonneg hb.1, PointGroup.cast_emod]
  have hndvd : ¬ curveOrder ∣ (den % curveOrder).toNat := by
    intro hd
    have := Nat.eq_zero_of_dvd_of_lt hd (by omega)
    omega
  have hone := mul_powMod_inv curveOrder_prime curveOrder_lt hndvd
  have hmul := congrArg (Nat.cast : Nat → ZMod curveOrder) hone
  rw [ZMod.natCast_mod, Nat.cast_mul, hcast, Nat.cast_one] at hmul
  rw [Int.cast_natCast]
  exact eq_inv_of_mul_eq_one_right hmul

/-- The loop's two accumulators are the products over the other ids. -/
theorem lagrange_loop (jId : Int) (allIds : List Int) (num den : Int) :
    let acc := allIds.foldl (fun (acc : Int × Int) kId =>
      if kId = jId then acc
      else (acc.1 * (0 - kId) % curveOrder, acc.2 * (jId - kId) % curveOrder)) (num, den)
    let others := allIds.filter (· ≠ jId)
    (acc.1 : ZMod curveOrder) = num * (others.map fun k : Int => (0 - k : ZMod curveOrder)).prod ∧
    (acc.2 : ZMod curveOrder) = den * (others.map fun k : Int => (jId - k : ZMod curveOrder)).prod := by
  induction allIds generalizing num den with
  | nil => simp
  | cons k ks ih =>
    by_cases hk : k = jId
    · simpa [hk] using ih num den
    · have := ih (num * (0 - k) % curveOrder) (den * (jId - k) % curveOrder)
      simp only [PointGroup.cast_emod] at this
      simpa [hk, mul_assoc] using this

/-- Ids that are pairwise distinct modulo the order, as integers. -/
def Separated (ids : List Int) : Prop :=
  ∀ j ∈ ids, ∀ k ∈ ids, (j : ZMod curveOrder) = k → j = k

theorem separated_of_bounds {ids : List Int} (h : ∀ i ∈ ids, 0 ≤ i ∧ i < curveOrder) :
    Separated ids := by
  intro j hj k hk heq
  have hmod := (ZMod.intCast_eq_intCast_iff _ _ _).mp heq
  have hj' := h j hj
  have hk' := h k hk
  rwa [Int.ModEq, Int.emod_eq_of_lt hj'.1 hj'.2, Int.emod_eq_of_lt hk'.1 hk'.2] at hmod

theorem lagrangeCoefficient_ok {ids : List Int} (hsep : Separated ids) {j : Int} (hj : j ∈ ids) :
    ∃ lam, lagrangeCoefficient j ids = .ok lam ∧
      (lam : ZMod curveOrder) = Shamir.lagrangeAtZero (ids.map (Int.cast : Int → ZMod curveOrder)) j := by
  obtain ⟨hnum, hden⟩ := lagrange_loop j ids 1 1
  simp only [Int.cast_one, one_mul] at hnum hden
  set acc := ids.foldl (fun (acc : Int × Int) kId =>
      if kId = j then acc
      else (acc.1 * (0 - kId) % curveOrder, acc.2 * (j - kId) % curveOrder)) (1, 1) with hacc
  have hne : (acc.2 : ZMod curveOrder) ≠ 0 := by
    rw [hden, ne_eq, List.prod_eq_zero_iff, List.mem_map]
    rintro ⟨k, hk, h0⟩
    rw [List.mem_filter] at hk
    have := hsep j hj k hk.1 (sub_eq_zero.mp h0)
    simp [this] at hk
  obtain ⟨inv, hinv, hcast⟩ := invMod_ok hne
  refine ⟨acc.1 * inv % curveOrder, ?_, ?_⟩
  · rw [lagrangeCoefficient, ← hacc]
    exact bind_eq_ok.mpr ⟨inv, hinv, rfl⟩
  · have hfilter : (ids.map (Int.cast : Int → ZMod curveOrder)).filter (· ≠ (j : ZMod curveOrder)) =
        (ids.filter (· ≠ j)).map Int.cast := by
      rw [List.filter_map]
      congr 1
      apply List.filter_congr
      intro k hk
      have : ((k : ZMod curveOrder) = j) ↔ k = j := ⟨fun h => hsep k hk j hj h, fun h => h ▸ rfl⟩
      simp [this]
    rw [PointGroup.cast_emod, Int.cast_mul, hcast, hnum, hden, Shamir.lagrangeAtZero, hfilter,
      List.map_map, List.prod_inv, List.map_map, ← List.prod_map_mul]
    congr 1

section
variable {G₂ : Type} [AddCommGroup G₂] (g : PointGroup g2Bytes G₂)

theorem combineShares_ok {shares : List (Int × G₂)} (hsep : Separated (shares.map Prod.fst)) :
    ∃ sigma, combineShares shares = .ok sigma ∧
      g.log sigma = (shares.map fun s =>
        Shamir.lagrangeAtZero ((shares.map Prod.fst).map (Int.cast : Int → ZMod curveOrder)) s.1
          * g.log s.2).sum := by
  have hloop (part : List (Int × G₂)) (hpart : ∀ s ∈ part, s ∈ shares) (acc : G₂) :
      ∃ sigma, part.foldlM (fun result (s : Int × G₂) => do
          let lam ← lagrangeCoefficient s.1 (shares.map Prod.fst)
          pure (result + mul s.2 lam) : G₂ → Int × G₂ → Py G₂) acc = .ok sigma ∧
        g.log sigma = g.log acc + (part.map fun s =>
          Shamir.lagrangeAtZero ((shares.map Prod.fst).map (Int.cast : Int → ZMod curveOrder)) s.1
            * g.log s.2).sum := by
    induction part generalizing acc with
    | nil => exact ⟨acc, rfl, by simp⟩
    | cons s part ih =>
      obtain ⟨lam, hlam, hcast⟩ := lagrangeCoefficient_ok hsep
        (List.mem_map.mpr ⟨s, hpart s List.mem_cons_self, rfl⟩)
      obtain ⟨sigma, hsigma, hlog⟩ := ih (fun s' hs' => hpart s' (List.mem_cons_of_mem s hs'))
        (acc + mul s.2 lam)
      refine ⟨sigma, ?_, ?_⟩
      · rw [List.foldlM_cons, hlam]
        exact hsigma
      · rw [hlog, g.log_add, g.log_mul, hcast, List.map_cons, List.sum_cons, add_assoc]
  obtain ⟨sigma, hsigma, hlog⟩ := hloop shares (fun s hs => hs) 0
  exact ⟨sigma, hsigma, by rw [hlog, g.log_zero, zero_add]⟩

/-- The combination of a sharing's partial decryptions over distinct nodes, at
    least the threshold of them, is the secret's multiple of `C1`. -/
theorem combineShares_recover {t : Nat} {msk : Int} {share : ZMod curveOrder → ZMod curveOrder}
    {nodes : Set (ZMod curveOrder)} (hs : Shamir.IsSharing t (msk : ZMod curveOrder) nodes share)
    {shares : List (Int × G₂)} (hsep : Separated (shares.map Prod.fst))
    (hn : (shares.map Prod.fst).Nodup) (ht : t ≤ shares.length) {C1 : G₂}
    (hmem : ∀ s ∈ shares, (s.1 : ZMod curveOrder) ∈ nodes ∧
      g.log s.2 = share (s.1 : ZMod curveOrder) * g.log C1) :
    combineShares shares = .ok (msk • C1) := by
  obtain ⟨sigma, hsigma, hlog⟩ := combineShares_ok g hsep
  set ids := (shares.map Prod.fst).map (Int.cast : Int → ZMod curveOrder) with hids
  have hnodup : ids.Nodup := (List.nodup_map_iff_inj_on hn).mpr fun j hj k hk => hsep j hj k hk
  have hlen : ids.length = shares.length := by simp [hids]
  have hrec := hs.recover hnodup (by omega) (by
    intro i hi
    simp only [hids, List.mem_map] at hi
    obtain ⟨_, ⟨s, hs, rfl⟩, rfl⟩ := hi
    exact (hmem s hs).1)
  have hsum : (shares.map fun s => Shamir.lagrangeAtZero ids (s.1 : ZMod curveOrder) * g.log s.2).sum
      = (ids.map fun j => Shamir.lagrangeAtZero ids j * share j).sum * g.log C1 := by
    rw [← List.sum_map_mul_right, hids, List.map_map, List.map_map]
    congr 1
    apply List.map_congr_left
    intro s hs
    simp only [Function.comp_apply, (hmem s hs).2]
    ring
  have : sigma = msk • C1 := by
    apply g.log_injective
    rw [hlog, hsum, hrec, g.log_zsmul]
  rw [hsigma, this]

end

/-! ## Baby-step giant-step -/

section
variable {G₂ : Type} [AddCommGroup G₂] [DecidableEq G₂] (g : PointGroup g2Bytes G₂)

theorem pointKey_inj {P Q : G₂} (h : pointKey g P = pointKey g Q) : P = Q := by
  have hlen (R : G₂) : g.toCompressed R ≠ [0x00] := by
    intro hR
    have := congrArg List.length hR
    rw [g.length_toCompressed] at this
    exact absurd this (by decide)
  rw [pointKey, pointKey] at h
  split at h <;> split at h
  · rename_i hP hQ
    rw [hP, hQ]
  · exact absurd h.symm (hlen Q)
  · exact absurd h (hlen P)
  · exact g.toCompressed_inj h

omit [DecidableEq G₂] in
theorem natCast_gen_inj {j k : Nat} (hj : j < curveOrder) (hk : k < curveOrder)
    (h : (j : Int) • g.gen = (k : Int) • g.gen) : j = k := by
  have := g.gen_zsmul_inj.mp h
  rw [Int.cast_natCast, Int.cast_natCast, ZMod.natCast_eq_natCast_iff] at this
  exact Nat.ModEq.eq_of_lt_of_lt this hj hk

theorem babySteps_point (k : Nat) : (babySteps g k).2 = (k : Int) • g.gen := by
  induction k with
  | zero => simp [babySteps]
  | succ k ih =>
    rw [babySteps, ih]
    push_cast
    rw [add_smul, one_smul]

/-- After `k` turns the table maps the key of a point to `j` exactly when the
    point is `j * P2` with `j` below `k`. -/
theorem babySteps_get? {k : Nat} (hk : k ≤ curveOrder) (P : G₂) (j : Int) :
    (babySteps g k).1.get? (pointKey g P) = some j ↔ (0 ≤ j ∧ j < k) ∧ P = j • g.gen := by
  induction k with
  | zero =>
    simp only [babySteps, Dict.get?_empty, Nat.cast_zero]
    constructor
    · intro h
      cases h
    · omega
  | succ k ih =>
    rw [babySteps, Dict.get?_set, babySteps_point]
    split
    · rename_i hkey
      have hP := pointKey_inj g hkey
      constructor
      · intro h
        cases h
        exact ⟨by omega, hP⟩
      · rintro ⟨⟨h0, hj⟩, hPj⟩
        have heq : ((j.toNat : Nat) : Int) • g.gen = (k : Int) • g.gen := by
          rw [Int.toNat_of_nonneg h0, ← hPj, hP]
        have := natCast_gen_inj g (by omega) (by omega) heq
        congr 1
        omega
    · rename_i hkey
      rw [ih (by omega)]
      constructor
      · rintro ⟨h, hP⟩
        exact ⟨by omega, hP⟩
      · rintro ⟨h, hP⟩
        refine ⟨⟨h.1, ?_⟩, hP⟩
        by_contra hge
        have : j = k := by omega
        exact hkey (by rw [hP, this])

variable {g} {T : BabyStepTable G₂} {m0 : Int}

/-- What the walk needs of a table: it holds exactly the first `n` multiples, and
    the giant step is `-n * P2`. -/
structure BabyStepTable.Valid (g : PointGroup g2Bytes G₂) (T : BabyStepTable G₂) : Prop where
  get? : ∀ P j, T.table.get? (pointKey g P) = some j ↔ (0 ≤ j ∧ j < T.n) ∧ P = j • g.gen
  step : T.negStep = (-(T.n : Int)) • g.gen
  n_pos : 0 < T.n

theorem buildBabyStepTable_valid {maxVal : Int} (h : maxVal < curveOrder) :
    (buildBabyStepTable g maxVal).Valid g := by
  have hn : (buildBabyStepTable g maxVal).n ≤ curveOrder := by
    simp only [buildBabyStepTable]
    split
    · have hs : maxVal.toNat.sqrt < 2 ^ 128 := by
        rw [Nat.sqrt_lt']
        have := curveOrder_lt
        omega
      have hq : (2 : Nat) ^ 128 + 2 ≤ curveOrder := by decide +kernel
      omega
    · decide +kernel
  refine ⟨fun P j => babySteps_get? g hn P j, ?_, ?_⟩
  · simp only [buildBabyStepTable]
    rw [g.mul_eq_zsmul, neg_smul]
  · simp only [buildBabyStepTable]
    split <;> omega

/-- One turn of the walk: the point is `m0 - i*n` times the generator, and so it
    stays for the next turn. -/
theorem giantSteps_next (hT : T.Valid g) (i : Int) :
    (m0 - i * T.n) • g.gen + T.negStep = (m0 - (i + 1) * T.n) • g.gen := by
  rw [hT.step, ← add_smul]
  congr 1
  ring

theorem giantSteps_sound (hT : T.Valid g) {turns : Nat} {i m : Int} (hi : 0 ≤ i)
    (h : giantSteps g T turns i ((m0 - i * T.n) • g.gen) = some m) :
    0 ≤ m ∧ m ≤ T.maxVal ∧ m • g.gen = m0 • g.gen := by
  induction turns generalizing i with
  | zero => cases h
  | succ turns ih =>
    rw [giantSteps, giantSteps_next hT] at h
    split at h
    · rename_i j hj
      obtain ⟨hb, hP⟩ := (hT.get? _ _).mp hj
      split at h
      · rename_i hle
        cases h
        refine ⟨by have := mul_nonneg hi (Int.natCast_nonneg T.n); omega, hle, ?_⟩
        rw [add_smul, ← hP, ← add_smul]
        congr 1
        ring
      · exact ih (by omega) h
    · exact ih (by omega) h

theorem giantSteps_isSome (hT : T.Valid g) {turns : Nat} {i : Int} (hle : m0 ≤ T.maxVal)
    (h : ∃ a : Nat, a < turns ∧ 0 ≤ m0 - (i + a) * T.n ∧ m0 - (i + a) * T.n < T.n) :
    (giantSteps g T turns i ((m0 - i * T.n) • g.gen)).isSome := by
  induction turns generalizing i with
  | zero =>
    obtain ⟨a, ha, -⟩ := h
    omega
  | succ turns ih =>
    obtain ⟨a, ha, hlo, hhi⟩ := h
    rw [giantSteps, giantSteps_next hT]
    cases a with
    | zero =>
      simp only [Nat.cast_zero, add_zero] at hlo hhi
      rw [(hT.get? _ (m0 - i * T.n)).mpr ⟨⟨hlo, hhi⟩, rfl⟩]
      simp [hle]
    | succ a =>
      have hnext := ih (i := i + 1) ⟨a, by omega, by push_cast at hlo; rwa [add_assoc, add_comm 1],
        by push_cast at hhi; rwa [add_assoc, add_comm 1]⟩
      split
      · split
        · rfl
        · exact hnext
      · exact hnext

/-- The turn that hits is `m / n`: it is at most `n`, as `n * n` exceeds the bound. -/
theorem exists_hit {maxVal m : Int} {n : Nat} (hn : n = maxVal.toNat.sqrt + 2) (h0 : 0 ≤ m)
    (hm : m ≤ maxVal) :
    ∃ a : Nat, a < n + 1 ∧ 0 ≤ m - (0 + (a : Int)) * n ∧ m - (0 + (a : Int)) * n < n := by
  have hpos : (0 : Int) < n := by omega
  have hsq : maxVal.toNat < n * n := by
    have := Nat.lt_succ_sqrt maxVal.toNat
    rw [hn]
    nlinarith
  have hdiv0 : 0 ≤ m / n := Int.ediv_nonneg h0 hpos.le
  have hdiv : m / n < n := Int.ediv_lt_of_lt_mul hpos (by zify at hsq; omega)
  have hmod := Int.emod_add_mul_ediv m n
  have hmod0 := Int.emod_nonneg m hpos.ne'
  have hmod1 := Int.emod_lt_of_pos m hpos
  refine ⟨(m / n).toNat, by omega, ?_⟩
  rw [Int.toNat_of_nonneg hdiv0, zero_add, mul_comm]
  omega

omit [DecidableEq G₂] in
theorem gen_zsmul_unique {g : PointGroup g2Bytes G₂} {bound a b : Int} (hq : bound < curveOrder)
    (ha : 0 ≤ a ∧ a ≤ bound) (hb : 0 ≤ b ∧ b ≤ bound) (h : a • g.gen = b • g.gen) : a = b := by
  have hmod := (ZMod.intCast_eq_intCast_iff _ _ _).mp (g.gen_zsmul_inj.mp h)
  rwa [Int.ModEq, Int.emod_eq_of_lt ha.1 (by omega), Int.emod_eq_of_lt hb.1 (by omega)] at hmod

/-- The walk over a built table returns exactly the exponent within the bound. -/
theorem giantSteps_iff {maxVal : Int} (h0 : 0 < maxVal) (hq : maxVal < curveOrder) (target : G₂)
    (m : Int) :
    giantSteps g (buildBabyStepTable g maxVal) ((buildBabyStepTable g maxVal).n + 1) 0 target = some m ↔
      0 ≤ m ∧ m ≤ maxVal ∧ target = m • g.gen := by
  have hT := buildBabyStepTable_valid (g := g) hq
  have hn : (buildBabyStepTable g maxVal).n = maxVal.toNat.sqrt + 2 := by
    simp only [buildBabyStepTable, h0, if_true]
  have hstart (k : Int) : k • g.gen = (k - 0 * ((buildBabyStepTable g maxVal).n : Int)) • g.gen := by
    rw [zero_mul, sub_zero]
  obtain ⟨k, rfl⟩ := g.generates target
  constructor
  · intro h
    rw [hstart k] at h
    obtain ⟨hm0, hm1, hm⟩ := giantSteps_sound hT le_rfl h
    exact ⟨hm0, hm1, hm.symm⟩
  · rintro ⟨hm0, hm1, hm⟩
    rw [hm, hstart m]
    obtain ⟨m', hm'⟩ := Option.isSome_iff_exists.mp
      (giantSteps_isSome hT hm1 (exists_hit hn hm0 hm1))
    obtain ⟨h1, h2, h3⟩ := giantSteps_sound hT le_rfl hm'
    rw [hm', gen_zsmul_unique hq ⟨h1, h2⟩ ⟨hm0, hm1⟩ h3]

variable (g)

/-- Below the group order the search returns exactly the exponent within the bound. -/
theorem babyStepGiantStepWithTable_iff {maxVal : Int} (h0 : 0 ≤ maxVal) (hq : maxVal < curveOrder)
    (target : G₂) (m : Int) :
    babyStepGiantStepWithTable g target (buildBabyStepTable g maxVal) = some m ↔
      0 ≤ m ∧ m ≤ maxVal ∧ target = m • g.gen := by
  have hzero (ht : target = 0) : some 0 = some m ↔ 0 ≤ m ∧ m ≤ maxVal ∧ target = m • g.gen := by
    constructor
    · intro h
      cases h
      exact ⟨le_rfl, h0, by rw [ht, zero_smul]⟩
    · rintro ⟨hm0, hm1, hm⟩
      have hsmul : (0 : Int) • g.gen = m • g.gen := by rw [← hm, ht, zero_smul]
      rw [gen_zsmul_unique hq ⟨le_rfl, h0⟩ ⟨hm0, hm1⟩ hsmul]
  rw [babyStepGiantStepWithTable, show (buildBabyStepTable g maxVal).maxVal = maxVal from rfl]
  split
  · rename_i hz
    split
    · exact hzero ‹_›
    · rename_i ht
      constructor
      · intro h
        cases h
      · rintro ⟨hm0, hm1, hm⟩
        rw [show m = 0 by omega, zero_smul] at hm
        exact absurd hm ht
  · split
    · exact hzero ‹_›
    · exact giantSteps_iff (by omega) hq target m

/-- The answer to a search below a bound: the exponent within it, or that there is none. -/
def IsLogWithin (g : PointGroup g2Bytes G₂) (maxVal : Int) (target : G₂) : Option Int → Prop
  | some m => 0 ≤ m ∧ m ≤ maxVal ∧ target = m • g.gen
  | none => ∀ m, 0 ≤ m → m ≤ maxVal → target ≠ m • g.gen

theorem babyStepGiantStepWithTable_isLogWithin {maxVal : Int} (h0 : 0 ≤ maxVal) (hq : maxVal < curveOrder)
    (target : G₂) :
    IsLogWithin g maxVal target (babyStepGiantStepWithTable g target (buildBabyStepTable g maxVal)) := by
  cases h : babyStepGiantStepWithTable g target (buildBabyStepTable g maxVal) with
  | some m => exact (babyStepGiantStepWithTable_iff g h0 hq target m).mp h
  | none =>
    intro m hm0 hm1 hm
    rw [(babyStepGiantStepWithTable_iff g h0 hq target m).mpr ⟨hm0, hm1, hm⟩] at h
    cases h

/-- The early answers of the search without a table are those of the search with one. -/
theorem babyStepGiantStep_eq_withTable (target : G₂) (maxVal : Int) :
    babyStepGiantStep g target maxVal =
      babyStepGiantStepWithTable g target (buildBabyStepTable g maxVal) := by
  have hmax : (buildBabyStepTable g maxVal).maxVal = maxVal := rfl
  rw [babyStepGiantStep]
  split
  · rename_i hzero
    rw [babyStepGiantStepWithTable, hmax, if_pos hzero]
  · rename_i hzero
    split
    · rename_i htarget
      rw [babyStepGiantStepWithTable, hmax, if_neg hzero, if_pos htarget]
    · rfl

/-- Below the group order the search is exact for every point and every bound, with a table or
    without one, and one table serves every sequence of targets. -/
theorem baby_step_giant_step_exact {maxVal : Int} (h0 : 0 ≤ maxVal) (hq : maxVal < curveOrder) :
    (∀ (target : G₂) (m : Int), 0 ≤ m → m ≤ maxVal → target = m • g.gen →
      babyStepGiantStepWithTable g target (buildBabyStepTable g maxVal) = some m) ∧
    (∀ target : G₂, (¬ ∃ m, 0 ≤ m ∧ m ≤ maxVal ∧ target = m • g.gen) →
      babyStepGiantStepWithTable g target (buildBabyStepTable g maxVal) = none) ∧
    (∀ target : G₂, babyStepGiantStep g target maxVal =
      babyStepGiantStepWithTable g target (buildBabyStepTable g maxVal)) ∧
    ∀ targets : List G₂, List.Forall₂ (IsLogWithin g maxVal) targets
      (targets.map fun target => babyStepGiantStepWithTable g target (buildBabyStepTable g maxVal)) := by
  refine ⟨?_, ?_, fun target => babyStepGiantStep_eq_withTable g target maxVal, ?_⟩
  · intro target m hm0 hm1 hm
    exact (babyStepGiantStepWithTable_iff g h0 hq target m).mpr ⟨hm0, hm1, hm⟩
  · intro target hno
    cases h : babyStepGiantStepWithTable g target (buildBabyStepTable g maxVal) with
    | none => rfl
    | some m => exact absurd ⟨m, (babyStepGiantStepWithTable_iff g h0 hq target m).mp h⟩ hno
  · intro targets
    rw [List.forall₂_map_right_iff, List.forall₂_same]
    exact fun target _ => babyStepGiantStepWithTable_isLogWithin g h0 hq target

end

/-- Among the residues the search below ten finds seven, and not eleven. -/
theorem baby_step_giant_step_below_ten :
    babyStepGiantStepWithTable Residue.suite.g2 ((7 : Int) • Residue.suite.g2.gen)
      (buildBabyStepTable Residue.suite.g2 10) = some 7 ∧
    babyStepGiantStep Residue.suite.g2 ((11 : Int) • Residue.suite.g2.gen) 10 = none := by
  obtain ⟨hfound, hnone, hsame, -⟩ := baby_step_giant_step_exact Residue.suite.g2
    (show (0 : Int) ≤ 10 by decide) (by decide +kernel)
  refine ⟨hfound _ 7 (by decide) (by decide) rfl, ?_⟩
  rw [hsame]
  refine hnone _ ?_
  rintro ⟨m, hm0, hm1, hm⟩
  have heq : (11 : Int) = m := gen_zsmul_unique (show (11 : Int) < curveOrder by decide +kernel)
    ⟨by decide, le_rfl⟩ ⟨hm0, by omega⟩ hm
  omega

end ElGamalVoting
