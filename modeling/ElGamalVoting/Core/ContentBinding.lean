import ElGamalVoting.Core.WriteAuth
import ElGamalVoting.Envelopes.ArtifactCodecs
import ElGamalVoting.Lib.SelfDelimiting

/- What the content digests of `core/write_auth.py` bind.

   Each digest is the hash of a byte string made of a tag, the election id and the ABI
   encoding of the artifact's fields. Where the ABI encodings are injective
   (`AbiInjective`), equal byte strings come from artifacts that agree in every encoded
   field. The artifact's own election id is in none of them; the keyper index of a share
   envelope is not either. -/
namespace ElGamalVoting
open Lib

/-- The encoding of a tally can be decoded. -/
def TallyDecodes (E : EthLib) : Prop :=
  ∀ cts cts' admitted admitted' exclusions exclusions' total total' scaled scaled',
    E.abiTally cts admitted exclusions total scaled =
      E.abiTally cts' admitted' exclusions' total' scaled' →
    cts = cts' ∧ admitted = admitted' ∧ exclusions = exclusions' ∧ total = total' ∧ scaled = scaled'

/-- The encoding of a result can be decoded. -/
def ResultDecodes (E : EthLib) : Prop :=
  ∀ totals totals' indices indices' bound bound',
    E.abiResult totals indices bound = E.abiResult totals' indices' bound' →
    totals = totals' ∧ indices = indices' ∧ bound = bound'

/-- The ABI encodings of the digests can be decoded. -/
structure AbiInjective (E : EthLib) : Prop where
  tally : TallyDecodes E
  shares : ∀ sigmas sigmas' proofs proofs',
    E.abiBytesArray sigmas ++ E.abiProofs proofs = E.abiBytesArray sigmas' ++ E.abiProofs proofs' →
    sigmas = sigmas' ∧ proofs = proofs'
  result : ResultDecodes E

section
variable {E : EthLib} {electionId x : Bytes}

/-- The byte string hashed for a share envelope. -/
def sharePreimage (E : EthLib) (electionId : Bytes) (entries : List DecryptionShareEntry) : Py Bytes :=
  decryptionSharePreimage E electionId (entries.map DecryptionShareEntry.sigma)
    (entries.map fun e => proofPair e.proof)

/-! ## Injectivity -/

theorem abiUint_eq_ok {bits n : Nat} {v : Int} (h : abiUint bits v = .ok n) : v = n := by
  unfold abiUint at h
  split at h
  · cases h
    omega
  · cases h

theorem abiUint_lt {bits n : Nat} {v : Int} (h : abiUint bits v = .ok n) : n < 2 ^ bits := by
  unfold abiUint at h
  split at h
  case isTrue hv =>
    cases h
    have hcast : ((2 : Int) ^ bits) = ((2 ^ bits : Nat) : Int) := by push_cast; rfl
    rw [hcast] at hv
    omega
  case isFalse => cases h

/-- A list of encoded values determines the values. -/
theorem mapM_inj {α β : Type} {f : α → Py β} {xs ys : List α} {zs : List β}
    (hf : ∀ x ∈ xs, ∀ y ∈ ys, ∀ z, f x = .ok z → f y = .ok z → x = y) (hx : xs.mapM f = .ok zs)
    (hy : ys.mapM f = .ok zs) : xs = ys := by
  rw [mapM_eq_ok] at hx hy
  induction hx generalizing ys with
  | nil =>
    cases hy
    rfl
  | cons hhead _ ih =>
    cases hy with
    | cons hhead' htail' =>
      rw [hf _ List.mem_cons_self _ List.mem_cons_self _ hhead hhead',
        ih (fun a ha b hb => hf a (List.mem_cons_of_mem _ ha) b (List.mem_cons_of_mem _ hb)) htail']

theorem mapM_abiUint_inj {bits : Nat} {xs ys : List Int} {ns : List Nat}
    (hx : xs.mapM (abiUint bits) = .ok ns) (hy : ys.mapM (abiUint bits) = .ok ns) : xs = ys := by
  refine mapM_inj ?_ hx hy
  intro a _ b _ n ha hb
  rw [abiUint_eq_ok ha, abiUint_eq_ok hb]

theorem exclusionCode_inj {r r' : ExclusionReason} (h : exclusionCode r = exclusionCode r') : r = r' := by
  cases r <;> cases r' <;> first | rfl | cases h

theorem map_pair_inj {cts cts' : List Ciphertext}
    (h : (cts.map fun ct => (ct.c1, ct.c2)) = cts'.map fun ct => (ct.c1, ct.c2)) : cts = cts' := by
  refine (List.map_injective_iff.mpr ?_) h
  intro a b hab
  cases a
  cases b
  cases hab
  rfl

/-- Aggregates hashed from one byte string are of one election and agree in all but their own
    election id. -/
theorem aggregatePreimage_split (htally : TallyDecodes E) {electionId' : Bytes} {A B : AggregateArtifact}
    (hlen : electionId.length = electionId'.length) (hA : aggregatePreimage E electionId A = .ok x)
    (hB : aggregatePreimage E electionId' B = .ok x) :
    electionId = electionId' ∧ (A.electionId = B.electionId → A = B) := by
  obtain ⟨admitted, ha, hA⟩ := bind_eq_ok.mp hA
  obtain ⟨exclusions, hx, hA⟩ := bind_eq_ok.mp hA
  obtain ⟨total, ht, hA⟩ := bind_eq_ok.mp hA
  obtain ⟨scaled, hs, hA⟩ := bind_eq_ok.mp hA
  obtain ⟨admitted', ha', hB⟩ := bind_eq_ok.mp hB
  obtain ⟨exclusions', hx', hB⟩ := bind_eq_ok.mp hB
  obtain ⟨total', ht', hB⟩ := bind_eq_ok.mp hB
  obtain ⟨scaled', hs', hB⟩ := bind_eq_ok.mp hB
  rw [pure_eq_ok, Except.ok.injEq] at hA hB
  have heq := hA.trans hB.symm
  rw [List.append_assoc, List.append_assoc] at heq
  obtain ⟨rfl, hbody⟩ := List.append_inj (List.append_cancel_left heq) hlen
  obtain ⟨hcts, rfl, rfl, rfl, rfl⟩ := htally _ _ _ _ _ _ _ _ _ _ hbody
  refine ⟨rfl, fun hid => ?_⟩
  have hexclusions : A.exclusions = B.exclusions := by
    refine mapM_inj ?_ hx hx'
    intro e _ f _ n he hf
    obtain ⟨seq, hseq, he⟩ := bind_eq_ok.mp he
    obtain ⟨seq', hseq', hf⟩ := bind_eq_ok.mp hf
    cases he
    rw [pure_eq_ok, Except.ok.injEq, Prod.mk.injEq] at hf
    obtain ⟨rfl, hcode⟩ := hf
    have hsame := (abiUint_eq_ok hseq).trans (abiUint_eq_ok hseq').symm
    cases e
    cases f
    rw [Exclusion.mk.injEq]
    exact ⟨hsame, (exclusionCode_inj hcode).symm⟩
  have hadmitted := mapM_abiUint_inj ha ha'
  have htotal := (abiUint_eq_ok ht).trans (abiUint_eq_ok ht').symm
  have hscaled := (abiUint_eq_ok hs).trans (abiUint_eq_ok hs').symm
  have hcts := map_pair_inj hcts
  cases A
  cases B
  rw [AggregateArtifact.mk.injEq]
  exact ⟨hid, hcts, hadmitted, hexclusions, htotal, hscaled⟩

theorem aggregatePreimage_inj (habi : AbiInjective E) {A B : AggregateArtifact}
    (hA : aggregatePreimage E electionId A = .ok x) (hB : aggregatePreimage E electionId B = .ok x)
    (hid : A.electionId = B.electionId) : A = B :=
  (aggregatePreimage_split habi.tally rfl hA hB).2 hid

/-- Halves of a proof of the right size determine it. -/
theorem proofPair_inj {p q : Bytes} (hp : p.length = dleqBytes) (hq : q.length = dleqBytes)
    (h : proofPair p = proofPair q) : p = q := by
  rw [proofPair, proofPair, Prod.mk.injEq] at h
  have hlen : p.length = q.length := hp.trans hq.symm
  have hhead : p.take 32 = q.take 32 := by
    refine beNat_inj ?_ (by exact_mod_cast h.1)
    rw [List.length_take, List.length_take, hlen]
  have htail : p.drop 32 = q.drop 32 := by
    refine beNat_inj ?_ (by exact_mod_cast h.2)
    rw [List.length_drop, List.length_drop, hlen]
  rw [← List.take_append_drop 32 p, hhead, htail, List.take_append_drop]

theorem entries_inj {entries entries' : List DecryptionShareEntry}
    (hsized : ∀ e ∈ entries, e.proof.length = dleqBytes)
    (hsized' : ∀ e ∈ entries', e.proof.length = dleqBytes)
    (hsigmas : entries.map DecryptionShareEntry.sigma = entries'.map DecryptionShareEntry.sigma)
    (hpairs : (entries.map fun e => proofPair e.proof) = entries'.map fun e => proofPair e.proof) :
    entries = entries' := by
  induction entries generalizing entries' with
  | nil => exact (List.map_eq_nil_iff.mp hsigmas.symm).symm
  | cons e entries ih =>
    cases entries' with
    | nil => cases hsigmas
    | cons e' entries' =>
      rw [List.map_cons, List.map_cons, List.cons.injEq] at hsigmas hpairs
      have hproof := proofPair_inj (hsized e List.mem_cons_self) (hsized' e' List.mem_cons_self) hpairs.1
      have hhead : e = e' := by
        cases e
        cases e'
        rw [DecryptionShareEntry.mk.injEq]
        exact ⟨hsigmas.1, hproof⟩
      rw [hhead, ih (fun f hf => hsized f (List.mem_cons_of_mem _ hf))
        (fun f hf => hsized' f (List.mem_cons_of_mem _ hf)) hsigmas.2 hpairs.2]

/-- Shares hashed from one byte string have the same entries. -/
theorem sharePreimage_inj (habi : AbiInjective E) {entries entries' : List DecryptionShareEntry}
    (hsized : ∀ e ∈ entries, e.proof.length = dleqBytes)
    (hsized' : ∀ e ∈ entries', e.proof.length = dleqBytes)
    (h : sharePreimage E electionId entries = .ok x) (h' : sharePreimage E electionId entries' = .ok x) :
    entries = entries' := by
  obtain ⟨proofs, hp, h⟩ := bind_eq_ok.mp h
  obtain ⟨proofs', hp', h'⟩ := bind_eq_ok.mp h'
  rw [pure_eq_ok, Except.ok.injEq] at h h'
  have heq := h.trans h'.symm
  rw [List.append_assoc, List.append_assoc (decryptShareDst ++ electionId)] at heq
  obtain ⟨hsigmas, rfl⟩ := habi.shares _ _ _ _ (List.append_cancel_left heq)
  have hpairs : (entries.map fun e => proofPair e.proof) = entries'.map fun e => proofPair e.proof := by
    refine mapM_inj ?_ hp hp'
    intro a _ b _ n ha hb
    obtain ⟨e, he, ha⟩ := bind_eq_ok.mp ha
    obtain ⟨z, hz, ha⟩ := bind_eq_ok.mp ha
    obtain ⟨e', he', hb⟩ := bind_eq_ok.mp hb
    obtain ⟨z', hz', hb⟩ := bind_eq_ok.mp hb
    cases ha
    cases hb
    exact Prod.ext ((abiUint_eq_ok he).trans (abiUint_eq_ok he').symm)
      ((abiUint_eq_ok hz).trans (abiUint_eq_ok hz').symm)
  exact entries_inj hsized hsized' hsigmas hpairs

/-- Results hashed from one byte string are of one election and agree in all but their own
    election id. -/
theorem resultPreimage_split (hresult : ResultDecodes E) {electionId' : Bytes} {r r' : ResultArtifact}
    (hlen : electionId.length = electionId'.length) (h : resultPreimage E electionId r = .ok x)
    (h' : resultPreimage E electionId' r' = .ok x) :
    electionId = electionId' ∧ (r.electionId = r'.electionId → r = r') := by
  obtain ⟨totals, ht, h⟩ := bind_eq_ok.mp h
  obtain ⟨indices, hi, h⟩ := bind_eq_ok.mp h
  obtain ⟨bound, hb, h⟩ := bind_eq_ok.mp h
  obtain ⟨totals', ht', h'⟩ := bind_eq_ok.mp h'
  obtain ⟨indices', hi', h'⟩ := bind_eq_ok.mp h'
  obtain ⟨bound', hb', h'⟩ := bind_eq_ok.mp h'
  rw [pure_eq_ok, Except.ok.injEq] at h h'
  have heq := h.trans h'.symm
  rw [List.append_assoc, List.append_assoc] at heq
  obtain ⟨rfl, hbody⟩ := List.append_inj (List.append_cancel_left heq) hlen
  obtain ⟨rfl, rfl, rfl⟩ := hresult _ _ _ _ _ _ hbody
  refine ⟨rfl, fun hid => ?_⟩
  have htotals := mapM_abiUint_inj ht ht'
  have hindices := mapM_abiUint_inj hi hi'
  have hbound := (abiUint_eq_ok hb).trans (abiUint_eq_ok hb').symm
  cases r
  cases r'
  rw [ResultArtifact.mk.injEq]
  exact ⟨hid, htotals, hindices, hbound⟩

theorem resultPreimage_inj (habi : AbiInjective E) {r r' : ResultArtifact}
    (h : resultPreimage E electionId r = .ok x) (h' : resultPreimage E electionId r' = .ok x)
    (hid : r.electionId = r'.electionId) : r = r' :=
  (resultPreimage_split habi.result rfl h h').2 hid

/-- Requests for one operation on one election carry the payload hashed into them. -/
theorem requestPreimage_inj {op : String} {payload payload' : Bytes}
    (h : requestPreimage op electionId payload = .ok x)
    (h' : requestPreimage op electionId payload' = .ok x) : payload = payload' := by
  obtain ⟨opLen, ho, h⟩ := bind_eq_ok.mp h
  obtain ⟨idLen, hi, h⟩ := bind_eq_ok.mp h
  obtain ⟨payloadLen, hp, h⟩ := bind_eq_ok.mp h
  obtain ⟨opLen', ho', h'⟩ := bind_eq_ok.mp h'
  obtain ⟨idLen', hi', h'⟩ := bind_eq_ok.mp h'
  obtain ⟨payloadLen', hp', h'⟩ := bind_eq_ok.mp h'
  cases ho.symm.trans ho'
  cases hi.symm.trans hi'
  rw [pure_eq_ok, Except.ok.injEq] at h h'
  have heq := h.trans h'.symm
  rw [List.append_assoc, List.append_assoc (requestDst ++ opLen ++ utf8 op ++ idLen ++ electionId)] at heq
  have hlen : payloadLen.length = payloadLen'.length := by
    obtain ⟨-, -, rfl⟩ := toBytes_eq_ok hp
    obtain ⟨-, -, rfl⟩ := toBytes_eq_ok hp'
    rw [length_beBytes, length_beBytes]
  exact (List.append_inj (List.append_cancel_left heq) hlen).2

end

/-! ## A library with decodable encodings -/

/-- Hashes are their inputs, signatures name their key, and the ABI encodings are
    self-delimiting codes. -/
def codedEth : EthLib :=
  let text := listCode byteCode
  let ints := listCode unaryCode
  { plainEth with
    abiBytesArray := listCode text
    abiProofs := listCode (pairCode unaryCode unaryCode)
    abiTally := fun cts admitted exclusions total scaled =>
      pairCode (listCode (pairCode text text)) (pairCode ints (pairCode
        (listCode (pairCode unaryCode unaryCode)) (pairCode unaryCode unaryCode)))
        (cts, admitted, exclusions, total, scaled)
    abiResult := fun totals indices bound =>
      pairCode ints (pairCode ints unaryCode) (totals, indices, bound) }

theorem codedEth_abiInjective : AbiInjective codedEth := by
  have htext : SelfDelimiting (listCode byteCode) := listCode_selfDelimiting byteCode_selfDelimiting
  have hints : SelfDelimiting (listCode unaryCode) := listCode_selfDelimiting unaryCode_selfDelimiting
  have hpair : SelfDelimiting (pairCode unaryCode unaryCode) :=
    pairCode_selfDelimiting unaryCode_selfDelimiting unaryCode_selfDelimiting
  have htally := pairCode_selfDelimiting (listCode_selfDelimiting (pairCode_selfDelimiting htext htext))
    (pairCode_selfDelimiting hints (pairCode_selfDelimiting (listCode_selfDelimiting hpair) hpair))
  have hresult := pairCode_selfDelimiting hints (pairCode_selfDelimiting hints unaryCode_selfDelimiting)
  refine ⟨?_, ?_, ?_⟩
  · intro cts cts' admitted admitted' exclusions exclusions' total total' scaled scaled' h
    cases htally.injective h
    exact ⟨rfl, rfl, rfl, rfl, rfl⟩
  · intro sigmas sigmas' proofs proofs' h
    obtain ⟨hsigmas, hproofs⟩ := listCode_selfDelimiting htext _ _ _ _ h
    exact ⟨hsigmas, (listCode_selfDelimiting hpair).injective hproofs⟩
  · intro totals totals' indices indices' bound bound' h
    cases hresult.injective h
    exact ⟨rfl, rfl, rfl⟩

end ElGamalVoting
