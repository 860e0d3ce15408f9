import ElGamalVoting.Crypto.Attestation
import ElGamalVoting.Lib.Dict

/- The issuing side of the credential (`services/eligibility/eligibility.py`,
   `adapters/eligibility_stub.py`).

   The service allocates a re-vote counter for each (election, pseudonym) and binds
   it into the attestation. It takes any allocator; the two of the source, the
   in-memory dictionary and the SQLite table keyed by hex text, are both counters in
   the sense of `NonceAllocator`: the nonce allocated is one more than the last of
   its key, and no other key's counter moves. Wallet authentication and the allowlist
   decide whether a request is served, and with which weight; a request here is one
   that is. -/
namespace ElGamalVoting
open Lib

/-- A counter for each (election, pseudonym). -/
structure NonceAllocator where
  State : Type
  empty : State
  next : State → Bytes → Bytes → Int × State
  last : State → Bytes → Bytes → Int
  last_empty : ∀ electionId pseudonym, last empty electionId pseudonym = 0
  next_fst : ∀ s electionId pseudonym, (next s electionId pseudonym).1 = last s electionId pseudonym + 1
  last_next : ∀ s electionId pseudonym electionId' pseudonym',
    last (next s electionId pseudonym).2 electionId' pseudonym' =
      if (electionId', pseudonym') = (electionId, pseudonym) then last s electionId pseudonym + 1
      else last s electionId' pseudonym'

/-- The next nonce of a key, and the counters after it. -/
def bumpCounter {K : Type} [DecidableEq K] (counts : Dict K Int) (key : K) : Int × Dict K Int :=
  let n := (counts.get? key).getD 0 + 1
  (n, counts.set key n)

/-- A dictionary of counters, under any injective naming of the keys. -/
def counterAllocator {K : Type} [DecidableEq K] (key : Bytes → Bytes → K)
    (hkey : ∀ e p e' p', key e p = key e' p' → (e, p) = (e', p')) : NonceAllocator where
  State := Dict K Int
  empty := ∅
  next counts electionId pseudonym := bumpCounter counts (key electionId pseudonym)
  last counts electionId pseudonym := (counts.get? (key electionId pseudonym)).getD 0
  last_empty := by
    intro electionId pseudonym
    rfl
  next_fst := by
    intro counts electionId pseudonym
    rfl
  last_next := by
    intro counts electionId pseudonym electionId' pseudonym'
    show ((counts.set (key electionId pseudonym) _).get? (key electionId' pseudonym')).getD 0 = _
    rw [Dict.get?_set]
    by_cases h : (electionId', pseudonym') = (electionId, pseudonym)
    · cases h
      rw [if_pos rfl, if_pos rfl]
      rfl
    · rw [if_neg h, if_neg fun heq => h (hkey _ _ _ _ heq)]

/-- The non-durable allocator, keyed by the bytes themselves. -/
def inMemoryNonceAllocator : NonceAllocator :=
  counterAllocator Prod.mk fun _ _ _ _ h => h

/-- `SqliteNonceStore`: the rows of the table, keyed by the hex text of both ids. -/
def sqliteNonceStore : NonceAllocator :=
  counterAllocator (fun electionId pseudonym => (hex electionId, hex pseudonym)) (by
    intro e p e' p' h
    rw [Prod.mk.injEq] at h ⊢
    exact ⟨hex_injective h.1, hex_injective h.2⟩)

structure AttestationRequest where
  electionId : Bytes
  pseudonym : Bytes
  vk : Bytes
  weight : Int
  nonce : Int

/-- The issuer's keys, and the weight it gives everyone if it gives one. -/
structure StubEligibilityService (G₁ : Type) where
  sk : Int
  vk : G₁
  fixedWeight : Option Int := none

section
variable {G₁ G₂ : Type} [AddCommGroup G₁] [AddCommGroup G₂] (S : Suite G₁ G₂)

/-- The signature's randomness is an argument. -/
def StubEligibilityService.issueAttestation (service : StubEligibilityService G₁)
    (request : AttestationRequest) (k : Int) : Py Attestation := do
  let weight := service.fixedWeight.getD request.weight
  let signature ← signAttestation S service.sk service.vk
    ⟨request.electionId, request.pseudonym, request.vk, weight, request.nonce⟩ k
  pure { electionId := request.electionId, pseudonym := request.pseudonym, vk := request.vk, weight,
         signature, scheme := .v1, nonce := request.nonce }

variable {S}

/-- An attestation that is issued carries the ids and the nonce it was requested with. -/
theorem StubEligibilityService.issueAttestation_eq_ok {service : StubEligibilityService G₁}
    {request : AttestationRequest} {k : Int} {att : Attestation}
    (h : service.issueAttestation S request k = .ok att) :
    att.electionId = request.electionId ∧ att.pseudonym = request.pseudonym ∧ att.nonce = request.nonce := by
  rw [StubEligibilityService.issueAttestation] at h
  obtain ⟨signature, -, h⟩ := bind_eq_ok.mp h
  cases h
  exact ⟨rfl, rfl, rfl⟩

end
end ElGamalVoting
