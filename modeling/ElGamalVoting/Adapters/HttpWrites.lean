import ElGamalVoting.Adapters.HttpClient
import ElGamalVoting.Envelopes.DecoderErrors

/- A client of the HTTP service writes as if it held the adapter itself.

   A write reaches the adapter exactly when its body is printed and not too large and its artifact has
   the sizes the service's decoder demands (`Delivers`); then the adapter's state afterwards is the one of
   the direct call, and the client returns or raises what the direct call does, its errors as far as
   the statuses tell them apart (`HttpLib.remote`). Any other write is an error at the client and changes
   nothing. The body crosses as a text, in which a surrogate pair held as two code points becomes one
   character: the texts of a configuration are taken to be well paired (`Write.TextsPaired`). -/
namespace ElGamalVoting
open Lib

/-! ## The decoders refuse the encodings of what is not well sized -/

theorem decBytes_encBytes_length {b raw : Bytes} {name : String} {size : Nat}
    (h : decBytes (encBytes b) name (some size) = .ok raw) : b.length = size := by
  have htake : (pyStr "0x" ++ pyStr (hex b)).take 2 = pyStr "0x" := List.take_left' (by decide)
  have hdrop : (pyStr "0x" ++ pyStr (hex b)).drop 2 = pyStr (hex b) := List.drop_left' (by decide)
  have hhex : fromHex (pyStr (hex b)) = some b := fromHex_hex b
  unfold decBytes encBytes at h
  dsimp only at h
  rw [if_neg (not_not.mpr htake), hdrop, hhex] at h
  by_contra hne
  simp only [ne_eq, hne, not_false_eq_true, if_true] at h
  cases h

theorem decInt_int_ge {n m minimum : Int} {name : String} (h : decInt (.int n) name (some minimum) = .ok m) :
    minimum ≤ n := by
  by_contra hlt
  rw [decInt, if_pos (by omega)] at h
  cases h

/-- An item of a list that was decoded item by item, under a name made from its position. -/
theorem decoded_item {α β : Type} {f : α → Json} {g : Json × Nat → Py β} {xs : List α} {ys : List β}
    (h : (xs.map f).zipIdx.mapM g = .ok ys) {x : α} (hx : x ∈ xs) : ∃ i y, g (f x, i) = .ok y := by
  obtain ⟨i, hi⟩ := List.mem_iff_getElem?.mp hx
  have hmem : (f x, i) ∈ (xs.map f).zipIdx := by
    rw [List.mem_zipIdx_iff_getElem?, List.getElem?_map, hi]
    rfl
  obtain ⟨y, -, hy⟩ := mapM_ok_mem h hmem
  exact ⟨i, y, hy⟩

/-- Inversion of one field: it was read from a value that is known. -/
theorem field_ok {α β : Type} {d v : Json} {key : String} {dec : Json → Py α} {f : α → Py β} {b : β}
    (h : (do let w ← req d key; let x ← dec w; f x) = .ok b) (hr : req d key = .ok v) :
    ∃ x, dec v = .ok x ∧ f x = .ok b := by
  rw [hr, ok_bind] at h
  exact bind_eq_ok.mp h

theorem ciphertext_sized_of_dec {ct ct' : Ciphertext} {name : String}
    (h : decCiphertext (encCiphertext ct) name = .ok ct') : ct.c1.length = g2Bytes ∧ ct.c2.length = g2Bytes := by
  rw [decCiphertext] at h
  obtain ⟨_, h₁, h⟩ := field_ok (v := encBytes ct.c1) h rfl
  obtain ⟨_, h₂, -⟩ := field_ok (v := encBytes ct.c2) h rfl
  exact ⟨decBytes_encBytes_length h₁, decBytes_encBytes_length h₂⟩

theorem attestation_sized_of_dec {a a' : Attestation} {name : String}
    (h : decAttestation (encAttestation a) name = .ok a') :
    a.electionId.length = 32 ∧ a.pseudonym.length = 32 ∧ a.vk.length = g1Bytes ∧ 1 ≤ a.weight ∧ 1 ≤ a.nonce ∧
      a.signature.length = schnorrBytes := by
  rw [decAttestation] at h
  obtain ⟨_, -, h⟩ := bind_eq_ok.mp h
  obtain ⟨_, hnonce, h⟩ := bind_eq_ok.mp h
  obtain ⟨_, hid, h⟩ := field_ok (v := encBytes a.electionId) h rfl
  obtain ⟨_, hpseudonym, h⟩ := field_ok (v := encBytes a.pseudonym) h rfl
  obtain ⟨_, hvk, h⟩ := field_ok (v := encBytes a.vk) h rfl
  obtain ⟨_, hweight, h⟩ := field_ok (v := .int a.weight) h rfl
  obtain ⟨_, hsignature, -⟩ := field_ok (v := encBytes a.signature) h rfl
  exact ⟨decBytes_encBytes_length hid, decBytes_encBytes_length hpseudonym, decBytes_encBytes_length hvk,
    decInt_int_ge hweight, decInt_int_ge (n := a.nonce) hnonce, decBytes_encBytes_length hsignature⟩

theorem wellSized_of_decBallot {b b' : BallotEnvelope} (h : decBallot (encBallot b) = .ok b') : b.WellSized := by
  rw [decBallot] at h
  obtain ⟨_, hlist, h⟩ := field_ok (v := .arr (b.ciphertexts.map encCiphertext)) h rfl
  obtain ⟨_, hid, h⟩ := field_ok (v := encBytes b.electionId) h rfl
  obtain ⟨_, hpseudonym, h⟩ := field_ok (v := encBytes b.pseudonym) h rfl
  obtain ⟨_, hvk, h⟩ := field_ok (v := encBytes b.vk) h rfl
  obtain ⟨_, hitems, h⟩ := bind_eq_ok.mp h
  obtain ⟨_, -, h⟩ := field_ok (v := encBytes b.zkProof) h rfl
  obtain ⟨_, hsignature, h⟩ := field_ok (v := encBytes b.voterSignature) h rfl
  obtain ⟨_, hatt, -⟩ := field_ok (v := encAttestation b.attestation) h rfl
  cases hlist
  obtain ⟨h₁, h₂, h₃, h₄, h₅, h₆⟩ := attestation_sized_of_dec hatt
  exact {
    electionId := decBytes_encBytes_length hid
    pseudonym := decBytes_encBytes_length hpseudonym
    vk := decBytes_encBytes_length hvk
    ciphertexts := fun ct hct => by
      obtain ⟨i, ct', hct'⟩ := decoded_item hitems hct
      exact ciphertext_sized_of_dec hct'
    voterSignature := decBytes_encBytes_length hsignature
    attElectionId := h₁
    attPseudonym := h₂
    attVk := h₃
    attWeight := h₄
    attNonce := h₅
    attSignature := h₆ }

theorem wellSized_of_decAggregate {a a' : AggregateArtifact} (h : decAggregate (encAggregate a) = .ok a') :
    a.WellSized := by
  rw [decAggregate] at h
  obtain ⟨_, hlist₁, h⟩ := field_ok (v := .arr (a.aggregates.map encCiphertext)) h rfl
  obtain ⟨_, hlist₂, h⟩ := field_ok (v := .arr (a.admitted.map Json.int)) h rfl
  obtain ⟨_, hlist₃, h⟩ := field_ok (v := .arr (a.exclusions.map encExclusion)) h rfl
  obtain ⟨_, hid, h⟩ := field_ok (v := encBytes a.electionId) h rfl
  obtain ⟨_, haggregates, h⟩ := bind_eq_ok.mp h
  obtain ⟨_, hadmitted, h⟩ := bind_eq_ok.mp h
  obtain ⟨_, hexclusions, h⟩ := bind_eq_ok.mp h
  obtain ⟨total, htotal, h⟩ := bind_eq_ok.mp h
  obtain ⟨_, hweight, h⟩ := bind_eq_ok.mp h
  obtain ⟨_, hscaled, -⟩ := bind_eq_ok.mp h
  cases hlist₁
  cases hlist₂
  cases hlist₃
  obtain rfl : Json.int a.totalAdmittedWeight = total := Except.ok.inj htotal
  refine {
    electionId := decBytes_encBytes_length hid
    aggregates := ?_
    admitted := ?_
    exclusions := ?_
    totalAdmittedWeight := decInt_int_ge hweight
    totalScaledWeight := decInt_int_ge (n := a.totalScaledWeight) hscaled }
  · intro ct hct
    obtain ⟨i, ct', hct'⟩ := decoded_item haggregates hct
    exact ciphertext_sized_of_dec hct'
  · intro s hs
    obtain ⟨i, s', hs'⟩ := decoded_item hadmitted hs
    exact decInt_int_ge hs'
  · intro x hx
    obtain ⟨i, x', hx'⟩ := decoded_item hexclusions hx
    rw [decExclusion] at hx'
    obtain ⟨_, -, hx'⟩ := field_ok (v := .str (pyStr x.reason.value)) hx' rfl
    obtain ⟨_, hseq, -⟩ := field_ok (v := .int x.sequenceNumber) hx' rfl
    exact decInt_int_ge hseq

theorem wellSized_of_decDecryptionShare {s s' : DecryptionShareEnvelope}
    (h : decDecryptionShare (encDecryptionShare s) = .ok s') : s.WellSized := by
  rw [decDecryptionShare] at h
  obtain ⟨_, hlist, h⟩ := field_ok (v := .arr (s.entries.map encShareEntry)) h rfl
  obtain ⟨_, hid, h⟩ := field_ok (v := encBytes s.electionId) h rfl
  obtain ⟨_, hindex, h⟩ := field_ok (v := .int s.keyperIndex) h rfl
  obtain ⟨_, hentries, -⟩ := bind_eq_ok.mp h
  cases hlist
  refine ⟨decBytes_encBytes_length hid, decInt_int_ge hindex, ?_⟩
  intro e he
  obtain ⟨i, e', he'⟩ := decoded_item hentries he
  rw [decShareEntry] at he'
  obtain ⟨_, hsigma, he'⟩ := field_ok (v := encBytes e.sigma) he' rfl
  obtain ⟨_, hproof, -⟩ := field_ok (v := encBytes e.proof) he' rfl
  exact ⟨decBytes_encBytes_length hsigma, decBytes_encBytes_length hproof⟩

theorem wellSized_of_decResult {r r' : ResultArtifact} (h : decResult (encResult r) = .ok r') : r.WellSized := by
  rw [decResult] at h
  obtain ⟨_, hlist₁, h⟩ := field_ok (v := .arr (r.totals.map Json.int)) h rfl
  obtain ⟨_, hlist₂, h⟩ := field_ok (v := .arr (r.keyperIndices.map Json.int)) h rfl
  obtain ⟨_, hid, h⟩ := field_ok (v := encBytes r.electionId) h rfl
  obtain ⟨_, htotals, h⟩ := bind_eq_ok.mp h
  obtain ⟨_, hindices, h⟩ := bind_eq_ok.mp h
  obtain ⟨_, hbound, -⟩ := field_ok (v := .int r.bsgsBound) h rfl
  cases hlist₁
  cases hlist₂
  refine ⟨decBytes_encBytes_length hid, ?_, ?_, decInt_int_ge hbound⟩
  · intro t ht
    obtain ⟨i, t', ht'⟩ := decoded_item htotals ht
    exact decInt_int_ge ht'
  · intro k hk
    obtain ⟨i, k', hk'⟩ := decoded_item hindices hk
    exact decInt_int_ge hk'

theorem decConfigLimited_refuses (conv : PyConversions) {c : ElectionConfig} (h : c.electionId.length ≠ 32) :
    ∃ msg, decConfigLimited conv (encConfig c) = .error (.codecError msg) := by
  have hth : ∃ th, req (encConfig c) "threshold" = .ok th := ⟨_, rfl⟩
  obtain ⟨th, hth⟩ := hth
  have hkeypers : ∃ items, req (encConfig c) "keypers" = .ok (.arr items) := ⟨_, rfl⟩
  obtain ⟨items, hkeypers⟩ := hkeypers
  have hlist : decList (.arr items) "keypers" = .ok items := rfl
  have hid : req (encConfig c) "electionId" = .ok (encBytes c.electionId) := rfl
  rw [decConfigLimited, hth, ok_bind, hkeypers, ok_bind, hlist, ok_bind, decConfigBeforeFee, hid, ok_bind]
  cases hread : decBytes (encBytes c.electionId) "electionId" (some 32) with
  | ok raw => exact absurd (decBytes_encBytes_length hread) h
  | error e =>
    obtain ⟨msg, rfl⟩ := decBytes_raises _ _ _ e hread
    exact ⟨msg, rfl⟩

/-! ## What the service makes of a client's request -/

/-- The artifact of a write has the sizes the decoder of its route demands. -/
def Write.Carried : Write → Prop
  | .register config _ => config.electionId.length = 32
  | .ballot _ b _ => b.WellSized
  | .aggregate _ A _ => A.WellSized
  | .decryptionShare _ share _ => share.WellSized
  | .result _ r _ => r.WellSized
  | _ => True

/-- The texts of a write that are not hexadecimal hold no surrogate pair as two code points. -/
def Write.TextsPaired : Write → Prop
  | .register config _ => ∀ s ∈ config.texts, WellPaired s = true
  | _ => True

namespace Http

theorem eidOf_clientEid (electionId : Bytes) : eidOf (clientEid electionId) = .ok electionId := by
  have hhex : fromHex (pyStr (hex electionId)) = some electionId := fromHex_hex electionId
  rw [eidOf, clientEid, hhex]

/-- A byte field that the client put into a body. -/
theorem bodyBytes_enc {body : Json} {key : String} {b : Bytes} (h : subscript body key = .ok (encBytes b)) :
    bodyBytes body key = .ok b := by
  rw [bodyBytes, h, ok_bind, decBytes_any]

theorem gatewaySigOf_ballotBody (ballot : BallotEnvelope) (gatewaySig : Bytes) :
    gatewaySigOf (ballotBody ballot gatewaySig) = .ok gatewaySig := by
  by_cases hsig : gatewaySig = []
  · subst hsig
    rfl
  · have hbody : subscript (ballotBody ballot gatewaySig) "gatewaySig" = .ok (encBytes gatewaySig) := by
      rw [ballotBody, if_neg hsig]
      rfl
    have hfield : getField (ballotBody ballot gatewaySig) "gatewaySig" = .ok (encBytes gatewaySig) := by
      rw [ballotBody, if_neg hsig]
      rfl
    have htruthy : truthy (encBytes gatewaySig) = true := by
      simp [truthy, encBytes, pyStr]
    rw [gatewaySigOf, hfield, ok_bind, if_pos htruthy, bodyBytes_enc hbody]

theorem ballotBody_ballot (ballot : BallotEnvelope) (gatewaySig : Bytes) :
    subscript (ballotBody ballot gatewaySig) "ballot" = .ok (encBallot ballot) := by
  rw [ballotBody]
  split <;> rfl

/-- Decoding the encodings of a list of byte strings of any length. -/
theorem mapM_decBytes_enc (items : List Bytes) (name : String) :
    (items.map encBytes).mapM (fun p => decBytes p name none) = .ok items := by
  rw [mapM_eq_ok]
  induction items with
  | nil => exact .nil
  | cons b items ih => exact .cons (decBytes_any b name) ih

section
variable {conv : PyConversions} {lib : HttpLib}

/-- The routes of the artifacts: id, artifact, signature. -/
theorem artifact_route {α : Type} {electionId sig : Bytes} {body v : Json} {key sigKey : String}
    {dec : Json → Py α} {x : α} (make : Bytes → α → Bytes → Write) (hkey : subscript body key = .ok v)
    (hsig : subscript body sigKey = .ok (encBytes sig)) (hdec : dec v = .ok x) :
    (do
      let electionId ← eidOf (clientEid electionId)
      let artifact ← dec (← subscript body key)
      let sig ← bodyBytes body sigKey
      pure (make electionId artifact sig)) = .ok (make electionId x sig) := by
  rw [eidOf_clientEid, ok_bind, hkey, ok_bind, hdec, ok_bind, bodyBytes_enc hsig, ok_bind, pure_eq_ok]

theorem artifact_refused {α : Type} {electionId : Bytes} {body v : Json} {key sigKey : String}
    {dec : Json → Py α} {e : PyError} (make : Bytes → α → Bytes → Write) (hkey : subscript body key = .ok v)
    (hdec : dec v = .error e) :
    (do
      let electionId ← eidOf (clientEid electionId)
      let artifact ← dec (← subscript body key)
      let sig ← bodyBytes body sigKey
      pure (make electionId artifact sig)) = .error e := by
  rw [eidOf_clientEid, ok_bind, hkey, ok_bind, hdec, error_bind]

/-- The route decodes the body of a carried write to the write. -/
theorem received_carried {w : Write} {body : Json} (hbody : bodyOf w = .ok body) (hw : w.Carried) :
    (routeOf w).write conv (segmentOf w) body = .ok w := by
  -- the registration alone has a limit of its own: the digits of the fee
  cases w with
  | register config adminSig =>
    obtain ⟨j, hj, hbody⟩ := bind_eq_ok.mp hbody
    obtain ⟨rfl, hfee⟩ := encConfigLimited_eq_ok.mp hj
    have hconfig : subscript body "config" = .ok (encConfig config) := by
      cases hbody
      rfl
    have hsig : bodyBytes body "adminSig" = .ok adminSig := by
      cases hbody
      exact bodyBytes_enc rfl
    have hdec : decConfigLimited conv (encConfig config) = .ok config :=
      decConfigLimited_eq_ok.mpr ⟨decConfig_encConfig conv hw, feeTextFits_encConfig hfee⟩
    show Route.register.write conv [] body = _
    rw [Route.write, hconfig, ok_bind, hdec, ok_bind, hsig, ok_bind, pure_eq_ok]
  | cancel electionId adminSig =>
    have hsig : bodyBytes body "adminSig" = .ok adminSig := by
      cases hbody
      exact bodyBytes_enc rfl
    show Route.cancel.write conv (clientEid electionId) body = _
    rw [Route.write, eidOf_clientEid, ok_bind, hsig, ok_bind, pure_eq_ok]
  | dkgResult electionId pkElection committeePks keyperSig =>
    have hpk : bodyBytes body "pkElection" = .ok pkElection := by
      cases hbody
      exact bodyBytes_enc rfl
    have hpks : subscript body "committeePKs" = .ok (.arr (committeePks.map encBytes)) := by
      cases hbody
      rfl
    have hitems : iterate (.arr (committeePks.map encBytes)) = .ok (committeePks.map encBytes) := rfl
    have hsig : bodyBytes body "keyperSig" = .ok keyperSig := by
      cases hbody
      exact bodyBytes_enc rfl
    show Route.submitDkg.write conv (clientEid electionId) body = _
    rw [Route.write, eidOf_clientEid, ok_bind, hpk, ok_bind, hpks, ok_bind, hitems, ok_bind,
      mapM_decBytes_enc, ok_bind, hsig, ok_bind, pure_eq_ok]
  | ballot electionId ballot gatewaySig =>
    cases hbody
    show Route.submitBallot.write conv (clientEid electionId) (ballotBody ballot gatewaySig) = _
    rw [Route.write, gatewaySigOf_ballotBody, ok_bind, eidOf_clientEid, ok_bind, ballotBody_ballot, ok_bind,
      decBallot_encBallot hw, ok_bind, pure_eq_ok]
  | aggregate electionId aggregate keyperSig =>
    cases hbody
    exact artifact_route .aggregate rfl rfl (decAggregate_encAggregate hw)
  | decryptionShare electionId share keyperSig =>
    cases hbody
    exact artifact_route .decryptionShare rfl rfl (decDecryptionShare_encDecryptionShare hw)
  | result electionId result resultPublisherSig =>
    cases hbody
    exact artifact_route .result rfl rfl (decResult_encResult hw)
  | tallyStalled electionId stalled sig issuedAt =>
    have hstalled : subscript body "stalled" = .ok (.bool stalled) := by
      cases hbody
      rfl
    have hsig : bodyBytes body "resultPublisherSig" = .ok sig := by
      cases hbody
      exact bodyBytes_enc rfl
    have hissued : subscript body "issuedAt" = .ok (.int issuedAt) := by
      cases hbody
      rfl
    show Route.setTallyStalled.write conv (clientEid electionId) body = _
    rw [Route.write, eidOf_clientEid, ok_bind, hstalled, ok_bind, hsig, ok_bind, hissued, ok_bind,
      intOf, ok_bind, pure_eq_ok]
    rfl

/-- What a decoder of the artifacts does not return it refuses with a `CodecError`. -/
theorem codecError_of_not {α : Type} {x : Py α} {P : Prop} (hraises : RaisesOnly IsCodecError x)
    (hok : ∀ a, x = .ok a → P) (hnot : ¬ P) : ∃ msg, x = .error (.codecError msg) := by
  cases hx : x with
  | ok a => exact absurd (hok a hx) hnot
  | error e =>
    obtain ⟨msg, rfl⟩ := hraises e hx
    exact ⟨msg, rfl⟩

/-- The route refuses the body of a write that is not carried. -/
theorem received_refused (conv : PyConversions) {w : Write} {body : Json} (hbody : bodyOf w = .ok body)
    (hw : ¬ w.Carried) : ∃ msg, (routeOf w).write conv (segmentOf w) body = .error (.codecError msg) := by
  cases w with
  | register config adminSig =>
    obtain ⟨j, hj, hbody⟩ := bind_eq_ok.mp hbody
    obtain ⟨rfl, -⟩ := encConfigLimited_eq_ok.mp hj
    obtain ⟨msg, hmsg⟩ := decConfigLimited_refuses conv hw
    have hconfig : subscript body "config" = .ok (encConfig config) := by
      cases hbody
      rfl
    refine ⟨msg, ?_⟩
    show Route.register.write conv [] body = _
    rw [Route.write, hconfig, ok_bind, hmsg, error_bind]
  | ballot electionId ballot gatewaySig =>
    obtain ⟨msg, hmsg⟩ := codecError_of_not (decBallot_raises _) (fun _ => wellSized_of_decBallot) hw
    refine ⟨msg, ?_⟩
    cases hbody
    show Route.submitBallot.write conv (clientEid electionId) (ballotBody ballot gatewaySig) = _
    rw [Route.write, gatewaySigOf_ballotBody, ok_bind, eidOf_clientEid, ok_bind, ballotBody_ballot, ok_bind,
      hmsg, error_bind]
  | aggregate electionId aggregate keyperSig =>
    obtain ⟨msg, hmsg⟩ := codecError_of_not (decAggregate_raises _) (fun _ => wellSized_of_decAggregate) hw
    cases hbody
    exact ⟨msg, artifact_refused .aggregate rfl hmsg⟩
  | decryptionShare electionId share keyperSig =>
    obtain ⟨msg, hmsg⟩ :=
      codecError_of_not (decDecryptionShare_raises _) (fun _ => wellSized_of_decDecryptionShare) hw
    cases hbody
    exact ⟨msg, artifact_refused .decryptionShare rfl hmsg⟩
  | result electionId result resultPublisherSig =>
    obtain ⟨msg, hmsg⟩ := codecError_of_not (decResult_raises _) (fun _ => wellSized_of_decResult) hw
    cases hbody
    exact ⟨msg, artifact_refused .result rfl hmsg⟩
  | cancel | dkgResult | tallyStalled => exact absurd trivial hw

/-! ## Values as texts -/

theorem HttpLib.exists_depth (lib : HttpLib) : ∃ depth, lib.depth = depth + 8 :=
  ⟨lib.depth - 8, (Nat.sub_add_cancel lib.deep).symm⟩

/-- A shaped value that is printed is read as it is. -/
theorem loads_printed {gap : PyStr} (hgap : isGap gap = true) {j : Json} (hshape : j.shaped lib.depth = true)
    (hprint : j.printable = true) : lib.loads (asciiBytes (j.render gap)) = .ok j := by
  obtain ⟨text, htext, hloads⟩ :=
    Option.map_eq_some_iff.mp (loads_render hgap (readable_of_shaped lib.depth j hshape hprint))
  rw [HttpLib.loads, htext]
  exact hloads

theorem printable_field (name : String) (v : Json) : (Json.obj [(pyStr name, v)]).printable = v.printable := by
  simp [Json.printable, Json.printableFields, Json.printableField]

theorem shaped_field {name : String} (hname : WellPaired (pyStr name) = true) {depth : Nat} {v : Json}
    (hv : v.shaped depth = true) : (Json.obj [(pyStr name, v)]).shaped (depth + 1) = true := by
  simp [Json.shaped, Json.shapedFields, Json.shapedField, hname, hv]

theorem shaped_body (depth : Nat) {w : Write} {body : Json} (hbody : bodyOf w = .ok body) (htexts : w.TextsPaired) :
    body.shaped (depth + 8) = true := by
  cases w with
  | register config adminSig =>
    obtain ⟨j, hj, hbody⟩ := bind_eq_ok.mp hbody
    obtain ⟨rfl, -⟩ := encConfigLimited_eq_ok.mp hj
    cases hbody
    have hconfig := shaped_encConfig (depth + 4) htexts
    simp +decide [Json.shaped, Json.shapedFields, Json.shapedField, shaped_encBytes, hconfig]
  | cancel electionId adminSig =>
    cases hbody
    simp +decide [Json.shaped, Json.shapedFields, Json.shapedField, shaped_encBytes]
  | dkgResult electionId pkElection committeePks keyperSig =>
    cases hbody
    have hpks := shaped_arr (shaped_encBytes (depth + 6)) committeePks
    simp +decide [Json.shaped, Json.shapedFields, Json.shapedField, shaped_encBytes, hpks]
  | ballot electionId ballot gatewaySig =>
    cases hbody
    have hballot := shaped_encBallot (depth + 4) ballot
    rw [ballotBody]
    split <;> simp +decide [Json.shaped, Json.shapedFields, Json.shapedField, shaped_encBytes, hballot]
  | aggregate electionId aggregate keyperSig =>
    cases hbody
    have haggregate := shaped_encAggregate (depth + 4) aggregate
    simp +decide [Json.shaped, Json.shapedFields, Json.shapedField, shaped_encBytes, haggregate]
  | decryptionShare electionId share keyperSig =>
    cases hbody
    have hshare := shaped_encDecryptionShare (depth + 4) share
    simp +decide [Json.shaped, Json.shapedFields, Json.shapedField, shaped_encBytes, hshare]
  | result electionId result resultPublisherSig =>
    cases hbody
    have hresult := shaped_encResult (depth + 5) result
    simp +decide [Json.shaped, Json.shapedFields, Json.shapedField, shaped_encBytes, hresult]
  | tallyStalled electionId stalled sig issuedAt =>
    cases hbody
    simp +decide [Json.shaped, Json.shapedFields, Json.shapedField, shaped_encBytes]

/-- The service parses the body that the client printed. -/
theorem request_printed {w : Write} {body : Json} (hbody : bodyOf w = .ok body) (hprint : body.printable = true)
    (htexts : w.TextsPaired) :
    lib.request w = .ok ⟨routeOf w, segmentOf w, some body, (bodyText body).length⟩ := by
  obtain ⟨depth, hdepth⟩ := lib.exists_depth
  have hparsed : lib.loads (bodyText body) = .ok body :=
    loads_printed (by decide) (hdepth ▸ shaped_body depth hbody htexts) hprint
  rw [HttpLib.request, hbody, ok_bind, if_pos hprint, hparsed]
  rfl

/-! ## A call through the client -/

/-- A write that reaches the adapter: its body is printed and not too large, it names an election, and its
    artifact is well sized. -/
def Delivers (w : Write) : Prop :=
  ∃ body, bodyOf w = .ok body ∧ body.printable = true ∧ (routeOf w = .register ∨ segmentOf w ≠ []) ∧
    (bodyText body).length ≤ maxContentLength ∧ w.Carried

/-- Some integer of the body has too many digits to be printed. -/
def Unprinted (w : Write) : Prop := ∃ body, bodyOf w = .ok body ∧ body.printable = false

/-- What the client raises of a write that does not reach the adapter: the HTTP library's own error for a body
    that is not printed, and a `ValueError` for any other. -/
def Refusal (w : Write) (e : PyError) : Prop :=
  (Unprinted w ∧ ∃ msg, e = .requestError msg) ∨ (¬ Unprinted w ∧ ∃ msg, e = .valueError msg)

theorem not_delivers_of_unprinted {w : Write} (h : Unprinted w) : ¬ Delivers w := by
  intro hdelivers
  obtain ⟨body, hbody, hnot⟩ := h
  obtain ⟨body', hbody', hprint, -⟩ := hdelivers
  rw [hbody] at hbody'
  cases hbody'
  exact Bool.false_ne_true (hnot.symm.trans hprint)

/-- What an exception of the adapter is at the client. -/
def HttpLib.remote (lib : HttpLib) (e : PyError) : PyError :=
  match e with
  | .keyError msg => .keyError (reprText msg)
  | .writeAuthorization msg => .writeAuthorization msg
  | .immutability msg => .immutability msg
  | .votingWindow msg => .votingWindow msg
  | e =>
    match valueErrorText e with
    | some msg => .valueError s!"HTTP {400}: {msg}"
    | none => .valueError s!"HTTP {500}: {lib.page 500}"

/-- What comes back of an outcome: the value where its encoding is printed, and an exception as the client
    raises it. -/
def across {α : Type} (enc : α → Json) (raised : PyError → PyError) (x : Py α) : Py α :=
  match x with
  | .ok a => if (enc a).printable then .ok a else .error (raised tooManyDigits)
  | .error e => .error (raised e)

/-- What is printed of a reply. -/
def Reply.json : Reply → Json
  | .done => .null
  | .electionId id => encBytes id
  | .sequenceNumber n => .int n

theorem received_appError (lib : HttpLib) (e : PyError) : lib.received (appError e) = .error (lib.remote e) := by
  cases e <;> rfl

/-- An answer with one name: its value is received where it is printed. -/
theorem received_printed (name : String) (hname : WellPaired (pyStr name) = true)
    {handler : PyError → Response} {raised : PyError → PyError}
    (hraised : ∀ e, lib.received (handler e) = .error (raised e)) {v : Json}
    (hv : ∀ depth, v.shaped (depth + 7) = true) :
    lib.received (printed handler (.obj [(pyStr name, v)])) =
      if v.printable then .ok (.obj [(pyStr name, v)]) else .error (raised tooManyDigits) := by
  obtain ⟨depth, hdepth⟩ := lib.exists_depth
  have hshape : (Json.obj [(pyStr name, v)]).shaped lib.depth = true := hdepth ▸ shaped_field hname (hv depth)
  rw [printed, printable_field]
  by_cases hprint : v.printable = true
  · rw [if_pos hprint, if_pos hprint]
    exact loads_printed (by decide) hshape ((printable_field name v).trans hprint)
  · rw [if_neg hprint, if_neg hprint, hraised]

theorem replyOf_received {w : Write} {r : Py Reply} (hfits : ∀ reply, r = .ok reply → reply.Fits w) :
    (do replyOf conv w (← lib.received (replyResponse r))) = across Reply.json lib.remote r := by
  cases r with
  | error e =>
    show (do replyOf conv w (← lib.received (appError e))) = .error (lib.remote e)
    rw [received_appError, error_bind]
  | ok reply =>
    have hreply := hfits reply rfl
    cases reply with
    | done => cases w <;> first | rfl | cases hreply
    | electionId id =>
      cases w with
      | register config adminSig =>
        have hid : bodyBytes (.obj [(pyStr "electionId", encBytes id)]) "electionId" = .ok id := bodyBytes_enc rfl
        have hreceived : lib.received (replyResponse (.ok (.electionId id))) =
            .ok (.obj [(pyStr "electionId", encBytes id)]) := by
          have hprinted := received_printed "electionId" (by decide) (received_appError lib)
            fun depth => shaped_encBytes (depth + 7) id
          rwa [if_pos (printable_encBytes id)] at hprinted
        rw [hreceived, ok_bind, replyOf, hid, ok_bind, pure_eq_ok, across, Reply.json, if_pos (printable_encBytes id)]
      | _ => cases hreply
    | sequenceNumber n =>
      cases w with
      | ballot electionId ballot gatewaySig =>
        have hprinted := received_printed (v := .int n) "sequenceNumber" (by decide) (received_appError lib)
          fun depth => by rw [Json.shaped]
        show (do replyOf conv _ (← lib.received (printed appError (.obj [(pyStr "sequenceNumber", .int n)])))) = _
        rw [hprinted, across, Reply.json]
        split <;> rfl
      | _ => cases hreply

variable {σ : Type} {B : Backend σ} {call : Call} {s : σ}

/-- The service makes the call of a carried write's body. -/
theorem servePost_carried (conv : PyConversions) (B : Backend σ) (now later : Int) (s : σ) {w : Write}
    {body : Json} {length : Nat} (hbody : bodyOf w = .ok body) (hcarried : w.Carried) (hroute : routeOf w = .register ∨ segmentOf w ≠ [])
    (hsize : length ≤ maxContentLength) :
    servePost B conv now later ⟨routeOf w, segmentOf w, some body, length⟩ s =
      ((B.perform ⟨now, later, w⟩ s).1, replyResponse (B.perform ⟨now, later, w⟩ s).2) := by
  have hpath : ¬ (routeOf w ≠ .register ∧ segmentOf w = []) := by
    intro hbad
    exact hroute.elim hbad.1 (fun hne => hne hbad.2)
  rw [servePost, if_neg hpath, if_neg (Nat.not_lt.mpr hsize)]
  simp only [received_carried hbody hcarried]

theorem client_perform_delivered (htexts : call.write.TextsPaired) (h : Delivers call.write) :
    (lib.client conv B).perform call s =
      ((B.perform call s).1, across Reply.json lib.remote (B.perform call s).2) := by
  obtain ⟨body, hbody, hprint, hroute, hsize, hcarried⟩ := h
  have hserved : servePost B conv call.now call.later
      ⟨routeOf call.write, segmentOf call.write, some body, (bodyText body).length⟩ s =
      ((B.perform call s).1, replyResponse (B.perform call s).2) :=
    servePost_carried conv B call.now call.later s hbody hcarried hroute hsize
  rw [HttpLib.client]
  simp only [request_printed hbody hprint htexts, hserved, replyOf_received (fun _ => B.fits)]

/-- Only the fee of a configuration keeps a body from being made. -/
theorem bodyOf_error {w : Write} {e : PyError} (h : bodyOf w = .error e) : e = tooManyDigits := by
  cases w with
  | register config adminSig =>
    rw [bodyOf, encConfigLimited, strOfNat] at h
    by_cases hfee : 10 ^ maxStrDigits ≤ config.selfSubmitFeeWei
    · rw [if_pos hfee] at h
      cases h
      rfl
    · rw [if_neg hfee] at h
      cases h
  | _ => cases h

theorem client_perform_refused (lib : HttpLib) (conv : PyConversions) (B : Backend σ) (s : σ)
    (htexts : call.write.TextsPaired) (h : ¬ Delivers call.write) :
    ∃ e, Refusal call.write e ∧ (lib.client conv B).perform call s = (s, .error e) := by
  -- refused where the body is made, where it is printed, or by the service
  cases hbody : bodyOf call.write with
  | error e =>
    have hmade : ¬ Unprinted call.write := by
      intro hunprinted
      obtain ⟨body, hmade, -⟩ := hunprinted
      rw [hbody] at hmade
      cases hmade
    have hrequest : lib.request call.write = .error e := by rw [HttpLib.request, hbody, error_bind]
    refine ⟨e, .inr ⟨hmade, _, bodyOf_error hbody⟩, ?_⟩
    simp only [HttpLib.client, hrequest]
  | ok body =>
    by_cases hprint : body.printable = true
    · have hprinted : ¬ Unprinted call.write := by
        intro hunprinted
        obtain ⟨body', hbody', hnot⟩ := hunprinted
        rw [hbody] at hbody'
        cases hbody'
        exact Bool.false_ne_true (hnot.symm.trans hprint)
      have hserved : ∃ r msg, servePost B conv call.now call.later
          ⟨routeOf call.write, segmentOf call.write, some body, (bodyText body).length⟩ s = (s, r) ∧
            lib.received r = .error (.valueError msg) := by
        rw [servePost]
        -- no path, too long, or an artifact of a size the decoder refuses
        by_cases hpath : routeOf call.write ≠ .register ∧ segmentOf call.write = []
        · exact ⟨.page 405, _, if_pos hpath, rfl⟩
        · rw [if_neg hpath]
          by_cases hsize : maxContentLength < (bodyText body).length
          · exact ⟨.page 413, _, if_pos hsize, rfl⟩
          · rw [if_neg hsize]
            have hcarried : ¬ call.write.Carried := by
              intro hcarried
              refine h ⟨body, hbody, hprint, ?_, Nat.le_of_not_lt hsize, hcarried⟩
              by_contra hnot
              exact hpath ⟨fun heq => hnot (.inl heq), by_contra fun hne => hnot (.inr hne)⟩
            obtain ⟨msg, hmsg⟩ := received_refused conv hbody hcarried
            refine ⟨appError (.codecError msg), _, ?_, received_appError lib _⟩
            simp only [hmsg]
      obtain ⟨r, msg, hserved, hreceived⟩ := hserved
      refine ⟨.valueError msg, .inr ⟨hprinted, msg, rfl⟩, ?_⟩
      simp only [HttpLib.client, request_printed hbody hprint htexts, hserved, hreceived, error_bind]
    · rw [Bool.not_eq_true] at hprint
      have hrequest : lib.request call.write =
          .error (.requestError "Exceeds the limit (4300 digits) for integer string conversion") := by
        rw [HttpLib.request, hbody, ok_bind, hprint, if_neg Bool.false_ne_true]
      generalize "Exceeds the limit (4300 digits) for integer string conversion" = msg at hrequest
      refine ⟨.requestError msg, .inl ⟨⟨body, hbody, hprint⟩, msg, rfl⟩, ?_⟩
      simp only [HttpLib.client, hrequest]

/-! ## Runs -/

open Classical in
/-- The calls of a run that reach the adapter. -/
noncomputable def delivered (calls : List Call) : List Call :=
  calls.filter fun call => Delivers call.write

theorem delivered_cons (h : Delivers call.write) (calls : List Call) :
    delivered (call :: calls) = call :: delivered calls :=
  List.filter_cons_of_pos (by simpa using h)

theorem delivered_cons_refused (h : ¬ Delivers call.write) (calls : List Call) :
    delivered (call :: calls) = delivered calls :=
  List.filter_cons_of_neg (by simpa using h)

theorem client_run (s : σ) {calls : List Call} (htexts : ∀ call ∈ calls, call.write.TextsPaired) :
    (lib.client conv B).run s calls = B.run s (delivered calls) := by
  induction calls generalizing s with
  | nil => rfl
  | cons call calls ih =>
    have htext := htexts call List.mem_cons_self
    have hstep : (lib.client conv B).run s (call :: calls) =
        (lib.client conv B).run ((lib.client conv B).perform call s).1 calls := rfl
    rw [hstep, ih _ fun c hc => htexts c (List.mem_cons_of_mem call hc)]
    by_cases h : Delivers call.write
    · rw [client_perform_delivered htext h, delivered_cons h]
      rfl
    · obtain ⟨e, -, he⟩ := client_perform_refused lib conv B s htext h
      rw [he, delivered_cons_refused h]

/-- Calls of any clients in any order: the adapter is left as by those of them that reach it, made directly;
    each of these is answered as the direct call, and the others are errors at the client. -/
theorem http_run_refines (lib : HttpLib) (conv : PyConversions) (B : Backend σ) (s : σ) (calls : List Call)
    (htexts : ∀ call ∈ calls, call.write.TextsPaired) :
    (lib.client conv B).run s calls = B.run s (delivered calls) ∧
    ∀ before call after, calls = before ++ call :: after →
      (Delivers call.write → ((lib.client conv B).perform call ((lib.client conv B).run s before)).2 =
        across Reply.json lib.remote (B.perform call (B.run s (delivered before))).2) ∧
      (¬ Delivers call.write → ∃ e, Refusal call.write e ∧
        ((lib.client conv B).perform call ((lib.client conv B).run s before)).2 = .error e) := by
  refine ⟨client_run s htexts, ?_⟩
  intro before call after hsplit
  subst hsplit
  have htext := htexts call (by simp)
  rw [client_run s fun c hc => htexts c (by simp [hc])]
  refine ⟨?_, ?_⟩
  · intro h
    rw [client_perform_delivered htext h]
  · intro h
    obtain ⟨e, hrefusal, he⟩ := client_perform_refused lib conv B (B.run s (delivered before)) htext h
    exact ⟨e, hrefusal, by rw [he]⟩

end

/-! A registration, and a stall whose time has too many digits. -/

namespace HttpWriteSample

def httpLib : HttpLib := ⟨8, le_refl 8, fun _ => ""⟩

def conversions : PyConversions := ⟨fun _ => [], fun _ => .ok 0⟩

/-- A library whose signatures are the keys. -/
def keyEth : EthLib :=
  { plainEth with
    signMessage := fun key _ => key
    recoverMessage := fun _ signature => some signature }

def register : Call := ⟨0, 0, .register smallConfig smallConfig.adminKey⟩

def registerBody : Json :=
  .obj [(pyStr "config", encConfig smallConfig), (pyStr "adminSig", encBytes smallConfig.adminKey)]

def stall : Call := ⟨0, 0, .tallyStalled smallConfig.electionId true [] (10 ^ maxStrDigits : Nat)⟩

def registered : InMemoryDataLayer where
  elections := (∅ : Dict Bytes Stored).set smallConfig.electionId { config := smallConfig }
  nextId := 1

theorem perform_register :
    (memoryBackend keyEth).perform register {} = (registered, .ok (.electionId (beBytes 32 1))) := by
  have hregister : Call.perform keyEth register {} = .ok registered :=
    registerElection_first rfl rfl fun _ => rfl
  have hafter : register.apply keyEth {} = registered := by rw [Call.apply, hregister]
  show (register.apply keyEth {}, (Call.perform keyEth register {}).map fun _ => memoryReply register {}) = _
  rw [hafter, hregister]
  rfl

theorem delivers_register : Delivers register.write := by
  have hconfig : encConfigLimited smallConfig = .ok (encConfig smallConfig) :=
    encConfigLimited_eq_ok.mpr ⟨rfl, Nat.pow_pos (by decide)⟩
  have hbody : bodyOf register.write = .ok registerBody := by
    rw [register, bodyOf, hconfig, ok_bind, pure_eq_ok, registerBody]
  have hsize : (bodyText registerBody).length ≤ 5000 := by decide +kernel
  have hlimit : 5000 ≤ maxContentLength := by decide
  exact ⟨registerBody, hbody, by decide +kernel, .inl rfl, le_trans hsize hlimit, length_beBytes 32 1⟩

theorem unprinted_stall : Unprinted stall.write := by
  refine ⟨_, rfl, ?_⟩
  have hint : (Json.int (10 ^ maxStrDigits : Nat)).printable = false := by
    rw [Bool.eq_false_iff, ne_eq, printable_nat]
    exact Nat.lt_irrefl _
  rw [Json.printable, Bool.eq_false_iff]
  intro hprint
  have hissued := printableFields_iff.mp hprint (pyStr "issuedAt", .int (10 ^ maxStrDigits : Nat))
    (List.mem_cons_of_mem _ (List.mem_cons_of_mem _ List.mem_cons_self))
  exact Bool.false_ne_true (hint.symm.trans hissued)

theorem delivered_calls : delivered [register, stall] = [register] := by
  rw [delivered_cons delivers_register, delivered_cons_refused (not_delivers_of_unprinted unprinted_stall)]
  exact congrArg (register :: ·) List.filter_nil

theorem textsPaired : ∀ call ∈ [register, stall], call.write.TextsPaired := by
  intro call hcall
  rcases List.mem_cons.mp hcall with rfl | hcall
  · show ∀ s ∈ smallConfig.texts, WellPaired s = true
    decide
  · rw [List.mem_singleton.mp hcall]
    trivial

end HttpWriteSample

open HttpWriteSample in
/-- The registration is made and returns its id; the stall is an error of the HTTP library. -/
theorem http_run_refines_of_two :
    (httpLib.client conversions (memoryBackend keyEth)).run {} [register, stall] = registered ∧
    ((httpLib.client conversions (memoryBackend keyEth)).perform register {}).2 =
      .ok (.electionId (beBytes 32 1)) ∧
    ∃ e, Refusal stall.write e ∧ ((httpLib.client conversions (memoryBackend keyEth)).perform stall
      ((httpLib.client conversions (memoryBackend keyEth)).run {} [register])).2 = .error e := by
  obtain ⟨hrun, hcalls⟩ :=
    http_run_refines httpLib conversions (memoryBackend keyEth) {} [register, stall] textsPaired
  have hregister := (hcalls [] register [stall] rfl).1 delivers_register
  have hdone : (memoryBackend keyEth).run {} [register] = registered := congrArg Prod.fst perform_register
  refine ⟨?_, ?_, (hcalls [register] stall [] rfl).2 (not_delivers_of_unprinted unprinted_stall)⟩
  · rw [hrun, delivered_calls, hdone]
  · have hnone : delivered ([] : List Call) = [] := List.filter_nil
    have hreply : (Reply.electionId (beBytes 32 1)).json.printable = true := printable_encBytes _
    rw [hnone, Backend.run_nil, Backend.run_nil, perform_register, across, if_pos hreply] at hregister
    exact hregister

end Http

end ElGamalVoting
