import ElGamalVoting.Envelopes.ConfigCodec

/- What an accepted configuration object says (`dec_config` of `envelopes/codecs.py`, read
   backwards).

   An object that decodes has every field of a configuration but two, under the type of that
   field, and the configuration is made of their values (`decConfig_reads`). -/
namespace ElGamalVoting
open Lib

/-! Primitive helpers, read backwards. -/

/-- A text of `0x` and digits that stand for the bytes. -/
def HexOf (s : PyStr) (raw : Bytes) : Prop := s.take 2 = pyStr "0x" ∧ fromHex (s.drop 2) = some raw

theorem decBytes_eq_ok {value : Json} {name : String} {size : Option Nat} {raw : Bytes}
    (h : decBytes value name size = .ok raw) : ∃ s, value = .str s ∧ HexOf s raw := by
  unfold decBytes at h
  split at h
  case h_1 s =>
    split at h
    case isTrue => cases h
    case isFalse htag =>
      split at h
      case h_1 => cases h
      case h_2 raw' hraw =>
        refine ⟨s, rfl, not_not.mp htag, ?_⟩
        split at h
        case h_1 =>
          cases h
          exact hraw
        case h_2 =>
          split at h
          · cases h
          · cases h
            exact hraw
  case h_2 => cases h

theorem req_eq_ok {d v : Json} {key : String} (h : req d key = .ok v) :
    ∃ fields, d = .obj fields ∧ Json.lookup fields key = some v := by
  unfold req at h
  split at h
  case h_1 fields =>
    split at h
    case h_1 => cases h
    case h_2 w hw =>
      cases h
      exact ⟨fields, rfl, hw⟩
  case h_2 => cases h

theorem decInt_eq_ok {value : Json} {name : String} {minimum : Option Int} {n : Int}
    (h : decInt value name minimum = .ok n) : value = .int n := by
  unfold decInt at h
  split at h
  case h_1 m =>
    split at h
    case h_1 =>
      cases h
      rfl
    case h_2 =>
      split at h
      · cases h
      · cases h
        rfl
  case h_2 => cases h

theorem decList_eq_ok {value : Json} {name : String} {items : List Json}
    (h : decList value name = .ok items) : value = .arr items := by
  unfold decList at h
  split at h
  · cases h
    rfl
  · cases h

theorem decEnum_eq_ok {α : Type} {members : List α} {value : α → String} {cls name : String} {raw : Json}
    {m : α} (h : decEnum members value cls raw name = .ok m) : raw = .str (pyStr (value m)) := by
  unfold decEnum at h
  split at h
  case h_1 s =>
    split at h
    case h_1 m' hfind =>
      cases h
      have hmember := List.find?_some hfind
      rw [decide_eq_true_eq] at hmember
      rw [hmember]
    case h_2 => cases h
  case h_2 => cases h

theorem mkThreshold_eq_ok {t n : Int} {th : Threshold} (h : mkThreshold t n = .ok th) :
    t = th.t ∧ n = th.n := by
  unfold mkThreshold at h
  split at h
  · cases h
  split at h
  · cases h
  split at h
  · cases h
  · cases h
    exact ⟨(Int.toNat_of_nonneg (by omega)).symm, (Int.toNat_of_nonneg (by omega)).symm⟩

theorem guard_eq_ok {α : Type} {p : Prop} [Decidable p] {e : PyError} {x : ¬ p → Py α} {a : α}
    (h : (if hp : p then .error e else x hp) = .ok a) : ∃ hp : ¬ p, x hp = .ok a := by
  by_cases hp : p
  · rw [dif_pos hp] at h
    cases h
  · rw [dif_neg hp] at h
    exact ⟨hp, h⟩

/-- A configuration that passes the checks is made of the arguments. -/
theorem check_eq_ok {f : ConfigFields} {c : ElectionConfig} (h : f.check = .ok c) : f = c.fields := by
  unfold ConfigFields.check at h
  obtain ⟨h₁, h⟩ := guard_eq_ok h
  obtain ⟨h₂, h⟩ := guard_eq_ok h
  obtain ⟨h₃, h⟩ := guard_eq_ok h
  obtain ⟨h₄, h⟩ := guard_eq_ok h
  obtain ⟨h₅, h⟩ := guard_eq_ok h
  obtain ⟨h₆, h⟩ := guard_eq_ok h
  obtain ⟨h₇, h⟩ := guard_eq_ok h
  obtain ⟨h₈, h⟩ := guard_eq_ok h
  obtain ⟨h₉, h⟩ := guard_eq_ok h
  obtain ⟨h₁₀, h⟩ := guard_eq_ok h
  cases h
  have hnum : (f.numCandidates.toNat : Int) = f.numCandidates := Int.toNat_of_nonneg (by omega)
  have hbudget : (f.budget.toNat : Int) = f.budget := Int.toNat_of_nonneg (by omega)
  have hscale : (f.scale.toNat : Int) = f.scale := Int.toNat_of_nonneg (by omega)
  have hfee : (f.selfSubmitFeeWei.toNat : Int) = f.selfSubmitFeeWei := Int.toNat_of_nonneg (by omega)
  simp only [ElectionConfig.fields, hnum, hbudget, hscale, hfee]

theorem asCodecError_eq_ok {α : Type} {x : Py α} {a : α} (h : asCodecError x = .ok a) : x = .ok a := by
  unfold asCodecError at h
  split at h
  · cases h
  · exact h

/-! ## The fields of an accepted object -/

/-- A member of the committee in the object. -/
structure KeyperRead (conv : PyConversions) (value : Json) (k : KeyperIdentity) : Prop where
  object : ∃ fields url, value = .obj fields ∧
    (∃ s, Json.lookup fields "signingKey" = some (.str s) ∧ HexOf s k.signingKey) ∧
    Json.lookup fields "url" = some url ∧ strOf conv url = k.url

/-- The fields of an object, by what they are in the configuration read from it. -/
structure ConfigRead (conv : PyConversions) (fields : List (PyStr × Json)) (c : ElectionConfig) :
    Prop where
  electionId : ∃ s, Json.lookup fields "electionId" = some (.str s) ∧ HexOf s c.electionId
  numCandidates : Json.lookup fields "numCandidates" = some (.int c.numCandidates)
  budget : Json.lookup fields "budget" = some (.int c.budget)
  mode : Json.lookup fields "mode" = some (.str (pyStr c.mode.value))
  variant : Json.lookup fields "variant" = some (.str (pyStr c.variant.value))
  weighted : ∃ v, Json.lookup fields "weighted" = some v ∧ truthy v = c.weighted
  scale : (Json.lookup fields "scale").getD (.int 1) = .int c.scale
  duplicatePolicy : Json.lookup fields "duplicatePolicy" = some (.str (pyStr c.duplicatePolicy.value))
  votingStart : Json.lookup fields "votingStart" = some (.int c.votingStart)
  votingEnd : Json.lookup fields "votingEnd" = some (.int c.votingEnd)
  threshold : ∃ th, Json.lookup fields "threshold" = some (.obj th) ∧
    Json.lookup th "t" = some (.int c.threshold.t) ∧ Json.lookup th "n" = some (.int c.threshold.n)
  keypers : ∃ items, Json.lookup fields "keypers" = some (.arr items) ∧
    List.Forall₂ (KeyperRead conv) items c.keypers
  eligibilityKey : ∃ s, Json.lookup fields "eligibilityKey" = some (.str s) ∧ HexOf s c.eligibilityKey
  resultPublisherKey : ∃ s, Json.lookup fields "resultPublisherKey" = some (.str s) ∧
    HexOf s c.resultPublisherKey
  gatewayKeys : ∃ items, Json.lookup fields "gatewayKeys" = some (.arr items) ∧
    List.Forall₂ (fun v g => ∃ s, v = .str s ∧ HexOf s g) items c.gatewayKeys
  adminKey : ∃ s, Json.lookup fields "adminKey" = some (.str s) ∧ HexOf s c.adminKey
  protocolVersion : ∃ v, Json.lookup fields "protocolVersion" = some v ∧
    strOf conv v = c.protocolVersion
  selfSubmitFee : decFee conv (.obj fields) = .ok (c.selfSubmitFeeWei : Int)

section
variable {conv : PyConversions} {fields : List (PyStr × Json)}

theorem lookup_of_req {v : Json} {key : String} (h : req (.obj fields) key = .ok v) :
    Json.lookup fields key = some v := by
  obtain ⟨_, hd, hv⟩ := req_eq_ok h
  cases hd
  exact hv

theorem hex_of_req {v : Json} {key name : String} {size : Option Nat} {raw : Bytes}
    (h : req (.obj fields) key = .ok v) (hdec : decBytes v name size = .ok raw) :
    ∃ s, Json.lookup fields key = some (.str s) ∧ HexOf s raw := by
  obtain ⟨s, rfl, hs⟩ := decBytes_eq_ok hdec
  exact ⟨s, lookup_of_req h, hs⟩

theorem keyperRead_of_dec {value : Json} {i : Nat} {k : KeyperIdentity}
    (h : decKeyper conv value i = .ok k) : KeyperRead conv value k := by
  obtain ⟨key, hkey, h⟩ := bind_eq_ok.mp h
  obtain ⟨signingKey, hsigning, h⟩ := bind_eq_ok.mp h
  obtain ⟨url, hurl, h⟩ := bind_eq_ok.mp h
  cases h
  obtain ⟨fields, rfl, -⟩ := req_eq_ok hkey
  exact ⟨fields, url, rfl, hex_of_req hkey hsigning, lookup_of_req hurl, rfl⟩

/-- What is read from a list with its positions is read from the list. -/
theorem forall₂_zipIdx {α β : Type} {R : α → β → Prop} {f : α × Nat → Py β} {xs : List α} {ys : List β}
    (hf : ∀ x i y, f (x, i) = .ok y → R x y) (h : xs.zipIdx.mapM f = .ok ys) : List.Forall₂ R xs ys := by
  rw [mapM_eq_ok] at h
  generalize 0 = start at h
  induction xs generalizing ys start with
  | nil =>
    cases h
    exact .nil
  | cons x xs ih =>
    rw [List.zipIdx_cons] at h
    cases h with
    | cons hhead htail => exact .cons (hf _ _ _ hhead) (ih _ htail)

theorem decConfigFields_reads {th : List (PyStr × Json)} {keypers : List Json} {c : ElectionConfig}
    (hth : Json.lookup fields "threshold" = some (.obj th))
    (hkeypers : Json.lookup fields "keypers" = some (.arr keypers))
    (h : decConfigFields conv (.obj fields) (.obj th) keypers = .ok c) : ConfigRead conv fields c := by
  obtain ⟨f, hf, h⟩ := bind_eq_ok.mp h
  obtain ⟨fee, hfee, h⟩ := bind_eq_ok.mp h
  obtain ⟨v1, h1, hf⟩ := bind_eq_ok.mp hf
  obtain ⟨electionId, hid, hf⟩ := bind_eq_ok.mp hf
  obtain ⟨v2, h2, hf⟩ := bind_eq_ok.mp hf
  obtain ⟨numCandidates, hnum, hf⟩ := bind_eq_ok.mp hf
  obtain ⟨v3, h3, hf⟩ := bind_eq_ok.mp hf
  obtain ⟨budget, hbudget, hf⟩ := bind_eq_ok.mp hf
  obtain ⟨v4, h4, hf⟩ := bind_eq_ok.mp hf
  obtain ⟨mode, hmode, hf⟩ := bind_eq_ok.mp hf
  obtain ⟨v5, h5, hf⟩ := bind_eq_ok.mp hf
  obtain ⟨variant, hvariant, hf⟩ := bind_eq_ok.mp hf
  obtain ⟨weighted, hweighted, hf⟩ := bind_eq_ok.mp hf
  obtain ⟨scale, hscale, hf⟩ := bind_eq_ok.mp hf
  obtain ⟨v6, h6, hf⟩ := bind_eq_ok.mp hf
  obtain ⟨policy, hpolicy, hf⟩ := bind_eq_ok.mp hf
  obtain ⟨v7, h7, hf⟩ := bind_eq_ok.mp hf
  obtain ⟨votingStart, hstart, hf⟩ := bind_eq_ok.mp hf
  obtain ⟨v8, h8, hf⟩ := bind_eq_ok.mp hf
  obtain ⟨votingEnd, hend, hf⟩ := bind_eq_ok.mp hf
  obtain ⟨v9, h9, hf⟩ := bind_eq_ok.mp hf
  obtain ⟨t, ht, hf⟩ := bind_eq_ok.mp hf
  obtain ⟨v10, h10, hf⟩ := bind_eq_ok.mp hf
  obtain ⟨n, hn, hf⟩ := bind_eq_ok.mp hf
  obtain ⟨threshold, hthreshold, hf⟩ := bind_eq_ok.mp hf
  obtain ⟨members, hmembers, hf⟩ := bind_eq_ok.mp hf
  obtain ⟨v11, h11, hf⟩ := bind_eq_ok.mp hf
  obtain ⟨eligibilityKey, heligibility, hf⟩ := bind_eq_ok.mp hf
  obtain ⟨v12, h12, hf⟩ := bind_eq_ok.mp hf
  obtain ⟨publisher, hpublisher, hf⟩ := bind_eq_ok.mp hf
  obtain ⟨v13, h13, hf⟩ := bind_eq_ok.mp hf
  obtain ⟨gatewayItems, hgateways, hf⟩ := bind_eq_ok.mp hf
  obtain ⟨gatewayKeys, hkeys, hf⟩ := bind_eq_ok.mp hf
  obtain ⟨v14, h14, hf⟩ := bind_eq_ok.mp hf
  obtain ⟨adminKey, hadmin, hf⟩ := bind_eq_ok.mp hf
  obtain ⟨version, hversion, hf⟩ := bind_eq_ok.mp hf
  cases hf
  -- the arguments are those of the configuration
  have hfields := check_eq_ok h
  simp only [ElectionConfig.fields, ConfigFields.mk.injEq] at hfields
  obtain ⟨rfl, rfl, rfl, rfl, rfl, hweight, rfl, rfl, rfl, rfl, rfl, rfl, rfl, rfl, rfl, rfl, htext, rfl⟩ :=
    hfields
  obtain ⟨rfl, rfl⟩ := mkThreshold_eq_ok hthreshold
  rw [decInt_eq_ok hnum] at h2
  rw [decInt_eq_ok hbudget] at h3
  rw [decEnum_eq_ok hmode] at h4
  rw [decEnum_eq_ok hvariant] at h5
  rw [decEnum_eq_ok hpolicy] at h6
  rw [decInt_eq_ok hstart] at h7
  rw [decInt_eq_ok hend] at h8
  rw [decInt_eq_ok ht] at h9
  rw [decInt_eq_ok hn] at h10
  rw [decList_eq_ok hgateways] at h13
  exact {
    electionId := hex_of_req h1 hid
    numCandidates := lookup_of_req h2
    budget := lookup_of_req h3
    mode := lookup_of_req h4
    variant := lookup_of_req h5
    weighted := ⟨weighted, lookup_of_req hweighted, hweight⟩
    scale := decInt_eq_ok hscale
    duplicatePolicy := lookup_of_req h6
    votingStart := lookup_of_req h7
    votingEnd := lookup_of_req h8
    threshold := ⟨th, hth, lookup_of_req h9, lookup_of_req h10⟩
    keypers := ⟨keypers, hkeypers, forall₂_zipIdx (fun _ _ _ hk => keyperRead_of_dec hk) hmembers⟩
    eligibilityKey := hex_of_req h11 heligibility
    resultPublisherKey := hex_of_req h12 hpublisher
    gatewayKeys := ⟨gatewayItems, lookup_of_req h13,
      forall₂_zipIdx (fun _ _ _ hg => decBytes_eq_ok hg) hkeys⟩
    adminKey := hex_of_req h14 hadmin
    protocolVersion := ⟨version, lookup_of_req hversion, htext⟩
    selfSubmitFee := hfee }

/-- An accepted value is an object with the fields of the configuration. -/
theorem decConfig_reads {d : Json} {c : ElectionConfig} (h : decConfig conv d = .ok c) :
    ∃ fields, d = .obj fields ∧ ConfigRead conv fields c := by
  obtain ⟨th, hth, h⟩ := bind_eq_ok.mp h
  obtain ⟨v, hv, h⟩ := bind_eq_ok.mp h
  obtain ⟨keypers, hkeypers, h⟩ := bind_eq_ok.mp h
  obtain ⟨fields, rfl, -⟩ := req_eq_ok hth
  refine ⟨fields, rfl, ?_⟩
  rw [decList_eq_ok hkeypers] at hv
  have hfields := asCodecError_eq_ok h
  -- the threshold is an object: a field of it is read
  have hobject : ∃ obj, th = .obj obj := by
    by_contra hnot
    have hreq : ∀ key v, req th key ≠ .ok v := by
      intro key v hok
      obtain ⟨obj, rfl, -⟩ := req_eq_ok hok
      exact hnot ⟨obj, rfl⟩
    obtain ⟨v9, h9⟩ : ∃ v, req th "t" = .ok v := by
      obtain ⟨f, hfields, -⟩ := bind_eq_ok.mp hfields
      iterate 18
        obtain ⟨_, -, hfields⟩ := bind_eq_ok.mp hfields
      obtain ⟨v9, h9, -⟩ := bind_eq_ok.mp hfields
      exact ⟨v9, h9⟩
    exact hreq "t" v9 h9
  obtain ⟨obj, rfl⟩ := hobject
  exact decConfigFields_reads (lookup_of_req hth) (lookup_of_req hv) hfields

end
end ElGamalVoting
