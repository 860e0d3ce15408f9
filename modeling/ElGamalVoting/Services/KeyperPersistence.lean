import ElGamalVoting.Envelopes.JsonText
import ElGamalVoting.Services.KeyperPublish
import ElGamalVoting.Services.PortServer

/- The keyper's secrets at rest (`services/keyper/keyper_persistence.py`, the restart of
   `services/keyper/keyper_server.py`).

   Round 2 of the DKG puts the combined share into memory (`completed`) and writes all of them to one
   file, encrypted; the prune loop drops the expired ones from both; a new process reads the file. The
   file is replaced as a whole, so a process that is killed during a call has replaced it or has
   not: the run has the call before the restart, or has not.

   `restart_restores` is what the file is for. Whenever a process stops between two calls, the next one
   holds the same secrets; and in every run a secret is among the completed ones and in the file until a
   prune pass past its expiry, and never after it (`secret_held_until_pruned`). The pass leaves
   `dkg_states` alone: a share that is gone from both is still in the state of its attempt until the
   process ends or a round 1 begins another.

   Fernet is outside the repository: encryption has its draw as an argument. The file is read as
   UTF-8, which is what it is written in. -/
namespace ElGamalVoting
open Lib

/-! ## Hexadecimal numbers -/

/-- Python's `hex`. -/
def pyHex (n : Int) : PyStr :=
  (if n < 0 then [0x2D] else []) ++ (pyStr "0x" ++ (Nat.toDigits 16 n.natAbs).map Char.toNat)

def hexDigitValue (c : Nat) : Option Nat := (digitValue c).or (hexValue c)

/-- The digits after the first: one underscore may stand between two of them. -/
def moreHexDigits (acc : Nat) : PyStr → Option Nat
  | [] => some acc
  | [c] => (hexDigitValue c).map fun v => 16 * acc + v
  | c :: d :: rest =>
    if c = 0x5F then (hexDigitValue d).bind fun v => moreHexDigits (16 * acc + v) rest
    else (hexDigitValue c).bind fun v => moreHexDigits (16 * acc + v) (d :: rest)

def hexDigits : PyStr → Option Nat
  | [] => none
  | c :: rest => (hexDigitValue c).bind fun v => moreHexDigits v rest

/-- The mark of the base may stand before the digits, and one underscore behind it. -/
def dropHexMark : PyStr → PyStr
  | c :: x :: rest =>
    if digitValue c = some 0 ∧ (x = 0x78 ∨ x = 0x58) then
      if rest.head? = some 0x5F then rest.drop 1 else rest
    else c :: x :: rest
  | s => s

/-- `int(text, 16)` -/
def intOfHex (s : PyStr) : Option Int :=
  let t := stripBy isIntSpace s
  if t.head? = some 0x2D then (hexDigits (dropHexMark (t.drop 1))).map fun n : Nat => -(n : Int)
  else if t.head? = some 0x2B then (hexDigits (dropHexMark (t.drop 1))).map Int.ofNat
  else (hexDigits (dropHexMark t)).map Int.ofNat

/-- `int(value, 16)` -/
def intOfBase16 (value : Json) : Py Int :=
  match value with
  | .str s =>
    match intOfHex s with
    | some n => .ok n
    | none => .error (.valueError "invalid literal for int() with base 16")
  | _ => .error (.typeError "int() can't convert non-string with explicit base")

/-! ## The file -/

/-- What the encryption and the interpreter decide. -/
structure AtRest where
  conv : PyConversions
  /-- How deep a JSON value may be nested. -/
  depth : Nat
  /-- `Fernet.encrypt`, which draws a time and an initialisation vector. -/
  encrypt : Nat → Bytes → Bytes
  /-- `Fernet.decrypt`, `none` for `InvalidToken`. -/
  decrypt : Bytes → Option Bytes

structure AtRest.Documented (lib : AtRest) : Prop where
  deep : 2 ≤ lib.depth
  decrypts : ∀ draw data, lib.decrypt (lib.encrypt draw data) = some data

/-- The interpreter prints the number. -/
def printable (n : Int) : Bool := (Nat.toDigits 10 n.natAbs).length ≤ maxStrDigits

def secretRow (e : DkgEntry) : Json :=
  .obj ((pyStr "share", .str (pyHex e.combinedShare)) ::
    e.expiresAt.toList.map fun t => (pyStr "expires_at", .int t))

def secretsJson (completed : Dict PyStr DkgEntry) : Json :=
  .obj (completed.entries.map fun e => (e.1, secretRow e.2))

/-- The new content of `dkg_secrets.enc`. -/
def saveDkgSecrets (lib : AtRest) (draw : Nat) (completed : Dict PyStr DkgEntry) : Py Bytes :=
  if completed.entries.all fun e => e.2.expiresAt.all printable then
    .ok (lib.encrypt draw (asciiBytes ((secretsJson completed).render [0x20])))
  else .error (.valueError ("Exceeds the limit (4300 digits) for integer string conversion; use " ++
    "sys.set_int_max_str_digits() to increase the limit"))

def loadEntry (conv : PyConversions) (raw : Json) : Py DkgEntry := do
  let exp ← Http.getField raw "expires_at"
  let share ← Http.subscript raw "share"
  let combinedShare ← intOfBase16 share
  let expiresAt ← match exp with
    | .null => pure none
    | exp => (intOf conv exp).map some
  pure { combinedShare, expiresAt }

/-- The rows up to the first that raises: what was set before it stays set. -/
def loadRows (conv : PyConversions) : List (PyStr × Json) → List (PyStr × DkgEntry)
  | [] => []
  | (eid, raw) :: rows =>
    match loadEntry conv raw with
    | .ok entry => (eid, entry) :: loadRows conv rows
    | .error _ => []

/-- What a new process starts with; whatever is wrong with the file is logged. -/
def loadDkgSecrets (lib : AtRest) (file : Option Bytes) : Dict PyStr DkgEntry :=
  match file.bind lib.decrypt with
  | none => ∅
  | some text =>
    match (decodeUtf8 text).map (jsonLoads lib.depth) with
    | some (.ok (.obj fields)) =>
      (∅ : Dict PyStr DkgEntry).update (loadRows lib.conv ((∅ : Dict PyStr Json).update fields).entries)
    | _ => ∅

/-! ## The process and its file -/

/-- A keyper's process and its `dkg_secrets.enc`. -/
structure KeyperHost (G₂ : Type) where
  server : KeyperServer G₂ := {}
  secretsFile : Option Bytes := none

def DkgEntry.expired (now : ℚ) (e : DkgEntry) : Bool := e.expiresAt.any fun t => (t : ℚ) ≤ now

inductive HostEvent where
  | call (call : KeyperCall) (draw : Nat)
  | prune (now : ℚ) (draw : Nat)
  /-- The process stops and a new one starts on the same directory. -/
  | restart

section
variable {G₁ G₂ : Type} [AddCommGroup G₁] [AddCommGroup G₂] [DecidableEq G₂] (lib : AtRest)
  (S : Suite G₁ G₂) (E : EthLib) (node : KeyperNode)

/-- A handler; a verified round 2 saves the secrets before it answers. -/
def KeyperHost.call (h : KeyperHost G₂) (call : KeyperCall) (draw : Nat) : KeyperHost G₂ × Handle Reply :=
  match call.handle S E node h.server with
  | (s, .ok .verified) =>
    match saveDkgSecrets lib draw s.completed with
    | .ok file => (⟨s, some file⟩, .ok .verified)
    | .error e => (⟨s, h.secretsFile⟩, .error (.raised e))
  | (s, reply) => (⟨s, h.secretsFile⟩, reply)

omit [AddCommGroup G₂] [DecidableEq G₂] in
/-- `prune_expired` in the prune loop, which goes on after an error. -/
def KeyperHost.prune (h : KeyperHost G₂) (now : ℚ) (draw : Nat) : KeyperHost G₂ :=
  let kept := h.server.completed.filter fun e => !e.2.expired now
  let s := { h.server with completed := kept }
  if h.server.completed.entries.any fun e => e.2.expired now then
    match saveDkgSecrets lib draw kept with
    | .ok file => ⟨s, some file⟩
    | .error _ => ⟨s, h.secretsFile⟩
  else ⟨s, h.secretsFile⟩

omit [AddCommGroup G₂] [DecidableEq G₂] in
def KeyperHost.restart (h : KeyperHost G₂) : KeyperHost G₂ :=
  ⟨{ completed := loadDkgSecrets lib h.secretsFile }, h.secretsFile⟩

def KeyperHost.step (h : KeyperHost G₂) : HostEvent → KeyperHost G₂
  | .call call draw => (h.call lib S E node call draw).1
  | .prune now draw => h.prune lib now draw
  | .restart => h.restart lib

/-- A run from a new process on an empty directory. -/
def KeyperHost.run (events : List HostEvent) : KeyperHost G₂ :=
  events.foldl (KeyperHost.step lib S E node) {}

end

/-! ## A number is read back from its hexadecimal text -/

/-- The value of a digit of a text that has no other characters. -/
def hexOf (c : Char) : Nat := (hexDigitValue c.toNat).getD 0

/-- A digit as `hex` writes it is a digit, and none of the other characters. -/
theorem digitChar_spec {d : Nat} (hd : d < 16) : hexDigitValue d.digitChar.toNat = some d ∧
    isIntSpace d.digitChar.toNat = false ∧ d.digitChar.toNat ∉ [0x2B, 0x2D, 0x5F, 0x58, 0x78] := by
  have hall : ∀ d : Fin 16, hexDigitValue d.val.digitChar.toNat = some d.val ∧
      isIntSpace d.val.digitChar.toNat = false ∧ d.val.digitChar.toNat ∉ [0x2B, 0x2D, 0x5F, 0x58, 0x78] := by
    decide +kernel
  exact hall ⟨d, hd⟩

theorem mem_toDigits16 (n : Nat) : ∀ c ∈ Nat.toDigits 16 n, ∃ d < 16, c = d.digitChar := by
  induction n using Nat.strong_induction_on with
  | _ n ih =>
    intro c hc
    by_cases hn : n < 16
    · rw [Nat.toDigits_of_lt_base hn, List.mem_singleton] at hc
      exact ⟨n, hn, hc⟩
    · rw [Nat.toDigits_of_base_le (by decide) (by omega), List.mem_append, List.mem_singleton] at hc
      rcases hc with hc | rfl
      · exact ih (n / 16) (by omega) c hc
      · exact ⟨n % 16, by omega, rfl⟩

theorem foldl_toDigits16 (n : Nat) : (Nat.toDigits 16 n).foldl (fun acc c => 16 * acc + hexOf c) 0 = n := by
  induction n using Nat.strong_induction_on with
  | _ n ih =>
    have hvalue : ∀ d < 16, hexOf d.digitChar = d := fun d hd => by
      rw [hexOf, (digitChar_spec hd).1, Option.getD_some]
    by_cases hn : n < 16
    · rw [Nat.toDigits_of_lt_base hn, List.foldl_cons, List.foldl_nil, hvalue n hn]
      omega
    · rw [Nat.toDigits_of_base_le (by decide) (by omega), List.foldl_append, ih (n / 16) (by omega),
        List.foldl_cons, List.foldl_nil, hvalue (n % 16) (by omega)]
      omega

theorem moreHexDigits_digits {l : List Char} (hl : ∀ c ∈ l, ∃ d < 16, c = d.digitChar) (acc : Nat) :
    moreHexDigits acc (l.map Char.toNat) = some (l.foldl (fun acc c => 16 * acc + hexOf c) acc) := by
  induction l generalizing acc with
  | nil => rfl
  | cons c l ih =>
    obtain ⟨d, hd, rfl⟩ := hl c List.mem_cons_self
    obtain ⟨hvalue, -, hother⟩ := digitChar_spec hd
    have hof : hexOf d.digitChar = d := by rw [hexOf, hvalue, Option.getD_some]
    rw [List.foldl_cons, hof, ← ih fun c hc => hl c (List.mem_cons_of_mem _ hc)]
    cases l with
    | nil => simp only [List.map_cons, List.map_nil, moreHexDigits, hvalue, Option.map_some]
    | cons e l =>
      have hunderscore : d.digitChar.toNat ≠ 0x5F := fun h => hother (by rw [h]; decide)
      rw [List.map_cons, List.map_cons, moreHexDigits, if_neg hunderscore, hvalue, Option.bind_some]

theorem hexDigits_toDigits16 (n : Nat) : hexDigits ((Nat.toDigits 16 n).map Char.toNat) = some n := by
  have hdigits := mem_toDigits16 n
  have hfold := foldl_toDigits16 n
  obtain ⟨c, l, hcons⟩ := List.exists_cons_of_ne_nil (Nat.toDigits_ne_nil (n := n) (b := 16))
  rw [hcons] at hdigits hfold ⊢
  obtain ⟨d, hd, rfl⟩ := hdigits c List.mem_cons_self
  have hvalue := (digitChar_spec hd).1
  rw [List.foldl_cons, hexOf, hvalue, Option.getD_some, Nat.mul_zero, Nat.zero_add] at hfold
  rw [List.map_cons, hexDigits, hvalue, Option.bind_some,
    moreHexDigits_digits fun c hc => hdigits c (List.mem_cons_of_mem _ hc), hfold]

/-- A sign, the mark of the base and digits. -/
theorem mem_pyHex {n : Int} {c : Nat} (hc : c ∈ pyHex n) : c ∈ 0x2D :: pyStr "0x" ∨ ∃ d < 16, c = d.digitChar.toNat := by
  rw [pyHex, List.mem_append, List.mem_append] at hc
  rcases hc with hc | hc | hc
  · split at hc
    · exact .inl (List.mem_cons.mpr (.inl (List.mem_singleton.mp hc)))
    · cases hc
  · exact .inl (List.mem_cons_of_mem _ hc)
  · obtain ⟨x, hx, rfl⟩ := List.mem_map.mp hc
    obtain ⟨d, hd, rfl⟩ := mem_toDigits16 _ x hx
    exact .inr ⟨d, hd, rfl⟩

theorem stripBy_pyHex (n : Int) : stripBy isIntSpace (pyHex n) = pyHex n := by
  refine stripBy_eq_self fun c hc => ?_
  rcases mem_pyHex hc with hc | ⟨d, hd, rfl⟩
  · have hfront : ∀ c ∈ 0x2D :: pyStr "0x", isIntSpace c = false := by decide
    exact hfront c hc
  · exact (digitChar_spec hd).2.1

theorem dropHexMark_digits (n : Nat) :
    dropHexMark (pyStr "0x" ++ (Nat.toDigits 16 n).map Char.toNat) = (Nat.toDigits 16 n).map Char.toNat := by
  have hdigits := mem_toDigits16 n
  obtain ⟨c, l, hcons⟩ := List.exists_cons_of_ne_nil (Nat.toDigits_ne_nil (n := n) (b := 16))
  rw [hcons] at hdigits ⊢
  obtain ⟨d, hd, rfl⟩ := hdigits c List.mem_cons_self
  -- the first digit is no underscore, so nothing but the mark is dropped
  have hunderscore : ¬ some d.digitChar.toNat = some 0x5F := by
    rw [Option.some.injEq]
    exact fun h => (digitChar_spec hd).2.2 (by rw [h]; decide)
  have hzero : digitValue '0'.toNat = some 0 ∧ ('x'.toNat = 0x78 ∨ 'x'.toNat = 0x58) := by decide
  rw [show pyStr "0x" = ['0'.toNat, 'x'.toNat] from rfl, List.cons_append, List.singleton_append, dropHexMark,
    if_pos hzero, List.map_cons, List.head?_cons, if_neg hunderscore]

theorem intOfHex_pyHex (n : Int) : intOfHex (pyHex n) = some n := by
  rw [intOfHex, stripBy_pyHex, pyHex]
  by_cases hneg : n < 0
  · rw [if_pos hneg, List.singleton_append, List.head?_cons, if_pos rfl, List.drop_succ_cons, List.drop_zero,
      dropHexMark_digits, hexDigits_toDigits16, Option.map_some]
    congr 1
    omega
  · have hhead : (pyStr "0x" ++ (Nat.toDigits 16 n.natAbs).map Char.toNat).head? = some 0x30 := rfl
    rw [if_neg hneg, List.nil_append, hhead, if_neg (by decide), if_neg (by decide), dropHexMark_digits,
      hexDigits_toDigits16, Option.map_some]
    congr 1
    exact Int.natAbs_of_nonneg (by omega)

/-! ## The secrets are read back from the file -/

theorem loadEntry_secretRow (conv : PyConversions) (e : DkgEntry) : loadEntry conv (secretRow e) = .ok e := by
  obtain ⟨share, expires⟩ := e
  have hshare : intOfBase16 (.str (pyHex share)) = .ok share := by
    rw [intOfBase16]
    simp only [intOfHex_pyHex]
  cases expires with
  | none =>
    have hget : Http.getField (secretRow ⟨share, none⟩) "expires_at" = .ok .null := rfl
    have hitem : Http.subscript (secretRow ⟨share, none⟩) "share" = .ok (.str (pyHex share)) := rfl
    simp only [loadEntry, hget, hitem, ok_bind, hshare]
    rfl
  | some t =>
    have hget : Http.getField (secretRow ⟨share, some t⟩) "expires_at" = .ok (.int t) := rfl
    have hitem : Http.subscript (secretRow ⟨share, some t⟩) "share" = .ok (.str (pyHex share)) := rfl
    simp only [loadEntry, hget, hitem, ok_bind, hshare]
    rfl

theorem loadRows_secrets (conv : PyConversions) (l : List (PyStr × DkgEntry)) :
    loadRows conv (l.map fun e => (e.1, secretRow e.2)) = l := by
  induction l with
  | nil => rfl
  | cons e l ih =>
    rw [List.map_cons, loadRows, loadEntry_secretRow]
    simp only [ih]

/-- What `json.dumps` writes of the entries is read back. -/
def Storable (completed : Dict PyStr DkgEntry) : Prop :=
  ∀ e ∈ completed.entries, WellPaired e.1 = true ∧ e.2.expiresAt.all printable = true

theorem readable_secretRow {depth : Nat} {e : DkgEntry} (h : e.expiresAt.all printable = true) :
    (secretRow e).readable (depth + 1) = true := by
  rw [secretRow, Json.readable, readableFields_iff]
  have hnames : WellPaired (pyStr "share") = true ∧ WellPaired (pyStr "expires_at") = true := by decide
  intro f hf
  rcases List.mem_cons.mp hf with rfl | hf
  · refine ⟨hnames.1, ?_⟩
    rw [Json.readable]
    refine wellPaired_of_lt fun c hc => ?_
    rcases mem_pyHex hc with hc | ⟨d, hd, rfl⟩
    · have hfront : ∀ c ∈ 0x2D :: pyStr "0x", c < 0xD800 := by decide
      exact hfront c hc
    · have hdigit : ∀ d < 16, d.digitChar.toNat < 0xD800 := by decide
      exact hdigit d hd
  · obtain ⟨t, ht, rfl⟩ := List.mem_map.mp hf
    refine ⟨hnames.2, ?_⟩
    rw [Option.mem_toList] at ht
    rw [Option.mem_def.mp ht, Option.all_some] at h
    exact h

theorem loadDkgSecrets_save {lib : AtRest} (hlib : lib.Documented) {completed : Dict PyStr DkgEntry}
    (h : Storable completed) (draw : Nat) :
    ∃ file, saveDkgSecrets lib draw completed = .ok file ∧ loadDkgSecrets lib (some file) = completed := by
  refine ⟨_, if_pos (List.all_eq_true.mpr fun e he => (h e he).2), ?_⟩
  obtain ⟨depth, hdepth⟩ : ∃ depth, lib.depth = depth + 2 := ⟨lib.depth - 2, by have := hlib.deep; omega⟩
  have hread : (secretsJson completed).readable (depth + 2) = true := by
    rw [secretsJson, Json.readable, readableFields_iff]
    intro f hf
    obtain ⟨e, he, rfl⟩ := List.mem_map.mp hf
    exact ⟨(h e he).1, readable_secretRow (h e he).2⟩
  have hfields : ((∅ : Dict PyStr Json).update (completed.entries.map fun e => (e.1, secretRow e.2))).entries =
      completed.entries.map fun e => (e.1, secretRow e.2) := by
    refine Dict.entries_update ?_ fun _ _ => rfl
    rw [List.map_map]
    exact completed.nodup
  rw [loadDkgSecrets, Option.bind_some, hlib.decrypts]
  have hloads := loads_render (show isGap [0x20] = true by decide) hread
  simp only [hdepth, hloads]
  rw [secretsJson]
  simp only [hfields, loadRows_secrets, Dict.update_entries]

/-! ## What a call stores -/

section
variable {G₁ G₂ : Type} [AddCommGroup G₁] [AddCommGroup G₂] [DecidableEq G₂] {lib : AtRest}
  {S : Suite G₁ G₂} {E : EthLib} {node : KeyperNode}

/-- What a verified round 2 stored. -/
theorem dkgRound2_verified {s : KeyperServer G₂} {electionId : PyStr}
    (h : (dkgRound2 S E node s electionId).2 = .ok .verified) :
    ∃ eid config combined, fromHex electionId = some eid ∧ node.getConfig eid = .ok config ∧
      (dkgRound2 S E node s electionId).1.completed = s.completed.set (electionKey eid)
        ⟨combined, node.retention.map fun ttl => config.votingEnd + ttl⟩ := by
  unfold dkgRound2 at h ⊢
  split at h
  · cases h
  · rename_i eid config hread
    obtain ⟨eid', heid, hread'⟩ := bind_eq_ok.mp hread
    obtain ⟨config', hconfig, hread'⟩ := bind_eq_ok.mp hread'
    cases hread'
    refine ⟨eid, config, ?_⟩
    simp only
    cases hdealt : s.dkgStates.get? (electionKey eid) with
    | none =>
      rw [hdealt] at h
      cases h
    | some st =>
      simp only [hdealt, withInbox_box, withInbox_dkgStates, withInbox_completed] at h ⊢
      cases hidx : myIndex E node config with
      | error e =>
        rw [hidx] at h
        cases h
      | ok idx =>
        simp only [hidx] at h ⊢
        split at h
        · rename_i bad hrejects
          have hmap := liftPy_eq_ok.mp h
          cases haccused : accusationsOf E node eid idx bad with
          | error e =>
            rw [haccused] at hmap
            cases hmap
          | ok accusations =>
            rw [haccused] at hmap
            cases hmap
        · cases h
        · rename_i st' combined pk hcombines
          exact ⟨combined, electionBytes_eq_ok.mp heid, liftPy_eq_ok.mp hconfig, rfl⟩

variable (S E node) in
/-- A call stores nothing and does not report a verified round 2, or it is round 2 of an election
    and stores its share until the retention time after the end of the vote. -/
theorem handle_completed (s : KeyperServer G₂) (call : KeyperCall) :
    ((call.handle S E node s).1.completed = s.completed ∧ (call.handle S E node s).2 ≠ .ok .verified) ∨
      ∃ electionId eid config combined, call = .dkgRound2 electionId ∧ fromHex electionId = some eid ∧
        node.getConfig eid = .ok config ∧ (call.handle S E node s).2 = .ok .verified ∧
        (call.handle S E node s).1.completed = s.completed.set (electionKey eid)
          ⟨combined, node.retention.map fun ttl => config.votingEnd + ttl⟩ := by
  have heffect : Effect S E node s call (call.handle S E node s).1 (call.handle S E node s).2 := handle_effect call
  generalize hs : (call.handle S E node s).1 = s', hr : (call.handle S E node s).2 = reply at heffect
  cases heffect with
  | quiet completed states boxes unverified => exact .inl ⟨completed, unverified⟩
  | round1 share parsed known mine fresh completed states boxes => exact .inl ⟨completed, by simp⟩
  | commitments parsed known dealer first sized completed states boxes => exact .inl ⟨completed, by simp⟩
  | share value parsed known dealer mine allowed completed states boxes => exact .inl ⟨completed, by simp⟩
  | complain bad parsed dealt rejects completed states boxes unverified => exact .inl ⟨completed, unverified⟩
  | @round2 electionId _ _ _ _ _ _ _ _ parsed known dealt combines completed states boxes =>
    obtain ⟨eid, config, combined, hparsed, hknown, hstored⟩ := dkgRound2_verified hr
    exact .inr ⟨electionId, eid, config, combined, rfl, hparsed, hknown, rfl, hs ▸ hstored⟩
  | published dealt completed states boxes => exact .inl ⟨completed, by simp⟩

theorem call_server (h : KeyperHost G₂) (call : KeyperCall) (draw : Nat) :
    (h.call lib S E node call draw).1.server = (call.handle S E node h.server).1 := by
  rw [KeyperHost.call]
  split
  · rename_i s hhandle
    rw [hhandle]
    split <;> rfl
  · rename_i s reply hhandle
    rw [hhandle]

/-! ## The file holds what the memory holds -/

/-- The interpreter prints every expiry. -/
def KeyperNode.Printable (node : KeyperNode) : Prop :=
  ∀ eid config, node.getConfig eid = .ok config → ∀ ttl ∈ node.retention, printable (config.votingEnd + ttl) = true

/-- A process that stops here loses no secret. -/
structure Saved (lib : AtRest) (h : KeyperHost G₂) : Prop where
  storable : Storable h.server.completed
  file : loadDkgSecrets lib h.secretsFile = h.server.completed

theorem wellPaired_electionKey (eid : Bytes) : WellPaired (electionKey eid) = true := by
  have hmarked := plain_encBytes eid
  rw [encBytes, Json.plain] at hmarked
  exact (wellPaired_cons (wellPaired_cons hmarked).2.2).2.2

theorem Storable.set {d : Dict PyStr DkgEntry} (h : Storable d) (eid : Bytes) {entry : DkgEntry}
    (hentry : entry.expiresAt.all printable = true) : Storable (d.set (electionKey eid) entry) := by
  intro e he
  have hget : (d.set (electionKey eid) entry).get? e.1 = some e.2 := Dict.get?_eq_some.mpr he
  rw [Dict.get?_set] at hget
  split at hget
  · next heq =>
    cases hget
    exact ⟨heq ▸ wellPaired_electionKey eid, hentry⟩
  · exact h e (Dict.get?_eq_some.mp hget)

theorem Storable.filter {d : Dict PyStr DkgEntry} (h : Storable d) (p : PyStr × DkgEntry → Bool) :
    Storable (d.filter p) :=
  fun e he => h e (List.mem_filter.mp he).1

omit [AddCommGroup G₂] [DecidableEq G₂] in
theorem saved_start : Saved lib ({} : KeyperHost G₂) where
  storable := fun _ he => absurd he List.not_mem_nil
  file := rfl

theorem Saved.call (hlib : lib.Documented) (hnode : node.Printable) {h : KeyperHost G₂} (hsaved : Saved lib h)
    (call : KeyperCall) (draw : Nat) : Saved lib (h.call lib S E node call draw).1 := by
  have hcompleted := handle_completed S E node h.server call
  rw [KeyperHost.call]
  cases hhandle : call.handle S E node h.server with
  | mk s reply =>
    rw [hhandle] at hcompleted
    rcases hcompleted with ⟨hsame, hreply⟩ | ⟨electionId, eid, config, combined, -, -, hknown, hreply, hstored⟩
    · split
      · next heq =>
        cases heq
        exact absurd rfl hreply
      · next heq =>
        cases heq
        exact ⟨hsame ▸ hsaved.storable, hsaved.file.trans hsame.symm⟩
    · cases hreply
      have hexpiry : (node.retention.map fun ttl => config.votingEnd + ttl).all printable = true := by
        rw [Option.all_map, Option.all_eq_true]
        exact fun ttl httl => hnode eid config hknown ttl httl
      have hstorable : Storable s.completed := by
        rw [hstored]
        exact hsaved.storable.set eid hexpiry
      obtain ⟨file, hsave, hload⟩ := loadDkgSecrets_save hlib hstorable draw
      simp only [hsave]
      exact ⟨hstorable, hload⟩

omit [AddCommGroup G₂] [DecidableEq G₂] in
theorem Saved.prune (hlib : lib.Documented) {h : KeyperHost G₂} (hsaved : Saved lib h) (now : ℚ) (draw : Nat) :
    Saved lib (h.prune lib now draw) := by
  have hstorable := hsaved.storable.filter fun e => !e.2.expired now
  rw [KeyperHost.prune]
  by_cases hany : h.server.completed.entries.any (fun e => e.2.expired now) = true
  · obtain ⟨file, hsave, hload⟩ := loadDkgSecrets_save hlib hstorable draw
    simp only [hany, if_true, hsave]
    exact ⟨hstorable, hload⟩
  · rw [if_neg hany]
    refine ⟨hstorable, hsaved.file.trans (Dict.ext_entries ?_)⟩
    -- nothing is expired, so nothing is filtered out
    refine (List.filter_eq_self.mpr fun e he => ?_).symm
    rw [Bool.not_eq_true, List.any_eq_false] at hany
    rw [Bool.not_eq_true_eq_eq_false, Bool.eq_false_iff]
    exact hany e he

omit [AddCommGroup G₂] [DecidableEq G₂] in
theorem Saved.restart {h : KeyperHost G₂} (hsaved : Saved lib h) : Saved lib (h.restart lib) where
  storable := by
    rw [KeyperHost.restart, hsaved.file]
    exact hsaved.storable
  file := rfl

theorem Saved.step (hlib : lib.Documented) (hnode : node.Printable) {h : KeyperHost G₂} (hsaved : Saved lib h)
    (e : HostEvent) : Saved lib (h.step lib S E node e) := by
  cases e with
  | call call draw => exact hsaved.call hlib hnode call draw
  | prune now draw => exact hsaved.prune hlib now draw
  | restart => exact hsaved.restart

theorem saved_run (hlib : lib.Documented) (hnode : node.Printable) (events : List HostEvent) :
    Saved lib (KeyperHost.run lib S E node events) :=
  run_invariant (Saved lib) (fun _ e hsaved => hsaved.step hlib hnode e) saved_start events

/-- Whenever the process stops, the next one holds the same secrets and answers the same to a request
    for a decryption share. -/
theorem restart_restores (hlib : lib.Documented) (hnode : node.Printable) (events : List HostEvent) :
    ((KeyperHost.run lib S E node events).restart lib).server.completed =
        (KeyperHost.run lib S E node events).server.completed ∧
      ∀ electionId dl now nonce submit,
        (publishDecrShare S E node ((KeyperHost.run lib S E node events).restart lib).server electionId dl now
          nonce submit).2 =
        (publishDecrShare S E node (KeyperHost.run lib S E node events).server electionId dl now nonce submit).2 := by
  have hfile : ((KeyperHost.run lib S E node events).restart lib).server.completed =
      (KeyperHost.run lib S E node events).server.completed := (saved_run hlib hnode events).file
  refine ⟨hfile, fun electionId dl now nonce submit => ?_⟩
  simp only [publishDecrShare, hfile]

/-! ## How long a secret is held -/

/-- Round 2 of the election. -/
def HostEvent.Recombines (eid : Bytes) : HostEvent → Prop
  | .call (.dkgRound2 electionId) _ => fromHex electionId = some eid
  | _ => False

/-- A prune pass past the expiry. -/
def HostEvent.drops (entry : DkgEntry) : HostEvent → Bool
  | .prune now _ => entry.expired now
  | _ => false

/-- Other events keep every entry. -/
theorem filter_kept {o : Option DkgEntry} : o.filter (fun _ => true) = o := by
  cases o <;> rfl

theorem get?_step {h : KeyperHost G₂} (hsaved : Saved lib h) {eid : Bytes} {e : HostEvent}
    (he : ¬ e.Recombines eid) : (h.step lib S E node e).server.completed.get? (electionKey eid) =
      (h.server.completed.get? (electionKey eid)).filter fun entry => !e.drops entry := by
  cases e with
  | call call draw =>
    rw [show (fun entry => !(HostEvent.call call draw).drops entry) = fun _ => true from rfl, filter_kept,
      KeyperHost.step, call_server]
    rcases handle_completed S E node h.server call with
      ⟨hsame, -⟩ | ⟨electionId, eid', config, combined, rfl, hparsed, -, -, hstored⟩
    · rw [hsame]
    · have hne : electionKey eid ≠ electionKey eid' := by
        intro heq
        exact he (electionKey_inj heq ▸ hparsed)
      rw [hstored, Dict.get?_set_ne hne]
  | prune now draw =>
    have hserver : (h.prune lib now draw).server.completed = h.server.completed.filter fun e => !e.2.expired now := by
      rw [KeyperHost.prune]
      split
      · split <;> rfl
      · rfl
    rw [KeyperHost.step, hserver]
    ext entry
    rw [Option.filter_eq_some_iff]
    exact Dict.get?_filter
  | restart =>
    rw [show (fun entry => !HostEvent.restart.drops entry) = fun _ => true from rfl, filter_kept,
      KeyperHost.step, KeyperHost.restart, hsaved.file]

/-- While no round 2 of an election runs, its secret is among the completed ones and in the file until a
    prune pass past its expiry, and in neither of the two after it, however often the process restarts. -/
theorem secret_held_until_pruned (hlib : lib.Documented) (hnode : node.Printable) (before : List HostEvent)
    {after : List HostEvent} {eid : Bytes} (hafter : ∀ e ∈ after, ¬ e.Recombines eid) :
    (KeyperHost.run lib S E node (before ++ after)).server.completed.get? (electionKey eid) =
        ((KeyperHost.run lib S E node before).server.completed.get? (electionKey eid)).filter
          (fun entry => after.all fun e => !e.drops entry) ∧
      (loadDkgSecrets lib (KeyperHost.run lib S E node (before ++ after)).secretsFile).get? (electionKey eid) =
        ((KeyperHost.run lib S E node before).server.completed.get? (electionKey eid)).filter
          (fun entry => after.all fun e => !e.drops entry) := by
  have hmemory : (KeyperHost.run lib S E node (before ++ after)).server.completed.get? (electionKey eid) =
      ((KeyperHost.run lib S E node before).server.completed.get? (electionKey eid)).filter
        (fun entry => after.all fun e => !e.drops entry) := by
    have hsaved := saved_run (S := S) (E := E) hlib hnode before
    rw [KeyperHost.run, List.foldl_append, ← KeyperHost.run]
    generalize KeyperHost.run lib S E node before = h at hsaved
    induction after generalizing h with
    | nil => exact filter_kept.symm
    | cons e after ih =>
      have he : ¬ e.Recombines eid := hafter e List.mem_cons_self
      rw [List.foldl_cons, ih (fun e' he' => hafter e' (List.mem_cons_of_mem e he')) _ (hsaved.step hlib hnode e),
        get?_step hsaved he, Option.filter_filter]
      rfl
  refine ⟨hmemory, ?_⟩
  rw [(saved_run (S := S) (E := E) hlib hnode (before ++ after)).file]
  exact hmemory

end
end ElGamalVoting

/-! ## The first of three keypers, over two restarts -/

namespace ElGamalVoting.KeyperSample
open Lib

/-- The node, with the retention time the service defaults to. -/
def keeping : KeyperNode := { node with retention := some 7776000 }

/-- A box that bears the version of Fernet's tokens. -/
def box : AtRest where
  conv := ⟨fun _ => [], fun _ => .ok 0⟩
  depth := 2
  encrypt _ data := 0x80 :: data
  decrypt file := if file.head? = some 0x80 then some file.tail else none

theorem box_documented : box.Documented := ⟨le_rfl, fun _ _ => rfl⟩

theorem keeping_printable : keeping.Printable := by
  intro eid cfg hknown ttl httl
  cases httl
  have hcfg : cfg = config := by
    simp only [keeping, node] at hknown
    split at hknown
    · cases hknown
      rfl
    · cases hknown
  subst hcfg
  decide

/-- The keyper completes round 2. -/
def completing : List HostEvent := (dealt ++ [round2]).map fun c => .call c 0

def held (events : List HostEvent) : Option DkgEntry :=
  (KeyperHost.run box Residue.suite plainEth keeping events).server.completed.get? (electionKey config.electionId)

theorem held_completing : held completing = some ⟨63, some 7776200⟩ := by decide +kernel

/-- The election after its voting, with an aggregate of one ciphertext. -/
def closed : DataLayer where
  getElection _ := .ok ⟨config, false, some ⟨beBytes 96 63, []⟩, false⟩
  getDkgSubmissions _ := .ok []
  getFinalizedKey _ := .ok (some ⟨beBytes 96 63, []⟩)
  listBallots _ _ _ := .ok []
  countBallots _ := .ok 0
  getAggregate _ := .ok (some ⟨config.electionId, [⟨beBytes 96 5, beBytes 96 7⟩], [], [], 1, 1⟩)
  listDecryptionShares _ := .ok []
  getResult _ := .ok none

/-- The keyper answers that its share of the aggregate is on record already. -/
def answersRecorded (host : KeyperHost Residue) : Bool :=
  match (publishDecrShare Residue.suite plainEth keeping host.server key closed 300 (fun _ => 3)
    fun _ _ => .error (.immutability "decryption share exists")).2 with
  | .ok .alreadyRecorded => true
  | _ => false

/-- The secret is on record when the process stops and after it starts again, and the next process
    decrypts with it. -/
theorem restart_restores_of_three : held completing = some ⟨63, some 7776200⟩ ∧
    ((KeyperHost.run box Residue.suite plainEth keeping completing).restart box).server.completed =
      (KeyperHost.run box Residue.suite plainEth keeping completing).server.completed ∧
    answersRecorded ((KeyperHost.run box Residue.suite plainEth keeping completing).restart box) = true := by
  obtain ⟨hsecrets, hanswers⟩ :=
    restart_restores (S := Residue.suite) (E := plainEth) box_documented keeping_printable completing
  refine ⟨held_completing, hsecrets, ?_⟩
  rw [answersRecorded, hanswers]
  decide +kernel

/-- It outlives a prune pass before its expiry, and is gone after one past it. -/
theorem secret_held_of_three : held (completing ++ [.restart, .prune 7776199 0, .restart]) = some ⟨63, some 7776200⟩ ∧
    held (completing ++ [.prune 7776200 0, .restart]) = none := by
  have hquiet : ∀ after : List HostEvent, (∀ e ∈ after, ∀ call draw, e ≠ .call call draw) →
      ∀ e ∈ after, ¬ e.Recombines config.electionId := by
    intro after hafter e he
    cases e with
    | call call draw => exact absurd rfl (hafter _ he call draw)
    | prune now draw => exact not_false
    | restart => exact not_false
  have hkept := (secret_held_until_pruned (S := Residue.suite) (E := plainEth) box_documented keeping_printable
    completing (hquiet [.restart, .prune 7776199 0, .restart] (by simp))).1
  have hgone := (secret_held_until_pruned (S := Residue.suite) (E := plainEth) box_documented keeping_printable
    completing (hquiet [.prune 7776200 0, .restart] (by simp))).1
  rw [← held, ← held, held_completing] at hkept hgone
  exact ⟨hkept.trans (by decide +kernel), hgone.trans (by decide +kernel)⟩

end ElGamalVoting.KeyperSample
