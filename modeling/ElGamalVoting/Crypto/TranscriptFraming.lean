import ElGamalVoting.Crypto.Transcript
import ElGamalVoting.Lib.SelfDelimiting

/- What the log of a transcript determines (`crypto/transcript.py`).

   Every call adds one frame to the log, a tag and a value behind their lengths, and a frame
   says where it ends. So the log determines the frames. A challenge adds a frame of its own,
   the derived scalar under the tag with `:chal` behind it, and this frame is all the log
   keeps of it: an append of the same scalar under the same tag is the same log. -/
namespace ElGamalVoting
open Lib

/-- A call on a transcript. -/
inductive TranscriptOp (G₂ : Type) where
  | append (tag : String) (value : Bytes)
  | appendPoint (tag : String) (point : G₂)
  | appendScalar (tag : String) (s : Int)
  | challenge (tag : String)

/-- What a call is given: a tag and the bytes of a value, or the tag of a challenge. -/
inductive OpContent where
  | append (tag : String) (value : Bytes)
  | challenge (tag : String)
  deriving DecidableEq

/-- An append under a tag that challenges use. -/
def OpContent.Reserved : OpContent → Prop
  | .append tag _ => ∃ name, tag = name ++ ":chal"
  | .challenge _ => False

/-- An append of a tag and a value that fit their length prefixes. -/
def OpContent.Framable : OpContent → Prop
  | .append tag value => (utf8 tag).length < 2 ^ 32 ∧ value.length < 2 ^ 32
  | .challenge _ => False

/-- A tag and a value that fit their length prefixes. -/
structure Frame where
  tag : String
  value : Bytes
  tag_lt : (utf8 tag).length < 2 ^ 32
  value_lt : value.length < 2 ^ 32

namespace Frame

def bytes (f : Frame) : Bytes :=
  beBytes 4 (utf8 f.tag).length ++ (utf8 f.tag ++ (beBytes 4 f.value.length ++ f.value))

def pair (f : Frame) : String × Bytes := (f.tag, f.value)

theorem bytes_ne_nil (f : Frame) : f.bytes ≠ [] := by
  have hlen : f.bytes.length ≠ 0 := by
    rw [bytes, List.length_append, length_beBytes]
    omega
  exact fun h => hlen (congrArg List.length h)

theorem bytes_selfDelimiting : SelfDelimiting bytes := by
  intro f g x y h
  have hframed (n : Nat) (hn : n < 2 ^ 32) : toBytes n 4 = .ok (beBytes 4 n) := u32be_ok hn
  rw [bytes, bytes, List.append_assoc, List.append_assoc, List.append_assoc, List.append_assoc,
    List.append_assoc, List.append_assoc] at h
  obtain ⟨htag, hafter⟩ := framed_split (hframed _ f.tag_lt) (hframed _ g.tag_lt) h
  obtain ⟨hvalue, hrest⟩ := framed_split (hframed _ f.value_lt) (hframed _ g.value_lt) hafter
  refine ⟨?_, hrest⟩
  cases f
  cases g
  obtain rfl := utf8_injective htag
  obtain rfl := hvalue
  rfl

end Frame

/-- An append returns exactly when there is a frame for it, and adds that frame. -/
theorem append_adds_frame {t t' : Transcript} {tag : String} {value : Bytes} (h : t.append tag value = .ok t') :
    ∃ f : Frame, f.pair = (tag, value) ∧ t'.preimage = t.preimage ++ f.bytes := by
  have ht := append_eq_ok h
  obtain ⟨tagLen, htag, h⟩ := bind_eq_ok.mp h
  obtain ⟨valueLen, hvalue, h⟩ := bind_eq_ok.mp h
  have htag' := (toBytes_eq_ok htag).2.1
  have hvalue' := (toBytes_eq_ok hvalue).2.1
  refine ⟨⟨tag, value, by omega, by omega⟩, rfl, ?_⟩
  rw [ht, Transcript.preimage, Transcript.preimage, List.flatten_append, Frame.bytes]
  simp

/-- The byte string hashed for a challenge. -/
def Transcript.challengePreimage (t : Transcript) (tag : String) : Py Bytes := do
  let tagLen ← u32be (utf8 tag).length
  pure (dstFiatShamir ++ tagLen ++ utf8 tag ++ t.preimage)

section
variable {G₁ G₂ : Type} [AddCommGroup G₁] [AddCommGroup G₂] (S : Suite G₁ G₂)

theorem Transcript.challenge_eq (t : Transcript) (tag : String) :
    t.challenge S tag = (do
      let x ← t.challengePreimage tag
      let t' ← t.appendScalar (tag ++ ":chal") (hashPreimage S x)
      pure (hashPreimage S x, t')) := by
  rw [Transcript.challenge, Transcript.challengePreimage]
  simp only [bind_assoc, pure_bind]

namespace TranscriptOp

def content : TranscriptOp G₂ → OpContent
  | .append tag value => .append tag value
  | .appendPoint tag point => .append tag (S.g2.toCompressed point)
  | .appendScalar tag s => .append tag (scalarToBytes s)
  | .challenge tag => .challenge tag

/-- A call with what it returns: the scalar, for a challenge. -/
def step (t : Transcript) : TranscriptOp G₂ → Py (Option Int × Transcript)
  | .append tag value => do
    let t ← t.append tag value
    pure (none, t)
  | .appendPoint tag point => do
    let t ← t.appendPoint S tag point
    pure (none, t)
  | .appendScalar tag s => do
    let t ← t.appendScalar tag s
    pure (none, t)
  | .challenge tag => do
    let (e, t) ← t.challenge S tag
    pure (some e, t)

/-- The tag and the value of the frame a call adds, given what it returned. -/
def framed (op : TranscriptOp G₂) (answer : Option Int) : String × Bytes :=
  match op.content S with
  | .append tag value => (tag, value)
  | .challenge tag => (tag ++ ":chal", scalarToBytes (answer.getD 0))

/-- A call is what it is given: a point is its encoding, and a scalar its bytes. -/
theorem step_congr {op op' : TranscriptOp G₂} (h : op.content S = op'.content S) (t : Transcript) :
    op.step S t = op'.step S t := by
  have happend (op : TranscriptOp G₂) {tag : String} {value : Bytes} (h : op.content S = .append tag value) :
      op.step S t = (do
        let t ← t.append tag value
        pure (none, t)) := by
    cases op <;> cases h <;> rfl
  have hchallenge (op : TranscriptOp G₂) {tag : String} (h : op.content S = .challenge tag) :
      op = .challenge tag := by
    cases op <;> cases h
    rfl
  cases hc : op'.content S with
  | append tag value => rw [happend op (h.trans hc), happend op' hc]
  | challenge tag => rw [hchallenge op (h.trans hc), hchallenge op' hc]

variable {S} {op op' : TranscriptOp G₂}

theorem step_adds_frame {t t' : Transcript} {answer : Option Int} (h : op.step S t = .ok (answer, t')) :
    ∃ f : Frame, f.pair = op.framed S answer ∧ t'.preimage = t.preimage ++ f.bytes := by
  cases op with
  | append tag value =>
    obtain ⟨t1, h1, h⟩ := bind_eq_ok.mp h
    cases h
    exact append_adds_frame h1
  | appendPoint tag point =>
    obtain ⟨t1, h1, h⟩ := bind_eq_ok.mp h
    cases h
    exact append_adds_frame h1
  | appendScalar tag s =>
    obtain ⟨t1, h1, h⟩ := bind_eq_ok.mp h
    cases h
    exact append_adds_frame h1
  | challenge tag =>
    obtain ⟨⟨e, t1⟩, h1, h⟩ := bind_eq_ok.mp h
    cases h
    rw [Transcript.challenge_eq] at h1
    obtain ⟨x, -, h1⟩ := bind_eq_ok.mp h1
    obtain ⟨t2, h2, h1⟩ := bind_eq_ok.mp h1
    cases h1
    exact append_adds_frame h2

/-- Where no append uses a tag of the challenges, a frame tells what call it is of. -/
theorem content_of_framed {answer answer' : Option Int} (hop : ¬ (op.content S).Reserved)
    (hop' : ¬ (op'.content S).Reserved) (h : op.framed S answer = op'.framed S answer') :
    op.content S = op'.content S := by
  rw [framed, framed] at h
  cases hc : op.content S with
  | append tag value =>
    cases hc' : op'.content S with
    | append tag' value' =>
      rw [hc, hc'] at h
      cases h
      rfl
    | challenge tag' =>
      rw [hc, hc'] at h
      rw [hc] at hop
      exact absurd ⟨tag', (Prod.mk.inj h).1⟩ hop
  | challenge tag =>
    cases hc' : op'.content S with
    | append tag' value' =>
      rw [hc, hc'] at h
      rw [hc'] at hop'
      exact absurd ⟨tag, (Prod.mk.inj h).1.symm⟩ hop'
    | challenge tag' =>
      rw [hc, hc'] at h
      have htags := congrArg utf8 (Prod.mk.inj h).1
      rw [utf8_append, utf8_append] at htags
      rw [utf8_injective (List.append_cancel_right htags)]

/-- The frame of an append tells the append. -/
theorem content_of_append {answer answer' : Option Int} (hop : (op.content S).Framable)
    (hop' : (op'.content S).Framable) (h : op.framed S answer = op'.framed S answer') :
    op.content S = op'.content S := by
  rw [framed, framed] at h
  cases hc : op.content S with
  | append tag value =>
    cases hc' : op'.content S with
    | append tag' value' =>
      rw [hc, hc'] at h
      cases h
      rfl
    | challenge tag' =>
      rw [hc'] at hop'
      exact hop'.elim
  | challenge tag =>
    rw [hc] at hop
    exact hop.elim

end TranscriptOp

/-! ## Sequences of calls -/

/-- The calls in order, with what each returns. -/
def Transcript.run (t : Transcript) : List (TranscriptOp G₂) → Py (List (Option Int) × Transcript)
  | [] => pure ([], t)
  | op :: ops => do
    let (answer, t) ← op.step S t
    let (answers, t) ← run t ops
    pure (answer :: answers, t)

theorem Transcript.run_congr {ops ops' : List (TranscriptOp G₂)}
    (h : ops.map (TranscriptOp.content S) = ops'.map (TranscriptOp.content S)) (t : Transcript) :
    t.run S ops = t.run S ops' := by
  induction ops generalizing ops' t with
  | nil =>
    rw [List.map_nil, eq_comm, List.map_eq_nil_iff] at h
    rw [h]
  | cons op ops ih =>
    cases ops' with
    | nil => cases h
    | cons op' ops' =>
      rw [List.map_cons, List.map_cons, List.cons.injEq] at h
      rw [run, run, TranscriptOp.step_congr S h.1]
      refine bind_congr ?_
      intro r
      dsimp only
      rw [ih h.2]

variable {S} {ops ops' : List (TranscriptOp G₂)} {answers answers' : List (Option Int)}
  {t t1 t2 : Transcript}

/-- The log of a run: what was there, and a frame for each call. -/
theorem Transcript.run_adds_frames (h : t.run S ops = .ok (answers, t1)) :
    answers.length = ops.length ∧ ∃ frames : List Frame,
      frames.map Frame.pair = List.zipWith (TranscriptOp.framed S) ops answers ∧
      t1.preimage = t.preimage ++ frames.flatMap Frame.bytes := by
  induction ops generalizing t answers with
  | nil =>
    cases h
    exact ⟨rfl, [], rfl, (List.append_nil _).symm⟩
  | cons op ops ih =>
    rw [run] at h
    obtain ⟨⟨answer, t'⟩, hstep, h⟩ := bind_eq_ok.mp h
    obtain ⟨⟨rest, t''⟩, hrun, h⟩ := bind_eq_ok.mp h
    cases h
    obtain ⟨f, hf, hlog⟩ := TranscriptOp.step_adds_frame hstep
    obtain ⟨hlen, frames, hframes, hrest⟩ := ih hrun
    refine ⟨congrArg (· + 1) hlen, f :: frames, ?_, ?_⟩
    · rw [List.map_cons, List.zipWith_cons_cons, hf, hframes]
    · rw [hrest, hlog, List.flatMap_cons, List.append_assoc]

/-- Runs from one transcript have equal logs exactly when their frames are equal. -/
theorem Transcript.run_preimage_eq_iff (h : t.run S ops = .ok (answers, t1))
    (h' : t.run S ops' = .ok (answers', t2)) :
    t1.preimage = t2.preimage ↔
      List.zipWith (TranscriptOp.framed S) ops answers = List.zipWith (TranscriptOp.framed S) ops' answers' := by
  obtain ⟨-, frames, hframes, hlog⟩ := run_adds_frames h
  obtain ⟨-, frames', hframes', hlog'⟩ := run_adds_frames h'
  rw [hlog, hlog', ← hframes, ← hframes', List.append_cancel_left_eq]
  have hpair : Function.Injective Frame.pair := by
    intro f g hfg
    cases f
    cases g
    cases hfg
    rfl
  constructor
  · intro hbytes
    rw [Frame.bytes_selfDelimiting.flatMap_inj Frame.bytes_ne_nil hbytes]
  · intro hpairs
    rw [List.map_injective_iff.mpr hpair hpairs]

/-- Frames that are equal are of equal calls, where a frame tells its call. -/
theorem contents_of_framed (hlen : answers.length = ops.length) (hlen' : answers'.length = ops'.length)
    (hcontent : ∀ op ∈ ops, ∀ op' ∈ ops', ∀ answer answer',
      op.framed S answer = op'.framed S answer' → op.content S = op'.content S)
    (h : List.zipWith (TranscriptOp.framed S) ops answers = List.zipWith (TranscriptOp.framed S) ops' answers') :
    ops.map (TranscriptOp.content S) = ops'.map (TranscriptOp.content S) := by
  have hcount := congrArg List.length h
  rw [List.length_zipWith, List.length_zipWith, hlen, hlen', min_self, min_self] at hcount
  apply List.ext_getElem
  · rw [List.length_map, List.length_map, hcount]
  · intro i hi hi'
    rw [List.length_map] at hi hi'
    rw [List.getElem_map, List.getElem_map]
    have hframe := List.getElem_of_eq h (i := i) (by rw [List.length_zipWith]; omega)
    rw [List.getElem_zipWith, List.getElem_zipWith] at hframe
    exact hcontent _ (List.getElem_mem hi) _ (List.getElem_mem hi') _ _ hframe

/-- Appends that fit their prefixes all return. -/
theorem Transcript.run_returns (hops : ∀ op ∈ ops, (op.content S).Framable) (t : Transcript) :
    Returns (t.run S ops) := by
  induction ops generalizing t with
  | nil => exact Returns.ok _
  | cons op ops ih =>
    have hop := hops op List.mem_cons_self
    have happend {tag : String} {value : Bytes}
        (h : (utf8 tag).length < 2 ^ 32 ∧ value.length < 2 ^ 32) :
        Returns (do
          let t ← t.append tag value
          pure ((none : Option Int), t)) :=
      Returns.bind (append_returns t h.1 h.2) fun _ _ => Returns.ok _
    have hstep : Returns (op.step S t) := by
      cases op with
      | append tag value => exact happend hop
      | appendPoint tag point => exact happend hop
      | appendScalar tag s => exact happend hop
      | challenge tag => exact hop.elim
    refine Returns.bind hstep ?_
    intro r _
    exact Returns.bind (ih (fun o ho => hops o (List.mem_cons_of_mem op ho)) r.2) fun _ _ => Returns.ok _

/-- What is hashed for a challenge determines its tag and the log before it. -/
theorem Transcript.challengePreimage_inj {tag tag' : String} {x : Bytes} (h : t1.challengePreimage tag = .ok x)
    (h' : t2.challengePreimage tag' = .ok x) : tag = tag' ∧ t1.preimage = t2.preimage := by
  obtain ⟨tagLen, hlen, h⟩ := bind_eq_ok.mp h
  obtain ⟨tagLen', hlen', h'⟩ := bind_eq_ok.mp h'
  rw [pure_eq_ok, Except.ok.injEq] at h h'
  rw [← h', List.append_assoc, List.append_assoc, List.append_assoc, List.append_assoc] at h
  obtain ⟨htag, hlog⟩ := framed_split hlen hlen' (List.append_cancel_left h)
  exact ⟨utf8_injective htag, hlog⟩

/-- The framing of a transcript, over calls in any number and order. Appends with equal logs are the
    same appends; the same calls leave the same transcript and return the same challenges; and what
    is hashed for a challenge determines its tag and the frames of all calls before it, hence these
    calls where no append uses a tag of the challenges. -/
theorem transcript_framing (S : Suite G₁ G₂) (label : String) :
    (∀ ops ops' : List (TranscriptOp G₂), (∀ op ∈ ops, (op.content S).Framable) →
      (∀ op ∈ ops', (op.content S).Framable) →
      ∃ answers t answers' t', (Transcript.new label).run S ops = .ok (answers, t) ∧
        (Transcript.new label).run S ops' = .ok (answers', t') ∧
        (t.preimage = t'.preimage →
          ops.map (TranscriptOp.content S) = ops'.map (TranscriptOp.content S))) ∧
    (∀ ops ops' : List (TranscriptOp G₂),
      ops.map (TranscriptOp.content S) = ops'.map (TranscriptOp.content S) →
      (Transcript.new label).run S ops = (Transcript.new label).run S ops') ∧
    ∀ (ops ops' : List (TranscriptOp G₂)) (answers answers' : List (Option Int)) (t t' : Transcript)
      (tag tag' : String) (x x' : Bytes), (Transcript.new label).run S ops = .ok (answers, t) →
      (Transcript.new label).run S ops' = .ok (answers', t') → t.challengePreimage tag = .ok x →
      t'.challengePreimage tag' = .ok x' →
      (x = x' ↔ tag = tag' ∧ List.zipWith (TranscriptOp.framed S) ops answers =
        List.zipWith (TranscriptOp.framed S) ops' answers') ∧
      ((∀ op ∈ ops ++ ops', ¬ (op.content S).Reserved) →
        tag ≠ tag' ∨ ops.map (TranscriptOp.content S) ≠ ops'.map (TranscriptOp.content S) → x ≠ x') := by
  refine ⟨?_, ?_, ?_⟩
  · intro ops ops' hops hops'
    obtain ⟨⟨answers, t⟩, hrun⟩ := Transcript.run_returns hops (Transcript.new label)
    obtain ⟨⟨answers', t'⟩, hrun'⟩ := Transcript.run_returns hops' (Transcript.new label)
    refine ⟨answers, t, answers', t', hrun, hrun', ?_⟩
    intro hlog
    have hframes := (Transcript.run_preimage_eq_iff hrun hrun').mp hlog
    exact contents_of_framed (Transcript.run_adds_frames hrun).1 (Transcript.run_adds_frames hrun').1
      (fun op hop op' hop' _ _ => TranscriptOp.content_of_append (hops op hop) (hops' op' hop')) hframes
  · intro ops ops' h
    exact Transcript.run_congr S h (Transcript.new label)
  · intro ops ops' answers answers' t t' tag tag' x x' hrun hrun' hx hx'
    have hiff : x = x' ↔ tag = tag' ∧ List.zipWith (TranscriptOp.framed S) ops answers =
        List.zipWith (TranscriptOp.framed S) ops' answers' := by
      rw [← Transcript.run_preimage_eq_iff hrun hrun']
      constructor
      · intro h
        exact Transcript.challengePreimage_inj hx (h ▸ hx')
      · intro h
        rw [Transcript.challengePreimage, h.1, h.2] at hx
        exact Except.ok.inj (hx.symm.trans hx')
    -- equal frames come from equal contents, unless a content looks like the frame of a challenge
    refine ⟨hiff, ?_⟩
    intro hplain hdiffer h
    obtain ⟨htag, hframes⟩ := hiff.mp h
    have hcontents := contents_of_framed (Transcript.run_adds_frames hrun).1
      (Transcript.run_adds_frames hrun').1 (fun op hop op' hop' _ _ =>
        TranscriptOp.content_of_framed (hplain op (List.mem_append_left _ hop))
          (hplain op' (List.mem_append_right _ hop'))) hframes
    exact hdiffer.elim (fun hne => hne htag) (fun hne => hne hcontents)

/-- The boundary between a tag and its value is in the log. -/
theorem transcript_framing_boundary : ∃ answers t answers' t',
    (Transcript.new "").run Residue.suite [.append "ab" []] = .ok (answers, t) ∧
    (Transcript.new "").run Residue.suite [.append "a" (utf8 "b")] = .ok (answers', t') ∧
    t.preimage ≠ t'.preimage := by
  have hframable : ∀ op ∈ ([.append "ab" []] : List (TranscriptOp Residue)),
      (op.content Residue.suite).Framable := by
    intro op hop
    obtain rfl := List.mem_singleton.mp hop
    exact ⟨by decide, by decide⟩
  have hframable' : ∀ op ∈ ([.append "a" (utf8 "b")] : List (TranscriptOp Residue)),
      (op.content Residue.suite).Framable := by
    intro op hop
    obtain rfl := List.mem_singleton.mp hop
    exact ⟨by decide, by decide⟩
  obtain ⟨answers, t, answers', t', hrun, hrun', hinj⟩ :=
    (transcript_framing Residue.suite "").1 _ _ hframable hframable'
  refine ⟨answers, t, answers', t', hrun, hrun', ?_⟩
  intro hlog
  exact absurd (hinj hlog) (by decide)

/-- An append of what a challenge returned, under the challenge's tag with the suffix, does to the
    transcript what the challenge did. -/
theorem Transcript.append_of_challenge {tag : String} {e : Int} (h : t.challenge S tag = .ok (e, t1)) :
    t.appendScalar (tag ++ ":chal") e = .ok t1 := by
  rw [challenge_eq] at h
  obtain ⟨x, -, h⟩ := bind_eq_ok.mp h
  obtain ⟨t2, happend, h⟩ := bind_eq_ok.mp h
  cases h
  exact happend

end

/-- A transcript asked for a challenge, and one to which the challenge's scalar was appended, hash
    the same bytes for the next challenge. -/
theorem transcript_challenge_appended : ∃ e t x,
    (Transcript.new ballotProofTranscriptLabel).run Residue.suite [.challenge "or:e"] = .ok ([some e], t) ∧
    (Transcript.new ballotProofTranscriptLabel).run Residue.suite [.appendScalar "or:e:chal" e] =
      .ok ([none], t) ∧
    0 ≤ e ∧ e < curveOrder ∧ t.challengePreimage "or:e" = .ok x ∧
    (TranscriptOp.challenge "or:e").content Residue.suite ≠
      (TranscriptOp.appendScalar "or:e:chal" e).content Residue.suite := by
  obtain ⟨⟨e, t⟩, h⟩ := challenge_returns Residue.suite (Transcript.new ballotProofTranscriptLabel)
    (show (utf8 "or:e").length ≤ 16 by decide)
  have happend := Transcript.append_of_challenge h
  have htag : "or:e" ++ ":chal" = "or:e:chal" := by decide
  rw [htag] at happend
  have hrange : 0 ≤ e ∧ e < curveOrder := by
    rw [Transcript.challenge_eq] at h
    obtain ⟨x, -, h⟩ := bind_eq_ok.mp h
    obtain ⟨t2, -, h⟩ := bind_eq_ok.mp h
    cases h
    rw [hashPreimage, wideReduce]
    have hlt := Nat.mod_lt (beNat (Residue.suite.keccak (0x00 :: x) ++ Residue.suite.keccak (0x01 :: x)))
      (show 0 < curveOrder by decide)
    omega
  have hhead : t.challengePreimage "or:e" = .ok (dstFiatShamir ++ beBytes 4 (utf8 "or:e").length ++
      utf8 "or:e" ++ t.preimage) := by
    rw [Transcript.challengePreimage, u32be_ok (by decide), ok_bind, pure_eq_ok]
  refine ⟨e, t, _, ?_, ?_, hrange.1, hrange.2, hhead, nofun⟩
  · rw [Transcript.run, TranscriptOp.step, h]
    rfl
  · rw [Transcript.run, TranscriptOp.step, happend]
    rfl

end ElGamalVoting
