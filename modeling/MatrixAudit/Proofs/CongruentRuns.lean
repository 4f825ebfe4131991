import MatrixAudit.Proofs.BrokenChannels
import MatrixAudit.Proofs.ColumnListing
import MatrixAudit.Proofs.CongruentVectors
import MatrixAudit.Proofs.ForgedResponse

/-!
# Runs on congruent words

Two runs whose files and challenges hold congruent words cannot be told apart by what the verifier
sends, by the balances or by the column sums, on any sink and in whatever pieces the words come. The
offline check compares words as they stand, so it is the one place where rewriting a claimed sum as
another word of its residue is noticed.
-/

namespace MatrixAudit
open Finset

namespace Request

/-- The input starts with what answers the request, and `rest` is what follows it. -/
structure Meets (request : Request) (input : List UInt8) (answer : request.Answer)
    (rest : List UInt8) : Prop where
  size_le : request.size ≤ input.length
  decode_eq : request.decode (input.take request.size) = answer
  drop_eq : input.drop request.size = rest

lemma meets_byte (value : UInt8) (rest : List UInt8) : byte.Meets (value :: rest) value rest :=
  ⟨Nat.succ_le_succ (Nat.zero_le _), decode_byte value, rfl⟩

lemma meets_word (value : Word) (rest : List UInt8) :
    word.Meets (LittleEndian.encode wordWidth value.toNat ++ rest) value rest := by
  have hlen : (LittleEndian.encode wordWidth value.toNat).length = word.size :=
    LittleEndian.length_encode _ _
  constructor
  · rw [List.length_append, hlen]
    exact Nat.le_add_right _ _
  · rw [List.take_left' hlen]
    exact LittleEndian.ofNat_decode_encode value
  · exact List.drop_left' hlen

lemma meets_words {n : ℕ} {values : List Word} (h : values.length = n) (rest : List UInt8) :
    (words n).Meets (LittleEndian.encodeWords wordWidth values ++ rest) values rest := by
  subst h
  have hlen : (LittleEndian.encodeWords wordWidth values).length = (words values.length).size :=
    LittleEndian.length_encodeWords _ _
  constructor
  · rw [List.length_append, hlen]
    exact Nat.le_add_right _ _
  · rw [List.take_left' hlen, decode_words]
  · exact List.drop_left' hlen

end Request

namespace Dialogue

variable {α β γ : Type}

/-- A request that the input meets is answered, and the dialogue goes on behind the answer. -/
lemma play_ask_of_meets {request : Request} {source : Source} {answer : request.Answer}
    {rest : List UInt8} (steady : source.Steady) (meets : request.Meets source.bytes answer rest)
    (elapsed : ℕ) (context : String) (next : request.Answer → Dialogue β) (sink : Sink) :
    ∃ reads, (ask request context >>= next).play elapsed source sink =
      (next answer).play elapsed { source with bytes := rest, reads } sink := by
  have hask : ask request context >>= next = receive request context next := rfl
  rw [hask, ← meets.decode_eq, ← meets.drop_eq]
  exact play_receive_of_le elapsed context steady meets.size_le

/-- Behind two inputs the dialogues do the same to any sink, and an observer who sees the results
only as `view` shows them cannot tell these apart. -/
def AgreeOn (view : α → γ) (first second : Dialogue α) (input input' : List UInt8) : Prop :=
  ∀ (elapsed elapsed' : ℕ) (source source' : Source) (sink : Sink), source.Steady →
    source'.Steady → source.bytes = input → source'.bytes = input' →
      let play := first.play elapsed source sink
      let play' := second.play elapsed' source' sink
      play.sink = play'.sink ∧ play.result.map view = play'.result.map view

section Rules

variable {view : β → γ} {input input' : List UInt8}

lemma agreeOn_pure {value value' : β} (h : view value = view value') :
    AgreeOn view (pure value) (pure value') input input' := by
  intro elapsed elapsed' source source' sink _ _ _ _
  exact ⟨rfl, congrArg Except.ok h⟩

lemma agreeOn_ofExcept {result : Except Failure α} {next next' : α → Dialogue β}
    (h : ∀ value, result = .ok value → AgreeOn view (next value) (next' value) input input') :
    AgreeOn view (ofExcept result >>= next) (ofExcept result >>= next') input input' := by
  cases result with
  | ok value => exact h value rfl
  | error failure => exact fun _ _ _ _ _ _ _ _ _ => ⟨rfl, rfl⟩

/-- Requests that both inputs meet are answered, and the dialogues go on behind the answers. -/
lemma agreeOn_ask {request : Request} {context : String} {next next' : request.Answer → Dialogue β}
    {answer answer' : request.Answer} {rest rest' : List UInt8}
    (first : request.Meets input answer rest) (second : request.Meets input' answer' rest')
    (h : AgreeOn view (next answer) (next' answer') rest rest') :
    AgreeOn view (ask request context >>= next) (ask request context >>= next') input input' := by
  rintro elapsed elapsed' source source' sink steady steady' rfl rfl
  obtain ⟨reads, hplay⟩ := play_ask_of_meets steady first elapsed context next sink
  obtain ⟨reads', hplay'⟩ := play_ask_of_meets steady' second elapsed' context next' sink
  rw [hplay, hplay']
  exact h elapsed elapsed' _ _ sink steady steady' rfl rfl

variable {bytes : List UInt8} {context : String}

/-- A write that fails stops both. -/
lemma AgreeOn.send {first second : Dialogue β} (h : AgreeOn view first second input input') :
    AgreeOn view (send bytes context first) (send bytes context second) input input' := by
  intro elapsed elapsed' source source' sink steady steady' hinput hinput'
  dsimp only [play]
  cases (Writing.bytes context bytes).run sink with
  | error failure behind => exact ⟨rfl, rfl⟩
  | ok _ behind => exact h elapsed elapsed' source source' behind steady steady' hinput hinput'

/-- A flush that fails stops both. -/
lemma AgreeOn.flush {first second : Dialogue β} (h : AgreeOn view first second input input') :
    AgreeOn view (flush context first) (flush context second) input input' := by
  intro elapsed elapsed' source source' sink steady steady' hinput hinput'
  dsimp only [play]
  cases (Writing.flush context).run sink with
  | error failure behind => exact ⟨rfl, rfl⟩
  | ok _ behind => exact h elapsed elapsed' source source' behind steady steady' hinput hinput'

lemma agreeOn_tell {next next' : Unit → Dialogue β}
    (h : AgreeOn view (next ()) (next' ()) input input') :
    AgreeOn view (tell bytes context >>= next) (tell bytes context >>= next') input input' :=
  h.flush.send

lemma agreeOn_remarkThat {text text' : String} {next next' : Unit → Dialogue β}
    (h : AgreeOn view (next ()) (next' ()) input input') :
    AgreeOn view (remarkThat text >>= next) (remarkThat text' >>= next') input input' := h

end Rules

end Dialogue

/-- All of an exchange but the challenge that it echoes. -/
def Exchange.outcome (e : Exchange) : List Word × Word × Balance :=
  (e.response, e.timing, e.balance)

namespace Statement

variable {s : Statement} {challenge challenge' : List Word}

/-- What a peer sends that keeps to the exchange. -/
def peerBytes (challenge : List Word) (timing : Word) : List UInt8 :=
  auditCommand :: LittleEndian.encodeWords wordWidth challenge ++
    LittleEndian.encode wordWidth timing.toNat

lemma peerBytes_append (challenge : List Word) (timing : Word) (rest : List UInt8) :
    peerBytes challenge timing ++ rest = auditCommand ::
      (LittleEndian.encodeWords wordWidth challenge ++
        (LittleEndian.encode wordWidth timing.toNat ++ rest)) := by
  rw [peerBytes, List.cons_append, List.cons_append, List.append_assoc]

theorem answerAudit_agreeOn [Sharing] (parallel : Bool) (h : CongruentVectors challenge challenge')
    (hlen : challenge.length = s.client.n) (timing : Word) (rest rest' : List UInt8) :
    (s.answerAudit parallel).AgreeOn Exchange.outcome (s.answerAudit parallel)
      (peerBytes challenge timing ++ rest) (peerBytes challenge' timing ++ rest') := by
  have hlen' : challenge'.length = s.client.n := h.length_eq.symm.trans hlen
  rw [peerBytes_append, peerBytes_append, answerAudit]
  apply Dialogue.agreeOn_ask (Request.meets_byte _ _) (Request.meets_byte _ _)
  rw [if_pos rfl]
  apply Dialogue.agreeOn_remarkThat
  apply Dialogue.agreeOn_ask (Request.meets_words hlen _) (Request.meets_words hlen' _)
  -- from here on the challenges count only through the response and the balance
  apply Dialogue.agreeOn_remarkThat
  apply Dialogue.agreeOn_tell
  rw [h.responseWith_eq s.dataset parallel parallel]
  apply Dialogue.agreeOn_ofExcept
  intro response _
  apply Dialogue.agreeOn_remarkThat
  apply Dialogue.agreeOn_tell
  apply Dialogue.agreeOn_remarkThat
  apply Dialogue.agreeOn_ask (Request.meets_word timing rest) (Request.meets_word timing rest')
  apply Dialogue.agreeOn_remarkThat
  have hclient : s.client.Congruent s.client := ⟨rfl, rfl, .refl _, .refl _⟩
  rw [hclient.balance_eq h (.refl response)]
  apply Dialogue.agreeOn_ofExcept
  intro balance _
  exact Dialogue.agreeOn_pure rfl

lemma expectedAnswer_peerBytes (fits : s.Fits) (hlen : challenge.length = s.client.n)
    (timing : Word) (rest : List UInt8) :
    (s.expectedAnswer (peerBytes challenge timing ++ rest)).result =
      .ok ⟨challenge, s.dataset.rowWords challenge, timing,
        s.client.exactBalance challenge (s.dataset.rowWords challenge)⟩ := by
  have hwords : LittleEndian.decodeWords wordWidth s.client.n
      (LittleEndian.encodeWords wordWidth challenge ++
        (LittleEndian.encode wordWidth timing.toNat ++ rest)) = challenge := by
    rw [← hlen]
    exact LittleEndian.decodeWords_encodeWords _ _
  have hchallenge := Request.meets_words hlen (LittleEndian.encode wordWidth timing.toNat ++ rest)
  have hdrop : (LittleEndian.encodeWords wordWidth challenge ++
      (LittleEndian.encode wordWidth timing.toNat ++ rest)).drop (wordWidth * s.client.n) =
        LittleEndian.encode wordWidth timing.toNat ++ rest := hchallenge.drop_eq
  have htiming : UInt64.ofNat (LittleEndian.decode
      ((LittleEndian.encode wordWidth timing.toNat ++ rest).take wordWidth)) = timing :=
    (Request.meets_word timing rest).decode_eq
  have hsize : wordWidth * s.client.n + wordWidth ≤ (LittleEndian.encodeWords wordWidth challenge ++
      (LittleEndian.encode wordWidth timing.toNat ++ rest)).length := by
    rw [List.length_append, List.length_append, LittleEndian.length_encodeWords,
      LittleEndian.length_encode, hlen]
    omega
  rw [peerBytes_append, expectedAnswer]
  rw [hdrop, hwords, htiming, if_neg (not_not.2 rfl), if_neg (by omega),
    if_neg (not_not.2 fits.cols_eq), if_neg (by omega),
    if_neg (not_not.2 (by rw [fits.rows_eq, fits.length_weights])),
    if_neg (not_not.2 fits.length_claimed.symm)]

/-- On a sink that takes everything the verifier records the exchange, whatever comes behind it. -/
lemma outcome_play_answerAudit [Sharing] (fits : s.Fits) (parallel : Bool)
    (hlen : challenge.length = s.client.n) {timing : Word} {rest : List UInt8} {source : Source}
    {sink : Sink} (steady : source.Steady)
    (hbytes : source.bytes = peerBytes challenge timing ++ rest) (tireless : sink.Tireless)
    (elapsed : ℕ) :
    ((s.answerAudit parallel).play elapsed source sink).result.map Exchange.outcome =
      .ok (s.dataset.rowWords challenge, timing,
        s.client.exactBalance challenge (s.dataset.rowWords challenge)) := by
  have hsteady : Source.Steady { bytes := peerBytes challenge timing ++ [] } := fun h => by cases h
  have hplay := ((s.answerAudit parallel).play_eq_transcript elapsed hsteady rfl tireless).1
  rw [transcript_answerAudit, expectedAnswer_peerBytes fits hlen] at hplay
  have hagree := (s.answerAudit_agreeOn parallel (.refl challenge) hlen timing rest [] elapsed
    elapsed source _ sink steady hsteady hbytes rfl).2
  rw [hagree, hplay]
  rfl

section Clients

variable {dataset : Dataset} {c c' : Client} {k : ℕ} {word : Word}

lemma fits_withClaim (fits : Fits ⟨dataset, c⟩) (k : ℕ) (word : Word) :
    Fits ⟨dataset, c.withClaim k word⟩ :=
  ⟨fits.rows_eq, fits.cols_eq, fits.length_weights,
    fits.length_claimed.trans (c.length_claimed_withClaim k word).symm⟩

/-- A right claim that is rewritten makes the check find one column wrong besides the ones before. -/
lemma noticed_of_withClaim {before after : ColumnCheck} (fits : Fits ⟨dataset, c⟩) (hk : k < c.n)
    (hne : word.toNat ≠ numberAt c.claimed k) (hbefore : before.ExactFor ⟨dataset, c⟩)
    (hafter : after.ExactFor ⟨dataset, c.withClaim k word⟩)
    (hsame : numberAt c.claimed k = numberAt before.computed k) :
    ListsLeast after.mismatches
      (insert k (differingColumns dataset.cols c.claimed before.computed)) 16 ∧
    after.mismatchCount = before.mismatchCount + 1 ∧ after.passed = false := by
  have hcols : c.n = dataset.cols := fits.cols_eq.symm
  have hclaimed : c.claimed.length = dataset.cols := by rw [← hcols, fits.length_claimed]
  have hcomputed : after.computed = before.computed := hafter.computed_eq hbefore rfl
  have hcolumns : differingColumns dataset.cols (c.withClaim k word).claimed after.computed =
      insert k (differingColumns dataset.cols c.claimed before.computed) := by
    rw [hcomputed]
    exact differingColumns_set hclaimed (hcols ▸ hk) hsame hne
  have hfresh : k ∉ differingColumns dataset.cols c.claimed before.computed := by
    simp [differingColumns, hsame]
  have hcount := hafter.count
  have hlisted := hafter.listed
  rw [hcolumns] at hcount hlisted
  refine ⟨hlisted, by rw [hcount, card_insert_of_notMem hfresh, hbefore.count], ?_⟩
  rw [Bool.eq_false_iff]
  intro hpassed
  have hright := hafter.passed_iff.1 hpassed k (hcols ▸ hk)
  rw [Client.numberAt_claimed_withClaim (by rwa [hclaimed, ← hcols]), hcomputed, ← hsame] at hright
  exact hne hright

lemma exists_exact_check_of_fits [Sharing] (fits : Fits ⟨dataset, c⟩) (parallel : Bool) :
    ∃ check, checkColumns ⟨dataset, c⟩ parallel = .ok check ∧ check.ExactFor ⟨dataset, c⟩ :=
  exists_exact_check (fits.length_weights.symm.trans fits.rows_eq.symm)
    (fits.length_claimed.symm.trans fits.cols_eq.symm) parallel

lemma congruent_of_fits (fits : Fits ⟨dataset, c⟩) (fits' : Fits ⟨dataset, c'⟩)
    (hweights : CongruentVectors c.weights c'.weights)
    (hclaimed : CongruentVectors c.claimed c'.claimed) : c.Congruent c' :=
  ⟨fits.cols_eq.symm.trans fits'.cols_eq, fits.rows_eq.symm.trans fits'.rows_eq, hweights, hclaimed⟩

end Clients

/-- Two statements about one dataset whose clients hold congruent words. Verifiers that are sent
congruent challenges and one timing word do the same to any sink and record the same but for the
challenge, and auditors that are answered with congruent words balance alike. The column sums are
the same. Rewriting one claimed sum as another word of its residue changes no run with a peer, but
the offline check counts its column among the wrong ones if it was right. -/
theorem runs_agree_of_congruent [Sharing] {dataset : Dataset} {c c' : Client}
    (accepted : ofParts dataset c = .ok ⟨dataset, c⟩)
    (accepted' : ofParts dataset c' = .ok ⟨dataset, c'⟩)
    (hweights : CongruentVectors c.weights c'.weights)
    (hclaimed : CongruentVectors c.claimed c'.claimed) (parallel parallel' : Bool) :
    (∀ (challenge challenge' : List Word) (timing : Word) (elapsed elapsed' : ℕ)
        (source source' : Source) (rest rest' : List UInt8) (sink : Sink),
      challenge.length = c.n → CongruentVectors challenge challenge' → source.Steady →
      source'.Steady → source.bytes = peerBytes challenge timing ++ rest →
      source'.bytes = peerBytes challenge' timing ++ rest' →
        let play := (answerAudit ⟨dataset, c⟩ parallel).play elapsed source sink
        let play' := (answerAudit ⟨dataset, c'⟩ parallel').play elapsed' source' sink
        play.sink = play'.sink ∧
        play.result.map Exchange.outcome = play'.result.map Exchange.outcome ∧
        (sink.Tireless → play.result.map Exchange.outcome =
          .ok (dataset.rowWords challenge, timing,
            c.exactBalance challenge (dataset.rowWords challenge)))) ∧
    (∀ (challenge challenge' response response' : List Word) (elapsed elapsed' : ℕ)
        (reply reply' : Source) (sink sink' : Sink),
      challenge.length = c.n → CongruentVectors challenge challenge' → response.length = c.m →
      CongruentVectors response response' → reply.Steady → reply'.Steady → reply.fault = none →
      reply'.fault = none → sink.Tireless → sink'.Tireless →
        ∃ audit audit',
          ((c.audit challenge).play elapsed
            { reply with
              bytes := acknowledgement :: LittleEndian.encodeWords wordWidth response ++
                reply.bytes }
            sink).result = .ok audit ∧
          ((c'.audit challenge').play elapsed'
            { reply' with
              bytes := acknowledgement :: LittleEndian.encodeWords wordWidth response' ++
                reply'.bytes }
            sink').result = .ok audit' ∧
          audit.balance = audit'.balance) ∧
    (∃ check check', checkColumns ⟨dataset, c⟩ parallel = .ok check ∧
      checkColumns ⟨dataset, c'⟩ parallel' = .ok check' ∧ check.computed = check'.computed) ∧
    ∀ (k : ℕ) (word : Word), k < c.n → word.toNat ≠ numberAt c.claimed k →
      numberAt c.claimed k ≡ word.toNat [MOD Residue.modulus] →
        ofParts dataset (c.withClaim k word) = .ok ⟨dataset, c.withClaim k word⟩ ∧
        (∀ (elapsed : ℕ) (source : Source) (sink : Sink),
          (answerAudit ⟨dataset, c.withClaim k word⟩ parallel').play elapsed source sink =
            (answerAudit ⟨dataset, c⟩ parallel).play elapsed source sink) ∧
        (∀ (challenge : List Word) (elapsed : ℕ) (source : Source) (sink : Sink),
          ((c.withClaim k word).audit challenge).play elapsed source sink =
            (c.audit challenge).play elapsed source sink) ∧
        ∃ before after, checkColumns ⟨dataset, c⟩ parallel = .ok before ∧
          checkColumns ⟨dataset, c.withClaim k word⟩ parallel' = .ok after ∧
          after.computed = before.computed ∧
          (numberAt c.claimed k = numberAt before.computed k →
            ListsLeast after.mismatches
              (insert k (differingColumns dataset.cols c.claimed before.computed)) 16 ∧
            after.mismatchCount = before.mismatchCount + 1 ∧ after.passed = false) := by
  have fits : Fits ⟨dataset, c⟩ := (ofParts_eq_ok accepted).2
  have fits' : Fits ⟨dataset, c'⟩ := (ofParts_eq_ok accepted').2
  have hcongruent : c.Congruent c' := congruent_of_fits fits fits' hweights hclaimed
  refine ⟨?_, ?_, ?_, ?_⟩
  · intro challenge challenge' timing elapsed elapsed' source source' rest rest' sink hlen
      hchallenge steady steady' hbytes hbytes'
    have hverifier : answerAudit ⟨dataset, c'⟩ parallel' = answerAudit ⟨dataset, c⟩ parallel :=
      (answerAudit_eq_of_congruent (s := ⟨dataset, c⟩) (t := ⟨dataset, c'⟩) rfl hcongruent parallel
        parallel').symm
    obtain ⟨hsink, hresult⟩ := answerAudit_agreeOn (s := ⟨dataset, c⟩) parallel hchallenge hlen
      timing rest rest' elapsed elapsed' source source' sink steady steady' hbytes hbytes'
    rw [hverifier]
    exact ⟨hsink, hresult, fun tireless =>
      outcome_play_answerAudit fits parallel hlen steady hbytes tireless elapsed⟩
  · intro challenge challenge' response response' elapsed elapsed' reply reply' sink sink' hlen
      hchallenge hlength hresponse steady steady' clean clean' tireless tireless'
    have hlen' : challenge'.length = c'.n := by rw [← hchallenge.length_eq, hlen, hcongruent.n_eq]
    have hlength' : response'.length = c'.m := by
      rw [← hresponse.length_eq, hlength, hcongruent.m_eq]
    exact ⟨_, _, Client.play_audit_of_response fits.length_weights.symm fits.length_claimed.symm
        hlen hlength elapsed steady clean tireless,
      Client.play_audit_of_response fits'.length_weights.symm fits'.length_claimed.symm hlen'
        hlength' elapsed' steady' clean' tireless',
      hcongruent.exactBalance_eq hchallenge hresponse⟩
  · exact ⟨_, _, checkColumns_eq fits parallel, checkColumns_eq fits' parallel',
      hweights.columnWords_eq dataset⟩
  · intro k word hk hne hword
    have hrewritten := Client.congruent_withClaim hword
    have rewrittenFits := fits_withClaim fits k word
    refine ⟨ofParts_of_fits rewrittenFits, ?_, ?_, ?_⟩
    · intro elapsed source sink
      rw [answerAudit_eq_of_congruent (s := ⟨dataset, c⟩) (t := ⟨dataset, c.withClaim k word⟩) rfl
        hrewritten parallel parallel']
    · intro challenge elapsed source sink
      rw [hrewritten.audit_eq challenge]
    · obtain ⟨before, hbefore, hexact⟩ := exists_exact_check_of_fits fits parallel
      obtain ⟨after, hafter, hexact'⟩ := exists_exact_check_of_fits rewrittenFits parallel'
      exact ⟨before, after, hbefore, hafter, hexact'.computed_eq hexact rfl,
        noticed_of_withClaim fits hk hne hexact hexact'⟩

/-- The sample client with other words of the same residues. -/
def rewrittenClient : Client :=
  ⟨3, 2, [1, 144115188075855860], [144115188075855863, 6, 72057594037927935]⟩

attribute [local instance] Sharing.halving

theorem runs_agree_of_congruent_sample :
    let timid : Sink := { chunk := some 1, limit := some 20 }
    let source : Source := { bytes := peerBytes [5, 7, 1] 1234 ++ [9] }
    let source' : Source :=
      { bytes := peerBytes [144115188075855864, 7, 1] 1234, chunk := some 3, interrupts := true }
    let play := (answerAudit ⟨sampleDataset, sampleClient⟩ true).play 0 source timid
    let play' := (answerAudit ⟨sampleDataset, rewrittenClient⟩ false).play 8 source' timid
    let rewritten : Statement := ⟨sampleDataset, sampleClient.withClaim 0 144115188075855863⟩
    ofParts sampleDataset sampleClient = .ok ⟨sampleDataset, sampleClient⟩ ∧
    ofParts sampleDataset rewrittenClient = .ok ⟨sampleDataset, rewrittenClient⟩ ∧
    CongruentVectors sampleClient.weights rewrittenClient.weights ∧
    CongruentVectors sampleClient.claimed rewrittenClient.claimed ∧
    play.sink = play'.sink ∧
    play.result.map Exchange.outcome = play'.result.map Exchange.outcome ∧
    (rewritten.answerAudit true).play 0 source timid = play ∧
    ∃ before after, checkColumns ⟨sampleDataset, sampleClient⟩ true = .ok before ∧
      before.mismatches = [] ∧ rewritten.checkColumns true = .ok after ∧
      after.mismatchCount = 1 ∧ after.passed = false := by
  intro timid source source' play play' rewritten
  have accepted : ofParts sampleDataset sampleClient = .ok ⟨sampleDataset, sampleClient⟩ := rfl
  have accepted' : ofParts sampleDataset rewrittenClient = .ok ⟨sampleDataset, rewrittenClient⟩ :=
    rfl
  have hweights : CongruentVectors sampleClient.weights rewrittenClient.weights := by decide
  have hclaimed : CongruentVectors sampleClient.claimed rewrittenClient.claimed := by decide
  have hchallenge : CongruentVectors [5, 7, 1] [144115188075855864, 7, 1] := by decide
  have steady : source.Steady := fun h => by cases h
  have steady' : source'.Steady := fun h => by cases h
  have hbefore : checkColumns ⟨sampleDataset, sampleClient⟩ true =
      .ok ⟨[4, 6, 72057594037927935], [], 0, true⟩ := rfl
  obtain ⟨hverifiers, -, -, -⟩ :=
    runs_agree_of_congruent accepted accepted' hweights hclaimed true false
  obtain ⟨hsink, hresult, -⟩ := hverifiers [5, 7, 1] [144115188075855864, 7, 1] 1234 0 8 source
    source' [9] [] timid rfl hchallenge steady steady' rfl rfl
  obtain ⟨-, -, -, hrewriting⟩ :=
    runs_agree_of_congruent accepted accepted' hweights hclaimed true true
  obtain ⟨-, hverifier, -, before, after, hfound, hafter, -, hwrong⟩ :=
    hrewriting 0 144115188075855863 (by decide) (by decide) (by decide)
  obtain rfl := Except.ok.inj (hbefore.symm.trans hfound)
  obtain ⟨-, hcount, hfailed⟩ := hwrong rfl
  exact ⟨accepted, accepted', hweights, hclaimed, hsink, hresult, hverifier 0 source timid, _,
    after, hfound, rfl, hafter, hcount, hfailed⟩

end Statement

end MatrixAudit
