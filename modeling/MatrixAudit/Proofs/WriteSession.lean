import MatrixAudit.Proofs.ReadSession
import MatrixAudit.Proofs.SinkRoom

/-!
# Writing in several steps

A sink can be written to again whether the last write was cut short or not. It holds the start of
all that it was offered. A sink that ran into no limit can be read back step by step, and gives the
values that were written.
-/

namespace MatrixAudit

/-- The channel that several operations leave behind, whether they succeed or not. -/
def finish {σ α : Type} (operations : List (EStateM Failure σ α)) (s : σ) : σ :=
  operations.foldl (fun s operation => (settle (operation.run s)).2) s

lemma session_getElem? {σ α : Type} (operations : List (EStateM Failure σ α)) (s : σ) (i : ℕ) :
    (session operations s)[i]? = operations[i]?.map fun operation =>
      settle (operation.run (finish (operations.take i) s)) := by
  induction operations generalizing s i with
  | nil => rfl
  | cons first rest ih =>
    cases i with
    | zero => rfl
    | succ i => exact ih _ i

/-- What can be sent in one step. -/
inductive Sending where
  | byte (value : UInt8)
  | word (value : Word)
  | words (values : List Word)
  | flush
deriving DecidableEq

namespace Sending

def send (context : String) : Sending → Writing Unit
  | byte value => Writing.byte context value
  | word value => Writing.word context value
  | words values => Writing.words context values
  | flush => Writing.flush context

def bytes : Sending → List UInt8
  | byte value => [value]
  | word value => LittleEndian.encode wordWidth value.toNat
  | words values => LittleEndian.encodeWords wordWidth values
  | flush => []

/-- The inquiry that reads a value back, and what it finds. -/
def readBack? : Sending → Option (Inquiry × Finding)
  | byte value => some (.byte, .byte value)
  | word value => some (.word, .word value)
  | words values => some (.words values.length, .words values)
  | flush => none

def encoding (steps : List (String × Sending)) : List UInt8 :=
  steps.flatMap fun step => step.2.bytes

def operations (steps : List (String × Sending)) : List (Writing Unit) :=
  steps.map fun step => step.2.send step.1

end Sending

/-- The sink `t` is what `s` has become after it was offered the bytes `sent`, in any parts. -/
structure Sink.Becomes (s : Sink) (sent : List UInt8) (t : Sink) : Prop where
  taken_eq : t.taken = s.taken ++ s.fitting sent
  chunk_eq : t.chunk = s.chunk
  limit_eq : t.limit = s.limit
  fault_eq : t.fault = s.fault

lemma Sink.becomes_nil (s : Sink) : s.Becomes [] s := by
  refine ⟨?_, rfl, rfl, rfl⟩
  rw [s.fitting_nil, Array.appendList_nil]

lemma Sink.Becomes.bytes_eq {s t : Sink} {sent : List UInt8} (h : s.Becomes sent t) :
    t.bytes = s.bytes ++ s.fitting sent := by
  rw [bytes, h.taken_eq]
  exact s.bytes_take _

namespace Sending

variable {s t : Sink} {sent : List UInt8} {sending : Sending}

lemma settle_bytes (hchunk : s.chunk ≠ some 0) (context : String) (offer : List UInt8) :
    settle ((Writing.bytes context offer).run s) =
      (if offer = [] ∨ s.HasRoom offer.length then .ok ()
        else .error (.disconnected context (s.fault.getD .nothingTaken)),
        { s with taken := s.taken ++ s.fitting offer }) := by
  by_cases h : offer = [] ∨ s.HasRoom offer.length
  · rw [Writing.run_bytes_of_room hchunk context h, if_pos h]
    have hfit : s.fitting offer = offer := by
      rcases h with rfl | hroom
      · exact s.fitting_nil
      · exact Sink.fitting_of_hasRoom hroom
    rw [hfit]
    rfl
  · rw [Writing.run_bytes_of_not_room hchunk context h, if_neg h]
    rfl

lemma send_eq_bytes (context : String) (hne : sending ≠ flush) :
    sending.send context = Writing.bytes context sending.bytes := by
  cases sending with
  | flush => exact absurd rfl hne
  | _ => rfl

lemma settle_flush (context : String) (t : Sink) :
    (settle ((flush.send context).run t)).2 = { t with flushes := t.flushes + 1 } := by
  change (settle ((Writing.flush context).run t)).2 = _
  by_cases h : t.flushFault = some t.flushes
  · rw [Writing.run_flush_of_eq context h]
    rfl
  · rw [Writing.run_flush_of_ne context h]
    rfl

lemma becomes_send (hchunk : s.chunk ≠ some 0) (context : String) (sending : Sending)
    (h : s.Becomes sent t) :
    s.Becomes (sent ++ sending.bytes) (settle ((sending.send context).run t)).2 := by
  -- a flush has no bytes, but other values have none either
  by_cases hne : sending = flush
  · subst hne
    rw [settle_flush, bytes, List.append_nil]
    exact ⟨h.taken_eq, h.chunk_eq, h.limit_eq, h.fault_eq⟩
  · rw [send_eq_bytes context hne, settle_bytes (by rwa [h.chunk_eq])]
    refine ⟨?_, h.chunk_eq, h.limit_eq, h.fault_eq⟩
    rw [Sink.fitting_append h.limit_eq h.taken_eq, h.taken_eq, Sink.taken_append]

lemma becomes_finish (hchunk : s.chunk ≠ some 0) (steps : List (String × Sending))
    (h : s.Becomes sent t) :
    s.Becomes (sent ++ encoding steps) (finish (operations steps) t) := by
  induction steps generalizing sent t with
  | nil =>
    rw [encoding, List.flatMap_nil, List.append_nil]
    exact h
  | cons first rest ih =>
    obtain ⟨context, sending⟩ := first
    have hrest := ih (becomes_send hchunk context sending h)
    rw [List.append_assoc] at hrest
    exact hrest

/-- A value is sent iff it has no bytes or there is room for all that was offered so far. -/
lemma result_send (hchunk : s.chunk ≠ some 0) (context : String) (hne : sending ≠ flush)
    (h : s.Becomes sent t) :
    (settle ((sending.send context).run t)).1 =
      if sending.bytes = [] ∨ s.HasRoom (sent ++ sending.bytes).length then .ok ()
      else .error (.disconnected context (s.fault.getD .nothingTaken)) := by
  rw [send_eq_bytes context hne, settle_bytes (by rwa [h.chunk_eq]), h.fault_eq]
  by_cases hempty : sending.bytes = []
  · rw [if_pos (Or.inl hempty), if_pos (Or.inl hempty)]
  · simp only [Sink.hasRoom_behind_iff h.limit_eq h.taken_eq hempty]

lemma encoding_take_succ {steps : List (String × Sending)} {i : ℕ} {context : String}
    (h : steps[i]? = some (context, sending)) :
    encoding (steps.take (i + 1)) = encoding (steps.take i) ++ sending.bytes := by
  rw [List.take_add_one, h, encoding, List.flatMap_append]
  simp only [encoding, Option.toList_some, List.flatMap_cons, List.flatMap_nil, List.append_nil]

lemma session_operations_getElem? (s : Sink) {steps : List (String × Sending)} {i : ℕ}
    {context : String} (h : steps[i]? = some (context, sending)) :
    (session (operations steps) s)[i]? =
      some (settle ((sending.send context).run (finish (operations (steps.take i)) s))) := by
  have htake : (operations steps).take i = operations (steps.take i) := List.map_take.symm
  have hstep : (operations steps)[i]? = some (sending.send context) := by
    rw [operations, List.getElem?_map, h, Option.map_some]
  rw [session_getElem?, htake, hstep, Option.map_some]

lemma bytes_finish (hchunk : s.chunk ≠ some 0) (steps : List (String × Sending)) :
    (finish (operations steps) s).bytes = s.bytes ++ s.fitting (encoding steps) :=
  (becomes_finish hchunk steps s.becomes_nil).bytes_eq

section ReadBack

variable {inquiry : Inquiry} {finding : Finding}

lemma readBack?_spec (h : sending.readBack? = some (inquiry, finding)) :
    inquiry.size? = some sending.bytes.length ∧ inquiry.decode sending.bytes = finding := by
  cases sending with
  | byte value =>
    cases h
    exact ⟨rfl, congrArg Finding.byte (Request.decode_byte value)⟩
  | word value =>
    cases h
    refine ⟨?_, congrArg Finding.word (LittleEndian.ofNat_decode_encode value)⟩
    rw [bytes, LittleEndian.length_encode, Inquiry.size?]
  | words values =>
    cases h
    refine ⟨?_, congrArg Finding.words (Request.decode_words values)⟩
    rw [bytes, LittleEndian.length_encodeWords, Inquiry.size?]
  | flush => cases h

lemma eq_flush_of_readBack? (h : sending.readBack? = none) : sending = flush := by
  cases sending with
  | flush => rfl
  | _ => cases h

/-- A value is read back from its bytes, whatever follows them. -/
lemma parse_bytes (h : sending.readBack? = some (inquiry, finding)) (origin : Origin)
    (context : String) (fault : Option Fault) (rest : List UInt8) :
    inquiry.parse origin context fault (sending.bytes ++ rest) = (.ok finding, rest) := by
  obtain ⟨hsize, hdecode⟩ := readBack?_spec h
  unfold Inquiry.parse
  rw [hsize]
  dsimp only
  rw [if_pos (by rw [List.length_append]; omega), List.take_left, List.drop_left, hdecode]

lemma parseAll_encoding (origin : Origin) (steps : List (String × Sending))
    {inquiries : List (String × Inquiry)}
    (h : inquiries.map Prod.snd =
      (steps.filterMap fun step => step.2.readBack?).map Prod.fst ++ [.expectEnd]) :
    (Inquiry.parseAll origin none inquiries (encoding steps)).map Prod.fst =
      (steps.filterMap fun step => step.2.readBack?).map (fun pair => .ok pair.2) ++
        [.ok .ended] := by
  induction steps generalizing inquiries with
  | nil =>
    obtain ⟨last, rfl, hlast⟩ := List.map_eq_singleton_iff.1 h
    obtain ⟨context, inquiry⟩ := last
    obtain rfl : inquiry = .expectEnd := hlast
    rfl
  | cons first rest ih =>
    obtain ⟨context, sending⟩ := first
    cases hback : sending.readBack? with
    | none =>
      obtain rfl := eq_flush_of_readBack? hback
      exact ih h
    | some pair =>
      have hfound : ((context, sending) :: rest).filterMap (fun step => step.2.readBack?) =
          pair :: rest.filterMap fun step => step.2.readBack? := List.filterMap_cons_some hback
      rw [hfound, List.map_cons, List.cons_append, List.map_eq_cons_iff] at h
      obtain ⟨⟨other, inquiry⟩, tail, rfl, hinquiry, htail⟩ := h
      obtain rfl : inquiry = pair.1 := hinquiry
      have hbytes : encoding ((context, sending) :: rest) = sending.bytes ++ encoding rest :=
        List.flatMap_cons
      rw [hfound, hbytes, Inquiry.parseAll, parse_bytes hback]
      exact congrArg (List.cons _) (ih htail)

end ReadBack

lemma encoding_words (context : String) (values : List Word) :
    encoding (values.map fun value => (context, word value)) =
      encoding [(context, words values)] := by
  rw [encoding, encoding, List.flatMap_map, List.flatMap_cons, List.flatMap_nil, List.append_nil]
  rfl

/-- After every step the sink holds the start of what it was offered so far. A value is sent iff it
has no bytes or all that was offered fits, and otherwise fails in its own context; a flush adds
nothing. A fresh sink without a limit is read back value by value, to its end. A vector of words is
the same bytes as its words one by one. -/
theorem holds_and_reads_back (hchunk : s.chunk ≠ some 0) (steps : List (String × Sending)) :
    (∀ i context sending, steps[i]? = some (context, sending) →
      let offered := encoding (steps.take (i + 1))
      ∃ result next, (session (operations steps) s)[i]? = some (result, next) ∧
        next.bytes = s.bytes ++ s.fitting offered ∧
        (sending ≠ flush → result =
          if sending.bytes = [] ∨ s.HasRoom offered.length then .ok ()
          else .error (.disconnected context (s.fault.getD .nothingTaken)))) ∧
    (∀ context t, (settle ((flush.send context).run t)).2.bytes = t.bytes) ∧
    (s.limit = none → s.taken = #[] → ∀ origin, ∀ source : Source, source.Steady →
      source.fault = none → source.bytes = (finish (operations steps) s).bytes →
      ∀ inquiries : List (String × Inquiry), inquiries.map Prod.snd =
          (steps.filterMap fun step => step.2.readBack?).map Prod.fst ++ [.expectEnd] →
        (session (inquiries.map fun p => p.2.ask origin p.1) source).map Prod.fst =
          (steps.filterMap fun step => step.2.readBack?).map (fun pair => .ok pair.2) ++
            [.ok .ended]) ∧
    (∀ context values, (finish (operations [(context, words values)]) s).bytes =
      (finish (operations (values.map fun value => (context, word value))) s).bytes) := by
  refine ⟨?_, ?_, ?_, ?_⟩
  · intro i context sending hstep
    have hbefore := becomes_finish hchunk (steps.take i) s.becomes_nil
    have hafter := becomes_send hchunk context sending hbefore
    rw [List.nil_append] at hbefore hafter
    refine ⟨_, _, session_operations_getElem? s hstep, ?_, ?_⟩
    · rw [encoding_take_succ hstep]
      exact hafter.bytes_eq
    · intro hne
      rw [encoding_take_succ hstep]
      exact result_send hchunk context hne hbefore
  · intro context t
    rw [settle_flush]
    rfl
  · intro hlimit htaken origin source steady clean hsource inquiries hinquiries
    have hall : source.bytes = encoding steps := by
      rw [hsource, bytes_finish hchunk, Sink.bytes, htaken, Sink.fitting, hlimit]
      rfl
    have hanswers := congrArg (List.map Prod.fst) (Inquiry.session_ask origin inquiries steady)
    rw [List.map_map, clean, hall, parseAll_encoding origin steps hinquiries] at hanswers
    exact hanswers
  · intro context values
    rw [bytes_finish hchunk, bytes_finish hchunk, encoding_words]

def sampleSteps : List (String × Sending) :=
  [("a", byte 1), ("b", word 5), ("c", flush), ("d", words [7]), ("e", words [])]

theorem holds_and_reads_back_sample :
    let narrow : Sink := { chunk := some 2, limit := some 12, fault := some ⟨false, "full"⟩ }
    let wide : Sink := { chunk := some 2, flushFault := some 0 }
    let source : Source :=
      ⟨(finish (operations sampleSteps) wide).bytes, some 3, true, none, 0⟩
    (∃ next, (session (operations sampleSteps) narrow)[3]? =
      some (.error (.disconnected "d" ⟨false, "full"⟩), next) ∧
      next.bytes = [1, 5, 0, 0, 0, 0, 0, 0, 0, 7, 0, 0]) ∧
    (∃ next, (session (operations sampleSteps) narrow)[4]? = some (.ok (), next)) ∧
    (session [Inquiry.byte.ask .peer "p", Inquiry.word.ask .peer "q",
      (Inquiry.words 1).ask .peer "r", (Inquiry.words 0).ask .peer "s",
      Inquiry.expectEnd.ask .peer "t"] source).map Prod.fst =
      [.ok (.byte 1), .ok (.word 5), .ok (.words [7]), .ok (.words []), .ok .ended] := by
  intro narrow wide source
  have hnarrow : narrow.chunk ≠ some 0 := by decide
  have hwide : wide.chunk ≠ some 0 := by decide
  have steady : source.Steady := fun h => by cases h
  refine ⟨?_, ?_, ?_⟩
  · obtain ⟨result, next, hnext, hbytes, hresult⟩ :=
      (holds_and_reads_back hnarrow sampleSteps).1 3 "d" (words [7]) rfl
    refine ⟨next, ?_, hbytes⟩
    rw [hnext, hresult (by decide)]
    rfl
  · obtain ⟨result, next, hnext, -, hresult⟩ :=
      (holds_and_reads_back hnarrow sampleSteps).1 4 "e" (words []) rfl
    refine ⟨next, ?_⟩
    rw [hnext, hresult (by decide)]
    rfl
  · exact (holds_and_reads_back hwide sampleSteps).2.2.1 rfl rfl .peer source steady rfl rfl
      [("p", .byte), ("q", .word), ("r", .words 1), ("s", .words 0), ("t", .expectEnd)] rfl

end Sending

end MatrixAudit
