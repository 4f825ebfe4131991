import MatrixAudit.Proofs.FileReading

/-!
# Reading in several steps

A source can be asked again whether its last answer was a failure or not. Each answer, and what it
leaves unread, is a matter of the bytes and of the fault behind them: the pieces in which they come
and the interruptions do not show.
-/

namespace MatrixAudit

/-- The result of an operation and the channel as it leaves it. -/
def settle {σ α : Type} : EStateM.Result Failure σ α → Except Failure α × σ
  | .ok value next => (.ok value, next)
  | .error failure next => (.error failure, next)

/-- Runs operations one after the other, whether they succeed or not. -/
def session {σ α : Type} : List (EStateM Failure σ α) → σ → List (Except Failure α × σ)
  | [], _ => []
  | operation :: rest, s =>
    let outcome := settle (operation.run s)
    outcome :: session rest outcome.2

/-- What a source can be asked for. -/
inductive Inquiry where
  | byte
  | word
  | words (length : ℕ)
  | entries (length : ℕ)
  | remaining
  | expectEnd
deriving DecidableEq

inductive Finding where
  | byte (value : UInt8)
  | word (value : Word)
  | words (values : List Word)
  | count (extra : ℕ)
  | ended
deriving DecidableEq

namespace Inquiry

def ask (origin : Origin) (context : String) : Inquiry → Reading Finding
  | byte => Finding.byte <$> Reading.byte origin context
  | word => Finding.word <$> Reading.word origin context
  | words length => Finding.words <$> Reading.words origin context length
  | entries length => Finding.words <$> Reading.entries origin context length
  | remaining => Finding.count <$> Reading.remaining origin
  | expectEnd => (fun _ => Finding.ended) <$> Reading.expectEnd origin

/-- The number of bytes asked for, unless it is all there are. -/
def size? : Inquiry → Option ℕ
  | byte => some 1
  | word => some wordWidth
  | words length => some (wordWidth * length)
  | entries length => some (entryWidth * length)
  | remaining | expectEnd => none

/-- The number of bytes that a failure reports. A number of words need not have 64 bits. -/
def reported : Inquiry → ℕ
  | words length => min (wordWidth * length) (2 ^ 64 - 1)
  | inquiry => inquiry.size?.getD 0

def decode : Inquiry → List UInt8 → Finding
  | byte, bytes => .byte (UInt8.ofNat (LittleEndian.decode bytes))
  | word, bytes => .word (UInt64.ofNat (LittleEndian.decode bytes))
  | words length, bytes => .words (LittleEndian.decodeWords wordWidth length bytes)
  | entries length, bytes => .words (LittleEndian.decodeWords entryWidth length bytes)
  | remaining, bytes => .count bytes.length
  | expectEnd, _ => .ended

/-- How it is reported that not all of `count` bytes came. Without a fault the input ended. -/
def shortage (origin : Origin) (context : String) (count : ℕ) : Option Fault → Failure
  | none => if origin = .peer then .disconnected context .inputEnded
    else .truncated origin context count
  | some fault => if origin = .peer then .disconnected context fault
    else if fault.endsInput then .truncated origin context count
    else .unreadable origin context fault

/-- The answer to an inquiry about plain bytes with or without a fault behind them, and the bytes
that it leaves. -/
def parse (origin : Origin) (context : String) (fault : Option Fault) (bytes : List UInt8)
    (inquiry : Inquiry) : Except Failure Finding × List UInt8 :=
  match inquiry.size?, fault with
  | some size, _ =>
    if size ≤ bytes.length then (.ok (inquiry.decode (bytes.take size)), bytes.drop size)
    else (.error (shortage origin context inquiry.reported fault), [])
  | none, some _ => (.error (shortage origin "draining trailing bytes" 0 fault), [])
  | none, none =>
    if inquiry = expectEnd ∧ bytes ≠ [] then (.error (.overlong origin bytes.length), [])
    else (.ok (inquiry.decode bytes), [])

def parseAll (origin : Origin) (fault : Option Fault) :
    List (String × Inquiry) → List UInt8 → List (Except Failure Finding × List UInt8)
  | [], _ => []
  | (context, inquiry) :: rest, bytes =>
    let outcome := inquiry.parse origin context fault bytes
    outcome :: parseAll origin fault rest outcome.2

end Inquiry

section Map

variable {ε σ α β : Type} {x : EStateM ε σ α} {f : α → β} {s t : σ}

lemma map_of_ok {a : α} (h : x s = .ok a t) : (f <$> x) s = .ok (f a) t := by
  simp only [Functor.map, EStateM.map, h]

lemma map_of_error {e : ε} (h : x s = .error e t) : (f <$> x) s = .error e t := by
  simp only [Functor.map, EStateM.map, h]

end Map

lemma Source.drain_of_fault {s : Source} {fault : Fault} (steady : s.Steady)
    (hfault : s.fault = some fault) (count : ℕ) :
    ∃ reads, s.drain count = .error fault { s with bytes := [], reads } := by
  have hroom : 0 < drainRoom := by decide
  fun_induction drain s count with
  | case1 s count next arrival ih =>
    obtain ⟨-, rfl⟩ := read_interrupted arrival
    exact ih steady hfault
  | case2 s count fault' next arrival =>
    obtain ⟨hbytes, hsame, rfl⟩ := read_failed arrival
    rw [hfault, Option.some.injEq] at hsame
    exact ⟨s.reads + 1, by rw [hsame, hbytes]⟩
  | case3 s count next arrival =>
    have hclean := (read_nothing steady hroom arrival).2.1
    rw [hfault] at hclean
    cases hclean
  | case4 s count byte piece next arrival ih =>
    obtain ⟨-, rfl⟩ := read_bytes arrival
    exact ih steady hfault

namespace Inquiry

variable {origin : Origin} {context : String} {inquiry : Inquiry} {s : Source} {size : ℕ}

lemma ofRead_eq_shortage (origin : Origin) (context : String) (count : ℕ) (fault : Option Fault) :
    Failure.ofRead origin context count (fault.getD .inputEnded) =
      shortage origin context count fault := by
  cases fault <;> cases origin <;> rfl

lemma ask_of_le (hsize : inquiry.size? = some size) (steady : s.Steady)
    (h : size ≤ s.bytes.length) :
    ∃ reads, (inquiry.ask origin context).run s = .ok (inquiry.decode (s.bytes.take size))
      { s with bytes := s.bytes.drop size, reads } := by
  -- only a vector of words is read in more than one piece
  cases inquiry with
  | words length =>
    cases hsize
    obtain ⟨reads, hread⟩ := Reading.wordBlocks_of_le origin context
      (min (wordWidth * length) Reading.greatestCount) steady [] h
    rw [decode, LittleEndian.decodeWords_take]
    exact ⟨reads, map_of_ok hread⟩
  | remaining => cases hsize
  | expectEnd => cases hsize
  | _ =>
    cases hsize
    obtain ⟨reads, hread⟩ := Reading.exactly_of_le origin context _ steady h
    exact ⟨reads, map_of_ok (bind_of_ok hread)⟩

lemma ask_of_lt (hsize : inquiry.size? = some size) (steady : s.Steady)
    (h : s.bytes.length < size) :
    ∃ reads, (inquiry.ask origin context).run s =
      .error (shortage origin context inquiry.reported s.fault) { s with bytes := [], reads } := by
  rw [← ofRead_eq_shortage]
  cases inquiry with
  | words length =>
    cases hsize
    obtain ⟨reads, hread⟩ := Reading.wordBlocks_of_lt origin context
      (min (wordWidth * length) Reading.greatestCount) steady [] h
    exact ⟨reads, map_of_error hread⟩
  | remaining => cases hsize
  | expectEnd => cases hsize
  | _ =>
    cases hsize
    obtain ⟨reads, hread⟩ := Reading.exactly_of_lt origin context _ steady h
    exact ⟨reads, map_of_error (bind_of_error hread)⟩

lemma ask_of_zero (origin : Origin) (context : String) (hsize : inquiry.size? = some 0)
    (s : Source) : (inquiry.ask origin context).run s = .ok (inquiry.decode []) s := by
  cases inquiry with
  | words length =>
    rw [size?, Option.some.injEq, wordWidth] at hsize
    obtain rfl : length = 0 := by omega
    apply map_of_ok
    rw [Reading.words, Reading.wordBlocks]
    rfl
  | entries length =>
    rw [size?, Option.some.injEq, entryWidth] at hsize
    obtain rfl : length = 0 := by omega
    have hfill : s.fill (entryWidth * 0) [] = .ok [] s := by
      rw [Nat.mul_zero, Source.fill]
      rfl
    have hread : Reading.entryBytes origin context 0 s = .ok [] s := by
      rw [Reading.entryBytes, Reading.exactly, hfill]
    exact map_of_ok (bind_of_ok hread)
  | _ => cases hsize

lemma ask_of_fault (origin : Origin) (context : String) (hsize : inquiry.size? = none)
    (steady : s.Steady) {fault : Fault} (hfault : s.fault = some fault) :
    ∃ reads, (inquiry.ask origin context).run s =
      .error (shortage origin "draining trailing bytes" 0 s.fault)
        { s with bytes := [], reads } := by
  obtain ⟨reads, hdrain⟩ := Source.drain_of_fault steady hfault 0
  have hread : Reading.remaining origin s =
      .error (shortage origin "draining trailing bytes" 0 s.fault)
        { s with bytes := [], reads } := by
    unfold Reading.remaining
    rw [hdrain, ← ofRead_eq_shortage, hfault, Option.getD_some]
  cases inquiry with
  | remaining => exact ⟨reads, map_of_error hread⟩
  | expectEnd => exact ⟨reads, map_of_error (bind_of_error hread)⟩
  | _ => cases hsize

lemma ask_remaining (origin : Origin) (context : String) (steady : s.Steady)
    (clean : s.fault = none) :
    ∃ reads, (remaining.ask origin context).run s =
      .ok (.count s.bytes.length) { s with bytes := [], reads } := by
  obtain ⟨reads, hread⟩ := Reading.remaining_parses origin s.bytes s steady clean rfl
  exact ⟨reads, map_of_ok hread⟩

lemma ask_expectEnd (origin : Origin) (context : String) (steady : s.Steady)
    (clean : s.fault = none) (hbytes : s.bytes = []) :
    ∃ reads, (expectEnd.ask origin context).run s = .ok .ended { s with bytes := [], reads } := by
  obtain ⟨reads, hread⟩ := Reading.expectEnd_parses origin s steady clean hbytes
  exact ⟨reads, map_of_ok hread⟩

lemma ask_expectEnd_error (origin : Origin) (context : String) (steady : s.Steady)
    (clean : s.fault = none) (hbytes : s.bytes ≠ []) :
    ∃ reads, (expectEnd.ask origin context).run s =
      .error (.overlong origin s.bytes.length) { s with bytes := [], reads } := by
  obtain ⟨reads, hread⟩ := Reading.expectEnd_parses_error origin hbytes s steady clean rfl
  exact ⟨reads, map_of_error hread⟩

/-- One inquiry is answered as the bytes and the fault behind them say. -/
theorem settle_ask (origin : Origin) (context : String) (inquiry : Inquiry) (steady : s.Steady) :
    ∃ reads, settle ((inquiry.ask origin context).run s) =
      ((inquiry.parse origin context s.fault s.bytes).1,
        { s with bytes := (inquiry.parse origin context s.fault s.bytes).2, reads }) := by
  unfold parse
  cases hsize : inquiry.size? with
  | some size =>
    dsimp only
    by_cases h : size ≤ s.bytes.length
    · obtain ⟨reads, hask⟩ := ask_of_le hsize steady h
      rw [hask, if_pos h]
      exact ⟨reads, rfl⟩
    · obtain ⟨reads, hask⟩ := ask_of_lt hsize steady (Nat.lt_of_not_le h)
      rw [hask, if_neg h]
      exact ⟨reads, rfl⟩
  | none =>
    cases hfault : s.fault with
    | some fault =>
      obtain ⟨reads, hask⟩ := ask_of_fault origin context hsize steady hfault
      rw [hask, hfault]
      exact ⟨reads, rfl⟩
    | none =>
      dsimp only
      cases inquiry with
      | remaining =>
        obtain ⟨reads, hask⟩ := ask_remaining origin context steady hfault
        rw [hask, hfault]
        exact ⟨reads, rfl⟩
      | expectEnd =>
        by_cases hbytes : s.bytes = []
        · obtain ⟨reads, hask⟩ := ask_expectEnd origin context steady hfault hbytes
          rw [hask, hfault, if_neg (by simp [hbytes])]
          exact ⟨reads, rfl⟩
        · obtain ⟨reads, hask⟩ := ask_expectEnd_error origin context steady hfault hbytes
          rw [hask, hfault, if_pos ⟨rfl, hbytes⟩]
          exact ⟨reads, rfl⟩
      | _ => cases hsize

lemma session_ask (origin : Origin) (inquiries : List (String × Inquiry)) (steady : s.Steady) :
    (session (inquiries.map fun p => p.2.ask origin p.1) s).map (fun o => (o.1, o.2.bytes)) =
      parseAll origin s.fault inquiries s.bytes := by
  -- what a step changes besides the bytes is only the number of reads
  induction inquiries generalizing s with
  | nil => rfl
  | cons first rest ih =>
    obtain ⟨context, inquiry⟩ := first
    obtain ⟨reads, hstep⟩ := settle_ask origin context inquiry steady
    rw [List.map_cons, session]
    dsimp only
    rw [hstep]
    exact congrArg (List.cons _) (ih steady)

lemma session_drained (origin : Origin) (context second : String) (hsize : inquiry.size? = none)
    (steady : s.Steady) (clean : s.fault = none) :
    ∃ reply next, session [inquiry.ask origin context, remaining.ask origin second] s =
      [reply, (.ok (.count 0), next)] := by
  obtain ⟨reads, hfirst⟩ := settle_ask origin context inquiry steady
  have hempty : (inquiry.parse origin context s.fault s.bytes).2 = [] := by
    unfold parse
    rw [hsize, clean]
    dsimp only
    split <;> rfl
  rw [hempty] at hfirst
  obtain ⟨used, hsecond⟩ := ask_remaining origin second
    (s := { s with bytes := [], reads }) steady clean
  refine ⟨settle ((inquiry.ask origin context).run s), { s with bytes := [], reads := used }, ?_⟩
  rw [session, session, session, hfirst, hsecond]
  rfl

/-- Whatever a source is asked, the answers and the bytes that each leaves are those of the plain
bytes and the fault behind them. An inquiry about no bytes does not touch the source, and behind a
drain without a fault nothing is counted. -/
theorem session_eq_parseAll (origin : Origin) (steady : s.Steady) :
    (∀ inquiries : List (String × Inquiry),
      (session (inquiries.map fun p => p.2.ask origin p.1) s).map (fun o => (o.1, o.2.bytes)) =
        parseAll origin s.fault inquiries s.bytes) ∧
    (∀ context, ∀ inquiry : Inquiry, inquiry.size? = some 0 →
      (inquiry.ask origin context).run s = .ok (inquiry.decode []) s) ∧
    (s.fault = none → ∀ context second, ∀ inquiry : Inquiry, inquiry.size? = none →
      ∃ reply next, session [inquiry.ask origin context, remaining.ask origin second] s =
        [reply, (.ok (.count 0), next)]) :=
  ⟨fun inquiries => session_ask origin inquiries steady,
    fun context _ hsize => ask_of_zero origin context hsize s,
    fun clean context second _ hsize => session_drained origin context second hsize steady clean⟩

/-- A dataset file that breaks off inside a word, behind a byte, a word and an entry. -/
def brokenSource : Source where
  bytes := 65 :: LittleEndian.encodeWords wordWidth [5] ++ LittleEndian.encode entryWidth 258 ++
    [9, 9]
  chunk := some 3
  interrupts := true
  fault := some ⟨false, "reset"⟩

theorem session_eq_parseAll_sample :
    brokenSource.Steady ∧
    (session [byte.ask .datasetFile "a", (words 1).ask .datasetFile "b",
      (words 0).ask .datasetFile "c", (entries 1).ask .datasetFile "d", word.ask .datasetFile "e",
      remaining.ask .datasetFile "f"] brokenSource).map (fun o => (o.1, o.2.bytes.length)) =
      [(.ok (.byte 65), 17), (.ok (.words [5]), 9), (.ok (.words []), 9), (.ok (.words [258]), 2),
        (.error (.unreadable .datasetFile "e" ⟨false, "reset"⟩), 0),
        (.error (.unreadable .datasetFile "draining trailing bytes" ⟨false, "reset"⟩), 0)] ∧
    ((words 0).ask .peer "c").run brokenSource = .ok (.words []) brokenSource ∧
    ∃ reply next, session [expectEnd.ask .peer "g", remaining.ask .peer "h"]
      { brokenSource with fault := none } = [reply, (.ok (.count 0), next)] := by
  have steady : brokenSource.Steady := fun h => by cases h
  have hsession := (session_eq_parseAll .datasetFile steady).1 [("a", byte), ("b", words 1),
    ("c", words 0), ("d", entries 1), ("e", word), ("f", remaining)]
  have hlengths := congrArg (List.map fun o => (o.1, o.2.length)) hsession
  rw [List.map_map] at hlengths
  refine ⟨steady, hlengths.trans rfl, (session_eq_parseAll .peer steady).2.1 "c" (words 0) rfl, ?_⟩
  exact (session_eq_parseAll .peer (s := { brokenSource with fault := none }) steady).2.2 rfl
    "g" "h" expectEnd rfl

end Inquiry

end MatrixAudit
