/-
  Replication/FullSync.lean --- the byte stream that a replica gets from its master.

  A dump is sent as `$`, its length, CRLF and its bytes, with nothing behind them, unlike a
  bulk string.  What the parser takes off behind a payload depends on what the talker
  expects, and that depends on the messages before.
-/
import BuildYourOwnRedis.Replication.ReplicaTalker
import BuildYourOwnRedis.Resp.Framing

set_option autoImplicit false

namespace BuildYourOwnRedis

open Foundation

/-! ## A dump on the wire -/

/-- The bytes of a dump. -/
def encodeDump (dump : Bytes) : Bytes :=
  messageBulkString :: decimal dump.length ++ crlf ++ dump

/-- A dump is cut at its length; no delimiter is taken off behind it. -/
theorem getPayload_dump {dump rest : Bytes} {queue : List Bytes}
    (hlen : dump.length < 2 ^ 31) :
    (⟨dump ++ rest, queue, some (toSizeT dump.length)⟩ : MessageParser).getPayload
        .syncResponse (toSizeT dump.length) = (.ok true, ⟨rest, queue ++ [dump], none⟩) := by
  have hsize : (toSizeT dump.length).toNat = dump.length := toNat_toSizeT (by omega)
  have hpos : ¬ toPtrdiff (toSizeT dump.length) < 0 := by
    rw [MessageParser.toPtrdiff_neg_iff, hsize]
    omega
  have hdelim : (MessageParser.delimSize .syncResponse).toNat = 0 := rfl
  have hsum := MessageParser.toNat_add_delimSize hpos .syncResponse
  have hlong : ¬ (dump ++ rest).length <
      (toSizeT dump.length + MessageParser.delimSize .syncResponse).toNat := by
    rw [hsum, hsize, hdelim, List.length_append]
    omega
  simp only [MessageParser.getPayload, hlong, if_false, hpos, hsize, hdelim, Nat.add_zero,
    List.drop_left, List.take_left]

/-- A talker that expects a dump gets it, and what stands behind it is left. -/
theorem tryParse_dump {dump : Bytes} (hne : dump ≠ []) (hlen : dump.length < 2 ^ 31)
    (rest : Bytes) :
    (⟨encodeDump dump ++ rest, [], none⟩ : MessageParser).tryParse .syncResponse =
      (.ok (some (.syncResponse dump)), ⟨rest, [], none⟩) := by
  have hbytes : encodeDump dump ++ rest =
      messageBulkString :: decimal dump.length ++ crlf ++ (dump ++ rest) := by
    simp [encodeDump]
  have hnull : (dump.length : Int) ≠ -1 := by omega
  -- the length line alone is no message
  have hopen : decode 1 .syncResponse [messageBulkString :: decimal dump.length] =
      .incomplete := by
    simp [decode, decodeBulkString, messageInteger, messageSimpleString, messageSimpleError,
      messageBulkString, parseInt_decimal hlen, hnull]
  have hdone : decode 2 .syncResponse [messageBulkString :: decimal dump.length, dump] =
      .value (.syncResponse dump) [] := by
    simp [decode, decodeBulkString, messageInteger, messageSimpleString, messageSimpleError,
      messageBulkString, parseInt_decimal hlen, hnull]
  have hpayload : (dump ++ rest).length ≠ 0 := by
    rw [List.length_append]
    have := List.length_pos_of_ne_nil hne
    omega
  rw [hbytes, MessageParser.tryParse_eq, if_neg (by simp)]
  simp only [MessageParser.getNextRawMessage, getLine_bulk hlen, MessageParser.afterCut,
    List.nil_append, List.length_singleton, hopen]
  rw [MessageParser.tryParse_eq, if_neg hpayload]
  simp only [MessageParser.getNextRawMessage, getPayload_dump hlen, MessageParser.afterCut,
    List.singleton_append, List.length_cons, List.length_nil, Nat.reduceAdd, hdone]

/-! ## What a talker expects -/

namespace ReplicaTalker

/-- `ReplicaTalker::expected`.  Only a dump is read in another mode, since it has no delimiter
behind it. -/
def expected (t : ReplicaTalker) : MessageType :=
  if t.state = .waitForRdbFileSync then .syncResponse else .any

/-- The talker after messages; `clocks` are the clocks when they come. -/
def listenAll : List Message → (Nat → Nat → Timepoint) → ReplicaTalker → Option ReplicaTalker
  | [], _, t => some t
  | m :: ms, clocks, t =>
      (t.listen (clocks 0) m).bind (listenAll ms fun i => clocks (i + 1))

/-- What is expected behind messages.  Where a handler has read what is not there, nothing
is known of the process, and what stands here does not matter. -/
def expectedAfter (clocks : Nat → Nat → Timepoint) (t : ReplicaTalker)
    (messages : List Message) : MessageType :=
  match listenAll messages clocks t with
  | some t => t.expected
  | none => .any

/-- The dumps that `RDBParse` is called on while messages come. -/
def rdbCalls : List Message → (Nat → Nat → Timepoint) → ReplicaTalker → List Bytes
  | [], _, _ => []
  | m :: ms, clocks, t =>
      (match t.state, m with
        | .waitForRdbFileSync, .syncResponse dump => [dump]
        | _, _ => []) ++
      match t.listen (clocks 0) m with
      | some t => rdbCalls ms (fun i => clocks (i + 1)) t
      | none => []

theorem listenAll_append (ms ms' : List Message) (clocks : Nat → Nat → Timepoint)
    (t : ReplicaTalker) : listenAll (ms ++ ms') clocks t =
      (listenAll ms clocks t).bind (listenAll ms' fun i => clocks (i + ms.length)) := by
  induction ms generalizing clocks t with
  | nil => rfl
  | cons m ms ih =>
      simp only [List.cons_append, listenAll, Option.bind_assoc, List.length_cons]
      congr 1
      funext t'
      rw [ih]
      congr 2

theorem rdbCalls_append {ms ms' : List Message} {clocks : Nat → Nat → Timepoint}
    {t t' : ReplicaTalker} (h : listenAll ms clocks t = some t') :
    rdbCalls (ms ++ ms') clocks t =
      rdbCalls ms clocks t ++ rdbCalls ms' (fun i => clocks (i + ms.length)) t' := by
  induction ms generalizing clocks t with
  | nil =>
      obtain rfl := Option.some.inj h
      rfl
  | cons m ms ih =>
      obtain ⟨t₁, hlisten, hrest⟩ := Option.bind_eq_some_iff.mp h
      simp only [List.cons_append, rdbCalls, hlisten, ih hrest, List.append_assoc,
        List.length_cons]
      congr 4

/-! ## Commands of the master -/

/-- A command changes no state of the handshake. -/
theorem process_state {now : Timepoint} {m : Message} {t t' : ReplicaTalker}
    (h : t.process now m = some t') : t'.state = t.state := by
  unfold process execute nextSay at h
  grind

/-- A talker that gets commands keeps getting them. -/
theorem listenAll_commands {ms : List Message} {clocks : Nat → Nat → Timepoint}
    {t t' : ReplicaTalker} (ht : t.state = .waitServerCommands)
    (h : listenAll ms clocks t = some t') : t'.state = .waitServerCommands := by
  induction ms generalizing clocks t with
  | nil => exact Option.some.inj h ▸ ht
  | cons m ms ih =>
      obtain ⟨t₁, hlisten, hrest⟩ := Option.bind_eq_some_iff.mp h
      simp only [listen, ht] at hlisten
      exact ih ((process_state hlisten).trans ht) hrest

theorem expectedAfter_commands {ms : List Message} {clocks : Nat → Nat → Timepoint}
    {t : ReplicaTalker} (ht : t.state = .waitServerCommands) :
    t.expectedAfter clocks ms = .any := by
  unfold expectedAfter
  split
  · next t' h =>
      unfold expected
      rw [listenAll_commands ht h]
      rfl
  · rfl

/-- It loads no dump. -/
theorem rdbCalls_commands {ms : List Message} {clocks : Nat → Nat → Timepoint}
    {t : ReplicaTalker} (ht : t.state = .waitServerCommands) : rdbCalls ms clocks t = [] := by
  induction ms generalizing clocks t with
  | nil => rfl
  | cons m ms ih =>
      simp only [rdbCalls, ht, List.nil_append]
      split
      · next t₁ hlisten =>
          simp only [listen, ht] at hlisten
          exact ih ((process_state hlisten).trans ht)
      · rfl

end ReplicaTalker

/-! ## The handshake -/

/-- The answers of the master to the handshake, and the dump. -/
def syncMessages (text dump : Bytes) : List Message :=
  [.simpleString (ascii "PONG"), .simpleString (ascii "OK"), .simpleString (ascii "OK"),
    .simpleString (ascii "FULLRESYNC" ++ text), .syncResponse dump]

/-- The bytes of these. -/
def syncBytes (text dump : Bytes) : Bytes :=
  ascii "+PONG" ++ crlf ++ ascii "+OK" ++ crlf ++ ascii "+OK" ++ crlf ++
    ascii "+FULLRESYNC" ++ text ++ crlf ++ encodeDump dump

namespace ReplicaTalker

variable {clocks : Nat → Nat → Timepoint} {tcpPort : Int} {storage : Storage Unit}

/-- A talker that has just been made. -/
def fresh (tcpPort : Int) (storage : Storage Unit) : ReplicaTalker :=
  { tcpPort := tcpPort, storage := storage }

/-- What is expected before each of these messages. -/
theorem expectedAfter_take (text dump : Bytes) :
    (List.range 5).map (fun n => (fresh tcpPort storage).expectedAfter clocks
      ((syncMessages text dump).take n)) = [.any, .any, .any, .any, .syncResponse] := rfl

/-- The last of them is loaded. -/
theorem listenAll_sync {text dump : Bytes} (haccept : (rdbParse (clocks 4) dump).2 = .ok ()) :
    ∃ t, listenAll (syncMessages text dump) clocks (fresh tcpPort storage) = some t ∧
      t.state = .waitServerCommands := by
  have hall : listenAll (syncMessages text dump) clocks (fresh tcpPort storage) =
      some (load (clocks 4) dump { fresh tcpPort storage with
        state := .waitForRdbFileSync
        pending := [Command.ping.construct, (replConfPort tcpPort).construct,
          replConfCapa.construct, psync.construct] }) := rfl
  refine ⟨_, hall, ?_⟩
  simp only [load, haccept]

theorem rdbCalls_sync (text dump : Bytes) :
    rdbCalls (syncMessages text dump) clocks (fresh tcpPort storage) = [dump] := rfl

theorem expectedAfter_sync {text dump : Bytes}
    (haccept : (rdbParse (clocks 4) dump).2 = .ok ()) (more : List Message) :
    (fresh tcpPort storage).expectedAfter clocks (syncMessages text dump ++ more) = .any := by
  obtain ⟨t, hlisten, hstate⟩ := @listenAll_sync clocks tcpPort storage text dump haccept
  have hmore := @expectedAfter_commands more
    (fun i => clocks (i + (syncMessages text dump).length)) t hstate
  simpa only [expectedAfter, listenAll_append, hlisten, Option.bind_some] using hmore

end ReplicaTalker

/-! ## Framing -/

/-- One message that is pulled, as a step of draining. -/
theorem drain_item {listener : List Message → MessageType} {items : List Message}
    {p p' : MessageParser} {m : Message} {mode : MessageType} (hmode : listener items = mode)
    (hparse : p.tryParse mode = (.ok (some m), p')) :
    messagePuller.drain listener items p = messagePuller.drain listener (items ++ [m]) p' := by
  have hpull : messagePuller.pull (listener items) p = .item m p' :=
    hmode ▸ MessageParser.pull_eq_item.mpr hparse
  rw [messagePuller.drain_eq, hpull]

/-- A line with a simple string is one. -/
theorem tryParse_simpleString {text : Bytes} (hline : ¬ crlf <:+: text) (rest : Bytes) :
    (⟨messageSimpleString :: (text ++ (crlf ++ rest)), [], none⟩ : MessageParser).tryParse
      .any = (.ok (some (.simpleString text)), ⟨rest, [], none⟩) := by
  have hreads := reads_of_encodes (Encodes.simpleString hline) rest
  simpa [Frame.bytes] using hreads

theorem syncBytes_append (text dump rest : Bytes) :
    syncBytes text dump ++ rest =
      messageSimpleString :: (ascii "PONG" ++ (crlf ++
      messageSimpleString :: (ascii "OK" ++ (crlf ++
      messageSimpleString :: (ascii "OK" ++ (crlf ++
      messageSimpleString :: ((ascii "FULLRESYNC" ++ text) ++ (crlf ++
      (encodeDump dump ++ rest))))))))) := by
  simp only [syncBytes, List.append_assoc]
  rfl

/-- The handshake and the dump are read, and the parser is fresh on what follows. -/
theorem drain_sync {listener : List Message → MessageType} {text dump : Bytes}
    (hlistener : (List.range 5).map (fun n => listener ((syncMessages text dump).take n)) =
      [.any, .any, .any, .any, .syncResponse])
    (hline : ¬ crlf <:+: ascii "FULLRESYNC" ++ text) (hne : dump ≠ [])
    (hlen : dump.length < 2 ^ 31) (rest : Bytes) :
    messagePuller.drain listener [] ⟨syncBytes text dump ++ rest, [], none⟩ =
      messagePuller.drain listener (syncMessages text dump) ⟨rest, [], none⟩ := by
  have hpong : ¬ crlf <:+: ascii "PONG" := by decide
  have hok : ¬ crlf <:+: ascii "OK" := by decide
  simp only [List.range_succ, List.range_zero, List.nil_append, List.cons_append, List.map_cons,
    List.map_nil, syncMessages, List.take_succ_cons, List.take_zero, List.cons.injEq,
    and_true] at hlistener
  obtain ⟨h₀, h₁, h₂, h₃, h₄⟩ := hlistener
  rw [syncBytes_append]
  refine (drain_item h₀ (tryParse_simpleString hpong _)).trans ?_
  refine (drain_item h₁ (tryParse_simpleString hok _)).trans ?_
  refine (drain_item h₂ (tryParse_simpleString hok _)).trans ?_
  refine (drain_item h₃ (tryParse_simpleString hline _)).trans ?_
  exact drain_item h₄ (tryParse_dump hne hlen rest)

/-- **The stream of a full synchronization is framed correctly.**  However the answers to
the handshake, the dump and what follows are cut into chunks: `RDBParse` is called once, on
the dump, and what follows is read as by a fresh parser that expects no dump. -/
theorem fullSync_framed {clocks : Nat → Nat → Timepoint} {tcpPort : Int}
    {storage : Storage Unit} {text dump rest : Bytes} {chunks : List Bytes}
    (hline : ¬ crlf <:+: ascii "FULLRESYNC" ++ text) (hne : dump ≠ [])
    (hlen : dump.length < 2 ^ 31) (haccept : (rdbParse (clocks 4) dump).2 = .ok ())
    (hchunks : chunks.flatten = syncBytes text dump ++ rest) :
    let talker := ReplicaTalker.fresh tcpPort storage
    let result := readChunks (talker.expectedAfter clocks) chunks
    let later := readAtOnce (fun _ => .any) rest
    result.items = syncMessages text dump ++ later.items ∧
      result.ending = later.ending ∧
      ReplicaTalker.rdbCalls result.items clocks talker = [dump] := by
  intro talker result later
  have hmode : ∀ more, talker.expectedAfter clocks (syncMessages text dump ++ more) = .any :=
    ReplicaTalker.expectedAfter_sync haccept
  have hresult : result = ⟨syncMessages text dump ++ later.items, later.ending⟩ := by
    have hdrain := @drain_sync (talker.expectedAfter clocks) text dump
      (ReplicaTalker.expectedAfter_take text dump) hline hne hlen rest
    have hlater := messagePuller.drain_of_mode_eq hmode [] ⟨rest, [], none⟩
    rw [List.append_nil] at hlater
    simp only [result, readChunks_eq_readAtOnce, readAtOnce, hchunks, MessageParser.fresh,
      MessageParser.feed, List.nil_append]
    exact hdrain.trans hlater
  refine ⟨by rw [hresult], by rw [hresult], ?_⟩
  obtain ⟨t, hlisten, hstate⟩ :=
    @ReplicaTalker.listenAll_sync clocks tcpPort storage text dump haccept
  rw [hresult, ReplicaTalker.rdbCalls_append hlisten, ReplicaTalker.rdbCalls_commands hstate,
    List.append_nil]
  exact ReplicaTalker.rdbCalls_sync text dump

/-- A dump without keys whose checksum reads as `\r\n*1\r\n` and two zeros, cut behind the
first byte of its length line, and a PING. -/
theorem fullSync_framed_noKeys :
    let dump := ascii "REDIS0011" ++ [255, 13, 10, 42, 49, 13, 10, 0, 0]
    let ping := ascii "*1\r\n$4\r\nPING\r\n"
    let chunks := [ascii "+PONG\r\n+OK\r\n+OK\r\n+FULLRESYNC x 0\r\n$",
      ascii "18\r\n" ++ dump ++ ping]
    let talker := ReplicaTalker.fresh 6380 {}
    let result := readChunks (talker.expectedAfter fun _ _ => 0) chunks
    let later := readAtOnce (fun _ => .any) ping
    result.items = syncMessages (ascii " x 0") dump ++ later.items ∧
      result.ending = later.ending ∧
      ReplicaTalker.rdbCalls result.items (fun _ _ => 0) talker = [dump] :=
  @fullSync_framed (fun _ _ => 0) 6380 {} (ascii " x 0")
    (ascii "REDIS0011" ++ [255, 13, 10, 42, 49, 13, 10, 0, 0]) (ascii "*1\r\n$4\r\nPING\r\n") _
    (by decide +kernel) (by decide +kernel) (by decide +kernel) (by decide +kernel)
    (by decide +kernel)

end BuildYourOwnRedis
