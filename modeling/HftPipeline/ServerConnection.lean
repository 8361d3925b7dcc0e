import HftPipeline.ExchangeSimulator

/-!
# The connection to the retransmit server

What the server sends are the cached messages that the client has asked for, in their order. So long as
the client is waiting for packets, the connection holds its request or the next of them, or
the server has closed it; otherwise it holds nothing.
-/
namespace HftPipeline

open CircularCache

namespace CacheMachine

/-- A reader that returns is idle. -/
theorem step_read_returned {R T : Type} {bits : Nat} [DecidableEq R] (m : CacheMachine R T bits) {r : R}
    (hreturned : (readerStep m.cache (m.readers r)).2 ≠ none) : (m.step (.read r)).readers r = .idle := by
  cases hpc : m.readers r with
  | idle =>
    rw [hpc] at hreturned
    exact absurd rfl hreturned
  | sampling itemIndex completed =>
    simp only [readerStep, hpc] at hreturned
    simp only [step, read, hpc, ReaderPc.call, readerStep, Function.update_self]
    split
    · rfl
    · rename_i hjudge
      rw [hjudge] at hreturned
      exact absurd rfl hreturned
  | loading itemIndex completed seqBefore =>
    rw [hpc] at hreturned
    exact absurd rfl hreturned
  | checking itemIndex completed seqBefore item =>
    simp only [step, read, hpc, ReaderPc.call, readerStep, Function.update_self]
    split <;> rfl

end CacheMachine

namespace ExchangeSimulator

variable {feed : Feed} {x x' : ExchangeSimulator}

/-! ## The retransmit server -/

/-- What a step of the server does to the connection. -/
inductive Answers (x x' : ExchangeSimulator) : Prop
  | wait (hsame : x'.requests = x.requests ∧ x'.serving = x.serving ∧ x'.stream = x.stream)
  | take (request : RetransmitRequest) (hserving : x.serving = none) (hrequests : x.requests = request :: x'.requests)
      (hnext : x'.serving = some request) (hstream : x'.stream = x.stream)
  | finish (request : RetransmitRequest) (hserving : x.serving = some request) (hdone : request.Done)
      (hnext : x'.serving = none) (hsame : x'.requests = x.requests ∧ x'.stream = x.stream)
  | close (request : RetransmitRequest) (hserving : x.serving = some request)
      (hopen : request.firstPacket < request.lastPacket) (hnext : x'.serving = none)
      (hrequests : x'.requests = x.requests) (hstream : x'.stream = x.stream ++ [none])
  | send (request : RetransmitRequest) (message : EncodedMessage) (hserving : x.serving = some request)
      (hopen : request.firstPacket < request.lastPacket)
      (hmessage : x.cached[request.firstPacket.toNat - 1]? = some message)
      (hnext : x'.serving = some { request with firstPacket := request.firstPacket + 1 })
      (hrequests : x'.requests = x.requests) (hstream : x'.stream = x.stream ++ [some message])

theorem toNat_itemIndex {packet : UInt64} (hpos : 1 ≤ packet.toNat) (hbound : packet.toNat < 2 ^ 32) :
    (packet - firstSequenceId).toUInt32.toNat = packet.toNat - 1 := by
  have hle : firstSequenceId ≤ packet := by
    show (1 : UInt64).toNat ≤ packet.toNat
    rw [UInt64.toNat_one]
    exact hpos
  rw [UInt64.toNat_toUInt32, UInt64.toNat_sub_of_le _ _ hle]
  show (packet.toNat - 1) % 2 ^ 32 = packet.toNat - 1
  omega

theorem toNat_add_one {packet last : UInt64} (hlt : packet < last) : (packet + 1).toNat = packet.toNat + 1 := by
  have hlt : packet.toNat < last.toNat := hlt
  have := last.toNat_lt
  rw [UInt64.toNat_add, UInt64.toNat_one]
  omega

/-- The server leaves the store as it is. -/
theorem Sound.withServer (h : x.Sound feed) {cache : CacheMachine Unit EncodedMessage retransmitCacheBits}
    (hcache : cache.Opening ∨ cache.Sound) (hsame : x.retransmitCache.SameStore cache)
    {serving : Option RetransmitRequest} {requests : List RetransmitRequest} {stream : List (Option EncodedMessage)}
    (hrequests : ∀ request ∈ requests, request.Within x.retransmitCache.completed)
    (hserving : ∀ request, serving = some request → request.Within x.retransmitCache.completed)
    (hlookup : ∀ itemIndex completed, (cache.readers ()).call = some (itemIndex, completed) →
      ({ x with serving := serving } : ExchangeSimulator).LooksUp itemIndex) :
    ({ x with retransmitCache := cache, serving := serving, requests := requests, stream := stream } :
      ExchangeSimulator).Sound feed ∧
    ({ x with retransmitCache := cache, serving := serving, requests := requests, stream := stream } :
      ExchangeSimulator).cached = x.cached := by
  obtain ⟨hstore, hwriter, hitems⟩ := hsame
  have hcompleted : cache.completed = x.retransmitCache.completed := by rw [CacheMachine.completed, hstore]; rfl
  refine ⟨⟨h.ring, h.published, h.written, h.sequencer, hcache, hitems ▸ h.items, ?_, hcompleted ▸ hrequests,
    hcompleted ▸ hserving, hlookup⟩, ?_⟩
  · have hat := h.simulator
    cases hpc : x.simulator <;> rw [hpc] at hat <;> simp only [Stands, hwriter, hitems] <;> exact hat
  · rw [cached, cached]
    simp only [hcompleted, hitems]

/-- What a lookup of the server finds is the cached message of the packet. -/
theorem Sound.found (h : x.Sound feed) (hfeed : feed.events.length < 2 ^ 32 - 1)
    (hsound : x.retransmitCache.Sound) {request : RetransmitRequest} (hserving : x.serving = some request)
    (hopen : request.firstPacket < request.lastPacket) {message : EncodedMessage}
    (hfound : (readerStep x.retransmitCache.cache (x.retransmitCache.readers ())).2 = some (.ok message)) :
    x.cached[request.firstPacket.toNat - 1]? = some message := by
  have hbound := h.few_items hfeed
  have hcount := h.count
  obtain ⟨hpos, hlast⟩ := h.serving request hserving
  have hopen : request.firstPacket.toNat < request.lastPacket.toNat := hopen
  obtain ⟨-, hreturned⟩ := hsound.returned hbound (hsound.readers ())
  cases hcall : (x.retransmitCache.readers ()).call with
  | none =>
    cases hpc : x.retransmitCache.readers () with
    | idle =>
      rw [hpc] at hfound
      cases hfound
    | sampling _ _ | loading _ _ _ | checking _ _ _ _ =>
      rw [hpc] at hcall
      cases hcall
  | some call =>
    obtain ⟨itemIndex, completed⟩ := call
    obtain ⟨request', hserving', -, rfl⟩ := h.lookup itemIndex completed hcall
    rw [hserving] at hserving'
    cases hserving'
    have hitem := (hreturned _ completed _ hcall hfound).1 message rfl
    simp only at hitem
    rw [toNat_itemIndex hpos (by omega)] at hitem
    rw [cached, List.getElem?_take_of_lt (by omega)]
    exact hitem

/-- A step of the server leaves the messages as they are. -/
structure Serves (feed : Feed) (x x' : ExchangeSimulator) : Prop where
  sound : x'.Sound feed
  cached : x'.cached = x.cached
  broadcast : x'.broadcast = x.broadcast
  answers : x.Answers x'

/-- While packets are asked for there are some in the cache. -/
theorem Sound.cache_sound (h : x.Sound feed) {request : RetransmitRequest} (hserving : x.serving = some request)
    (hopen : request.firstPacket < request.lastPacket) : x.retransmitCache.Sound := by
  obtain ⟨-, hlast⟩ := h.serving request hserving
  have hless : request.firstPacket.toNat < request.lastPacket.toNat := hopen
  refine h.cache.resolve_left fun hopening => ?_
  have := hopening.quiet.1
  omega

theorem Sound.begin_lookup (h : x.Sound feed) {request : RetransmitRequest} (hserving : x.serving = some request)
    (hopen : request.firstPacket < request.lastPacket) (hreader : x.retransmitCache.readers () = .idle) :
    Serves feed x x.serverStep := by
  have hfirst := (h.serving request hserving).not_before
  have hcache := h.cache_sound hserving hopen
  obtain ⟨hsame, -, hcalls⟩ := x.retransmitCache.step_get () (request.firstPacket - firstSequenceId).toUInt32
  have hstep : x.serverStep = { x with
      retransmitCache := x.retransmitCache.step (.get () (request.firstPacket - firstSequenceId).toUInt32) } := by
    simp only [ExchangeSimulator.serverStep, hserving, if_neg hfirst, if_pos hopen, hreader]
  have hlookup : ∀ itemIndex completed,
      ((x.retransmitCache.step (.get () (request.firstPacket - firstSequenceId).toUInt32)).readers ()).call =
        some (itemIndex, completed) → x.LooksUp itemIndex := by
    intro itemIndex completed hcall
    rcases hcalls () _ hcall with hold | hnew
    · rw [hreader] at hold
      cases hold
    · cases hnew
      exact ⟨request, hserving, hopen, rfl⟩
  obtain ⟨hsound, hcached⟩ := h.withServer (Or.inr (hcache.get () _)) hsame h.requests h.serving hlookup
  rw [hstep]
  exact ⟨hsound, hcached, rfl, .wait ⟨rfl, rfl, rfl⟩⟩

/-- The loads of a lookup before the last. -/
theorem Sound.go_on (h : x.Sound feed) (hfeed : feed.events.length < 2 ^ 32 - 1) {request : RetransmitRequest}
    (hserving : x.serving = some request) (hopen : request.firstPacket < request.lastPacket)
    (hreader : x.retransmitCache.readers () ≠ .idle)
    (hnone : (readerStep x.retransmitCache.cache (x.retransmitCache.readers ())).2 = none) :
    Serves feed x x.serverStep := by
  have hfirst := (h.serving request hserving).not_before
  have hcache := (h.cache_sound hserving hopen).step (h.few_items hfeed) (.read ())
  obtain ⟨hsame, -, hcalls⟩ := x.retransmitCache.step_read ()
  have hstep : x.serverStep = { x with retransmitCache := x.retransmitCache.step (.read ()) } := by
    simp only [ExchangeSimulator.serverStep, hserving, if_neg hfirst, if_pos hopen, hnone]
  obtain ⟨hsound, hcached⟩ := h.withServer (Or.inr hcache) hsame h.requests h.serving
    (fun itemIndex completed hcall => h.lookup itemIndex completed (hcalls () _ hcall))
  rw [hstep]
  exact ⟨hsound, hcached, rfl, .wait ⟨rfl, rfl, rfl⟩⟩

/-- The lookup returns: the packet is sent, or the connection is closed. -/
theorem Sound.return_lookup (h : x.Sound feed) (hfeed : feed.events.length < 2 ^ 32 - 1) {request : RetransmitRequest}
    (hserving : x.serving = some request) (hopen : request.firstPacket < request.lastPacket)
    (hreader : x.retransmitCache.readers () ≠ .idle) {result : Except CacheError EncodedMessage}
    (hreturned : (readerStep x.retransmitCache.cache (x.retransmitCache.readers ())).2 = some result) :
    Serves feed x x.serverStep := by
  have hfirst := (h.serving request hserving).not_before
  have hcache := (h.cache_sound hserving hopen).step (h.few_items hfeed) (.read ())
  obtain ⟨hsame, -, -⟩ := x.retransmitCache.step_read ()
  have hidle : (x.retransmitCache.step (.read ())).readers () = .idle :=
    x.retransmitCache.step_read_returned (by rw [hreturned]; exact Option.some_ne_none _)
  have hlookup : ∀ serving itemIndex completed, ((x.retransmitCache.step (.read ())).readers ()).call =
      some (itemIndex, completed) → ({ x with serving := serving } : ExchangeSimulator).LooksUp itemIndex := by
    intro serving itemIndex completed hcall
    rw [hidle] at hcall
    cases hcall
  cases result with
  | error error =>
    have hstep : x.serverStep = { x with
        retransmitCache := x.retransmitCache.step (.read ())
        serving := none
        stream := x.stream ++ [none] } := by
      simp only [ExchangeSimulator.serverStep, hserving, if_neg hfirst, if_pos hopen, hreturned, closeClient]
    have hnone : ∀ r : RetransmitRequest, none = some r → r.Within x.retransmitCache.completed := by rintro r ⟨⟩
    obtain ⟨hsound, hcached⟩ := h.withServer (Or.inr hcache) hsame h.requests hnone (hlookup none)
    rw [hstep]
    exact ⟨hsound, hcached, rfl, .close request hserving hopen rfl rfl rfl⟩
  | ok message =>
    have hstep : x.serverStep = { x with
        retransmitCache := x.retransmitCache.step (.read ())
        serving := some { request with firstPacket := request.firstPacket + 1 }
        stream := x.stream ++ [some message] } := by
      simp only [ExchangeSimulator.serverStep, hserving, if_neg hfirst, if_pos hopen, hreturned]
    have hnext : ∀ r, some { request with firstPacket := request.firstPacket + 1 } = some r →
        r.Within x.retransmitCache.completed := by
      intro r hr
      rw [← Option.some.inj hr]
      refine ⟨?_, (h.serving request hserving).2⟩
      show 1 ≤ (request.firstPacket + 1).toNat
      rw [toNat_add_one hopen]
      exact Nat.le_add_left 1 _
    obtain ⟨hsound, hcached⟩ := h.withServer (Or.inr hcache) hsame h.requests hnext (hlookup _)
    have hfound := h.found hfeed (h.cache_sound hserving hopen) hserving hopen hreturned
    rw [hstep]
    exact ⟨hsound, hcached, rfl, .send request message hserving hopen hfound rfl rfl rfl⟩

/-- The test of the loop fails. -/
theorem Sound.end_loop (h : x.Sound feed) {request : RetransmitRequest} (hserving : x.serving = some request)
    (hdone : request.Done) : Serves feed x x.serverStep := by
  have hfirst := (h.serving request hserving).not_before
  have hstep : x.serverStep = { x with serving := none } := by
    simp only [ExchangeSimulator.serverStep, hserving, if_neg hfirst, if_neg hdone]
  have hnone : ∀ r : RetransmitRequest, none = some r → r.Within x.retransmitCache.completed := by rintro r ⟨⟩
  have hlookup : ∀ itemIndex completed, (x.retransmitCache.readers ()).call = some (itemIndex, completed) →
      ({ x with serving := none } : ExchangeSimulator).LooksUp itemIndex := by
    intro itemIndex completed hcall
    obtain ⟨request', hserving', hopen, -⟩ := h.lookup itemIndex completed hcall
    rw [hserving] at hserving'
    cases hserving'
    exact absurd hopen hdone
  obtain ⟨hsound, hcached⟩ := h.withServer h.cache ⟨rfl, rfl, rfl⟩ h.requests hnone hlookup
  rw [hstep]
  exact ⟨hsound, hcached, rfl, .finish request hserving hdone rfl ⟨rfl, rfl⟩⟩

/-- The server receives the next request. -/
theorem Sound.receive_request (h : x.Sound feed) (hserving : x.serving = none) : Serves feed x x.serverStep := by
  cases hrequests : x.requests with
  | nil =>
    have hstep : x.serverStep = x := by simp only [ExchangeSimulator.serverStep, hserving, hrequests]
    rw [hstep]
    exact ⟨h, rfl, rfl, .wait ⟨rfl, rfl, rfl⟩⟩
  | cons request requests =>
    have hstep : x.serverStep = { x with requests := requests, serving := some request } := by
      simp only [ExchangeSimulator.serverStep, hserving, hrequests]
    have hwithin := h.requests
    rw [hrequests] at hwithin
    have hfirst : ∀ r, some request = some r → r.Within x.retransmitCache.completed := by
      intro r hr
      rw [← Option.some.inj hr]
      exact hwithin _ List.mem_cons_self
    have hlookup : ∀ itemIndex completed, (x.retransmitCache.readers ()).call = some (itemIndex, completed) →
        ({ x with serving := some request } : ExchangeSimulator).LooksUp itemIndex := by
      intro itemIndex completed hcall
      obtain ⟨request', hserving', -⟩ := h.lookup itemIndex completed hcall
      rw [hserving] at hserving'
      cases hserving'
    obtain ⟨hsound, hcached⟩ := h.withServer h.cache ⟨rfl, rfl, rfl⟩
      (fun r hr => hwithin r (List.mem_cons_of_mem _ hr)) hfirst hlookup
    rw [hstep]
    exact ⟨hsound, hcached, rfl, .take request hserving hrequests rfl rfl⟩

theorem Sound.serverStep (h : x.Sound feed) (hfeed : feed.events.length < 2 ^ 32 - 1) :
    Serves feed x x.serverStep := by
  cases hserving : x.serving with
  | none => exact h.receive_request hserving
  | some request =>
    by_cases hopen : request.firstPacket < request.lastPacket
    · by_cases hreader : x.retransmitCache.readers () = .idle
      · exact h.begin_lookup hserving hopen hreader
      · cases hreturned : (readerStep x.retransmitCache.cache (x.retransmitCache.readers ())).2 with
        | none => exact h.go_on hfeed hserving hopen hreader hreturned
        | some result => exact h.return_lookup hfeed hserving hopen hreader hreturned
    · exact h.end_loop hserving hopen

/-! ## The connection -/

/-- Nothing is on its way to a client that waits for nothing. -/
structure Drained (x : ExchangeSimulator) : Prop where
  requests : ∀ request ∈ x.requests, request.Done
  serving : ∀ request, x.serving = some request → request.Done
  stream : x.stream = []

/-- A client waits for the packets of the request: the server has not received it, it has sent
some of them, it has sent them all, or it has closed the connection. -/
inductive Owes (x : ExchangeSimulator) (request : RetransmitRequest) : Prop
  | asked (earlier : List RetransmitRequest) (hrequests : x.requests = earlier ++ [request])
      (hearlier : ∀ r ∈ earlier, r.Done) (hserving : ∀ r, x.serving = some r → r.Done) (hstream : x.stream = [])
  | sending (sent : List EncodedMessage) (next : UInt64) (hrequests : x.requests = [])
      (hserving : x.serving = some ⟨next, request.lastPacket⟩)
      (hnext : next.toNat = request.firstPacket.toNat + sent.length)
      (hle : next.toNat ≤ request.lastPacket.toNat) (hstream : x.stream = sent.map some)
      (hsent : sent <+: x.cached.drop (request.firstPacket.toNat - 1))
  | sent (sent : List EncodedMessage) (hrequests : x.requests = []) (hserving : x.serving = none)
      (hlast : request.firstPacket.toNat + sent.length = request.lastPacket.toNat)
      (hstream : x.stream = sent.map some)
      (hsent : sent <+: x.cached.drop (request.firstPacket.toNat - 1))
  | closed (sent : List EncodedMessage) (hrequests : x.requests = []) (hserving : x.serving = none)
      (hless : request.firstPacket.toNat + sent.length < request.lastPacket.toNat)
      (hstream : x.stream = sent.map some ++ [none])
      (hsent : sent <+: x.cached.drop (request.firstPacket.toNat - 1))

theorem Drained.of_same (h : x.Drained)
    (hsame : x'.requests = x.requests ∧ x'.serving = x.serving ∧ x'.stream = x.stream) : x'.Drained := by
  obtain ⟨hrequests, hserving, hstream⟩ := hsame
  exact ⟨hrequests ▸ h.requests, hserving ▸ h.serving, hstream.trans h.stream⟩

theorem Owes.of_same {request : RetransmitRequest} (h : x.Owes request)
    (hsame : x'.requests = x.requests ∧ x'.serving = x.serving ∧ x'.stream = x.stream)
    (hcached : x.cached <+: x'.cached) : x'.Owes request := by
  obtain ⟨hrequests, hserving, hstream⟩ := hsame
  have hdrop := hcached.drop (request.firstPacket.toNat - 1)
  cases h with
  | asked earlier hreq hearlier hserv hstr =>
    exact .asked earlier (hrequests.trans hreq) hearlier (hserving ▸ hserv) (hstream.trans hstr)
  | sending sent next hreq hserv hnext hle hstr hsent =>
    exact .sending sent next (hrequests.trans hreq) (hserving.trans hserv) hnext hle (hstream.trans hstr)
      (hsent.trans hdrop)
  | sent sent hreq hserv hlast hstr hsent =>
    exact .sent sent (hrequests.trans hreq) (hserving.trans hserv) hlast (hstream.trans hstr) (hsent.trans hdrop)
  | closed sent hreq hserv hless hstr hsent =>
    exact .closed sent (hrequests.trans hreq) (hserving.trans hserv) hless (hstream.trans hstr) (hsent.trans hdrop)

theorem Drained.answers (h : x.Drained) (hanswers : x.Answers x') : x'.Drained := by
  cases hanswers with
  | wait hsame => exact h.of_same hsame
  | take request hserving hrequests hnext hstream =>
    have hdone := h.requests
    rw [hrequests] at hdone
    refine ⟨fun r hr => hdone r (List.mem_cons_of_mem _ hr), ?_, hstream.trans h.stream⟩
    intro r hr
    rw [hnext] at hr
    cases hr
    exact hdone _ List.mem_cons_self
  | finish request hserving hdone hnext hsame =>
    refine ⟨hsame.1 ▸ h.requests, ?_, hsame.2.trans h.stream⟩
    intro r hr
    rw [hnext] at hr
    cases hr
  | close request hserving hopen => exact absurd hopen (h.serving request hserving)
  | send request message hserving hopen => exact absurd hopen (h.serving request hserving)

/-- What the server is sending is what it owes. -/
theorem Owes.of_open {request r : RetransmitRequest} (h : x.Owes request) (hserving : x.serving = some r)
    (hopen : r.firstPacket < r.lastPacket) :
    ∃ sent : List EncodedMessage, x.requests = [] ∧ r.lastPacket = request.lastPacket ∧
      r.firstPacket.toNat = request.firstPacket.toNat + sent.length ∧ x.stream = sent.map some ∧
      sent <+: x.cached.drop (request.firstPacket.toNat - 1) := by
  cases h with
  | asked earlier hreq hearlier hserv => exact absurd hopen (hserv r hserving)
  | sending sent next hreq hserv hfirst hlast hstr hsent =>
    rw [hserving] at hserv
    cases hserv
    exact ⟨sent, hreq, rfl, hfirst, hstr, hsent⟩
  | sent sent hreq hserv =>
    rw [hserving] at hserv
    cases hserv
  | closed sent hreq hserv =>
    rw [hserving] at hserv
    cases hserv

/-- The server receives a request, which may be one from before. -/
theorem Owes.take {request r : RetransmitRequest} (h : x.Owes request)
    (hle : request.firstPacket.toNat ≤ request.lastPacket.toNat) (hrequests : x.requests = r :: x'.requests)
    (hnext : x'.serving = some r) (hstream : x'.stream = x.stream) : x'.Owes request := by
  cases h with
  | asked earlier hreq hearlier hserv hstr =>
    rw [hrequests] at hreq
    cases earlier with
    | nil =>
      obtain ⟨rfl, hrest⟩ := List.cons_eq_cons.mp hreq
      exact .sending [] r.firstPacket hrest hnext rfl hle (hstream.trans hstr) List.nil_prefix
    | cons r' earlier =>
      obtain ⟨rfl, hrest⟩ := List.cons_eq_cons.mp hreq
      refine .asked earlier hrest (fun r' hr' => hearlier r' (List.mem_cons_of_mem _ hr')) ?_ (hstream.trans hstr)
      intro r' hr'
      rw [hnext] at hr'
      cases hr'
      exact hearlier _ List.mem_cons_self
  | sending sent next hreq =>
    rw [hrequests] at hreq
    cases hreq
  | sent sent hreq =>
    rw [hrequests] at hreq
    cases hreq
  | closed sent hreq =>
    rw [hrequests] at hreq
    cases hreq

/-- The loop of `stream_packets` has ended. -/
theorem Owes.finish {request r : RetransmitRequest} (h : x.Owes request) (hserving : x.serving = some r)
    (hdone : r.Done) (hcached : x'.cached = x.cached) (hnext : x'.serving = none)
    (hrequests : x'.requests = x.requests) (hstream : x'.stream = x.stream) : x'.Owes request := by
  cases h with
  | asked earlier hreq hearlier hserv hstr =>
    refine .asked earlier (hrequests.trans hreq) hearlier ?_ (hstream.trans hstr)
    intro r' hr'
    rw [hnext] at hr'
    cases hr'
  | sending sent next hreq hserv hfirst hlast hstr hsent =>
    rw [hserving] at hserv
    cases hserv
    have hdone : ¬ next.toNat < request.lastPacket.toNat := hdone
    exact .sent sent (hrequests.trans hreq) hnext (by omega) (hstream.trans hstr) (hcached ▸ hsent)
  | sent sent hreq hserv =>
    rw [hserving] at hserv
    cases hserv
  | closed sent hreq hserv =>
    rw [hserving] at hserv
    cases hserv

/-- The server sends the next packet. -/
theorem Owes.send {request r : RetransmitRequest} (h : x.Owes request) (hpos : 1 ≤ request.firstPacket.toNat)
    (hserving : x.serving = some r) (hopen : r.firstPacket < r.lastPacket) {message : EncodedMessage}
    (hmessage : x.cached[r.firstPacket.toNat - 1]? = some message) (hcached : x'.cached = x.cached)
    (hnext : x'.serving = some { r with firstPacket := r.firstPacket + 1 })
    (hrequests : x'.requests = x.requests) (hstream : x'.stream = x.stream ++ [some message]) :
    x'.Owes request := by
  obtain ⟨sent, hreq, hlast, hfirst, hstr, hsent⟩ := h.of_open hserving hopen
  have hless : r.firstPacket.toNat < r.lastPacket.toNat := hopen
  have hadd : (r.firstPacket + 1).toNat = r.firstPacket.toNat + 1 := toNat_add_one hopen
  refine .sending (sent ++ [message]) (r.firstPacket + 1) (hrequests.trans hreq) (by rw [hnext, hlast]) ?_ ?_ ?_ ?_
  · rw [hadd, hfirst, List.length_append, List.length_singleton, Nat.add_assoc]
  · rw [hadd, ← hlast]
    exact hless
  · rw [hstream, hstr, List.map_append, List.map_singleton]
  · rw [hcached]
    refine extend_by_next hsent ?_
    rw [List.getElem?_drop, ← hmessage, hfirst]
    congr 1
    omega

/-- The server goes on with the request. -/
theorem Owes.answers {request : RetransmitRequest} (h : x.Owes request) (hpos : 1 ≤ request.firstPacket.toNat)
    (hle : request.firstPacket.toNat ≤ request.lastPacket.toNat) (hcached : x'.cached = x.cached)
    (hanswers : x.Answers x') : x'.Owes request := by
  cases hanswers with
  | wait hsame => exact h.of_same hsame (by rw [hcached])
  | take r hserving hrequests hnext hstream => exact h.take hle hrequests hnext hstream
  | finish r hserving hdone hnext hsame => exact h.finish hserving hdone hcached hnext hsame.1 hsame.2
  | close r hserving hopen hnext hrequests hstream =>
    obtain ⟨sent, hreq, hlast, hfirst, hstr, hsent⟩ := h.of_open hserving hopen
    have hless : r.firstPacket.toNat < r.lastPacket.toNat := hopen
    rw [hlast] at hless
    exact .closed sent (hrequests.trans hreq) hnext (by omega) (by rw [hstream, hstr]) (hcached ▸ hsent)
  | send r message hserving hopen hmessage hnext hrequests hstream =>
    exact h.send hpos hserving hopen hmessage hcached hnext hrequests hstream

/-- The client asks for the packets. -/
theorem Drained.ask (h : x.Drained) (request : RetransmitRequest) :
    ({ x with requests := x.requests ++ [request] } : ExchangeSimulator).Owes request :=
  .asked x.requests rfl h.requests h.serving h.stream

/-- Once the client has received the packets, nothing is on its way. -/
theorem Owes.drained {request : RetransmitRequest} (h : x.Owes request) (hdone : request.Done) : x.Drained := by
  have hdone' : ¬ request.firstPacket.toNat < request.lastPacket.toNat := hdone
  cases h with
  | asked earlier hreq hearlier hserv hstr =>
    refine ⟨?_, hserv, hstr⟩
    intro r hr
    rw [hreq] at hr
    rcases List.mem_append.mp hr with hold | hnew
    · exact hearlier r hold
    · rw [List.mem_singleton.mp hnew]
      exact hdone
  | sending sent next hreq hserv hfirst hlast hstr hsent =>
    have hnil : sent = [] := List.eq_nil_of_length_eq_zero (by omega)
    refine ⟨by simp [hreq], ?_, by rw [hstr, hnil]; rfl⟩
    intro r hr
    rw [hserv] at hr
    cases hr
    show ¬ next.toNat < request.lastPacket.toNat
    rw [hnil, List.length_nil] at hfirst
    omega
  | sent sent hreq hserv hlast hstr hsent =>
    have hnil : sent = [] := List.eq_nil_of_length_eq_zero (by omega)
    refine ⟨by simp [hreq], ?_, by rw [hstr, hnil]; rfl⟩
    intro r hr
    rw [hserv] at hr
    cases hr
  | closed sent hreq hserv hless => omega

/-- The first message of the stream is the first that was sent. -/
theorem sent_cons {sent : List EncodedMessage} {tail rest : List (Option EncodedMessage)} {message : EncodedMessage}
    (htail : tail.head? ≠ some (some message)) (h : sent.map some ++ tail = some message :: rest) :
    ∃ later, sent = message :: later ∧ rest = later.map some ++ tail := by
  cases sent with
  | nil =>
    rw [List.map_nil, List.nil_append] at h
    rw [h] at htail
    exact absurd rfl htail
  | cons m later =>
    rw [List.map_cons, List.cons_append, List.cons_eq_cons] at h
    exact ⟨later, by rw [Option.some.inj h.1], h.2.symm⟩

/-- It is the packet after those received before, and the rest follows it. -/
theorem carried_cons {cached later : List EncodedMessage} {message : EncodedMessage} {first : Nat} (hpos : 1 ≤ first)
    (h : message :: later <+: cached.drop (first - 1)) :
    cached[first - 1]? = some message ∧ later <+: cached.drop (first + 1 - 1) := by
  obtain ⟨more, hmore⟩ := h
  have hhead : (cached.drop (first - 1))[0]? = some message := by rw [← hmore]; rfl
  rw [List.getElem?_drop, Nat.add_zero] at hhead
  have hdrop : cached.drop (first - 1 + 1) = later ++ more := by
    rw [← List.drop_drop, ← hmore]
    rfl
  refine ⟨hhead, more, ?_⟩
  rw [← hdrop, Nat.sub_add_cancel hpos, Nat.add_sub_cancel]

/-- What the client receives is the next of the packets. -/
theorem Owes.receive {request : RetransmitRequest} (h : x.Owes request) (hpos : 1 ≤ request.firstPacket.toNat)
    (hopen : request.firstPacket < request.lastPacket) {message : EncodedMessage}
    {rest : List (Option EncodedMessage)} (hstream : x.stream = some message :: rest) :
    x.cached[request.firstPacket.toNat - 1]? = some message ∧
      ({ x with stream := rest } : ExchangeSimulator).Owes { request with firstPacket := request.firstPacket + 1 } := by
  have hadd : (request.firstPacket + 1).toNat = request.firstPacket.toNat + 1 := toNat_add_one hopen
  cases h with
  | asked earlier hreq hearlier hserv hstr =>
    rw [hstr] at hstream
    cases hstream
  | sending sent next hreq hserv hfirst hlast hstr hsent =>
    rw [hstr, ← List.append_nil (sent.map some)] at hstream
    obtain ⟨later, rfl, rfl⟩ := sent_cons (by rintro ⟨⟩) hstream
    obtain ⟨hhead, hlater⟩ := carried_cons hpos hsent
    rw [← hadd] at hlater
    rw [List.length_cons] at hfirst
    exact ⟨hhead, .sending later next hreq hserv (by simp only [hadd]; omega) hlast (List.append_nil _) hlater⟩
  | sent sent hreq hserv hlast hstr hsent =>
    rw [hstr, ← List.append_nil (sent.map some)] at hstream
    obtain ⟨later, rfl, rfl⟩ := sent_cons (by rintro ⟨⟩) hstream
    obtain ⟨hhead, hlater⟩ := carried_cons hpos hsent
    rw [← hadd] at hlater
    rw [List.length_cons] at hlast
    exact ⟨hhead, .sent later hreq hserv (by simp only [hadd]; omega) (List.append_nil _) hlater⟩
  | closed sent hreq hserv hless hstr hsent =>
    rw [hstr] at hstream
    obtain ⟨later, rfl, rfl⟩ := sent_cons (by rintro ⟨⟩) hstream
    obtain ⟨hhead, hlater⟩ := carried_cons hpos hsent
    rw [← hadd] at hlater
    rw [List.length_cons] at hless
    exact ⟨hhead, .closed later hreq hserv (by simp only [hadd]; omega) rfl hlater⟩

/-- What the connection holds while the client stands where it does. -/
def Connection (x : ExchangeSimulator) : ClientPc → Prop
  | .waiting | .sending _ => x.Drained
  | .receiving request => x.Owes request
  | .writing request _ => x.Owes { request with firstPacket := request.firstPacket + 1 }
  | .stopped => True

theorem Connection.of_same {pc : ClientPc} (h : x.Connection pc)
    (hsame : x'.requests = x.requests ∧ x'.serving = x.serving ∧ x'.stream = x.stream)
    (hcached : x.cached <+: x'.cached) : x'.Connection pc := by
  cases pc with
  | waiting => exact Drained.of_same h hsame
  | sending request => exact Drained.of_same h hsame
  | receiving request => exact Owes.of_same h hsame hcached
  | writing request newMessage => exact Owes.of_same h hsame hcached
  | stopped => trivial

theorem Connection.answers {pc : ClientPc} (h : x.Connection pc) {failed : Prop} (hpc : pc.At feed failed)
    (hpos : ∀ request, pc.request = some request → 1 ≤ request.firstPacket.toNat)
    (hcached : x'.cached = x.cached) (hanswers : x.Answers x') : x'.Connection pc := by
  cases pc with
  | waiting => exact Drained.answers h hanswers
  | sending request => exact Drained.answers h hanswers
  | receiving request =>
    have hopen : request.firstPacket.toNat < request.lastPacket.toNat := hpc
    exact Owes.answers h (hpos request rfl) hopen.le hcached hanswers
  | writing request newMessage =>
    have hadd := toNat_add_one hpc.1
    have hopen : request.firstPacket.toNat < request.lastPacket.toNat := hpc.1
    refine Owes.answers h ?_ ?_ hcached hanswers
    · simp only [hadd]
      exact Nat.le_add_left 1 _
    · simp only [hadd]
      exact hopen
  | stopped => trivial

end ExchangeSimulator

end HftPipeline
