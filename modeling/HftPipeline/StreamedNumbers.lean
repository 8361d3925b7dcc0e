import HftPipeline.CacheContents
import HftPipeline.Retransmission

/-!
# The numbers of the streamed packets

A stream is for the packets from `first_packet` on, each found in the cache under its number
and cut off at the first one that has not been sequenced. The index of a packet is cut to
32 bits on its way into the cache, so a request may begin at a packet that has not been
sequenced and whose index is the one of another. It cannot get there later.
-/
namespace HftPipeline

/-- One position of the cursor of `stream_packets`: the packets that were sequenced then, the
packet the cursor was at, the message handed to the connection, if any, and the error the
call returned there, if any. -/
structure StreamRound where
  sequenced : Nat
  cursor : UInt64
  message : Option (List UInt8)
  returned : Option ServerError
  deriving DecidableEq, Repr

/-- The bytes begin with a header of this number. -/
def CarriesNumber (number : Nat) (bytes : List UInt8) : Prop :=
  ∃ header rest, header.sequenceNumber.toNat = number ∧ bytes = MessageHeader.serialize header ++ rest

/-- What is sent at the cursor carries its number, and a packet that has not been sequenced
ends the stream with nothing sent for it. -/
structure StreamRound.Lawful (round : StreamRound) : Prop where
  number : ∀ message, round.message = some message → CarriesNumber round.cursor.toNat message
  unsequenced : round.cursor < firstSequenceId ∨ round.sequenced < round.cursor.toNat →
    round.message = none ∧ round.returned = some .invalidPacket

/-! ## Streams with their rounds -/

/-- `streamLoop` with its rounds. -/
def loopRounds (cache : RetransmitCache) (n : Nat) : Nat → Connection → RetransmitRequest → StreamSocket →
    Option (List StreamRound × Except ServerError Unit × SavedConnection × StreamSocket)
  | 0, c, _, k => some ([], .ok (), ⟨c, none⟩, k)
  | rounds + 1, c, request, k =>
    match cache.tryGetItem (request.firstPacket - firstSequenceId).toUInt32 with
    | .error error =>
      some ([⟨n, request.firstPacket, none, some error.serverError⟩], .error error.serverError, ⟨c, some request⟩, k)
    | .ok message => do
      let c ← c.save message.val.message
      match ← c.send k with
      | (.error error, c, k) =>
        return ([⟨n, request.firstPacket, some message.val.message, some error⟩], .error error, ⟨c, some request⟩, k)
      | (.ok (), c, k) =>
        let (later, result) ←
          loopRounds cache n rounds c { request with firstPacket := request.firstPacket + 1 } k
        return (⟨n, request.firstPacket, some message.val.message, none⟩ :: later, result)

/-- `streamPackets` with its rounds. A message that was partly sent is still in the connection. -/
def streamRounds (cache : RetransmitCache) (n : Nat) (client : SavedConnection) (k : StreamSocket) :
    Option (List StreamRound × Except ServerError Unit × SavedConnection × StreamSocket) := do
  let request ← client.request
  if client.connection.socket.isSome then
    if request.firstPacket < firstSequenceId then
      return ([⟨n, request.firstPacket, none, some .invalidPacket⟩], .error .invalidPacket, client, k)
    else if client.connection.status = .partialSend then
      let message := client.connection.buffer.take client.connection.head
      match ← client.connection.send k with
      | (.error error, c, k) =>
        return ([⟨n, request.firstPacket, some message, some error⟩], .error error, ⟨c, some request⟩, k)
      | (.ok (), c, k) =>
        let next := { request with firstPacket := request.firstPacket + 1 }
        let (later, result) ← loopRounds cache n next.remaining c next k
        return (⟨n, request.firstPacket, some message, none⟩ :: later, result)
    else loopRounds cache n request.remaining client.connection request k
  else none

/-- The rounds of a whole stream. Each call comes with what its socket does and with what is
cached until the next one, which follows when the socket would block. -/
def answerRounds (memory : Nat → MessageSlot) (cached : List MessageSlot) (client : SavedConnection) :
    List (StreamSocket × List MessageSlot) → Option (List StreamRound)
  | [] => some []
  | (k, more) :: calls => do
    let (rounds, result, client, _) ←
      streamRounds (cached.foldl CircularCache.putItem (.new memory)) cached.length client k
    if result = .error .wouldBlock then
      let later ← answerRounds memory (cached ++ more) client calls
      return rounds ++ later
    else return rounds

theorem loopRounds_eq (cache : RetransmitCache) (n rounds : Nat) (c : Connection) (request : RetransmitRequest)
    (k : StreamSocket) :
    (loopRounds cache n rounds c request k).map Prod.snd = streamLoop cache rounds c request k := by
  induction rounds generalizing c request k with
  | zero => rfl
  | succ rounds ih =>
    cases hitem : cache.tryGetItem (request.firstPacket - firstSequenceId).toUInt32 with
    | error error =>
      simp only [loopRounds, streamLoop, hitem, Option.map_some]
    | ok message =>
      simp only [loopRounds, streamLoop, hitem, Option.bind_eq_bind]
      cases c.save message.val.message with
      | none => rfl
      | some c =>
        simp only [Option.bind_some]
        cases c.send k with
        | none => rfl
        | some sent =>
          obtain ⟨_ | _, c, k⟩ := sent
          · rfl
          · simp only [Option.bind_some, ← ih]
            cases loopRounds cache n rounds c { request with firstPacket := request.firstPacket + 1 } k <;> rfl

/-- The rounds are those of `stream_packets`. -/
theorem streamRounds_eq (cache : RetransmitCache) (n : Nat) (client : SavedConnection) (k : StreamSocket) :
    (streamRounds cache n client k).map Prod.snd = streamPackets cache client k := by
  obtain ⟨c, request⟩ := client
  cases request with
  | none => rfl
  | some request =>
    simp only [streamRounds, streamPackets, Option.bind_eq_bind, Option.bind_some]
    split
    · split
      · rfl
      · split
        · cases c.send k with
          | none => rfl
          | some sent =>
            obtain ⟨_ | _, c, k⟩ := sent
            · rfl
            · simp only [Option.bind_some, ← loopRounds_eq cache n]
              cases loopRounds cache n _ c { request with firstPacket := request.firstPacket + 1 } k <;> rfl
        · exact loopRounds_eq cache n _ c request k
    · rfl

/-! ## Lookups by number -/

theorem EncodedMessage.Numbered.carries {number : Nat} {m : EncodedMessage} (h : m.Numbered number) :
    CarriesNumber number m.message := by
  obtain ⟨rest, hmessage⟩ := h.message_eq
  exact ⟨m.header, rest, h.1, hmessage⟩

/-- Each message has the number of its place. -/
def Sequenced (cached : List MessageSlot) : Prop :=
  ∀ (i : Nat) (m : MessageSlot), cached[i]? = some m → m.val.Numbered (i + 1)

variable {cached : List MessageSlot} (memory : Nat → MessageSlot)

/-- The lookup that ends a stream with `InvalidPacket`. -/
theorem tryGetItem_missing_iff (hbound : cached.length < 2 ^ 32 - 1) (index : UInt32) :
    (cached.foldl CircularCache.putItem (.new memory) : RetransmitCache).tryGetItem index =
        .error .dataDoesNotExist ↔ max cached.length 1 ≤ index.toNat := by
  have hiff := @CircularCache.tryGetItem_eq_lookupItem_iff _ retransmitCacheBits memory cached hbound index
  by_cases hempty : cached = [] ∧ index = 0
  · obtain ⟨rfl, rfl⟩ := hempty
    refine iff_of_false (fun heq => ?_) (by decide)
    exact absurd ⟨rfl, rfl⟩ (hiff.mp heq)
  · rw [hiff.mpr hempty, lookupItem]
    have hpos : cached.length ≤ index.toNat → 1 ≤ index.toNat := by
      intro hle
      by_contra hlt
      exact hempty ⟨List.eq_nil_of_length_eq_zero (by omega), UInt32.toNat_inj.mp (by
        show index.toNat = 0
        omega)⟩
    split
    · rename_i hnone
      have hle := List.getElem?_eq_none_iff.mp hnone
      exact iff_of_true rfl (max_le hle (hpos hle))
    · rename_i item hitem
      have hlt := (List.getElem?_eq_some_iff.mp hitem).1
      refine iff_of_false ?_ (fun hle => absurd (le_trans (le_max_left _ _) hle) (by omega))
      split <;> rintro ⟨⟩

/-- A packet that is found under its own index is the one with the number. -/
theorem tryGetItem_carries (hbound : cached.length < 2 ^ 32 - 1) (hsequenced : Sequenced cached)
    {cursor : UInt64} (hfirst : firstSequenceId ≤ cursor) (hlast : cursor.toNat ≤ cached.length) {m : MessageSlot}
    (hm : (cached.foldl CircularCache.putItem (.new memory) : RetransmitCache).tryGetItem
      (cursor - firstSequenceId).toUInt32 = .ok m) : CarriesNumber cursor.toNat m.val.message := by
  have hone : 1 ≤ cursor.toNat := hfirst
  have hindex : (cursor - firstSequenceId).toUInt32.toNat = cursor.toNat - 1 := by
    rw [UInt64.toNat_toUInt32, UInt64.toNat_sub_of_le _ _ hfirst]
    exact Nat.mod_eq_of_lt (by show cursor.toNat - 1 < _; omega)
  have hne : cached ≠ [] := by
    rintro rfl
    rw [List.length_nil] at hlast
    omega
  rw [(CircularCache.tryGetItem_eq_lookupItem_iff memory cached hbound _).mpr fun hc => hne hc.1, hindex,
    lookupItem] at hm
  split at hm
  · cases hm
  · rename_i item hitem
    split at hm
    · cases hm
    · cases hm
      have hnumbered := hsequenced _ _ hitem
      rw [Nat.sub_add_cancel hone] at hnumbered
      exact hnumbered.carries

/-! ## Calls -/

/-- The index of the cursor is not the one of another packet. -/
def Unaliased (n : Nat) (cursor : UInt64) : Prop :=
  n < cursor.toNat → max n 1 ≤ (cursor - firstSequenceId).toUInt32.toNat

/-- The message of a packet that has been sequenced. -/
structure Sent (n : Nat) (cursor : UInt64) (message : List UInt8) : Prop where
  first : firstSequenceId ≤ cursor
  last : cursor.toNat ≤ n
  number : CarriesNumber cursor.toNat message

/-- The client waits for its socket in the middle of a message. -/
structure Halfway (socket : Option Nat) (client : SavedConnection) (request : RetransmitRequest)
    (message : List UInt8) : Prop where
  carries : client.connection.Carries socket message
  status : client.connection.status = .partialSend
  request : client.request = some request

/-- What is known of a call; the parts about numbers hold if it began well. -/
structure Streams (socket : Option Nat) (n : Nat) (good : Prop) (rounds : List StreamRound)
    (r : Except ServerError Unit × SavedConnection × StreamSocket) : Prop where
  blocked : r.1 = .error .wouldBlock →
    ∃ request message, Halfway socket r.2.1 request message ∧ (good → Sent n request.firstPacket message)
  lawful : good → ∀ round ∈ rounds, round.Lawful

theorem Sent.lawful {n : Nat} {cursor : UInt64} {message : List UInt8} (h : Sent n cursor message)
    (returned : Option ServerError) : (⟨n, cursor, some message, returned⟩ : StreamRound).Lawful where
  number := by
    rintro _ ⟨⟩
    exact h.number
  unsequenced := by
    rintro (hfirst | hlast)
    · exact absurd h.first (UInt64.not_le.mpr hfirst)
    · exact absurd h.last (Nat.not_le.mpr hlast)

/-- Behind a packet that has been sequenced comes one that has been, too, or the next one. -/
theorem Sent.next {n n' : Nat} {cursor : UInt64} {message : List UInt8} (h : Sent n cursor message)
    (hmore : n ≤ n') (hbound : n' < 2 ^ 32 - 1) :
    firstSequenceId ≤ cursor + 1 ∧ Unaliased n' (cursor + 1) := by
  have hone : 1 ≤ cursor.toNat := h.first
  have hlast := h.last
  have hnext : (cursor + 1).toNat = cursor.toNat + 1 := by
    rw [UInt64.toNat_add, UInt64.toNat_one]
    omega
  have hfirst : firstSequenceId ≤ cursor + 1 := by
    show (1 : UInt64).toNat ≤ (cursor + 1).toNat
    rw [UInt64.toNat_one]
    omega
  refine ⟨hfirst, fun hlt => ?_⟩
  rw [UInt64.toNat_toUInt32, UInt64.toNat_sub_of_le _ _ hfirst, hnext]
  show max n' 1 ≤ (cursor.toNat + 1 - 1) % 2 ^ 32
  rw [Nat.add_sub_cancel, Nat.mod_eq_of_lt (by omega)]
  omega

variable {socket : Option Nat} {cache : RetransmitCache}

theorem loopRounds_streams (hopen : socket.isSome) (hbound : cached.length < 2 ^ 32 - 1)
    (hsequenced : Sequenced cached) (count : Nat) {c : Connection} (request : RetransmitRequest) (k : StreamSocket)
    (hcleared : c.Cleared socket) :
    ∃ rounds r, loopRounds (cached.foldl CircularCache.putItem (.new memory)) cached.length count c request k =
        some (rounds, r) ∧
      Streams socket cached.length
        (firstSequenceId ≤ request.firstPacket ∧ Unaliased cached.length request.firstPacket) rounds r := by
  induction count generalizing c request k with
  | zero => exact ⟨_, _, rfl, nofun, fun _ _ hround => nomatch hround⟩
  | succ count ih =>
    cases hitem : (cached.foldl CircularCache.putItem (.new memory) : RetransmitCache).tryGetItem
        (request.firstPacket - firstSequenceId).toUInt32 with
    | error error =>
      simp only [loopRounds, hitem]
      refine ⟨_, _, rfl, fun hblocked => ?_, fun ⟨hfirst, hunaliased⟩ round hround => ?_⟩
      · cases error <;> cases hblocked
      · rw [List.mem_singleton.mp hround]
        refine ⟨nofun, fun hnot => ⟨rfl, ?_⟩⟩
        have hlast := hnot.resolve_left (UInt64.not_lt.mpr hfirst)
        rw [(tryGetItem_missing_iff memory hbound _).mpr (hunaliased hlast)] at hitem
        cases hitem
        rfl
    | ok m =>
      have hsent : firstSequenceId ≤ request.firstPacket ∧ Unaliased cached.length request.firstPacket →
          Sent cached.length request.firstPacket m.val.message := by
        rintro ⟨hfirst, hunaliased⟩
        have hlast : request.firstPacket.toNat ≤ cached.length := by
          by_contra hlt
          rw [(tryGetItem_missing_iff memory hbound _).mpr (hunaliased (Nat.not_le.mp hlt))] at hitem
          cases hitem
        exact ⟨hfirst, hlast, tryGetItem_carries memory hbound hsequenced hfirst hlast hitem⟩
      obtain ⟨c', hsave, hcarries, -⟩ := hcleared.save (MessageSlot.fits m)
      rcases hcarries.send hopen k with ⟨c'', k', hsend, hafter, -⟩ | ⟨errno, c'', k', hsend, hafter, hstatus, -⟩
      · obtain ⟨rounds, r, hr, hstreams⟩ :=
          ih { request with firstPacket := request.firstPacket + 1 } k' hafter
        simp only [loopRounds, hitem, hsave, hsend, hr, Option.bind_eq_bind, Option.bind_some]
        refine ⟨_, _, rfl, fun hblocked => ?_, fun hgood round hround => ?_⟩
        · obtain ⟨request', message, hhalf, hnumber⟩ := hstreams.blocked hblocked
          exact ⟨request', message, hhalf, fun hgood => hnumber ((hsent hgood).next (Nat.le_refl _) hbound)⟩
        · rcases List.mem_cons.mp hround with rfl | hlater
          · exact (hsent hgood).lawful none
          · exact hstreams.lawful ((hsent hgood).next (Nat.le_refl _) hbound) round hlater
      · simp only [loopRounds, hitem, hsave, hsend, Option.bind_eq_bind, Option.bind_some]
        refine ⟨_, _, rfl, fun _ => ⟨request, m.val.message, ⟨hafter, hstatus, rfl⟩, hsent⟩,
          fun hgood round hround => ?_⟩
        rw [List.mem_singleton.mp hround]
        exact (hsent hgood).lawful _

/-- A call for a request that has just been received. -/
theorem streamRounds_fresh (hopen : socket.isSome) (hbound : cached.length < 2 ^ 32 - 1)
    (hsequenced : Sequenced cached) {client : SavedConnection} {request : RetransmitRequest} (k : StreamSocket)
    (hcleared : client.connection.Cleared socket) (hrequest : client.request = some request) :
    ∃ rounds r, streamRounds (cached.foldl CircularCache.putItem (.new memory)) cached.length client k =
        some (rounds, r) ∧
      Streams socket cached.length
        (request.firstPacket < request.lastPacket → Unaliased cached.length request.firstPacket) rounds r := by
  have hsocket : client.connection.socket.isSome := by rw [hcleared.socket]; exact hopen
  have hstatus : client.connection.status ≠ .partialSend := by rw [hcleared.status]; exact nofun
  simp only [streamRounds, hrequest, Option.bind_eq_bind, Option.bind_some, if_pos hsocket, if_neg hstatus]
  split
  · refine ⟨_, _, rfl, nofun, fun _ round hround => ?_⟩
    rw [List.mem_singleton.mp hround]
    exact ⟨nofun, fun _ => ⟨rfl, rfl⟩⟩
  · rename_i hfirst
    obtain ⟨rounds, r, hr, hstreams⟩ := loopRounds_streams memory hopen hbound hsequenced request.remaining request k
      hcleared
    refine ⟨rounds, r, hr, ?_⟩
    by_cases hlast : request.firstPacket < request.lastPacket
    · have hgood : (request.firstPacket < request.lastPacket → Unaliased cached.length request.firstPacket) →
          firstSequenceId ≤ request.firstPacket ∧ Unaliased cached.length request.firstPacket :=
        fun hunaliased => ⟨UInt64.not_lt.mp hfirst, hunaliased hlast⟩
      exact ⟨fun hblocked => (hstreams.blocked hblocked).imp fun _ => Exists.imp fun _ h =>
        ⟨h.1, fun hunaliased => h.2 (hgood hunaliased)⟩, fun hunaliased => hstreams.lawful (hgood hunaliased)⟩
    · have hnone : request.remaining = 0 := Nat.sub_eq_zero_of_le (UInt64.not_lt.mp hlast)
      rw [hnone, loopRounds] at hr
      cases hr
      exact ⟨nofun, fun _ _ hround => nomatch hround⟩

theorem Connection.send_error {c c' : Connection} {k k' : StreamSocket} {error : ServerError}
    (h : c.send k = some (.error error, c', k')) : ∃ errno, error = Connection.sendError errno := by
  rw [Connection.send] at h
  split at h
  · dsimp only at h
    split at h
    · cases h
    · rename_i errno _
      cases h
      exact ⟨errno, rfl⟩
  · cases h

/-- The first round of a request whose index is the one of another packet is not lawful. -/
theorem streamRounds_aliased (hbound : cached.length < 2 ^ 32 - 1) {client : SavedConnection}
    {request : RetransmitRequest} {k : StreamSocket} {rounds : List StreamRound}
    {r : Except ServerError Unit × SavedConnection × StreamSocket}
    (hstatus : client.connection.status ≠ .partialSend) (hrequest : client.request = some request)
    (hlast : request.firstPacket < request.lastPacket) (hnot : ¬ Unaliased cached.length request.firstPacket)
    (hr : streamRounds (cached.foldl CircularCache.putItem (.new memory)) cached.length client k =
      some (rounds, r)) : ∃ round ∈ rounds, ¬ round.Lawful := by
  obtain ⟨hunsequenced, hindex⟩ := Classical.not_imp.mp hnot
  have hmissing := (tryGetItem_missing_iff memory hbound _).not.mpr hindex
  have hfirst : ¬ request.firstPacket < firstSequenceId := by
    refine UInt64.not_lt.mpr (show (1 : UInt64).toNat ≤ request.firstPacket.toNat from ?_)
    rw [UInt64.toNat_one]
    omega
  obtain ⟨count, hcount⟩ : ∃ count, request.remaining = count + 1 := by
    have hlt := UInt64.lt_iff_toNat_lt.mp hlast
    exact ⟨request.lastPacket.toNat - request.firstPacket.toNat - 1, by rw [RetransmitRequest.remaining]; omega⟩
  have hunlawful : ∀ message returned, returned ≠ some ServerError.invalidPacket →
      ¬ (⟨cached.length, request.firstPacket, message, returned⟩ : StreamRound).Lawful :=
    fun _ _ hreturned hlawful => hreturned (hlawful.unsequenced (Or.inr hunsequenced)).2
  simp only [streamRounds, hrequest, Option.bind_eq_bind, Option.bind_some, if_neg hstatus, if_neg hfirst, hcount] at hr
  split at hr
  · rw [loopRounds] at hr
    split at hr
    · rename_i error herror
      cases hr
      refine ⟨_, List.mem_singleton_self _, hunlawful _ _ ?_⟩
      cases error with
      | dataDoesNotExist => exact absurd herror hmissing
      | dataTooOld => rintro ⟨⟩
      | concurrentWrite => rintro ⟨⟩
    · obtain ⟨c, -, hr⟩ := Option.bind_eq_some_iff.mp hr
      obtain ⟨⟨_ | _, c', k'⟩, hsend, hr⟩ := Option.bind_eq_some_iff.mp hr
      · cases hr
        obtain ⟨errno, rfl⟩ := Connection.send_error hsend
        refine ⟨_, List.mem_singleton_self _, hunlawful _ _ ?_⟩
        cases errno <;> rintro ⟨⟩
      · obtain ⟨later, -, hr⟩ := Option.bind_eq_some_iff.mp hr
        cases hr
        exact ⟨_, List.mem_cons_self, hunlawful _ _ (by rintro ⟨⟩)⟩
  · cases hr

/-- A call that goes on with a message of which a part is sent. -/
theorem streamRounds_halfway (hopen : socket.isSome) (hbound : cached.length < 2 ^ 32 - 1)
    (hsequenced : Sequenced cached) {n : Nat} (hmore : n ≤ cached.length) {client : SavedConnection}
    {request : RetransmitRequest} {message : List UInt8} (k : StreamSocket)
    (h : Halfway socket client request message) :
    ∃ rounds r, streamRounds (cached.foldl CircularCache.putItem (.new memory)) cached.length client k =
        some (rounds, r) ∧
      Streams socket cached.length (Sent n request.firstPacket message) rounds r := by
  have hsocket : client.connection.socket.isSome := by rw [h.carries.socket]; exact hopen
  have hmessage : client.connection.buffer.take client.connection.head = message := by
    rw [h.carries.head]
    exact h.carries.buffer
  have hsent : Sent n request.firstPacket message → Sent cached.length request.firstPacket message :=
    fun hsent => ⟨hsent.first, Nat.le_trans hsent.last hmore, hsent.number⟩
  simp only [streamRounds, h.request, Option.bind_eq_bind, Option.bind_some, if_pos hsocket, if_pos h.status, hmessage]
  split
  · rename_i hfirst
    exact ⟨_, _, rfl, nofun, fun hgood => absurd hgood.first (UInt64.not_le.mpr hfirst)⟩
  · rcases h.carries.send hopen k with ⟨c', k', hsend, hafter, -⟩ | ⟨errno, c', k', hsend, hafter, hstatus, -⟩
    · obtain ⟨rounds, r, hr, hstreams⟩ := loopRounds_streams memory hopen hbound hsequenced
        (RetransmitRequest.remaining ⟨request.firstPacket + 1, request.lastPacket⟩)
        ⟨request.firstPacket + 1, request.lastPacket⟩ k' hafter
      simp only [hsend, hr, Option.bind_some]
      refine ⟨_, _, rfl, fun hblocked => ?_, fun hgood round hround => ?_⟩
      · obtain ⟨request', message', hhalf, hnumber⟩ := hstreams.blocked hblocked
        exact ⟨request', message', hhalf, fun hgood => hnumber (hgood.next hmore hbound)⟩
      · rcases List.mem_cons.mp hround with rfl | hlater
        · exact (hsent hgood).lawful none
        · exact hstreams.lawful (hgood.next hmore hbound) round hlater
    · simp only [hsend, Option.bind_some]
      refine ⟨_, _, rfl, fun _ => ⟨request, message, ⟨hafter, hstatus, rfl⟩, hsent⟩, fun hgood round hround => ?_⟩
      rw [List.mem_singleton.mp hround]
      exact (hsent hgood).lawful _

/-! ## Whole streams -/

/-- The packets cached when the last call begins. -/
def allCached (cached : List MessageSlot) (calls : List (StreamSocket × List MessageSlot)) : List MessageSlot :=
  cached ++ calls.flatMap Prod.snd

theorem Sequenced.of_append {more : List MessageSlot} (h : Sequenced (cached ++ more)) : Sequenced cached := by
  intro i m hm
  refine h i m ?_
  rw [List.getElem?_append_left (List.getElem?_eq_some_iff.mp hm).1]
  exact hm

/-- The rest of a stream, from a call that stopped in the middle of a message. -/
theorem answerRounds_halfway (hopen : socket.isSome) (calls : List (StreamSocket × List MessageSlot))
    (hbound : (allCached cached calls).length < 2 ^ 32 - 1) (hsequenced : Sequenced (allCached cached calls))
    {n : Nat} (hmore : n ≤ cached.length) {client : SavedConnection} {request : RetransmitRequest}
    {message : List UInt8} (h : Halfway socket client request message) :
    ∃ rounds, answerRounds memory cached client calls = some rounds ∧
      (Sent n request.firstPacket message → ∀ round ∈ rounds, round.Lawful) := by
  induction calls generalizing cached n client request message with
  | nil => exact ⟨[], rfl, fun _ _ hround => nomatch hround⟩
  | cons call calls ih =>
    obtain ⟨k, more⟩ := call
    have hall : allCached cached ((k, more) :: calls) = allCached (cached ++ more) calls := by
      rw [allCached, allCached, List.flatMap_cons, List.append_assoc]
    have hlength : cached.length ≤ (allCached cached ((k, more) :: calls)).length := by
      rw [allCached, List.length_append]
      exact Nat.le_add_right _ _
    obtain ⟨rounds, ⟨result, client', k'⟩, hr, hstreams⟩ := streamRounds_halfway memory hopen (by omega)
      hsequenced.of_append hmore k h
    rw [hall] at hbound hsequenced
    simp only [answerRounds, hr, Option.bind_eq_bind, Option.bind_some]
    by_cases hblocked : result = .error .wouldBlock
    · obtain ⟨request', message', hhalf, hsent⟩ := hstreams.blocked hblocked
      obtain ⟨later, hlater, hlawful⟩ := ih (n := cached.length) hbound hsequenced
        (by rw [List.length_append]; exact Nat.le_add_right _ _) hhalf
      rw [if_pos hblocked, hlater]
      refine ⟨_, rfl, fun hgood round hround => ?_⟩
      rcases List.mem_append.mp hround with hnow | hthen
      · exact hstreams.lawful hgood round hnow
      · exact hlawful (hsent hgood) round hthen
    · rw [if_neg hblocked]
      exact ⟨rounds, rfl, hstreams.lawful⟩

theorem sequenceAll_numbers {s s' : Sequencer} {events : List (MarketEvent × MessageMemory)}
    {messages : List EncodedMessage} (h : s.sequenceAll events = some (messages, s')) (i : Nat) {m : EncodedMessage}
    (hm : messages[i]? = some m) :
    m.header.sequenceNumber = s.sequencerCounter + UInt64.ofNat i ∧ ∃ rest, m.buffer = m.header.serialize ++ rest := by
  induction events generalizing s messages i with
  | nil =>
    cases h
    cases hm
  | cons head events ih =>
    obtain ⟨event, memory⟩ := head
    rw [Sequencer.sequenceAll_cons] at h
    obtain ⟨⟨later, s''⟩, hlater, heq⟩ := Option.map_eq_some_iff.mp h
    cases heq
    cases i with
    | zero =>
      cases hm
      exact ⟨(add_zero _).symm, _, rfl⟩
    | succ i =>
      obtain ⟨hnumber, hbuffer⟩ := ih hlater i hm
      refine ⟨hnumber.trans ?_, hbuffer⟩
      rw [UInt64.ofNat_add, UInt64.add_comm (UInt64.ofNat i), ← UInt64.add_assoc]
      rfl

/-- A new sequencer begins at one. -/
theorem sequenced_of_sequenceAll {s : Sequencer} {events : List (MarketEvent × MessageMemory)}
    (h : Sequencer.init.sequenceAll events = some (cached.map Subtype.val, s))
    (hbound : cached.length < 2 ^ 32 - 1) : Sequenced cached := by
  intro i m hm
  have hlt := (List.getElem?_eq_some_iff.mp hm).1
  obtain ⟨hnumber, hbuffer⟩ := sequenceAll_numbers h i (m := m.val) (by rw [List.getElem?_map, hm]; rfl)
  refine ⟨?_, hbuffer⟩
  rw [hnumber, UInt64.toNat_add, UInt64.toNat_ofNat']
  show (1 + i % 2 ^ 64) % 2 ^ 64 = i + 1
  omega

theorem unaliased_iff {n : Nat} {request : RetransmitRequest} :
    (request.firstPacket < request.lastPacket → Unaliased n request.firstPacket) ↔
      ¬(request.firstPacket < request.lastPacket ∧ n < request.firstPacket.toNat ∧
        (request.firstPacket.toNat - 1) % 2 ^ 32 < max n 1) := by
  have hindex : n < request.firstPacket.toNat →
      (request.firstPacket - firstSequenceId).toUInt32.toNat = (request.firstPacket.toNat - 1) % 2 ^ 32 := by
    intro hlt
    have hfirst : firstSequenceId ≤ request.firstPacket := by
      show (1 : UInt64).toNat ≤ request.firstPacket.toNat
      rw [UInt64.toNat_one]
      omega
    rw [UInt64.toNat_toUInt32, UInt64.toNat_sub_of_le _ _ hfirst]
    rfl
  constructor
  · rintro hunaliased ⟨hlast, hlt, hnot⟩
    have hle := hunaliased hlast hlt
    rw [hindex hlt] at hle
    omega
  · intro hnot hlast hlt
    rw [hindex hlt]
    by_contra hlt'
    exact hnot ⟨hlast, hlt, Nat.not_le.mp hlt'⟩

/-- In a stream every message sent at the cursor carries its number and every packet that has
not been sequenced ends it with `InvalidPacket`, unless the request begins at a packet that
has not been sequenced and whose index, cut to 32 bits, is zero or the one of another packet. -/
theorem rounds_lawful_iff (events : List (MarketEvent × MessageMemory)) (hopen : socket.isSome)
    {client : SavedConnection} (request : RetransmitRequest) (hcleared : client.connection.Cleared socket)
    (hrequest : client.request = some request) (k : StreamSocket) (more : List MessageSlot)
    (calls : List (StreamSocket × List MessageSlot))
    (hbound : (allCached cached ((k, more) :: calls)).length < 2 ^ 32 - 1) {s : Sequencer}
    (hsequenced : Sequencer.init.sequenceAll events =
      some ((allCached cached ((k, more) :: calls)).map Subtype.val, s)) :
    ∃ rounds, answerRounds memory cached client ((k, more) :: calls) = some rounds ∧
      ((∀ round ∈ rounds, round.Lawful) ↔
        ¬(request.firstPacket < request.lastPacket ∧ cached.length < request.firstPacket.toNat ∧
          (request.firstPacket.toNat - 1) % 2 ^ 32 < max cached.length 1)) := by
  have hall : allCached cached ((k, more) :: calls) = allCached (cached ++ more) calls := by
    rw [allCached, allCached, List.flatMap_cons, List.append_assoc]
  have hlength : cached.length ≤ (allCached cached ((k, more) :: calls)).length := by
    rw [allCached, List.length_append]
    exact Nat.le_add_right _ _
  have hsequenced := sequenced_of_sequenceAll hsequenced hbound
  have hcount : cached.length < 2 ^ 32 - 1 := by omega
  obtain ⟨rounds, ⟨result, client', k'⟩, hr, hstreams⟩ :=
    streamRounds_fresh memory hopen hcount hsequenced.of_append k hcleared hrequest
  rw [hall] at hbound hsequenced
  rw [← unaliased_iff]
  -- The rounds of the calls that follow are lawful if the request is not one of these.
  obtain ⟨later, hlater, hlawful⟩ : ∃ later, answerRounds memory cached client ((k, more) :: calls) =
      some (rounds ++ later) ∧
      ((request.firstPacket < request.lastPacket → Unaliased cached.length request.firstPacket) →
        ∀ round ∈ later, round.Lawful) := by
    simp only [answerRounds, hr, Option.bind_eq_bind, Option.bind_some]
    by_cases hblocked : result = .error .wouldBlock
    · obtain ⟨request', message, hhalf, hsent⟩ := hstreams.blocked hblocked
      obtain ⟨later, hlater, hlawful⟩ := answerRounds_halfway memory hopen calls hbound hsequenced
        (n := cached.length) (by rw [List.length_append]; exact Nat.le_add_right _ _) hhalf
      rw [if_pos hblocked, hlater]
      exact ⟨later, rfl, fun hgood => hlawful (hsent hgood)⟩
    · rw [if_neg hblocked]
      exact ⟨[], by rw [List.append_nil]; rfl, fun _ _ hround => nomatch hround⟩
  refine ⟨_, hlater, fun hrounds => ?_, fun hgood round hround => ?_⟩
  · by_contra hnot
    obtain ⟨hlast, hnot⟩ := Classical.not_imp.mp hnot
    have hstatus : client.connection.status ≠ .partialSend := by rw [hcleared.status]; exact nofun
    obtain ⟨round, hround, hunlawful⟩ := streamRounds_aliased memory hcount hstatus hrequest hlast hnot hr
    exact hunlawful (hrounds round (List.mem_append_left _ hround))
  · rcases List.mem_append.mp hround with hnow | hthen
    · exact hstreams.lawful hgood round hnow
    · exact hlawful hgood round hthen

/-- A client whose request has just been received. -/
def freshClient (request : RetransmitRequest) : SavedConnection :=
  ⟨⟨blankMemory.val, some 6, 0, 0, .clear⟩, some request⟩

/-- A socket that takes so many bytes in each send and then would block. -/
def haltingSocket (sends : List Nat) : StreamSocket := ⟨[], .failed .wouldBlock, sends, .wouldBlock, []⟩

/-- A request for packets 1 to 4 of which two have been sequenced, answered in two calls. -/
theorem rounds_lawful_iff_pairStream :
    ∃ rounds, answerRounds (fun _ => blankSlot) cachedPair (freshClient ⟨1, 5⟩)
        [(haltingSocket [5], []), (haltingSocket [100, 100], [])] = some rounds ∧
      rounds.map StreamRound.cursor = [1, 1, 2, 3] ∧ ∀ round ∈ rounds, round.Lawful := by
  obtain ⟨rounds, hrounds, hlawful⟩ := @rounds_lawful_iff cachedPair (fun _ => blankSlot) (some 6)
    [(⟨⟨7, 100, 5, .buy⟩, .add⟩, blankMemory), (⟨⟨8, 101, 5, .sell⟩, .add⟩, blankMemory)] rfl
    (freshClient ⟨1, 5⟩) ⟨1, 5⟩ ⟨rfl, blankMemory.property, rfl, rfl, rfl⟩ rfl (haltingSocket [5]) []
    [(haltingSocket [100, 100], [])] (by decide) ⟨3⟩ (by decide +kernel)
  have hcursors : (answerRounds (fun _ => blankSlot) cachedPair (freshClient ⟨1, 5⟩)
      [(haltingSocket [5], []), (haltingSocket [100, 100], [])]).map (·.map StreamRound.cursor) =
        some [1, 1, 2, 3] := by
    decide +kernel
  rw [hrounds] at hcursors
  exact ⟨rounds, hrounds, Option.some.inj hcursors, hlawful.mpr (by decide)⟩

/-- Packet 2 ^ 32 + 1 has not been sequenced and message 1 is sent for it. In an empty cache
the bytes of an unused slot are sent for packet 1. -/
theorem unsequenced_packet_sent :
    answerRounds (fun _ => blankSlot) cachedPair (freshClient ⟨4294967297, 4294967298⟩) [(haltingSocket [100], [])] =
      some [⟨2, 4294967297, some (packetBytes cachedPair 1), none⟩] ∧
    answerRounds (fun _ => blankSlot) [] (freshClient ⟨1, 2⟩) [(haltingSocket [100], [])] =
      some [⟨0, 1, some blankSlot.val.message, none⟩] ∧
    ¬ StreamRound.Lawful ⟨2, 4294967297, some (packetBytes cachedPair 1), none⟩ ∧
    ¬ StreamRound.Lawful ⟨0, 1, some blankSlot.val.message, none⟩ := by
  refine ⟨by decide +kernel, by decide +kernel, fun h => ?_, fun h => ?_⟩
  · cases (h.unsequenced (Or.inr (by decide))).1
  · cases (h.unsequenced (Or.inr (by decide))).1

end HftPipeline
