import SglangRs.Transfer.TcpReceiver

/-!
# What the TCP transfer engine writes

A thread of the receiver resolves the destination of a frame under the lock, but it stores the
payload after it has let go of the lock. A registration in between does not wait for it.

## Main definitions

* `Acknowledged`: a frame is acknowledged only after its payload has been stored.
* `Delivered`: the payload of a request has been stored and acknowledged.
* `Connection.MayStore`: the addresses that the rest of a payload will be stored to.
* `WritesRegistered`: a step stores to registered memory only.
* `KeepsPending`: a registration keeps the memory that payloads are still to be stored to.

## Main results

* `Connection.Sound`, `Network.Sound`: what holds of a connection and of all parties in all runs.
* `tcp_receiver_safe_iff`: acknowledgements and completed tasks mean that the payload has been
  stored, and the receiver writes to registered memory only exactly if every registration keeps
  the memory that payloads are still to be stored to.
-/

namespace SglangRs.Tcp

open Transition

/-! ### Frames -/

/-- The header of a frame. -/
def header (targetOffset length : UInt64) : Bytes :=
  tcpTransferMagic ++ toLeBytes targetOffset ++ toLeBytes length

/-- A frame is acknowledged only after all bytes of its payload have been stored at the address that
it was resolved to. -/
def Acknowledged (history : List Event) : Prop :=
  ∀ before after, history = before ++ .replied 0 :: after →
    ∃ earlier targetOffset length dst payload, payload.length = length.toNat ∧
      before = earlier ++ .resolved targetOffset length dst :: storesAt dst payload

/-- The payload of a request has been stored and acknowledged. -/
def Delivered (history : List Event) (request : KvTransferRequest) : Prop :=
  ∃ before dst after, history =
    before ++ .resolved request.targetOffset request.length dst :: storesAt dst request.src ++
      .replied 0 :: after

/-- The thread has read the given bytes of a frame. -/
inductive Reads : Phase → List Event → Bytes → Prop where
  | magic {got history} (h : got.length < 8) : Reads (.magic got) history got
  | offsetBytes {got history} (h : got.length < 8) :
      Reads (.offsetBytes got) history (tcpTransferMagic ++ got)
  | lenBytes {got history} (targetOffset) (h : got.length < 8) :
      Reads (.lenBytes targetOffset got) history
        (tcpTransferMagic ++ toLeBytes targetOffset ++ got)
  | resolve {history} (targetOffset length) :
      Reads (.resolve targetOffset length) history (header targetOffset length)
  | payload {before part} (targetOffset length dst) (h : part.length < length.toNat) :
      Reads (.payload length dst part.length)
        (before ++ .resolved targetOffset length dst :: storesAt dst part)
        (header targetOffset length ++ part)
  | acknowledge {before payload} (targetOffset length dst) (h : payload.length = length.toNat) :
      Reads .acknowledge (before ++ .resolved targetOffset length dst :: storesAt dst payload)
        (header targetOffset length ++ payload)

/-- The thread will read no more. -/
def Phase.IsOver : Phase → Prop
  | .reject _ | .closed _ => True
  | _ => False

/-- The thread waits for a frame, or it has ended. -/
def Phase.Waits : Phase → Prop
  | .magic got => got = []
  | .closed _ => True
  | _ => False

theorem toLeBytes_fromLeBytes {bytes : Bytes} (h : bytes.length = 8) :
    toLeBytes (fromLeBytes bytes) = bytes := by
  have hlt := leToNat_lt bytes
  rw [h] at hlt
  rw [toLeBytes, fromLeBytes, UInt64.toNat_ofNat_of_lt' hlt, ← h, natToLe_leToNat]

theorem storesAt_append (addr : UInt64) (bytes bytes' : Bytes) :
    storesAt addr (bytes ++ bytes') =
      storesAt addr bytes ++ storesAt (addr + .ofNat bytes.length) bytes' := by
  induction bytes generalizing addr with
  | nil => simp [storesAt]
  | cons byte bytes ih =>
      have hnext : addr + 1 + .ofNat bytes.length = addr + .ofNat (bytes.length + 1) := by
        rw [UInt64.ofNat_add, UInt64.add_assoc, UInt64.add_comm 1]
        rfl
      rw [List.cons_append, storesAt, storesAt, ih, hnext]
      rfl

theorem mem_storesAt {addr a : UInt64} {byte : UInt8} {bytes : Bytes}
    (h : .stored a byte ∈ storesAt addr bytes) :
    ∃ i < bytes.length, a = addr + .ofNat i := by
  induction bytes generalizing addr with
  | nil => cases h
  | cons b bytes ih =>
      rcases List.mem_cons.mp h with heq | hmem
      · obtain ⟨rfl, -⟩ := Event.stored.inj heq
        exact ⟨0, by simp, by simp⟩
      · obtain ⟨i, hi, rfl⟩ := ih hmem
        refine ⟨i + 1, by simpa using hi, ?_⟩
        rw [UInt64.ofNat_add, UInt64.add_assoc, UInt64.add_comm 1]
        rfl

theorem exists_mem_storesAt (addr : UInt64) {bytes : Bytes} {i : ℕ} (h : i < bytes.length) :
    ∃ byte, .stored (addr + .ofNat i) byte ∈ storesAt addr bytes := by
  have hsplit : bytes = bytes.take i ++ bytes[i] :: bytes.drop (i + 1) := by
    rw [← List.drop_eq_getElem_cons h, List.take_append_drop]
  have hstores := congrArg (storesAt addr) hsplit
  rw [storesAt_append, List.length_take_of_le h.le] at hstores
  rw [hstores]
  exact ⟨bytes[i], List.mem_append_right _ List.mem_cons_self⟩

theorem replied_notMem_storesAt (reply : UInt8) (addr : UInt64) (bytes : Bytes) :
    .replied reply ∉ storesAt addr bytes := by
  induction bytes generalizing addr with
  | nil => exact List.not_mem_nil
  | cons byte bytes ih =>
      intro h
      rcases List.mem_cons.mp h with heq | hmem
      · cases heq
      · exact ih _ hmem

/-! ### One step of a thread -/

section Thread

variable {phase : Phase} {history : List Event} {got bytes : Bytes}

theorem Reads.payload_or_acknowledge {before : List Event} (targetOffset length dst : UInt64)
    {part : Bytes} (h : part.length ≤ length.toNat) :
    Reads (Phase.readPayload length dst part.length)
      (before ++ .resolved targetOffset length dst :: storesAt dst part)
      (header targetOffset length ++ part) := by
  rw [Phase.readPayload]
  split_ifs with hlt
  · exact .payload targetOffset length dst hlt
  · exact .acknowledge targetOffset length dst (by omega)

/-- A thread that reads some bytes goes on with the frame, or refuses it. -/
theorem Reads.read (h : Reads phase history got) (hne : bytes ≠ [])
    (hle : bytes.length ≤ phase.wants) :
    (phase.read bytes).1.IsOver ∧ (phase.read bytes).2 = [] ∨
      Reads (phase.read bytes).1 (history ++ (phase.read bytes).2) (got ++ bytes) := by
  have hpos : 0 < bytes.length := List.length_pos_iff.mpr hne
  cases h with
  | magic hlt =>
      simp only [Phase.wants] at hle
      simp only [Phase.read]
      split_ifs with hshort hmagic
      · exact .inr (.magic hshort)
      · rw [hmagic]
        exact .inr (.offsetBytes (by simp))
      · exact .inl ⟨trivial, rfl⟩
  | @offsetBytes part _ hlt =>
      simp only [Phase.wants] at hle
      simp only [Phase.read]
      split_ifs with hshort
      · rw [List.append_assoc]
        exact .inr (.offsetBytes hshort)
      · have hfull : (part ++ bytes).length = 8 := by
          rw [List.length_append] at hshort ⊢
          omega
        have hreads := @Reads.lenBytes [] history (fromLeBytes (part ++ bytes)) (by simp)
        rw [toLeBytes_fromLeBytes hfull, List.append_nil, ← List.append_assoc] at hreads
        refine .inr ?_
        rwa [List.append_nil]
  | @lenBytes part _ targetOffset hlt =>
      simp only [Phase.wants] at hle
      simp only [Phase.read]
      split_ifs with hshort
      · rw [List.append_assoc]
        exact .inr (.lenBytes targetOffset hshort)
      · have hfull : (part ++ bytes).length = 8 := by
          rw [List.length_append] at hshort ⊢
          omega
        have hreads := @Reads.resolve history targetOffset (fromLeBytes (part ++ bytes))
        rw [header, toLeBytes_fromLeBytes hfull, ← List.append_assoc] at hreads
        refine .inr ?_
        rwa [List.append_nil]
  | resolve | acknowledge =>
      simp only [Phase.wants] at hle
      omega
  | @payload before part targetOffset length dst hlt =>
      simp only [Phase.wants] at hle
      have hpart : (part ++ bytes).length ≤ length.toNat := by
        rw [List.length_append]
        omega
      have hreads := @Reads.payload_or_acknowledge before targetOffset length dst _ hpart
      rw [List.length_append, storesAt_append, ← List.append_assoc] at hreads
      refine .inr ?_
      simpa [Phase.read] using hreads

theorem replied_notMem_read (reply : UInt8) : .replied reply ∉ (phase.read bytes).2 := by
  cases phase with
  | payload => exact replied_notMem_storesAt _ _ _
  | magic | offsetBytes | lenBytes =>
      simp only [Phase.read]
      split_ifs <;> exact List.not_mem_nil
  | _ => exact List.not_mem_nil

theorem Acknowledged.append (h : Acknowledged history) {events : List Event}
    (hno : ∀ reply, .replied reply ∉ events) : Acknowledged (history ++ events) := by
  intro before after heq
  obtain ⟨more, rfl, hevents⟩ | ⟨more, hhistory, hrest⟩ := List.append_eq_append_iff.mp heq
  · exact absurd (hevents ▸ List.mem_append_right more List.mem_cons_self) (hno 0)
  · cases more with
    | nil =>
        rw [List.nil_append] at hrest
        exact absurd (hrest ▸ List.mem_cons_self) (hno 0)
    | cons event more =>
        obtain ⟨rfl, -⟩ := List.cons.inj hrest
        exact h before more hhistory

/-- One more reply, which is an acknowledgement only if the frame has been stored. -/
theorem Acknowledged.reply (h : Acknowledged history) {reply : UInt8}
    (hreads : reply = 0 → ∃ got, Reads .acknowledge history got) :
    Acknowledged (history ++ [.replied reply]) := by
  intro before after heq
  rcases List.eq_nil_or_concat after with rfl | ⟨after, event, rfl⟩
  · obtain ⟨rfl, hevent⟩ := List.append_inj' heq rfl
    obtain ⟨got, hreads⟩ := hreads (Event.replied.inj (List.singleton_inj.mp hevent))
    cases hreads with
    | acknowledge targetOffset length dst hlength => exact ⟨_, _, _, _, _, hlength, rfl⟩
  · rw [List.concat_eq_append, ← List.cons_append, ← List.append_assoc] at heq
    exact h before after (List.append_inj' heq rfl).1

theorem Delivered.append {request : KvTransferRequest} (h : Delivered history request)
    (events : List Event) : Delivered (history ++ events) request := by
  obtain ⟨before, dst, after, rfl⟩ := h
  exact ⟨before, dst, after ++ events, by simp⟩

/-- What a thread has read of the frame of a request, to its end, is that request. -/
theorem Reads.delivered {request : KvTransferRequest} {incoming : Bytes}
    (h : Reads .acknowledge history got) (hframe : got ++ incoming = request.frame) :
    incoming = [] ∧ Delivered (history ++ [.replied 0]) request := by
  cases h with
  | @acknowledge before payload targetOffset length dst hlength =>
      have hbytes (value : UInt64) : (toLeBytes value).length = 8 := length_natToLe _ _
      have hinj {a b : UInt64} (hab : toLeBytes a = toLeBytes b) : a = b := by
        have hnat := congrArg leToNat hab
        rw [toLeBytes, toLeBytes, leToNat_natToLe, leToNat_natToLe] at hnat
        have ha := a.toNat_lt
        have hb := b.toNat_lt
        exact UInt64.toNat_inj.mp (by omega)
      rw [KvTransferRequest.frame, header, List.append_assoc _ payload] at hframe
      obtain ⟨hheader, hrest⟩ := List.append_inj hframe (by simp [hbytes])
      obtain ⟨hoffset, hlen⟩ := List.append_inj hheader (by simp [hbytes])
      obtain rfl := hinj (List.append_cancel_left hoffset)
      obtain rfl := hinj hlen
      obtain ⟨hpayload, hnil⟩ := List.append_inj (hrest.trans (List.append_nil _).symm)
        (hlength.trans request.length_src.symm)
      exact ⟨hnil, before, dst, [], by rw [hpayload]⟩

end Thread

/-! ### A connection -/

/-- A stream carries the frame of a request to the receiver, or its reply back. -/
inductive Connection.Carries (c : Connection) (request : KvTransferRequest) : Prop where
  | arriving {got} (h : Reads c.phase c.history got) (hframe : got ++ c.incoming = request.frame)
      (hreplies : c.replies = [])
  | acknowledged (h : Delivered c.history request) (hphase : c.phase.Waits)
      (hincoming : c.incoming = []) (hreplies : c.replies = [0])
  | refused (hphase : c.phase.IsOver) (hreplies : ∀ reply ∈ c.replies, reply ≠ 0)

/-- What holds of a connection in all runs. -/
structure Connection.Sound (c : Connection) : Prop where
  acknowledged : Acknowledged c.history
  reads : c.phase.IsOver ∨ ∃ got, Reads c.phase c.history got
  idle : c.peer = .idle → c.phase.Waits ∧ c.incoming = [] ∧ c.replies = []
  busy : ∀ task request, c.peer = .busy task request → c.Carries request

namespace Connection

variable (c : Connection)

/-- A read that does not wait takes the first bytes in flight. -/
theorem read_cases (n : ℕ) : c.read n = c ∨ ∃ bytes rest, bytes ≠ [] ∧
    bytes = c.incoming.take (min n c.phase.wants) ∧ bytes.length ≤ c.phase.wants ∧
      c.incoming = bytes ++ rest ∧
      c.read n = { c with
        phase := (c.phase.read bytes).1
        history := c.history ++ (c.phase.read bytes).2
        incoming := rest } := by
  rw [read]
  dsimp only
  split_ifs with hnil
  · exact .inl rfl
  · obtain ⟨rest, hrest⟩ := List.take_prefix (min n c.phase.wants) c.incoming
    refine .inr ⟨_, rest, hnil, rfl, ?_, hrest.symm, ?_⟩
    · rw [List.length_take]
      omega
    · have hdrop := congrArg (List.drop (c.incoming.take (min n c.phase.wants)).length) hrest
      rw [List.drop_left] at hdrop
      rw [hdrop]

theorem lock_cases (buffers : List RegisteredBuffer) : c.lock buffers = c ∨
    ∃ targetOffset length, c.phase = .resolve targetOffset length ∧
      ((∃ dst, resolveDestination buffers targetOffset length = .ok dst ∧
        c.lock buffers = { c with
          phase := Phase.readPayload length dst 0
          history := c.history ++ [.resolved targetOffset length dst] }) ∨
      ∃ error, c.lock buffers = { c with phase := .reject error }) := by
  obtain ⟨peer, phase, history, incoming, replies⟩ := c
  cases phase with
  | resolve targetOffset length =>
      refine .inr ⟨targetOffset, length, rfl, ?_⟩
      simp only [lock, Phase.lock]
      cases resolveDestination buffers targetOffset length with
      | ok dst => exact .inl ⟨dst, rfl, rfl⟩
      | error error => exact .inr ⟨error, by simp⟩
  | _ => exact .inl (by simp [lock, Phase.lock])

theorem reply_cases (failure : Option IoError) : c.reply failure = c ∨
    (∃ result, c.reply failure = { c with phase := .closed result }) ∨
    (c.phase = .acknowledge ∧ c.reply failure = { c with
      phase := .magic []
      history := c.history ++ [.replied 0]
      replies := c.replies ++ [0] }) ∨
    ∃ error, c.phase = .reject error ∧ c.reply failure = { c with
      phase := .closed (.error error)
      history := c.history ++ [.replied 1]
      replies := c.replies ++ [1] } := by
  obtain ⟨peer, phase, history, incoming, replies⟩ := c
  cases phase with
  | acknowledge =>
      cases failure with
      | none => exact .inr (.inr (.inl ⟨rfl, rfl⟩))
      | some error => exact .inr (.inl ⟨.error error, by simp [reply, Phase.reply]⟩)
  | reject error =>
      cases failure with
      | none => exact .inr (.inr (.inr ⟨error, rfl, rfl⟩))
      | some _ => exact .inr (.inl ⟨.error error, by simp [reply, Phase.reply]⟩)
  | _ => exact .inl (by simp [reply, Phase.reply])

theorem readFails_cases (error : IoError) :
    c.readFails error = c ∨ ∃ result, c.readFails error = { c with phase := .closed result } := by
  obtain ⟨peer, phase, history, incoming, replies⟩ := c
  cases phase with
  | magic | offsetBytes | lenBytes | payload => exact .inr ⟨_, rfl⟩
  | _ => exact .inl rfl

theorem endOfStream_cases :
    c.endOfStream = c ∨ ∃ result, c.endOfStream = { c with phase := .closed result } := by
  rw [endOfStream]
  split_ifs
  · obtain ⟨peer, phase, history, incoming, replies⟩ := c
    cases phase with
    | magic | offsetBytes | lenBytes | payload => exact .inr ⟨_, rfl⟩
    | _ => exact .inl rfl
  · exact .inl rfl

variable {c}

theorem Sound.new {peer : Peer} (hpeer : ∀ task request, peer ≠ .busy task request) :
    Sound { peer } where
  acknowledged before after h := by simp at h
  reads := .inr ⟨[], .magic (by simp)⟩
  idle _ := ⟨rfl, rfl, rfl⟩
  busy task request h := absurd h (hpeer task request)

/-- A thread that ends. -/
theorem Sound.close (h : c.Sound) (result : Except IoError Unit) :
    Sound { c with phase := .closed result } where
  acknowledged := h.acknowledged
  reads := .inl trivial
  idle hidle := ⟨trivial, (h.idle hidle).2⟩
  busy task request hbusy := by
    cases h.busy task request hbusy with
    | arriving _ _ hreplies => exact .refused trivial (by simp [hreplies])
    | acknowledged hdelivered _ hincoming hreplies =>
        exact .acknowledged hdelivered trivial hincoming hreplies
    | refused _ hreplies => exact .refused trivial hreplies

theorem wants_of_isOver {phase : Phase} (h : phase.IsOver) : phase.wants = 0 := by
  cases phase with
  | reject | closed => rfl
  | _ => exact h.elim

theorem Sound.read (h : c.Sound) (n : ℕ) : (c.read n).Sound := by
  obtain heq | ⟨bytes, rest, hne, -, hle, hincoming, heq⟩ := c.read_cases n <;> rw [heq]
  · exact h
  have hopen : ¬c.phase.IsOver := fun hover => by
    rw [wants_of_isOver hover, Nat.le_zero, List.length_eq_zero_iff] at hle
    exact hne hle
  have hsome : c.incoming ≠ [] := by simp [hincoming, hne]
  constructor
  · exact h.acknowledged.append fun reply => replied_notMem_read reply
  · obtain ⟨got, hreads⟩ := h.reads.resolve_left hopen
    exact (hreads.read hne hle).imp And.left fun hread => ⟨_, hread⟩
  · exact fun hidle => absurd (h.idle hidle).2.1 hsome
  · intro task request hbusy
    cases h.busy task request hbusy with
    | @arriving got hreads hframe hreplies =>
        obtain ⟨hover, -⟩ | hread := hreads.read hne hle
        · exact .refused hover (by simp [hreplies])
        · refine .arriving hread ?_ hreplies
          rw [List.append_assoc, ← hincoming, hframe]
    | acknowledged _ _ hnil _ => exact absurd hnil hsome
    | refused hover _ => exact absurd hover hopen

theorem Sound.lock (h : c.Sound) (buffers : List RegisteredBuffer) : (c.lock buffers).Sound := by
  obtain heq | ⟨targetOffset, length, hphase, ⟨dst, -, heq⟩ | ⟨error, heq⟩⟩ :=
    c.lock_cases buffers <;> rw [heq]
  · exact h
  · have hreads (got : Bytes) (hgot : Reads c.phase c.history got) :
        Reads (Phase.readPayload length dst 0)
          (c.history ++ [.resolved targetOffset length dst]) got := by
      rw [hphase] at hgot
      cases hgot
      have hnext :=
        @Reads.payload_or_acknowledge c.history targetOffset length dst [] (Nat.zero_le _)
      rwa [List.append_nil] at hnext
    have hopen : ¬c.phase.IsOver := by simp [hphase, Phase.IsOver]
    have hwaits : ¬c.phase.Waits := by simp [hphase, Phase.Waits]
    constructor
    · exact h.acknowledged.append (by simp)
    · obtain ⟨got, hgot⟩ := h.reads.resolve_left hopen
      exact .inr ⟨got, hreads got hgot⟩
    · exact fun hidle => absurd (h.idle hidle).1 hwaits
    · intro task request hbusy
      cases h.busy task request hbusy with
      | arriving hgot hframe hreplies => exact .arriving (hreads _ hgot) hframe hreplies
      | acknowledged _ hphase' _ _ => exact absurd hphase' hwaits
      | refused hover _ => exact absurd hover hopen
  · have hwaits : ¬c.phase.Waits := by simp [hphase, Phase.Waits]
    constructor
    · exact h.acknowledged
    · exact .inl trivial
    · exact fun hidle => absurd (h.idle hidle).1 hwaits
    · intro task request hbusy
      cases h.busy task request hbusy with
      | arriving _ _ hreplies => exact .refused trivial (by simp [hreplies])
      | acknowledged _ hphase' _ _ => exact absurd hphase' hwaits
      | refused _ hreplies => exact .refused trivial hreplies

theorem Sound.reply (h : c.Sound) (failure : Option IoError) : (c.reply failure).Sound := by
  obtain heq | ⟨result, heq⟩ | ⟨hphase, heq⟩ | ⟨error, hphase, heq⟩ := c.reply_cases failure <;>
    rw [heq]
  · exact h
  · exact h.close result
  · have hopen : ¬c.phase.IsOver := by simp [hphase, Phase.IsOver]
    have hwaits : ¬c.phase.Waits := by simp [hphase, Phase.Waits]
    constructor
    · refine h.acknowledged.reply fun _ => ?_
      exact hphase ▸ h.reads.resolve_left hopen
    · exact .inr ⟨[], .magic (by simp)⟩
    · exact fun hidle => absurd (h.idle hidle).1 hwaits
    · intro task request hbusy
      cases h.busy task request hbusy with
      | arriving hgot hframe hreplies =>
          rw [hphase] at hgot
          obtain ⟨hnil, hdelivered⟩ := hgot.delivered hframe
          exact .acknowledged hdelivered rfl hnil (by simp [hreplies])
      | acknowledged _ hphase' _ _ => exact absurd hphase' hwaits
      | refused hover _ => exact absurd hover hopen
  · have hwaits : ¬c.phase.Waits := by simp [hphase, Phase.Waits]
    constructor
    · exact h.acknowledged.reply fun hzero => absurd hzero (by decide)
    · exact .inl trivial
    · exact fun hidle => absurd (h.idle hidle).1 hwaits
    · intro task request hbusy
      cases h.busy task request hbusy with
      | arriving hgot _ _ =>
          rw [hphase] at hgot
          cases hgot
      | acknowledged _ hphase' _ _ => exact absurd hphase' hwaits
      | refused _ hreplies =>
          refine .refused trivial fun reply hreply => ?_
          rcases List.mem_append.mp hreply with hold | hnew
          · exact hreplies reply hold
          · rw [List.mem_singleton.mp hnew]
            decide

theorem Sound.readFails (h : c.Sound) (error : IoError) : (c.readFails error).Sound := by
  obtain heq | ⟨result, heq⟩ := c.readFails_cases error <;> rw [heq]
  exacts [h, h.close result]

theorem Sound.endOfStream (h : c.Sound) : c.endOfStream.Sound := by
  obtain heq | ⟨result, heq⟩ := c.endOfStream_cases <;> rw [heq]
  exacts [h, h.close result]

theorem Sound.send (h : c.Sound) (bytes : Bytes) : (c.send bytes).Sound := by
  rw [Connection.send]
  cases hpeer : c.peer with
  | unknown => exact ⟨h.acknowledged, h.reads, by simp, by simp⟩
  | _ => exact h

/-- A task writes its frame to an idle stream. -/
theorem Sound.write (h : c.Sound) (hidle : c.peer = .idle) (task : ℕ) (request : KvTransferRequest)
    (n : ℕ) : (c.write task request n).Sound := by
  obtain ⟨hwaits, hincoming, hreplies⟩ := h.idle hidle
  rw [Connection.write]
  split_ifs with hpart
  · exact ⟨h.acknowledged, h.reads, nofun, nofun⟩
  · refine ⟨h.acknowledged, h.reads, nofun, ?_⟩
    rintro _ _ ⟨⟩
    rw [hincoming, List.nil_append, List.take_of_length_le (Nat.le_of_not_lt hpart)]
    obtain ⟨peer, phase, history, incoming, replies⟩ := c
    cases phase with
    | magic got =>
        obtain rfl : got = [] := hwaits
        exact .arriving (.magic (by simp)) rfl hreplies
    | closed => exact .refused trivial (by simp_all)
    | _ => exact hwaits.elim

/-- A stream that the task has let go of. -/
theorem Sound.drop (h : c.Sound) (replies : List UInt8) :
    Sound { c with peer := .dropped, replies } :=
  ⟨h.acknowledged, h.reads, nofun, nofun⟩

/-- A task that is acknowledged has delivered its request, and keeps the stream. -/
theorem Sound.acknowledge (h : c.Sound) {task : ℕ} {request : KvTransferRequest}
    (hbusy : c.peer = .busy task request) {replies : List UInt8}
    (hreplies : c.replies = 0 :: replies) :
    Sound { c with peer := .idle, replies } ∧ Delivered c.history request := by
  cases h.busy task request hbusy with
  | arriving _ _ hnil => simp [hnil] at hreplies
  | acknowledged hdelivered hwaits hincoming hone =>
      obtain rfl : replies = [] := by simpa [hone] using hreplies.symm
      exact ⟨⟨h.acknowledged, h.reads, fun _ => ⟨hwaits, hincoming, rfl⟩, nofun⟩, hdelivered⟩
  | refused _ hno => exact absurd rfl (hno 0 (by simp [hreplies]))

/-- The peer stays, and so does what the thread did. -/
structure Evolves (c c' : Connection) : Prop where
  peer : c'.peer = c.peer
  history : c.history <+: c'.history

theorem evolves_close (c : Connection) (result : Except IoError Unit) :
    c.Evolves { c with phase := .closed result } :=
  ⟨rfl, List.prefix_rfl⟩

theorem evolves_read (c : Connection) (n : ℕ) : c.Evolves (c.read n) := by
  obtain heq | ⟨bytes, rest, -, -, -, -, heq⟩ := c.read_cases n <;> rw [heq]
  · exact ⟨rfl, List.prefix_rfl⟩
  · exact ⟨rfl, List.prefix_append _ _⟩

theorem evolves_lock (c : Connection) (buffers : List RegisteredBuffer) :
    c.Evolves (c.lock buffers) :=
  ⟨rfl, List.prefix_append _ _⟩

theorem evolves_reply (c : Connection) (failure : Option IoError) : c.Evolves (c.reply failure) :=
  ⟨rfl, List.prefix_append _ _⟩

theorem evolves_endOfStream (c : Connection) : c.Evolves c.endOfStream := by
  obtain heq | ⟨result, heq⟩ := c.endOfStream_cases <;> rw [heq]
  exacts [⟨rfl, List.prefix_rfl⟩, c.evolves_close result]

theorem evolves_send (c : Connection) (bytes : Bytes) : c.Evolves (c.send bytes) := by
  rw [send]
  split <;> exact ⟨rfl, List.prefix_rfl⟩

end Connection

/-! ### The parties -/

theorem Delivered.mono {history history' : List Event} {request : KvTransferRequest}
    (h : Delivered history request) (hbefore : history <+: history') :
    Delivered history' request := by
  obtain ⟨more, rfl⟩ := hbefore
  exact h.append more

namespace Network

/-- The payload of a request has been stored over some connection. -/
def HasDelivered (s : Network) (request : KvTransferRequest) : Prop :=
  ∃ c ∈ s.connections, Delivered c.history request

/-- What holds of all parties in all runs. -/
structure Sound (s : Network) : Prop where
  connections : ∀ c ∈ s.connections, c.Sound
  awaiting : ∀ t request attempt i, s.tasks[t]? = some (Task.mk request (.awaiting attempt i)) →
    ∃ c, s.connections[i]? = some c ∧ c.peer = .busy t request
  completed : ∀ task ∈ s.tasks, ∀ n, task.state = .done ⟨.completed, n⟩ →
    s.HasDelivered task.request

variable {s : Network}

theorem forall_mem_modify {α : Type} {P : α → Prop} {l : List α} {i : ℕ} {f : α → α}
    (h : ∀ a ∈ l, P a) (hf : ∀ a, l[i]? = some a → P (f a)) : ∀ a ∈ l.modify i f, P a := by
  intro a ha
  obtain ⟨j, hj⟩ := List.mem_iff_getElem?.mp ha
  rw [List.getElem?_modify] at hj
  obtain ⟨b, hb, rfl⟩ := Option.map_eq_some_iff.mp hj
  split_ifs with hij
  · exact hf b (hij ▸ hb)
  · exact h b (List.mem_of_getElem? hb)

theorem HasDelivered.onConnection {request : KvTransferRequest} (h : s.HasDelivered request)
    {i : ℕ} {f : Connection → Connection}
    (hf : ∀ c, s.connections[i]? = some c → c.history <+: (f c).history) :
    (s.onConnection i f).HasDelivered request := by
  obtain ⟨c, hmem, hdelivered⟩ := h
  obtain ⟨j, hj⟩ := List.mem_iff_getElem?.mp hmem
  by_cases hij : i = j
  · subst hij
    refine ⟨f c, List.mem_of_getElem? (i := i) ?_, hdelivered.mono (hf c hj)⟩
    rw [Network.onConnection, List.getElem?_modify_eq, hj]
    rfl
  · refine ⟨c, List.mem_of_getElem? (i := j) ?_, hdelivered⟩
    rw [Network.onConnection, List.getElem?_modify_ne _ _ hij, hj]

/-- A step of a thread or of an unknown peer. -/
theorem Sound.onConnection (h : s.Sound) (i : ℕ) {f : Connection → Connection}
    (hsound : ∀ c, c.Sound → (f c).Sound) (hf : ∀ c : Connection, c.Evolves (f c)) :
    (s.onConnection i f).Sound where
  connections := forall_mem_modify h.connections fun c hc =>
    hsound c (h.connections c (List.mem_of_getElem? hc))
  awaiting t request attempt j hj := by
    obtain ⟨c, hc, hbusy⟩ := h.awaiting t request attempt j hj
    rw [Network.onConnection, List.getElem?_modify, hc]
    refine ⟨_, rfl, ?_⟩
    dsimp only
    split_ifs
    · rw [(hf c).peer, hbusy]
    · exact hbusy
  completed task htask n hdone :=
    (h.completed task htask n hdone).onConnection fun c _ => (hf c).history

/-- A step of a task, with a change to the connection that it uses. -/
theorem Sound.setTask (h : s.Sound) {t i : ℕ} {request : KvTransferRequest}
    {state state' : TaskState} {c : Connection} {f : Connection → Connection}
    (htask : s.tasks[t]? = some ⟨request, state⟩)
    (hc : s.connections[i]? = some c) (hsound : (f c).Sound) (hhistory : (f c).history = c.history)
    (hpeer : ∀ t' request', c.peer = .busy t' request' → t' = t)
    (hawaiting : ∀ attempt j, state' = .awaiting attempt j → j = i ∧ (f c).peer = .busy t request)
    (hcompleted : ∀ n, state' = .done ⟨.completed, n⟩ → Delivered c.history request) :
    ((s.onConnection i f).setTask t state').Sound where
  connections := forall_mem_modify h.connections fun c' hc' => by
    obtain rfl := Option.some.inj (hc.symm.trans hc')
    exact hsound
  awaiting t' request' attempt j hj := by
    change (s.tasks.modify t _)[t']? = _ at hj
    change ∃ c', (s.connections.modify i f)[j]? = _ ∧ _
    by_cases ht : t = t'
    · subst ht
      rw [List.getElem?_modify_eq, htask] at hj
      obtain ⟨rfl, hstate⟩ := Task.mk.inj (Option.some.inj hj)
      obtain ⟨rfl, hbusy⟩ := hawaiting attempt j hstate
      exact ⟨f c, by rw [List.getElem?_modify_eq, hc]; rfl, hbusy⟩
    · rw [List.getElem?_modify_ne _ _ ht] at hj
      obtain ⟨c', hc', hbusy⟩ := h.awaiting t' request' attempt j hj
      have hij : i ≠ j := by
        rintro rfl
        obtain rfl := Option.some.inj (hc.symm.trans hc')
        exact ht (hpeer t' request' hbusy).symm
      exact ⟨c', by rw [List.getElem?_modify_ne _ _ hij, hc'], hbusy⟩
  completed := by
    have hmono (request' : KvTransferRequest) (hdelivered : s.HasDelivered request') :
        (s.onConnection i f).HasDelivered request' :=
      hdelivered.onConnection fun c' hc' => by
        obtain rfl := Option.some.inj (hc.symm.trans hc')
        exact hhistory ▸ List.prefix_rfl
    refine forall_mem_modify (fun task htask n hdone => ?_) fun task htask' n hdone => ?_
    · exact hmono _ (h.completed task htask n hdone)
    · obtain rfl := Option.some.inj (htask.symm.trans htask')
      exact hmono _ ⟨c, List.mem_of_getElem? hc, hcompleted n hdone⟩

theorem Sound.init : ({} : Network).Sound :=
  ⟨fun _ hc => absurd hc List.not_mem_nil, fun _ _ _ _ h => by simp at h,
    fun _ htask => absurd htask List.not_mem_nil⟩

/-- A new connection. -/
theorem Sound.connect (h : s.Sound) {peer : Peer}
    (hpeer : ∀ task request, peer ≠ .busy task request) :
    Network.Sound { s with connections := s.connections ++ [{ peer }] } where
  connections := List.forall_mem_append.mpr
    ⟨h.connections, List.forall_mem_singleton.mpr (Connection.Sound.new hpeer)⟩
  awaiting t request attempt i ht := by
    obtain ⟨c, hc, hbusy⟩ := h.awaiting t request attempt i ht
    exact ⟨c, by rw [List.getElem?_append_left (List.getElem?_eq_some_iff.mp hc).1, hc], hbusy⟩
  completed task htask n hdone := by
    obtain ⟨c, hc, hdelivered⟩ := h.completed task htask n hdone
    exact ⟨c, List.mem_append_left _ hc, hdelivered⟩

theorem Sound.submit (h : s.Sound) (request : KvTransferRequest) :
    Network.Sound { s with tasks := s.tasks ++ [⟨request, .attempt 0⟩] } where
  connections := h.connections
  awaiting t request' attempt i ht := by
    refine h.awaiting t request' attempt i ?_
    dsimp only at ht
    rcases lt_or_ge t s.tasks.length with hlt | hge
    · rwa [List.getElem?_append_left hlt] at ht
    · rw [List.getElem?_append_right hge, List.getElem?_singleton] at ht
      split_ifs at ht
      cases ht
  completed := List.forall_mem_append.mpr ⟨h.completed, List.forall_mem_singleton.mpr nofun⟩

theorem Sound.connectFails (h : s.Sound) (t : ℕ) : (s.connectFails t).Sound := by
  rw [Network.connectFails]
  split
  · refine ⟨h.connections, fun t' request attempt i ht => ?_, ?_⟩
    · change (s.tasks.modify t _)[t']? = _ at ht
      refine h.awaiting t' request attempt i ?_
      rw [List.getElem?_modify] at ht
      obtain ⟨task, htask, heq⟩ := Option.map_eq_some_iff.mp ht
      split_ifs at heq
      · cases heq
      · rw [htask, heq]
    · exact forall_mem_modify h.completed fun _ _ n hdone => by cases hdone
  · exact h

theorem retry_ne_awaiting (k attempt j : ℕ) : Task.retry k ≠ .awaiting attempt j := by
  rw [Task.retry]
  split_ifs <;> exact nofun

theorem retry_ne_completed (k : ℕ) (n : UInt64) : Task.retry k ≠ .done ⟨.completed, n⟩ := by
  rw [Task.retry]
  split_ifs <;> exact nofun

theorem Sound.write (h : s.Sound) (t i n : ℕ) : (s.write t i n).Sound := by
  rw [Network.write]
  split
  · rename_i request attempt phase history incoming replies htask hc
    have hsound := h.connections _ (List.mem_of_getElem? hc)
    refine h.setTask htask hc (hsound.write rfl t request n) rfl nofun ?_ ?_
    · split_ifs with hpart
      · exact fun k j hstate => absurd hstate (retry_ne_awaiting attempt k j)
      · rintro _ _ ⟨⟩
        exact ⟨rfl, by simp [Connection.write, hpart]⟩
    · split_ifs
      · exact fun k hstate => absurd hstate (retry_ne_completed attempt k)
      · exact nofun
  · exact h

theorem Sound.readReply (h : s.Sound) (t : ℕ) : (s.readReply t).Sound := by
  rw [Network.readReply]
  split
  · rename_i request attempt i htask
    obtain ⟨c, hc, hbusy⟩ := h.awaiting t request attempt i htask
    have hsound := h.connections c (List.mem_of_getElem? hc)
    have honly (t' : ℕ) (request' : KvTransferRequest) (hpeer : c.peer = .busy t' request') :
        t' = t := by
      rw [hbusy] at hpeer
      exact (Peer.busy.inj hpeer).1.symm
    rw [hc, Option.map_some, Option.getD_some]
    split
    · exact h
    · rename_i reply replies hreplies
      split_ifs with hzero
      · subst hzero
        obtain ⟨hnext, hdelivered⟩ := hsound.acknowledge hbusy hreplies
        exact h.setTask htask hc hnext rfl honly nofun fun _ _ => hdelivered
      · exact h.setTask htask hc (hsound.drop replies) rfl honly
          (fun k j hstate => absurd hstate (retry_ne_awaiting attempt k j))
          fun k hstate => absurd hstate (retry_ne_completed attempt k)
  · exact h

theorem Sound.readReplyFails (h : s.Sound) (t : ℕ) : (s.readReplyFails t).Sound := by
  rw [Network.readReplyFails]
  split
  · rename_i request attempt i htask
    obtain ⟨c, hc, hbusy⟩ := h.awaiting t request attempt i htask
    have hsound := h.connections c (List.mem_of_getElem? hc)
    refine h.setTask htask hc (hsound.drop c.replies) rfl (fun t' request' hpeer => ?_)
      (fun k j hstate => absurd hstate (retry_ne_awaiting attempt k j))
      fun k hstate => absurd hstate (retry_ne_completed attempt k)
    rw [hbusy] at hpeer
    exact (Peer.busy.inj hpeer).1.symm
  · exact h

theorem Sound.step (h : s.Sound) (a : Action) : (s.step a).Sound := by
  cases a with
  | registerMemoryBatch | unregisterMemoryBatch =>
      exact ⟨h.connections, h.awaiting, h.completed⟩
  | accept | connect => exact h.connect nofun
  | send i bytes => exact h.onConnection i (fun c hc => hc.send bytes) (·.evolves_send bytes)
  | read i n => exact h.onConnection i (fun c hc => hc.read n) (·.evolves_read n)
  | readFails i error =>
      exact h.onConnection i (fun c hc => hc.readFails error) fun _ => ⟨rfl, List.prefix_rfl⟩
  | endOfStream i =>
      exact h.onConnection i (fun c hc => hc.endOfStream) Connection.evolves_endOfStream
  | lock i =>
      exact h.onConnection i (fun c hc => hc.lock s.registeredBuffers)
        (·.evolves_lock s.registeredBuffers)
  | reply i failure =>
      exact h.onConnection i (fun c hc => hc.reply failure) (·.evolves_reply failure)
  | submit request => exact h.submit request
  | connectFails t => exact h.connectFails t
  | write t i n => exact h.write t i n
  | readReply t => exact h.readReply t
  | readReplyFails t => exact h.readReplyFails t

theorem sound_run (as : List Action) : (as.foldl Network.step {}).Sound :=
  foldl_invariant (P := fun _ _ => True) (fun _ a _ h => h.step a)
    (along_of_forall (fun _ _ => trivial) _ as) Sound.init

end Network

/-! ### Memory that is still to be written -/

/-- An address that a byte of the payload still to come will be stored to. An unknown peer may send
all of the payload; of a stream of the sender only the bytes in flight can come. -/
def Connection.MayStore (c : Connection) (addr : UInt64) : Prop :=
  ∃ length dst bytesRead i, c.phase = .payload length dst bytesRead ∧ bytesRead ≤ i ∧
    i < length.toNat ∧ (c.peer = .unknown ∨ i < bytesRead + c.incoming.length) ∧
      addr = dst + .ofNat i

namespace Connection

variable {c : Connection} {addr : UInt64}

theorem MayStore.payload (h : c.MayStore addr) : ∃ length dst bytesRead,
    c.phase = .payload length dst bytesRead := by
  obtain ⟨length, dst, bytesRead, -, hphase, -⟩ := h
  exact ⟨length, dst, bytesRead, hphase⟩

theorem mayStore_readPayload {length dst : UInt64} {bytesRead : ℕ}
    (hphase : c.phase = Phase.readPayload length dst bytesRead) (h : c.MayStore addr) :
    ∃ i, bytesRead ≤ i ∧ i < length.toNat ∧
      (c.peer = .unknown ∨ i < bytesRead + c.incoming.length) ∧ addr = dst + .ofNat i := by
  obtain ⟨length', dst', bytesRead', i, hpayload, hle, hlt, hcomes, rfl⟩ := h
  rw [hphase, Phase.readPayload] at hpayload
  split_ifs at hpayload
  obtain ⟨rfl, rfl, rfl⟩ := Phase.payload.inj hpayload
  exact ⟨i, hle, hlt, hcomes, rfl⟩

theorem MayStore.of_read {n : ℕ} (h : (c.read n).MayStore addr) : c.MayStore addr := by
  obtain heq | ⟨bytes, rest, -, -, -, hincoming, heq⟩ := c.read_cases n <;> rw [heq] at h
  · exact h
  cases hphase : c.phase with
  | payload length dst bytesRead =>
      obtain ⟨i, hle, hlt, hcomes, rfl⟩ := mayStore_readPayload
        (show _ = Phase.readPayload length dst (bytesRead + bytes.length) by rw [hphase]; rfl) h
      refine ⟨length, dst, bytesRead, i, hphase, by omega, hlt, hcomes.imp_right fun hi => ?_, rfl⟩
      rw [hincoming, List.length_append]
      dsimp only at hi
      omega
  | magic | offsetBytes | lenBytes =>
      obtain ⟨length, dst, bytesRead, hnext⟩ := h.payload
      simp only [hphase, Phase.read] at hnext
      split_ifs at hnext
  | _ =>
      obtain ⟨length, dst, bytesRead, hnext⟩ := h.payload
      rw [hphase] at hnext
      cases hnext

theorem not_mayStore_close {result : Except IoError Unit} :
    ¬MayStore { c with phase := .closed result } addr := by
  intro h
  obtain ⟨length, dst, bytesRead, hphase⟩ := h.payload
  cases hphase

theorem MayStore.of_reply {failure : Option IoError} (h : (c.reply failure).MayStore addr) :
    c.MayStore addr := by
  obtain heq | ⟨result, heq⟩ | ⟨-, heq⟩ | ⟨error, -, heq⟩ := c.reply_cases failure <;> rw [heq] at h
  · exact h
  all_goals
    obtain ⟨length, dst, bytesRead, hphase⟩ := h.payload
    cases hphase

theorem MayStore.of_readFails {error : IoError} (h : (c.readFails error).MayStore addr) :
    c.MayStore addr := by
  obtain heq | ⟨result, heq⟩ := c.readFails_cases error <;> rw [heq] at h
  exacts [h, absurd h not_mayStore_close]

theorem MayStore.of_endOfStream (h : c.endOfStream.MayStore addr) : c.MayStore addr := by
  obtain heq | ⟨result, heq⟩ := c.endOfStream_cases <;> rw [heq] at h
  exacts [h, absurd h not_mayStore_close]

theorem MayStore.of_send {bytes : Bytes} (h : (c.send bytes).MayStore addr) : c.MayStore addr := by
  rw [Connection.send] at h
  split at h
  · rename_i hpeer
    obtain ⟨length, dst, bytesRead, i, hphase, hle, hlt, -, rfl⟩ := h
    exact ⟨length, dst, bytesRead, i, hphase, hle, hlt, .inl hpeer, rfl⟩
  · exact h

/-- A task that lets go of its stream or keeps it. -/
theorem MayStore.of_peer {peer : Peer} {replies : List UInt8}
    (h : MayStore { c with peer, replies } addr) (hpeer : peer ≠ .unknown) : c.MayStore addr := by
  obtain ⟨length, dst, bytesRead, i, hphase, hle, hlt, hcomes, rfl⟩ := h
  exact ⟨length, dst, bytesRead, i, hphase, hle, hlt, .inr (hcomes.resolve_left hpeer), rfl⟩

/-- A range that is resolved is registered. -/
theorem mayStore_lock {buffers : List RegisteredBuffer} (h : (c.lock buffers).MayStore addr) :
    c.MayStore addr ∨ IsRegistered buffers addr := by
  obtain heq | ⟨targetOffset, length, hphase, ⟨dst, hdst, heq⟩ | ⟨error, heq⟩⟩ :=
    c.lock_cases buffers <;> rw [heq] at h
  · exact .inl h
  · obtain ⟨i, -, hlt, -, rfl⟩ :=
      mayStore_readPayload (show _ = Phase.readPayload length dst 0 from rfl) h
    exact .inr (isRegistered_of_resolveDestination hdst hlt)
  · obtain ⟨length, dst, bytesRead, hnext⟩ := h.payload
    cases hnext

theorem Sound.not_mayStore_write (hsound : c.Sound) (hidle : c.peer = .idle) {task n : ℕ}
    {request : KvTransferRequest} : ¬(c.write task request n).MayStore addr := by
  intro h
  obtain ⟨length, dst, bytesRead, hphase⟩ := h.payload
  have hwaits := (hsound.idle hidle).1
  rw [show c.phase = _ from hphase] at hwaits
  exact hwaits

/-- The bytes of a read are stored to addresses that the payload is still to be stored to. -/
theorem mayStore_of_mem_read {n : ℕ} {byte : UInt8}
    (h : .stored addr byte ∈ (c.phase.read (c.incoming.take (min n c.phase.wants))).2) :
    c.MayStore addr := by
  cases hphase : c.phase with
  | payload length dst bytesRead =>
      rw [hphase] at h
      obtain ⟨i, hi, rfl⟩ := mem_storesAt h
      rw [List.length_take, Phase.wants] at hi
      refine ⟨length, dst, bytesRead, bytesRead + i, hphase, by omega, by omega,
        .inr (by omega), ?_⟩
      rw [UInt64.ofNat_add, UInt64.add_assoc]
  | magic | offsetBytes | lenBytes =>
      simp only [hphase, Phase.read] at h
      split_ifs at h
      all_goals cases h
  | _ =>
      rw [hphase] at h
      cases h

end Connection

namespace Network

/-- What a read of the socket stores. -/
def stores (s : Network) : Action → List Event
  | .read i n =>
      match s.connections[i]? with
      | some c => (c.phase.read (c.incoming.take (min n c.phase.wants))).2
      | none => []
  | _ => []

/-- A step stores to registered memory only. -/
def WritesRegistered (s : Network) (a : Action) : Prop :=
  ∀ addr byte, .stored addr byte ∈ s.stores a → IsRegistered s.registeredBuffers addr

/-- The memory that payloads are still to be stored to is registered. -/
def Keeps (s : Network) (buffers : List RegisteredBuffer) : Prop :=
  ∀ c ∈ s.connections, ∀ addr, c.MayStore addr → IsRegistered buffers addr

/-- A registration keeps the memory that payloads are still to be stored to. -/
def KeepsPending (s : Network) : Action → Prop
  | .registerMemoryBatch buffers => s.Keeps buffers
  | .unregisterMemoryBatch => s.Keeps []
  | _ => True

variable {s : Network} {buffers : List RegisteredBuffer}

theorem Keeps.onConnection (h : s.Keeps buffers) {i : ℕ} {f : Connection → Connection}
    (hf : ∀ c addr, s.connections[i]? = some c → (f c).MayStore addr →
      c.MayStore addr ∨ IsRegistered buffers addr) : (s.onConnection i f).Keeps buffers :=
  forall_mem_modify h fun c hc addr hstore =>
    (hf c addr hc hstore).elim (h c (List.mem_of_getElem? hc) addr) id

theorem Keeps.connect (h : s.Keeps buffers) (peer : Peer) :
    Keeps { s with connections := s.connections ++ [{ peer }] } buffers := by
  refine List.forall_mem_append.mpr ⟨h, List.forall_mem_singleton.mpr fun addr hstore => ?_⟩
  obtain ⟨length, dst, bytesRead, hphase⟩ := hstore.payload
  cases hphase

theorem Keeps.write (h : s.Keeps buffers) (hs : s.Sound) (t i n : ℕ) :
    (s.write t i n).Keeps buffers := by
  rw [Network.write]
  split
  · rename_i hc
    refine h.onConnection fun c addr hc' hstore => ?_
    obtain rfl := Option.some.inj (hc.symm.trans hc')
    have hsound := hs.connections _ (List.mem_of_getElem? hc)
    exact absurd hstore (hsound.not_mayStore_write rfl)
  · exact h

theorem Keeps.readReply (h : s.Keeps buffers) (t : ℕ) : (s.readReply t).Keeps buffers := by
  rw [Network.readReply]
  split
  · split
    · exact h
    · split_ifs <;> exact h.onConnection fun c addr _ hstore => .inl (hstore.of_peer nofun)
  · exact h

theorem Keeps.readReplyFails (h : s.Keeps buffers) (t : ℕ) :
    (s.readReplyFails t).Keeps buffers := by
  rw [Network.readReplyFails]
  split
  · exact h.onConnection fun c addr _ hstore => .inl (hstore.of_peer nofun)
  · exact h

theorem Keeps.connectFails (h : s.Keeps buffers) (t : ℕ) : (s.connectFails t).Keeps buffers := by
  rw [Network.connectFails]
  split <;> exact h

/-! A task does not change the registration. -/

theorem registeredBuffers_connectFails (t : ℕ) :
    (s.connectFails t).registeredBuffers = s.registeredBuffers := by
  rw [Network.connectFails]
  split <;> rfl

theorem registeredBuffers_write (t i n : ℕ) :
    (s.write t i n).registeredBuffers = s.registeredBuffers := by
  rw [Network.write]
  split <;> rfl

theorem registeredBuffers_readReply (t : ℕ) :
    (s.readReply t).registeredBuffers = s.registeredBuffers := by
  rw [Network.readReply]
  split
  · split
    · rfl
    · split_ifs <;> rfl
  · rfl

theorem registeredBuffers_readReplyFails (t : ℕ) :
    (s.readReplyFails t).registeredBuffers = s.registeredBuffers := by
  rw [Network.readReplyFails]
  split <;> rfl

/-- The memory that payloads are still to be stored to stays registered, if the registrations keep
it. -/
theorem Keeps.step (h : s.Keeps s.registeredBuffers) (hs : s.Sound) {a : Action}
    (ha : s.KeepsPending a) : (s.step a).Keeps (s.step a).registeredBuffers := by
  cases a with
  | registerMemoryBatch | unregisterMemoryBatch => exact ha
  | accept => exact h.connect .unknown
  | connect => exact h.connect .idle
  | send i bytes => exact h.onConnection fun c addr _ hstore => .inl hstore.of_send
  | read i n => exact h.onConnection fun c addr _ hstore => .inl hstore.of_read
  | readFails i error => exact h.onConnection fun c addr _ hstore => .inl hstore.of_readFails
  | endOfStream i => exact h.onConnection fun c addr _ hstore => .inl hstore.of_endOfStream
  | lock i => exact h.onConnection fun c addr _ hstore => Connection.mayStore_lock hstore
  | reply i failure => exact h.onConnection fun c addr _ hstore => .inl hstore.of_reply
  | submit request => exact h
  | connectFails t => exact (registeredBuffers_connectFails t).symm ▸ h.connectFails t
  | write t i n => exact (registeredBuffers_write t i n).symm ▸ h.write hs t i n
  | readReply t => exact (registeredBuffers_readReply t).symm ▸ h.readReply t
  | readReplyFails t => exact (registeredBuffers_readReplyFails t).symm ▸ h.readReplyFails t

/-- A step that stores, stores to memory that a payload is still to be stored to. -/
theorem Keeps.writesRegistered (h : s.Keeps s.registeredBuffers) (a : Action) :
    s.WritesRegistered a := by
  intro addr byte hmem
  cases a with
  | read i n =>
      simp only [stores] at hmem
      split at hmem
      · rename_i c hc
        exact h c (List.mem_of_getElem? hc) addr (Connection.mayStore_of_mem_read hmem)
      · cases hmem
  | _ => cases hmem

/-- A registration that drops memory that a payload is still to be stored to: the payload is stored
there all the same. -/
theorem exists_not_writesRegistered (h : ¬s.Keeps s.registeredBuffers) :
    ∃ i bytes n, ¬Along Network.step WritesRegistered s [.send i bytes, .read i n] := by
  simp only [Keeps, not_forall] at h
  obtain ⟨c, hmem, addr, ⟨length, dst, bytesRead, k, hphase, hle, hlt, hcomes, rfl⟩, hnot⟩ := h
  obtain ⟨i, hi⟩ := List.mem_iff_getElem?.mp hmem
  refine ⟨i, List.replicate (length.toNat - bytesRead) 0, k + 1 - bytesRead, fun hrun => hnot ?_⟩
  obtain ⟨-, hwrites, -⟩ := hrun
  -- the connection after the peer has sent the rest of the payload
  let c' := c.send (List.replicate (length.toNat - bytesRead) 0)
  have hi' : (s.step (.send i (List.replicate (length.toNat - bytesRead) 0))).connections[i]? =
      some c' := by
    change (s.connections.modify i _)[i]? = _
    rw [List.getElem?_modify_eq, hi]
    rfl
  have hphase' : c'.phase = .payload length dst bytesRead := by
    simp only [c', Connection.send]
    split <;> exact hphase
  have hlength : k - bytesRead < c'.incoming.length := by
    simp only [c', Connection.send]
    split
    · rw [List.length_append, List.length_replicate]
      omega
    · rename_i hpeer
      have := hcomes.resolve_left hpeer
      omega
  have hread : k - bytesRead <
      (c'.incoming.take (min (k + 1 - bytesRead) (length.toNat - bytesRead))).length := by
    rw [List.length_take]
    omega
  obtain ⟨byte, hbyte⟩ := exists_mem_storesAt (dst + .ofNat bytesRead) hread
  have haddr : dst + .ofNat bytesRead + .ofNat (k - bytesRead) = dst + .ofNat k := by
    rw [UInt64.add_assoc, ← UInt64.ofNat_add, Nat.add_sub_cancel' hle]
  rw [haddr] at hbyte
  refine hwrites _ byte ?_
  simp only [stores, hi', hphase', Phase.wants, Phase.read]
  exact hbyte

end Network

open Network

/-- A call of `register_memory_batch` or `unregister_memory_batch`. -/
def Action.Registers : Action → Prop
  | .registerMemoryBatch _ | .unregisterMemoryBatch => True
  | _ => False

theorem keeps_init : Network.Keeps {} (Network.registeredBuffers {}) :=
  fun _ hc => absurd hc List.not_mem_nil

theorem writesRegistered_run {as : List Action} (h : Along Network.step KeepsPending {} as) :
    Along Network.step WritesRegistered {} as :=
  (h.and_invariant (I := fun s : Network => s.Sound ∧ s.Keeps s.registeredBuffers)
    (fun _ a ha hs => ⟨hs.1.step a, hs.2.step hs.1 ha⟩) ⟨Sound.init, keeps_init⟩).imp
      fun _ a hs => hs.2.2.writesRegistered a

theorem keepsPending_of_not_registers {a : Action} (h : ¬a.Registers) (s : Network) :
    s.KeepsPending a := by
  cases a with
  | registerMemoryBatch | unregisterMemoryBatch => exact absurd trivial h
  | _ => trivial

/-- **What the receiver writes.** In every run a frame is acknowledged only after its payload has
been stored at the address that it was resolved to, and the payload of a completed task has been
stored. A run and its beginnings, gone on with in any way without another registration, write to
registered memory only exactly if every registration of the run keeps the memory that payloads are
still to be stored to. -/
theorem tcp_receiver_safe_iff (as : List Action) :
    (∀ c ∈ (as.foldl Network.step {}).connections, Acknowledged c.history) ∧
    (∀ task ∈ (as.foldl Network.step {}).tasks, ∀ n, task.state = .done ⟨.completed, n⟩ →
      (as.foldl Network.step {}).HasDelivered task.request) ∧
    ((∀ before, before <+: as → ∀ more : List Action, (∀ a ∈ more, ¬a.Registers) →
        Along Network.step WritesRegistered {} (before ++ more)) ↔
      Along Network.step KeepsPending {} as) := by
  have hsound := sound_run as
  refine ⟨fun c hc => (hsound.connections c hc).acknowledged, hsound.completed, ?_, ?_⟩
  · intro hwrites
    by_contra hnot
    obtain ⟨before, a, after, rfl, -, ha⟩ := exists_first hnot
    -- the registration drops memory that is still to be written
    have hdrops : ¬((before ++ [a]).foldl Network.step {}).Keeps
        ((before ++ [a]).foldl Network.step {}).registeredBuffers := by
      rw [List.foldl_append]
      cases a with
      | registerMemoryBatch | unregisterMemoryBatch => exact ha
      | _ => exact absurd trivial ha
    obtain ⟨i, bytes, n, hbad⟩ := exists_not_writesRegistered hdrops
    have hrun := hwrites (before ++ [a]) ⟨after, by simp⟩ [.send i bytes, .read i n] (by
      simp [Action.Registers])
    exact hbad ((along_append _ _ _).mp hrun).2
  · rintro hkeeps before ⟨after, rfl⟩ more hmore
    refine writesRegistered_run ((along_append _ _ _).mpr ⟨((along_append _ _ _).mp hkeeps).1, ?_⟩)
    exact along_of_forall_mem (fun a ha s => keepsPending_of_not_registers (hmore a ha) s) _

/-- An unknown peer sends a frame of one byte to the start of a buffer, and the buffer is
unregistered before the byte is read. -/
def lateWrite : List Action := [
  .registerMemoryBatch [⟨0x1000, 16, by decide⟩],
  .accept,
  .send 0 (header 0 1 ++ [7]),
  .read 0 8, .read 0 8, .read 0 8, .lock 0,
  .unregisterMemoryBatch]

/-- The byte is stored to memory that is not registered. -/
theorem not_writesRegistered_lateWrite :
    ¬Along Network.step WritesRegistered {} (lateWrite ++ [.read 0 1]) := by
  intro h
  obtain ⟨-, hwrites, -⟩ := (along_append _ _ _).mp h
  obtain ⟨buffer, hmem, -⟩ := hwrites 0x1000 7 (by decide)
  exact absurd hmem List.not_mem_nil

end SglangRs.Tcp
