import HreqH1.Reading.Streams
import HreqH1.Server.Flush

/-!
# Server — the bytes a `RecvStream` holds

What has arrived of a request's body is held for its user in the order it came.  The codec only adds
chunks, none of them empty (`Fed`), and a read takes from the front.  A read drives the codec first:
where that drive is ready, some of what is held is returned, and otherwise nothing is, and all of it
stays held (`read_held`).
-/

namespace HreqH1.Server
open PollM Runs RecvStream

/-- The codec feeds the `RecvStream` only while it has the sender of the body. -/
structure Feeds (recv : RecvStream) (c : Conn) : Prop where
  holds : recv.Holds c.body
  sender : ∀ h, c.state = .sendRes h → h.txBody = true → c.body.senders ≠ 0

/-- From `c` to `c'` chunks have been added, at most. -/
def Fed (recv : RecvStream) (c c' : Conn) : Prop :=
  Feeds recv c' ∧ c.body.queue <+: c'.body.queue

variable {recv : RecvStream} {c c' c₀ : Conn}

/-- The body's channel has not changed but for its wakers. -/
theorem Fed.same (h : Fed recv c₀ c) (hq : c'.body.queue = c.body.queue)
    (hs : c'.body.senders = c.body.senders)
    (ht : ∀ b', c'.state = .sendRes b' → b'.txBody = true →
      ∃ b, c.state = .sendRes b ∧ b.txBody = true) : Fed recv c₀ c' := by
  obtain ⟨⟨⟨hr, hc, he⟩, hsend⟩, hp⟩ := h
  refine ⟨⟨⟨hr, hq ▸ hc, fun hend => ?_⟩, fun b' hs' htx => ?_⟩, hq ▸ hp⟩
  · rw [hq, hs]
    exact he hend
  · obtain ⟨b, hb, htx⟩ := ht b' hs' htx
    rw [hs]
    exact hsend b hb htx

/-- Neither the state nor the body's channel has changed. -/
theorem Fed.of_eq (h : Fed recv c₀ c) (hb : c'.body = c.body) (hs : c'.state = c.state) :
    Fed recv c₀ c' :=
  h.same (by rw [hb]) (by rw [hb]) fun b hs' htx => ⟨b, hs ▸ hs', htx⟩

/-- The sender of the body is dropped. -/
theorem Fed.sealed (h : Fed recv c₀ c) (hb : c'.body = c.body.dropSender)
    (ht : ∀ b, c'.state = .sendRes b → b.txBody = false) : Fed recv c₀ c' := by
  obtain ⟨⟨⟨hr, hc, he⟩, -⟩, hp⟩ := h
  refine ⟨⟨⟨hr, ?_, fun hend => ?_⟩, fun b hs htx => ?_⟩, ?_⟩
  · rw [hb, Chan.queue_dropSender]
    exact hc
  · obtain ⟨hnone, hq, h0⟩ := he hend
    rw [hb, Chan.queue_dropSender, Chan.senders_dropSender, h0]
    exact ⟨hnone, hq, rfl⟩
  · rw [ht b hs] at htx
    cases htx
  · rw [hb, Chan.queue_dropSender]
    exact hp

theorem senders_deliver (bs : Bytes) (body : Chan (Except IoError Bytes)) :
    (deliver bs body).senders = body.senders := by
  rw [deliver]
  split
  · rfl
  · exact Chan.senders_offer _

theorem queue_deliver (bs : Bytes) (body : Chan (Except IoError Bytes)) :
    (deliver bs body).queue = body.queue ∨
      bs ≠ [] ∧ (deliver bs body).queue = body.queue ++ [.ok bs] := by
  rw [deliver]
  split
  · exact .inl rfl
  · next hne =>
    rw [Chan.offer]
    split
    · exact .inl rfl
    · cases he : body.ended with
      | true => exact .inl (by rw [Chan.enqueue, he]; rfl)
      | false => exact .inr ⟨fun h => hne (by rw [h]; rfl), Chan.queue_enqueue _ he⟩

/-- A chunk is delivered, of a body that has not ended. -/
theorem Fed.delivered {b : Bidirect} {bs : Bytes} (h : Fed recv c₀ c)
    (hs : c.state = .sendRes b) (htx : b.txBody = true) (hb : c'.body = deliver bs c.body) :
    Fed recv c₀ c' := by
  obtain ⟨⟨⟨hr, hc, he⟩, hsend⟩, hp⟩ := h
  have h0 := hsend b hs htx
  refine ⟨⟨⟨hr, ?_, fun hend => absurd (he hend).2.2 h0⟩, fun _ _ _ => ?_⟩, ?_⟩
  · rw [hb]
    rcases queue_deliver bs c.body with hq | ⟨hne, hq⟩
    · rw [hq]
      exact hc
    · rw [hq]
      intro item hi
      rcases List.mem_append.mp hi with hi | hi
      · exact hc item hi
      · exact ⟨bs, List.mem_singleton.mp hi, hne⟩
  · rw [hb, senders_deliver]
    exact h0
  · rw [hb]
    rcases queue_deliver bs c.body with hq | ⟨-, hq⟩
    · rw [hq]
      exact hp
    · rw [hq]
      exact hp.trans (List.prefix_append _ _)

/-- A chunk is taken, of a body that has not ended. -/
theorem Fed.passedOn {b : Bidirect} (h : Fed recv c₀ c) (hs : c.state = .sendRes b)
    (htx : b.txBody = true) (limit : LimitRead) (bs : Bytes) :
    Fed recv c₀ (passedOn b limit bs c) := by
  have hd : Fed recv c₀ { c with body := deliver bs c.body } := h.delivered hs htx rfl
  rw [Server.passedOn]
  cases hc : limit.isComplete with
  | false => exact hd.same rfl rfl fun _ _ _ => ⟨b, hs, htx⟩
  | true =>
      refine hd.sealed rfl fun b' hs' => ?_
      cases hs'
      rfl

variable [Crates]

/-- Only an `accept` replaces the channel of the body. -/
theorem Move.fed (h : Move false c c') (hf : Fed recv c₀ c) : Fed recv c₀ c' := by
  cases h with
  | write hw ht hi => exact hf.of_eq rfl rfl
  | read hr => exact hf.of_eq rfl rfl
  | wake hq => exact hf.of_eq rfl rfl
  | request hs hh hp hwant => cases hwant
  | hangUp hs hr why => exact hf.same rfl rfl fun b hs' => (by cases hs')
  | @response b res fin rx io head hs hrx ht hh hw hio hi =>
      refine hf.same rfl rfl fun b' hs' htx => ⟨b, hs, ?_⟩
      cases hs'
      exact htx
  | chunk hs hb ho hn hl hr hc =>
      refine Fed.passedOn ?_ ?_ hb _ _
      · exact hf.of_eq rfl rfl
      · exact hs
  | entire hs hb ho he hl hne hr hu =>
      refine Fed.passedOn ?_ ?_ hb _ _
      · exact hf.of_eq rfl rfl
      · exact hs
  | responded hs hrx hb hh hn => exact hf.same rfl rfl fun b hs' => absurd hs' (after_ne_sendRes _ b)
  | toBody hs hrx hb hh hn => exact hf.same rfl rfl fun b hs' => (by cases hs')
  | item hs ht hw hio => exact hf.of_eq rfl rfl
  | lastItem hs ht hw hio hfl => exact hf.same rfl rfl fun b hs' => absurd hs' (after_ne_sendRes _ b)

theorem Stop.fed {k : Halt IoError} (h : Stop k c c') (hf : Fed recv c₀ c) : Fed recv c₀ c' := by
  cases h with
  | writePending hw ht hp hlt => exact hf.of_eq rfl rfl
  | writeFailed hw ht why => exact hf.of_eq rfl rfl
  | grow hs hr hg => exact hf.of_eq rfl rfl
  | headPending hs hr hb hp => exact hf.of_eq rfl rfl
  | headMissing hs hr why hk => exact hf.of_eq rfl rfl
  | headInvalid hs hh hp => exact hf.of_eq rfl rfl
  | awaitResponse hs hrx hq hn => exact hf
  | noResponse hs hrx hr hq hn => exact hf.of_eq rfl rfl
  | @responseCut k c b res fin rx io front hs hrx ht hw hio hk why =>
      refine hf.same rfl rfl fun b' hs' htx => ⟨b, hs, ?_⟩
      cases hs'
      exact htx
  | bodyFull hs hb hq hr ho =>
      exact hf.same hq.queue hq.senders fun b hs htx => ⟨b, hs, htx⟩
  | fillPending hs hb ho hr hbl hp => exact hf.of_eq rfl rfl
  | fillFailed hs hb hr hu => exact hf.of_eq rfl rfl
  | limitPending hs hb ho hn hl hr hw =>
      exact hf.same rfl rfl fun _ _ _ => ⟨_, hs, hb⟩
  | limitFailed hs hb hn hl hr hk why =>
      exact hf.same rfl rfl fun _ _ _ => ⟨_, hs, hb⟩
  | entireOverflow hs hb hl hr => exact hf.of_eq rfl rfl
  | noHolder hs hrx hh => exact hf
  | awaitItem hs hr hq hn => exact hf.of_eq rfl rfl
  | noItem hs hr hq hn => exact hf.of_eq rfl rfl
  | itemPending hs ht hw hio hp hlt hfn => exact hf.of_eq rfl rfl
  | itemFailed hs ht hw hio why => exact hf.of_eq rfl rfl

omit [Crates] in
/-- The shutdown leaves what is queued. -/
theorem Fed.shut (hf : Fed recv c₀ c) : Fed recv c₀ (shut c) := by
  rw [Server.shut, Conn.dropState]
  cases hs : c.state with
  | recvReq => exact hf.same rfl rfl fun b hs' => (by cases hs')
  | closed => exact hf.same rfl rfl fun b hs' => (by cases hs')
  | sendBody h => exact hf.same rfl rfl fun b hs' => (by cases hs')
  | sendRes h =>
      have hbody : (if h.rxRes then c.dropRes else c).body = c.body := by split <;> rfl
      by_cases htx : h.txBody = true
      · refine hf.sealed ?_ fun b hs' => (by cases hs')
        dsimp only
        rw [if_pos htx, hbody]
      · refine hf.same ?_ ?_ fun b hs' => (by cases hs')
        · dsimp only
          rw [if_neg htx, hbody]
        · dsimp only
          rw [if_neg htx, hbody]

variable [VecAlloc]

/-- A poll that wants no request adds chunks, at most. -/
theorem Polls.fed {r : Outcome IoError (Option Package)} (h : Polls false c r c')
    (hc : c.io.Sound) (hf : Feeds recv c) : Fed recv c c' :=
  (h.post hc).keeps (I := Fed recv c) (fun _ _ hm => hm.fed) (fun _ _ _ hs => hs.fed)
    (fun _ hf => hf.shut) ⟨hf, List.prefix_refl _⟩

/-- The `RecvStream` that is held, if one is, is fed. -/
def World.Fed (w : World) : Prop := ∀ recv, w.recv = some recv → Feeds recv w.conn

omit [Crates] [VecAlloc] in
/-- The channel of a request that has just been received. -/
theorem feeds_received (req : Request) (c₁ : Conn) (h : c = received req c₁) :
    Feeds (.new (LimitRead.fromHeaders req.headers false).isNoBody true) c := by
  subst h
  cases hn : (LimitRead.fromHeaders req.headers false).isNoBody with
  | true =>
      refine ⟨⟨by simp [RecvStream.new], ?_, fun _ => ?_⟩, ?_⟩
      · simp [received, hn, Chan.new]
      · simp [received, hn, RecvStream.new, Chan.new]
      · rintro h ⟨⟩ htx
        simp [Bidirect.new, hn] at htx
  | false =>
      refine ⟨⟨by simp [RecvStream.new], ?_, by simp [RecvStream.new]⟩, fun _ _ _ => ?_⟩
      · simp [received, hn, Chan.new]
      · simp [received, hn, Chan.new]

theorem fed_step {w : World} (hio : w.conn.io.Sound) (hw : w.Fed) (a : Action) :
    (step a w).2.Fed := by
  have ha := step_acts a w
  generalize (step a w).1 = o at ha
  generalize (step a w).2 = w' at ha ⊢
  cases ha with
  | idle => exact hw
  | held hh => exact hw
  | @accept cx req recv expectsNoBody c hh hp =>
      obtain ⟨-, -, ⟨c₁, heq⟩, -, rfl⟩ := hp.post hio
      rintro recv ⟨⟩
      exact feeds_received req c₁ heq
  | noAccept hh hp hr =>
      intro recv hrecv
      rw [World.held, hrecv] at hh
      cases hh
  | close hp => exact fun recv hr => (hp.fed hio (hw recv hr)).1
  | read hr hp hb hd =>
      have hf := (hp.fed hio (hw _ hr)).1
      obtain ⟨hholds, hs, -⟩ := wp_elim (pollBodyData_spec hf.holds) hb
      rintro recv ⟨⟩
      exact ⟨hholds, fun h hst htx => hs ▸ hf.sender h hst htx⟩
  | noRead hr hp ho hd => exact fun recv hr => (hp.fed hio (hw recv hr)).1
  | refused hr hc => exact fun recv hr => ⟨(hw recv hr).holds, (hw recv hr).sender⟩
  | respond hr hc hl => exact fun recv hr => ⟨(hw recv hr).holds, (hw recv hr).sender⟩
  | pushData hs hp => exact fun recv hr => ⟨(hw recv hr).holds, (hw recv hr).sender⟩
  | drive hp hd => exact fun recv hr => (hp.fed hio (hw recv hr)).1
  | dropRecv hr => rintro recv ⟨⟩
  | dropRespond hr => exact fun recv hr => ⟨(hw recv hr).holds, (hw recv hr).sender⟩
  | dropSend hs => exact fun recv hr => ⟨(hw recv hr).holds, (hw recv hr).sender⟩

theorem fed_after (inner : Transport) (as : List Action) :
    (Runs.after step as (handshake inner)).Fed :=
  reachable_keeps (fun _ a hw hf => fed_step hw.sound hf a) (fun _ hr => by cases hr) as

/-! ### Reads -/

section Reads
variable {w : World} {cx : Waker} {n : Nat}

/-- A read of something that is held, by what its drive of the codec comes to: where that is ready, the
first of the bytes are returned and the others stay held; otherwise all of them stay. -/
structure ReadsHeld (recv : RecvStream) (n : Nat) (w : World) (o : Obs) (w' : World)
    (d : Outcome IoError Unit) : Prop where
  ready : d = .ready () → ∃ bs recv', o = .read (.ready bs) ∧ w'.recv = some recv' ∧ bs ≠ [] ∧
    bs.length ≤ n ∧ bs <+: recv.held w.conn.body ∧
    recv.held w.conn.body <+: bs ++ recv'.held w'.conn.body
  withheld : d ≠ .ready () → o = .read (d.map fun _ => []) ∧ w'.recv = some recv ∧
    recv.held w.conn.body <+: recv.held w'.conn.body
  io : d = .pending → w'.conn.io.pendingRx = true ∨ w'.conn.io.pendingTx = true

theorem read_ready (hx : pollDriveExternal cx w.conn = (.ready (), c)) :
    read cx n recv w = (.read (pollBodyData cx n (recv, c.body)).1,
      { w with
        conn := { c with body := (pollBodyData cx n (recv, c.body)).2.2 }
        recv := some (pollBodyData cx n (recv, c.body)).2.1 }) := by
  rw [read, hx]

theorem read_not_ready {d : Outcome IoError Unit} (hx : pollDriveExternal cx w.conn = (d, c))
    (hd : d ≠ .ready ()) :
    read cx n recv w = (.read (d.map fun _ => []), { w with conn := c }) := by
  rw [read, hx]
  cases d with
  | ready u => exact absurd rfl hd
  | pending => rfl
  | fail e => rfl
  | panic m => rfl
  | diverge => rfl

omit [VecAlloc] [Crates] in
theorem driven_pending {io : BufIo} {r : Outcome IoError (Option Package)}
    (h : driven io r = .pending) : r = .pending ∧ (io.pendingRx = true ∨ io.pendingTx = true) := by
  cases r with
  | pending =>
      rw [driven] at h
      split at h
      · next hp => exact ⟨rfl, (Bool.or_eq_true _ _).mp hp⟩
      · cases h
  | ready package => cases package <;> cases h
  | fail e => cases h
  | panic m => cases h
  | diverge => cases h

theorem reads_held (hio : w.conn.io.Sound) (hf : Feeds recv w.conn) (hr : w.recv = some recv)
    (hs : recv.ready.isSome = true ∨ w.conn.body.queue ≠ []) (hn : n ≠ 0) :
    ReadsHeld recv n w (read cx n recv w).1 (read cx n recv w).2
      (pollDriveExternal cx w.conn).1 := by
  rcases hx : pollDriveExternal cx w.conn with ⟨d, c⟩
  obtain ⟨r, hp, hd⟩ := pollDriveExternal_polls hx
  obtain ⟨hf', hq⟩ := hp.fed hio hf
  have hkeep : recv.held w.conn.body <+: recv.held c.body := held_prefix hq
  by_cases hd' : d = .ready ()
  · subst hd'
    rw [read_ready hx]
    rcases hb : pollBodyData cx n (recv, c.body) with ⟨o, recv', body⟩
    obtain ⟨-, -, hpost⟩ := wp_elim (pollBodyData_spec hf'.holds) hb
    have hne := hf.holds.front_ne hs
    have hfront := front_eq hq hs
    refine ⟨fun _ => ?_, fun h => absurd rfl h, fun h => (by cases h)⟩
    cases o with
    | ready bs =>
        obtain ⟨rfl, hheld⟩ := hpost
        rw [hfront] at hheld
        refine ⟨_, recv', rfl, rfl, ?_, ?_, ?_, ?_⟩
        · rw [hfront]
          exact fun hnil => (List.take_eq_nil_iff.mp hnil).elim hn hne
        · rw [List.length_take]
          exact Nat.min_le_left _ _
        · rw [hfront]
          exact (List.take_prefix _ _).trans front_prefix_held
        · rw [hfront, hheld]
          exact hkeep
    | pending => exact absurd (hfront.symm.trans hpost) hne
    | fail e => exact hpost.elim
    | panic m => exact hpost.elim
    | diverge => exact hpost.elim
  · rw [read_not_ready hx hd']
    exact ⟨fun h => absurd h hd', fun _ => ⟨rfl, hr, hkeep⟩,
      fun h => (driven_pending (hd.symm.trans h)).2⟩

/-- **The bytes a `RecvStream` holds**, in any reachable state where it holds some: a read returns the
first of them where its drive of the codec is ready, and otherwise what the drive does, `Pending` for the
transport only; then it has lost none of them. -/
theorem read_held (inner : Transport) (as : List Action) (cx : Waker) (n : Nat) (recv : RecvStream) :
    let w := Runs.after step as (handshake inner)
    w.recv = some recv → recv.ready.isSome = true ∨ w.conn.body.queue ≠ [] →
      ReadsHeld recv (n + 1) w (step (.read cx n) w).1 (step (.read cx n) w).2
        (pollDriveExternal cx w.conn).1 := by
  intro w hr hs
  have hstep : step (.read cx n) w = read cx (n + 1) recv w := by rw [step, hr]
  rw [hstep]
  exact reads_held (sane_after inner as).sound (fed_after inner as recv hr) hr hs (Nat.succ_ne_zero n)

/-- Two bytes of what has arrived are read. -/
def readTwo : List Action := [.accept 0, .read 0 1]

omit [VecAlloc] [Crates] in
theorem readTwo_held :
    letI := VecAlloc.amortized
    letI := postCrates
    let w := Runs.after step readTwo (handshake halfBody)
    w.recv.map (·.readyBytes) = some (ascii "llo") ∧
      (run step readTwo (handshake halfBody)).1.getLast? = some (.read (.ready (ascii "he"))) ∧
      (step (.read 0 1) w).1 = .read .pending := by decide +kernel

omit [VecAlloc] [Crates] in
/-- **What is held is withheld** while the transport is silent. -/
theorem read_withholds :
    letI := VecAlloc.amortized
    letI := postCrates
    let w := Runs.after step readTwo (handshake halfBody)
    (run step readTwo (handshake halfBody)).1.getLast? = some (.read (.ready (ascii "he"))) ∧
      w.recv.map (·.readyBytes) = some (ascii "llo") ∧ (step (.read 0 1) w).1 = .read .pending :=
  ⟨readTwo_held.2.1, readTwo_held.1, readTwo_held.2.2⟩

/-- A peer that has sent all of the body. -/
def wholeBody : Transport := ⟨[.data (postHead ++ ascii "helloworld")], false, [], [], 0⟩

/-- The `RecvStream` after two bytes of that. -/
def twoRead : RecvStream := ⟨some ⟨ascii "helloworld", 2, by decide⟩, false, true⟩

omit [VecAlloc] [Crates] in
theorem wholeBody_held :
    letI := VecAlloc.amortized
    letI := postCrates
    (Runs.after step readTwo (handshake wholeBody)).recv = some twoRead := by decide +kernel

omit [VecAlloc] [Crates] in
theorem wholeBody_read_held :
    letI := VecAlloc.amortized
    letI := postCrates
    let w := Runs.after step readTwo (handshake wholeBody)
    ReadsHeld twoRead 2 w (step (.read 0 1) w).1 (step (.read 0 1) w).2
      (pollDriveExternal 0 w.conn).1 :=
  @read_held postCrates VecAlloc.amortized wholeBody readTwo 0 1 twoRead wholeBody_held (.inl rfl)

end Reads

end HreqH1.Server
