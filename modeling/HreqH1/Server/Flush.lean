import HreqH1.Server.Wiring

/-!
# Server — the flush of a response's body

With the last item of a body `do_send` drives the codec until the channel of the body is empty.  Each
time the drive is ready the codec has either taken the item, or it is `Stuck`: the response has been
sent, and the codec is at the request's body, which its user has not taken from its channel
(`flushRound_cases`).  A drive of a stuck codec is ready and changes nothing (`Stuck.drive`), so there
the loop goes round for ever; everywhere else it ends (`flush_iff`).
-/

namespace HreqH1.Server
open PollM BufIo Runs

/-- The response has been sent, and the body of the request is still arriving. -/
def State.answeredEarly : State → Bool
  | .sendRes h => !h.rxRes && h.txBody
  | _ => false

/-- There is an item to take, the codec has nothing left to write, and its next chunk of the request's
body has no room. -/
structure Stuck (c : Conn) : Prop where
  waiting : c.resBody.isEmpty = false
  state : c.state.answeredEarly = true
  alive : c.body.receivers ≠ 0
  full : ¬ c.body.Open
  idle : c.io.canPollWrite = true
  pendingRx : c.io.pendingRx = false

instance : DecidablePred Stuck := fun c =>
  decidable_of_iff (c.resBody.isEmpty = false ∧ c.state.answeredEarly = true ∧
    c.body.receivers ≠ 0 ∧ ¬ c.body.Open ∧ c.io.canPollWrite = true ∧ c.io.pendingRx = false)
    ⟨fun h => ⟨h.1, h.2.1, h.2.2.1, h.2.2.2.1, h.2.2.2.2.1, h.2.2.2.2.2⟩,
      fun h => ⟨h.1, h.2, h.3, h.4, h.5, h.6⟩⟩

/-- Only wakers have come and gone. -/
structure Unmoved (c c' : Conn) : Prop where
  io : c'.io = c.io
  state : c'.state = c.state
  body : c.body.Quiet c'.body
  res : c.res.Quiet c'.res
  resBody : c.resBody.Quiet c'.resBody
  log : c'.log = c.log
  entire : c'.entire = c.entire
  complete : c'.complete = c.complete

variable [VecAlloc] [Crates]

/-- An iteration of the loop of `do_send` that goes on: its condition, and a drive that is ready. -/
def flushRound (cx : Waker) (c : Conn) : Option Conn :=
  if c.resBody.isEmpty then none
  else
    match pollDriveExternal cx c with
    | (.ready _, c') => some c'
    | _ => none

/-- Where the loop of `do_send` is after `n` iterations in one poll, if it gets there. -/
def flushN (cx : Waker) : Nat → Conn → Option Conn
  | 0, c => some c
  | n + 1, c => (flushRound cx c).bind (flushN cx n)

/-- An iteration that goes on has changed more than the wakers. -/
def Progresses (cx : Waker) (c : Conn) : Prop := ∀ c', flushRound cx c = some c' → ¬ Unmoved c c'

/-- The loop goes round for ever in one poll. -/
def Spins (cx : Waker) (c : Conn) : Prop := ∀ n, (flushN cx n c).isSome = true

variable {responds sends : Bool} {c c' : Conn} {cx : Waker}

omit [VecAlloc] [Crates] in
theorem Unmoved.symm (h : Unmoved c c') : Unmoved c' c where
  io := h.io.symm
  state := h.state.symm
  body := h.body.symm
  res := h.res.symm
  resBody := h.resBody.symm
  log := h.log.symm
  entire := h.entire.symm
  complete := h.complete.symm

omit [VecAlloc] [Crates] in
theorem isEmpty_iff_of_single {α : Type} {c : Chan α} (h : c.Single) :
    c.isEmpty = true ↔ c.queue = [] := by
  rw [Chan.isEmpty, Chan.len, beq_iff_eq]
  split
  · next h0 => exact iff_of_true rfl (h.gone h0)
  · exact List.length_eq_zero_iff

omit [VecAlloc] [Crates] in
theorem Stuck.of_unmoved (h : Stuck c) (hu : Unmoved c c') : Stuck c' where
  waiting := by
    rw [Chan.isEmpty, Chan.len, hu.resBody.receivers, hu.resBody.queue]
    exact h.waiting
  state := hu.state ▸ h.state
  alive := hu.body.receivers ▸ h.alive
  full := fun ho => h.full (by
    rw [Chan.Open, hu.body.receivers, hu.body.ended, hu.body.queue, hu.body.bound] at ho
    exact ho)
  idle := hu.io ▸ h.idle
  pendingRx := hu.io ▸ h.pendingRx

omit [VecAlloc] [Crates] in
theorem State.answeredEarly_iff {s : State} :
    s.answeredEarly = true ↔ ∃ h, s = .sendRes h ∧ h.rxRes = false ∧ h.txBody = true := by
  cases s with
  | sendRes h => simp [answeredEarly]
  | recvReq => simp [answeredEarly]
  | sendBody h => simp [answeredEarly]
  | closed => simp [answeredEarly]

/-- The codec registers for the channel of the request's body, and that is all. -/
theorem Stuck.pollServer (h : Stuck c) :
    Server.pollServer cx false false c = (.pending, { c with body := c.body.register cx }) := by
  obtain ⟨b, hs, hrx, htx⟩ := State.answeredEarly_iff.mp h.state
  have hfin : pollIo pollFinishPendingWrite c = (.ready (), c) := by
    rw [pollIo, run_zoom, pollFinishPendingWrite_idle h.idle]
  have hfull : (onConn (pollBody (Chan.pollReady cx true)) : PollM IoError (Bidirect × Conn) Bool)
      (b, c) = (.pending, (b, { c with body := c.body.register cx })) := by
    rw [onConn, run_zoom, pollBody, run_zoom, Chan.pollReady_full h.alive h.full]
    rfl
  have hread : pollReadBody cx (b, c) = (.pending, (b, { c with body := c.body.register cx })) := by
    have hassert : (assert true unwrapNone : PollM IoError (Bidirect × Conn) Unit) (b, c) =
        (.ready (), (b, c)) := rfl
    rw [pollReadBody, run_get_bind, htx, run_bind_ready hassert]
    exact run_bind_pending hfull
  have hround : bidirectRound cx false () (b, c) =
      (.pending, (b, { c with body := c.body.register cx })) := by
    rw [bidirectRound, run_get_bind, hrx, htx]
    have hresp : pollRespond cx false (b, c) = (.ready false, (b, c)) := by
      rw [pollRespond, run_get_bind, hrx]
      rfl
    show (pollRespond cx false >>= _) (b, c) = _
    rw [run_bind_ready hresp, run_get_bind]
    show (PollM.get >>= _) (b, c) = _
    rw [run_get_bind, htx]
    exact run_bind_pending hread
  have hbi : pollBidirect cx false (b, c) =
      (.pending, (b, { c with body := c.body.register cx })) := by
    rw [pollBidirect]
    refine run_bind_pending ?_
    rw [loop, loopN]
    exact run_bind_pending hround
  have hdrive : driveRound cx false false () c =
      (.pending, { c with body := c.body.register cx }) := by
    rw [driveRound, run_bind_ready hfin, run_get_bind, hs]
    refine run_bind_pending ?_
    rw [run_zoom, hbi, hs]
  rw [Server.pollServer, drive, loop, loopN, PollM.bind, hdrive]

/-- **A drive of a stuck codec is ready, and does nothing.** -/
theorem Stuck.drive (h : Stuck c) :
    pollDriveExternal cx c = (.ready (), { c with body := c.body.register cx }) := by
  rw [pollDriveExternal_eq, h.pollServer, driven, if_neg]
  have htx := (canPollWrite_iff.mp h.idle).2.2
  simp [h.pendingRx, htx]

omit [VecAlloc] [Crates] in
theorem unmoved_register : Unmoved c { c with body := c.body.register cx } :=
  ⟨rfl, rfl, Chan.quiet_register true, .refl _, .refl _, rfl, rfl, rfl⟩

theorem Stuck.flushRound (h : Stuck c) :
    Server.flushRound cx c = some { c with body := c.body.register cx } := by
  rw [Server.flushRound, h.waiting, h.drive]
  rfl

theorem Stuck.not_progresses (h : Stuck c) : ¬ Progresses cx c := fun hp =>
  hp _ h.flushRound unmoved_register

/-- A stuck codec stays so for ever. -/
theorem Stuck.spins (h : Stuck c) (n : Nat) : ∃ c', flushN cx n c = some c' ∧ Stuck c' := by
  induction n generalizing c with
  | zero => exact ⟨c, rfl, h⟩
  | succ n ih =>
      rw [flushN, h.flushRound]
      exact ih (h.of_unmoved unmoved_register)

omit [VecAlloc] in
/-- Of what the codec waits for, only room for a chunk of the request's body sets no flag and leaves an
item waiting. -/
theorem Stop.stuck (h : Stop .pending c c') (hw : Wired responds sends c') (hf : Flowing c')
    (hrx : c'.io.pendingRx = false) (htx : c'.io.pendingTx = false)
    (hne : c'.resBody.isEmpty = false) : Stuck c' := by
  have hq : c'.resBody.queue ≠ [] := fun hnil => by
    rw [(isEmpty_iff_of_single hw.resBody).mpr hnil] at hne
    cases hne
  have hl := hw.linked (.inl hq)
  -- A response is awaited only where none has been sent.
  have hsent : ∀ h, c'.state = .sendRes h → c'.res.senders ≠ 0 → h.rxRes = false := by
    intro h hs hn
    by_contra hrx'
    rw [Linked, hs] at hl
    exact hn (hl (Bool.not_eq_false _ ▸ hrx')).1
  cases h with
  | @bodyFull c h body hs hb hqu hr ho ha =>
      have hrx' : h.rxRes = false := by
        by_contra hrx'
        rw [Bool.not_eq_false] at hrx'
        exact absurd (hsent h hs (ha hrx').2) (by rw [hrx']; simp)
      refine ⟨hne, State.answeredEarly_iff.mpr ⟨h, hs, hrx', hb⟩, hqu.receivers ▸ hr, fun ho' => ho ?_,
        ?_, hrx⟩
      · rw [Chan.Open, hqu.receivers, hqu.ended, hqu.queue, hqu.bound] at ho'
        exact ho'
      · refine (hf.io ?_).resolve_right (by rw [htx]; simp)
        rw [hs]
        simp
  | awaitResponse hs hrx' hqu hn =>
      rw [hsent _ hs hn] at hrx'
      cases hrx'
  | awaitItem hs hr hqu hn => exact absurd (hr.queue.trans hqu) hq
  | writePending hwr ht hp hlt => cases htx.symm.trans hp
  | itemPending hs ht hwr hio hp hlt hfn => cases htx.symm.trans hp
  | headPending hs hr hb hp => cases hrx.symm.trans hp
  | fillPending hs hb ho hr hbl hp => cases hrx.symm.trans hp
  | limitPending hs hb ho hn hl hr hwt => cases hrx.symm.trans hwt.pendingRx
  | responseCut hs hrx' ht hwr hio hk why => exact absurd rfl hk
  | limitFailed hs hb hn hl hr hk why => exact absurd rfl hk

/-- **An iteration that goes on** has emptied the channel, or leaves the codec stuck. -/
theorem flushRound_cases (hio : c.io.Sound) (hw : Wired responds sends c) (hf : Flowing c)
    (h : flushRound cx c = some c') : c'.resBody.isEmpty = true ∨ Stuck c' := by
  rw [flushRound] at h
  split at h
  · cases h
  split at h
  · next u c₂ hx =>
    obtain rfl := Option.some.inj h
    rw [pollDriveExternal_eq] at hx
    rcases hp : pollServer cx false false c with ⟨r, c₃⟩
    rw [hp] at hx
    obtain ⟨hr, rfl⟩ := Prod.mk.inj hx
    have hpoll : Polls false c r c₃ := ⟨cx, false, hp⟩
    have hw' := hpoll.wired hio hw
    have hf' := hpoll.flowing hio hf
    have hpost := hpoll.post hio
    by_cases hne : c₃.resBody.isEmpty = true
    · exact .inl hne
    refine .inr ?_
    rw [Bool.not_eq_true] at hne
    cases r with
    | pending =>
        obtain ⟨c₁, -, hstop⟩ := hpost
        dsimp only [driven] at hr
        split at hr
        · cases hr
        · next hflags =>
          rw [Bool.not_eq_true, Bool.or_eq_false_iff] at hflags
          exact hstop.stuck hw' hf' hflags.1 hflags.2 hne
    | ready package =>
        cases package with
        | some p => cases hr
        | none =>
            -- The codec is done with the response.
            have hn : ¬ Linked c₃ := fun hl => by
              rcases hpost.2 with hs | ⟨-, hs⟩
              · exact hl.not_idle.2 hs
              · exact hl.not_idle.1 hs
            rw [(isEmpty_iff_of_single hw'.resBody).mpr (hw'.unlinked hn).1] at hne
            cases hne
    | fail e => cases hr
    | panic m => cases hr
    | diverge => cases hr
  · cases h

theorem waiting_of_flushRound (h : flushRound cx c = some c') : c.resBody.isEmpty = false := by
  rw [flushRound] at h
  split at h
  · cases h
  · next hne => exact Bool.not_eq_true _ ▸ hne

theorem flushN_add (m n : Nat) (c : Conn) :
    flushN cx (m + n) c = (flushN cx m c).bind (flushN cx n) := by
  induction m generalizing c with
  | zero => rw [Nat.zero_add]; rfl
  | succ m ih =>
      rw [Nat.succ_add, flushN, flushN]
      cases flushRound cx c with
      | none => rfl
      | some c₁ => exact ih c₁

/-- A loop that gets to a stuck codec goes round for ever. -/
theorem Stuck.loop_spins {n : Nat} (h : Stuck c') (hn : flushN cx n c = some c') : Spins cx c := by
  intro k
  rcases Nat.le_total k n with hle | hle
  · obtain ⟨j, rfl⟩ := Nat.exists_eq_add_of_le hle
    rw [flushN_add] at hn
    cases hk : flushN cx k c with
    | none => rw [hk] at hn; cases hn
    | some c₁ => rfl
  · obtain ⟨j, rfl⟩ := Nat.exists_eq_add_of_le hle
    obtain ⟨c₂, hj, -⟩ : ∃ c₂, flushN cx j c' = some c₂ ∧ Stuck c₂ := h.spins j
    rw [flushN_add, hn]
    exact Option.isSome_iff_exists.mpr ⟨c₂, hj⟩

theorem Stuck.spins_from (h : Stuck c) : Spins cx c := h.loop_spins (n := 0) rfl

/-- **The flush of a response's body**, in any reachable state: an iteration of the loop of `do_send`
that goes on makes progress exactly where the codec is not stuck, and the loop goes round for ever in
one poll exactly where an iteration begins so. -/
theorem flush_iff (inner : Transport) (as : List Action) (cx : Waker) :
    let c := (Runs.after step as (handshake inner)).conn
    (Progresses cx c ↔ ¬ Stuck c) ∧
      (¬ Spins cx c ↔ ∀ n c', flushN cx n c = some c' → ¬ Stuck c') := by
  intro c
  obtain ⟨hio, hw, hf⟩ := sane_after inner as
  refine ⟨⟨fun hp hs => hs.not_progresses hp, fun hn c' hr hu => ?_⟩,
    fun hn n c' hc hs => hn (hs.loop_spins hc), fun h hs => ?_⟩
  · rcases flushRound_cases hio hw hf hr with he | hs
    · have hne := waiting_of_flushRound hr
      rw [Chan.isEmpty, Chan.len, hu.resBody.receivers, hu.resBody.queue] at he
      exact Bool.false_ne_true (hne.symm.trans he)
    · exact hn (hs.of_unmoved hu.symm)
  · -- The second iteration begins where the channel is not empty.
    obtain ⟨c₂, h₂⟩ := Option.isSome_iff_exists.mp (hs 2)
    obtain ⟨c₁, h₁, h₂⟩ := Option.bind_eq_some_iff.mp h₂
    obtain ⟨c₃, h₂, -⟩ := Option.bind_eq_some_iff.mp h₂
    rcases flushRound_cases hio hw hf h₁ with he | hs₁
    · exact Bool.false_ne_true ((waiting_of_flushRound h₂).symm.trans he)
    · exact h 1 c₁ (by rw [flushN, h₁]; rfl) hs₁

/-- A request with a body of ten bytes. -/
def postHead : Bytes := ascii "POST / HTTP/1.1\r\ncontent-length: 10\r\n\r\n"

/-- The crates, on that request. -/
@[reducible] def postCrates : Crates :=
  .table [(postHead, ⟨some (ascii "POST"), some (ascii "/"), some 1,
    [(ascii "content-length", ascii "10")]⟩)] []

/-- A peer that has sent half of the body, and is silent then. -/
def halfBody : Transport := ⟨[.data (postHead ++ ascii "hello")], false, [], [], 0⟩

/-- A response with a body of two bytes. -/
def twoByteRes : Response := ⟨200, .http11, [(ascii "content-length", ascii "2")]⟩

/-- The `RecvStream` is held unread, and the response is sent with its body: `send_data` up to the loop. -/
def answerUnread : List Action :=
  [.accept 0, .respond twoByteRes false, .drive 0, .drive 0, .pushData false 0 (ascii "ok") true,
    .drive 0]

omit [VecAlloc] [Crates] in
theorem answerUnread_stuck :
    letI := VecAlloc.amortized
    letI := postCrates
    Stuck (Runs.after step answerUnread (handshake halfBody)).conn := by decide +kernel

omit [VecAlloc] [Crates] in
/-- **The loop does not end.**  The body of the request fills its channel, and the item of the response
waits behind it. -/
theorem flush_spins :
    letI := VecAlloc.amortized
    letI := postCrates
    let w := Runs.after step answerUnread (handshake halfBody)
    (run step answerUnread (handshake halfBody)).1.getLast? = some (.driven (.ready ())) ∧
      w.send.any SendStream.ended = true ∧ ¬ Progresses 0 w.conn ∧ Spins 0 w.conn :=
  ⟨by decide +kernel, by decide +kernel,
    @Stuck.not_progresses VecAlloc.amortized postCrates _ 0 answerUnread_stuck,
    @Stuck.spins_from VecAlloc.amortized postCrates _ 0 answerUnread_stuck⟩

end HreqH1.Server
