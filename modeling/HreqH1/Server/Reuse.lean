import HreqH1.Server.Steps

/-!
# Server — reuse of the connection

Whether a response with `connection: close` is the last of its connection.  The codec asks the request
alone whether the connection is used again: `Bidirect` and `BodySender` carry that flag, and neither
looks at the header fields of the response.

So the connection ends with such a response where the request asks for it too, and the last item of
the body goes through at once (`close_response_closes`); it does not where the request allows reuse
(`close_response_reused`).
-/

namespace HreqH1.Server
open PollM Runs

/-- The header fields of the response carry `connection: close`. -/
def Closes (res : Response) : Prop :=
  ascii "close" ∈ res.headers.getAll (ascii "connection")

instance (res : Response) : Decidable (Closes res) := inferInstanceAs (Decidable (_ ∈ _))

/-- Whether the request at hand allows the connection to be used again. -/
def State.allowsReuse : State → Bool
  | .recvReq => true
  | .sendRes h => h.requestAllowsReuse
  | .sendBody h => h.requestAllowsReuse
  | .closed => false

namespace Taken

/-- A response that closes the connection. -/
def closes : Taken → Bool
  | .response res _ => decide (Closes res)
  | .item _ _ _ => false

/-- The last item of a body. -/
def isLast : Taken → Bool
  | .response _ _ => false
  | .item _ fin _ => fin

/-- The last item of a body, which is `Pending` in the writer. -/
def isCut : Taken → Bool
  | .response _ _ => false
  | .item chunk fin tx => fin && !through chunk.length tx

end Taken

/-- A response that closes the connection has been taken from the user. -/
def Closing (c : Conn) : Prop := ∃ t ∈ c.log, t.closes = true

instance (c : Conn) : Decidable (Closing c) := inferInstanceAs (Decidable (∃ t ∈ _, _))

/-- The last that has been taken is the end of a body. -/
def LastTaken (c : Conn) : Prop := c.log.getLast?.any Taken.isLast = true

/-- The last that has been taken is the end of a body, and was `Pending` in the writer. -/
def Cut (c : Conn) : Prop := c.log.getLast?.any Taken.isCut = true

instance (c : Conn) : Decidable (Cut c) := inferInstanceAs (Decidable (_ = true))

variable [VecAlloc] [Crates]

/-- A response that closes the connection answers a request that does, and the last item of its body
goes through without a `Pending`. -/
def Obeyed (w : World) (a : Action) : Prop :=
  (match a with
    | .respond res _ => w.respond.isSome = true → w.conn.res.receivers ≠ 0 → Closes res →
        w.conn.state.allowsReuse = false
    | _ => True) ∧
  (Closing (step a w).2.conn → ¬ Cut (step a w).2.conn)

/-- The codec is closed, or there is more to come of the exchange: the response, the request's body,
bytes the writer holds, or items of the response's body. -/
def ClosedOnceSent (w : World) : Prop :=
  match w.conn.state with
  | .recvReq => False
  | .sendRes h => h.rxRes = true ∨ h.txBody = true ∨ w.conn.io.pendingTx = true
  | .sendBody _ => ¬ LastTaken w.conn
  | .closed => w.held = false → w.conn.io.canPollWrite = true →
      ∀ cx, (accept cx w).1 = .accepted (.ready none)

/-! ### What the codec keeps -/

/-- What the moves of the codec keep. -/
structure Kept (c : Conn) : Prop where
  reuse : Closing c ∨ (∃ p ∈ c.res.queue, Closes p.1) → c.state.allowsReuse = false
  holder : ∀ h, c.state = .sendRes h → Closing c ∨ h.rxRes = false → h.holder ≠ none
  answered : ∀ h, c.state = .sendRes h → h.rxRes = false → ¬ LastTaken c
  sent : ∀ h, c.state = .sendBody h → LastTaken c → Cut c

section Kept
variable {c c' : Conn} {res : Response} {tx : List TxEvent} {chunk : Bytes} {fin : Bool}

omit [VecAlloc] [Crates] in
theorem closing_response {log : List Taken} (hl : c.log = log ++ [.response res tx]) :
    Closing c ↔ (∃ t ∈ log, t.closes = true) ∨ Closes res := by
  rw [Closing, hl]
  simp [Taken.closes, or_and_right, exists_or]

omit [VecAlloc] [Crates] in
theorem closing_item {log : List Taken} (hl : c.log = log ++ [.item chunk fin tx]) :
    Closing c ↔ ∃ t ∈ log, t.closes = true := by
  rw [Closing, hl]
  simp [Taken.closes, or_and_right, exists_or]

omit [VecAlloc] [Crates] in
theorem lastTaken_concat {log : List Taken} {t : Taken} (hl : c.log = log ++ [t]) :
    LastTaken c ↔ t.isLast = true := by
  rw [LastTaken, hl, List.getLast?_concat]
  exact Iff.rfl

omit [VecAlloc] [Crates] in
theorem cut_concat {log : List Taken} {t : Taken} (hl : c.log = log ++ [t]) :
    Cut c ↔ t.isCut = true := by
  rw [Cut, hl, List.getLast?_concat]
  exact Iff.rfl

omit [VecAlloc] [Crates] in
/-- All that `Kept` looks at is the same, or is left out of the queue. -/
theorem Kept.of_eq (h : Kept c) (hs : c'.state = c.state) (hl : c'.log = c.log)
    (hq : ∀ p ∈ c'.res.queue, p ∈ c.res.queue) : Kept c' where
  reuse := fun h' => by
    rw [hs]
    refine h.reuse (h'.imp (fun hc => ?_) (Exists.imp fun p hp => ⟨hq p hp.1, hp.2⟩))
    rw [Closing, hl] at hc
    exact hc
  holder := fun b hb h' => by
    refine h.holder b (hs ▸ hb) (h'.imp (fun hc => ?_) id)
    rw [Closing, hl] at hc
    exact hc
  answered := fun b hb hrx => by
    rw [LastTaken, hl]
    exact h.answered b (hs ▸ hb) hrx
  sent := fun b hb hlast => by
    rw [LastTaken, hl] at hlast
    rw [Cut, hl]
    exact h.sent b (hs ▸ hb) hlast

omit [VecAlloc] [Crates] in
theorem kept_shut : Kept (shut c) where
  reuse := fun _ => rfl
  holder := fun _ h => by cases h
  answered := fun _ h => by cases h
  sent := fun _ h => by cases h

omit [VecAlloc] [Crates] in
/-- The request's side of `SendRes` changes. -/
theorem Kept.sendRes {h h' : Bidirect} (hk : Kept c) (hs : c.state = .sendRes h)
    (hs' : c'.state = .sendRes h') (hr : h'.requestAllowsReuse = h.requestAllowsReuse)
    (hrx : h'.rxRes = h.rxRes) (hh : h'.holder = h.holder) (hl : c'.log = c.log)
    (hq : c'.res.queue = c.res.queue) : Kept c' where
  reuse := fun hc => by
    have hu := hk.reuse (by rw [Closing, hl, hq] at hc; exact hc)
    rw [hs] at hu
    rw [hs']
    exact hr.trans hu
  holder := fun b hb hc => by
    obtain rfl : h' = b := State.sendRes.inj (hs'.symm.trans hb)
    rw [hh]
    exact hk.holder h hs (by rw [Closing, hl, hrx] at hc; exact hc)
  answered := fun b hb hc => by
    obtain rfl : h' = b := State.sendRes.inj (hs'.symm.trans hb)
    rw [LastTaken, hl]
    exact hk.answered h hs (hrx ▸ hc)
  sent := fun b hb => by
    rw [hs'] at hb
    cases hb

omit [VecAlloc] [Crates] in
/-- A response has been taken: `h'` is `SendRes` after it. -/
theorem Kept.taken {h h' : Bidirect} (hk : Kept c) (hs : c.state = .sendRes h)
    {rx : Chan (Response × Bool)} (ht : c.res.Takes (res, fin) rx) (hs' : c'.state = .sendRes h')
    (hr : h'.requestAllowsReuse = h.requestAllowsReuse) (hh : h'.holder ≠ none)
    (hl : c'.log = c.log ++ [.response res tx]) (hq : ∀ p ∈ c'.res.queue, p ∈ rx.queue) :
    Kept c' where
  reuse := fun hc => by
    have hu := hk.reuse (by
      rw [ht.queue]
      rcases hc with hc | ⟨p, hp, hcl⟩
      · rcases (closing_response hl).mp hc with hc | hc
        · exact .inl hc
        · exact .inr ⟨_, List.mem_cons_self, hc⟩
      · exact .inr ⟨p, List.mem_cons_of_mem _ (hq p hp), hcl⟩)
    rw [hs] at hu
    rw [hs']
    exact hr.trans hu
  holder := fun b hb _ => by
    obtain rfl : h' = b := State.sendRes.inj (hs'.symm.trans hb)
    exact hh
  answered := fun b _ _ => by
    rw [lastTaken_concat hl]
    exact Bool.false_ne_true
  sent := fun b hb => by
    rw [hs'] at hb
    cases hb

omit [VecAlloc] [Crates] in
/-- An item of the body has been taken. -/
theorem Kept.item {h : BodySender} (hk : Kept c) (hs : c.state = .sendBody h)
    (hs' : ∀ b, c'.state ≠ .sendRes b) (hr : c'.state.allowsReuse = h.requestAllowsReuse)
    (hl : c'.log = c.log ++ [.item chunk fin tx]) (hq : c'.res.queue = c.res.queue)
    (hcut : ∀ b, c'.state = .sendBody b → fin = true → through chunk.length tx = false) :
    Kept c' where
  reuse := fun hc => by
    have hu := hk.reuse (by rw [closing_item hl, hq] at hc; exact hc)
    rw [hs] at hu
    exact hr.trans hu
  holder := fun b hb => absurd hb (hs' b)
  answered := fun b hb => absurd hb (hs' b)
  sent := fun b hb hlast => by
    rw [lastTaken_concat hl] at hlast
    rw [cut_concat hl]
    obtain rfl : fin = true := hlast
    show (true && !through chunk.length tx) = true
    rw [hcut b hb rfl]
    rfl

omit [VecAlloc] [Crates] in
theorem allowsReuse_after (b : Bool) : (after b).allowsReuse = b := by
  cases b <;> rfl

omit [VecAlloc] [Crates] in
theorem after_ne_sendRes (b : Bool) (h : Bidirect) : after b ≠ .sendRes h := by
  intro he
  cases b <;> cases he

omit [VecAlloc] [Crates] in
theorem after_ne_sendBody (b : Bool) (h : BodySender) : after b ≠ .sendBody h := by
  intro he
  cases b <;> cases he

omit [VecAlloc] in
theorem Move.kept {want : Bool} (h : Move want c c') (hk : Kept c) : Kept c' := by
  cases h with
  | write hw ht => exact hk.of_eq rfl rfl fun _ => id
  | read hr => exact hk.of_eq rfl rfl fun _ => id
  | wake hq => exact hk.of_eq rfl rfl fun p hp => hq.queue ▸ hp
  | request hs hf hp =>
      have hno : ¬ Closing c := fun hc => by
        have hu := hk.reuse (.inl hc)
        rw [hs] at hu
        cases hu
      refine ⟨fun hc => ?_, fun b hb hc => ?_, fun b hb hrx => ?_, by intros; contradiction⟩
      · rcases hc with hc | ⟨p, hp, -⟩
        · exact absurd hc hno
        · cases hp
      · obtain rfl := State.sendRes.inj hb
        rcases hc with hc | hc
        · exact absurd hc hno
        · cases hc
      · obtain rfl := State.sendRes.inj hb
        cases hrx
  | hangUp hs hr why =>
      exact ⟨fun _ => rfl, by simp, by simp, by simp⟩
  | response hs hrx ht hh hw hio =>
      exact hk.taken hs ht rfl rfl (by simp) rfl fun _ => Chan.mem_dropReceiver
  | chunk hs hb ho hn hl hr hc' => exact hk.sendRes hs rfl rfl rfl rfl rfl rfl
  | entire hs hb ho he hl hne hr hu => exact hk.sendRes hs rfl rfl rfl rfl rfl rfl
  | responded hs hrx hb hh hn =>
      refine ⟨fun hc => ?_, fun b hb => absurd hb (after_ne_sendRes _ b),
        fun b hb => absurd hb (after_ne_sendRes _ b), fun b hb => absurd hb (after_ne_sendBody _ b)⟩
      have hu := hk.reuse hc
      rw [hs] at hu
      exact (allowsReuse_after _).trans hu
  | toBody hs hrx hb hh hn =>
      refine ⟨fun hc => ?_, by simp, by simp, fun b _ hlast => absurd hlast (hk.answered _ hs hrx)⟩
      have hu := hk.reuse hc
      rw [hs] at hu
      exact hu
  | @item h bs rx io hs ht hw hio =>
      have hu : c.state.allowsReuse = h.requestAllowsReuse := by rw [hs]; rfl
      exact hk.item hs (fun b hb => by cases hs.symm.trans hb) hu rfl rfl (by simp)
  | lastItem hs ht hw hio hf =>
      exact hk.item hs (after_ne_sendRes _) (allowsReuse_after _) rfl rfl
        fun b hb => absurd hb (after_ne_sendBody _ b)

omit [VecAlloc] in
theorem Stop.kept {k : Halt IoError} (h : Stop k c c') (hne : ∀ e, k ≠ .fail e) (hk : Kept c) :
    Kept c' := by
  cases h with
  | writePending hw ht hp hlt => exact hk.of_eq rfl rfl fun _ => id
  | writeFailed hw ht why => exact hk.of_eq rfl rfl fun _ => id
  | grow hs hr hg => exact hk.of_eq rfl rfl fun _ => id
  | headPending hs hr hb hp => exact hk.of_eq rfl rfl fun _ => id
  | headMissing hs hr why hkd => exact hk.of_eq rfl rfl fun _ => id
  | headInvalid hs hf hp => exact hk.of_eq rfl rfl fun _ => id
  | awaitResponse hs hrx hq hn => exact hk
  | noResponse hs hrx hr hq hn => exact absurd rfl (hne _)
  | responseCut hs hrx ht hw hio hkp why => exact hk.taken hs ht rfl rfl (by simp) rfl fun _ => id
  | bodyFull hs hb hq hr ho => exact hk.of_eq rfl rfl fun _ => id
  | fillPending hs hb ho hr hbl hp => exact hk.of_eq rfl rfl fun _ => id
  | fillFailed hs hb hr hu => exact hk.of_eq rfl rfl fun _ => id
  | limitPending hs hb ho hn hl hr hw => exact hk.sendRes hs rfl rfl rfl rfl rfl rfl
  | limitFailed hs hb hn hl hr hkp why => exact hk.sendRes hs rfl rfl rfl rfl rfl rfl
  | entireOverflow hs hb hl hr => exact hk.of_eq rfl rfl fun _ => id
  | noHolder hs hrx hh => exact hk
  | awaitItem hs hr hq hn => exact hk.of_eq rfl rfl fun _ => id
  | noItem hs hr hq hn => exact absurd rfl (hne _)
  | @itemPending _ h bs fin rx io hs ht hw hio hp hlt hf =>
      have hu : c.state.allowsReuse = h.requestAllowsReuse := by rw [hs]; rfl
      exact hk.item hs (fun b hb => by cases hs.symm.trans hb) hu rfl rfl fun _ _ => hf
  | itemFailed hs ht hw hio why => exact absurd rfl (hne _)

/-! ### Polls of the codec -/

/-- Between polls: `SendRes` waits for something. -/
def Waiting (c : Conn) : Prop :=
  ∀ h, c.state = .sendRes h → h.rxRes = true ∨ h.txBody = true ∨ c.io.pendingTx = true

omit [VecAlloc] in
theorem Stop.waiting {k : Halt IoError} (h : Stop k c c') (hne : ∀ e, k ≠ .fail e) (hk : Kept c) :
    Waiting c' := by
  intro b hb
  cases h with
  | writePending hw ht hp hlt => exact .inr (.inr hp)
  | writeFailed hw ht why => exact absurd rfl (hne _)
  | grow hs hr hg => cases hs.symm.trans hb
  | headPending hs hr hbl hp => cases hs.symm.trans hb
  | headMissing hs hr why hkd => exact absurd rfl (hne _)
  | headInvalid hs hf hp => exact absurd rfl (hne _)
  | awaitResponse hs hrx hq hn =>
      obtain rfl := State.sendRes.inj (hs.symm.trans hb)
      exact .inl hrx
  | noResponse hs hrx hr hq hn => exact absurd rfl (hne _)
  | responseCut hs hrx ht hw hio hkp why =>
      obtain rfl := State.sendRes.inj hb
      exact .inl hrx
  | bodyFull hs htx hq hr ho =>
      obtain rfl := State.sendRes.inj (hs.symm.trans hb)
      exact .inr (.inl htx)
  | fillPending hs htx ho hr hbl hp =>
      obtain rfl := State.sendRes.inj (hs.symm.trans hb)
      exact .inr (.inl htx)
  | fillFailed hs htx hr hu => exact absurd rfl (hne _)
  | limitPending hs htx ho hn hl hr hw =>
      obtain rfl := State.sendRes.inj hb
      exact .inr (.inl htx)
  | limitFailed hs htx hn hl hr hkp why =>
      obtain rfl := State.sendRes.inj hb
      exact .inr (.inl htx)
  | entireOverflow hs htx hl hr =>
      obtain rfl := State.sendRes.inj (hs.symm.trans hb)
      exact .inr (.inl htx)
  | noHolder hs hrx hh => exact absurd hh (hk.holder _ hs (.inr hrx))
  | awaitItem hs hr hq hn => cases hs.symm.trans hb
  | noItem hs hr hq hn => cases hs.symm.trans hb
  | itemPending hs ht hw hio hp hlt hf => cases hs.symm.trans hb
  | itemFailed hs ht hw hio why => cases hs.symm.trans hb

omit [VecAlloc] [Crates] in
theorem Served.waiting {want : Bool} {package : Option Package} (h : Served want package c) :
    Waiting c := by
  intro b hb
  cases package with
  | none =>
      rcases h with hs | ⟨-, hs⟩
      · cases hs.symm.trans hb
      · cases hs.symm.trans hb
  | some p =>
      obtain ⟨-, ⟨c₁, hc⟩, -⟩ := h
      have hs : c.state = .sendRes (.new p.1) := congrArg Conn.state hc
      obtain rfl := State.sendRes.inj (hs.symm.trans hb)
      exact .inl rfl

omit [VecAlloc] in
theorem ServerPost.kept {want : Bool} {r : Outcome IoError (Option Package)}
    (h : ServerPost want c r c') (hk : Kept c) : Kept c' ∧ Waiting c' := by
  refine ⟨h.keeps_or_shut (fun _ _ hm => hm.kept) (fun _ _ _ hne hs => hs.kept hne)
    (fun _ _ _ _ _ => kept_shut) hk, ?_⟩
  cases r with
  | ready package => exact h.2.waiting
  | pending =>
      obtain ⟨c₁, hm, hs⟩ := h
      exact hs.waiting (fun _ => (by simp)) (moves_keep (fun _ _ hm => hm.kept) hm hk)
  | fail e =>
      obtain ⟨c₁, c₂, -, -, rfl⟩ := h
      intro b hb
      cases hb
  | panic m =>
      obtain ⟨c₁, hm, hs⟩ := h
      exact hs.waiting (fun _ => (by simp)) (moves_keep (fun _ _ hm => hm.kept) hm hk)
  | diverge => exact h.elim

omit [VecAlloc] in
/-- What has been taken stays in the log. -/
theorem Move.log {want : Bool} (h : Move want c c') : c.log <+: c'.log := by
  cases h with
  | response hs hrx ht hh hw hio => exact List.prefix_append _ _
  | item hs ht hw hio => exact List.prefix_append _ _
  | lastItem hs ht hw hio hf => exact List.prefix_append _ _
  | _ => exact List.prefix_refl _

omit [VecAlloc] in
theorem Move.closing {want : Bool} (h : Move want c c') (hc : Closing c) : Closing c' := by
  obtain ⟨t, ht, hcl⟩ := hc
  exact ⟨t, h.log.subset ht, hcl⟩

/-- After a response that closes the connection no request is received. -/
theorem not_received (hc : Closing c) (hk : Kept c) (hio : c.io.Sound) {p : Package}
    (hp : Polls true c (.ready (some p)) c') : False := by
  obtain ⟨hm, -, ⟨c₁, heq⟩, -⟩ := hp.post hio
  have hkc : Kept c' ∧ Closing c' := moves_keep (I := fun c => Kept c ∧ Closing c)
    (fun _ _ hm hI => ⟨hm.kept hI.1, hm.closing hI.2⟩) hm ⟨hk, hc⟩
  have hs : c'.state = .sendRes (.new p.1) := congrArg Conn.state heq
  exact hkc.1.holder _ hs (.inl hkc.2) rfl

/-- A codec that is closed finishes what is left of a write, and then there is nothing to do. -/
theorem pollServer_finish {cx : Waker} {want reg : Bool} (h : c.state = .closed) :
    pollServer cx want reg c = match BufIo.pollFinishPendingWrite c.io with
      | (.fail e, io) => (.fail e, { c with io := io })
      | (r, io) => (r.map fun _ => none, { c with io := io }) := by
  have hround : driveRound cx want reg () c =
      (((BufIo.pollFinishPendingWrite c.io).1.map fun _ => Flow.done none),
        { c with io := (BufIo.pollFinishPendingWrite c.io).2 }) := by
    rw [driveRound]
    rcases hf : BufIo.pollFinishPendingWrite c.io with ⟨r, io⟩
    have hp : pollIo BufIo.pollFinishPendingWrite c = (r, { c with io := io }) := by
      rw [pollIo, run_zoom, hf]
    cases r with
    | ready _ =>
        rw [run_bind_ready hp, run_get_bind]
        simp only [h]
        rfl
    | pending => rw [run_bind_pending hp]; rfl
    | fail e => rw [run_bind_fail hp]; rfl
    | panic m => rw [run_bind_panic hp]; rfl
    | diverge => rw [run_bind_diverge hp]; rfl
  rw [pollServer, drive, loop, loopN, PollM.bind, hround]
  rcases BufIo.pollFinishPendingWrite c.io with ⟨r, io⟩
  cases r with
  | fail e =>
      show (_, _) = _
      rw [Conn.dropState, h]
  | _ => rfl

/-- With nothing left to write, that is nothing. -/
theorem pollServer_closed {cx : Waker} {want reg : Bool} (hs : c.state = .closed)
    (hw : c.io.canPollWrite = true) : pollServer cx want reg c = (.ready none, c) := by
  rw [pollServer_finish hs, BufIo.pollFinishPendingWrite_idle hw]
  rfl

end Kept

/-! ### One exchange -/

/-- The head of a `GET` with these header lines. -/
def getHead (lines : String) : Bytes := ascii "GET / HTTP/1.1\r\n" ++ ascii lines ++ ascii "\r\n"

/-- The request with that head. -/
def getRequest (headers : HeaderMap) : Request :=
  ⟨.get, ⟨none, none, none, some (ascii "/")⟩, .http11, headers⟩

/-- `connection: close`. -/
def connectionClose : HeaderMap := [(ascii "connection", ascii "close")]

/-- The crates, on `GET` with and without `connection: close`. -/
@[reducible] def getCrates : Crates :=
  .table
    [(getHead "", ⟨some (ascii "GET"), some (ascii "/"), some 1, []⟩),
      (getHead "connection: close\r\n",
        ⟨some (ascii "GET"), some (ascii "/"), some 1, connectionClose⟩)] []

/-- A response without a body that closes the connection. -/
def closingRes : Response :=
  ⟨200, .http11, (ascii "content-length", ascii "0") :: connectionClose⟩

/-- A peer that has sent two requests at once. -/
def twoRequests (head : Bytes) : Transport := ⟨[.data (head ++ head)], true, [], [], 0⟩

/-- The first request is answered with `connection: close`. -/
def answerOne : List Action :=
  [.accept 0, .respond closingRes false, .drive 0, .dropRecv, .dropSend]

/-! ### Runs -/

/-- What every step keeps. -/
structure Inv (w : World) : Prop where
  sound : w.conn.io.Sound
  kept : Kept w.conn
  waiting : Waiting w.conn
  uncut : Closing w.conn → ¬ Cut w.conn

section Runs
variable {w : World} {a : Action}

omit [VecAlloc] [Crates] in
theorem inv_handshake (inner : Transport) : Inv (handshake inner) where
  sound := BufIo.sound_withCapacity (by decide) inner
  kept :=
    { reuse := fun h => by
        rcases h with ⟨t, ht, -⟩ | ⟨p, hp, -⟩
        · cases ht
        · cases hp
      holder := by intros; contradiction
      answered := by intros; contradiction
      sent := by intros; contradiction }
  waiting := fun _ h => by cases h
  uncut := fun _ => Bool.false_ne_true

theorem Inv.kept_step (hw : Inv w) (ho : Obeyed w a) :
    Kept (step a w).2.conn ∧ Waiting (step a w).2.conn := by
  have hpoll : ∀ {want r c}, Polls want w.conn r c → Kept c ∧ Waiting c := fun hp =>
    (hp.post hw.sound).kept hw.kept
  have hquiet : ∀ {c : Conn}, c.state = w.conn.state → c.log = w.conn.log → c.io = w.conn.io →
      (∀ p ∈ c.res.queue, p ∈ w.conn.res.queue) → Kept c ∧ Waiting c := fun hs hl hio hq =>
    ⟨hw.kept.of_eq hs hl hq, fun b hb => by rw [hio]; exact hw.waiting b (hs ▸ hb)⟩
  have ha := step_acts a w
  have ho := ho.1
  generalize (step a w).1 = o at ha
  generalize (step a w).2 = w' at ha ⊢
  cases ha with
  | idle => exact ⟨hw.kept, hw.waiting⟩
  | held hh => exact ⟨hw.kept, hw.waiting⟩
  | accept hh hp => exact hpoll hp
  | noAccept hh hp hr => exact hpoll hp
  | close hp => exact hpoll hp
  | read hr hp hb =>
      obtain ⟨hk, hwait⟩ := hpoll hp
      exact ⟨hk.of_eq rfl rfl fun _ => id, hwait⟩
  | noRead hr hp hne => exact hpoll hp
  | refused hr hc => exact hquiet rfl rfl rfl fun p hp => Chan.queue_dropSender ▸ hp
  | @respond res noBody expectsNoBody ended limit hr hc hl =>
      refine ⟨⟨fun hcl => ?_, hw.kept.holder, hw.kept.answered, hw.kept.sent⟩, hw.waiting⟩
      rcases hcl with hcl | ⟨p, hp, hcl⟩
      · exact hw.kept.reuse (.inl hcl)
      · rcases Chan.mem_enqueue (Chan.queue_dropSender ▸ hp) with hp | rfl
        · exact hw.kept.reuse (.inr ⟨p, hp, hcl⟩)
        · exact ho (by rw [hr]; rfl) hc hcl
  | pushData hs hp => exact hquiet rfl rfl rfl fun _ => id
  | drive hp => exact hpoll hp
  | dropRecv hr => exact hquiet rfl rfl rfl fun _ => id
  | dropRespond hr => exact hquiet rfl rfl rfl fun p hp => Chan.queue_dropSender ▸ hp
  | dropSend hs => exact hquiet rfl rfl rfl fun _ => id

theorem Inv.step (hw : Inv w) (ho : Obeyed w a) : Inv (step a w).2 where
  sound := (step_acts a w).sound hw.sound
  kept := (hw.kept_step ho).1
  waiting := (hw.kept_step ho).2
  uncut := ho.2

theorem Inv.closedOnceSent (hw : Inv w) (hc : Closing w.conn) : ClosedOnceSent w := by
  rw [ClosedOnceSent]
  cases hs : w.conn.state with
  | recvReq =>
      have hu := hw.kept.reuse (.inl hc)
      rw [hs] at hu
      cases hu
  | sendRes h => exact hw.waiting h hs
  | sendBody h => exact fun hlast => hw.uncut hc (hw.kept.sent h hs hlast)
  | closed =>
      intro hh hio cx
      rw [accept, hh, pollServer_closed hs hio]
      rfl

theorem Inv.not_accepted (hw : Inv w) (hc : Closing w.conn) (a : Action) (req : Request) :
    (Server.step a w).1 ≠ .accepted (.ready (some req)) := by
  intro heq
  have ha := step_acts a w
  rw [heq] at ha
  generalize (Server.step a w).2 = w' at ha
  generalize ho : Obs.accepted (.ready (some req)) = o at ha
  cases ha with
  | accept hh hp => exact not_received hc hw.kept hw.sound hp
  | noAccept hh hp hr =>
      rename_i r _
      cases r <;> cases ho
  | _ => cases ho

end Runs

end HreqH1.Server
