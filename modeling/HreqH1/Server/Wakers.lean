import HreqH1.Reading.Flags
import HreqH1.Server.Listening
import HreqH1.Server.Requests

/-!
# Server — wakers

What a connection that is `Pending` waits for.  `Watches cx c` says that the task `cx` will be woken:
the transport was asked last, and was `Pending`, or `cx` is registered with a channel, and the codec
can not go on before the other end of it is used or dropped.  A poll of the connection that is
`Pending` leaves that (`pollServer_watches`), from whatever state.

`Attached` says who holds these other ends: the user, in every reachable state, with a handle that is
still there.  So a connection waits for the transport or for a handle (`connection_waits`).
-/

namespace HreqH1

namespace Chan
open PollM
variable {α ε : Type}

/-- A receiver that is `Pending` is registered, and waits for a sender. -/
theorem pends_pollRecv (cx : Waker) : Pends (fun c => c.queue = [] ∧ c.senders ≠ 0 ∧ cx ∈ c.wakers)
    (pollRecv cx true : PollM ε (Chan α) (Option α)) := by
  intro c hp
  cases hq : c.queue with
  | cons t q => rw [pollRecv_cons hq] at hp; cases hp
  | nil =>
      rw [pollRecv_nil hq] at hp ⊢
      by_cases h0 : c.senders = 0
      · rw [if_pos h0] at hp
        cases hp
      · exact ⟨hq, h0, List.mem_append_right _ (List.mem_singleton.mpr rfl)⟩

/-- A sender that is `Pending` is registered, and waits for a receiver. -/
theorem pends_pollReady (cx : Waker) : Pends (fun c => c.receivers ≠ 0 ∧ ¬ c.Open ∧ cx ∈ c.wakers)
    (pollReady cx true : PollM ε (Chan α) Bool) := by
  intro c hp
  by_cases h0 : c.receivers = 0
  · rw [pollReady_closed h0] at hp
    cases hp
  · by_cases ho : c.Open
    · rw [pollReady_open ho] at hp
      cases hp
    · rw [pollReady_full h0 ho]
      exact ⟨h0, ho, List.mem_append_right _ (List.mem_singleton.mpr rfl)⟩

/-- From `c` to `c'` the task `cx` has been woken. -/
def Wakes (cx : Waker) (c c' : Chan α) : Prop := ∃ new, c'.woken = c.woken ++ new ∧ cx ∈ new

variable {c : Chan α} {cx : Waker}

theorem wakes_enqueue (hw : cx ∈ c.wakers) (t : α) : Wakes cx c (c.enqueue t) := by
  refine ⟨c.wakers, ?_, hw⟩
  rw [enqueue]
  split <;> rfl

theorem wakes_dropSender (h0 : c.receivers ≠ 0) (hw : cx ∈ c.wakers) : Wakes cx c c.dropSender := by
  refine ⟨c.wakers, ?_, hw⟩
  rw [dropSender, if_neg h0]
  rfl

theorem wakes_dropReceiver (hw : cx ∈ c.wakers) : Wakes cx c c.dropReceiver := by
  refine ⟨c.wakers, ?_, hw⟩
  rw [dropReceiver]
  split <;> rfl

theorem woken_dropSender : c.woken <+: c.dropSender.woken := by
  rw [dropSender]
  split
  · exact List.prefix_refl _
  · exact List.prefix_append _ _

theorem Wakes.later {c' c'' : Chan α} (h : Wakes cx c c') (hw : c'.woken <+: c''.woken) :
    Wakes cx c c'' := by
  obtain ⟨new, heq, hmem⟩ := h
  obtain ⟨later, hlater⟩ := hw
  exact ⟨new ++ later, by rw [← hlater, heq, List.append_assoc], List.mem_append_left _ hmem⟩

end Chan

/-- A read leaves the `Receiver` there. -/
theorem RecvStream.receivers_pollBodyData {recv : RecvStream} {body : Chan (Except IoError Bytes)}
    {cx : Waker} {n : Nat} : PollM.wp (pollBodyData cx n)
      (fun _ t => t.2.receivers = body.receivers) (recv, body) := by
  refine pollBodyData_ships.mono fun o t hs => ?_
  cases hs <;> rfl

namespace Server
open PollM BufIo Runs

/-- The task `cx` will be woken: by the transport, or by the other end of a channel that the codec
waits for. -/
inductive Watches (cx : Waker) (c : Conn) : Prop where
  | transport (h : c.io.PendsTx ∨ c.io.PendsRx)
  | response {h : Bidirect} (hs : c.state = .sendRes h) (hrx : h.rxRes = true)
      (hq : c.res.queue = []) (hn : c.res.senders ≠ 0) (hw : cx ∈ c.res.wakers)
  | reader {h : Bidirect} (hs : c.state = .sendRes h) (hb : h.txBody = true)
      (hr : c.body.receivers ≠ 0) (ho : ¬ c.body.Open) (hw : cx ∈ c.body.wakers)
  | item {h : BodySender} (hs : c.state = .sendBody h) (hq : c.resBody.queue = [])
      (hn : c.resBody.senders ≠ 0) (hw : cx ∈ c.resBody.wakers)

variable [VecAlloc] [Crates] {α : Type} {cx : Waker} {s : Bidirect × Conn}

/-! ### A poll of the codec -/

omit [VecAlloc] [Crates] in
theorem pends_tx {x : PollM IoError BufIo α} (hx : Pends PendsTx x) :
    Pends (Watches cx) (pollIo x) := hx.zoom fun _ _ h => .transport (.inl h)

omit [VecAlloc] [Crates] in
theorem pends_rx {x : PollM IoError BufIo α} (hx : Pends PendsRx x) :
    Pends (Watches cx) (pollIo x) := hx.zoom fun _ _ h => .transport (.inr h)

omit [VecAlloc] in
theorem pends_pollNextReq [VecAlloc] : Pends (Watches cx) pollNextReq := by
  rw [pollNextReq]
  refine (pends_rx (pends_pollForCrlfcrlf _)).attempt.bind fun r => ?_
  cases r.bind id with
  | error e => exact Pends.ite (pends_pure _) (pends_throw e)
  | ok req =>
      cases req with
      | none => exact pends_throw _
      | some req => exact (pends_modify _).bind fun _ => pends_pure _

omit [VecAlloc] in
theorem pends_writeHttp1xRes {σ : Type} {P : σ → Prop} (res : Response) :
    Pends P (writeHttp1xRes res maxResponseSize : PollM IoError σ Bytes) := by
  refine pends_of_never fun t hp => ?_
  rw [writeHttp1xRes_eq] at hp
  rcases resHead_cases res with ⟨head, hh⟩ | ⟨e, hh⟩ | hh <;> rw [hh] at hp <;> cases hp

omit [VecAlloc] in
/-- The response is awaited, and the task is registered with its channel. -/
theorem pollSendResp_registers : wp (pollSendResp cx true) (fun r t => r = .pending →
    t.1.rxRes = true ∧ t.2.res.queue = [] ∧ t.2.res.senders ≠ 0 ∧ cx ∈ t.2.res.wakers) s := by
  rw [pollSendResp, wp_bind, wp_get, bindPost, wp_bind, wp_assert]
  split
  · next hrx =>
    dsimp only [bindPost]
    rw [wp_bind, onConn, wp_zoom, pollRes, wp_zoom]
    refine (Chan.pends_pollRecv cx).wp.mono fun r rx hr => ?_
    cases r with
    | pending => exact fun _ => ⟨hrx, hr rfl⟩
    | fail e => intro h; cases h
    | panic m => intro h; cases h
    | diverge => intro h; cases h
    | ready o =>
        refine Pends.wp (P := fun t : Bidirect × Conn => t.1.rxRes = true ∧ t.2.res.queue = [] ∧
          t.2.res.senders ≠ 0 ∧ cx ∈ t.2.res.wakers) ?_
        cases o with
        | none => exact pends_throw _
        | some item =>
            refine (pends_modify _).bind fun _ => (pends_modify _).bind fun _ => ?_
            refine (pends_writeHttp1xRes _).bind fun bytes => pends_get.bind fun _ => ?_
            exact (pends_assert _ _).bind fun _ => (pends_poll _).bind fun _ => pends_modify _
  · intro h
    cases h

omit [VecAlloc] in
theorem pollRespond_registers : wp (pollRespond cx true) (fun r t => r ≠ .pending ∧
    (r = .ready true → Watches cx (viewRes t))) s := by
  rw [pollRespond, wp_bind, wp_get, bindPost, wp_ite]
  split
  · rw [wp_map, wp_poll]
    refine pollSendResp_registers.mono fun r t h => ?_
    cases r with
    | pending =>
        obtain ⟨hrx, hq, hn, hw⟩ := h rfl
        exact ⟨by simp, fun _ => .response (h := t.1) rfl hrx hq hn hw⟩
    | ready a => exact ⟨by simp, by simp⟩
    | fail e => exact ⟨by simp, by simp⟩
    | panic m => exact ⟨by simp, by simp⟩
    | diverge => exact ⟨by simp, by simp⟩
  · exact ⟨by simp, by simp⟩

omit [VecAlloc] [Crates] in
theorem pends_onRx {α : Type} {x : PollM IoError BufIo α} (hx : Pends PendsRx x) :
    Pends (fun s => Watches cx (viewRes s)) (onConn (pollIo x)) :=
  Pends.zoom (Q := fun c : Conn => c.io.PendsRx) (hx.zoom fun _ _ h => h)
    fun _ _ h => .transport (.inr h)

omit [Crates] in
theorem pends_nextChunk (n : Nat) : Pends (fun s => Watches cx (viewRes s)) (nextChunk n) := by
  rw [nextChunk]
  refine pends_get.bind fun s => Pends.ite ?_ ?_
  · refine (pends_onRx (pends_get.bind fun _ => (pends_modify _).bind fun _ => pends_pure _)).bind
      fun chunk => (pends_modify _).bind fun _ => (pends_orPanic _).bind fun limit => ?_
    exact (pends_modify _).bind fun _ => pends_pure _
  · refine (pends_orPanic _).bind fun readInto => ?_
    exact (LimitRead.pends_pollRead _).zoom fun _ _ h => .transport (.inr h)

omit [VecAlloc] [Crates] in
theorem pends_passOn (chunk : Bytes) : Pends (fun s => Watches cx (viewRes s)) (passOn chunk) := by
  rw [passOn]
  refine Pends.ite (Pends.bind (pends_of_never fun s hp => ?_) fun _ => pends_pure _) ?_
  · rw [onConn, run_zoom, pollBody, run_zoom, Chan.send_eq] at hp
    cases hp
  · exact pends_get.bind fun s => Pends.ite (pends_throw _) (pends_pure _)

omit [VecAlloc] [Crates] in
theorem pends_endBody : Pends (fun s => Watches cx (viewRes s)) endBody :=
  pends_get.bind fun _ => Pends.ite (pends_modify _) (pends_pure _)

omit [Crates] in
theorem pends_pollReadBody : Pends (fun s => Watches cx (viewRes s)) (pollReadBody cx) := by
  intro s
  show wp (pollReadBody cx) (fun r t => r = .pending → Watches cx (viewRes t)) s
  rw [pollReadBody, wp_bind, wp_get, bindPost, wp_bind, wp_assert]
  split
  · next hb =>
    dsimp only [bindPost]
    rw [wp_bind, onConn, wp_zoom, pollBody, wp_zoom]
    refine (Chan.pends_pollReady cx).wp.mono fun r body hr => ?_
    cases r with
    | pending =>
        obtain ⟨h0, ho, hw⟩ := hr rfl
        exact fun _ => .reader (h := s.1) rfl hb h0 ho hw
    | fail e => intro h; cases h
    | panic m => intro h; cases h
    | diverge => intro h; cases h
    | ready b =>
        refine Pends.wp (P := fun s => Watches cx (viewRes s)) ?_
        refine pends_get.bind fun s => (pends_onRx (pends_modify _)).bind fun _ => ?_
        refine (pends_onRx (pends_pollFillBuf false)).bind fun buf => Pends.ite (pends_throw _) ?_
        exact (pends_nextChunk _).bind fun chunk => (pends_passOn chunk).bind fun _ => pends_endBody
  · intro h
    cases h

theorem pends_bidirectRound (u : Unit) :
    Pends (fun s => Watches cx (viewRes s)) (bidirectRound cx true u) := by
  rw [bidirectRound]
  refine pends_get.bind fun s => ?_
  dsimp only
  split
  · exact pends_pure _
  · intro s
    show wp _ (fun r t => r = .pending → Watches cx (viewRes t)) s
    rw [wp_bind]
    refine pollRespond_registers.mono fun r t h => ?_
    cases r with
    | pending => exact absurd rfl h.1
    | fail e => intro h; cases h
    | panic m => intro h; cases h
    | diverge => intro h; cases h
    | ready p =>
        dsimp only [bindPost]
        rw [wp_bind, wp_get, bindPost, wp_ite]
        split
        · next hpend =>
          rw [Bool.and_eq_true] at hpend
          exact fun _ => h.2 (by rw [hpend.1])
        · refine Pends.wp (P := fun s => Watches cx (viewRes s)) ?_
          refine pends_get.bind fun s => Pends.ite ?_ (pends_pure _)
          exact pends_pollReadBody.bind fun _ => pends_pure _

theorem pends_pollBidirect : Pends (fun s => Watches cx (viewRes s)) (pollBidirect cx true) := by
  refine (Pends.loop pends_bidirectRound ()).bind fun _ => pends_get.bind fun s => ?_
  dsimp only
  cases s.1.holder with
  | none => exact pends_panic _
  | some p =>
      refine (pends_modify _).bind fun _ => Pends.ite ?_ (pends_pure _)
      exact (pends_modify _).bind fun _ => pends_pure _

omit [VecAlloc] [Crates] in
theorem pends_sendBodyRound (u : Unit) :
    Pends (fun s => Watches cx (viewBody s)) (sendBodyRound cx true u) := by
  rw [sendBodyRound]
  refine Pends.bind ?_ fun next => pends_get.bind fun s => (pends_assert _ _).bind fun _ => ?_
  · refine Pends.zoom (Q := fun c : Conn => c.resBody.queue = [] ∧ c.resBody.senders ≠ 0 ∧
      cx ∈ c.resBody.wakers) ((Chan.pends_pollRecv cx).zoom fun _ _ h => h) fun s c h => ?_
    exact .item (h := s.1) rfl h.1 h.2.1 h.2.2
  · cases next with
    | none => exact pends_throw _
    | some item =>
        refine (pends_modify _).bind fun _ => Pends.bind ?_ fun _ => ?_
        · exact Pends.zoom (Q := fun c : Conn => c.io.PendsTx)
            ((pends_writeAll _ _).zoom fun _ _ h => h) fun _ _ h => .transport (.inl h)
        · exact Pends.ite (pends_get.bind fun _ => pends_pure _) (pends_pure _)

theorem pends_driveRound {want : Bool} (u : Unit) :
    Pends (Watches cx) (driveRound cx want true u) := by
  rw [driveRound]
  refine (pends_tx pends_pollFinishPendingWrite).bind fun _ => pends_get.bind fun c => ?_
  cases c.state with
  | closed => exact pends_pure _
  | recvReq =>
      refine Pends.ite (pends_pollNextReq.bind fun p => ?_) (pends_pure _)
      exact (pends_modify _).bind fun _ => pends_pure _
  | sendRes h =>
      refine Pends.bind (Pends.zoom pends_pollBidirect fun _ _ h => h) fun next => ?_
      exact (pends_modify _).bind fun _ => pends_pure _
  | sendBody h =>
      refine Pends.bind (Pends.zoom (Pends.loop pends_sendBodyRound ()) fun _ _ h => h) fun next => ?_
      exact (pends_modify _).bind fun _ => pends_pure _

/-- **A poll of the connection that is `Pending` is watched**, from whatever state. -/
theorem pollServer_watches {want : Bool} {c c' : Conn}
    (h : pollServer cx want true c = (.pending, c')) : Watches cx c' := by
  have hd : Pends (Watches cx) (drive cx want true) := Pends.loop pends_driveRound ()
  rw [pollServer] at h
  rcases hr : drive cx want true c with ⟨r, c₁⟩
  rw [hr] at h
  cases r with
  | pending =>
      obtain ⟨-, rfl⟩ := Prod.mk.inj h
      exact wp_elim hd.wp hr rfl
  | ready package => cases h
  | fail e => cases h
  | panic m => cases h
  | diverge => cases h

/-! ### Who holds the other ends -/

/-- The channel of a response that is awaited: its receiver is there, and its sender is the
`SendResponse`, unless the response is sent. -/
structure Asked (responds : Bool) (res : Chan (Response × Bool)) : Prop where
  receiver : res.receivers ≠ 0
  sender : res.senders ≠ 0 → responds = true
  one : res.queue.length ≤ 1
  fresh : responds = true → res.queue = []

/-- A response, or its body, is being sent. -/
def Replying (c : Conn) : Prop :=
  match c.state with
  | .recvReq | .closed => False
  | .sendRes h => h.rxRes = true → c.res.queue ≠ []
  | .sendBody _ => True

/-- The other ends of the channels the codec may wait for are handles of the user's, of which `recvs`,
`responds` and `sends` are held; the codec has its own ends. -/
structure Attached (recvs responds sends : Bool) (c : Conn) : Prop where
  res : ∀ h, c.state = .sendRes h → h.rxRes = true → Asked responds c.res
  body : ∀ h, c.state = .sendRes h → h.txBody = true → c.body.receivers ≠ 0 → recvs = true
  reply : Replying c → c.resBody.receivers ≠ 0 ∧ (c.resBody.senders ≠ 0 → sends = true)
  reader : c.body.receivers ≤ 1

variable {recvs responds sends : Bool} {c c' : Conn} {want : Bool}

section Attached
omit [VecAlloc] [Crates]

theorem Asked.quiet {res res' : Chan (Response × Bool)} (h : Asked responds res)
    (hq : res.Quiet res') : Asked responds res' where
  receiver := hq.receivers ▸ h.receiver
  sender := hq.senders ▸ h.sender
  one := hq.queue ▸ h.one
  fresh := hq.queue ▸ h.fresh

/-- The state is the same, and the items and handles of the channels are. -/
theorem Attached.of_quiet (h : Attached recvs responds sends c) (hs : c'.state = c.state)
    (hr : c.res.Quiet c'.res) (hb : c'.body.receivers = c.body.receivers)
    (hq : c.resBody.Quiet c'.resBody) : Attached recvs responds sends c' where
  res := by
    rw [hs]
    exact fun b hs' hrx => (h.res b hs' hrx).quiet hr
  body := by rw [hs, hb]; exact h.body
  reply := by rw [Replying, hs, hr.queue, hq.receivers, hq.senders]; exact h.reply
  reader := hb ▸ h.reader

/-- `SendRes` goes on, and its ends with it. -/
theorem Attached.sendRes {b b' : Bidirect} (h : Attached recvs responds sends c)
    (hs : c.state = .sendRes b) (hs' : c'.state = .sendRes b') (hrx : b'.rxRes = b.rxRes)
    (htx : b'.txBody = true → b.txBody = true) (hr : c'.res = c.res)
    (hb : c'.body.receivers = c.body.receivers) (hq : c'.resBody = c.resBody) :
    Attached recvs responds sends c' where
  res := by
    rintro b₁ hs₁ hrx₁
    obtain rfl : b' = b₁ := State.sendRes.inj (hs'.symm.trans hs₁)
    rw [hr]
    exact h.res b hs (hrx ▸ hrx₁)
  body := by
    rintro b₁ hs₁ htx₁
    obtain rfl : b' = b₁ := State.sendRes.inj (hs'.symm.trans hs₁)
    rw [hb]
    exact h.body b hs (htx htx₁)
  reply := fun hrep => by
    rw [Replying, hs', hr] at hrep
    rw [hq]
    refine h.reply ?_
    rw [Replying, hs]
    exact fun hrx' => hrep (hrx.trans hrx')
  reader := hb ▸ h.reader

/-- The codec is idle, or closed. -/
theorem attached_rest (hs : ∀ b, c.state ≠ .sendRes b) (hs' : ∀ b, c.state ≠ .sendBody b)
    (hb : c.body.receivers ≤ 1) : Attached recvs responds sends c where
  res := fun b h => absurd h (hs b)
  body := fun b h => absurd h (hs b)
  reply := fun h => by
    rw [Replying] at h
    cases hst : c.state with
    | recvReq => rw [hst] at h; exact h.elim
    | closed => rw [hst] at h; exact h.elim
    | sendRes b => exact absurd hst (hs b)
    | sendBody b => exact absurd hst (hs' b)
  reader := hb

/-- The next item of the body is taken. -/
theorem Attached.sendBody {b : BodySender} (h : Attached recvs responds sends c)
    (hs : c.state = .sendBody b) (hs' : c'.state = .sendBody b) (hb : c'.body = c.body)
    (hrec : c'.resBody.receivers = c.resBody.receivers)
    (hsend : c'.resBody.senders = c.resBody.senders) : Attached recvs responds sends c' where
  res := fun b₁ hs₁ => by cases hs'.symm.trans hs₁
  body := fun b₁ hs₁ => by cases hs'.symm.trans hs₁
  reply := fun _ => by
    rw [hrec, hsend]
    refine h.reply ?_
    rw [Replying, hs]
    trivial
  reader := hb ▸ h.reader

/-- Where an item is on the channel of the response, it is the only one. -/
theorem Asked.takes {item : Response × Bool} {res rx : Chan (Response × Bool)}
    (h : Asked responds res) (ht : res.Takes item rx) : rx.queue = [] := by
  have hlen := h.one
  rw [ht.queue, List.length_cons] at hlen
  exact List.eq_nil_of_length_eq_zero (Nat.le_zero.mp (Nat.le_of_succ_le_succ hlen))

theorem receivers_passedOn (h : Bidirect) (limit : LimitRead) (bs : Bytes) (c : Conn) :
    (passedOn h limit bs c).body.receivers = c.body.receivers := by
  rw [passedOn]
  dsimp only
  split
  · rw [Chan.receivers_dropSender, receivers_deliver]
  · exact receivers_deliver

theorem Asked.taken {item : Response × Bool} {res rx : Chan (Response × Bool)}
    (h : Asked responds res) (ht : res.Takes item rx) : Asked responds rx where
  receiver := ht.receivers ▸ h.receiver
  sender := ht.senders ▸ h.sender
  one := by rw [h.takes ht]; exact Nat.zero_le 1
  fresh := fun _ => h.takes ht

end Attached

omit [VecAlloc] in
theorem Move.attached (h : Move false c c') (ha : Attached recvs responds sends c) :
    Attached recvs responds sends c' := by
  cases h with
  | write hwr ht => exact ha.of_quiet rfl (.refl _) rfl (.refl _)
  | read hr => exact ha.of_quiet rfl (.refl _) rfl (.refl _)
  | wake hq => exact ha.of_quiet rfl hq rfl (.refl _)
  | request hs hf hp hwant => cases hwant
  | hangUp hs hr why => exact attached_rest (by intros; simp) (by intros; simp) ha.reader
  | @response h res fin rx io head hs hrx ht hh hwr hio =>
      -- No other response is queued, and so the response's body stays.
      have hask := ha.res h hs hrx
      have hrep : Replying c := by
        rw [Replying, hs]
        exact fun _ => by simp [ht.queue]
      refine ⟨fun _ hs' hrx' => ?_, fun _ hs' htx => ?_, fun _ => ?_, ha.reader⟩
      · cases hs'
        cases hrx'
      · cases hs'
        exact ha.body h hs htx
      · dsimp only [Conn.dropRes]
        rw [hask.takes ht]
        exact ha.reply hrep
  | chunk hs hb ho hn hl hr hc =>
      exact ha.sendRes hs rfl rfl (fun _ => hb) rfl (receivers_passedOn _ _ _ _) rfl
  | entire hs hb ho he hl hne hr hu =>
      exact ha.sendRes hs rfl rfl (fun _ => hb) rfl (receivers_passedOn _ _ _ _) rfl
  | responded hs hrx hb hh hn =>
      exact attached_rest (after_ne_sendRes _) (after_ne_sendBody _) ha.reader
  | toBody hs hrx hb hh hn =>
      refine ⟨fun _ hs' => (by cases hs'), fun _ hs' => (by cases hs'), fun _ => ha.reply ?_,
        ha.reader⟩
      rw [Replying, hs]
      exact fun hrx' => (by cases hrx.symm.trans hrx')
  | item hs ht hwr hio => exact ha.sendBody hs hs rfl ht.receivers ht.senders
  | lastItem hs ht hwr hio hf =>
      exact attached_rest (after_ne_sendRes _) (after_ne_sendBody _) ha.reader

omit [VecAlloc] in
theorem Stop.attached {k : Halt IoError} (h : Stop k c c') (ha : Attached recvs responds sends c) :
    Attached recvs responds sends c' := by
  cases h with
  | writePending hwr ht hp hlt => exact ha.of_quiet rfl (.refl _) rfl (.refl _)
  | writeFailed hwr ht why => exact ha.of_quiet rfl (.refl _) rfl (.refl _)
  | grow hs hr hg => exact ha.of_quiet rfl (.refl _) rfl (.refl _)
  | headPending hs hr hb hp => exact ha.of_quiet rfl (.refl _) rfl (.refl _)
  | headMissing hs hr why hk => exact ha.of_quiet rfl (.refl _) rfl (.refl _)
  | headInvalid hs hf hp => exact ha.of_quiet rfl (.refl _) rfl (.refl _)
  | awaitResponse hs hrx hq hn => exact ha
  | noResponse hs hrx hr hq hn => exact ha.of_quiet rfl hr rfl (.refl _)
  | @responseCut k c h res fin rx io front hs hrx ht hwr hio hk why =>
      have hask := ha.res h hs hrx
      refine ⟨fun _ _ _ => hask.taken ht, fun _ hs' htx => ?_, fun hrep => ?_, ha.reader⟩
      · cases hs'
        exact ha.body h hs htx
      · exact absurd (hask.takes ht) (hrep hrx)
  | bodyFull hs hb hq hr ho => exact ha.of_quiet rfl (.refl _) hq.receivers (.refl _)
  | fillPending hs hb ho hr hbl hp => exact ha.of_quiet rfl (.refl _) rfl (.refl _)
  | fillFailed hs hb hr hu => exact ha.of_quiet rfl (.refl _) rfl (.refl _)
  | limitPending hs hb ho hn hl hr hwt => exact ha.sendRes hs rfl rfl id rfl rfl rfl
  | limitFailed hs hb hn hl hr hk why => exact ha.sendRes hs rfl rfl id rfl rfl rfl
  | entireOverflow hs hb hl hr => exact ha.of_quiet rfl (.refl _) rfl (.refl _)
  | noHolder hs hrx hh => exact ha
  | awaitItem hs hr hq hn => exact ha.of_quiet rfl (.refl _) rfl hr
  | noItem hs hr hq hn => exact ha.of_quiet rfl (.refl _) rfl hr
  | itemPending hs ht hwr hio hp hlt hf => exact ha.sendBody hs hs rfl ht.receivers ht.senders
  | itemFailed hs ht hwr hio why => exact ha.sendBody hs hs rfl ht.receivers ht.senders

omit [VecAlloc] [Crates] in
theorem Attached.shut (ha : Attached recvs responds sends c) :
    Attached recvs responds sends (shut c) := by
  refine attached_rest (by intros; simp [Server.shut]) (by intros; simp [Server.shut]) ?_
  have hb := ha.reader
  rw [Server.shut, Conn.dropState]
  cases c.state with
  | recvReq => exact hb
  | closed => exact hb
  | sendBody h => exact hb
  | sendRes h =>
      have hdrop : ∀ {p : Bool} {b : Chan (Except IoError Bytes)}, b.receivers ≤ 1 →
          (if p then b.dropSender else b).receivers ≤ 1 := by
        intro p b hb
        split
        · exact Chan.receivers_dropSender (c := b) ▸ hb
        · exact hb
      refine hdrop (b := (if h.rxRes = true then c.dropRes else c).body) ?_
      split <;> exact hb

omit [VecAlloc] in
theorem ServerPost.attached {r : Outcome IoError (Option Package)} (h : ServerPost false c r c')
    (ha : Attached recvs responds sends c) : Attached recvs responds sends c' :=
  h.keeps (I := Attached recvs responds sends) (fun _ _ hm => hm.attached)
    (fun _ _ _ hs => hs.attached) (fun _ ha => ha.shut) ha

/-- A poll that hands out no request. -/
theorem Polls.attached {r : Outcome IoError (Option Package)} (h : Polls want c r c')
    (hr : ∀ p, r ≠ .ready (some p)) (hc : c.io.Sound) (ha : Attached recvs responds sends c) :
    Attached recvs responds sends c' := by
  cases want with
  | false => exact (h.post hc).attached ha
  | true => exact ((h.accepts hc).post hr).attached ha

omit [VecAlloc] in
/-- All handles of a request are handed out with it. -/
theorem Receives.attached {p : Package} (h : Receives p c c') : Attached true true sends c' := by
  obtain ⟨hs, -, io, head, eos, hf, hp, rfl⟩ := h
  refine ⟨fun _ _ _ => ?_, fun _ _ _ _ => rfl, fun hrep => ?_, ?_⟩
  · exact ⟨Nat.one_ne_zero, fun _ => rfl, Nat.zero_le 1, fun _ => rfl⟩
  · exact absurd rfl (hrep rfl)
  · dsimp only [received]
    split <;> exact Nat.le_refl 1

/-! ### The user -/

section User
variable {w : World}

abbrev World.Attached (w : World) : Prop :=
  Server.Attached w.recv.isSome w.respond.isSome w.send.isSome w.conn

omit [VecAlloc] [Crates] in
theorem attached_handshake (inner : Transport) : (handshake inner).Attached :=
  attached_rest (by intros; simp [handshake]) (by intros; simp [handshake]) (Nat.le_refl 1)

omit [VecAlloc] [Crates] in
/-- The `SendResponse` goes. -/
theorem Attached.dropRespond (h : Attached recvs responds sends c) (hr : c.res.Single) :
    Attached recvs false sends { c with res := c.res.dropSender } where
  res := fun b hs hrx => by
    obtain ⟨hrec, -, hone, -⟩ := h.res b hs hrx
    refine ⟨?_, fun h0 => absurd ?_ h0, ?_, by simp⟩
    · rw [Chan.receivers_dropSender]
      exact hrec
    · rw [Chan.senders_dropSender]
      exact Nat.sub_eq_zero_of_le hr.senders
    · rw [Chan.queue_dropSender]
      exact hone
  body := h.body
  reply := fun hrep => h.reply (by
    rw [Replying] at hrep ⊢
    dsimp only at hrep
    rw [Chan.queue_dropSender] at hrep
    exact hrep)
  reader := h.reader

theorem attached_step (hw : w.Sane) (ha : w.Attached) (a : Action) : (step a w).2.Attached := by
  have hio := hw.sound
  have hwired := hw.wired
  have hacts := step_acts a w
  generalize (step a w).1 = o at hacts
  generalize (step a w).2 = w' at hacts ⊢
  cases hacts with
  | idle => exact ha
  | held hh => exact ha
  | accept hh hp =>
      obtain ⟨c₁, -, hrec⟩ := hp.accepts hio
      exact hrec.attached
  | noAccept hh hp hr => exact hp.attached hr hio ha
  | close hp => exact (hp.post hio).attached ha
  | read hr hp hb hd =>
      have hc := (hp.post hio).attached ha
      rw [hr] at hc
      exact hc.of_quiet rfl (.refl _) (wp_elim RecvStream.receivers_pollBodyData hb) (.refl _)
  | noRead hr hp ho hd => exact (hp.post hio).attached ha
  | refused hr hc => exact ha.dropRespond hwired.res
  | @respond res noBody expectsNoBody ended limit hr hc hl =>
      obtain ⟨b, hs, hrx⟩ := hwired.answers (by rw [hr]; rfl) hc
      have hask := ha.res b hs hrx
      have hq : ((w.conn.res.enqueue (res, ended)).dropSender).queue = [(res, ended)] := by
        rw [Chan.queue_dropSender, Chan.queue_enqueue _ (hwired.res.alive hc),
          hask.fresh (by rw [hr]; rfl)]
        rfl
      refine ⟨fun _ _ _ => ⟨?_, fun h0 => absurd ?_ h0, ?_, by simp⟩, ha.body,
        fun _ => ⟨Nat.one_ne_zero, fun _ => rfl⟩, ha.reader⟩
      · rw [Chan.receivers_dropSender, Chan.receivers_enqueue]
        exact hc
      · rw [Chan.senders_dropSender, Chan.senders_enqueue]
        exact Nat.sub_eq_zero_of_le hwired.res.senders
      · rw [hq]
        exact Nat.le_refl 1
  | @pushData owned cx bs fin send send' o rb hs hp =>
      have hsend : w.send.isSome = true := by rw [hs]; rfl
      refine ⟨ha.res, ha.body, fun hrep => ⟨?_, fun _ => rfl⟩, ha.reader⟩
      have h0 : w.conn.resBody.receivers ≠ 0 := (ha.reply hrep).1
      rcases wp_elim SendStream.pollSendData_chan hp with hq | ⟨-, bs, heq⟩
      · rw [hq.receivers]
        exact h0
      · obtain rfl : rb = _ := heq
        rw [Chan.receivers_enqueue]
        exact h0
  | drive hp hd => exact (hp.post hio).attached ha
  | dropRecv hr =>
      refine ⟨ha.res, fun _ _ _ h0 => absurd ?_ h0, ha.reply, ?_⟩ <;>
        rw [Chan.receivers_dropReceiver]
      · exact Nat.sub_eq_zero_of_le ha.reader
      · exact Nat.le_trans (Nat.sub_le _ _) ha.reader
  | dropRespond hr => exact ha.dropRespond hwired.res
  | dropSend hs =>
      refine ⟨ha.res, ha.body, fun hrep => ⟨?_, fun h0 => absurd ?_ h0⟩, ha.reader⟩
      · rw [Chan.receivers_dropSender]
        exact (ha.reply hrep).1
      · rw [Chan.senders_dropSender]
        exact Nat.sub_eq_zero_of_le hwired.resBody.senders

theorem attached_after (inner : Transport) (as : List Action) :
    (Runs.after step as (handshake inner)).Attached :=
  reachable_keeps (I := World.Attached) (fun _ a hw ha => attached_step hw ha a)
    (attached_handshake inner) as

/-! ### What a connection waits for -/

/-- The head of the next request is not there yet, and a read of the transport for it is pending. -/
def WaitsForHead (c : Conn) : Prop :=
  c.io.pendingRx = true ∧ c.state = .recvReq ∧ NoEnd c.io.unread

/-- What the task `cx` waits for: the transport, or a handle of the user's, which wakes it when it is
used or dropped. -/
inductive WaitsFor (cx : Waker) (w : World) : Prop where
  | write (h : WaitsForWrite w.conn)
  | head (h : WaitsForHead w.conn)
  | body (h : WaitsForBody w.conn)
  | response (hr : w.respond.isSome = true)
      (hdrop : Chan.Wakes cx w.conn.res (step .dropRespond w).2.conn.res)
      (huse : ∀ res noBody,
        Chan.Wakes cx w.conn.res (step (.respond res noBody) w).2.conn.res)
  | reader (hr : w.recv.isSome = true)
      (hdrop : Chan.Wakes cx w.conn.body (step .dropRecv w).2.conn.body)
  | item (hs : w.send.isSome = true)
      (hdrop : Chan.Wakes cx w.conn.resBody (step .dropSend w).2.conn.resBody)
      (huse : ∀ owned cx' bs fin,
        (step (.pushData owned cx' bs fin) w).2.conn.resBody.queue ≠ [] →
        Chan.Wakes cx w.conn.resBody (step (.pushData owned cx' bs fin) w).2.conn.resBody)

theorem wakes_response {h : Bidirect} (ha : w.Attached) (hs : w.conn.state = .sendRes h)
    (hrx : h.rxRes = true) (hn : w.conn.res.senders ≠ 0) (hw : cx ∈ w.conn.res.wakers) :
    WaitsFor cx w := by
  obtain ⟨h0, hsend, -, -⟩ := ha.res h hs hrx
  have hr := hsend hn
  obtain ⟨expectsNoBody, hsome⟩ := Option.isSome_iff_exists.mp hr
  refine .response hr ?_ fun res noBody => ?_
  · rw [step, if_pos hr]
    exact Chan.wakes_dropSender h0 hw
  · rw [step, hsome]
    dsimp only
    rw [respond, if_neg h0]
    exact (Chan.wakes_enqueue hw _).later Chan.woken_dropSender

theorem wakes_reader {h : Bidirect} (ha : w.Attached) (hs : w.conn.state = .sendRes h)
    (hb : h.txBody = true) (h0 : w.conn.body.receivers ≠ 0) (hw : cx ∈ w.conn.body.wakers) :
    WaitsFor cx w := by
  have hr := ha.body h hs hb h0
  refine .reader hr ?_
  rw [step, if_pos hr]
  exact Chan.wakes_dropReceiver hw

theorem wakes_item {b : BodySender} (ha : w.Attached) (hs : w.conn.state = .sendBody b)
    (hq : w.conn.resBody.queue = []) (hn : w.conn.resBody.senders ≠ 0)
    (hw : cx ∈ w.conn.resBody.wakers) : WaitsFor cx w := by
  have hrep : Replying w.conn := by
    rw [Replying, hs]
    trivial
  obtain ⟨h0, hsend⟩ := ha.reply hrep
  have hs := hsend hn
  obtain ⟨send, hsome⟩ := Option.isSome_iff_exists.mp hs
  refine .item hs ?_ fun owned cx' bs fin hne => ?_
  · rw [step, if_pos hs]
    exact Chan.wakes_dropSender h0 hw
  · rw [step, hsome] at hne ⊢
    dsimp only at hne ⊢
    rcases hp : SendStream.pollSendData cx' (if owned then Data.owned bs else .shared bs) fin
      (send, w.conn.resBody) with ⟨o, send', rb⟩
    rw [hp] at hne
    -- An item has been put on the channel, which was empty.
    rcases wp_elim SendStream.pollSendData_chan hp with hquiet | ⟨-, item, heq⟩
    · exact absurd (hquiet.queue.trans hq) hne
    · obtain rfl : rb = _ := heq
      exact Chan.wakes_enqueue hw _

omit [VecAlloc] in
theorem Stop.pending_closed (h : Stop .pending c c') (hs : c'.state = .closed) :
    c'.io.pendingTx = true := by
  cases h with
  | writePending hwr ht hp hlt => exact hp
  | headPending hs' hr hb hp => cases hs'.symm.trans hs
  | awaitResponse hs' hrx hq hn => cases hs'.symm.trans hs
  | responseCut hs' hrx ht hwr hio hk why => exact absurd rfl hk
  | bodyFull hs' hb hq hr ho => cases hs'.symm.trans hs
  | fillPending hs' hb ho hr hbl hp => cases hs'.symm.trans hs
  | limitPending hs' hb ho hn hl hr hwt => cases hs
  | limitFailed hs' hb hn hl hr hk why => exact absurd rfl hk
  | awaitItem hs' hr hq hn => cases hs'.symm.trans hs
  | itemPending hs' ht hwr hio hp hlt hf => exact hp

theorem poll_waits (hw : w.Sane) (hl : Listens w.conn) (ha : w.Attached)
    (hp : pollServer cx want true w.conn = (.pending, c')) : WaitsFor cx { w with conn := c' } := by
  have hpoll : Polls want w.conn .pending c' := ⟨cx, true, hp⟩
  have hio' : c'.io.Sound := by
    have hsound : (pollServer cx want true w.conn).2.io.Sound := pollServer_sound hw.sound
    rw [hp] at hsound
    exact hsound
  have ha' : World.Attached { w with conn := c' } := hpoll.attached (by simp) hw.sound ha
  have hl' : Listens c' := hpoll.listens hw.sound hl
  have hwrite : c'.io.pendingTx = true → WaitsFor cx { w with conn := c' } := fun htx =>
    .write ⟨htx, hio'.txWf.pendingTx htx⟩
  rcases pollServer_watches hp with htx | ⟨hs, hrx, hq, hn, hwk⟩ | ⟨hs, hb, h0, ho, hwk⟩ |
    ⟨hs, hq, hn, hwk⟩
  · rcases htx with htx | hrx
    · exact hwrite htx
    · cases hs : c'.state with
      | recvReq =>
          have hneed := hl' hrx
          rw [hs] at hneed
          exact .head ⟨hrx, hs, hneed⟩
      | sendRes h =>
          obtain ⟨hb, hu⟩ := hl'.sendRes hs hrx
          exact .body ⟨hrx, hu, h, hs, hb⟩
      | sendBody b => exact absurd hrx (hl'.sendBody hs)
      | closed =>
          obtain ⟨c₁, -, hstop⟩ := hpoll.post hw.sound
          exact hwrite (hstop.pending_closed hs)
  · exact wakes_response ha' hs hrx hn hwk
  · exact wakes_reader ha' hs hb h0 hwk
  · exact wakes_item ha' hs hq hn hwk

/-- The first request is answered, and its body is still to come. -/
def answerHead : List Action := [.accept 0, .respond twoByteRes false, .drive 0, .dropRecv]

omit [VecAlloc] [Crates] in
theorem answerHead_pending :
    letI := VecAlloc.amortized
    letI := getCrates
    (step (.close 7) (Runs.after step answerHead (handshake (twoRequests (getHead ""))))).1 =
      .closed .pending := by decide +kernel

end User

end Server
end HreqH1
