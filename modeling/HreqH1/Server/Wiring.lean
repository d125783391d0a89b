import HreqH1.Sending.SendData
import HreqH1.Server.Reuse

/-!
# Server — the channels of a request

Who holds which end of the channels of a response and of its body.  `Wired responds sends c` is about
a codec whose user holds a `SendResponse` (`responds`) or a `SendStream` (`sends`): an end of a channel
that is in use has its other end at the codec, or on its way there, or is refused.  The codec keeps it
(`Move.wired`, `Stop.wired`, `Wired.shut`), and so does the user (`wired_step`).

`Flowing` is about the writer: of a codec that is not closed it is idle, or `pending_tx` is set.
-/

namespace HreqH1

namespace BufIo
variable {io io' : BufIo} {bs : Bytes}

/-- The writer is idle, or waits for the transport. -/
def TxFlows (io : BufIo) : Prop := io.canPollWrite = true ∨ io.pendingTx = true

theorem Reads.txFlows (h : Reads bs io io') (hf : io.TxFlows) : io'.TxFlows := by
  have hs := h.writeSide
  simp only [BufIo.writeSide, Prod.mk.injEq] at hs
  rw [TxFlows, h.canPollWrite, hs.2.2.2.1]
  exact hf

end BufIo

namespace Server
open PollM BufIo Runs

/-- The codec has the receiver of the response's body, or the response with it. -/
def Linked (c : Conn) : Prop :=
  match c.state with
  | .recvReq | .closed => False
  | .sendRes h => h.rxRes = true → c.res.senders = 0 ∧ (c.res.queue ≠ [] ∨ h.holder.isSome = true)
  | .sendBody _ => True

/-- The channels of a response and its body, of whose user ends `responds` and `sends` are held. -/
structure Wired (responds sends : Bool) (c : Conn) : Prop where
  res : c.res.Single
  resBody : c.resBody.Single
  linked : c.resBody.queue ≠ [] ∨ sends = true ∧ c.resBody.receivers ≠ 0 → Linked c
  answers : responds = true → c.res.receivers ≠ 0 →
    ∃ h, c.state = .sendRes h ∧ h.rxRes = true
  holder : ∀ h, c.state = .sendRes h → h.rxRes = false → h.holder.isSome = true

variable {responds sends : Bool} {c c' : Conn}

theorem Wired.of_eq (h : Wired responds sends c) (hs : c'.state = c.state) (hr : c'.res = c.res)
    (hb : c'.resBody = c.resBody) : Wired responds sends c' where
  res := hr ▸ h.res
  resBody := hb ▸ h.resBody
  linked := fun hq => by
    rw [hb] at hq
    have hl := h.linked hq
    rw [Linked, hs, hr]
    exact hl
  answers := by rw [hs, hr]; exact h.answers
  holder := by rw [hs]; exact h.holder

theorem Linked.not_idle (h : Linked c) : c.state ≠ .recvReq ∧ c.state ≠ .closed := by
  rw [Linked] at h
  refine ⟨fun hs => ?_, fun hs => ?_⟩ <;> rw [hs] at h <;> exact h

/-- The state of `Bidirect` goes on, with its ends of the channels. -/
theorem Wired.sendRes {h h' : Bidirect} (hw : Wired responds sends c) (hs : c.state = .sendRes h)
    (hs' : c'.state = .sendRes h') (hrx : h'.rxRes = h.rxRes) (hh : h'.holder = h.holder)
    (hr : c'.res = c.res) (hb : c'.resBody = c.resBody) : Wired responds sends c' where
  res := hr ▸ hw.res
  resBody := hb ▸ hw.resBody
  linked := fun hq => by
    rw [hb] at hq
    have hl := hw.linked hq
    rw [Linked, hs] at hl
    rw [Linked, hs', hr]
    dsimp only
    rw [hrx, hh]
    exact hl
  answers := fun hrs h0 => by
    rw [hr] at h0
    obtain ⟨h₁, hs₁, hrx₁⟩ := hw.answers hrs h0
    obtain rfl : h = h₁ := State.sendRes.inj (hs.symm.trans hs₁)
    exact ⟨h', hs', hrx.trans hrx₁⟩
  holder := fun h₁ hs₁ hf => by
    obtain rfl : h' = h₁ := State.sendRes.inj (hs'.symm.trans hs₁)
    rw [hh]
    exact hw.holder h hs (hrx ▸ hf)

/-- A state without a response to wait for, and without a body to send. -/
theorem wired_rest (hr : c.res.Single) (hr0 : responds = true → c.res.receivers = 0)
    (hb : c.resBody.Single) (hq : c.resBody.queue = [])
    (hb0 : sends = true → c.resBody.receivers = 0) (hs : ∀ h, c.state ≠ .sendRes h) :
    Wired responds sends c where
  res := hr
  resBody := hb
  linked := fun h => (h.elim (fun h => h hq) fun h => h.2 (hb0 h.1)).elim
  answers := fun hrs h0 => absurd (hr0 hrs) h0
  holder := fun _ hs' => absurd hs' (hs _)

/-- Once the response is taken, its channel has no receiver. -/
theorem Wired.answered (hw : Wired responds sends c)
    (hs : ∀ h, c.state = .sendRes h → h.rxRes = false) (hrs : responds = true) :
    c.res.receivers = 0 := by
  by_contra h0
  obtain ⟨h₁, hs₁, hrx⟩ := hw.answers hrs h0
  rw [hs h₁ hs₁] at hrx
  cases hrx

/-- In a state that is not linked the response's body is empty, and the user does not send. -/
theorem Wired.unlinked (hw : Wired responds sends c) (hn : ¬ Linked c) :
    c.resBody.queue = [] ∧ (sends = true → c.resBody.receivers = 0) := by
  constructor
  · by_contra hq
    exact hn (hw.linked (.inl hq))
  · intro hs
    by_contra h0
    exact hn (hw.linked (.inr ⟨hs, h0⟩))

/-- Wakers come and go. -/
theorem Wired.quiet {res : Chan (Response × Bool)} (hw : Wired responds sends c)
    (hq : c.res.Quiet res) : Wired responds sends { c with res := res } := by
  refine ⟨hq.single hw.res, hw.resBody, fun h => ?_, fun hrs h0 => ?_, hw.holder⟩
  · have hl := hw.linked h
    rw [Linked] at hl ⊢
    cases hs : c.state with
    | sendRes h =>
        rw [hs] at hl
        intro hrx
        rw [hq.queue, hq.senders]
        exact hl hrx
    | recvReq => rw [hs] at hl; exact hl
    | sendBody h => trivial
    | closed => rw [hs] at hl; exact hl
  · exact hw.answers hrs (hq.receivers ▸ h0)

/-- The body is being sent. -/
theorem Wired.sendBody {h : BodySender} (hw : Wired responds sends c) (hs : c.state = .sendBody h)
    (hs' : c'.state = .sendBody h) (hr : c'.res = c.res) (hb : c'.resBody.Single) :
    Wired responds sends c' where
  res := hr ▸ hw.res
  resBody := hb
  linked := fun _ => by
    rw [Linked, hs']
    trivial
  answers := fun hrs h0 => by
    obtain ⟨h₁, hs₁, -⟩ := hw.answers hrs (hr ▸ h0)
    cases hs.symm.trans hs₁
  holder := fun h₁ hs₁ => by cases hs'.symm.trans hs₁

variable [VecAlloc] [Crates]

omit [VecAlloc] in
theorem Move.wired {want : Bool} (h : Move want c c') (hw : Wired responds sends c) : Wired responds sends c' := by
  cases h with
  | write hwr ht => exact hw.of_eq rfl rfl rfl
  | read hr => exact hw.of_eq rfl rfl rfl
  | wake hq => exact hw.quiet hq
  | request hs hf hp =>
      obtain ⟨hq, hb0⟩ := hw.unlinked fun hl => hl.not_idle.1 hs
      refine ⟨Chan.single_new 1, hw.resBody, fun h => ?_, fun _ _ => ⟨_, rfl, rfl⟩, ?_⟩
      · exact (h.elim (fun h => h hq) fun h => h.2 (hb0 h.1)).elim
      · rintro h ⟨⟩ hrx
        cases hrx
  | hangUp hs hr why =>
      obtain ⟨hq, hb0⟩ := hw.unlinked fun hl => hl.not_idle.1 hs
      refine wired_rest hw.res (fun hrs => ?_) hw.resBody hq hb0 (by intros; simp)
      refine hw.answered (fun h hs' => ?_) hrs
      cases hs.symm.trans hs'
  | response hs hrx ht hh hwr hio =>
      have hres := ht.single hw.res
      refine ⟨hres.dropReceiver, ?_, fun _ hrx' => (by cases hrx'), fun _ h0 =>
        absurd hres.receivers_dropReceiver h0, ?_⟩
      · dsimp only [Conn.dropRes]
        split
        · exact hw.resBody
        · exact hw.resBody.dropReceiver
      · rintro h' ⟨⟩ -
        rfl
  | chunk hs hb ho hn hl hr hc => exact hw.sendRes hs rfl rfl rfl rfl rfl
  | entire hs hb ho he hl hne hr hu => exact hw.sendRes hs rfl rfl rfl rfl rfl
  | responded hs hrx hb hh hn =>
      refine wired_rest hw.res (hw.answered fun h' hs' => ?_) hw.resBody.dropReceiver
        hw.resBody.queue_dropReceiver (fun _ => hw.resBody.receivers_dropReceiver) (after_ne_sendRes _)
      cases hs.symm.trans hs'
      exact hrx
  | toBody hs hrx hb hh hn =>
      refine ⟨hw.res, hw.resBody, fun _ => trivial, fun hrs h0 => ?_, fun h hs' => by cases hs'⟩
      refine absurd (hw.answered (fun h' hs' => ?_) hrs) h0
      cases hs.symm.trans hs'
      exact hrx
  | item hs ht hwr hio => exact hw.sendBody hs hs rfl (ht.single hw.resBody)
  | lastItem hs ht hwr hio hf =>
      have hb := ht.single hw.resBody
      refine wired_rest hw.res (hw.answered fun h' hs' => ?_) hb.dropReceiver
        hb.queue_dropReceiver (fun _ => hb.receivers_dropReceiver) (after_ne_sendRes _)
      cases hs.symm.trans hs'

omit [VecAlloc] in
theorem Stop.wired {k : Halt IoError} (h : Stop k c c') (hw : Wired responds sends c) :
    Wired responds sends c' := by
  cases h with
  | writePending hwr ht hp hlt => exact hw.of_eq rfl rfl rfl
  | writeFailed hwr ht why => exact hw.of_eq rfl rfl rfl
  | grow hs hr hg => exact hw.of_eq rfl rfl rfl
  | headPending hs hr hb hp => exact hw.of_eq rfl rfl rfl
  | headMissing hs hr why hk => exact hw.of_eq rfl rfl rfl
  | headInvalid hs hf hp => exact hw.of_eq rfl rfl rfl
  | awaitResponse hs hrx hq hn => exact hw
  | noResponse hs hrx hr hq hn => exact hw.quiet hr
  | responseCut hs hrx ht hwr hio hk why =>
      refine ⟨ht.single hw.res, hw.resBody, fun hq => ?_, fun _ _ => ⟨_, rfl, hrx⟩, ?_⟩
      · have hl := hw.linked hq
        rw [Linked, hs] at hl
        intro hrx'
        exact ⟨ht.senders.trans (hl hrx).1, .inr rfl⟩
      · rintro h' ⟨⟩ hf
        cases hrx.symm.trans hf
  | bodyFull hs hb hq hr ho => exact hw.of_eq rfl rfl rfl
  | fillPending hs hb ho hr hbl hp => exact hw.of_eq rfl rfl rfl
  | fillFailed hs hb hr hu => exact hw.of_eq rfl rfl rfl
  | limitPending hs hb ho hn hl hr hwt => exact hw.sendRes hs rfl rfl rfl rfl rfl
  | limitFailed hs hb hn hl hr hk why => exact hw.sendRes hs rfl rfl rfl rfl rfl
  | entireOverflow hs hb hl hr => exact hw.of_eq rfl rfl rfl
  | noHolder hs hrx hh => exact hw
  | awaitItem hs hr hq hn => exact hw.sendBody hs hs rfl (hr.single hw.resBody)
  | noItem hs hr hq hn => exact hw.sendBody hs hs rfl (hr.single hw.resBody)
  | itemPending hs ht hwr hio hp hlt hf => exact hw.sendBody hs hs rfl (ht.single hw.resBody)
  | itemFailed hs ht hwr hio why => exact hw.sendBody hs hs rfl (ht.single hw.resBody)

omit [VecAlloc] [Crates] in
/-- The shutdown lets go of all ends. -/
theorem Wired.shut (hw : Wired responds sends c) : Wired responds sends (shut c) := by
  have hidle : ¬ Linked c → Wired responds sends { c with state := .closed } ∨
      ∃ h, c.state = .sendRes h ∧ h.rxRes = true := fun hn => by
    obtain ⟨hq, hb0⟩ := hw.unlinked hn
    by_cases hr0 : responds = true → c.res.receivers = 0
    · exact .inl (wired_rest hw.res hr0 hw.resBody hq hb0 (by intros; simp))
    · obtain ⟨hrs, h0⟩ := Classical.not_imp.mp hr0
      exact .inr (hw.answers hrs h0)
  rw [Server.shut, Conn.dropState]
  cases hs : c.state with
  | recvReq =>
      refine (hidle fun hl => hl.not_idle.1 hs).resolve_right ?_
      rintro ⟨h, hs', -⟩
      cases hs.symm.trans hs'
  | closed =>
      refine (hidle fun hl => hl.not_idle.2 hs).resolve_right ?_
      rintro ⟨h, hs', -⟩
      cases hs.symm.trans hs'
  | sendBody h =>
      refine wired_rest hw.res (hw.answered fun h' hs' => ?_) hw.resBody.dropReceiver
        hw.resBody.queue_dropReceiver (fun _ => hw.resBody.receivers_dropReceiver) (by intros; simp)
      cases hs.symm.trans hs'
  | sendRes h =>
      dsimp only
      -- The receiver of the body is in the holder, or with the response, or not in use.
      have hfree : ∀ b : Chan (Bytes × Bool), b.Single →
          (h.holder.isSome = false → b.queue = [] ∧ (sends = true → b.receivers = 0)) →
          ∀ b', b' = (if h.holder.isSome then b.dropReceiver else b) →
            b'.Single ∧ b'.queue = [] ∧ (sends = true → b'.receivers = 0) := by
        rintro b hb hn b' rfl
        split
        · exact ⟨hb.dropReceiver, hb.queue_dropReceiver, fun _ => hb.receivers_dropReceiver⟩
        · next hh => exact ⟨hb, hn (Bool.not_eq_true _ ▸ hh)⟩
      cases hrx : h.rxRes with
      | false =>
          obtain ⟨hb, hq, hb0⟩ := hfree c.resBody hw.resBody
            (fun hn => by rw [hw.holder h hs hrx] at hn; cases hn) _ rfl
          refine wired_rest hw.res (hw.answered fun h' hs' => ?_) hb hq hb0 (by intros; simp)
          cases hs.symm.trans hs'
          exact hrx
      | true =>
          have hdrop : c.dropRes.resBody.Single ∧ (h.holder.isSome = false →
              c.dropRes.resBody.queue = [] ∧ (sends = true → c.dropRes.resBody.receivers = 0)) := by
            dsimp only [Conn.dropRes]
            split
            · next he =>
              refine ⟨hw.resBody, fun hn => hw.unlinked fun hl => ?_⟩
              rw [Linked, hs] at hl
              rcases (hl hrx).2 with hq | hh
              · exact hq (List.isEmpty_iff.mp he)
              · cases hn.symm.trans hh
            · exact ⟨hw.resBody.dropReceiver, fun _ =>
                ⟨hw.resBody.queue_dropReceiver, fun _ => hw.resBody.receivers_dropReceiver⟩⟩
          obtain ⟨hb, hq, hb0⟩ := hfree c.dropRes.resBody hdrop.1 hdrop.2 _ rfl
          exact wired_rest hw.res.dropReceiver (fun _ => hw.res.receivers_dropReceiver) hb hq hb0
            (by intros; simp)

/-! ### The user -/

section User
variable {w : World}

/-- The channels of a connection with its user. -/
abbrev World.Wired (w : World) : Prop := Server.Wired w.respond.isSome w.send.isSome w.conn

omit [VecAlloc] [Crates] in
/-- A handle of the user's goes. -/
theorem Wired.mono {responds' sends' : Bool} (hw : Server.Wired responds sends c)
    (hr : responds' = true → responds = true) (hs : sends' = true → sends = true) :
    Server.Wired responds' sends' c where
  res := hw.res
  resBody := hw.resBody
  linked := fun h => hw.linked (h.imp id fun h => ⟨hs h.1, h.2⟩)
  answers := fun h => hw.answers (hr h)
  holder := hw.holder

omit [VecAlloc] [Crates] in
theorem Wired.dropResSender (hw : Server.Wired responds sends c) :
    Server.Wired responds sends { c with res := c.res.dropSender } := by
  refine ⟨hw.res.dropSender, hw.resBody, fun h => ?_, fun hrs h0 => ?_, hw.holder⟩
  · have hl := hw.linked h
    rw [Linked] at hl ⊢
    cases hs : c.state with
    | sendRes h =>
        rw [hs] at hl
        intro hrx
        rw [Chan.queue_dropSender, Chan.senders_dropSender, (hl hrx).1]
        exact ⟨rfl, (hl hrx).2⟩
    | recvReq => rw [hs] at hl; exact hl
    | sendBody h => trivial
    | closed => rw [hs] at hl; exact hl
  · exact hw.answers hrs (Chan.receivers_dropSender ▸ h0)

omit [VecAlloc] [Crates] in
/-- A change of the response's body, of which more is sent only where that is received. -/
theorem Wired.onResBody {b : Chan (Bytes × Bool)} (hw : Server.Wired responds sends c)
    (hb : b.Single) (hq : b.queue ≠ [] ∨ sends = true ∧ b.receivers ≠ 0 →
      c.resBody.queue ≠ [] ∨ sends = true ∧ c.resBody.receivers ≠ 0) :
    Server.Wired responds sends { c with resBody := b } where
  res := hw.res
  resBody := hb
  linked := fun h => hw.linked (hq h)
  answers := hw.answers
  holder := hw.holder

omit [VecAlloc] [Crates] in
theorem wired_handshake (inner : Transport) : (handshake inner).Wired where
  res := Chan.single_new 1
  resBody := Chan.single_new 1
  linked := fun h => (h.elim (fun h => h rfl) fun h => by cases h.1).elim
  answers := by intros; contradiction
  holder := by intros; contradiction

theorem Polls.wired {want : Bool} {r : Outcome IoError (Option Package)}
    (h : Polls want c r c') (hc : c.io.Sound) (hw : Server.Wired responds sends c) :
    Server.Wired responds sends c' :=
  (h.post hc).keeps (I := Server.Wired responds sends) (fun _ _ hm => hm.wired)
    (fun _ _ _ hs => hs.wired) (fun _ hw => hw.shut) hw

theorem wired_step (hio : w.conn.io.Sound) (hw : w.Wired) (a : Action) : (step a w).2.Wired := by
  have ha := step_acts a w
  generalize (step a w).1 = o at ha
  generalize (step a w).2 = w' at ha ⊢
  cases ha with
  | idle => exact hw
  | held hh => exact hw
  | accept hh hp =>
      obtain ⟨-, -, ⟨c₁, heq⟩, -⟩ := hp.post hio
      have hs := congrArg Conn.state heq
      have hwc := hp.wired hio hw
      exact ⟨hwc.res, hwc.resBody, hwc.linked, fun _ _ => ⟨_, hs, rfl⟩, hwc.holder⟩
  | noAccept hh hp hr => exact hp.wired hio hw
  | close hp => exact hp.wired hio hw
  | read hr hp hb => exact (hp.wired hio hw).of_eq rfl rfl rfl
  | noRead hr hp ho => exact hp.wired hio hw
  | refused hr hc => exact hw.dropResSender.mono (by simp) id
  | @respond res noBody expectsNoBody ended limit hr hc hl =>
      -- The response is on its channel, and its sender has gone.
      obtain ⟨h, hs, hrx⟩ := hw.answers (by rw [hr]; rfl) hc
      refine ⟨(hw.res.enqueue hc _).dropSender, Chan.single_new 1, fun _ => ?_,
        fun h => (by cases h), hw.holder⟩
      rw [Linked]
      dsimp only
      rw [hs]
      intro _
      rw [Chan.senders_dropSender, Chan.senders_enqueue, Chan.queue_dropSender,
        Chan.queue_enqueue _ (hw.res.alive hc)]
      exact ⟨Nat.sub_eq_zero_of_le hw.res.senders, .inl (by simp)⟩
  | @pushData owned cx bs fin send send' o rb hs hp =>
      have hsend : w.send.isSome = true := by rw [hs]; rfl
      rcases wp_elim SendStream.pollSendData_chan hp with hq | ⟨h0, bs, heq⟩
      · refine (hw.onResBody (hq.single hw.resBody) fun h => ?_).mono id fun _ => hsend
        rw [hq.queue, hq.receivers] at h
        exact h
      · obtain rfl : rb = _ := heq
        exact (hw.onResBody (hw.resBody.enqueue h0 _) fun _ => .inr ⟨hsend, h0⟩).mono id fun _ => hsend
  | drive hp => exact hp.wired hio hw
  | dropRecv hr => exact hw.of_eq rfl rfl rfl
  | dropRespond hr => exact hw.dropResSender.mono (by simp) id
  | dropSend hs =>
      refine (hw.onResBody hw.resBody.dropSender fun h => ?_).mono id (by simp)
      rw [Chan.queue_dropSender, Chan.receivers_dropSender] at h
      exact h

end User

/-! ### The writer -/

/-- The writer of a codec that is not closed is idle, or waits for the transport. -/
def Flowing (c : Conn) : Prop := c.state = .closed ∨ c.io.TxFlows

omit [Crates] [VecAlloc] in
theorem Flowing.io (h : Flowing c) (hs : c.state ≠ .closed) : c.io.TxFlows := h.resolve_left hs

omit [VecAlloc] in
theorem Move.flowing {want : Bool} (h : Move want c c') (hf : Flowing c) : Flowing c' := by
  cases h with
  | write hwr ht hi => exact .inr (.inl hi)
  | read hr => exact hf.imp id hr.txFlows
  | wake hq => exact hf
  | request hs hh hp => exact .inr (hh.reads.txFlows (hf.io (by rw [hs]; simp)))
  | hangUp hs hr why => exact .inl rfl
  | response hs hrx ht hh hwr hio hi => exact .inr hi
  | chunk hs hb ho hn hl hr hc =>
      obtain ⟨front, hr⟩ := hr
      exact .inr (hr.txFlows (hf.io (by rw [hs]; simp)))
  | entire hs hb ho he hl hne hr hu => exact .inr (hr.txFlows (hf.io (by rw [hs]; simp)))
  | responded hs hrx hb hh hn => exact .inr (hf.io (by rw [hs]; simp))
  | toBody hs hrx hb hh hn => exact .inr (hf.io (by rw [hs]; simp))
  | item hs ht hwr hio => exact .inr (.inl hio)
  | lastItem hs ht hwr hio hfl => exact .inr (.inl hio)

omit [VecAlloc] in
theorem Stop.flowing {k : Halt IoError} (h : Stop k c c') (hk : ∀ e, k ≠ .fail e)
    (hf : Flowing c) : Flowing c' := by
  cases h with
  | writePending hwr ht hp hlt => exact .inr (.inr hp)
  | grow hs hr hg => exact hf.imp id hr.txFlows
  | headPending hs hr hb hp => exact hf.imp id hr.txFlows
  | awaitResponse hs hrx hq hn => exact hf
  | @responseCut k c h res fin rx io front hs hrx ht hwr hio hk' why hm =>
      cases k with
      | pending => exact absurd rfl hk'
      | fail e => exact absurd rfl (hk e)
      | panic m =>
          obtain ⟨rfl, -⟩ := hm m rfl
          exact .inr (hf.io (by rw [hs]; simp))
  | bodyFull hs hb hq hr ho => exact hf
  | fillPending hs hb ho hr hbl hp => exact hf.imp id hr.txFlows
  | limitPending hs hb ho hn hl hr hwt =>
      obtain ⟨bs, hr⟩ := hr
      exact .inr (hr.txFlows (hf.io (by rw [hs]; simp)))
  | limitFailed hs hb hn hl hr hk' why =>
      obtain ⟨bs, hr⟩ := hr
      exact .inr (hr.txFlows (hf.io (by rw [hs]; simp)))
  | entireOverflow hs hb hl hr => exact hf.imp id hr.txFlows
  | noHolder hs hrx hh => exact hf
  | awaitItem hs hr hq hn => exact hf
  | itemPending hs ht hwr hio hp hlt hfn => exact .inr (.inr hp)
  | writeFailed hwr ht why => exact absurd rfl (hk _)
  | headMissing hs hr why hk' => exact absurd rfl (hk _)
  | headInvalid hs hh hp => exact absurd rfl (hk _)
  | noResponse hs hrx hr hq hn => exact absurd rfl (hk _)
  | fillFailed hs hb hr hu => exact absurd rfl (hk _)
  | noItem hs hr hq hn => exact absurd rfl (hk _)
  | itemFailed hs ht hwr hio why => exact absurd rfl (hk _)

theorem Polls.flowing {want : Bool} {r : Outcome IoError (Option Package)}
    (h : Polls want c r c') (hc : c.io.Sound) (hf : Flowing c) : Flowing c' :=
  (h.post hc).keeps_or_shut (I := Flowing) (fun _ _ hm => hm.flowing)
    (fun _ _ _ hk hs => hs.flowing hk) (fun _ _ _ _ _ => .inl rfl) hf

theorem flowing_step {w : World} (hio : w.conn.io.Sound) (hf : Flowing w.conn) (a : Action) :
    Flowing (step a w).2.conn := by
  have ha := step_acts a w
  generalize (step a w).1 = o at ha
  generalize (step a w).2 = w' at ha ⊢
  cases ha with
  | accept hh hp => exact hp.flowing hio hf
  | noAccept hh hp hr => exact hp.flowing hio hf
  | close hp => exact hp.flowing hio hf
  | read hr hp hb => exact hp.flowing hio hf
  | noRead hr hp ho => exact hp.flowing hio hf
  | drive hp => exact hp.flowing hio hf
  | idle => exact hf
  | held hh => exact hf
  | refused hr hc => exact hf
  | respond hr hc hl => exact hf
  | pushData hs hp => exact hf
  | dropRecv hr => exact hf
  | dropRespond hr => exact hf
  | dropSend hs => exact hf

/-- What every reachable state of a server is. -/
structure World.Sane (w : World) : Prop where
  sound : w.conn.io.Sound
  wired : w.Wired
  flowing : Flowing w.conn

omit [VecAlloc] [Crates] in
theorem sane_handshake (inner : Transport) : (handshake inner).Sane :=
  ⟨BufIo.sound_withCapacity (by decide) inner, wired_handshake inner, .inr (.inl rfl)⟩

theorem World.Sane.step {w : World} (hw : w.Sane) (a : Action) : (step a w).2.Sane :=
  ⟨(step_acts a w).sound hw.sound, wired_step hw.sound hw.wired a,
    flowing_step hw.sound hw.flowing a⟩

theorem sane_after (inner : Transport) (as : List Action) :
    (Runs.after step as (handshake inner)).Sane :=
  run_invariant (fun _ a hw _ => hw.step a) (along_true as _) (sane_handshake inner)

/-- What the steps of a server keep holds in every reachable state. -/
theorem reachable_keeps {I : World → Prop} (hstep : ∀ w a, w.Sane → I w → I (step a w).2)
    {inner : Transport} (h₀ : I (handshake inner)) (as : List Action) :
    I (Runs.after step as (handshake inner)) := by
  have hrun : (Runs.after step as (handshake inner)).Sane ∧ I (Runs.after step as (handshake inner)) :=
    run_invariant (I := fun w => w.Sane ∧ I w)
      (fun w a hw _ => ⟨hw.1.step a, hstep w a hw.1 hw.2⟩) (along_true as _)
      ⟨sane_handshake inner, h₀⟩
  exact hrun.2

end Server
end HreqH1
