import HreqH1.Server.Moves
import HreqH1.Support.Runs

/-!
# Server — steps of the user

`Acts w a o w'`: what the step `a` comes to, with one constructor for each way it can.  A step
either polls the codec or changes a channel; `step_acts` is all that is used of `step` elsewhere.
-/

namespace HreqH1.Server
open PollM

variable [VecAlloc] [Crates]

/-- A poll of the codec, and what it leaves. -/
def Polls (want : Bool) (c : Conn) (r : Outcome IoError (Option Package)) (c' : Conn) : Prop :=
  ∃ cx reg, pollServer cx want reg c = (r, c')

theorem Polls.post {want : Bool} {c c' : Conn} {r : Outcome IoError (Option Package)}
    (h : Polls want c r c') (hc : c.io.Sound) : ServerPost want c r c' := by
  obtain ⟨cx, reg, h⟩ := h
  exact wp_elim (pollServer_moves hc) h

/-- What a poll that drives the codec for a handle makes of the codec's outcome; `io` is the buffer
after it. -/
def driven (io : BufIo) : Outcome IoError (Option Package) → Outcome IoError Unit
  | .pending => if io.pendingRx || io.pendingTx then .pending else .ready ()
  | .ready none => .ready ()
  | .ready (some _) => .panic "Got next request in poll_drive_external"
  | .fail e => .fail e
  | .panic m => .panic m
  | .diverge => .diverge

theorem pollDriveExternal_eq (cx : Waker) (c : Conn) : pollDriveExternal cx c =
    (driven (pollServer cx false false c).2.io (pollServer cx false false c).1,
      (pollServer cx false false c).2) := by
  show wp (pollDriveExternal cx) (fun o t => (o, t) =
    (driven (pollServer cx false false c).2.io (pollServer cx false false c).1,
      (pollServer cx false false c).2)) c
  rw [pollDriveExternal, wp_bind, wp_poll]
  refine wp_intro fun r t hx => ?_
  rw [hx]
  cases r with
  | pending =>
      dsimp only [bindPost]
      rw [wp_bind, wp_get, bindPost, wp_ite, driven]
      split <;> rfl
  | ready package => cases package <;> rfl
  | fail e => rfl
  | panic m => rfl
  | diverge => rfl

/-- A poll that drives the codec for a handle polls it once. -/
theorem pollDriveExternal_polls {cx : Waker} {c c' : Conn} {o : Outcome IoError Unit}
    (h : pollDriveExternal cx c = (o, c')) : ∃ r, Polls false c r c' ∧ o = driven c'.io r := by
  rw [pollDriveExternal_eq] at h
  obtain ⟨rfl, rfl⟩ := Prod.mk.inj h
  exact ⟨_, ⟨cx, false, rfl⟩, rfl⟩

/-- What a step comes to. -/
inductive Acts : World → Action → Obs → World → Prop where
  /-- The handle is not held. -/
  | idle {w : World} {a : Action} : Acts w a .idle w
  /-- A handle is held, and `accept` waits. -/
  | held {w : World} {cx : Waker} (hh : w.held = true) : Acts w (.accept cx) (.accepted .pending) w
  | accept {w : World} {cx : Waker} {req : Request} {recv : RecvStream} {expectsNoBody : Bool}
      {c : Conn} (hh : w.held = false)
      (hp : Polls true w.conn (.ready (some (req, recv, expectsNoBody))) c) :
      Acts w (.accept cx) (.accepted (.ready (some req)))
        { w with conn := c, recv := some recv, respond := some expectsNoBody }
  | noAccept {w : World} {cx : Waker} {r : Outcome IoError (Option Package)} {c : Conn}
      (hh : w.held = false) (hp : Polls true w.conn r c) (hr : ∀ p, r ≠ .ready (some p)) :
      Acts w (.accept cx) (.accepted (r.map fun _ => none)) { w with conn := c }
  | close {w : World} {cx : Waker} {r : Outcome IoError (Option Package)} {c : Conn}
      (hp : Polls false w.conn r c) :
      Acts w (.close cx) (.closed (r.map fun _ => ())) { w with conn := c }
  | read {w : World} {cx : Waker} {n : Nat} {recv recv' : RecvStream} {o : Outcome IoError Bytes}
      {r : Outcome IoError (Option Package)} {c : Conn} {body : Chan (Except IoError Bytes)}
      (hr : w.recv = some recv) (hp : Polls false w.conn r c)
      (hb : RecvStream.pollBodyData cx (n + 1) (recv, c.body) = (o, (recv', body)))
      (hd : driven c.io r = .ready ()) :
      Acts w (.read cx n) (.read o) { w with conn := { c with body := body }, recv := some recv' }
  | noRead {w : World} {cx : Waker} {n : Nat} {recv : RecvStream} {o : Outcome IoError Bytes}
      {r : Outcome IoError (Option Package)} {c : Conn} (hr : w.recv = some recv)
      (hp : Polls false w.conn r c) (ho : ∀ bs, o ≠ .ready bs)
      (hd : o = (driven c.io r).map fun _ => []) :
      Acts w (.read cx n) (.read o) { w with conn := c }
  /-- The codec has dropped its receiver. -/
  | refused {w : World} {res : Response} {noBody expectsNoBody : Bool}
      (hr : w.respond = some expectsNoBody) (hc : w.conn.res.receivers = 0) :
      Acts w (.respond res noBody) (.responded (.error (.io ⟨.other, "Connection closed"⟩)))
        { w with conn := { w.conn with res := w.conn.res.dropSender }, respond := none }
  | respond {w : World} {res : Response} {noBody expectsNoBody ended : Bool} {limit : LimitWrite}
      (hr : w.respond = some expectsNoBody) (hc : w.conn.res.receivers ≠ 0)
      (hl : limit = LimitWrite.fromHeaders res.headers) :
      Acts w (.respond res noBody) (.responded (.ok ()))
        { w with
          conn :=
            { w.conn with
              resBody := .new 1
              res := (w.conn.res.enqueue (res, ended)).dropSender }
          respond := none
          send := some ⟨limit, ended, true⟩ }
  | pushData {w : World} {owned : Bool} {cx : Waker} {bs : Bytes} {fin : Bool}
      {send send' : SendStream} {o : Outcome Error Unit} {rb : Chan (Bytes × Bool)}
      (hs : w.send = some send)
      (hp : SendStream.pollSendData cx (if owned then Data.owned bs else .shared bs) fin
        (send, w.conn.resBody) = (o, (send', rb))) :
      Acts w (.pushData owned cx bs fin) (.pushed o)
        { w with conn := { w.conn with resBody := rb }, send := some send' }
  | drive {w : World} {cx : Waker} {o : Outcome IoError Unit}
      {r : Outcome IoError (Option Package)} {c : Conn} (hp : Polls false w.conn r c)
      (hd : o = driven c.io r) : Acts w (.drive cx) (.driven o) { w with conn := c }
  | dropRecv {w : World} (hr : w.recv.isSome = true) :
      Acts w .dropRecv .idle
        { w with conn := { w.conn with body := w.conn.body.dropReceiver }, recv := none }
  | dropRespond {w : World} (hr : w.respond.isSome = true) :
      Acts w .dropRespond .idle
        { w with conn := { w.conn with res := w.conn.res.dropSender }, respond := none }
  | dropSend {w : World} (hs : w.send.isSome = true) :
      Acts w .dropSend .idle
        { w with conn := { w.conn with resBody := w.conn.resBody.dropSender }, send := none }

theorem accept_acts (cx : Waker) (w : World) :
    Acts w (.accept cx) (accept cx w).1 (accept cx w).2 := by
  rw [accept]
  split
  · next hh => exact .held hh
  · next hh =>
    rw [Bool.not_eq_true] at hh
    split
    · next req recv expectsNoBody c hx => exact .accept hh ⟨cx, true, hx⟩
    · next r c hne hx =>
      exact .noAccept hh ⟨cx, true, hx⟩ fun p h => hne p.1 p.2.1 p.2.2 (by rw [h])

theorem read_acts {cx : Waker} {n : Nat} {recv : RecvStream} {w : World}
    (hr : w.recv = some recv) :
    Acts w (.read cx n) (read cx (n + 1) recv w).1 (read cx (n + 1) recv w).2 := by
  rw [read]
  split
  · next c hx =>
    obtain ⟨r, hp, hd⟩ := pollDriveExternal_polls hx
    exact .read hr hp rfl hd.symm
  · next o c hne hx =>
    obtain ⟨r, hp, rfl⟩ := pollDriveExternal_polls hx
    refine .noRead hr hp (fun bs h => ?_) rfl
    cases hd : driven c.io r with
    | ready u => exact hne u hd
    | pending => rw [hd] at h; cases h
    | fail e => rw [hd] at h; cases h
    | panic m => rw [hd] at h; cases h
    | diverge => rw [hd] at h; cases h

/-- **What a step of the user comes to.** -/
theorem step_acts (a : Action) (w : World) : Acts w a (step a w).1 (step a w).2 := by
  cases a with
  | accept cx => exact accept_acts cx w
  | close cx => exact .close ⟨cx, true, rfl⟩
  | read cx n =>
      rw [step]
      split
      · exact .idle
      · next recv hr => exact read_acts hr
  | respond res noBody =>
      rw [step]
      split
      · exact .idle
      · next expectsNoBody hr =>
        rw [Server.respond]
        dsimp only
        split
        · next hc => exact .refused hr hc
        · next hc => exact .respond hr hc rfl
  | pushData owned cx bs fin =>
      rw [step]
      split
      · exact .idle
      · next send hs => exact .pushData hs rfl
  | drive cx =>
      rw [step]
      split
      · obtain ⟨r, hp, hd⟩ := pollDriveExternal_polls (Prod.eta (pollDriveExternal cx w.conn)).symm
        exact .drive hp hd
      · exact .idle
  | dropRecv =>
      rw [step]
      split
      · next hr => exact .dropRecv hr
      · exact .idle
  | dropRespond =>
      rw [step]
      split
      · next hr => exact .dropRespond hr
      · exact .idle
  | dropSend =>
      rw [step]
      split
      · next hs => exact .dropSend hs
      · exact .idle

/-- The codec's buffers stay sound. -/
theorem Acts.sound {w w' : World} {a : Action} {o : Obs} (h : Acts w a o w')
    (hw : w.conn.io.Sound) : w'.conn.io.Sound := by
  have hpoll : ∀ {want r c}, Polls want w.conn r c → c.io.Sound := by
    rintro want r c ⟨cx, reg, hp⟩
    have hs : (pollServer cx want reg w.conn).2.io.Sound := pollServer_sound hw
    rw [hp] at hs
    exact hs
  cases h with
  | idle => exact hw
  | held hh => exact hw
  | accept hh hp => exact hpoll hp
  | noAccept hh hp hr => exact hpoll hp
  | close hp => exact hpoll hp
  | read hr hp hb =>
      have hc := hpoll hp
      exact hc
  | noRead hr hp ho => exact hpoll hp
  | refused hr hc => exact hw
  | respond hr hc hl => exact hw
  | pushData hs hp => exact hw
  | drive hp => exact hpoll hp
  | dropRecv hr => exact hw
  | dropRespond hr => exact hw
  | dropSend hs => exact hw

end HreqH1.Server
