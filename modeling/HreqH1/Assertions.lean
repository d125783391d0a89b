import HreqH1.Client.Steps
import HreqH1.Server.Wiring
import HreqH1.Support.Panics

/-!
# Assertions

The assertions of the two codecs hold in every run.

* `codecAssertions`: what they panic with — `io.can_poll_write()` and the buffers of
  `poll_write_all`, the handles that are unwrapped, and the slices of the `LimitRead` readers.
* A panic of a codec is where a poll stops (`Stop.panic_mem`), and each of these has another
  message, but for the holder of a response's body that is missing; there is one once the response
  is received (`Wired.holder`).
* The streams of the user have none of these messages.
-/

namespace HreqH1
open PollM Runs

/-- What the assertions of the codecs panic with. -/
def codecAssertions : List String :=
  ["assertion failed: io.can_poll_write()",
    "assertion failed: to_send.is_none()",
    "assertion failed: this.write_buf.is_none()",
    "assertion failed: !this.need_flush",
    "Holder of rx_body",
    unwrapNone,
    "Missing res_tx",
    "poll_read with len 0 buf",
    "Chunk read with empty buf"]

/-- What else the model panics with: full buffers, counters at their bound, messages that are not
supported or not to be parsed, and uses of a handle that are excluded elsewhere. -/
def otherPanics : List String :=
  FastBuf.growthPanics ++ LimitRead.overflowPanics ++
    ["Unsupported http version",
      "Parsed partial response",
      "FastBuf::borrow() with 0 capacity",
      "FastBuf::extend with not enough len",
      "assertion failed: new_pos <= self.buf.len()",
      "accept_entire_vec with wrong type of writer",
      "Got next request in poll_drive_external"]

theorem not_codecAssertion {m : String} (h : m ∈ otherPanics) : m ∉ codecAssertions := by
  have hall : ∀ m ∈ otherPanics, m ∉ codecAssertions := by decide
  exact hall m h

theorem growthPanics_other {m : String} (h : m ∈ FastBuf.growthPanics) : m ∈ otherPanics :=
  List.mem_append_left _ (List.mem_append_left _ h)

theorem overflowPanics_other {m : String} (h : m ∈ LimitRead.overflowPanics) : m ∈ otherPanics :=
  List.mem_append_left _ (List.mem_append_right _ h)

/-- A poll that panics with no message of `codecAssertions`. -/
abbrev Asserts {ε σ α : Type} (x : PollM ε σ α) : Prop := Panics (· ∈ otherPanics) x

/-! ### The streams of the user -/

theorem ConsumeBuf.consume_error {b : ConsumeBuf} {n : Nat} {m : String}
    (h : b.consume n = .error m) : m ∈ otherPanics := by
  rw [ConsumeBuf.consume] at h
  split at h
  · cases h
  · cases h; decide

theorem RecvStream.asserts_pollBodyData (cx : Waker) (n : Nat) :
    Asserts (RecvStream.pollBodyData cx n) := by
  rw [RecvStream.pollBodyData]
  refine panics_get.bind fun s => Panics.ite (panics_pure _) (Panics.loop (fun i => ?_) ())
  rw [RecvStream.bodyRound]
  refine panics_get.bind fun s => ?_
  cases s.1.ready with
  | some ready =>
      exact (panics_orPanic fun m hm => ConsumeBuf.consume_error hm).bind fun b =>
        (panics_modify _).bind fun _ => panics_pure _
  | none =>
      have hrecv : Asserts (Chan.pollRecv cx true :
          PollM IoError (Chan (Except IoError Bytes)) (Option (Except IoError Bytes))) := by
        intro c m hm
        cases hq : c.queue with
        | nil =>
            rw [Chan.pollRecv_nil hq] at hm
            dsimp only at hm
            split at hm <;> cases hm
        | cons v q => rw [Chan.pollRecv_cons hq] at hm; cases hm
      refine hrecv.zoom.bind fun v => ?_
      cases v with
      | none => exact (panics_modify _).bind fun _ => panics_pure _
      | some v =>
          exact (panics_lift v).bind fun v => (panics_modify _).bind fun _ => panics_pure _

section Send
variable [VecAlloc]

theorem FastBuf.borrow_other {b : FastBuf} {m : String} (h : b.borrow = .error m) :
    m ∈ otherPanics := by
  by_cases h0 : b.capacity = 0
  · rw [FastBuf.borrow, if_pos h0] at h
    cases h
    decide
  · exact growthPanics_other (FastBuf.borrow_error (Nat.pos_of_ne_zero h0) h)

omit [VecAlloc] in
theorem FastBuf.extend_other {b : FastBuf} {bs : Bytes} {m : String} (h : b.extend bs = .error m) :
    m ∈ otherPanics := by
  rw [FastBuf.extend] at h
  split at h
  · cases h
  · cases h; decide

theorem ChunkedEncoder.extendAll_other {out : FastBuf} {slices : List Bytes} {m : String}
    (h : ChunkedEncoder.extendAll out slices = .error m) : m ∈ otherPanics := by
  have hfold : ∀ (slices : List Bytes) (b : FastBuf),
      slices.foldlM (fun b s => b.extend s) b = .error m → m ∈ otherPanics := by
    intro slices
    induction slices with
    | nil => intro b hb; cases hb
    | cons s slices ih =>
        intro b hb
        rw [List.foldlM_cons] at hb
        cases he : b.extend s with
        | error m' => rw [he] at hb; cases hb; exact FastBuf.extend_other he
        | ok b' => rw [he] at hb; exact ih b' hb
  rw [ChunkedEncoder.extendAll] at h
  cases hb : out.borrow with
  | error m' => rw [hb] at h; cases h; exact FastBuf.borrow_other hb
  | ok b => rw [hb] at h; exact hfold slices b h

omit [VecAlloc] in
theorem ContentLengthWrite.count_other {v : ContentLengthWrite} {n : Nat} {m : String}
    (h : v.count n = .error m) : m ∈ otherPanics := by
  rw [ContentLengthWrite.count] at h
  split at h
  · cases h
  · cases h; decide

omit [VecAlloc] in
theorem LimitWrite.acceptEntireVec_other {l : LimitWrite} {bs : Bytes} {m : String}
    (h : l.acceptEntireVec bs = .error m) : m ∈ otherPanics := by
  cases l with
  | chunkedEncoder => cases h; decide
  | noBody => cases h; decide
  | contentLength v =>
      rw [LimitWrite.acceptEntireVec] at h
      cases hc : v.count bs.length with
      | error m' => rw [hc] at h; cases h; exact ContentLengthWrite.count_other hc
      | ok w => rw [hc] at h; cases h

theorem LimitWrite.asserts_write (data : Bytes) : Asserts (LimitWrite.write data) := by
  rw [LimitWrite.write]
  refine panics_get.bind fun s => ?_
  cases s.1 with
  | noBody => exact panics_pure _
  | chunkedEncoder =>
      refine Panics.zoom (Panics.ite (panics_pure _) (panics_get.bind fun b => ?_))
      exact (panics_orPanic fun m => ChunkedEncoder.extendAll_other).bind fun _ => panics_modify _
  | contentLength v =>
      refine Panics.zoom (Panics.ite (panics_pure _) (panics_get.bind fun t => ?_))
      refine (panics_orPanic fun m => ContentLengthWrite.count_other).bind fun w => ?_
      refine (panics_modify _).bind fun _ => Panics.ite (panics_throw _) (panics_get.bind fun t => ?_)
      exact (panics_orPanic fun m => ChunkedEncoder.extendAll_other).bind fun _ => panics_modify _

theorem LimitWrite.asserts_finish : Asserts LimitWrite.finish := by
  rw [LimitWrite.finish]
  refine panics_get.bind fun s => ?_
  cases s.1 with
  | noBody => exact panics_pure _
  | contentLength v => exact panics_pure _
  | chunkedEncoder =>
      refine Panics.zoom (panics_get.bind fun b => ?_)
      exact (panics_orPanic fun m => ChunkedEncoder.extendAll_other).bind fun _ => panics_modify _

omit [VecAlloc] in
theorem SendStream.asserts_onLimit {chunk : FastBuf} {x : PollM Error (LimitWrite × FastBuf) Unit}
    (h : Asserts x) : Asserts (SendStream.onLimit chunk x) := by
  intro s m hm
  refine h (s.1.limit, chunk) m ?_
  rw [SendStream.onLimit] at hm
  rcases hx : x (s.1.limit, chunk) with ⟨r, t⟩
  rw [hx] at hm
  cases r with
  | panic m' => cases hm; rfl
  | ready a => cases hm
  | pending => cases hm
  | fail e => cases hm
  | diverge => cases hm

theorem SendStream.asserts_toSend (data : Data) (fin : Bool) :
    Asserts (SendStream.toSend data fin) := by
  rw [SendStream.toSend]
  refine panics_get.bind fun s => Panics.ite ?_ ?_
  · exact (panics_orPanic fun m => LimitWrite.acceptEntireVec_other).bind fun l =>
      (panics_modify _).bind fun _ => panics_pure _
  · refine (SendStream.asserts_onLimit (LimitWrite.asserts_write _)).bind fun chunk => ?_
    rw [SendStream.sealChunk]
    exact Panics.ite
      ((panics_modify _).bind fun _ =>
        (SendStream.asserts_onLimit LimitWrite.asserts_finish).bind fun _ => panics_pure _)
      (panics_pure _)

theorem SendStream.asserts_pollSendData (cx : Waker) (data : Data) (fin : Bool) :
    Asserts (SendStream.pollSendData cx data fin) := by
  have hready : Asserts (Chan.pollReady cx true : PollM Error (Chan (Bytes × Bool)) Bool) := by
    intro c m hm
    have hp : wp (Chan.pollReady cx true : PollM Error _ _) _ c := Chan.pollReady_spec
    rw [wp, hm] at hp
    exact hp.elim
  have hsend : ∀ v, Asserts (Chan.send v : PollM Error (Chan (Bytes × Bool)) Bool) := by
    intro v c m hm
    rw [Chan.send_eq] at hm
    cases hm
  rw [SendStream.pollSendData]
  refine panics_get.bind fun s => Panics.ite (panics_pure _) (Panics.ite (panics_throw _) ?_)
  refine hready.zoom.bind fun ready => Panics.ite (panics_throw _) ?_
  refine (SendStream.asserts_toSend data fin).bind fun chunk => ?_
  exact (hsend _).zoom.bind fun sent => Panics.ite (panics_throw _) (panics_pure _)

end Send

/-! ### The codecs -/

variable [VecAlloc] [Crates]

namespace Server

/-- What a step of the user is seen to panic with. -/
def Obs.Panics : Obs → String → Prop
  | .accepted r, m => r = .panic m
  | .closed r, m => r = .panic m
  | .read r, m => r = .panic m
  | .pushed r, m => r = .panic m
  | .driven r, m => r = .panic m
  | .responded _, _ => False
  | .idle, _ => False

variable {c c' : Conn} {m : String} {want responds sends : Bool}

omit [VecAlloc] [Crates] in
theorem LimitRead.acceptEntireVec_other {l : LimitRead} {bs : Bytes}
    (h : l.acceptEntireVec bs = .error m) : m ∈ otherPanics := by
  cases l with
  | contentLength v =>
      rw [LimitRead.acceptEntireVec] at h
      split at h
      · cases h
      · cases h; decide
  | chunkedDecoder v => cases h; decide
  | readToEnd v => cases h; decide
  | noBody => cases h; decide

omit [VecAlloc] in
/-- Where a response is received, so is what holds its body. -/
theorem Stop.panic_mem (h : Stop (.panic m) c c') (hw : Wired responds sends c) :
    m ∈ otherPanics := by
  cases h with
  | grow hs hr hg hm => exact growthPanics_other hm
  | responseCut hs hrx ht hwr hio hk why hm =>
      obtain ⟨-, rfl⟩ := hm m rfl
      decide
  | limitFailed hs hb hn hl hr hk why hm => exact overflowPanics_other (hm m rfl)
  | entireOverflow hs hb hl hr => exact LimitRead.acceptEntireVec_other hl
  | noHolder hs hrx hh =>
      have := hw.holder _ hs hrx
      rw [hh] at this
      cases this

theorem Polls.panic_mem (h : Polls want c (.panic m) c') (hc : c.io.Sound)
    (hw : Wired responds sends c) : m ∈ otherPanics := by
  obtain ⟨c₁, hm, hs⟩ := h.post hc
  exact hs.panic_mem (moves_keep (I := Wired responds sends) (fun _ _ hm => hm.wired) hm hw)

omit [VecAlloc] [Crates] in
theorem driven_panic {io : BufIo} {r : Outcome IoError (Option Package)}
    (h : driven io r = .panic m) : r = .panic m ∨ m ∈ otherPanics := by
  cases r with
  | pending => rw [driven] at h; split at h <;> cases h
  | fail e => cases h
  | panic m' => cases h; exact .inl rfl
  | diverge => cases h
  | ready p =>
      cases p with
      | none => cases h
      | some p => cases h; exact .inr (by decide)

omit [VecAlloc] [Crates] in
theorem map_panic_iff {ε α β : Type} {r : Outcome ε α} {f : α → β} :
    r.map f = .panic m ↔ r = .panic m := by
  cases r <;> simp

theorem panics_step {w : World} (hw : w.Sane) (a : Action) (h : (step a w).1.Panics m) :
    m ∈ otherPanics := by
  have hpoll : ∀ {want r c}, Polls want w.conn r c → r = .panic m → m ∈ otherPanics := by
    rintro want r c hp rfl
    exact hp.panic_mem hw.sound hw.wired
  have ha := step_acts a w
  generalize (step a w).1 = o at ha h
  generalize (step a w).2 = w' at ha
  cases ha with
  | idle => exact h.elim
  | held hh => cases h
  | accept hh hp => cases h
  | noAccept hh hp hr => exact hpoll hp (map_panic_iff.mp h)
  | close hp => exact hpoll hp (map_panic_iff.mp h)
  | read hr hp hb hd =>
      exact RecvStream.asserts_pollBodyData _ _ _ m ((congrArg Prod.fst hb).trans h)
  | noRead hr hp ho hd =>
      rw [hd] at h
      exact (driven_panic (map_panic_iff.mp h)).elim (hpoll hp) id
  | drive hp hd =>
      rw [hd] at h
      exact (driven_panic h).elim (hpoll hp) id
  | pushData hs hp =>
      exact SendStream.asserts_pollSendData _ _ _ _ m ((congrArg Prod.fst hp).trans h)
  | refused hr hc => exact h.elim
  | respond hr hc hl => exact h.elim
  | dropRecv hr => exact h.elim
  | dropRespond hr => exact h.elim
  | dropSend hs => exact h.elim

end Server

namespace Client

/-- What a step of the user is seen to panic with. -/
def Obs.Panics : Obs → String → Prop
  | .conn r, m => r = .panic m
  | .resolved _ r, m => r = .panic m
  | .read _ r, m => r = .panic m
  | .pushed _ r, m => r = .panic m
  | .requested _, _ => False
  | .idle, _ => False

variable {c c' : Conn} {m : String}

omit [VecAlloc] in
theorem Stop.panic_mem (h : Stop (.panic m) c c') : m ∈ otherPanics := by
  cases h with
  | grow hr hg hm => exact growthPanics_other hm
  | requestPanic hs ht why => decide
  | headInvalid hs hi hf hp hk hm => rw [hm m rfl]; decide
  | limitFailed hs hc hl hn hr hk why hm => exact overflowPanics_other (hm m rfl)
  | noSize hs h0 => decide

theorem panics_step {w : World} (hw : w.conn.io.Sound) (a : Action) (h : (step a w).1.Panics m) :
    m ∈ otherPanics := by
  have ha := step_acts a w
  generalize (step a w).1 = o at ha h
  generalize (step a w).2 = w' at ha
  cases ha with
  | poll hp hx =>
      cases h
      obtain ⟨c₁, hm, hs⟩ := wp_elim (pollClient_moves hw) hx
      exact hs.panic_mem
  | read hr hp => exact RecvStream.asserts_pollBodyData _ _ _ m ((congrArg Prod.fst hp).trans h)
  | sendData hs hp =>
      exact SendStream.asserts_pollSendData _ _ _ _ m ((congrArg Prod.fst hp).trans h)
  | @resolve i cx r q hf hq =>
      cases r with
      | ok p => cases h
      | error e => cases h
  | wait hf hq hn => cases h
  | unanswered hf hq hn => cases h
  | idle => exact h.elim
  | refused hr => exact h.elim
  | request hm hs hr hl hb => exact h.elim
  | cloned hs => exact h.elim
  | dropRequest hs => exact h.elim
  | dropConn hp => exact h.elim
  | dropFuture hf => exact h.elim
  | dropRecv hr => exact h.elim
  | dropSend hs => exact h.elim

end Client

/-- **The assertions of the codecs hold in every run**: of a server and of a client, over any
transport and with any steps of the user. -/
theorem codec_assertions_hold :
    (∀ (inner : Transport) (as : List Server.Action),
      ∀ o ∈ (run Server.step as (Server.handshake inner)).1, ∀ m, o.Panics m →
        m ∉ codecAssertions) ∧
    (∀ (inner : Transport) (as : List Client.Action),
      ∀ o ∈ (run Client.step as (Client.handshake inner)).1, ∀ m, o.Panics m →
        m ∉ codecAssertions) := by
  refine ⟨fun inner as => ?_, fun inner as => ?_⟩
  · exact run_observed (I := Server.World.Sane) (fun _ a hw _ => hw.step a)
      (fun w a hw _ m hm => not_codecAssertion (Server.panics_step hw a hm)) (along_true as _)
      (Server.sane_handshake inner)
  · exact run_observed (I := fun w => w.conn.io.Sound) (fun w a hw _ => (Client.step_acts a w).sound hw)
      (fun w a hw _ m hm => not_codecAssertion (Client.panics_step hw a hm)) (along_true as _)
      (BufIo.sound_withCapacity (by decide) inner)

end HreqH1
