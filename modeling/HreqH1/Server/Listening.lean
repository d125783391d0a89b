import HreqH1.Server.Held

/-!
# Server — what a drive waits for

A drive for a handle is `Pending` where the codec is and one of the two flags of the reader and writer is
set.  `pending_rx` outlives the poll that has set it, and `Listens` is what it says in every reachable
state: the codec waits for more than it has read, so where the body of a request is still arriving all
that has come of it is taken, and once that is complete, or a response's body is being sent, the flag is
not set.  So a drive is `Pending` for a write or a flush, or for a request's body (`drive_pending`).
-/

namespace HreqH1.Server
open PollM BufIo Runs

/-- A codec in the state `s` needs more than `unread` to go on reading. -/
def State.Needs (unread : Bytes) : State → Prop
  | .recvReq => NoEnd unread
  | .sendRes h => h.txBody = true ∧ unread = []
  | .sendBody _ => False
  | .closed => True

/-- Where the last read of the transport was `Pending`, the codec needs what it asked for. -/
def Listens (c : Conn) : Prop := c.io.PendsRx → c.state.Needs c.io.unread

variable {c c' : Conn} {h : Bidirect} {b : BodySender}

theorem Listens.sendRes (hl : Listens c) (hs : c.state = .sendRes h) (hp : c.io.PendsRx) :
    h.txBody = true ∧ c.io.unread = [] := by
  have hn := hl hp
  rw [hs] at hn
  exact hn

theorem Listens.sendBody (hl : Listens c) (hs : c.state = .sendBody b) : ¬ c.io.PendsRx := by
  intro hp
  have hn := hl hp
  rw [hs] at hn
  exact hn

/-- What leaves the reader and the state. -/
theorem Listens.of_eq (hl : Listens c) (hp : c'.io.PendsRx → c.io.PendsRx)
    (hu : c'.io.unread = c.io.unread) (hs : c'.state = c.state) : Listens c' := by
  intro h
  rw [hs, hu]
  exact hl (hp h)

theorem Listens.writes {bs : Bytes} (hl : Listens c) (hw : Writes bs c.io c'.io)
    (hs : c'.state = c.state) : Listens c' := by
  obtain ⟨hu, -, -, hp, -⟩ := hw.reads_eq
  exact hl.of_eq (fun h => hp.symm.trans h) hu hs

variable [Crates]

theorem Move.listens {want : Bool} (h : Move want c c') (hl : Listens c) : Listens c' := by
  cases h with
  | write hw ht hi => exact hl.writes hw rfl
  | read hr hp =>
      intro h
      obtain ⟨hp, hu⟩ := hp h
      show c.state.Needs _
      rw [hu]
      exact hl hp
  | wake hq => exact hl
  | request hs hf hpar hwant =>
      -- A head that was there without a read was not asked for.
      intro h
      obtain ⟨hp, hh, rest, hu⟩ := hf.fresh h
      have hn := hl hp
      rw [hs] at hn
      exact absurd hn (hh.not_noEnd hu.symm)
  | hangUp hs hr why => exact fun _ => trivial
  | response hs hrx ht hh hw hio hi =>
      intro h
      obtain ⟨hu, -, -, hp, -⟩ := hw.reads_eq
      obtain ⟨htx, hnil⟩ := hl.sendRes hs (hp.symm.trans h)
      exact ⟨htx, hu.trans hnil⟩
  | chunk hs hb ho hn hlim hr hc hp hu =>
      exact fun h => absurd (hl.sendRes hs (hp h)).2 hu
  | entire hs hb ho he hlim hne hr hu hp =>
      exact fun h => absurd (hl.sendRes hs (hp.symm.trans h)).2 hne
  | responded hs hrx hb hh hn =>
      intro h
      rw [(hl.sendRes hs h).1] at hb
      cases hb
  | toBody hs hrx hb hh hn =>
      intro h
      rw [(hl.sendRes hs h).1] at hb
      cases hb
  | item hs ht hw hio => exact hl.writes hw rfl
  | lastItem hs ht hw hio hf =>
      intro h
      obtain ⟨-, -, -, hp, -⟩ := hw.reads_eq
      exact absurd (hp.symm.trans h) (hl.sendBody hs)

theorem Stop.listens {k : Halt IoError} (h : Stop k c c') (hk : ∀ e, k ≠ .fail e)
    (hl : Listens c) : Listens c' := by
  cases h with
  | writePending hw ht hp hlt => exact hl.writes hw rfl
  | grow hs hr hg hm hn =>
      intro _
      rw [hs]
      exact hn
  | headPending hs hr hb hp hn =>
      intro _
      rw [hs]
      exact hn
  | awaitResponse hs hrx hq hn => exact hl
  | @responseCut k c h res fin rx io front hs hrx ht hw hio hk' why hm =>
      cases k with
      | pending => exact absurd rfl hk'
      | fail e => exact absurd rfl (hk e)
      | panic m =>
          obtain ⟨rfl, -⟩ := hm m rfl
          intro h
          have hn := hl.sendRes hs h
          exact hn
  | bodyFull hs hb hq hr ho ha => exact hl
  | fillPending hs hb ho hr hbl hp ha hu =>
      intro _
      rw [hs]
      exact ⟨hb, hu⟩
  | limitPending hs hb ho hn hlim hr hw ha => exact fun _ => ⟨hb, hw.unread⟩
  | limitFailed hs hb hn hlim hr hk' why hm hp hu =>
      exact fun h => absurd (hl.sendRes hs (hp h)).2 hu
  | entireOverflow hs hb hlim hr hp hu =>
      exact fun h => absurd (hl.sendRes hs (hp.symm.trans h)).2 hu
  | noHolder hs hrx hh => exact hl
  | awaitItem hs hr hq hn => exact hl
  | itemPending hs ht hw hio hp hlt hfn => exact hl.writes hw rfl
  | writeFailed hw ht why => exact absurd rfl (hk _)
  | headMissing hs hr why hk' => exact absurd rfl (hk _)
  | headInvalid hs hh hp => exact absurd rfl (hk _)
  | noResponse hs hrx hr hq hn => exact absurd rfl (hk _)
  | fillFailed hs hb hr hu => exact absurd rfl (hk _)
  | noItem hs hr hq hn => exact absurd rfl (hk _)
  | itemFailed hs ht hw hio why => exact absurd rfl (hk _)

variable [VecAlloc]

theorem Polls.listens {want : Bool} {r : Outcome IoError (Option Package)}
    (h : Polls want c r c') (hc : c.io.Sound) (hl : Listens c) : Listens c' :=
  (h.post hc).keeps_or_shut (I := Listens) (fun _ _ hm => hm.listens)
    (fun _ _ _ hk hs => hs.listens hk) (fun _ _ _ _ _ _ => trivial) hl

theorem listens_step {w : World} (hio : w.conn.io.Sound) (hl : Listens w.conn) (a : Action) :
    Listens (step a w).2.conn := by
  have ha := step_acts a w
  generalize (step a w).1 = o at ha
  generalize (step a w).2 = w' at ha ⊢
  cases ha with
  | accept hh hp => exact hp.listens hio hl
  | noAccept hh hp hr => exact hp.listens hio hl
  | close hp => exact hp.listens hio hl
  | read hr hp hb hd => exact hp.listens hio hl
  | noRead hr hp ho hd => exact hp.listens hio hl
  | drive hp hd => exact hp.listens hio hl
  | idle => exact hl
  | held hh => exact hl
  | refused hr hc => exact hl
  | respond hr hc hlim => exact hl
  | pushData hs hp => exact hl
  | dropRecv hr => exact hl
  | dropRespond hr => exact hl
  | dropSend hs => exact hl

theorem listens_after (inner : Transport) (as : List Action) :
    Listens (Runs.after step as (handshake inner)).conn :=
  reachable_keeps (I := fun w => Listens w.conn) (fun _ a hw hl => listens_step hw.sound hl a)
    (fun h => by cases h) as

/-! ### A drive -/

/-- A write or a flush of the transport is pending. -/
def WaitsForWrite (c : Conn) : Prop :=
  c.io.pendingTx = true ∧ (c.io.writeBuf.isSome = true ∨ c.io.needFlush = true)

/-- The body of the request is still arriving, and a read of the transport for it is pending. -/
def WaitsForBody (c : Conn) : Prop :=
  c.io.pendingRx = true ∧ c.io.unread = [] ∧ ∃ h, c.state = .sendRes h ∧ h.txBody = true

/-- The codec is with a response, or its body. -/
def State.Busy : State → Prop
  | .recvReq => False
  | .sendRes _ => True
  | .sendBody _ => True
  | .closed => False

section Drive
variable {cx : Waker} {reg : Bool}

/-- A round that wants no request is pending for the transport, or at a response or its body. -/
theorem driveRound_waits (hio : c.io.Sound) :
    wp (driveRound cx false reg ()) (roundPost (fun _ _ => True)
      (fun r c' => r = .pending → c'.io.pendingTx = true ∨ c'.state.Busy)) c := by
  rw [driveRound, wp_bind, pollIo, wp_zoom]
  refine (pollFinishPendingWrite_spec hio.txWf).mono fun r io hw => ?_
  cases r with
  | pending => exact fun _ => .inl hw.2.2.1
  | fail e => intro h; cases h
  | panic m => intro h; cases h
  | diverge => intro h; cases h
  | ready _ =>
      dsimp only [bindPost]
      rw [wp_bind, wp_get, bindPost]
      dsimp only
      cases c.state with
      | closed => intro h; cases h
      | recvReq => intro h; cases h
      | sendRes h =>
          dsimp only
          rw [wp_bind, wp_zoom]
          refine wp_intro fun r s hx => ?_
          cases r with
          | ready next => exact trivial
          | pending => exact fun _ => .inr trivial
          | fail e => intro h; cases h
          | panic m => intro h; cases h
          | diverge => intro h; cases h
      | sendBody b =>
          dsimp only
          rw [wp_bind, wp_zoom]
          refine wp_intro fun r s hx => ?_
          cases r with
          | ready next => exact trivial
          | pending => exact fun _ => .inr trivial
          | fail e => intro h; cases h
          | panic m => intro h; cases h
          | diverge => intro h; cases h

theorem driveRound_decreases {want : Bool} :
    Decreases (fun _ c => c.io.Sound) (fun _ => driveWeight) (driveRound cx want reg) := by
  rintro u c v c' hio hx
  exact (wp_elim (driveRound_moves hio) hx).2

theorem pollServer_waits (hio : c.io.Sound) (hx : pollServer cx false reg c = (.pending, c')) :
    c'.io.pendingTx = true ∨ c'.state.Busy := by
  have hd : wp (drive cx false reg)
      (fun r c' => r = .pending → c'.io.pendingTx = true ∨ c'.state.Busy) c :=
    wp_loop driveRound_decreases (fun _ _ => True) (fun _ _ hio _ => driveRound_waits hio) hio trivial
  rw [pollServer] at hx
  rcases hr : drive cx false reg c with ⟨r, c₁⟩
  rw [hr] at hx
  cases r with
  | pending =>
      obtain ⟨-, rfl⟩ := Prod.mk.inj hx
      exact wp_elim hd hr rfl
  | ready package => cases hx
  | fail e => cases hx
  | panic m => cases hx
  | diverge => cases hx

/-- **What a drive waits for**, in any reachable state: it is `Pending` exactly where the codec is, for a
write or a flush, or for the body of the request. -/
theorem drive_pending (inner : Transport) (as : List Action) (cx : Waker) :
    let c := (Runs.after step as (handshake inner)).conn
    let p := pollServer cx false false c
    (pollDriveExternal cx c).1 = .pending ↔
      p.1 = .pending ∧ (WaitsForWrite p.2 ∨ WaitsForBody p.2) := by
  intro c p
  have hio : c.io.Sound := (sane_after inner as).sound
  have hpoll : Polls false c p.1 p.2 := ⟨cx, false, rfl⟩
  have hio' : p.2.io.Sound := pollServer_sound hio
  have hl := hpoll.listens hio (listens_after inner as)
  rw [pollDriveExternal_eq]
  refine ⟨fun h => ?_, fun h => ?_⟩
  · obtain ⟨hp, hflags⟩ := driven_pending h
    refine ⟨hp, ?_⟩
    by_cases htx : p.2.io.pendingTx = true
    · exact .inl ⟨htx, hio'.txWf.pendingTx htx⟩
    have hrx := hflags.resolve_right htx
    have hbusy := (pollServer_waits hio (Prod.ext hp rfl)).resolve_left htx
    cases hs : p.2.state with
    | recvReq => rw [hs] at hbusy; exact hbusy.elim
    | closed => rw [hs] at hbusy; exact hbusy.elim
    | sendRes h =>
        obtain ⟨hb, hu⟩ := hl.sendRes hs hrx
        exact .inr ⟨hrx, hu, h, hs, hb⟩
    | sendBody b => exact absurd hrx (hl.sendBody hs)
  · show driven p.2.io p.1 = .pending
    rw [h.1, driven, if_pos]
    rcases h.2 with ⟨htx, -⟩ | ⟨hrx, -⟩
    · rw [htx, Bool.or_true]
    · rw [hrx, Bool.true_or]

/-- A peer that has sent the head of a request, and is silent then. -/
def headOnly : Transport := ⟨[.data postHead], false, [], [], 0⟩

omit [VecAlloc] [Crates] in
/-- **The input makes a sending call wait**: the head of the response is written and flushed, and nothing
of the body has come. -/
theorem drive_waits_for_input :
    letI := VecAlloc.amortized
    letI := postCrates
    let w := Runs.after step [.accept 0, .respond twoByteRes false] (handshake headOnly)
    let p := step (.drive 0) w
    p.1 = .driven .pending ∧ p.2.conn.io.canPollWrite = true ∧
      p.2.conn.io.inner.flushed = p.2.conn.io.inner.written.length ∧
      p.2.conn.log.length = 1 ∧ p.2.conn.state.answeredEarly = true := by decide +kernel

end Drive

end HreqH1.Server
