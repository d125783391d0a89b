import HreqH1.Server.Held

/-!
# Server — the end of a request's body

A `RecvStream` sees the end of its body where the channel of the body is closed.  While it is held,
the codec has the sender of that channel as long as it receives the body (`Owned`), and it goes on to
anything else only with a body that is complete (`Whole`), unless a poll fails: then the sender is
dropped with the state.  The error of a read is returned by that read.  Where another handle's poll
fails (`Truncates`), the reads that follow show an end that is none (`Truncates.reads_end`); in a run
without such a step every end is one (`read_end_whole`).
-/

namespace HreqH1.Server
open PollM Runs RecvStream

/-- The body of the request is still arriving. -/
def State.receiving : State → Bool
  | .sendRes h => h.txBody
  | _ => false

/-- The codec has the sender of the body exactly while that arrives. -/
def Owned (c : Conn) : Prop := c.body.senders = if c.state.receiving then 1 else 0

/-- The body arrives, or has arrived to the end. -/
def Whole (c : Conn) : Prop := c.state.receiving = false → c.complete = true

/-- The state has the sender of the body where it had it. -/
structure Keeps (c c' : Conn) : Prop where
  receiving : c'.state.receiving = c.state.receiving
  senders : c'.body.senders = c.body.senders
  queue : c'.body.queue = c.body.queue
  complete : c'.complete = c.complete

variable {c c' : Conn}

theorem Keeps.owned (h : Keeps c c') (ho : Owned c) : Owned c' := by
  rw [Owned, h.senders, h.receiving]
  exact ho

theorem Keeps.whole (h : Keeps c c') (hw : Whole c) : Whole c' := by
  rw [Whole, h.receiving, h.complete]
  exact hw

theorem State.receiving_after (reuse : Bool) : (after reuse).receiving = false := by
  cases reuse <;> rfl

/-- What moves do of the body's channel. -/
inductive Passes (c c' : Conn) : Prop where
  | keeps (h : Keeps c c')
  | chunk {h : Bidirect} {limit : LimitRead} {bs : Bytes} {c₁ : Conn} (hk : Keeps c c₁)
      (hb : c₁.state.receiving = true) (he : c' = passedOn h limit bs c₁)

theorem Passes.owned (h : Passes c c') (ho : Owned c) : Owned c' := by
  cases h with
  | keeps h => exact h.owned ho
  | @chunk h limit bs c₁ hk hb he =>
      have ho := hk.owned ho
      rw [Owned, hb, if_pos rfl] at ho
      subst he
      rw [Owned, passedOn]
      cases hc : limit.isComplete with
      | true => simp [State.receiving, senders_deliver, ho]
      | false => simp [State.receiving, senders_deliver, ho]

theorem Passes.whole (h : Passes c c') (hw : Whole c) : Whole c' := by
  cases h with
  | keeps h => exact h.whole hw
  | @chunk h limit bs c₁ hk hb he =>
      subst he
      intro hr
      rw [passedOn, State.receiving, Bool.not_eq_false'] at hr
      rw [passedOn, hr, Bool.or_true]

theorem Passes.complete (h : Passes c c') (hc : c.complete = true) : c'.complete = true := by
  cases h with
  | keeps h => exact h.complete.trans hc
  | @chunk h limit bs c₁ hk hb he =>
      subst he
      rw [passedOn, hk.complete, hc, Bool.true_or]

variable [Crates]

/-- A move that wants no request passes chunks on, at most. -/
theorem Move.passes (h : Move false c c') : Passes c c' := by
  cases h with
  | write hw ht hi => exact .keeps ⟨rfl, rfl, rfl, rfl⟩
  | read hr => exact .keeps ⟨rfl, rfl, rfl, rfl⟩
  | wake hq => exact .keeps ⟨rfl, rfl, rfl, rfl⟩
  | request hs hh hp hwant => cases hwant
  | hangUp hs hr why => exact .keeps ⟨by rw [hs]; rfl, rfl, rfl, rfl⟩
  | response hs hrx ht hh hw hio hi => exact .keeps ⟨by rw [hs]; rfl, rfl, rfl, rfl⟩
  | @chunk h n bs limit io hs hb ho hn hl hr hc =>
      have hk : Keeps c { c with io := io } := ⟨rfl, rfl, rfl, rfl⟩
      exact .chunk hk (by rw [hk.receiving, hs]; exact hb) rfl
  | @entire h limit io hs hb ho he hl hne hr hu =>
      have hk : Keeps c { c with io := io, entire := (c.io.unread, h.limit) :: c.entire } :=
        ⟨rfl, rfl, rfl, rfl⟩
      exact .chunk hk (by rw [hk.receiving, hs]; exact hb) rfl
  | responded hs hrx hb hh hn =>
      exact .keeps ⟨by rw [hs, State.receiving_after]; exact hb.symm, rfl, rfl, rfl⟩
  | toBody hs hrx hb hh hn => exact .keeps ⟨by rw [hs]; exact hb.symm, rfl, rfl, rfl⟩
  | item hs ht hw hio => exact .keeps ⟨rfl, rfl, rfl, rfl⟩
  | lastItem hs ht hw hio hfl =>
      exact .keeps ⟨by rw [hs, State.receiving_after]; rfl, rfl, rfl, rfl⟩

theorem Stop.keeps {k : Halt IoError} (h : Stop k c c') : Keeps c c' := by
  cases h with
  | writePending hw ht hp hlt => exact ⟨rfl, rfl, rfl, rfl⟩
  | writeFailed hw ht why => exact ⟨rfl, rfl, rfl, rfl⟩
  | grow hs hr hg => exact ⟨rfl, rfl, rfl, rfl⟩
  | headPending hs hr hb hp => exact ⟨rfl, rfl, rfl, rfl⟩
  | headMissing hs hr why hk => exact ⟨rfl, rfl, rfl, rfl⟩
  | headInvalid hs hh hp => exact ⟨rfl, rfl, rfl, rfl⟩
  | awaitResponse hs hrx hq hn => exact ⟨rfl, rfl, rfl, rfl⟩
  | noResponse hs hrx hr hq hn => exact ⟨rfl, rfl, rfl, rfl⟩
  | responseCut hs hrx ht hw hio hk why => exact ⟨by rw [hs]; rfl, rfl, rfl, rfl⟩
  | bodyFull hs hb hq hr ho => exact ⟨rfl, hq.senders, hq.queue, rfl⟩
  | fillPending hs hb ho hr hbl hp => exact ⟨rfl, rfl, rfl, rfl⟩
  | fillFailed hs hb hr hu => exact ⟨rfl, rfl, rfl, rfl⟩
  | limitPending hs hb ho hn hl hr hw => exact ⟨by rw [hs]; rfl, rfl, rfl, rfl⟩
  | limitFailed hs hb hn hl hr hk why => exact ⟨by rw [hs]; rfl, rfl, rfl, rfl⟩
  | entireOverflow hs hb hl hr => exact ⟨rfl, rfl, rfl, rfl⟩
  | noHolder hs hrx hh => exact ⟨rfl, rfl, rfl, rfl⟩
  | awaitItem hs hr hq hn => exact ⟨rfl, rfl, rfl, rfl⟩
  | noItem hs hr hq hn => exact ⟨rfl, rfl, rfl, rfl⟩
  | itemPending hs ht hw hio hp hlt hfn => exact ⟨rfl, rfl, rfl, rfl⟩
  | itemFailed hs ht hw hio why => exact ⟨rfl, rfl, rfl, rfl⟩

omit [Crates] in
/-- The sender is dropped with the state. -/
theorem senders_shut (ho : Owned c) : (shut c).body.senders = 0 := by
  rw [Owned] at ho
  rw [shut, Conn.dropState]
  cases hs : c.state with
  | recvReq => rw [hs] at ho; exact ho
  | closed => rw [hs] at ho; exact ho
  | sendBody h => rw [hs] at ho; exact ho
  | sendRes h =>
      have hbody : (if h.rxRes then c.dropRes else c).body = c.body := by split <;> rfl
      rw [hs, State.receiving] at ho
      cases htx : h.txBody with
      | true => simp [hbody, ho, htx]
      | false => simp [hbody, ho, htx]

omit [Crates] in
theorem complete_shut (c : Conn) : (shut c).complete = c.complete := by
  rw [shut, Conn.dropState]
  cases c.state with
  | recvReq => rfl
  | closed => rfl
  | sendBody h => rfl
  | sendRes h => cases hrx : h.rxRes <;> simp [hrx, Conn.dropRes]

variable [VecAlloc] {r : Outcome IoError (Option Package)}

theorem Polls.owned (h : Polls false c r c') (hc : c.io.Sound) (ho : Owned c) : Owned c' :=
  (h.post hc).keeps (fun _ _ hm => hm.passes.owned) (fun _ _ _ hs => hs.keeps.owned)
    (fun _ ho => senders_shut ho) ho

/-- A poll that loses the rest of the body fails while that arrives. -/
theorem Polls.whole (h : Polls false c r c') (hc : c.io.Sound) (hw : Whole c) :
    Whole c' ∨ c.state.receiving = true ∧ (∃ e, r = .fail e) ∧ c'.complete = false := by
  have hp := h.post hc
  have hm : ∀ {c₁}, Moves false c c₁ → Whole c₁ := fun hm =>
    moves_keep (fun _ _ hm => hm.passes.whole) hm hw
  cases r with
  | ready package => exact .inl (hm hp.1)
  | pending =>
      obtain ⟨c₁, hms, hs⟩ := hp
      exact .inl (hs.keeps.whole (hm hms))
  | fail e =>
      obtain ⟨c₁, c₂, hms, hs, rfl⟩ := hp
      cases hcomp : (shut c₂).complete with
      | true => exact .inl fun _ => hcomp
      | false =>
          refine .inr ⟨?_, ⟨e, rfl⟩, rfl⟩
          by_contra hrec
          -- A body that has been complete stays so.
          have h₁ : c₁.complete = true := moves_keep (I := fun c => c.complete = true)
            (fun _ _ hm => hm.passes.complete) hms (hw (Bool.not_eq_true _ ▸ hrec))
          rw [complete_shut, hs.keeps.complete, h₁] at hcomp
          cases hcomp
  | panic m =>
      obtain ⟨c₁, hms, hs⟩ := hp
      exact .inl (hs.keeps.whole (hm hms))
  | diverge => exact hp.elim

/-- Of the body's channel there is nothing left. -/
structure Exhausted (c : Conn) : Prop where
  receiving : c.state.receiving = false
  senders : c.body.senders = 0
  queue : c.body.queue = []

omit [VecAlloc] [Crates] in
theorem Keeps.exhausted (h : Keeps c c') (he : Exhausted c) : Exhausted c' where
  receiving := h.receiving.trans he.receiving
  senders := h.senders.trans he.senders
  queue := h.queue.trans he.queue

omit [VecAlloc] [Crates] in
theorem Passes.exhausted (h : Passes c c') (he : Exhausted c) : Exhausted c' := by
  cases h with
  | keeps h => exact h.exhausted he
  | chunk hk hb heq =>
      rw [hk.receiving, he.receiving] at hb
      cases hb

/-- A poll that does not fail keeps it so. -/
theorem Polls.exhausted (h : Polls false c r c') (hc : c.io.Sound) (he : Exhausted c)
    (hr : driven c'.io r = .ready ()) : Exhausted c' := by
  have hp := h.post hc
  have hm : ∀ {c₁}, Moves false c c₁ → Exhausted c₁ := fun hm =>
    moves_keep (fun _ _ hm => hm.passes.exhausted) hm he
  cases r with
  | ready package => exact hm hp.1
  | pending =>
      obtain ⟨c₁, hms, hs⟩ := hp
      exact hs.keeps.exhausted (hm hms)
  | fail e => cases hr
  | panic m => cases hr
  | diverge => cases hr

/-- A poll that fails drops the sender of the body. -/
theorem Polls.failed {e : IoError} (h : Polls false c (.fail e) c') (hc : c.io.Sound)
    (ho : Owned c) : c'.state = .closed ∧ c'.body.senders = 0 := by
  obtain ⟨c₁, c₂, hm, hs, rfl⟩ := h.post hc
  have ho₁ : Owned c₁ := moves_keep (fun _ _ hm => hm.passes.owned) hm ho
  exact ⟨rfl, senders_shut (hs.keeps.owned ho₁)⟩

/-! ### Runs -/

/-- A poll of the codec has failed that no read has made. -/
def Obs.fails : Obs → Bool
  | .driven (.fail _) => true
  | .closed (.fail _) => true
  | _ => false

/-- The step breaks the body off: while that is arriving for a `RecvStream`, a poll of the codec for
another handle fails, and the body is not complete. -/
structure Truncates (w : World) (a : Action) : Prop where
  held : w.recv.isSome = true
  receiving : w.conn.state.receiving = true
  fails : (step a w).1.fails = true
  incomplete : (step a w).2.conn.complete = false

instance (w : World) : DecidablePred (Truncates w) := fun a =>
  decidable_of_iff (w.recv.isSome = true ∧ w.conn.state.receiving = true ∧
    (step a w).1.fails = true ∧ (step a w).2.conn.complete = false)
    ⟨fun h => ⟨h.1, h.2.1, h.2.2.1, h.2.2.2⟩, fun h => ⟨h.1, h.2, h.3, h.4⟩⟩

/-- Whether a read of the `RecvStream` at hand has failed by then. -/
def Obs.failsRead (failed : Bool) : Obs → Bool
  | .accepted (.ready (some _)) => false
  | .read (.fail _) => true
  | _ => failed

def readFailed (os : List Obs) : Bool := os.foldl Obs.failsRead false

omit [VecAlloc] [Crates] in
theorem readFailed_concat (os : List Obs) (o : Obs) :
    readFailed (os ++ [o]) = o.failsRead (readFailed os) := by
  simp [readFailed]

/-- The `RecvStream` that is held is told of a body that ends early. -/
structure Told (os : List Obs) (w : World) : Prop where
  sane : w.Sane
  fed : w.Fed
  owned : w.recv.isSome = true → Owned w.conn
  whole : w.recv.isSome = true → readFailed os = true ∨ Whole w.conn

omit [VecAlloc] [Crates] in
theorem owned_received (req : Request) (c : Conn) : Owned (received req c) := by
  cases hn : (LimitRead.fromHeaders req.headers false).isNoBody with
  | true => simp [Owned, received, State.receiving, Bidirect.new, hn, Chan.new]
  | false => simp [Owned, received, State.receiving, Bidirect.new, hn, Chan.new]

omit [VecAlloc] [Crates] in
theorem whole_received (req : Request) (c : Conn) : Whole (received req c) := by
  intro hr
  rw [received, State.receiving, Bidirect.new, Bool.not_eq_false'] at hr
  exact hr

theorem owned_step {w : World} (hio : w.conn.io.Sound) (ho : w.recv.isSome = true → Owned w.conn)
    (hf : w.Fed) (a : Action) : (step a w).2.recv.isSome = true → Owned (step a w).2.conn := by
  have ha := step_acts a w
  generalize (step a w).1 = o at ha
  generalize (step a w).2 = w' at ha ⊢
  cases ha with
  | idle => exact ho
  | held hh => exact ho
  | @accept cx req recv expectsNoBody c hh hp =>
      obtain ⟨-, -, ⟨c₁, heq⟩, -, -⟩ := hp.post hio
      intro _
      have hc : c = received req c₁ := heq
      subst hc
      exact owned_received req c₁
  | noAccept hh hp hr =>
      intro hrecv
      rw [World.held, hrecv] at hh
      cases hh
  | close hp => exact fun hr => hp.owned hio (ho hr)
  | read hr hp hb hd =>
      have ho' := hp.owned hio (ho (by rw [hr]; rfl))
      obtain ⟨-, hs, -⟩ := wp_elim (pollBodyData_spec ((hp.fed hio (hf _ hr)).1).holds) hb
      intro _
      rw [Owned]
      exact hs.trans ho'
  | noRead hr hp hne hd => exact fun hs => hp.owned hio (ho hs)
  | refused hr hc => exact ho
  | respond hr hc hl => exact ho
  | pushData hs hp => exact ho
  | drive hp hd => exact fun hr => hp.owned hio (ho hr)
  | dropRecv hr => exact fun hs => (by cases hs)
  | dropRespond hr => exact ho
  | dropSend hs => exact ho

theorem owned_after (inner : Transport) (as : List Action)
    (hr : (Runs.after step as (handshake inner)).recv.isSome = true) :
    Owned (Runs.after step as (handshake inner)).conn :=
  (reachable_keeps (I := fun w => w.Fed ∧ (w.recv.isSome = true → Owned w.conn))
    (fun _ a hw h => ⟨fed_step hw.sound h.1 a, owned_step hw.sound h.2 h.1 a⟩)
    ⟨by rintro recv ⟨⟩, by rintro ⟨⟩⟩ as).2 hr

/-- A poll for another handle. -/
theorem whole_polled {failed : Bool} {w : World} {c : Conn} (hio : w.conn.io.Sound)
    (hp : Polls false w.conn r c) (hw : failed = true ∨ Whole w.conn)
    (ht : w.conn.state.receiving = true → (∃ e, r = .fail e) → c.complete = true) :
    failed = true ∨ Whole c := by
  refine hw.imp_right fun hw => (hp.whole hio hw).resolve_right ?_
  rintro ⟨hrec, he, hc⟩
  rw [ht hrec he] at hc
  cases hc

/-- A read returns the failure of its own poll. -/
theorem whole_read {failed : Bool} {w : World} {c : Conn} {o : Outcome IoError Bytes}
    (hio : w.conn.io.Sound) (hp : Polls false w.conn r c) (hw : failed = true ∨ Whole w.conn)
    (ho : ∀ e, r = .fail e → o = .fail e) :
    Obs.failsRead failed (.read o) = true ∨ Whole c := by
  have hpolled : (∀ e, o ≠ .fail e) → failed = true ∨ Whole c := by
    refine fun hne => whole_polled hio hp hw fun _ he => ?_
    obtain ⟨e, he⟩ := he
    exact absurd (ho e he) (hne e)
  cases o with
  | fail e => exact .inl rfl
  | ready bs => exact hpolled (by simp)
  | pending => exact hpolled (by simp)
  | panic m => exact hpolled (by simp)
  | diverge => exact hpolled (by simp)

theorem told_step {os : List Obs} {w : World} {a : Action} (h : Told os w)
    (ht : ¬ Truncates w a) : Told (os ++ [(step a w).1]) (step a w).2 := by
  have hio := h.sane.sound
  refine ⟨h.sane.step a, fed_step hio h.fed a, owned_step hio h.owned h.fed a, ?_⟩
  have hcut : w.recv.isSome = true → w.conn.state.receiving = true →
      (step a w).1.fails = true → (step a w).2.conn.complete = true := by
    intro hr hrec he
    by_contra hc
    exact ht ⟨hr, hrec, he, Bool.not_eq_true _ ▸ hc⟩
  rw [readFailed_concat]
  have ha := step_acts a w
  generalize (step a w).1 = o at ha hcut
  generalize (step a w).2 = w' at ha hcut ⊢
  cases ha with
  | idle => exact h.whole
  | held hh => exact h.whole
  | @accept cx req recv expectsNoBody c hh hp =>
      obtain ⟨-, -, ⟨c₁, heq⟩, -, -⟩ := hp.post hio
      intro _
      have hc : c = received req c₁ := heq
      subst hc
      exact .inr (whole_received req c₁)
  | noAccept hh hp hr =>
      intro hrecv
      rw [World.held, hrecv] at hh
      cases hh
  | close hp =>
      refine fun hr => whole_polled hio hp (h.whole hr) fun hrec he => hcut hr hrec ?_
      obtain ⟨e, rfl⟩ := he
      rfl
  | @read cx n recv recv' o r c body hr hp hb hd =>
      have hw : Obs.failsRead (readFailed os) (.read o) = true ∨ Whole c := by
        refine whole_read hio hp (h.whole (by rw [hr]; rfl)) ?_
        rintro e rfl
        cases hd
      exact fun _ => hw
  | noRead hr hp hne hd =>
      refine fun hrecv => whole_read hio hp (h.whole hrecv) ?_
      rintro e rfl
      exact hd
  | refused hr hc => exact h.whole
  | respond hr hc hl => exact h.whole
  | pushData hs hp => exact h.whole
  | drive hp hd =>
      refine fun hr => whole_polled hio hp (h.whole hr) fun hrec he => hcut hr hrec ?_
      obtain ⟨e, rfl⟩ := he
      rw [hd]
      rfl
  | dropRecv hr => exact fun hs => (by cases hs)
  | dropRespond hr => exact h.whole
  | dropSend hs => exact h.whole

/-- The failed poll has closed the connection, and the body's channel with it. -/
theorem Truncates.closes {w : World} {a : Action} (h : Truncates w a) (hio : w.conn.io.Sound)
    (ho : Owned w.conn) :
    (step a w).2.conn.state = .closed ∧ (step a w).2.conn.body.senders = 0 := by
  have hf := h.fails
  have ha := step_acts a w
  generalize (step a w).1 = o at ha hf
  generalize (step a w).2 = w' at ha ⊢
  cases ha with
  | @close cx r c hp =>
      cases r with
      | fail e => exact hp.failed hio ho
      | _ => cases hf
  | @drive cx o r c hp hdriven =>
      subst hdriven
      cases r with
      | fail e => exact hp.failed hio ho
      | ready package => cases package <;> cases hf
      | pending =>
          rw [driven] at hf
          split at hf <;> cases hf
      | panic m => cases hf
      | diverge => cases hf
  | _ => cases hf

/-- **A body that is broken off ends for its `RecvStream`**: once what it holds is read, a read whose
drive is ready returns nothing. -/
theorem Truncates.reads_end (inner : Transport) (as : List Action) (a : Action)
    (h : Truncates (Runs.after step as (handshake inner)) a) :
    let w := (step a (Runs.after step as (handshake inner))).2
    ∀ recv cx n, w.recv = some recv → recv.ready = none → w.conn.body.queue = [] →
      (pollDriveExternal cx w.conn).1 = .ready () →
      (step (.read cx n) w).1 = .read (.ready []) := by
  intro w recv cx n hrecv hr hq hd
  have hio := (sane_after inner as).sound
  have hio' : w.conn.io.Sound := (step_acts a _).sound hio
  obtain ⟨hs, h0⟩ := h.closes hio (owned_after inner as h.held)
  have he : Exhausted w.conn := ⟨by rw [hs]; rfl, h0, hq⟩
  rcases hx : pollDriveExternal cx w.conn with ⟨d, c⟩
  rw [hx] at hd
  obtain rfl : d = .ready () := hd
  obtain ⟨r, hp, hd⟩ := pollDriveExternal_polls hx
  have he' := hp.exhausted hio' he hd.symm
  have hstep : step (.read cx n) w = read cx (n + 1) recv w := by rw [step, hrecv]
  rw [hstep, read_ready hx, pollBodyData_nil hr he'.queue he'.senders]

theorem told_after (inner : Transport) {as : List Action}
    (h : Along step (fun w a => ¬ Truncates w a) as (handshake inner)) :
    Told (run step as (handshake inner)).1 (Runs.after step as (handshake inner)) := by
  have h₀ : Told [] (handshake inner) :=
    ⟨sane_handshake inner, by rintro recv ⟨⟩, by rintro ⟨⟩, by rintro ⟨⟩⟩
  have hrun := run_history (I := Told) (fun _ _ _ hI ht => told_step hI ht) h h₀
  exact hrun

/-- **The end that is read is the end of the body**, in a run no step of which breaks one off: a read
returns nothing only if the body is complete, or a read of this `RecvStream` has failed before. -/
theorem read_end_whole (inner : Transport) (as : List Action) (cx : Waker) (n : Nat)
    (h : Along step (fun w a => ¬ Truncates w a) as (handshake inner)) :
    let p := step (.read cx n) (Runs.after step as (handshake inner))
    p.1 = .read (.ready []) →
      p.2.conn.complete = true ∨ readFailed (run step as (handshake inner)).1 = true := by
  intro p hread
  have ht := told_after inner h
  have hio := ht.sane.sound
  have ha : Acts _ _ p.1 p.2 := step_acts _ _
  generalize p.1 = o at ha hread
  generalize p.2 = w' at ha ⊢
  subst hread
  cases ha with
  | @read _ _ recv recv' _ r c body hr hp hb hd =>
      have hrecv : (Runs.after step as (handshake inner)).recv.isSome = true := by rw [hr]; rfl
      have h0 := (pollBodyData_end (hp.fed hio (ht.fed recv hr)).1.holds.fits hb).1
      -- The sender has gone, so that the body is not arriving any more.
      have hrec : c.state.receiving = false := by
        by_contra hrec
        have ho := hp.owned hio (ht.owned hrecv)
        rw [Owned, if_pos (Bool.not_eq_false _ ▸ hrec), h0] at ho
        cases ho
      have hw : readFailed (run step as (handshake inner)).1 = true ∨ Whole c := by
        refine whole_polled hio hp (ht.whole hrecv) fun _ he => ?_
        obtain ⟨e, rfl⟩ := he
        cases hd
      exact hw.symm.imp_left fun hw => hw hrec
  | noRead hr hp hne hd => exact absurd rfl (hne [])

/-- The body is read, with a drive for the other handle. -/
def readWhole : List Action := [.accept 0, .drive 0, .read 0 9]

omit [VecAlloc] [Crates] in
theorem readWhole_untruncated :
    letI := VecAlloc.amortized
    letI := postCrates
    Along step (fun w a => ¬ Truncates w a) readWhole (handshake wholeBody) ∧
      (step (.read 0 9) (Runs.after step readWhole (handshake wholeBody))).1 = .read (.ready []) :=
  ⟨⟨by decide +kernel, by decide +kernel, by decide +kernel, trivial⟩, by decide +kernel⟩

omit [VecAlloc] [Crates] in
theorem readWhole_end :
    letI := VecAlloc.amortized
    letI := postCrates
    let p := step (.read 0 9) (Runs.after step readWhole (handshake wholeBody))
    p.1 = .read (.ready []) ∧ (p.2.conn.complete = true ∨
      readFailed (run step readWhole (handshake wholeBody)).1 = true) :=
  ⟨readWhole_untruncated.2, @read_end_whole postCrates VecAlloc.amortized wholeBody readWhole 0 9
    readWhole_untruncated.1 readWhole_untruncated.2⟩

/-- A peer that has sent half of the body when the connection is reset. -/
def resetBody : Transport :=
  ⟨[.data (postHead ++ ascii "hello"), .fail ⟨.connectionReset, "Connection reset by peer"⟩],
    false, [], [], 0⟩

/-- What has arrived is read, and `send_response` drives the codec. -/
def driveReset : List Action := [.accept 0, .read 0 9, .respond twoByteRes false, .drive 0]

omit [VecAlloc] [Crates] in
/-- **Half of a body passes for the whole.**  The reset is the other handle's error. -/
theorem reset_passes :
    letI := VecAlloc.amortized
    letI := postCrates
    let p := step (.read 0 9) (Runs.after step driveReset (handshake resetBody))
    (run step driveReset (handshake resetBody)).1.drop 1 =
        [.read (.ready (ascii "hello")), .responded (.ok ()),
          .driven (.fail ⟨.connectionReset, "Connection reset by peer"⟩)] ∧
      p.1 = .read (.ready []) ∧ p.2.conn.complete = false ∧
      readFailed (run step driveReset (handshake resetBody)).1 = false := by decide +kernel

end HreqH1.Server
