import HreqH1.Concurrent.Requests

/-!
# Concurrent — no request is stranded

The sender for a response is where the request is: with the thread that calls `send_request`, in the
queue, or with the codec.  Whatever takes a request drops the sender or hands it on, so once the
`Connection` is gone no sender is left for a `ResponseFuture` to wait for (`none_stranded`).
-/

namespace HreqH1.Requests
open PollM Runs Client

/-! ### The codec -/

/-- The sender for the response `i` is with the codec, or in its queue. -/
def Holds (c : Conn) (i : Nat) : Prop :=
  (∃ h ∈ c.reqRx.queue, h.resTx = some i) ∨ ∃ h, c.state = .recvRes h ∧ h.handle.resTx = some i

/-- A sender for a response that goes out of the codec's hands is dropped, and none comes back. -/
structure Kept (c c' : Conn) : Prop where
  senders : ∀ i, (c'.res i).senders ≤ (c.res i).senders
  holds : ∀ i, Holds c i → Holds c' i ∨ (c'.res i).senders = 0
  feeds : ∀ i, Feeds (c.res i) (c'.res i)
  requests : SameRequests c.reqRx c'.reqRx

section Kept
variable {c c' c'' : Conn}

theorem Kept.refl (c : Conn) : Kept c c :=
  ⟨fun _ => Nat.le_refl _, fun _ => .inl, fun _ => .refl _, .refl _⟩

theorem Kept.trans (h : Kept c c') (h' : Kept c' c'') : Kept c c'' where
  senders := fun i => Nat.le_trans (h'.senders i) (h.senders i)
  holds := fun i hi => by
    rcases h.holds i hi with hi | h0
    · exact h'.holds i hi
    · exact .inr (Nat.le_zero.mp (h0 ▸ h'.senders i))
  feeds := fun i => (h.feeds i).trans (h'.feeds i)
  requests := h.requests.trans h'.requests

/-- Nothing is sent, and the senders that are held still are. -/
theorem Kept.of_res (hres : c'.res = c.res) (hr : SameRequests c.reqRx c'.reqRx)
    (hq : ∀ h ∈ c.reqRx.queue, h ∈ c'.reqRx.queue ∨ ∀ i, h.resTx = some i → Holds c' i)
    (hs : ∀ h i, c.state = .recvRes h → h.handle.resTx = some i → Holds c' i) : Kept c c' where
  senders := fun i => hres ▸ Nat.le_refl _
  holds := fun i hi => by
    rcases hi with ⟨h, hm, hi⟩ | ⟨h, hst, hi⟩
    · rcases hq h hm with hm' | hh
      · exact .inl (.inl ⟨h, hm', hi⟩)
      · exact .inl (hh i hi)
    · exact .inl (hs h i hst hi)
  feeds := fun i => by
    rw [hres]
    exact .refl _
  requests := hr

/-- Nothing but the streams has changed. -/
theorem Kept.same (hres : c'.res = c.res) (hr : c'.reqRx = c.reqRx) (hs : c'.state = c.state) :
    Kept c c' :=
  .of_res hres (hr ▸ .refl _) (fun _ hm => .inl (hr ▸ hm)) fun h _ hst hi =>
    .inr ⟨h, hs.trans hst, hi⟩

/-- Only the state has changed. -/
theorem Kept.state (hres : c'.res = c.res) (hr : c'.reqRx = c.reqRx)
    (hs : ∀ h i, c.state = .recvRes h → h.handle.resTx = some i →
      ∃ h', c'.state = .recvRes h' ∧ h'.handle.resTx = some i) : Kept c c' :=
  .of_res hres (hr ▸ .refl _) (fun _ hm => .inl (hr ▸ hm)) fun h i hst hi => .inr (hs h i hst hi)

/-- A handle that goes out of scope. -/
theorem kept_dropHandle (h : Handle) (c : Conn) : Kept c (c.dropHandle h) ∧
    ∀ i, h.resTx = some i → (c.res i).senders ≤ 1 → ((c.dropHandle h).res i).senders = 0 := by
  rw [Conn.dropHandle]
  cases h.resTx with
  | none => exact ⟨.same rfl rfl rfl, by simp⟩
  | some i =>
      have hres : ∀ j, ((atId c.res i Chan.dropSender) j).senders ≤ (c.res j).senders := by
        intro j
        by_cases hj : j = i
        · subst hj
          rw [atId_self, Chan.senders_dropSender]
          exact Nat.sub_le _ _
        · exact Nat.le_of_eq (by rw [atId_of_ne hj])
      refine ⟨⟨hres, fun _ => .inl, feeds_atId feeds_dropSender, .refl _⟩, fun j hj h1 => ?_⟩
      obtain rfl := Option.some.inj hj
      show (atId c.res i Chan.dropSender i).senders = 0
      rw [atId_self, Chan.senders_dropSender]
      exact Nat.sub_eq_zero_of_le h1

variable [Crates]

omit [Crates] in
/-- A response is received, and its sender dropped. -/
theorem kept_answered {h : Bidirect} {i : Nat} (res : Response) (hs : c.state = .recvRes h)
    (hi : h.handle.resTx = some i) (h1 : (c.res i).senders ≤ 1) (hr : c'.res = (answered h i res c).res)
    (hq : c'.reqRx = c.reqRx) (hs' : c'.state = .recvRes (h.answered i res)) : Kept c c' := by
  obtain ⟨a, ha⟩ : ∃ a, c'.res = atId c.res i fun r => (r.offer a).dropSender := ⟨_, hr⟩
  have hsame : ∀ j, j ≠ i → c'.res j = c.res j := fun j hj => by rw [ha, atId_of_ne hj]
  have hself : c'.res i = ((c.res i).offer a).dropSender := by rw [ha, atId_self]
  have h0 : (c'.res i).senders = 0 := by
    rw [hself, Chan.senders_dropSender, Chan.senders_offer]
    exact Nat.sub_eq_zero_of_le h1
  refine ⟨fun j => ?_, fun j hj => ?_, fun j => ?_, hq ▸ .refl _⟩
  · by_cases hj : j = i
    · subst hj
      rw [h0]
      exact Nat.zero_le _
    · exact Nat.le_of_eq (by rw [hsame j hj])
  · rcases hj with ⟨x, hm, hx⟩ | ⟨x, hst, hx⟩
    · exact .inl (.inl ⟨x, hq ▸ hm, hx⟩)
    · obtain rfl := State.recvRes.inj (hs.symm.trans hst)
      obtain rfl := Option.some.inj (hi.symm.trans hx)
      exact .inr h0
  · by_cases hj : j = i
    · subst hj
      rw [hself]
      exact (feeds_offer a).trans feeds_dropSender
    · rw [hsame j hj]
      exact .refl _

omit [Crates] in
/-- A request is taken off the queue. -/
theorem kept_takes {handle : Handle} {rx : Chan Handle} (hs : c.state = .sendReq)
    (ht : c.reqRx.Takes handle rx) (hres : c'.res = c.res) (hr : c'.reqRx = rx)
    (hh : ∀ i, handle.resTx = some i → Holds c' i) : Kept c c' := by
  refine .of_res hres ?_ (fun x hm => ?_) fun h i hst => ?_
  · rw [hr]
    exact ⟨ht.sent, ht.ended, ht.receivers⟩
  · rw [ht.queue] at hm
    rcases List.mem_cons.mp hm with rfl | hm
    · exact .inr hh
    · exact .inl (hr ▸ hm)
  · rw [hs] at hst
    cases hst

omit [Crates] in
/-- A request is taken off the queue, and goes out of scope. -/
theorem kept_taken_dropped {handle : Handle} {rx : Chan Handle} (io : BufIo)
    (hs : c.state = .sendReq) (ht : c.reqRx.Takes handle rx) (h1 : ∀ i, (c.res i).senders ≤ 1) :
    Kept c (Conn.dropHandle handle { c with io := io, reqRx := rx }) := by
  obtain ⟨hk, h0⟩ := kept_dropHandle handle { c with io := io, reqRx := rx }
  refine ⟨hk.senders, fun i hi => ?_, hk.feeds, ⟨ht.sent, ht.ended, ht.receivers⟩⟩
  rcases hi with ⟨x, hm, hx⟩ | ⟨x, hst, hx⟩
  · rw [ht.queue] at hm
    rcases List.mem_cons.mp hm with rfl | hm
    · exact .inr (h0 i hx (h1 i))
    · exact .inl (.inl ⟨x, hm, hx⟩)
  · rw [hs] at hst
    cases hst

theorem move_kept (h : Move c c') (h1 : ∀ i, (c.res i).senders ≤ 1) : Kept c c' := by
  have hbody : ∀ {b}, c.state = .recvBody b → ∀ h i, c.state = .recvRes h →
      h.handle.resTx = some i → ∃ h', c'.state = .recvRes h' ∧ h'.handle.resTx = some i := by
    intro b hb h i hst
    rw [hb] at hst
    cases hst
  cases h with
  | write hw ht => exact .same rfl rfl rfl
  | read hr => exact .same rfl rfl rfl
  | wake hq => exact .same rfl rfl rfl
  | rest hs hq =>
      refine .of_res rfl ⟨hq.sent, hq.ended, hq.receivers⟩ (fun x hm => .inl (hq.queue ▸ hm)) ?_
      exact fun h i hst hi => .inr ⟨h, hst, hi⟩
  | request hs ht hh hw hio =>
      exact kept_takes hs ht rfl rfl fun i hi => .inr ⟨_, rfl, hi⟩
  | response hs hi hf hp => exact kept_answered _ hs hi (h1 _) rfl rfl rfl
  | item hs hi ht hw hio =>
      refine .state rfl rfl fun h i hst hi => ?_
      obtain rfl := State.recvRes.inj (hs.symm.trans hst)
      exact ⟨_, rfl, hi⟩
  | toBody hs hr hb hh =>
      refine .state rfl rfl fun h i hst hi => ?_
      obtain rfl := State.recvRes.inj (hs.symm.trans hst)
      cases hr.symm.trans hi
  | toNext hs hr hb hh hu =>
      refine .state rfl rfl fun h i hst hi => ?_
      obtain rfl := State.recvRes.inj (hs.symm.trans hst)
      cases hr.symm.trans hi
  | chunk hs hc ho hn hl hr hne => exact .state rfl rfl (hbody hs)
  | lastRead hs hc hn hl hr he => exact .state rfl rfl (hbody hs)
  | bodyEnd hs hc => exact .same rfl rfl rfl
  | bodyNext hs hc hm hu => exact .state rfl rfl (hbody hs)

theorem stop_kept {k : Halt IoError} (h : Stop k c c') (h1 : ∀ i, (c.res i).senders ≤ 1) :
    Kept c c' := by
  have hres : ∀ {b}, c.state = .recvRes b → ∀ {i fin}, c'.state = .recvRes (b.sent i fin) →
      ∀ h i, c.state = .recvRes h → h.handle.resTx = some i →
        ∃ h', c'.state = .recvRes h' ∧ h'.handle.resTx = some i := by
    intro b hb i fin hs' h i hst hi
    obtain rfl := State.recvRes.inj (hb.symm.trans hst)
    exact ⟨_, hs', hi⟩
  have hbody : ∀ {b}, c.state = .recvBody b → ∀ h i, c.state = .recvRes h →
      h.handle.resTx = some i → ∃ h', c'.state = .recvRes h' ∧ h'.handle.resTx = some i := by
    intro b hb h i hst
    rw [hb] at hst
    cases hst
  cases h with
  | awaitRequest hs hr hq hn =>
      refine .of_res rfl ⟨hr.sent, hr.ended, hr.receivers⟩ (fun x hm => .inl (hr.queue ▸ hm)) ?_
      exact fun h i hst hi => .inr ⟨h, hst, hi⟩
  | requestFailed hs ht hw hio why => exact kept_taken_dropped _ hs ht h1
  | requestPanic hs ht why => exact kept_taken_dropped c.io hs ht h1
  | headPendingSent hs hi ht hr hw hio => exact .state rfl rfl (hres hs rfl)
  | itemFailed hs hi ht hw hio why => exact .state rfl rfl (hres hs rfl)
  | limitPending hs hc hn hl hr hw => exact .state rfl rfl (hbody hs)
  | limitFailed hs hc hl hn hr hk why => exact .state rfl rfl (hbody hs)
  | _ => exact .same rfl rfl rfl

omit [Crates] in
/-- A forwarded error leaves the sender where it is. -/
theorem kept_tryForwardError (e : IoError) (c : Conn) : Kept c (tryForwardError e c) := by
  rw [tryForwardError]
  split
  · exact .refl c
  · next h hst =>
    split
    · next i hi =>
      rw [pollRes, run_zoom, Chan.send_eq]
      have hsend : ∀ j, ((atId c.res i fun _ => (c.res i).offer (.error e)) j).senders =
          (c.res j).senders := by
        intro j
        by_cases hj : j = i
        · subst hj
          rw [atId_self, Chan.senders_offer]
        · rw [atId_of_ne hj]
      refine ⟨fun j => Nat.le_of_eq (hsend j), fun _ => .inl, fun j => ?_, .refl _⟩
      exact feeds_atId (g := fun _ => (c.res i).offer (.error e)) (feeds_offer _) j
    · exact .refl c
  · exact .same rfl rfl rfl

/-- A round of `drive`. -/
theorem driveRound_kept [VecAlloc] {cx : Waker} (hs : c.io.Sound) (h1 : ∀ i, (c.res i).senders ≤ 1) :
    wp (driveRound cx ()) (fun _ c' => c'.io.Sound ∧ Kept c c') c := by
  have hM : ∀ c₁ c₂, Move c₁ c₂ → c₁.io.Sound ∧ Kept c c₁ → c₂.io.Sound ∧ Kept c c₂ := by
    rintro c₁ c₂ hm ⟨hs₁, hk⟩
    exact ⟨hm.sound hs₁, hk.trans (move_kept hm fun i => Nat.le_trans (hk.senders i) (h1 i))⟩
  have hS : ∀ k c₁ c₂, Stop k c₁ c₂ → c₁.io.Sound ∧ Kept c c₁ → c₂.io.Sound ∧ Kept c c₂ := by
    rintro k c₁ c₂ hst ⟨hs₁, hk⟩
    exact ⟨hst.sound hs₁, hk.trans (stop_kept hst fun i => Nat.le_trans (hk.senders i) (h1 i))⟩
  have hmoves : ∀ {c'}, Moves c c' → c'.io.Sound ∧ Kept c c' := fun hm =>
    moves_keep (I := fun c' => c'.io.Sound ∧ Kept c c') hM hm ⟨hs, .refl c⟩
  refine (driveRound_moves hs).mono fun r c' hr => ?_
  cases r with
  | pending =>
      obtain ⟨c₁, hm, hst⟩ := hr
      exact hS _ _ _ hst (hmoves hm)
  | ready f =>
      cases f with
      | again _ => exact hmoves hr.1
      | done _ => exact hmoves hr.1
  | fail e =>
      obtain ⟨c₁, hm, hst⟩ := hr
      exact hS _ _ _ hst (hmoves hm)
  | panic m =>
      obtain ⟨c₁, hm, hst⟩ := hr
      exact hS _ _ _ hst (hmoves hm)
  | diverge => exact hr.elim

end Kept

/-! ### The threads -/

/-- The request of the `k`-th thread's call. -/
def World.callAt (w : World) (k : Nat) : Option Nat := w.threads[k]?.bind RequestAt.call

/-- The response is still to be asked for: its `ResponseFuture` is held, or about to be returned. -/
def World.Awaits (w : World) (i : Nat) : Prop := w.base.future i = true ∨ ∃ k, w.callAt k = some i

/-- The sender for the response `i` is with a thread that calls `send_request`, in the queue, or with
a codec that has its state. -/
def World.Owns (w : World) (i : Nat) : Prop :=
  (∃ (k : Nat) (req : _) (noSendBody : _), w.threads[k]? = some (.sending i req noSendBody)) ∨
    (∃ h ∈ w.base.conn.reqRx.queue, h.resTx = some i) ∨ w.base.phase ≠ .dropped ∧ Holds w.base.conn i

/-- The requests have numbers of their own. -/
structure Numbered (w : World) : Prop where
  issued : ∀ i, w.Awaits i → i < w.base.issued
  apart : ∀ i k, w.base.future i = true → w.callAt k ≠ some i
  alone : ∀ k k' i, w.callAt k = some i → w.callAt k' = some i → k = k'

/-- Every sender has its owner, and nothing is lost on the way to a `ResponseFuture`. -/
structure Senders (w : World) : Prop where
  one : ∀ i, (w.base.conn.res i).senders ≤ 1
  owned : ∀ i, i < w.base.issued → (w.base.conn.res i).senders ≠ 0 → w.Owns i
  whole : ∀ i, w.Awaits i → (w.base.conn.res i).queue = (w.base.conn.res i).sent

/-- How far the `Connection` has been dropped. -/
structure Stage (w : World) : Prop where
  polls : ∀ cx, w.conn = .polling cx → w.base.phase ≠ .dropped
  drops : w.conn = .stateless → w.base.phase = .dropped
  running : w.base.phase ≠ .dropped → w.base.conn.reqRx.ended = false
  ended : w.base.phase = .dropped → w.conn ≠ .stateless → w.base.conn.reqRx.ended = true
  empty : w.base.conn.reqRx.ended = true → w.base.conn.reqRx.queue = []
  one : w.base.conn.reqRx.receivers ≤ 1
  gone : w.base.phase = .dropped → w.conn = .idle → w.base.conn.reqRx.receivers = 0

structure Inv (w : World) : Prop where
  sound : w.base.conn.io.Sound
  numbered : Numbered w
  senders : Senders w
  stage : Stage w

section Threads
variable {w w' : World} {k k' : Nat} {t t' : RequestAt}

theorem getElem?_setThread_self (hk : w.threads[k]? = some t) :
    (w.setThread k t').threads[k]? = some t' :=
  List.getElem?_set_self (lt_of_getElem? hk)

theorem getElem?_setThread_ne (hne : k' ≠ k) : (w.setThread k t').threads[k']? = w.threads[k']? :=
  List.getElem?_set_ne (Ne.symm hne)

theorem callAt_setThread_self (hk : w.threads[k]? = some t) :
    (w.setThread k t').callAt k = t'.call := by
  rw [World.callAt, getElem?_setThread_self hk]
  rfl

theorem callAt_setThread_ne (hne : k' ≠ k) : (w.setThread k t').callAt k' = w.callAt k' := by
  rw [World.callAt, getElem?_setThread_ne hne]
  rfl

theorem callAt_of_thread (hk : w.threads[k]? = some t) : w.callAt k = t.call := by
  rw [World.callAt, hk]
  rfl

/-- A thread whose call stays the same. -/
theorem callAt_setThread (hk : w.threads[k]? = some t) (hc : t'.call = t.call) (k' : Nat) :
    (w.setThread k t').callAt k' = w.callAt k' := by
  by_cases hne : k' = k
  · subst hne
    rw [callAt_setThread_self hk, hc, callAt_of_thread hk]
  · exact callAt_setThread_ne hne

/-- A new clone is in no call. -/
theorem callAt_clone (l : List RequestAt) (k : Nat) :
    ((l ++ [.held])[k]?).bind RequestAt.call = l[k]?.bind RequestAt.call := by
  by_cases hk : k < l.length
  · rw [List.getElem?_append_left hk]
  · rw [List.getElem?_append_right (Nat.not_lt.mp hk), List.getElem?_eq_none (Nat.not_lt.mp hk)]
    cases k - l.length with
    | zero => rfl
    | succ n => rfl

theorem Numbered.same (h : Numbered w) (hc : ∀ k, w'.callAt k = w.callAt k)
    (hf : ∀ i, w'.base.future i = true → w.base.future i = true)
    (hi : w'.base.issued = w.base.issued) : Numbered w' where
  issued := fun i ha => by
    rw [hi]
    refine h.issued i (ha.imp (hf i) ?_)
    rintro ⟨k, hk⟩
    exact ⟨k, hc k ▸ hk⟩
  apart := fun i k hfi hk => h.apart i k (hf i hfi) (hc k ▸ hk)
  alone := fun k k' i hk hk' => h.alone k k' i (hc k ▸ hk) (hc k' ▸ hk')

theorem Senders.same (h : Senders w)
    (h1 : ∀ i, (w'.base.conn.res i).senders ≤ (w.base.conn.res i).senders)
    (ho : ∀ i, w.Owns i → w'.Owns i ∨ (w'.base.conn.res i).senders = 0)
    (hw : ∀ i, w'.Awaits i → w.Awaits i ∧ Feeds (w.base.conn.res i) (w'.base.conn.res i))
    (hi : w'.base.issued = w.base.issued) : Senders w' where
  one := fun i => Nat.le_trans (h1 i) (h.one i)
  owned := fun i hlt h0 => by
    have hn : (w.base.conn.res i).senders ≠ 0 := fun h0' =>
      h0 (Nat.le_zero.mp (h0' ▸ h1 i))
    exact (ho i (h.owned i (hi ▸ hlt) hn)).resolve_right h0
  whole := fun i ha => by
    obtain ⟨haw, xs, hs, hq⟩ := hw i ha
    rw [hs, hq, h.whole i haw]

theorem Stage.same (h : Stage w) (hp : w'.base.phase = w.base.phase) (hc : w'.conn = w.conn)
    (hq : w'.base.conn.reqRx.queue = w.base.conn.reqRx.queue)
    (he : w'.base.conn.reqRx.ended = w.base.conn.reqRx.ended)
    (hr : w'.base.conn.reqRx.receivers = w.base.conn.reqRx.receivers) : Stage w' where
  polls := fun cx hpoll => hp ▸ h.polls cx (hc ▸ hpoll)
  drops := fun hst => hp ▸ h.drops (hc ▸ hst)
  running := fun hph => he.trans (h.running (hp ▸ hph))
  ended := fun hph hst => he.trans (h.ended (hp ▸ hph) (hc ▸ hst))
  empty := fun hen => hq.trans (h.empty (he.symm.trans hen))
  one := hr ▸ h.one
  gone := fun hph hst => hr.trans (h.gone (hp ▸ hph) (hc ▸ hst))

/-- Where neither calls nor futures change, the same responses are awaited. -/
theorem awaits_same (hc : ∀ k, w'.callAt k = w.callAt k) (hf : w'.base.future = w.base.future)
    {i : Nat} (h : w'.Awaits i) : w.Awaits i := by
  refine h.imp (fun hi => hf ▸ hi) ?_
  rintro ⟨k, hk⟩
  exact ⟨k, hc k ▸ hk⟩

end Threads

/-! ### What a step keeps -/

section Steps
variable {w : World} {k i : Nat} {req : Request} {noSendBody : Bool}

/-- A clone, or a `SendRequest` that is dropped. -/
theorem Inv.handle {w' : World} {rx : Chan Handle} (h : Inv w) (hc : ∀ k, w'.callAt k = w.callAt k)
    (ht : ∀ (k : Nat) i req b, w.threads[k]? = some (.sending i req b) →
      ∃ k' : Nat, w'.threads[k']? = some (.sending i req b))
    (hb : w'.base = { w.base with conn := { w.base.conn with reqRx := rx } }) (hcn : w'.conn = w.conn)
    (hq : rx.queue = w.base.conn.reqRx.queue) (he : rx.ended = w.base.conn.reqRx.ended)
    (hr : rx.receivers = w.base.conn.reqRx.receivers) : Inv w' where
  sound := hb ▸ h.sound
  numbered := h.numbered.same hc (fun i hf => by rw [hb] at hf; exact hf) (by rw [hb])
  senders := by
    refine h.senders.same (fun i => ?_) (fun i ho => ?_) (fun i ha => ?_) (by rw [hb])
    · exact Nat.le_of_eq (by rw [hb])
    · refine .inl ?_
      rcases ho with ⟨k, req, b, hk⟩ | ⟨x, hm, hx⟩ | ⟨hp, hh⟩
      · obtain ⟨k', hk'⟩ := ht k i req b hk
        exact .inl ⟨k', req, b, hk'⟩
      · refine .inr (.inl ⟨x, ?_, hx⟩)
        rw [hb]
        exact hq ▸ hm
      · refine .inr (.inr ⟨by rw [hb]; exact hp, ?_⟩)
        rw [hb]
        refine hh.imp (Exists.imp fun x hx => ?_) id
        exact ⟨hq ▸ hx.1, hx.2⟩
    · refine ⟨awaits_same hc (by rw [hb]) ha, ?_⟩
      rw [hb]
      exact .refl _
  stage := by
    refine h.stage.same (by rw [hb]) hcn ?_ ?_ ?_
    · rw [hb]
      exact hq
    · rw [hb]
      exact he
    · rw [hb]
      exact hr

/-- A call of `send_request` has its channels. -/
theorem Inv.begin (h : Inv w) (hk : w.threads[k]? = some .held) :
    Inv ((w.beginRequest noSendBody).setThread k (.sending w.base.issued req noSendBody)) := by
  generalize hw : (w.beginRequest noSendBody).setThread k (.sending w.base.issued req noSendBody) = w'
  have hself : w'.threads[k]? = some (.sending w.base.issued req noSendBody) :=
    hw ▸ getElem?_setThread_self hk
  have hne : ∀ k', k' ≠ k → w'.threads[k']? = w.threads[k']? := fun k' hk' =>
    hw ▸ getElem?_setThread_ne hk'
  have hcall : ∀ k' i, w'.callAt k' = some i → k' = k ∧ i = w.base.issued ∨
      k' ≠ k ∧ w.callAt k' = some i := by
    intro k' i hc
    by_cases hk' : k' = k
    · subst hk'
      rw [callAt_of_thread hself] at hc
      exact .inl ⟨rfl, (Option.some.inj hc).symm⟩
    · rw [World.callAt, hne k' hk'] at hc
      exact .inr ⟨hk', hc⟩
  have hf : w'.base.future = w.base.future := hw ▸ rfl
  have hi : w'.base.issued = w.base.issued + 1 := hw ▸ rfl
  have hres : w'.base.conn.res = atId w.base.conn.res w.base.issued fun _ => .new 1 := hw ▸ rfl
  have hold : ∀ i, i ≠ w.base.issued → w'.base.conn.res i = w.base.conn.res i := fun i hne => by
    rw [hres, atId_of_ne hne]
  have hnew : w'.base.conn.res w.base.issued = .new 1 := by rw [hres, atId_self]
  have hq : w'.base.conn.reqRx = w.base.conn.reqRx := hw ▸ rfl
  have hst : w'.base.conn.state = w.base.conn.state := hw ▸ rfl
  have hp : w'.base.phase = w.base.phase := hw ▸ rfl
  have hcn : w'.conn = w.conn := hw ▸ rfl
  have hawait : ∀ i, w'.Awaits i → i = w.base.issued ∨ w.Awaits i := by
    rintro i (hfi | ⟨k', hc⟩)
    · exact .inr (.inl (hf ▸ hfi))
    · rcases hcall k' i hc with ⟨-, rfl⟩ | ⟨-, hc⟩
      · exact .inl rfl
      · exact .inr (.inr ⟨k', hc⟩)
  refine ⟨hw ▸ h.sound, ⟨fun i ha => ?_, fun i k' hfi hc => ?_, fun k₁ k₂ i h₁ h₂ => ?_⟩,
    ⟨fun i => ?_, fun i hlt h0 => ?_, fun i ha => ?_⟩, ?_⟩
  · rw [hi]
    rcases hawait i ha with rfl | ha
    · exact Nat.lt_succ_self _
    · exact Nat.lt_succ_of_lt (h.numbered.issued i ha)
  · rcases hcall k' i hc with ⟨-, rfl⟩ | ⟨-, hc⟩
    · exact absurd (h.numbered.issued _ (.inl (hf ▸ hfi))) (Nat.lt_irrefl _)
    · exact h.numbered.apart i k' (hf ▸ hfi) hc
  · rcases hcall k₁ i h₁ with ⟨rfl, rfl⟩ | ⟨-, h₁⟩
    · rcases hcall k₂ _ h₂ with ⟨rfl, -⟩ | ⟨-, h₂⟩
      · rfl
      · exact absurd (h.numbered.issued _ (.inr ⟨k₂, h₂⟩)) (Nat.lt_irrefl _)
    · rcases hcall k₂ i h₂ with ⟨-, rfl⟩ | ⟨-, h₂⟩
      · exact absurd (h.numbered.issued _ (.inr ⟨k₁, h₁⟩)) (Nat.lt_irrefl _)
      · exact h.numbered.alone k₁ k₂ i h₁ h₂
  · by_cases hii : i = w.base.issued
    · subst hii
      rw [hnew]
      exact Nat.le_refl 1
    · rw [hold i hii]
      exact h.senders.one i
  · by_cases hii : i = w.base.issued
    · subst hii
      exact .inl ⟨k, req, noSendBody, hself⟩
    · rw [hold i hii] at h0
      have hlt' : i < w.base.issued := 
        Nat.lt_of_le_of_ne (Nat.le_of_lt_succ (Nat.lt_of_lt_of_eq hlt hi)) hii
      rcases h.senders.owned i hlt' h0 with ⟨k', req', b, hk'⟩ | ⟨x, hm, hx⟩ | ⟨hph, hh⟩
      · refine .inl ⟨k', req', b, (hne k' ?_).trans hk'⟩
        rintro rfl
        cases hk.symm.trans hk'
      · exact .inr (.inl ⟨x, hq ▸ hm, hx⟩)
      · refine .inr (.inr ⟨hp ▸ hph, ?_⟩)
        rw [Holds, hq, hst]
        exact hh
  · by_cases hii : i = w.base.issued
    · subst hii
      rw [hnew]
      rfl
    · rw [hold i hii]
      exact h.senders.whole i ((hawait i ha).resolve_left hii)
  · exact h.stage.same hp hcn (by rw [hq]) (by rw [hq]) (by rw [hq])

/-- The locked section of `send`: the handle is queued, or its sender dropped. -/
theorem Inv.enqueue (h : Inv w) (hk : w.threads[k]? = some (.sending i req noSendBody)) :
    Inv ((w.withConn (World.enqueueHandle (newHandle i req noSendBody) w.base.conn)).setThread k
      (.sent i req noSendBody)) := by
  generalize hx : newHandle i req noSendBody = x
  generalize hc : World.enqueueHandle x w.base.conn = c
  generalize hw : (w.withConn c).setThread k (.sent i req noSendBody) = w'
  have hxi : x.resTx = some i := hx ▸ rfl
  have hb : w'.base = { w.base with conn := c } := hw ▸ rfl
  have hsame : (RequestAt.sent i req noSendBody).call =
      (RequestAt.sending i req noSendBody).call := rfl
  have hcall : ∀ k', w'.callAt k' = w.callAt k' := fun k' =>
    hw ▸ callAt_setThread (w := w.withConn c) hk hsame k'
  have hother : ∀ k', k' ≠ k → w'.threads[k']? = w.threads[k']? := fun k' hne =>
    hw ▸ getElem?_setThread_ne (w := w.withConn c) hne
  -- What the locked section does, by whether the queue has ended.
  have hspec : c.io = w.base.conn.io ∧ c.state = w.base.conn.state ∧
      c.reqRx = w.base.conn.reqRx.enqueue x ∧
      (∀ j, (c.res j).senders ≤ (w.base.conn.res j).senders) ∧
      (∀ j, Feeds (w.base.conn.res j) (c.res j)) ∧
      (w.base.conn.reqRx.ended = true → (c.res i).senders = 0) := by
    obtain ⟨hd, h0⟩ := kept_dropHandle x w.base.conn
    rw [← hc, World.enqueueHandle]
    cases he : w.base.conn.reqRx.ended with
    | true => exact ⟨rfl, rfl, rfl, hd.senders, hd.feeds, fun _ => h0 i hxi (h.senders.one i)⟩
    | false => exact ⟨rfl, rfl, rfl, fun _ => Nat.le_refl _, fun _ => .refl _, by simp⟩
  obtain ⟨hio, hst, hq, h1, hfeeds, h0⟩ := hspec
  have hmem : ∀ y ∈ w.base.conn.reqRx.queue, y ∈ c.reqRx.queue := by
    intro y hy
    obtain ⟨ys, -, hys⟩ := feeds_enqueue (b := w.base.conn.reqRx) x
    rw [hq, hys]
    exact List.mem_append_left _ hy
  refine ⟨?_, h.numbered.same hcall (fun j hj => by rw [hb] at hj; exact hj) (by rw [hb]), ?_, ?_⟩
  · rw [hb]
    exact hio ▸ h.sound
  · refine h.senders.same (fun j => ?_) (fun j ho => ?_) (fun j ha => ?_) (by rw [hb])
    · rw [hb]
      exact h1 j
    · rcases ho with ⟨k', req', b, hk'⟩ | ⟨y, hm, hy⟩ | ⟨hp, hh⟩
      · by_cases hne : k' = k
        · subst hne
          obtain rfl : i = j := (RequestAt.sending.inj (Option.some.inj (hk.symm.trans hk'))).1
          rw [hb]
          cases he : w.base.conn.reqRx.ended with
          | true => exact .inr (h0 he)
          | false =>
              refine .inl (.inr (.inl ⟨x, ?_, hxi⟩))
              rw [hb]
              show x ∈ c.reqRx.queue
              rw [hq, Chan.queue_enqueue x he]
              exact List.mem_append_right _ List.mem_cons_self
        · exact .inl (.inl ⟨k', req', b, (hother k' hne).trans hk'⟩)
      · refine .inl (.inr (.inl ⟨y, ?_, hy⟩))
        rw [hb]
        exact hmem y hm
      · refine .inl (.inr (.inr ⟨by rw [hb]; exact hp, ?_⟩))
        rw [hb]
        refine hh.imp (Exists.imp fun y hy => ⟨hmem y hy.1, hy.2⟩) ?_
        rintro ⟨b, hs, hbi⟩
        exact ⟨b, hst.trans hs, hbi⟩
    · refine ⟨awaits_same hcall (by rw [hb]) ha, ?_⟩
      rw [hb]
      exact hfeeds j
  · have hs := h.stage
    have he : c.reqRx.ended = w.base.conn.reqRx.ended := by rw [hq, Chan.ended_enqueue]
    have hr : c.reqRx.receivers = w.base.conn.reqRx.receivers := by rw [hq, Chan.receivers_enqueue]
    have hcn : w'.conn = w.conn := hw ▸ rfl
    refine ⟨fun cx hpoll => ?_, fun hst => ?_, fun hph => ?_, fun hph hst => ?_, fun hen => ?_, ?_,
      fun hph hst => ?_⟩
    · rw [hb]
      exact hs.polls cx (hcn ▸ hpoll)
    · rw [hb]
      exact hs.drops (hcn ▸ hst)
    · rw [hb] at hph ⊢
      exact he.trans (hs.running hph)
    · rw [hb] at hph ⊢
      exact he.trans (hs.ended hph (hcn ▸ hst))
    · rw [hb] at hen ⊢
      have hend : w.base.conn.reqRx.ended = true := he.symm.trans hen
      show c.reqRx.queue = []
      rw [hq, Chan.enqueue, if_pos hend]
      exact hs.empty hend
    · rw [hb]
      exact hr ▸ hs.one
    · rw [hb] at hph ⊢
      exact hr.trans (hs.gone hph (hcn ▸ hst))

/-- The end of `send_request`. -/
theorem Inv.sent (h : Inv w) (hk : w.threads[k]? = some (.sent i req noSendBody)) :
    Inv ((w.returnRequest i req noSendBody).setThread k .held) := by
  generalize hw : (w.returnRequest i req noSendBody).setThread k .held = w'
  have hconn : w'.base.conn = w.base.conn := hw ▸ rfl
  have hi : w'.base.issued = w.base.issued := hw ▸ rfl
  have hp : w'.base.phase = w.base.phase := hw ▸ rfl
  have hcn : w'.conn = w.conn := hw ▸ rfl
  have hf : ∀ j, w'.base.future j = true → j = i ∨ w.base.future j = true := by
    intro j hj
    by_cases hji : j = i
    · exact .inl hji
    · rw [← hw] at hj
      exact .inr ((Function.update_of_ne hji ..).symm.trans hj)
  have hcall : ∀ k' j, w'.callAt k' = some j → k' ≠ k ∧ w.callAt k' = some j := by
    intro k' j hc
    rw [← hw] at hc
    by_cases hne : k' = k
    · subst hne
      rw [callAt_setThread_self (w := w.returnRequest i req noSendBody) hk] at hc
      cases hc
    · rw [callAt_setThread_ne hne] at hc
      exact ⟨hne, hc⟩
  have hki : w.callAt k = some i := callAt_of_thread hk
  have hawait : ∀ j, w'.Awaits j → w.Awaits j := by
    rintro j (hj | ⟨k', hc⟩)
    · rcases hf j hj with rfl | hj
      · exact .inr ⟨k, hki⟩
      · exact .inl hj
    · exact .inr ⟨k', (hcall k' j hc).2⟩
  refine ⟨hconn ▸ h.sound, ⟨fun j ha => ?_, fun j k' hj hc => ?_, fun k₁ k₂ j h₁ h₂ => ?_⟩, ?_, ?_⟩
  · exact hi ▸ h.numbered.issued j (hawait j ha)
  · obtain ⟨hne, hc⟩ := hcall k' j hc
    rcases hf j hj with rfl | hj
    · exact hne (h.numbered.alone k' k j hc hki)
    · exact h.numbered.apart j k' hj hc
  · exact h.numbered.alone k₁ k₂ j (hcall k₁ j h₁).2 (hcall k₂ j h₂).2
  · refine h.senders.same (fun j => ?_) (fun j ho => .inl ?_) (fun j ha => ?_) hi
    · exact hconn ▸ Nat.le_refl _
    · rcases ho with ⟨k', req', b, hk'⟩ | ho | ho
      · have hne : k' ≠ k := by
          rintro rfl
          cases hk.symm.trans hk'
        refine .inl ⟨k', req', b, ?_⟩
        rw [← hw]
        exact (getElem?_setThread_ne (w := w.returnRequest i req noSendBody) hne).trans hk'
      · exact .inr (.inl (hconn ▸ ho))
      · exact .inr (.inr ⟨hp ▸ ho.1, hconn ▸ ho.2⟩)
    · exact ⟨hawait j ha, hconn ▸ .refl _⟩
  · exact h.stage.same hp hcn (by rw [hconn]) (by rw [hconn]) (by rw [hconn])

/-- A poll begins, goes on or ends. -/
theorem Inv.polled {w' : World} (h : Inv w) (hs : w'.base.conn.io.Sound)
    (hk : Kept w.base.conn w'.base.conn) (hp : w.base.phase ≠ .dropped) (ht : w'.threads = w.threads)
    (hf : w'.base.future = w.base.future) (hi : w'.base.issued = w.base.issued)
    (hp' : w'.base.phase ≠ .dropped) (hc : w'.conn ≠ .stateless) : Inv w' := by
  have hcall : ∀ k, w'.callAt k = w.callAt k := fun k => by rw [World.callAt, ht]; rfl
  have hen : w'.base.conn.reqRx.ended = false := hk.requests.ended.trans (h.stage.running hp)
  refine ⟨hs, h.numbered.same hcall (fun i hi => hf ▸ hi) hi,
    h.senders.same hk.senders (fun i ho => ?_) (fun i ha => ⟨awaits_same hcall hf ha, hk.feeds i⟩) hi,
    ⟨fun _ _ => hp', fun hst => absurd hst hc, fun _ => hen, fun hd => absurd hd hp',
      fun he => ?_, hk.requests.receivers ▸ h.stage.one, fun hd => absurd hd hp'⟩⟩
  · rcases ho with ho | ho | ⟨-, ho⟩
    · exact .inl (.inl (ht ▸ ho))
    · exact (hk.holds i (.inl ho)).imp (fun hh => .inr (.inr ⟨hp', hh⟩)) id
    · exact (hk.holds i ho).imp (fun hh => .inr (.inr ⟨hp', hh⟩)) id
  · rw [hen] at he
    cases he

/-- The state of the codec goes out of scope. -/
theorem dropState_spec {c : Conn} (h1 : ∀ i, (c.res i).senders ≤ 1) :
    (dropState c).io = c.io ∧ (∀ i, ((dropState c).res i).senders ≤ (c.res i).senders) ∧
      (∀ b i, c.state = .recvRes b → b.handle.resTx = some i →
        ((dropState c).res i).senders = 0) ∧
      ∀ i, Feeds (c.res i) ((dropState c).res i) := by
  rw [dropState]
  split
  · next hst =>
    refine ⟨rfl, fun _ => Nat.le_refl _, fun b i hb => ?_, fun _ => .refl _⟩
    rw [hst] at hb
    cases hb
  · next b hst =>
    obtain ⟨hk, h0⟩ := kept_dropHandle b.handle c
    have hzero : ∀ b' i, c.state = .recvRes b' → b'.handle.resTx = some i →
        ((c.dropHandle b.handle).res i).senders = 0 := by
      intro b' i hb hi
      obtain rfl := State.recvRes.inj (hst.symm.trans hb)
      exact h0 i hi (h1 i)
    dsimp only
    split
    · exact ⟨rfl, hk.senders, hzero, hk.feeds⟩
    · exact ⟨rfl, hk.senders, hzero, hk.feeds⟩
  · next b hst =>
    refine ⟨rfl, fun _ => Nat.le_refl _, fun b i hb => ?_, fun _ => .refl _⟩
    rw [hst] at hb
    cases hb

/-- Handles go out of scope. -/
theorem dropHandles_spec (q : List Handle) {c : Conn} (h1 : ∀ i, (c.res i).senders ≤ 1) :
    let c' := q.foldl (fun c h => Conn.dropHandle h c) c
    c'.io = c.io ∧ (∀ i, (c'.res i).senders ≤ (c.res i).senders) ∧
      (∀ x ∈ q, ∀ i, x.resTx = some i → (c'.res i).senders = 0) ∧
      ∀ i, Feeds (c.res i) (c'.res i) := by
  induction q generalizing c with
  | nil =>
      have hnil : ∀ x ∈ ([] : List Handle), ∀ i, x.resTx = some i → (c.res i).senders = 0 :=
        fun _ hx => absurd hx List.not_mem_nil
      exact ⟨rfl, fun _ => Nat.le_refl _, hnil, fun _ => .refl _⟩
  | cons x q ih =>
      obtain ⟨hk, h0⟩ := kept_dropHandle x c
      obtain ⟨hio, hle, hz, hf⟩ := ih fun i => Nat.le_trans (hk.senders i) (h1 i)
      refine ⟨hio, fun i => Nat.le_trans (hle i) (hk.senders i), fun y hy i hyi => ?_,
        fun i => (hk.feeds i).trans (hf i)⟩
      rcases List.mem_cons.mp hy with rfl | hy
      · exact Nat.le_zero.mp (h0 i hyi (h1 i) ▸ hle i)
      · exact hz y hy i hyi

/-- The drop of the connection begins. -/
theorem Inv.dropState (h : Inv w) (hp : w.base.phase ≠ .dropped) :
    Inv { w with
      base := { w.base with conn := Requests.dropState w.base.conn, phase := .dropped }
      conn := .stateless } := by
  obtain ⟨hio, hle, hz, hf⟩ := dropState_spec h.senders.one
  have hr := reqRx_dropState w.base.conn
  refine ⟨hio ▸ h.sound, h.numbered.same (fun _ => rfl) (fun _ => id) rfl,
    h.senders.same hle (fun i ho => ?_) (fun i ha => ⟨ha, hf i⟩) rfl,
    ⟨by simp, fun _ => rfl, fun hd => absurd rfl hd, fun _ hst => absurd rfl hst, fun he => ?_,
      hr ▸ h.stage.one, by simp⟩⟩
  · rcases ho with ho | ⟨x, hm, hx⟩ | ⟨-, ⟨x, hm, hx⟩ | ⟨b, hst, hb⟩⟩
    · exact .inl (.inl ho)
    · exact .inl (.inr (.inl ⟨x, hr ▸ hm, hx⟩))
    · exact .inl (.inr (.inl ⟨x, hr ▸ hm, hx⟩))
    · exact .inr (hz b i hst hb)
  · have hen : w.base.conn.reqRx.ended = true := hr ▸ he
    rw [h.stage.running hp] at hen
    cases hen

/-- The queue is closed, and what is in it dropped. -/
theorem Inv.close (h : Inv w) (hc : w.conn = .stateless) :
    Inv { w.withConn (closeRequests w.base.conn) with conn := .closed } := by
  obtain ⟨hio, hle, hz, hf⟩ := dropHandles_spec w.base.conn.reqRx.queue h.senders.one
  have hp : w.base.phase = .dropped := h.stage.drops hc
  have hr : (closeRequests w.base.conn).reqRx.receivers = w.base.conn.reqRx.receivers := by
    have hq := congrArg Chan.receivers (reqRx_dropHandles w.base.conn.reqRx.queue w.base.conn)
    exact hq
  refine ⟨hio ▸ h.sound, h.numbered.same (fun _ => rfl) (fun _ => id) rfl,
    h.senders.same hle (fun i ho => ?_) (fun i ha => ⟨ha, hf i⟩) rfl,
    ⟨by simp, by simp, fun hd => absurd hp hd, fun _ _ => rfl, fun _ => rfl, hr ▸ h.stage.one,
      by simp⟩⟩
  rcases ho with ho | ⟨x, hm, hx⟩ | ⟨hd, -⟩
  · exact .inl (.inl ho)
  · exact .inr (hz x hm i hx)
  · exact absurd hp hd

/-- The `Arc` of the queue is released. -/
theorem Inv.release (h : Inv w) (hc : w.conn = .closed) :
    Inv { w.withConn { w.base.conn with
      reqRx := { w.base.conn.reqRx with receivers := w.base.conn.reqRx.receivers - 1 } } with
      conn := .idle } := by
  have hne : w.conn ≠ .stateless := by
    rw [hc]
    simp
  refine ⟨h.sound, h.numbered.same (fun _ => rfl) (fun _ => id) rfl,
    h.senders.same (fun _ => Nat.le_refl _) (fun _ => .inl) (fun i ha => ⟨ha, .refl _⟩) rfl,
    ⟨by simp, by simp, h.stage.running, fun hd _ => h.stage.ended hd hne, h.stage.empty,
      Nat.le_trans (Nat.sub_le _ _) h.stage.one, fun _ _ => Nat.sub_eq_zero_of_le h.stage.one⟩⟩

/-- What the user does with the handles of requests: nothing to the codec, and nothing to what is
still awaited but take wakers. -/
structure Beside (w w' : Client.World) : Prop where
  io : w'.conn.io = w.conn.io
  state : w'.conn.state = w.conn.state
  reqRx : w'.conn.reqRx = w.conn.reqRx
  phase : w'.phase = w.phase
  issued : w'.issued = w.issued
  senders : ∀ i, (w'.conn.res i).senders = (w.conn.res i).senders
  sent : ∀ i, (w'.conn.res i).sent = (w.conn.res i).sent
  future : ∀ i, w'.future i = true → w.future i = true
  res : ∀ i, w'.future i = true ∨ w.future i = false → Feeds (w.conn.res i) (w'.conn.res i)

theorem Beside.same {w w' : Client.World} (hio : w'.conn.io = w.conn.io)
    (hst : w'.conn.state = w.conn.state) (hr : w'.conn.reqRx = w.conn.reqRx)
    (hp : w'.phase = w.phase) (hi : w'.issued = w.issued) (hres : w'.conn.res = w.conn.res)
    (hf : w'.future = w.future) : Beside w w' :=
  ⟨hio, hst, hr, hp, hi, fun _ => by rw [hres], fun _ => by rw [hres], fun _ h => hf ▸ h,
    fun _ _ => hres ▸ .refl _⟩

/-- A `ResponseFuture` that is held goes out of scope, after a step on its channel. -/
theorem beside_dropFuture {w w₁ : Client.World} {f : Chan Answer → Chan Answer}
    (hf : w.future i = true) (hs : ∀ c, (f c).senders = c.senders ∧ (f c).sent = c.sent)
    (hc : w₁.conn = w.conn.onRes i f) (hp : w₁.phase = w.phase) (hi : w₁.issued = w.issued)
    (hfut : w₁.future = w.future) : Beside w (dropFuture i w₁) := by
  obtain ⟨rb, heq⟩ := dropFuture_conn i w₁
  have hres : (dropFuture i w₁).conn.res = atId w.conn.res i fun c => (f c).dropReceiver := by
    rw [heq, hc]
    exact atId_atId
  have hfuture : (dropFuture i w₁).future = Function.update w.future i false := by
    rw [dropFuture, hfut]
  have hsame : ∀ j, ((dropFuture i w₁).conn.res j).senders = (w.conn.res j).senders ∧
      ((dropFuture i w₁).conn.res j).sent = (w.conn.res j).sent := by
    intro j
    rw [hres]
    by_cases hji : j = i
    · subst hji
      rw [atId_self, Chan.senders_dropReceiver, Chan.dropReceiver_sent]
      exact hs _
    · rw [atId_of_ne hji]
      exact ⟨rfl, rfl⟩
  refine ⟨?_, ?_, ?_, hp, hi, fun j => (hsame j).1, fun j => (hsame j).2, fun j hj => ?_,
    fun j hj => ?_⟩
  · rw [heq, hc]
    rfl
  · rw [heq, hc]
    rfl
  · rw [heq, hc]
    rfl
  · rw [hfuture] at hj
    by_cases hji : j = i
    · subst hji
      exact hf
    · rwa [Function.update_of_ne hji] at hj
  · have hji : j ≠ i := by
      rintro rfl
      rcases hj with hj | hj
      · rw [hfuture, Function.update_self] at hj
        cases hj
      · cases hf.symm.trans hj
    rw [hres, atId_of_ne hji]
    exact .refl _

variable [VecAlloc] [Crates]

theorem beside_step {a : Client.Action} (ha : onHandle a = true) (w : Client.World) :
    Beside w (Client.step a w).2 := by
  have hacts := step_acts a w
  generalize (Client.step a w).1 = o at hacts
  generalize (Client.step a w).2 = w' at hacts ⊢
  cases hacts with
  | idle => exact .same rfl rfl rfl rfl rfl rfl rfl
  | @wait i cx hf hq hn =>
      have hsame : ∀ j, (atId w.conn.res i (fun c => c.register cx) j).senders =
          (w.conn.res j).senders ∧
          (atId w.conn.res i (fun c => c.register cx) j).sent = (w.conn.res j).sent := by
        intro j
        by_cases hji : j = i
        · subst hji
          rw [atId_self]
          exact ⟨rfl, rfl⟩
        · rw [atId_of_ne hji]
          exact ⟨rfl, rfl⟩
      refine ⟨rfl, rfl, rfl, rfl, rfl, fun j => (hsame j).1, fun j => (hsame j).2, fun _ => id,
        fun j _ => ?_⟩
      · refine feeds_atId (g := fun c => c.register cx) ?_ j
        exact ⟨[], (List.append_nil _).symm, (List.append_nil _).symm⟩
  | @resolve i cx a q hf hq =>
      exact beside_dropFuture (f := fun c => { c with queue := q }.wakeAll) hf
        (fun _ => ⟨rfl, rfl⟩) rfl rfl rfl rfl
  | @unanswered i cx hf hq hn =>
      exact beside_dropFuture (f := fun c => c.register cx) hf (fun _ => ⟨rfl, rfl⟩) rfl rfl
        rfl rfl
  | dropFuture hf =>
      refine beside_dropFuture (f := id) hf (fun _ => ⟨rfl, rfl⟩) ?_ rfl rfl rfl
      rw [Conn.onRes, atId, id, Function.update_eq_self]
  | read hr hp => exact .same rfl rfl rfl rfl rfl rfl rfl
  | dropRecv hr => exact .same rfl rfl rfl rfl rfl rfl rfl
  | sendData hs hp => exact .same rfl rfl rfl rfl rfl rfl rfl
  | dropSend hs => exact .same rfl rfl rfl rfl rfl rfl rfl
  | _ => cases ha

/-- A step of the user on one of the handles of a request. -/
theorem Inv.user {a : Client.Action} (h : Inv w) (ha : onHandle a = true) :
    Inv { w with base := (Client.step a w.base).2 } := by
  have hb := beside_step ha w.base
  refine ⟨hb.io ▸ h.sound, h.numbered.same (fun _ => rfl) hb.future hb.issued,
    h.senders.same (fun i => Nat.le_of_eq (hb.senders i)) (fun i ho => .inl ?_) (fun i haw => ?_)
      hb.issued,
    h.stage.same hb.phase rfl (by rw [hb.reqRx]) (by rw [hb.reqRx]) (by rw [hb.reqRx])⟩
  · rcases ho with ho | ⟨x, hm, hx⟩ | ⟨hp, hh⟩
    · exact .inl ho
    · exact .inr (.inl ⟨x, hb.reqRx ▸ hm, hx⟩)
    · refine .inr (.inr ⟨hb.phase ▸ hp, ?_⟩)
      rw [Holds, hb.reqRx, hb.state]
      exact hh
  · rcases haw with hf | ⟨k, hk⟩
    · exact ⟨.inl (hb.future i hf), hb.res i (.inl hf)⟩
    · refine ⟨.inr ⟨k, hk⟩, hb.res i (.inr (Bool.eq_false_iff.mpr fun hf => ?_))⟩
      exact h.numbered.apart i k hf hk

/-- A round of a poll. -/
theorem Inv.round {cx : Waker} (h : Inv w) (hc : w.conn = .polling cx) :
    Inv (w.afterRound (driveRound cx () w.base.conn)).2 := by
  have hp := h.stage.polls cx hc
  have hr : wp (driveRound cx ()) _ w.base.conn := driveRound_kept h.sound h.senders.one
  rw [wp] at hr
  have hend : ∀ {r c}, c.io.Sound → Kept w.base.conn c → Inv (w.endPoll r c).2 := by
    intro r c hs hk
    refine h.polled hs hk hp rfl rfl rfl ?_ fun h => by cases h
    show (if r = .pending then ConnPhase.running else .complete) ≠ .dropped
    split <;> simp
  generalize driveRound cx () w.base.conn = p at hr
  rcases p with ⟨_ | (j | a) | e | m | _, c⟩
  · exact hend hr.1 hr.2
  · have hne : w.conn ≠ .stateless := by
      rw [hc]
      simp
    have hw : Inv (w.withConn c) := h.polled hr.1 hr.2 hp rfl rfl rfl hp hne
    exact hw
  · exact hend hr.1 hr.2
  · have hk := kept_tryForwardError e c
    exact hend ((io_tryForwardError e c).symm ▸ hr.1) (hr.2.trans hk)
  · exact hend hr.1 hr.2
  · exact hend hr.1 hr.2

/-- Every step keeps the invariant. -/
theorem Inv.step (h : Inv w) (a : Action) : Inv (step a w).2 := by
  cases a with
  | clone k =>
      rw [Requests.step]
      split
      · exact h.handle (callAt_clone w.threads) (fun k i req b hk => ⟨k, by
          rw [List.getElem?_append_left (lt_of_getElem? hk)]
          exact hk⟩) rfl rfl rfl rfl rfl
      · exact h
  | send k req noBody =>
      rw [Requests.step]
      split
      · next hk =>
        split
        · exact h
        · split
          · exact h.begin hk
          · exact h
      · exact h
  | enqueue k =>
      rw [Requests.step]
      split
      · next hk => exact h.enqueue hk
      · exact h
  | sent k =>
      rw [Requests.step]
      split
      · next hk => exact h.sent hk
      · exact h
  | dropSender k =>
      rw [Requests.step]
      split
      · next hk =>
        have hsame : RequestAt.gone.call = RequestAt.held.call := rfl
        refine h.handle (callAt_setThread (w := w.withConn _) hk hsame) (fun k' i req b hk' => ⟨k', ?_⟩)
          rfl rfl Chan.queue_dropSender Chan.ended_dropSender Chan.receivers_dropSender
        have hne : k' ≠ k := by
          rintro rfl
          cases hk.symm.trans hk'
        exact (getElem?_setThread_ne (w := w.withConn _) hne).trans hk'
      · exact h
  | poll cx =>
      rw [Requests.step]
      split
      · next hc =>
        have hp : w.base.phase ≠ .dropped := by
          rw [hc.2]
          simp
        exact h.polled h.sound (.refl _) hp rfl rfl rfl hp (by simp)
      · exact h
  | round =>
      rw [Requests.step]
      split
      · next cx hc => exact h.round hc
      · exact h
  | dropState =>
      rw [Requests.step]
      split
      · next hc => exact h.dropState hc.2
      · exact h
  | close =>
      rw [Requests.step]
      split
      · next hc => exact h.close hc
      · exact h
  | release =>
      rw [Requests.step]
      split
      · next hc => exact h.release hc
      · exact h
  | user a =>
      rw [Requests.step]
      split
      · next ha => exact h.user ha
      · exact h

omit [VecAlloc] [Crates] in
theorem inv_start (inner : Transport) : Inv (start inner) where
  sound := BufIo.sound_withCapacity (by decide) inner
  numbered := by
    have hcall : ∀ k, (start inner).callAt k = none := by
      intro k
      cases k with
      | zero => rfl
      | succ k => rfl
    refine ⟨?_, by intros; contradiction, fun k _ _ hk => ?_⟩
    · rintro i (hf | ⟨k, hk⟩)
      · cases hf
      · cases (hcall k).symm.trans hk
    · cases (hcall k).symm.trans hk
  senders := ⟨fun _ => Nat.le_refl _, fun i hlt => absurd hlt (Nat.not_lt_zero i), fun _ _ => rfl⟩
  stage := ⟨by intros; contradiction, by intros; contradiction, fun _ => rfl,
    by intros; contradiction, fun _ => rfl, Nat.le_refl _, by intros; contradiction⟩

end Steps

/-! ### Runs -/

/-- The `Connection` has gone out of scope. -/
def Dropped (w : World) : Prop := w.base.phase = .dropped ∧ w.conn = .idle

instance (w : World) : Decidable (Dropped w) := inferInstanceAs (Decidable (_ ∧ _))

/-- The connection is gone, and nothing has been sent to the requests from `n` on. -/
structure Late (n : Nat) (w : World) : Prop where
  inv : Inv w
  dropped : Dropped w
  unsent : ∀ i, n ≤ i → i < w.base.issued → (w.base.conn.res i).sent = []

variable [VecAlloc] [Crates] {w : World} {n : Nat}

omit [VecAlloc] [Crates] in
theorem sent_enqueueHandle (h : Handle) (c : Conn) (i : Nat) :
    ((World.enqueueHandle h c).res i).sent = (c.res i).sent := by
  rw [World.enqueueHandle]
  dsimp only
  split
  · rw [Conn.dropHandle]
    cases h.resTx with
    | none => rfl
    | some j =>
        show (atId c.res j Chan.dropSender i).sent = _
        by_cases hij : i = j
        · subst hij
          rw [atId_self, Chan.sent_dropSender]
        · rw [atId_of_ne hij]
  · rfl

theorem Late.step (h : Late n w) (a : Action) : Late n (Requests.step a w).2 := by
  suffices hs : Dropped (Requests.step a w).2 ∧ ∀ i, n ≤ i → i < (Requests.step a w).2.base.issued →
      ((Requests.step a w).2.base.conn.res i).sent = [] from ⟨h.inv.step a, hs.1, hs.2⟩
  obtain ⟨hp, hc⟩ := h.dropped
  cases a with
  | clone k =>
      rw [Requests.step]
      split
      · exact ⟨h.dropped, h.unsent⟩
      · exact ⟨h.dropped, h.unsent⟩
  | send k req noBody =>
      rw [Requests.step]
      split
      · split
        · exact ⟨h.dropped, h.unsent⟩
        · split
          · refine ⟨h.dropped, fun i hi hlt => ?_⟩
            show (atId w.base.conn.res w.base.issued (fun _ => .new 1) i).sent = []
            by_cases hii : i = w.base.issued
            · subst hii
              rw [atId_self]
              rfl
            · rw [atId_of_ne hii]
              exact h.unsent i hi (Nat.lt_of_le_of_ne (Nat.le_of_lt_succ hlt) hii)
          · exact ⟨h.dropped, h.unsent⟩
      · exact ⟨h.dropped, h.unsent⟩
  | enqueue k =>
      rw [Requests.step]
      split
      · exact ⟨h.dropped, fun i hi hlt => (sent_enqueueHandle _ _ i).trans (h.unsent i hi hlt)⟩
      · exact ⟨h.dropped, h.unsent⟩
  | sent k =>
      rw [Requests.step]
      split
      · exact ⟨h.dropped, h.unsent⟩
      · exact ⟨h.dropped, h.unsent⟩
  | dropSender k =>
      rw [Requests.step]
      split
      · exact ⟨h.dropped, h.unsent⟩
      · exact ⟨h.dropped, h.unsent⟩
  | poll cx =>
      rw [Requests.step, if_neg (by rw [hp]; simp)]
      exact ⟨h.dropped, h.unsent⟩
  | round =>
      rw [Requests.step, hc]
      exact ⟨h.dropped, h.unsent⟩
  | dropState =>
      rw [Requests.step, if_neg (fun hd => hd.2 hp)]
      exact ⟨h.dropped, h.unsent⟩
  | close =>
      rw [Requests.step, if_neg (by rw [hc]; simp)]
      exact ⟨h.dropped, h.unsent⟩
  | release =>
      rw [Requests.step, if_neg (by rw [hc]; simp)]
      exact ⟨h.dropped, h.unsent⟩
  | user a =>
      rw [Requests.step]
      split
      · next ha =>
        have hb := beside_step ha w.base
        refine ⟨⟨hb.phase.trans hp, hc⟩, fun i hi hlt => ?_⟩
        exact (hb.sent i).trans (h.unsent i hi (Nat.lt_of_lt_of_eq hlt hb.issued))
      · exact ⟨h.dropped, h.unsent⟩

/-- What a `ResponseFuture` is told once the connection is gone. -/
def lastAnswer (sent : List Answer) : Outcome Error Response :=
  match sent with
  | a :: _ => resolution a
  | [] => .fail (errClosed "Response failed, connection is closed")

omit [VecAlloc] [Crates] in
theorem pollFuture_lastAnswer {i : Nat} {cx : Waker} {w : Client.World} {sent : List Answer}
    (hq : (w.conn.res i).queue = sent) (h0 : (w.conn.res i).senders = 0) :
    (pollFuture i cx w).1 = .resolved i (lastAnswer sent) := by
  have hx : ∀ {r : Outcome IoError (Option Answer)} {c : Chan Answer},
      Chan.pollRecv cx true (w.conn.res i) = (r, c) →
        pollRes i (Chan.pollRecv cx true) w.conn = (r, w.conn.onRes i fun _ => c) := by
    intro r c h
    rw [pollRes, run_zoom, h]
  rw [pollFuture]
  cases sent with
  | nil =>
      rw [hx (Chan.pollRecv_nil hq), if_pos h0]
      rfl
  | cons a sent =>
      rw [hx (Chan.pollRecv_cons hq)]
      cases a with
      | ok p => rfl
      | error e => rfl

/-- Once the connection is gone, no response is left to wait for. -/
theorem Late.resolves (h : Late n w) {i : Nat} (hf : w.base.future i = true) (cx : Waker) :
    (Requests.step (.user (.pollFuture i cx)) w).1 =
      .resolved i (lastAnswer (w.base.conn.res i).sent) := by
  have hend := h.inv.stage.ended h.dropped.1 (by rw [h.dropped.2]; simp)
  have h0 : (w.base.conn.res i).senders = 0 := by
    by_contra h0
    rcases h.inv.senders.owned i (h.inv.numbered.issued i (.inl hf)) h0 with
      ⟨k, req, b, hk⟩ | ⟨x, hm, -⟩ | ⟨hp, -⟩
    · exact h.inv.numbered.apart i k hf (callAt_of_thread hk)
    · rw [h.inv.stage.empty hend] at hm
      cases hm
    · exact hp h.dropped.1
  have hq := h.inv.senders.whole i (.inl hf)
  have ha : onHandle (.pollFuture i cx) = true := rfl
  rw [Requests.step, if_pos ha, Client.step, if_pos hf]
  exact pollFuture_lastAnswer hq h0

/-- And no request is taken any more once the calls that were running have returned. -/
theorem Late.refused (h : Late n w) (hcalls : ∀ k, w.callAt k = none) {k : Nat} {req : Request}
    {noBody : Bool} (hk : w.threads[k]? = some .held) :
    ∃ e, Requests.step (.send k req noBody) w = (.requested (.error e), w) := by
  have hr : w.base.conn.reqRx.receivers = 0 := h.inv.stage.gone h.dropped.1 h.dropped.2
  have ha : w.alive = false := by
    rw [World.alive, hr]
    refine List.any_eq_false.mpr fun t ht => ?_
    obtain ⟨k', hk'⟩ := List.mem_iff_getElem?.mp ht
    rw [← callAt_of_thread hk', hcalls k']
    simp
  rw [Requests.step, hk]
  dsimp only
  split
  · exact ⟨_, rfl⟩
  · rw [ha]
    exact ⟨_, rfl⟩

theorem run_inv (inner : Transport) (as : List Action) :
    Inv (Runs.after Requests.step as (start inner)) :=
  Runs.run_invariant (I := Inv) (fun _ a h _ => h.step a) (Runs.along_true as _) (inv_start inner)

/-- **No request is stranded.**  From when the `Connection` has gone out of scope, through whatever
follows: no handle is queued; every `ResponseFuture` is ready when it is polled, with what has been
sent to it, or else with an error; to a request of a later call nothing has been sent; and when the
calls that were running have returned, `send_request` is refused. -/
theorem none_stranded (inner : Transport) (as later : List Action)
    (hd : Dropped (Runs.after Requests.step as (start inner))) :
    let w := Runs.after Requests.step as (start inner)
    let w' := Runs.after Requests.step later w
    w'.base.conn.reqRx.queue = [] ∧
      (∀ i cx, w'.base.future i = true → (Requests.step (.user (.pollFuture i cx)) w').1 =
        .resolved i (lastAnswer (w'.base.conn.res i).sent)) ∧
      (∀ i, w.base.issued ≤ i → w'.base.future i = true → (w'.base.conn.res i).sent = []) ∧
      ((∀ k, w'.callAt k = none) → ∀ k req noBody, w'.threads[k]? = some .held →
        ∃ e, Requests.step (.send k req noBody) w' = (.requested (.error e), w')) := by
  intro w w'
  have hw : Late w.base.issued w :=
    ⟨run_inv inner as, hd, fun i hi hlt => absurd hlt (Nat.not_lt.mpr hi)⟩
  have h : Late w.base.issued w' :=
    Runs.run_invariant (I := Late w.base.issued) (fun _ a h _ => h.step a) (Runs.along_true later w) hw
  refine ⟨?_, fun i cx hf => h.resolves hf cx, fun i hi hf => ?_, fun hc k req noBody hk =>
    h.refused hc hk⟩
  · exact h.inv.stage.empty (h.inv.stage.ended h.dropped.1 (by rw [h.dropped.2]; simp))
  · exact h.unsent i hi (h.inv.numbered.issued i (.inl hf))

/-- A call of `send_request` is up to the lock when the connection goes. -/
def racedDrop : List Action :=
  [.send 0 ⟨.get, ⟨none, none, none, some (ascii "/")⟩, .http11, []⟩ true, .dropState, .close,
    .release]

omit [VecAlloc] [Crates] in
/-- And its request is not stranded. -/
theorem none_stranded_raced :
    letI := VecAlloc.amortized
    letI := Crates.table [] []
    let w := Runs.after Requests.step racedDrop (start ⟨[], false, [], [], 0⟩)
    let w' := Runs.after Requests.step [.enqueue 0, .sent 0] w
    w'.base.future 0 = true ∧ (Requests.step (.user (.pollFuture 0 0)) w').1 =
      .resolved 0 (lastAnswer (w'.base.conn.res 0).sent) := by
  intro w w'
  have hf : w'.base.future 0 = true := by decide +kernel
  have h := @none_stranded VecAlloc.amortized (Crates.table [] []) ⟨[], false, [], [], 0⟩ racedDrop
    [.enqueue 0, .sent 0] (by decide +kernel)
  exact ⟨hf, h.2.1 0 0 hf⟩

end HreqH1.Requests
