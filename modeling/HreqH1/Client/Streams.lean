import HreqH1.Client.Queued
import HreqH1.Reading.Streams

/-!
# Client — the `RecvStream`s of responses

A request has one `RecvStream` at most: it comes with the answer, is queued for the `ResponseFuture` or
held by the user, and before that there is none (`Awaits`).  `Served told rs body` is about the
`RecvStream`s `rs` of one response and the channel of its body: where that is closed, `told` is so, or
an error is on the channel.  Every move of the codec keeps it of all responses (`Move.streams`).
-/

namespace HreqH1.Client
open PollM RecvStream

/-- The `RecvStream` of an answer. -/
def streamOf : Answer → Option RecvStream
  | .ok (_, recv) => some recv
  | .error _ => none

/-- The `RecvStream`s of the `i`-th response: the one that is held, and those on the way to it. -/
def streams (recv : Nat → Option RecvStream) (c : Conn) (i : Nat) : List RecvStream :=
  (recv i).toList ++ (c.res i).queue.filterMap streamOf

/-- The `i`-th of `n` responses is still to come. -/
def Awaits (n : Nat) (c : Conn) (i : Nat) : Prop :=
  n ≤ i + c.reqRx.queue.length ∨ ∃ h, c.state = .recvRes h ∧ h.handle.resTx = some i

/-- The codec has the sender of the `i`-th body. -/
def Sends (c : Conn) (i : Nat) : Prop :=
  match c.state with
  | .sendReq => False
  | .recvRes h => ∃ limit, h.holder = some (i, limit)
  | .recvBody h => h.bodyTx = i

/-- The `RecvStream`s of a response, and the channel of its body. -/
structure Served (told : Prop) (rs : List RecvStream) (body : Chan (Except IoError Bytes)) :
    Prop where
  once : rs.length ≤ 1
  fits : ∀ r ∈ rs, r.Fits body
  alive : rs ≠ [] → body.receivers ≠ 0
  closed : rs ≠ [] → body.senders = 0 → told ∨ Failing body

/-- The `RecvStream`s of `n` responses, `recv` of which are held. -/
structure Streams (n : Nat) (recv : Nat → Option RecvStream) (told : Nat → Prop) (c : Conn) :
    Prop where
  awaited : ∀ i, Awaits n c i → streams recv c i = []
  served : ∀ i, Served (i ∈ c.complete ∨ told i) (streams recv c i) (c.resBody i)
  res : ∀ i, (c.res i).Single
  resBody : ∀ i, (c.resBody i).Single

/-- The sender of a body that the codec has is there. -/
def Sourced (c : Conn) : Prop := ∀ i, Sends c i → (c.resBody i).senders ≠ 0

/-! ### One response -/

section Served
variable {told told' : Prop} {rs : List RecvStream} {body : Chan (Except IoError Bytes)}

theorem Served.mono (h : Served told rs body) (ht : told → told') : Served told' rs body :=
  ⟨h.once, h.fits, h.alive, fun hne h0 => (h.closed hne h0).imp_left ht⟩

theorem Served.nil : Served told [] body :=
  ⟨Nat.zero_le 1, by simp, by simp, by simp⟩

theorem Chan.failing_offer {e : IoError} (hs : body.Single) (h0 : body.receivers ≠ 0) :
    Failing (body.offer (.error e)) := by
  rw [Chan.offer, if_neg h0, Failing, Chan.queue_enqueue _ (hs.alive h0)]
  exact ⟨e, List.mem_append_right _ List.mem_cons_self⟩

/-- Only wakers have come and gone. -/
theorem Served.quiet {body' : Chan (Except IoError Bytes)} (h : Served told rs body)
    (hq : body.Quiet body') : Served told rs body' where
  once := h.once
  fits := fun r hr => by
    obtain ⟨hready, hchunks, hended⟩ := h.fits r hr
    refine ⟨hready, fun bs hbs => hchunks bs (hq.queue ▸ hbs), fun he => ?_⟩
    rw [hq.queue, hq.senders]
    exact hended he
  alive := fun hr => by
    rw [hq.receivers]
    exact h.alive hr
  closed := fun hr h0 => (h.closed hr (hq.senders ▸ h0)).imp_right fun hf => by
    rw [Failing, hq.queue]
    exact hf

/-- An item is sent to a body that has not ended. -/
theorem Served.offer {item : Except IoError Bytes} (h : Served told rs body)
    (hs : body.senders ≠ 0) (hne : ∀ bs, item = .ok bs → bs ≠ []) :
    Served told rs (body.offer item) where
  once := h.once
  fits := fun r hr => by
    refine ⟨(h.fits r hr).ready, fun bs hbs => ?_, fun he => absurd ((h.fits r hr).ended he).2.2 hs⟩
    rw [Chan.offer] at hbs
    split at hbs
    · exact (h.fits r hr).chunks bs hbs
    · exact (Chan.mem_enqueue hbs).elim ((h.fits r hr).chunks bs) fun heq => hne bs heq.symm
  alive := fun hr => by
    rw [Chan.offer]
    split
    · exact h.alive hr
    · rw [Chan.receivers_enqueue]
      exact h.alive hr
  closed := fun _ h0 => absurd (Chan.senders_offer item ▸ h0) hs

/-- The sender of a body goes. -/
theorem Served.dropSender (h : Served told rs body) (ht : rs ≠ [] → told ∨ Failing body) :
    Served told rs body.dropSender where
  once := h.once
  fits := fun r hr => by
    obtain ⟨hready, hchunks, hended⟩ := h.fits r hr
    refine ⟨hready, fun bs hbs => hchunks bs (Chan.queue_dropSender ▸ hbs), fun he => ?_⟩
    obtain ⟨hn, hq, h0⟩ := hended he
    rw [Chan.queue_dropSender, Chan.senders_dropSender, h0]
    exact ⟨hn, hq, rfl⟩
  alive := fun hr => by
    rw [Chan.receivers_dropSender]
    exact h.alive hr
  closed := fun hr _ => (ht hr).imp_right fun hf => by
    rw [Failing, Chan.queue_dropSender]
    exact hf

/-- The `RecvStream` that comes with an answer. -/
theorem Served.received {noBody : Bool} (ht : noBody = true → told) :
    Served told [.new noBody false] (bodyOf noBody true) := by
  cases noBody with
  | true =>
      refine ⟨Nat.le_refl 1, fun r hr => ?_, by simp [bodyOf, Chan.new], fun _ _ => .inl (ht rfl)⟩
      obtain rfl := List.mem_singleton.mp hr
      exact ⟨by simp [RecvStream.new], by simp [bodyOf, Chan.new], by simp [bodyOf, Chan.new, RecvStream.new]⟩
  | false =>
      refine ⟨Nat.le_refl 1, fun r hr => ?_, by simp [bodyOf, Chan.new], by simp [bodyOf, Chan.new]⟩
      obtain rfl := List.mem_singleton.mp hr
      exact ⟨by simp [RecvStream.new], by simp [bodyOf, Chan.new], by simp [RecvStream.new]⟩

end Served

theorem single_bodyOf (noBody sent : Bool) : (bodyOf noBody sent).Single := by
  have hnew : (if noBody then (Chan.new 1).dropSender else Chan.new 1 :
      Chan (Except IoError Bytes)).Single := by
    split
    · exact (Chan.single_new 1).dropSender
    · exact Chan.single_new 1
  rw [bodyOf]
  split
  · exact hnew
  · exact hnew.dropReceiver

/-! ### Moves -/

section Moves
variable {n k : Nat} {recv : Nat → Option RecvStream} {told : Nat → Prop} {c c' : Conn}

theorem streams_of_res {i : Nat} (h : c'.res i = c.res i) : streams recv c' i = streams recv c i := by
  rw [streams, streams, h]

/-- The answers on the way are the same, errors apart. -/
structure SameAnswers (c c' : Conn) : Prop where
  same : ∀ i, (c'.res i).queue.filterMap Except.toOption = (c.res i).queue.filterMap Except.toOption
  single : ∀ i, (c.res i).Single → (c'.res i).Single

theorem SameAnswers.of_eq (h : c'.res = c.res) : SameAnswers c c' :=
  ⟨fun i => by rw [h], fun i hi => by rw [h]; exact hi⟩

theorem SameAnswers.trans {c'' : Conn} (h : SameAnswers c c') (h' : SameAnswers c' c'') :
    SameAnswers c c'' :=
  ⟨fun i => (h'.same i).trans (h.same i), fun i hi => h'.single i (h.single i hi)⟩

theorem SameAnswers.of_atId {i : Nat} {f : Chan Answer → Chan Answer} (h : c'.res = atId c.res i f)
    (hq : (f (c.res i)).queue.filterMap Except.toOption =
      (c.res i).queue.filterMap Except.toOption)
    (hs : (c.res i).Single → (f (c.res i)).Single) : SameAnswers c c' := by
  refine ⟨fun j => ?_, fun j hj => ?_⟩
  · by_cases hji : j = i
    · subst hji
      rw [h, atId_self]
      exact hq
    · rw [h, atId_of_ne hji]
  · by_cases hji : j = i
    · subst hji
      rw [h, atId_self]
      exact hs hj
    · rw [h, atId_of_ne hji]
      exact hj

theorem sameAnswers_dropHandle (h : Handle) (c : Conn) : SameAnswers c (c.dropHandle h) := by
  rw [Conn.dropHandle]
  cases h.resTx with
  | none => exact .of_eq rfl
  | some i =>
      exact .of_atId (i := i) (f := Chan.dropSender) rfl (by rw [Chan.queue_dropSender])
        Chan.Single.dropSender

theorem sameAnswers_dropHandles (q : List Handle) (c : Conn) :
    SameAnswers c (q.foldl (fun w h => w.dropHandle h) c) := by
  induction q generalizing c with
  | nil => exact .of_eq rfl
  | cons h q ih => exact (sameAnswers_dropHandle h c).trans (ih _)

theorem filterMap_streamOf (q : List Answer) :
    q.filterMap streamOf = (q.filterMap Except.toOption).map Prod.snd := by
  rw [List.map_filterMap]
  refine List.filterMap_congr fun a _ => ?_
  cases a <;> rfl

theorem SameAnswers.eq (h : SameAnswers c c') (i : Nat) : streams recv c' i = streams recv c i := by
  rw [streams, streams, filterMap_streamOf, filterMap_streamOf, h.same i]

theorem SameAnswers.mem (h : SameAnswers c c') {i : Nat} {p : Response × RecvStream}
    (hp : .ok p ∈ (c'.res i).queue) : .ok p ∈ (c.res i).queue := by
  have hmem : p ∈ (c'.res i).queue.filterMap Except.toOption := List.mem_filterMap.mpr ⟨_, hp, rfl⟩
  rw [h.same i] at hmem
  obtain ⟨a, ha, heq⟩ := List.mem_filterMap.mp hmem
  cases a with
  | ok p' => exact Option.some.inj heq ▸ ha
  | error e => cases heq

theorem Streams.mono {told' : Nat → Prop} (h : Streams n recv told c) (ht : ∀ i, told i → told' i) :
    Streams n recv told' c :=
  ⟨h.awaited, fun i => (h.served i).mono (Or.imp_right (ht i)), h.res, h.resBody⟩

/-- The `RecvStream`s are where they were. -/
theorem Streams.same (h : Streams n recv told c) (ha : ∀ i, Awaits n c' i → Awaits n c i)
    (hr : SameAnswers c c') (hb : c'.resBody = c.resBody)
    (hc : ∀ i ∈ c.complete, i ∈ c'.complete) : Streams n recv told c' where
  awaited := fun i hi => (hr.eq i).trans (h.awaited i (ha i hi))
  served := fun i => by
    rw [hr.eq i, hb]
    exact (h.served i).mono (Or.imp_left (hc i))
  res := fun i => hr.single i (h.res i)
  resBody := hb ▸ h.resBody

/-- The body of the `i`-th response has changed. -/
theorem Streams.body {i : Nat} {f : Chan (Except IoError Bytes) → Chan (Except IoError Bytes)}
    (h : Streams n recv told c) (ha : ∀ i, Awaits n c' i → Awaits n c i) (hr : SameAnswers c c')
    (hb : c'.resBody = atId c.resBody i f) (hc : c'.complete = c.complete)
    (hf : Served (i ∈ c.complete ∨ told i) (streams recv c i) (f (c.resBody i)))
    (hs : (f (c.resBody i)).Single) : Streams n recv told c' where
  awaited := fun i hi => (hr.eq i).trans (h.awaited i (ha i hi))
  served := fun j => by
    rw [hr.eq j, hb, hc]
    by_cases hj : j = i
    · subst hj
      rw [atId_self]
      exact hf
    · rw [atId_of_ne hj]
      exact h.served j
  res := fun i => hr.single i (h.res i)
  resBody := fun j => by
    rw [hb]
    by_cases hj : j = i
    · subst hj
      rw [atId_self]
      exact hs
    · rw [atId_of_ne hj]
      exact h.resBody j

section Answered
variable {b : Bidirect} {i j : Nat} {res : Response}

/-- Whether the response `res` has no body. -/
def Bidirect.noBody (b : Bidirect) (res : Response) : Bool :=
  isNoBody (LimitRead.fromHeaders res.headers true) b.handle.req.method res

theorem res_answered_self : (answered b i res c).res i =
    ((c.res i).offer (.ok (res, .new (b.noBody res) false))).dropSender := by
  rw [answered]
  dsimp only
  rw [atId_self]
  rfl

theorem res_answered_ne (h : j ≠ i) : (answered b i res c).res j = c.res j := by
  rw [answered]
  dsimp only
  rw [atId_of_ne h]

theorem resBody_answered_self : (answered b i res c).resBody i =
    bodyOf (b.noBody res) (decide ((c.res i).receivers ≠ 0)) := by
  rw [answered]
  dsimp only
  rw [atId_self]
  rfl

theorem resBody_answered_ne (h : j ≠ i) : (answered b i res c).resBody j = c.resBody j := by
  rw [answered]
  dsimp only
  rw [atId_of_ne h]

theorem mem_complete_answered :
    j ∈ (answered b i res c).complete ↔ j ∈ c.complete ∨ j = i ∧ b.noBody res = true := by
  show j ∈ (if b.noBody res then i :: c.complete else c.complete) ↔ _
  split
  · next hn => simp [hn, or_comm]
  · next hn => simp [hn]

end Answered

/-- With the answer comes a `RecvStream`, if its `ResponseFuture` is there. -/
theorem streams_answered_self {b : Bidirect} {i : Nat} (res : Response) (h1 : (c.res i).Single)
    (hnone : streams recv c i = []) : streams recv (answered b i res c) i =
      if (c.res i).receivers = 0 then [] else [.new (b.noBody res) false] := by
  obtain ⟨hrecv, hqueue⟩ := List.append_eq_nil_iff.mp hnone
  rw [streams, res_answered_self, hrecv, Chan.queue_dropSender, Chan.offer]
  by_cases h0 : (c.res i).receivers = 0
  · rw [if_pos h0, if_pos h0, hqueue]
    rfl
  · rw [if_neg h0, if_neg h0, Chan.queue_enqueue _ (h1.alive h0), List.filterMap_append, hqueue]
    rfl

/-- The answer to the `i`-th request comes with its `RecvStream`. -/
theorem Streams.answered {b : Bidirect} {i : Nat} (res : Response) (h : Streams n recv told c)
    (hl : Lined k n c) (hs : c.state = .recvRes b) (hi : b.handle.resTx = some i) :
    Streams n recv told (answered b i res c) := by
  have hself := streams_answered_self (b := b) res (h.res i) (h.awaited i (.inr ⟨b, hs, hi⟩))
  refine ⟨fun j hj => ?_, fun j => ?_, fun j => ?_, fun j => ?_⟩
  · -- The requests that still wait are in the queue.
    have hq : n ≤ j + c.reqRx.queue.length := by
      rcases hj with hj | ⟨b', hb', hj⟩
      · exact hj
      · obtain rfl := State.recvRes.inj hb'
        cases hj
    have hji : j ≠ i := by
      have hlen := hl.length
      have hik := hl.state b i hs hi
      omega
    exact (streams_of_res (res_answered_ne hji)).trans (h.awaited j (.inl hq))
  · by_cases hji : j = i
    · subst hji
      rw [hself, resBody_answered_self]
      by_cases h0 : (c.res j).receivers = 0
      · rw [if_pos h0]
        exact .nil
      · rw [if_neg h0, decide_eq_true h0]
        exact Served.received fun hn => .inl (mem_complete_answered.mpr (.inr ⟨rfl, hn⟩))
    · rw [streams_of_res (res_answered_ne hji), resBody_answered_ne hji]
      exact (h.served j).mono (Or.imp_left fun hj => mem_complete_answered.mpr (.inl hj))
  · by_cases hji : j = i
    · subst hji
      rw [res_answered_self]
      exact ((h.res j).offer _).dropSender
    · rw [res_answered_ne hji]
      exact h.res j
  · by_cases hji : j = i
    · subst hji
      rw [resBody_answered_self]
      exact single_bodyOf _ _
    · rw [resBody_answered_ne hji]
      exact h.resBody j

variable [Crates]

/-- A move brings no request back. -/
theorem Move.awaits (hm : Move c c') (hl : Lined k n c) {i : Nat} (hi : Awaits n c' i) :
    Awaits n c i := by
  have hstate : ∀ {s : State}, (∀ h, s ≠ .recvRes h) →
      (∃ h, s = .recvRes h ∧ h.handle.resTx = some i) → Awaits n c i := by
    rintro s hne ⟨h, hs, -⟩
    exact absurd hs (hne h)
  cases hm with
  | write hw ht => exact hi
  | read hr => exact hi
  | wake hq => exact hi
  | rest hs hq => exact hi.imp_left fun hi => hq.queue ▸ hi
  | request hs ht hh hw hio =>
      have hlen := hl.length
      rw [ht.queue, List.length_cons] at hlen
      rcases hi with hi | ⟨h, hst, hi⟩
      · refine .inl (Nat.le_trans hi (Nat.add_le_add_left ?_ i))
        rw [ht.queue]
        exact Nat.le_succ _
      · obtain rfl := State.recvRes.inj hst
        have hk := hl.numbers 0 _ (by rw [ht.queue]; rfl)
        obtain rfl := Option.some.inj (hi.symm.trans hk)
        exact .inl (Nat.le_of_eq hl.length.symm)
  | response hs hi' hf hp =>
      refine hi.imp_right fun hi => ?_
      obtain ⟨h, hst, hi⟩ := hi
      obtain rfl := State.recvRes.inj hst
      cases hi
  | item hs hi' ht hw hio =>
      refine hi.imp_right fun hi => ?_
      obtain ⟨h, hst, hi⟩ := hi
      obtain rfl := State.recvRes.inj hst
      exact ⟨_, hs, hi⟩
  | toBody hs hr hb hh => exact hi.elim .inl (hstate (by simp))
  | toNext hs hr hb hh hu => exact hi.elim .inl (hstate (by simp))
  | chunk hs hc ho hn hl' hr hne => exact hi.elim .inl (hstate (by simp))
  | lastRead hs hc hn hl' hr he => exact hi.elim .inl (hstate (by simp))
  | bodyEnd hs hc => exact hi
  | bodyNext hs hc hm hu => exact hi.elim .inl (hstate (by simp))

/-- A move keeps the `RecvStream`s, and adds that of an answer. -/
theorem Move.streams (hm : Move c c') (hl : Lined k n c) (h : Streams n recv told c)
    (hs : Sourced c) : Streams n recv told c' := by
  have ha : ∀ i, Awaits n c' i → Awaits n c i := fun i => hm.awaits hl
  cases hm with
  | @response b i io head eos res hst hi hf hp =>
      have h' : Streams n recv told { c with io := io } :=
        h.same (fun _ => id) (.of_eq rfl) rfl fun _ => id
      have hl' : Lined k n { c with io := io } := hl.hushed (.of_res rfl) rfl hl.ended hl.state
      exact h'.answered res hl' hst hi
  | @chunk b n bs limit io hst hc ho hn hr hl hne =>
      refine h.body (i := b.bodyTx) ha (.of_eq rfl) rfl rfl ?_ ?_
      · refine (h.served b.bodyTx).offer (hs b.bodyTx ?_) fun bs' heq => ?_
        · rw [Sends, hst]
        · cases heq
          exact hne
      · exact (h.resBody b.bodyTx).offer _
  | bodyEnd hst hc => exact h.same ha (.of_eq rfl) rfl fun _ => List.mem_cons_of_mem _
  | @bodyNext b hst hc hmem hu =>
      exact h.body (i := b.bodyTx) ha (.of_eq rfl) rfl rfl
        ((h.served b.bodyTx).dropSender fun _ => .inl (.inl hmem)) (h.resBody b.bodyTx).dropSender
  | _ => exact h.same ha (.of_eq rfl) rfl fun _ => id

theorem Move.sourced (hm : Move c c') (hs : Sourced c) : Sourced c' := by
  intro i hi
  have hrecv : ∀ {h}, c.state = .recvRes h → ∀ {limit}, h.holder = some (i, limit) →
      (c.resBody i).senders ≠ 0 := by
    intro h hst limit hh
    refine hs i ?_
    rw [Sends, hst]
    exact ⟨limit, hh⟩
  have hbody : ∀ {h}, c.state = .recvBody h → h.bodyTx = i → (c.resBody i).senders ≠ 0 := by
    intro h hst hh
    refine hs i ?_
    rw [Sends, hst]
    exact hh
  cases hm with
  | write hw ht => exact hs i hi
  | read hr => exact hs i hi
  | wake hq => exact hs i hi
  | rest hst hq => exact hs i hi
  | request hst ht hh hw hio =>
      obtain ⟨limit, hh⟩ := hi
      cases hh
  | @response b j io head eos res hst hj hf hp =>
      obtain ⟨limit, hh⟩ := hi
      rw [Bidirect.answered] at hh
      split at hh
      · cases hh
      · next hn =>
        obtain rfl := (Prod.mk.inj (Option.some.inj hh)).1
        rw [resBody_answered_self, show b.noBody res = false from Bool.not_eq_true _ ▸ hn]
        cases (decide ((c.res j).receivers ≠ 0)) <;> simp [bodyOf, Chan.new]
  | item hst hj ht hw hio =>
      obtain ⟨limit, hh⟩ := hi
      exact hrecv hst hh
  | toBody hst hr hb hh =>
      obtain rfl := hi
      exact hrecv hst hh
  | toNext hst hr hb hh hu => exact hi.elim
  | @chunk b n bs limit io hst hc ho hn hl hr hne =>
      obtain rfl : b.bodyTx = i := hi
      show (atId c.resBody b.bodyTx _ b.bodyTx).senders ≠ 0
      rw [atId_self, Chan.senders_offer]
      exact hbody hst rfl
  | lastRead hst hc hn hl hr he => exact hbody hst hi
  | bodyEnd hst hc => exact hs i hi
  | bodyNext hst hc hmem hu => exact hi.elim

/-- What stops a poll brings no request back. -/
theorem Stop.awaits {r : Halt IoError} (hst : Stop r c c') {i : Nat} (hi : Awaits n c' i) :
    Awaits n c i := by
  have hsent : ∀ {b : Bidirect} {j : Nat} {fin : Bool}, c.state = .recvRes b →
      (∃ h, State.recvRes (b.sent j fin) = .recvRes h ∧ h.handle.resTx = some i) →
      ∃ h, c.state = .recvRes h ∧ h.handle.resTx = some i := by
    rintro b j fin hs ⟨h, hh, hi⟩
    obtain rfl := State.recvRes.inj hh
    exact ⟨b, hs, hi⟩
  have hbody : ∀ {b : BodyReceiver},
      (∃ h, State.recvBody b = .recvRes h ∧ h.handle.resTx = some i) → Awaits n c i := by
    rintro b ⟨h, hh, -⟩
    cases hh
  have htaken : ∀ {handle : Handle} {rx : Chan Handle}, c.reqRx.Takes handle rx →
      n ≤ i + rx.queue.length → Awaits n c i := by
    intro handle rx ht hi
    refine .inl (Nat.le_trans hi (Nat.add_le_add_left ?_ i))
    rw [ht.queue]
    exact Nat.le_succ _
  cases hst with
  | awaitRequest hs hr hq hn => exact hi.imp_left fun hi => hr.queue ▸ hi
  | requestFailed hs ht hw hio why => exact hi.elim (htaken ht) .inr
  | requestPanic hs ht why => exact hi.elim (htaken ht) .inr
  | headPendingSent hs hj ht hr hw hio => exact hi.imp_right (hsent hs)
  | itemFailed hs hj ht hw hio why => exact hi.imp_right (hsent hs)
  | limitPending hs hc hn hl hr hw => exact hi.elim .inl hbody
  | limitFailed hs hc hl hn hr hk why => exact hi.elim .inl hbody
  | _ => exact hi

/-- What stops a poll takes no `RecvStream`. -/
theorem Stop.streams {r : Halt IoError} (hst : Stop r c c') (h : Streams n recv told c) :
    Streams n recv told c' := by
  have ha : ∀ i, Awaits n c' i → Awaits n c i := fun i => hst.awaits
  have htaken : ∀ {handle : Handle} {rx : Chan Handle} {io : BufIo},
      SameAnswers c (Conn.dropHandle handle { c with io := io, reqRx := rx }) := by
    intro handle rx io
    have hres : SameAnswers c { c with io := io, reqRx := rx } := .of_eq rfl
    exact hres.trans (sameAnswers_dropHandle _ _)
  cases hst with
  | requestFailed hs ht hw hio why => exact h.same ha htaken rfl fun _ => id
  | requestPanic hs ht why => exact h.same ha htaken rfl fun _ => id
  | @bodyFull c b body hs hc hq hr ho =>
      exact h.body (i := b.bodyTx) (f := fun _ => body) ha (.of_eq rfl) rfl rfl
        ((h.served b.bodyTx).quiet hq) (hq.single (h.resBody b.bodyTx))
  | _ => exact h.same ha (.of_eq rfl) rfl fun _ => id

theorem Stop.sourced {r : Halt IoError} (hst : Stop r c c') (hs : Sourced c) : Sourced c' := by
  intro i hi
  cases hst with
  | headPendingSent hst hj ht hr hw hio =>
      refine hs i ?_
      rw [Sends, hst]
      exact hi
  | itemFailed hst hj ht hw hio why =>
      refine hs i ?_
      rw [Sends, hst]
      exact hi
  | @bodyFull c b body hst hc hq hr ho =>
      show (atId c.resBody b.bodyTx (fun _ => body) i).senders ≠ 0
      by_cases hib : i = b.bodyTx
      · subst hib
        rw [atId_self, hq.senders]
        exact hs _ hi
      · rw [atId_of_ne hib]
        exact hs i hi
  | limitPending hst hc hn hl hr hw =>
      refine hs i ?_
      rw [Sends, hst]
      exact hi
  | limitFailed hst hc hl hn hr hk why =>
      refine hs i ?_
      rw [Sends, hst]
      exact hi
  | _ => exact hs i hi

/-! ### Polls -/

omit [Crates] in
/-- An error that is forwarded is no answer. -/
theorem sameAnswers_tryForwardError (e : IoError) (c : Conn) :
    SameAnswers c (tryForwardError e c) := by
  rw [tryForwardError]
  split
  · exact .of_eq rfl
  · next b hst =>
    split
    · next i hi =>
      rw [pollRes, run_zoom, Chan.send_eq]
      refine .of_atId (i := i) (f := fun _ => _) rfl ?_ fun hs => hs.offer _
      rw [Chan.offer]
      split
      · rfl
      · rw [Chan.enqueue]
        split
        · rfl
        · exact List.filterMap_append.trans (List.append_nil _)
    · exact .of_eq rfl
  · exact .of_eq rfl

omit [Crates] in
/-- It goes to the body that is being received. -/
theorem resBody_tryForwardError (e : IoError) (c : Conn) (i : Nat) :
    (tryForwardError e c).resBody i = c.resBody i ∨
      Sends c i ∧ (tryForwardError e c).resBody i = (c.resBody i).offer (.error e) := by
  rw [tryForwardError]
  split
  · exact .inl rfl
  · split
    · exact .inl rfl
    · exact .inl rfl
  · next b hst =>
    rw [pollResBody, run_zoom, Chan.send_eq]
    change atId c.resBody b.bodyTx (fun _ => (c.resBody b.bodyTx).offer (.error e)) i = _ ∨
      _ ∧ atId c.resBody b.bodyTx (fun _ => (c.resBody b.bodyTx).offer (.error e)) i = _
    by_cases hib : i = b.bodyTx
    · subst hib
      rw [atId_self]
      exact .inr ⟨by rw [Sends, hst], rfl⟩
    · rw [atId_of_ne hib]
      exact .inl rfl

omit [Crates] in
theorem awaits_tryForwardError (e : IoError) {i : Nat} :
    Awaits n (tryForwardError e c) i ↔ Awaits n c i := by
  obtain ⟨res, resBody, heq⟩ := tryForwardError_keeps e c
  rw [heq]
  rfl

omit [Crates] in
theorem sends_tryForwardError (e : IoError) {i : Nat} :
    Sends (tryForwardError e c) i ↔ Sends c i := by
  obtain ⟨res, resBody, heq⟩ := tryForwardError_keeps e c
  rw [heq]
  rfl

omit [Crates] in
theorem Streams.forward (e : IoError) (h : Streams n recv told c) (hs : Sourced c) :
    Streams n recv told (tryForwardError e c) := by
  have hr := sameAnswers_tryForwardError e c
  have hc : (tryForwardError e c).complete = c.complete := by
    obtain ⟨res, resBody, heq⟩ := tryForwardError_keeps e c
    rw [heq]
  refine ⟨fun i hi => (hr.eq i).trans (h.awaited i ((awaits_tryForwardError e).mp hi)), fun i => ?_,
    fun i => hr.single i (h.res i), fun i => ?_⟩
  · rw [hr.eq i, hc]
    rcases resBody_tryForwardError e c i with heq | ⟨hi, heq⟩
    · rw [heq]
      exact h.served i
    · rw [heq]
      exact (h.served i).offer (hs i hi) (by simp)
  · rcases resBody_tryForwardError e c i with heq | ⟨hi, heq⟩
    · rw [heq]
      exact h.resBody i
    · rw [heq]
      exact (h.resBody i).offer _

omit [Crates] in
theorem Sourced.forward (e : IoError) (hs : Sourced c) : Sourced (tryForwardError e c) := by
  intro i hi
  have hsend := hs i ((sends_tryForwardError e).mp hi)
  rcases resBody_tryForwardError e c i with heq | ⟨-, heq⟩
  · rw [heq]
    exact hsend
  · rw [heq, Chan.senders_offer]
    exact hsend

omit [Crates] in
/-- The error is on the channel of the body that was being received. -/
theorem failing_tryForwardError (e : IoError) {b : BodyReceiver} (hst : c.state = .recvBody b)
    (hs : (c.resBody b.bodyTx).Single) (h0 : (c.resBody b.bodyTx).receivers ≠ 0) :
    Failing ((tryForwardError e c).resBody b.bodyTx) := by
  rw [tryForwardError, hst]
  dsimp only
  rw [pollResBody, run_zoom, Chan.send_eq]
  show Failing (atId c.resBody b.bodyTx _ b.bodyTx)
  rw [atId_self]
  exact Chan.failing_offer hs h0

/-- What moves and stops keep: the queue, the `RecvStream`s and the senders of their bodies. -/
structure Kept (n : Nat) (recv : Nat → Option RecvStream) (told : Nat → Prop) (c : Conn) : Prop where
  lined : ∃ k, Lined k n c
  streams : Streams n recv told c
  sourced : Sourced c

theorem Move.kept (hm : Move c c') (h : Kept n recv told c) : Kept n recv told c' := by
  obtain ⟨k, hl⟩ := h.lined
  exact ⟨hm.lined hl, hm.streams hl h.streams h.sourced, hm.sourced h.sourced⟩

theorem Stop.kept {r : Halt IoError} (hst : Stop r c c') (h : Kept n recv told c) :
    Kept n recv told c' := by
  obtain ⟨k, hl⟩ := h.lined
  exact ⟨hst.lined hl, hst.streams h.streams, hst.sourced h.sourced⟩

omit [Crates] in
theorem Kept.forward (e : IoError) (h : Kept n recv told c) : Kept n recv told (tryForwardError e c) := by
  obtain ⟨k, hl⟩ := h.lined
  exact ⟨⟨k, lined_tryForwardError e hl⟩, h.streams.forward e h.sourced, h.sourced.forward e⟩

/-- A poll of the codec keeps the `RecvStream`s. -/
theorem ClientPost.kept {r : Outcome IoError Unit} (hx : ClientPost c r c')
    (h : Kept n recv told c) : Kept n recv told c' :=
  hx.keeps (fun _ _ hm => hm.kept) (fun _ _ _ hst => hst.kept) (fun e _ h => h.forward e) h

omit [Crates] in
/-- A connection that is done with a body has received it. -/
theorem Done.complete (hd : Done c) {i : Nat} (hi : Sends c i) : i ∈ c.complete := by
  rw [Sends] at hi
  cases hd with
  | unasked hu =>
      rw [hu.1] at hi
      exact hi.elim
  | response hs hr hb hh hu =>
      rw [hs] at hi
      obtain ⟨limit, hi⟩ := hi
      cases hh.symm.trans hi
  | body hs hc hm hu =>
      rw [hs] at hi
      obtain rfl := hi
      exact hm

end Moves

/-! ### A connection that is dropped -/

section DropConn
variable {n : Nat} {recv : Nat → Option RecvStream} {told : Nat → Prop} {c : Conn} {i : Nat}

theorem resBody_dropHandles (q : List Handle) (c : Conn) :
    (q.foldl (fun w h => w.dropHandle h) c).resBody = c.resBody := by
  induction q generalizing c with
  | nil => rfl
  | cons h q ih => exact ih (c.dropHandle h)

/-- The sender of the body goes with the connection. -/
theorem resBody_dropConn (c : Conn) (i : Nat) :
    Sends c i ∧ (dropConn c).resBody i = (c.resBody i).dropSender ∨
      ¬ Sends c i ∧ (dropConn c).resBody i = c.resBody i := by
  have hat : ∀ {j : Nat} {c₁ : Conn}, c₁.resBody = atId c.resBody j Chan.dropSender →
      (j = i ∧ c₁.resBody i = (c.resBody i).dropSender ∨ j ≠ i ∧ c₁.resBody i = c.resBody i) := by
    intro j c₁ h
    by_cases hj : j = i
    · subst hj
      exact .inl ⟨rfl, by rw [h, atId_self]⟩
    · exact .inr ⟨hj, by rw [h, atId_of_ne fun he => hj he.symm]⟩
  rw [dropConn, Sends]
  dsimp only
  rw [resBody_dropHandles]
  cases c.state with
  | sendReq => exact .inr ⟨id, rfl⟩
  | recvBody h => exact hat rfl
  | recvRes h =>
      dsimp only
      cases h.holder with
      | none => exact .inr ⟨by simp, rfl⟩
      | some p =>
          refine (hat (j := p.1) rfl).imp (fun h => ⟨⟨p.2, ?_⟩, h.2⟩) fun h => ⟨?_, h.2⟩
          · rw [← h.1]
          · rintro ⟨limit, hp⟩
            exact h.1 (congrArg Prod.fst (Option.some.inj hp))

theorem sameAnswers_dropConn (c : Conn) : SameAnswers c (dropConn c) := by
  have hq : ∀ {c₁ : Conn}, SameAnswers c c₁ →
      SameAnswers c { c₁.reqRx.queue.foldl (fun w h => w.dropHandle h) c₁ with
        reqRx := (c₁.reqRx.queue.foldl (fun w h => w.dropHandle h) c₁).reqRx.dropReceiver } :=
    fun h => h.trans ((sameAnswers_dropHandles _ _).trans (.of_eq rfl))
  rw [dropConn]
  refine hq ?_
  cases c.state with
  | sendReq => exact .of_eq rfl
  | recvBody b => exact .of_eq rfl
  | recvRes b =>
      dsimp only
      cases b.holder with
      | none => exact sameAnswers_dropHandle b.handle c
      | some p => exact (sameAnswers_dropHandle b.handle c).trans (.of_eq rfl)

theorem awaits_dropConn (h : Awaits n (dropConn c) i) : Awaits n c i := by
  rw [Awaits, (sameCodec_dropConn c).state, (sent_dropConn c).1] at h
  refine h.imp_left fun h => Nat.le_trans h (Nat.add_le_add_left ?_ i)
  rw [Chan.dropReceiver]
  split
  · exact Nat.zero_le _
  · exact Nat.le_refl _

/-- A connection is dropped that has told of the body it was receiving. -/
theorem Streams.dropConn (h : Streams n recv told c)
    (hd : ∀ i, Sends c i → streams recv c i ≠ [] →
      (i ∈ c.complete ∨ told i) ∨ Failing (c.resBody i)) :
    Streams n recv told (Client.dropConn c) := by
  have hr := sameAnswers_dropConn c
  have hs := sameCodec_dropConn c
  refine ⟨fun i hi => (hr.eq i).trans (h.awaited i (awaits_dropConn hi)), fun i => ?_,
    fun i => hr.single i (h.res i), fun i => ?_⟩
  · rw [hr.eq i, hs.complete]
    rcases resBody_dropConn c i with ⟨hi, heq⟩ | ⟨-, heq⟩
    · rw [heq]
      exact (h.served i).dropSender (hd i hi)
    · rw [heq]
      exact h.served i
  · rcases resBody_dropConn c i with ⟨-, heq⟩ | ⟨-, heq⟩
    · rw [heq]
      exact (h.resBody i).dropSender
    · rw [heq]
      exact h.resBody i

end DropConn

/-! ### The user -/

/-- A step of the `Connection`, and none on a handle. -/
def Action.onConn : Action → Bool
  | .pollConn _ => true
  | .dropConn => true
  | _ => false

/-- What a step on a handle makes of the `RecvStream`s of the `i`-th response, and of its body. -/
inductive Uses (i : Nat) : Obs → List RecvStream → Chan (Except IoError Bytes) →
    List RecvStream → Chan (Except IoError Bytes) → Prop where
  | same {o : Obs} {rs : List RecvStream} {body : Chan (Except IoError Bytes)}
      (ho : ∀ r, o ≠ .read i r) : Uses i o rs body rs body
  | gone {o : Obs} {rs : List RecvStream} {body : Chan (Except IoError Bytes)} {m : Nat}
      (ho : ∀ r, o ≠ .read i r) : Uses i o rs body [] (Chan.dropReceiver^[m] body)
  | read {cx : Waker} {n : Nat} {r r' : RecvStream} {o : Outcome IoError Bytes}
      {body body' : Chan (Except IoError Bytes)}
      (hx : pollBodyData cx (n + 1) (r, body) = (o, (r', body'))) :
      Uses i (.read i o) [r] body [r'] body'

section User
variable {k n n' i : Nat} {recv recv' : Nat → Option RecvStream} {told : Nat → Prop}
  {c c' : Conn} {o : Obs} {rs rs' : List RecvStream} {body body' : Chan (Except IoError Bytes)}

theorem senders_dropReceivers {α : Type} (m : Nat) (c : Chan α) :
    (Chan.dropReceiver^[m] c).senders = c.senders :=
  Function.Iterate.rec (fun c' : Chan α => c'.senders = c.senders) rfl
    (fun _ h => Chan.senders_dropReceiver.trans h) m

theorem Uses.senders (h : Uses i o rs body rs' body') (hs : ∀ r ∈ rs, r.Fits body) :
    body'.senders = body.senders := by
  cases h with
  | same ho => rfl
  | gone ho => exact senders_dropReceivers _ _
  | read hx => exact (wp_elim (pollBodyData_reads (hs _ List.mem_cons_self)) hx).senders

/-- A read has failed. -/
def Obs.failsRead (o : Obs) (i : Nat) : Prop := ∃ e, o = .read i (.fail e)

/-- An error on the channel stays there, or is returned. -/
theorem Uses.tells {told : Prop} (h : Uses i o rs body rs' body') (hf : ∀ r ∈ rs, r.Fits body)
    (ht : rs ≠ [] → told ∨ Failing body) (hne : rs' ≠ []) :
    (told ∨ o.failsRead i) ∨ Failing body' := by
  cases h with
  | same ho => exact (ht hne).imp_left .inl
  | gone ho => exact absurd rfl hne
  | read hx =>
      rcases ht (List.cons_ne_nil _ _) with ht | hfail
      · exact .inl (.inl ht)
      · refine ((wp_elim (pollBodyData_reads (hf _ List.mem_cons_self)) hx).failing hfail).imp_left
          fun he => .inr ?_
        obtain ⟨e, rfl⟩ := he
        exact ⟨e, rfl⟩

theorem Uses.served {told : Prop} (h : Uses i o rs body rs' body') (hs : Served told rs body) :
    Served (told ∨ o.failsRead i) rs' body' := by
  have hclosed : rs' ≠ [] → body'.senders = 0 → (told ∨ o.failsRead i) ∨ Failing body' :=
    fun hne h0 => h.tells hs.fits (fun hne => hs.closed hne (h.senders hs.fits ▸ h0)) hne
  cases h with
  | same ho => exact hs.mono .inl
  | gone ho => exact .nil
  | read hx =>
      have hr := wp_elim (pollBodyData_reads (hs.fits _ List.mem_cons_self)) hx
      refine ⟨Nat.le_refl 1, fun r hmem => ?_, fun _ => ?_, hclosed⟩
      · obtain rfl := List.mem_singleton.mp hmem
        exact hr.fits
      · rw [hr.receivers]
        exact hs.alive (List.cons_ne_nil _ _)

theorem Uses.single {told : Prop} (h : Uses i o rs body rs' body') (hs : Served told rs body)
    (h1 : body.Single) : body'.Single := by
  cases h with
  | same ho => exact h1
  | gone ho => exact Function.Iterate.rec Chan.Single h1 (fun _ h => h.dropReceiver) _
  | read hx =>
      have hr := wp_elim (pollBodyData_reads (hs.fits _ List.mem_cons_self)) hx
      have h0 := hs.alive (List.cons_ne_nil _ _)
      refine ⟨hr.senders ▸ h1.senders, hr.receivers ▸ h1.receivers, fun h => ?_, fun _ => ?_⟩
      · exact absurd (hr.receivers ▸ h) h0
      · rw [hr.ended]
        exact h1.alive h0

theorem Uses.nil (h : Uses i o [] body rs' body') : rs' = [] := by
  cases h <;> rfl

/-- A step on a handle keeps the `RecvStream`s. -/
theorem Streams.uses (h : Streams n recv told c) (ha : ∀ i, Awaits n' c' i → Awaits n c i)
    (hu : ∀ i, Uses i o (streams recv c i) (c.resBody i) (streams recv' c' i) (c'.resBody i))
    (hr : ∀ i, (c'.res i).Single) (hc : c'.complete = c.complete) :
    Streams n' recv' (fun i => told i ∨ o.failsRead i) c' where
  awaited := fun i hi => by
    have hi := hu i
    rw [h.awaited i (ha i ‹_›)] at hi
    exact hi.nil
  served := fun i => by
    rw [hc]
    exact ((hu i).served (h.served i)).mono or_assoc.mp
  res := hr
  resBody := fun i => (hu i).single (h.served i) (h.resBody i)

/-- What of the connection belongs to the `i`-th response has changed, and nothing else; answers have
been taken only. -/
structure OnlyAt (i : Nat) (recv : Nat → Option RecvStream) (c : Conn)
    (recv' : Nat → Option RecvStream) (c' : Conn) : Prop where
  recv : ∀ j, j ≠ i → recv' j = recv j
  res : ∀ j, j ≠ i → c'.res j = c.res j
  resBody : ∀ j, j ≠ i → c'.resBody j = c.resBody j
  queue : (c'.res i).queue ⊆ (c.res i).queue
  single : (c.res i).Single → (c'.res i).Single

theorem streams_onRes {f : Chan Answer → Chan Answer} (recv : Nat → Option RecvStream)
    (hq : (f (c.res i)).queue = (c.res i).queue) :
    streams recv (c.onRes i f) i = streams recv c i := by
  have hi : (c.onRes i f).res i = f (c.res i) := atId_self
  rw [streams, streams, hi, hq]

/-- A `ResponseFuture` that is dropped takes a `RecvStream` with it that is on the way. -/
theorem dropFuture_body (i : Nat) (w : World) : ∃ rb m, (dropFuture i w).conn =
      { w.conn with res := atId w.conn.res i Chan.dropReceiver, resBody := rb } ∧
    (∀ j, j ≠ i → rb j = w.conn.resBody j) ∧ rb i = Chan.dropReceiver^[m] (w.conn.resBody i) ∧
    ((w.conn.res i).queue.filterMap streamOf = [] → m = 0) := by
  have hfold : ∀ f : Conn → Answer → Conn,
      (∀ c p, f c (.ok p) = c.onResBody i Chan.dropReceiver) → (∀ c e, f c (.error e) = c) →
      ∀ (q : List Answer) (c : Conn), ∃ rb m, q.foldl f c = { c with resBody := rb } ∧
        (∀ j, j ≠ i → rb j = c.resBody j) ∧ rb i = Chan.dropReceiver^[m] (c.resBody i) ∧
        (q.filterMap streamOf = [] → m = 0) := by
    intro f hok herr q
    induction q with
    | nil => exact fun c => ⟨c.resBody, 0, rfl, by simp, rfl, by simp⟩
    | cons a q ih =>
        intro c
        cases a with
        | ok p =>
            obtain ⟨rb, m, h, hj, hi, -⟩ := ih (c.onResBody i Chan.dropReceiver)
            have hb : (c.onResBody i Chan.dropReceiver).resBody i = (c.resBody i).dropReceiver :=
              atId_self
            rw [hb] at hi
            rw [List.foldl_cons, hok]
            refine ⟨rb, m + 1, h, fun j hne => (hj j hne).trans (atId_of_ne hne), hi, fun hnil => ?_⟩
            cases hnil
        | error e =>
            rw [List.foldl_cons, herr]
            exact ih c
  rw [dropFuture]
  refine (hfold _ ?_ ?_ (w.conn.res i).queue w.conn).imp fun rb h => h.imp fun m h =>
    ⟨(congrArg (Conn.onRes i Chan.dropReceiver) h.1).trans rfl, h.2⟩
  · intros
    rfl
  · intros
    rfl

theorem dropFuture_uses {w : World} (ho : ∀ r, o ≠ .read i r)
    (hs : (streams w.recv w.conn i).length ≤ 1) (h1 : (w.conn.res i).Single) :
    OnlyAt i w.recv w.conn (dropFuture i w).recv (dropFuture i w).conn ∧
      Uses i o (streams w.recv w.conn i) (w.conn.resBody i)
        (streams (dropFuture i w).recv (dropFuture i w).conn i)
        ((dropFuture i w).conn.resBody i) := by
  obtain ⟨rb, m, heq, hne, hself, hnone⟩ := dropFuture_body i w
  have hrecv : (dropFuture i w).recv = w.recv := rfl
  have hres : (dropFuture i w).conn.res = atId w.conn.res i Chan.dropReceiver := by rw [heq]
  have hbody : (dropFuture i w).conn.resBody = rb := by rw [heq]
  have hq : ((dropFuture i w).conn.res i).queue = [] := by
    rw [hres, atId_self]
    exact h1.queue_dropReceiver
  refine ⟨⟨fun _ _ => rfl, fun j hj => ?_, fun j hj => ?_, ?_, fun h1 => ?_⟩, ?_⟩
  · rw [hres, atId_of_ne hj]
  · rw [hbody]
    exact hne j hj
  · rw [hq]
    exact List.nil_subset _
  · rw [hres, atId_self]
    exact h1.dropReceiver
  · rw [streams, streams, hrecv, hq, hbody, hself, List.filterMap_nil, List.append_nil]
    rw [streams, List.length_append] at hs
    cases hmap : (w.conn.res i).queue.filterMap streamOf with
    | nil =>
        rw [hnone hmap, List.append_nil]
        exact .same ho
    | cons r rs =>
        rw [hmap, List.length_cons] at hs
        have h0 : (w.recv i).toList = [] := List.eq_nil_of_length_eq_zero (by omega)
        rw [h0]
        exact .gone ho

variable [VecAlloc] [Crates]

/-- A step on a handle leaves the codec as it is. -/
theorem Acts.beside {w w' : World} {a : Action} (h : Acts w a o w') (ha : a.onConn = false) :
    w'.phase = w.phase ∧ w'.conn.io = w.conn.io ∧ w'.conn.state = w.conn.state ∧
      w'.conn.complete = w.conn.complete ∧ w'.conn.answers = w.conn.answers := by
  have hdrop : ∀ {i : Nat} {w₁ : World}, w₁.phase = w.phase → w₁.conn.io = w.conn.io →
      w₁.conn.state = w.conn.state → w₁.conn.complete = w.conn.complete →
      w₁.conn.answers = w.conn.answers → (Client.dropFuture i w₁).phase = w.phase ∧
        (Client.dropFuture i w₁).conn.io = w.conn.io ∧
        (Client.dropFuture i w₁).conn.state = w.conn.state ∧
        (Client.dropFuture i w₁).conn.complete = w.conn.complete ∧
        (Client.dropFuture i w₁).conn.answers = w.conn.answers := by
    intro i w₁ hp hio hs hc ha
    obtain ⟨rb, heq⟩ := dropFuture_conn i w₁
    rw [heq]
    exact ⟨hp, hio, hs, hc, ha⟩
  cases h with
  | poll hp hx => cases ha
  | dropConn hp => cases ha
  | resolve hf hq => exact hdrop rfl rfl rfl rfl rfl
  | unanswered hf hq hn => exact hdrop rfl rfl rfl rfl rfl
  | dropFuture hf => exact hdrop rfl rfl rfl rfl rfl
  | _ => exact ⟨rfl, rfl, rfl, rfl, rfl⟩

/-- What a step on a handle makes of the queue of requests. -/
inductive Queues (w w' : World) : Prop where
  | same (hs : w'.conn.reqRx.sent = w.conn.reqRx.sent) (hq : w'.conn.reqRx.queue = w.conn.reqRx.queue)
      (hn : w'.issued = w.issued)
  | request {req : Request} {noSendBody : Bool} (hr : w.conn.reqRx.receivers ≠ 0)
      (hx : w'.conn.reqRx = w.conn.reqRx.enqueue (newHandle w.issued req noSendBody))
      (hn : w'.issued = w.issued + 1)

theorem Acts.queues {w w' : World} {a : Action} (h : Acts w a o w') (ha : a.onConn = false) :
    Queues w w' := by
  have hdrop : ∀ {i : Nat} {w₁ : World}, w₁.conn.reqRx = w.conn.reqRx → w₁.issued = w.issued →
      Queues w (Client.dropFuture i w₁) := by
    intro i w₁ hr hn
    obtain ⟨rb, heq⟩ := dropFuture_conn i w₁
    refine .same ?_ ?_ hn
    · rw [heq, hr]
    · rw [heq, hr]
  cases h with
  | poll hp hx => cases ha
  | dropConn hp => cases ha
  | request hm hs hr hl hb => exact .request hr rfl rfl
  | dropRequest hs => exact .same Chan.sent_dropSender Chan.queue_dropSender rfl
  | resolve hf hq => exact hdrop rfl rfl
  | unanswered hf hq hn => exact hdrop rfl rfl
  | dropFuture hf => exact hdrop rfl rfl
  | _ => exact .same rfl rfl rfl

/-- What a step on a handle makes of the responses. -/
structure OnHandle (w : World) (o : Obs) (w' : World) : Prop where
  awaits : ∀ i, Awaits w'.issued w'.conn i → Awaits w.issued w.conn i
  uses : ∀ i, Uses i o (streams w.recv w.conn i) (w.conn.resBody i) (streams w'.recv w'.conn i)
    (w'.conn.resBody i)
  res : ∀ i, (w'.conn.res i).Single
  answers : ∀ i, (w'.conn.res i).queue ⊆ (w.conn.res i).queue

omit [VecAlloc] [Crates] in
/-- Nothing of the responses has changed. -/
theorem OnHandle.same {w w' : World} (hs : Streams w.issued w.recv told w.conn)
    (ho : ∀ i r, o ≠ .read i r) (hn : w'.issued = w.issued) (hv : w'.recv = w.recv)
    (hst : w'.conn.state = w.conn.state) (hq : w'.conn.reqRx.queue = w.conn.reqRx.queue)
    (hr : w'.conn.res = w.conn.res) (hb : w'.conn.resBody = w.conn.resBody) : OnHandle w o w' where
  awaits := fun i hi => by
    rw [Awaits, hn, hst, hq] at hi
    exact hi
  uses := fun i => by
    rw [streams, streams, hv, hr, hb]
    exact .same (ho i)
  res := hr ▸ hs.res
  answers := fun i => by rw [hr]; exact List.Subset.refl _

omit [VecAlloc] [Crates] in
/-- The `i`-th response has changed. -/
theorem OnlyAt.onHandle {w w' : World} (h : OnlyAt i w.recv w.conn w'.recv w'.conn)
    (hs : Streams w.issued w.recv told w.conn) (ho : ∀ j r, j ≠ i → o ≠ .read j r)
    (ha : ∀ i, Awaits w'.issued w'.conn i → Awaits w.issued w.conn i)
    (hu : Uses i o (streams w.recv w.conn i) (w.conn.resBody i) (streams w'.recv w'.conn i)
      (w'.conn.resBody i)) : OnHandle w o w' where
  awaits := ha
  uses := fun j => by
    by_cases hj : j = i
    · subst hj
      exact hu
    · rw [streams, streams, h.recv j hj, h.res j hj, h.resBody j hj]
      exact .same fun r => ho j r hj
  res := fun j => by
    by_cases hj : j = i
    · subst hj
      exact h.single (hs.res j)
    · rw [h.res j hj]
      exact hs.res j
  answers := fun j => by
    by_cases hj : j = i
    · subst hj
      exact h.queue
    · rw [h.res j hj]
      exact List.Subset.refl _

theorem Acts.onHandle {w w' : World} {a : Action} (h : Acts w a o w') (ha : a.onConn = false)
    (hl : Lined k w.issued w.conn) (hs : Streams w.issued w.recv told w.conn) :
    OnHandle w o w' := by
  -- A `ResponseFuture` goes, of which no more than the channel has changed before.
  have hdrop : ∀ {i : Nat} {w₁ : World} {f : Chan Answer → Chan Answer},
      w₁.conn = w.conn.onRes i f → w₁.issued = w.issued → (∀ j, j ≠ i → w₁.recv j = w.recv j) →
      (w₁.recv i).toList ++ (f (w.conn.res i)).queue.filterMap streamOf =
        streams w.recv w.conn i →
      (f (w.conn.res i)).queue ⊆ (w.conn.res i).queue → (f (w.conn.res i)).Single →
      (∀ i r, o ≠ .read i r) → OnHandle w o (Client.dropFuture i w₁) := by
    intro i w₁ f hc hn hv hst hq h1 ho
    have hres : w₁.conn.res i = f (w.conn.res i) := by
      rw [hc]
      exact atId_self
    rw [← hres] at hst
    change streams w₁.recv w₁.conn i = _ at hst
    have hone : (streams w₁.recv w₁.conn i).length ≤ 1 := by
      rw [hst]
      exact (hs.served i).once
    obtain ⟨hat, huses⟩ := dropFuture_uses (ho i) hone (hres ▸ h1)
    have hbody : w₁.conn.resBody = w.conn.resBody := by rw [hc]; rfl
    have honly : OnlyAt i w.recv w.conn (Client.dropFuture i w₁).recv
        (Client.dropFuture i w₁).conn := by
      refine ⟨fun j hj => (hat.recv j hj).trans (hv j hj), fun j hj => (hat.res j hj).trans ?_,
        fun j hj => (hat.resBody j hj).trans (congrFun hbody j),
        List.Subset.trans hat.queue (hres ▸ hq), fun _ => hat.single (hres ▸ h1)⟩
      rw [hc]
      exact atId_of_ne hj
    rw [hst, hbody] at huses
    refine honly.onHandle hs (fun j r _ => ho j r) (fun j hj => ?_) huses
    obtain ⟨rb, heq⟩ := dropFuture_conn i w₁
    rw [heq, hc] at hj
    exact hn ▸ hj
  -- With a `RecvStream` held there is no answer on the way.
  have hheld : ∀ {i : Nat} {r : RecvStream}, w.recv i = some r →
      (w.conn.res i).queue.filterMap streamOf = [] ∧ streams w.recv w.conn i = [r] := by
    intro i r hr
    have honce := (hs.served i).once
    rw [streams, hr, Option.toList_some, List.singleton_append, List.length_cons] at honce
    have hnil : (w.conn.res i).queue.filterMap streamOf = [] :=
      List.eq_nil_of_length_eq_zero (by omega)
    rw [streams, hr, hnil]
    exact ⟨rfl, rfl⟩
  cases h with
  | poll hp hx => cases ha
  | dropConn hp => cases ha
  | idle => exact .same hs (by simp) rfl rfl rfl rfl rfl rfl
  | refused hr => exact .same hs (by simp) rfl rfl rfl rfl rfl rfl
  | cloned hsend => exact .same hs (by simp) rfl rfl rfl rfl rfl rfl
  | dropRequest hsend => exact .same hs (by simp) rfl rfl rfl Chan.queue_dropSender rfl rfl
  | sendData hsend hp => exact .same hs (by simp) rfl rfl rfl rfl rfl rfl
  | dropSend hsend => exact .same hs (by simp) rfl rfl rfl rfl rfl rfl
  | @request req noBody noSendBody limit hm hsend hr hlim hb =>
      have he : w.conn.reqRx.ended = false := Bool.eq_false_iff.mpr fun he => hr (hl.ended he)
      have hq : (enqueued w.issued req noSendBody w.conn).reqRx.queue =
          w.conn.reqRx.queue ++ [newHandle w.issued req noSendBody] := Chan.queue_enqueue _ he
      have hres : (enqueued w.issued req noSendBody w.conn).res =
          atId w.conn.res w.issued fun _ => .new 1 := rfl
      have hnew : (enqueued w.issued req noSendBody w.conn).res w.issued = .new 1 := by
        rw [hres, atId_self]
      have hat : OnlyAt w.issued w.recv w.conn w.recv (enqueued w.issued req noSendBody w.conn) := by
        refine ⟨fun _ _ => rfl, fun j hj => by rw [hres, atId_of_ne hj], fun _ _ => rfl, ?_,
          fun _ => hnew ▸ Chan.single_new 1⟩
        rw [hnew]
        exact List.nil_subset _
      refine hat.onHandle hs (by simp) (fun i hi => hi.imp_left fun hi => ?_) ?_
      · rw [hq, List.length_append, List.length_singleton, ← Nat.add_assoc] at hi
        exact Nat.le_of_succ_le_succ hi
      · -- Of a response that is not asked for there is no `RecvStream`.
        have hnone := hs.awaited w.issued (.inl (Nat.le_add_right _ _))
        have hnone' : streams w.recv (enqueued w.issued req noSendBody w.conn) w.issued = [] := by
          rw [streams, hnew, (List.append_eq_nil_iff.mp hnone).1]
          rfl
        rw [hnone, hnone']
        exact .same (by simp)
  | @wait i cx hf hq hn =>
      have hi : (w.conn.onRes i fun c => c.register cx).res i = (w.conn.res i).register cx :=
        atId_self
      have hat : OnlyAt i w.recv w.conn w.recv (w.conn.onRes i fun c => c.register cx) := by
        refine ⟨fun _ _ => rfl, fun j hj => atId_of_ne hj, fun _ _ => rfl, ?_, fun h1 => ?_⟩
        · rw [hi]
          exact List.Subset.refl _
        · rw [hi]
          exact h1.register cx
      refine hat.onHandle hs (by simp) (fun _ => id) ?_
      rw [streams_onRes _ rfl]
      exact .same (by simp)
  | @resolve i cx a q hf hq =>
      have ht : (w.conn.res i).Takes a ({ w.conn.res i with queue := q }.wakeAll) :=
        ⟨hq, rfl, rfl, rfl, rfl, rfl⟩
      have h1 := ht.single (hs.res i)
      have hsub : q ⊆ (w.conn.res i).queue := hq ▸ List.subset_cons_self _ _
      cases a with
      | error e =>
          refine hdrop rfl rfl (fun _ _ => rfl) ?_ hsub h1 (by simp)
          rw [streams, hq]
          rfl
      | ok p =>
          refine hdrop rfl rfl (fun j hj => Function.update_of_ne hj _ _) ?_ hsub h1 (by simp)
          -- The `RecvStream` is the first, whether it is on the way or held.
          have hcons : (Except.ok p :: q).filterMap streamOf = p.2 :: q.filterMap streamOf := rfl
          have honce := (hs.served i).once
          rw [streams, hq, hcons, List.length_append, List.length_cons] at honce
          have h0 : (w.recv i).toList = [] := List.eq_nil_of_length_eq_zero (by omega)
          rw [streams, hq, hcons, h0]
          dsimp only [received]
          rw [Function.update_self]
          rfl
  | unanswered hf hq hn =>
      exact hdrop rfl rfl (fun _ _ => rfl) rfl (List.Subset.refl _) ((hs.res _).register _) (by simp)
  | @dropFuture i hf =>
      obtain ⟨hat, huses⟩ := dropFuture_uses (o := .idle) (by simp) (hs.served i).once (hs.res i)
      refine hat.onHandle hs (by simp) (fun j hj => ?_) huses
      obtain ⟨rb, heq⟩ := dropFuture_conn i w
      rw [heq] at hj
      exact hj
  | @read i cx n r r' o body hr hp =>
      obtain ⟨hnil, hone⟩ := hheld hr
      have hb : (w.conn.onResBody i fun _ => body).resBody =
          atId w.conn.resBody i fun _ => body := rfl
      have hat : OnlyAt i w.recv w.conn (Function.update w.recv i (some r'))
          (w.conn.onResBody i fun _ => body) :=
        ⟨fun j hj => Function.update_of_ne hj _ _, fun _ _ => rfl,
          fun j hj => by rw [hb, atId_of_ne hj], List.Subset.refl _, id⟩
      refine hat.onHandle hs (fun j r hj heq => hj (Obs.read.inj heq).1.symm) (fun _ => id) ?_
      have hbody : (w.conn.onResBody i fun _ => body).resBody i = body := by rw [hb, atId_self]
      have hstr : streams (Function.update w.recv i (some r')) (w.conn.onResBody i fun _ => body) i =
          (some r').toList ++ (w.conn.res i).queue.filterMap streamOf := by
        rw [streams, Function.update_self]
        rfl
      rw [hbody, hstr, hone, hnil]
      exact .read hp
  | @dropRecv i r hr =>
      obtain ⟨hnil, hone⟩ := hheld hr
      have hat : OnlyAt i w.recv w.conn (Function.update w.recv i none)
          (w.conn.onResBody i Chan.dropReceiver) :=
        ⟨fun j hj => Function.update_of_ne hj _ _, fun _ _ => rfl, fun j hj => atId_of_ne hj,
          List.Subset.refl _, id⟩
      refine hat.onHandle hs (by simp) (fun _ => id) ?_
      have hbody : (w.conn.onResBody i Chan.dropReceiver).resBody i =
          Chan.dropReceiver^[1] (w.conn.resBody i) := atId_self
      have hstr : streams (Function.update w.recv i none) (w.conn.onResBody i Chan.dropReceiver) i =
          (none : Option RecvStream).toList ++ (w.conn.res i).queue.filterMap streamOf := by
        rw [streams, Function.update_self]
        rfl
      rw [hbody, hstr, hnil]
      exact .gone (by simp)

end User

end HreqH1.Client
