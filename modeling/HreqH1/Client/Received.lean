import HreqH1.Client.Replies
import HreqH1.Client.Truncation

/-!
# Client — what is received

The user's side of `Client/Replies`: over a transport that carries the replies to the requests, whole and
in their order, and in whatever pieces, a `ResponseFuture` resolves to the response of its own request,
what is read of a body is a front of that reply's data, and at the end of a complete body all of it
(`responses_received`).

`Right` is about the channels, which the codec fills; `Shown` about what the user has taken from them.
-/

namespace HreqH1.Client
open PollM Runs BufIo RecvStream

/-- What an observation shows of the `i`-th body. -/
def Obs.readOf (i : Nat) : Obs → Bytes
  | .read j o => if j = i then shownBytes o else []
  | _ => []

/-- What has been read of the `i`-th body. -/
def readOut (os : List Obs) (i : Nat) : Bytes := os.flatMap (Obs.readOf i)

/-- What is on the channels is of the replies. -/
structure Right (replies : List Reply) (c : Conn) : Prop where
  past : ∀ i ∈ c.complete, i < c.answers.length
  front : ∀ i, (c.resBody i).receivers ≠ 0 → sentBytes (c.resBody i) <+: messageData replies i
  whole : ∀ i ∈ c.complete, (c.resBody i).receivers ≠ 0 →
    sentBytes (c.resBody i) = messageData replies i
  answers : ∀ i res recv, .ok (res, recv) ∈ (c.res i).queue →
    ∃ r, replies[i]? = some r ∧ r.parsed = res

/-! ### One body -/

section Body
variable {out : Bytes} {rs rs' : List RecvStream} {body body' : Chan (Except IoError Bytes)}
  {i : Nat} {o : Obs}

/-- What each `RecvStream` has shown, and what it holds, is all that has been put on the channel. -/
def AllShown (out : Bytes) (rs : List RecvStream) (body : Chan (Except IoError Bytes)) : Prop :=
  ∀ r ∈ rs, Shown out r body

theorem AllShown.nil : AllShown out [] body := by
  intro r hr
  cases hr

/-- Only wakers and senders have come and gone. -/
theorem AllShown.congr (h : AllShown out rs body) (hq : body'.queue = body.queue)
    (hs : body'.sent = body.sent) : AllShown out rs body' :=
  fun r hr => (h r hr).congr hq hs

/-- What is put on the channel is held. -/
theorem AllShown.offer (h : AllShown out rs body) (h1 : body.Single)
    (ha : rs ≠ [] → body.receivers ≠ 0) (item : Except IoError Bytes) :
    AllShown out rs (body.offer item) := by
  intro r hr
  have h0 := ha (List.ne_nil_of_mem hr)
  refine (h r hr).offer (fun he => ?_) h0 item
  rw [h1.alive h0] at he
  cases he

theorem readOf_of_ne (ho : ∀ r, o ≠ .read i r) : o.readOf i = [] := by
  cases o with
  | read j r =>
      refine if_neg ?_
      rintro rfl
      exact ho r rfl
  | _ => rfl

/-- A read shows the front of what is held. -/
theorem Uses.shown (hu : Uses i o rs body rs' body') (h : AllShown out rs body) :
    AllShown (out ++ o.readOf i) rs' body' := by
  cases hu with
  | same ho =>
      rw [readOf_of_ne ho, List.append_nil]
      exact h
  | gone ho => exact .nil
  | read hx =>
      intro r hr
      obtain rfl := List.mem_singleton.mp hr
      rw [Obs.readOf, if_pos rfl]
      exact (h _ List.mem_cons_self).read hx

/-- The receiver's end of the body is all that has changed. -/
theorem Uses.drains (hu : Uses i o rs body rs' body') (hf : ∀ r ∈ rs, r.Fits body) :
    Drains body body' := by
  cases hu with
  | same ho => exact .refl _
  | gone ho =>
      exact Function.Iterate.rec (Drains body) (.refl body) (fun _ h => h.trans drains_dropReceiver) _
  | read hx => exact drains_pollBodyData (hf _ List.mem_cons_self) hx

end Body

/-! ### Moves -/

section Moves
variable {replies : List Reply} {reqs : List Handle} {c c' : Conn} {n k : Nat}
  {recv : Nat → Option RecvStream} {told : Nat → Prop} {out : Nat → Bytes}

/-- Nothing has been put on a body's channel but errors, and no answer has come. -/
theorem Right.same (h : Right replies c) (hb : ∀ i, (c'.resBody i).receivers ≠ 0 →
      (c.resBody i).receivers ≠ 0 ∧ sentBytes (c'.resBody i) = sentBytes (c.resBody i))
    (hr : ∀ i p, .ok p ∈ (c'.res i).queue → .ok p ∈ (c.res i).queue)
    (hc : c'.complete = c.complete) (ha : c'.answers = c.answers) : Right replies c' where
  past := by
    rw [hc, ha]
    exact h.past
  front := fun i h0 => by
    rw [(hb i h0).2]
    exact h.front i (hb i h0).1
  whole := fun i hi h0 => by
    rw [(hb i h0).2]
    exact h.whole i (hc ▸ hi) (hb i h0).1
  answers := fun i res recv hp => h.answers i res recv (hr i (res, recv) hp)

/-- No more than receivers have gone, and no answer has come. -/
theorem Right.drains (h : Right replies c) (hb : ∀ i, Drains (c.resBody i) (c'.resBody i))
    (hr : ∀ i p, .ok p ∈ (c'.res i).queue → .ok p ∈ (c.res i).queue)
    (hc : c'.complete = c.complete) (ha : c'.answers = c.answers) : Right replies c' :=
  h.same (fun i h0 => ⟨(hb i).receivers h0, by rw [sentBytes, sentBytes, (hb i).sent]⟩) hr hc ha

variable [Crates]

omit [Crates] in
/-- What has been put on the channel of the body at hand, and what is left of it. -/
theorem Aligned.front (ha : Aligned replies reqs c) {b : BodyReceiver} (hs : c.state = .recvBody b) :
    ∃ data, c.answers.length = b.bodyTx + 1 ∧ b.limit.Awaits c.io data (remaining replies (b.bodyTx + 1)) ∧
      ((c.resBody b.bodyTx).receivers ≠ 0 →
        sentBytes (c.resBody b.bodyTx) ++ data = messageData replies b.bodyTx) := by
  have hpos := ha.position
  rw [Position, hs] at hpos
  obtain ⟨i, hlen, rfl, r, front, data, hrep, hd, haw, hof⟩ := hpos
  refine ⟨data, hlen, haw, fun h0 => ?_⟩
  rw [hof h0, messageData_of_some hrep, hd]

theorem Move.right (h : Move c c') (hserves : Serves reqs replies) (hreqs : c.reqRx.sent <+: reqs)
    (hwf : c.io.Wf) (ha : Aligned replies reqs c) (hr : Right replies c) : Right replies c' := by
  have ha' := h.aligned hserves hreqs hwf ha
  cases h with
  | @response b i io head eos res hs hi hf hp =>
      have hpos := ha.position
      rw [Position, hs] at hpos
      dsimp only at hpos
      rw [hi] at hpos
      obtain ⟨rfl, hst, x, hx, hreq⟩ := hpos
      obtain ⟨r, hrep, hres, hframed, -⟩ := hserves.head hx hst ha.clean hf hp
      rw [← hreq] at hframed
      have hnew : ∀ j, j ∈ c.complete → j ≠ c.answers.length := fun j hj =>
        Nat.ne_of_lt (hr.past j hj)
      refine ⟨fun j hj => ?_, fun j h0 => ?_, fun j hj h0 => ?_, fun j res' recv hmem => ?_⟩
      · rcases mem_complete_answered.mp hj with hj | ⟨rfl, -⟩
        · exact Nat.lt_succ_of_lt (hr.past j hj)
        · exact Nat.lt_succ_self _
      · by_cases hji : j = c.answers.length
        · rw [hji, resBody_answered_self, sentBytes_bodyOf]
          exact List.nil_prefix
        · rw [resBody_answered_ne hji] at h0 ⊢
          exact hr.front j h0
      · rcases mem_complete_answered.mp hj with hj | ⟨rfl, hno⟩
        · rw [resBody_answered_ne (hnew j hj)] at h0 ⊢
          exact hr.whole j hj h0
        · -- A reply without a body: nothing is put on the channel.
          rw [resBody_answered_self, sentBytes_bodyOf, messageData_of_some hrep]
          rcases hframed.limit with ⟨-, hbytes, -⟩ | ⟨hb, -⟩
          · exact (Payload.data_of_bytes hbytes).symm
          · rw [Bidirect.noBody, hb] at hno
            cases hno
      · by_cases hji : j = c.answers.length
        · subst hji
          rw [res_answered_self, Chan.queue_dropSender, Chan.offer] at hmem
          split at hmem
          · exact hr.answers _ res' recv hmem
          · rcases Chan.mem_enqueue hmem with hmem | heq
            · exact hr.answers _ res' recv hmem
            · cases heq
              exact ⟨r, hrep, hres⟩
        · rw [res_answered_ne hji] at hmem
          exact hr.answers j res' recv hmem
  | @chunk b n bs limit io hs hc ho hn hl hread hne =>
      obtain ⟨data, -, -, hof⟩ := ha.front hs
      obtain ⟨data', -, -, hof'⟩ := ha'.front (b := { b with limit := limit }) rfl
      dsimp only at hof'
      have hself : atId c.resBody b.bodyTx (fun b => b.offer (.ok bs)) b.bodyTx =
          (c.resBody b.bodyTx).offer (.ok bs) := atId_self
      have hother : ∀ j, j ≠ b.bodyTx → atId c.resBody b.bodyTx (fun b => b.offer (.ok bs)) j =
          c.resBody j := fun j hj => atId_of_ne hj
      refine ⟨hr.past, fun j h0 => ?_, fun j hj h0 => ?_, hr.answers⟩
      · dsimp only at h0 ⊢
        by_cases hji : j = b.bodyTx
        · subst hji
          exact ⟨data', hof' h0⟩
        · rw [hother j hji] at h0 ⊢
          exact hr.front j h0
      · dsimp only at hj h0 ⊢
        by_cases hji : j = b.bodyTx
        · -- A complete body has no chunk left.
          subst hji
          exfalso
          have hof' := hof' h0
          rw [hself] at h0 hof'
          rw [receivers_offer] at h0
          rw [sentBytes_offer (ha.bodies _) h0, hr.whole _ hj h0, List.append_assoc] at hof'
          have hnil : bs ++ data' = [] := List.append_right_eq_self.mp hof'
          exact hne (List.append_eq_nil_iff.mp hnil).1
        · rw [hother j hji] at h0 ⊢
          exact hr.whole j hj h0
  | @bodyEnd b hs hc =>
      obtain ⟨data, hlen, haw, hof⟩ := ha.front hs
      refine ⟨fun j hj => ?_, hr.front, fun j hj h0 => ?_, hr.answers⟩
      · rcases List.mem_cons.mp hj with rfl | hj
        · exact hlen ▸ Nat.lt_succ_self _
        · exact hr.past j hj
      · rcases List.mem_cons.mp hj with rfl | hj
        · have hof := hof h0
          rw [(haw.complete hc).1, List.append_nil] at hof
          exact hof
        · exact hr.whole j hj h0
  | bodyNext hs hc hm hu =>
      exact hr.drains (drains_atId drains_dropSender) (fun _ _ => id) rfl rfl
  | _ => exact hr.drains (fun _ => .refl _) (fun _ _ => id) rfl rfl

theorem Stop.right {r : Halt IoError} (h : Stop r c c') (hr : Right replies c) :
    Right replies c' := by
  have htaken : ∀ {handle : Handle} {rx : Chan Handle} {io : BufIo},
      Right replies (Conn.dropHandle handle { c with io := io, reqRx := rx }) := by
    intro handle rx io
    have hres : SameAnswers c { c with io := io, reqRx := rx } := .of_eq rfl
    exact hr.drains (fun _ => .refl _)
      (fun _ _ => (hres.trans (sameAnswers_dropHandle handle _)).mem) rfl rfl
  cases h with
  | requestFailed hs ht hw hio why => exact htaken
  | requestPanic hs ht why => exact htaken
  | @bodyFull c b body hs hc hq ho hopen =>
      have hb : ∀ i, Drains (c.resBody i) (atId c.resBody b.bodyTx (fun _ => body) i) :=
        drains_atId (drains_quiet hq)
      exact hr.drains hb (fun _ _ => id) rfl rfl
  | _ => exact hr.drains (fun _ => .refl _) (fun _ _ => id) rfl rfl

omit [Crates] in
/-- An error that is forwarded is no answer, and no data. -/
theorem Right.forward (e : IoError) (hr : Right replies c) : Right replies (tryForwardError e c) := by
  obtain ⟨res, resBody, heq⟩ := tryForwardError_keeps e c
  refine hr.same (fun i h0 => ?_) (fun _ _ => (sameAnswers_tryForwardError e c).mem)
    (by rw [heq]) (by rw [heq])
  rcases resBody_tryForwardError e c i with hi | ⟨-, hi⟩
  · rw [hi] at h0 ⊢
    exact ⟨h0, rfl⟩
  · rw [hi] at h0 ⊢
    exact ⟨fun hz => h0 ((receivers_offer _).trans hz), sentBytes_offer_error e⟩

/-- A poll that is `Pending` leaves the reader in the replies. -/
theorem Stop.aligned (h : Stop .pending c c') (hwf : c.io.Wf) (ha : Aligned replies reqs c) :
    Aligned replies reqs c' := by
  cases h with
  | writePending hw ht hlt => exact ha.writes hw
  | awaitRequest hs hr hq hn => exact ha.of_eq id rfl rfl rfl hr.sent hr.queue fun _ => .refl _
  | headPending hs hi hb hr hbl => exact ha.reads hr
  | headInvalid hs hi hf hp hk => exact absurd rfl hk
  | headPendingSent hs hi ht hr hw hio => exact ((ha.reads hr).writes hw).item hs _ _
  | bidirectPending hs hb => exact ha
  | @bodyFull c b body hs hc hq ho hopen =>
      have hb : ∀ i, Drains (c.resBody i) (atId c.resBody b.bodyTx (fun _ => body) i) :=
        drains_atId (drains_quiet hq)
      exact ha.of_eq id rfl rfl rfl rfl rfl hb
  | @limitPending c b n limit io hs hc hn hl hread hw =>
      have hpos := ha.position
      rw [Position, hs] at hpos
      obtain ⟨i, hlen, hi, r, front, data, hrep, hd, haw, hof⟩ := hpos
      have haw' := wp_elim (LimitRead.pollRead_awaits hwf hn ha.clean haw) hl
      obtain ⟨pre, hread⟩ := hread
      refine ⟨hread.clean ha.clean, ha.handles, ?_, ha.bodies, ?_⟩
      · rw [ha.queue, takenOff, takenOff, hs]
      · exact ⟨i, hlen, hi, r, front, data, hrep, hd, haw', hof⟩
  | limitFailed hs hc hl hn hr hk why => exact absurd rfl hk

omit [Crates] in
theorem held_bodyOf (noBody sent ended drive : Bool) :
    (RecvStream.new ended drive).held (bodyOf noBody sent) = [] := by
  cases noBody <;> cases sent <;> rfl

/-- What has been read of the bodies of `n` responses, and what is held. -/
structure Shows (n : Nat) (recv : Nat → Option RecvStream) (out : Nat → Bytes) (c : Conn) : Prop where
  early : ∀ i, Awaits n c i → out i = []
  shown : ∀ i, AllShown (out i) (streams recv c i) (c.resBody i)

omit [Crates] in
theorem Shows.same (h : Shows n recv out c) (ha : ∀ i, Awaits n c' i → Awaits n c i)
    (hr : SameAnswers c c') (hb : ∀ i, (c'.resBody i).queue = (c.resBody i).queue ∧
      (c'.resBody i).sent = (c.resBody i).sent) : Shows n recv out c' where
  early := fun i hi => h.early i (ha i hi)
  shown := fun i => by
    rw [hr.eq i]
    exact (h.shown i).congr (hb i).1 (hb i).2

theorem Move.shows (hm : Move c c') (h : Shows n recv out c) (hk : Kept n recv told c) :
    Shows n recv out c' := by
  obtain ⟨k, hl⟩ := hk.lined
  have ha : ∀ i, Awaits n c' i → Awaits n c i := fun i => hm.awaits hl
  cases hm with
  | @response b i io head eos res hs hi hf hp =>
      have haw : Awaits n c i := .inr ⟨b, hs, hi⟩
      refine ⟨fun j hj => h.early j (ha j hj), fun j => ?_⟩
      by_cases hji : j = i
      · subst hji
        have hself := streams_answered_self (c := { c with io := io }) (b := b) res
          (hk.streams.res j) (hk.streams.awaited j haw)
        rw [hself, resBody_answered_self, h.early j haw]
        split
        · exact .nil
        · -- Nothing is held of a new body.
          intro r hr
          obtain rfl := List.mem_singleton.mp hr
          rw [Shown, sentBytes_bodyOf, held_bodyOf]
          rfl
      · rw [streams_of_res (res_answered_ne hji), resBody_answered_ne hji]
        exact h.shown j
  | @chunk b n bs limit io hs hc ho hn hl hr hne =>
      refine ⟨fun j hj => h.early j (ha j hj), fun j => ?_⟩
      have hself : atId c.resBody b.bodyTx (fun b => b.offer (.ok bs)) b.bodyTx =
          (c.resBody b.bodyTx).offer (.ok bs) := atId_self
      have hother : j ≠ b.bodyTx → atId c.resBody b.bodyTx (fun b => b.offer (.ok bs)) j =
          c.resBody j := fun hj => atId_of_ne hj
      dsimp only
      rw [streams_of_res rfl]
      by_cases hji : j = b.bodyTx
      · subst hji
        rw [hself]
        exact (h.shown _).offer (hk.streams.resBody _) (hk.streams.served _).alive _
      · rw [hother hji]
        exact h.shown j
  | @bodyNext b hs hc hm hu =>
      refine h.same ha (.of_eq rfl) fun j => ?_
      dsimp only
      by_cases hji : j = b.bodyTx
      · subst hji
        rw [atId_self]
        exact ⟨Chan.queue_dropSender, Chan.sent_dropSender⟩
      · rw [atId_of_ne hji]
        exact ⟨rfl, rfl⟩
  | _ => exact h.same ha (.of_eq rfl) fun _ => ⟨rfl, rfl⟩

theorem Stop.shows {r : Halt IoError} (hst : Stop r c c') (h : Shows n recv out c) :
    Shows n recv out c' := by
  have ha : ∀ i, Awaits n c' i → Awaits n c i := fun i => hst.awaits
  have htaken : ∀ {handle : Handle} {rx : Chan Handle} {io : BufIo},
      SameAnswers c (Conn.dropHandle handle { c with io := io, reqRx := rx }) := by
    intro handle rx io
    have hres : SameAnswers c { c with io := io, reqRx := rx } := .of_eq rfl
    exact hres.trans (sameAnswers_dropHandle _ _)
  cases hst with
  | requestFailed hs ht hw hio why => exact h.same ha htaken fun _ => ⟨rfl, rfl⟩
  | requestPanic hs ht why => exact h.same ha htaken fun _ => ⟨rfl, rfl⟩
  | @bodyFull c b body hs hc hq hr ho =>
      refine h.same ha (.of_eq rfl) fun j => ?_
      dsimp only
      by_cases hji : j = b.bodyTx
      · subst hji
        rw [atId_self]
        exact ⟨hq.queue, hq.sent⟩
      · rw [atId_of_ne hji]
        exact ⟨rfl, rfl⟩
  | _ => exact h.same ha (.of_eq rfl) fun _ => ⟨rfl, rfl⟩

omit [Crates] in
theorem Shows.forward (e : IoError) (h : Shows n recv out c) (hk : Kept n recv told c) :
    Shows n recv out (tryForwardError e c) := by
  refine ⟨fun i hi => h.early i ((awaits_tryForwardError e).mp hi), fun i => ?_⟩
  rw [(sameAnswers_tryForwardError e c).eq i]
  rcases resBody_tryForwardError e c i with heq | ⟨-, heq⟩
  · rw [heq]
    exact h.shown i
  · rw [heq]
    exact (h.shown i).offer (hk.streams.resBody i) (hk.streams.served i).alive _

/-- What `takenOff` counts has been sent. -/
theorem Move.takenOff_le (hm : Move c c') (ha : Aligned replies reqs c)
    (ht : takenOff c ≤ c.reqRx.sent.length) : takenOff c' ≤ c'.reqRx.sent.length := by
  rw [takenOff] at ht ⊢
  cases hm with
  | rest hs hq =>
      rw [hq.sent]
      exact ht
  | @request handle rx io head hs htk hh hw hio =>
      have hq := ha.queue
      rw [htk.queue, takenOff, hs] at hq
      have hlt := congrArg List.length hq
      rw [List.length_cons, List.length_drop] at hlt
      dsimp only at hlt ⊢
      rw [htk.sent]
      split <;> omega
  | response hs hi hf hp =>
      rw [hs] at ht
      dsimp only at ht
      rw [hi] at ht
      exact ht
  | item hs hi htk hw hio =>
      rw [hs] at ht
      exact ht
  | toBody hs hr hb hh =>
      rw [hs] at ht
      dsimp only at ht
      rw [hr] at ht
      exact ht
  | toNext hs hr hb hh hu =>
      rw [hs] at ht
      dsimp only at ht
      rw [hr] at ht
      exact ht
  | chunk hs hc ho hn hl hr hne =>
      rw [hs] at ht
      exact ht
  | lastRead hs hc hn hl hr he =>
      rw [hs] at ht
      exact ht
  | bodyNext hs hc hm hu =>
      rw [hs] at ht
      exact ht
  | _ => exact ht

theorem Stop.takenOff_le (hst : Stop .pending c c') (ht : takenOff c ≤ c.reqRx.sent.length) :
    takenOff c' ≤ c'.reqRx.sent.length := by
  rw [takenOff] at ht ⊢
  cases hst with
  | awaitRequest hs hr hq hn =>
      rw [hr.sent]
      exact ht
  | headPendingSent hs hi htk hr hw hio =>
      rw [hs] at ht
      exact ht
  | limitPending hs hc hn hl hr hw =>
      rw [hs] at ht
      exact ht
  | headInvalid hs hi hf hp hk => exact absurd rfl hk
  | limitFailed hs hc hl hn hr hk why => exact absurd rfl hk
  | _ => exact ht

/-! ### Polls -/

/-- What holds of a connection and its `RecvStream`s. -/
structure Settled (replies : List Reply) (n : Nat) (recv : Nat → Option RecvStream)
    (out : Nat → Bytes) (c : Conn) : Prop where
  right : Right replies c
  streams : Streams n recv (fun _ => True) c
  shows : Shows n recv out c

/-- What holds of one that is polled. -/
structure Running (replies : List Reply) (reqs : List Handle) (n : Nat)
    (recv : Nat → Option RecvStream) (out : Nat → Bytes) (c : Conn) : Prop where
  sound : c.io.Sound
  sent : c.reqRx.sent <+: reqs
  kept : Kept n recv (fun _ => True) c
  right : Right replies c
  shows : Shows n recv out c
  aligned : Aligned replies reqs c
  taken : takenOff c ≤ c.reqRx.sent.length

theorem Move.running (hm : Move c c') (hserves : Serves reqs replies)
    (h : Running replies reqs n recv out c) : Running replies reqs n recv out c' where
  sound := hm.sound h.sound
  sent := hm.requests.sent ▸ h.sent
  kept := hm.kept h.kept
  right := hm.right hserves h.sent h.sound.wf h.aligned h.right
  shows := hm.shows h.shows h.kept
  aligned := hm.aligned hserves h.sent h.sound.wf h.aligned
  taken := hm.takenOff_le h.aligned h.taken

theorem Stop.running (hst : Stop .pending c c') (h : Running replies reqs n recv out c) :
    Running replies reqs n recv out c' where
  sound := hst.sound h.sound
  sent := hst.requests.sent ▸ h.sent
  kept := hst.kept h.kept
  right := hst.right h.right
  shows := hst.shows h.shows
  aligned := hst.aligned h.sound.wf h.aligned
  taken := hst.takenOff_le h.taken

omit [Crates] in
theorem Running.settled (h : Running replies reqs n recv out c) : Settled replies n recv out c :=
  ⟨h.right, h.kept.streams, h.shows⟩

/-- A poll of the connection. -/
theorem ClientPost.settled {r : Outcome IoError Unit} (hx : ClientPost c r c')
    (hserves : Serves reqs replies) (h : Running replies reqs n recv out c) :
    Settled replies n recv out c' ∧ (r = .pending → Running replies reqs n recv out c') := by
  have hmoves : ∀ {c₁}, Moves c c₁ → Running replies reqs n recv out c₁ := fun hm =>
    moves_keep (fun _ _ hm => hm.running hserves) hm h
  cases r with
  | ready _ => exact ⟨(hmoves hx.1).settled, fun hr => by cases hr⟩
  | pending =>
      obtain ⟨c₁, hm, hst⟩ := hx
      have h' := hst.running (hmoves hm)
      exact ⟨h'.settled, fun _ => h'⟩
  | fail e =>
      obtain ⟨c₁, c₂, hm, hst, rfl⟩ := hx
      have h₁ := hmoves hm
      have hk := hst.kept h₁.kept
      exact ⟨⟨(hst.right h₁.right).forward e, (hk.forward e).streams,
        (hst.shows h₁.shows).forward e hk⟩, fun hr => by cases hr⟩
  | panic m =>
      obtain ⟨c₁, hm, hst⟩ := hx
      have h₁ := hmoves hm
      exact ⟨⟨hst.right h₁.right, (hst.kept h₁.kept).streams, hst.shows h₁.shows⟩,
        fun hr => by cases hr⟩
  | diverge => exact hx.elim

end Moves

/-! ### The user -/

section User
variable {replies : List Reply} {reqs : List Handle} {w w' : World} {a : Action} {o : Obs}
  {os : List Obs} {recv : Nat → Option RecvStream} {told : Nat → Prop} {n k i : Nat} {c c' : Conn}
  {out : Nat → Bytes}

/-- A connection is dropped. -/
theorem Settled.dropConn (h : Settled replies n recv out c) :
    Settled replies n recv out (Client.dropConn c) := by
  have hr := sameAnswers_dropConn c
  have hs := sameCodec_dropConn c
  have hb : ∀ i, ((Client.dropConn c).resBody i).queue = (c.resBody i).queue ∧
      ((Client.dropConn c).resBody i).sent = (c.resBody i).sent ∧
      ((Client.dropConn c).resBody i).receivers = (c.resBody i).receivers := by
    intro i
    rcases resBody_dropConn c i with ⟨-, heq⟩ | ⟨-, heq⟩
    · rw [heq]
      exact ⟨Chan.queue_dropSender, Chan.sent_dropSender, Chan.receivers_dropSender⟩
    · rw [heq]
      exact ⟨rfl, rfl, rfl⟩
  refine ⟨h.right.same (fun i h0 => ?_) (fun _ _ => hr.mem) hs.complete hs.answers,
    h.streams.dropConn fun _ _ _ => .inl (.inr trivial),
    h.shows.same (fun _ => awaits_dropConn) hr fun i => ⟨(hb i).1, (hb i).2.1⟩⟩
  rw [sentBytes, (hb i).2.1, ← (hb i).2.2]
  exact ⟨h0, rfl⟩

theorem Uses.readOf_nil {rs' : List RecvStream} {body body' : Chan (Except IoError Bytes)}
    (h : Uses i o [] body rs' body') : o.readOf i = [] := by
  cases h with
  | same ho => exact readOf_of_ne ho
  | gone ho => exact readOf_of_ne ho

variable [VecAlloc] [Crates]

theorem Acts.settled (h : Acts w a o w') (ha : a.onConn = false) (hl : Lined k w.issued w.conn)
    (hs : Settled replies w.issued w.recv out w.conn) :
    Settled replies w'.issued w'.recv (fun i => out i ++ o.readOf i) w'.conn := by
  have hon := h.onHandle ha hl hs.streams
  obtain ⟨-, -, -, hcomp, hans⟩ := h.beside ha
  refine ⟨hs.right.drains (fun i => (hon.uses i).drains (hs.streams.served i).fits)
    (fun i _ hp => hon.answers i hp) hcomp hans, ?_, fun i hi => ?_, fun i => ?_⟩
  · exact (hs.streams.uses hon.awaits hon.uses hon.res hcomp).mono fun _ _ => trivial
  · have hu := hon.uses i
    rw [hs.streams.awaited i (hon.awaits i hi)] at hu
    rw [hs.shows.early i (hon.awaits i hi), hu.readOf_nil]
    rfl
  · exact (hon.uses i).shown (hs.shows.shown i)

/-- What is read of a body is of the reply's data. -/
theorem Acts.readOf_prefix (h : Acts w a o w') (ha : a.onConn = false)
    (hl : Lined k w.issued w.conn) (hs : Settled replies w.issued w.recv out w.conn)
    (ho : out i <+: messageData replies i) : out i ++ o.readOf i <+: messageData replies i := by
  have hs' := h.settled ha hl hs
  have hu := (h.onHandle ha hl hs.streams).uses i
  by_cases hread : ∃ r, o = .read i r
  · have hne : Client.streams w'.recv w'.conn i ≠ [] := by
      obtain ⟨r, rfl⟩ := hread
      generalize Client.streams w.recv w.conn i = rs at hu
      generalize Client.streams w'.recv w'.conn i = rs' at hu
      generalize w.conn.resBody i = body at hu
      generalize w'.conn.resBody i = body' at hu
      cases hu with
      | same ho => exact absurd rfl (ho r)
      | gone ho => exact absurd rfl (ho r)
      | read hx => exact List.cons_ne_nil _ _
    obtain ⟨r, hr⟩ := List.exists_mem_of_ne_nil _ hne
    refine (List.prefix_append _ (r.held (w'.conn.resBody i))).trans ?_
    rw [hs'.shows.shown i r hr]
    exact hs'.right.front i ((hs'.streams.served i).alive hne)
  · rw [readOf_of_ne fun r hr => hread ⟨r, hr⟩, List.append_nil]
    exact ho

theorem Acts.running (h : Acts w a o w') (ha : a.onConn = false)
    (hr : Running replies reqs w.issued w.recv out w.conn) (hsent : w'.conn.reqRx.sent <+: reqs)
    (hn : w.conn.reqRx.sent.length = w.issued) (hl' : ∃ k, Lined k w'.issued w'.conn) :
    Running replies reqs w'.issued w'.recv (fun i => out i ++ o.readOf i) w'.conn := by
  obtain ⟨k, hl⟩ := hr.kept.lined
  have hs' := h.settled ha hl hr.settled
  have hon := h.onHandle ha hl hr.kept.streams
  obtain ⟨-, hio, hstate, -, hans⟩ := h.beside ha
  have hdrains : ∀ i, Drains (w.conn.resBody i) (w'.conn.resBody i) := fun i =>
    (hon.uses i).drains (hr.kept.streams.served i).fits
  have htaken : takenOff w'.conn = takenOff w.conn := by rw [takenOff, takenOff, hstate, hans]
  have hpos : Position replies reqs w'.conn :=
    hr.aligned.position.of_eq (by rw [hio]) hstate hans hdrains
  have hbodies : ∀ i, (w'.conn.resBody i).ended = true → (w'.conn.resBody i).receivers = 0 :=
    fun i => (hdrains i).ended (hr.aligned.bodies i)
  have hsourced : Sourced w'.conn := fun i hi => by
    rw [(hon.uses i).senders (hr.kept.streams.served i).fits]
    refine hr.kept.sourced i ?_
    rw [Sends, hstate] at hi
    exact hi
  have hqueues : takenOff w.conn ≤ w'.conn.reqRx.sent.length ∧
      (∀ k h, w'.conn.reqRx.sent[k]? = some h → ∃ req noSendBody, h = newHandle k req noSendBody) ∧
      w'.conn.reqRx.queue = w'.conn.reqRx.sent.drop (takenOff w.conn) := by
    rcases h.queues ha with ⟨hs, hq, -⟩ | @⟨req, noSendBody, h0, hx, -⟩
    · rw [hs, hq]
      exact ⟨hr.taken, hr.aligned.handles, hr.aligned.queue⟩
    · have he : w.conn.reqRx.ended = false := Bool.eq_false_iff.mpr fun he => h0 (hl.ended he)
      rw [hx, Chan.sent_enqueue _ he, Chan.queue_enqueue _ he]
      refine ⟨?_, fun k h hk => ?_, ?_⟩
      · rw [List.length_append]
        exact Nat.le_add_right_of_le hr.taken
      · rcases getElem?_concat_cases hk with hk | ⟨rfl, rfl⟩
        · exact hr.aligned.handles k h hk
        · exact ⟨req, noSendBody, by rw [hn]⟩
      · rw [List.drop_append_of_le_length hr.taken, hr.aligned.queue]
  obtain ⟨hle, hhandles, hqueue⟩ := hqueues
  exact ⟨hio ▸ hr.sound, hsent, ⟨hl', hs'.streams, hsourced⟩, hs'.right, hs'.shows,
    ⟨hio ▸ hr.aligned.clean, hhandles, htaken ▸ hqueue, hbodies, hpos⟩, htaken ▸ hle⟩

theorem Acts.resolved {res : Response} (h : Acts w a (.resolved i (.ready res)) w') :
    ∃ recv, .ok (res, recv) ∈ (w.conn.res i).queue := by
  generalize ho : Obs.resolved i (.ready res) = o at h
  cases h with
  | @resolve _ _ a q hf hq =>
      cases a with
      | ok p =>
          cases ho
          exact ⟨p.2, hq ▸ List.mem_cons_self⟩
      | error e => cases ho
  | _ => cases ho

end User

/-! ### Runs -/

section Runs
variable [VecAlloc] [Crates] {replies : List Reply} {reqs : List Handle} {w : World} {a : Action}
  {os : List Obs}

/-- What the user has been told of the replies. -/
structure Received (replies : List Reply) (reqs : List Handle) (os : List Obs) (w : World) :
    Prop where
  sound : w.conn.io.Sound
  lined : ∃ k, Lined k w.issued w.conn
  issued : w.conn.reqRx.sent.length = w.issued
  settled : Settled replies w.issued w.recv (readOut os) w.conn
  running : w.phase = .running → Running replies reqs w.issued w.recv (readOut os) w.conn
  read : ∀ i, readOut os i <+: messageData replies i
  resolved : ∀ i res, .resolved i (.ready res) ∈ os → ∃ r, replies[i]? = some r ∧ r.parsed = res

omit [VecAlloc] [Crates] in
theorem readOut_concat (os : List Obs) (o : Obs) :
    readOut (os ++ [o]) = fun i => readOut os i ++ o.readOf i := by
  funext i
  rw [readOut, List.flatMap_append, List.flatMap_singleton]
  rfl

theorem received_step (hserves : Serves reqs replies) (h : Received replies reqs os w)
    (hreqs : (step a w).2.conn.reqRx.sent <+: reqs) :
    Received replies reqs (os ++ [(step a w).1]) (step a w).2 := by
  obtain ⟨k, hl⟩ := h.lined
  have hlined := step_lined h.sound hl a
  have ha := step_acts a w
  have hsound := ha.sound h.sound
  generalize (step a w).1 = o at ha
  generalize (step a w).2 = w' at ha hsound hlined hreqs ⊢
  have hresolved : ∀ i res, .resolved i (.ready res) ∈ os ++ [o] →
      ∃ r, replies[i]? = some r ∧ r.parsed = res := by
    intro i res hmem
    rcases List.mem_append.mp hmem with hmem | hmem
    · exact h.resolved i res hmem
    · obtain rfl := List.mem_singleton.mp hmem
      obtain ⟨recv, hq⟩ := ha.resolved
      exact h.settled.right.answers i res recv hq
  by_cases hconn : a.onConn = false
  · have hout := fun i => ha.readOf_prefix hconn hl h.settled (h.read i)
    have hissued : w'.conn.reqRx.sent.length = w'.issued := by
      rcases ha.queues hconn with ⟨hs, -, hn⟩ | @⟨req, noSendBody, h0, hx, hn⟩
      · rw [hs, hn]
        exact h.issued
      · have he : w.conn.reqRx.ended = false := Bool.eq_false_iff.mpr fun he => h0 (hl.ended he)
        rw [hx, Chan.sent_enqueue _ he, List.length_append, h.issued, hn]
        rfl
    have hs := ha.settled hconn hl h.settled
    have hr := fun hp => ha.running hconn (h.running hp) hreqs h.issued hlined
    rw [← readOut_concat] at hs
    rw [← (ha.beside hconn).1, ← readOut_concat] at hr
    exact ⟨hsound, hlined, hissued, hs, hr, fun i => by rw [readOut_concat]; exact hout i, hresolved⟩
  · have hquiet : (∀ i, o.readOf i = []) → readOut (os ++ [o]) = readOut os := by
      intro ho
      rw [readOut_concat]
      funext i
      rw [ho, List.append_nil]
    cases ha with
    | idle =>
        have hout := hquiet fun i => rfl
        exact ⟨hsound, hlined, h.issued, hout ▸ h.settled, hout ▸ h.running, hout ▸ h.read, hresolved⟩
    | @poll cx r c hrun hx =>
        have hpost := wp_elim (pollClient_moves h.sound) hx
        obtain ⟨hs, hr⟩ := hpost.settled hserves (h.running hrun)
        have hout := hquiet fun i => rfl
        refine ⟨hsound, hlined, hpost.requests.sent ▸ h.issued, hout ▸ hs, fun hp => hout ▸ hr ?_,
          hout ▸ h.read, hresolved⟩
        by_contra hne
        rw [if_neg hne] at hp
        cases hp
    | dropConn hp =>
        have hout := hquiet fun i => rfl
        have hsent : (Client.dropConn w.conn).reqRx.sent = w.conn.reqRx.sent := by
          rw [(sent_dropConn w.conn).1, Chan.dropReceiver_sent]
        exact ⟨hsound, hlined, hsent ▸ h.issued, hout ▸ h.settled.dropConn, fun hp => (by cases hp),
          hout ▸ h.read, hresolved⟩
    | _ => exact absurd rfl hconn

/-- No request is taken back. -/
theorem sent_step (hs : w.conn.io.Sound) {k : Nat} (hl : Lined k w.issued w.conn) :
    w.conn.reqRx.sent <+: (step a w).2.conn.reqRx.sent := by
  have ha := step_acts a w
  generalize (step a w).1 = o at ha
  generalize (step a w).2 = w' at ha ⊢
  by_cases hconn : a.onConn = false
  · rcases ha.queues hconn with ⟨hq, -, -⟩ | ⟨h0, hx, -⟩
    · rw [hq]
    · rw [hx, Chan.sent_enqueue _ (Bool.eq_false_iff.mpr fun he => h0 (hl.ended he))]
      exact List.prefix_append _ _
  · cases ha with
    | idle => exact List.prefix_refl _
    | poll hrun hx =>
        have hpost := wp_elim (pollClient_moves hs) hx
        rw [hpost.requests.sent]
    | dropConn hp =>
        dsimp only
        rw [(sent_dropConn w.conn).1, Chan.dropReceiver_sent]
    | _ => exact absurd rfl hconn

theorem received_after {inner : Transport} {as : List Action} (hclean : Transport.Clean inner.rx)
    (hrx : inner.coming = replies.flatMap Message.bytes)
    (hserves : Serves (after step as (handshake inner)).conn.reqRx.sent replies) :
    Received replies (after step as (handshake inner)).conn.reqRx.sent
      (run step as (handshake inner)).1 (after step as (handshake inner)) := by
  obtain ⟨hsound, hlined⟩ := run_lined inner []
  obtain ⟨-, hupto⟩ := along_upto (R := fun w w' : World => w.conn.reqRx.sent <+: w'.conn.reqRx.sent)
    (fun _ => List.prefix_refl _) (fun _ _ _ => List.IsPrefix.trans)
    (I := fun w : World => w.conn.io.Sound ∧ ∃ k, Lined k w.issued w.conn)
    (fun w a hw _ => ⟨(step_acts a w).sound hw.1, hw.2.elim fun k hl => step_lined hw.1 hl a⟩)
    (fun w a hw _ => hw.2.elim fun k hl => sent_step hw.1 hl)
    (along_true as (handshake inner)) ⟨hsound, hlined⟩
  have hstreams : Streams 0 (handshake inner).recv (fun _ => True) (handshake inner).conn :=
    ⟨fun i _ => rfl, fun i => .nil, fun i => Chan.single_new 1, fun i => Chan.single_new 1⟩
  have hright : Right replies (handshake inner).conn :=
    ⟨by simp [handshake], fun i _ => List.nil_prefix, by simp [handshake],
      fun i res recv hp => by simp [handshake, Chan.new] at hp⟩
  have hshows : Shows 0 (handshake inner).recv (readOut []) (handshake inner).conn :=
    ⟨fun i _ => rfl, fun i => .nil⟩
  have h₀ : Received replies (after step as (handshake inner)).conn.reqRx.sent []
      (handshake inner) := by
    refine ⟨hsound, hlined, rfl, ⟨hright, hstreams, hshows⟩, fun _ => ?_, fun i => List.nil_prefix,
      by simp⟩
    refine ⟨hsound, List.nil_prefix, ⟨hlined, hstreams, fun i hs => hs.elim⟩, hright, hshows,
      ⟨hclean, ?_, rfl, by simp [handshake, Chan.new], ?_⟩, Nat.zero_le _⟩
    · simp [handshake, Chan.new]
    · exact hrx
  exact run_history (I := Received replies _) (fun _ _ _ hI hP => received_step hserves hI hP) hupto h₀

/-- The reply with two bytes. -/
def twoByteReply : Reply :=
  ⟨twoByteHead, ⟨200, .http11, [(ascii "content-length", ascii "2")]⟩, .sized (ascii "hi")⟩

/-- The request it answers. -/
def twoByteRequest : Handle :=
  newHandle 0 ⟨.get, ⟨none, none, none, some (ascii "/")⟩, .http11, []⟩ true

omit [VecAlloc] [Crates] in
theorem twoByteReply_answers :
    letI := twoByteCrates
    Answers twoByteReply twoByteRequest.req [] := by
  refine @Answers.mk twoByteCrates _ _ _ (@Message.Heads.mk _ _ _ _ ?_ (by decide +kernel))
    ⟨by decide +kernel, by decide +kernel, ascii "2", by decide +kernel, ?_, by decide +kernel⟩
  · rw [HeadEnd]
    decide +kernel
  · rw [PlainDecimal]
    decide +kernel

omit [VecAlloc] [Crates] in
theorem readTwo_run :
    letI := VecAlloc.amortized
    letI := twoByteCrates
    let w := after step readTwo (handshake twoBytes)
    w.conn.reqRx.sent = [twoByteRequest] ∧ 0 ∈ w.conn.complete ∧
      (step (.read 0 0 9) w).1 = .read 0 (.ready []) ∧
      .resolved 0 (.ready twoByteReply.parsed) ∈ (run step readTwo (handshake twoBytes)).1 :=
  ⟨by decide +kernel, by decide +kernel, by decide +kernel, by decide +kernel⟩

omit [VecAlloc] [Crates] in
theorem twoByteReply_serves :
    letI := VecAlloc.amortized
    letI := twoByteCrates
    Serves (after step readTwo (handshake twoBytes)).conn.reqRx.sent [twoByteReply] := by
  rw [readTwo_run.1]
  refine @Serves.mk twoByteCrates _ _ (fun k h r hh hr => ?_) (fun k h hh hr => ?_)
  · cases k with
    | zero =>
        obtain rfl : twoByteRequest = h := Option.some.inj hh
        obtain rfl : twoByteReply = r := Option.some.inj hr
        exact twoByteReply_answers
    | succ k => cases hh
  · cases k with
    | zero => cases hr
    | succ k => cases hh

end Runs

end HreqH1.Client
