import HreqH1.Client.Ledger
import HreqH1.Framing.Messages
import HreqH1.Reading.Streams

/-!
# Client — replies

What a server sends, reply by reply, and how the codec stands to it.  `Aligned replies reqs c` says
that the reader of `c` is where the replies received so far end, or as far into the last of them as
its limiter says, and that the requests are answered in the order of `reqs`.  Every move of the codec
keeps it (`Move.aligned`): of a reply no byte is left to the next one, and none is taken of it.
-/

namespace HreqH1.Client
open PollM Runs BufIo RecvStream

/-- Method and status leave no body. -/
def Bodiless (req : Request) (res : Response) : Prop :=
  req.method = .head ∨ isInformational res.status = true ∨ res.status = 204 ∨ res.status = 304

instance (req : Request) (res : Response) : Decidable (Bodiless req res) :=
  inferInstanceAs (Decidable (_ ∨ _))

/-- The body is the one that method, status and header fields announce. -/
def Framed (req : Request) (res : Response) : Payload → Prop
  | .none => Bodiless req res
  | p => ¬ Bodiless req res ∧ p.Announced res.headers

/-- A reply. -/
abbrev Reply : Type := Message Response

variable [Crates]

/-- A well-formed reply to `req`, behind the bytes `lead`. -/
structure Answers (r : Reply) (req : Request) (lead : Bytes) : Prop where
  heads : r.Heads tryParseRes lead
  framed : Framed req r.parsed r.body

/-- The replies are those to the requests. -/
structure Serves (reqs : List Handle) (replies : List Reply) : Prop where
  answers : ∀ (k : Nat) (h : Handle) (r : Reply), reqs[k]? = some h → replies[k]? = some r →
    Answers r h.req (leftBefore replies k)
  spent : ∀ (k : Nat) (h : Handle), reqs[k]? = some h → replies[k]? = none →
    Spent tryParseRes (leftBefore replies k)

/-- What is still to be read of the `i`-th reply, of which `holder` holds the limiter. -/
def Owes (replies : List Reply) (c : Conn) (i : Nat) : Option (Nat × LimitRead) → Prop
  | none => c.io.stream = remaining replies (i + 1)
  | some (j, limit) => j = i ∧ ∃ r front data, replies[i]? = some r ∧ r.body.data = front ++ data ∧
      limit.Awaits c.io data (remaining replies (i + 1)) ∧
      ((c.resBody i).receivers ≠ 0 → sentBytes (c.resBody i) = front)

/-- Where the codec is in the replies. -/
def Position (replies : List Reply) (reqs : List Handle) (c : Conn) : Prop :=
  match c.state with
  | .sendReq => c.io.stream = remaining replies c.answers.length
  | .recvRes h =>
      match h.handle.resTx with
      | some i => i = c.answers.length ∧ c.io.stream = remaining replies i ∧
          ∃ x, reqs[i]? = some x ∧ h.handle.req = x.req
      | none => ∃ i, c.answers.length = i + 1 ∧ Owes replies c i h.holder
  | .recvBody b => ∃ i, c.answers.length = i + 1 ∧ Owes replies c i (some (b.bodyTx, b.limit))

/-- How many requests have been taken off the queue. -/
def takenOff (c : Conn) : Nat :=
  c.answers.length + match c.state with
    | .recvRes h => if h.handle.resTx = none then 0 else 1
    | _ => 0

/-- The codec is aligned with the replies. -/
structure Aligned (replies : List Reply) (reqs : List Handle) (c : Conn) : Prop where
  clean : Transport.Clean c.io.inner.rx
  handles : ∀ k h, c.reqRx.sent[k]? = some h → ∃ req noSendBody, h = newHandle k req noSendBody
  queue : c.reqRx.queue = c.reqRx.sent.drop (takenOff c)
  bodies : ∀ i, (c.resBody i).ended = true → (c.resBody i).receivers = 0
  position : Position replies reqs c

/-! ### Heads -/

section Heads
variable {replies : List Reply} {reqs : List Handle} {r : Reply} {req : Request} {k : Nat}

omit [Crates] in
theorem isNoBody_of_not_bodiless {res : Response} {l : LimitRead} (h : ¬ Bodiless req res)
    (hi : headersIndicateBody res.headers = true) : isNoBody l req.method res = l.isNoBody := by
  simp only [Bodiless, not_or, Bool.not_eq_true] at h
  obtain ⟨hm, hinf, h2, h3⟩ := h
  rw [isNoBody, hinf, hi, beq_eq_false_iff_ne.mpr hm, beq_eq_false_iff_ne.mpr h2,
    beq_eq_false_iff_ne.mpr h3]
  simp only [Bool.or_false, Bool.not_true, Bool.and_false]

omit [Crates] in
theorem headersIndicateBody_of_announced {p : Payload} {headers : HeaderMap}
    (h : p.Announced headers) (hp : p ≠ .none) : headersIndicateBody headers = true := by
  cases p with
  | none => exact absurd rfl hp
  | sized data =>
      obtain ⟨-, v, hc, hv, hlt⟩ := h
      have hg : getAs headers contentLength = some data.length := getAs_plain hc hv hlt
      rw [headersIndicateBody, ← HreqH1.contentLength, hg, Option.isSome_some, Bool.or_true]
  | chunked cs l =>
      obtain ⟨v, ht, hv, hi⟩ := h
      rw [headersIndicateBody, isChunked_of_coding ht hv hi, Bool.true_or]

omit [Crates] in
/-- The limiter of a reply's body, over the body. -/
theorem Framed.limit {p : Payload} {res : Response} (h : Framed req res p) :
    isNoBody (LimitRead.fromHeaders res.headers true) req.method res = true ∧ p.bytes = [] ∧
        p.left = [] ∨
      isNoBody (LimitRead.fromHeaders res.headers true) req.method res = false ∧
        ∀ (io : BufIo) (tail : Bytes), io.stream = p.bytes ++ tail →
          (LimitRead.fromHeaders res.headers true).Awaits io p.data (p.left ++ tail) := by
  by_cases hp : p = .none
  · subst hp
    refine .inl ⟨?_, rfl, rfl⟩
    rcases h with h | h | h | h <;> simp [isNoBody, h]
  · obtain ⟨hb, ha⟩ : ¬ Bodiless req res ∧ p.Announced res.headers := by
      cases p with
      | none => exact absurd rfl hp
      | sized data => exact h
      | chunked cs l => exact h
    rw [isNoBody_of_not_bodiless hb (headersIndicateBody_of_announced ha hp)]
    exact ha.limit fun _ => hp

/-- The head that is found is the next one. -/
theorem Serves.head {c : Conn} {io : BufIo} {x : Handle} {head : Bytes} {eos : Bool} {res : Response}
    (hs : Serves reqs replies) (hx : reqs[k]? = some x) (hst : c.io.stream = remaining replies k)
    (hcl : Transport.Clean c.io.inner.rx) (hf : HeadFound head eos c.io io)
    (hp : tryParseRes head eos = .ok (some res)) :
    ∃ r, replies[k]? = some r ∧ r.parsed = res ∧ Framed x.req res r.body ∧
      io.stream = r.body.bytes ++ (replies.drop (k + 1)).flatMap Message.bytes := by
  obtain ⟨r, hr, rfl, hst'⟩ := Message.found hst hcl hf hp
    (fun r hr => (hs.answers k x r hx hr).heads) (hs.spent k x hx)
  exact ⟨r, hr, rfl, (hs.answers k x r hx hr).framed, hst'⟩

end Heads

/-! ### Changes beside the reader -/

section Drains
variable {α : Type}
omit [Crates]

theorem drains_atId {chans : Nat → Chan α} {f : Chan α → Chan α} {i : Nat}
    (h : Drains (chans i) (f (chans i))) (k : Nat) : Drains (chans k) (atId chans i f k) := by
  by_cases hk : k = i
  · rw [hk, atId_self]
    exact h
  · rw [atId_of_ne hk]
    exact .refl _

end Drains

section Beside
variable {replies : List Reply} {reqs : List Handle} {c c' : Conn} {i : Nat}
  {holder : Option (Nat × LimitRead)}
omit [Crates]

theorem Owes.of_eq (h : Owes replies c i holder) (hst : c'.io.stream = c.io.stream)
    (hb : ∀ i, Drains (c.resBody i) (c'.resBody i)) : Owes replies c' i holder := by
  cases holder with
  | none => exact hst.trans h
  | some p =>
      obtain ⟨rfl, r, front, data, hrep, hd, ha, ho⟩ := h
      refine ⟨rfl, r, front, data, hrep, hd, ha.of_stream hst, fun hr => ?_⟩
      rw [(hb _).sentBytes]
      exact ho ((hb _).receivers hr)

theorem Position.of_eq (h : Position replies reqs c) (hst : c'.io.stream = c.io.stream)
    (hs : c'.state = c.state) (ha : c'.answers = c.answers)
    (hb : ∀ i, Drains (c.resBody i) (c'.resBody i)) : Position replies reqs c' := by
  rw [Position, ha, hs]
  rw [Position] at h
  cases hc : c.state with
  | sendReq =>
      rw [hc] at h
      exact hst.trans h
  | recvRes b =>
      rw [hc] at h
      dsimp only at h ⊢
      cases hr : b.handle.resTx with
      | some i =>
          rw [hr] at h
          exact ⟨h.1, hst.trans h.2.1, h.2.2⟩
      | none =>
          rw [hr] at h
          exact h.imp fun i h => ⟨h.1, h.2.of_eq hst hb⟩
  | recvBody b =>
      rw [hc] at h
      exact h.imp fun i h => ⟨h.1, h.2.of_eq hst hb⟩

theorem Aligned.of_eq (h : Aligned replies reqs c)
    (hcl : Transport.Clean c.io.inner.rx → Transport.Clean c'.io.inner.rx)
    (hst : c'.io.stream = c.io.stream) (hs : c'.state = c.state) (ha : c'.answers = c.answers)
    (hr : c'.reqRx.sent = c.reqRx.sent) (hq : c'.reqRx.queue = c.reqRx.queue)
    (hb : ∀ i, Drains (c.resBody i) (c'.resBody i)) : Aligned replies reqs c' where
  clean := hcl h.clean
  handles := hr ▸ h.handles
  queue := by
    rw [hq, h.queue, hr, takenOff, takenOff, ha, hs]
  bodies := fun i => (hb i).ended (h.bodies i)
  position := h.position.of_eq hst hs ha hb

end Beside

/-! ### Moves -/

section Moves
variable {replies : List Reply} {reqs : List Handle} {c c' : Conn} {bs : Bytes}

omit [Crates] in
theorem Aligned.reads (h : Aligned replies reqs c) {io : BufIo} (hr : Reads [] c.io io) :
    Aligned replies reqs { c with io := io } :=
  h.of_eq hr.clean hr.stream.symm rfl rfl rfl rfl fun _ => .refl _

omit [Crates] in
theorem Aligned.writes (h : Aligned replies reqs c) {io : BufIo} (hw : Writes bs c.io io) :
    Aligned replies reqs { c with io := io } :=
  h.of_eq (fun hcl => hw.reads_eq.2.1 ▸ hcl) hw.stream rfl rfl rfl rfl fun _ => .refl _

omit [Crates] in
/-- What is done of the requests' bodies is not seen. -/
theorem Aligned.item (h : Aligned replies reqs c) {b : Bidirect} (hs : c.state = .recvRes b)
    (i : Nat) (fin : Bool) {reqBody : Nat → Chan (Bytes × Bool)} :
    Aligned replies reqs { c with state := .recvRes (b.sent i fin), reqBody := reqBody } where
  clean := h.clean
  handles := h.handles
  queue := by
    rw [h.queue, takenOff, takenOff, hs]
    rfl
  bodies := h.bodies
  position := by
    have hp := h.position
    rw [Position, hs] at hp
    exact hp

omit [Crates] in
/-- The channel of a body that is announced: it ends with its receiver. -/
theorem ended_bodyOf {noBody sent : Bool} (h : (bodyOf noBody sent).ended = true) :
    (bodyOf noBody sent).receivers = 0 := by
  cases sent with
  | true => cases noBody <;> cases h
  | false => cases noBody <;> rfl

omit [Crates] in
theorem sentBytes_bodyOf {noBody sent : Bool} : sentBytes (bodyOf noBody sent) = [] := by
  cases noBody <;> cases sent <;> rfl

omit [Crates] in
theorem resBody_answered {b : Bidirect} {i k : Nat} {res : Response} :
    (∃ noBody sent, (answered b i res c).resBody k = bodyOf noBody sent) ∨
      k ≠ i ∧ (answered b i res c).resBody k = c.resBody k := by
  rw [answered]
  dsimp only
  by_cases hk : k = i
  · rw [hk, atId_self]
    exact .inl ⟨_, _, rfl⟩
  · rw [atId_of_ne hk]
    exact .inr ⟨hk, rfl⟩

theorem Move.aligned (h : Move c c') (hserves : Serves reqs replies) (hreqs : c.reqRx.sent <+: reqs)
    (hwf : c.io.Wf) (ha : Aligned replies reqs c) : Aligned replies reqs c' := by
  cases h with
  | write hw ht => exact ha.writes hw
  | read hr => exact ha.reads hr
  | wake hq => exact ha.of_eq id rfl rfl rfl rfl rfl fun _ => .refl _
  | rest hs hq => exact ha.of_eq id rfl rfl rfl hq.sent hq.queue fun _ => .refl _
  | @request handle rx io head hs ht hh hw hio =>
      have hp := ha.position
      rw [Position, hs] at hp
      have hq := ha.queue
      rw [takenOff, hs, ht.queue] at hq
      have hn : c.reqRx.sent[c.answers.length]? = some handle := by
        rw [← List.head?_drop]
        exact (congrArg List.head? hq).symm
      obtain ⟨req, b, rfl⟩ := ha.handles _ _ hn
      refine ⟨hw.reads_eq.2.1 ▸ ha.clean, ht.sent ▸ ha.handles, ?_, ha.bodies, ?_⟩
      · have hdrop : c.reqRx.sent.drop (c.answers.length + 1) =
            (c.reqRx.sent.drop (c.answers.length + 0)).drop 1 := by rw [List.drop_drop]
        show rx.queue = rx.sent.drop (c.answers.length + 1)
        rw [ht.sent, hdrop, ← hq]
        rfl
      · refine ⟨rfl, hw.stream.trans hp, newHandle c.answers.length req b, ?_, rfl⟩
        obtain ⟨more, rfl⟩ := hreqs
        exact (List.getElem?_append_left (lt_of_getElem? hn)).trans hn
  | @response b i io head eos res hs hi hf hp =>
      have hpos := ha.position
      rw [Position, hs] at hpos
      dsimp only at hpos
      rw [hi] at hpos
      obtain ⟨hn, hst, x, hx, hreq⟩ := hpos
      obtain ⟨r, hr, -, hframed, htail⟩ := hserves.head hx hst ha.clean hf hp
      refine ⟨hf.reads.clean ha.clean, ha.handles, ?_, fun k hk => ?_, ?_⟩
      · show c.reqRx.queue = c.reqRx.sent.drop (c.answers.length + 1 + 0)
        rw [ha.queue, takenOff, hs]
        dsimp only
        rw [if_neg (by rw [hi]; exact Option.some_ne_none i)]
      · rcases resBody_answered with ⟨noBody, sent, heq⟩ | ⟨-, heq⟩
        · rw [heq] at hk ⊢
          exact ended_bodyOf hk
        · rw [heq] at hk ⊢
          exact ha.bodies k hk
      · refine ⟨i, congrArg (· + 1) hn.symm, ?_⟩
        have hlimit := hframed.limit
        rw [← hreq] at hlimit
        have hrest := remaining_succ hr
        rcases hlimit with ⟨hb, hbytes, hleft⟩ | ⟨hb, haw⟩
        · rw [Bidirect.answered, hb, if_pos rfl]
          rw [hbytes] at htail
          rw [hleft] at hrest
          exact htail.trans hrest.symm
        · rw [Bidirect.answered, hb, if_neg Bool.false_ne_true]
          refine ⟨rfl, r, [], r.body.data, hr, rfl, ?_, fun _ => ?_⟩
          · rw [hrest]
            exact haw io _ htail
          · rcases resBody_answered (k := i) with ⟨noBody, sent, heq⟩ | ⟨hne, -⟩
            · rw [heq]
              exact sentBytes_bodyOf
            · exact absurd rfl hne
  | @item b i bs fin rx io hs hi ht hw hio =>
      exact (ha.writes hw).item hs i fin
  | @toBody b i limit hs hr hb hh =>
      have hp := ha.position
      rw [Position, hs] at hp
      dsimp only at hp
      rw [hr] at hp
      refine ⟨ha.clean, ha.handles, ?_, ha.bodies, ?_⟩
      · rw [ha.queue, takenOff, takenOff, hs]
        dsimp only
        rw [if_pos hr]
      · rw [hh] at hp
        exact hp
  | @toNext b hs hr hb hh hu =>
      have hp := ha.position
      rw [Position, hs] at hp
      dsimp only at hp
      rw [hr, hh] at hp
      obtain ⟨i, hn, hst⟩ := hp
      refine ⟨ha.clean, ha.handles, ?_, ha.bodies, ?_⟩
      · rw [ha.queue, takenOff, takenOff, hs]
        dsimp only
        rw [if_pos hr]
      · show c.io.stream = remaining replies c.answers.length
        rw [hn]
        exact hst
  | @chunk b n bs limit io hs hc ho hn hl hr hne =>
      have hpos := ha.position
      rw [Position, hs] at hpos
      obtain ⟨i, hlen, hi, r, front, data, hrep, hd, haw, hof⟩ := hpos
      obtain ⟨data', rfl, haw'⟩ := haw.read hwf hn ha.clean hl
      obtain ⟨pre, hr⟩ := hr
      refine ⟨hr.clean ha.clean, ha.handles, ?_, fun k hk => ?_, ?_⟩
      · rw [ha.queue, takenOff, takenOff, hs]
      · dsimp only at hk ⊢
        by_cases hki : k = b.bodyTx
        · rw [hki, atId_self] at hk ⊢
          exact ended_offer (ha.bodies _) hk
        · rw [atId_of_ne hki] at hk ⊢
          exact ha.bodies k hk
      · refine ⟨i, hlen, hi, r, front ++ bs, data', hrep, ?_, haw', ?_⟩
        · rw [hd, List.append_assoc]
        · dsimp only at hi ⊢
          rw [← hi, atId_self]
          rw [← hi] at hof
          intro h0
          rw [receivers_offer] at h0
          rw [sentBytes_offer (ha.bodies _) h0, hof h0]
          rfl
  | @lastRead b n limit io hs hc hn hl hr he =>
      have hpos := ha.position
      rw [Position, hs] at hpos
      obtain ⟨i, hlen, hi, r, front, data, hrep, hd, haw, hof⟩ := hpos
      obtain ⟨data', hdata, haw'⟩ := haw.read hwf hn ha.clean hl
      obtain rfl : data = data' := hdata
      obtain ⟨pre, hr⟩ := hr
      refine ⟨hr.clean ha.clean, ha.handles, ?_, ha.bodies, ?_⟩
      · rw [ha.queue, takenOff, takenOff, hs]
      · exact ⟨i, hlen, hi, r, front, data, hrep, hd, haw', hof⟩
  | bodyEnd hs hc => exact ha.of_eq id rfl rfl rfl rfl rfl fun _ => .refl _
  | @bodyNext b hs hc hm hu =>
      have hpos := ha.position
      rw [Position, hs] at hpos
      obtain ⟨i, hlen, -, r, front, data, hrep, hd, haw, -⟩ := hpos
      have hdrains : ∀ k, Drains (c.resBody k) (atId c.resBody b.bodyTx Chan.dropSender k) :=
        drains_atId drains_dropSender
      refine ⟨ha.clean, ha.handles, ?_, fun k => (hdrains k).ended (ha.bodies k), ?_⟩
      · rw [ha.queue, takenOff, takenOff, hs]
      · show c.io.stream = remaining replies c.answers.length
        rw [hlen]
        exact (haw.complete hc).2

end Moves

end HreqH1.Client
