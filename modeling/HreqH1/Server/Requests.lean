import HreqH1.Framing.Messages
import HreqH1.Server.Accepting
import HreqH1.Server.Truncation

/-!
# Server — what is received

The requests that a peer sends, and what `accept` and the `RecvStream`s make of them: each request that
is handed out is the next one, and what is read of its body is a front of its data, at the end of a
complete body all of it (`requests_received`).

`Aligned calls k c` says that the reader of `c` is where the `k` requests received so far end, or as far
into the body of the last of them as its limiter says.  Every move keeps it but the one that takes a
buffer whole which holds more than is left of its body (`Contained`).
-/

namespace HreqH1.Server
open PollM Runs BufIo RecvStream Relation

/-! ### The channel of a body -/

/-- What the codec does of the channel of a body. -/
inductive Fills (b b' : Chan (Except IoError Bytes)) : Prop where
  | quiet (h : b.Quiet b')
  | offer (bs : Bytes) (h : b' = b.offer (.ok bs))
  | dropSender (h : b' = b.dropSender)

/-- What has been read of a body that is received for a `RecvStream`. -/
structure Shows (out : Bytes) (recv : RecvStream) (b : Chan (Except IoError Bytes)) : Prop where
  alive : b.receivers ≠ 0
  ended : b.ended = false
  shown : Shown out recv b

section Fills
variable {b b' : Chan (Except IoError Bytes)} {out : Bytes} {recv : RecvStream}

theorem Fills.shows (h : Fills b b') (hs : Shows out recv b) : Shows out recv b' := by
  obtain ⟨h0, he, hs⟩ := hs
  cases h with
  | quiet hq => exact ⟨hq.receivers ▸ h0, hq.ended.trans he, hs.congr hq.queue hq.sent⟩
  | offer bs heq =>
      subst heq
      refine ⟨(receivers_offer _).symm ▸ h0, ?_, hs.offer (fun hend => ?_) h0 _⟩
      · rw [Chan.offer, if_neg h0, Chan.ended_enqueue]
        exact he
      · rw [he] at hend
        cases hend
  | dropSender heq =>
      subst heq
      exact ⟨Chan.receivers_dropSender.symm ▸ h0, Chan.ended_dropSender.trans he,
        hs.congr Chan.queue_dropSender Chan.sent_dropSender⟩

/-- A read shows the front of what is held. -/
theorem Shows.read {cx : Waker} {n : Nat} {o : Outcome IoError Bytes} {t : In} (hs : Shows out recv b)
    (hf : recv.Fits b) (hx : pollBodyData cx n (recv, b) = (o, t)) :
    Shows (out ++ shownBytes o) t.1 t.2 := by
  have hr := wp_elim (pollBodyData_reads hf) hx
  exact ⟨hr.receivers ▸ hs.alive, hr.ended.trans hs.ended, hs.shown.read hx⟩

theorem fills_refl : Fills b b := .quiet ⟨rfl, rfl, rfl, rfl, rfl, rfl⟩

theorem fills_deliver (bs : Bytes) : Fills b (deliver bs b) := by
  rw [deliver]
  split
  · exact fills_refl
  · exact .offer bs rfl

theorem fills_passedOn {h : Bidirect} {limit : LimitRead} {bs : Bytes} {c : Conn} :
    ReflTransGen Fills c.body (passedOn h limit bs c).body := by
  have hd : ReflTransGen Fills c.body (deliver bs c.body) := .single (fills_deliver bs)
  rw [passedOn]
  dsimp only
  split
  · exact hd.tail (.dropSender rfl)
  · exact hd

variable [Crates] {c c' : Conn}

theorem Move.fills (h : Move false c c') : ReflTransGen Fills c.body c'.body := by
  cases h with
  | request hs hf hp hwant => cases hwant
  | @chunk h => exact fills_passedOn (h := h)
  | @entire h => exact fills_passedOn (h := h)
  | _ => exact .refl

theorem Stop.fills {r : Halt IoError} (h : Stop r c c') : Fills c.body c'.body := by
  cases h with
  | bodyFull hs hb hq hr ho ha => exact .quiet hq
  | _ => exact fills_refl

omit [Crates] in
theorem body_shut (c : Conn) : (shut c).body = c.body ∨ (shut c).body = c.body.dropSender := by
  have hres : ∀ h : Bidirect, (if h.rxRes then c.dropRes else c).body = c.body := by
    intro h
    split <;> rfl
  rw [shut, Conn.dropState]
  cases c.state with
  | recvReq => exact .inl rfl
  | closed => exact .inl rfl
  | sendBody h => exact .inl rfl
  | sendRes h =>
      dsimp only
      rw [hres]
      split
      · exact .inr rfl
      · exact .inl rfl

omit [Crates] in
theorem fills_shut (c : Conn) : Fills c.body (shut c).body := by
  rcases body_shut c with hb | hb
  · exact hb ▸ fills_refl
  · exact .dropSender hb

theorem ServerPost.fills {r : Outcome IoError (Option Package)} (h : ServerPost false c r c') :
    ReflTransGen Fills c.body c'.body :=
  h.keeps (I := fun c' => ReflTransGen Fills c.body c'.body) (fun _ _ hm hc => hc.trans hm.fills)
    (fun _ _ _ hs hc => hc.tail hs.fills) (fun _ hc => hc.tail (fills_shut _)) .refl

theorem ServerPost.shows {r : Outcome IoError (Option Package)} (h : ServerPost false c r c')
    (hs : Shows out recv c.body) : Shows out recv c'.body :=
  moves_keep (fun _ _ hf => hf.shows) h.fills hs

end Fills

/-! ### Requests -/

/-- A request with its body, as it is sent. -/
abbrev Call : Type := Message Request

/-- The data of the last of `k` requests. -/
def lastData (calls : List Call) : Nat → Bytes
  | 0 => []
  | k + 1 => messageData calls k

/-- The buffer was taken whole for a body, of which no less was left. -/
def Contained : Bytes × LimitRead → Prop
  | (bs, .contentLength v) => v.total + bs.length ≤ v.limit
  | _ => False

instance : DecidablePred Contained := fun p =>
  match p with
  | (bs, .contentLength v) => inferInstanceAs (Decidable (v.total + bs.length ≤ v.limit))
  | (_, .chunkedDecoder _) => .isFalse id
  | (_, .readToEnd _) => .isFalse id
  | (_, .noBody) => .isFalse id

/-- Where the codec is in the requests, `k` of which it has received. -/
def Position (calls : List Call) (k : Nat) (c : Conn) : Prop :=
  match c.state with
  | .closed => True
  | .recvReq => c.io.stream = remaining calls k
  | .sendBody _ => c.io.stream = remaining calls k
  | .sendRes h =>
      match h.txBody with
      | true => ∃ front data, lastData calls k = front ++ data ∧
          h.limit.Awaits c.io data (remaining calls k) ∧
          (c.body.receivers ≠ 0 → sentBytes c.body = front)
      | false => c.io.stream = remaining calls k

/-- What has been put on the channel of the last body. -/
structure Delivered (calls : List Call) (k : Nat) (c : Conn) : Prop where
  clean : Transport.Clean c.io.inner.rx
  front : c.body.receivers ≠ 0 → sentBytes c.body <+: lastData calls k
  whole : c.complete = true → c.body.receivers ≠ 0 → sentBytes c.body = lastData calls k
  ended : c.body.ended = true → c.body.receivers = 0

/-- The codec is aligned with the requests. -/
structure Aligned (calls : List Call) (k : Nat) (c : Conn) : Prop where
  delivered : Delivered calls k c
  position : Position calls k c

section Moves
variable {calls : List Call} {k : Nat} {c c' : Conn} {h : Bidirect} {bs : Bytes}

theorem Delivered.of_eq (hd : Delivered calls k c)
    (hcl : Transport.Clean c.io.inner.rx → Transport.Clean c'.io.inner.rx)
    (hb : Drains c.body c'.body) (hc : c'.complete = c.complete) : Delivered calls k c' where
  clean := hcl hd.clean
  front := fun h0 => hb.sentBytes ▸ hd.front (hb.receivers h0)
  whole := fun hcomp h0 => hb.sentBytes ▸ hd.whole (hc ▸ hcomp) (hb.receivers h0)
  ended := hb.ended hd.ended

/-- What is done of the response leaves the limiter. -/
theorem Position.bidirect {h' : Bidirect} (hp : Position calls k c) (hs : c.state = .sendRes h)
    (hs' : c'.state = .sendRes h') (hl : h'.limit = h.limit) (ht : h'.txBody = h.txBody)
    (hst : c'.io.stream = c.io.stream) (hb : Drains c.body c'.body) : Position calls k c' := by
  rw [Position, hs] at hp
  rw [Position, hs']
  dsimp only at hp ⊢
  rw [ht, hl]
  cases htx : h.txBody with
  | true =>
      rw [htx] at hp
      obtain ⟨front, data, hd, ha, ho⟩ := hp
      exact ⟨front, data, hd, ha.of_stream hst, fun h0 => hb.sentBytes ▸ ho (hb.receivers h0)⟩
  | false =>
      rw [htx] at hp
      exact hst.trans hp

theorem Position.of_eq (hp : Position calls k c) (hst : c'.io.stream = c.io.stream)
    (hs : c'.state = c.state) (hb : Drains c.body c'.body) : Position calls k c' := by
  cases hc : c.state with
  | closed =>
      rw [Position, hs, hc]
      trivial
  | recvReq =>
      rw [Position, hc] at hp
      rw [Position, hs, hc]
      exact hst.trans hp
  | sendBody b =>
      rw [Position, hc] at hp
      rw [Position, hs, hc]
      exact hst.trans hp
  | sendRes b => exact hp.bidirect hc (hs.trans hc) rfl rfl hst hb

theorem Position.receiving (hp : Position calls k c) (hs : c.state = .sendRes h)
    (hb : h.txBody = true) : ∃ front data, lastData calls k = front ++ data ∧
      h.limit.Awaits c.io data (remaining calls k) ∧
      (c.body.receivers ≠ 0 → sentBytes c.body = front) := by
  rw [Position, hs] at hp
  dsimp only at hp
  rw [hb] at hp
  exact hp

theorem Position.past (hp : Position calls k c) (hs : c.state = .sendRes h)
    (hb : h.txBody = false) : c.io.stream = remaining calls k := by
  rw [Position, hs] at hp
  dsimp only at hp
  rw [hb] at hp
  exact hp

theorem position_after {reuse : Bool} (hst : c.io.stream = remaining calls k)
    (hs : c.state = after reuse) : Position calls k c := by
  rw [Position, hs]
  cases reuse with
  | true => exact hst
  | false => trivial

theorem receivers_deliver : (deliver bs c.body).receivers = c.body.receivers := by
  rw [deliver]
  split
  · rfl
  · exact receivers_offer _

theorem sentBytes_deliver (he : c.body.ended = true → c.body.receivers = 0)
    (h0 : c.body.receivers ≠ 0) : sentBytes (deliver bs c.body) = sentBytes c.body ++ bs := by
  rw [deliver]
  split
  · next hnil => rw [List.isEmpty_iff.mp hnil, List.append_nil]
  · exact sentBytes_offer he h0

theorem ended_deliver (h : c.body.ended = true → c.body.receivers = 0)
    (he : (deliver bs c.body).ended = true) : (deliver bs c.body).receivers = 0 := by
  rw [deliver] at he ⊢
  split at he
  · next hnil =>
    rw [if_pos hnil]
    exact h he
  · next hne =>
    rw [if_neg hne]
    exact ended_offer h he

/-- A chunk is passed on, out of a body that the limiter goes on with. -/
theorem aligned_passedOn {limit : LimitRead} {front data : Bytes} (hd : Delivered calls k c)
    (hdata : lastData calls k = front ++ (bs ++ data))
    (ha : limit.Awaits c.io data (remaining calls k))
    (ho : c.body.receivers ≠ 0 → sentBytes c.body = front) :
    Aligned calls k (passedOn h limit bs c) := by
  have hbody : Drains (deliver bs c.body) (passedOn h limit bs c).body := by
    rw [passedOn]
    dsimp only
    split
    · exact drains_dropSender
    · exact .refl _
  have hrecv : (passedOn h limit bs c).body.receivers ≠ 0 → c.body.receivers ≠ 0 := fun h0 =>
    receivers_deliver ▸ hbody.receivers h0
  have hsent : (passedOn h limit bs c).body.receivers ≠ 0 →
      sentBytes (passedOn h limit bs c).body = front ++ bs := fun h0 => by
    rw [hbody.sentBytes, sentBytes_deliver hd.ended (hrecv h0), ho (hrecv h0)]
  refine ⟨⟨hd.clean, fun h0 => ?_, fun hc h0 => ?_, ?_⟩, ?_⟩
  · rw [hsent h0, hdata, ← List.append_assoc]
    exact List.prefix_append _ _
  · rw [hsent h0, hdata]
    rcases (Bool.or_eq_true _ _).mp hc with hc | hc
    · -- A body that is complete has nothing left.
      have hall := hd.whole hc (hrecv h0)
      rw [ho (hrecv h0), hdata] at hall
      have hnil : bs ++ data = [] := List.append_right_eq_self.mp hall.symm
      rw [hnil, (List.append_eq_nil_iff.mp hnil).1]
    · rw [(ha.complete hc).1, List.append_nil]
  · exact hbody.ended (ended_deliver hd.ended)
  · rw [Position]
    cases hc : limit.isComplete with
    | true =>
        rw [passedOn, hc]
        exact (ha.complete hc).2
    | false =>
        have hstate : (passedOn h limit bs c).state = .sendRes { h with limit := limit, txBody := true } := by
          rw [passedOn, hc]
          rfl
        rw [hstate]
        exact ⟨front ++ bs, data, by rw [hdata, List.append_assoc], ha, hsent⟩

variable [Crates]

omit [Crates] in
/-- What a buffer that is taken whole leaves to be read. -/
theorem awaits_entire {l limit : LimitRead} {io io' : BufIo} {data left : Bytes}
    (ha : l.Awaits io data left) (hl : l.acceptEntireVec bs = .ok limit) (hc : Contained (bs, l))
    (hr : Reads bs io io') : ∃ data', data = bs ++ data' ∧ limit.Awaits io' data' left := by
  cases ha with
  | chunked body => exact hc.elim
  | @contentLength v _ _ _ total hlimit stream =>
      have hle : v.total + bs.length ≤ v.limit := hc
      rw [LimitRead.acceptEntireVec, if_pos (Nat.lt_of_le_of_lt hle hlimit)] at hl
      obtain rfl := Except.ok.inj hl
      have hst : data ++ left = bs ++ io'.stream := stream.symm.trans hr.stream
      have hpre : bs <+: data := by
        refine List.prefix_of_prefix_length_le ⟨io'.stream, rfl⟩ ⟨left, hst⟩ ?_
        omega
      obtain ⟨data', rfl⟩ := hpre
      rw [List.append_assoc, List.append_cancel_left_eq] at hst
      rw [List.length_append] at total
      refine ⟨data', rfl, .contentLength ?_ hlimit hst.symm⟩
      show v.total + bs.length + data'.length = v.limit
      omega

theorem Move.aligned (hm : Move false c c') (hcont : ∀ p ∈ c'.entire, Contained p)
    (hwf : c.io.Wf) (ha : Aligned calls k c) : Aligned calls k c' := by
  have hkeep : ∀ {c₁ : Conn}, (Transport.Clean c.io.inner.rx → Transport.Clean c₁.io.inner.rx) →
      c₁.body = c.body → c₁.complete = c.complete → Delivered calls k c₁ := fun hcl hb hc =>
    ha.delivered.of_eq hcl (hb ▸ .refl _) hc
  cases hm with
  | @write io hw ht hi =>
      have hcl : Transport.Clean c.io.inner.rx → Transport.Clean io.inner.rx := fun hcl =>
        hw.reads_eq.2.1 ▸ hcl
      exact ⟨hkeep hcl rfl rfl, ha.position.of_eq hw.stream rfl (.refl _)⟩
  | read hr hp =>
      exact ⟨hkeep hr.clean rfl rfl, ha.position.of_eq hr.stream.symm rfl (.refl _)⟩
  | wake hq => exact ⟨hkeep id rfl rfl, ha.position.of_eq rfl rfl (.refl _)⟩
  | request hs hf hp hwant => cases hwant
  | hangUp hs hr why => exact ⟨hkeep hr.clean rfl rfl, trivial⟩
  | @response h res fin rx io head hs hrx ht hh hw hio hi =>
      have hcl : Transport.Clean c.io.inner.rx → Transport.Clean io.inner.rx := fun hcl =>
        hw.reads_eq.2.1 ▸ hcl
      refine ⟨hkeep hcl rfl rfl, ?_⟩
      exact ha.position.bidirect hs rfl rfl rfl hw.stream (.refl _)
  | @chunk h n bs limit io hs hb ho hn hl hr hc hp hu =>
      obtain ⟨front, data, hd, haw, hof⟩ := ha.position.receiving hs hb
      obtain ⟨data', rfl, haw'⟩ := haw.read hwf hn ha.delivered.clean hl
      obtain ⟨pre, hr⟩ := hr
      exact aligned_passedOn (c := { c with io := io }) (hkeep hr.clean rfl rfl) hd haw' hof
  | @entire h limit io hs hb ho he hl hne hr hu hp =>
      obtain ⟨front, data, hd, haw, hof⟩ := ha.position.receiving hs hb
      obtain ⟨data', rfl, haw'⟩ := awaits_entire haw hl (hcont _ List.mem_cons_self) hr
      exact aligned_passedOn (c := { c with io := io, entire := (c.io.unread, h.limit) :: c.entire })
        (hkeep hr.clean rfl rfl) hd haw' hof
  | responded hs hrx hb hh hn =>
      exact ⟨hkeep id rfl rfl, position_after (ha.position.past hs hb) rfl⟩
  | toBody hs hrx hb hh hn =>
      exact ⟨hkeep id rfl rfl, ha.position.past hs hb⟩
  | @item h bs rx io hs ht hw hio =>
      have hcl : Transport.Clean c.io.inner.rx → Transport.Clean io.inner.rx := fun hcl =>
        hw.reads_eq.2.1 ▸ hcl
      exact ⟨hkeep hcl rfl rfl, ha.position.of_eq hw.stream rfl (.refl _)⟩
  | @lastItem h bs rx io hs ht hw hio hf =>
      have hcl : Transport.Clean c.io.inner.rx → Transport.Clean io.inner.rx := fun hcl =>
        hw.reads_eq.2.1 ▸ hcl
      have hst := ha.position
      rw [Position, hs] at hst
      exact ⟨hkeep hcl rfl rfl, position_after (hw.stream.trans hst) rfl⟩

omit [Crates] in
theorem accepts_contained {l : LimitRead} {io : BufIo} {data left : Bytes}
    (ha : l.Awaits io data left) (hc : Contained (bs, l)) : ∃ limit, l.acceptEntireVec bs = .ok limit := by
  cases ha with
  | chunked body => exact hc.elim
  | @contentLength v _ _ _ total hlimit stream =>
      have hle : v.total + bs.length ≤ v.limit := hc
      exact ⟨_, by rw [LimitRead.acceptEntireVec, if_pos (Nat.lt_of_le_of_lt hle hlimit)]⟩

omit [Crates] in
/-- A limiter does not fail over its body. -/
theorem limit_ready {l limit : LimitRead} {io io' : BufIo} {data left : Bytes} {n : Nat}
    {r : Outcome IoError Bytes} (ha : l.Awaits io data left) (hwf : io.Wf) (hn : n ≠ 0)
    (hcl : Transport.Clean io.inner.rx)
    (hl : LimitRead.pollRead n (l, io) = (r, (limit, io'))) (hr : r ≠ .pending) :
    ∃ bs, r = .ready bs ∧ (bs = [] → limit.isComplete = true) := by
  have hp := wp_elim (LimitRead.pollRead_awaits hwf hn hcl ha) hl
  cases r with
  | ready bs => exact ⟨bs, rfl, hp.choose_spec.2.2⟩
  | pending => exact absurd rfl hr
  | fail e => exact hp.elim
  | panic m => exact hp.elim
  | diverge => exact hp.elim

theorem Stop.delivered {r : Halt IoError} (hst : Stop r c c') (hd : Delivered calls k c) :
    Delivered calls k c' := by
  have hwrites : ∀ {bs io}, Writes bs c.io io → Transport.Clean c.io.inner.rx →
      Transport.Clean io.inner.rx := fun hw hcl => hw.reads_eq.2.1 ▸ hcl
  cases hst with
  | writePending hw ht hpd hlt => exact hd.of_eq (hwrites hw) (.refl _) rfl
  | writeFailed hw ht why => exact hd.of_eq (hwrites hw) (.refl _) rfl
  | grow hs hr hg hm hn => exact hd.of_eq hr.clean (.refl _) rfl
  | headPending hs hr hb hpd hn => exact hd.of_eq hr.clean (.refl _) rfl
  | headMissing hs hr why hk => exact hd.of_eq hr.clean (.refl _) rfl
  | headInvalid hs hf hpn => exact hd.of_eq hf.reads.clean (.refl _) rfl
  | awaitResponse hs hrx hq hn => exact hd
  | noResponse hs hrx hq hq' hn => exact hd.of_eq id (.refl _) rfl
  | responseCut hs hrx ht hw hio hk why hm => exact hd.of_eq (hwrites hw) (.refl _) rfl
  | bodyFull hs hb hq hr ho haw => exact hd.of_eq id (drains_quiet hq) rfl
  | fillPending hs hb ho hr hbl hpd haw hu => exact hd.of_eq hr.clean (.refl _) rfl
  | fillFailed hs hb hr hu => exact hd.of_eq hr.clean (.refl _) rfl
  | limitPending hs hb ho hn hl hr hw haw =>
      obtain ⟨bs, hr⟩ := hr
      exact hd.of_eq hr.clean (.refl _) rfl
  | limitFailed hs hb hn hl hr hk why hm hpd hu =>
      obtain ⟨bs, hr⟩ := hr
      exact hd.of_eq hr.clean (.refl _) rfl
  | entireOverflow hs hb hl hr hpd hu => exact hd.of_eq hr.clean (.refl _) rfl
  | noHolder hs hrx hh => exact hd
  | awaitItem hs hr hq hn => exact hd.of_eq id (.refl _) rfl
  | noItem hs hr hq hn => exact hd.of_eq id (.refl _) rfl
  | itemPending hs ht hw hio hpd hlt hf => exact hd.of_eq (hwrites hw) (.refl _) rfl
  | itemFailed hs ht hw hio why => exact hd.of_eq (hwrites hw) (.refl _) rfl

theorem Stop.position {r : Halt IoError} (hst : Stop r c c') (hr : ∀ e, r ≠ .fail e)
    (hcont : ∀ p ∈ c'.entire, Contained p) (hwf : c.io.Wf) (ha : Aligned calls k c) :
    Position calls k c' := by
  have hp := ha.position
  cases hst with
  | writePending hw ht hpd hlt => exact hp.of_eq hw.stream rfl (.refl _)
  | writeFailed hw ht why => exact absurd rfl (hr _)
  | grow hs hrd hg hm hn => exact hp.of_eq hrd.stream.symm rfl (.refl _)
  | headPending hs hrd hb hpd hn => exact hp.of_eq hrd.stream.symm rfl (.refl _)
  | headMissing hs hrd why hk => exact absurd rfl (hr _)
  | headInvalid hs hf hpn => exact absurd rfl (hr _)
  | awaitResponse hs hrx hq hn => exact hp
  | noResponse hs hrx hq hq' hn => exact absurd rfl (hr _)
  | responseCut hs hrx ht hw hio hk why hm => exact hp.bidirect hs rfl rfl rfl hw.stream (.refl _)
  | @bodyFull _ h body hs hb hq hrc ho haw =>
      exact hp.of_eq rfl rfl (drains_quiet hq)
  | fillPending hs hb ho hrd hbl hpd haw hu => exact hp.of_eq hrd.stream.symm rfl (.refl _)
  | fillFailed hs hb hrd hu => exact absurd rfl (hr _)
  | @limitPending _ h n limit io hs hb ho hn hl hrd hw haw =>
      obtain ⟨front, data, hd, ha', hof⟩ := hp.receiving hs hb
      have ha'' := wp_elim (LimitRead.pollRead_awaits hwf hn ha.delivered.clean ha') hl
      rw [Position]
      dsimp only
      rw [hb]
      exact ⟨front, data, hd, ha'', hof⟩
  | @limitFailed _ _ h n limit io o hs hb hn hl hrd hk why hm hpd hu =>
      obtain ⟨front, data, hd, ha', hof⟩ := hp.receiving hs hb
      obtain ⟨bs, rfl, hc⟩ := limit_ready ha' hwf hn ha.delivered.clean hl why.1
      obtain ⟨hnil, hinc⟩ := why.2 bs rfl
      rw [hc hnil] at hinc
      cases hinc
  | @entireOverflow _ h io m hs hb hl hrd hpd hu =>
      obtain ⟨front, data, hd, ha', hof⟩ := hp.receiving hs hb
      obtain ⟨limit, hok⟩ := accepts_contained ha' (hcont _ List.mem_cons_self)
      cases hl.symm.trans hok
  | noHolder hs hrx hh => exact hp
  | @awaitItem _ h rx hs hrd hq hn => exact hp.of_eq rfl rfl (.refl _)
  | noItem hs hrd hq hn => exact absurd rfl (hr _)
  | itemPending hs ht hw hio hpd hlt hf => exact hp.of_eq hw.stream rfl (.refl _)
  | itemFailed hs ht hw hio why => exact absurd rfl (hr _)

omit [Crates] in
theorem drains_shut (c : Conn) : Drains c.body (shut c).body := by
  rcases body_shut c with hb | hb
  · exact hb ▸ .refl _
  · exact hb ▸ drains_dropSender

/-- The buffers that were taken whole stay on record. -/
theorem Move.entire_suffix {want : Bool} (hm : Move want c c') : c.entire <:+ c'.entire := by
  cases hm with
  | entire hs hb ho he hl hne hr hu hp => exact List.suffix_cons _ _
  | _ => exact List.suffix_refl _

theorem Stop.entire_suffix {r : Halt IoError} (hst : Stop r c c') : c.entire <:+ c'.entire := by
  cases hst with
  | entireOverflow hs hb hl hr hp hu => exact List.suffix_cons _ _
  | _ => exact List.suffix_refl _

omit [Crates] in
theorem entire_shut (c : Conn) : (shut c).entire = c.entire := by
  rw [shut, Conn.dropState]
  cases c.state with
  | recvReq => rfl
  | closed => rfl
  | sendBody h => rfl
  | sendRes h => cases hrx : h.rxRes <;> simp [hrx, Conn.dropRes]

theorem ServerPost.entire_suffix {want : Bool} {r : Outcome IoError (Option Package)}
    (h : ServerPost want c r c') : c.entire <:+ c'.entire :=
  h.keeps (I := fun c' => c.entire <:+ c'.entire) (fun _ _ hm hc => hc.trans hm.entire_suffix)
    (fun _ _ _ hs hc => hc.trans hs.entire_suffix) (fun c hc => (entire_shut c).symm ▸ hc)
    (List.suffix_refl _)

theorem moves_aligned (hm : Moves false c c') (hio : c.io.Sound) (ha : Aligned calls k c)
    (hcont : ∀ p ∈ c'.entire, Contained p) : Aligned calls k c' := by
  refine (moves_keep (I := fun c => c.io.Sound ∧
    ((∀ p ∈ c.entire, Contained p) → Aligned calls k c)) (fun c c' hm hc => ⟨hm.sound hc.1, ?_⟩) hm
    ⟨hio, fun _ => ha⟩).2 hcont
  intro hcont
  exact hm.aligned hcont hc.1.wf (hc.2 fun p hp => hcont p (hm.entire_suffix.subset hp))

theorem moves_sound (hm : Moves false c c') (hio : c.io.Sound) : c'.io.Sound :=
  moves_keep (I := fun c => c.io.Sound) (fun _ _ hm => hm.sound) hm hio

/-- A poll of the codec, of which no buffer is taken whole that holds too much. -/
theorem ServerPost.aligned {r : Outcome IoError (Option Package)} (h : ServerPost false c r c')
    (hio : c.io.Sound) (ha : Aligned calls k c) (hcont : ∀ p ∈ c'.entire, Contained p) :
    Aligned calls k c' := by
  have hstop : ∀ {r c₁ c₂}, Moves false c c₁ → Stop r c₁ c₂ → (∀ p ∈ c₂.entire, Contained p) →
      c₁.io.Wf ∧ Aligned calls k c₁ := fun hm hs hcont =>
    ⟨(moves_sound hm hio).wf,
      moves_aligned hm hio ha fun p hp => hcont p (hs.entire_suffix.subset hp)⟩
  cases r with
  | ready package => exact moves_aligned h.1 hio ha hcont
  | pending =>
      obtain ⟨c₁, hm, hs⟩ := h
      obtain ⟨hwf, ha₁⟩ := hstop hm hs hcont
      exact ⟨hs.delivered ha₁.delivered, hs.position (by simp) hcont hwf ha₁⟩
  | fail e =>
      obtain ⟨c₁, c₂, hm, hs, rfl⟩ := h
      rw [entire_shut] at hcont
      obtain ⟨hwf, ha₁⟩ := hstop hm hs hcont
      refine ⟨(hs.delivered ha₁.delivered).of_eq (fun hcl => ?_) (drains_shut c₂) (complete_shut c₂), ?_⟩
      · rw [io_shut]
        exact hcl
      · rw [Position]
        trivial
  | panic m =>
      obtain ⟨c₁, hm, hs⟩ := h
      obtain ⟨hwf, ha₁⟩ := hstop hm hs hcont
      exact ⟨hs.delivered ha₁.delivered, hs.position (by simp) hcont hwf ha₁⟩
  | diverge => exact h.elim

/-- Well-formed requests. -/
structure Asks (calls : List Call) : Prop where
  heads : ∀ (k : Nat) (m : Call), calls[k]? = some m → m.Heads tryParseReq (leftBefore calls k)
  announced : ∀ (k : Nat) (m : Call), calls[k]? = some m → m.body.Announced m.parsed.headers
  spent : Spent tryParseReq (leftBefore calls calls.length)

/-- **The request that is received is the next one.** -/
theorem Receives.aligned {p : Package} (h : Receives p c c') (hasks : Asks calls)
    (hk : k ≤ calls.length) (ha : Aligned calls k c) :
    (∃ m, calls[k]? = some m ∧ m.parsed = p.1) ∧ Aligned calls (k + 1) c' := by
  obtain ⟨hs, -, io, head, eos, hf, hp, rfl⟩ := h
  have hst := ha.position
  rw [Position, hs] at hst
  have hend : calls[k]? = none → Spent tryParseReq (leftBefore calls k) := by
    intro hnone
    rw [Nat.le_antisymm hk (List.getElem?_eq_none_iff.mp hnone)]
    exact hasks.spent
  obtain ⟨m, hm, hreq, htail⟩ := Message.found hst ha.delivered.clean hf hp (hasks.heads k) hend
  refine ⟨⟨m, hm, hreq⟩, ?_⟩
  have hcl := hf.reads.clean ha.delivered.clean
  have hdata : lastData calls (k + 1) = m.body.data := messageData_of_some hm
  have hrest := remaining_succ hm
  have hann := hasks.announced k m hm
  rw [hreq] at hann
  rcases hann.limit (b := false) (by simp) with ⟨hb, hbytes, hleft⟩ | ⟨hb, haw⟩
  · have hbody : (received p.1 { c with io := io }).body = (Chan.new 1).dropSender := by
      rw [received, hb]
      rfl
    have hnil : lastData calls (k + 1) = [] := hdata.trans (Payload.data_of_bytes hbytes)
    rw [hbytes] at htail
    rw [hleft] at hrest
    refine ⟨⟨hcl, ?_, ?_, ?_⟩, ?_⟩
    · rw [hbody, hnil]
      exact fun _ => List.prefix_refl _
    · rw [hbody, hnil]
      exact fun _ _ => rfl
    · rw [hbody, Chan.ended_dropSender]
      intro he
      cases he
    · have hstate : (received p.1 { c with io := io }).state = .sendRes (.new p.1) := rfl
      have htx : (Bidirect.new p.1).txBody = false := by rw [Bidirect.new, hb]; rfl
      rw [Position, hstate]
      dsimp only
      rw [htx]
      exact htail.trans hrest.symm
  · have hbody : (received p.1 { c with io := io }).body = .new 1 := by
      rw [received, hb]
      rfl
    refine ⟨⟨hcl, ?_, ?_, ?_⟩, ?_⟩
    · rw [hbody]
      exact fun _ => List.nil_prefix
    · rw [received, hb]
      intro hc
      cases hc
    · rw [hbody]
      intro he
      cases he
    · have hstate : (received p.1 { c with io := io }).state = .sendRes (.new p.1) := rfl
      have htx : (Bidirect.new p.1).txBody = true := by rw [Bidirect.new, hb]; rfl
      rw [Position, hstate]
      dsimp only
      rw [htx, hbody, hrest]
      exact ⟨[], m.body.data, hdata, haw io _ htail, fun _ => rfl⟩

omit [Crates] in
/-- Nothing has been read yet of a body that is new. -/
theorem shows_new {b : Chan (Except IoError Bytes)} {recv : RecvStream} (h0 : b.receivers ≠ 0)
    (he : b.ended = false) (hr : recv.ready = none) (hq : b.queue = []) (hs : b.sent = []) :
    Shows [] recv b := by
  refine ⟨h0, he, ?_⟩
  rw [Shown, held, readyBytes, hr, hq, sentBytes, hs]
  rfl

theorem Receives.shows {p : Package} (h : Receives p c c') :
    c'.entire = c.entire ∧ Shows [] p.2.1 c'.body := by
  obtain ⟨-, hrecv, io, head, eos, hf, hp, rfl⟩ := h
  refine ⟨rfl, ?_⟩
  rw [hrecv, received]
  dsimp only
  split
  · exact shows_new (by decide) rfl rfl rfl rfl
  · exact shows_new (by decide) rfl rfl rfl rfl

end Moves

/-! ### The user -/

/-- The requests that are handed out, each with what is read of its body, the last of them first. -/
def tally : List (Request × Bytes) → Obs → List (Request × Bytes)
  | xs, .accepted (.ready (some req)) => (req, []) :: xs
  | x :: xs, .read (.ready bs) => (x.1, x.2 ++ bs) :: xs
  | xs, _ => xs

def handedOut (os : List Obs) : List (Request × Bytes) := os.foldl tally []

/-- What has been read of the last body. -/
def lastRead : List (Request × Bytes) → Bytes
  | [] => []
  | x :: _ => x.2

/-- They are the requests that were sent. -/
def AreSent (calls : List Call) : List (Request × Bytes) → Prop
  | [] => True
  | x :: xs => (∃ m, calls[xs.length]? = some m ∧ m.parsed = x.1 ∧ x.2 <+: m.body.data) ∧
      AreSent calls xs

section AreSent
variable {calls : List Call} {xs : List (Request × Bytes)} {os : List Obs} {o : Obs}

theorem AreSent.get (h : AreSent calls xs) {k : Nat} {x : Request × Bytes}
    (hx : xs.reverse[k]? = some x) :
    ∃ m, calls[k]? = some m ∧ m.parsed = x.1 ∧ x.2 <+: m.body.data := by
  induction xs with
  | nil => cases hx
  | cons y ys ih =>
      rw [List.reverse_cons] at hx
      rcases Nat.lt_or_ge k ys.reverse.length with hk | hk
      · rw [List.getElem?_append_left hk] at hx
        exact ih h.2 hx
      · rw [List.getElem?_append_right hk, List.getElem?_singleton] at hx
        split at hx
        · next h0 =>
          obtain rfl := Option.some.inj hx
          obtain rfl : k = ys.length := by
            rw [List.length_reverse] at hk h0
            omega
          exact h.1
        · cases hx

theorem AreSent.length_le (h : AreSent calls xs) : xs.length ≤ calls.length := by
  cases xs with
  | nil => exact Nat.zero_le _
  | cons x xs =>
      obtain ⟨⟨m, hm, -⟩, -⟩ := h
      exact (List.getElem?_eq_some_iff.mp hm).1

theorem handedOut_concat (os : List Obs) (o : Obs) :
    handedOut (os ++ [o]) = tally (handedOut os) o := by
  rw [handedOut, List.foldl_append]
  rfl

theorem tally_quiet (ha : ∀ req, o ≠ .accepted (.ready (some req))) (hr : ∀ bs, o ≠ .read (.ready bs)) :
    tally xs o = xs := by
  unfold tally
  split
  · next req => exact absurd rfl (ha req)
  · next bs => exact absurd rfl (hr bs)
  · rfl

theorem tally_read {x : Request × Bytes} (r : Outcome IoError Bytes) :
    tally (x :: xs) (.read r) = (x.1, x.2 ++ shownBytes r) :: xs := by
  cases r with
  | ready bs => rfl
  | _ => rw [shownBytes, List.append_nil, tally] <;> simp

end AreSent

section User
variable [VecAlloc] [Crates] {calls : List Call} {os : List Obs} {w : World} {a : Action}

/-- What the user has been told of the requests. -/
structure Received (calls : List Call) (os : List Obs) (w : World) : Prop where
  sane : w.Sane
  fed : w.Fed
  sent : AreSent calls (handedOut os)
  aligned : Aligned calls (handedOut os).length w.conn
  begun : w.recv.isSome = true → handedOut os ≠ []
  shown : ∀ recv, w.recv = some recv → Shows (lastRead (handedOut os)) recv w.conn.body
  whole : os.getLast? = some (.read (.ready [])) → w.conn.complete = true →
    lastRead (handedOut os) = lastData calls (handedOut os).length

variable {o : Obs} {w' : World}

omit [VecAlloc] [Crates] in
/-- Nothing is handed out, and nothing is read. -/
theorem Received.quiet (h : Received calls os w) (hsane : w'.Sane) (hfed : w'.Fed)
    (ha : Aligned calls (handedOut os).length w'.conn)
    (hs : ∀ recv, w'.recv = some recv → w.recv = some recv ∧
      (Shows (lastRead (handedOut os)) recv w.conn.body →
        Shows (lastRead (handedOut os)) recv w'.conn.body))
    (ho : ∀ req, o ≠ .accepted (.ready (some req))) (hr : ∀ bs, o ≠ .read (.ready bs)) :
    Received calls (os ++ [o]) w' := by
  have heq : handedOut (os ++ [o]) = handedOut os := (handedOut_concat os o).trans (tally_quiet ho hr)
  refine ⟨hsane, hfed, heq ▸ h.sent, heq ▸ ha, fun hrecv => ?_, fun recv hrecv => ?_, fun hlast => ?_⟩
  · obtain ⟨recv, hrecv⟩ := Option.isSome_iff_exists.mp hrecv
    rw [heq]
    exact h.begun (by rw [(hs recv hrecv).1]; rfl)
  · obtain ⟨hold, hs⟩ := hs recv hrecv
    rw [heq]
    exact hs (h.shown recv hold)
  · rw [List.getLast?_concat] at hlast
    exact absurd (Option.some.inj hlast) (hr [])

omit [VecAlloc] in
/-- A poll of the codec. -/
theorem Received.polled {r : Outcome IoError (Option Package)} {c : Conn} (h : Received calls os w)
    (hp : ServerPost false w.conn r c) (hcont : ∀ p ∈ c.entire, Contained p)
    (hsane : World.Sane { w with conn := c }) (hfed : World.Fed { w with conn := c })
    (ho : ∀ req, o ≠ .accepted (.ready (some req))) (hr : ∀ bs, o ≠ .read (.ready bs)) :
    Received calls (os ++ [o]) { w with conn := c } :=
  h.quiet hsane hfed (hp.aligned h.sane.sound h.aligned hcont)
    (fun _ hrecv => ⟨hrecv, fun hs => hp.shows hs⟩) ho hr

omit [VecAlloc] [Crates] in
theorem Aligned.drains {k : Nat} {c c' : Conn} (ha : Aligned calls k c) (hb : Drains c.body c'.body)
    (hio : c'.io = c.io) (hs : c'.state = c.state) (hc : c'.complete = c.complete) :
    Aligned calls k c' :=
  ⟨ha.delivered.of_eq (fun h => hio ▸ h) hb hc, ha.position.of_eq (by rw [hio]) hs hb⟩

theorem received_step (hasks : Asks calls) (h : Received calls os w)
    (hcont : ∀ p ∈ (step a w).2.conn.entire, Contained p) :
    Received calls (os ++ [(step a w).1]) (step a w).2 := by
  have hio := h.sane.sound
  have hsane := h.sane.step a
  have hfed := fed_step hio h.fed a
  have ha := step_acts a w
  generalize (step a w).1 = o at ha
  generalize (step a w).2 = w' at ha hcont hsane hfed ⊢
  cases ha with
  | idle =>
      exact h.quiet hsane hfed h.aligned (fun _ hr => ⟨hr, id⟩) (by simp) (by simp)
  | held hh =>
      exact h.quiet hsane hfed h.aligned (fun _ hr => ⟨hr, id⟩) (by simp) (by simp)
  | @accept cx req recv expectsNoBody c hh hp =>
      obtain ⟨c₁, hm, hrec⟩ : ∃ c₁, Moves false w.conn c₁ ∧ Receives _ c₁ c := hp.accepts hio
      obtain ⟨hentire, hshows⟩ := hrec.shows
      have ha₁ := moves_aligned hm hio h.aligned (hentire ▸ hcont)
      obtain ⟨⟨m, hget, hreq⟩, ha'⟩ := hrec.aligned hasks h.sent.length_le ha₁
      have heq : handedOut (os ++ [.accepted (.ready (some req))]) = (req, []) :: handedOut os :=
        handedOut_concat os _
      refine ⟨hsane, hfed, ?_, ?_, fun _ => ?_, ?_, fun hlast => ?_⟩
      · rw [heq]
        exact ⟨⟨m, hget, hreq, List.nil_prefix⟩, h.sent⟩
      · rw [heq]
        exact ha'
      · rw [heq]
        exact List.cons_ne_nil _ _
      · rw [heq]
        rintro recv ⟨⟩
        exact hshows
      · rw [List.getLast?_concat] at hlast
        cases hlast
  | @noAccept cx r c hh hp hr =>
      refine h.polled ((hp.accepts hio).post hr) hcont hsane hfed (fun req ho => ?_) (by simp)
      cases r <;> cases ho
  | close hp => exact h.polled (hp.post hio) hcont hsane hfed (by simp) (by simp)
  | @read cx n recv recv' o r c body hr hp hb hd =>
      have hpost := hp.post hio
      have hfits := (hp.fed hio (h.fed recv hr)).1.holds.fits
      have hdrains : Drains c.body body := drains_pollBodyData hfits hb
      have hac := hpost.aligned hio h.aligned hcont
      have hsc := hpost.shows (h.shown recv hr)
      have hs' : Shows _ recv' body := hsc.read hfits hb
      have ha' : Aligned calls (handedOut os).length { c with body := body } :=
        hac.drains hdrains rfl rfl rfl
      obtain ⟨x, xs, hxs⟩ := List.exists_cons_of_ne_nil (h.begun (by rw [hr]; rfl))
      have heq : handedOut (os ++ [.read o]) = (x.1, x.2 ++ shownBytes o) :: xs := by
        rw [handedOut_concat, hxs, tally_read]
      have hsent := h.sent
      rw [hxs] at hsent hac ha' hsc hs'
      obtain ⟨⟨m, hget, hreq, -⟩, hrest⟩ := hsent
      have hdata : lastData calls (x :: xs).length = m.body.data := messageData_of_some hget
      refine ⟨hsane, hfed, ?_, ?_, fun _ => ?_, ?_, fun hlast hcomp => ?_⟩
      · rw [heq]
        refine ⟨⟨m, hget, hreq, ?_⟩, hrest⟩
        have hall : (x.2 ++ shownBytes o) ++ recv'.held body = sentBytes body := hs'.shown
        have hfront : sentBytes body <+: lastData calls (x :: xs).length := ha'.delivered.front hs'.alive
        rw [hdata, ← hall] at hfront
        exact (List.prefix_append _ _).trans hfront
      · rw [heq]
        exact ha'
      · rw [heq]
        exact List.cons_ne_nil _ _
      · rw [heq]
        rintro recv ⟨⟩
        exact hs'
      · rw [List.getLast?_concat] at hlast
        obtain rfl : o = .ready [] := by simpa using hlast
        obtain ⟨-, hq, hready⟩ := pollBodyData_end hfits hb
        have hall : x.2 ++ recv.held c.body = sentBytes c.body := hsc.shown
        rw [hac.delivered.whole hcomp hsc.alive, held, readyBytes, hready, hq] at hall
        rw [heq]
        exact hall
  | noRead hr hp hne hd =>
      exact h.polled (hp.post hio) hcont hsane hfed (by simp) (by simpa using hne)
  | refused hr hc =>
      exact h.quiet hsane hfed (h.aligned.drains (.refl _) rfl rfl rfl) (fun _ hr => ⟨hr, id⟩)
        (by simp) (by simp)
  | respond hr hc hl =>
      exact h.quiet hsane hfed (h.aligned.drains (.refl _) rfl rfl rfl) (fun _ hr => ⟨hr, id⟩)
        (by simp) (by simp)
  | pushData hs hp =>
      exact h.quiet hsane hfed (h.aligned.drains (.refl _) rfl rfl rfl) (fun _ hr => ⟨hr, id⟩)
        (by simp) (by simp)
  | drive hp hd => exact h.polled (hp.post hio) hcont hsane hfed (by simp) (by simp)
  | dropRecv hr =>
      refine h.quiet hsane hfed (h.aligned.drains drains_dropReceiver rfl rfl rfl) ?_ (by simp) (by simp)
      rintro recv ⟨⟩
  | dropRespond hr =>
      exact h.quiet hsane hfed (h.aligned.drains (.refl _) rfl rfl rfl) (fun _ hr => ⟨hr, id⟩)
        (by simp) (by simp)
  | dropSend hs =>
      exact h.quiet hsane hfed (h.aligned.drains (.refl _) rfl rfl rfl) (fun _ hr => ⟨hr, id⟩)
        (by simp) (by simp)

omit [VecAlloc] [Crates] in
theorem received_handshake {inner : Transport} (hclean : Transport.Clean inner.rx)
    (hrx : inner.coming = calls.flatMap Message.bytes) : Received calls [] (handshake inner) where
  sane := sane_handshake inner
  fed := fun _ hr => by cases hr
  sent := trivial
  aligned := ⟨⟨hclean, fun _ => List.prefix_refl _, fun _ _ => rfl, fun he => by cases he⟩, hrx⟩
  begun := fun hr => by cases hr
  shown := fun _ hr => by cases hr
  whole := fun hl => by cases hl

/-- The record of the buffers that were taken whole goes on. -/
theorem entire_step (hio : w.conn.io.Sound) : w.conn.entire <:+ (step a w).2.conn.entire := by
  have ha := step_acts a w
  generalize (step a w).1 = o at ha
  generalize (step a w).2 = w' at ha ⊢
  cases ha with
  | accept hh hp => exact (hp.post hio).entire_suffix
  | noAccept hh hp hr => exact (hp.post hio).entire_suffix
  | close hp => exact (hp.post hio).entire_suffix
  | read hr hp hb hd => exact (hp.post hio).entire_suffix
  | noRead hr hp hne hd => exact (hp.post hio).entire_suffix
  | drive hp hd => exact (hp.post hio).entire_suffix
  | _ => exact List.suffix_refl _

theorem received_after {inner : Transport} {as : List Action} (hclean : Transport.Clean inner.rx)
    (hrx : inner.coming = calls.flatMap Message.bytes) (hasks : Asks calls)
    (hcont : ∀ p ∈ (Runs.after step as (handshake inner)).conn.entire, Contained p) :
    Received calls (run step as (handshake inner)).1 (Runs.after step as (handshake inner)) := by
  obtain ⟨-, hupto⟩ := along_upto (R := fun w w' : World => w.conn.entire <:+ w'.conn.entire)
    (fun _ => List.suffix_refl _)
    (fun _ _ _ => List.IsSuffix.trans) (I := World.Sane) (fun _ a hw _ => hw.step a)
    (fun _ a hw _ => entire_step hw.sound) (along_true as (handshake inner)) (sane_handshake inner)
  exact run_history (I := Received calls)
    (fun _ _ _ hI hP => received_step hasks hI fun p hp => hcont p (hP.subset hp)) hupto
    (received_handshake hclean hrx)

/-- **What is received is what was sent.**  The peer sends requests with their bodies, one after the
other and in whatever pieces, and no buffer that is taken whole holds more than is left of its body: the
requests that `accept` hands out are those, in their order, what is read of a body is a front of the
data of its request, and where the end is read of a body that is complete, all of it. -/
theorem requests_received (inner : Transport) (as : List Action) (calls : List Call)
    (hclean : Transport.Clean inner.rx) (hrx : inner.coming = calls.flatMap Message.bytes)
    (hasks : Asks calls)
    (hcont : ∀ p ∈ (Runs.after step as (handshake inner)).conn.entire, Contained p) :
    let w := Runs.after step as (handshake inner)
    let os := (run step as (handshake inner)).1
    (∀ (k : Nat) (x : Request × Bytes), (handedOut os).reverse[k]? = some x →
        ∃ m, calls[k]? = some m ∧ m.parsed = x.1 ∧ x.2 <+: m.body.data) ∧
      (os.getLast? = some (.read (.ready [])) → w.conn.complete = true →
        lastRead (handedOut os) = lastData calls (handedOut os).length) := by
  intro w os
  have h : Received calls os w := received_after hclean hrx hasks hcont
  exact ⟨fun k x hx => h.sent.get hx, h.whole⟩

/-- A request with a body of ten bytes. -/
def postCall : Call :=
  ⟨postHead, ⟨.post, ⟨none, none, none, some (ascii "/")⟩, .http11,
    [(ascii "content-length", ascii "10")]⟩, .sized (ascii "helloworld")⟩

/-- A peer that sends it in two pieces, of which the second is taken whole. -/
def twoPieces : Transport :=
  ⟨[.data (postHead ++ ascii "hello"), .data (ascii "world")], false, [], [], 0⟩

/-- The body is read to its end. -/
def readPieces : List Action := [.accept 0, .read 0 9, .read 0 9, .read 0 9]

omit [VecAlloc] [Crates] in
theorem postCall_asks :
    letI := postCrates
    Asks [postCall] := by
  refine @Asks.mk postCrates _ (fun k m hm => ?_) (fun k m hm => ?_) ⟨?_, ?_⟩
  · cases k with
    | zero =>
        obtain rfl : postCall = m := Option.some.inj hm
        refine ⟨?_, by decide +kernel⟩
        rw [HeadEnd]
        decide +kernel
    | succ k => cases hm
  · cases k with
    | zero =>
        obtain rfl : postCall = m := Option.some.inj hm
        refine ⟨by decide +kernel, ascii "10", by decide +kernel, ?_, by decide +kernel⟩
        rw [PlainDecimal]
        decide +kernel
    | succ k => cases hm
  · rw [NoEnd]
    decide +kernel
  · have hnone : @tryParseReq postCrates [] true = .ok none := by decide +kernel
    exact fun x hx => absurd (hnone.symm.trans hx) (by simp)

omit [VecAlloc] [Crates] in
theorem readPieces_run :
    letI := VecAlloc.amortized
    letI := postCrates
    let w := Runs.after step readPieces (handshake twoPieces)
    let os := (run step readPieces (handshake twoPieces)).1
    (∀ p ∈ w.conn.entire, Contained p) ∧ os.getLast? = some (.read (.ready [])) ∧
      w.conn.complete = true ∧ w.conn.entire.map Prod.fst = [ascii "world"] :=
  ⟨by decide +kernel, by decide +kernel, by decide +kernel, by decide +kernel⟩

omit [VecAlloc] [Crates] in
theorem readPieces_received :
    letI := VecAlloc.amortized
    letI := postCrates
    lastRead (handedOut (run step readPieces (handshake twoPieces)).1) = ascii "helloworld" := by
  have h := @requests_received VecAlloc.amortized postCrates twoPieces readPieces [postCall]
    (by simp [twoPieces, Transport.Clean, postHead, ascii]) (by decide +kernel) postCall_asks
    readPieces_run.1
  have hlen : (handedOut (@run _ _ _ (@step VecAlloc.amortized postCrates) readPieces
      (handshake twoPieces)).1).length = 1 := by decide +kernel
  refine (h.2 readPieces_run.2.1 readPieces_run.2.2.1).trans ?_
  rw [hlen]
  rfl

end User

end HreqH1.Server
